import PersonalDashboard.GroupedSums
import Mathlib.Data.List.Nodup

/-! Maps that keep their keys in the order in which they were first set, and sums
that are collected in them. -/

set_option autoImplicit false
namespace PersonalDashboard.OrderedMaps

open PersonalDashboard.GroupedSums

variable {κ β : Type} [DecidableEq κ]

@[ext]
structure OrderedMap (κ β : Type) where
  entries : List (κ × β)
  nodup : (entries.map Prod.fst).Nodup

namespace OrderedMap

def empty : OrderedMap κ β :=
  ⟨[], List.nodup_nil⟩

def keys (m : OrderedMap κ β) : List κ :=
  m.entries.map Prod.fst

def get (m : OrderedMap κ β) (k : κ) : Option β :=
  (m.entries.find? fun e => e.1 = k).map Prod.snd

def has (m : OrderedMap κ β) (k : κ) : Bool :=
  (m.get k).isSome

def replace (k : κ) (v : β) (e : κ × β) : κ × β :=
  if e.1 = k then (k, v) else e

theorem map_fst_replace (k : κ) (v : β) (l : List (κ × β)) :
    (l.map (replace k v)).map Prod.fst = l.map Prod.fst := by
  rw [List.map_map]
  apply List.map_congr_left
  intro e _
  by_cases he : e.1 = k
  · simp [replace, he]
  · simp [replace, he]

def set (m : OrderedMap κ β) (k : κ) (v : β) : OrderedMap κ β :=
  if h : k ∈ m.keys then ⟨m.entries.map (replace k v), by rw [map_fst_replace]; exact m.nodup⟩
  else ⟨m.entries ++ [(k, v)], by
    rw [List.map_append, List.nodup_append]
    refine ⟨m.nodup, List.nodup_singleton k, fun k' hk' k'' hk'' heq => h ?_⟩
    have hk : k' = k := heq.trans (List.mem_singleton.mp hk'')
    exact hk ▸ hk'⟩

def ofList (l : List (κ × β)) : OrderedMap κ β :=
  l.foldl (fun m e => m.set e.1 e.2) empty

variable {m : OrderedMap κ β} {k k' : κ} {v v' : β}

theorem mem_entries : (k, v) ∈ m.entries ↔ m.get k = some v := by
  rw [get, Option.map_eq_some_iff]
  constructor
  · intro h
    cases hfind : m.entries.find? fun e => e.1 = k with
    | none => simpa using List.find?_eq_none.mp hfind _ h
    | some e =>
        have hkey : e.1 = k := by simpa using List.find?_some hfind
        have heq : e = (k, v) :=
          List.inj_on_of_nodup_map m.nodup (List.mem_of_find?_eq_some hfind) h hkey
        exact ⟨e, rfl, congrArg Prod.snd heq⟩
  · rintro ⟨e, hfind, rfl⟩
    have hkey : e.1 = k := by simpa using List.find?_some hfind
    rw [← hkey]
    exact List.mem_of_find?_eq_some hfind

omit [DecidableEq κ] in
theorem mem_keys_of_mem (h : (k, v) ∈ m.entries) : k ∈ m.keys :=
  List.mem_map.mpr ⟨(k, v), h, rfl⟩

theorem mem_entries_set :
    (k', v') ∈ (m.set k v).entries ↔ k' = k ∧ v' = v ∨ k' ≠ k ∧ (k', v') ∈ m.entries := by
  unfold set
  split
  · rename_i hk
    rw [List.mem_map]
    constructor
    · rintro ⟨e, he, heq⟩
      by_cases hek : e.1 = k
      · rw [replace, if_pos hek] at heq
        obtain ⟨rfl, rfl⟩ := Prod.mk.inj heq
        exact Or.inl ⟨rfl, rfl⟩
      · rw [replace, if_neg hek] at heq
        subst heq
        exact Or.inr ⟨hek, he⟩
    · rintro (⟨rfl, rfl⟩ | ⟨hne, he⟩)
      · obtain ⟨e, he, hek⟩ := List.mem_map.mp hk
        exact ⟨e, he, if_pos hek⟩
      · exact ⟨(k', v'), he, if_neg hne⟩
  · rename_i hk
    rw [List.mem_append, List.mem_singleton, Prod.mk.injEq]
    constructor
    · rintro (he | ⟨rfl, rfl⟩)
      · exact Or.inr ⟨fun heq => hk (heq ▸ mem_keys_of_mem he), he⟩
      · exact Or.inl ⟨rfl, rfl⟩
    · rintro (⟨rfl, rfl⟩ | ⟨_, he⟩)
      · exact Or.inr ⟨rfl, rfl⟩
      · exact Or.inl he

@[simp]
theorem get_empty : (empty : OrderedMap κ β).get k = none :=
  rfl

theorem get_set (m : OrderedMap κ β) (k k' : κ) (v : β) :
    (m.set k v).get k' = if k' = k then some v else m.get k' := by
  apply Option.ext
  intro v'
  rw [← mem_entries, mem_entries_set]
  by_cases hk : k' = k
  · simp [hk, eq_comm]
  · simp [hk, mem_entries]

@[simp]
theorem get_set_self (m : OrderedMap κ β) (k : κ) (v : β) : (m.set k v).get k = some v := by
  rw [get_set, if_pos rfl]

theorem get_set_of_ne (m : OrderedMap κ β) (h : k' ≠ k) (v : β) :
    (m.set k v).get k' = m.get k' := by
  rw [get_set, if_neg h]

theorem get_foldl_set_of_not_mem {l : List (κ × β)} (h : k ∉ l.map Prod.fst)
    (m : OrderedMap κ β) : (l.foldl (fun m e => m.set e.1 e.2) m).get k = m.get k := by
  induction l generalizing m with
  | nil => rfl
  | cons e l ih =>
      obtain ⟨hne, hl⟩ := not_or.mp (mt List.mem_cons.mpr h)
      exact (ih hl _).trans (get_set_of_ne m hne _)

theorem exists_get_foldl_set {l : List (κ × β)} (h : k ∈ l.map Prod.fst) (m : OrderedMap κ β) :
    ∃ v, (k, v) ∈ l ∧ (l.foldl (fun m e => m.set e.1 e.2) m).get k = some v := by
  induction l generalizing m with
  | nil => cases h
  | cons e l ih =>
      by_cases hl : k ∈ l.map Prod.fst
      · obtain ⟨v, hv, hget⟩ := ih hl (m.set e.1 e.2)
        exact ⟨v, List.mem_cons_of_mem e hv, hget⟩
      · obtain rfl : k = e.1 := (List.mem_cons.mp h).resolve_right hl
        exact ⟨e.2, List.mem_cons_self, (get_foldl_set_of_not_mem hl _).trans (get_set_self m _ _)⟩

theorem get_ofList_of_mem {l : List (κ × β)} (h : ∀ v', (k, v') ∈ l → v' = v)
    (hkv : (k, v) ∈ l) : (ofList l).get k = some v := by
  obtain ⟨v', hv', hget⟩ := exists_get_foldl_set (List.mem_map_of_mem (f := Prod.fst) hkv) empty
  rw [ofList, hget, h v' hv']

theorem get_ofList_eq_some {l : List (κ × β)} (h : (ofList l).get k = some v) : (k, v) ∈ l := by
  by_cases hk : k ∈ l.map Prod.fst
  · obtain ⟨v', hv', hget⟩ := exists_get_foldl_set hk empty
    obtain rfl := Option.some.inj (hget.symm.trans h)
    exact hv'
  · rw [ofList, get_foldl_set_of_not_mem hk, get_empty] at h
    cases h

section Sums

variable {α M : Type} [AddCommMonoid M] (key : α → Option κ) (f : α → M)

/-- Add the value of a row to the sum of its key, if it has one. -/
def accumulate (m : OrderedMap κ M) (a : α) : OrderedMap κ M :=
  match key a with
  | none => m
  | some k => m.set k ((m.get k).getD 0 + f a)

theorem get_foldl_accumulate (rows : List α) (m : OrderedMap κ M) (k : κ) :
    ((rows.foldl (accumulate key f) m).get k).getD 0 =
      (m.get k).getD 0 + sumOf (fun a => if key a = some k then f a else 0) rows := by
  induction rows generalizing m with
  | nil => rw [List.foldl_nil, sumOf_nil, add_zero]
  | cons a rows ih =>
      rw [List.foldl_cons, ih, sumOf_cons, ← add_assoc]
      congr 1
      cases hkey : key a with
      | none => simp [accumulate, hkey]
      | some k' =>
          by_cases hk : k = k'
          · simp [accumulate, hkey, hk]
          · simp [accumulate, hkey, get_set_of_ne m hk, Ne.symm hk]

end Sums

end OrderedMap

end PersonalDashboard.OrderedMaps
