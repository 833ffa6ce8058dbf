import Mathlib.Control.Basic
import Mathlib.Data.List.Basic
import Mathlib.Data.List.TakeWhile

/-! Readers that take a beginning of a text off, and texts cut at their ends. -/

set_option autoImplicit false
namespace PersonalDashboard.TextReaders

/-- The text without the characters of a kind at its beginning and its end. -/
def strip (p : Char → Bool) (l : List Char) : List Char :=
  ((l.dropWhile p).reverse.dropWhile p).reverse

section Strip

variable {p : Char → Bool} {l : List Char}

theorem exists_dropWhile (p : Char → Bool) (l : List Char) :
    ∃ a, l = a ++ l.dropWhile p ∧ ∀ c ∈ a, p c :=
  ⟨l.takeWhile p, List.takeWhile_append_dropWhile.symm, fun _ hc => List.mem_takeWhile_imp hc⟩

theorem dropWhile_of_head? (h : ∀ c ∈ l.head?, p c = false) : l.dropWhile p = l := by
  cases l with
  | nil => rfl
  | cons c l => exact List.dropWhile_cons_of_neg (by simp [h c rfl])

theorem exists_strip (p : Char → Bool) (l : List Char) :
    ∃ a b, l = a ++ strip p l ++ b ∧ (∀ c ∈ a, p c) ∧ ∀ c ∈ b, p c := by
  obtain ⟨a, ha, hpa⟩ := exists_dropWhile p l
  obtain ⟨b, hb, hpb⟩ := exists_dropWhile p (l.dropWhile p).reverse
  refine ⟨a, b.reverse, ?_, hpa, fun c hc => hpb c (List.mem_reverse.mp hc)⟩
  rw [strip, List.append_assoc, ← List.reverse_append, ← hb, List.reverse_reverse, ← ha]

theorem strip_eq_self (h : ∀ c ∈ l, p c = false) : strip p l = l := by
  have hdrop : ∀ {l' : List Char}, (∀ c ∈ l', c ∈ l) → l'.dropWhile p = l' := by
    intro l' hl'
    exact dropWhile_of_head? fun c hc => h c (hl' c (List.mem_of_mem_head? hc))
  rw [strip, hdrop fun c hc => hc, hdrop fun c hc => List.mem_reverse.mp hc, List.reverse_reverse]

theorem strip_append {a b : List Char} (ha : ∀ c ∈ a, p c) (hb : ∀ c ∈ b, p c) :
    strip p (a ++ l ++ b) = strip p l := by
  have hnil : b.dropWhile p = [] := List.dropWhile_eq_nil_iff.mpr hb
  have hnil' : b.reverse.dropWhile p = [] :=
    List.dropWhile_eq_nil_iff.mpr fun c hc => hb c (List.mem_reverse.mp hc)
  have hrev : (b.reverse ++ (l.dropWhile p).reverse).dropWhile p =
      (l.dropWhile p).reverse.dropWhile p := by
    rw [List.dropWhile_append, hnil', List.isEmpty_nil, if_pos rfl]
  rw [strip, strip, List.append_assoc, List.dropWhile_append_of_pos ha, List.dropWhile_append]
  split
  · rename_i hempty
    rw [hnil, List.isEmpty_iff.mp hempty]
  · rw [List.reverse_append, hrev]

theorem strip_strip {q : Char → Bool} (h : ∀ c, q c → p c) : strip p (strip q l) = strip p l := by
  obtain ⟨a, b, hl, ha, hb⟩ := exists_strip q l
  conv_rhs => rw [hl]
  rw [strip_append (fun c hc => h c (ha c hc)) fun c hc => h c (hb c hc)]

theorem head?_strip : ∀ c ∈ (strip p l).head?, p c = false := by
  obtain ⟨b, hb, -⟩ := exists_dropWhile p (l.dropWhile p).reverse
  have hl : l.dropWhile p = strip p l ++ b.reverse := by
    rw [strip, ← List.reverse_append, ← hb, List.reverse_reverse]
  intro c hc
  have hhead : (l.dropWhile p).head? = some c := by
    rw [hl, List.head?_append, hc, Option.some_or]
  have hnot := List.head?_dropWhile_not p l
  rw [hhead] at hnot
  simpa using hnot

theorem mem_strip {c : Char} (hc : p c = false) : c ∈ strip p l ↔ c ∈ l := by
  obtain ⟨a, b, hl, ha, hb⟩ := exists_strip p l
  have hna : c ∉ a := fun h => Bool.false_ne_true (hc.symm.trans (ha c h))
  have hnb : c ∉ b := fun h => Bool.false_ne_true (hc.symm.trans (hb c h))
  conv_rhs => rw [hl]
  rw [List.mem_append, List.mem_append, or_iff_left hnb, or_iff_right hna]

end Strip

/-- A reader takes a beginning of the text off, or fails. -/
abbrev Reader (α : Type) :=
  StateT (List Char) Option α

namespace Reader

/-- The value of a text that the reader takes off as a whole. -/
def parse {α : Type} (r : Reader α) (s : List Char) : Option α :=
  match r.run s with
  | some (a, []) => some a
  | _ => none

def Takes {α : Type} (P : Char → Prop) (r : Reader α) : Prop :=
  ∀ s a rest, r.run s = some (a, rest) → ∃ used, s = used ++ rest ∧ ∀ c ∈ used, P c

variable {α β : Type} {P : Char → Prop}

theorem parse_eq_some {r : Reader α} {s : List Char} {a : α} :
    r.parse s = some a ↔ r.run s = some (a, []) := by
  unfold parse
  split
  · rename_i b h
    rw [h, Option.some.injEq, Option.some.injEq, Prod.mk.injEq, and_iff_left rfl]
  · rename_i hne
    exact iff_of_false (fun h => (nomatch h)) fun h => hne a h

theorem Takes.of_parse {r : Reader α} (hr : Takes P r) {s : List Char} {a : α}
    (h : r.parse s = some a) : ∀ c ∈ s, P c := by
  obtain ⟨used, hs, hused⟩ := hr s a [] (parse_eq_some.mp h)
  rwa [hs, List.append_nil]

theorem takes_pure (a : α) : Takes P (pure a : Reader α) := by
  intro s b rest h
  obtain ⟨-, rfl⟩ := Prod.mk.inj (Option.some.inj h)
  exact ⟨[], rfl, fun _ hc => (nomatch hc)⟩

theorem takes_failure : Takes P (failure : Reader α) := by
  intro s a rest h
  cases h

theorem Takes.bind {r : Reader α} {f : α → Reader β} (hr : Takes P r) (hf : ∀ a, Takes P (f a)) :
    Takes P (r >>= f) := by
  intro s b rest h
  rw [StateT.run_bind] at h
  obtain ⟨⟨a, mid⟩, ha, hb⟩ := Option.bind_eq_some_iff.mp h
  obtain ⟨used, rfl, hused⟩ := hr s a mid ha
  obtain ⟨used', rfl, hused'⟩ := hf a mid b rest hb
  refine ⟨used ++ used', (List.append_assoc _ _ _).symm, fun c hc => ?_⟩
  exact (List.mem_append.mp hc).elim (hused c) (hused' c)

theorem Takes.map {r : Reader α} (f : α → β) (hr : Takes P r) : Takes P (f <$> r) := by
  rw [map_eq_pure_bind]
  exact hr.bind fun a => takes_pure (f a)

theorem run_orElse (r r' : Reader α) (s : List Char) :
    (r <|> r').run s = (r.run s).or (r'.run s) := by
  change (r s <|> r' s) = (r s).or (r' s)
  cases r s <;> rfl

theorem Takes.orElse {r r' : Reader α} (hr : Takes P r) (hr' : Takes P r') :
    Takes P (r <|> r') := by
  intro s a rest h
  rw [run_orElse, Option.or_eq_some_iff] at h
  rcases h with h | ⟨-, h⟩
  · exact hr s a rest h
  · exact hr' s a rest h

def given (c : Char) : Reader Unit := fun
  | d :: rest => if d = c then some ((), rest) else none
  | [] => none

theorem run_given_self (c : Char) (l : List Char) : (given c).run (c :: l) = some ((), l) :=
  if_pos rfl

theorem run_given_of_ne {c d : Char} (h : d ≠ c) (l : List Char) : (given c).run (d :: l) = none :=
  if_neg h

theorem run_given {c : Char} {s rest : List Char} {u : Unit}
    (h : (given c).run s = some (u, rest)) : s = c :: rest := by
  cases s with
  | nil => cases h
  | cons d l =>
      change (if d = c then some ((), l) else none) = some (u, rest) at h
      obtain ⟨rfl, heq⟩ := Option.ite_none_right_eq_some.mp h
      obtain ⟨-, rfl⟩ := Prod.mk.inj (Option.some.inj heq)
      rfl

theorem takes_given {c : Char} (hc : P c) : Takes P (given c) := by
  intro s u rest h
  exact ⟨[c], run_given h, fun d hd => List.mem_singleton.mp hd ▸ hc⟩

theorem takes_mapM {γ : Type} {f : γ → Reader α} (hf : ∀ x, Takes P (f x)) (l : List γ) :
    Takes P (l.mapM f) := by
  induction l with
  | nil => exact takes_pure []
  | cons x l ih =>
      rw [List.mapM_cons]
      exact (hf x).bind fun _ => ih.bind fun _ => takes_pure _

end Reader

end PersonalDashboard.TextReaders
