import Mathlib.Data.List.AList
import Mathlib.Algebra.BigOperators.Group.Finset.Basic

set_option autoImplicit false

namespace PersonalDashboard.RowStore

variable {κ : Type} {ρ : κ → Type}

/-- A finite keyed table: at most one row for every key, of the key's own row
type. -/
abbrev Store (ρ : κ → Type) := AList ρ

/-- A pending change of one row: `some` stores a new version, `none` deletes
the row. -/
structure Write (ρ : κ → Type) where
  key : κ
  row : Option (ρ key)

def total {M : Type} [AddCommGroup M] (f : (k : κ) → ρ k → M) (s : Store ρ) : M :=
  (s.entries.map fun e => f e.1 e.2).sum

/-- The weight of the row stored under a key, zero when there is none. -/
def weight {M : Type} [AddCommGroup M] (f : (k : κ) → ρ k → M) (k : κ) :
    Option (ρ k) → M
  | some r => f k r
  | none => 0

@[simp]
theorem weight_some {M : Type} [AddCommGroup M] (f : (k : κ) → ρ k → M) (k : κ)
    (r : ρ k) : weight f k (some r) = f k r :=
  rfl

@[simp]
theorem weight_none {M : Type} [AddCommGroup M] (f : (k : κ) → ρ k → M) (k : κ) :
    weight f k none = 0 :=
  rfl

theorem weight_eq_zero {M : Type} [AddCommGroup M] {f : (k : κ) → ρ k → M} {k : κ}
    (h : ∀ r, f k r = 0) (r : Option (ρ k)) : weight f k r = 0 := by
  cases r with
  | none => rfl
  | some r => exact h r

variable [DecidableEq κ]

def put (s : Store ρ) (k : κ) : Option (ρ k) → Store ρ
  | some r => s.insert k r
  | none => s.erase k

@[simp]
theorem lookup_put_self (s : Store ρ) (k : κ) (r : Option (ρ k)) :
    (put s k r).lookup k = r := by
  cases r with
  | none => exact AList.lookup_erase k s
  | some r => exact AList.lookup_insert s

@[simp]
theorem lookup_put_of_ne {s : Store ρ} {k k' : κ} (h : k ≠ k') (r : Option (ρ k')) :
    (put s k' r).lookup k = s.lookup k := by
  cases r with
  | none => exact AList.lookup_erase_ne h
  | some r => exact AList.lookup_insert_ne h

/-- The store after a list of pending changes, the oldest first. -/
def applyAll (s : Store ρ) (ws : List (Write ρ)) : Store ρ :=
  ws.foldl (fun s w => put s w.key w.row) s

@[simp]
theorem applyAll_nil (s : Store ρ) : applyAll s [] = s :=
  rfl

@[simp]
theorem applyAll_cons (s : Store ρ) (w : Write ρ) (ws : List (Write ρ)) :
    applyAll s (w :: ws) = applyAll (put s w.key w.row) ws :=
  rfl

@[simp]
theorem applyAll_append (s : Store ρ) (ws ws' : List (Write ρ)) :
    applyAll s (ws ++ ws') = applyAll (applyAll s ws) ws' := by
  simp [applyAll]

theorem lookup_applyAll_of_forall_ne {k : κ} {ws : List (Write ρ)}
    (h : ∀ w ∈ ws, w.key ≠ k) (s : Store ρ) :
    (applyAll s ws).lookup k = s.lookup k := by
  induction ws generalizing s with
  | nil => rfl
  | cons w ws ih =>
      have hne : k ≠ w.key := fun e => h w (by simp) e.symm
      rw [applyAll_cons, ih (fun w' hw' => h w' (by simp [hw'])),
        lookup_put_of_ne hne]

theorem lookup_applyAll_congr {s t : Store ρ} {k : κ} (h : s.lookup k = t.lookup k)
    (ws : List (Write ρ)) :
    (applyAll s ws).lookup k = (applyAll t ws).lookup k := by
  induction ws generalizing s t with
  | nil => exact h
  | cons w ws ih =>
      apply ih
      by_cases hk : k = w.key
      · subst hk
        simp
      · simp [hk, h]

section Totals

variable {M : Type} [AddCommGroup M]

theorem total_eq_sum (f : (k : κ) → ρ k → M) (s : Store ρ) {K : Finset κ}
    (hK : s.keys.toFinset ⊆ K) : total f s = ∑ k ∈ K, weight f k (s.lookup k) := by
  have hkeys : total f s = (s.keys.map fun k => weight f k (s.lookup k)).sum := by
    simp only [total, AList.keys, List.keys, List.map_map]
    refine congrArg List.sum (List.map_congr_left fun e he => ?_)
    have hlookup : s.lookup e.1 = some e.2 := AList.mem_lookup_iff.mpr he
    simp [hlookup]
  rw [hkeys, ← List.sum_toFinset _ s.keys_nodup]
  refine Finset.sum_subset hK fun k _ hk => ?_
  have hnone : s.lookup k = none := AList.lookup_eq_none.mpr fun h => hk (List.mem_toFinset.mpr h)
  rw [hnone, weight_none]

theorem total_shift {f : (k : κ) → ρ k → M} {s t : Store ρ} {k₀ : κ}
    (h : ∀ k, k ≠ k₀ → weight f k (t.lookup k) = weight f k (s.lookup k)) :
    total f t = total f s + (weight f k₀ (t.lookup k₀) - weight f k₀ (s.lookup k₀)) := by
  let K := insert k₀ (s.keys.toFinset ∪ t.keys.toFinset)
  have hs : s.keys.toFinset ⊆ K :=
    Finset.subset_union_left.trans (Finset.subset_insert _ _)
  have ht : t.keys.toFinset ⊆ K :=
    Finset.subset_union_right.trans (Finset.subset_insert _ _)
  rw [total_eq_sum f s hs, total_eq_sum f t ht, ← sub_eq_iff_eq_add', ← Finset.sum_sub_distrib]
  refine Finset.sum_eq_single_of_mem k₀ (Finset.mem_insert_self _ _) fun k _ hk => ?_
  rw [h k hk, sub_self]

theorem total_congr {f : (k : κ) → ρ k → M} {s t : Store ρ}
    (h : ∀ k, weight f k (t.lookup k) = weight f k (s.lookup k)) : total f t = total f s := by
  have hs : s.keys.toFinset ⊆ s.keys.toFinset ∪ t.keys.toFinset := Finset.subset_union_left
  have ht : t.keys.toFinset ⊆ s.keys.toFinset ∪ t.keys.toFinset := Finset.subset_union_right
  rw [total_eq_sum f s hs, total_eq_sum f t ht, Finset.sum_congr rfl fun k _ => h k]

end Totals

end PersonalDashboard.RowStore
