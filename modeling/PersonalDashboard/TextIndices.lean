import Mathlib.Data.List.Basic

/-! Indices of values in a sequence, and slices of it. -/

set_option autoImplicit false
namespace PersonalDashboard.TextIndices

variable {α : Type} [DecidableEq α]

def indexOf (l : List α) (a : α) : Int :=
  if a ∈ l then l.idxOf a else -1

def lastIndexOf (l : List α) (a : α) : Int :=
  if a ∈ l then l.length - 1 - l.reverse.idxOf a else -1

/-- An index of a slice; a negative one counts from the end. -/
def sliceIndex (n : Nat) (i : Int) : Nat :=
  if i < 0 then (n + i).toNat else min i.toNat n

def slice (l : List α) (start stop : Int) : List α :=
  (l.take (sliceIndex l.length stop)).drop (sliceIndex l.length start)

variable {a : α} {s s' t t' : List α}

theorem indexOf_of_notMem (h : a ∉ s) : indexOf s a = -1 := by
  rw [indexOf, if_neg h]

theorem lastIndexOf_of_notMem (h : a ∉ s) : lastIndexOf s a = -1 := by
  rw [lastIndexOf, if_neg h]

theorem indexOf_append_cons (h : a ∉ s) : indexOf (s ++ a :: t) a = s.length := by
  rw [indexOf, if_pos (List.mem_append_right s List.mem_cons_self),
    List.idxOf_append_of_notMem h, List.idxOf_cons_self, Nat.add_zero]

theorem lastIndexOf_append_cons (h : a ∉ t) : lastIndexOf (s ++ a :: t) a = s.length := by
  have hrev : (s ++ a :: t).reverse.idxOf a = t.length := by
    rw [List.reverse_append, List.reverse_cons, List.append_assoc,
      List.idxOf_append_of_notMem (fun hmem => h (List.mem_reverse.mp hmem)), List.singleton_append,
      List.idxOf_cons_self, List.length_reverse, Nat.add_zero]
  rw [lastIndexOf, if_pos (List.mem_append_right s List.mem_cons_self), hrev, List.length_append,
    List.length_cons]
  omega

theorem indexOf_eq_lastIndexOf_iff (h : a ∉ s) :
    indexOf (s ++ a :: t) a = lastIndexOf (s ++ a :: t) a ↔ a ∉ t := by
  constructor
  · intro heq hmem
    obtain ⟨v, u, hv, hnot⟩ := List.eq_append_cons_of_mem (List.mem_reverse.mpr hmem)
    have ht : t = u.reverse ++ a :: v.reverse := by
      rw [← List.reverse_reverse t, hv, List.reverse_append, List.reverse_cons, List.append_assoc,
        List.singleton_append]
    have hlast : lastIndexOf (s ++ a :: t) a = (s ++ a :: u.reverse).length := by
      rw [ht, ← List.cons_append, ← List.append_assoc,
        lastIndexOf_append_cons fun hmem' => hnot (List.mem_reverse.mp hmem')]
    rw [hlast, indexOf_append_cons h, List.length_append, List.length_cons] at heq
    omega
  · intro hnot
    rw [indexOf_append_cons h, lastIndexOf_append_cons hnot]

theorem append_cons_inj (h : a ∉ s) (h' : a ∉ s') (heq : s ++ a :: t = s' ++ a :: t') :
    s = s' ∧ t = t' := by
  have hlen : (s.length : Int) = s'.length := by
    rw [← indexOf_append_cons h, heq, indexOf_append_cons h']
  obtain ⟨hs, ht⟩ := List.append_inj heq (Int.ofNat.inj hlen)
  exact ⟨hs, (List.cons.inj ht).2⟩

theorem sliceIndex_zero (n : Nat) : sliceIndex n 0 = 0 := by
  rw [sliceIndex, if_neg (by decide), Int.toNat_zero, Nat.zero_min]

section

omit [DecidableEq α]

theorem slice_zero_zero (l : List α) : slice l 0 0 = [] := by
  rw [slice, sliceIndex_zero, List.take_zero, List.drop_nil]

theorem slice_append (s t : List α) : slice (s ++ t) 0 s.length = s := by
  have hstop : sliceIndex (s ++ t).length s.length = s.length := by
    rw [sliceIndex, if_neg (by omega), Int.toNat_natCast, List.length_append,
      Nat.min_eq_left (Nat.le_add_right _ _)]
  rw [slice, hstop, sliceIndex_zero, List.drop_zero, List.take_left]

theorem slice_inner (a b : α) (s : List α) : slice (a :: s ++ [b]) 1 (-1) = s := by
  have hlen : (a :: s ++ [b]).length = s.length + 2 := by simp
  have hstart : sliceIndex (s.length + 2) 1 = 1 := by
    rw [sliceIndex, if_neg (by decide)]
    omega
  have hstop : sliceIndex (s.length + 2) (-1) = (a :: s).length := by
    rw [sliceIndex, if_pos (by decide), List.length_cons]
    omega
  rw [slice, hlen, hstart, hstop, List.take_left, List.drop_one, List.tail_cons]

end

end PersonalDashboard.TextIndices
