import Mathlib.Data.List.Infix
import Mathlib.Order.Bounds.Basic
import Mathlib.Order.Lattice

/-! Runs of a list: stretches without a cut, in which some entries count and others are
bridged. -/

set_option autoImplicit false

namespace PersonalDashboard.Streaks

inductive Kind where
  | counts
  | bridges
  | cuts
  deriving DecidableEq, Repr

variable {α : Type} (kind : α → Kind)

def Run (l : List α) : Prop :=
  ∀ a ∈ l, kind a ≠ .cuts

/-- How many entries count. -/
def size (l : List α) : Nat :=
  l.countP fun a => kind a = .counts

/-- The sizes of the runs that a list begins with, ends with, and has anywhere. -/
def headSizes (l : List α) : Set Nat :=
  {n | ∃ r, r <+: l ∧ Run kind r ∧ size kind r = n}

def tailSizes (l : List α) : Set Nat :=
  {n | ∃ r, r <:+ l ∧ Run kind r ∧ size kind r = n}

def runSizes (l : List α) : Set Nat :=
  {n | ∃ r, r <:+: l ∧ Run kind r ∧ size kind r = n}

/-- How many entries count before the first cut. -/
def headRun : List α → Nat
  | [] => 0
  | a :: l =>
      match kind a with
      | .counts => headRun l + 1
      | .bridges => headRun l
      | .cuts => 0

/-- The best size so far, and the size of the run that the list ends with. -/
def scanStep (s : Nat × Nat) (a : α) : Nat × Nat :=
  match kind a with
  | .counts => (max s.1 (s.2 + 1), s.2 + 1)
  | .bridges => s
  | .cuts => (s.1, 0)

def scan (l : List α) : Nat × Nat :=
  l.foldl (scanStep kind) (0, 0)

/-- The kinds when a bridge cuts, too. -/
def strict (a : α) : Kind :=
  if kind a = .counts then .counts else .cuts

/-- A run at the end of a list in which a bridge comes after an entry that counts. -/
def Bridged (l : List α) : Prop :=
  ∃ r, r <:+ l ∧ Run kind r ∧ ∃ a b, [a, b].Sublist r ∧ kind a = .counts ∧ kind b = .bridges

variable {kind}

theorem run_nil : Run kind [] :=
  fun _ h => (nomatch h)

theorem run_cons {a : α} {l : List α} : Run kind (a :: l) ↔ kind a ≠ .cuts ∧ Run kind l :=
  List.forall_mem_cons

theorem run_reverse {l : List α} : Run kind l.reverse ↔ Run kind l :=
  ⟨fun h a ha => h a (List.mem_reverse.mpr ha), fun h a ha => h a (List.mem_reverse.mp ha)⟩

theorem size_reverse (l : List α) : size kind l.reverse = size kind l :=
  List.countP_reverse

theorem size_cons (a : α) (l : List α) :
    size kind (a :: l) = size kind l + if kind a = .counts then 1 else 0 := by
  simp only [size, List.countP_cons, decide_eq_true_eq]

theorem headRun_reverse_concat (l : List α) (a : α) :
    headRun kind (l ++ [a]).reverse =
      match kind a with
      | .counts => headRun kind l.reverse + 1
      | .bridges => headRun kind l.reverse
      | .cuts => 0 := by
  rw [List.reverse_append, List.reverse_singleton, List.singleton_append, headRun]

theorem isGreatest_headRun (l : List α) : IsGreatest (headSizes kind l) (headRun kind l) := by
  induction l with
  | nil =>
      refine ⟨⟨[], List.prefix_rfl, run_nil, rfl⟩, ?_⟩
      rintro n ⟨r, hr, -, rfl⟩
      rw [List.prefix_nil.mp hr]
      exact le_rfl
  | cons a l ih =>
      obtain ⟨⟨r, hr, hrun, hsize⟩, hbound⟩ := ih
      have hcons : kind a ≠ .cuts → IsGreatest (headSizes kind (a :: l))
          (headRun kind l + if kind a = .counts then 1 else 0) := by
        intro ha
        refine ⟨⟨a :: r, List.cons_prefix_cons.mpr ⟨rfl, hr⟩, run_cons.mpr ⟨ha, hrun⟩, ?_⟩, ?_⟩
        · rw [size_cons, hsize]
        · rintro n ⟨r', hr', hrun', rfl⟩
          rcases List.prefix_cons_iff.mp hr' with rfl | ⟨t, rfl, ht⟩
          · exact Nat.zero_le _
          · rw [size_cons]
            exact Nat.add_le_add_right (hbound ⟨t, ht, (run_cons.mp hrun').2, rfl⟩) _
      cases hkind : kind a with
      | counts => simpa [headRun, hkind] using hcons
      | bridges => simpa [headRun, hkind] using hcons
      | cuts =>
          simp only [headRun, hkind]
          refine ⟨⟨[], List.nil_prefix, run_nil, rfl⟩, ?_⟩
          rintro n ⟨r', hr', hrun', rfl⟩
          rcases List.prefix_cons_iff.mp hr' with rfl | ⟨t, rfl, -⟩
          · exact le_rfl
          · exact absurd hkind (run_cons.mp hrun').1

theorem tailSizes_eq (l : List α) : tailSizes kind l = headSizes kind l.reverse := by
  ext n
  constructor
  · rintro ⟨r, hr, hrun, rfl⟩
    exact ⟨r.reverse, List.reverse_prefix.mpr hr, run_reverse.mpr hrun, size_reverse r⟩
  · rintro ⟨r, hr, hrun, rfl⟩
    refine ⟨r.reverse, ?_, run_reverse.mpr hrun, size_reverse r⟩
    rwa [← List.reverse_prefix, List.reverse_reverse]

theorem isGreatest_tailSizes (l : List α) :
    IsGreatest (tailSizes kind l) (headRun kind l.reverse) := by
  rw [tailSizes_eq]
  exact isGreatest_headRun l.reverse

theorem tailSizes_subset_runSizes (l : List α) : tailSizes kind l ⊆ runSizes kind l := by
  rintro n ⟨r, hr, h⟩
  exact ⟨r, hr.isInfix, h⟩

theorem runSizes_concat (l : List α) (a : α) :
    runSizes kind (l ++ [a]) = runSizes kind l ∪ tailSizes kind (l ++ [a]) := by
  ext n
  constructor
  · rintro ⟨r, hr, h⟩
    rcases List.infix_concat_iff.mp hr with hr | hr
    · exact Or.inr ⟨r, hr, h⟩
    · exact Or.inl ⟨r, hr, h⟩
  · rintro (⟨r, hr, h⟩ | ⟨r, hr, h⟩)
    · exact ⟨r, hr.trans (List.prefix_append _ _).isInfix, h⟩
    · exact ⟨r, hr.isInfix, h⟩

theorem scan_concat (l : List α) (a : α) :
    scan kind (l ++ [a]) = scanStep kind (scan kind l) a := by
  rw [scan, List.foldl_append, List.foldl_cons, List.foldl_nil, scan]

theorem scan_spec (l : List α) :
    (scan kind l).2 = headRun kind l.reverse ∧ IsGreatest (runSizes kind l) (scan kind l).1 := by
  induction l using List.reverseRecOn with
  | nil =>
      refine ⟨rfl, ⟨[], List.infix_rfl, run_nil, rfl⟩, ?_⟩
      rintro n ⟨r, hr, -, rfl⟩
      rw [List.infix_nil.mp hr]
      exact le_rfl
  | append_singleton l a ih =>
      obtain ⟨hrun, hbest⟩ := ih
      have hle : (scan kind l).2 ≤ (scan kind l).1 := by
        rw [hrun]
        exact hbest.2 (tailSizes_subset_runSizes l (isGreatest_tailSizes l).1)
      have hnext : (scan kind (l ++ [a])).2 = headRun kind (l ++ [a]).reverse ∧
          (scan kind (l ++ [a])).1 =
            max (scan kind l).1 (headRun kind (l ++ [a]).reverse) := by
        rw [scan_concat, headRun_reverse_concat, scanStep, ← hrun]
        cases kind a with
        | counts => exact ⟨rfl, rfl⟩
        | bridges => exact ⟨rfl, (max_eq_left hle).symm⟩
        | cuts => exact ⟨rfl, (max_eq_left (Nat.zero_le _)).symm⟩
      refine ⟨hnext.1, ?_⟩
      rw [runSizes_concat, hnext.2]
      exact hbest.union (isGreatest_tailSizes _)

theorem scan_snd_le_fst (l : List α) : (scan kind l).2 ≤ (scan kind l).1 := by
  obtain ⟨hrun, hbest⟩ : _ ∧ IsGreatest (runSizes kind l) _ := scan_spec l
  rw [hrun]
  exact hbest.2 (tailSizes_subset_runSizes l (isGreatest_tailSizes l).1)

theorem headRun_map {β : Type} (f : β → α) (l : List β) :
    headRun kind (l.map f) = headRun (kind ∘ f) l := by
  induction l with
  | nil => rfl
  | cons b l ih => rw [List.map_cons, headRun, headRun, ih, Function.comp_apply]

theorem scan_map {β : Type} (f : β → α) (l : List β) :
    scan kind (l.map f) = scan (kind ∘ f) l :=
  List.foldl_map

theorem le_size_of_mem_runSizes {l : List α} {n : Nat} (h : n ∈ runSizes kind l) :
    n ≤ size kind l := by
  obtain ⟨r, hr, -, rfl⟩ := h
  exact hr.sublist.countP_le

theorem headRun_pos_iff {l : List α} :
    0 < headRun kind l ↔ ∃ r, r <+: l ∧ Run kind r ∧ ∃ a ∈ r, kind a = .counts := by
  obtain ⟨⟨r, hr, hrun, hsize⟩, hbound⟩ : IsGreatest (headSizes kind l) (headRun kind l) :=
    isGreatest_headRun l
  constructor
  · intro hpos
    rw [← hsize, size, List.countP_pos_iff] at hpos
    obtain ⟨a, ha, hkind⟩ := hpos
    exact ⟨r, hr, hrun, a, ha, of_decide_eq_true hkind⟩
  · rintro ⟨r', hr', hrun', a, ha, hkind⟩
    refine lt_of_lt_of_le ?_ (hbound ⟨r', hr', hrun', rfl⟩)
    exact List.countP_pos_iff.mpr ⟨a, ha, decide_eq_true hkind⟩

/-- What a bridged end of a list is from its last entry on. -/
def HeadBridged (kind : α → Kind) (l : List α) : Prop :=
  ∃ r, r <+: l ∧ Run kind r ∧ ∃ a b, [b, a].Sublist r ∧ kind a = .counts ∧ kind b = .bridges

theorem bridged_iff (l : List α) : Bridged kind l ↔ HeadBridged kind l.reverse := by
  constructor
  · rintro ⟨r, hr, hrun, a, b, hsub, h⟩
    exact ⟨r.reverse, List.reverse_prefix.mpr hr, run_reverse.mpr hrun, a, b, hsub.reverse, h⟩
  · rintro ⟨r, hr, hrun, a, b, hsub, h⟩
    refine ⟨r.reverse, ?_, run_reverse.mpr hrun, a, b, hsub.reverse, h⟩
    rwa [← List.reverse_prefix, List.reverse_reverse]

theorem not_headBridged_nil : ¬ HeadBridged kind ([] : List α) := by
  rintro ⟨r, hr, -, a, b, hsub, -⟩
  rw [List.prefix_nil.mp hr] at hsub
  cases hsub

theorem headBridged_cons (x : α) (l : List α) :
    HeadBridged kind (x :: l) ↔
      kind x ≠ .cuts ∧ (HeadBridged kind l ∨ kind x = .bridges ∧ 0 < headRun kind l) := by
  constructor
  · rintro ⟨r, hr, hrun, a, b, hsub, ha, hb⟩
    rcases List.prefix_cons_iff.mp hr with rfl | ⟨t, rfl, ht⟩
    · cases hsub
    · obtain ⟨hx, htail⟩ := run_cons.mp hrun
      refine ⟨hx, ?_⟩
      rcases List.cons_sublist_cons'.mp hsub with hsub' | ⟨rfl, hsub'⟩
      · exact Or.inl ⟨t, ht, htail, a, b, hsub', ha, hb⟩
      · exact Or.inr ⟨hb, headRun_pos_iff.mpr
          ⟨t, ht, htail, a, List.singleton_sublist.mp hsub', ha⟩⟩
  · rintro ⟨hx, ⟨r, hr, hrun, a, b, hsub, h⟩ | ⟨hb, hpos⟩⟩
    · exact ⟨x :: r, List.cons_prefix_cons.mpr ⟨rfl, hr⟩, run_cons.mpr ⟨hx, hrun⟩, a, b,
        hsub.trans (List.sublist_cons_self x r), h⟩
    · obtain ⟨r, hr, hrun, a, ha, hcounts⟩ := headRun_pos_iff.mp hpos
      exact ⟨x :: r, List.cons_prefix_cons.mpr ⟨rfl, hr⟩, run_cons.mpr ⟨hx, hrun⟩, a, x,
        List.cons_sublist_cons.mpr (List.singleton_sublist.mpr ha), hcounts, hb⟩

theorem headRun_strict_eq_iff (l : List α) :
    headRun (strict kind) l = headRun kind l ↔ ¬ HeadBridged kind l := by
  induction l with
  | nil => exact iff_of_true rfl not_headBridged_nil
  | cons x l ih =>
      rw [headBridged_cons, headRun, headRun]
      cases hx : kind x with
      | counts => simp [strict, hx, ih]
      | bridges =>
          have himp : HeadBridged kind l → 0 < headRun kind l := by
            rintro ⟨r, hr, hrun, a, b, hsub, ha, -⟩
            exact headRun_pos_iff.mpr ⟨r, hr, hrun, a, hsub.subset (by simp), ha⟩
          have hstrict : strict kind x = .cuts := by simp [strict, hx]
          simp only [hstrict]
          constructor
          · rintro hzero ⟨-, h | ⟨-, hpos⟩⟩
            · exact absurd (himp h) (by omega)
            · omega
          · intro h
            have hpos : ¬ 0 < headRun kind l := fun hpos =>
              h ⟨by decide, Or.inr ⟨trivial, hpos⟩⟩
            omega
      | cuts => simp [strict, hx]

/-- Bridges make no difference unless the list ends in a run with a bridge to cross. -/
theorem headRun_reverse_strict_eq_iff (l : List α) :
    headRun (strict kind) l.reverse = headRun kind l.reverse ↔ ¬ Bridged kind l := by
  rw [headRun_strict_eq_iff, bridged_iff]

end PersonalDashboard.Streaks
