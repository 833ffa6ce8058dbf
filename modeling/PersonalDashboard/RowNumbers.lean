import Mathlib.Data.List.Sort

/-! Row numbers of a query, and the first row at which a condition fails. -/

set_option autoImplicit false

namespace PersonalDashboard.RowNumbers

variable {α β : Type} [LinearOrder β] {key : α → β} {rows : List α}

def descending (key : α → β) (rows : List α) : List α :=
  rows.insertionSort fun a b => key b ≤ key a

/-- `ROW_NUMBER() OVER (ORDER BY key DESC)`. -/
def rowNumbers (key : α → β) (rows : List α) : List (α × Nat) :=
  (descending key rows).zipIdx 1

theorem descending_perm (key : α → β) (rows : List α) : (descending key rows).Perm rows :=
  List.perm_insertionSort _ _

theorem pairwise_descending (h : (rows.map key).Nodup) :
    (descending key rows).Pairwise fun a b => key b < key a := by
  have htrans : IsTrans α fun a b => key b ≤ key a := ⟨fun _ _ _ hab hbc => hbc.trans hab⟩
  have htotal : Std.Total fun a b : α => key b ≤ key a := ⟨fun a b => le_total (key b) (key a)⟩
  have hsorted := List.pairwise_insertionSort (fun a b => key b ≤ key a) rows
  have hnodup : ((descending key rows).map key).Nodup :=
    ((descending_perm key rows).map key).nodup_iff.mpr h
  exact hsorted.imp₂ (fun _ _ hle hne => lt_of_le_of_ne hle (Ne.symm hne))
    (List.pairwise_map.mp hnodup)

theorem snd_eq_of_mem_zipIdx {l : List α} (h : l.Pairwise fun a b => key b < key a) {k : Nat}
    {e : α × Nat} (he : e ∈ l.zipIdx k) : e.2 = k + l.countP fun b => key e.1 < key b := by
  induction l generalizing k with
  | nil => simp at he
  | cons a l ih =>
      obtain ⟨hall, hrest⟩ := List.pairwise_cons.mp h
      rw [List.zipIdx_cons] at he
      rcases List.mem_cons.mp he with rfl | he
      · have hzero : l.countP (fun b => key a < key b) = 0 :=
          List.countP_eq_zero.mpr fun b hb => by simpa using (hall b hb).le
        simp [hzero]
      · have hmem : e.1 ∈ l := List.fst_mem_of_mem_zipIdx he
        have ha : key e.1 < key a := hall _ hmem
        rw [ih hrest he, List.countP_cons_of_pos (by simpa using ha)]
        omega

theorem snd_eq_of_mem_rowNumbers (h : (rows.map key).Nodup) {e : α × Nat}
    (he : e ∈ rowNumbers key rows) : e.2 = 1 + rows.countP fun b => key e.1 < key b := by
  rw [snd_eq_of_mem_zipIdx (pairwise_descending h) he, (descending_perm key rows).countP_eq]

theorem min?_zipIdx {fails : α × Nat → Bool} {p : α → Bool} {l : List α} {k : Nat}
    (h : ∀ e ∈ l.zipIdx k, fails e = !p e.1) :
    (((l.zipIdx k).filter fails).map Prod.snd).min?.getD (k + l.length) =
      k + (l.takeWhile p).length := by
  induction l generalizing k with
  | nil => simp
  | cons a l ih =>
      rw [List.zipIdx_cons] at h ⊢
      have hhead := h (a, k) List.mem_cons_self
      have hrest := ih fun e he => h e (List.mem_cons_of_mem _ he)
      cases hp : p a with
      | false =>
          have hmin : (k :: ((l.zipIdx (k + 1)).filter fails).map Prod.snd).min? = some k := by
            refine List.min?_eq_some_iff.mpr ⟨List.mem_cons_self, fun n hn => ?_⟩
            rcases List.mem_cons.mp hn with rfl | hn
            · exact le_rfl
            · obtain ⟨e, he, rfl⟩ := List.mem_map.mp hn
              exact (Nat.le_succ k).trans (List.le_snd_of_mem_zipIdx (List.mem_of_mem_filter he))
          rw [List.filter_cons_of_pos (by simp [hhead, hp]), List.map_cons, hmin,
            List.takeWhile_cons_of_neg (by simp [hp])]
          rfl
      | true =>
          rw [List.filter_cons_of_neg (by simp [hhead, hp]), List.takeWhile_cons_of_pos hp,
            List.length_cons, List.length_cons, ← Nat.add_assoc, Nat.add_right_comm, hrest]
          omega

theorem length_takeWhile {l : List α} (h : l.Pairwise fun a b => key b < key a) (p : α → Bool) :
    (l.takeWhile p).length = l.countP fun a => l.all fun b => key b < key a || p b := by
  induction l with
  | nil => rfl
  | cons a l ih =>
      obtain ⟨hall, hrest⟩ := List.pairwise_cons.mp h
      cases hp : p a with
      | false =>
          rw [List.takeWhile_cons_of_neg (by simp [hp])]
          refine (List.countP_eq_zero.mpr fun c hc => ?_).symm
          have hle : key c ≤ key a := by
            rcases List.mem_cons.mp hc with rfl | hc
            · exact le_rfl
            · exact (hall c hc).le
          simp [hp, not_lt.mpr hle]
      | true =>
          rw [List.takeWhile_cons_of_pos hp, List.length_cons, ih hrest]
          have hhead : ((a :: l).all fun b => key b < key a || p b) = true := by
            refine List.all_eq_true.mpr fun b hb => ?_
            rcases List.mem_cons.mp hb with rfl | hb
            · simp [hp]
            · simp [hall b hb]
          rw [List.countP_cons_of_pos (p := fun c => (a :: l).all fun b => key b < key c || p b)
            hhead]
          refine congrArg (· + 1) (List.countP_congr fun c _ => ?_)
          simp [hp]

/-- A query that finds the first row at which a condition fails, by its row
number, counts the rows before it. -/
theorem min?_rowNumbers (h : (rows.map key).Nodup) {fails : α × Nat → Bool} {p : α → Bool}
    (hfails : ∀ a ∈ rows, fails (a, 1 + rows.countP fun b => key a < key b) = !p a) :
    (((rowNumbers key rows).filter fails).map Prod.snd).min?.getD (rows.length + 1) =
      1 + rows.countP fun a => rows.all fun b => key b < key a || p b := by
  have hperm := descending_perm key rows
  have hnumbers : ∀ e ∈ rowNumbers key rows, fails e = !p e.1 := by
    intro e he
    have hmem : e.1 ∈ rows := hperm.mem_iff.mp (List.fst_mem_of_mem_zipIdx he)
    rw [← hfails e.1 hmem, ← snd_eq_of_mem_rowNumbers h he]
  have hmin := min?_zipIdx hnumbers
  rw [hperm.length_eq, Nat.add_comm 1] at hmin
  rw [rowNumbers, hmin, length_takeWhile (pairwise_descending h), hperm.countP_eq]
  refine congrArg (1 + ·) (List.countP_congr fun a _ => ?_)
  simp only [List.all_eq_true, hperm.mem_iff]

end PersonalDashboard.RowNumbers
