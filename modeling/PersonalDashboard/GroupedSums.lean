import Mathlib.Algebra.BigOperators.Group.List.Basic
import Mathlib.Algebra.Group.Basic
import Mathlib.Algebra.Group.Prod
import Mathlib.Data.List.Dedup

/-! Sums over the rows of a query, and over its groups. -/

set_option autoImplicit false

namespace PersonalDashboard.GroupedSums

variable {α κ M : Type} [DecidableEq κ] [AddCommMonoid M] {key : α → κ} {rows : List α}

/-- `SUM(f)`, zero without a row. -/
def sumOf (f : α → M) (rows : List α) : M :=
  (rows.map f).sum

def group (key : α → κ) (rows : List α) (k : κ) : List α :=
  rows.filter fun a => key a = k

/-- `GROUP BY key`: every key that occurs, once, with its rows. -/
def groupBy (key : α → κ) (rows : List α) : List (κ × List α) :=
  (rows.map key).dedup.map fun k => (k, group key rows k)

@[simp]
theorem sumOf_nil (f : α → M) : sumOf f [] = 0 :=
  rfl

@[simp]
theorem sumOf_cons (f : α → M) (a : α) (rows : List α) :
    sumOf f (a :: rows) = f a + sumOf f rows :=
  List.sum_cons

theorem sumOf_perm {f : α → M} {rows' : List α} (h : rows.Perm rows') :
    sumOf f rows = sumOf f rows' :=
  (h.map f).sum_eq

theorem sumOf_map {β : Type} (f : α → M) (g : β → α) (l : List β) :
    sumOf f (l.map g) = sumOf (f ∘ g) l := by
  rw [sumOf, sumOf, List.map_map]

theorem sumOf_add (f g : α → M) (rows : List α) :
    sumOf (fun a => f a + g a) rows = sumOf f rows + sumOf g rows :=
  List.sum_map_add

theorem sumOf_zero (rows : List α) : sumOf (fun _ => (0 : M)) rows = 0 :=
  List.sum_map_zero

theorem sumOf_congr {f g : α → M} (h : ∀ a ∈ rows, f a = g a) : sumOf f rows = sumOf g rows :=
  congrArg List.sum (List.map_congr_left h)

theorem sumOf_prod {N : Type} [AddCommMonoid N] (f : α → M) (g : α → N) (rows : List α) :
    sumOf (fun a => (f a, g a)) rows = (sumOf f rows, sumOf g rows) := by
  induction rows with
  | nil => rfl
  | cons a rows ih => rw [sumOf_cons, sumOf_cons, sumOf_cons, ih, Prod.mk_add_mk]

theorem fst_sumOf {N : Type} [AddCommMonoid N] (f : α → M × N) (rows : List α) :
    (sumOf f rows).1 = sumOf (fun a => (f a).1) rows :=
  congrArg Prod.fst (sumOf_prod (fun a => (f a).1) (fun a => (f a).2) rows)

theorem sumOf_filterMap {β : Type} (f : β → M) (g : α → Option β) (rows : List α) :
    sumOf f (rows.filterMap g) = sumOf (fun a => (g a).elim 0 f) rows := by
  induction rows with
  | nil => rfl
  | cons a rows ih =>
      rw [sumOf_cons, ← ih]
      cases hg : g a with
      | none => rw [List.filterMap_cons_none hg, Option.elim_none, zero_add]
      | some b => rw [List.filterMap_cons_some hg, sumOf_cons, Option.elim_some]

theorem sumOf_filter (p : α → Bool) (f : α → M) (rows : List α) :
    sumOf f (rows.filter p) = sumOf (fun a => if p a then f a else 0) rows := by
  induction rows with
  | nil => rfl
  | cons a rows ih =>
      rw [sumOf_cons, ← ih]
      cases hp : p a with
      | true => rw [List.filter_cons_of_pos hp, sumOf_cons, if_pos rfl]
      | false =>
          rw [List.filter_cons_of_neg (by simp [hp]), if_neg Bool.false_ne_true, zero_add]

theorem sumOf_append (f : α → M) (rows rows' : List α) :
    sumOf f (rows ++ rows') = sumOf f rows + sumOf f rows' := by
  rw [sumOf, List.map_append, List.sum_append]
  rfl

theorem sumOf_flatMap {β : Type} (f : α → M) (g : β → List α) (l : List β) :
    sumOf f (l.flatMap g) = sumOf (fun b => sumOf f (g b)) l := by
  induction l with
  | nil => rfl
  | cons b l ih => rw [List.flatMap_cons, sumOf_append, sumOf_cons, ih]

theorem sumOf_one (rows : List α) : sumOf (fun _ => 1) rows = rows.length := by
  induction rows with
  | nil => rfl
  | cons a rows ih => rw [sumOf_cons, ih, List.length_cons, Nat.add_comm]

theorem sumOf_ite_one (p : α → Bool) (rows : List α) :
    sumOf (fun a => if p a then 1 else 0) rows = rows.countP p := by
  rw [← sumOf_filter, sumOf_one, List.countP_eq_length_filter]

theorem sumOf_comm {β : Type} (f : α → β → M) (rows : List α) (l : List β) :
    sumOf (fun a => sumOf (f a) l) rows = sumOf (fun b => sumOf (fun a => f a b) rows) l := by
  induction rows with
  | nil => exact (sumOf_zero l).symm
  | cons a rows ih =>
      rw [sumOf_cons, ih, ← sumOf_add]
      rfl

theorem sumOf_ite_eq {ks : List κ} (hks : ks.Nodup) {k : κ} (hk : k ∈ ks) (m : M) :
    sumOf (fun k' => if k = k' then m else 0) ks = m := by
  induction ks with
  | nil => cases hk
  | cons k' ks ih =>
      obtain ⟨hnot, hks⟩ := List.nodup_cons.mp hks
      rw [sumOf_cons]
      by_cases heq : k = k'
      · subst heq
        have hzero : sumOf (fun k' => if k = k' then m else 0) ks = sumOf (fun _ => 0) ks := by
          refine congrArg List.sum (List.map_congr_left fun k' hk' => if_neg ?_)
          rintro rfl
          exact hnot hk'
        rw [if_pos rfl, hzero, sumOf_zero, add_zero]
      · rw [if_neg heq, zero_add]
        exact ih hks ((List.mem_cons.mp hk).resolve_left heq)

theorem sumOf_groups {ks : List κ} (hks : ks.Nodup) (hcover : ∀ a ∈ rows, key a ∈ ks)
    (f : α → M) : sumOf (fun k => sumOf f (group key rows k)) ks = sumOf f rows := by
  induction rows with
  | nil => exact sumOf_zero ks
  | cons a rows ih =>
      have hsplit : (fun k => sumOf f (group key (a :: rows) k)) =
          fun k => (if key a = k then f a else 0) + sumOf f (group key rows k) := by
        funext k
        by_cases hk : key a = k
        · simp [group, hk]
        · simp [group, hk]
      rw [hsplit, sumOf_add, sumOf_ite_eq hks (hcover a List.mem_cons_self), sumOf_cons,
        ih fun b hb => hcover b (List.mem_cons_of_mem _ hb)]

theorem sumOf_groupBy (f : α → M) :
    sumOf (fun g => sumOf f g.2) (groupBy key rows) = sumOf f rows := by
  rw [groupBy, sumOf_map]
  exact sumOf_groups (List.nodup_dedup _)
    (fun a ha => List.mem_dedup.mpr (List.mem_map_of_mem ha)) f

theorem mem_groupBy {k : κ} {g : List α} :
    (k, g) ∈ groupBy key rows ↔ k ∈ rows.map key ∧ g = group key rows k := by
  simp only [groupBy, List.mem_map, List.mem_dedup, Prod.mk.injEq]
  constructor
  · rintro ⟨k', hk', rfl, rfl⟩
    exact ⟨hk', rfl⟩
  · rintro ⟨hk, rfl⟩
    exact ⟨k, hk, rfl, rfl⟩

theorem nodup_keys_groupBy : ((groupBy key rows).map Prod.fst).Nodup := by
  have hkeys : (groupBy key rows).map Prod.fst = (rows.map key).dedup := by
    rw [groupBy, List.map_map]
    exact List.map_id _
  rw [hkeys]
  exact List.nodup_dedup _

theorem group_eq_nil {k : κ} (h : k ∉ rows.map key) : group key rows k = [] := by
  refine List.filter_eq_nil_iff.mpr fun a ha hk => h ?_
  exact List.mem_map.mpr ⟨a, ha, by simpa using hk⟩

end PersonalDashboard.GroupedSums
