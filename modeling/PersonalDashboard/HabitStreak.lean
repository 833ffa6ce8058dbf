import Mathlib.Data.Finset.Card
import Mathlib.Data.Int.Interval
import PersonalDashboard.RowNumbers
import PersonalDashboard.Schema

/-! The streak of a habit: the query that computes it, the rule it is meant to
follow, and the masks for which the two agree. -/

set_option autoImplicit false

namespace PersonalDashboard.HabitStreak

open PersonalDashboard.Calendar
open PersonalDashboard.Calendar.NaiveDate
open PersonalDashboard.RowNumbers
open PersonalDashboard.Schema

/-- The habit log table: one log for each habit and day. -/
structure HabitLogs where
  rows : List HabitLogRow
  unique : rows.Pairwise fun l l' => l.habitId = l'.habitId → l.logDate ≠ l'.logDate

/-- The mask contains the day; an empty mask contains every day. -/
def scheduled (mask : List Nat) (d : NaiveDate) : Bool :=
  mask.isEmpty || mask.contains d.numDaysFromSunday

abbrev DayLog := NaiveDate × HabitLogStatus

def logs (table : HabitLogs) (habitId userId : Uuid) (mask : List Nat) : List DayLog :=
  (table.rows.filter fun l =>
    l.habitId = habitId && l.userId = userId && scheduled mask l.logDate).map fun l =>
      (l.logDate, l.status)

def nonskip (logs : List DayLog) : List DayLog :=
  logs.filter fun l => l.2 ≠ .skipped

def anchor (logs : List DayLog) : Option NaiveDate :=
  (logs.map Prod.fst).max?

def skippedAfter (logs : List DayLog) (d : NaiveDate) : Nat :=
  logs.countP fun l => l.2 = .skipped && d < l.1

/-- A numbered row at which the run of days is cut: its status breaks the
streak, or its date is not as many days before the anchor as there are rows. -/
def cuts (logs : List DayLog) (e : DayLog × Nat) : Bool :=
  e.1.2 = .missed || e.1.2 = .notDone || (anchor logs).any fun a =>
    e.1.1.numDaysFromCe ≠ a.numDaysFromCe - (e.2 - 1 + skippedAfter logs e.1.1 : Nat)

/-- The rows before the first cut, or all of them. -/
def currentStreak (logs : List DayLog) : Int :=
  let ordered := rowNumbers Prod.fst (nonskip logs)
  let cut := ((ordered.filter (cuts logs)).map Prod.snd).min?
  (cut.getD (ordered.length + 1) : Nat) - 1

def streakSql (table : HabitLogs) (habitId userId : Uuid) (mask : List Nat) : Int :=
  currentStreak (logs table habitId userId mask)

structure HabitToday where
  habitId : Uuid
  name : String
  frequency : HabitFrequency
  daysOfWeek : List Nat
  currentStreak : Int
  todayStatus : String
  deriving DecidableEq, Repr

def statusText : HabitLogStatus → String
  | .done => "done"
  | .skipped => "skipped"
  | .notDone => "not_done"
  | .missed => "missed"

def statusOn (table : HabitLogs) (habitId userId : Uuid) (d : NaiveDate) :
    Option HabitLogStatus :=
  (table.rows.find? fun l => l.habitId = habitId && l.userId = userId && l.logDate = d).map
    HabitLogRow.status

/-- `TODAY_SQL`: the streak subquery runs once for each habit of the user that
is not archived. -/
def todaySql (habits : List (Uuid × HabitRow)) (table : HabitLogs) (userId : Uuid)
    (today : NaiveDate) : List HabitToday :=
  ((habits.filter fun h => h.2.userId = userId && !h.2.isArchived).insertionSort
    fun h h' => h.2.createdAt ≤ h'.2.createdAt).map fun h =>
      { habitId := h.1
        name := h.2.name
        frequency := h.2.frequency
        daysOfWeek := h.2.daysOfWeek
        currentStreak := streakSql table h.1 h.2.userId h.2.daysOfWeek
        todayStatus :=
          ((statusOn table h.1 h.2.userId today).map statusText).getD
            (if scheduled h.2.daysOfWeek today then "pending" else "skipped") }

/-- Walk back over the scheduled days among the `n` days up to `d`: count a done
day, step over a skipped one, and stop at any other. -/
def walkBack (scheduled : NaiveDate → Bool) (status : NaiveDate → Option HabitLogStatus) :
    Nat → NaiveDate → Nat
  | 0, _ => 0
  | n + 1, d =>
      if scheduled d then
        match status d with
        | some .done => walkBack scheduled status n d.pred + 1
        | some .skipped => walkBack scheduled status n d.pred
        | _ => 0
      else walkBack scheduled status n d.pred

/-- The documented streak: the walk starts at the latest logged scheduled day;
before the earliest one there is nothing to count. -/
def referenceStreak (table : HabitLogs) (habitId userId : Uuid) (mask : List Nat) : Nat :=
  let days := (logs table habitId userId mask).map Prod.fst
  match days.max?, days.min? with
  | some latest, some earliest =>
      walkBack (scheduled mask) (statusOn table habitId userId)
        (latest.numDaysFromCe - earliest.numDaysFromCe + 1).toNat latest
  | _, _ => 0

section Walk

variable {scheduled : NaiveDate → Bool} {status : NaiveDate → Option HabitLogStatus}
  {d a x : NaiveDate}

def Passes (status : NaiveDate → Option HabitLogStatus) (x : NaiveDate) : Prop :=
  status x = some .done ∨ status x = some .skipped

structure Counted (scheduled : NaiveDate → Bool) (status : NaiveDate → Option HabitLogStatus)
    (a d : NaiveDate) : Prop where
  onMask : scheduled d = true
  done : status d = some .done
  passes : ∀ x, d ≤ x → x ≤ a → scheduled x = true → Passes status x

theorem le_pred_iff : d ≤ a.pred ↔ d < a := by
  rw [le_iff, lt_iff, numDaysFromCe_pred]
  omega

theorem counted_pred (hlt : d < a) (ha : scheduled a = true → Passes status a) :
    Counted scheduled status a.pred d ↔ Counted scheduled status a d := by
  refine ⟨fun h => ⟨h.onMask, h.done, fun x hdx hxa hx => ?_⟩,
    fun h => ⟨h.onMask, h.done, fun x hdx hxa hx => ?_⟩⟩
  · rcases hxa.eq_or_lt with rfl | hxa
    · exact ha hx
    · exact h.passes x hdx (le_pred_iff.mpr hxa) hx
  · exact h.passes x hdx (le_pred_iff.mp hxa).le hx

theorem walkBack_eq_card {n : Nat} {S : Finset NaiveDate}
    (hS : ∀ e, e ∈ S ↔ a.numDaysFromCe - n < e.numDaysFromCe ∧ e ≤ a ∧
      Counted scheduled status a e) : walkBack scheduled status n a = S.card := by
  induction n generalizing a S with
  | zero =>
      have hempty : S = ∅ := Finset.eq_empty_of_forall_notMem fun e he => by
        obtain ⟨hlt, hle, -⟩ := (hS e).mp he
        rw [le_iff] at hle
        omega
      rw [hempty]
      rfl
  | succ n ih =>
      have hrest : (scheduled a = true → Passes status a) →
          walkBack scheduled status n a.pred = (S.erase a).card := by
        intro ha
        refine ih fun e => ?_
        rw [Finset.mem_erase, hS, numDaysFromCe_pred, le_pred_iff]
        constructor
        · rintro ⟨hne, hlt, hle, hcounted⟩
          have hea := lt_of_le_of_ne hle hne
          exact ⟨by omega, hea, (counted_pred hea ha).mpr hcounted⟩
        · rintro ⟨hlt, hea, hcounted⟩
          exact ⟨hea.ne, by omega, hea.le, (counted_pred hea ha).mp hcounted⟩
      have hnot : ¬ Counted scheduled status a a → S.erase a = S := fun hcounted =>
        Finset.erase_eq_of_notMem fun ha => hcounted ((hS a).mp ha).2.2
      by_cases hmask : scheduled a = true
      · by_cases hpasses : Passes status a
        · rcases hpasses with hdone | hskipped
          · have ha : a ∈ S := (hS a).mpr ⟨by omega, le_rfl, hmask, hdone, fun x hax hxa _ =>
              le_antisymm hxa hax ▸ Or.inl hdone⟩
            simp only [walkBack, hmask, hdone, if_true, hrest fun _ => Or.inl hdone]
            exact Finset.card_erase_add_one ha
          · have hne : ¬ Counted scheduled status a a := fun h => by
              simpa [hskipped] using h.done
            simp only [walkBack, hmask, hskipped, if_true, hrest fun _ => Or.inr hskipped, hnot hne]
        · have hempty : S = ∅ := Finset.eq_empty_of_forall_notMem fun e he => by
            obtain ⟨-, hle, hcounted⟩ := (hS e).mp he
            exact hpasses (hcounted.passes a hle le_rfl hmask)
          rw [hempty]
          obtain ⟨hdone, hskipped⟩ := not_or.mp hpasses
          simp only [walkBack, hmask, if_true]
          rfl
      · have hne : ¬ Counted scheduled status a a := fun h => hmask h.onMask
        simp only [walkBack, hmask, if_false, hrest fun h => absurd h hmask, hnot hne,
          Bool.false_eq_true]

structure Contiguous (scheduled : NaiveDate → Bool) (status : NaiveDate → Option HabitLogStatus)
    (a d : NaiveDate) : Prop where
  done : status d = some .done
  passes : ∀ x, d ≤ x → x ≤ a → scheduled x = true ∧ Passes status x

theorem contiguous_iff (hda : d ≤ a) : Contiguous scheduled status a d ↔
    Counted scheduled status a d ∧ ∀ x, d ≤ x → x ≤ a → scheduled x = true := by
  constructor
  · rintro ⟨hdone, hpasses⟩
    exact ⟨⟨(hpasses d le_rfl hda).1, hdone, fun x hdx hxa _ => (hpasses x hdx hxa).2⟩,
      fun x hdx hxa => (hpasses x hdx hxa).1⟩
  · rintro ⟨hcounted, hmask⟩
    exact ⟨hcounted.done, fun x hdx hxa =>
      ⟨hmask x hdx hxa, hcounted.passes x hdx hxa (hmask x hdx hxa)⟩⟩

end Walk

theorem countP_eq_iff {dates : List NaiveDate} (hnodup : dates.Nodup) {a d : NaiveDate}
    (hle : ∀ x ∈ dates, x ≤ a) (hda : d ≤ a) :
    d.numDaysFromCe = a.numDaysFromCe - (dates.countP (d < ·) : Nat) ↔
      ∀ x, d < x → x ≤ a → x ∈ dates := by
  let T : Finset Int := ((dates.filter (d < ·)).map numDaysFromCe).toFinset
  have hcard : T.card = dates.countP (d < ·) := by
    rw [List.toFinset_card_of_nodup, List.length_map, List.countP_eq_length_filter]
    exact (hnodup.filter _).map numDaysFromCe_injective
  have hmem : ∀ n, n ∈ T ↔ ∃ x ∈ dates, d < x ∧ x.numDaysFromCe = n := by
    intro n
    simp [T, and_assoc]
  have hsub : T ⊆ Finset.Ioc d.numDaysFromCe a.numDaysFromCe := by
    intro n hn
    obtain ⟨x, hx, hdx, rfl⟩ := (hmem n).mp hn
    exact Finset.mem_Ioc.mpr ⟨hdx, hle x hx⟩
  have hdays : (Finset.Ioc d.numDaysFromCe a.numDaysFromCe).card =
      (a.numDaysFromCe - d.numDaysFromCe).toNat := Int.card_Ioc _ _
  rw [le_iff] at hda
  constructor
  · intro heq x hdx hxa
    have hfull := Finset.eq_of_subset_of_card_le hsub (by omega)
    have hx : x.numDaysFromCe ∈ T := by
      rw [hfull]
      exact Finset.mem_Ioc.mpr ⟨hdx, hxa⟩
    obtain ⟨y, hy, -, hxy⟩ := (hmem _).mp hx
    exact numDaysFromCe_injective hxy ▸ hy
  · intro hall
    have hsup : Finset.Ioc d.numDaysFromCe a.numDaysFromCe ⊆ T := by
      intro n hn
      obtain ⟨x, rfl⟩ := numDaysFromCe_surjective n
      obtain ⟨hdx, hxa⟩ := Finset.mem_Ioc.mp hn
      exact (hmem _).mpr ⟨x, hall x hdx hxa, hdx, rfl⟩
    have hle₁ := Finset.card_le_card hsub
    have hle₂ := Finset.card_le_card hsup
    omega

section Query

variable {logs : List DayLog} {a : NaiveDate}

/-- The row is a done day with as many logs after it as days. -/
def onRun (logs : List DayLog) (a : NaiveDate) (l : DayLog) : Bool :=
  l.2 = .done &&
    l.1.numDaysFromCe = a.numDaysFromCe - ((logs.map Prod.fst).countP (l.1 < ·) : Nat)

theorem cuts_eq (ha : anchor logs = some a) {l : DayLog} (hl : l ∈ nonskip logs) :
    cuts logs (l, 1 + (nonskip logs).countP fun b => l.1 < b.1) = !onRun logs a l := by
  have hsplit : (nonskip logs).countP (fun b => l.1 < b.1) + skippedAfter logs l.1 =
      (logs.map Prod.fst).countP (l.1 < ·) := by
    have hall := List.countP_eq_countP_filter_add logs (fun b => l.1 < b.1)
      fun b => b.2 ≠ .skipped
    rw [List.countP_map, Function.comp_def, hall, nonskip, skippedAfter]
    refine Nat.add_left_cancel_iff.mpr ?_
    rw [List.countP_filter]
    refine List.countP_congr fun b _ => ?_
    simp [and_comm]
  have hnonskip : l.2 ≠ .skipped := by
    simpa using (List.mem_filter.mp hl).2
  simp only [cuts, ha, Option.any_some, onRun]
  rw [show 1 + (nonskip logs).countP (fun b => l.1 < b.1) - 1 + skippedAfter logs l.1 =
    (logs.map Prod.fst).countP (l.1 < ·) by omega]
  obtain ⟨d, status⟩ := l
  cases status <;> simp_all

def reached (logs : List DayLog) (a : NaiveDate) (l : DayLog) : Bool :=
  (nonskip logs).all fun b => b.1 < l.1 || onRun logs a b

theorem currentStreak_eq_countP (hnodup : (logs.map Prod.fst).Nodup)
    (ha : anchor logs = some a) :
    currentStreak logs = ((nonskip logs).countP (reached logs a) : Nat) := by
  have hkeys : ((nonskip logs).map Prod.fst).Nodup :=
    hnodup.sublist ((List.filter_sublist).map Prod.fst)
  have hcount := min?_rowNumbers hkeys fun l hl => cuts_eq ha hl
  have hlength : (rowNumbers Prod.fst (nonskip logs)).length = (nonskip logs).length := by
    rw [rowNumbers, List.length_zipIdx, (descending_perm _ _).length_eq]
  simp only [currentStreak, hlength, hcount]
  push_cast
  exact add_sub_cancel_left 1 _

variable {scheduled : NaiveDate → Bool} {status : NaiveDate → Option HabitLogStatus}

theorem reached_iff (hmem : ∀ d s, (d, s) ∈ logs ↔ scheduled d = true ∧ status d = some s)
    (hnodup : (logs.map Prod.fst).Nodup) (ha : anchor logs = some a) (d : NaiveDate) :
    (∃ s, (d, s) ∈ nonskip logs ∧ reached logs a (d, s) = true) ↔
      d ≤ a ∧ Contiguous scheduled status a d := by
  have hle : ∀ x ∈ logs.map Prod.fst, x ≤ a := (List.max?_eq_some_iff.mp ha).2
  have hdates : ∀ x, x ∈ logs.map Prod.fst ↔ ∃ s, (x, s) ∈ logs := by simp
  have hnonskip : ∀ x s, (x, s) ∈ nonskip logs ↔ (x, s) ∈ logs ∧ s ≠ .skipped := by
    simp [nonskip]
  simp only [reached, List.all_eq_true, Bool.or_eq_true, decide_eq_true_eq]
  constructor
  · rintro ⟨s, hd, hreached⟩
    obtain ⟨hlog, -⟩ := (hnonskip d s).mp hd
    have hda := hle d ((hdates d).mpr ⟨s, hlog⟩)
    have hrun := fun b hb => (hreached b hb).resolve_left
    have hself := hrun (d, s) hd (lt_irrefl d)
    simp only [onRun, Bool.and_eq_true, decide_eq_true_eq] at hself
    obtain ⟨rfl, hcount⟩ := hself
    have hfull := (countP_eq_iff hnodup hle hda).mp hcount
    refine ⟨hda, ((hmem d _).mp hlog).2, fun x hdx hxa => ?_⟩
    have hx : x ∈ logs.map Prod.fst := by
      rcases hdx.eq_or_lt with rfl | hdx
      · exact (hdates d).mpr ⟨_, hlog⟩
      · exact hfull x hdx hxa
    obtain ⟨s, hs⟩ := (hdates x).mp hx
    obtain ⟨hmask, hstatus⟩ := (hmem x s).mp hs
    refine ⟨hmask, ?_⟩
    by_cases hskip : s = .skipped
    · exact Or.inr (hskip ▸ hstatus)
    · have hdone := hrun (x, s) ((hnonskip x s).mpr ⟨hs, hskip⟩) (not_lt.mpr hdx)
      simp only [onRun, Bool.and_eq_true, decide_eq_true_eq] at hdone
      exact Or.inl (hdone.1 ▸ hstatus)
  · rintro ⟨hda, hdone, hpasses⟩
    have hlog : (d, HabitLogStatus.done) ∈ logs :=
      (hmem d _).mpr ⟨(hpasses d le_rfl hda).1, hdone⟩
    refine ⟨.done, (hnonskip d _).mpr ⟨hlog, by decide⟩, fun b hb => ?_⟩
    obtain ⟨x, s⟩ := b
    refine or_iff_not_imp_left.mpr fun hdx => ?_
    have hdx := not_lt.mp hdx
    obtain ⟨hs, hskip⟩ := (hnonskip x s).mp hb
    have hxa := hle x ((hdates x).mpr ⟨s, hs⟩)
    have hstatus := ((hmem x s).mp hs).2
    have hcount := (countP_eq_iff hnodup hle hxa).mpr fun y hxy hya => by
      obtain ⟨hmask, hy⟩ := hpasses y (hdx.trans hxy.le) hya
      exact (hdates y).mpr (hy.elim (fun h => ⟨_, (hmem y _).mpr ⟨hmask, h⟩⟩)
        fun h => ⟨_, (hmem y _).mpr ⟨hmask, h⟩⟩)
    have hdone : s = .done := by
      have hx := (hpasses x hdx hxa).2
      rw [Passes, hstatus, Option.some.injEq, Option.some.injEq] at hx
      exact hx.resolve_right hskip
    simp only [onRun, hdone, decide_true, Bool.true_and, decide_eq_true_eq]
    exact hcount

/-- The query counts the done days from which on every day up to the anchor is
scheduled and passes. -/
theorem currentStreak_eq_card
    (hmem : ∀ d s, (d, s) ∈ logs ↔ scheduled d = true ∧ status d = some s)
    (hnodup : (logs.map Prod.fst).Nodup) (ha : anchor logs = some a) {S : Finset NaiveDate}
    (hS : ∀ d, d ∈ S ↔ d ≤ a ∧ Contiguous scheduled status a d) :
    currentStreak logs = S.card := by
  have hkeys : (((nonskip logs).filter (reached logs a)).map Prod.fst).Nodup :=
    hnodup.sublist (((List.filter_sublist).trans List.filter_sublist).map Prod.fst)
  have hset : (((nonskip logs).filter (reached logs a)).map Prod.fst).toFinset = S := by
    ext d
    rw [hS, ← reached_iff hmem hnodup ha]
    simp
  rw [currentStreak_eq_countP hnodup ha, ← hset, List.toFinset_card_of_nodup hkeys,
    List.length_map, List.countP_eq_length_filter]

end Query

section Table

variable (table : HabitLogs) (habitId userId : Uuid) (mask : List Nat)

theorem nodup_logs : ((logs table habitId userId mask).map Prod.fst).Nodup := by
  rw [logs, List.map_map, List.nodup_iff_pairwise_ne, List.pairwise_map, List.pairwise_filter]
  refine table.unique.imp fun hunique hl hl' => hunique ?_
  simp only [Bool.and_eq_true, decide_eq_true_eq] at hl hl'
  exact hl.1.1.trans hl'.1.1.symm

theorem mem_logs_iff (d : NaiveDate) (s : HabitLogStatus) :
    (d, s) ∈ logs table habitId userId mask ↔
      scheduled mask d = true ∧ statusOn table habitId userId d = some s := by
  have hunique : ∀ l ∈ table.rows, ∀ l' ∈ table.rows,
      l.habitId = l'.habitId → l.logDate = l'.logDate → l = l' := by
    intro l hl l' hl' hhabit hdate
    by_contra hne
    have hsymm : Std.Symm fun l l' : HabitLogRow =>
        l.habitId = l'.habitId → l.logDate ≠ l'.logDate :=
      ⟨fun _ _ h hhabit => (h hhabit.symm).symm⟩
    exact table.unique.forall hl hl' hne hhabit hdate
  simp only [logs, statusOn, List.mem_map, List.mem_filter, Bool.and_eq_true, decide_eq_true_eq,
    Option.map_eq_some_iff, Prod.mk.injEq]
  constructor
  · rintro ⟨l, ⟨hl, ⟨hhabit, huser⟩, hmask⟩, rfl, rfl⟩
    have hfound : (table.rows.find? fun l' => l'.habitId = habitId && l'.userId = userId &&
        l'.logDate = l.logDate).isSome :=
      List.find?_isSome.mpr ⟨l, hl, by simp [hhabit, huser]⟩
    obtain ⟨l', hl'⟩ := Option.isSome_iff_exists.mp hfound
    have hkey := List.find?_some hl'
    simp only [Bool.and_eq_true, decide_eq_true_eq] at hkey
    obtain rfl := hunique l hl l' (List.mem_of_find?_eq_some hl') (hhabit.trans hkey.1.1.symm)
      hkey.2.symm
    exact ⟨hmask, l, hl', rfl⟩
  · rintro ⟨hmask, l, hl, rfl⟩
    have hkey := List.find?_some hl
    simp only [Bool.and_eq_true, decide_eq_true_eq] at hkey
    obtain ⟨⟨hhabit, huser⟩, rfl⟩ := hkey
    exact ⟨l, ⟨List.mem_of_find?_eq_some hl, ⟨hhabit, huser⟩, hmask⟩, rfl, rfl⟩

theorem referenceStreak_eq_zero (ha : anchor (logs table habitId userId mask) = none) :
    referenceStreak table habitId userId mask = 0 := by
  have hmax : ((logs table habitId userId mask).map Prod.fst).max? = none := ha
  simp [referenceStreak, hmax]

theorem streakSql_eq_zero (ha : anchor (logs table habitId userId mask) = none) :
    streakSql table habitId userId mask = 0 := by
  have hnil : logs table habitId userId mask = [] := by
    simpa [anchor] using ha
  simp [streakSql, hnil, currentStreak, nonskip, rowNumbers, descending]

/-- The walk from the latest logged day counts the done days that no scheduled
day separates from it. -/
theorem referenceStreak_eq_card {a : NaiveDate}
    (ha : anchor (logs table habitId userId mask) = some a) {S : Finset NaiveDate}
    (hS : ∀ d, d ∈ S ↔ d ≤ a ∧ Counted (scheduled mask) (statusOn table habitId userId) a d) :
    referenceStreak table habitId userId mask = S.card := by
  have hmax : ((logs table habitId userId mask).map Prod.fst).max? = some a := ha
  simp only [referenceStreak, hmax]
  cases hmin : ((logs table habitId userId mask).map Prod.fst).min? with
  | none =>
      rw [List.min?_eq_none_iff.mp hmin] at hmax
      cases hmax
  | some first =>
      refine walkBack_eq_card fun d => ?_
      rw [hS]
      refine ⟨fun ⟨hle, hcounted⟩ => ⟨?_, hle, hcounted⟩, fun h => h.2⟩
      have hlog := (mem_logs_iff table habitId userId mask d .done).mpr
        ⟨hcounted.onMask, hcounted.done⟩
      have hge : first ≤ d :=
        (List.min?_eq_some_iff.mp hmin).2 d (List.mem_map.mpr ⟨_, hlog, rfl⟩)
      rw [le_iff] at hge
      omega

/-- No day outside the mask lies between the latest logged day of the habit and
a done day that the walk from it counts. -/
def Unbroken : Prop :=
  ∀ a ∈ anchor (logs table habitId userId mask), ∀ d ≤ a,
    Counted (scheduled mask) (statusOn table habitId userId) a d →
      ∀ x, d ≤ x → x ≤ a → scheduled mask x = true

/-- The query and the rule agree exactly when no day outside the mask interrupts
the streak. -/
theorem streakSql_eq_iff :
    streakSql table habitId userId mask = referenceStreak table habitId userId mask ↔
      Unbroken table habitId userId mask := by
  classical
  unfold Unbroken
  cases ha : anchor (logs table habitId userId mask) with
  | none =>
      rw [streakSql_eq_zero table habitId userId mask ha,
        referenceStreak_eq_zero table habitId userId mask ha]
      simp
  | some a =>
      have hmem := mem_logs_iff table habitId userId mask
      have hle := (List.max?_eq_some_iff.mp ha).2
      let counted := ((logs table habitId userId mask).map Prod.fst).toFinset.filter
        (Counted (scheduled mask) (statusOn table habitId userId) a)
      let unbroken := counted.filter fun d => ∀ x, d ≤ x → x ≤ a → scheduled mask x = true
      have hcounted : ∀ d, d ∈ counted ↔
          d ≤ a ∧ Counted (scheduled mask) (statusOn table habitId userId) a d := by
        intro d
        simp only [counted, Finset.mem_filter, List.mem_toFinset]
        refine ⟨fun h => ⟨hle d h.1, h.2⟩, fun h => ⟨List.mem_map.mpr ⟨(d, .done), ?_, rfl⟩, h.2⟩⟩
        exact (hmem d .done).mpr ⟨h.2.onMask, h.2.done⟩
      have hunbroken : ∀ d, d ∈ unbroken ↔
          d ≤ a ∧ Contiguous (scheduled mask) (statusOn table habitId userId) a d := by
        intro d
        rw [Finset.mem_filter, hcounted, and_assoc]
        exact and_congr_right fun hda => (contiguous_iff hda).symm
      rw [streakSql, currentStreak_eq_card hmem (nodup_logs table habitId userId mask) ha hunbroken,
        referenceStreak_eq_card table habitId userId mask ha hcounted, Nat.cast_inj]
      constructor
      · intro hcard a' ha' d hda hd
        obtain rfl := Option.some.inj ha'
        have heq := Finset.eq_of_subset_of_card_le (Finset.filter_subset _ counted) hcard.ge
        have hmem' : d ∈ unbroken := by
          rw [show unbroken = counted from heq, hcounted]
          exact ⟨hda, hd⟩
        exact (Finset.mem_filter.mp hmem').2
      · intro h
        refine congrArg Finset.card (Finset.filter_true_of_mem fun d hd => ?_)
        obtain ⟨hda, hd⟩ := (hcounted d).mp hd
        exact h a rfl d hda hd

theorem unbroken_of_empty_mask : Unbroken table habitId userId [] :=
  fun _ _ _ _ _ _ _ _ => rfl

/-- Both reads, for one habit and for all habits of a user, show the documented
streak exactly when it is unbroken. -/
theorem streak_reads_eq_iff :
    (streakSql table habitId userId mask = referenceStreak table habitId userId mask ↔
        Unbroken table habitId userId mask) ∧
      ∀ habits today, ∀ e ∈ todaySql habits table userId today,
        (e.currentStreak = referenceStreak table e.habitId userId e.daysOfWeek ↔
          Unbroken table e.habitId userId e.daysOfWeek) := by
  refine ⟨streakSql_eq_iff table habitId userId mask, fun habits today e he => ?_⟩
  obtain ⟨h, hmem, rfl⟩ := List.mem_map.mp he
  have howned := (List.mem_filter.mp ((List.perm_insertionSort _ _).mem_iff.mp hmem)).2
  simp only [Bool.and_eq_true, decide_eq_true_eq] at howned
  obtain ⟨huser, -⟩ := howned
  subst huser
  exact streakSql_eq_iff table h.1 h.2.userId h.2.daysOfWeek

end Table

def weekdayLog (logDate : NaiveDate) : HabitLogRow :=
  { userId := 0, habitId := 0, logDate := logDate, status := .done, countValue := none
    notes := none, createdAt := 0, updatedAt := 0 }

def overWeekend : HabitLogs where
  rows :=
    [weekdayLog ⟨2026, 9, 4, by decide, by decide, by decide, by decide⟩,
      weekdayLog ⟨2026, 9, 7, by decide, by decide, by decide, by decide⟩]
  unique := by decide

/-- A habit of the weekdays loses its streak over the weekend: the query counts
one day, the rule two. -/
theorem not_streakSql_eq_referenceStreak :
    ¬ ∀ table habitId userId mask,
      streakSql table habitId userId mask = referenceStreak table habitId userId mask := by
  intro h
  have hsql : streakSql overWeekend 0 0 [1, 2, 3, 4, 5] = 1 := by decide
  have hrule : referenceStreak overWeekend 0 0 [1, 2, 3, 4, 5] = 2 := by decide
  have heq := h overWeekend 0 0 [1, 2, 3, 4, 5]
  rw [hsql, hrule] at heq
  exact absurd heq (by decide)

end PersonalDashboard.HabitStreak
