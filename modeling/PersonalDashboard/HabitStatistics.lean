import PersonalDashboard.Binary64
import PersonalDashboard.HabitDays
import PersonalDashboard.OrderedMaps
import PersonalDashboard.Streaks
import Mathlib.Data.List.DropRight

/-! The statistics of a habit over a range of days. -/

set_option autoImplicit false

namespace PersonalDashboard.HabitStatistics

open PersonalDashboard.Binary64 (double)
open PersonalDashboard.Calendar
open PersonalDashboard.DateStrings
open PersonalDashboard.HabitDays
open PersonalDashboard.HabitStreak
open PersonalDashboard.JsDate
open PersonalDashboard.OrderedMaps
open PersonalDashboard.Streaks
open PersonalDashboard.TaskViews

structure HabitLogEntry where
  habitId : String
  logDate : String
  status : String
  deriving DecidableEq, Repr

structure HabitStats where
  total : Nat
  done : Nat
  missed : Nat
  skipped : Nat
  unlogged : Nat
  complianceRate : ℚ
  bestStreak : Nat
  currentStreak : Nat
  deriving DecidableEq, Repr

def isDone (s : String) : Bool :=
  s = "done"

def isSkip (s : String) : Bool :=
  s = "skipped"

/-- `Math.round`; it is exact on doubles. -/
def round (x : ℚ) : Int :=
  ⌊x + 1 / 2⌋

def complianceRate (done denom : ℚ) : ℚ :=
  if denom ≤ 0 then 0 else double (round (double (double (max 0 done / denom) * 1000)) / 10)

def scheduledDays (fromDay toDay : String) (daysOfWeek : Option (List Nat)) : List Int :=
  let mask := daysOfWeek.getD []
  match toMs fromDay, toMs toDay with
  | some lo, some hi => (msUpTo lo hi).filter fun ms => mask.isEmpty || mask.contains (dow ms)
  | _, _ => []

structure Tally where
  done : Nat
  missed : Nat
  skipped : Nat
  unlogged : Nat
  best : Nat
  run : Nat
  deriving DecidableEq, Repr

def Tally.zero : Tally :=
  ⟨0, 0, 0, 0, 0, 0⟩

def tallyStep (t : Tally) : Option String → Tally
  | none => { t with unlogged := t.unlogged + 1, best := max t.best t.run, run := 0 }
  | some status =>
      if isDone status then
        { t with done := t.done + 1, run := t.run + 1, best := max t.best (t.run + 1) }
      else if isSkip status then { t with skipped := t.skipped + 1 }
      else { t with missed := t.missed + 1, best := max t.best t.run, run := 0 }

/-- The loop that counts back, over the slots from the last one on. -/
def countBack : List (Option String) → Nat
  | some status :: slots =>
      if isDone status then countBack slots + 1
      else if isSkip status then countBack slots
      else 0
  | _ => 0

def statsOfSlots (slots : List (Option String)) : HabitStats :=
  let t := slots.foldl tallyStep Tally.zero
  let total := t.done + t.missed + t.skipped + t.unlogged
  { total := total
    done := t.done
    missed := t.missed
    skipped := t.skipped
    unlogged := t.unlogged
    complianceRate := complianceRate t.done (total - t.skipped)
    bestStreak := t.best
    currentStreak := countBack (slots.reverse.dropWhile Option.isNone) }

def habitStats (logs : List HabitLogEntry) (fromDay toDay : String)
    (daysOfWeek : Option (List Nat)) : HabitStats :=
  let byDate := OrderedMap.ofList (logs.map fun e => (e.logDate, e.status))
  statsOfSlots ((scheduledDays fromDay toDay daysOfWeek).map fun ms => byDate.get (ymd ms))

def statusOn (logs : List HabitLogEntry) (d : NaiveDate) : Option String :=
  (logs.find? fun e => e.logDate = formatYmd d).map HabitLogEntry.status

/-- A done day counts for a streak and a skipped one bridges it; every other day cuts it. -/
def streakKind (status : Option String) : Kind :=
  if status = some "done" then .counts
  else if status = some "skipped" then .bridges
  else .cuts

def isMissed (status : Option String) : Bool :=
  status.any fun t => t ≠ "done" && t ≠ "skipped"

/-- The statistics of the scheduled days, each with the status that is logged for it. -/
structure IsStats (status : NaiveDate → Option String) (days : List NaiveDate)
    (s : HabitStats) : Prop where
  done : s.done = days.countP fun d => status d = some "done"
  skipped : s.skipped = days.countP fun d => status d = some "skipped"
  missed : s.missed = days.countP fun d => isMissed (status d)
  unlogged : s.unlogged = days.countP fun d => status d = none
  partition : s.done + s.missed + s.skipped + s.unlogged = s.total
  total : s.total = days.length
  bestStreak : IsGreatest (runSizes (fun d => streakKind (status d)) days) s.bestStreak
  currentStreak : IsGreatest
    (tailSizes (fun d => streakKind (status d)) (days.rdropWhile fun d => status d = none))
    s.currentStreak
  current_le_best : s.currentStreak ≤ s.bestStreak
  best_le_done : s.bestStreak ≤ s.done

structure Tallied (slots : List (Option String)) (t : Tally) : Prop where
  done : t.done = slots.countP (· = some "done")
  skipped : t.skipped = slots.countP (· = some "skipped")
  missed : t.missed = slots.countP isMissed
  unlogged : t.unlogged = slots.countP (· = none)
  total : t.done + t.missed + t.skipped + t.unlogged = slots.length
  scan : scan streakKind slots = (t.best, t.run)

theorem tallied_nil : Tallied [] Tally.zero :=
  ⟨rfl, rfl, rfl, rfl, rfl, rfl⟩

theorem Tallied.run_le_best {slots : List (Option String)} {t : Tally} (h : Tallied slots t) :
    t.run ≤ t.best := by
  have hle : (Streaks.scan streakKind slots).2 ≤ (Streaks.scan streakKind slots).1 :=
    scan_snd_le_fst slots
  rw [h.scan] at hle
  exact hle

theorem slot_cases (s : Option String) :
    s = none ∨ s = some "done" ∨ s = some "skipped" ∨
      ∃ status, s = some status ∧ status ≠ "done" ∧ status ≠ "skipped" := by
  cases s with
  | none => exact Or.inl rfl
  | some status => grind

theorem tallyStep_counts (t : Tally) (s : Option String) :
    (tallyStep t s).done = t.done + (if s = some "done" then 1 else 0) ∧
      (tallyStep t s).skipped = t.skipped + (if s = some "skipped" then 1 else 0) ∧
      (tallyStep t s).missed = t.missed + (if isMissed s then 1 else 0) ∧
      (tallyStep t s).unlogged = t.unlogged + (if s = none then 1 else 0) ∧
      (if s = some "done" then 1 else 0) + (if isMissed s then 1 else 0) +
        (if s = some "skipped" then 1 else 0) + (if s = none then 1 else 0) = 1 := by
  rcases slot_cases s with rfl | rfl | rfl | ⟨status, rfl, hdone, hskip⟩
  · simp [tallyStep, isMissed]
  · simp [tallyStep, isMissed, isDone]
  · simp [tallyStep, isMissed, isDone, isSkip]
  · simp [tallyStep, isMissed, isDone, isSkip, hdone, hskip]

theorem tallyStep_scan {t : Tally} (h : t.run ≤ t.best) (s : Option String) :
    ((tallyStep t s).best, (tallyStep t s).run) = scanStep streakKind (t.best, t.run) s := by
  have hbest : max t.best t.run = t.best := max_eq_left h
  rcases slot_cases s with rfl | rfl | rfl | ⟨status, rfl, hdone, hskip⟩
  · simp [tallyStep, scanStep, streakKind, hbest]
  · simp [tallyStep, scanStep, streakKind, isDone]
  · simp [tallyStep, scanStep, streakKind, isDone, isSkip]
  · simp [tallyStep, scanStep, streakKind, isDone, isSkip, hdone, hskip, hbest]

theorem Tallied.step {slots : List (Option String)} {t : Tally} (h : Tallied slots t)
    (s : Option String) : Tallied (slots ++ [s]) (tallyStep t s) := by
  have hcount : ∀ p : Option String → Bool,
      (slots ++ [s]).countP p = slots.countP p + if p s then 1 else 0 := by
    intro p
    rw [List.countP_append, List.countP_singleton]
  obtain ⟨hdone, hskipped, hmissed, hunlogged, honce⟩ := tallyStep_counts t s
  refine ⟨?_, ?_, ?_, ?_, ?_, ?_⟩
  · rw [hcount, ← h.done, hdone]
    simp only [decide_eq_true_eq]
  · rw [hcount, ← h.skipped, hskipped]
    simp only [decide_eq_true_eq]
  · rw [hcount, ← h.missed, hmissed]
  · rw [hcount, ← h.unlogged, hunlogged]
    simp only [decide_eq_true_eq]
  · rw [List.length_append, List.length_singleton, ← h.total, ← honce, hdone, hskipped, hmissed,
      hunlogged]
    ring
  · rw [Streaks.scan, List.foldl_concat, ← Streaks.scan, h.scan, tallyStep_scan h.run_le_best]

theorem tallied (slots : List (Option String)) :
    Tallied slots (slots.foldl tallyStep Tally.zero) := by
  induction slots using List.reverseRecOn with
  | nil => exact tallied_nil
  | append_singleton slots s ih =>
      rw [List.foldl_concat]
      exact ih.step s

theorem countBack_eq (slots : List (Option String)) :
    countBack slots = headRun streakKind slots := by
  induction slots with
  | nil => rfl
  | cons s slots ih =>
      rcases slot_cases s with rfl | rfl | rfl | ⟨status, rfl, hdone, hskip⟩
      · rfl
      · simp [countBack, headRun, streakKind, isDone, ih]
      · simp [countBack, headRun, streakKind, isDone, isSkip, ih]
      · simp [countBack, headRun, streakKind, isDone, isSkip, hdone, hskip]

theorem scheduledDays_formatYmd {lo hi : NaiveDate} (hlo : IsYmd lo) (hhi : IsYmd hi)
    (daysOfWeek : Option (List Nat)) :
    scheduledDays (formatYmd lo) (formatYmd hi) daysOfWeek =
      ((dates lo hi).filter (scheduled (daysOfWeek.getD []))).map midnight := by
  simp only [scheduledDays, toMs_formatYmd hlo, toMs_formatYmd hhi, msUpTo_midnight,
    List.filter_map]
  congr 2
  funext d
  simp only [Function.comp_apply, dow_midnight, scheduled]

theorem statusOn_eq_some {logs : List HabitLogEntry}
    (h : logs.Pairwise fun e e' => e.logDate ≠ e'.logDate) {d : NaiveDate} {status : String} :
    statusOn logs d = some status ↔ ∃ e ∈ logs, e.logDate = formatYmd d ∧ e.status = status := by
  have hnodup : (logs.map HabitLogEntry.logDate).Nodup := List.pairwise_map.mpr h
  rw [statusOn, Option.map_eq_some_iff]
  constructor
  · rintro ⟨e, hfind, rfl⟩
    exact ⟨e, List.mem_of_find?_eq_some hfind, by simpa using List.find?_some hfind, rfl⟩
  · rintro ⟨e, he, hdate, rfl⟩
    cases hfind : logs.find? fun e => e.logDate = formatYmd d with
    | none => simpa [hdate] using List.find?_eq_none.mp hfind e he
    | some e' =>
        have hdate' : e'.logDate = formatYmd d := by simpa using List.find?_some hfind
        have he' : e' ∈ logs := List.mem_of_find?_eq_some hfind
        exact ⟨e', rfl, by rw [List.inj_on_of_nodup_map hnodup he' he (hdate'.trans hdate.symm)]⟩

theorem get_byDate {logs : List HabitLogEntry}
    (h : logs.Pairwise fun e e' => e.logDate ≠ e'.logDate) (d : NaiveDate) :
    (OrderedMap.ofList (logs.map fun e => (e.logDate, e.status))).get (formatYmd d) =
      statusOn logs d := by
  apply Option.ext
  intro status
  constructor
  · intro hget
    obtain ⟨e, he, heq⟩ := List.mem_map.mp (OrderedMap.get_ofList_eq_some hget)
    obtain ⟨hdate, hstatus⟩ := Prod.mk.inj heq
    exact (statusOn_eq_some h).mpr ⟨e, he, hdate, hstatus⟩
  · intro hstatus
    obtain ⟨e, he, hdate, rfl⟩ := (statusOn_eq_some h).mp hstatus
    refine OrderedMap.get_ofList_of_mem (fun status hmem => ?_)
      (List.mem_map.mpr ⟨e, he, by rw [hdate]⟩)
    obtain ⟨e', he', heq⟩ := List.mem_map.mp hmem
    obtain ⟨hdate', hstatus'⟩ := Prod.mk.inj heq
    have hagain := (statusOn_eq_some h).mpr ⟨e', he', hdate', hstatus'⟩
    exact Option.some.inj (hagain.symm.trans hstatus)

theorem habitStats_formatYmd {logs : List HabitLogEntry} {lo hi : NaiveDate} (hlo : IsYmd lo)
    (hhi : IsYmd hi) (h : logs.Pairwise fun e e' => e.logDate ≠ e'.logDate)
    (daysOfWeek : Option (List Nat)) :
    habitStats logs (formatYmd lo) (formatYmd hi) daysOfWeek =
      statsOfSlots (((dates lo hi).filter (scheduled (daysOfWeek.getD []))).map
        (statusOn logs)) := by
  rw [habitStats, scheduledDays_formatYmd hlo hhi, List.map_map]
  congr 1
  refine List.map_congr_left fun d hd => ?_
  rw [Function.comp_apply, ymd_midnight (isYmd_of_mem_dates hlo hhi (List.mem_of_mem_filter hd)),
    get_byDate h]

theorem size_streakKind (status : NaiveDate → Option String) (days : List NaiveDate) :
    size (fun d => streakKind (status d)) days = days.countP fun d => status d = some "done" := by
  refine List.countP_congr fun d _ => ?_
  simp only [streakKind, decide_eq_true_eq]
  grind

theorem currentStreak_statsOfSlots (status : NaiveDate → Option String) (days : List NaiveDate) :
    (statsOfSlots (days.map status)).currentStreak =
      headRun (fun d => streakKind (status d))
        (days.rdropWhile fun d => status d = none).reverse := by
  have hnone : (Option.isNone ∘ status) = fun d => decide (status d = none) := by
    funext d
    cases h : status d with
    | none => simp [h]
    | some t => simp [h]
  simp only [statsOfSlots]
  rw [← List.map_reverse, List.dropWhile_map, hnone, countBack_eq, headRun_map, List.rdropWhile,
    List.reverse_reverse]
  rfl

theorem isStats_statsOfSlots (status : NaiveDate → Option String) (days : List NaiveDate) :
    IsStats status days (statsOfSlots (days.map status)) := by
  have h := tallied (days.map status)
  have hdone : (statsOfSlots (days.map status)).done =
      days.countP fun d => status d = some "done" := h.done.trans List.countP_map
  have hbest : IsGreatest (runSizes (fun d => streakKind (status d)) days)
      (statsOfSlots (days.map status)).bestStreak := by
    have hscan := h.scan
    rw [scan_map] at hscan
    have heq : (scan (fun d => streakKind (status d)) days).1 =
        (statsOfSlots (days.map status)).bestStreak := congrArg Prod.fst hscan
    rw [← heq]
    exact (scan_spec days).2
  have hcurrent : IsGreatest
      (tailSizes (fun d => streakKind (status d)) (days.rdropWhile fun d => status d = none))
      (statsOfSlots (days.map status)).currentStreak := by
    rw [currentStreak_statsOfSlots]
    exact isGreatest_tailSizes _
  refine ⟨hdone, h.skipped.trans List.countP_map, h.missed.trans List.countP_map,
    h.unlogged.trans List.countP_map, rfl, ?_, hbest, hcurrent, ?_, ?_⟩
  · exact h.total.trans (List.length_map _)
  · obtain ⟨r, hr, hrun⟩ := hcurrent.1
    exact hbest.2 ⟨r, hr.isInfix.trans (List.rdropWhile_prefix _ _).isInfix, hrun⟩
  · rw [hdone, ← size_streakKind]
    exact le_size_of_mem_runSizes hbest.1

/-- Every scheduled day is counted once, and the streaks are the greatest runs. -/
theorem habitStats_isStats (logs : List HabitLogEntry) (daysOfWeek : Option (List Nat))
    (lo hi : NaiveDate) (hlo : IsYmd lo) (hhi : IsYmd hi)
    (h : logs.Pairwise fun e e' => e.logDate ≠ e'.logDate) :
    IsStats (statusOn logs) ((dates lo hi).filter (scheduled (daysOfWeek.getD [])))
      (habitStats logs (formatYmd lo) (formatYmd hi) daysOfWeek) := by
  rw [habitStats_formatYmd hlo hhi h]
  exact isStats_statsOfSlots _ _

def weekLogs : List HabitLogEntry :=
  [⟨"run", "2026-09-04", "done"⟩, ⟨"run", "2026-09-05", "missed"⟩,
    ⟨"run", "2026-09-07", "skipped"⟩, ⟨"run", "2026-09-08", "done"⟩]

def friday : NaiveDate :=
  (NaiveDate.fromYmdOpt 2026 9 4).get rfl

def wednesday : NaiveDate :=
  (NaiveDate.fromYmdOpt 2026 9 9).get rfl

theorem habitStats_isStats_week :
    IsStats (statusOn weekLogs) ((dates friday wednesday).filter (scheduled [1, 2, 3, 4, 5]))
      (habitStats weekLogs (formatYmd friday) (formatYmd wednesday) (some [1, 2, 3, 4, 5])) :=
  habitStats_isStats weekLogs (some [1, 2, 3, 4, 5]) friday wednesday (by decide) (by decide)
    (by decide)

end PersonalDashboard.HabitStatistics
