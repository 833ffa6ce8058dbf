import PersonalDashboard.HabitStatistics

/-! The streaks of the habit dashboard. -/

set_option autoImplicit false

namespace PersonalDashboard.HabitDashboard

open PersonalDashboard.Calendar
open PersonalDashboard.DateStrings
open PersonalDashboard.HabitDays
open PersonalDashboard.HabitStatistics
open PersonalDashboard.HabitStreak (scheduled)
open PersonalDashboard.JsDate
open PersonalDashboard.OrderedMaps
open PersonalDashboard.Streaks
open PersonalDashboard.TaskViews

structure DashHabit where
  id : String
  name : String
  daysOfWeek : List Nat
  startDate : String
  endDate : Option String
  deriving DecidableEq, Repr

structure DashLog where
  habitId : String
  date : String
  status : String
  deriving DecidableEq, Repr

structure LongestStreak where
  days : Nat
  habitNames : List String
  deriving DecidableEq, Repr

def toDashLog (log : HabitLogEntry) : DashLog :=
  { habitId := log.habitId, date := log.logDate, status := log.status }

def maskMatches (habit : DashHabit) (date : String) : Bool :=
  habit.daysOfWeek.isEmpty || (toMs date).any fun ms => habit.daysOfWeek.contains (dow ms)

/-- `habit.endDate && habit.endDate < date`. -/
def endsBefore (habit : DashHabit) (date : String) : Bool :=
  habit.endDate.any fun e => e ≠ "" && jsLt e date

def isExpected (habit : DashHabit) (date todayYmd : String) : Bool :=
  if jsLt todayYmd date then false
  else if habit.startDate ≠ "" && jsLt date habit.startDate then false
  else if endsBefore habit date then false
  else maskMatches habit date

structure LogIndex where
  doneByHabit : OrderedMap String (List String)
  lastLogByHabit : OrderedMap String String

def LogIndex.empty : LogIndex :=
  ⟨OrderedMap.empty, OrderedMap.empty⟩

def LogIndex.add (index : LogIndex) (entry : DashLog) : LogIndex :=
  let doneDates := (index.doneByHabit.get entry.habitId).getD []
  let last := (index.lastLogByHabit.get entry.habitId).getD ""
  { doneByHabit := index.doneByHabit.set entry.habitId
      (if isDone entry.status then doneDates.insert entry.date else doneDates)
    lastLogByHabit :=
      if last = "" || jsLt last entry.date then
        index.lastLogByHabit.set entry.habitId entry.date
      else index.lastLogByHabit }

def runStep (habit : DashHabit) (doneDates : List String) (s : Nat × Nat) (ms : Int) :
    Nat × Nat :=
  let date := ymd ms
  if !maskMatches habit date then s
  else if doneDates.contains date then
    let run := s.2 + 1
    (if s.1 < run then run else s.1, run)
  else (s.1, 0)

/-- The best run of a habit, if it has logs and starts before its last day. -/
def bestOf (index : LogIndex) (habit : DashHabit) : Option Nat := do
  let doneDates ← index.doneByHabit.get habit.id
  let lastLog ← index.lastLogByHabit.get habit.id
  if lastLog = "" then none
  let lastDay := if endsBefore habit lastLog then habit.endDate.getD "" else lastLog
  let startMs ← toMs habit.startDate
  match toMs lastDay with
  | none => some 0
  | some endMs =>
      if endMs < startMs then none
      else some ((msUpTo startMs endMs).foldl (runStep habit doneDates) (0, 0)).1

def longestStreak (habits : List DashHabit) (logs : List DashLog) : LongestStreak :=
  let index := logs.foldl LogIndex.add LogIndex.empty
  let perHabit := habits.filterMap fun habit => (bestOf index habit).map (habit.name, ·)
  let bestDays := perHabit.foldl (fun best entry => max best entry.2) 0
  if bestDays = 0 then { days := 0, habitNames := [] }
  else
    { days := bestDays
      habitNames := (perHabit.filter fun entry => entry.2 = bestDays).map Prod.fst }

/-- The days from the latest done one on, or nothing when an earlier stop is logged. -/
def skipUnlogged (expected : String → Bool) (doneDates loggedDates : List String) :
    List Int → Option (List Int)
  | [] => some []
  | ms :: days =>
      let date := ymd ms
      if expected date then
        if doneDates.contains date then some (ms :: days)
        else if loggedDates.contains date then none
        else skipUnlogged expected doneDates loggedDates days
      else skipUnlogged expected doneDates loggedDates days

def countDone (expected : String → Bool) (doneDates : List String) : List Int → Nat
  | [] => 0
  | ms :: days =>
      let date := ymd ms
      if expected date then
        if !doneDates.contains date then 0 else countDone expected doneDates days + 1
      else countDone expected doneDates days

def currentStreakDays (habit : DashHabit) (logs : List DashLog) (todayYmd : String) : Nat :=
  match toMs habit.startDate with
  | none => 0
  | some startMs =>
      if endsBefore habit todayYmd then 0
      else
        let own := logs.filter fun entry => entry.habitId = habit.id
        let loggedDates := own.map DashLog.date
        let doneDates := (own.filter fun entry => isDone entry.status).map DashLog.date
        let expected := fun date => isExpected habit date todayYmd
        match toMs todayYmd with
        | none => 0
        | some todayMs =>
            (skipUnlogged expected doneDates loggedDates (msDownTo startMs todayMs)).elim 0
              (countDone expected doneDates)

def IsDate (s : String) : Prop :=
  ∃ d, IsYmd d ∧ s = formatYmd d

def loggedDates (habit : DashHabit) (logs : List DashLog) : List String :=
  (logs.filter fun entry => entry.habitId = habit.id).map DashLog.date

def doneDates (habit : DashHabit) (logs : List DashLog) : List String :=
  ((logs.filter fun entry => entry.habitId = habit.id).filter fun entry =>
    isDone entry.status).map DashLog.date

def doneKind (dates : List String) (d : NaiveDate) : Kind :=
  if formatYmd d ∈ dates then .counts else .cuts

theorem maskMatches_formatYmd (habit : DashHabit) {d : NaiveDate} (hd : IsYmd d) :
    maskMatches habit (formatYmd d) = scheduled habit.daysOfWeek d := by
  rw [maskMatches, toMs_formatYmd hd, Option.any_some, dow_midnight, scheduled]

theorem endsBefore_formatYmd {habit : DashHabit} {d : NaiveDate} (hd : IsYmd d)
    (hend : ∀ e ∈ habit.endDate, IsDate e) :
    endsBefore habit (formatYmd d) = true ↔
      ∃ e, IsYmd e ∧ habit.endDate = some (formatYmd e) ∧ e < d := by
  rw [endsBefore, Option.any_eq_true]
  constructor
  · rintro ⟨e, he, h⟩
    obtain ⟨e, hymd, rfl⟩ := hend e he
    rw [Bool.and_eq_true, jsLt_formatYmd hymd.2 hd] at h
    exact ⟨e, hymd, he, of_decide_eq_true h.2⟩
  · rintro ⟨e, hymd, he, hlt⟩
    refine ⟨_, he, ?_⟩
    rw [Bool.and_eq_true, jsLt_formatYmd hymd.2 hd, decide_eq_true_eq, decide_eq_true_eq]
    exact ⟨formatYmd_ne_empty e, hlt⟩

section Walk

variable {habit : DashHabit} {start today d : NaiveDate}

theorem isExpected_formatYmd (hstart : habit.startDate = formatYmd start) (hs : IsYmd start)
    (ht : IsYmd today) (hend : ∀ e ∈ habit.endDate, IsDate e)
    (hopen : endsBefore habit (formatYmd today) = false) (h : d ∈ dates start today) :
    isExpected habit (formatYmd d) (formatYmd today) = scheduled habit.daysOfWeek d := by
  have hd : IsYmd d := isYmd_of_mem_dates hs ht h
  obtain ⟨hlo, hhi⟩ := mem_dates.mp h
  have hafter : jsLt (formatYmd today) (formatYmd d) = false := by
    rw [jsLt_formatYmd ht.2 hd, decide_eq_false_iff_not]
    exact hhi.not_gt
  have hbefore : jsLt (formatYmd d) (formatYmd start) = false := by
    rw [jsLt_formatYmd hd.2 hs, decide_eq_false_iff_not]
    exact hlo.not_gt
  have hended : endsBefore habit (formatYmd d) = false := by
    rw [← Bool.not_eq_true, endsBefore_formatYmd hd hend]
    rintro ⟨e, he, heq, hlt⟩
    have htrue := (endsBefore_formatYmd ht hend).mpr ⟨e, he, heq, hlt.trans_le hhi⟩
    rw [hopen] at htrue
    cases htrue
  simp [isExpected, hafter, hstart, hbefore, hended, maskMatches_formatYmd habit hd]

theorem doneDates_subset (habit : DashHabit) (logs : List DashLog) :
    doneDates habit logs ⊆ loggedDates habit logs :=
  List.map_subset _ (List.filter_subset_self _)

variable {expected : String → Bool} {done logged : List String} {onMask : NaiveDate → Bool}
  {days : List NaiveDate}

theorem countDone_eq (hymd : ∀ d ∈ days, IsYmd d)
    (hexp : ∀ d ∈ days, expected (formatYmd d) = onMask d) :
    countDone expected done (days.map midnight) =
      headRun (doneKind done) (days.filter onMask) := by
  induction days with
  | nil => rfl
  | cons d days ih =>
      have ih := ih (fun d hd => hymd d (List.mem_cons_of_mem _ hd))
        (fun d hd => hexp d (List.mem_cons_of_mem _ hd))
      have hd := hymd d List.mem_cons_self
      have hexpd := hexp d List.mem_cons_self
      simp only [List.map_cons, countDone, ymd_midnight hd, hexpd, ih]
      cases hsched : onMask d with
      | false => simp [hsched]
      | true =>
          by_cases hdone : formatYmd d ∈ done <;> simp [hsched, headRun, doneKind, hdone]

theorem elim_skipUnlogged (expected : String → Bool) (hymd : ∀ d ∈ days, IsYmd d)
    (hexp : ∀ d ∈ days, expected (formatYmd d) = onMask d) (hsub : done ⊆ logged) :
    (skipUnlogged expected done logged (days.map midnight)).elim 0 (countDone expected done) =
      headRun (doneKind done)
        ((days.filter onMask).dropWhile fun d => formatYmd d ∉ logged) := by
  induction days with
  | nil => rfl
  | cons d days ih =>
      have hd := hymd d List.mem_cons_self
      have hexpd := hexp d List.mem_cons_self
      have ih := ih (fun d hd => hymd d (List.mem_cons_of_mem _ hd))
        (fun d hd => hexp d (List.mem_cons_of_mem _ hd))
      simp only [List.map_cons, skipUnlogged, ymd_midnight hd, hexpd]
      cases hsched : onMask d with
      | false => simpa [hsched] using ih
      | true =>
          by_cases hdone : formatYmd d ∈ done
          · have hcount : countDone expected done _ = headRun (doneKind done) _ :=
              countDone_eq hymd hexp
            have hlogged := hsub hdone
            rw [List.map_cons, List.filter_cons_of_pos hsched] at hcount
            simpa [hsched, hdone, hlogged] using hcount
          · by_cases hlogged : formatYmd d ∈ logged
            · simp [hsched, hdone, hlogged, headRun, doneKind]
            · simpa [hsched, hdone, hlogged] using ih

theorem currentStreakDays_formatYmd (logs : List DashLog)
    (hstart : habit.startDate = formatYmd start) (hs : IsYmd start)
    (ht : IsYmd today) (hend : ∀ e ∈ habit.endDate, IsDate e)
    (hopen : endsBefore habit (formatYmd today) = false) :
    currentStreakDays habit logs (formatYmd today) =
      headRun (doneKind (doneDates habit logs))
        (((dates start today).filter (scheduled habit.daysOfWeek)).rdropWhile
          fun d => formatYmd d ∉ loggedDates habit logs).reverse := by
  have hymd : ∀ d ∈ (dates start today).reverse, IsYmd d := fun d hd =>
    isYmd_of_mem_dates hs ht (List.mem_reverse.mp hd)
  have hexp : ∀ d ∈ (dates start today).reverse,
      isExpected habit (formatYmd d) (formatYmd today) =
        scheduled habit.daysOfWeek d := fun d hd =>
    isExpected_formatYmd hstart hs ht hend hopen (List.mem_reverse.mp hd)
  have helim := elim_skipUnlogged (fun date => isExpected habit date (formatYmd today)) hymd hexp
    (doneDates_subset habit logs)
  rw [List.filter_reverse] at helim
  rw [List.rdropWhile, List.reverse_reverse, ← helim, currentStreakDays, hstart,
    toMs_formatYmd hs, toMs_formatYmd ht, ← msDownTo_midnight]
  simp only [hopen]
  rfl

end Walk

/-- The scheduled days of a habit up to the last one that is logged. -/
def daysToLastLog (habit : DashHabit) (logs : List HabitLogEntry) (start today : NaiveDate) :
    List NaiveDate :=
  ((dates start today).filter (scheduled habit.daysOfWeek)).rdropWhile fun d =>
    statusOn logs d = none

/-- The size of the run that the days end with, when skipped days are neutral. -/
def IsNeutralStreak (status : NaiveDate → Option String) (days : List NaiveDate) (n : Nat) :
    Prop :=
  IsGreatest (tailSizes (fun d => streakKind (status d)) days) n

/-- In the run of done and skipped days that the days end with, a skipped one comes after a
done one. -/
def SkipAfterDone (status : NaiveDate → Option String) (days : List NaiveDate) : Prop :=
  ∃ r, r <:+ days ∧ (∀ d ∈ r, status d = some "done" ∨ status d = some "skipped") ∧
    ∃ d d', [d, d'].Sublist r ∧ status d = some "done" ∧ status d' = some "skipped"

theorem streakKind_eq_counts {status : Option String} :
    streakKind status = .counts ↔ status = some "done" := by
  rcases slot_cases status with rfl | rfl | rfl | ⟨t, rfl, hdone, hskip⟩ <;>
    simp_all [streakKind]

theorem streakKind_eq_bridges {status : Option String} :
    streakKind status = .bridges ↔ status = some "skipped" := by
  rcases slot_cases status with rfl | rfl | rfl | ⟨t, rfl, hdone, hskip⟩ <;>
    simp_all [streakKind]

theorem streakKind_ne_cuts {status : Option String} :
    streakKind status ≠ .cuts ↔ status = some "done" ∨ status = some "skipped" := by
  rw [← streakKind_eq_counts, ← streakKind_eq_bridges]
  cases streakKind status <;> simp

theorem skipAfterDone_iff (status : NaiveDate → Option String) (days : List NaiveDate) :
    SkipAfterDone status days ↔ Bridged (fun d => streakKind (status d)) days := by
  simp only [SkipAfterDone, Bridged, Run, streakKind_ne_cuts, streakKind_eq_counts,
    streakKind_eq_bridges]

section Logs

variable {habit : DashHabit} {logs : List HabitLogEntry}

theorem mem_loggedDates (hown : ∀ e ∈ logs, e.habitId = habit.id)
    (h : logs.Pairwise fun e e' => e.logDate ≠ e'.logDate) (d : NaiveDate) :
    formatYmd d ∈ loggedDates habit (logs.map toDashLog) ↔ statusOn logs d ≠ none := by
  rw [Option.ne_none_iff_exists']
  simp only [statusOn_eq_some h, loggedDates, List.mem_map, List.mem_filter, decide_eq_true_eq]
  constructor
  · rintro ⟨_, ⟨⟨e, he, rfl⟩, -⟩, hdate⟩
    exact ⟨e.status, e, he, hdate, rfl⟩
  · rintro ⟨_, e, he, hdate, rfl⟩
    exact ⟨toDashLog e, ⟨⟨e, he, rfl⟩, hown e he⟩, hdate⟩

theorem mem_doneDates (hown : ∀ e ∈ logs, e.habitId = habit.id)
    (h : logs.Pairwise fun e e' => e.logDate ≠ e'.logDate) (d : NaiveDate) :
    formatYmd d ∈ doneDates habit (logs.map toDashLog) ↔ statusOn logs d = some "done" := by
  simp only [statusOn_eq_some h, doneDates, List.mem_map, List.mem_filter, decide_eq_true_eq,
    isDone]
  constructor
  · rintro ⟨_, ⟨⟨⟨e, he, rfl⟩, -⟩, hdone⟩, hdate⟩
    exact ⟨e, he, hdate, hdone⟩
  · rintro ⟨e, he, hdate, hdone⟩
    exact ⟨toDashLog e, ⟨⟨⟨e, he, rfl⟩, hown e he⟩, hdone⟩, hdate⟩

theorem currentStreakDays_strict {start today : NaiveDate}
    (hstart : habit.startDate = formatYmd start) (hs : IsYmd start) (ht : IsYmd today)
    (hend : habit.endDate = none) (hown : ∀ e ∈ logs, e.habitId = habit.id)
    (h : logs.Pairwise fun e e' => e.logDate ≠ e'.logDate) :
    currentStreakDays habit (logs.map toDashLog) (formatYmd today) =
      headRun (strict fun d => streakKind (statusOn logs d))
        (daysToLastLog habit logs start today).reverse := by
  have hkind : doneKind (doneDates habit (logs.map toDashLog)) =
      strict fun d => streakKind (statusOn logs d) := by
    funext d
    simp only [doneKind, strict, mem_doneDates hown h, streakKind_eq_counts]
  have hpass : (fun d => decide (formatYmd d ∉ loggedDates habit (logs.map toDashLog))) =
      fun d => decide (statusOn logs d = none) := by
    funext d
    rw [decide_eq_decide, mem_loggedDates hown h, not_not]
  have hopen : endsBefore habit (formatYmd today) = false := by
    rw [endsBefore, hend, Option.any_none]
  have hnone : ∀ e ∈ habit.endDate, IsDate e := by
    rw [hend]
    intro e he
    cases he
  rw [currentStreakDays_formatYmd _ hstart hs ht hnone hopen, hkind, hpass, daysToLastLog]

theorem currentStreak_habitStats {start today : NaiveDate}
    (hstart : habit.startDate = formatYmd start) (hs : IsYmd start) (ht : IsYmd today)
    (h : logs.Pairwise fun e e' => e.logDate ≠ e'.logDate) :
    (habitStats logs habit.startDate (formatYmd today) (some habit.daysOfWeek)).currentStreak =
      headRun (fun d => streakKind (statusOn logs d))
        (daysToLastLog habit logs start today).reverse := by
  rw [hstart, habitStats_formatYmd hs ht h, currentStreak_statsOfSlots, Option.getD_some,
    daysToLastLog]

end Logs

/-- The two streaks are the same number, and in both a skipped day is neutral. -/
structure StreaksAgree (habit : DashHabit) (logs : List HabitLogEntry) (start today : NaiveDate) :
    Prop where
  equal : currentStreakDays habit (logs.map toDashLog) (formatYmd today) =
    (habitStats logs habit.startDate (formatYmd today) (some habit.daysOfWeek)).currentStreak
  dashboard : IsNeutralStreak (statusOn logs) (daysToLastLog habit logs start today)
    (currentStreakDays habit (logs.map toDashLog) (formatYmd today))
  stats : IsNeutralStreak (statusOn logs) (daysToLastLog habit logs start today)
    (habitStats logs habit.startDate (formatYmd today) (some habit.daysOfWeek)).currentStreak

/-- The two agree unless the streak has a skipped day to bridge. -/
theorem streaksAgree_iff (habit : DashHabit) (logs : List HabitLogEntry)
    (start today : NaiveDate) (hs : IsYmd start) (ht : IsYmd today)
    (hstart : habit.startDate = formatYmd start) (hend : habit.endDate = none)
    (hown : ∀ e ∈ logs, e.habitId = habit.id)
    (h : logs.Pairwise fun e e' => e.logDate ≠ e'.logDate) :
    StreaksAgree habit logs start today ↔
      ¬ SkipAfterDone (statusOn logs) (daysToLastLog habit logs start today) := by
  have hstats : IsNeutralStreak (statusOn logs) (daysToLastLog habit logs start today)
      (habitStats logs habit.startDate (formatYmd today)
        (some habit.daysOfWeek)).currentStreak := by
    rw [currentStreak_habitStats hstart hs ht h]
    exact isGreatest_tailSizes _
  rw [skipAfterDone_iff, ← headRun_reverse_strict_eq_iff,
    ← currentStreakDays_strict hstart hs ht hend hown h,
    ← currentStreak_habitStats hstart hs ht h]
  constructor
  · exact fun hagree => hagree.equal
  · intro hequal
    exact ⟨hequal, hequal ▸ hstats, hstats⟩

def dailyHabit : DashHabit :=
  { id := "run", name := "Correr", daysOfWeek := [], startDate := "2026-09-04", endDate := none }

def skippedLogs : List HabitLogEntry :=
  [⟨"run", "2026-09-07", "done"⟩, ⟨"run", "2026-09-08", "skipped"⟩, ⟨"run", "2026-09-09", "done"⟩]

theorem skippedLogs_dates :
    ∀ e ∈ skippedLogs, ∃ d ∈ dates friday wednesday, e.logDate = formatYmd d := by
  decide +kernel

theorem streaksAgree_iff_daily :
    StreaksAgree dailyHabit skippedLogs friday wednesday ↔
      ¬ SkipAfterDone (statusOn skippedLogs)
        (daysToLastLog dailyHabit skippedLogs friday wednesday) :=
  streaksAgree_iff dailyHabit skippedLogs friday wednesday (by decide) (by decide)
    (by decide +kernel) rfl (by decide) (by decide)

/-- A skipped day between two done ones: one streak is 1, and the other is 2. -/
theorem not_streaksAgree :
    ¬ ∀ (habit : DashHabit) (logs : List HabitLogEntry) (start today : NaiveDate),
      IsYmd start → IsYmd today → habit.startDate = formatYmd start → habit.endDate = none →
      start ≤ today → (∀ e ∈ logs, e.habitId = habit.id) →
      (∀ e ∈ logs, e.status ∈ ["done", "missed", "skipped", "not_done"]) →
      (∀ e ∈ logs, ∃ d, IsYmd d ∧ d ≤ today ∧ e.logDate = formatYmd d) →
      (logs.Pairwise fun e e' => e.logDate ≠ e'.logDate) →
      StreaksAgree habit logs start today := by
  intro hall
  have hagree := hall dailyHabit skippedLogs friday wednesday (by decide) (by decide)
    (by decide +kernel) rfl (by decide +kernel) (by decide) (by decide) ?_ (by decide)
  · exact absurd hagree.equal (by decide +kernel)
  · intro e he
    obtain ⟨d, hd, hdate⟩ := skippedLogs_dates e he
    exact ⟨d, isYmd_of_mem_dates (by decide) (by decide) hd, (mem_dates.mp hd).2, hdate⟩

structure Indexed (logs : List DashLog) (index : LogIndex) : Prop where
  done : ∀ e ∈ logs, isDone e.status = true →
    ∃ dates, index.doneByHabit.get e.habitId = some dates ∧ e.date ∈ dates
  last : ∀ e ∈ logs, ∃ last, index.lastLogByHabit.get e.habitId = some last ∧
    codeUnits e.date.toList ≤ codeUnits last.toList
  logged : ∀ id last, index.lastLogByHabit.get id = some last → ∃ e ∈ logs, e.date = last

theorem indexed_nil : Indexed [] LogIndex.empty :=
  ⟨fun _ he => (nomatch he), fun _ he => (nomatch he), fun _ _ h => (nomatch h)⟩

theorem Indexed.add_done {logs : List DashLog} {index : LogIndex} (h : Indexed logs index)
    (entry e : DashLog) (he : e ∈ logs ∨ e = entry) (hdone : isDone e.status = true) :
    ∃ dates, (index.add entry).doneByHabit.get e.habitId = some dates ∧ e.date ∈ dates := by
  simp only [LogIndex.add, OrderedMap.get_set]
  rcases he with he | rfl
  · obtain ⟨dates, hget, hdate⟩ := h.done e he hdone
    by_cases hid : e.habitId = entry.habitId
    · rw [if_pos hid, ← hid, hget, Option.getD_some]
      refine ⟨_, rfl, ?_⟩
      split
      · exact List.mem_insert_of_mem hdate
      · exact hdate
    · rw [if_neg hid]
      exact ⟨dates, hget, hdate⟩
  · rw [if_pos rfl, if_pos hdone]
    exact ⟨_, rfl, List.mem_insert_self⟩

theorem Indexed.add_last {logs : List DashLog} {index : LogIndex} (h : Indexed logs index)
    (entry e : DashLog) (he : e ∈ logs ∨ e = entry) :
    ∃ last, (index.add entry).lastLogByHabit.get e.habitId = some last ∧
      codeUnits e.date.toList ≤ codeUnits last.toList := by
  simp only [LogIndex.add]
  split
  · rename_i hnew
    rw [OrderedMap.get_set]
    rcases he with he | rfl
    · obtain ⟨last, hget, hle⟩ := h.last e he
      by_cases hid : e.habitId = entry.habitId
      · rw [if_pos hid]
        rw [← hid, hget, Option.getD_some, Bool.or_eq_true, decide_eq_true_eq] at hnew
        refine ⟨_, rfl, hle.trans ?_⟩
        rcases hnew with rfl | hlt
        · have hnil : codeUnits "".toList = [] := by decide
          rw [hnil]
          exact not_lt.mp (List.not_lt_nil _)
        · have hlt : codeUnits last.toList < codeUnits entry.date.toList := of_decide_eq_true hlt
          exact hlt.le
      · rw [if_neg hid]
        exact ⟨last, hget, hle⟩
    · rw [if_pos rfl]
      exact ⟨_, rfl, le_rfl⟩
  · rename_i hold
    rcases he with he | rfl
    · exact h.last e he
    · cases hget : index.lastLogByHabit.get e.habitId with
      | none => simp [hget] at hold
      | some last =>
          rw [hget, Option.getD_some, Bool.or_eq_true, not_or] at hold
          have hle : ¬ codeUnits last.toList < codeUnits e.date.toList := fun hlt =>
            hold.2 (decide_eq_true hlt)
          exact ⟨last, rfl, not_lt.mp hle⟩

theorem Indexed.add_logged {logs : List DashLog} {index : LogIndex} (h : Indexed logs index)
    (entry : DashLog) (id last : String)
    (hlast : (index.add entry).lastLogByHabit.get id = some last) :
    ∃ e, (e ∈ logs ∨ e = entry) ∧ e.date = last := by
  have hold : index.lastLogByHabit.get id = some last →
      ∃ e, (e ∈ logs ∨ e = entry) ∧ e.date = last := by
    intro hget
    obtain ⟨e, he, hdate⟩ := h.logged id last hget
    exact ⟨e, Or.inl he, hdate⟩
  simp only [LogIndex.add] at hlast
  split at hlast
  · rw [OrderedMap.get_set] at hlast
    split at hlast
    · exact ⟨entry, Or.inr rfl, Option.some.inj hlast⟩
    · exact hold hlast
  · exact hold hlast

theorem Indexed.add {logs : List DashLog} {index : LogIndex} (h : Indexed logs index)
    (entry : DashLog) : Indexed (logs ++ [entry]) (index.add entry) := by
  have hmem : ∀ e, e ∈ logs ++ [entry] ↔ e ∈ logs ∨ e = entry := by
    intro e
    rw [List.mem_append, List.mem_singleton]
  refine ⟨fun e he => ?_, fun e he => ?_, fun id last hlast => ?_⟩
  · exact h.add_done entry e ((hmem e).mp he)
  · exact h.add_last entry e ((hmem e).mp he)
  · obtain ⟨e, he, hdate⟩ := h.add_logged entry id last hlast
    exact ⟨e, (hmem e).mpr he, hdate⟩

theorem indexed (logs : List DashLog) :
    Indexed logs (logs.foldl LogIndex.add LogIndex.empty) := by
  induction logs using List.reverseRecOn with
  | nil => exact indexed_nil
  | append_singleton logs entry ih =>
      rw [List.foldl_concat]
      exact ih.add entry

theorem foldl_runStep (habit : DashHabit) (done : List String) {days : List NaiveDate}
    (hymd : ∀ d ∈ days, IsYmd d) :
    (days.map midnight).foldl (runStep habit done) (0, 0) =
      scan (doneKind done) (days.filter (scheduled habit.daysOfWeek)) := by
  rw [scan, List.foldl_map, List.foldl_filter]
  refine List.foldl_ext _ _ _ fun s d hd => ?_
  have hcontains : done.contains (formatYmd d) = decide (formatYmd d ∈ done) :=
    List.contains_eq_mem _ _
  simp only [runStep, ymd_midnight (hymd d hd), maskMatches_formatYmd habit (hymd d hd),
    hcontains, scanStep, doneKind]
  cases scheduled habit.daysOfWeek d with
  | false => simp
  | true =>
      by_cases hdone : formatYmd d ∈ done
      · simp [hdone, max_def_lt]
      · simp [hdone]

theorem le_foldl_max {l : List (String × Nat)} {entry : String × Nat} (h : entry ∈ l)
    (n : Nat) : entry.2 ≤ l.foldl (fun best entry => max best entry.2) n := by
  rw [show l.foldl (fun best entry => max best entry.2) n = (l.map Prod.snd).foldl max n from
    List.foldl_map.symm, List.foldl_max]
  exact (List.le_max?_getD_of_mem (List.mem_map_of_mem h)).trans (le_max_right _ _)

theorem le_longestStreak {habits : List DashHabit} {habit : DashHabit} {logs : List DashLog}
    (h : habit ∈ habits) {best : Nat}
    (hbest : bestOf (logs.foldl LogIndex.add LogIndex.empty) habit = some best) :
    best ≤ (longestStreak habits logs).days := by
  have hmem : (habit.name, best) ∈ habits.filterMap fun habit =>
      (bestOf (logs.foldl LogIndex.add LogIndex.empty) habit).map (habit.name, ·) :=
    List.mem_filterMap.mpr ⟨habit, h, by rw [hbest, Option.map_some]⟩
  have hle := le_foldl_max hmem 0
  simp only [longestStreak]
  split
  · rename_i hzero
    rw [hzero] at hle
    exact hle
  · exact hle

section Longest

variable {habit : DashHabit} {logs : List DashLog} {start today : NaiveDate}
  {r : List NaiveDate}

theorem exists_done_log {date : String} (h : date ∈ doneDates habit logs) :
    ∃ e ∈ logs, e.habitId = habit.id ∧ isDone e.status = true ∧ e.date = date := by
  obtain ⟨e, he, rfl⟩ := List.mem_map.mp h
  obtain ⟨hown, hdone⟩ := List.mem_filter.mp he
  obtain ⟨hmem, hid⟩ := List.mem_filter.mp hown
  exact ⟨e, hmem, of_decide_eq_true hid, hdone, rfl⟩

theorem run_doneKind {dates : List String} :
    Run (doneKind dates) r ↔ ∀ d ∈ r, formatYmd d ∈ dates := by
  refine forall₂_congr fun d _ => ?_
  simp [doneKind]

theorem size_doneKind {dates : List String} (h : ∀ d ∈ r, formatYmd d ∈ dates) :
    size (doneKind dates) r = r.length := by
  rw [size, List.countP_eq_length]
  intro d hd
  simp [doneKind, h d hd]

theorem exists_current_run (hstart : habit.startDate = formatYmd start) (hs : IsYmd start)
    (ht : IsYmd today) (hend : ∀ e ∈ habit.endDate, IsDate e)
    (hopen : endsBefore habit (formatYmd today) = false) :
    ∃ r, r <:+: (dates start today).filter (scheduled habit.daysOfWeek) ∧
      (∀ d ∈ r, formatYmd d ∈ doneDates habit logs) ∧
      currentStreakDays habit logs (formatYmd today) = r.length := by
  have hgreatest : IsGreatest (tailSizes (doneKind (doneDates habit logs)) _) _ :=
    isGreatest_tailSizes (((dates start today).filter (scheduled habit.daysOfWeek)).rdropWhile
      fun d => formatYmd d ∉ loggedDates habit logs)
  obtain ⟨r, hr, hrun, hsize⟩ := hgreatest.1
  have hdone := run_doneKind.mp hrun
  refine ⟨r, hr.isInfix.trans (List.rdropWhile_prefix _ _).isInfix, hdone, ?_⟩
  rw [currentStreakDays_formatYmd logs hstart hs ht hend hopen, ← hsize, size_doneKind hdone]

theorem exists_last_day {last : NaiveDate} (hlast : IsYmd last) (ht : IsYmd today)
    (hend : ∀ e ∈ habit.endDate, IsDate e)
    (hopen : endsBefore habit (formatYmd today) = false) :
    ∃ e, IsYmd e ∧ (if endsBefore habit (formatYmd last) then habit.endDate.getD ""
        else formatYmd last) = formatYmd e ∧ ∀ d, d ≤ last → d ≤ today → d ≤ e := by
  by_cases hbefore : endsBefore habit (formatYmd last) = true
  · obtain ⟨e, he, heq, hlt⟩ := (endsBefore_formatYmd hlast hend).mp hbefore
    refine ⟨e, he, by rw [if_pos hbefore, heq, Option.getD_some], fun d _ hd => hd.trans ?_⟩
    refine not_lt.mp fun hlt => ?_
    have htrue := (endsBefore_formatYmd ht hend).mpr ⟨e, he, heq, hlt⟩
    rw [hopen] at htrue
    cases htrue
  · exact ⟨last, hlast, if_neg hbefore, fun d hd _ => hd⟩

theorem bestOf_eq (index : LogIndex) {done : List String} {last e : NaiveDate}
    (hstart : habit.startDate = formatYmd start) (hs : IsYmd start)
    (hdone : index.doneByHabit.get habit.id = some done)
    (hlast : index.lastLogByHabit.get habit.id = some (formatYmd last))
    (he : IsYmd e) (hday : (if endsBefore habit (formatYmd last) then habit.endDate.getD ""
      else formatYmd last) = formatYmd e) (hle : start ≤ e) :
    bestOf index habit =
      some (scan (doneKind done) ((dates start e).filter (scheduled habit.daysOfWeek))).1 := by
  have hymd : ∀ d ∈ dates start e, IsYmd d := fun d hd => isYmd_of_mem_dates hs he hd
  have hms : ¬ midnight e < midnight start := not_lt.mpr (midnight_le_iff.mpr hle)
  simp [bestOf, hdone, hlast, formatYmd_ne_empty, hday, hstart, toMs_formatYmd hs,
    toMs_formatYmd he, hms, msUpTo_midnight, foldl_runStep habit done hymd]

theorem infix_dates {e : NaiveDate} (hr : r <:+: (dates start today).filter
    (scheduled habit.daysOfWeek)) (h : ∀ d ∈ r, d ≤ e) :
    r <:+: (dates start e).filter (scheduled habit.daysOfWeek) := by
  rcases le_total today e with hle | hle
  · exact hr.trans ((dates_isPrefix hle).filter _).isInfix
  · have hfilter : r.filter (· ≤ e) = r :=
      List.filter_eq_self.mpr fun d hd => decide_eq_true (h d hd)
    rw [← filter_dates hle, List.filter_filter]
    have hinfix := hr.filter (· ≤ e)
    rw [hfilter, List.filter_filter] at hinfix
    simpa only [Bool.and_comm] using hinfix

theorem length_le_bestOf (hlogs : ∀ e ∈ logs, IsDate e.date)
    (hstart : habit.startDate = formatYmd start) (hs : IsYmd start)
    (ht : IsYmd today) (hend : ∀ e ∈ habit.endDate, IsDate e)
    (hopen : endsBefore habit (formatYmd today) = false) (hne : r ≠ [])
    (hr : r <:+: (dates start today).filter (scheduled habit.daysOfWeek))
    (hdone : ∀ d ∈ r, formatYmd d ∈ doneDates habit logs) :
    ∃ best, bestOf (logs.foldl LogIndex.add LogIndex.empty) habit = some best ∧
      r.length ≤ best := by
  have hindex := indexed logs
  have hmem : ∀ d ∈ r, start ≤ d ∧ d ≤ today := fun d hd =>
    mem_dates.mp (List.mem_of_mem_filter (hr.subset hd))
  have hymd : ∀ d ∈ r, IsYmd d := fun d hd => isYmd_of_mem_dates hs ht (mem_dates.mpr (hmem d hd))
  obtain ⟨d, hd⟩ := List.exists_mem_of_ne_nil r hne
  obtain ⟨e, he, hid, hdone', -⟩ := exists_done_log (hdone d hd)
  obtain ⟨done, hget, -⟩ := hindex.done e he hdone'
  obtain ⟨last, hlast, -⟩ := hindex.last e he
  rw [hid] at hget hlast
  obtain ⟨e', he', rfl⟩ := hindex.logged _ _ hlast
  obtain ⟨last, hlastYmd, hlastDate⟩ := hlogs e' he'
  rw [hlastDate] at hlast
  have hdates : ∀ d ∈ r, formatYmd d ∈ done := by
    intro d hd
    obtain ⟨e, he, hid, hdone', hdate⟩ := exists_done_log (hdone d hd)
    obtain ⟨dates, hget', hmem⟩ := hindex.done e he hdone'
    rw [hid, hget] at hget'
    rw [← hdate, Option.some.inj hget']
    exact hmem
  have hbefore : ∀ d ∈ r, d ≤ last := by
    intro d hd
    obtain ⟨e, he, hid, -, hdate⟩ := exists_done_log (hdone d hd)
    obtain ⟨last', hlast', hle⟩ := hindex.last e he
    rw [hid, hlast] at hlast'
    rw [← Option.some.inj hlast', hdate] at hle
    refine not_lt.mp fun hlt => ?_
    have hjs := jsLt_formatYmd hlastYmd.2 (hymd d hd)
    rw [decide_eq_true hlt, jsLt, decide_eq_true_eq] at hjs
    exact hle.not_gt hjs
  obtain ⟨e, heYmd, hday, hle⟩ := exists_last_day hlastYmd ht hend hopen
  have hlimit : ∀ d ∈ r, d ≤ e := fun d hd => hle d (hbefore d hd) (hmem d hd).2
  refine ⟨_, bestOf_eq _ hstart hs hget hlast heYmd hday
    ((hmem d hd).1.trans (hlimit d hd)), ?_⟩
  exact (scan_spec _).2.2 ⟨r, infix_dates hr hlimit, run_doneKind.mpr hdates,
    size_doneKind hdates⟩

end Longest

/-- The current streak of a habit is never above the longest one. -/
theorem currentStreakDays_le_longestStreak (habits : List DashHabit) (habit : DashHabit)
    (logs : List DashLog) (start today : NaiveDate) (hhabit : habit ∈ habits)
    (hs : IsYmd start) (ht : IsYmd today) (hstart : habit.startDate = formatYmd start)
    (hend : ∀ e ∈ habit.endDate, IsDate e) (hlogs : ∀ e ∈ logs, IsDate e.date) :
    currentStreakDays habit logs (formatYmd today) ≤ (longestStreak habits logs).days := by
  cases hopen : endsBefore habit (formatYmd today) with
  | true =>
      rw [currentStreakDays, hstart, toMs_formatYmd hs]
      simp [hopen]
  | false =>
      obtain ⟨r, hr, hdone, hlength⟩ := exists_current_run hstart hs ht hend hopen
      rw [hlength]
      by_cases hne : r = []
      · rw [hne]
        exact Nat.zero_le _
      · obtain ⟨best, hbest, hle⟩ := length_le_bestOf hlogs hstart hs ht hend hopen hne hr hdone
        exact hle.trans (le_longestStreak hhabit hbest)

theorem currentStreakDays_le_longestStreak_daily :
    currentStreakDays dailyHabit (skippedLogs.map toDashLog) (formatYmd wednesday) ≤
      (longestStreak [dailyHabit] (skippedLogs.map toDashLog)).days :=
  currentStreakDays_le_longestStreak [dailyHabit] dailyHabit (skippedLogs.map toDashLog) friday
    wednesday (by decide) (by decide) (by decide) (by decide +kernel) (fun e he => (nomatch he))
    fun e he => by
      obtain ⟨log, hlog, rfl⟩ := List.mem_map.mp he
      obtain ⟨d, hd, hdate⟩ := skippedLogs_dates log hlog
      exact ⟨d, isYmd_of_mem_dates (by decide) (by decide) hd, hdate⟩

end PersonalDashboard.HabitDashboard
