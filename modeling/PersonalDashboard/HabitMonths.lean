import PersonalDashboard.ActivityReports
import PersonalDashboard.HabitDashboard
import Mathlib.Algebra.Order.BigOperators.Group.List
import Mathlib.Algebra.BigOperators.Ring.List
import Mathlib.Data.List.GetD

/-! The months of the habit dashboard: what a month counts, by day and by weekday. -/

set_option autoImplicit false

namespace PersonalDashboard.HabitMonths

open PersonalDashboard.ActivityReports (jsLt_ofList)
open PersonalDashboard.Binary64
open PersonalDashboard.Calendar
open PersonalDashboard.Calendar.NaiveDate
open PersonalDashboard.CalendarUnits
open PersonalDashboard.DateStrings
open PersonalDashboard.GroupedSums
open PersonalDashboard.HabitDashboard
open PersonalDashboard.HabitDays
open PersonalDashboard.HabitStatistics hiding round
open PersonalDashboard.HabitStreak (scheduled)
open PersonalDashboard.JsDate
open PersonalDashboard.PeriodRanges (makeDay_zero)
open PersonalDashboard.TaskViews
open PersonalDashboard.TextIndices (append_cons_inj)

structure ListedHabit extends DashHabit where
  category : Option String
  isArchived : Bool
  deriving DecidableEq, Repr

structure MonthlyCompliance where
  pct : ℚ
  done : Nat
  expected : Nat
  deriving DecidableEq, Repr

structure TodayCompletion where
  done : Nat
  total : Nat
  deriving DecidableEq, Repr

structure BestWeekday where
  index : Nat
  pct : ℚ
  deriving DecidableEq, Repr

structure WeekdayConsistency where
  values : List ℚ
  avg : ℚ
  best : BestWeekday
  deriving DecidableEq, Repr

def round1 (value : ℚ) : ℚ :=
  double (HabitStatistics.round (double (value * 10)) / 10)

def pctOf (done expected : Nat) : ℚ :=
  if 0 < expected then round1 (double (double (done / expected) * 100)) else 0

def pairKey (habitId date : String) : String :=
  s!"{habitId}|{date}"

def donePairsOf (logs : List DashLog) : List String :=
  (logs.filter fun entry => isDone entry.status).map fun entry => pairKey entry.habitId entry.date

def monthDays (monthKey : String) : List String :=
  match matchMonth monthKey with
  | none => []
  | some (year, month) =>
      if month < 1 ∨ 12 < month then []
      else
        let lastDay := (utcDate (utc year month 0)).day
        (List.range lastDay).map fun (i : Nat) => ymd (utc year (month - 1) (1 + i))

/-- `s.slice(0, 7)`. -/
def firstSeven (s : String) : String :=
  String.ofList (s.toList.take 7)

def expectedDates (habit : DashHabit) (monthKey todayYmd : String) : List String :=
  if jsLt (firstSeven todayYmd) monthKey then []
  else (monthDays monthKey).filter fun date => isExpected habit date todayYmd

def activeHabits (habits : List ListedHabit) (monthKey todayYmd : String) : List ListedHabit :=
  match (monthDays monthKey).head?, (monthDays monthKey).getLast? with
  | some monthStart, some monthEnd =>
      let visibleEnd := if jsLt monthEnd todayYmd then monthEnd else todayYmd
      if jsLt visibleEnd monthStart then []
      else
        habits.filter fun habit =>
          if habit.isArchived then false
          else if habit.startDate ≠ "" && jsLt visibleEnd habit.startDate then false
          else if endsBefore habit.toDashHabit monthStart then false
          else true
  | _, _ => []

/-- The pairs of a habit and a date that the loops over a month run through. -/
def expectedCells (habits : List ListedHabit) (monthKey todayYmd : String) :
    List (String × String) :=
  (activeHabits habits monthKey todayYmd).flatMap fun habit =>
    (expectedDates habit.toDashHabit monthKey todayYmd).map fun date => (habit.id, date)

structure CellCount where
  done : Nat
  expected : Nat
  deriving DecidableEq, Repr

def CellCount.zero : CellCount :=
  ⟨0, 0⟩

def CellCount.add (donePairs : List String) (n : CellCount) (cell : String × String) : CellCount :=
  { done := if donePairs.contains (pairKey cell.1 cell.2) then n.done + 1 else n.done
    expected := n.expected + 1 }

def countCells (donePairs : List String) (cells : List (String × String)) : CellCount :=
  cells.foldl (CellCount.add donePairs) CellCount.zero

def monthlyCompliance (habits : List ListedHabit) (logs : List DashLog)
    (monthKey todayYmd : String) : MonthlyCompliance :=
  let n := countCells (donePairsOf logs) (expectedCells habits monthKey todayYmd)
  { pct := pctOf n.done n.expected, done := n.done, expected := n.expected }

def todayCompletion (habits : List ListedHabit) (logs : List DashLog) (todayYmd : String) :
    TodayCompletion :=
  let doneToday := (logs.filter fun entry =>
    entry.date = todayYmd && isDone entry.status).map DashLog.habitId
  let due := habits.filter fun habit =>
    !habit.isArchived && isExpected habit.toDashHabit todayYmd todayYmd
  { done := due.countP fun habit => doneToday.contains habit.id, total := due.length }

/-- The index of a date's weekday, from Monday on. -/
def weekdayIndex (date : String) : Option Nat :=
  (toMs date).map fun ms => (dow ms + 6) % 7

def addByWeekday (donePairs : List String) (counts : List CellCount) (cell : String × String) :
    List CellCount :=
  match weekdayIndex cell.2 with
  | some index => counts.modify index fun n => n.add donePairs cell
  | none => counts

def bestIndex (values : List ℚ) : Nat :=
  (List.range' 1 (values.length - 1)).foldl
    (fun best index => if values.getD best 0 < values.getD index 0 then index else best) 0

def weekdayConsistency (habits : List ListedHabit) (logs : List DashLog)
    (monthKey todayYmd : String) : WeekdayConsistency :=
  let counts := (expectedCells habits monthKey todayYmd).foldl (addByWeekday (donePairsOf logs))
    (List.replicate 7 CellCount.zero)
  let values := counts.map fun n => pctOf n.done n.expected
  let totalExpected := (counts.map CellCount.expected).sum
  { values := values
    avg := if totalExpected = 0 then 0 else round1 (double (Binary64.sum values / 7))
    best := { index := bestIndex values, pct := values.getD (bestIndex values) 0 } }

theorem round_mono {a b : ℚ} (h : a ≤ b) : HabitStatistics.round a ≤ HabitStatistics.round b :=
  Int.floor_le_floor (add_le_add_left h _)

@[simp]
theorem round_intCast (n : Int) : HabitStatistics.round n = n := by
  rw [HabitStatistics.round, Int.floor_eq_iff]
  norm_num

theorem tenths_nonneg {a : ℚ} (h : 0 ≤ a) : 0 ≤ HabitStatistics.round (double (a * 10)) := by
  rw [← round_intCast 0]
  exact round_mono (by exact_mod_cast double_nonneg (mul_nonneg h (by norm_num)))

theorem round1_nonneg {a : ℚ} (h : 0 ≤ a) : 0 ≤ round1 a :=
  double_nonneg (div_nonneg (Int.cast_nonneg (tenths_nonneg h)) (by norm_num))

theorem round1_mono {a b : ℚ} (ha : 0 ≤ a) (h : a ≤ b) : round1 a ≤ round1 b := by
  have hten : double (a * 10) ≤ double (b * 10) :=
    double_mono (mul_nonneg ha (by norm_num)) (mul_le_mul_of_nonneg_right h (by norm_num))
  have hround := round_mono hten
  refine double_mono (div_nonneg (Int.cast_nonneg (tenths_nonneg ha)) (by norm_num)) ?_
  exact div_le_div_of_nonneg_right (Int.cast_le.mpr hround) (by norm_num)

theorem share_nonneg (done expected : Nat) : 0 ≤ double (double (done / expected) * 100) :=
  double_nonneg (mul_nonneg (double_nonneg (by positivity)) (by norm_num))

theorem pctOf_of_pos (done : Nat) {expected : Nat} (h : 0 < expected) :
    pctOf done expected = round1 (double (double (done / expected) * 100)) :=
  if_pos h

theorem pctOf_nonneg (done expected : Nat) : 0 ≤ pctOf done expected := by
  rcases Nat.eq_zero_or_pos expected with rfl | hpos
  · exact le_rfl
  · rw [pctOf_of_pos done hpos]
    exact round1_nonneg (share_nonneg done expected)

theorem pctOf_le_pctOf {done expected done' expected' : Nat} (hpos' : 0 < expected')
    (h : expected' * done ≤ expected * done') : pctOf done expected ≤ pctOf done' expected' := by
  rcases Nat.eq_zero_or_pos expected with rfl | hpos
  · exact pctOf_nonneg done' expected'
  · rw [pctOf_of_pos done hpos, pctOf_of_pos done' hpos']
    have hdiv : (done : ℚ) / expected ≤ done' / expected' := by
      rw [div_le_div_iff₀ (by exact_mod_cast hpos) (by exact_mod_cast hpos')]
      exact_mod_cast (by linarith : done * expected' ≤ done' * expected)
    have hshare := double_mono (by positivity) hdiv
    refine round1_mono (share_nonneg done expected) (double_mono ?_ ?_)
    · exact mul_nonneg (double_nonneg (by positivity)) (by norm_num)
    · exact mul_le_mul_of_nonneg_right hshare (by norm_num)

theorem exists_tenths {done expected : Nat} (h : done ≤ expected) :
    ∃ k : Nat, k ≤ 1000 ∧ pctOf done expected = double (k / 10) := by
  rcases Nat.eq_zero_or_pos expected with rfl | hpos
  · exact ⟨0, Nat.zero_le _, by rw [Nat.cast_zero, zero_div, double_zero]; rfl⟩
  have hdiv : double (done / expected) ≤ 1 := by
    refine double_le (by positivity) ?_ (by exact_mod_cast isDouble_natCast (n := 1) (by norm_num))
    rw [div_le_one (by exact_mod_cast hpos)]
    exact_mod_cast h
  have hdiv' : 0 ≤ double ((done : ℚ) / expected) := double_nonneg (by positivity)
  have hshare : double (double (done / expected) * 100) ≤ 100 :=
    double_le (by positivity) (by linarith)
      (by exact_mod_cast isDouble_natCast (n := 100) (by norm_num))
  have hten : double (double (double (done / expected) * 100) * 10) ≤ 1000 :=
    double_le (mul_nonneg (share_nonneg done expected) (by norm_num)) (by linarith)
      (by exact_mod_cast isDouble_natCast (n := 1000) (by norm_num))
  obtain ⟨k, hk⟩ := Int.eq_ofNat_of_zero_le (tenths_nonneg (share_nonneg done expected))
  have hround := round_mono (b := ((1000 : Int) : ℚ)) (by exact_mod_cast hten)
  rw [hk, round_intCast] at hround
  refine ⟨k, by exact_mod_cast hround, ?_⟩
  rw [pctOf_of_pos done hpos, round1, hk, Int.cast_natCast]

example : pctOf 23 80 = double (287 / 10) := by decide +kernel

theorem pctOf_le_hundred {done expected : Nat} (h : done ≤ expected) :
    pctOf done expected ≤ 100 := by
  obtain ⟨k, hk, hpct⟩ := exists_tenths h
  rw [hpct]
  refine double_le (by positivity) ?_ (by exact_mod_cast isDouble_natCast (n := 100) (by norm_num))
  have hk : (k : ℚ) ≤ 1000 := by exact_mod_cast hk
  linarith

/-- The mean of seven percentages is at most the greatest one, although it is rounded
at each addition: a bound with few binary places lies between them. -/
theorem mean_le {values : List ℚ} {k : Nat} (hk : k ≤ 1000) (hlength : values.length = 7)
    (hvalues : ∀ v ∈ values, 0 ≤ v ∧ v ≤ double (k / 10)) :
    0 ≤ double (sum values / 7) ∧ round1 (double (sum values / 7)) ≤ double (k / 10) := by
  obtain ⟨c, hc, hc'⟩ : ∃ c : Nat, k * 1024 ≤ 10 * c ∧ 10 * c ≤ k * 1024 + 9 :=
    ⟨(k * 1024 + 9) / 10, by omega, by omega⟩
  have hcast : (k : ℚ) * 1024 ≤ 10 * c := by exact_mod_cast hc
  have hcast' : (10 : ℚ) * c ≤ k * 1024 + 9 := by exact_mod_cast hc'
  have hdouble : ∀ n ≤ 10, IsDouble ((n : Nat) * (c / 1024 : ℚ)) := by
    intro n hn
    have hdiv := isDouble_div (n * c) (n := 10) (by nlinarith) (by norm_num)
    rwa [Nat.cast_mul, mul_div_assoc, show (2 : ℚ) ^ 10 = 1024 by norm_num] at hdiv
  have hone : IsDouble (c / 1024) := by
    have hdiv := hdouble 1 (by norm_num)
    rwa [Nat.cast_one, one_mul] at hdiv
  have hbest : double (k / 10) ≤ c / 1024 := double_le (by positivity) (by linarith) hone
  obtain ⟨hnonneg, hsum⟩ := sum_bounds
    (fun v hv => ⟨(hvalues v hv).1, (hvalues v hv).2.trans hbest⟩) fun n hn => hdouble n (by omega)
  rw [hlength] at hsum
  have hmean : double (sum values / 7) ≤ c / 1024 :=
    double_le (by positivity) (by push_cast at hsum; linarith) hone
  have hmean' : 0 ≤ double (sum values / 7) := double_nonneg (by positivity)
  refine ⟨hmean', double_mono ?_ ?_⟩
  · exact div_nonneg (Int.cast_nonneg (tenths_nonneg hmean')) (by norm_num)
  have hten : double (double (sum values / 7) * 10) ≤ 10 * (c / 1024) := by
    refine double_le (by positivity) (by linarith) ?_
    exact_mod_cast hdouble 10 le_rfl
  have hround : HabitStatistics.round (double (double (sum values / 7) * 10)) ≤ k := by
    rw [HabitStatistics.round, ← Int.lt_add_one_iff, Int.floor_lt]
    push_cast
    linarith
  exact div_le_div_of_nonneg_right (by exact_mod_cast hround) (by norm_num)

theorem utc_zero (year : Int) {month : Nat} (h : 1 ≤ month) (h' : month ≤ 12) :
    utc year month 0 = midnight (lastOfMonth (fullYear year) month h h') := by
  rw [utc, makeDay_zero _ h h', midnight]

theorem utc_day (year : Int) {month : Nat} (h : 1 ≤ month) (h' : month ≤ 12) (i : Int) :
    utc year (month - 1) (1 + i) = midnight
      (ofNumDaysFromCe ((firstOfMonth (fullYear year) month h h').numDaysFromCe + i)) := by
  have hday := makeDay_eq (firstOfMonth (fullYear year) month h h') i
  rw [midnight, numDaysFromCe_ofNumDaysFromCe, ← hday]
  rfl

theorem fullYear_bounds {year : Nat} (h : year < 10_000) :
    0 ≤ fullYear year ∧ fullYear year ≤ 9999 := by
  unfold fullYear
  split
  · omega
  · omega

theorem isYmd_of_mem_month {year month : Nat} (hyear : year < 10_000) (h : 1 ≤ month)
    (h' : month ≤ 12) {d : NaiveDate} (hd : d ∈ dates (firstOfMonth (fullYear year) month h h')
      (lastOfMonth (fullYear year) month h h')) : IsYmd d := by
  have hfirst : IsYmd (firstOfMonth (fullYear year) month h h') := fullYear_bounds hyear
  have hlast : IsYmd (lastOfMonth (fullYear year) month h h') := fullYear_bounds hyear
  exact isYmd_of_mem_dates hfirst hlast hd

theorem monthDays_of_match {monthKey : String} {year month : Nat}
    (hkey : matchMonth monthKey = some (year, month)) (h : 1 ≤ month) (h' : month ≤ 12) :
    monthDays monthKey = (dates (firstOfMonth (fullYear year) month h h')
      (lastOfMonth (fullYear year) month h h')).map formatYmd := by
  have hlast : (lastOfMonth (fullYear year) month h h').day = daysInMonth (fullYear year) month :=
    rfl
  have hcount : ((lastOfMonth (fullYear year) month h h').numDaysFromCe -
      (firstOfMonth (fullYear year) month h h').numDaysFromCe + 1).toNat =
      daysInMonth (fullYear year) month := by
    have hpos := daysInMonth_pos (fullYear year) month
    simp only [numDaysFromCe, lastOfMonth, firstOfMonth]
    omega
  have hbad : ¬ (month < 1 ∨ 12 < month) := by omega
  simp only [monthDays, hkey, if_neg hbad, utc_zero _ h h', utcDate_midnight, hlast]
  rw [dates, hcount, List.map_map]
  refine List.map_congr_left fun i hi => ?_
  rw [Function.comp_apply, utc_day _ h h']
  refine ymd_midnight (isYmd_of_mem_month (year_lt_of_matchMonth hkey) h h' ?_)
  rw [dates, hcount]
  exact List.mem_map_of_mem hi

theorem exists_monthDays (monthKey : String) :
    ∃ days : List NaiveDate, monthDays monthKey = days.map formatYmd ∧ ∀ d ∈ days, IsYmd d := by
  cases hkey : matchMonth monthKey with
  | none => exact ⟨[], by simp [monthDays, hkey], fun _ hd => by cases hd⟩
  | some ym =>
      obtain ⟨year, month⟩ := ym
      by_cases hbad : month < 1 ∨ 12 < month
      · exact ⟨[], by simp only [monthDays, hkey, if_pos hbad, List.map_nil],
          fun _ hd => by cases hd⟩
      · rw [not_or, not_lt, not_lt] at hbad
        exact ⟨_, monthDays_of_match hkey hbad.1 hbad.2, fun d hd =>
          isYmd_of_mem_month (year_lt_of_matchMonth hkey) hbad.1 hbad.2 hd⟩

theorem weekdayIndex_formatYmd {d : NaiveDate} (hd : IsYmd d) :
    weekdayIndex (formatYmd d) = some ((d.numDaysFromSunday + 6) % 7) := by
  rw [weekdayIndex, toMs_formatYmd hd, Option.map_some, dow_midnight]

theorem exists_of_mem_expectedCells {habits : List ListedHabit} {monthKey todayYmd : String}
    {cell : String × String} (h : cell ∈ expectedCells habits monthKey todayYmd) :
    cell.2 ∈ monthDays monthKey := by
  obtain ⟨habit, -, hcell⟩ := List.mem_flatMap.mp h
  obtain ⟨date, hdate, rfl⟩ := List.mem_map.mp hcell
  unfold expectedDates at hdate
  split at hdate
  · cases hdate
  · exact List.mem_of_mem_filter hdate

theorem weekdayIndex_of_mem {habits : List ListedHabit} {monthKey todayYmd : String}
    {cell : String × String} (h : cell ∈ expectedCells habits monthKey todayYmd) :
    weekdayIndex cell.2 ∈ (List.range 7).map some := by
  obtain ⟨days, hdays, hymd⟩ := exists_monthDays monthKey
  have hmem := exists_of_mem_expectedCells h
  rw [hdays] at hmem
  obtain ⟨d, hd, heq⟩ := List.mem_map.mp hmem
  rw [← heq, weekdayIndex_formatYmd (hymd d hd)]
  exact List.mem_map_of_mem (List.mem_range.mpr (Nat.mod_lt _ (by decide)))

def isDoneCell (donePairs : List String) (cell : String × String) : Bool :=
  donePairs.contains (pairKey cell.1 cell.2)

section Counts

variable {donePairs : List String} {cells : List (String × String)}

theorem add_eq (n : CellCount) (cell : String × String) :
    n.add donePairs cell =
      ⟨n.done + (if isDoneCell donePairs cell then 1 else 0), n.expected + 1⟩ := by
  unfold CellCount.add isDoneCell
  split
  · rfl
  · rfl

theorem foldl_add (n : CellCount) :
    cells.foldl (CellCount.add donePairs) n =
      ⟨n.done + sumOf (fun cell => if isDoneCell donePairs cell then 1 else 0) cells,
        n.expected + sumOf (fun _ => 1) cells⟩ := by
  induction cells generalizing n with
  | nil => rfl
  | cons cell cells ih =>
      rw [List.foldl_cons, ih, sumOf_cons, sumOf_cons, add_eq, Nat.add_assoc, Nat.add_assoc]

theorem done_countCells (donePairs : List String) (cells : List (String × String)) :
    (countCells donePairs cells).done =
      sumOf (fun cell => if isDoneCell donePairs cell then 1 else 0) cells := by
  rw [countCells, foldl_add]
  exact Nat.zero_add _

theorem expected_countCells (donePairs : List String) (cells : List (String × String)) :
    (countCells donePairs cells).expected = sumOf (fun _ => 1) cells := by
  rw [countCells, foldl_add]
  exact Nat.zero_add _

theorem done_le_expected (donePairs : List String) (cells : List (String × String)) :
    (countCells donePairs cells).done ≤ (countCells donePairs cells).expected := by
  rw [done_countCells, expected_countCells]
  refine List.sum_le_sum fun cell _ => ?_
  split
  · exact le_rfl
  · exact Nat.zero_le _

def ofWeekday (cells : List (String × String)) (i : Nat) : List (String × String) :=
  group (fun cell => weekdayIndex cell.2) cells (some i)

theorem getElem?_foldl_addByWeekday (counts : List CellCount) (i : Nat) :
    (cells.foldl (addByWeekday donePairs) counts)[i]? =
      counts[i]?.map fun n => (ofWeekday cells i).foldl (CellCount.add donePairs) n := by
  induction cells generalizing counts with
  | nil => simp [ofWeekday, group]
  | cons cell cells ih =>
      rw [List.foldl_cons, ih, ofWeekday, ofWeekday, group, group, List.filter_cons]
      cases hindex : weekdayIndex cell.2 with
      | none => simp [addByWeekday, hindex]
      | some j =>
          by_cases hj : j = i
          · simp [addByWeekday, hindex, hj, Function.comp_def]
          · simp [addByWeekday, hindex, hj]

theorem foldl_addByWeekday (donePairs : List String) (cells : List (String × String)) :
    cells.foldl (addByWeekday donePairs) (List.replicate 7 CellCount.zero) =
      (List.range 7).map fun i => countCells donePairs (ofWeekday cells i) := by
  refine List.ext_getElem? fun i => ?_
  rw [getElem?_foldl_addByWeekday, List.getElem?_map, List.getElem?_replicate]
  by_cases hi : i < 7
  · rw [if_pos hi, List.getElem?_range hi]
    rfl
  · rw [if_neg hi, List.getElem?_eq_none (by simpa using hi)]
    rfl

theorem sum_ofWeekday (hcover : ∀ cell ∈ cells, weekdayIndex cell.2 ∈ (List.range 7).map some)
    (w : String × String → Nat) :
    sumOf (fun i => sumOf w (ofWeekday cells i)) (List.range 7) = sumOf w cells := by
  have hks : ((List.range 7).map some).Nodup :=
    List.nodup_range.map (Option.some_injective Nat)
  rw [← sumOf_groups hks hcover w, sumOf_map]
  rfl

theorem sum_done (hcover : ∀ cell ∈ cells, weekdayIndex cell.2 ∈ (List.range 7).map some) :
    ((List.range 7).map fun i => (countCells donePairs (ofWeekday cells i)).done).sum =
      (countCells donePairs cells).done := by
  simp only [done_countCells]
  exact sum_ofWeekday hcover _

theorem sum_expected (hcover : ∀ cell ∈ cells, weekdayIndex cell.2 ∈ (List.range 7).map some) :
    ((List.range 7).map fun i => (countCells donePairs (ofWeekday cells i)).expected).sum =
      (countCells donePairs cells).expected := by
  simp only [expected_countCells]
  exact sum_ofWeekday hcover _

theorem exists_weekday (donePairs : List String)
    (hcover : ∀ cell ∈ cells, weekdayIndex cell.2 ∈ (List.range 7).map some)
    (hpos : 0 < (countCells donePairs cells).expected) :
    ∃ i ∈ List.range 7, 0 < (countCells donePairs (ofWeekday cells i)).expected ∧
      (countCells donePairs (ofWeekday cells i)).expected * (countCells donePairs cells).done ≤
        (countCells donePairs cells).expected *
          (countCells donePairs (ofWeekday cells i)).done := by
  generalize hn : countCells donePairs cells = n at *
  generalize hm : (fun i => countCells donePairs (ofWeekday cells i)) = m
  have hdone : ((List.range 7).map fun i => (m i).done).sum = n.done := by
    rw [← hm, ← hn]
    exact sum_done hcover
  have hexpected : ((List.range 7).map fun i => (m i).expected).sum = n.expected := by
    rw [← hm, ← hn]
    exact sum_expected hcover
  have hle : ∀ i, (m i).done ≤ (m i).expected := fun i => hm ▸ done_le_expected _ _
  obtain ⟨i, hi, hposi⟩ : ∃ i ∈ List.range 7, 0 < (m i).expected := by
    refine List.exists_lt_of_sum_lt (fun _ => 0) _ ?_
    rw [hexpected, List.sum_map_zero]
    exact hpos
  by_contra! hall
  have hall : ∀ i ∈ List.range 7, 0 < (m i).expected →
      n.expected * (m i).done < (m i).expected * n.done := by
    intro j hj hposj
    exact hm ▸ hall j hj (by rw [← hm] at hposj; exact hposj)
  -- a weekday without expected cells adds nothing to either side
  have hlt : ((List.range 7).map fun j => n.expected * (m j).done).sum <
      ((List.range 7).map fun j => (m j).expected * n.done).sum := by
    refine List.sum_lt_sum _ _ (fun j hj => ?_) ⟨i, hi, hall i hi hposi⟩
    rcases Nat.eq_zero_or_pos (m j).expected with hzero | hposj
    · have hnone : (m j).done = 0 := Nat.le_zero.mp (hzero ▸ hle j)
      rw [hnone, hzero, Nat.mul_zero, Nat.zero_mul]
    · exact (hall j hj hposj).le
  rw [List.sum_map_mul_left, List.sum_map_mul_right, hdone, hexpected] at hlt
  exact absurd hlt (Nat.lt_irrefl _)

end Counts

structure IsBest (values : List ℚ) (index : Nat) : Prop where
  index_lt : index < values.length
  le : ∀ i, i < values.length → values.getD i 0 ≤ values.getD index 0
  first : ∀ i, i < index → values.getD i 0 < values.getD index 0

theorem isBest_foldl (values : List ℚ) (n : Nat) :
    let best := (List.range' 1 n).foldl
      (fun best index => if values.getD best 0 < values.getD index 0 then index else best) 0
    best ≤ n ∧ (∀ i, i ≤ n → values.getD i 0 ≤ values.getD best 0) ∧
      ∀ i, i < best → values.getD i 0 < values.getD best 0 := by
  induction n with
  | zero =>
      refine ⟨le_rfl, fun i hi => ?_, fun i hi => absurd hi (Nat.not_lt_zero i)⟩
      rw [Nat.le_zero.mp hi]
      exact le_rfl
  | succ n ih =>
      obtain ⟨hle, hmax, hfirst⟩ := ih
      simp only [List.range'_concat, List.foldl_append, List.foldl_cons, List.foldl_nil,
        Nat.one_mul]
      generalize hbest : (List.range' 1 n).foldl
        (fun best index => if values.getD best 0 < values.getD index 0 then index else best) 0 =
          best at *
      split
      · rename_i hlt
        rw [Nat.add_comm 1 n] at hlt ⊢
        refine ⟨le_rfl, fun i hi => ?_, fun i hi => ?_⟩
        · rcases Nat.le_succ_iff.mp hi with hi | rfl
          · exact (hmax i hi).trans hlt.le
          · exact le_rfl
        · exact (hmax i (Nat.lt_succ_iff.mp hi)).trans_lt hlt
      · rename_i hge
        rw [Nat.add_comm 1 n] at hge
        refine ⟨hle.trans (Nat.le_succ n), fun i hi => ?_, hfirst⟩
        rcases Nat.le_succ_iff.mp hi with hi | rfl
        · exact hmax i hi
        · exact not_lt.mp hge

theorem isBest_bestIndex {values : List ℚ} (h : values ≠ []) :
    IsBest values (bestIndex values) := by
  have hlen := List.length_pos_of_ne_nil h
  obtain ⟨hle, hmax, hfirst⟩ := isBest_foldl values (values.length - 1)
  exact ⟨by rw [bestIndex]; omega, fun i hi => hmax i (by omega), hfirst⟩

structure WeekdaysOf (c : MonthlyCompliance) (w : WeekdayConsistency) : Prop where
  length : w.values.length = 7
  best : IsBest w.values w.best.index
  pct : w.values.getD w.best.index 0 = w.best.pct
  month_le_best : c.pct ≤ w.best.pct
  avg_nonneg : 0 ≤ w.avg
  avg_le_best : w.avg ≤ w.best.pct
  best_le_hundred : w.best.pct ≤ 100

/-- The best weekday is at least as good as the month, whatever habits and logs there are. -/
theorem weekdays_of_month (habits : List ListedHabit) (logs : List DashLog)
    (monthKey todayYmd : String) :
    WeekdaysOf (monthlyCompliance habits logs monthKey todayYmd)
      (weekdayConsistency habits logs monthKey todayYmd) := by
  have hcover : ∀ cell ∈ expectedCells habits monthKey todayYmd,
      weekdayIndex cell.2 ∈ (List.range 7).map some := fun cell => weekdayIndex_of_mem
  simp only [weekdayConsistency, monthlyCompliance, foldl_addByWeekday, List.map_map]
  generalize expectedCells habits monthKey todayYmd = cells at hcover
  generalize donePairsOf logs = donePairs
  generalize hvalues : List.map ((fun n => pctOf n.done n.expected) ∘ fun i =>
    countCells donePairs (ofWeekday cells i)) (List.range 7) = values
  have hlength : values.length = 7 := by rw [← hvalues, List.length_map, List.length_range]
  have hbest : IsBest values (bestIndex values) :=
    isBest_bestIndex (List.ne_nil_of_length_pos (by omega))
  have hvalue : ∀ v ∈ values, 0 ≤ v ∧ v ≤ 100 ∧ ∃ k : Nat, k ≤ 1000 ∧ v = double (k / 10) := by
    rw [← hvalues]
    intro v hv
    obtain ⟨i, -, rfl⟩ := List.mem_map.mp hv
    have hle := done_le_expected donePairs (ofWeekday cells i)
    exact ⟨pctOf_nonneg _ _, pctOf_le_hundred hle, exists_tenths hle⟩
  have hmax : ∀ v ∈ values, v ≤ values.getD (bestIndex values) 0 := by
    intro v hv
    obtain ⟨i, hi, rfl⟩ := List.getElem_of_mem hv
    rw [← List.getD_eq_getElem values 0 hi]
    exact hbest.le i hi
  have hmem : values.getD (bestIndex values) 0 ∈ values := by
    rw [List.getD_eq_getElem values 0 hbest.index_lt]
    exact List.getElem_mem hbest.index_lt
  generalize hpct : values.getD (bestIndex values) 0 = pct at hmax hmem
  obtain ⟨hnonneg, hhundred, k, hk, htenths⟩ := hvalue pct hmem
  obtain ⟨hmean, hle⟩ := mean_le hk hlength fun v hv => ⟨(hvalue v hv).1, htenths ▸ hmax v hv⟩
  refine ⟨hlength, hbest, hpct, ?_, ?_, ?_, hhundred⟩
  · rcases Nat.eq_zero_or_pos (countCells donePairs cells).expected with hnone | hpos
    · rw [hnone]
      exact hnonneg
    · obtain ⟨i, hi, hposi, hshare⟩ := exists_weekday donePairs hcover hpos
      refine (pctOf_le_pctOf hposi hshare).trans (hmax _ ?_)
      rw [← hvalues]
      exact List.mem_map_of_mem hi
  · split
    · exact le_rfl
    · exact round1_nonneg hmean
  · split
    · exact hnonneg
    · exact hle.trans_eq htenths.symm

def monthKeyOf (d : NaiveDate) : String :=
  String.ofList (padded 4 d.year.natAbs ++ '-' :: padded 2 d.month)

def daysSoFar (month today : NaiveDate) : List NaiveDate :=
  (dates (CalendarUnit.month.firstDay month) (CalendarUnit.month.lastDay month)).filter (· ≤ today)

def isDue (habit : ListedHabit) (date : String) : Bool :=
  !habit.isArchived && isExpected habit.toDashHabit date date

theorem jsLt_irrefl (s : String) : jsLt s s = false :=
  decide_eq_false (lt_irrefl _)

theorem isExpected_of_le {habit : DashHabit} {date todayYmd : String}
    (h : jsLt todayYmd date = false) :
    isExpected habit date todayYmd = isExpected habit date date := by
  rw [isExpected, isExpected, h, jsLt_irrefl]

section Month

variable {month today d : NaiveDate}

theorem matchMonth_monthKeyOf (hymd : IsYmd month) :
    matchMonth (monthKeyOf month) = some (month.year.natAbs, month.month) := by
  have hmonth := month.month_le
  have hyear : month.year.natAbs < 10_000 := by
    have := hymd.2
    have := hymd.1
    omega
  obtain ⟨a, b, c, e, hy⟩ := exists_padded_four hyear
  obtain ⟨m, m', hm⟩ := exists_padded_two (show month.month < 100 by omega)
  have hlist : (monthKeyOf month).toList = [a, b, c, e, '-', m, m'] := by
    rw [monthKeyOf, String.toList_ofList, hy, hm]
    rfl
  have hy' : digits [a, b, c, e] = some month.year.natAbs := by rw [← hy, digits_padded]
  have hm' : digits [m, m'] = some month.month := by rw [← hm, digits_padded]
  simp only [matchMonth, hlist, hy', hm', Option.bind_eq_bind, Option.bind_some, Option.pure_def]

theorem monthDays_monthKeyOf (hyear : 100 ≤ month.year) (hyear' : month.year ≤ 9999) :
    monthDays (monthKeyOf month) = (dates (CalendarUnit.month.firstDay month)
      (CalendarUnit.month.lastDay month)).map formatYmd := by
  have hymd : IsYmd month := ⟨by omega, hyear'⟩
  have hmatch := matchMonth_monthKeyOf hymd
  rw [monthDays_of_match hmatch month.month_pos month.month_le]
  have hfull : fullYear (month.year.natAbs : Int) = month.year := by
    rw [Int.natAbs_of_nonneg (by omega), fullYear_of_le hyear]
  simp only [hfull]
  rfl

theorem mem_month (hd : d ∈ dates (CalendarUnit.month.firstDay month)
    (CalendarUnit.month.lastDay month)) : d.year = month.year ∧ d.month = month.month :=
  CalendarUnit.month_eq_of_between (mem_dates.mp hd).1 (mem_dates.mp hd).2

theorem monthKeyOf_eq (hd : d ∈ dates (CalendarUnit.month.firstDay month)
    (CalendarUnit.month.lastDay month)) : monthKeyOf d = monthKeyOf month := by
  rw [monthKeyOf, monthKeyOf, (mem_month hd).1, (mem_month hd).2]

theorem firstSeven_formatYmd (hd : IsYmd d) : firstSeven (formatYmd d) = monthKeyOf d := by
  have hmonth := d.month_le
  have hyear : d.year.natAbs < 10 ^ 4 := by
    have := hd.1
    have := hd.2
    omega
  have hlen : (padded 4 d.year.natAbs ++ '-' :: padded 2 d.month).length = 7 := by
    rw [List.length_append, List.length_cons, length_padded (by decide) hyear,
      length_padded (by decide) (show d.month < 10 ^ 2 by omega)]
  rw [firstSeven, formatYmd, String.toList_ofList, dateChars, yearChars_of_le hd.1 hd.2,
    monthKeyOf, ← List.cons_append, ← List.append_assoc, ← hlen, List.take_left]

theorem jsLt_monthKeyOf (htoday : IsYmd today) (hd : IsYmd d)
    (h : jsLt (firstSeven (formatYmd today)) (monthKeyOf d)) : today < d := by
  rw [← firstSeven_formatYmd hd, firstSeven, firstSeven, formatYmd, formatYmd,
    String.toList_ofList, String.toList_ofList, jsLt_ofList, decide_eq_true_eq] at h
  · have hlen : ((dateChars today).take 7).length = ((dateChars d).take 7).length := by
      rw [List.length_take, List.length_take, length_dateChars htoday.1 htoday.2,
        length_dateChars hd.1 hd.2]
    rw [← dateChars_lt_iff htoday.1 htoday.2 hd.1 hd.2, ← List.take_append_drop 7 (dateChars today),
      ← List.take_append_drop 7 (dateChars d), append_lt_append_iff hlen]
    exact Or.inl h
  · exact fun c hc => (toNat_of_mem_dateChars (List.mem_of_mem_take hc)).1
  · exact fun c hc => (toNat_of_mem_dateChars (List.mem_of_mem_take hc)).1

theorem mem_daysSoFar : d ∈ daysSoFar month today ↔
    d ∈ dates (CalendarUnit.month.firstDay month) (CalendarUnit.month.lastDay month) ∧
      d ≤ today := by
  rw [daysSoFar, List.mem_filter, decide_eq_true_eq]

theorem isYmd_of_month (hmonth : IsYmd month)
    (hd : d ∈ dates (CalendarUnit.month.firstDay month) (CalendarUnit.month.lastDay month)) :
    IsYmd d := by
  rw [IsYmd, (mem_month hd).1]
  exact hmonth

theorem expectedDates_eq (habit : DashHabit) (hyear : 100 ≤ month.year)
    (hyear' : month.year ≤ 9999) (htoday : IsYmd today) :
    expectedDates habit (monthKeyOf month) (formatYmd today) =
      ((daysSoFar month today).filter fun d =>
        isExpected habit (formatYmd d) (formatYmd d)).map formatYmd := by
  have hmonth : IsYmd month := ⟨by omega, hyear'⟩
  have hday : ∀ d ∈ dates (CalendarUnit.month.firstDay month) (CalendarUnit.month.lastDay month),
      isExpected habit (formatYmd d) (formatYmd today) =
        (decide (d ≤ today) && isExpected habit (formatYmd d) (formatYmd d)) := by
    intro d hd
    have hlt : jsLt (formatYmd today) (formatYmd d) = decide (today < d) :=
      jsLt_formatYmd htoday.2 (isYmd_of_month hmonth hd)
    by_cases hle : d ≤ today
    · rw [isExpected_of_le (by rw [hlt, decide_eq_false (not_lt.mpr hle)]), decide_eq_true hle,
        Bool.true_and]
    · rw [isExpected, hlt, decide_eq_true (not_le.mp hle), decide_eq_false hle]
      rfl
  unfold expectedDates
  split
  · rename_i hlater
    have hnone : daysSoFar month today = [] := by
      refine List.filter_eq_nil_iff.mpr fun d hd hle => ?_
      rw [← monthKeyOf_eq hd] at hlater
      have hlt := jsLt_monthKeyOf htoday (isYmd_of_month hmonth hd) hlater
      exact absurd (of_decide_eq_true hle) (not_le.mpr hlt)
    rw [hnone]
    rfl
  · rw [monthDays_monthKeyOf hyear hyear', List.filter_map, daysSoFar, List.filter_filter]
    refine congrArg _ (List.filter_congr fun d hd => ?_)
    rw [Function.comp_apply, hday d hd, Bool.and_comm]

theorem jsLt_of_le_of_lt {r s t : String} (h : jsLt s r = false) (h' : jsLt s t) :
    jsLt r t := by
  rw [jsLt, decide_eq_true_eq] at h' ⊢
  exact lt_of_le_of_lt (not_lt.mp (of_decide_eq_false h)) h'

theorem endsBefore_of_le {habit : DashHabit} {r s : String} (h : jsLt s r = false)
    (h' : endsBefore habit r) : endsBefore habit s := by
  obtain ⟨e, he, hlt⟩ := (Option.any_eq_true _ _).mp h'
  refine (Option.any_eq_true _ _).mpr ⟨e, he, ?_⟩
  rw [Bool.and_eq_true] at hlt ⊢
  refine ⟨hlt.1, ?_⟩
  have hlt' := hlt.2
  rw [jsLt, decide_eq_true_eq] at hlt' ⊢
  exact lt_of_lt_of_le hlt' (not_lt.mp (of_decide_eq_false h))

theorem isExpected_self_iff {habit : DashHabit} {date : String} :
    isExpected habit date date = true ↔
      (habit.startDate ≠ "" && jsLt date habit.startDate) = false ∧
        endsBefore habit date = false ∧ maskMatches habit date = true := by
  rw [isExpected, jsLt_irrefl, if_neg Bool.false_ne_true]
  cases habit.startDate ≠ "" && jsLt date habit.startDate <;> cases endsBefore habit date <;> simp

theorem head?_dates {lo hi : NaiveDate} (h : lo ≤ hi) : (dates lo hi).head? = some lo := by
  have hpos : (hi.numDaysFromCe - lo.numDaysFromCe + 1).toNat ≠ 0 := by
    have := le_iff.mp h
    omega
  rw [dates, List.head?_map, List.head?_range, if_neg hpos, Option.map_some]
  exact congrArg some (congrArg _ (Int.add_zero _) |>.trans (ofNumDaysFromCe_numDaysFromCe lo))

theorem getLast?_dates {lo hi : NaiveDate} (h : lo ≤ hi) : (dates lo hi).getLast? = some hi := by
  have hpos : (hi.numDaysFromCe - lo.numDaysFromCe + 1).toNat ≠ 0 := by
    have := le_iff.mp h
    omega
  rw [dates, List.getLast?_map, List.getLast?_range, if_neg hpos, Option.map_some]
  have hlast : lo.numDaysFromCe +
      (((hi.numDaysFromCe - lo.numDaysFromCe + 1).toNat - 1 : Nat) : Int) = hi.numDaysFromCe := by
    have := le_iff.mp h
    omega
  rw [hlast, ofNumDaysFromCe_numDaysFromCe]

theorem exists_activeHabits (habits : List ListedHabit) (hyear : 100 ≤ month.year)
    (hyear' : month.year ≤ 9999) (htoday : IsYmd today) :
    ∃ p : ListedHabit → Bool,
      activeHabits habits (monthKeyOf month) (formatYmd today) = habits.filter p ∧
        (∀ habit, p habit = true → habit.isArchived = false) ∧
          ∀ habit, ∀ d ∈ daysSoFar month today, isDue habit (formatYmd d) = true →
            p habit = true := by
  have hmonth : IsYmd month := ⟨by omega, hyear'⟩
  have hle : CalendarUnit.month.firstDay month ≤ CalendarUnit.month.lastDay month :=
    (CalendarUnit.month.firstDay_le month).trans (CalendarUnit.month.le_lastDay month)
  have hfirst : IsYmd (CalendarUnit.month.firstDay month) :=
    isYmd_of_month hmonth (mem_dates.mpr ⟨le_rfl, hle⟩)
  have hlast : IsYmd (CalendarUnit.month.lastDay month) :=
    isYmd_of_month hmonth (mem_dates.mpr ⟨hle, le_rfl⟩)
  simp only [activeHabits, monthDays_monthKeyOf hyear hyear', List.head?_map, List.getLast?_map,
    head?_dates hle, getLast?_dates hle, Option.map_some]
  generalize hvisible : (if jsLt (formatYmd (CalendarUnit.month.lastDay month)) (formatYmd today)
    then formatYmd (CalendarUnit.month.lastDay month) else formatYmd today) = visibleEnd
  have hbefore : ∀ d ∈ daysSoFar month today, jsLt visibleEnd (formatYmd d) = false ∧
      jsLt (formatYmd d) (formatYmd (CalendarUnit.month.firstDay month)) = false := by
    intro d hd
    obtain ⟨hmem, htd⟩ := mem_daysSoFar.mp hd
    obtain ⟨hlo, hhi⟩ := mem_dates.mp hmem
    have hymd := isYmd_of_month hmonth hmem
    rw [jsLt_formatYmd hymd.2 hfirst, ← hvisible]
    refine ⟨?_, decide_eq_false (not_lt.mpr hlo)⟩
    split
    · rw [jsLt_formatYmd hlast.2 hymd]
      exact decide_eq_false (not_lt.mpr hhi)
    · rw [jsLt_formatYmd htoday.2 hymd]
      exact decide_eq_false (not_lt.mpr htd)
  split
  · rename_i hnone
    refine ⟨fun _ => false, (List.filter_false habits).symm, fun _ h => (by cases h), ?_⟩
    intro habit d hd _
    obtain ⟨hend, hstart⟩ := hbefore d hd
    rw [jsLt_of_le_of_lt hend hnone] at hstart
    cases hstart
  · refine ⟨_, rfl, fun habit h => ?_, fun habit d hd hdue => ?_⟩
    · cases harchived : habit.isArchived with
      | false => rfl
      | true => simp [harchived] at h
    · obtain ⟨hend, hstart⟩ := hbefore d hd
      rw [isDue, Bool.and_eq_true, Bool.not_eq_true', isExpected_self_iff] at hdue
      obtain ⟨harchived, hstarted, hended, -⟩ := hdue
      have hstarts : (habit.startDate ≠ "" && jsLt visibleEnd habit.startDate) = false := by
        by_contra hlater
        rw [Bool.not_eq_false, Bool.and_eq_true] at hlater
        rw [jsLt_of_le_of_lt hend hlater.2, hlater.1] at hstarted
        cases hstarted
      have hends : endsBefore habit.toDashHabit
          (formatYmd (CalendarUnit.month.firstDay month)) = false := by
        by_contra hgone
        rw [Bool.not_eq_false] at hgone
        rw [endsBefore_of_le hstart hgone] at hended
        cases hended
      rw [harchived, hstarts, hends]
      rfl

theorem sumOf_expectedCells (habits : List ListedHabit) (hyear : 100 ≤ month.year)
    (hyear' : month.year ≤ 9999) (htoday : IsYmd today) (w : String → String → Nat) :
    sumOf (fun cell => w cell.1 cell.2)
        (expectedCells habits (monthKeyOf month) (formatYmd today)) =
      sumOf (fun d => sumOf (fun habit => w habit.id (formatYmd d))
        (habits.filter fun habit => isDue habit (formatYmd d))) (daysSoFar month today) := by
  obtain ⟨p, hactive, harchived, hdue⟩ := exists_activeHabits habits hyear hyear' htoday
  simp only [sumOf_filter]
  rw [sumOf_comm, expectedCells, hactive, sumOf_flatMap, sumOf_filter]
  refine sumOf_congr fun habit _ => ?_
  rw [sumOf_map, expectedDates_eq _ hyear hyear' htoday, sumOf_map, sumOf_filter]
  split
  · rename_i hp
    refine sumOf_congr fun d _ => ?_
    rw [isDue, harchived habit hp, Bool.not_false, Bool.true_and]
    rfl
  · rename_i hp
    refine (sumOf_zero (daysSoFar month today)).symm.trans (sumOf_congr fun d hd => ?_)
    rw [if_neg fun h => hp (hdue habit d hd h)]

end Month

theorem pairKey_inj {habitId habitId' date date' : String} (h : '|' ∉ date.toList)
    (h' : '|' ∉ date'.toList) :
    pairKey habitId date = pairKey habitId' date' ↔ habitId = habitId' ∧ date = date' := by
  constructor
  · intro heq
    have hlist : ∀ id day : String, (pairKey id day).toList.reverse =
        day.toList.reverse ++ '|' :: id.toList.reverse := by
      intro id day
      have hkey : pairKey id day = id ++ "|" ++ day := rfl
      simp [hkey]
    have hrev := congrArg (fun s : String => s.toList.reverse) heq
    simp only [hlist] at hrev
    obtain ⟨hdate, hid⟩ := append_cons_inj (by simpa using h) (by simpa using h') hrev
    exact ⟨String.toList_injective (List.reverse_injective hid),
      String.toList_injective (List.reverse_injective hdate)⟩
  · rintro ⟨rfl, rfl⟩
    rfl

theorem bar_notMem_formatYmd (d : NaiveDate) : '|' ∉ (formatYmd d).toList := by
  rw [formatYmd, String.toList_ofList]
  intro hmem
  rcases mem_dateChars hmem with h | h | h
  · exact absurd h (by decide)
  · exact absurd h (by decide)
  · exact absurd h (by decide)

def doneOn (logs : List DashLog) (date : String) : List String :=
  (logs.filter fun entry => entry.date = date && isDone entry.status).map DashLog.habitId

theorem isDoneCell_iff {logs : List DashLog} (hlogs : ∀ entry ∈ logs, '|' ∉ entry.date.toList)
    {cell : String × String} (hcell : '|' ∉ cell.2.toList) :
    isDoneCell (donePairsOf logs) cell = true ↔ cell.1 ∈ doneOn logs cell.2 := by
  rw [isDoneCell, List.contains_iff_mem]
  simp only [donePairsOf, doneOn, List.mem_map, List.mem_filter, Bool.and_eq_true,
    decide_eq_true_eq]
  refine exists_congr fun entry => ?_
  constructor
  · rintro ⟨⟨hmem, hdone⟩, heq⟩
    obtain ⟨hid, hdate⟩ := (pairKey_inj (hlogs entry hmem) hcell).mp heq
    exact ⟨⟨hmem, hdate, hdone⟩, hid⟩
  · rintro ⟨⟨hmem, hdate, hdone⟩, hid⟩
    exact ⟨⟨hmem, hdone⟩, (pairKey_inj (hlogs entry hmem) hcell).mpr ⟨hid, hdate⟩⟩

theorem isDoneCell_formatYmd {logs : List DashLog}
    (hlogs : ∀ entry ∈ logs, '|' ∉ entry.date.toList) (habitId : String) (d : NaiveDate) :
    isDoneCell (donePairsOf logs) (habitId, formatYmd d) =
      (doneOn logs (formatYmd d)).contains habitId := by
  rw [Bool.eq_iff_iff, List.contains_iff_mem]
  exact isDoneCell_iff hlogs (bar_notMem_formatYmd d)

theorem todayCompletion_eq (habits : List ListedHabit) (logs : List DashLog) (date : String) :
    todayCompletion habits logs date =
      ⟨(habits.filter fun habit => isDue habit date).countP fun habit =>
        (doneOn logs date).contains habit.id,
        (habits.filter fun habit => isDue habit date).length⟩ :=
  rfl

/-- The compliance of a month is the sum of what its days so far have shown, each as today. -/
theorem month_sums_days (habits : List ListedHabit) (logs : List DashLog)
    (month today : NaiveDate) (hyear : 100 ≤ month.year) (hyear' : month.year ≤ 9999)
    (htoday : IsYmd today) (hlogs : ∀ entry ∈ logs, '|' ∉ entry.date.toList) :
    (monthlyCompliance habits logs (monthKeyOf month) (formatYmd today)).done =
        ((daysSoFar month today).map fun d =>
          (todayCompletion habits logs (formatYmd d)).done).sum ∧
      (monthlyCompliance habits logs (monthKeyOf month) (formatYmd today)).expected =
        ((daysSoFar month today).map fun d =>
          (todayCompletion habits logs (formatYmd d)).total).sum := by
  simp only [monthlyCompliance, todayCompletion_eq, done_countCells, expected_countCells]
  constructor
  · refine (sumOf_expectedCells habits hyear hyear' htoday fun id date =>
      if isDoneCell (donePairsOf logs) (id, date) then 1 else 0).trans (sumOf_congr fun d _ => ?_)
    simp only [isDoneCell_formatYmd hlogs]
    exact sumOf_ite_one _ _
  · refine (sumOf_expectedCells habits hyear hyear' htoday fun _ _ => 1).trans
      (sumOf_congr fun d _ => sumOf_one _)

def twoHabits : List ListedHabit :=
  [{ id := "run", name := "Correr", daysOfWeek := [], startDate := "2026-09-04", endDate := none
     category := some "salud", isArchived := false },
    { id := "read", name := "Leer", daysOfWeek := [1, 3], startDate := "2026-08-01"
      endDate := some "2026-09-08", category := none, isArchived := false }]

def septemberLogs : List DashLog :=
  [⟨"run", "2026-09-04", "done"⟩, ⟨"read", "2026-09-07", "done"⟩, ⟨"run", "2026-09-09", "missed"⟩]

theorem month_sums_days_september :
    (monthlyCompliance twoHabits septemberLogs (monthKeyOf wednesday) (formatYmd wednesday)).done =
        ((daysSoFar wednesday wednesday).map fun d =>
          (todayCompletion twoHabits septemberLogs (formatYmd d)).done).sum ∧
      (monthlyCompliance twoHabits septemberLogs (monthKeyOf wednesday)
          (formatYmd wednesday)).expected =
        ((daysSoFar wednesday wednesday).map fun d =>
          (todayCompletion twoHabits septemberLogs (formatYmd d)).total).sum :=
  month_sums_days twoHabits septemberLogs wednesday wednesday (by decide) (by decide) (by decide)
    (by decide)

end PersonalDashboard.HabitMonths
