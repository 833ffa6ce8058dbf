import PersonalDashboard.JsDate
import PersonalDashboard.MovementSummary

/-! The windows of the client's trend, made of local dates, and the buckets of the
server's summary. -/

set_option autoImplicit false

namespace PersonalDashboard.TrendWindows

open PersonalDashboard.BillingDates
open PersonalDashboard.Calendar
open PersonalDashboard.Calendar.NaiveDate
open PersonalDashboard.CalendarUnits
open PersonalDashboard.DateStrings
open PersonalDashboard.JsDate
open PersonalDashboard.MovementSummary

/-- The periods of the trend are the groups of the summary. -/
abbrev TrendPeriod :=
  SummaryGroup

/-- `TREND_BUCKETS`. -/
def defaultBuckets : TrendPeriod → Nat
  | .day => 14
  | .week => 8
  | .month => 12
  | .year => 5

structure TrendWindow where
  key : String
  label : String
  fromDate : String
  toDate : String

/-- `s.padStart(width, "0")`. -/
def padStart (width : Nat) (s : String) : String :=
  String.ofList (List.replicate (width - s.toList.length) '0' ++ s.toList)

def pad2 (n : Int) : String :=
  padStart 2 (toString n)

/-- `Math.round(n / d)`. -/
def roundDiv (n d : Int) : Int :=
  (2 * n + d) / (2 * d)

section Client

variable (zone : LocalZone)

def toISODateLocal (d : Int) : String :=
  toString (zone.getFullYear d) ++ "-" ++ pad2 (zone.getMonth d + 1) ++ "-" ++
    pad2 (zone.getDate d)

def addLocalDays (d days : Int) : Int :=
  zone.newDate (zone.getFullYear d) (zone.getMonth d) (zone.getDate d + days)

/-- First local calendar day of the unit containing `now`. -/
def trendUnitStart (period : TrendPeriod) (now : Int) : Int :=
  let day := zone.newDate (zone.getFullYear now) (zone.getMonth now) (zone.getDate now)
  match period with
  | .day => day
  | .week => addLocalDays zone day (-((zone.getDay day + 6) % 7))
  | .month => zone.newDate (zone.getFullYear day) (zone.getMonth day) 1
  | .year => zone.newDate (zone.getFullYear day) 0 1

def shiftUnits (period : TrendPeriod) (unitStart : Int) (steps : Nat) : Int :=
  match period with
  | .day => addLocalDays zone unitStart (-steps)
  | .week => addLocalDays zone unitStart (-steps * 7)
  | .month => zone.newDate (zone.getFullYear unitStart) (zone.getMonth unitStart - steps) 1
  | .year => zone.newDate (zone.getFullYear unitStart - steps) 0 1

/-- ISO week key of the Monday `unitStart`, by the week of its Thursday. -/
def isoWeekKey (unitStart : Int) : String :=
  let thursday := addLocalDays zone unitStart 3
  let isoYear := zone.getFullYear thursday
  let jan4 := zone.newDate isoYear 0 4
  let firstMonday := addLocalDays zone jan4 (-((zone.getDay jan4 + 6) % 7))
  let week := 1 + roundDiv (thursday - firstMonday) (7 * 24 * 60 * 60 * 1000)
  toString isoYear ++ "-W" ++ pad2 week

variable (shortMonth : Int → String)

/-- The short name of a month, without the dot that may end it. `shortMonth` is
the formatter of times in UTC. -/
def monthShort (year monthIndex : Int) : String :=
  let name := (shortMonth (utc year monthIndex 1)).toList
  String.ofList (if name.getLast? = some '.' then name.dropLast else name)

def dayMonthLabel (d : Int) : String :=
  toString (zone.getDate d) ++ " " ++ monthShort shortMonth (zone.getFullYear d) (zone.getMonth d)

/-- `s.slice(-2)`. -/
def lastTwo (s : String) : String :=
  String.ofList (s.toList.drop (s.toList.length - 2))

def trendWindow (period : TrendPeriod) (unitStart : Int) : TrendWindow :=
  match period with
  | .day =>
      let day := toISODateLocal zone unitStart
      { key := day, label := dayMonthLabel zone shortMonth unitStart, fromDate := day
        toDate := day }
  | .week =>
      { key := isoWeekKey zone unitStart
        label := "sem " ++ dayMonthLabel zone shortMonth unitStart
        fromDate := toISODateLocal zone unitStart
        toDate := toISODateLocal zone (addLocalDays zone unitStart 6) }
  | .month =>
      let year := zone.getFullYear unitStart
      let month := zone.getMonth unitStart
      { key := toString year ++ "-" ++ pad2 (month + 1)
        label := monthShort shortMonth year month ++ " " ++ lastTwo (toString year)
        fromDate := toString year ++ "-" ++ pad2 (month + 1) ++ "-01"
        toDate := toISODateLocal zone (zone.newDate year (month + 1) 0) }
  | .year =>
      let year := zone.getFullYear unitStart
      { key := toString year, label := toString year, fromDate := toString year ++ "-01-01"
        toDate := toString year ++ "-12-31" }

/-- Consecutive windows, oldest first; the last one is the unit at `now`. -/
def trendBuckets (period : TrendPeriod) (now : Int) (buckets : Option Nat) : List TrendWindow :=
  let current := trendUnitStart zone period now
  (List.range (buckets.getD (defaultBuckets period))).reverse.map fun steps =>
    trendWindow zone shortMonth period (shiftUnits zone period current steps)

def trendRange (period : TrendPeriod) (now : Int) (buckets : Option Nat) :
    Option (String × String) := do
  let windows := trendBuckets zone shortMonth period now buckets
  let first ← windows.head?
  let last ← windows.getLast?
  pure (first.fromDate, last.toDate)

end Client

theorem toString_natCast (n : Nat) : toString (n : Int) = String.ofList (Nat.toDigits 10 n) :=
  Nat.toString_eq_ofList_toDigits

theorem pad2_natCast (n : Nat) : pad2 n = zeroPad 2 n := by
  rw [pad2, padStart, toString_natCast, String.toList_ofList, zeroPad, padded]

theorem toString_year {y : Int} (h : 1000 ≤ y) (h' : y ≤ 9999) :
    toString y = zeroPad 4 y.natAbs := by
  obtain ⟨n, rfl⟩ := Int.eq_ofNat_of_zero_le (show 0 ≤ y by omega)
  rw [toString_natCast, zeroPad, Int.natAbs_natCast, padded_eq_toDigits (by omega)]

theorem formatYear_eq {y : Int} (h : 1000 ≤ y) (h' : y ≤ 9999) : formatYear y = toString y := by
  rw [formatYear, if_neg (by omega), toString_year h h']

theorem formatYmd_eq {d : NaiveDate} (h : 1000 ≤ d.year) (h' : d.year ≤ 9999) :
    formatYmd d = toString d.year ++ "-" ++ pad2 d.month ++ "-" ++ pad2 d.day := by
  apply String.toList_injective
  rw [pad2_natCast, pad2_natCast, toString_year h h', formatYmd, dateChars,
    yearChars_of_le (by omega) h']
  simp [zeroPad]

/-- The first day of the unit that comes a number of units before the one that
starts on a day. -/
def earlier (u : CalendarUnit) (n : Nat) (d : NaiveDate) : NaiveDate :=
  match u with
  | .day => d.subDays n
  | .week => d.subDays (n * 7)
  | .month => addMonthsClamped d (-n)
  | .year => firstOfMonth (d.year - n) 1 january_pos january_le

section Earlier

variable {u : CalendarUnit} {d : NaiveDate}

theorem day_addMonthsClamped_of_first (hd : d.day = 1) (k : Int) :
    (addMonthsClamped d k).day = 1 := by
  refine le_antisymm ?_ (addMonthsClamped d k).day_pos
  simp only [addMonthsClamped, hd]
  exact min_le_left _ _

theorem firstDay_month_eq_self : CalendarUnit.month.firstDay d = d ↔ d.day = 1 := by
  constructor
  · exact fun h => (congrArg NaiveDate.day h).symm
  · exact fun h => NaiveDate.ext rfl rfl h.symm

theorem earlier_zero (hd : u.firstDay d = d) : earlier u 0 d = d := by
  cases u with
  | day => rfl
  | week => rfl
  | month =>
      have hday := firstDay_month_eq_self.mp hd
      refine eq_of_monthIndex_eq ?_ ((day_addMonthsClamped_of_first hday _).trans hday.symm)
      exact (monthIndex_addMonthsClamped d _).trans (add_zero _)
  | year =>
      have hyear : d.year - ((0 : Nat) : Int) = d.year := sub_zero _
      rw [earlier, hyear]
      exact hd

theorem firstDay_earlier (hd : u.firstDay d = d) (n : Nat) :
    u.firstDay (earlier u n d) = earlier u n d := by
  cases u with
  | day => rfl
  | week =>
      have hmonday := numDaysFromMonday_of_firstDay hd
      apply numDaysFromCe_injective
      simp only [numDaysFromMonday] at hmonday
      simp only [CalendarUnit.firstDay, earlier, numDaysFromCe_subDays, numDaysFromMonday]
      omega
  | month =>
      exact firstDay_month_eq_self.mpr
        (day_addMonthsClamped_of_first (firstDay_month_eq_self.mp hd) _)
  | year => rfl

theorem next_earlier (hd : u.firstDay d = d) (n : Nat) :
    u.next (earlier u (n + 1) d) = earlier u n d := by
  cases u with
  | day =>
      apply numDaysFromCe_injective
      simp only [CalendarUnit.next, CalendarUnit.lastDay, earlier, numDaysFromCe_succ,
        numDaysFromCe_subDays]
      omega
  | week =>
      have hmonday := numDaysFromMonday_of_firstDay (firstDay_earlier hd (n + 1))
      apply numDaysFromCe_injective
      simp only [CalendarUnit.next, CalendarUnit.lastDay, hmonday, numDaysFromCe_succ,
        numDaysFromCe_addDays]
      simp only [earlier, numDaysFromCe_subDays]
      omega
  | month =>
      have hday := firstDay_month_eq_self.mp hd
      have hfirst := day_addMonthsClamped_of_first hday (-((n + 1 : Nat) : Int))
      refine (addMonthsClamped_one hfirst).symm.trans (eq_of_monthIndex_eq ?_ ?_)
      · simp only [earlier, monthIndex_addMonthsClamped]
        omega
      · rw [day_addMonthsClamped_of_first hfirst, earlier, day_addMonthsClamped_of_first hday]
  | year =>
      have hyear : d.year - ((n + 1 : Nat) : Int) + 1 = d.year - n := by omega
      simp only [CalendarUnit.next, CalendarUnit.lastDay, earlier, firstOfMonth, succ_lastOfYear,
        hyear]

theorem earlier_le (hd : u.firstDay d = d) {m n : Nat} (h : m ≤ n) :
    earlier u n d ≤ earlier u m d := by
  induction n, h using Nat.le_induction with
  | base => exact le_rfl
  | succ n _ ih =>
      refine le_trans ?_ ih
      rw [← next_earlier hd n]
      exact (u.lt_next _).le

theorem starts_earlier (hd : u.firstDay d = d) (n : Nat) :
    u.starts (u.lastDay d) (earlier u n d) =
      (List.range (n + 1)).reverse.map fun k => earlier u k d := by
  induction n with
  | zero =>
      have hnext : u.lastDay d < u.next d := lt_succ_iff.mpr le_rfl
      rw [earlier_zero hd, CalendarUnit.starts_of_le (u.le_lastDay d),
        CalendarUnit.starts_of_lt hnext]
      simp [earlier_zero hd]
  | succ n ih =>
      have hle : earlier u (n + 1) d ≤ u.lastDay d := by
        refine (earlier_le hd (Nat.zero_le _)).trans ?_
        rw [earlier_zero hd]
        exact u.le_lastDay d
      rw [CalendarUnit.starts_of_le hle, next_earlier hd, ih, List.range_succ (n := n + 1),
        List.reverse_append, List.reverse_singleton, List.singleton_append, List.map_cons]

end Earlier

section Local

variable {zone : LocalZone} {lo hi : Int} {d e : NaiveDate} {u : CalendarUnit}

theorem newDate_of_monthIndex {y m n : Int} (hyear : 100 ≤ y) (hindex : monthIndex d = y * 12 + m)
    (h : e.numDaysFromCe = d.numDaysFromCe + n) :
    zone.newDate y m (d.day + n) = zone.startOf e := by
  have hmonth := d.month_pos
  have hmonth' := d.month_le
  simp only [monthIndex] at hindex
  have hy : y + m / 12 = d.year := by omega
  have hm : (m % 12).toNat + 1 = d.month := by omega
  have hday : makeDay y m (d.day + n) = e.numDaysFromCe - epoch := by
    simp only [makeDay, hy, hm]
    rw [h, numDaysFromCe]
    omega
  rw [LocalZone.newDate, fullYear_of_le hyear, hday, LocalZone.startOf, midnight]

theorem newDate_first {y m : Int} (hyear : 100 ≤ y) (hindex : monthIndex d = y * 12 + m)
    (hd : d.day = 1) : zone.newDate y m 1 = zone.startOf d := by
  have h : zone.newDate y m (d.day + 0) = zone.startOf d :=
    newDate_of_monthIndex hyear hindex (Int.add_zero _).symm
  rwa [hd] at h

theorem addLocalDays_startOf (hzone : zone.Regular lo hi) (hyear : 100 ≤ d.year)
    (hd : lo ≤ d.year) (hd' : d.year ≤ hi) {n : Int}
    (h : e.numDaysFromCe = d.numDaysFromCe + n) :
    addLocalDays zone (zone.startOf d) n = zone.startOf e := by
  simp only [addLocalDays, LocalZone.getFullYear, LocalZone.getMonth, LocalZone.getDate,
    hzone.localDate_startOf d hd hd']
  exact LocalZone.newDate_eq hyear h

theorem toISODateLocal_startOf (hzone : zone.Regular lo hi) (hd : lo ≤ d.year) (hd' : d.year ≤ hi)
    (hyear : 1000 ≤ d.year) (hyear' : d.year ≤ 9999) :
    toISODateLocal zone (zone.startOf d) = formatYmd d := by
  have hmonth : (d.month : Int) - 1 + 1 = d.month := by omega
  simp only [toISODateLocal, LocalZone.getFullYear, LocalZone.getMonth, LocalZone.getDate,
    hzone.localDate_startOf d hd hd', hmonth]
  exact (formatYmd_eq hyear hyear').symm

theorem neg_mod_getDay (hzone : zone.Regular lo hi) (hd : lo ≤ d.year) (hd' : d.year ≤ hi) :
    -((zone.getDay (zone.startOf d) + 6) % 7) = -(d.numDaysFromMonday : Int) := by
  rw [LocalZone.getDay, hzone.localDate_startOf d hd hd', numDaysFromMonday_eq]
  omega

theorem trendUnitStart_eq {period : TrendPeriod} {now : Int} (hnow : zone.localDate now = d)
    (hzone : zone.Regular lo hi) (hyear : 100 ≤ d.year) (hd : lo ≤ d.year) (hd' : d.year ≤ hi) :
    trendUnitStart zone period now = zone.startOf (period.calendarUnit.firstDay d) := by
  have hday : zone.newDate (zone.getFullYear now) (zone.getMonth now) (zone.getDate now) =
      zone.startOf d := by
    have h : zone.newDate d.year (d.month - 1) (d.day + 0) = zone.startOf d :=
      LocalZone.newDate_eq hyear (Int.add_zero _).symm
    rw [Int.add_zero] at h
    simpa only [LocalZone.getFullYear, LocalZone.getMonth, LocalZone.getDate, hnow] using h
  have hlocal := hzone.localDate_startOf d hd hd'
  simp only [trendUnitStart, hday]
  cases period with
  | day => rfl
  | week =>
      simp only [neg_mod_getDay hzone hd hd']
      apply addLocalDays_startOf hzone hyear hd hd'
      simp only [SummaryGroup.calendarUnit, CalendarUnit.firstDay, numDaysFromCe_subDays]
      omega
  | month =>
      simp only [LocalZone.getFullYear, LocalZone.getMonth, hlocal]
      refine newDate_first hyear ?_ rfl
      simp only [monthIndex, SummaryGroup.calendarUnit, CalendarUnit.firstDay, firstOfMonth]
  | year =>
      simp only [LocalZone.getFullYear, hlocal]
      refine newDate_first hyear ?_ rfl
      simp only [monthIndex, SummaryGroup.calendarUnit, CalendarUnit.firstDay, firstOfMonth]
      omega

theorem shiftUnits_eq {period : TrendPeriod} (hzone : zone.Regular lo hi)
    (hunit : period.calendarUnit.firstDay d = d) (hyear : 100 ≤ d.year) (hd : lo ≤ d.year)
    (hd' : d.year ≤ hi) {n : Nat} (hn : 100 ≤ (earlier period.calendarUnit n d).year) :
    shiftUnits zone period (zone.startOf d) n =
      zone.startOf (earlier period.calendarUnit n d) := by
  have hlocal := hzone.localDate_startOf d hd hd'
  cases period with
  | day =>
      apply addLocalDays_startOf hzone hyear hd hd'
      simp only [SummaryGroup.calendarUnit, earlier, numDaysFromCe_subDays]
      omega
  | week =>
      apply addLocalDays_startOf hzone hyear hd hd'
      simp only [SummaryGroup.calendarUnit, earlier, numDaysFromCe_subDays]
      omega
  | month =>
      have hday := day_addMonthsClamped_of_first (firstDay_month_eq_self.mp hunit) (-(n : Int))
      simp only [shiftUnits, LocalZone.getFullYear, LocalZone.getMonth, hlocal]
      refine newDate_first hyear ?_ hday
      change monthIndex (addMonthsClamped d _) = _
      rw [monthIndex_addMonthsClamped, monthIndex]
      omega
  | year =>
      simp only [shiftUnits, LocalZone.getFullYear, hlocal]
      refine newDate_first hn ?_ rfl
      simp only [SummaryGroup.calendarUnit, earlier, monthIndex, firstOfMonth]
      omega

theorem jan4_pos : 1 ≤ 4 := by
  decide

theorem jan4_le (y : Int) : 4 ≤ daysInMonth y 1 :=
  show 4 ≤ 31 by decide

def jan4 (y : Int) : NaiveDate :=
  ⟨y, 1, 4, january_pos, january_le, jan4_pos, jan4_le y⟩

theorem numDaysFromCe_jan4 (y : Int) : (jan4 y).numDaysFromCe = daysBeforeYear y + 4 := by
  change daysBeforeYear y + ((0 : Nat) : Int) + ((4 : Nat) : Int) = _
  omega

theorem numDaysFromCe_thursday (hweek : CalendarUnit.week.firstDay d = d) :
    (CalendarUnit.thursday d).numDaysFromCe = d.numDaysFromCe + 3 ∧
      (CalendarUnit.week.lastDay d).numDaysFromCe = d.numDaysFromCe + 6 := by
  constructor
  · rw [CalendarUnit.thursday, hweek, numDaysFromCe_addDays]
    rfl
  · rw [CalendarUnit.lastDay, numDaysFromMonday_of_firstDay hweek, numDaysFromCe_addDays]
    rfl

theorem year_le_isoYear (hweek : CalendarUnit.week.firstDay d = d) :
    d.year ≤ CalendarUnit.isoYear d ∧
      CalendarUnit.isoYear d ≤ (CalendarUnit.week.lastDay d).year := by
  obtain ⟨hthursday, hlast⟩ := numDaysFromCe_thursday hweek
  constructor
  · exact year_le_year (by rw [le_iff]; omega)
  · exact year_le_year (by rw [le_iff]; omega)

/-- The Thursday of a week comes a number of weeks after that of the first one; no
year has more than 53. -/
theorem exists_isoWeek (hweek : CalendarUnit.week.firstDay d = d) :
    ∃ k : Nat, k ≤ 52 ∧ CalendarUnit.isoWeek d = k + 1 ∧
      (CalendarUnit.thursday d).numDaysFromCe =
        (CalendarUnit.week.firstDay (jan4 (CalendarUnit.isoYear d))).numDaysFromCe + 7 * k + 3 := by
  have hmonday := numDaysFromMonday_of_firstDay hweek
  have hthursday := (numDaysFromCe_thursday hweek).1
  have hyear :
      daysBeforeYear (CalendarUnit.isoYear d) < (CalendarUnit.thursday d).numDaysFromCe := by
    have hday := (CalendarUnit.thursday d).day_pos
    simp only [CalendarUnit.isoYear, numDaysFromCe]
    omega
  have hyear' : (CalendarUnit.thursday d).numDaysFromCe ≤
      daysBeforeYear (CalendarUnit.isoYear d) + daysInYear (CalendarUnit.isoYear d) :=
    numDaysFromCe_le_daysInYear _
  have hlength : daysInYear (CalendarUnit.isoYear d) ≤ 366 := by
    unfold daysInYear
    split <;> omega
  have hjan4 := numDaysFromCe_jan4 (CalendarUnit.isoYear d)
  simp only [numDaysFromMonday] at hmonday
  refine ⟨((CalendarUnit.thursday d).numDaysFromCe -
    daysBeforeYear (CalendarUnit.isoYear d) - 1).toNat / 7, by omega, ?_, ?_⟩
  · simp only [CalendarUnit.isoWeek]
    omega
  · simp only [CalendarUnit.firstDay, numDaysFromCe_subDays, numDaysFromMonday, hjan4]
    omega

theorem year_firstMonday (y : Int) :
    y - 1 ≤ (CalendarUnit.week.firstDay (jan4 y)).year ∧
      (CalendarUnit.week.firstDay (jan4 y)).year ≤ y := by
  refine ⟨?_, year_le_year (CalendarUnit.week.firstDay_le (jan4 y))⟩
  have hmonday := CalendarUnit.numDaysFromMonday_le (jan4 y)
  have hjan4 := numDaysFromCe_jan4 y
  have hfirst : (CalendarUnit.week.firstDay (jan4 y)).numDaysFromCe =
      (jan4 y).numDaysFromCe - (jan4 y).numDaysFromMonday := numDaysFromCe_subDays _ _
  have hyear := daysBeforeYear_succ (y - 1)
  have hlength : 365 ≤ daysInYear (y - 1) := by
    unfold daysInYear
    split <;> omega
  rw [Int.sub_add_cancel] at hyear
  have hle : firstOfMonth (y - 1) 1 le_rfl (by decide) ≤ CalendarUnit.week.firstDay (jan4 y) := by
    have hnum : (firstOfMonth (y - 1) 1 le_rfl (by decide)).numDaysFromCe =
        daysBeforeYear (y - 1) + ((0 : Nat) : Int) + ((1 : Nat) : Int) := rfl
    rw [le_iff]
    omega
  exact year_le_year hle

/-- A duration of whole weeks and three days, give or take half a day, is rounded
down to the weeks. -/
theorem roundDiv_weeks {k duration : Int} (h : (7 * k + 3) * msPerDay - 43_200_000 < duration)
    (h' : duration < (7 * k + 3) * msPerDay + 43_200_000) :
    roundDiv duration (7 * 24 * 60 * 60 * 1000) = k := by
  simp only [msPerDay] at h h'
  simp only [roundDiv]
  omega

theorem isoWeekKey_startOf (hzone : zone.Regular lo hi) (hhundred : 100 ≤ lo)
    (hweek : CalendarUnit.week.firstDay d = d) (hlo : lo + 1 ≤ d.year)
    (hhi : (CalendarUnit.week.lastDay d).year ≤ hi) :
    isoWeekKey zone (zone.startOf d) = summaryBucketKey .week d := by
  obtain ⟨k, hweeks, hk, hdistance⟩ := exists_isoWeek hweek
  obtain ⟨hthursday, hlast⟩ := numDaysFromCe_thursday hweek
  obtain ⟨hge, hle⟩ := year_le_isoYear hweek
  generalize hy : CalendarUnit.isoYear d = y at hge hle hdistance
  have hthuyear : (CalendarUnit.thursday d).year = y := hy
  have hjanuary : zone.newDate y 0 4 = zone.startOf (jan4 y) := by
    have hindex : monthIndex (jan4 y) = y * 12 + 0 := rfl
    exact newDate_of_monthIndex (n := 0) (by omega) hindex (Int.add_zero _).symm
  have hmon : addLocalDays zone (zone.startOf (jan4 y)) (-((jan4 y).numDaysFromMonday : Int)) =
      zone.startOf (CalendarUnit.week.firstDay (jan4 y)) := by
    refine addLocalDays_startOf hzone (show 100 ≤ y by omega) (show lo ≤ y by omega)
      (show y ≤ hi by omega) ?_
    exact (numDaysFromCe_subDays _ _).trans (Int.sub_eq_add_neg)
  have hthu : addLocalDays zone (zone.startOf d) 3 = zone.startOf (CalendarUnit.thursday d) :=
    addLocalDays_startOf hzone (by omega) (by omega) (by omega) hthursday
  have hmonyear := year_firstMonday y
  have hdrift := hzone.drift (CalendarUnit.week.firstDay (jan4 y)) (CalendarUnit.thursday d)
    (by omega) (by omega) (by omega) (by omega) (by rw [le_iff]; omega) (by omega)
  have hspan : midnight (CalendarUnit.thursday d) - midnight (CalendarUnit.week.firstDay (jan4 y)) =
      (7 * k + 3) * msPerDay := by
    simp only [midnight, hdistance, msPerDay]
    omega
  rw [hspan] at hdrift
  have hlocal := hzone.localDate_startOf (CalendarUnit.thursday d) (by omega) (by omega)
  have hgetDay : -((zone.getDay (zone.startOf (jan4 y)) + 6) % 7) =
      -((jan4 y).numDaysFromMonday : Int) :=
    neg_mod_getDay hzone (show lo ≤ y by omega) (show y ≤ hi by omega)
  have hnumber : (1 : Int) + k = ((k + 1 : Nat) : Int) := by omega
  simp only [isoWeekKey, hthu, LocalZone.getFullYear, hlocal, hthuyear, hjanuary, hgetDay, hmon,
    roundDiv_weeks hdrift.1 hdrift.2, hnumber, pad2_natCast, summaryBucketKey, hy, hk]

def TrendWindow.bounds (w : TrendWindow) : String × String × String :=
  (w.key, w.fromDate, w.toDate)

def bucketBounds (b : SummaryBucket) : String × String × String :=
  (b.key, formatYmd b.fromDate, formatYmd b.toDate)

theorem newDate_lastDay (hyear : 100 ≤ d.year) (hday : d.day = 1) :
    zone.newDate d.year d.month 0 = zone.startOf (CalendarUnit.month.lastDay d) := by
  have hindex : monthIndex (CalendarUnit.month.next d) = d.year * 12 + d.month := by
    have hadd := monthIndex_addMonthsClamped d 1
    rw [addMonthsClamped_one hday] at hadd
    refine hadd.trans ?_
    simp only [monthIndex]
    omega
  have hone : (CalendarUnit.month.next d).day = 1 :=
    firstDay_month_eq_self.mp (CalendarUnit.month.firstDay_next d)
  have hlast : (CalendarUnit.month.lastDay d).numDaysFromCe =
      (CalendarUnit.month.next d).numDaysFromCe + (-1) := by
    rw [CalendarUnit.next, numDaysFromCe_succ]
    omega
  have h : zone.newDate d.year d.month ((CalendarUnit.month.next d).day + (-1)) =
      zone.startOf (CalendarUnit.month.lastDay d) :=
    newDate_of_monthIndex hyear hindex hlast
  rwa [hone] at h

theorem summaryBucketKey_month (h : 1000 ≤ d.year) (h' : d.year ≤ 9999) :
    summaryBucketKey .month d = toString d.year ++ "-" ++ pad2 d.month := by
  rw [summaryBucketKey, formatYear_eq h h', pad2_natCast]

theorem formatYmd_firstOfMonth (h : 1000 ≤ d.year) (h' : d.year ≤ 9999) (hday : d.day = 1) :
    formatYmd d = toString d.year ++ "-" ++ pad2 d.month ++ "-01" := by
  have hone : "-" ++ pad2 ((1 : Nat) : Int) = "-01" := by decide
  rw [formatYmd_eq h h', hday, ← hone]
  simp only [String.append_assoc]

theorem formatYmd_year {month day : Nat} {suffix : String} (h : 1000 ≤ d.year) (h' : d.year ≤ 9999)
    (hmonth : d.month = month) (hday : d.day = day)
    (hsuffix : "-" ++ pad2 month ++ ("-" ++ pad2 day) = suffix) :
    formatYmd d = toString d.year ++ suffix := by
  rw [formatYmd_eq h h', hmonth, hday, ← hsuffix]
  simp only [String.append_assoc]

theorem bounds_trendWindow {period : TrendPeriod} (shortMonth : Int → String)
    (hzone : zone.Regular lo hi) (hhundred : 100 ≤ lo) (hunit : period.calendarUnit.firstDay d = d)
    (hlo : lo + 1 ≤ d.year) (hhi : (period.calendarUnit.lastDay d).year ≤ hi)
    (hyear : 1000 ≤ d.year) (hyear' : (period.calendarUnit.lastDay d).year ≤ 9999) :
    (trendWindow zone shortMonth period (zone.startOf d)).bounds =
      bucketBounds (emptyBucket period d) := by
  have hle : d.year ≤ (period.calendarUnit.lastDay d).year :=
    year_le_year (period.calendarUnit.le_lastDay d)
  have hlocal := hzone.localDate_startOf d (by omega) (by omega)
  have hfrom := toISODateLocal_startOf hzone (d := d) (by omega) (by omega) hyear (by omega)
  have hto := toISODateLocal_startOf hzone (d := period.calendarUnit.lastDay d) (by omega) hhi
    (by omega) hyear'
  cases period with
  | day =>
      simp only [trendWindow, TrendWindow.bounds, hfrom]
      rfl
  | week =>
      have hsix : addLocalDays zone (zone.startOf d) 6 =
          zone.startOf (SummaryGroup.week.calendarUnit.lastDay d) :=
        addLocalDays_startOf hzone (by omega) (by omega) (by omega) (numDaysFromCe_thursday hunit).2
      have hkey := isoWeekKey_startOf hzone hhundred hunit hlo hhi
      simp only [trendWindow, TrendWindow.bounds, hkey, hfrom, hsix, hto]
      rfl
  | month =>
      have hday := firstDay_month_eq_self.mp hunit
      have hmonth : (d.month : Int) - 1 + 1 = d.month := Int.sub_add_cancel _ _
      have hlast : zone.newDate d.year d.month 0 =
          zone.startOf (SummaryGroup.month.calendarUnit.lastDay d) :=
        newDate_lastDay (by omega) hday
      simp only [trendWindow, TrendWindow.bounds, LocalZone.getFullYear, LocalZone.getMonth, hlocal,
        hmonth, hlast, hto, bucketBounds, emptyBucket, summaryBucketKey_month hyear (by omega),
        formatYmd_firstOfMonth hyear (by omega) hday]
  | year =>
      have hmonth : d.month = 1 := (congrArg NaiveDate.month hunit).symm
      have hday : d.day = 1 := (congrArg NaiveDate.day hunit).symm
      have hlast : formatYmd (SummaryGroup.year.calendarUnit.lastDay d) =
          toString d.year ++ "-12-31" :=
        formatYmd_year (d := SummaryGroup.year.calendarUnit.lastDay d) hyear hyear'
          (show _ = 12 from rfl) (show _ = 31 from rfl) (by decide)
      have hfirst : formatYmd d = toString d.year ++ "-01-01" :=
        formatYmd_year hyear (by omega) hmonth hday (by decide)
      simp only [trendWindow, TrendWindow.bounds, LocalZone.getFullYear, hlocal, bucketBounds,
        emptyBucket, hfirst, hlast, summaryBucketKey]

end Local

section Windows

variable {zone : LocalZone} {period : TrendPeriod} {now : Int} {d : NaiveDate}
variable {buckets : Option Nat} {n : Nat}

def firstShown (period : TrendPeriod) (n : Nat) (d : NaiveDate) : NaiveDate :=
  earlier period.calendarUnit n (period.calendarUnit.firstDay d)

def lastShown (period : TrendPeriod) (d : NaiveDate) : NaiveDate :=
  period.calendarUnit.lastDay d

/-- The windows on a day lie in years of four digits, in which the clocks are
regular. -/
structure InYears (zone : LocalZone) (period : TrendPeriod) (n : Nat) (d : NaiveDate) : Prop where
  lower : 1000 ≤ (firstShown period n d).year
  upper : (lastShown period d).year ≤ 9999
  regular : zone.Regular ((firstShown period n d).year - 1) (lastShown period d).year

theorem firstDay_firstShown (period : TrendPeriod) (n : Nat) (d : NaiveDate) :
    period.calendarUnit.firstDay (firstShown period n d) = firstShown period n d :=
  firstDay_earlier (period.calendarUnit.firstDay_firstDay d) n

theorem firstShown_le {k : Nat} (hk : k ≤ n) :
    firstShown period n d ≤ firstShown period k d :=
  earlier_le (period.calendarUnit.firstDay_firstDay d) hk

theorem firstShown_le_self (period : TrendPeriod) (n : Nat) (d : NaiveDate) :
    firstShown period n d ≤ d := by
  refine (firstShown_le (Nat.zero_le n)).trans ?_
  rw [firstShown, earlier_zero (period.calendarUnit.firstDay_firstDay d)]
  exact period.calendarUnit.firstDay_le d

theorem lastDay_firstShown_le (period : TrendPeriod) (k : Nat) (d : NaiveDate) :
    period.calendarUnit.lastDay (firstShown period k d) ≤ lastShown period d := by
  have hunit := period.calendarUnit.firstDay_firstDay d
  cases k with
  | zero =>
      rw [firstShown, earlier_zero hunit, CalendarUnit.lastDay_firstDay]
      exact le_rfl
  | succ k =>
      have hnext : period.calendarUnit.next (firstShown period (k + 1) d) = firstShown period k d :=
        next_earlier hunit k
      have hlt : period.calendarUnit.lastDay (firstShown period (k + 1) d) <
          firstShown period k d := by
        rw [← hnext, CalendarUnit.next]
        exact lt_succ_iff.mpr le_rfl
      exact (hlt.le.trans (firstShown_le_self period k d)).trans (period.calendarUnit.le_lastDay d)

theorem starts_shown (period : TrendPeriod) (n : Nat) (d : NaiveDate) :
    period.calendarUnit.starts (lastShown period d) (firstShown period n d) =
      (List.range (n + 1)).reverse.map fun k => firstShown period k d := by
  rw [lastShown, ← CalendarUnit.lastDay_firstDay]
  exact starts_earlier (period.calendarUnit.firstDay_firstDay d) n

theorem trendBuckets_eq_map (shortMonth : Int → String) (hnow : zone.localDate now = d)
    (hcount : buckets.getD (defaultBuckets period) = n + 1) (h : InYears zone period n d) :
    trendBuckets zone shortMonth period now buckets =
      (period.calendarUnit.starts (lastShown period d) (firstShown period n d)).map fun start =>
        trendWindow zone shortMonth period (zone.startOf start) := by
  have hlower := h.lower
  have hunit := period.calendarUnit.firstDay_firstDay d
  have hd : (firstShown period n d).year ≤ d.year := year_le_year (firstShown_le_self period n d)
  have hd' : d.year ≤ (lastShown period d).year :=
    year_le_year (period.calendarUnit.le_lastDay d)
  have hfirst : (firstShown period n d).year ≤ (period.calendarUnit.firstDay d).year := by
    have hle : firstShown period n d ≤ firstShown period 0 d := firstShown_le (Nat.zero_le n)
    rw [firstShown, firstShown, earlier_zero hunit] at hle
    exact year_le_year hle
  have hfirst' : (period.calendarUnit.firstDay d).year ≤ d.year :=
    year_le_year (period.calendarUnit.firstDay_le d)
  rw [trendBuckets, hcount, starts_shown, List.map_map]
  apply List.map_congr_left
  intro k hk
  have hkn : k ≤ n := Nat.lt_succ_iff.mp (List.mem_range.mp (List.mem_reverse.mp hk))
  have hyear : (firstShown period n d).year ≤ (firstShown period k d).year :=
    year_le_year (firstShown_le hkn)
  have hshift := shiftUnits_eq h.regular hunit (by omega) (by omega) (by omega)
    (show 100 ≤ (firstShown period k d).year by omega)
  rw [trendUnitStart_eq hnow h.regular (by omega) (by omega) hd', hshift]
  rfl

theorem shown_of_mem_starts {start : NaiveDate}
    (hstart : start ∈ period.calendarUnit.starts (lastShown period d) (firstShown period n d)) :
    period.calendarUnit.firstDay start = start ∧ firstShown period n d ≤ start ∧
      period.calendarUnit.lastDay start ≤ lastShown period d := by
  rw [starts_shown, List.mem_map] at hstart
  obtain ⟨k, hk, rfl⟩ := hstart
  have hkn : k ≤ n := Nat.lt_succ_iff.mp (List.mem_range.mp (List.mem_reverse.mp hk))
  exact ⟨firstDay_firstShown period k d, firstShown_le hkn, lastDay_firstShown_le period k d⟩

theorem bounds_of_mem_starts (shortMonth : Int → String) (h : InYears zone period n d)
    {start : NaiveDate}
    (hstart : start ∈ period.calendarUnit.starts (lastShown period d) (firstShown period n d)) :
    (trendWindow zone shortMonth period (zone.startOf start)).bounds =
      bucketBounds (emptyBucket period start) := by
  obtain ⟨hunit, hfrom, hto⟩ := shown_of_mem_starts hstart
  have hlower := h.lower
  have hupper := h.upper
  have hyear := year_le_year hfrom
  have hyear' := year_le_year hto
  exact bounds_trendWindow shortMonth h.regular (by omega) hunit (by omega) hyear' (by omega)
    (by omega)

theorem bounds_trendBuckets (shortMonth : Int → String) (hnow : zone.localDate now = d)
    (hcount : buckets.getD (defaultBuckets period) = n + 1) (h : InYears zone period n d) :
    (trendBuckets zone shortMonth period now buckets).map TrendWindow.bounds =
      (summaryBucketWindows period (firstShown period n d) (lastShown period d)).map
        bucketBounds := by
  have hfirst := firstDay_firstShown period n d
  rw [trendBuckets_eq_map shortMonth hnow hcount h, summaryBucketWindows_eq, hfirst, List.map_map,
    List.map_map]
  exact List.map_congr_left fun start hstart => bounds_of_mem_starts shortMonth h hstart

theorem trendRange_eq (shortMonth : Int → String) (hnow : zone.localDate now = d)
    (hcount : buckets.getD (defaultBuckets period) = n + 1) (h : InYears zone period n d) :
    trendRange zone shortMonth period now buckets =
      some (formatYmd (firstShown period n d), formatYmd (lastShown period d)) := by
  have hbounds := bounds_trendBuckets shortMonth hnow hcount h
  have hle : firstShown period n d ≤ lastShown period d :=
    (firstShown_le_self period n d).trans (period.calendarUnit.le_lastDay d)
  have hunit := firstDay_firstShown period n d
  have hlastDay : period.calendarUnit.lastDay (period.calendarUnit.firstDay (lastShown period d)) =
      lastShown period d := by
    rw [CalendarUnit.lastDay_firstDay, lastShown]
    exact CalendarUnit.lastDay_congr (CalendarUnit.firstDay_lastDay _ d)
  rw [summaryBucketWindows_eq, hunit, List.map_map] at hbounds
  have hhead := congrArg List.head? hbounds
  have hlast := congrArg List.getLast? hbounds
  rw [List.head?_map, List.head?_map, CalendarUnit.starts_of_le hle, List.head?_cons,
    Option.map_some, Option.map_eq_some_iff] at hhead
  rw [List.getLast?_map, List.getLast?_map, CalendarUnit.getLast?_starts hunit hle,
    Option.map_some, Option.map_eq_some_iff] at hlast
  obtain ⟨first, hfirst, hbound⟩ := hhead
  obtain ⟨last, hlast, hbound'⟩ := hlast
  have hfrom : first.fromDate = formatYmd (firstShown period n d) :=
    congrArg (fun b => b.2.1) hbound
  have hto : last.toDate = formatYmd (lastShown period d) :=
    (congrArg (fun b => b.2.2) hbound').trans (congrArg formatYmd hlastDay)
  simp only [trendRange, hfirst, hlast, Option.bind_eq_bind, Option.bind_some, Option.pure_def,
    hfrom, hto]

end Windows

end PersonalDashboard.TrendWindows
