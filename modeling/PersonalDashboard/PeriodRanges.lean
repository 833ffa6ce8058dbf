import PersonalDashboard.CalendarReads
import PersonalDashboard.TrendWindows

/-! The ranges of days that a selection of a period stands for. -/

set_option autoImplicit false

namespace PersonalDashboard.PeriodRanges

open PersonalDashboard.Calendar
open PersonalDashboard.Calendar.NaiveDate
open PersonalDashboard.CalendarReads (DateRange)
open PersonalDashboard.DateStrings
open PersonalDashboard.JsDate
open PersonalDashboard.TaskViews
open PersonalDashboard.TrendWindows

inductive PeriodKind where
  | week
  | month
  | quarter
  | year
  | custom
  deriving DecidableEq, Repr

structure PeriodSel where
  kind : PeriodKind
  fromDate : Option String
  toDate : Option String

section Client

variable (zone : LocalZone)

/-- `t.setDate(day)`, at the same time of the day. -/
def setDate (t day : Int) : Int :=
  zone.timeOf (makeDay (zone.getFullYear t) (zone.getMonth t) day * msPerDay +
    zone.clockAt t % msPerDay)

def isValidDayStr (s : String) : Bool :=
  match matchDate s with
  | none => false
  | some (y, m, d) =>
      if m < 1 ∨ 12 < m ∨ d < 1 ∨ 31 < d then false
      else
        let dt := zone.newDate y (m - 1) d
        zone.getFullYear dt = y && zone.getMonth dt = m - 1 && zone.getDate dt = d

/-- The range of days of a selection; `none` is the error of an invalid one. -/
def toPeriodRange (sel : PeriodSel) (now : Int) : Option DateRange :=
  match sel.kind with
  | .week =>
      let stop := zone.newDate (zone.getFullYear now) (zone.getMonth now) (zone.getDate now)
      let start := setDate zone stop (zone.getDate stop - 6)
      some { fromDate := toISODateLocal zone start, toDate := toISODateLocal zone stop }
  | .month =>
      let y := zone.getFullYear now
      let m := zone.getMonth now
      let last := zone.getDate (zone.newDate y (m + 1) 0)
      some { fromDate := toString y ++ "-" ++ pad2 (m + 1) ++ "-01"
             toDate := toString y ++ "-" ++ pad2 (m + 1) ++ "-" ++ pad2 last }
  | .quarter =>
      let y := zone.getFullYear now
      let qStart := zone.getMonth now / 3 * 3
      let last := zone.getDate (zone.newDate y (qStart + 3) 0)
      let endMonth := qStart + 2
      some { fromDate := toString y ++ "-" ++ pad2 (qStart + 1) ++ "-01"
             toDate := toString y ++ "-" ++ pad2 (endMonth + 1) ++ "-" ++ pad2 last }
  | .year =>
      let y := zone.getFullYear now
      some { fromDate := toString y ++ "-01-01", toDate := toString y ++ "-12-31" }
  | .custom =>
      let fromDate := jsTrim (sel.fromDate.getD "")
      let toDate := jsTrim (sel.toDate.getD "")
      if !isValidDayStr zone fromDate || !isValidDayStr zone toDate || jsLt toDate fromDate then
        none
      else some { fromDate := fromDate, toDate := toDate }

end Client

/-- A date with its year as it comes, unpadded. -/
def isoText (d : NaiveDate) : String :=
  toString d.year ++ "-" ++ pad2 d.month ++ "-" ++ pad2 d.day

/-- The text is a date of a year from 100 to 9999 as `YYYY-MM-DD`. -/
def Written (s : String) (d : NaiveDate) : Prop :=
  s = formatYmd d ∧ 100 ≤ d.year ∧ d.year ≤ 9999

def Names (s : String) (d : NaiveDate) : Prop :=
  Written s d ∨ s = isoText d

structure Spans (range : DateRange) (first last : NaiveDate) : Prop where
  fromDate : Names range.fromDate first
  toDate : Names range.toDate last
  le : first ≤ last

theorem Names.written_or {s : String} {d : NaiveDate} (h : Names s d) :
    Written s d ∨ s = isoText d ∧ (d.year < 1000 ∨ 9999 < d.year) := by
  rcases h with h | rfl
  · exact Or.inl h
  · by_cases hyear : 1000 ≤ d.year ∧ d.year ≤ 9999
    · exact Or.inl ⟨(formatYmd_eq hyear.1 hyear.2).symm, by omega, hyear.2⟩
    · exact Or.inr ⟨rfl, by omega⟩

section Fixed

variable {offset : Int}

theorem localDate_timeOf (clock : Int) :
    (LocalZone.fixed offset).localDate ((LocalZone.fixed offset).timeOf clock) = utcDate clock := by
  simp only [LocalZone.localDate, LocalZone.fixed, Int.sub_add_cancel]

theorem toISODateLocal_eq (t : Int) :
    toISODateLocal (LocalZone.fixed offset) t =
      isoText ((LocalZone.fixed offset).localDate t) := by
  rw [toISODateLocal, LocalZone.getMonth, Int.sub_add_cancel]
  rfl

theorem utcDate_add {n rest : Int} (h : 0 ≤ rest) (h' : rest < msPerDay) :
    utcDate (n * msPerDay + rest) = ofNumDaysFromCe (n + epoch) := by
  have hdiv : (n * msPerDay + rest) / msPerDay = n := by
    simp only [msPerDay] at *
    omega
  rw [utcDate, hdiv]

theorem numDaysFromCe_setDate (offset t n : Int) :
    ((LocalZone.fixed offset).localDate (setDate (LocalZone.fixed offset) t
      ((LocalZone.fixed offset).getDate t + n))).numDaysFromCe =
      ((LocalZone.fixed offset).localDate t).numDaysFromCe + n := by
  have hmod := Int.emod_nonneg ((LocalZone.fixed offset).clockAt t) (show msPerDay ≠ 0 by decide)
  have hlt := Int.emod_lt_of_pos ((LocalZone.fixed offset).clockAt t) (show 0 < msPerDay by decide)
  rw [setDate, localDate_timeOf, utcDate_add hmod hlt, numDaysFromCe_ofNumDaysFromCe,
    LocalZone.getFullYear, LocalZone.getMonth, LocalZone.getDate, makeDay_eq, Int.sub_add_cancel]

theorem makeDay_zero (y : Int) {month : Nat} (h : 1 ≤ month) (h' : month ≤ 12) :
    makeDay y month 0 = (lastOfMonth y month h h').numDaysFromCe - epoch := by
  have hsucc := daysBeforeMonth_succ y h
  rw [makeDay, numDaysFromCe, lastOfMonth]
  rcases Nat.lt_or_ge month 12 with hlt | hge
  · have hdiv : (month : Int) / 12 = 0 := by omega
    have hmod : ((month : Int) % 12).toNat = month := by omega
    simp only [hdiv, hmod, Int.add_zero]
    omega
  · obtain rfl : month = 12 := by omega
    have hyear := daysBeforeYear_succ y
    have htotal : daysBeforeMonth y (12 + 1) = daysInYear y := daysBeforeMonth_thirteen y
    have hdiv : ((12 : Nat) : Int) / 12 = 1 := by decide
    have hfirst : daysBeforeMonth (y + 1) ((((12 : Nat) : Int) % 12).toNat + 1) = 0 := rfl
    simp only [hdiv, hfirst, Int.add_zero]
    omega

theorem getDate_monthEnd (y : Int) {month : Nat} (h : 1 ≤ month) (h' : month ≤ 12) :
    (LocalZone.fixed offset).getDate ((LocalZone.fixed offset).newDate y month 0) =
      daysInMonth (fullYear y) month := by
  have hdate : (LocalZone.fixed offset).localDate ((LocalZone.fixed offset).newDate y month 0) =
      lastOfMonth (fullYear y) month h h' := by
    rw [LocalZone.newDate, localDate_timeOf, makeDay_zero _ h h']
    exact utcDate_midnight _
  rw [LocalZone.getDate, hdate, lastOfMonth]

theorem daysInMonth_fullYear_le (y : Int) (month : Nat) :
    daysInMonth (fullYear y) month ≤ daysInMonth y month := by
  have hleap : isLeapYear (fullYear y) → isLeapYear y := by
    rw [fullYear]
    split
    · simp only [isLeapYear, decide_eq_true_eq]
      intro h
      omega
    · exact id
  unfold daysInMonth
  split
  · by_cases h : isLeapYear (fullYear y)
    · rw [if_pos h, if_pos (hleap h)]
    · rw [if_neg h]
      split <;> omega
  all_goals exact le_rfl

theorem spans_months (y : Int) {a b : Nat} (ha : 1 ≤ a) (hab : a ≤ b) (hb : b ≤ 12) :
    ∃ first last, Spans
      { fromDate := toString y ++ "-" ++ pad2 a ++ "-01"
        toDate := toString y ++ "-" ++ pad2 b ++ "-" ++ pad2 (daysInMonth (fullYear y) b) }
      first last := by
  have hpos := daysInMonth_pos (fullYear y) b
  refine ⟨firstOfMonth y a ha (hab.trans hb), ⟨y, b, daysInMonth (fullYear y) b, ha.trans hab, hb,
    by omega, daysInMonth_fullYear_le y b⟩, Or.inr ?_, Or.inr rfl, ?_⟩
  · have hone : "-" ++ pad2 ((1 : Nat) : Int) = "-01" := by decide
    rw [isoText, firstOfMonth, ← hone]
    simp only [String.append_assoc]
  · refine not_lt.mp fun hlt => ?_
    have hlex := lt_iff_lex.mp hlt
    simp only [firstOfMonth] at hlex
    omega

theorem matchDate_eq_some {s : String} {year month day : Nat}
    (h : matchDate s = some (year, month, day)) :
    ∃ l m r, s.toList = l ++ '-' :: (m ++ '-' :: r) ∧ l.length = 4 ∧ m.length = 2 ∧
      r.length = 2 ∧ digits l = some year ∧ digits m = some month ∧ digits r = some day := by
  unfold matchDate at h
  split at h
  · rename_i a b c d e f g i hs
    simp only [Option.bind_eq_bind, Option.bind_eq_some_iff, Option.pure_def,
      Option.some.injEq, Prod.mk.injEq] at h
    obtain ⟨y, hy, m, hm, n, hn, rfl, rfl, rfl⟩ := h
    exact ⟨[a, b, c, d], [e, f], [g, i], hs, rfl, rfl, rfl, hy, hm, hn⟩
  · cases h

theorem matchDate_injective {s t : String} {ymd : Nat × Nat × Nat} (h : matchDate s = some ymd)
    (h' : matchDate t = some ymd) : s = t := by
  obtain ⟨l, m, r, hs, hl, hm, hr, hyear, hmonth, hday⟩ := matchDate_eq_some h
  obtain ⟨l', m', r', ht, hl', hm', hr', hyear', hmonth', hday'⟩ := matchDate_eq_some h'
  apply String.toList_injective
  rw [hs, ht, eq_of_digits hyear hyear' (hl.trans hl'.symm),
    eq_of_digits hmonth hmonth' (hm.trans hm'.symm), eq_of_digits hday hday' (hr.trans hr'.symm)]

theorem year_lt_of_matchDate {s : String} {year month day : Nat}
    (h : matchDate s = some (year, month, day)) : year < 10_000 := by
  obtain ⟨l, m, r, _, hl, _, _, hyear, _⟩ := matchDate_eq_some h
  obtain ⟨hnum, hn⟩ := numeral_of_digits hyear
  have hlt := ofDigitChars_lt hnum
  rwa [hn, hl] at hlt

/-- A date of a year that is taken for another one is not the date that was typed. -/
theorem year_of_localDate {d : NaiveDate} (hyear : 0 ≤ d.year)
    (h : (LocalZone.fixed offset).localDate
      ((LocalZone.fixed offset).newDate d.year (d.month - 1) d.day) = d) : 100 ≤ d.year := by
  by_contra hlt
  have hfull : fullYear d.year = 1900 + d.year := if_pos ⟨hyear, by omega⟩
  have hdiv : ((d.month : Int) - 1) / 12 = 0 := by
    have hle := d.month_le
    have hpos := d.month_pos
    omega
  have hge := daysBeforeYear_mono (show d.year + 1 ≤ 1900 + d.year by omega)
  have hmonths := daysBeforeMonth_mono (1900 + d.year)
    (Nat.zero_le ((((d.month : Int) - 1) % 12).toNat + 1))
  have hzero : daysBeforeMonth (1900 + d.year) 0 = 0 := rfl
  have hday := d.day_pos
  have hnum : d.numDaysFromCe = makeDay (1900 + d.year) (d.month - 1) d.day + epoch := by
    conv_lhs => rw [← h]
    rw [LocalZone.newDate, localDate_timeOf, hfull, utcDate,
      Int.mul_ediv_cancel _ (show msPerDay ≠ 0 by decide), numDaysFromCe_ofNumDaysFromCe]
  have hle := numDaysFromCe_le_daysInYear d
  have hsucc := daysBeforeYear_succ d.year
  simp only [makeDay, hdiv, Int.add_zero] at hnum
  omega

theorem written_of_isValidDayStr {s : String} (h : isValidDayStr (LocalZone.fixed offset) s) :
    ∃ d, Written s d := by
  unfold isValidDayStr at h
  split at h
  · cases h
  · rename_i y m d hmatch
    split at h
    · cases h
    · rename_i hbounds
      obtain ⟨date, hdate⟩ : ∃ date, (LocalZone.fixed offset).localDate
        ((LocalZone.fixed offset).newDate y (m - 1) d) = date := ⟨_, rfl⟩
      simp only [LocalZone.getFullYear, LocalZone.getMonth, LocalZone.getDate, hdate,
        Bool.and_eq_true] at h
      obtain ⟨⟨hyear, hmonth⟩, hday⟩ := h
      rw [decide_eq_true_eq] at hyear hmonth hday
      have hlt := year_lt_of_matchDate hmatch
      have hmonth' : (m : Int) = date.month := by omega
      have hself' : (LocalZone.fixed offset).localDate
          ((LocalZone.fixed offset).newDate date.year (date.month - 1) date.day) = date := by
        rw [hyear, ← hmonth', hday, hdate]
      have hge := year_of_localDate (by omega) hself'
      have hself : matchDate (formatYmd date) = some (y, m, d) := by
        rw [matchDate_formatYmd (by omega) (by omega)]
        simp only [Option.some.injEq, Prod.mk.injEq]
        omega
      exact ⟨date, matchDate_injective hmatch hself, hge, by omega⟩

theorem exists_spans {sel : PeriodSel} {now : Int} {range : DateRange}
    (h : toPeriodRange (LocalZone.fixed offset) sel now = some range) :
    ∃ first last, Spans range first last := by
  have hpos := ((LocalZone.fixed offset).localDate now).month_pos
  have hle := ((LocalZone.fixed offset).localDate now).month_le
  unfold toPeriodRange at h
  split at h
  · obtain rfl := Option.some.inj h
    have hnum := numDaysFromCe_setDate offset ((LocalZone.fixed offset).newDate
      ((LocalZone.fixed offset).getFullYear now) ((LocalZone.fixed offset).getMonth now)
      ((LocalZone.fixed offset).getDate now)) (-6)
    refine ⟨_, _, Or.inr (toISODateLocal_eq _), Or.inr (toISODateLocal_eq _), ?_⟩
    rw [le_iff]
    exact (hnum.trans_lt (by omega)).le
  · obtain rfl := Option.some.inj h
    have hmonth : (LocalZone.fixed offset).getMonth now + 1 =
      ((LocalZone.fixed offset).localDate now).month := Int.sub_add_cancel _ _
    simp only [hmonth, getDate_monthEnd _ hpos hle]
    exact spans_months _ hpos le_rfl hle
  · obtain rfl := Option.some.inj h
    obtain ⟨q, hq⟩ : ∃ q : Nat, (LocalZone.fixed offset).getMonth now / 3 * 3 = q := by
      refine ⟨((((LocalZone.fixed offset).localDate now).month - 1) / 3 * 3 : Nat), ?_⟩
      rw [LocalZone.getMonth]
      omega
    have hq' : q + 3 ≤ 12 := by
      rw [LocalZone.getMonth] at hq
      omega
    have hfirst : (q : Int) + 1 = ((q + 1 : Nat) : Int) := rfl
    have hlast : (q : Int) + 3 = ((q + 3 : Nat) : Int) := rfl
    have hlast' : (q : Int) + 2 + 1 = ((q + 3 : Nat) : Int) := by omega
    simp only [hq, hlast', hfirst, hlast, getDate_monthEnd _ (Nat.le_add_left 1 (q + 2)) hq']
    exact spans_months _ (Nat.le_add_left 1 q) (by omega) hq'
  · obtain rfl := Option.some.inj h
    have hspans := spans_months ((LocalZone.fixed offset).getFullYear now) le_rfl
      (show 1 ≤ 12 by decide) le_rfl
    have hfirst : "-" ++ pad2 ((1 : Nat) : Int) ++ "-01" = "-01-01" := by decide
    have hlast : "-" ++ pad2 ((12 : Nat) : Int) ++ "-" ++ pad2 ((31 : Nat) : Int) = "-12-31" := by
      decide
    simpa only [daysInMonth, String.append_assoc, ← hfirst, ← hlast] using hspans
  · dsimp only at h
    split at h
    · cases h
    · rename_i hvalid
      obtain rfl := Option.some.inj h
      simp only [Bool.or_eq_true, Bool.not_eq_true', not_or, Bool.not_eq_false,
        Bool.not_eq_true] at hvalid
      obtain ⟨⟨hfrom, hto⟩, hlt⟩ := hvalid
      obtain ⟨first, hfirst⟩ := written_of_isValidDayStr hfrom
      obtain ⟨last, hlast⟩ := written_of_isValidDayStr hto
      refine ⟨first, last, Or.inl hfirst, Or.inl hlast, ?_⟩
      obtain ⟨hftext, hfyear, hfyear'⟩ := hfirst
      obtain ⟨hltext, hlyear, hlyear'⟩ := hlast
      rw [hftext, hltext, jsLt_formatYmd hlyear' ⟨by omega, hfyear'⟩,
        decide_eq_false_iff_not] at hlt
      exact not_lt.mp hlt

end Fixed

end PersonalDashboard.PeriodRanges
