import PersonalDashboard.DateStrings

/-! Dates of JavaScript: day numbers of fields that may run over, ISO strings,
and the dates that a regular expression takes apart. -/

set_option autoImplicit false

namespace PersonalDashboard.JsDate

open PersonalDashboard.Calendar
open PersonalDashboard.Calendar.NaiveDate
open PersonalDashboard.DateStrings

def yearOf (n : Int) : Int :=
  let y := (n - 1) * 400 / 146_097 + 1
  if n ≤ daysBeforeYear y then y - 1
  else if daysBeforeYear (y + 1) < n then y + 1
  else y

theorem yearOf_spec (n : Int) :
    daysBeforeYear (yearOf n) < n ∧ n ≤ daysBeforeYear (yearOf n + 1) := by
  have hcases : ∀ y : Int, (y - 1) * 146_097 ≤ (n - 1) * 400 → (n - 1) * 400 < y * 146_097 →
      daysBeforeYear (y - 1) < n ∧ n ≤ daysBeforeYear (y + 2) := by
    intro y hle hlt
    simp only [daysBeforeYear]
    omega
  obtain ⟨hlt, hle⟩ := hcases ((n - 1) * 400 / 146_097 + 1) (by omega) (by omega)
  simp only [yearOf]
  split
  · rename_i h
    exact ⟨hlt, by rwa [Int.sub_add_cancel]⟩
  split
  · rename_i h
    exact ⟨h, by rwa [Int.add_assoc]⟩
  · rename_i h h'
    exact ⟨not_le.mp h, not_lt.mp h'⟩

/-- The last month, up to a given one, that starts before a day of the year. -/
def monthOf (y : Int) (day : Int) : Nat → Nat
  | 0 => 1
  | m + 1 => if daysBeforeMonth y (m + 1) < day then m + 1 else monthOf y day m

theorem monthOf_spec {y day : Int} (hday : 1 ≤ day) {m : Nat} (hm : 1 ≤ m)
    (hle : day ≤ daysBeforeMonth y (m + 1)) :
    1 ≤ monthOf y day m ∧ monthOf y day m ≤ m ∧ daysBeforeMonth y (monthOf y day m) < day ∧
      day ≤ daysBeforeMonth y (monthOf y day m + 1) := by
  induction m with
  | zero => exact absurd hm (by decide)
  | succ m ih =>
      unfold monthOf
      split
      · exact ⟨hm, le_rfl, ‹_›, hle⟩
      · rename_i hlt
        rcases Nat.eq_zero_or_pos m with rfl | hpos
        · have hzero : daysBeforeMonth y 1 = 0 := rfl
          rw [Nat.zero_add, hzero] at hlt
          omega
        · obtain ⟨h₁, h₂, h₃⟩ := ih hpos (by omega)
          exact ⟨h₁, h₂.trans (Nat.le_succ m), h₃⟩

/-- The day of the year of a day number, from 1 on. -/
def dayOfYear (n : Int) : Int :=
  n - daysBeforeYear (yearOf n)

def monthOfYear (n : Int) : Nat :=
  monthOf (yearOf n) (dayOfYear n) 12

theorem monthOfYear_spec (n : Int) :
    1 ≤ monthOfYear n ∧ monthOfYear n ≤ 12 ∧
      daysBeforeMonth (yearOf n) (monthOfYear n) < dayOfYear n ∧
      dayOfYear n ≤ daysBeforeMonth (yearOf n) (monthOfYear n) +
        daysInMonth (yearOf n) (monthOfYear n) := by
  have hspec := yearOf_spec n
  have hyear := daysBeforeYear_succ (yearOf n)
  have htotal : daysBeforeMonth (yearOf n) (12 + 1) = daysInYear (yearOf n) :=
    daysBeforeMonth_thirteen _
  have hday : 1 ≤ dayOfYear n ∧ dayOfYear n ≤ daysBeforeMonth (yearOf n) (12 + 1) := by
    simp only [dayOfYear]
    omega
  obtain ⟨hpos, hle, hlt, hnext⟩ := monthOf_spec hday.1 (by decide) hday.2
  rw [daysBeforeMonth_succ _ hpos] at hnext
  exact ⟨hpos, hle, hlt, by exact_mod_cast hnext⟩

def ofNumDaysFromCe (n : Int) : NaiveDate where
  year := yearOf n
  month := monthOfYear n
  day := (dayOfYear n - daysBeforeMonth (yearOf n) (monthOfYear n)).toNat
  month_pos := (monthOfYear_spec n).1
  month_le := (monthOfYear_spec n).2.1
  day_pos := by
    have hlt := (monthOfYear_spec n).2.2.1
    omega
  day_le := by
    have hle := (monthOfYear_spec n).2.2.2
    omega

@[simp]
theorem numDaysFromCe_ofNumDaysFromCe (n : Int) : (ofNumDaysFromCe n).numDaysFromCe = n := by
  have hlt := (monthOfYear_spec n).2.2.1
  simp only [numDaysFromCe, ofNumDaysFromCe]
  simp only [dayOfYear] at *
  omega

@[simp]
theorem ofNumDaysFromCe_numDaysFromCe (d : NaiveDate) : ofNumDaysFromCe d.numDaysFromCe = d :=
  numDaysFromCe_injective (numDaysFromCe_ofNumDaysFromCe _)

def msPerDay : Int :=
  86_400_000

def epoch : Int :=
  719_163

/-- A year given with one or two digits is one of the twentieth century. -/
def fullYear (year : Int) : Int :=
  if 0 ≤ year ∧ year ≤ 99 then 1900 + year else year

/-- The day, from 1970-01-01, of a year, a month index and a day of the month
that may both run over. -/
def makeDay (year month day : Int) : Int :=
  let y := year + month / 12
  daysBeforeYear y + daysBeforeMonth y ((month % 12).toNat + 1) + day - epoch

/-- `Date.UTC(year, month, day)`. -/
def utc (year month day : Int) : Int :=
  makeDay (fullYear year) month day * msPerDay

def utcDate (ms : Int) : NaiveDate :=
  ofNumDaysFromCe (ms / msPerDay + epoch)

/-- `new Date(ms).getUTCDay()`. -/
def getUTCDay (ms : Int) : Nat :=
  (utcDate ms).numDaysFromSunday

/-- The year of `toISOString`: a sign and six digits outside 0 to 9999. -/
def isoYearChars (y : Int) : List Char :=
  if 0 ≤ y ∧ y ≤ 9999 then padded 4 y.natAbs
  else (if y < 0 then '-' else '+') :: padded 6 y.natAbs

/-- `new Date(ms).toISOString().slice(0, 10)`. -/
def isoDate (ms : Int) : String :=
  let d := utcDate ms
  String.ofList
    ((isoYearChars d.year ++ '-' :: (padded 2 d.month ++ '-' :: padded 2 d.day)).take 10)

theorem fullYear_of_le {year : Int} (h : 100 ≤ year) : fullYear year = year :=
  if_neg fun hle => by omega

theorem makeDay_eq (d : NaiveDate) (n : Int) :
    makeDay d.year (d.month - 1) (d.day + n) = d.numDaysFromCe + n - epoch := by
  have hpos := d.month_pos
  have hle := d.month_le
  have hdiv : ((d.month : Int) - 1) / 12 = 0 := by omega
  have hmod : (((d.month : Int) - 1) % 12).toNat + 1 = d.month := by omega
  simp only [makeDay, hdiv, hmod, Int.add_zero, numDaysFromCe]
  omega

def midnight (d : NaiveDate) : Int :=
  (d.numDaysFromCe - epoch) * msPerDay

@[simp]
theorem utcDate_midnight (d : NaiveDate) : utcDate (midnight d) = d := by
  have hdiv : midnight d / msPerDay = d.numDaysFromCe - epoch :=
    Int.mul_ediv_cancel _ (by decide)
  rw [utcDate, hdiv, Int.sub_add_cancel, ofNumDaysFromCe_numDaysFromCe]

theorem midnight_add {d e : NaiveDate} {n : Int} (h : e.numDaysFromCe = d.numDaysFromCe + n) :
    midnight d + n * msPerDay = midnight e := by
  rw [midnight, midnight, h, ← Int.add_mul]
  congr 1
  omega

theorem utc_eq {d e : NaiveDate} {n : Int} (hyear : 100 ≤ d.year)
    (h : e.numDaysFromCe = d.numDaysFromCe + n) :
    utc d.year (d.month - 1) (d.day + n) = midnight e := by
  rw [utc, fullYear_of_le hyear, makeDay_eq, midnight, h]

theorem utc_firstOfMonth (year : Int) {month : Nat} (h : 1 ≤ month) (h' : month ≤ 12) :
    utc year (month - 1) 1 = midnight (firstOfMonth (fullYear year) month h h') := by
  have hday := makeDay_eq (firstOfMonth (fullYear year) month h h') 0
  rw [Int.add_zero, Int.add_zero] at hday
  exact congrArg (· * msPerDay) hday

/-- The clocks of a place: the time at which they show a reading, and the reading
they show at a time. -/
structure LocalZone where
  timeOf : Int → Int
  clockAt : Int → Int

namespace LocalZone

variable (zone : LocalZone)

/-- `new Date(year, month, day)`. -/
def newDate (year month day : Int) : Int :=
  zone.timeOf (makeDay (fullYear year) month day * msPerDay)

def localDate (t : Int) : NaiveDate :=
  utcDate (zone.clockAt t)

def getFullYear (t : Int) : Int :=
  (zone.localDate t).year

def getMonth (t : Int) : Int :=
  (zone.localDate t).month - 1

def getDate (t : Int) : Int :=
  (zone.localDate t).day

def getDay (t : Int) : Int :=
  (zone.localDate t).numDaysFromSunday

def startOf (d : NaiveDate) : Int :=
  zone.timeOf (midnight d)

/-- In the days of some years, each day has its midnight, and the clocks of two
days of thirteen months are set less than half a day apart. -/
structure Regular (lo hi : Int) : Prop where
  localDate_startOf : ∀ d : NaiveDate, lo ≤ d.year → d.year ≤ hi →
    zone.localDate (zone.startOf d) = d
  drift : ∀ d e : NaiveDate, lo ≤ d.year → d.year ≤ hi → lo ≤ e.year → e.year ≤ hi →
    d ≤ e → e.numDaysFromCe ≤ d.numDaysFromCe + 400 →
      midnight e - midnight d - 43_200_000 < zone.startOf e - zone.startOf d ∧
        zone.startOf e - zone.startOf d < midnight e - midnight d + 43_200_000

def fixed (offset : Int) : LocalZone where
  timeOf clock := clock - offset
  clockAt t := t + offset

theorem regular_fixed (offset lo hi : Int) : (fixed offset).Regular lo hi where
  localDate_startOf d _ _ := by
    simp only [localDate, startOf, fixed, Int.sub_add_cancel, utcDate_midnight]
  drift d e _ _ _ _ _ _ := by
    simp only [startOf, fixed]
    omega

variable {zone}

theorem newDate_eq {d e : NaiveDate} {n : Int} (hyear : 100 ≤ d.year)
    (h : e.numDaysFromCe = d.numDaysFromCe + n) :
    zone.newDate d.year (d.month - 1) (d.day + n) = zone.startOf e := by
  rw [newDate, fullYear_of_le hyear, makeDay_eq, startOf, midnight, h]

end LocalZone

def digits (l : List Char) : Option Nat :=
  if l.all Char.isDigit then some (Nat.ofDigitChars 10 l 0) else none

def matchDate (s : String) : Option (Nat × Nat × Nat) :=
  match s.toList with
  | [a, b, c, d, '-', e, f, '-', g, h] => do
      let year ← digits [a, b, c, d]
      let month ← digits [e, f]
      let day ← digits [g, h]
      pure (year, month, day)
  | _ => none

def matchMonth (s : String) : Option (Nat × Nat) :=
  match s.toList with
  | [a, b, c, d, '-', e, f] => do
      let year ← digits [a, b, c, d]
      let month ← digits [e, f]
      pure (year, month)
  | _ => none

theorem digits_padded (width n : Nat) : digits (padded width n) = some n := by
  rw [digits, if_pos (List.all_eq_true.mpr (numeral_padded width n)), ofDigitChars_padded]

theorem numeral_of_digits {l : List Char} {n : Nat} (h : digits l = some n) :
    Numeral l ∧ Nat.ofDigitChars 10 l 0 = n := by
  obtain ⟨hall, hn⟩ := Option.ite_none_right_eq_some.mp h
  exact ⟨List.all_eq_true.mp hall, Option.some.inj hn⟩

theorem eq_of_digits {l l' : List Char} {n : Nat} (h : digits l = some n)
    (h' : digits l' = some n) (hlen : l.length = l'.length) : l = l' := by
  obtain ⟨hl, hn⟩ := numeral_of_digits h
  obtain ⟨hl', hn'⟩ := numeral_of_digits h'
  have hlt := lt_iff_ofDigitChars_lt hl hl' hlen
  have hgt := lt_iff_ofDigitChars_lt hl' hl hlen.symm
  rw [hn, hn'] at hlt hgt
  apply List.le_antisymm
  · exact List.not_lt.mp fun h => lt_irrefl n (hgt.mp h)
  · exact List.not_lt.mp fun h => lt_irrefl n (hlt.mp h)

theorem exists_padded_two {n : Nat} (h : n < 100) : ∃ a b, padded 2 n = [a, b] := by
  match hl : padded 2 n, length_padded (show 0 < 2 by decide) h with
  | [a, b], _ => exact ⟨a, b, rfl⟩

theorem exists_padded_four {n : Nat} (h : n < 10_000) :
    ∃ a b c d, padded 4 n = [a, b, c, d] := by
  match hl : padded 4 n, length_padded (show 0 < 4 by decide) h with
  | [a, b, c, d], _ => exact ⟨a, b, c, d, rfl⟩

theorem matchDate_formatYmd {d : NaiveDate} (h : 0 ≤ d.year) (h' : d.year ≤ 9999) :
    matchDate (formatYmd d) = some (d.year.natAbs, d.month, d.day) := by
  have hmonth := d.month_le
  obtain ⟨a, b, c, e, hyear⟩ := exists_padded_four (show d.year.natAbs < 10_000 by omega)
  obtain ⟨m, m', hmm⟩ := exists_padded_two (show d.month < 100 by omega)
  obtain ⟨n, n', hnn⟩ := exists_padded_two (day_lt d)
  have hlist : (formatYmd d).toList = [a, b, c, e, '-', m, m', '-', n, n'] := by
    rw [formatYmd, String.toList_ofList, dateChars, yearChars_of_le h h', hyear, hmm, hnn]
    rfl
  have hd := digits_padded 4 d.year.natAbs
  have hd' := digits_padded 2 d.month
  have hd'' := digits_padded 2 d.day
  rw [hyear] at hd
  rw [hmm] at hd'
  rw [hnn] at hd''
  simp only [matchDate, hlist, hd, hd', hd'']
  rfl

theorem length_dateChars {d : NaiveDate} (h : 0 ≤ d.year) (h' : d.year ≤ 9999) :
    (dateChars d).length = 10 := by
  have hmonth := d.month_le
  rw [dateChars, yearChars_of_le h h', List.length_append, List.length_cons, List.length_append,
    List.length_cons, length_padded (by decide) (show d.year.natAbs < 10 ^ 4 by omega),
    length_padded (by decide) (show d.month < 10 ^ 2 by omega),
    length_padded (by decide) (day_lt d)]

theorem isoDate_midnight {d : NaiveDate} (h : 0 ≤ d.year) (h' : d.year ≤ 9999) :
    isoDate (midnight d) = formatYmd d := by
  have hchars : isoYearChars d.year = yearChars d.year := by
    rw [isoYearChars, if_pos ⟨h, h'⟩, yearChars_of_le h h']
  rw [isoDate, utcDate_midnight, hchars]
  exact congrArg String.ofList (List.take_of_length_le (length_dateChars h h').le)

theorem matchMonth_eq_some {s : String} {year month : Nat} (h : matchMonth s = some (year, month)) :
    ∃ l r, s.toList = l ++ '-' :: r ∧ l.length = 4 ∧ r.length = 2 ∧
      digits l = some year ∧ digits r = some month := by
  unfold matchMonth at h
  split at h
  · rename_i a b c d e f hs
    simp only [Option.bind_eq_bind, Option.bind_eq_some_iff, Option.pure_def,
      Option.some.injEq, Prod.mk.injEq] at h
    obtain ⟨y, hy, m, hm, rfl, rfl⟩ := h
    exact ⟨[a, b, c, d], [e, f], hs, rfl, rfl, hy, hm⟩
  · cases h

theorem matchMonth_injective {s t : String} {ym : Nat × Nat} (h : matchMonth s = some ym)
    (h' : matchMonth t = some ym) : s = t := by
  obtain ⟨l, r, hs, hl, hr, hyear, hmonth⟩ := matchMonth_eq_some h
  obtain ⟨l', r', ht, hl', hr', hyear', hmonth'⟩ := matchMonth_eq_some h'
  apply String.toList_injective
  rw [hs, ht, eq_of_digits hyear hyear' (hl.trans hl'.symm),
    eq_of_digits hmonth hmonth' (hr.trans hr'.symm)]

theorem year_lt_of_matchMonth {s : String} {year month : Nat}
    (h : matchMonth s = some (year, month)) : year < 10_000 := by
  obtain ⟨l, r, _, hl, _, hyear, _⟩ := matchMonth_eq_some h
  obtain ⟨hnum, hn⟩ := numeral_of_digits hyear
  have hlt := ofDigitChars_lt hnum
  rwa [hn, hl] at hlt

end PersonalDashboard.JsDate
