import PersonalDashboard.Calendar

set_option autoImplicit false

namespace PersonalDashboard.BillingDates

open PersonalDashboard.Calendar
open PersonalDashboard.Calendar.NaiveDate

/-- Last valid day of a calendar month: the day before the first of the next
one. -/
def lastDayOfMonth (year : Int) (month : Nat) (h : 1 ≤ month) (h' : month ≤ 12) : Nat :=
  if hm : month = 12 then (firstOfMonth (year + 1) 1 january_pos january_le).pred.day
  else (firstOfMonth year (month + 1) (Nat.le_add_left 1 _) (by omega)).pred.day

theorem lastDayOfMonth_eq (year : Int) (month : Nat) (h : 1 ≤ month) (h' : month ≤ 12) :
    lastDayOfMonth year month h h' = daysInMonth year month := by
  unfold lastDayOfMonth
  split
  · rename_i hm
    subst hm
    simp [pred, firstOfMonth, daysInMonth]
  · simp [pred, firstOfMonth,
      Nat.lt_add_of_pos_left (Nat.pos_of_ne_zero (Nat.one_le_iff_ne_zero.mp h))]

/-- The months from year 0 to the month of a date. -/
def monthIndex (d : NaiveDate) : Int :=
  d.year * 12 + ((d.month : Int) - 1)

theorem eq_of_monthIndex_eq {d e : NaiveDate} (h : monthIndex d = monthIndex e)
    (hday : d.day = e.day) : d = e := by
  have hd := d.month_pos
  have hd' := d.month_le
  have he := e.month_pos
  have he' := e.month_le
  simp only [monthIndex] at h
  exact NaiveDate.ext (by omega) (by omega) hday

/-- Add calendar months, clamping the day to the last valid day of the target
month. -/
def addMonthsClamped (base : NaiveDate) (months : Int) : NaiveDate :=
  let total := monthIndex base + months
  let year := total / 12
  let month := (total % 12 + 1).toNat
  have h : 1 ≤ month := by omega
  have h' : month ≤ 12 := by omega
  let day := min base.day (lastDayOfMonth year month h h')
  ⟨year, month, day, h, h',
    le_min base.day_pos (by rw [lastDayOfMonth_eq]; have := daysInMonth_pos year month; omega),
    (min_le_right _ _).trans_eq (lastDayOfMonth_eq year month h h')⟩

theorem monthIndex_addMonthsClamped (base : NaiveDate) (months : Int) :
    monthIndex (addMonthsClamped base months) = monthIndex base + months := by
  simp only [monthIndex, addMonthsClamped]
  omega

theorem lt_of_monthIndex_lt {d e : NaiveDate} (h : monthIndex d < monthIndex e) : d < e := by
  have hd := d.month_pos
  have hd' := d.month_le
  have he := e.month_pos
  have he' := e.month_le
  simp only [monthIndex] at h
  rcases lt_or_eq_of_le (show d.year ≤ e.year by omega) with hy | hy
  · exact numDaysFromCe_lt_of_year_lt hy
  · exact numDaysFromCe_lt_of_month_lt hy (by omega)

theorem lt_addMonthsClamped (d : NaiveDate) {months : Int} (h : 0 < months) :
    d < addMonthsClamped d months :=
  lt_of_monthIndex_lt (by rw [monthIndex_addMonthsClamped]; omega)

/-- Upper bound of the catch-up loop, about a hundred years of months. -/
def maxCatchUpMonths : Nat :=
  1200

/-- The first of `n` monthly occurrences of a date from the `k`-th on that lies
after a threshold. -/
def firstOccurrenceAfter (stored threshold : NaiveDate) (k : Nat) : Nat → Option NaiveDate
  | 0 => none
  | n + 1 =>
      let candidate := addMonthsClamped stored k
      if candidate > threshold then some candidate
      else firstOccurrenceAfter stored threshold (k + 1) n

def advanceNextBilling (stored : Option NaiveDate) (payDate : NaiveDate) : NaiveDate :=
  match stored with
  | none => addMonthsClamped payDate 1
  | some stored =>
      let threshold := max payDate stored
      match firstOccurrenceAfter stored threshold 1 maxCatchUpMonths with
      | some candidate => candidate
      | none => addMonthsClamped payDate 1

theorem lt_of_firstOccurrenceAfter {stored threshold candidate : NaiveDate} {k n : Nat}
    (h : firstOccurrenceAfter stored threshold k n = some candidate) :
    threshold < candidate := by
  induction n generalizing k with
  | zero => cases h
  | succ n ih =>
      simp only [firstOccurrenceAfter] at h
      split at h
      · obtain rfl := Option.some.inj h
        assumption
      · exact ih h

theorem firstOccurrenceAfter_self (stored : NaiveDate) (n : Nat) :
    firstOccurrenceAfter stored stored 1 (n + 1) = some (addMonthsClamped stored 1) :=
  if_pos (lt_addMonthsClamped stored (by decide))

theorem lt_advanceNextBilling (stored : Option NaiveDate) (payDate : NaiveDate) :
    payDate < advanceNextBilling stored payDate := by
  unfold advanceNextBilling
  split
  · exact lt_addMonthsClamped payDate (by decide)
  · dsimp only
    split
    · rename_i h
      exact (le_max_left _ _).trans_lt (lt_of_firstOccurrenceAfter h)
    · exact lt_addMonthsClamped payDate (by decide)

theorem stored_lt_advanceNextBilling (stored payDate : NaiveDate) :
    stored < advanceNextBilling (some stored) payDate := by
  unfold advanceNextBilling
  dsimp only
  split
  · rename_i h
    exact (le_max_right _ _).trans_lt (lt_of_firstOccurrenceAfter h)
  · rename_i h
    -- the loop gives up only when the payment lies past the stored date
    have hlt : stored < payDate := by
      by_contra hle
      rw [max_eq_right (not_lt.mp hle)] at h
      exact Option.some_ne_none _ ((firstOccurrenceAfter_self stored 1199).symm.trans h)
    exact hlt.trans (lt_addMonthsClamped payDate (by decide))

end PersonalDashboard.BillingDates
