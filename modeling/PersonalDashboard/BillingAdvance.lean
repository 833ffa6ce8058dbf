import Mathlib.Data.Nat.Find
import Mathlib.Order.Bounds.Basic
import PersonalDashboard.BillingDates

/-! The billing date that a payment stores: the first monthly occurrence past
the payment, computed without overflow or panic. -/

set_option autoImplicit false

namespace PersonalDashboard.BillingAdvance

open PersonalDashboard.BillingDates
open PersonalDashboard.Calendar
open PersonalDashboard.Calendar.NaiveDate

/-- The number of days of a month, given as the months since year 0. -/
def monthLength (i : Int) : Nat :=
  daysInMonth (i / 12) (i % 12 + 1).toNat

theorem monthLength_monthIndex (d : NaiveDate) :
    monthLength (monthIndex d) = daysInMonth d.year d.month := by
  have hpos := d.month_pos
  have hle := d.month_le
  have hyear : monthIndex d / 12 = d.year := by
    rw [monthIndex]
    omega
  have hmonth : (monthIndex d % 12 + 1).toNat = d.month := by
    rw [monthIndex]
    omega
  rw [monthLength, hyear, hmonth]

theorem day_addMonthsClamped (base : NaiveDate) (months : Int) :
    (addMonthsClamped base months).day = min base.day (monthLength (monthIndex base + months)) := by
  simp only [addMonthsClamped, lastDayOfMonth_eq, monthLength]

theorem addMonthsClamped_zero (d : NaiveDate) : addMonthsClamped d 0 = d := by
  have hindex := monthIndex_addMonthsClamped d 0
  have hday := day_addMonthsClamped d 0
  have hpos := d.month_pos
  have hle := d.month_le
  have hpos' := (addMonthsClamped d 0).month_pos
  have hle' := (addMonthsClamped d 0).month_le
  rw [add_zero, monthLength_monthIndex, min_eq_left d.day_le] at hday
  simp only [monthIndex] at hindex
  exact NaiveDate.ext (by omega) (by omega) hday

theorem addMonthsClamped_lt_iff (base : NaiveDate) (m n : Int) :
    addMonthsClamped base m < addMonthsClamped base n ↔ m < n := by
  have hmono : ∀ {a b : Int}, a < b → addMonthsClamped base a < addMonthsClamped base b := by
    intro a b hlt
    apply lt_of_monthIndex_lt
    rw [monthIndex_addMonthsClamped, monthIndex_addMonthsClamped]
    omega
  constructor
  · intro h
    rcases lt_trichotomy m n with hlt | rfl | hgt
    · exact hlt
    · exact absurd h (lt_irrefl _)
    · exact absurd (h.trans (hmono hgt)) (lt_irrefl _)
  · exact hmono

theorem monthIndex_le_of_le {d e : NaiveDate} (h : d ≤ e) : monthIndex d ≤ monthIndex e := by
  by_contra hlt
  exact absurd (lt_of_monthIndex_lt (not_le.mp hlt)) (not_lt.mpr h)

/-- The months after which an occurrence of the stored date lies past the
threshold, as far as the loop looks. -/
def Reaching (stored threshold : NaiveDate) : Set Nat :=
  {k | 1 ≤ k ∧ k ≤ maxCatchUpMonths ∧ threshold < addMonthsClamped stored k}

theorem exists_isLeast_of_nonempty {S : Set Nat} (h : S.Nonempty) : ∃ k, IsLeast S k := by
  classical
  exact ⟨Nat.find h, Nat.find_spec h, fun _ hj => Nat.find_min' h hj⟩

/-- The loop finds the first occurrence past the threshold. -/
theorem firstOccurrenceAfter_of_first {stored threshold : NaiveDate} {k j n : Nat} (hkj : k ≤ j)
    (hj : j < k + n) (hlt : threshold < addMonthsClamped stored j)
    (hfirst : ∀ i, k ≤ i → i < j → ¬ threshold < addMonthsClamped stored i) :
    firstOccurrenceAfter stored threshold k n = some (addMonthsClamped stored j) := by
  induction n generalizing k with
  | zero => omega
  | succ n ih =>
      rw [firstOccurrenceAfter]
      rcases Nat.eq_or_lt_of_le hkj with rfl | hk
      · exact if_pos hlt
      · rw [if_neg (hfirst k le_rfl hk)]
        exact ih hk (by omega) fun i hi => hfirst i (Nat.le_of_succ_le hi)

theorem firstOccurrenceAfter_eq_none {stored threshold : NaiveDate} {k n : Nat}
    (h : ∀ i, k ≤ i → i < k + n → ¬ threshold < addMonthsClamped stored i) :
    firstOccurrenceAfter stored threshold k n = none := by
  induction n generalizing k with
  | zero => rfl
  | succ n ih =>
      rw [firstOccurrenceAfter, if_neg (h k le_rfl (by omega))]
      exact ih fun i hi hlt => h i (Nat.le_of_succ_le hi) (by omega)

theorem advanceNextBilling_of_isLeast {stored payDate : NaiveDate} {k : Nat}
    (h : IsLeast (Reaching stored (max payDate stored)) k) :
    advanceNextBilling (some stored) payDate = addMonthsClamped stored k := by
  obtain ⟨⟨hone, hbound, hlt⟩, hleast⟩ := h
  have hloop : firstOccurrenceAfter stored (max payDate stored) 1 maxCatchUpMonths =
      some (addMonthsClamped stored k) := by
    refine firstOccurrenceAfter_of_first hone (by omega) hlt fun i hi hik hreach => ?_
    have hle := hleast ⟨hi, hik.le.trans hbound, hreach⟩
    omega
  simp only [advanceNextBilling, hloop]

theorem advanceNextBilling_of_empty {stored payDate : NaiveDate}
    (h : ¬ (Reaching stored (max payDate stored)).Nonempty) :
    advanceNextBilling (some stored) payDate = addMonthsClamped payDate 1 := by
  have hloop : firstOccurrenceAfter stored (max payDate stored) 1 maxCatchUpMonths = none := by
    refine firstOccurrenceAfter_eq_none fun i hi hlt hreach => h ⟨i, hi, ?_, hreach⟩
    omega
  simp only [advanceNextBilling, hloop]

theorem not_between_of_isLeast {stored threshold : NaiveDate} {k : Nat}
    (hstored : stored ≤ threshold) (h : IsLeast (Reaching stored threshold) k) (j : Int) :
    ¬ (threshold < addMonthsClamped stored j ∧
      addMonthsClamped stored j < addMonthsClamped stored k) := by
  rintro ⟨hlt, hbefore⟩
  obtain ⟨⟨hone, hbound, -⟩, hleast⟩ := h
  have hjk := (addMonthsClamped_lt_iff stored j k).mp hbefore
  have hpos : 0 < j := by
    rw [← addMonthsClamped_lt_iff stored, addMonthsClamped_zero]
    exact hstored.trans_lt hlt
  have hnat : (j.toNat : Int) = j := Int.toNat_of_nonneg hpos.le
  have hle := hleast (show j.toNat ∈ Reaching stored threshold from
    ⟨by omega, by omega, by rwa [hnat]⟩)
  omega

-- The functions of the source, `none` where a call panics or overflows.

/-- The years of the first and the last date that can be represented. -/
def minYear : Int :=
  -262143

def maxYear : Int :=
  262142

def checkedI32 (n : Int) : Option Int :=
  if -2 ^ 31 ≤ n ∧ n < 2 ^ 31 then some n else none

def checkedYmd (y : Int) (m d : Nat) : Option NaiveDate :=
  if minYear ≤ y ∧ y ≤ maxYear then fromYmdOpt y m d else none

def checkedPred (d : NaiveDate) : Option NaiveDate :=
  if minYear ≤ d.pred.year then some d.pred else none

def checkedLastDayOfMonth (year : Int) (month : Nat) : Option Nat := do
  let firstOfNext ←
    if month = 12 then (checkedI32 (year + 1)).bind fun next => checkedYmd next 1 1
    else checkedYmd year (month + 1) 1
  let last ← checkedPred firstOfNext
  pure last.day

def checkedAddMonthsClamped (base : NaiveDate) (months : Int) : Option NaiveDate := do
  let years ← checkedI32 (base.year * 12)
  let start ← checkedI32 (years + ((base.month : Int) - 1))
  let total ← checkedI32 (start + months)
  let year := total / 12
  let month := (total % 12 + 1).toNat
  let last ← checkedLastDayOfMonth year month
  checkedYmd year month (min base.day last)

def checkedFirstOccurrenceAfter (stored threshold : NaiveDate) (k : Nat) :
    Nat → Option (Option NaiveDate)
  | 0 => some none
  | n + 1 => do
      let candidate ← checkedAddMonthsClamped stored k
      if candidate > threshold then pure (some candidate)
      else checkedFirstOccurrenceAfter stored threshold (k + 1) n

def checkedAdvanceNextBilling (stored : Option NaiveDate) (payDate : NaiveDate) :
    Option NaiveDate :=
  match stored with
  | none => checkedAddMonthsClamped payDate 1
  | some stored => do
      let found ← checkedFirstOccurrenceAfter stored (max payDate stored) 1 maxCatchUpMonths
      match found with
      | some candidate => pure candidate
      | none => checkedAddMonthsClamped payDate 1

theorem checkedI32_of_natAbs_lt {n : Int} (h : n.natAbs < 2 ^ 31) : checkedI32 n = some n :=
  if_pos (by omega)

theorem checkedYmd_self {d : NaiveDate} (h : minYear ≤ d.year) (h' : d.year ≤ maxYear) :
    checkedYmd d.year d.month d.day = some d := by
  rw [checkedYmd, if_pos ⟨h, h'⟩, fromYmdOpt_self]

theorem checkedLastDayOfMonth_eq {year : Int} {month : Nat} (h : 1 ≤ month) (h' : month ≤ 12)
    (hmin : minYear ≤ year) (hmax : year * 12 + month < maxYear * 12 + 12) :
    checkedLastDayOfMonth year month = some (lastDayOfMonth year month h h') := by
  simp only [minYear, maxYear] at hmin hmax
  by_cases hm : month = 12
  · subst hm
    have hi32 := checkedI32_of_natAbs_lt (n := year + 1) (by omega)
    have hymd := checkedYmd_self (d := firstOfMonth (year + 1) 1 le_rfl (by decide))
      (by simp only [firstOfMonth, minYear]; omega) (by simp only [firstOfMonth, maxYear]; omega)
    have hpred : (firstOfMonth (year + 1) 1 le_rfl (by decide)).pred.year = year := by
      simp [firstOfMonth, pred]
    simp only [firstOfMonth] at hymd hpred
    simp only [checkedLastDayOfMonth, if_true, hi32, Option.bind_some, hymd, checkedPred, hpred,
      minYear, hmin, lastDayOfMonth, dif_pos, firstOfMonth, Option.bind_eq_bind, Option.pure_def]
  · have hymd := checkedYmd_self
      (d := firstOfMonth year (month + 1) (Nat.le_add_left 1 _) (by omega))
      (by simpa only [firstOfMonth, minYear] using hmin)
      (by simp only [firstOfMonth, maxYear]; omega)
    have hpred : (firstOfMonth year (month + 1) (Nat.le_add_left 1 _) (by omega)).pred.year =
        year := by
      simp [firstOfMonth, pred, Nat.pos_of_ne_zero (Nat.one_le_iff_ne_zero.mp h)]
    simp only [firstOfMonth] at hymd hpred
    simp only [checkedLastDayOfMonth, if_neg hm, hymd, checkedPred, hpred, minYear, hmin,
      lastDayOfMonth, dif_neg hm, firstOfMonth, Option.bind_eq_bind, Option.bind_some,
      Option.pure_def, if_true]

/-- A date from which months can be counted: any but those of the last year
that can be represented. -/
def Advanceable (d : NaiveDate) : Prop :=
  minYear ≤ d.year ∧ d.year < maxYear

theorem checkedAddMonthsClamped_eq {base : NaiveDate} {months : Int} (hbase : Advanceable base)
    (hpos : 0 ≤ months) (hmax : monthIndex base + months ≤ maxYear * 12) :
    checkedAddMonthsClamped base months = some (addMonthsClamped base months) := by
  obtain ⟨hmin, hlt⟩ := hbase
  have hmonth := base.month_pos
  have hmonth' := base.month_le
  simp only [monthIndex, minYear, maxYear] at hmin hlt hmax
  generalize htotal : base.year * 12 + ((base.month : Int) - 1) + months = total at hmax
  have hyears := checkedI32_of_natAbs_lt (n := base.year * 12) (by omega)
  have hstart := checkedI32_of_natAbs_lt (n := base.year * 12 + ((base.month : Int) - 1))
    (by omega)
  have hsum := checkedI32_of_natAbs_lt (n := total) (by omega)
  have hlast : checkedLastDayOfMonth (total / 12) (total % 12 + 1).toNat =
      some (lastDayOfMonth (total / 12) (total % 12 + 1).toNat (by omega) (by omega)) :=
    checkedLastDayOfMonth_eq (by omega) (by omega) (by simp only [minYear]; omega)
      (by simp only [maxYear]; omega)
  have hymd := checkedYmd_self (d := addMonthsClamped base months)
    (by simp only [addMonthsClamped, monthIndex, htotal, minYear]; omega)
    (by simp only [addMonthsClamped, monthIndex, htotal, maxYear]; omega)
  simp only [addMonthsClamped, monthIndex, htotal] at hymd ⊢
  simp only [checkedAddMonthsClamped, hyears, hstart, htotal, hsum, hlast, hymd,
    Option.bind_eq_bind, Option.bind_some]

theorem monthIndex_lt_of_advanceable {d : NaiveDate} (h : Advanceable d) :
    monthIndex d < maxYear * 12 := by
  obtain ⟨-, hlt⟩ := h
  have hmonth := d.month_le
  simp only [monthIndex, maxYear] at hlt ⊢
  omega

theorem checkedAddMonthsClamped_one {d : NaiveDate} (h : Advanceable d) :
    checkedAddMonthsClamped d 1 = some (addMonthsClamped d 1) :=
  checkedAddMonthsClamped_eq h (by decide) (monthIndex_lt_of_advanceable h)

theorem checkedFirstOccurrenceAfter_eq {stored threshold : NaiveDate} {k n : Nat} (hk : 1 ≤ k)
    (hstored : Advanceable stored) (hthreshold : Advanceable threshold)
    (hprev : addMonthsClamped stored ((k : Int) - 1) ≤ threshold) :
    checkedFirstOccurrenceAfter stored threshold k n =
      some (firstOccurrenceAfter stored threshold k n) := by
  induction n generalizing k with
  | zero => rfl
  | succ n ih =>
      have hindex := monthIndex_le_of_le hprev
      have hlt := monthIndex_lt_of_advanceable hthreshold
      rw [monthIndex_addMonthsClamped] at hindex
      have hadd : checkedAddMonthsClamped stored k = some (addMonthsClamped stored k) :=
        checkedAddMonthsClamped_eq hstored (by omega) (by omega)
      simp only [checkedFirstOccurrenceAfter, firstOccurrenceAfter, hadd, Option.bind_eq_bind,
        Option.bind_some]
      split
      · rfl
      · rename_i hle
        refine ih (Nat.le_add_left 1 k) ?_
        rw [Nat.cast_add, Nat.cast_one, add_sub_cancel_right]
        exact not_lt.mp hle

theorem checkedAdvanceNextBilling_eq {stored : Option NaiveDate} {payDate : NaiveDate}
    (hstored : ∀ s, stored = some s → Advanceable s) (hpay : Advanceable payDate) :
    checkedAdvanceNextBilling stored payDate = some (advanceNextBilling stored payDate) := by
  cases stored with
  | none => exact checkedAddMonthsClamped_one hpay
  | some s =>
      have hs := hstored s rfl
      have hmax : Advanceable (max payDate s) := by
        rcases le_total payDate s with h | h
        · rwa [max_eq_right h]
        · rwa [max_eq_left h]
      have hloop := checkedFirstOccurrenceAfter_eq (n := maxCatchUpMonths) (k := 1) le_rfl hs hmax
        (by
          rw [Nat.cast_one, sub_self, addMonthsClamped_zero]
          exact le_max_right _ _)
      simp only [checkedAdvanceNextBilling, advanceNextBilling, hloop, Option.bind_eq_bind,
        Option.bind_some]
      cases firstOccurrenceAfter s (max payDate s) 1 maxCatchUpMonths with
      | some candidate => rfl
      | none => exact checkedAddMonthsClamped_one hpay

/-- What a payment makes of the billing date. Without a stored date it is a
month after the payment. With one, it is the first monthly occurrence of the
stored date past both, if the loop reaches one, and a month after the payment
otherwise. -/
def BillsNext (stored : Option NaiveDate) (payDate next : NaiveDate) : Prop :=
  match stored with
  | none => next = addMonthsClamped payDate 1 ∧ payDate < next
  | some s =>
      max s payDate < next ∧
      ((Reaching s (max s payDate)).Nonempty → ∃ k, IsLeast (Reaching s (max s payDate)) k ∧
        next = addMonthsClamped s k ∧ next.day = min s.day (daysInMonth next.year next.month) ∧
        ∀ j : Int, ¬ (max s payDate < addMonthsClamped s j ∧ addMonthsClamped s j < next)) ∧
      (¬ (Reaching s (max s payDate)).Nonempty → next = addMonthsClamped payDate 1)

theorem billsNext_advanceNextBilling (stored : Option NaiveDate) (payDate : NaiveDate) :
    BillsNext stored payDate (advanceNextBilling stored payDate) := by
  cases stored with
  | none => exact ⟨rfl, lt_addMonthsClamped payDate (by decide)⟩
  | some s =>
      have hmax := max_comm payDate s
      refine ⟨max_lt (stored_lt_advanceNextBilling s payDate) (lt_advanceNextBilling _ payDate),
        fun hsome => ?_, fun hnone => advanceNextBilling_of_empty (by rwa [hmax])⟩
      obtain ⟨k, hk⟩ := exists_isLeast_of_nonempty hsome
      have hnext : advanceNextBilling (some s) payDate = addMonthsClamped s k :=
        advanceNextBilling_of_isLeast (by rwa [hmax])
      refine ⟨k, hk, hnext, ?_, fun j => ?_⟩
      · rw [hnext, day_addMonthsClamped, ← monthIndex_addMonthsClamped, monthLength_monthIndex]
      · rw [hnext]
        exact not_between_of_isLeast (le_max_left _ _) hk j

/-- Advancing a billing date past a payment neither panics nor overflows, and
yields the documented date. -/
theorem billsNext_of_advanceable (stored : Option NaiveDate) (payDate : NaiveDate)
    (hstored : ∀ s, stored = some s → Advanceable s) (hpay : Advanceable payDate) :
    ∃ next, checkedAdvanceNextBilling stored payDate = some next ∧
      next = advanceNextBilling stored payDate ∧ BillsNext stored payDate next :=
  ⟨_, checkedAdvanceNextBilling_eq hstored hpay, rfl, billsNext_advanceNextBilling stored payDate⟩

def january31 : NaiveDate :=
  lastOfMonth 2026 1 january_pos january_le

theorem billsNext_of_advanceable_monthEnd :
    ∃ next, checkedAdvanceNextBilling (some january31) january31 = some next ∧
      next = advanceNextBilling (some january31) january31 ∧
      BillsNext (some january31) january31 next :=
  billsNext_of_advanceable (some january31) january31
    (fun _ h => Option.some.inj h ▸ ⟨by decide, by decide⟩) ⟨by decide, by decide⟩

example : (advanceNextBilling (some january31) january31).day = 28 := by
  rfl

end PersonalDashboard.BillingAdvance
