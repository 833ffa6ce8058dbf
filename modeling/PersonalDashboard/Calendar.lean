import Mathlib.Order.Basic
import Mathlib.Order.Lattice
import Mathlib.Tactic.Push
import Mathlib.Algebra.Order.Ring.Int

/-! The proleptic Gregorian calendar: dates, their day numbers, successors,
weekdays and ISO weeks. -/

set_option autoImplicit false

namespace PersonalDashboard.Calendar

def isLeapYear (y : Int) : Bool :=
  y % 4 = 0 ∧ (y % 100 ≠ 0 ∨ y % 400 = 0)

def daysInMonth (y : Int) : Nat → Nat
  | 2 => if isLeapYear y then 29 else 28
  | 4 | 6 | 9 | 11 => 30
  | _ => 31

def daysInYear (y : Int) : Nat :=
  if isLeapYear y then 366 else 365

def daysBeforeYear (y : Int) : Int :=
  365 * (y - 1) + (y - 1) / 4 - (y - 1) / 100 + (y - 1) / 400

def daysBeforeMonth (y : Int) : Nat → Nat
  | 0 | 1 => 0
  | m + 2 => daysBeforeMonth y (m + 1) + daysInMonth y (m + 1)

theorem daysInMonth_pos (y : Int) (m : Nat) : 28 ≤ daysInMonth y m := by
  unfold daysInMonth
  split <;> try split
  all_goals omega

theorem daysInMonth_le (y : Int) (m : Nat) : daysInMonth y m ≤ 31 := by
  unfold daysInMonth
  split <;> try split
  all_goals omega

theorem daysBeforeYear_succ (y : Int) :
    daysBeforeYear (y + 1) = daysBeforeYear y + daysInYear y := by
  simp only [daysBeforeYear, daysInYear, isLeapYear, decide_eq_true_eq]
  split <;> omega

theorem daysBeforeYear_mono {y y' : Int} (h : y ≤ y') :
    daysBeforeYear y ≤ daysBeforeYear y' := by
  simp only [daysBeforeYear]
  omega

theorem daysBeforeMonth_succ (y : Int) {m : Nat} (h : 1 ≤ m) :
    daysBeforeMonth y (m + 1) = daysBeforeMonth y m + daysInMonth y m := by
  obtain ⟨m, rfl⟩ := Nat.exists_eq_add_of_le' h
  rfl

theorem daysBeforeMonth_mono (y : Int) {m m' : Nat} (h : m ≤ m') :
    daysBeforeMonth y m ≤ daysBeforeMonth y m' := by
  induction m', h using Nat.le_induction with
  | base => exact le_rfl
  | succ m' _ ih =>
      rcases Nat.eq_zero_or_pos m' with rfl | hpos
      · exact ih
      · rw [daysBeforeMonth_succ y hpos]
        omega

theorem daysBeforeMonth_thirteen (y : Int) : daysBeforeMonth y 13 = daysInYear y := by
  simp only [daysBeforeMonth, daysInMonth, daysInYear]
  split <;> rfl

@[ext]
structure NaiveDate where
  year : Int
  month : Nat
  day : Nat
  month_pos : 1 ≤ month
  month_le : month ≤ 12
  day_pos : 1 ≤ day
  day_le : day ≤ daysInMonth year month
  deriving Repr

namespace NaiveDate

/-- The day number of a date, 1 for 0001-01-01. -/
def numDaysFromCe (d : NaiveDate) : Int :=
  daysBeforeYear d.year + daysBeforeMonth d.year d.month + d.day

theorem numDaysFromCe_lt_of_month_lt {d e : NaiveDate} (hy : d.year = e.year)
    (hm : d.month < e.month) : d.numDaysFromCe < e.numDaysFromCe := by
  have hd := d.day_le
  have he := e.day_pos
  have hsucc := daysBeforeMonth_succ d.year d.month_pos
  have hmono := daysBeforeMonth_mono d.year (show d.month + 1 ≤ e.month from hm)
  simp only [numDaysFromCe, ← hy]
  omega

theorem numDaysFromCe_le_daysInYear (d : NaiveDate) :
    d.numDaysFromCe ≤ daysBeforeYear d.year + daysInYear d.year := by
  have hd := d.day_le
  have hsucc := daysBeforeMonth_succ d.year d.month_pos
  have hmono := daysBeforeMonth_mono d.year (Nat.add_le_add_right d.month_le 1)
  have htotal : daysBeforeMonth d.year (12 + 1) = _ := daysBeforeMonth_thirteen d.year
  simp only [numDaysFromCe]
  omega

theorem numDaysFromCe_lt_of_year_lt {d e : NaiveDate} (hy : d.year < e.year) :
    d.numDaysFromCe < e.numDaysFromCe := by
  have hle := d.numDaysFromCe_le_daysInYear
  have hsucc := daysBeforeYear_succ d.year
  have hmono := daysBeforeYear_mono (Int.add_one_le_of_lt hy)
  have he := e.day_pos
  have hlt : daysBeforeYear e.year < e.numDaysFromCe := by
    simp only [numDaysFromCe]
    omega
  omega

theorem numDaysFromCe_injective : Function.Injective numDaysFromCe := by
  intro d e h
  have hyear : d.year = e.year := by
    rcases lt_trichotomy d.year e.year with hlt | heq | hgt
    · exact absurd h (ne_of_lt (numDaysFromCe_lt_of_year_lt hlt))
    · exact heq
    · exact absurd h (ne_of_gt (numDaysFromCe_lt_of_year_lt hgt))
  have hmonth : d.month = e.month := by
    rcases lt_trichotomy d.month e.month with hlt | heq | hgt
    · exact absurd h (ne_of_lt (numDaysFromCe_lt_of_month_lt hyear hlt))
    · exact heq
    · exact absurd h (ne_of_gt (numDaysFromCe_lt_of_month_lt hyear.symm hgt))
  have hday : d.day = e.day := by
    simp only [numDaysFromCe, hyear, hmonth] at h
    omega
  exact NaiveDate.ext hyear hmonth hday

instance : LinearOrder NaiveDate :=
  LinearOrder.lift' numDaysFromCe numDaysFromCe_injective

theorem lt_iff {d e : NaiveDate} : d < e ↔ d.numDaysFromCe < e.numDaysFromCe :=
  Iff.rfl

theorem le_iff {d e : NaiveDate} : d ≤ e ↔ d.numDaysFromCe ≤ e.numDaysFromCe :=
  Iff.rfl

/-- The date of a year, a month and a day, when there is one. -/
def fromYmdOpt (y : Int) (m d : Nat) : Option NaiveDate :=
  if h : 1 ≤ m ∧ m ≤ 12 ∧ 1 ≤ d ∧ d ≤ daysInMonth y m then
    some ⟨y, m, d, h.1, h.2.1, h.2.2.1, h.2.2.2⟩
  else none

theorem fromYmdOpt_self (d : NaiveDate) : fromYmdOpt d.year d.month d.day = some d :=
  dif_pos ⟨d.month_pos, d.month_le, d.day_pos, d.day_le⟩

theorem january_pos : 1 ≤ 1 :=
  le_rfl

theorem january_le : 1 ≤ 12 := by
  decide

theorem december_le : 12 ≤ 12 :=
  le_rfl

def firstOfMonth (y : Int) (m : Nat) (h : 1 ≤ m) (h' : m ≤ 12) : NaiveDate :=
  ⟨y, m, 1, h, h', le_rfl, by have := daysInMonth_pos y m; omega⟩

def succ (d : NaiveDate) : NaiveDate :=
  if h : d.day < daysInMonth d.year d.month then
    ⟨d.year, d.month, d.day + 1, d.month_pos, d.month_le, Nat.le_add_left 1 _, h⟩
  else if h : d.month < 12 then firstOfMonth d.year (d.month + 1) (Nat.le_add_left 1 _) h
  else firstOfMonth (d.year + 1) 1 le_rfl (by decide)

def lastOfMonth (y : Int) (m : Nat) (h : 1 ≤ m) (h' : m ≤ 12) : NaiveDate :=
  ⟨y, m, daysInMonth y m, h, h', by have := daysInMonth_pos y m; omega, le_rfl⟩

def pred (d : NaiveDate) : NaiveDate :=
  if h : 1 < d.day then
    ⟨d.year, d.month, d.day - 1, d.month_pos, d.month_le, Nat.le_sub_one_of_lt h,
      (Nat.sub_le _ _).trans d.day_le⟩
  else if h : 1 < d.month then
    ⟨d.year, d.month - 1, daysInMonth d.year (d.month - 1), Nat.le_sub_one_of_lt h,
      (Nat.sub_le _ _).trans d.month_le,
      by have := daysInMonth_pos d.year (d.month - 1); omega, le_rfl⟩
  else ⟨d.year - 1, 12, 31, by decide, le_rfl, by decide, le_rfl⟩

@[simp]
theorem numDaysFromCe_succ (d : NaiveDate) : d.succ.numDaysFromCe = d.numDaysFromCe + 1 := by
  have hle := d.day_le
  have hmonth := d.month_le
  unfold succ
  split
  · simp only [numDaysFromCe]
    omega
  split
  · have hsucc := daysBeforeMonth_succ d.year d.month_pos
    simp only [numDaysFromCe, firstOfMonth]
    omega
  · have hm : d.month = 12 := by omega
    have hyear := daysBeforeYear_succ d.year
    have htotal : daysBeforeMonth d.year (12 + 1) = _ := daysBeforeMonth_thirteen d.year
    have hsucc := daysBeforeMonth_succ d.year d.month_pos
    have hone : daysBeforeMonth (d.year + 1) 1 = 0 := rfl
    simp only [numDaysFromCe, firstOfMonth, hone]
    simp only [hm] at *
    omega

@[simp]
theorem numDaysFromCe_pred (d : NaiveDate) : d.pred.numDaysFromCe = d.numDaysFromCe - 1 := by
  have hpos := d.day_pos
  have hmonth := d.month_pos
  unfold pred
  split
  · simp only [numDaysFromCe]
    omega
  split
  · have hsucc := daysBeforeMonth_succ d.year (show 1 ≤ d.month - 1 by omega)
    rw [Nat.sub_add_cancel hmonth] at hsucc
    simp only [numDaysFromCe]
    omega
  · have hm : d.month = 1 := by omega
    have hyear := daysBeforeYear_succ (d.year - 1)
    have htotal := daysBeforeMonth_thirteen (d.year - 1)
    have hsucc : daysBeforeMonth (d.year - 1) 13 = daysBeforeMonth (d.year - 1) 12 + 31 := rfl
    have hone : daysBeforeMonth d.year 1 = 0 := rfl
    rw [Int.sub_add_cancel] at hyear
    simp only [numDaysFromCe, hm, hone]
    omega

theorem numDaysFromCe_surjective : Function.Surjective numDaysFromCe := by
  have hzero : (firstOfMonth 1 1 le_rfl (by decide)).pred.numDaysFromCe = 0 := by decide
  intro n
  induction n using Int.induction_on with
  | zero => exact ⟨_, hzero⟩
  | succ n ih =>
      obtain ⟨d, hd⟩ := ih
      exact ⟨d.succ, by rw [numDaysFromCe_succ, hd]⟩
  | pred n ih =>
      obtain ⟨d, hd⟩ := ih
      exact ⟨d.pred, by rw [numDaysFromCe_pred, hd]⟩

def addDays (d : NaiveDate) : Nat → NaiveDate
  | 0 => d
  | n + 1 => (d.addDays n).succ

def subDays (d : NaiveDate) : Nat → NaiveDate
  | 0 => d
  | n + 1 => (d.subDays n).pred

@[simp]
theorem numDaysFromCe_addDays (d : NaiveDate) (n : Nat) :
    (d.addDays n).numDaysFromCe = d.numDaysFromCe + n := by
  induction n with
  | zero => simp [addDays]
  | succ n ih =>
      simp only [addDays, numDaysFromCe_succ, ih]
      omega

@[simp]
theorem numDaysFromCe_subDays (d : NaiveDate) (n : Nat) :
    (d.subDays n).numDaysFromCe = d.numDaysFromCe - n := by
  induction n with
  | zero => simp [subDays]
  | succ n ih =>
      simp only [subDays, numDaysFromCe_pred, ih]
      omega

/-- The day of the week, 0 for Sunday to 6 for Saturday. -/
def numDaysFromSunday (d : NaiveDate) : Nat :=
  (d.numDaysFromCe % 7).toNat

/-- The day of the week, 0 for Monday to 6 for Sunday. -/
def numDaysFromMonday (d : NaiveDate) : Nat :=
  ((d.numDaysFromCe - 1) % 7).toNat

theorem numDaysFromMonday_eq (d : NaiveDate) :
    d.numDaysFromMonday = (d.numDaysFromSunday + 6) % 7 := by
  simp only [numDaysFromMonday, numDaysFromSunday]
  omega

theorem lt_succ_iff {d e : NaiveDate} : d < e.succ ↔ d ≤ e := by
  rw [lt_iff, le_iff, numDaysFromCe_succ]
  omega

end NaiveDate

end PersonalDashboard.Calendar
