import Mathlib.Algebra.Order.Floor.Ring
import Mathlib.Data.Int.Log
import Mathlib.Data.Rat.Floor
import Mathlib.Tactic.Linarith
import Mathlib.Tactic.Positivity

/-! Binary64 arithmetic on rationals: an operation is the exact one, rounded to the
nearest double, ties to even. Numbers beyond the greatest double stay finite here. -/

set_option autoImplicit false

namespace PersonalDashboard.Binary64

def nearestEven (x : ℚ) : ℤ :=
  if Int.fract x < 1 / 2 then ⌊x⌋
  else if 1 / 2 < Int.fract x then ⌊x⌋ + 1
  else if ⌊x⌋ % 2 = 0 then ⌊x⌋
  else ⌊x⌋ + 1

/-- The exponent of the last place; below `-1074` there are no doubles. -/
def exponent (x : ℚ) : ℤ :=
  max (Int.log 2 |x| - 52) (-1074)

def roundTo (e : ℤ) (x : ℚ) : ℚ :=
  nearestEven (x / 2 ^ e) * 2 ^ e

/-- The double nearest to a number. -/
def double (x : ℚ) : ℚ :=
  roundTo (exponent x) x

def IsDouble (x : ℚ) : Prop :=
  ∃ m e : ℤ, |m| < 2 ^ 53 ∧ -1074 ≤ e ∧ x = m * 2 ^ e

theorem floor_le_nearestEven (x : ℚ) : ⌊x⌋ ≤ nearestEven x := by
  unfold nearestEven
  split_ifs <;> omega

theorem nearestEven_le (x : ℚ) : nearestEven x ≤ ⌊x⌋ + 1 := by
  unfold nearestEven
  split_ifs <;> omega

theorem nearestEven_mono {x y : ℚ} (h : x ≤ y) : nearestEven x ≤ nearestEven y := by
  rcases (Int.floor_le_floor h).lt_or_eq with hlt | heq
  · exact (nearestEven_le x).trans ((Int.add_one_le_of_lt hlt).trans (floor_le_nearestEven y))
  · have hfract : Int.fract x ≤ Int.fract y := by
      rw [Int.fract, Int.fract, heq]
      exact sub_le_sub_right h _
    unfold nearestEven
    rw [heq]
    split_ifs <;> first | omega | linarith

@[simp]
theorem nearestEven_intCast (n : ℤ) : nearestEven n = n := by
  rw [nearestEven, Int.fract_intCast, if_pos (by norm_num), Int.floor_intCast]

theorem two_zpow_pos (e : ℤ) : (0 : ℚ) < 2 ^ e :=
  zpow_pos (by norm_num) e

theorem roundTo_mono (e : ℤ) {x y : ℚ} (h : x ≤ y) : roundTo e x ≤ roundTo e y := by
  have hdiv : x / 2 ^ e ≤ y / 2 ^ e := div_le_div_of_nonneg_right h (two_zpow_pos e).le
  exact mul_le_mul_of_nonneg_right (Int.cast_le.mpr (nearestEven_mono hdiv)) (two_zpow_pos e).le

theorem roundTo_of_le {e e' : ℤ} (h : e ≤ e') (m : ℤ) :
    roundTo e (m * 2 ^ e') = m * 2 ^ e' := by
  obtain ⟨n, rfl⟩ := Int.le.dest h
  have hgrid : (m : ℚ) * 2 ^ (e + n) = ((m * 2 ^ n : ℤ) : ℚ) * 2 ^ e := by
    rw [zpow_add₀ (by norm_num), zpow_natCast]
    push_cast
    ring
  rw [hgrid, roundTo, mul_div_cancel_right₀ _ (two_zpow_pos e).ne', nearestEven_intCast]

theorem exponent_mono {x y : ℚ} (hx : 0 < x) (h : x ≤ y) : exponent x ≤ exponent y := by
  rw [exponent, exponent, abs_of_pos hx, abs_of_pos (hx.trans_le h)]
  exact max_le_max_right _ (sub_le_sub_right (Int.log_mono_right hx h) 52)

@[simp]
theorem double_zero : double 0 = 0 := by
  have hzero := roundTo_of_le (le_refl (exponent 0)) 0
  rwa [Int.cast_zero, zero_mul] at hzero

theorem double_eq {x : ℚ} (h : IsDouble x) : double x = x := by
  obtain ⟨m, e, hm, he, rfl⟩ := h
  rcases eq_or_ne m 0 with rfl | hne
  · rw [Int.cast_zero, zero_mul, double_zero]
  refine roundTo_of_le (max_le ?_ he) m
  have hpos : 0 < |(m : ℚ) * 2 ^ e| :=
    abs_pos.mpr (mul_ne_zero (Int.cast_ne_zero.mpr hne) (two_zpow_pos e).ne')
  have hlt : |(m : ℚ) * 2 ^ e| < 2 ^ (e + 53) := by
    rw [abs_mul, abs_of_pos (two_zpow_pos e), zpow_add₀ (by norm_num), mul_comm]
    exact mul_lt_mul_of_pos_left (by exact_mod_cast hm) (two_zpow_pos e)
  have hlog := (Int.lt_zpow_iff_log_lt Nat.one_lt_two hpos).mp (by exact_mod_cast hlt)
  omega

/-- Rounding keeps the order. Where the exponents differ, a power of two lies between. -/
theorem double_mono {x y : ℚ} (hx : 0 ≤ x) (h : x ≤ y) : double x ≤ double y := by
  rcases hx.eq_or_lt with rfl | hpos
  · rw [double_zero, double]
    have hround := roundTo_mono (exponent y) h
    rwa [← zero_mul ((2 : ℚ) ^ exponent y), ← Int.cast_zero, roundTo_of_le le_rfl, Int.cast_zero,
      zero_mul] at hround
  have hpos' := hpos.trans_le h
  rcases (exponent_mono hpos h).eq_or_lt with heq | hlt
  · rw [double, double, heq]
    exact roundTo_mono _ h
  have hx' : exponent x = max (Int.log 2 x - 52) (-1074) := by rw [exponent, abs_of_pos hpos]
  have hy' : exponent y = max (Int.log 2 y - 52) (-1074) := by rw [exponent, abs_of_pos hpos']
  have hbelow : x ≤ 2 ^ Int.log 2 y :=
    (by exact_mod_cast (Int.lt_zpow_iff_log_lt Nat.one_lt_two hpos).mpr (by omega) : x < _).le
  have habove : 2 ^ Int.log 2 y ≤ y := by exact_mod_cast Int.zpow_log_le_self Nat.one_lt_two hpos'
  have hgrid : ∀ e ≤ Int.log 2 y, roundTo e (2 ^ Int.log 2 y) = 2 ^ Int.log 2 y := by
    intro e he
    have hone := roundTo_of_le he 1
    rwa [Int.cast_one, one_mul] at hone
  calc double x ≤ roundTo (exponent x) (2 ^ Int.log 2 y) := roundTo_mono _ hbelow
    _ = 2 ^ Int.log 2 y := hgrid _ (by omega)
    _ = roundTo (exponent y) (2 ^ Int.log 2 y) := (hgrid _ (by omega)).symm
    _ ≤ double y := roundTo_mono _ habove

theorem double_nonneg {x : ℚ} (h : 0 ≤ x) : 0 ≤ double x := by
  rw [← double_zero]
  exact double_mono le_rfl h

theorem double_le {x y : ℚ} (hx : 0 ≤ x) (h : x ≤ y) (hy : IsDouble y) : double x ≤ y :=
  (double_mono hx h).trans (double_eq hy).le

theorem isDouble_div (m : Nat) {n : Nat} (hm : m < 2 ^ 53) (hn : n ≤ 1074) :
    IsDouble (m / 2 ^ n) := by
  refine ⟨m, -n, by rw [Nat.abs_cast]; exact_mod_cast hm, by omega, ?_⟩
  rw [zpow_neg, zpow_natCast, Int.cast_natCast, div_eq_mul_inv]

theorem isDouble_natCast {n : Nat} (h : n < 2 ^ 53) : IsDouble n := by
  have hdiv := isDouble_div n h (Nat.zero_le 1074)
  rwa [pow_zero, div_one] at hdiv

/-- A list of doubles, added up from the left. -/
def sum (values : List ℚ) : ℚ :=
  values.foldl (fun sum value => double (sum + value)) 0

theorem foldl_bounds {bound : ℚ} {values : List ℚ} {n : Nat} {acc : ℚ}
    (hvalues : ∀ v ∈ values, 0 ≤ v ∧ v ≤ bound)
    (hdouble : ∀ k ≤ n + values.length, IsDouble (k * bound))
    (hacc : 0 ≤ acc) (hacc' : acc ≤ n * bound) :
    0 ≤ values.foldl (fun sum value => double (sum + value)) acc ∧
      values.foldl (fun sum value => double (sum + value)) acc ≤
        ((n + values.length : Nat) : ℚ) * bound := by
  induction values generalizing n acc with
  | nil => exact ⟨hacc, hacc'⟩
  | cons v values ih =>
      obtain ⟨⟨hv, hv'⟩, hvalues⟩ := List.forall_mem_cons.mp hvalues
      rw [List.length_cons, Nat.add_comm values.length, ← Nat.add_assoc] at hdouble ⊢
      have hsum : 0 ≤ acc + v := add_nonneg hacc hv
      have hle : acc + v ≤ ((n + 1 : Nat) : ℚ) * bound := by
        push_cast
        linarith
      exact ih hvalues hdouble (double_nonneg hsum)
        (double_le hsum hle (hdouble (n + 1) (Nat.le_add_right _ _)))

theorem sum_bounds {bound : ℚ} {values : List ℚ} (hvalues : ∀ v ∈ values, 0 ≤ v ∧ v ≤ bound)
    (hdouble : ∀ k ≤ values.length, IsDouble ((k : Nat) * bound)) :
    0 ≤ sum values ∧ sum values ≤ values.length * bound := by
  have hsum := foldl_bounds (n := 0) hvalues (by rwa [Nat.zero_add]) le_rfl (by simp)
  rwa [Nat.zero_add] at hsum

end PersonalDashboard.Binary64
