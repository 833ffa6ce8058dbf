import PersonalDashboard.Schema
import Mathlib.Algebra.Order.Ring.Int
import Mathlib.Data.Prod.Lex

/-! Instants as the server parses and compares them, and as a column keeps
them. -/

set_option autoImplicit false

namespace PersonalDashboard.Instants

open PersonalDashboard.Schema

/-- `DateTime<Utc>`: seconds since 1970 and nanoseconds. In a leap second, which
a minute may end with, the nanoseconds go on beyond a second. -/
@[ext]
structure DateTime where
  secs : Int
  frac : Nat
  frac_lt : frac < 2_000_000_000
  leap : 1_000_000_000 ≤ frac → secs % 60 = 59
  deriving DecidableEq, Repr

namespace DateTime

def IsLeap (d : DateTime) : Prop :=
  1_000_000_000 ≤ d.frac

instance (d : DateTime) : Decidable d.IsLeap :=
  inferInstanceAs (Decidable (1_000_000_000 ≤ d.frac))

/-- The fields in the order in which they are compared. -/
def fields (d : DateTime) : ℤ ×ₗ ℕ :=
  toLex (d.secs, d.frac)

theorem fields_injective : Function.Injective fields := by
  intro d e h
  obtain ⟨hsecs, hfrac⟩ := Prod.mk.inj (toLex_inj.mp h)
  exact DateTime.ext hsecs hfrac

instance : LinearOrder DateTime :=
  LinearOrder.lift' fields fields_injective

theorem lt_iff {d e : DateTime} :
    d < e ↔ d.secs < e.secs ∨ d.secs = e.secs ∧ d.frac < e.frac :=
  Prod.Lex.lt_iff

/-- The nanoseconds since 1970 that a difference of instants counts. -/
def elapsed (d : DateTime) : Int :=
  d.secs * 1_000_000_000 + d.frac

theorem elapsed_lt_of_lt {d e : DateTime} (h : d < e) (hleap : ¬ d.IsLeap) :
    d.elapsed < e.elapsed := by
  simp only [IsLeap, not_le] at hleap
  simp only [elapsed]
  rcases lt_iff.mp h with h | ⟨h, hfrac⟩ <;> omega

/-- 2000-01-01, from which a column counts. -/
def postgresEpoch : Timestamp :=
  946_684_800_000_000

/-- The microseconds that are bound for an instant; the distance from the
epoch of the column is cut, not rounded. -/
def toMicros (d : DateTime) : Timestamp :=
  postgresEpoch + (d.elapsed - postgresEpoch * 1000).tdiv 1000

theorem toMicros_le_toMicros {d e : DateTime} (h : d.elapsed ≤ e.elapsed) :
    d.toMicros ≤ e.toMicros := by
  have hdiv := Int.tdiv_le_tdiv (show (0 : Int) < 1000 by decide)
    (Int.sub_le_sub_right h (postgresEpoch * 1000))
  exact Int.add_le_add_left hdiv _

def ofMicros (t : Timestamp) : DateTime where
  secs := t / 1_000_000
  frac := (t % 1_000_000).toNat * 1000
  frac_lt := by omega
  leap h := by omega

theorem elapsed_ofMicros (t : Timestamp) : (ofMicros t).elapsed = t * 1000 := by
  simp only [elapsed, ofMicros]
  omega

theorem toMicros_ofMicros (t : Timestamp) : (ofMicros t).toMicros = t := by
  rw [toMicros, elapsed_ofMicros, ← Int.sub_mul, Int.mul_tdiv_cancel _ (by decide)]
  exact add_sub_cancel _ _

theorem ofMicros_lt_ofMicros {t u : Timestamp} (h : t < u) : ofMicros t < ofMicros u := by
  have hfields : ∀ a b : Int, a < b → a / 1_000_000 < b / 1_000_000 ∨
      a / 1_000_000 = b / 1_000_000 ∧
        (a % 1_000_000).toNat * 1000 < (b % 1_000_000).toNat * 1000 := by
    intro a b hlt
    omega
  exact lt_iff.mpr (hfields t u h)

/-- Two instants in order that are still in order when they are stored: they
are not cut to one microsecond, and the first does not last, as a leap second,
past the other. -/
def Apart (d e : DateTime) : Prop :=
  d.toMicros ≠ e.toMicros ∧ (d.IsLeap → d.elapsed ≤ e.elapsed)

instance (d e : DateTime) : Decidable (Apart d e) :=
  inferInstanceAs (Decidable (_ ∧ _))

theorem toMicros_lt_toMicros {d e : DateTime} (h : d < e) (hapart : Apart d e) :
    d.toMicros < e.toMicros := by
  have helapsed : d.elapsed ≤ e.elapsed := by
    by_cases hleap : d.IsLeap
    · exact hapart.2 hleap
    · exact (elapsed_lt_of_lt h hleap).le
  exact lt_of_le_of_ne (toMicros_le_toMicros helapsed) hapart.1

end DateTime

end PersonalDashboard.Instants
