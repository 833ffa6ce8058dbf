import PersonalDashboard.HabitStreak
import PersonalDashboard.JsDate
import PersonalDashboard.TaskViews
import Mathlib.Data.List.Sort

/-! The days between two dates, as the loops of the habit statistics run through them. -/

set_option autoImplicit false

namespace PersonalDashboard.HabitDays

open PersonalDashboard.Calendar
open PersonalDashboard.Calendar.NaiveDate
open PersonalDashboard.DateStrings
open PersonalDashboard.JsDate
open PersonalDashboard.TaskViews

/-- `new Date(ms).toISOString().slice(0, 10)`. -/
def ymd (ms : Int) : String :=
  isoDate ms

/-- The time of a day that exists, not a number for any other string; the engine also
gives a time for `2026-02-30`, as that of March 2. -/
def toMs (date : String) : Option Int := do
  let (year, month, day) ← matchDate date
  let d ← fromYmdOpt year month day
  pure (midnight d)

def dow (ms : Int) : Nat :=
  getUTCDay ms

/-- The values of `ms` in `for (let ms = lo; ms <= hi; ms += DAY_MS)`. -/
def msUpTo (lo hi : Int) : List Int :=
  (List.range ((hi - lo) / msPerDay + 1).toNat).map fun (i : Nat) => lo + i * msPerDay

/-- The values of `ms` in `while (ms >= lo)` from `hi` on, with `ms -= DAY_MS`. -/
def msDownTo (lo hi : Int) : List Int :=
  (List.range ((hi - lo) / msPerDay + 1).toNat).map fun (i : Nat) => hi - i * msPerDay

def dates (lo hi : NaiveDate) : List NaiveDate :=
  (List.range (hi.numDaysFromCe - lo.numDaysFromCe + 1).toNat).map fun (i : Nat) =>
    ofNumDaysFromCe (lo.numDaysFromCe + i)

variable {lo hi d : NaiveDate}

theorem mem_dates : d ∈ dates lo hi ↔ lo ≤ d ∧ d ≤ hi := by
  simp only [dates, List.mem_map, List.mem_range, le_iff]
  constructor
  · rintro ⟨i, hi', rfl⟩
    rw [numDaysFromCe_ofNumDaysFromCe]
    omega
  · rintro ⟨hlo, hhi⟩
    refine ⟨(d.numDaysFromCe - lo.numDaysFromCe).toNat, by omega, ?_⟩
    rw [Int.toNat_of_nonneg (by omega), add_sub_cancel, ofNumDaysFromCe_numDaysFromCe]

theorem pairwise_dates (lo hi : NaiveDate) : (dates lo hi).Pairwise (· < ·) := by
  rw [dates, List.pairwise_map]
  refine List.pairwise_lt_range.imp fun {i j} hij => ?_
  rw [lt_iff, numDaysFromCe_ofNumDaysFromCe, numDaysFromCe_ofNumDaysFromCe]
  omega

theorem filter_dates {e : NaiveDate} (h : e ≤ hi) : (dates lo hi).filter (· ≤ e) = dates lo e := by
  refine List.Pairwise.eq_of_mem_iff ((pairwise_dates lo hi).filter _) (pairwise_dates lo e) ?_
  intro d
  rw [List.mem_filter, mem_dates, mem_dates, decide_eq_true_eq]
  exact ⟨fun hd => ⟨hd.1.1, hd.2⟩, fun hd => ⟨⟨hd.1, hd.2.trans h⟩, hd.2⟩⟩

theorem dates_isPrefix {e : NaiveDate} (h : e ≤ hi) : dates lo e <+: dates lo hi := by
  rw [le_iff] at h
  refine List.IsPrefix.map _ ?_
  rw [List.prefix_iff_eq_take, List.length_range, List.take_range, min_eq_left (by omega)]

theorem isYmd_of_mem_dates (hlo : IsYmd lo) (hhi : IsYmd hi) (h : d ∈ dates lo hi) : IsYmd d := by
  obtain ⟨hle, hle'⟩ := mem_dates.mp h
  exact ⟨hlo.1.trans (year_le_year hle), (year_le_year hle').trans hhi.2⟩

theorem toMs_formatYmd (h : IsYmd d) : toMs (formatYmd d) = some (midnight d) := by
  have hyear : (d.year.natAbs : Int) = d.year := Int.natAbs_of_nonneg h.1
  simp only [toMs, matchDate_formatYmd h.1 h.2, Option.bind_eq_bind, Option.bind_some, hyear,
    fromYmdOpt_self, Option.pure_def]

theorem ymd_midnight (h : IsYmd d) : ymd (midnight d) = formatYmd d :=
  isoDate_midnight h.1 h.2

theorem dow_midnight (d : NaiveDate) : dow (midnight d) = d.numDaysFromSunday := by
  rw [dow, getUTCDay, utcDate_midnight]

theorem midnight_sub (lo hi : NaiveDate) :
    (midnight hi - midnight lo) / msPerDay = hi.numDaysFromCe - lo.numDaysFromCe := by
  rw [midnight, midnight, ← Int.sub_mul, Int.mul_ediv_cancel _ (by decide)]
  omega

theorem midnight_ofNumDaysFromCe (n i : Int) :
    midnight (ofNumDaysFromCe (n + i)) = (n - epoch) * msPerDay + i * msPerDay := by
  rw [midnight, numDaysFromCe_ofNumDaysFromCe, ← Int.add_mul]
  congr 1
  omega

theorem midnight_le_iff : midnight lo ≤ midnight hi ↔ lo ≤ hi := by
  rw [le_iff, midnight, midnight]
  have hpos : 0 < msPerDay := by decide
  rw [Int.mul_le_mul_iff_of_pos_right hpos]
  omega

theorem msUpTo_midnight (lo hi : NaiveDate) :
    msUpTo (midnight lo) (midnight hi) = (dates lo hi).map midnight := by
  rw [msUpTo, midnight_sub, dates, List.map_map]
  refine List.map_congr_left fun i _ => ?_
  rw [Function.comp_apply, midnight_ofNumDaysFromCe, midnight]

theorem msDownTo_midnight (lo hi : NaiveDate) :
    msDownTo (midnight lo) (midnight hi) = (dates lo hi).reverse.map midnight := by
  have hdown : msDownTo (midnight lo) (midnight hi) =
      ((List.range (hi.numDaysFromCe - lo.numDaysFromCe + 1).toNat).map fun (i : Nat) =>
        ofNumDaysFromCe (hi.numDaysFromCe + -(i : Int))).map midnight := by
    rw [msDownTo, midnight_sub, List.map_map]
    refine List.map_congr_left fun i _ => ?_
    rw [Function.comp_apply, midnight_ofNumDaysFromCe, midnight, Int.neg_mul, Int.sub_eq_add_neg]
  rw [hdown]
  congr 1
  refine List.Pairwise.eq_of_mem_iff (r := (· > ·)) ?_ ?_ fun d => ?_
  · rw [List.pairwise_map]
    refine List.pairwise_lt_range.imp fun {i j} hij => ?_
    rw [gt_iff_lt, lt_iff, numDaysFromCe_ofNumDaysFromCe, numDaysFromCe_ofNumDaysFromCe]
    omega
  · rw [List.pairwise_reverse]
    exact pairwise_dates lo hi
  · rw [List.mem_reverse, mem_dates]
    simp only [List.mem_map, List.mem_range, le_iff]
    constructor
    · rintro ⟨i, hi', rfl⟩
      rw [numDaysFromCe_ofNumDaysFromCe]
      omega
    · rintro ⟨hlo, hhi⟩
      refine ⟨(hi.numDaysFromCe - d.numDaysFromCe).toNat, by omega, ?_⟩
      rw [Int.toNat_of_nonneg (by omega), Int.neg_sub, add_sub_cancel,
        ofNumDaysFromCe_numDaysFromCe]

end PersonalDashboard.HabitDays
