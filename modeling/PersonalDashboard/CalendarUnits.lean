import PersonalDashboard.Calendar
import Mathlib.Data.List.Chain
import Mathlib.Data.List.Pairwise

/-! Days, ISO weeks, months and years as units that partition the calendar. -/

set_option autoImplicit false

namespace PersonalDashboard.CalendarUnits

open PersonalDashboard.Calendar
open PersonalDashboard.Calendar.NaiveDate

inductive CalendarUnit where
  | day
  | week
  | month
  | year
  deriving DecidableEq, Repr

namespace CalendarUnit

/-- The first day of the unit that contains a date; a week starts on Monday. -/
def firstDay : CalendarUnit → NaiveDate → NaiveDate
  | day, d => d
  | week, d => d.subDays d.numDaysFromMonday
  | month, d => firstOfMonth d.year d.month d.month_pos d.month_le
  | year, d => firstOfMonth d.year 1 january_pos january_le

def lastDay : CalendarUnit → NaiveDate → NaiveDate
  | day, d => d
  | week, d => d.addDays (6 - d.numDaysFromMonday)
  | month, d => lastOfMonth d.year d.month d.month_pos d.month_le
  | year, d => lastOfMonth d.year 12 january_le december_le

def next (u : CalendarUnit) (d : NaiveDate) : NaiveDate :=
  (u.lastDay d).succ

theorem numDaysFromMonday_le (d : NaiveDate) : d.numDaysFromMonday ≤ 6 := by
  simp only [numDaysFromMonday]
  omega

theorem firstDay_le (u : CalendarUnit) (d : NaiveDate) : u.firstDay d ≤ d := by
  have hday := d.day_pos
  have hmonth := daysBeforeMonth_mono d.year d.month_pos
  rw [le_iff]
  cases u with
  | day => exact le_rfl
  | week =>
      rw [firstDay, numDaysFromCe_subDays]
      omega
  | month =>
      simp only [firstDay, firstOfMonth, numDaysFromCe]
      omega
  | year =>
      simp only [firstDay, firstOfMonth, numDaysFromCe]
      omega

theorem le_lastDay (u : CalendarUnit) (d : NaiveDate) : d ≤ u.lastDay d := by
  have hday := d.day_le
  rw [le_iff]
  cases u with
  | day => exact le_rfl
  | week =>
      rw [lastDay, numDaysFromCe_addDays]
      omega
  | month =>
      simp only [lastDay, lastOfMonth, numDaysFromCe]
      omega
  | year =>
      have hle := d.numDaysFromCe_le_daysInYear
      have htotal := daysBeforeMonth_thirteen d.year
      have hsucc : daysBeforeMonth d.year 13 = daysBeforeMonth d.year 12 + 31 := rfl
      have hdec : daysInMonth d.year 12 = 31 := rfl
      simp only [lastDay, lastOfMonth, numDaysFromCe] at hle ⊢
      omega

theorem year_eq_of_between {d e : NaiveDate} (hfirst : year.firstDay d ≤ e)
    (hlast : e ≤ year.lastDay d) : e.year = d.year := by
  rcases lt_trichotomy e.year d.year with hlt | heq | hgt
  · exact absurd (numDaysFromCe_lt_of_year_lt (e := year.firstDay d) hlt) (not_lt_of_ge hfirst)
  · exact heq
  · exact absurd (numDaysFromCe_lt_of_year_lt (d := year.lastDay d) hgt) (not_lt_of_ge hlast)

theorem month_eq_of_between {d e : NaiveDate} (hfirst : month.firstDay d ≤ e)
    (hlast : e ≤ month.lastDay d) : e.year = d.year ∧ e.month = d.month := by
  have hyear : e.year = d.year := by
    rcases lt_trichotomy e.year d.year with hlt | heq | hgt
    · exact absurd (numDaysFromCe_lt_of_year_lt (e := month.firstDay d) hlt) (not_lt_of_ge hfirst)
    · exact heq
    · exact absurd (numDaysFromCe_lt_of_year_lt (d := month.lastDay d) hgt) (not_lt_of_ge hlast)
  refine ⟨hyear, ?_⟩
  rcases lt_trichotomy e.month d.month with hlt | heq | hgt
  · exact absurd (numDaysFromCe_lt_of_month_lt (e := month.firstDay d) hyear hlt)
      (not_lt_of_ge hfirst)
  · exact heq
  · exact absurd (numDaysFromCe_lt_of_month_lt (d := month.lastDay d) hyear.symm hgt)
      (not_lt_of_ge hlast)

theorem lastDay_congr {u : CalendarUnit} {d e : NaiveDate} (h : u.firstDay e = u.firstDay d) :
    u.lastDay e = u.lastDay d := by
  cases u with
  | day => exact h
  | week =>
      refine numDaysFromCe_injective ?_
      have hn := congrArg numDaysFromCe h
      simp only [firstDay, lastDay, numDaysFromCe_subDays, numDaysFromCe_addDays,
        numDaysFromMonday] at hn ⊢
      omega
  | month =>
      have hfirst := NaiveDate.ext_iff.mp h
      have hyear : e.year = d.year := hfirst.1
      have hmonth : e.month = d.month := hfirst.2.1
      simp only [lastDay, hyear, hmonth]
  | year =>
      have hyear : e.year = d.year := (NaiveDate.ext_iff.mp h).1
      simp only [lastDay, hyear]

theorem firstDay_eq_iff (u : CalendarUnit) (d e : NaiveDate) :
    u.firstDay e = u.firstDay d ↔ u.firstDay d ≤ e ∧ e ≤ u.lastDay d := by
  constructor
  · intro h
    exact ⟨h ▸ u.firstDay_le e, lastDay_congr h ▸ u.le_lastDay e⟩
  · rintro ⟨hfirst, hlast⟩
    cases u with
    | day => exact le_antisymm hlast hfirst
    | week =>
        refine numDaysFromCe_injective ?_
        rw [le_iff] at hfirst hlast
        simp only [firstDay, lastDay, numDaysFromCe_subDays, numDaysFromCe_addDays,
          numDaysFromMonday] at hfirst hlast ⊢
        omega
    | month =>
        obtain ⟨hyear, hmonth⟩ := month_eq_of_between hfirst hlast
        simp only [firstDay, hyear, hmonth]
    | year =>
        have hyear := year_eq_of_between hfirst hlast
        simp only [firstDay, hyear]

theorem firstDay_firstDay (u : CalendarUnit) (d : NaiveDate) :
    u.firstDay (u.firstDay d) = u.firstDay d :=
  (u.firstDay_eq_iff d _).mpr ⟨le_rfl, (u.firstDay_le d).trans (u.le_lastDay d)⟩

theorem lastDay_firstDay (u : CalendarUnit) (d : NaiveDate) :
    u.lastDay (u.firstDay d) = u.lastDay d :=
  lastDay_congr (u.firstDay_firstDay d)

theorem firstDay_lastDay (u : CalendarUnit) (d : NaiveDate) :
    u.firstDay (u.lastDay d) = u.firstDay d :=
  (u.firstDay_eq_iff d _).mpr ⟨(u.firstDay_le d).trans (u.le_lastDay d), le_rfl⟩

theorem lt_next (u : CalendarUnit) (d : NaiveDate) : d < u.next d :=
  lt_succ_iff.mpr (u.le_lastDay d)

theorem firstDay_next (u : CalendarUnit) (d : NaiveDate) : u.firstDay (u.next d) = u.next d := by
  refine le_antisymm (u.firstDay_le _) (le_of_not_gt fun hlt => ?_)
  -- otherwise the last day of `d` lies in the next unit, which would be its own
  have hmem : u.firstDay (u.lastDay d) = u.firstDay (u.next d) := by
    refine (u.firstDay_eq_iff _ _).mpr ⟨lt_succ_iff.mp hlt, ?_⟩
    exact (lt_succ_iff.mpr le_rfl).le.trans (u.le_lastDay (u.next d))
  have hlast := lastDay_congr hmem
  have hle := u.le_lastDay (u.next d)
  rw [← hlast, lastDay_congr (u.firstDay_lastDay d)] at hle
  exact absurd (lt_succ_iff.mpr le_rfl) (not_lt_of_ge hle)

def thursday (d : NaiveDate) : NaiveDate :=
  (week.firstDay d).addDays 3

/-- The year that the ISO week of a date counts in. -/
def isoYear (d : NaiveDate) : Int :=
  (thursday d).year

def isoWeek (d : NaiveDate) : Nat :=
  (((thursday d).numDaysFromCe - daysBeforeYear (isoYear d) - 1) / 7 + 1).toNat

/-- The first days, from `d` on, of the units that start by a given day. -/
def starts (u : CalendarUnit) (upto d : NaiveDate) : List NaiveDate :=
  if d ≤ upto then d :: u.starts upto (u.next d) else []
termination_by (upto.numDaysFromCe + 1 - d.numDaysFromCe).toNat
decreasing_by
  rename_i hle
  have hlt := lt_iff.mp (u.lt_next d)
  have hle' := le_iff.mp hle
  omega

theorem starts_of_le {u : CalendarUnit} {upto d : NaiveDate} (h : d ≤ upto) :
    u.starts upto d = d :: u.starts upto (u.next d) := by
  rw [starts, if_pos h]

theorem starts_of_lt {u : CalendarUnit} {upto d : NaiveDate} (h : upto < d) :
    u.starts upto d = [] := by
  rw [starts, if_neg (not_le_of_gt h)]

theorem le_of_mem_starts {u : CalendarUnit} {upto d e : NaiveDate} (h : e ∈ u.starts upto d) :
    d ≤ e ∧ e ≤ upto := by
  induction d using starts.induct u upto with
  | case1 d hle ih =>
      rw [starts_of_le hle] at h
      rcases List.mem_cons.mp h with rfl | h
      · exact ⟨le_rfl, hle⟩
      · exact ⟨(u.lt_next d).le.trans (ih h).1, (ih h).2⟩
  | case2 d hlt =>
      rw [starts_of_lt (lt_of_not_ge hlt)] at h
      cases h

theorem firstDay_of_mem_starts {u : CalendarUnit} {upto d e : NaiveDate}
    (hd : u.firstDay d = d) (h : e ∈ u.starts upto d) : u.firstDay e = e := by
  induction d using starts.induct u upto with
  | case1 d hle ih =>
      rw [starts_of_le hle] at h
      rcases List.mem_cons.mp h with rfl | h
      · exact hd
      · exact ih (u.firstDay_next d) h
  | case2 d hlt =>
      rw [starts_of_lt (lt_of_not_ge hlt)] at h
      cases h

theorem mem_starts {u : CalendarUnit} {upto d e : NaiveDate} (hd : u.firstDay d = d)
    (he : u.firstDay e = e) (hde : d ≤ e) (heto : e ≤ upto) : e ∈ u.starts upto d := by
  induction d using starts.induct u upto with
  | case1 d hle ih =>
      rw [starts_of_le hle]
      by_cases hnext : u.next d ≤ e
      · exact List.mem_cons_of_mem _ (ih (u.firstDay_next d) hnext)
      · have hlast : e ≤ u.lastDay d := lt_succ_iff.mp (lt_of_not_ge hnext)
        have hsame := (u.firstDay_eq_iff d e).mpr ⟨hd.symm ▸ hde, hlast⟩
        rw [hd, he] at hsame
        exact hsame ▸ List.mem_cons_self
  | case2 d hlt => exact absurd (hde.trans heto) hlt

theorem isChain_starts (u : CalendarUnit) (upto d : NaiveDate) :
    (u.starts upto d).IsChain fun e e' => e' = u.next e := by
  induction d using starts.induct u upto with
  | case1 d hle ih =>
      rw [starts_of_le hle]
      refine ih.cons fun e he => ?_
      by_cases hnext : u.next d ≤ upto
      · rw [starts_of_le hnext, List.head?_cons] at he
        exact (Option.some.inj he).symm
      · rw [starts_of_lt (lt_of_not_ge hnext)] at he
        cases he
  | case2 d hlt =>
      rw [starts_of_lt (lt_of_not_ge hlt)]
      exact .nil

theorem pairwise_starts (u : CalendarUnit) (upto d : NaiveDate) :
    (u.starts upto d).Pairwise fun e e' => e < e' := by
  induction d using starts.induct u upto with
  | case1 d hle ih =>
      rw [starts_of_le hle]
      exact List.pairwise_cons.mpr
        ⟨fun e he => (u.lt_next d).trans_le (le_of_mem_starts he).1, ih⟩
  | case2 d hlt =>
      rw [starts_of_lt (lt_of_not_ge hlt)]
      exact .nil

theorem getLast?_starts {u : CalendarUnit} {upto d : NaiveDate} (hd : u.firstDay d = d)
    (h : d ≤ upto) : (u.starts upto d).getLast? = some (u.firstDay upto) := by
  induction d using starts.induct u upto with
  | case1 d hle ih =>
      rw [starts_of_le hle]
      by_cases hnext : u.next d ≤ upto
      · have hlast := ih (u.firstDay_next d) hnext
        rw [starts_of_le hnext] at hlast ⊢
        rwa [List.getLast?_cons_cons]
      · have hupto : upto ≤ u.lastDay d := lt_succ_iff.mp (lt_of_not_ge hnext)
        have hsame := (u.firstDay_eq_iff d upto).mpr ⟨hd.symm ▸ hle, hupto⟩
        rw [starts_of_lt (lt_of_not_ge hnext), hsame, hd, List.getLast?_singleton]
  | case2 d hlt => exact absurd h hlt

theorem firstDay_mem_starts {u : CalendarUnit} {since upto d : NaiveDate} (hsince : since ≤ d)
    (hto : d ≤ upto) : u.firstDay d ∈ u.starts upto (u.firstDay since) := by
  refine mem_starts (u.firstDay_firstDay since) (u.firstDay_firstDay d) ?_
    ((u.firstDay_le d).trans hto)
  refine le_of_not_gt fun hlt => ?_
  -- otherwise `since` lies in the unit of `d`, whose first day is then its own
  have hsame : u.firstDay since = u.firstDay d :=
    (u.firstDay_eq_iff d since).mpr
      ⟨hlt.le.trans (u.firstDay_le since), hsince.trans (u.le_lastDay d)⟩
  exact absurd hsame (ne_of_gt hlt)

end CalendarUnit

end PersonalDashboard.CalendarUnits
