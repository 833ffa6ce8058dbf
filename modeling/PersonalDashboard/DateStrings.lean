import PersonalDashboard.Calendar
import Mathlib.Data.Nat.Basic

/-! Zero-padded numerals and ISO dates as strings: the order of the strings is
the order of what they denote. -/

set_option autoImplicit false

namespace PersonalDashboard.DateStrings

open PersonalDashboard.Calendar
open PersonalDashboard.Calendar.NaiveDate

/-- The decimal digits of a number, with leading zeros up to a width. -/
def padded (width n : Nat) : List Char :=
  List.replicate (width - (Nat.toDigits 10 n).length) '0' ++ Nat.toDigits 10 n

def zeroPad (width n : Nat) : String :=
  String.ofList (padded width n)

def Numeral (l : List Char) : Prop :=
  ∀ c ∈ l, c.isDigit

theorem numeral_padded (width n : Nat) : Numeral (padded width n) := by
  intro c hc
  rcases List.mem_append.mp hc with hc | hc
  · rw [List.eq_of_mem_replicate hc]
    rfl
  · exact Nat.isDigit_of_mem_toDigits (by decide) (by decide) hc

theorem length_padded {width n : Nat} (hwidth : 0 < width) (h : n < 10 ^ width) :
    (padded width n).length = width := by
  have hle := (Nat.length_toDigits_le_iff (by decide) hwidth).mpr h
  rw [padded, List.length_append, List.length_replicate, Nat.sub_add_cancel hle]

@[simp]
theorem ofDigitChars_padded (width n : Nat) : Nat.ofDigitChars 10 (padded width n) 0 = n := by
  rw [padded, Nat.ofDigitChars_append, Nat.ofDigitChars_replicate_zero, Nat.mul_zero,
    Nat.ofDigitChars_ten_toDigits]

theorem padded_injective (width : Nat) : Function.Injective (padded width) := by
  intro m n h
  rw [← ofDigitChars_padded width m, h, ofDigitChars_padded]

theorem padded_eq_toDigits {width n : Nat} (h : 10 ^ width ≤ n) :
    padded (width + 1) n = Nat.toDigits 10 n := by
  have hlt : width < (Nat.toDigits 10 n).length := by
    rcases Nat.eq_zero_or_pos width with rfl | hpos
    · exact Nat.length_toDigits_pos
    · by_contra hle
      exact absurd ((Nat.length_toDigits_le_iff (by decide) hpos).mp (not_lt.mp hle)) (not_lt.mpr h)
  rw [padded, Nat.sub_eq_zero_of_le hlt, List.replicate_zero, List.nil_append]

theorem toNat_lt_of_isDigit {c : Char} (h : c.isDigit) :
    '0'.toNat ≤ c.toNat ∧ c.toNat < '0'.toNat + 10 := by
  simp only [Char.isDigit, Bool.and_eq_true, decide_eq_true_eq] at h
  have h0 : '0'.toNat ≤ c.toNat := h.1
  have h9 : c.toNat ≤ '9'.toNat := h.2
  exact ⟨h0, Nat.lt_succ_of_le h9⟩

theorem ofDigitChars_lt {l : List Char} (h : Numeral l) :
    Nat.ofDigitChars 10 l 0 < 10 ^ l.length := by
  induction l with
  | nil => simp
  | cons c l ih =>
      have hc := toNat_lt_of_isDigit (h c List.mem_cons_self)
      have hl := ih fun c hc => h c (List.mem_cons_of_mem _ hc)
      rw [Nat.ofDigitChars_cons, Nat.ofDigitChars_eq_ofDigitChars_zero, List.length_cons,
        Nat.pow_succ]
      have hmul := Nat.mul_le_mul_left (10 ^ l.length)
        (show 10 * 0 + (c.toNat - '0'.toNat) ≤ 9 by omega)
      omega

theorem mul_add_lt_iff {p d d' v v' : Nat} (hv : v < p) (hv' : v' < p) :
    p * d + v < p * d' + v' ↔ d < d' ∨ d = d' ∧ v < v' := by
  rcases lt_trichotomy d d' with hlt | rfl | hgt
  · have hmul : p * (d + 1) ≤ p * d' := Nat.mul_le_mul_left p hlt
    rw [Nat.mul_succ] at hmul
    exact ⟨fun _ => Or.inl hlt, fun _ => by omega⟩
  · simp
  · have hmul : p * (d' + 1) ≤ p * d := Nat.mul_le_mul_left p hgt
    rw [Nat.mul_succ] at hmul
    exact ⟨fun h => by omega, fun h => by omega⟩

theorem lt_iff_ofDigitChars_lt {l l' : List Char} (h : Numeral l) (h' : Numeral l')
    (hlen : l.length = l'.length) :
    l < l' ↔ Nat.ofDigitChars 10 l 0 < Nat.ofDigitChars 10 l' 0 := by
  induction l generalizing l' with
  | nil =>
      obtain rfl := List.length_eq_zero_iff.mp hlen.symm
      simp
  | cons c l ih =>
      cases l' with
      | nil => simp at hlen
      | cons c' l' =>
          have hlen' : l.length = l'.length := by simpa using hlen
          have hl : Numeral l := fun c hc => h c (List.mem_cons_of_mem _ hc)
          have hl' : Numeral l' := fun c hc => h' c (List.mem_cons_of_mem _ hc)
          have hc := toNat_lt_of_isDigit (h c List.mem_cons_self)
          have hc' := toNat_lt_of_isDigit (h' c' List.mem_cons_self)
          have hlt : c < c' ↔ c.toNat - '0'.toNat < c'.toNat - '0'.toNat := by
            rw [Nat.sub_lt_sub_iff_right hc.1]
            exact Iff.rfl
          have heq : c = c' ↔ c.toNat - '0'.toNat = c'.toNat - '0'.toNat := by
            rw [← Char.toNat_inj]
            omega
          have hvalue : ∀ (c : Char) (l : List Char), Nat.ofDigitChars 10 (c :: l) 0 =
              10 ^ l.length * (c.toNat - '0'.toNat) + Nat.ofDigitChars 10 l 0 := by
            intro c l
            rw [Nat.ofDigitChars_cons, Nat.mul_zero, Nat.zero_add]
            exact Nat.ofDigitChars_eq_ofDigitChars_zero
          rw [List.cons_lt_cons_iff, ih hl hl' hlen', hvalue, hvalue, ← hlen',
            mul_add_lt_iff (ofDigitChars_lt hl) (hlen' ▸ ofDigitChars_lt hl'), hlt, heq]

theorem padded_lt_padded_iff {width m n : Nat} (hwidth : 0 < width) (hm : m < 10 ^ width)
    (hn : n < 10 ^ width) : padded width m < padded width n ↔ m < n := by
  have hlen : (padded width m).length = (padded width n).length := by
    rw [length_padded hwidth hm, length_padded hwidth hn]
  rw [lt_iff_ofDigitChars_lt (numeral_padded _ _) (numeral_padded _ _) hlen, ofDigitChars_padded,
    ofDigitChars_padded]

theorem append_lt_append_iff {l l' r r' : List Char} (hlen : l.length = l'.length) :
    l ++ r < l' ++ r' ↔ l < l' ∨ l = l' ∧ r < r' := by
  induction l generalizing l' with
  | nil =>
      obtain rfl := List.length_eq_zero_iff.mp hlen.symm
      simp
  | cons c l ih =>
      cases l' with
      | nil => simp at hlen
      | cons c' l' =>
          rw [List.cons_append, List.cons_append, List.cons_lt_cons_iff, List.cons_lt_cons_iff,
            ih (by simpa using hlen), List.cons.injEq]
          tauto

/-- The year of an ISO date: four digits, and a sign outside 0 to 9999. -/
def yearChars (y : Int) : List Char :=
  if y < 0 then '-' :: padded 4 y.natAbs
  else if 9999 < y then '+' :: padded 4 y.natAbs
  else padded 4 y.natAbs

def dateChars (d : NaiveDate) : List Char :=
  yearChars d.year ++ '-' :: (padded 2 d.month ++ '-' :: padded 2 d.day)

/-- `YYYY-MM-DD`. -/
def formatYmd (d : NaiveDate) : String :=
  String.ofList (dateChars d)

def FourDigits (d : NaiveDate) : Prop :=
  1000 ≤ d.year ∧ d.year ≤ 9999

theorem yearChars_of_le {y : Int} (h : 0 ≤ y) (h' : y ≤ 9999) :
    yearChars y = padded 4 y.natAbs := by
  rw [yearChars, if_neg (not_lt.mpr h), if_neg (not_lt.mpr h')]

theorem day_lt (d : NaiveDate) : d.day < 10 ^ 2 := by
  have hday := d.day_le
  have hle := daysInMonth_le d.year d.month
  omega

theorem lt_iff_lex {d e : NaiveDate} :
    d < e ↔ d.year < e.year ∨ d.year = e.year ∧
      (d.month < e.month ∨ d.month = e.month ∧ d.day < e.day) := by
  rcases lt_trichotomy d.year e.year with hyear | hyear | hyear
  · exact ⟨fun _ => Or.inl hyear, fun _ => numDaysFromCe_lt_of_year_lt hyear⟩
  · rcases lt_trichotomy d.month e.month with hmonth | hmonth | hmonth
    · exact ⟨fun _ => Or.inr ⟨hyear, Or.inl hmonth⟩,
        fun _ => numDaysFromCe_lt_of_month_lt hyear hmonth⟩
    · rw [lt_iff, numDaysFromCe, numDaysFromCe, hyear, hmonth]
      simp
    · have hgt := numDaysFromCe_lt_of_month_lt hyear.symm hmonth
      rw [lt_iff]
      omega
  · have hgt := numDaysFromCe_lt_of_year_lt hyear
    rw [lt_iff]
    omega

theorem year_le_year {d e : NaiveDate} (h : d ≤ e) : d.year ≤ e.year := by
  by_contra hlt
  exact not_lt.mpr h (lt_iff_lex.mpr (Or.inl (not_le.mp hlt)))

theorem dateChars_lt_iff {d e : NaiveDate} (hd : 0 ≤ d.year) (hd' : d.year ≤ 9999)
    (he : 0 ≤ e.year) (he' : e.year ≤ 9999) : dateChars d < dateChars e ↔ d < e := by
  have hyear : d.year.natAbs < 10 ^ 4 := by omega
  have hyear' : e.year.natAbs < 10 ^ 4 := by omega
  have hmonth : d.month < 10 ^ 2 := by have := d.month_le; omega
  have hmonth' : e.month < 10 ^ 2 := by have := e.month_le; omega
  have hlen : ∀ {w m n : Nat}, 0 < w → m < 10 ^ w → n < 10 ^ w →
      (padded w m).length = (padded w n).length :=
    fun hw hm hn => by rw [length_padded hw hm, length_padded hw hn]
  rw [dateChars, dateChars, yearChars_of_le hd hd', yearChars_of_le he he',
    append_lt_append_iff (hlen (by decide) hyear hyear'), List.cons_lt_cons_iff,
    append_lt_append_iff (hlen (by decide) hmonth hmonth'), List.cons_lt_cons_iff,
    padded_lt_padded_iff (by decide) hyear hyear', padded_lt_padded_iff (by decide) hmonth hmonth',
    padded_lt_padded_iff (by decide) (day_lt d) (day_lt e), (padded_injective 4).eq_iff,
    (padded_injective 2).eq_iff, lt_iff_lex]
  have hlt : d.year.natAbs < e.year.natAbs ↔ d.year < e.year := by omega
  have heq : d.year.natAbs = e.year.natAbs ↔ d.year = e.year := by omega
  simp [hlt, heq]

/-- A sign comes before a year of four digits: both signs are before the digits. -/
theorem sign_lt_dateChars {e : NaiveDate} {sign : Char} {l : List Char}
    (hsign : sign.toNat < '0'.toNat) (he : 0 ≤ e.year) (he' : e.year ≤ 9999) :
    sign :: l < dateChars e := by
  rw [dateChars, yearChars_of_le he he']
  cases hdigits : padded 4 e.year.natAbs with
  | nil =>
      have hlen := length_padded (show 0 < 4 by decide) (show e.year.natAbs < 10 ^ 4 by omega)
      rw [hdigits] at hlen
      cases hlen
  | cons c l' =>
      have hc := toNat_lt_of_isDigit (numeral_padded 4 e.year.natAbs c (by simp [hdigits]))
      refine List.cons_lt_cons_iff.mpr (Or.inl ?_)
      exact Nat.lt_of_lt_of_le hsign hc.1

theorem dateChars_lt_of_sign {d e : NaiveDate} {sign : Char} {l : List Char}
    (hd : yearChars d.year = sign :: l) (hsign : sign.toNat < '0'.toNat) (he : 0 ≤ e.year)
    (he' : e.year ≤ 9999) : dateChars d < dateChars e := by
  rw [dateChars, hd]
  exact sign_lt_dateChars hsign he he'

theorem dateChars_lt_of_year_neg {d e : NaiveDate} (hd : d.year < 0) (he : 0 ≤ e.year)
    (he' : e.year ≤ 9999) : dateChars d < dateChars e :=
  dateChars_lt_of_sign (if_pos hd) (by decide) he he'

theorem dateChars_lt_of_year_gt {d e : NaiveDate} (hd : 9999 < d.year) (he : 0 ≤ e.year)
    (he' : e.year ≤ 9999) : dateChars d < dateChars e := by
  have hchars : yearChars d.year = '+' :: padded 4 d.year.natAbs := by
    rw [yearChars, if_neg (by omega), if_pos hd]
  exact dateChars_lt_of_sign hchars (by decide) he he'

theorem dateChars_lt_iff_of_le {d e : NaiveDate} (hd : d.year ≤ 9999) (he : 0 ≤ e.year)
    (he' : e.year ≤ 9999) : dateChars d < dateChars e ↔ d < e := by
  rcases lt_or_ge d.year 0 with hneg | hpos
  · have hlt : d < e := lt_iff_lex.mpr (Or.inl (by omega))
    exact iff_of_true (dateChars_lt_of_year_neg hneg he he') hlt
  · exact dateChars_lt_iff hpos hd he he'

theorem dateChars_eq_iff {d e : NaiveDate} (hd : d.year ≤ 9999) (he : 0 ≤ e.year)
    (he' : e.year ≤ 9999) : dateChars d = dateChars e ↔ d = e := by
  refine ⟨fun h => ?_, congrArg dateChars⟩
  rcases lt_trichotomy d e with hlt | heq | hgt
  · have hlt' := (dateChars_lt_iff_of_le hd he he').mpr hlt
    rw [h] at hlt'
    exact absurd hlt' (List.lt_irrefl _)
  · exact heq
  · have hyear : 0 ≤ d.year := by
      rcases lt_iff_lex.mp hgt with hlt | ⟨heq, _⟩ <;> omega
    have hgt' := (dateChars_lt_iff_of_le he' hyear hd).mpr hgt
    rw [h] at hgt'
    exact absurd hgt' (List.lt_irrefl _)

theorem dateChars_lt_iff_of_ge {d e : NaiveDate} (hd : d.year ≤ 9999) (he : 0 ≤ e.year)
    (he' : e.year ≤ 9999) : dateChars e < dateChars d ↔ e < d := by
  constructor
  · intro h
    rcases lt_trichotomy d e with hlt | heq | hgt
    · exact absurd ((dateChars_lt_iff_of_le hd he he').mpr hlt) (List.lt_asymm h)
    · exact absurd (heq ▸ h) (List.lt_irrefl _)
    · exact hgt
  · intro h
    have hyear : 0 ≤ d.year := he.trans (year_le_year h.le)
    exact (dateChars_lt_iff he he' hyear hd).mpr h

theorem dateChars_between_iff {d lo hi : NaiveDate} (hlo : 0 ≤ lo.year) (hlo' : lo.year ≤ 9999)
    (hhi : 0 ≤ hi.year) (hhi' : hi.year ≤ 9999) :
    ¬ dateChars d < dateChars lo ∧ ¬ dateChars hi < dateChars d ↔ lo ≤ d ∧ d ≤ hi := by
  rcases le_or_gt d.year 9999 with hd | hd
  · rw [dateChars_lt_iff_of_le hd hlo hlo', dateChars_lt_iff_of_ge hd hhi hhi', not_lt, not_lt]
  · have hlt := dateChars_lt_of_year_gt hd hlo hlo'
    refine iff_of_false (fun h => h.1 hlt) fun h => ?_
    have hle := year_le_year h.2
    omega

theorem mem_dateChars {d : NaiveDate} {c : Char} (h : c ∈ dateChars d) :
    c = '-' ∨ c = '+' ∨ c.isDigit := by
  have hpadded : ∀ w n, c ∈ padded w n → c = '-' ∨ c = '+' ∨ c.isDigit := fun w n hc =>
    Or.inr (Or.inr (numeral_padded w n c hc))
  have hyear : c ∈ yearChars d.year → c = '-' ∨ c = '+' ∨ c.isDigit := by
    unfold yearChars
    split
    · intro hc
      rcases List.mem_cons.mp hc with rfl | hc
      · exact Or.inl rfl
      · exact hpadded _ _ hc
    split
    · intro hc
      rcases List.mem_cons.mp hc with rfl | hc
      · exact Or.inr (Or.inl rfl)
      · exact hpadded _ _ hc
    · exact hpadded _ _
  simp only [dateChars, List.mem_append, List.mem_cons] at h
  rcases h with h | rfl | h | rfl | h
  · exact hyear h
  · exact Or.inl rfl
  · exact hpadded _ _ h
  · exact Or.inl rfl
  · exact hpadded _ _ h

end PersonalDashboard.DateStrings
