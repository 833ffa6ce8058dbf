import Mathlib.Computability.RegularExpressions

/-! Regular expressions over characters: classes, options and repetitions. -/

set_option autoImplicit false

namespace PersonalDashboard.Patterns

open RegularExpression

abbrev Pattern :=
  RegularExpression Char

/-- A class of characters. -/
def oneOf (l : List Char) : Pattern :=
  l.foldr (fun c p => char c + p) 0

def optional (p : Pattern) : Pattern :=
  1 + p

def oneOrMore (p : Pattern) : Pattern :=
  p * star p

/-- `\d`. -/
def digit : Pattern :=
  oneOf ['0', '1', '2', '3', '4', '5', '6', '7', '8', '9']

/-- `\d{1,2}`. -/
def oneOrTwoDigits : Pattern :=
  digit * optional digit

/-- `\d{3}`. -/
def threeDigits : Pattern :=
  digit * (digit * digit)

variable {l s : List Char} {p : Pattern}

theorem rmatch_oneOf : (oneOf l).rmatch s ↔ ∃ c ∈ l, s = [c] := by
  induction l with
  | nil =>
      have hzero : (oneOf []).rmatch s = false := zero_rmatch s
      simp [hzero]
  | cons c l ih =>
      change (char c + oneOf l).rmatch s ↔ _
      rw [add_rmatch_iff, char_rmatch_iff, ih, List.exists_mem_cons_iff]

theorem rmatch_optional : (optional p).rmatch s ↔ s = [] ∨ p.rmatch s := by
  rw [optional, add_rmatch_iff, one_rmatch_iff]

theorem rmatch_oneOrMore : (oneOrMore p).rmatch s ↔
    ∃ parts, parts ≠ [] ∧ s = parts.flatten ∧ ∀ t ∈ parts, p.rmatch t := by
  rw [oneOrMore, mul_rmatch_iff]
  constructor
  · rintro ⟨t, u, rfl, ht, hu⟩
    obtain ⟨parts, rfl, hparts⟩ := (star_rmatch_iff p u).mp hu
    refine ⟨t :: parts, List.cons_ne_nil _ _, List.flatten_cons.symm, fun t' ht' => ?_⟩
    rcases List.mem_cons.mp ht' with rfl | hmem
    · exact ht
    · exact (hparts t' hmem).2
  · rintro ⟨parts, hne, rfl, hparts⟩
    cases parts with
    | nil => exact absurd rfl hne
    | cons t parts =>
        refine ⟨t, parts.flatten, List.flatten_cons, hparts t List.mem_cons_self, ?_⟩
        refine (star_rmatch_iff p _).mpr ⟨parts.filter (· ≠ []), ?_, fun t' ht' => ?_⟩
        · exact (List.flatten_filter_ne_nil).symm
        · obtain ⟨hmem, hnil⟩ := List.mem_filter.mp ht'
          exact ⟨of_decide_eq_true hnil, hparts t' (List.mem_cons_of_mem _ hmem)⟩

theorem isDigit_iff_mem (c : Char) :
    c ∈ ['0', '1', '2', '3', '4', '5', '6', '7', '8', '9'] ↔ c.isDigit := by
  constructor
  · simp only [List.mem_cons, List.not_mem_nil, or_false]
    rintro (rfl | rfl | rfl | rfl | rfl | rfl | rfl | rfl | rfl | rfl) <;> rfl
  · intro h
    have hall : ∀ n < 58, 48 ≤ n →
        Char.ofNat n ∈ ['0', '1', '2', '3', '4', '5', '6', '7', '8', '9'] := by decide
    simp only [Char.isDigit, Bool.and_eq_true, decide_eq_true_eq] at h
    have hmem := hall c.toNat (Nat.lt_succ_of_le h.2) h.1
    rwa [Char.ofNat_toNat] at hmem

theorem rmatch_digit : digit.rmatch s ↔ ∃ c, s = [c] ∧ c.isDigit := by
  rw [digit, rmatch_oneOf]
  exact exists_congr fun c => by rw [isDigit_iff_mem, and_comm]

theorem rmatch_digits : (oneOrMore digit).rmatch s ↔ s ≠ [] ∧ ∀ c ∈ s, c.isDigit := by
  rw [rmatch_oneOrMore]
  constructor
  · rintro ⟨parts, hne, rfl, hparts⟩
    constructor
    · intro hnil
      rw [List.flatten_eq_nil_iff] at hnil
      obtain ⟨t, ht⟩ := List.exists_mem_of_ne_nil parts hne
      obtain ⟨c, rfl, -⟩ := rmatch_digit.mp (hparts t ht)
      exact List.cons_ne_nil _ _ (hnil _ ht)
    · intro c hc
      obtain ⟨t, ht, hct⟩ := List.mem_flatten.mp hc
      obtain ⟨d, rfl, hd⟩ := rmatch_digit.mp (hparts t ht)
      exact List.mem_singleton.mp hct ▸ hd
  · rintro ⟨hne, hall⟩
    refine ⟨s.map fun c => [c], by simpa using hne, (List.flatMap_singleton' s).symm,
      fun t ht => ?_⟩
    obtain ⟨c, hc, rfl⟩ := List.mem_map.mp ht
    exact rmatch_digit.mpr ⟨c, rfl, hall c hc⟩

theorem rmatch_oneOrTwoDigits : oneOrTwoDigits.rmatch s ↔
    s ≠ [] ∧ s.length ≤ 2 ∧ ∀ c ∈ s, c.isDigit := by
  simp only [oneOrTwoDigits, mul_rmatch_iff, rmatch_optional, rmatch_digit]
  constructor
  · rintro ⟨t, u, rfl, ⟨c, rfl, hc⟩, rfl | ⟨d, rfl, hd⟩⟩
    · simp [hc]
    · simp [hc, hd]
  · rintro ⟨hne, hlen, hall⟩
    match s, hne, hlen with
    | [c], _, _ => exact ⟨[c], [], rfl, ⟨c, rfl, hall c (by simp)⟩, Or.inl rfl⟩
    | [c, d], _, _ =>
        exact ⟨[c], [d], rfl, ⟨c, rfl, hall c (by simp)⟩, Or.inr ⟨d, rfl, hall d (by simp)⟩⟩

theorem rmatch_threeDigits : threeDigits.rmatch s ↔ s.length = 3 ∧ ∀ c ∈ s, c.isDigit := by
  simp only [threeDigits, mul_rmatch_iff, rmatch_digit]
  constructor
  · rintro ⟨t, u, rfl, ⟨c, rfl, hc⟩, v, w, rfl, ⟨d, rfl, hd⟩, ⟨e, rfl, he⟩⟩
    simp [hc, hd, he]
  · rintro ⟨hlen, hall⟩
    match s, hlen with
    | [c, d, e], _ =>
        exact ⟨[c], [d, e], rfl, ⟨c, rfl, hall c (by simp)⟩, [d], [e], rfl,
          ⟨d, rfl, hall d (by simp)⟩, ⟨e, rfl, hall e (by simp)⟩⟩

theorem rmatch_char_mul {c : Char} : (char c * p).rmatch s ↔ ∃ t, s = c :: t ∧ p.rmatch t := by
  simp only [mul_rmatch_iff, char_rmatch_iff]
  constructor
  · rintro ⟨t, u, rfl, rfl, hu⟩
    exact ⟨u, rfl, hu⟩
  · rintro ⟨t, rfl, ht⟩
    exact ⟨[c], t, rfl, rfl, ht⟩

end PersonalDashboard.Patterns
