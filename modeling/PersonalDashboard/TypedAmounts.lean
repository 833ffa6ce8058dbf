import PersonalDashboard.DateStrings
import PersonalDashboard.LedgerHandlers
import PersonalDashboard.Patterns
import PersonalDashboard.TaskViews
import PersonalDashboard.TextReaders
import Mathlib.Data.Rat.Defs
import Mathlib.Tactic.Positivity

/-! The amounts that a user types, as the client normalizes them and the server reads
them. -/

set_option autoImplicit false

namespace PersonalDashboard.TypedAmounts

open PersonalDashboard.DateStrings
open PersonalDashboard.LedgerHandlers
open PersonalDashboard.Patterns
open PersonalDashboard.TaskViews
open PersonalDashboard.TextReaders
open PersonalDashboard.Validation
open RegularExpression

/-- `[1-9]\d{0,2}(sep\d{3})+(dec\d{1,2})?`. -/
def groupedPattern (sep dec : Char) : Pattern :=
  oneOf ['1', '2', '3', '4', '5', '6', '7', '8', '9'] * (optional digit * (optional digit *
    (oneOrMore (char sep * threeDigits) * optional (char dec * oneOrTwoDigits))))

/-- `\d+,\d{1,2}`. -/
def decimalCommaPattern : Pattern :=
  oneOrMore digit * (char ',' * oneOrTwoDigits)

/-- `\d+(\.\d{1,2})?`. -/
def plainPattern : Pattern :=
  oneOrMore digit * optional (char '.' * oneOrTwoDigits)

/-- The typed text with its thousands separators taken out and a decimal dot. -/
def compact (s : List Char) : List Char :=
  if (groupedPattern '.' ',').rmatch s then (s.filter (· ≠ '.')).replace ',' '.'
  else if (groupedPattern ',' '.').rmatch s then s.filter (· ≠ ',')
  else if decimalCommaPattern.rmatch s then s.replace ',' '.'
  else s

def amountValue (whole frac : List Char) : ℚ :=
  Nat.ofDigitChars 10 (whole ++ frac) 0 / 10 ^ frac.length

def literalValue (s : List Char) : ℚ :=
  amountValue (s.takeWhile (· ≠ '.')) (s.dropWhile (· ≠ '.')).tail

/-- `Number.isFinite(Number(s))`: the nearest double is not an infinity. -/
def isFiniteNumber (value : ℚ) : Bool :=
  value < 2 ^ 1024 - 2 ^ 970

/-- `Number(s) <= 0`: the nearest double is not above zero. -/
def isNotPositive (value : ℚ) : Bool :=
  value ≤ 1 / 2 ^ 1075

/-- `raw.trim().replace(/\s+/g, "")`. -/
def withoutSpaces (raw : String) : List Char :=
  (jsTrim raw).toList.filter fun c => !isJsWhiteSpace c

def normalizeManualAmount (raw : Option String) : Option String :=
  match raw with
  | none => none
  | some raw =>
      let s := withoutSpaces raw
      if s = [] then none
      else if !plainPattern.rmatch (compact s) then none
      else if !isFiniteNumber (literalValue (compact s)) ||
          isNotPositive (literalValue (compact s)) then none
      else some (String.ofList (compact s))

example : normalizeManualAmount (some " 1.500.000,5 ") = some "1500000.5" := by
  decide +kernel

example : normalizeManualAmount (some "25,50") = some "25.50" := by
  decide +kernel

inductive AmountShape where
  | plain
  | copThousands
  | usThousands
  | decimalComma
  deriving DecidableEq, Repr

def fraction (sep : Char) : List Char → List Char
  | [] => []
  | digits => sep :: digits

def Fraction (frac : List Char) : Prop :=
  Numeral frac ∧ frac.length ≤ 2

/-- One to three digits without a leading zero, groups of three, and a fraction. -/
def Grouped (sep dec : Char) (s whole frac : List Char) : Prop :=
  ∃ (head : List Char) (groups : List (List Char)),
    s = head ++ (groups.flatMap (sep :: ·) ++ fraction dec frac) ∧
    whole = head ++ groups.flatten ∧
    (Numeral head ∧ head ≠ [] ∧ head.length ≤ 3 ∧ head.head? ≠ some '0') ∧
    groups ≠ [] ∧ (∀ g ∈ groups, Numeral g ∧ g.length = 3) ∧ Fraction frac

/-- A text in a notation, with the digits before and after its decimal separator. -/
def Written : AmountShape → List Char → List Char → List Char → Prop
  | .plain, s, whole, frac =>
      s = whole ++ fraction '.' frac ∧ whole ≠ [] ∧ Numeral whole ∧ Fraction frac
  | .copThousands, s, whole, frac => Grouped '.' ',' s whole frac
  | .usThousands, s, whole, frac => Grouped ',' '.' s whole frac
  | .decimalComma, s, whole, frac =>
      s = whole ++ fraction ',' frac ∧ whole ≠ [] ∧ Numeral whole ∧ Fraction frac ∧ frac ≠ []

section Patterns

variable {s whole frac : List Char} {sep dec c : Char}

theorem fraction_of_ne_nil (sep : Char) (h : frac ≠ []) : fraction sep frac = sep :: frac := by
  cases frac with
  | nil => exact absurd rfl h
  | cons c frac => rfl

theorem rmatch_fraction : (optional (char sep * oneOrTwoDigits)).rmatch s ↔
    ∃ frac, s = fraction sep frac ∧ Fraction frac := by
  rw [rmatch_optional, rmatch_char_mul]
  constructor
  · rintro (rfl | ⟨frac, rfl, hfrac⟩)
    · exact ⟨[], rfl, fun _ hc => (nomatch hc), Nat.zero_le 2⟩
    · obtain ⟨hne, hlen, hall⟩ := rmatch_oneOrTwoDigits.mp hfrac
      exact ⟨frac, (fraction_of_ne_nil sep hne).symm, hall, hlen⟩
  · rintro ⟨frac, rfl, hall, hlen⟩
    cases frac with
    | nil => exact Or.inl rfl
    | cons c frac =>
        refine Or.inr ⟨c :: frac, rfl, rmatch_oneOrTwoDigits.mpr ⟨List.cons_ne_nil _ _, ?_⟩⟩
        exact ⟨hlen, hall⟩

theorem rmatch_groups : (oneOrMore (char sep * threeDigits)).rmatch s ↔
    ∃ groups : List (List Char), s = groups.flatMap (sep :: ·) ∧ groups ≠ [] ∧
      ∀ g ∈ groups, Numeral g ∧ g.length = 3 := by
  simp only [rmatch_oneOrMore, rmatch_char_mul, rmatch_threeDigits]
  constructor
  · rintro ⟨parts, hne, rfl, hparts⟩
    have htail : ∀ t ∈ parts, sep :: t.tail = t := by
      intro t ht
      obtain ⟨g, rfl, -⟩ := hparts t ht
      rfl
    refine ⟨parts.map List.tail, ?_, by simpa using hne, fun g hg => ?_⟩
    · rw [List.flatMap_def, List.map_map]
      conv_lhs => rw [← List.map_id parts]
      exact congrArg List.flatten (List.map_congr_left fun t ht => (htail t ht).symm)
    · obtain ⟨t, ht, rfl⟩ := List.mem_map.mp hg
      obtain ⟨g, rfl, hlen, hall⟩ := hparts t ht
      exact ⟨hall, hlen⟩
  · rintro ⟨groups, rfl, hne, hgroups⟩
    refine ⟨groups.map (sep :: ·), by simpa using hne, List.flatMap_def, fun t ht => ?_⟩
    obtain ⟨g, hg, rfl⟩ := List.mem_map.mp ht
    exact ⟨g, rfl, (hgroups g hg).2, (hgroups g hg).1⟩

theorem rmatch_optional_digit : (optional digit).rmatch s ↔ Numeral s ∧ s.length ≤ 1 := by
  rw [rmatch_optional, rmatch_digit]
  constructor
  · rintro (rfl | ⟨c, rfl, hc⟩)
    · exact ⟨fun _ hc => (nomatch hc), Nat.zero_le 1⟩
    · exact ⟨fun d hd => List.mem_singleton.mp hd ▸ hc, le_rfl⟩
  · rintro ⟨hall, hlen⟩
    match s, hlen with
    | [], _ => exact Or.inl rfl
    | [c], _ => exact Or.inr ⟨c, rfl, hall c List.mem_cons_self⟩

theorem rmatch_nonzero : (oneOf ['1', '2', '3', '4', '5', '6', '7', '8', '9']).rmatch s ↔
    ∃ c, s = [c] ∧ c.isDigit ∧ c ≠ '0' := by
  rw [rmatch_oneOf]
  refine exists_congr fun c => ?_
  rw [and_comm, ← isDigit_iff_mem]
  refine and_congr_right fun _ => ⟨fun h => ⟨List.mem_cons_of_mem _ h, ?_⟩, fun h => ?_⟩
  · rintro rfl
    revert h
    decide
  · exact (List.mem_cons.mp h.1).resolve_left h.2

theorem rmatch_groupedPattern : (groupedPattern sep dec).rmatch s ↔
    ∃ whole frac, Grouped sep dec s whole frac := by
  simp only [groupedPattern, mul_rmatch_iff (oneOf _), mul_rmatch_iff (optional digit),
    mul_rmatch_iff (oneOrMore _), rmatch_nonzero, rmatch_optional_digit, rmatch_groups,
    rmatch_fraction]
  constructor
  · rintro ⟨t, u, rfl, ⟨c, rfl, hc, hne⟩, v, w, rfl, ⟨hv, hvlen⟩, v', w', rfl, ⟨hv', hvlen'⟩,
      x, y, rfl, ⟨groups, rfl, hgroups, hall⟩, frac, rfl, hfrac⟩
    refine ⟨_, frac, [c] ++ (v ++ v'), groups, ?_, rfl, ⟨?_, ?_, ?_, ?_⟩, hgroups, hall, hfrac⟩
    · simp only [List.append_assoc]
    · intro d hd
      rcases List.mem_append.mp hd with hd | hd
      · exact List.mem_singleton.mp hd ▸ hc
      · exact (List.mem_append.mp hd).elim (hv d) (hv' d)
    · exact List.cons_ne_nil _ _
    · simp only [List.length_append, List.length_singleton]
      omega
    · simpa using hne
  · rintro ⟨whole, frac, head, groups, rfl, -, ⟨hhead, hne, hlen, hzero⟩, hgroups, hall, hfrac⟩
    have hsplit : ∃ c v v', head = [c] ++ (v ++ v') ∧ v.length ≤ 1 ∧ v'.length ≤ 1 := by
      match head, hne, hlen with
      | [c], _, _ => exact ⟨c, [], [], rfl, by simp, by simp⟩
      | [c, d], _, _ => exact ⟨c, [d], [], rfl, by simp, by simp⟩
      | [c, d, e], _, _ => exact ⟨c, [d], [e], rfl, by simp, by simp⟩
    obtain ⟨c, v, v', rfl, hvlen, hvlen'⟩ := hsplit
    refine ⟨[c], _, List.append_assoc _ _ _, ⟨c, rfl, hhead c (by simp), by simpa using hzero⟩,
      v, _, List.append_assoc _ _ _, ⟨fun d hd => hhead d (by simp [hd]), hvlen⟩,
      v', _, rfl, ⟨fun d hd => hhead d (by simp [hd]), hvlen'⟩,
      _, _, rfl, ⟨groups, rfl, hgroups, hall⟩, frac, rfl, hfrac⟩

theorem rmatch_plainPattern :
    plainPattern.rmatch s ↔ ∃ whole frac, Written .plain s whole frac := by
  simp only [plainPattern, mul_rmatch_iff (oneOrMore _), rmatch_digits, rmatch_fraction]
  constructor
  · rintro ⟨whole, u, rfl, ⟨hne, hall⟩, frac, rfl, hfrac⟩
    exact ⟨whole, frac, rfl, hne, hall, hfrac⟩
  · rintro ⟨whole, frac, rfl, hne, hall, hfrac⟩
    exact ⟨whole, _, rfl, ⟨hne, hall⟩, frac, rfl, hfrac⟩

theorem rmatch_decimalCommaPattern :
    decimalCommaPattern.rmatch s ↔ ∃ whole frac, Written .decimalComma s whole frac := by
  simp only [decimalCommaPattern, mul_rmatch_iff (oneOrMore _), rmatch_digits, rmatch_char_mul,
    rmatch_oneOrTwoDigits]
  constructor
  · rintro ⟨whole, u, rfl, ⟨hne, hall⟩, frac, rfl, hfrac, hlen, hdigits⟩
    refine ⟨whole, frac, ?_, hne, hall, ⟨hdigits, hlen⟩, hfrac⟩
    rw [fraction_of_ne_nil _ hfrac]
  · rintro ⟨whole, frac, rfl, hne, hall, ⟨hdigits, hlen⟩, hfrac⟩
    exact ⟨whole, _, rfl, ⟨hne, hall⟩, frac, fraction_of_ne_nil _ hfrac, hfrac, hlen, hdigits⟩

/-- The first character that is no digit, and how many digits follow it. -/
def firstSeparator (s : List Char) : Option Char × Nat :=
  let rest := s.dropWhile Char.isDigit
  (rest.head?, (rest.tail.takeWhile Char.isDigit).length)

theorem takeWhile_numeral {rest : List Char} (h : Numeral whole)
    (hrest : ∀ c ∈ rest.head?, c.isDigit = false) :
    (whole ++ rest).takeWhile Char.isDigit = whole := by
  rw [List.takeWhile_append_of_pos h]
  cases rest with
  | nil => exact List.append_nil _
  | cons c rest => rw [List.takeWhile_cons_of_neg (by simp [hrest c rfl]), List.append_nil]

theorem dropWhile_numeral {rest : List Char} (h : Numeral whole)
    (hrest : ∀ c ∈ rest.head?, c.isDigit = false) :
    (whole ++ rest).dropWhile Char.isDigit = rest := by
  rw [List.dropWhile_append_of_pos h]
  exact dropWhile_of_head? hrest

theorem head?_fraction (hdec : dec.isDigit = false) :
    ∀ c ∈ (fraction dec frac).head?, c.isDigit = false := by
  intro c hc
  cases frac with
  | nil => cases hc
  | cons d frac =>
      obtain rfl := Option.some.inj hc
      exact hdec

theorem Grouped.firstSeparator_eq (hsep : sep.isDigit = false) (hdec : dec.isDigit = false)
    (h : Grouped sep dec s whole frac) : firstSeparator s = (some sep, 3) := by
  obtain ⟨head, groups, rfl, -, ⟨hhead, -⟩, hne, hgroups, -⟩ := h
  cases groups with
  | nil => exact absurd rfl hne
  | cons g groups =>
      obtain ⟨hg, hlen⟩ := hgroups g List.mem_cons_self
      have hnext : ∀ c ∈ (groups.flatMap (sep :: ·) ++ fraction dec frac).head?,
          c.isDigit = false := by
        cases groups with
        | nil => exact head?_fraction hdec
        | cons g' groups =>
            rintro c hc
            obtain rfl := Option.some.inj hc
            exact hsep
      have hfirst : ∀ c ∈ (sep :: (g ++ (groups.flatMap (sep :: ·) ++
          fraction dec frac))).head?, c.isDigit = false := by
        rintro c hc
        obtain rfl := Option.some.inj hc
        exact hsep
      rw [List.flatMap_cons, List.append_assoc, List.cons_append, firstSeparator,
        dropWhile_numeral hhead hfirst, List.head?_cons, List.tail_cons,
        takeWhile_numeral hg hnext, hlen]

theorem firstSeparator_fraction (hwhole : Numeral whole) (hsep : sep.isDigit = false)
    (hfrac : Numeral frac) : firstSeparator (whole ++ fraction sep frac) =
      ((fraction sep frac).head?, frac.length) := by
  rw [firstSeparator, dropWhile_numeral hwhole (head?_fraction hsep)]
  cases frac with
  | nil => rfl
  | cons c frac =>
      have hall : (c :: frac).takeWhile Char.isDigit = c :: frac :=
        List.takeWhile_eq_self_iff.mpr hfrac
      rw [fraction_of_ne_nil sep (List.cons_ne_nil c frac), List.tail_cons, hall]

theorem rmatch_groupedPattern_of_firstSeparator {s : List Char} {sep dec : Char}
    (hsep : sep.isDigit = false) (hdec : dec.isDigit = false)
    (h : firstSeparator s ≠ (some sep, 3)) : (groupedPattern sep dec).rmatch s = false := by
  rw [Bool.eq_false_iff]
  intro hmatch
  obtain ⟨whole, frac, hgrouped⟩ := rmatch_groupedPattern.mp hmatch
  exact h (hgrouped.firstSeparator_eq hsep hdec)

theorem notMem_of_numeral (h : Numeral s) (hc : c.isDigit = false) : c ∉ s := by
  intro hmem
  rw [h c hmem] at hc
  cases hc

theorem filter_numeral (h : Numeral s) (hc : c.isDigit = false) : s.filter (· ≠ c) = s := by
  refine List.filter_eq_self.mpr fun d hd => decide_eq_true ?_
  rintro rfl
  exact notMem_of_numeral h hc hd

theorem filter_flatMap {groups : List (List Char)} (hsep : sep.isDigit = false)
    (h : ∀ g ∈ groups, Numeral g) :
    (groups.flatMap (sep :: ·)).filter (· ≠ sep) = groups.flatten := by
  induction groups with
  | nil => rfl
  | cons g groups ih =>
      rw [List.flatMap_cons, List.filter_append, ih fun g hg => h g (List.mem_cons_of_mem _ hg),
        List.filter_cons_of_neg (by simp), filter_numeral (h g List.mem_cons_self) hsep,
        List.flatten_cons]

theorem replace_fraction (h : Numeral whole) (hsep : sep.isDigit = false) :
    (whole ++ fraction sep frac).replace sep dec = whole ++ fraction dec frac := by
  rw [List.replace_append_right (notMem_of_numeral h hsep)]
  cases frac with
  | nil => rfl
  | cons c frac =>
      rw [fraction_of_ne_nil sep (List.cons_ne_nil _ _), List.replace_cons_self,
        fraction_of_ne_nil dec (List.cons_ne_nil _ _)]

theorem Grouped.parts (h : Grouped sep dec s whole frac) :
    whole ≠ [] ∧ Numeral whole ∧ Fraction frac := by
  obtain ⟨head, groups, -, rfl, ⟨hhead, hne, -⟩, -, hgroups, hfrac⟩ := h
  refine ⟨List.append_ne_nil_of_left_ne_nil hne _, fun c hc => ?_, hfrac⟩
  rcases List.mem_append.mp hc with hc | hc
  · exact hhead c hc
  · obtain ⟨g, hg, hcg⟩ := List.mem_flatten.mp hc
    exact (hgroups g hg).1 c hcg

theorem Grouped.filter_eq (hsep : sep.isDigit = false) (hne : dec ≠ sep)
    (h : Grouped sep dec s whole frac) : s.filter (· ≠ sep) = whole ++ fraction dec frac := by
  obtain ⟨head, groups, rfl, rfl, ⟨hhead, -⟩, -, hgroups, hfrac, -⟩ := h
  have hfraction : (fraction dec frac).filter (· ≠ sep) = fraction dec frac := by
    cases frac with
    | nil => rfl
    | cons c frac =>
        rw [fraction_of_ne_nil dec (List.cons_ne_nil _ _),
          List.filter_cons_of_pos (by simpa using hne), filter_numeral hfrac hsep]
  rw [List.filter_append, List.filter_append, filter_numeral hhead hsep,
    filter_flatMap hsep fun g hg => (hgroups g hg).1, hfraction, List.append_assoc]

end Patterns

section Shapes

variable {shape shape' : AmountShape} {s whole whole' frac frac' : List Char}

theorem Written.parts (h : Written shape s whole frac) :
    whole ≠ [] ∧ Numeral whole ∧ Fraction frac := by
  cases shape with
  | plain => exact ⟨h.2.1, h.2.2.1, h.2.2.2⟩
  | copThousands => exact Grouped.parts h
  | usThousands => exact Grouped.parts h
  | decimalComma => exact ⟨h.2.1, h.2.2.1, h.2.2.2.1⟩

theorem compact_eq_self {s : List Char} (hdot : firstSeparator s ≠ (some '.', 3))
    (hcomma : (firstSeparator s).1 ≠ some ',') : compact s = s := by
  have hpattern : decimalCommaPattern.rmatch s = false := by
    rw [Bool.eq_false_iff]
    intro hmatch
    obtain ⟨whole, frac, rfl, -, hwhole, ⟨hfrac, -⟩, hne⟩ := rmatch_decimalCommaPattern.mp hmatch
    rw [firstSeparator_fraction hwhole rfl hfrac, fraction_of_ne_nil _ hne] at hcomma
    exact hcomma rfl
  rw [compact, rmatch_groupedPattern_of_firstSeparator rfl rfl hdot,
    rmatch_groupedPattern_of_firstSeparator rfl rfl fun h => hcomma (congrArg Prod.fst h), hpattern]
  rfl

/-- Each notation is normalized to its digits, with a dot before those of the fraction. -/
theorem compact_of_written (h : Written shape s whole frac) :
    compact s = whole ++ fraction '.' frac := by
  obtain ⟨hne, hwhole, hfrac, hlen⟩ := h.parts
  cases shape with
  | plain =>
      obtain ⟨rfl, -⟩ := h
      apply compact_eq_self
      · rw [firstSeparator_fraction hwhole rfl hfrac]
        intro heq
        have hthree := (Prod.mk.inj heq).2
        omega
      · rw [firstSeparator_fraction hwhole rfl hfrac]
        cases frac with
        | nil => exact fun heq => (nomatch heq)
        | cons c frac => exact fun heq => absurd (Option.some.inj heq) (by decide)
  | copThousands =>
      have hgrouped : Grouped '.' ',' s whole frac := h
      have hmatch := rmatch_groupedPattern.mpr ⟨whole, frac, hgrouped⟩
      rw [compact, if_pos hmatch, hgrouped.filter_eq rfl (by decide), replace_fraction hwhole rfl]
  | usThousands =>
      have hgrouped : Grouped ',' '.' s whole frac := h
      have hmatch := rmatch_groupedPattern.mpr ⟨whole, frac, hgrouped⟩
      have hother : (groupedPattern '.' ',').rmatch s = false := by
        refine rmatch_groupedPattern_of_firstSeparator rfl rfl ?_
        rw [hgrouped.firstSeparator_eq rfl rfl]
        decide
      rw [compact, hother, if_neg Bool.false_ne_true, if_pos hmatch,
        hgrouped.filter_eq rfl (by decide)]
  | decimalComma =>
      have hmatch := rmatch_decimalCommaPattern.mpr ⟨whole, frac, h⟩
      obtain ⟨rfl, -, -, -, hfracne⟩ := h
      have hother : ∀ sep dec : Char, sep.isDigit = false → dec.isDigit = false →
          (groupedPattern sep dec).rmatch (whole ++ fraction ',' frac) = false := by
        intro sep dec hsep hdec
        refine rmatch_groupedPattern_of_firstSeparator hsep hdec ?_
        rw [firstSeparator_fraction hwhole rfl hfrac]
        intro heq
        have hthree := (Prod.mk.inj heq).2
        omega
      rw [compact, hother '.' ',' rfl rfl, hother ',' '.' rfl rfl, if_neg Bool.false_ne_true,
        if_neg Bool.false_ne_true, if_pos hmatch, replace_fraction hwhole rfl]

theorem exists_written (h : plainPattern.rmatch (compact s)) :
    ∃ shape whole frac, Written shape s whole frac := by
  unfold compact at h
  split at h
  · rename_i hmatch
    obtain ⟨whole, frac, hgrouped⟩ := rmatch_groupedPattern.mp hmatch
    exact ⟨.copThousands, whole, frac, hgrouped⟩
  split at h
  · rename_i hmatch
    obtain ⟨whole, frac, hgrouped⟩ := rmatch_groupedPattern.mp hmatch
    exact ⟨.usThousands, whole, frac, hgrouped⟩
  split at h
  · rename_i hmatch
    exact ⟨.decimalComma, rmatch_decimalCommaPattern.mp hmatch⟩
  · exact ⟨.plain, rmatch_plainPattern.mp h⟩

theorem split_literal (hwhole : Numeral whole) (frac : List Char) :
    (whole ++ fraction '.' frac).takeWhile (· ≠ '.') = whole ∧
      ((whole ++ fraction '.' frac).dropWhile (· ≠ '.')).tail = frac := by
  have hdot : ∀ c ∈ whole, decide (c ≠ '.') = true := by
    intro c hc
    rw [decide_eq_true_eq]
    rintro rfl
    exact notMem_of_numeral hwhole rfl hc
  rw [List.takeWhile_append_of_pos hdot, List.dropWhile_append_of_pos hdot]
  cases frac with
  | nil => simp [fraction]
  | cons c frac => simp [fraction]

theorem literalValue_append (hwhole : Numeral whole) :
    literalValue (whole ++ fraction '.' frac) = amountValue whole frac := by
  rw [literalValue, (split_literal hwhole frac).1, (split_literal hwhole frac).2]

theorem Written.value_eq (h : Written shape s whole frac) :
    literalValue (compact s) = amountValue whole frac := by
  rw [compact_of_written h, literalValue_append h.parts.2.1]

theorem isNotPositive_eq_true (h : Fraction frac) :
    isNotPositive (amountValue whole frac) ↔ amountValue whole frac ≤ 0 := by
  rw [isNotPositive, decide_eq_true_eq]
  constructor
  · intro hle
    by_contra hpos
    have hnum : 1 ≤ Nat.ofDigitChars 10 (whole ++ frac) 0 := by
      rw [Nat.one_le_iff_ne_zero]
      intro hzero
      rw [amountValue, hzero, Nat.cast_zero, zero_div] at hpos
      exact hpos le_rfl
    have hcast : (1 : ℚ) ≤ (Nat.ofDigitChars 10 (whole ++ frac) 0 : ℚ) := by exact_mod_cast hnum
    have hpow : (10 : ℚ) ^ frac.length ≤ 10 ^ 2 := pow_le_pow_right₀ (by norm_num) h.2
    have hsmall : (2 : ℚ) ^ 7 ≤ 2 ^ 1075 := pow_le_pow_right₀ (by norm_num) (by norm_num)
    have hlow : (1 : ℚ) / 10 ^ 2 ≤ amountValue whole frac :=
      div_le_div₀ (zero_le_one.trans hcast) hcast (by positivity) hpow
    have hhigh : (1 : ℚ) / 2 ^ 1075 ≤ 1 / 2 ^ 7 :=
      one_div_le_one_div_of_le (by norm_num) hsmall
    have hlt : (1 : ℚ) / 2 ^ 7 < 1 / 10 ^ 2 := by norm_num
    exact absurd (hlow.trans (hle.trans hhigh)) (not_le.mpr hlt)
  · intro hle
    exact hle.trans (by positivity)

theorem compact_ne_nil (h : Written shape s whole frac) : s ≠ [] := by
  rintro rfl
  have hnil := compact_of_written h
  rw [show compact [] = [] by decide] at hnil
  exact h.parts.1 (List.append_eq_nil_iff.mp hnil.symm).1

theorem normalizeManualAmount_eq_some {raw r : String} :
    normalizeManualAmount (some raw) = some r ↔ ∃ shape whole frac,
      Written shape (withoutSpaces raw) whole frac ∧ 0 < amountValue whole frac ∧
      isFiniteNumber (amountValue whole frac) ∧ r = String.ofList (whole ++ fraction '.' frac) := by
  simp only [normalizeManualAmount]
  constructor
  · intro h
    split at h
    · cases h
    split at h
    · cases h
    rename_i hplain
    obtain ⟨shape, whole, frac, hwritten⟩ := exists_written (by simpa using hplain)
    split at h
    · cases h
    rename_i hvalue
    rw [hwritten.value_eq, Bool.or_eq_true, not_or, Bool.not_eq_true', Bool.not_eq_false,
      isNotPositive_eq_true hwritten.parts.2.2, not_le] at hvalue
    rw [compact_of_written hwritten] at h
    exact ⟨shape, whole, frac, hwritten, hvalue.2, hvalue.1, (Option.some.inj h).symm⟩
  · rintro ⟨shape, whole, frac, hwritten, hpos, hfinite, rfl⟩
    obtain ⟨hne, hwhole, hfrac⟩ := hwritten.parts
    have hplain : plainPattern.rmatch (compact (withoutSpaces raw)) := by
      rw [compact_of_written hwritten]
      exact rmatch_plainPattern.mpr ⟨whole, frac, rfl, hne, hwhole, hfrac⟩
    have hnot : isNotPositive (amountValue whole frac) = false := by
      rw [Bool.eq_false_iff, ne_eq, isNotPositive_eq_true hfrac]
      exact not_le.mpr hpos
    rw [if_neg (compact_ne_nil hwritten), hplain, hwritten.value_eq, hfinite, hnot,
      compact_of_written hwritten]
    rfl

theorem mem_literal {c : Char} (hwhole : Numeral whole) (hfrac : Numeral frac)
    (h : c ∈ whole ++ fraction '.' frac) : c = '.' ∨ c.isDigit := by
  rcases List.mem_append.mp h with h | h
  · exact Or.inr (hwhole c h)
  · cases frac with
    | nil => cases h
    | cons d frac =>
        rcases List.mem_cons.mp h with rfl | h
        · exact Or.inl rfl
        · exact Or.inr (hfrac c h)

theorem not_blank_of_mem_literal {c : Char} (h : c = '.' ∨ c.isDigit) :
    isJsWhiteSpace c = false ∧ isWhiteSpace c = false := by
  rcases h with rfl | h
  · decide
  · have hbounds := toNat_lt_of_isDigit h
    have hzero : '0'.toNat = 48 := rfl
    simp only [isJsWhiteSpace, isWhiteSpace, Bool.or_eq_false_iff, Bool.and_eq_false_iff,
      decide_eq_false_iff_not]
    omega

theorem withoutSpaces_literal (hwhole : Numeral whole) (hfrac : Numeral frac) :
    withoutSpaces (String.ofList (whole ++ fraction '.' frac)) = whole ++ fraction '.' frac := by
  have hnot : ∀ c ∈ whole ++ fraction '.' frac, isJsWhiteSpace c = false := fun c hc =>
    (not_blank_of_mem_literal (mem_literal hwhole hfrac hc)).1
  have htrim : jsTrim (String.ofList (whole ++ fraction '.' frac)) =
      String.ofList (whole ++ fraction '.' frac) := by
    have hstrip := strip_eq_self hnot
    rw [jsTrim, String.toList_ofList]
    exact congrArg String.ofList hstrip
  rw [withoutSpaces, htrim, String.toList_ofList]
  exact List.filter_eq_self.mpr fun c hc => by simp [hnot c hc]

theorem normalizeManualAmount_literal (h : Written shape s whole frac)
    (hpos : 0 < amountValue whole frac) (hfinite : isFiniteNumber (amountValue whole frac)) :
    normalizeManualAmount (some (String.ofList (whole ++ fraction '.' frac))) =
      some (String.ofList (whole ++ fraction '.' frac)) := by
  obtain ⟨hne, hwhole, hfrac⟩ := h.parts
  refine normalizeManualAmount_eq_some.mpr ⟨.plain, whole, frac, ?_, hpos, hfinite, rfl⟩
  rw [withoutSpaces_literal hwhole hfrac.1]
  exact ⟨rfl, hne, hwhole, hfrac⟩

end Shapes

def decimalValue (d : Decimal) : ℚ :=
  d.mantissa / 10 ^ d.scale

/-- `Decimal::from_str` on literals of up to two decimals: the number itself if it fits
in 96 bits, and an error otherwise. -/
def ReadsLiterals (fromStr : String → Option Decimal) : Prop :=
  ∀ whole frac : List Char, whole ≠ [] → Numeral whole → Fraction frac →
    fromStr (String.ofList (whole ++ fraction '.' frac)) =
      if Nat.ofDigitChars 10 (whole ++ frac) 0 < 2 ^ 96 then
        some ⟨Nat.ofDigitChars 10 (whole ++ frac) 0, frac.length⟩
      else none

section Server

variable {parsers : Parsers} {whole frac : List Char}

theorem trim_literal (hwhole : Numeral whole) (hfrac : Numeral frac) :
    trim (String.ofList (whole ++ fraction '.' frac)) =
      String.ofList (whole ++ fraction '.' frac) := by
  apply trim_eq_self
  rw [String.toList_ofList]
  exact fun c hc => (not_blank_of_mem_literal (mem_literal hwhole hfrac hc)).2

theorem le_amountValue_iff (n : Nat) : (n : ℚ) ≤ amountValue whole frac ↔
    n * 10 ^ frac.length ≤ Nat.ofDigitChars 10 (whole ++ frac) 0 := by
  rw [amountValue, le_div_iff₀ (by positivity)]
  exact_mod_cast Iff.rfl

theorem ofDigitChars_pos (hpos : 0 < amountValue whole frac) :
    0 < Nat.ofDigitChars 10 (whole ++ frac) 0 := by
  rw [Nat.pos_iff_ne_zero]
  intro hzero
  rw [amountValue, hzero, Nat.cast_zero, zero_div] at hpos
  exact lt_irrefl 0 hpos

theorem validateMovementAmount_literal (hparsers : ReadsLiterals parsers.decimal)
    (hne : whole ≠ []) (hwhole : Numeral whole) (hfrac : Fraction frac)
    (hpos : 0 < amountValue whole frac) {d : Decimal} :
    validateMovementAmount parsers (String.ofList (whole ++ fraction '.' frac)) = .ok d ↔
      amountValue whole frac < 1_000_000_000 ∧
        d = ⟨Nat.ofDigitChars 10 (whole ++ frac) 0, frac.length⟩ := by
  have hn := ofDigitChars_pos hpos
  have hcap : (1_000_000_000 : ℚ) ≤ amountValue whole frac ↔
      maxMoneyAmount * 10 ^ frac.length ≤ Nat.ofDigitChars 10 (whole ++ frac) 0 := by
    exact_mod_cast le_amountValue_iff maxMoneyAmount
  have hpow : 10 ^ frac.length ≤ 10 ^ 2 := Nat.pow_le_pow_right (by decide) hfrac.2
  simp only [validateMovementAmount, parseMoneyAmount, parseMoney, trim_literal hwhole hfrac.1,
    hparsers whole frac hne hwhole hfrac]
  generalize Nat.ofDigitChars 10 (whole ++ frac) 0 = n at hn hcap
  rcases lt_or_ge n (2 ^ 96) with hfits | hbig
  · have hread : (decide ((n : Int) ≤ 0) || decide (2 < frac.length)) = false := by
      simp only [Bool.or_eq_false_iff, decide_eq_false_iff_not, not_lt]
      exact ⟨by omega, hfrac.2⟩
    have hgeNat : Decimal.geNat ⟨n, frac.length⟩ maxMoneyAmount =
        decide ((1_000_000_000 : ℚ) ≤ amountValue whole frac) := by
      rw [Decimal.geNat, decide_eq_decide, hcap]
      dsimp only
      exact_mod_cast Iff.rfl
    simp only [if_pos hfits, hread, Bool.false_eq_true, if_false, hgeNat, decide_eq_true_eq]
    rcases lt_or_ge (amountValue whole frac) 1_000_000_000 with hlt | hge
    · rw [if_neg (not_le.mpr hlt), Except.ok.injEq, and_iff_right hlt, eq_comm]
    · rw [if_pos hge]
      exact iff_of_false (by simp) fun h => not_lt.mpr hge h.1
  · -- What does not fit is far above the cap.
    have hlarge : maxMoneyAmount * 10 ^ frac.length ≤ n := by
      have hmul := Nat.mul_le_mul_left maxMoneyAmount hpow
      exact hmul.trans (le_trans (by decide) hbig)
    simp only [if_neg (not_lt.mpr hbig)]
    exact iff_of_false (by simp) fun h => not_lt.mpr (hcap.mpr hlarge) h.1

theorem decimalValue_mk : decimalValue ⟨Nat.ofDigitChars 10 (whole ++ frac) 0, frac.length⟩ =
    amountValue whole frac := by
  rw [decimalValue, amountValue, Int.cast_natCast]

end Server

/-- A plain positive amount in which the client finds nothing more to normalize, the
value of the typed text in each notation that it is in, and what the server reads. -/
structure KeepsValue (parsers : Parsers) (raw r : String) : Prop where
  plain : ∃ whole frac, Written .plain r.toList whole frac
  pos : 0 < literalValue r.toList
  fixed : normalizeManualAmount (some r) = some r
  readable : ∃ shape whole frac, Written shape (withoutSpaces raw) whole frac
  value_eq : ∀ shape whole frac, Written shape (withoutSpaces raw) whole frac →
    amountValue whole frac = literalValue r.toList
  accepted : (∃ d, validateMovementAmount parsers r = .ok d) ↔
    literalValue r.toList < 1_000_000_000
  amount : ∀ d, validateMovementAmount parsers r = .ok d → decimalValue d = literalValue r.toList

/-- A normalized amount keeps its value, and each typed amount that denotes a positive
finite number is normalized. -/
theorem typedAmounts {parsers : Parsers} (hparsers : ReadsLiterals parsers.decimal)
    (raw : String) :
    (∀ r, normalizeManualAmount (some raw) = some r → KeepsValue parsers raw r) ∧
    ∀ shape whole frac, Written shape (withoutSpaces raw) whole frac →
      0 < amountValue whole frac → isFiniteNumber (amountValue whole frac) →
      ∃ r, normalizeManualAmount (some raw) = some r := by
  constructor
  · intro r hr
    obtain ⟨shape, whole, frac, hwritten, hpos, hfinite, rfl⟩ := normalizeManualAmount_eq_some.mp hr
    obtain ⟨hne, hwhole, hfrac⟩ := hwritten.parts
    have hvalue : literalValue (String.ofList (whole ++ fraction '.' frac)).toList =
        amountValue whole frac := by
      rw [String.toList_ofList, literalValue_append hwhole]
    have hserver := fun d =>
      validateMovementAmount_literal hparsers hne hwhole hfrac hpos (d := d)
    constructor
    · exact ⟨whole, frac, String.toList_ofList, hne, hwhole, hfrac⟩
    · rw [hvalue]
      exact hpos
    · exact normalizeManualAmount_literal hwritten hpos hfinite
    · exact ⟨shape, whole, frac, hwritten⟩
    · intro shape' whole' frac' h'
      rw [hvalue, ← h'.value_eq, hwritten.value_eq]
    · rw [hvalue]
      constructor
      · rintro ⟨d, hd⟩
        exact ((hserver d).mp hd).1
      · intro hcap
        exact ⟨⟨Nat.ofDigitChars 10 (whole ++ frac) 0, frac.length⟩, (hserver _).mpr ⟨hcap, rfl⟩⟩
    · intro d hd
      rw [hvalue, ((hserver d).mp hd).2, decimalValue_mk]
  · intro shape whole frac hwritten hpos hfinite
    exact ⟨_, normalizeManualAmount_eq_some.mpr ⟨shape, whole, frac, hwritten, hpos, hfinite, rfl⟩⟩

def readLiteral (s : String) : Option Decimal :=
  let whole := s.toList.takeWhile (· ≠ '.')
  let frac := (s.toList.dropWhile (· ≠ '.')).tail
  let mantissa := Nat.ofDigitChars 10 (whole ++ frac) 0
  if mantissa < 2 ^ 96 then some ⟨mantissa, frac.length⟩ else none

theorem readsLiterals_readLiteral : ReadsLiterals readLiteral := by
  intro whole frac _ hwhole _
  have hsplit := split_literal hwhole frac
  simp only [readLiteral, String.toList_ofList, hsplit]

def literalParsers : Parsers where
  decimal := readLiteral
  naiveDate _ := none
  dateTime _ := none

theorem typedAmounts_copThousands : KeepsValue literalParsers "1.500,50" "1500.50" :=
  (typedAmounts readsLiterals_readLiteral "1.500,50").1 "1500.50"
    (by decide +kernel)

end PersonalDashboard.TypedAmounts
