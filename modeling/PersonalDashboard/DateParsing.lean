import PersonalDashboard.BillingAdvance
import PersonalDashboard.JsDate
import PersonalDashboard.TextReaders
import PersonalDashboard.Validation

/-! The strings that the request handlers accept as calendar dates. -/

set_option autoImplicit false

namespace PersonalDashboard.DateParsing

open PersonalDashboard.BillingAdvance
open PersonalDashboard.Calendar
open PersonalDashboard.Calendar.NaiveDate
open PersonalDashboard.DateStrings
open PersonalDashboard.TextReaders
open PersonalDashboard.TextReaders.Reader
open PersonalDashboard.Validation

/-! ### `NaiveDate::parse_from_str` with `%Y-%m-%d` -/

def trimStart : Reader Unit := fun s =>
  some ((), s.dropWhile isWhiteSpace)

/-- `scan::number`: at least one digit, and at most as many as the width. -/
def number (width : Option Nat) : Reader Nat := fun s =>
  let all := s.takeWhile Char.isDigit
  let digits := width.elim all all.take
  if digits = [] then none
  else some (Nat.ofDigitChars 10 digits 0, s.drop digits.length)

def readSigned (sign : Char) (value : Nat → Int) : Reader Int := do
  given sign
  let n ← number none
  return value n

def readUnsigned : Reader Int := do
  let n ← number (some 4)
  return n

/-- `%Y`. -/
def readYear : Reader Int := do
  trimStart
  readSigned '-' (fun n => -(n : Int)) <|> readSigned '+' (fun n => (n : Int)) <|> readUnsigned

/-- `%m` and `%d`: at most two digits. -/
def readField : Reader Nat := do
  trimStart
  number (some 2)

def readDate : Reader (Int × Nat × Nat) := do
  let year ← readYear
  given '-'
  let month ← readField
  given '-'
  let day ← readField
  return (year, month, day)

def parseFromStr (s : String) : Option NaiveDate :=
  (readDate.parse s.toList).bind fun ymd => checkedYmd ymd.1 ymd.2.1 ymd.2.2

/-- The library reads dates with `%Y-%m-%d` as it is documented to. -/
def ReadsYmd (parsers : Parsers) : Prop :=
  ∀ s, parsers.naiveDate s = parseFromStr s

example : parseFromStr "2026-09-01" = fromYmdOpt 2026 9 1 := by
  decide +kernel

def Digits (length : Nat) (l : List Char) (value : Int) : Prop :=
  l.length = length ∧ Numeral l ∧ (Nat.ofDigitChars 10 l 0 : Int) = value

/-- Four digits, or a sign and three. -/
inductive YearText : List Char → Int → Prop where
  | plain {l : List Char} {n : Int} (h : Digits 4 l n) : YearText l n
  | minus {l : List Char} {n : Int} (h : Digits 3 l n) : YearText ('-' :: l) (-n)
  | plus {l : List Char} {n : Int} (h : Digits 3 l n) : YearText ('+' :: l) n

/-- Two digits, or a blank of one byte and a digit. -/
inductive FieldText : List Char → Int → Prop where
  | plain {l : List Char} {n : Int} (h : Digits 2 l n) : FieldText l n
  | blank {c : Char} {l : List Char} {n : Int} (hc : isWhiteSpace c) (hsize : c.utf8Size = 1)
      (h : Digits 1 l n) : FieldText (c :: l) n

structure Reads (s : String) (d : NaiveDate) (y m day : List Char) : Prop where
  toList_eq : s.toList = y ++ '-' :: (m ++ '-' :: day)
  year : YearText y d.year
  month : FieldText m d.month
  day : FieldText day d.day

/-- Exactly four digits, two and two that name a date. -/
def Strict (s : String) : Prop :=
  ∃ (d : NaiveDate) (y m day : List Char), s.toList = y ++ '-' :: (m ++ '-' :: day) ∧
    Digits 4 y d.year ∧ Digits 2 m d.month ∧ Digits 2 day d.day

/-- A date with a signed year of three digits, or a month or a day of one digit after a
blank. -/
def Padded (s : String) : Prop :=
  ∃ (d : NaiveDate) (y m day : List Char), Reads s d y m day ∧ ¬ Numeral (y ++ (m ++ day))

/-- Exactly the strict dates are accepted, as the dates that they name. -/
def StrictlyParsed (validate : String → Except Schema.AppError NaiveDate) (raw : String) : Prop :=
  ((∃ d, validate raw = .ok d) ↔ Strict (trim raw)) ∧
    ∀ d, validate raw = .ok d → formatYmd d = trim raw

theorem number_eq_some {width : Option Nat} {s rest : List Char} {n : Nat}
    (h : (number width).run s = some (n, rest)) : ∃ digits, s = digits ++ rest ∧ digits ≠ [] ∧
      (∀ w ∈ width, digits.length ≤ w) ∧ Numeral digits ∧ Nat.ofDigitChars 10 digits 0 = n := by
  change (if _ then none else some (_, _)) = some (n, rest) at h
  obtain ⟨hne, heq⟩ := Option.ite_none_left_eq_some.mp h
  obtain ⟨hn, rfl⟩ := Prod.mk.inj (Option.some.inj heq)
  have hpre : width.elim (s.takeWhile Char.isDigit) (s.takeWhile Char.isDigit).take <+:
      s.takeWhile Char.isDigit := by
    cases width with
    | none => exact List.prefix_rfl
    | some w => exact List.take_prefix w _
  obtain ⟨t, ht⟩ := hpre.trans (List.takeWhile_prefix Char.isDigit)
  refine ⟨_, ?_, hne, ?_, fun c hc => List.mem_takeWhile_imp (hpre.subset hc), hn⟩
  · exact (List.prefix_iff_eq_append.mp ⟨t, ht⟩).symm
  · rintro w rfl
    exact List.length_take_le w _

theorem takeWhile_digits {digits rest : List Char} (h : Numeral digits)
    (hrest : ∀ c ∈ rest.head?, c.isDigit = false) :
    (digits ++ rest).takeWhile Char.isDigit = digits := by
  rw [List.takeWhile_append_of_pos h]
  cases rest with
  | nil => exact List.append_nil _
  | cons c rest =>
      rw [List.takeWhile_cons_of_neg (by simp [hrest c rfl]), List.append_nil]

theorem run_number {width : Option Nat} {digits rest : List Char} (hne : digits ≠ [])
    (hwidth : ∀ w ∈ width, digits.length ≤ w) (h : Numeral digits)
    (hrest : ∀ c ∈ rest.head?, c.isDigit = false) :
    (number width).run (digits ++ rest) = some (Nat.ofDigitChars 10 digits 0, rest) := by
  have hall : width.elim digits digits.take = digits := by
    cases width with
    | none => rfl
    | some w => exact List.take_of_length_le (hwidth w rfl)
  change (if _ then none else some (_, _)) = _
  rw [takeWhile_digits h hrest, hall, if_neg hne, List.drop_left]

theorem readField_eq_some {s rest : List Char} {n : Nat} (h : readField.run s = some (n, rest)) :
    ∃ blanks digits, s = blanks ++ (digits ++ rest) ∧ (∀ c ∈ blanks, isWhiteSpace c) ∧
      digits ≠ [] ∧ digits.length ≤ 2 ∧ Numeral digits ∧ Nat.ofDigitChars 10 digits 0 = n := by
  have hnumber : (number (some 2)).run (s.dropWhile isWhiteSpace) = some (n, rest) := h
  obtain ⟨digits, hs, hne, hwidth, hdigits, hn⟩ := number_eq_some hnumber
  obtain ⟨blanks, hblanks, hall⟩ := exists_dropWhile isWhiteSpace s
  exact ⟨blanks, digits, by rw [← hs, ← hblanks], hall, hne, hwidth 2 rfl, hdigits, hn⟩

/-- A sign or a digit, then digits; and with four characters, one of the year texts. -/
structure YearChars (y : List Char) (n : Int) : Prop where
  sign : ∀ c ∈ y, c = '-' ∨ c = '+' ∨ c.isDigit
  tail : Numeral y.tail
  text : y.length = 4 → YearText y n

theorem yearChars_sign {sign : Char} {s rest : List Char} {n : Int} {f : Nat → Int}
    (hsign : sign = '-' ∨ sign = '+')
    (htext : ∀ l : List Char, Digits 3 l (Nat.ofDigitChars 10 l 0) →
      YearText (sign :: l) (f (Nat.ofDigitChars 10 l 0)))
    (h : (readSigned sign f).run s = some (n, rest)) :
    ∃ y, s = y ++ rest ∧ YearChars y n := by
  rw [readSigned, StateT.run_bind] at h
  obtain ⟨⟨_, mid⟩, hgiven, hrest⟩ := Option.bind_eq_some_iff.mp h
  rw [StateT.run_bind] at hrest
  obtain ⟨⟨k, mid'⟩, hnumber, hpure⟩ := Option.bind_eq_some_iff.mp hrest
  obtain ⟨rfl, rfl⟩ := Prod.mk.inj (Option.some.inj hpure)
  obtain ⟨digits, rfl, -, -, hdigits, rfl⟩ := number_eq_some hnumber
  obtain rfl := run_given hgiven
  refine ⟨sign :: digits, rfl, fun c hc => ?_, hdigits, fun hlen => ?_⟩
  · rcases List.mem_cons.mp hc with rfl | hc
    · exact hsign.imp_right Or.inl
    · exact Or.inr (Or.inr (hdigits c hc))
  · exact htext digits ⟨Nat.succ.inj hlen, hdigits, rfl⟩

theorem yearChars_plain {s rest : List Char} {n : Int}
    (h : readUnsigned.run s = some (n, rest)) :
    ∃ y, s = y ++ rest ∧ YearChars y n := by
  rw [readUnsigned, StateT.run_bind] at h
  obtain ⟨⟨k, mid⟩, hnumber, hpure⟩ := Option.bind_eq_some_iff.mp h
  obtain ⟨rfl, rfl⟩ := Prod.mk.inj (Option.some.inj hpure)
  obtain ⟨digits, rfl, -, -, hdigits, rfl⟩ := number_eq_some hnumber
  refine ⟨digits, rfl, fun c hc => Or.inr (Or.inr (hdigits c hc)),
    fun c hc => hdigits c (List.mem_of_mem_tail hc), fun hlen => ?_⟩
  exact .plain ⟨hlen, hdigits, rfl⟩

theorem run_readYear_eq {s : List Char} (hs : ∀ c ∈ s.head?, isWhiteSpace c = false) :
    readYear.run s = ((readSigned '-' fun n => -(n : Int)).run s).or
      (((readSigned '+' fun n => (n : Int)).run s).or (readUnsigned.run s)) := by
  have htrim : trimStart.run s = some ((), s) := by
    change some ((), s.dropWhile isWhiteSpace) = _
    rw [dropWhile_of_head? hs]
  rw [readYear, StateT.run_bind, htrim, Option.bind_eq_bind, Option.bind_some, run_orElse,
    run_orElse]

theorem readYear_eq_some {s rest : List Char} {n : Int} (hs : ∀ c ∈ s.head?, isWhiteSpace c = false)
    (h : readYear.run s = some (n, rest)) : ∃ y, s = y ++ rest ∧ YearChars y n := by
  rw [run_readYear_eq hs, Option.or_eq_some_iff, Option.or_eq_some_iff] at h
  rcases h with h | ⟨-, h | ⟨-, h⟩⟩
  · exact yearChars_sign (Or.inl rfl) (fun _ hl => .minus hl) h
  · exact yearChars_sign (Or.inr rfl) (fun _ hl => .plus hl) h
  · exact yearChars_plain h

def bytesOf (l : List Char) : List UInt8 :=
  l.flatMap String.utf8EncodeChar

theorem byteLen_eq (s : String) : byteLen s = (bytesOf s.toList).length := by
  conv_lhs => rw [← String.ofList_toList (s := s)]
  exact List.size_toByteArray

theorem byteAt_eq (s : String) (i : Nat) : byteAt s i = (bytesOf s.toList)[i]? := by
  conv_lhs => rw [← String.ofList_toList (s := s)]
  change (bytesOf s.toList).toByteArray[i]? = _
  by_cases hi : i < (bytesOf s.toList).length
  · rw [getElem?_pos _ i (by rwa [List.size_toByteArray]), getElem?_pos _ i hi,
      List.getElem_toByteArray]
  · rw [getElem?_neg _ i (by rwa [List.size_toByteArray]), getElem?_neg _ i hi]

theorem bytesOf_append (l l' : List Char) : bytesOf (l ++ l') = bytesOf l ++ bytesOf l' :=
  List.flatMap_append

theorem bytesOf_cons (c : Char) (l : List Char) :
    bytesOf (c :: l) = String.utf8EncodeChar c ++ bytesOf l :=
  List.flatMap_cons

theorem bytesOf_ascii {l : List Char} (h : ∀ c ∈ l, c.utf8Size = 1) :
    bytesOf l = l.map fun c => c.val.toUInt8 := by
  induction l with
  | nil => rfl
  | cons c l ih =>
      rw [bytesOf_cons, String.utf8EncodeChar_eq_singleton (h c List.mem_cons_self),
        ih fun c hc => h c (List.mem_cons_of_mem _ hc), List.map_cons, List.singleton_append]

theorem utf8Size_of_isDigit {c : Char} (h : c.isDigit) : c.utf8Size = 1 := by
  have hlt := (toNat_lt_of_isDigit h).2
  refine Char.utf8Size_eq_one_iff.mpr ?_
  change c.val.toNat ≤ 127
  exact (Nat.le_of_lt_succ hlt).trans (by decide)

theorem val_of_isDigit {c : Char} (h : c.isDigit) : c.val.toUInt8 ≠ 45 := by
  have hbounds := toNat_lt_of_isDigit h
  intro heq
  have hval : c.val.toNat % 256 = 45 := congrArg UInt8.toNat heq
  change 48 ≤ c.val.toNat ∧ c.val.toNat < 58 at hbounds
  omega

theorem bytesOf_numeral {l : List Char} (h : Numeral l) :
    (bytesOf l).length = l.length ∧ 45 ∉ bytesOf l := by
  rw [bytesOf_ascii fun c hc => utf8Size_of_isDigit (h c hc), List.length_map]
  refine ⟨rfl, fun hmem => ?_⟩
  obtain ⟨c, hc, hval⟩ := List.mem_map.mp hmem
  exact val_of_isDigit (h c hc) hval

def whiteSpaces : List Nat :=
  [9, 10, 11, 12, 13, 0x20, 0x85, 0xA0, 0x1680, 0x2000, 0x2001, 0x2002, 0x2003, 0x2004, 0x2005,
    0x2006, 0x2007, 0x2008, 0x2009, 0x200A, 0x2028, 0x2029, 0x202F, 0x205F, 0x3000]

theorem dash_notMem_of_isWhiteSpace {c : Char} (h : isWhiteSpace c) :
    45 ∉ String.utf8EncodeChar c := by
  have hall : ∀ n ∈ whiteSpaces, 45 ∉ String.utf8EncodeChar (Char.ofNat n) := by
    decide +kernel
  have hmem : c.toNat ∈ whiteSpaces := by
    simp only [isWhiteSpace, Bool.or_eq_true, Bool.and_eq_true, decide_eq_true_eq] at h
    simp only [whiteSpaces, List.mem_cons, List.not_mem_nil, or_false]
    omega
  have hc := hall c.toNat hmem
  rwa [Char.ofNat_toNat] at hc

theorem dash_notMem_blanks {l : List Char} (h : ∀ c ∈ l, isWhiteSpace c) : 45 ∉ bytesOf l := by
  intro hmem
  obtain ⟨c, hc, hbyte⟩ := List.mem_flatMap.mp hmem
  exact dash_notMem_of_isWhiteSpace (h c hc) hbyte

theorem index_of_dash {A B C : List UInt8} (hA : 45 ∉ A.tail) (hB : 45 ∉ B) (hC : 45 ∉ C) {i : Nat}
    (h : (A ++ 45 :: (B ++ 45 :: C))[i]? = some 45) :
    i = 0 ∨ i = A.length ∨ i = A.length + 1 + B.length := by
  by_contra hne
  push Not at hne
  obtain ⟨hzero, hfirst, hsecond⟩ := hne
  obtain ⟨k, rfl⟩ := Nat.exists_eq_succ_of_ne_zero hzero
  rcases Nat.lt_or_gt_of_ne hfirst with hlt | hgt
  · rw [List.getElem?_append_left hlt, ← List.getElem?_tail] at h
    exact hA (List.mem_of_getElem? h)
  obtain ⟨j, hj⟩ := Nat.exists_eq_add_of_lt hgt
  rw [hj, Nat.add_assoc, List.getElem?_append_right (Nat.le_add_right _ _), Nat.add_sub_cancel_left,
    List.getElem?_cons_succ] at h
  rcases Nat.lt_trichotomy j B.length with hlt | heq | hgt'
  · rw [List.getElem?_append_left hlt] at h
    exact hB (List.mem_of_getElem? h)
  · omega
  · obtain ⟨j', rfl⟩ := Nat.exists_eq_add_of_lt hgt'
    rw [Nat.add_assoc, List.getElem?_append_right (Nat.le_add_right _ _), Nat.add_sub_cancel_left,
      List.getElem?_cons_succ] at h
    exact hC (List.mem_of_getElem? h)

theorem fieldText_of_length {blanks digits : List Char} (hblanks : ∀ c ∈ blanks, isWhiteSpace c)
    (hne : digits ≠ []) (hdigits : Numeral digits)
    (hlen : (bytesOf (blanks ++ digits)).length = 2) :
    FieldText (blanks ++ digits) (Nat.ofDigitChars 10 digits 0) := by
  rw [bytesOf_append, List.length_append, (bytesOf_numeral hdigits).1] at hlen
  have hpos := List.length_pos_iff.mpr hne
  cases blanks with
  | nil => exact .plain ⟨by simpa [bytesOf] using hlen, hdigits, rfl⟩
  | cons c blanks =>
      rw [bytesOf_cons, List.length_append, String.length_utf8EncodeChar] at hlen
      have hc := c.utf8Size_pos
      have hsize : c.utf8Size = 1 := by omega
      have hone : digits.length = 1 := by omega
      have hnil : bytesOf blanks = [] := List.length_eq_zero_iff.mp (by omega)
      have hblanks' : blanks = [] := by
        rw [bytesOf, List.flatMap_eq_nil_iff] at hnil
        exact List.eq_nil_iff_forall_not_mem.mpr fun d hd =>
          String.utf8EncodeChar_ne_nil (hnil d hd)
      subst hblanks'
      exact .blank (hblanks c List.mem_cons_self) hsize ⟨hone, hdigits, rfl⟩

theorem readDate_eq_some {s : List Char} {year : Int} {month day : Nat}
    (hs : ∀ c ∈ s.head?, isWhiteSpace c = false)
    (h : readDate.parse s = some (year, month, day)) :
    ∃ y b m b' d, s = y ++ '-' :: (b ++ m ++ '-' :: (b' ++ d)) ∧ YearChars y year ∧
      (∀ c ∈ b, isWhiteSpace c) ∧ (∀ c ∈ b', isWhiteSpace c) ∧
      m ≠ [] ∧ Numeral m ∧ Nat.ofDigitChars 10 m 0 = month ∧
      d ≠ [] ∧ Numeral d ∧ Nat.ofDigitChars 10 d 0 = day := by
  have hrun := parse_eq_some.mp h
  rw [readDate, StateT.run_bind] at hrun
  obtain ⟨⟨y, s₁⟩, hyear, h₁⟩ := Option.bind_eq_some_iff.mp hrun
  rw [StateT.run_bind] at h₁
  obtain ⟨⟨_, s₂⟩, hdash, h₂⟩ := Option.bind_eq_some_iff.mp h₁
  rw [StateT.run_bind] at h₂
  obtain ⟨⟨m, s₃⟩, hmonth, h₃⟩ := Option.bind_eq_some_iff.mp h₂
  rw [StateT.run_bind] at h₃
  obtain ⟨⟨_, s₄⟩, hdash', h₄⟩ := Option.bind_eq_some_iff.mp h₃
  rw [StateT.run_bind] at h₄
  obtain ⟨⟨d, s₅⟩, hday, h₅⟩ := Option.bind_eq_some_iff.mp h₄
  obtain ⟨hymd, rfl⟩ := Prod.mk.inj (Option.some.inj h₅)
  simp only [Prod.mk.injEq] at hymd
  obtain ⟨rfl, rfl, rfl⟩ := hymd
  obtain ⟨yl, rfl, hy⟩ := readYear_eq_some hs hyear
  obtain rfl := run_given hdash
  obtain ⟨b, ml, rfl, hb, hmne, -, hm, hmv⟩ := readField_eq_some hmonth
  obtain rfl := run_given hdash'
  obtain ⟨b', dl, rfl, hb', hdne, -, hd, hdv⟩ := readField_eq_some hday
  refine ⟨yl, b, ml, b', dl, ?_, hy, hb, hb', hmne, hm, hmv, hdne, hd, hdv⟩
  simp

theorem fields_of_checkedYmd {year : Int} {month day : Nat} {d : NaiveDate}
    (h : checkedYmd year month day = some d) :
    d.year = year ∧ d.month = month ∧ d.day = day := by
  obtain ⟨-, hymd⟩ := Option.ite_none_right_eq_some.mp h
  obtain ⟨_, hd⟩ := Option.dite_none_right_eq_some.mp hymd
  obtain rfl := Option.some.inj hd
  exact ⟨rfl, rfl, rfl⟩

theorem bytesOf_yearChars {y : List Char} {n : Int} (h : YearChars y n) :
    (bytesOf y).length = y.length ∧ 45 ∉ (bytesOf y).tail := by
  have hsize : ∀ c ∈ y, c.utf8Size = 1 := by
    intro c hc
    rcases h.sign c hc with rfl | rfl | hdigit
    · rfl
    · rfl
    · exact utf8Size_of_isDigit hdigit
  have htail := bytesOf_numeral h.tail
  rw [bytesOf_ascii fun c hc => utf8Size_of_isDigit (h.tail c hc)] at htail
  rw [bytesOf_ascii hsize, List.length_map, ← List.map_tail]
  exact ⟨rfl, htail.2⟩

theorem dash_notMem_field {b l : List Char} (hb : ∀ c ∈ b, isWhiteSpace c) (hl : Numeral l) :
    45 ∉ bytesOf (b ++ l) := by
  rw [bytesOf_append, List.mem_append]
  exact fun hmem => hmem.elim (dash_notMem_blanks hb) (bytesOf_numeral hl).2

theorem bytesOf_dash_cons (l : List Char) : bytesOf ('-' :: l) = 45 :: bytesOf l :=
  rfl

theorem reads_of_parse {s : String} {d : NaiveDate}
    (hs : ∀ c ∈ s.toList.head?, isWhiteSpace c = false) (hlen : byteLen s = 10)
    (hfour : byteAt s 4 = some 45) (hseven : byteAt s 7 = some 45)
    (h : parseFromStr s = some d) : ∃ y m day, Reads s d y m day := by
  obtain ⟨⟨year, month, day⟩, hparse, hymd⟩ := Option.bind_eq_some_iff.mp h
  obtain ⟨y, b, m, b', dd, hlist, hy, hb, hb', hmne, hm, rfl, hdne, hd, rfl⟩ :=
    readDate_eq_some hs hparse
  obtain ⟨hdyear, hdmonth, hdday⟩ := fields_of_checkedYmd hymd
  have hbytes : bytesOf s.toList =
      bytesOf y ++ 45 :: (bytesOf (b ++ m) ++ 45 :: bytesOf (b' ++ dd)) := by
    rw [hlist, bytesOf_append, bytesOf_dash_cons, bytesOf_append, bytesOf_dash_cons]
  obtain ⟨hylen, hytail⟩ := bytesOf_yearChars hy
  have hindex : ∀ i, byteAt s i = some 45 →
      i = 0 ∨ i = (bytesOf y).length ∨ i = (bytesOf y).length + 1 + (bytesOf (b ++ m)).length := by
    intro i hi
    rw [byteAt_eq, hbytes] at hi
    exact index_of_dash hytail (dash_notMem_field hb hm) (dash_notMem_field hb' hd) hi
  have hi := hindex 4 hfour
  have hi' := hindex 7 hseven
  rw [byteLen_eq, hbytes, List.length_append, List.length_cons, List.length_append,
    List.length_cons] at hlen
  refine ⟨y, b ++ m, b' ++ dd, hlist, ?_, ?_, ?_⟩
  · rw [hdyear]
    exact hy.text (by omega)
  · rw [hdmonth]
    exact fieldText_of_length hb hmne hm (by omega)
  · rw [hdday]
    exact fieldText_of_length hb' hdne hd (by omega)

theorem isWhiteSpace_of_isDigit {c : Char} (h : c.isDigit) : isWhiteSpace c = false := by
  have hbounds := toNat_lt_of_isDigit h
  have hzero : '0'.toNat = 48 := rfl
  simp only [isWhiteSpace, Bool.or_eq_false_iff, Bool.and_eq_false_iff, decide_eq_false_iff_not]
  omega

theorem ne_of_isDigit {c d : Char} (h : c.isDigit) (hd : d.isDigit = false) : c ≠ d := by
  rintro rfl
  rw [hd] at h
  cases h

theorem Digits.exists_cons {length : Nat} {l : List Char} {n : Int} (h : Digits (length + 1) l n) :
    ∃ c l', l = c :: l' ∧ c.isDigit := by
  obtain ⟨hlen, hl, -⟩ := h
  cases l with
  | nil => cases hlen
  | cons c l' => exact ⟨c, l', rfl, hl c List.mem_cons_self⟩

theorem head?_append_of_cons {l rest : List Char} {p : Char → Prop} (hne : l ≠ [])
    (h : ∀ c ∈ l, p c) : ∀ c ∈ (l ++ rest).head?, p c := by
  intro c hc
  rw [List.head?_append_of_ne_nil l hne] at hc
  exact h c (List.mem_of_mem_head? hc)

theorem YearText.head {y : List Char} {n : Int} (h : YearText y n) (rest : List Char) :
    ∀ c ∈ (y ++ rest).head?, isWhiteSpace c = false := by
  cases h with
  | plain h =>
      obtain ⟨c, l, rfl, hc⟩ := h.exists_cons
      rintro d hd
      obtain rfl := Option.some.inj hd
      exact isWhiteSpace_of_isDigit hc
  | minus h =>
      rintro d hd
      obtain rfl := Option.some.inj hd
      decide
  | plus h =>
      rintro d hd
      obtain rfl := Option.some.inj hd
      decide

theorem run_readYear {y : List Char} {n : Int} (h : YearText y n) (rest : List Char) :
    readYear.run (y ++ '-' :: rest) = some (n, '-' :: rest) := by
  rw [run_readYear_eq (h.head _)]
  have hrest : ∀ c ∈ ('-' :: rest).head?, c.isDigit = false := by
    rintro c hc
    obtain rfl := Option.some.inj hc
    decide
  have hnumber : ∀ (width : Option Nat) {length : Nat} {l : List Char} {k : Int},
      (∀ w ∈ width, length + 1 ≤ w) → Digits (length + 1) l k →
        (number width).run (l ++ '-' :: rest) = some (Nat.ofDigitChars 10 l 0, '-' :: rest) := by
    intro width length l k hwidth hl
    have hne : l ≠ [] := by
      obtain ⟨c, l', rfl, -⟩ := hl.exists_cons
      exact List.cons_ne_nil _ _
    exact run_number hne (fun w hw => hl.1 ▸ hwidth w hw) hl.2.1 hrest
  cases h with
  | plain h =>
      have hrun := hnumber (some 4) (by simp) h
      obtain ⟨c, l, rfl, hc⟩ := h.exists_cons
      have hminus : c ≠ '-' := ne_of_isDigit hc rfl
      have hplus : c ≠ '+' := ne_of_isDigit hc rfl
      simp only [readSigned, readUnsigned, StateT.run_bind, List.cons_append,
        run_given_of_ne hminus, run_given_of_ne hplus] at hrun ⊢
      simp [hrun, h.2.2]
  | minus h =>
      have hrun := hnumber none (by simp) h
      simp only [readSigned, StateT.run_bind, List.cons_append, run_given_self]
      simp [hrun, h.2.2]
  | plus h =>
      have hrun := hnumber none (by simp) h
      simp only [readSigned, StateT.run_bind, List.cons_append, run_given_self,
        run_given_of_ne (show '+' ≠ '-' by decide)]
      simp [hrun, h.2.2]

theorem run_readField {m rest : List Char} {n : Nat} (h : FieldText m n)
    (hrest : ∀ c ∈ rest.head?, c.isDigit = false) : readField.run (m ++ rest) = some (n, rest) := by
  have hnumber : ∀ {length : Nat} {l : List Char}, Digits (length + 1) l n → length ≤ 1 →
      (number (some 2)).run ((l ++ rest).dropWhile isWhiteSpace) = some (n, rest) := by
    intro length l hl hlength
    have hvalue : Nat.ofDigitChars 10 l 0 = n := Int.ofNat_inj.mp hl.2.2
    have hne : l ≠ [] := by
      obtain ⟨c, l', rfl, -⟩ := hl.exists_cons
      exact List.cons_ne_nil _ _
    rw [dropWhile_of_head? (head?_append_of_cons hne fun c hc => isWhiteSpace_of_isDigit
      (hl.2.1 c hc)), ← hvalue]
    refine run_number hne ?_ hl.2.1 hrest
    rintro w ⟨⟩
    rw [hl.1]
    exact Nat.succ_le_succ hlength
  change (number (some 2)).run ((m ++ rest).dropWhile isWhiteSpace) = some (n, rest)
  cases h with
  | plain h => exact hnumber h le_rfl
  | blank hc _ h =>
      rw [List.cons_append, List.dropWhile_cons_of_pos hc]
      exact hnumber h (Nat.zero_le 1)

theorem FieldText.head {m : List Char} {n : Int} (h : FieldText m n) : m.length = 2 ∧
    (∀ c ∈ m, c.utf8Size = 1) := by
  cases h with
  | plain h => exact ⟨h.1, fun c hc => utf8Size_of_isDigit (h.2.1 c hc)⟩
  | blank _ hsize h =>
      refine ⟨congrArg Nat.succ h.1, fun c hc => ?_⟩
      rcases List.mem_cons.mp hc with rfl | hc
      · exact hsize
      · exact utf8Size_of_isDigit (h.2.1 c hc)

theorem YearText.length {y : List Char} {n : Int} (h : YearText y n) : y.length = 4 ∧
    (∀ c ∈ y, c.utf8Size = 1) := by
  have hcons : ∀ {sign : Char} {l : List Char} {k : Int}, sign.utf8Size = 1 → Digits 3 l k →
      (sign :: l).length = 4 ∧ ∀ c ∈ sign :: l, c.utf8Size = 1 := by
    intro sign l k hsign hl
    refine ⟨congrArg Nat.succ hl.1, fun c hc => ?_⟩
    rcases List.mem_cons.mp hc with rfl | hc
    · exact hsign
    · exact utf8Size_of_isDigit (hl.2.1 c hc)
  cases h with
  | plain h => exact ⟨h.1, fun c hc => utf8Size_of_isDigit (h.2.1 c hc)⟩
  | minus h => exact hcons rfl h
  | plus h => exact hcons rfl h

theorem Digits.bounds {length : Nat} {l : List Char} {n : Int} (h : Digits length l n) :
    0 ≤ n ∧ n < (10 ^ length : Nat) := by
  obtain ⟨rfl, hnum, rfl⟩ := h
  exact ⟨Int.natCast_nonneg _, Int.ofNat_lt.mpr (ofDigitChars_lt hnum)⟩

theorem YearText.bounds {y : List Char} {n : Int} (h : YearText y n) : -999 ≤ n ∧ n ≤ 9999 := by
  cases h with
  | plain h | minus h | plus h =>
      have hbounds := h.bounds
      omega

section Acceptance

variable {s : String} {d : NaiveDate} {y m day : List Char}

theorem Reads.parse (h : Reads s d y m day) : parseFromStr s = some d := by
  have hbounds := h.year.bounds
  have hymd : checkedYmd d.year d.month d.day = some d :=
    checkedYmd_self (by simp only [minYear]; omega) (by simp only [maxYear]; omega)
  have hdash : ∀ c ∈ ('-' :: day).head?, c.isDigit = false := by
    rintro c ⟨⟩
    decide
  have hyear := run_readYear h.year (m ++ '-' :: day)
  have hmonth := run_readField h.month hdash
  have hday : readField.run (day ++ []) = some (d.day, []) :=
    run_readField h.day (by simp)
  rw [List.append_nil] at hday
  have hrun : readDate.run s.toList = some ((d.year, d.month, d.day), []) := by
    simp only [readDate, h.toList_eq, StateT.run_bind, hyear, run_given_self, hmonth, hday,
      Option.bind_eq_bind, Option.bind_some]
    rfl
  rw [parseFromStr, parse_eq_some.mpr hrun, Option.bind_some, hymd]

theorem Reads.bytes (h : Reads s d y m day) :
    byteLen s = 10 ∧ byteAt s 4 = some 45 ∧ byteAt s 7 = some 45 := by
  obtain ⟨hylen, hysize⟩ := h.year.length
  obtain ⟨hmlen, hmsize⟩ := h.month.head
  obtain ⟨hdlen, hdsize⟩ := h.day.head
  have hbytes : ∀ {l : List Char}, (∀ c ∈ l, c.utf8Size = 1) → (bytesOf l).length = l.length :=
    fun hl => by rw [bytesOf_ascii hl, List.length_map]
  have hlist : bytesOf s.toList = bytesOf y ++ 45 :: (bytesOf m ++ 45 :: bytesOf day) := by
    rw [h.toList_eq, bytesOf_append, bytesOf_dash_cons, bytesOf_append, bytesOf_dash_cons]
  have hy := (hbytes hysize).trans hylen
  have hm := (hbytes hmsize).trans hmlen
  have hd := (hbytes hdsize).trans hdlen
  refine ⟨?_, ?_, ?_⟩
  · rw [byteLen_eq, hlist, List.length_append, List.length_cons, List.length_append,
      List.length_cons, hy, hm, hd]
  · rw [byteAt_eq, hlist, List.getElem?_append_right hy.le, hy]
    rfl
  · rw [byteAt_eq, hlist, List.getElem?_append_right (by omega), hy, List.getElem?_cons_succ,
      List.getElem?_append_right hm.le, hm]
    rfl

theorem Digits.eq_padded {width : Nat} {l : List Char} {n : Int} (hwidth : 0 < width)
    (h : Digits width l n) : l = padded width n.natAbs := by
  obtain ⟨hlen, hl, hvalue⟩ := h
  have hn : n.natAbs = Nat.ofDigitChars 10 l 0 := by omega
  have hlt := ofDigitChars_lt hl
  rw [hlen, ← hn] at hlt
  refine JsDate.eq_of_digits (n := n.natAbs) ?_ (JsDate.digits_padded width n.natAbs) ?_
  · rw [JsDate.digits, if_pos (List.all_eq_true.mpr hl), hn]
  · rw [hlen, length_padded hwidth hlt]

theorem digits_padded {width n : Nat} (hwidth : 0 < width) (h : n < 10 ^ width) :
    Digits width (padded width n) n :=
  ⟨length_padded hwidth h, numeral_padded width n, congrArg Nat.cast (ofDigitChars_padded width n)⟩

theorem Reads.digits (h : Reads s d y m day) (hnum : Numeral (y ++ (m ++ day))) :
    Digits 4 y d.year ∧ Digits 2 m d.month ∧ Digits 2 day d.day := by
  have hnum' : Numeral y ∧ Numeral m ∧ Numeral day :=
    ⟨fun c hc => hnum c (by simp [hc]), fun c hc => hnum c (by simp [hc]),
      fun c hc => hnum c (by simp [hc])⟩
  have hyear : ∀ {y : List Char} {n : Int}, YearText y n → Numeral y → Digits 4 y n := by
    intro y n hy hall
    cases hy with
    | plain h => exact h
    | minus _ => exact absurd (hall '-' List.mem_cons_self) (by decide)
    | plus _ => exact absurd (hall '+' List.mem_cons_self) (by decide)
  have hfield : ∀ {l : List Char} {n : Int}, FieldText l n → Numeral l → Digits 2 l n := by
    intro l n hl hl'
    cases hl with
    | plain h => exact h
    | @blank c _ _ hc _ _ =>
        have hblank := isWhiteSpace_of_isDigit (hl' c List.mem_cons_self)
        rw [hc] at hblank
        cases hblank
  exact ⟨hyear h.year hnum'.1, hfield h.month hnum'.2.1, hfield h.day hnum'.2.2⟩

theorem dateChars_eq (h : 0 ≤ d.year) (h' : d.year ≤ 9999) : dateChars d =
    padded 4 d.year.natAbs ++ '-' :: (padded 2 d.month ++ '-' :: padded 2 d.day) := by
  rw [dateChars, yearChars_of_le h h']

theorem Reads.format_iff (h : Reads s d y m day) :
    formatYmd d = s ↔ Numeral (y ++ (m ++ day)) := by
  have hbounds := h.year.bounds
  have hmonth : d.month < 10 ^ 2 := by have := d.month_le; omega
  have hday := day_lt d
  have hm := digits_padded (show 0 < 2 by decide) hmonth
  have hd := digits_padded (show 0 < 2 by decide) hday
  constructor
  · intro heq
    have hlist : dateChars d = y ++ '-' :: (m ++ '-' :: day) := by
      rw [← h.toList_eq, ← heq, formatYmd, String.toList_ofList]
    obtain ⟨hylen, -⟩ := h.year.length
    obtain ⟨hmlen, -⟩ := h.month.head
    obtain ⟨hdlen, -⟩ := h.day.head
    rcases lt_or_ge d.year 0 with hneg | hpos
    · have hy := (digits_padded (n := d.year.natAbs) (show 0 < 4 by decide) (by omega)).1
      have hlen := congrArg List.length hlist
      rw [dateChars, yearChars, if_pos hneg] at hlen
      simp only [List.length_append, List.length_cons, hy, hm.1, hd.1, hylen, hmlen, hdlen] at hlen
      omega
    · have hy := digits_padded (n := d.year.natAbs) (show 0 < 4 by decide) (by omega)
      rw [dateChars_eq hpos hbounds.2] at hlist
      obtain ⟨rfl, hrest⟩ := List.append_inj hlist (hy.1.trans hylen.symm)
      obtain ⟨rfl, hrest'⟩ := List.append_inj (List.cons.inj hrest).2 (hm.1.trans hmlen.symm)
      obtain rfl := (List.cons.inj hrest').2
      exact List.forall_mem_append.mpr ⟨hy.2.1, List.forall_mem_append.mpr ⟨hm.2.1, hd.2.1⟩⟩
  · intro hnum
    obtain ⟨hy, hm', hd'⟩ := h.digits hnum
    have hpos : 0 ≤ d.year := by
      rw [← hy.2.2]
      exact Int.natCast_nonneg _
    apply String.toList_injective
    rw [formatYmd, String.toList_ofList, h.toList_eq, dateChars_eq hpos hbounds.2,
      hy.eq_padded (by decide), hm'.eq_padded (by decide), hd'.eq_padded (by decide),
      Int.natAbs_natCast, Int.natAbs_natCast]

variable {parsers : Parsers} {msg raw : String}

theorem head?_trim (raw : String) : ∀ c ∈ (trim raw).toList.head?, isWhiteSpace c = false := by
  rw [trim, String.toList_ofList]
  exact head?_strip

theorem parseCalendarDate_eq_ok (hparsers : ReadsYmd parsers) :
    parseCalendarDate parsers msg raw = .ok d ↔ ∃ y m day, Reads (trim raw) d y m day := by
  simp only [parseCalendarDate, hparsers (trim raw)]
  constructor
  · intro h
    split at h
    · rename_i hbytes
      split at h
      · rename_i d' hparse
        rw [Except.ok.injEq] at h
        rw [h] at hparse
        exact reads_of_parse (head?_trim raw) hbytes.1 hbytes.2.1 hbytes.2.2 hparse
      · cases h
    · cases h
  · rintro ⟨y, m, day, h⟩
    simp only [h.bytes, and_self, if_true, h.parse]

theorem strictlyParsed_parseCalendarDate (hparsers : ReadsYmd parsers) :
    StrictlyParsed (parseCalendarDate parsers msg) raw ↔ ¬ Padded (trim raw) := by
  constructor
  · rintro ⟨-, hformat⟩ ⟨d, y, m, day, h, hnot⟩
    exact hnot (h.format_iff.mp (hformat d ((parseCalendarDate_eq_ok hparsers).mpr ⟨y, m, day, h⟩)))
  · intro hpadded
    have hnum : ∀ {d y m day}, Reads (trim raw) d y m day → Numeral (y ++ (m ++ day)) :=
      fun h => by_contra fun hnot => hpadded ⟨_, _, _, _, h, hnot⟩
    refine ⟨⟨?_, ?_⟩, fun d hd => ?_⟩
    · rintro ⟨d, hd⟩
      obtain ⟨y, m, day, h⟩ := (parseCalendarDate_eq_ok hparsers).mp hd
      exact ⟨d, y, m, day, h.toList_eq, h.digits (hnum h)⟩
    · rintro ⟨d, y, m, day, hlist, hy, hm, hday⟩
      exact ⟨d, (parseCalendarDate_eq_ok hparsers).mpr
        ⟨y, m, day, hlist, .plain hy, .plain hm, .plain hday⟩⟩
    · obtain ⟨y, m, day, h⟩ := (parseCalendarDate_eq_ok hparsers).mp hd
      exact h.format_iff.mpr (hnum h)

end Acceptance

/-- The date validators are strict on exactly the inputs that, trimmed, are no date with
a sign or a blank in it. -/
theorem strictlyParsed_iff {parsers : Parsers} (hparsers : ReadsYmd parsers)
    (field raw : String) :
    (StrictlyParsed (validateOccurredOn parsers) raw ↔ ¬ Padded (trim raw)) ∧
    (StrictlyParsed (fun raw => validateCalendarDate parsers raw field) raw ↔
      ¬ Padded (trim raw)) :=
  ⟨strictlyParsed_parseCalendarDate hparsers, strictlyParsed_parseCalendarDate hparsers⟩

def onlyDates : Parsers where
  decimal _ := none
  naiveDate := parseFromStr
  dateTime _ := none

theorem readsYmd_onlyDates : ReadsYmd onlyDates :=
  fun _ => rfl

theorem not_padded_of_numeral {y m day : List Char} (hy : y.length = 4) (hm : m.length = 2)
    (hnum : Numeral (y ++ (m ++ day))) :
    ¬ Padded (String.ofList (y ++ '-' :: (m ++ '-' :: day))) := by
  rintro ⟨d, y', m', day', h, hnot⟩
  have hlist := h.toList_eq
  rw [String.toList_ofList] at hlist
  obtain ⟨rfl, hrest⟩ := List.append_inj hlist (hy.trans h.year.length.1.symm)
  obtain ⟨rfl, hrest'⟩ := List.append_inj (List.cons.inj hrest).2 (hm.trans h.month.head.1.symm)
  obtain rfl := (List.cons.inj hrest').2
  exact hnot hnum

/-- A date of digits is accepted and kept. -/
theorem strictlyParsed_digits :
    (validateOccurredOn onlyDates "2026-09-01").toOption.map formatYmd = some "2026-09-01" ∧
      StrictlyParsed (validateOccurredOn onlyDates) "2026-09-01" := by
  have hnum : Numeral ("2026".toList ++ ("09".toList ++ "01".toList)) :=
    List.all_eq_true.mp (by decide)
  have htrim : trim "2026-09-01" =
      String.ofList ("2026".toList ++ '-' :: ("09".toList ++ '-' :: "01".toList)) := by
    decide +kernel
  refine ⟨by decide +kernel,
    (strictlyParsed_iff readsYmd_onlyDates "due_date" "2026-09-01").1.mpr ?_⟩
  rw [htrim]
  exact not_padded_of_numeral rfl rfl hnum

def rewritten (raw : String) : Option String :=
  (validateOccurredOn onlyDates raw).toOption.map formatYmd

/-- A sign and a blank get past the length and the dashes, and the date that is read is
not the one that is written. -/
theorem not_strictlyParsed :
    rewritten "+123-01-02" = some "0123-01-02" ∧ rewritten "-123-01-02" = some "-0123-01-02" ∧
    rewritten "2026- 1- 2" = some "2026-01-02" ∧
    ¬ ∀ raw, StrictlyParsed (validateOccurredOn onlyDates) raw := by
  have hsign : rewritten "+123-01-02" = some "0123-01-02" := by decide +kernel
  refine ⟨hsign, by decide +kernel, by decide +kernel, fun h => ?_⟩
  obtain ⟨d, hd, hformat⟩ := Option.map_eq_some_iff.mp hsign
  have hok : validateOccurredOn onlyDates "+123-01-02" = .ok d := by
    generalize validateOccurredOn onlyDates "+123-01-02" = r at hd
    cases r with
    | error e => cases hd
    | ok d' => rw [Option.some.inj hd]
  have hback := (h "+123-01-02").2 d hok
  rw [hformat] at hback
  exact absurd hback (by decide +kernel)

end PersonalDashboard.DateParsing
