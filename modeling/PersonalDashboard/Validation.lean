import PersonalDashboard.Instants
import PersonalDashboard.TextReaders
import Mathlib.Tactic.NormNum
import Mathlib.Tactic.Positivity

/-! Field validation shared by the request handlers. -/

set_option autoImplicit false

namespace PersonalDashboard.Validation

open PersonalDashboard.Calendar
open PersonalDashboard.Instants
open PersonalDashboard.Schema

/-- The characters of the Unicode property White_Space. -/
def isWhiteSpace (c : Char) : Bool :=
  (9 ≤ c.toNat && c.toNat ≤ 13) || c.toNat = 0x20 || c.toNat = 0x85 || c.toNat = 0xA0 ||
    c.toNat = 0x1680 || (0x2000 ≤ c.toNat && c.toNat ≤ 0x200A) || c.toNat = 0x2028 ||
    c.toNat = 0x2029 || c.toNat = 0x202F || c.toNat = 0x205F || c.toNat = 0x3000

def trim (s : String) : String :=
  String.ofList
    ((s.toList.dropWhile isWhiteSpace).reverse.dropWhile isWhiteSpace).reverse

theorem trim_eq_self {s : String} (h : ∀ c ∈ s.toList, isWhiteSpace c = false) : trim s = s :=
  (congrArg String.ofList (TextReaders.strip_eq_self h)).trans String.ofList_toList

theorem trim_trim (s : String) : trim (trim s) = trim s := by
  have hlist : (trim s).toList = TextReaders.strip isWhiteSpace s.toList := String.toList_ofList
  change String.ofList (TextReaders.strip isWhiteSpace (trim s).toList) = _
  rw [hlist, TextReaders.strip_strip fun _ h => h]
  rfl

/-- `str::len`: the length in bytes. -/
def byteLen (s : String) : Nat :=
  s.utf8ByteSize

def byteAt (s : String) (i : Nat) : Option UInt8 :=
  s.toUTF8[i]?

theorem toUTF8_ofList {l : List Char} (h : ∀ c ∈ l, c.utf8Size = 1) :
    (String.ofList l).toUTF8 = (l.map fun c => c.val.toUInt8).toByteArray := by
  have hbytes : l.flatMap String.utf8EncodeChar = l.map fun c => c.val.toUInt8 := by
    induction l with
    | nil => rfl
    | cons c l ih =>
        rw [List.flatMap_cons, String.utf8EncodeChar_eq_singleton (h c List.mem_cons_self),
          ih fun c hc => h c (List.mem_cons_of_mem _ hc), List.map_cons, List.singleton_append]
  change l.utf8Encode = _
  rw [List.utf8Encode, hbytes]

theorem byteLen_ofList {l : List Char} (h : ∀ c ∈ l, c.utf8Size = 1) :
    byteLen (String.ofList l) = l.length := by
  change (String.ofList l).toUTF8.size = _
  rw [toUTF8_ofList h, List.size_toByteArray, List.length_map]

theorem byteAt_ofList {l : List Char} (h : ∀ c ∈ l, c.utf8Size = 1) (i : Nat) :
    byteAt (String.ofList l) i = l[i]?.map fun c => c.val.toUInt8 := by
  rw [byteAt, toUTF8_ofList h, ← List.getElem?_map]
  by_cases hi : i < (l.map fun c => c.val.toUInt8).length
  · rw [getElem?_pos _ i (by rwa [List.size_toByteArray]), getElem?_pos _ i hi,
      List.getElem_toByteArray]
  · rw [getElem?_neg _ i (by rwa [List.size_toByteArray]), getElem?_neg _ i hi]

def containsNul (s : String) : Bool :=
  s.toList.any fun c => c.toNat = 0

/-- A decimal number `mantissa / 10 ^ scale`. -/
structure Decimal where
  mantissa : Int
  scale : Nat
  deriving DecidableEq, Repr

def Decimal.cents (d : Decimal) : Cents :=
  d.mantissa * 10 ^ (2 - d.scale)

def Decimal.geNat (d : Decimal) (n : Nat) : Bool :=
  (n : Int) * 10 ^ d.scale ≤ d.mantissa

theorem Decimal.cents_lt_of_geNat_eq_false {d : Decimal} {n : Nat} (hscale : d.scale ≤ 2)
    (h : d.geNat n = false) : d.cents < n * 100 := by
  simp only [geNat, decide_eq_false_iff_not, not_le] at h
  change d.mantissa * 10 ^ (2 - d.scale) < (n : Int) * 100
  calc
    _ < (n : Int) * 10 ^ d.scale * 10 ^ (2 - d.scale) :=
      mul_lt_mul_of_pos_right h (by positivity)
    _ = (n : Int) * 100 := by
      rw [mul_assoc, ← pow_add, Nat.add_sub_cancel' hscale]
      norm_num

theorem Decimal.cents_pos {d : Decimal} (h : 0 < d.mantissa) : 0 < d.cents :=
  mul_pos h (by positivity)

/-- The parsers of the libraries the server uses: `Decimal::from_str`,
`NaiveDate::parse_from_str` with `%Y-%m-%d`, and the RFC 3339 parser of
`DateTime<Utc>`. -/
structure Parsers where
  decimal : String → Option Decimal
  naiveDate : String → Option NaiveDate
  dateTime : String → Option DateTime

variable (parsers : Parsers)

def maxMoneyAmount : Nat :=
  1_000_000_000

/-- The two money parsers: trim, parse, then refuse more than two decimals and
the numbers `refused` names. -/
def parseMoney (refused : Decimal → Bool) (msg : String) (raw : String) :
    Except AppError Decimal :=
  match parsers.decimal (trim raw) with
  | none => .error (.validation msg)
  | some amount =>
      if refused amount || 2 < amount.scale then .error (.validation msg) else .ok amount

def parseMoneyAmount : String → Except AppError Decimal :=
  parseMoney parsers (fun d => d.mantissa ≤ 0)
    "amount must be a positive number with at most 2 decimals"

def parseMoneyAmountNonneg : String → Except AppError Decimal :=
  parseMoney parsers (fun d => d.mantissa < 0)
    "amount must be a non-negative number with at most 2 decimals"

def parseBalanceAmount : String → Except AppError Decimal :=
  parseMoney parsers
    (fun d => Decimal.geNat { d with mantissa := d.mantissa.natAbs } maxMoneyAmount)
    "balance must be a decimal string with at most 2 decimals and absolute value below 1000000000"

theorem parseMoney_eq_ok {refused : Decimal → Bool} {msg raw : String} {d : Decimal}
    (h : parseMoney parsers refused msg raw = .ok d) : refused d = false ∧ d.scale ≤ 2 := by
  unfold parseMoney at h
  split at h
  · cases h
  · split at h
    · cases h
    · rename_i hrefused
      obtain rfl := Except.ok.inj h
      simpa using hrefused

/-- Parse a calendar date of the form `YYYY-MM-DD`, else fail with `msg`. -/
def parseCalendarDate (msg : String) (raw : String) : Except AppError NaiveDate :=
  let trimmed := trim raw
  if byteLen trimmed = 10 ∧ byteAt trimmed 4 = some 45 ∧ byteAt trimmed 7 = some 45 then
    match parsers.naiveDate trimmed with
    | some d => .ok d
    | none => .error (.validation msg)
  else .error (.validation msg)

def validateOccurredOn : String → Except AppError NaiveDate :=
  parseCalendarDate parsers "la fecha (occurred_on) debe tener el formato YYYY-MM-DD"

def validateCalendarDate (raw field : String) : Except AppError NaiveDate :=
  parseCalendarDate parsers s!"{field} must be a calendar date YYYY-MM-DD" raw

/-- A required short text: 1 to `max` bytes after trimming, no null bytes. -/
def validateRequiredText (raw : String) (max : Nat) (field : String) :
    Except AppError String :=
  let value := trim raw
  if value.isEmpty || max < byteLen value || containsNul value then
    .error (.validation s!"{field} must be 1-{max} characters")
  else .ok value

def validateOptionalText (value : Option String) (max : Nat) (field : String) :
    Except AppError Unit :=
  match value with
  | some text =>
      if max < byteLen text || containsNul text then
        .error (.validation s!"{field} must be at most {max} characters")
      else .ok ()
  | none => .ok ()

theorem validateRequiredText_of_ok {raw value field : String} {max : Nat}
    (h : validateRequiredText raw max field = .ok value) :
    validateRequiredText value max field = .ok value := by
  simp only [validateRequiredText] at h ⊢
  split at h
  · cases h
  · rename_i hok
    obtain rfl := Except.ok.inj h
    rw [trim_trim, if_neg hok]

theorem toOption_eq_some {α : Type} {x : Except AppError α} {a : α} :
    x.toOption = some a ↔ x = .ok a := by
  cases x with
  | error e => simp [Except.toOption]
  | ok b => simp [Except.toOption]

/-- `Option::map(validate).transpose()`. -/
def validateOpt {α β : Type} (validate : α → Except AppError β) :
    Option α → Except AppError (Option β)
  | some raw => (validate raw).map some
  | none => .ok none

theorem validateOpt_eq_ok_some {α β : Type} {validate : α → Except AppError β}
    {raw : Option α} {b : β} (h : validateOpt validate raw = .ok (some b)) :
    ∃ a, raw = some a ∧ validate a = .ok b := by
  cases raw with
  | none => cases h
  | some a =>
      refine ⟨a, rfl, ?_⟩
      simp only [validateOpt] at h
      cases hv : validate a with
      | error e => simp [hv, Except.map] at h
      | ok b' =>
          simp only [hv, Except.map, Except.ok.injEq, Option.some.injEq] at h
          rw [h]

/-- A currency code, `COP` when absent: three ASCII letters, upper-cased. -/
def validateCurrency (toUppercase : String → String) (raw : Option String) :
    Except AppError String :=
  match raw with
  | none => .ok "COP"
  | some raw =>
      let code := toUppercase (trim raw)
      if byteLen code = 3 ∧ code.toList.all Char.isAlpha then .ok code
      else .error (.validation "currency must be a 3-letter code")

end PersonalDashboard.Validation
