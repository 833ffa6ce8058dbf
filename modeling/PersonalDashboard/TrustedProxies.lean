import PersonalDashboard.DateStrings
import PersonalDashboard.RateLimitKey
import PersonalDashboard.TextIndices

/-! The trusted proxies as they are written, and the addresses that each of them covers. -/

set_option autoImplicit false

namespace PersonalDashboard.TrustedProxies

open PersonalDashboard.DateStrings
open PersonalDashboard.RateLimitKey
open PersonalDashboard.TextIndices
open PersonalDashboard.Validation

section Masks

variable {w n : Nat}

def checkedSub (m n : Nat) : Option Nat :=
  if n ≤ m then some (m - n) else none

/-- `checked_shl`: no shift is as wide as the word. -/
def checkedShl (x : BitVec w) (n : Nat) : Option (BitVec w) :=
  if n < w then some (x <<< n) else none

/-- The mask with every step checked. -/
def checkedMask (w n : Nat) : Option (BitVec w) :=
  if n = 0 then some 0 else (checkedSub w n).bind (checkedShl (BitVec.allOnes w))

theorem checkedMask_eq (h : n ≤ w) : checkedMask w n = some (prefixMask w n) := by
  rw [checkedMask, prefixMask]
  split
  · rfl
  · next hne =>
      have hlt : w - n < w := Nat.sub_lt_self (Nat.pos_of_ne_zero hne) h
      rw [checkedSub, if_pos h, Option.bind_some, checkedShl, if_pos hlt]

theorem getMsbD_prefixMask (h : n ≤ w) (i : Nat) :
    (prefixMask w n).getMsbD i = decide (i < n) := by
  rw [prefixMask]
  split
  · next hzero =>
      subst hzero
      rw [BitVec.ofNat_eq_ofNat, BitVec.getMsbD_zero]
      exact (decide_eq_false (Nat.not_lt_zero i)).symm
  · rw [BitVec.getMsbD_shiftLeft, BitVec.getMsbD_allOnes]
    exact decide_eq_decide.mpr (by omega)

theorem and_prefixMask_eq_iff (h : n ≤ w) {a b : BitVec w} :
    a &&& prefixMask w n = b &&& prefixMask w n ↔ ∀ i < n, a.getMsbD i = b.getMsbD i := by
  constructor
  · intro heq i hi
    have hbit := congrArg (fun x => BitVec.getMsbD x i) heq
    simpa only [BitVec.getMsbD_and, getMsbD_prefixMask h, decide_eq_true hi, Bool.and_true]
      using hbit
  · intro hbits
    apply BitVec.eq_of_getMsbD_eq
    intro i _
    rw [BitVec.getMsbD_and, BitVec.getMsbD_and, getMsbD_prefixMask h]
    by_cases hi : i < n
    · rw [hbits i hi]
    · rw [decide_eq_false hi, Bool.and_false, Bool.and_false]

end Masks

/-- Both addresses are of one family and have the same first `n` bits. -/
def SameBits (n : Nat) : IpAddr → IpAddr → Prop
  | .v4 a, .v4 b => ∀ i < n, a.getMsbD i = b.getMsbD i
  | .v6 a, .v6 b => ∀ i < n, a.getMsbD i = b.getMsbD i
  | _, _ => False

/-- `contains` with every step checked. -/
def checkedContains (proxy : TrustedProxy) (candidate : IpAddr) : Option Bool :=
  match proxy.addr, candidate with
  | .v4 network, .v4 candidate =>
      (checkedMask 32 proxy.prefixLen).map fun mask => network &&& mask == candidate &&& mask
  | .v6 network, .v6 candidate =>
      (checkedMask 128 proxy.prefixLen).map fun mask => network &&& mask == candidate &&& mask
  | _, _ => some false

theorem checkedContains_eq (proxy : TrustedProxy) (candidate : IpAddr) :
    checkedContains proxy candidate = some (proxy.contains candidate) := by
  rcases proxy with ⟨addr, prefixLen, hle⟩
  cases addr with
  | v4 network =>
      cases candidate with
      | v4 candidate =>
          simp only [checkedContains, checkedMask_eq (w := 32) hle, Option.map_some]
          rfl
      | v6 candidate => rfl
  | v6 network =>
      cases candidate with
      | v4 candidate => rfl
      | v6 candidate =>
          simp only [checkedContains, checkedMask_eq (w := 128) hle, Option.map_some]
          rfl

theorem contains_iff (proxy : TrustedProxy) (candidate : IpAddr) :
    proxy.contains candidate ↔ SameBits proxy.prefixLen proxy.addr candidate := by
  rcases proxy with ⟨addr, prefixLen, hle⟩
  cases addr with
  | v4 network =>
      cases candidate with
      | v4 candidate => exact beq_iff_eq.trans (and_prefixMask_eq_iff (w := 32) hle)
      | v6 candidate => exact iff_of_false Bool.false_ne_true id
  | v6 network =>
      cases candidate with
      | v4 candidate => exact iff_of_false Bool.false_ne_true id
      | v6 candidate => exact beq_iff_eq.trans (and_prefixMask_eq_iff (w := 128) hle)

def checkedU8 (n : Nat) : Option Nat :=
  if n < 256 then some n else none

def pushDigit (n : Nat) (c : Char) : Option Nat := do
  let digit ← toDigit 10 c
  let product ← checkedU8 (n * 10)
  checkedU8 (product + digit)

/-- `str::parse::<u8>`. -/
def parseU8 (s : String) : Option Nat :=
  match s.toList with
  | [] | ['+'] | ['-'] => none
  | '+' :: digits => digits.foldlM pushDigit 0
  | digits => digits.foldlM pushDigit 0

def splitOnce (s : String) (sep : Char) : Option (String × String) :=
  if sep ∈ s.toList then
    some (String.ofList (s.toList.takeWhile (· ≠ sep)),
      String.ofList (s.toList.dropWhile (· ≠ sep)).tail)
  else none

/-- `TrustedProxy::parse`; `quote` is the rendering of a text with `{:?}`. -/
def parse (quote : String → String) (token : String) : Except String TrustedProxy :=
  let token := trim token
  if token = "" then .error "empty trusted proxy token"
  else
    let (addrPart, prefixPart) := match splitOnce token '/' with
      | some (addr, prefixPart) => (addr, some prefixPart)
      | none => (token, none)
    match parseIpAddr addrPart with
    | none => .error ("invalid trusted proxy address: " ++ quote addrPart)
    | some addr =>
        match prefixPart with
        | none => .ok (TrustedProxy.exact addr)
        | some prefixPart =>
            match parseU8 prefixPart with
            | none => .error ("invalid trusted proxy prefix: " ++ quote prefixPart)
            | some prefixLen =>
                if hle : prefixLen ≤ addr.maxPrefixLen then .ok ⟨addr, prefixLen, hle⟩
                else .error ("trusted proxy prefix out of range: " ++ quote token)

/-- One digit or more, and the number that they denote. -/
def Digits (l : List Char) (n : Nat) : Prop :=
  l ≠ [] ∧ Numeral l ∧ Nat.ofDigitChars 10 l 0 = n

/-- An address, a slash, a sign and digits of a number up to the width. -/
def Block (sign : List Char) (s : String) (a : IpAddr) (n : Nat) : Prop :=
  ∃ (addr : String) (digits : List Char), s.toList = addr.toList ++ '/' :: (sign ++ digits) ∧
    parseIpAddr addr = some a ∧ Digits digits n ∧ n ≤ a.maxPrefixLen

/-- An address, or an address, a slash and digits. -/
def Writes (s : String) (a : IpAddr) (n : Nat) : Prop :=
  parseIpAddr s = some a ∧ n = a.maxPrefixLen ∨ Block [] s a n

/-- An address, a slash, a plus and digits. -/
def Signed (s : String) : Prop :=
  ∃ a n, Block ['+'] s a n

/-- Exactly the addresses and blocks are accepted, and an accepted one covers the addresses
that begin with its bits, computed without a shift as wide as the word. -/
def ReadsBlock (quote : String → String) (token : String) : Prop :=
  ((∃ proxy, parse quote token = .ok proxy) ↔ ∃ a n, Writes (trim token) a n) ∧
    ∀ proxy, parse quote token = .ok proxy →
      (∀ a n, Writes (trim token) a n → proxy.addr = a ∧ proxy.prefixLen = n) ∧
        ∀ c, checkedContains proxy c = some (proxy.contains c) ∧
          (proxy.contains c ↔ SameBits proxy.prefixLen proxy.addr c)

theorem checkedU8_eq_some_iff {n k : Nat} : checkedU8 n = some k ↔ n < 256 ∧ n = k := by
  rw [checkedU8, Option.ite_none_right_eq_some, Option.some.injEq]

theorem toDigit_ten (c : Char) :
    toDigit 10 c = if c.isDigit then some (c.toNat - '0'.toNat) else none := by
  rw [toDigit]
  split
  · next hdigit =>
      have hlt := (toNat_lt_of_isDigit hdigit).2
      rw [Option.filter_some, if_pos]
      exact decide_eq_true (by omega)
  · split
    · rw [Option.filter_some, if_neg]
      simp
    · split
      · rw [Option.filter_some, if_neg]
        simp
      · rfl

theorem le_ofDigitChars (l : List Char) (n : Nat) : n ≤ Nat.ofDigitChars 10 l n := by
  rw [Nat.ofDigitChars_eq_ofDigitChars_zero]
  have hpow : n ≤ 10 ^ l.length * n := Nat.le_mul_of_pos_left n (Nat.pow_pos (by decide))
  exact hpow.trans (Nat.le_add_right _ _)

theorem pushDigit_eq_some_iff {n k : Nat} {c : Char} :
    pushDigit n c = some k ↔ c.isDigit ∧ k < 256 ∧ k = n * 10 + (c.toNat - '0'.toNat) := by
  rw [pushDigit, toDigit_ten]
  by_cases hdigit : c.isDigit
  · rw [if_pos hdigit, Option.bind_eq_bind, Option.bind_some]
    constructor
    · intro h
      obtain ⟨product, hproduct, hsum⟩ := Option.bind_eq_some_iff.mp h
      obtain ⟨-, rfl⟩ := checkedU8_eq_some_iff.mp hproduct
      obtain ⟨hlt, rfl⟩ := checkedU8_eq_some_iff.mp hsum
      exact ⟨hdigit, hlt, rfl⟩
    · rintro ⟨-, hlt, rfl⟩
      refine Option.bind_eq_some_iff.mpr ⟨n * 10, checkedU8_eq_some_iff.mpr ⟨?_, rfl⟩, ?_⟩
      · omega
      · exact checkedU8_eq_some_iff.mpr ⟨hlt, rfl⟩
  · rw [if_neg hdigit]
    exact iff_of_false (by simp) fun h => hdigit h.1

theorem foldlM_pushDigit_eq_some_iff {l : List Char} {n k : Nat} (hn : n < 256) :
    l.foldlM pushDigit n = some k ↔ Numeral l ∧ Nat.ofDigitChars 10 l n = k ∧ k < 256 := by
  induction l generalizing n with
  | nil =>
      rw [List.foldlM_nil, Nat.ofDigitChars_nil]
      constructor
      · intro h
        obtain rfl := Option.some.inj h
        exact ⟨fun c hc => absurd hc List.not_mem_nil, rfl, hn⟩
      · rintro ⟨-, rfl, -⟩
        rfl
  | cons c l ih =>
      rw [List.foldlM_cons, Nat.ofDigitChars_cons]
      constructor
      · intro h
        obtain ⟨m, hpush, hrest⟩ := Option.bind_eq_some_iff.mp h
        obtain ⟨hdigit, hm, rfl⟩ := pushDigit_eq_some_iff.mp hpush
        obtain ⟨hnumeral, hvalue, hk⟩ := (ih hm).mp hrest
        refine ⟨List.forall_mem_cons.mpr ⟨hdigit, hnumeral⟩, ?_, hk⟩
        rwa [Nat.mul_comm 10 n]
      · rintro ⟨hnumeral, hvalue, hk⟩
        obtain ⟨hdigit, hnumeral⟩ := List.forall_mem_cons.mp hnumeral
        rw [Nat.mul_comm 10 n] at hvalue
        have hm : n * 10 + (c.toNat - '0'.toNat) < 256 := by
          have hle := le_ofDigitChars l (n * 10 + (c.toNat - '0'.toNat))
          omega
        refine Option.bind_eq_some_iff.mpr
          ⟨_, pushDigit_eq_some_iff.mpr ⟨hdigit, hm, rfl⟩, (ih hm).mpr ⟨hnumeral, hvalue, hk⟩⟩

theorem foldlM_eq_some_iff {l : List Char} (hne : l ≠ []) {n : Nat} :
    l.foldlM pushDigit 0 = some n ↔ Digits l n ∧ n < 256 := by
  rw [foldlM_pushDigit_eq_some_iff (by decide)]
  constructor
  · rintro ⟨hnumeral, hvalue, hn⟩
    exact ⟨⟨hne, hnumeral, hvalue⟩, hn⟩
  · rintro ⟨⟨-, hnumeral, hvalue⟩, hn⟩
    exact ⟨hnumeral, hvalue, hn⟩

theorem Digits.head_isDigit {c : Char} {l : List Char} {n : Nat} (h : Digits (c :: l) n) :
    c.isDigit :=
  h.2.1 c List.mem_cons_self

theorem parseU8_eq_some_iff {s : String} {n : Nat} :
    parseU8 s = some n ↔
      (Digits s.toList n ∨ ∃ l, s.toList = '+' :: l ∧ Digits l n) ∧ n < 256 := by
  have hplus : ∀ l k, ¬ Digits ('+' :: l) k := fun l k h => absurd h.head_isDigit (by decide)
  unfold parseU8
  split
  · next hs =>
      rw [hs]
      refine iff_of_false (by simp) ?_
      rintro ⟨h | ⟨l, hl, -⟩, -⟩
      · exact h.1 rfl
      · cases hl
  · next hs =>
      rw [hs]
      refine iff_of_false (by simp) ?_
      rintro ⟨h | ⟨l, hl, h⟩, -⟩
      · exact hplus [] n h
      · obtain rfl := (List.cons.inj hl).2
        exact h.1 rfl
  · next hs =>
      rw [hs]
      refine iff_of_false (by simp) ?_
      rintro ⟨h | ⟨l, hl, -⟩, -⟩
      · exact absurd h.head_isDigit (by decide)
      · exact absurd (List.cons.inj hl).1 (by decide)
  · next digits hne hs =>
      have hdigits : digits ≠ [] := by
        rintro rfl
        exact hne rfl
      rw [hs, foldlM_eq_some_iff hdigits]
      refine and_congr_left fun _ => ⟨fun h => Or.inr ⟨digits, rfl, h⟩, ?_⟩
      rintro (h | ⟨l, hl, h⟩)
      · exact absurd h (hplus digits n)
      · rwa [(List.cons.inj hl).2]
  · next digits hnil _ _ hsign =>
      rw [foldlM_eq_some_iff hnil]
      refine and_congr_left fun _ => ⟨Or.inl, ?_⟩
      rintro (h | ⟨l, hl, -⟩)
      · exact h
      · exact absurd hl (hsign l)

theorem splitOnce_of_notMem {s : String} {sep : Char} (h : sep ∉ s.toList) :
    splitOnce s sep = none :=
  if_neg h

theorem splitOnce_append_cons {s : String} {sep : Char} {l m : List Char}
    (hs : s.toList = l ++ sep :: m) (hl : sep ∉ l) :
    splitOnce s sep = some (String.ofList l, String.ofList m) := by
  have hne : ∀ c ∈ l, decide (c ≠ sep) = true := by
    intro c hc
    exact decide_eq_true fun heq => hl (heq ▸ hc)
  have hmem : sep ∈ s.toList := by
    rw [hs]
    exact List.mem_append_right l List.mem_cons_self
  rw [splitOnce, if_pos hmem, hs, List.takeWhile_append_of_pos hne,
    List.dropWhile_append_of_pos hne, List.takeWhile_cons_of_neg (by simp),
    List.dropWhile_cons_of_neg (by simp), List.append_nil, List.tail_cons]

theorem slash_notMem_of_parseIpAddr {s : String} {a : IpAddr} (h : parseIpAddr s = some a) :
    '/' ∉ s.toList :=
  fun hmem => absurd (addrChar_of_parseIpAddr h '/' hmem) (by unfold AddrChar; decide)

theorem block_iff {sign : List Char} {s : String} {l m : List Char} (hs : s.toList = l ++ '/' :: m)
    (hl : '/' ∉ l) {a : IpAddr} {n : Nat} :
    Block sign s a n ↔ parseIpAddr (String.ofList l) = some a ∧
      (∃ digits, m = sign ++ digits ∧ Digits digits n) ∧ n ≤ a.maxPrefixLen := by
  constructor
  · rintro ⟨addr, digits, hblock, haddr, hdigits, hle⟩
    obtain ⟨rfl, rfl⟩ :=
      append_cons_inj hl (slash_notMem_of_parseIpAddr haddr) (hs.symm.trans hblock)
    rw [String.ofList_toList]
    exact ⟨haddr, ⟨digits, rfl, hdigits⟩, hle⟩
  · rintro ⟨haddr, ⟨digits, rfl, hdigits⟩, hle⟩
    refine ⟨String.ofList l, digits, ?_, haddr, hdigits, hle⟩
    rw [hs, String.toList_ofList]

theorem slash_mem_of_block {sign : List Char} {s : String} {a : IpAddr} {n : Nat}
    (h : Block sign s a n) : '/' ∈ s.toList := by
  obtain ⟨addr, digits, hs, -⟩ := h
  rw [hs]
  exact List.mem_append_right _ List.mem_cons_self

theorem Block.le {sign : List Char} {s : String} {a : IpAddr} {n : Nat} (h : Block sign s a n) :
    n ≤ a.maxPrefixLen := by
  obtain ⟨-, -, -, -, -, hle⟩ := h
  exact hle

theorem Writes.le {s : String} {a : IpAddr} {n : Nat} (h : Writes s a n) : n ≤ a.maxPrefixLen := by
  rcases h with ⟨-, rfl⟩ | hblock
  · exact le_rfl
  · exact hblock.le

theorem maxPrefixLen_lt (a : IpAddr) : a.maxPrefixLen < 256 := by
  cases a <;> simp [IpAddr.maxPrefixLen]

theorem parseIpAddr_empty : parseIpAddr "" = none := by
  decide +kernel

theorem parse_empty {quote : String → String} {token : String} (h : trim token = "") :
    parse quote token = .error "empty trusted proxy token" :=
  if_pos h

theorem parse_of_notMem {quote : String → String} {token : String} {proxy : TrustedProxy}
    (h : '/' ∉ (trim token).toList) :
    parse quote token = .ok proxy ↔
      parseIpAddr (trim token) = some proxy.addr ∧ proxy.prefixLen = proxy.addr.maxPrefixLen := by
  by_cases hempty : trim token = ""
  · rw [parse_empty hempty, hempty, parseIpAddr_empty]
    exact iff_of_false (by simp) fun hsome => by cases hsome.1
  · simp only [parse, if_neg hempty, splitOnce_of_notMem h]
    cases haddr : parseIpAddr (trim token) with
    | none => exact iff_of_false (by simp) fun hsome => by cases hsome.1
    | some a =>
        rcases proxy with ⟨addr, prefixLen, hle⟩
        dsimp only
        constructor
        · intro hok
          obtain ⟨rfl, rfl⟩ := TrustedProxy.mk.inj (Except.ok.inj hok)
          exact ⟨rfl, rfl⟩
        · rintro ⟨hsome, rfl⟩
          obtain rfl := Option.some.inj hsome
          rfl

theorem block_or_block_iff {s : String} {l m : List Char} (hs : s.toList = l ++ '/' :: m)
    (hl : '/' ∉ l) {a : IpAddr} {n : Nat} :
    Block [] s a n ∨ Block ['+'] s a n ↔ parseIpAddr (String.ofList l) = some a ∧
      parseU8 (String.ofList m) = some n ∧ n ≤ a.maxPrefixLen := by
  rw [block_iff hs hl, block_iff hs hl, parseU8_eq_some_iff, String.toList_ofList]
  constructor
  · rintro (⟨haddr, ⟨digits, rfl, hdigits⟩, hle⟩ | ⟨haddr, ⟨digits, rfl, hdigits⟩, hle⟩)
    · exact ⟨haddr, ⟨Or.inl hdigits, hle.trans_lt (maxPrefixLen_lt a)⟩, hle⟩
    · exact ⟨haddr, ⟨Or.inr ⟨digits, rfl, hdigits⟩, hle.trans_lt (maxPrefixLen_lt a)⟩, hle⟩
  · rintro ⟨haddr, ⟨hdigits | ⟨digits, rfl, hdigits⟩, -⟩, hle⟩
    · exact Or.inl ⟨haddr, ⟨m, rfl, hdigits⟩, hle⟩
    · exact Or.inr ⟨haddr, ⟨digits, rfl, hdigits⟩, hle⟩

theorem parse_of_mem {quote : String → String} {token : String} {proxy : TrustedProxy}
    (h : '/' ∈ (trim token).toList) :
    parse quote token = .ok proxy ↔
      Block [] (trim token) proxy.addr proxy.prefixLen ∨
        Block ['+'] (trim token) proxy.addr proxy.prefixLen := by
  obtain ⟨l, m, hs, hl⟩ := List.eq_append_cons_of_mem h
  have hempty : trim token ≠ "" := by
    intro heq
    rw [heq] at h
    exact absurd h List.not_mem_nil
  rw [block_or_block_iff hs hl]
  simp only [parse, if_neg hempty, splitOnce_append_cons hs hl]
  cases haddr : parseIpAddr (String.ofList l) with
  | none => exact iff_of_false (by simp) (by simp)
  | some a =>
      dsimp only
      cases hnumber : parseU8 (String.ofList m) with
      | none => exact iff_of_false (by simp) (by simp)
      | some k =>
          rcases proxy with ⟨addr, prefixLen, hle⟩
          dsimp only
          split
          · next hk =>
              constructor
              · intro hok
                obtain ⟨rfl, rfl⟩ := TrustedProxy.mk.inj (Except.ok.inj hok)
                exact ⟨rfl, rfl, hk⟩
              · rintro ⟨hsome, hsome', -⟩
                obtain rfl := Option.some.inj hsome
                obtain rfl := Option.some.inj hsome'
                rfl
          · next hk =>
              refine iff_of_false (by simp) ?_
              rintro ⟨hsome, hsome', -⟩
              obtain rfl := Option.some.inj hsome
              obtain rfl := Option.some.inj hsome'
              exact hk hle

/-- The accepted tokens, with the address and the length that each of them gets. -/
theorem parse_eq_ok_iff {quote : String → String} {token : String} {proxy : TrustedProxy} :
    parse quote token = .ok proxy ↔
      Writes (trim token) proxy.addr proxy.prefixLen ∨
        Block ['+'] (trim token) proxy.addr proxy.prefixLen := by
  by_cases hslash : '/' ∈ (trim token).toList
  · have haddr : parseIpAddr (trim token) ≠ some proxy.addr := fun hsome =>
      slash_notMem_of_parseIpAddr hsome hslash
    rw [parse_of_mem hslash, Writes, or_assoc]
    exact (or_iff_right fun h => haddr h.1).symm
  · have hblock : ∀ sign, ¬ Block sign (trim token) proxy.addr proxy.prefixLen := fun sign h =>
      hslash (slash_mem_of_block h)
    rw [parse_of_notMem hslash, Writes, or_assoc]
    exact (or_iff_left fun h => h.elim (hblock _) (hblock _)).symm

/-- A text writes one block at most, and none with a plus. -/
theorem Writes.not_signed {s : String} {a : IpAddr} {n : Nat} (h : Writes s a n) : ¬ Signed s := by
  rintro ⟨b, k, hsigned⟩
  rcases h with ⟨haddr, -⟩ | hblock
  · exact slash_notMem_of_parseIpAddr haddr (slash_mem_of_block hsigned)
  · obtain ⟨l, m, hs, hl⟩ := List.eq_append_cons_of_mem (slash_mem_of_block hblock)
    obtain ⟨-, ⟨digits, hdigits, hnumber⟩, -⟩ := (block_iff hs hl).mp hblock
    obtain ⟨-, ⟨digits', hdigits', -⟩, -⟩ := (block_iff hs hl).mp hsigned
    rw [List.nil_append] at hdigits
    rw [← hdigits, hdigits'] at hnumber
    exact absurd hnumber.head_isDigit (by decide)

theorem exists_parse_of_writes (quote : String → String) {token : String} {a : IpAddr} {n : Nat}
    (h : Writes (trim token) a n) :
    ∃ proxy, parse quote token = .ok proxy ∧ proxy.addr = a ∧ proxy.prefixLen = n :=
  ⟨⟨a, n, h.le⟩, parse_eq_ok_iff.mpr (Or.inl h), rfl, rfl⟩

theorem exists_parse_of_signed (quote : String → String) {token : String}
    (h : Signed (trim token)) : ∃ proxy, parse quote token = .ok proxy := by
  obtain ⟨a, n, hblock⟩ := h
  exact ⟨⟨a, n, hblock.le⟩, parse_eq_ok_iff.mpr (Or.inr hblock)⟩

/-- A token is read as the address or the block that it writes, if and only if its digits do
not follow a plus. -/
theorem readsBlock_iff (quote : String → String) (token : String) :
    ReadsBlock quote token ↔ ¬ Signed (trim token) := by
  constructor
  · rintro ⟨haccepted, -⟩ hsigned
    obtain ⟨a, n, hwrites⟩ := haccepted.mp (exists_parse_of_signed quote hsigned)
    exact hwrites.not_signed hsigned
  · intro hsigned
    refine ⟨⟨?_, ?_⟩, fun proxy hok => ⟨fun a n hwrites => ?_, fun c => ?_⟩⟩
    · rintro ⟨proxy, hok⟩
      rcases parse_eq_ok_iff.mp hok with hwrites | hblock
      · exact ⟨_, _, hwrites⟩
      · exact absurd ⟨_, _, hblock⟩ hsigned
    · rintro ⟨a, n, hwrites⟩
      obtain ⟨proxy, hok, -⟩ := exists_parse_of_writes quote hwrites
      exact ⟨proxy, hok⟩
    · obtain ⟨proxy', hok', haddr, hlen⟩ := exists_parse_of_writes quote hwrites
      obtain rfl := Except.ok.inj (hok.symm.trans hok')
      exact ⟨haddr, hlen⟩
    · exact ⟨checkedContains_eq proxy c, contains_iff proxy c⟩

/-- A plus before the digits is accepted as well. -/
theorem not_readsBlock : ¬ ReadsBlock String.quote "10.0.0.0/+8" := by
  intro hreads
  apply (readsBlock_iff String.quote "10.0.0.0/+8").mp hreads
  refine ⟨.v4 0x0A000000#32, 8, "10.0.0.0", ['8'], ?_, ?_, ⟨?_, ?_, ?_⟩, ?_⟩
  · decide +kernel
  · decide +kernel
  · exact List.cons_ne_nil _ _
  · exact List.forall_mem_singleton.mpr (by decide)
  · rfl
  · decide

end PersonalDashboard.TrustedProxies
