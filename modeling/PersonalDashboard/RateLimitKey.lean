import PersonalDashboard.TextReaders
import PersonalDashboard.Validation

/-! The client key of a login: the peer, or the address that a trusted proxy
forwards. -/

set_option autoImplicit false

namespace PersonalDashboard.RateLimitKey

open PersonalDashboard.TextReaders
open PersonalDashboard.TextReaders.Reader
open PersonalDashboard.Validation

inductive IpAddr where
  | v4 (bits : BitVec 32)
  | v6 (bits : BitVec 128)
  deriving DecidableEq, Repr

structure SocketAddr where
  ip : IpAddr
  port : Nat

def localPeerFallback : IpAddr :=
  .v4 0x7F000001#32

def IpAddr.maxPrefixLen : IpAddr → Nat
  | .v4 _ => 32
  | .v6 _ => 128

def toDigit (radix : Nat) (c : Char) : Option Nat :=
  let value :=
    if c.isDigit then some (c.toNat - '0'.toNat)
    else if c.isLower then some (c.toNat - 'a'.toNat + 10)
    else if c.isUpper then some (c.toNat - 'A'.toNat + 10)
    else none
  value.filter (· < radix)

/-- `Parser::read_number`: the digits at the beginning, if they are not too many and
denote a number below `bound`. -/
def readNumber (radix maxDigits : Nat) (allowZeroPrefix : Bool) (bound : Nat) : Reader Nat :=
  fun s =>
    let digits := s.takeWhile fun c => (toDigit radix c).isSome
    let value := digits.foldl (fun n c => n * radix + (toDigit radix c).getD 0) 0
    if digits = [] ∨ maxDigits < digits.length ∨
        !allowZeroPrefix ∧ digits.head? = some '0' ∧ 1 < digits.length ∨ bound ≤ value then none
    else some (value, s.dropWhile fun c => (toDigit radix c).isSome)

/-- `Parser::read_separator`: a separator comes before each element but the first. -/
def readSeparator {α : Type} (sep : Char) (index : Nat) (inner : Reader α) : Reader α := do
  if 0 < index then given sep
  inner

/-- The number of some groups of `bits` bits each. -/
def ofGroups (bits : Nat) (groups : List Nat) : Nat :=
  groups.foldl (fun n g => n * 2 ^ bits + g) 0

def readIpv4Addr : Reader (BitVec 32) := do
  let groups ← (List.range 4).mapM fun i => readSeparator '.' i (readNumber 10 3 false 256)
  return BitVec.ofNat 32 (ofGroups 8 groups)

/-- `read_groups`: the groups from `index` on, at most `left` of them, and whether the
last two are those of an embedded IPv4 address. -/
def readGroups (index : Nat) : Nat → Reader (List Nat × Bool)
  | 0 => pure ([], false)
  | left + 1 =>
      (if 0 < left then do
        let ipv4 ← readSeparator ':' index readIpv4Addr
        return ([ipv4.toNat / 2 ^ 16, ipv4.toNat % 2 ^ 16], true)
      else failure) <|>
      (do
        let group ← readSeparator ':' index (readNumber 16 4 true (2 ^ 16))
        let (groups, ipv4) ← readGroups (index + 1) left
        return (group :: groups, ipv4)) <|>
      pure ([], false)

/-- The groups around `::`. -/
def readIpv6Tail (head : List Nat) : Reader (BitVec 128) := do
  given ':'
  given ':'
  let (tail, _) ← readGroups 0 (8 - (head.length + 1))
  return BitVec.ofNat 128 (ofGroups 16
    (head ++ List.replicate (8 - head.length - tail.length) 0 ++ tail))

def readIpv6Addr : Reader (BitVec 128) := do
  let (head, headIpv4) ← readGroups 0 8
  if head.length = 8 then return BitVec.ofNat 128 (ofGroups 16 head)
  else if headIpv4 then failure
  else readIpv6Tail head

def readIpAddr : Reader IpAddr :=
  IpAddr.v4 <$> readIpv4Addr <|> IpAddr.v6 <$> readIpv6Addr

/-- `str::parse::<IpAddr>`. -/
def parseIpAddr (s : String) : Option IpAddr :=
  readIpAddr.parse s.toList

example : parseIpAddr "127.0.0.1" = some localPeerFallback := by
  decide +kernel

example : parseIpAddr "::ffff:1.2.3.4" = some (.v6 0xFFFF01020304#128) := by
  decide +kernel

/-- An exact address or a CIDR block. -/
structure TrustedProxy where
  addr : IpAddr
  prefixLen : Nat
  prefixLen_le : prefixLen ≤ addr.maxPrefixLen

/-- The mask of the first bits of an address, `w` bits wide. -/
def prefixMask (w prefixLen : Nat) : BitVec w :=
  if prefixLen = 0 then 0 else BitVec.allOnes w <<< (w - prefixLen)

def ipv4Mask (prefixLen : Nat) : BitVec 32 :=
  prefixMask 32 prefixLen

def ipv6Mask (prefixLen : Nat) : BitVec 128 :=
  prefixMask 128 prefixLen

namespace TrustedProxy

def exact (addr : IpAddr) : TrustedProxy where
  addr := addr
  prefixLen := addr.maxPrefixLen
  prefixLen_le := le_rfl

/-- Whether `candidate` falls inside this exact address or CIDR block. -/
def contains (proxy : TrustedProxy) (candidate : IpAddr) : Bool :=
  match proxy.addr, candidate with
  | .v4 network, .v4 candidate =>
      network &&& ipv4Mask proxy.prefixLen == candidate &&& ipv4Mask proxy.prefixLen
  | .v6 network, .v6 candidate =>
      network &&& ipv6Mask proxy.prefixLen == candidate &&& ipv6Mask proxy.prefixLen
  | _, _ => false

end TrustedProxy

def trusts (trusted : List TrustedProxy) (ip : IpAddr) : Bool :=
  trusted.any fun proxy => proxy.contains ip

/-- A byte that may stand in the value of a header. -/
def LegalByte (b : UInt8) : Prop :=
  b = 9 ∨ 32 ≤ b ∧ b ≠ 127

instance : DecidablePred LegalByte := fun b =>
  inferInstanceAs (Decidable (b = 9 ∨ 32 ≤ b ∧ b ≠ 127))

structure HeaderValue where
  bytes : List UInt8
  legal : ∀ b ∈ bytes, LegalByte b

/-- The values of each header, one for each of its lines. -/
abbrev HeaderMap :=
  String → List HeaderValue

/-- `HeaderMap::get`: the first line. -/
def HeaderMap.get (headers : HeaderMap) (name : String) : Option HeaderValue :=
  (headers name).head?

def isVisibleAscii (b : UInt8) : Bool :=
  (32 ≤ b && b < 127) || b = 9

namespace HeaderValue

def toStr (v : HeaderValue) : Option String :=
  if v.bytes.all isVisibleAscii then
    some (String.ofList (v.bytes.map fun b => Char.ofNat b.toNat))
  else none

/-- The value with another one after a comma. -/
def append (v w : HeaderValue) : HeaderValue where
  bytes := v.bytes ++ 44 :: w.bytes
  legal := by
    intro b hb
    rcases List.mem_append.mp hb with hb | hb
    · exact v.legal b hb
    · rcases List.mem_cons.mp hb with rfl | hb
      · exact Or.inr (by decide)
      · exact w.legal b hb

end HeaderValue

/-- `value.split(',').map(str::trim)`. -/
def elementsOf (value : String) : List String :=
  (value.toList.splitOn ',').map fun l => trim (String.ofList l)

/-- The address of an element that is not trusted. -/
def untrusted (trusted : List TrustedProxy) (element : String) : Option IpAddr :=
  (parseIpAddr element).filter fun candidate => !trusts trusted candidate

/-- Single key-derivation path. -/
def rateLimitKey (peer : Option SocketAddr) (headers : HeaderMap) (trusted : List TrustedProxy) :
    IpAddr :=
  match peer with
  | none => localPeerFallback
  | some addr =>
      if !trusts trusted addr.ip then addr.ip
      else
        match (headers.get "x-forwarded-for").bind HeaderValue.toStr with
        | none => addr.ip
        | some value =>
            let elements := elementsOf value
            if elements.getLast?.all fun element => (parseIpAddr element).isNone then addr.ip
            else (elements.reverse.findSome? (untrusted trusted)).getD addr.ip

def AddrChar (c : Char) : Prop :=
  (toDigit 16 c).isSome ∨ c = '.' ∨ c = ':'

theorem toDigit_mono {r r' : Nat} (h : r ≤ r') {c : Char} (hc : (toDigit r c).isSome) :
    (toDigit r' c).isSome := by
  unfold toDigit at hc ⊢
  dsimp only at hc ⊢
  generalize (if c.isDigit then _ else _ : Option Nat) = value at hc ⊢
  cases value with
  | none => exact hc
  | some n =>
      simp only [Option.filter_some, Option.isSome_ite, decide_eq_true_eq] at hc ⊢
      exact lt_of_lt_of_le hc h

theorem takes_readNumber {radix : Nat} (h : radix ≤ 16) (maxDigits : Nat) (allowZeroPrefix : Bool)
    (bound : Nat) : Takes AddrChar (readNumber radix maxDigits allowZeroPrefix bound) := by
  intro s n rest hread
  change (if _ then none else some (_, _)) = some (n, rest) at hread
  obtain ⟨-, heq⟩ := Option.ite_none_left_eq_some.mp hread
  obtain ⟨-, rfl⟩ := Prod.mk.inj (Option.some.inj heq)
  obtain ⟨digits, hs, hdigits⟩ := exists_dropWhile (fun c => (toDigit radix c).isSome) s
  exact ⟨digits, hs, fun c hc => Or.inl (toDigit_mono h (hdigits c hc))⟩

theorem takes_readSeparator {α : Type} {sep : Char} (hsep : AddrChar sep) (index : Nat)
    {inner : Reader α} (h : Takes AddrChar inner) :
    Takes AddrChar (readSeparator sep index inner) := by
  unfold readSeparator
  split
  · exact (takes_given hsep).bind fun _ => h
  · exact (takes_pure ()).bind fun _ => h

theorem addrChar_dot : AddrChar '.' :=
  Or.inr (Or.inl rfl)

theorem addrChar_colon : AddrChar ':' :=
  Or.inr (Or.inr rfl)

theorem takes_readIpv4Addr : Takes AddrChar readIpv4Addr := by
  refine Takes.bind (takes_mapM (fun i => ?_) _) fun _ => takes_pure _
  exact takes_readSeparator addrChar_dot i (takes_readNumber (by decide) _ _ _)

theorem takes_readGroups (index left : Nat) : Takes AddrChar (readGroups index left) := by
  induction left generalizing index with
  | zero => exact takes_pure _
  | succ left ih =>
      refine Takes.orElse ?_ (Takes.orElse ?_ (takes_pure _))
      · split
        · exact (takes_readSeparator addrChar_colon index takes_readIpv4Addr).bind
            fun _ => takes_pure _
        · exact takes_failure
      · refine (takes_readSeparator addrChar_colon index (takes_readNumber le_rfl _ _ _)).bind
          fun _ => ?_
        exact (ih (index + 1)).bind fun _ => takes_pure _

theorem takes_readIpv6Addr : Takes AddrChar readIpv6Addr := by
  refine (takes_readGroups 0 8).bind fun head => ?_
  dsimp only
  split
  · exact takes_pure _
  split
  · exact takes_failure
  · refine (takes_given addrChar_colon).bind fun _ => (takes_given addrChar_colon).bind fun _ => ?_
    exact (takes_readGroups _ _).bind fun _ => takes_pure _

theorem addrChar_of_parseIpAddr {s : String} {a : IpAddr} (h : parseIpAddr s = some a) :
    ∀ c ∈ s.toList, AddrChar c :=
  (takes_readIpv4Addr.map _).orElse (takes_readIpv6Addr.map _) |>.of_parse h

theorem comma_notMem_of_parseIpAddr {s : String} {a : IpAddr}
    (h : parseIpAddr (trim s) = some a) : ',' ∉ s.toList := by
  intro hmem
  have htrim : ',' ∈ (trim s).toList := by
    rw [trim, String.toList_ofList]
    exact (mem_strip (p := isWhiteSpace) (by decide)).mpr hmem
  exact absurd (addrChar_of_parseIpAddr h ',' htrim) (by unfold AddrChar; decide)

/-- A proxy appends an address after a comma to the last line, or as a further line. -/
inductive Forwarding where
  | afterComma
  | ownLine
  deriving DecidableEq, Repr

def Forwarding.appendTo (how : Forwarding) (lines : List HeaderValue) (v : HeaderValue) :
    List HeaderValue :=
  match how, lines.getLast? with
  | .afterComma, some last => lines.dropLast ++ [last.append v]
  | _, _ => lines ++ [v]

def forwarded (how : Forwarding) (client : HeaderMap) (v : HeaderValue) : HeaderMap := fun name =>
  if name = "x-forwarded-for" then how.appendTo (client name) v else client name

/-- The value is the text of an address, with blanks around it or none. -/
def Denotes (v : HeaderValue) (a : IpAddr) : Prop :=
  ∃ s, v.toStr = some s ∧ parseIpAddr (trim s) = some a

/-- The line of the client that stays the first one as it was. -/
def Forwarding.clientLine : Forwarding → List HeaderValue → Option HeaderValue
  | .ownLine, lines => lines.head?
  | .afterComma, line :: _ :: _ => some line
  | .afterComma, _ => none

/-- The line ends in an address, and the last of its addresses that is not trusted is
the given one. -/
def Names (trusted : List TrustedProxy) (line : HeaderValue) (a : IpAddr) : Prop :=
  ∃ s, line.toStr = some s ∧
    (∀ last ∈ (elementsOf s).getLast?, (parseIpAddr last).isSome) ∧
    ∃ before element after, elementsOf s = before ++ element :: after ∧
      parseIpAddr element = some a ∧ trusts trusted a = false ∧
      ∀ later ∈ after, ∀ c ∈ parseIpAddr later, trusts trusted c

/-- Either the client has sent a first line that stays, and it names the address itself;
or the proxy has written to the first line, and every byte in it is visible. -/
def Heard (how : Forwarding) (trusted : List TrustedProxy) (lines : List HeaderValue)
    (a : IpAddr) : Prop :=
  match how.clientLine lines with
  | some line => Names trusted line a
  | none => ∀ line ∈ lines, ∀ b ∈ line.bytes, isVisibleAscii b

theorem HeaderValue.toStr_eq_some {v : HeaderValue} {s : String} :
    v.toStr = some s ↔ (∀ b ∈ v.bytes, isVisibleAscii b) ∧
      s = String.ofList (v.bytes.map fun b => Char.ofNat b.toNat) := by
  rw [toStr, Option.ite_none_right_eq_some, List.all_eq_true, Option.some.injEq, eq_comm (a := s)]

theorem HeaderValue.toStr_append {v w : HeaderValue} {t : String} (hw : w.toStr = some t)
    {r : String} : (v.append w).toStr = some r ↔
      ∃ s, v.toStr = some s ∧ r.toList = s.toList ++ ',' :: t.toList := by
  obtain ⟨hvisible, rfl⟩ := toStr_eq_some.mp hw
  rw [toStr_eq_some]
  simp only [append, List.forall_mem_append, List.forall_mem_cons, List.map_append, List.map_cons,
    String.toList_ofList]
  constructor
  · rintro ⟨⟨hv, -⟩, rfl⟩
    exact ⟨_, toStr_eq_some.mpr ⟨hv, rfl⟩, by simp⟩
  · rintro ⟨s, hs, hr⟩
    obtain ⟨hv, rfl⟩ := toStr_eq_some.mp hs
    refine ⟨⟨hv, by decide, hvisible⟩, String.toList_injective ?_⟩
    rw [hr, String.toList_ofList, String.toList_ofList]
    rfl

theorem elementsOf_append {r s t : String} (h : r.toList = s.toList ++ ',' :: t.toList) :
    elementsOf r = elementsOf s ++ elementsOf t := by
  rw [elementsOf, h, List.splitOn_append_cons_self, List.map_append, elementsOf, elementsOf]

theorem elementsOf_eq_singleton {t : String} {a : IpAddr}
    (h : parseIpAddr (trim t) = some a) : elementsOf t = [trim t] := by
  rw [elementsOf, List.splitOn_eq_singleton (comma_notMem_of_parseIpAddr h), List.map_singleton,
    String.ofList_toList]

theorem names_of_append_singleton {trusted : List TrustedProxy} {line : HeaderValue} {s : String}
    {a : IpAddr} {before : List String} {element : String} (hs : line.toStr = some s)
    (helements : elementsOf s = before ++ [element]) (ha : parseIpAddr element = some a)
    (huntrusted : trusts trusted a = false) : Names trusted line a := by
  refine ⟨s, hs, fun last hlast => ?_, before, element, [], helements, ha, huntrusted,
    fun _ h => (nomatch h)⟩
  rw [helements, List.getLast?_concat] at hlast
  obtain rfl := Option.some.inj hlast
  rw [ha, Option.isSome_some]

theorem names_self {trusted : List TrustedProxy} {v : HeaderValue} {a : IpAddr}
    (hv : Denotes v a) (huntrusted : trusts trusted a = false) : Names trusted v a := by
  obtain ⟨s, hs, ha⟩ := hv
  have helements : elementsOf s = [] ++ [trim s] := elementsOf_eq_singleton ha
  exact names_of_append_singleton hs helements ha huntrusted

theorem names_append_iff {trusted : List TrustedProxy} {line v : HeaderValue} {a : IpAddr}
    (hv : Denotes v a) (huntrusted : trusts trusted a = false) :
    Names trusted (line.append v) a ↔ ∀ b ∈ line.bytes, isVisibleAscii b := by
  obtain ⟨t, ht, ha⟩ := hv
  constructor
  · rintro ⟨r, hr, -⟩
    obtain ⟨s, hs, -⟩ := (HeaderValue.toStr_append ht).mp hr
    exact (HeaderValue.toStr_eq_some.mp hs).1
  · intro hvisible
    obtain ⟨s, hs⟩ : ∃ s, line.toStr = some s :=
      ⟨_, HeaderValue.toStr_eq_some.mpr ⟨hvisible, rfl⟩⟩
    obtain ⟨r, hr⟩ : ∃ r : String, r.toList = s.toList ++ ',' :: t.toList :=
      ⟨String.ofList (s.toList ++ ',' :: t.toList), String.toList_ofList⟩
    have helements : elementsOf r = elementsOf s ++ [trim t] := by
      rw [elementsOf_append hr, elementsOf_eq_singleton ha]
    exact names_of_append_singleton ((HeaderValue.toStr_append ht).mpr ⟨s, hs, hr⟩) helements ha
      huntrusted

variable {trusted : List TrustedProxy} {a : IpAddr}

theorem untrusted_eq_some {element : String} :
    untrusted trusted element = some a ↔ parseIpAddr element = some a ∧
      trusts trusted a = false := by
  rw [untrusted, Option.filter_eq_some_iff, Bool.not_eq_true']

theorem untrusted_eq_none {element : String} :
    untrusted trusted element = none ↔ ∀ c ∈ parseIpAddr element, trusts trusted c := by
  simp [untrusted, Option.filter_eq_none_iff]

theorem findSome?_reverse_eq_some {elements : List String} :
    elements.reverse.findSome? (untrusted trusted) = some a ↔
      ∃ before element after, elements = before ++ element :: after ∧
        parseIpAddr element = some a ∧ trusts trusted a = false ∧
        ∀ later ∈ after, ∀ c ∈ parseIpAddr later, trusts trusted c := by
  rw [List.findSome?_eq_some_iff]
  constructor
  · rintro ⟨after, element, before, helements, helement, hafter⟩
    obtain ⟨ha, huntrusted⟩ := untrusted_eq_some.mp helement
    refine ⟨before.reverse, element, after.reverse, ?_, ha, huntrusted, fun later hlater => ?_⟩
    · rw [← List.reverse_reverse elements, helements]
      simp
    · exact untrusted_eq_none.mp (hafter later (List.mem_reverse.mp hlater))
  · rintro ⟨before, element, after, rfl, ha, huntrusted, hafter⟩
    refine ⟨after.reverse, element, before.reverse, by simp, untrusted_eq_some.mpr
      ⟨ha, huntrusted⟩, fun later hlater => ?_⟩
    exact untrusted_eq_none.mpr (hafter later (List.mem_reverse.mp hlater))

theorem rateLimitKey_eq_iff {addr : SocketAddr} {headers : HeaderMap}
    (htrusted : trusts trusted addr.ip) (huntrusted : trusts trusted a = false) :
    rateLimitKey (some addr) headers trusted = a ↔
      ∃ line ∈ headers.get "x-forwarded-for", Names trusted line a := by
  have hpeer : addr.ip ≠ a := by
    rintro rfl
    rw [huntrusted] at htrusted
    cases htrusted
  simp only [rateLimitKey, htrusted, Bool.not_true, Bool.false_eq_true, if_false]
  cases hline : headers.get "x-forwarded-for" with
  | none => simp [hpeer]
  | some line =>
      simp only [Option.bind_some, Option.mem_some_iff, exists_eq_left', Names]
      cases hs : line.toStr with
      | none => simp [hpeer]
      | some s =>
          simp only [Option.some.injEq, exists_eq_left']
          have hne : elementsOf s ≠ [] := by
            rw [elementsOf, ne_eq, List.map_eq_nil_iff]
            exact List.splitOn_ne_nil ',' s.toList
          have hlast := List.getLast?_eq_some_getLast hne
          rw [hlast]
          simp only [Option.all_some, Option.mem_some_iff, forall_eq', ← findSome?_reverse_eq_some]
          rcases Option.eq_none_or_eq_some (parseIpAddr ((elementsOf s).getLast hne)) with
            hparse | ⟨last, hparse⟩
          · simp [hparse, hpeer]
          · simp only [hparse, Option.isNone_some, Bool.false_eq_true, if_false,
              Option.isSome_some, true_and]
            cases (elementsOf s).reverse.findSome? (untrusted trusted) with
            | none => simp [hpeer]
            | some b => simp

theorem rateLimitKey_of_not_trusts {peer : Option SocketAddr}
    (h : ∀ addr ∈ peer, trusts trusted addr.ip = false) (headers : HeaderMap) :
    rateLimitKey peer headers trusted = (peer.map SocketAddr.ip).getD localPeerFallback := by
  cases peer with
  | none => rfl
  | some addr => simp [rateLimitKey, h addr rfl]

theorem names_firstLine_iff {how : Forwarding} {lines : List HeaderValue} {v : HeaderValue}
    (hv : Denotes v a) (huntrusted : trusts trusted a = false) :
    (∃ line ∈ (how.appendTo lines v).head?, Names trusted line a) ↔ Heard how trusted lines a := by
  have hself := names_self hv huntrusted
  cases how with
  | ownLine =>
      cases lines with
      | nil => simp [Forwarding.appendTo, Heard, Forwarding.clientLine, hself]
      | cons line lines => simp [Forwarding.appendTo, Heard, Forwarding.clientLine]
  | afterComma =>
      cases lines with
      | nil => simp [Forwarding.appendTo, Heard, Forwarding.clientLine, hself]
      | cons line lines =>
          cases lines with
          | nil =>
              simp [Forwarding.appendTo, Heard, Forwarding.clientLine,
                names_append_iff hv huntrusted]
          | cons line' lines =>
              obtain ⟨last, hlast⟩ := Option.ne_none_iff_exists'.mp
                (show (line :: line' :: lines).getLast? ≠ none by simp)
              simp [Forwarding.appendTo, Heard, Forwarding.clientLine, hlast]

/-- Without a trusted peer no header counts; and the key is the address that a trusted
peer has appended exactly when it is heard. -/
theorem rateLimitKey_iff (trusted : List TrustedProxy) (peer : Option SocketAddr) :
    ((∀ addr ∈ peer, trusts trusted addr.ip = false) → ∀ headers headers',
      rateLimitKey peer headers trusted = rateLimitKey peer headers' trusted) ∧
    ∀ addr ∈ peer, trusts trusted addr.ip → ∀ (client : HeaderMap) (how : Forwarding)
      (v : HeaderValue) (a : IpAddr), Denotes v a → trusts trusted a = false →
      (rateLimitKey peer (forwarded how client v) trusted = a ↔
        Heard how trusted (client "x-forwarded-for") a) := by
  constructor
  · intro h headers headers'
    rw [rateLimitKey_of_not_trusts h, rateLimitKey_of_not_trusts h]
  · rintro addr hpeer htrusted client how v a hv huntrusted
    obtain rfl := hpeer
    rw [rateLimitKey_eq_iff htrusted huntrusted, ← names_firstLine_iff hv huntrusted]
    rfl

def proxyAddr : SocketAddr where
  ip := .v4 0x0A000001#32
  port := 443

def clientAddr : IpAddr :=
  .v4 0xCB007107#32

def clientText : HeaderValue where
  bytes := [50, 48, 51, 46, 48, 46, 49, 49, 51, 46, 55]
  legal := by decide +kernel

def madeUp : HeaderValue where
  bytes := [54, 46, 54, 46, 54, 46, 54]
  legal := by decide +kernel

def obsText : HeaderValue where
  bytes := [0xE9]
  legal := by decide +kernel

def sends (lines : List HeaderValue) : HeaderMap := fun name =>
  if name = "x-forwarded-for" then lines else []

def keyBehindProxy (how : Forwarding) (lines : List HeaderValue) : IpAddr :=
  rateLimitKey (some proxyAddr) (forwarded how (sends lines) clientText)
    [TrustedProxy.exact proxyAddr.ip]

theorem denotes_clientText : Denotes clientText clientAddr :=
  ⟨"203.0.113.7", by decide +kernel, by decide +kernel⟩

theorem rateLimitKey_iff_behindProxy :
    keyBehindProxy .afterComma [madeUp] = clientAddr ↔
      Heard .afterComma [TrustedProxy.exact proxyAddr.ip] [madeUp] clientAddr :=
  (rateLimitKey_iff [TrustedProxy.exact proxyAddr.ip] (some proxyAddr)).2 proxyAddr rfl
    (by decide) (sends [madeUp]) .afterComma clientText clientAddr denotes_clientText (by decide)

/-- With a line of its own before the proxy's, the client is keyed by the address that
it makes up; and one byte that is not visible keys it by the proxy. -/
theorem not_clientAddr :
    Denotes clientText clientAddr ∧
    keyBehindProxy .ownLine [madeUp] = .v4 0x06060606#32 ∧
    keyBehindProxy .afterComma [madeUp, madeUp] = .v4 0x06060606#32 ∧
    keyBehindProxy .afterComma [obsText] = proxyAddr.ip ∧
    ¬ ∀ how lines, keyBehindProxy how lines = clientAddr := by
  have hown : keyBehindProxy .ownLine [madeUp] = .v4 0x06060606#32 := by decide +kernel
  refine ⟨denotes_clientText, hown, by decide +kernel, by decide +kernel, fun h => ?_⟩
  exact absurd (hown.symm.trans (h .ownLine [madeUp])) (by decide)

end PersonalDashboard.RateLimitKey
