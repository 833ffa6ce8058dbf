import PersonalDashboard.TaskViews
import PersonalDashboard.TextIndices
import Mathlib.Data.List.DropRight
import Mathlib.Data.Rat.Floor

/-! The audit log of the tools: a buffer that all callers share, read by each caller for its
own entries. -/

set_option autoImplicit false

namespace PersonalDashboard.AuditLog

open PersonalDashboard.TaskViews
open PersonalDashboard.TextIndices

/-- The values of a number, without the two signs of zero. -/
inductive JsNumber where
  | nan
  | negInfinity
  | finite (value : ℚ)
  | infinity
  deriving DecidableEq

namespace JsNumber

/-- `a < b`; false if one of them is not a number. -/
def lt : JsNumber → JsNumber → Bool
  | finite a, finite b => a < b
  | negInfinity, finite _ | negInfinity, infinity | finite _, infinity => true
  | _, _ => false

/-- `Math.floor`. -/
def floor : JsNumber → JsNumber
  | finite a => finite ⌊a⌋
  | a => a

/-- `Math.min`. -/
def min (a b : JsNumber) : JsNumber :=
  if a = nan ∨ b = nan then nan else if b.lt a then b else a

/-- `Math.max`. -/
def max (a b : JsNumber) : JsNumber :=
  if a = nan ∨ b = nan then nan else if a.lt b then b else a

def neg : JsNumber → JsNumber
  | nan => nan
  | negInfinity => infinity
  | finite a => finite (-a)
  | infinity => negInfinity

end JsNumber

def truncate (a : ℚ) : Int :=
  if 0 ≤ a then ⌊a⌋ else ⌈a⌉

/-- `l.slice(start)`. -/
def sliceFrom {α : Type} (l : List α) : JsNumber → List α
  | .nan | .negInfinity => l
  | .finite a => l.drop (sliceIndex l.length (truncate a))
  | .infinity => []

structure AuditEntry where
  occurredAt : String
  tool : String
  success : Bool
  errorCode : Option String
  tokenPrefix : String
  requestId : String
  /-- Non-reversible caller id; entries are only served back to their owner. -/
  principal : Option String
  deriving DecidableEq

def maxAuditEntries : Nat :=
  200

def maxToolNameLen : Nat :=
  64

/-- `TOOL_NAME_SAFE`. -/
def isToolNameChar (c : Char) : Bool :=
  c.isAlphanum || c = '_' || c = '.' || c = '-'

/-- `raw` is `none` if it is not a string. -/
def sanitizeToolName (raw : Option String) : String :=
  let value := raw.getD ""
  if (codeUnits value.toList).length = 0 then "invalid_name"
  else if maxToolNameLen < (codeUnits value.toList).length then "invalid_name"
  else if !value.toList.all isToolNameChar then "invalid_name"
  else value

def AuditEntry.sanitized (entry : AuditEntry) : AuditEntry :=
  { entry with tool := sanitizeToolName (some entry.tool) }

def isOwn (principal : String) (entry : AuditEntry) : Bool :=
  entry.principal = some principal

def recordAudit (auditLog : List AuditEntry) (entry : AuditEntry) : List AuditEntry :=
  let auditLog := auditLog ++ [entry.sanitized]
  if maxAuditEntries < auditLog.length then auditLog.drop (auditLog.length - maxAuditEntries)
  else auditLog

def readAuditLog (auditLog : List AuditEntry) (limit : Option JsNumber)
    (principal : Option String) : List AuditEntry :=
  let n : JsNumber := match limit with
    | none => .finite 50
    | some limit => JsNumber.max (.finite 1) (JsNumber.min limit.floor (.finite maxAuditEntries))
  let entries := match principal with
    | none => auditLog
    | some principal => auditLog.filter (isOwn principal)
  (sliceFrom entries n.neg).reverse

/-- `principalForToken`; `sha256` is the digest in hexadecimal. -/
def principalForToken (sha256 : String → String) (token : Option String) : Option String :=
  match token with
  | none => none
  | some token =>
      let trimmed := jsTrim token
      if codeUnits trimmed.toList = [] then none
      else some (String.ofList ((sha256 trimmed).toList.take 16))

def listAuditLog (sha256 : String → String) (auditLog : List AuditEntry)
    (limit : Option JsNumber) (token : Option String) : Except String (List AuditEntry) :=
  match principalForToken sha256 token with
  | none => .error "list_audit_log requires an authenticated caller"
  | some principal => .ok (readAuditLog auditLog limit (some principal))

inductive AuditCall where
  | record (entry : AuditEntry)
  | read (limit : Option JsNumber) (principal : Option String)

def step (auditLog : List AuditEntry) : AuditCall → List AuditEntry × List AuditEntry
  | .record entry => (recordAudit auditLog entry, [])
  | .read limit principal => (auditLog, readAuditLog auditLog limit principal)

def run (calls : List AuditCall) : List AuditEntry :=
  calls.foldl (fun auditLog call => (step auditLog call).1) []

def recorded (calls : List AuditCall) : List AuditEntry :=
  calls.filterMap fun
    | .record entry => some entry.sanitized
    | .read _ _ => none

/-- Two histories that agree on the entries of a principal and on their places, counted from
the newest entry. -/
def Agree (principal : String) (h h' : List AuditEntry) : Prop :=
  ∀ i : Nat, (h.reverse[i]?).bind (Option.guard (isOwn principal)) =
    (h'.reverse[i]?).bind (Option.guard (isOwn principal))

section Lists

variable {α β : Type}

theorem reverse_rtake (l : List α) (n : Nat) : (l.rtake n).reverse = l.reverse.take n := by
  rw [List.rtake_eq_reverse_take_reverse, List.reverse_reverse]

theorem rtake_of_length_le {l : List α} {n : Nat} (h : l.length ≤ n) : l.rtake n = l := by
  rw [List.rtake, Nat.sub_eq_zero_of_le h, List.drop_zero]

theorem rtake_rtake_append (l : List α) (a : α) (n : Nat) :
    (l.rtake n ++ [a]).rtake n = (l ++ [a]).rtake n := by
  cases n with
  | zero => rw [List.rtake_zero, List.rtake_zero]
  | succ n =>
      have htake : ((l.rtake (n + 1)).rtake n).reverse = (l.rtake n).reverse := by
        rw [reverse_rtake, reverse_rtake, reverse_rtake, List.take_take,
          Nat.min_eq_left (Nat.le_succ n)]
      rw [List.rtake_concat_succ, List.rtake_concat_succ, List.reverse_injective htake]

theorem filterMap_take_congr {f : α → Option β} {l l' : List α}
    (h : ∀ i : Nat, (l[i]?).bind f = (l'[i]?).bind f) (n : Nat) :
    (l.take n).filterMap f = (l'.take n).filterMap f := by
  induction n generalizing l l' with
  | zero => rfl
  | succ n ih =>
      have hhead := h 0
      have htail := fun i : Nat => h (i + 1)
      cases l with
      | nil =>
          cases l' with
          | nil => rfl
          | cons b l' =>
              have hb : f b = none := hhead.symm
              have hrest : (([] : List α).take n).filterMap f = (l'.take n).filterMap f := ih htail
              rw [List.take_succ_cons, List.filterMap_cons_none hb, ← hrest, List.take_nil,
                List.take_nil]
      | cons a l =>
          cases l' with
          | nil =>
              have ha : f a = none := hhead
              have hrest : (l.take n).filterMap f = (([] : List α).take n).filterMap f := ih htail
              rw [List.take_succ_cons, List.filterMap_cons_none ha, hrest, List.take_nil,
                List.take_nil]
          | cons b l' =>
              have hab : f a = f b := hhead
              rw [List.take_succ_cons, List.take_succ_cons, List.filterMap_cons,
                List.filterMap_cons, hab, ih htail]

end Lists

theorem sliceFrom_neg {α : Type} (l : List α) {n : Nat} (hn : 1 ≤ n) :
    sliceFrom l (JsNumber.finite n).neg = l.rtake n := by
  have htruncate : truncate (-(n : ℚ)) = -(n : Int) := by
    have hneg : ¬ 0 ≤ -(n : ℚ) := by
      have hpos : (0 : ℚ) < n := Nat.cast_pos.mpr hn
      linarith only [hpos]
    rw [truncate, if_neg hneg, Int.ceil_neg, Int.floor_natCast]
  have hindex : sliceIndex l.length (-(n : Int)) = l.length - n := by
    rw [sliceIndex, if_pos (by omega)]
    omega
  simp only [JsNumber.neg, sliceFrom, htruncate, hindex, List.rtake]

theorem sliceFrom_sublist {α : Type} (l : List α) (start : JsNumber) :
    List.Sublist (sliceFrom l start) l := by
  cases start with
  | nan | negInfinity => exact List.Sublist.refl l
  | finite a => exact List.drop_sublist _ l
  | infinity => exact List.nil_sublist l

theorem limit_eq {n : Nat} (hn : 1 ≤ n) :
    JsNumber.max (.finite 1)
      (JsNumber.min (JsNumber.floor (.finite n)) (.finite (maxAuditEntries : ℚ))) =
        .finite (min n maxAuditEntries : Nat) := by
  have hfloor : JsNumber.floor (.finite n) = .finite n := by
    rw [JsNumber.floor, Int.floor_natCast, Int.cast_natCast]
  have hmin : JsNumber.min (.finite n) (.finite (maxAuditEntries : ℚ)) =
      .finite (min n maxAuditEntries : Nat) := by
    rcases Nat.lt_or_ge maxAuditEntries n with hlt | hle
    · rw [Nat.min_eq_right hlt.le]
      simp [JsNumber.min, JsNumber.lt, hlt]
    · rw [Nat.min_eq_left hle]
      simp [JsNumber.min, JsNumber.lt, hle]
  have hone : 1 ≤ min n maxAuditEntries := Nat.le_min.mpr ⟨hn, by decide⟩
  rw [hfloor, hmin]
  rcases hone.lt_or_eq with hlt | heq
  · have hcast : (1 : ℚ) < (min n maxAuditEntries : Nat) := by exact_mod_cast hlt
    simp only [JsNumber.max, JsNumber.lt, hcast, decide_true, if_true, reduceCtorEq, or_self,
      if_false]
  · rw [← heq]
    simp [JsNumber.max, JsNumber.lt]

theorem recordAudit_eq (auditLog : List AuditEntry) (entry : AuditEntry) :
    recordAudit auditLog entry = (auditLog ++ [entry.sanitized]).rtake maxAuditEntries := by
  by_cases hlong : maxAuditEntries < (auditLog ++ [entry.sanitized]).length
  · simp only [recordAudit, if_pos hlong, List.rtake]
  · simp only [recordAudit, if_neg hlong]
    exact (rtake_of_length_le (Nat.le_of_not_lt hlong)).symm

theorem recorded_append_singleton (calls : List AuditCall) (call : AuditCall) :
    recorded (calls ++ [call]) = recorded calls ++ recorded [call] :=
  List.filterMap_append

theorem run_eq (calls : List AuditCall) : run calls = (recorded calls).rtake maxAuditEntries := by
  induction calls using List.reverseRecOn with
  | nil => rfl
  | append_singleton calls call ih =>
      have hstep : run (calls ++ [call]) = (step (run calls) call).1 := by
        rw [run, List.foldl_append]
        rfl
      rw [hstep, recorded_append_singleton, ih]
      cases call with
      | record entry =>
          have hrecorded : recorded [.record entry] = [entry.sanitized] := rfl
          rw [step, recordAudit_eq, rtake_rtake_append, hrecorded]
      | read limit principal =>
          have hrecorded : recorded [.read limit principal] = [] := rfl
          rw [step, hrecorded, List.append_nil]

theorem isOwn_of_mem_readAuditLog {auditLog : List AuditEntry} {limit : Option JsNumber}
    {principal : String} {entry : AuditEntry}
    (hmem : entry ∈ readAuditLog auditLog limit (some principal)) :
    entry ∈ auditLog ∧ entry.principal = some principal := by
  have hfilter : entry ∈ auditLog.filter (isOwn principal) :=
    (sliceFrom_sublist _ _).subset (List.mem_reverse.mp hmem)
  obtain ⟨hlog, hown⟩ := List.mem_filter.mp hfilter
  exact ⟨hlog, of_decide_eq_true hown⟩

theorem readAuditLog_eq (auditLog : List AuditEntry) {n : Nat} (hn : 1 ≤ n) (principal : String) :
    readAuditLog auditLog (some (.finite n)) (some principal) =
      (auditLog.reverse.filter (isOwn principal)).take (min n maxAuditEntries) := by
  have hone : 1 ≤ min n maxAuditEntries := Nat.le_min.mpr ⟨hn, by decide⟩
  simp only [readAuditLog]
  rw [limit_eq hn, sliceFrom_neg _ hone, reverse_rtake, List.filter_reverse]

/-- The entries that a principal reads after some calls: of the newest entries that all
principals recorded its own ones, and of these the newest. -/
def ownNewest (h : List AuditEntry) (principal : String) (n : Nat) : List AuditEntry :=
  ((h.reverse.take maxAuditEntries).filter (isOwn principal)).take (min n maxAuditEntries)

theorem ownNewest_congr {principal : String} {h h' : List AuditEntry}
    (hagree : Agree principal h h') (n : Nat) :
    ownNewest h principal n = ownNewest h' principal n := by
  have hfilter := filterMap_take_congr hagree maxAuditEntries
  rw [List.filterMap_eq_filter] at hfilter
  rw [ownNewest, ownNewest, hfilter]

theorem agree_of_map_eq {principal : String} {h h' : List AuditEntry}
    (hmap : h.map (Option.guard (isOwn principal)) = h'.map (Option.guard (isOwn principal))) :
    Agree principal h h' := by
  have hbind : ∀ (l : List AuditEntry) (i : Nat),
      (l.reverse[i]?).bind (Option.guard (isOwn principal)) =
        ((l.map (Option.guard (isOwn principal))).reverse[i]?).join := by
    intro l i
    rw [← List.map_reverse, List.getElem?_map]
    cases l.reverse[i]? <;> rfl
  intro i
  rw [hbind, hbind, hmap]

theorem readAuditLog_run_eq (calls : List AuditCall) {n : Nat} (hn : 1 ≤ n) (principal : String) :
    readAuditLog (run calls) (some (.finite n)) (some principal) =
      ownNewest (recorded calls) principal n := by
  rw [readAuditLog_eq _ hn, run_eq, reverse_rtake, ownNewest]

/-- After any calls a principal reads the newest of its own entries in the buffer, no entry of
another one, and the same in histories that agree on its entries and their places. -/
theorem readAuditLog_run (calls : List AuditCall) (n : Nat) (hn : 1 ≤ n) (principal : String) :
    readAuditLog (run calls) (some (.finite n)) (some principal) =
        ownNewest (recorded calls) principal n ∧
      (∀ entry ∈ readAuditLog (run calls) (some (.finite n)) (some principal),
        entry.principal = some principal) ∧
      ∀ calls' : List AuditCall, Agree principal (recorded calls) (recorded calls') →
        readAuditLog (run calls') (some (.finite n)) (some principal) =
          readAuditLog (run calls) (some (.finite n)) (some principal) := by
  refine ⟨readAuditLog_run_eq calls hn principal, fun entry hmem => ?_, fun calls' hagree => ?_⟩
  · exact (isOwn_of_mem_readAuditLog hmem).2
  · rw [readAuditLog_run_eq calls hn, readAuditLog_run_eq calls' hn, ownNewest_congr hagree]

def sampleEntry (requestId : String) (success : Bool) (principal : String) : AuditEntry :=
  { occurredAt := "2024-01-01T00:00:00.000Z", tool := "list_tasks", success,
    errorCode := if success then none else some "TOOL_ERROR", tokenPrefix := "session",
    requestId, principal := some principal }

/-- The newest entry of `a`, with an older one of its own and a newer one of `b`. -/
theorem readAuditLog_run_two :
    let history (success : Bool) : List AuditCall :=
      [.record (sampleEntry "r1" true "a"), .read none (some "b"),
        .record (sampleEntry "r2" true "a"), .record (sampleEntry "r3" success "b")]
    readAuditLog (run (history true)) (some (.finite 1)) (some "a") =
        [sampleEntry "r2" true "a"] ∧
      readAuditLog (run (history false)) (some (.finite 1)) (some "a") =
        [sampleEntry "r2" true "a"] := by
  intro history
  have hread := readAuditLog_run (history true) 1 (by decide) "a"
  rw [Nat.cast_one] at hread
  have hnewest : ownNewest (recorded (history true)) "a" 1 = [sampleEntry "r2" true "a"] := by
    decide +kernel
  have hagree : Agree "a" (recorded (history true)) (recorded (history false)) := by
    apply agree_of_map_eq
    decide +kernel
  exact ⟨hread.1.trans hnewest,
    (hread.2.2 (history false) hagree).trans (hread.1.trans hnewest)⟩

theorem principal_of_mem_listAuditLog {sha256 : String → String}
    {auditLog entries : List AuditEntry} {limit : Option JsNumber} {token : Option String}
    (hlist : listAuditLog sha256 auditLog limit token = .ok entries) :
    ∃ principal, principalForToken sha256 token = some principal ∧
      ∀ entry ∈ entries, entry.principal = some principal := by
  rw [listAuditLog] at hlist
  cases hprincipal : principalForToken sha256 token with
  | none =>
      rw [hprincipal] at hlist
      cases hlist
  | some principal =>
      rw [hprincipal] at hlist
      refine ⟨principal, rfl, fun entry hmem => ?_⟩
      rw [← Except.ok.inj hlist] at hmem
      exact (isOwn_of_mem_readAuditLog hmem).2

end PersonalDashboard.AuditLog
