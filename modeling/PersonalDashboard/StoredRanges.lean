import PersonalDashboard.EventHandlers
import PersonalDashboard.RowInvariants

/-! The ranges of events and goals over every interleaving of the requests that
write them. -/

set_option autoImplicit false

namespace PersonalDashboard.StoredRanges

open PersonalDashboard.Calendar
open PersonalDashboard.EventHandlers
open PersonalDashboard.Instants
open PersonalDashboard.LedgerHandlers
open PersonalDashboard.ReadCommitted
open PersonalDashboard.RowInvariants
open PersonalDashboard.RowStatements
open PersonalDashboard.RowStore
open PersonalDashboard.Schema
open PersonalDashboard.TaskHandlers
open PersonalDashboard.Validation

/-- An event ends after it starts, and a goal is not due before it starts. -/
def rangeLaw : (k : Key) → Row k → Prop
  | .event _, (e : EventRow) => ∀ ends, e.endsAt = some ends → e.startsAt < ends
  | .goal _, (g : GoalRow) => ∀ due, g.dueDate = some due → g.startDate ≤ due
  | _, _ => True

structure RangesOrdered (s : Db) : Prop where
  events : ∀ id e ends, s.event id = some e → e.endsAt = some ends → ends > e.startsAt
  goals : ∀ id g due, s.goal id = some g → g.dueDate = some due → due ≥ g.startDate

theorem rangesOrdered_of_rowsOk {s : Db} (h : RowsOk rangeLaw s) : RangesOrdered s :=
  ⟨fun id _ ends he hends => h (Key.event id) _ he ends hends,
    fun id _ due hg hdue => h (Key.goal id) _ hg due hdue⟩

def sentInstant (parsers : Parsers) (raw : Option String) : Option DateTime :=
  raw.bind fun raw => parsers.dateTime (trim raw)

def sentDate (parsers : Parsers) (raw : Option String) : Option NaiveDate :=
  raw.bind fun raw => parsers.naiveDate (trim raw)

theorem eq_sentInstant {parsers : Parsers} {raw : Option String} {field : String}
    {d : Option DateTime}
    (h : validateOpt (validateEventDatetime parsers · field) raw = .ok d) :
    d = sentInstant parsers raw := by
  cases raw with
  | none => exact (Except.ok.inj h).symm
  | some raw =>
      simp only [validateOpt, validateEventDatetime] at h
      simp only [sentInstant, Option.bind_some]
      split at h
      · rename_i hparsed
        exact (Except.ok.inj h).symm.trans hparsed.symm
      · cases h

theorem eq_sentDate {parsers : Parsers} {raw : Option String} {field : String}
    {d : Option NaiveDate}
    (h : validateOpt (validateCalendarDate parsers · field) raw = .ok d) :
    d = sentDate parsers raw := by
  cases raw with
  | none => exact (Except.ok.inj h).symm
  | some raw =>
      simp only [validateOpt, validateCalendarDate, parseCalendarDate] at h
      simp only [sentDate, Option.bind_some]
      split at h
      · split at h
        · rename_i hparsed
          exact (Except.ok.inj h).symm.trans hparsed.symm
        · cases h
      · cases h

theorem lt_of_validateEventRange {startsAt : DateTime} {endsAt : Option DateTime} {u : Unit}
    (h : validateEventRange startsAt endsAt = .ok u) {ends : DateTime}
    (hends : endsAt = some ends) : startsAt < ends := by
  subst hends
  unfold validateEventRange at h
  split at h
  · cases h
  · rename_i hle
    simpa using hle

theorem le_of_validateDateRange {start : NaiveDate} {due : Option NaiveDate} {u : Unit}
    (h : validateDateRange start due = .ok u) {day : NaiveDate} (hday : due = some day) :
    start ≤ day := by
  subst hday
  unfold validateDateRange at h
  split at h
  · cases h
  · rename_i hlt
    simpa using hlt

inductive RangeRequest where
  | createEvent (body : CreateEventRequest)
  | patchEvent (id : Uuid) (body : PatchEventRequest)
  | createGoal (today : NaiveDate) (body : CreateGoalRequest)
  | patchGoal (id : Uuid) (body : PatchGoalRequest)

inductive RangeAnswer where
  | event (e : Stored EventRow)
  | goal (g : Stored GoalRow)
  deriving DecidableEq, Repr

def serveRange (caller : Caller) : RangeRequest → Handler RangeAnswer
  | .createEvent body => .event <$> createEventHandler caller body
  | .patchEvent id body => .event <$> patchEventHandler caller id body
  | .createGoal today body => .goal <$> createGoalHandler caller today body
  | .patchGoal id body => .goal <$> patchGoalHandler caller id body

/-- If a PATCH sends one end only, the other is the same in the row that it read
first and in the latest version. -/
def OtherEndKept {ρ α β : Type} (sent : Option α) (other : Option β) (side : ρ → Option α)
    (probed cur : Option ρ) : Prop :=
  sent = none → other.isSome → cur.bind side = probed.bind side

instance {ρ α β : Type} [DecidableEq α] (sent : Option α) (other : Option β) (side : ρ → Option α)
    (probed cur : Option ρ) : Decidable (OtherEndKept sent other side probed cur) :=
  inferInstanceAs (Decidable (_ → _ → _))

def ApartOpt : Option DateTime → Option DateTime → Prop
  | some d, some e => d.Apart e
  | _, _ => True

instance : (d e : Option DateTime) → Decidable (ApartOpt d e)
  | some d, some e => inferInstanceAs (Decidable (d.Apart e))
  | none, _ | some _, none => .isTrue trivial

def startOf (e : EventRow) : Option DateTime :=
  some (.ofMicros e.startsAt)

def endOf (e : EventRow) : Option DateTime :=
  e.endsAt.map .ofMicros

/-- Between the read of an event and its UPDATE, the end that the request leaves
out did not change; and the two ends that were validated are apart, if one of
them was sent. -/
def EventSettled (parsers : Parsers) (body : PatchEventRequest) (probed cur : Option EventRow) :
    Prop :=
  let starts := sentInstant parsers body.startsAt
  let ends := sentInstant parsers body.endsAt
  OtherEndKept starts ends startOf probed cur ∧ OtherEndKept ends starts endOf probed cur ∧
    ((starts.isSome ∨ ends.isSome) →
      ApartOpt (starts.or (probed.bind startOf)) (ends.or (probed.bind endOf)))

instance (parsers : Parsers) (body : PatchEventRequest) (probed cur : Option EventRow) :
    Decidable (EventSettled parsers body probed cur) :=
  inferInstanceAs (Decidable (_ ∧ _ ∧ _))

def GoalSettled (parsers : Parsers) (body : PatchGoalRequest) (probed cur : Option GoalRow) :
    Prop :=
  let start := sentDate parsers body.startDate
  let due := sentDate parsers body.dueDate
  OtherEndKept start due (fun g => some g.startDate) probed cur ∧
    OtherEndKept due start GoalRow.dueDate probed cur

instance (parsers : Parsers) (body : PatchGoalRequest) (probed cur : Option GoalRow) :
    Decidable (GoalSettled parsers body probed cur) :=
  inferInstanceAs (Decidable (_ ∧ _))

/-- What is assumed when the INSERT or the UPDATE of a request takes effect; a
PATCH reads the row with its first query. -/
def Settled (caller : Caller) : RangeRequest → Premise Row
  | .createEvent body, _, _, _, _ =>
      ApartOpt (sentInstant caller.parsers (some body.startsAt))
        (sentInstant caller.parsers body.endsAt)
  | .patchEvent id body, probed :: _, .event _, _, cur =>
      EventSettled caller.parsers body (Db.event probed id) (Db.event cur id)
  | .patchGoal id body, probed :: _, .goal _, _, cur =>
      GoalSettled caller.parsers body (Db.goal probed id) (Db.goal cur id)
  | _, _, _, _, _ => True

instance (caller : Caller) (r : RangeRequest) (seen : Reads Row) (k : Key) (sn cur : Db) :
    Decidable (Settled caller r seen k sn cur) := by
  unfold Settled
  split <;> infer_instance

/-- If an end was sent, an end is the same whether it is merged with the latest
version or with the row read first. -/
theorem or_of_otherEndKept {ρ α β : Type} {sent : Option α} {other : Option β}
    {side : ρ → Option α} {probed cur : Option ρ} (h : OtherEndKept sent other side probed cur)
    (hsent : sent.isSome ∨ other.isSome) :
    sent.or (cur.bind side) = sent.or (probed.bind side) := by
  cases sent with
  | some a => rfl
  | none => exact h rfl (hsent.resolve_left (by simp))

theorem startsAt_lt_endsAt_merge {parsers : Parsers} {body : PatchEventRequest}
    {patch : EventPatch} {now : Timestamp} {current old : EventRow}
    (hstarts : patch.startsAt = sentInstant parsers body.startsAt)
    (hends : patch.endsAt = sentInstant parsers body.endsAt)
    (hold : ∀ ends, old.endsAt = some ends → old.startsAt < ends)
    (hrange : ∀ ends, patch.endsAt.or (endOf current) = some ends →
      patch.startsAt.getD (.ofMicros current.startsAt) < ends)
    (hsettled : EventSettled parsers body (some current) (some old)) :
    ∀ ends, (patch.merge now old).endsAt = some ends → (patch.merge now old).startsAt < ends := by
  obtain ⟨hstart, hend, hapart⟩ := hsettled
  rw [← hstarts, ← hends] at hstart hend hapart
  by_cases hsent : patch.startsAt.isSome ∨ patch.endsAt.isSome
  · have hstart' : patch.startsAt.or (startOf old) = patch.startsAt.or (startOf current) :=
      or_of_otherEndKept hstart hsent
    have hend' : patch.endsAt.or (endOf old) = patch.endsAt.or (endOf current) :=
      or_of_otherEndKept hend hsent.symm
    have hmerged : some (patch.merge now old).startsAt =
        (patch.startsAt.or (startOf old)).map DateTime.toMicros := by
      cases hs : patch.startsAt <;>
        simp [EventPatch.merge, hs, startOf, DateTime.toMicros_ofMicros]
    have hmerged' : (patch.merge now old).endsAt =
        (patch.endsAt.or (endOf old)).map DateTime.toMicros := by
      cases he : patch.endsAt <;> cases ho : old.endsAt <;>
        simp [EventPatch.merge, he, ho, endOf, DateTime.toMicros_ofMicros]
    intro ends hends'
    rw [hmerged', hend'] at hends'
    obtain ⟨e, he, rfl⟩ := Option.map_eq_some_iff.mp hends'
    have hs : patch.startsAt.or (startOf current) =
        some (patch.startsAt.getD (.ofMicros current.startsAt)) := by
      cases patch.startsAt <;> rfl
    have hlt := hrange e he
    have hd := hapart hsent
    simp only [Option.bind_some] at hd
    rw [hs, he] at hd
    rw [hstart', hs] at hmerged
    rw [Option.some.inj hmerged]
    exact DateTime.toMicros_lt_toMicros hlt hd
  · obtain ⟨hs, he⟩ := not_or.mp hsent
    simpa [EventPatch.merge, Option.not_isSome_iff_eq_none.mp hs,
      Option.not_isSome_iff_eq_none.mp he] using hold

theorem startDate_le_dueDate_merge {parsers : Parsers} {body : PatchGoalRequest}
    {patch : GoalPatch} {now : Timestamp} {current old : GoalRow}
    (hstart : patch.startDate = sentDate parsers body.startDate)
    (hdue : patch.dueDate = sentDate parsers body.dueDate)
    (hold : ∀ due, old.dueDate = some due → old.startDate ≤ due)
    (hrange : ∀ due, patch.dueDate.or current.dueDate = some due →
      patch.startDate.getD current.startDate ≤ due)
    (hsettled : GoalSettled parsers body (some current) (some old)) :
    ∀ due, (patch.merge now old).dueDate = some due → (patch.merge now old).startDate ≤ due := by
  obtain ⟨hstart₁, hdue₁⟩ := hsettled
  rw [← hstart, ← hdue] at hstart₁ hdue₁
  by_cases hsent : patch.startDate.isSome ∨ patch.dueDate.isSome
  · have hstart' : patch.startDate.or (some old.startDate) =
        patch.startDate.or (some current.startDate) := or_of_otherEndKept hstart₁ hsent
    have hdue' : patch.dueDate.or old.dueDate = patch.dueDate.or current.dueDate :=
      or_of_otherEndKept hdue₁ hsent.symm
    have hmerged : (patch.merge now old).startDate = patch.startDate.getD current.startDate := by
      cases hs : patch.startDate with
      | some d => simp [GoalPatch.merge, hs]
      | none =>
          rw [hs] at hstart'
          simpa [GoalPatch.merge, hs] using hstart'
    intro due hdue₂
    rw [hmerged]
    exact hrange due (hdue' ▸ hdue₂)
  · obtain ⟨hs, hd⟩ := not_or.mp hsent
    simpa [GoalPatch.merge, Option.not_isSome_iff_eq_none.mp hs,
      Option.not_isSome_iff_eq_none.mp hd] using hold

section Handlers

variable {γ : Type} {A : Premise Row} {seen : Reads Row} {post : γ → Reads Row → Prop}

theorem readOnly_ensureEventLinkOpt (owner : Uuid → Db → Option Uuid) (field : String)
    (userId : Uuid) (id : Option Uuid) :
    ReadOnly (ensureEventLinkOpt owner field userId id) := by
  cases id with
  | none => trivial
  | some id =>
      refine ReadOnly.bind (readOnly_select _) fun _ => readOnly_whenever ?_
      refine ReadOnly.bind (readOnly_select _) fun _ => ?_
      exact ReadOnly.bind (readOnly_failIf _ _) fun _ => readOnly_failIf _ _

theorem readOnly_ensureEventCategory (userId : Uuid) (id : Option Uuid) :
    ReadOnly (ensureEventCategory userId id) := by
  cases id with
  | none => trivial
  | some id => exact ReadOnly.bind (readOnly_select _) fun _ => readOnly_failIf _ _

theorem readOnly_ensureEventLinks (userId : Uuid) (links : EventLinks) :
    ReadOnly (ensureEventLinks userId links) := by
  refine ReadOnly.bind (readOnly_ensureEventLinkOpt _ _ _ _) fun _ => ?_
  refine ReadOnly.bind (readOnly_ensureEventLinkOpt _ _ _ _) fun _ => ?_
  refine ReadOnly.bind (readOnly_ensureEventLinkOpt _ _ _ _) fun _ => ?_
  refine ReadOnly.bind (readOnly_ensureEventLinkOpt _ _ _ _) fun _ => ?_
  exact readOnly_ensureEventCategory _ _

theorem readOnly_ensureGoalCategory (id : Option Uuid) (userId : Uuid) :
    ReadOnly (ensureGoalCategory id userId) := by
  cases id with
  | none => trivial
  | some id => exact ReadOnly.bind (readOnly_select _) fun _ => readOnly_failIf _ _

theorem keeps_insertEvent {row : EventRow} {next : Stored EventRow → Handler γ}
    (hrow : ∀ id sn cur, A seen (Key.event id) sn cur → rangeLaw (Key.event id) row)
    (h : ∀ e, Keeps rangeLaw A (next e) post seen) :
    Keeps rangeLaw A ((insertEvent row).bind next) post seen := by
  simp only [insertEvent, Prog.bind_eq, Prog.pure_eq, Prog.bind_assoc]
  refine keeps_freshId fun id => keeps_insertRow (hrow id) ?_
  refine keeps_foreignKeyOpt (keeps_foreignKeyOpt (keeps_foreignKeyOpt ?_))
  exact keeps_foreignKeyOpt (keeps_foreignKeyOpt (h _))

theorem keeps_updateEvent {id userId : Uuid} {patch : EventPatch} {now : Timestamp}
    {next : EventRow → Handler γ}
    (hmerge : ∀ sn cur old, Db.event cur id = some old → rangeLaw (Key.event id) old →
      A seen (Key.event id) sn cur → rangeLaw (Key.event id) (patch.merge now old))
    (h : ∀ e, Keeps rangeLaw A (next e) post seen) :
    Keeps rangeLaw A ((updateEvent id userId patch now).bind next) post seen := by
  simp only [updateEvent, Prog.bind_eq, Prog.pure_eq, Prog.bind_assoc]
  refine keeps_fetchFor fun (old : EventRow) _ _ => ?_
  refine keeps_fetchUpdate fun sn cur (r : EventRow) r' _ hr hlaw _ ha hr' => ?_
  obtain rfl := Except.ok.inj hr'
  refine ⟨hmerge sn cur r hr hlaw ha, ?_⟩
  refine keeps_whenever_of (fun h => keeps_foreignKeyOpt h) ?_
  refine keeps_whenever_of (fun h => keeps_foreignKeyOpt h) ?_
  refine keeps_whenever_of (fun h => keeps_foreignKeyOpt h) ?_
  refine keeps_whenever_of (fun h => keeps_foreignKeyOpt h) ?_
  exact keeps_whenever_of (fun h => keeps_foreignKeyOpt h) (h _)

theorem keeps_insertGoal {row : GoalRow} {next : Stored GoalRow → Handler γ}
    (hrow : ∀ id, rangeLaw (Key.goal id) row) (h : ∀ g, Keeps rangeLaw A (next g) post seen) :
    Keeps rangeLaw A ((insertGoal row).bind next) post seen := by
  simp only [insertGoal, Prog.bind_eq, Prog.pure_eq, Prog.bind_assoc]
  refine keeps_freshId fun id => keeps_insertRow (fun _ _ _ => hrow id) ?_
  exact keeps_foreignKeyOpt (h _)

theorem keeps_updateGoal {id userId : Uuid} {patch : GoalPatch} {now : Timestamp}
    {next : GoalRow → Handler γ}
    (hmerge : ∀ sn cur old, Db.goal cur id = some old → rangeLaw (Key.goal id) old →
      A seen (Key.goal id) sn cur → rangeLaw (Key.goal id) (patch.merge now old))
    (h : ∀ g, Keeps rangeLaw A (next g) post seen) :
    Keeps rangeLaw A ((updateGoal id userId patch now).bind next) post seen := by
  simp only [updateGoal, Prog.bind_eq, Prog.pure_eq, Prog.bind_assoc]
  refine keeps_fetchFor fun (old : GoalRow) _ _ => ?_
  refine keeps_fetchUpdate fun sn cur (r : GoalRow) r' _ hr hlaw _ ha hr' => ?_
  obtain rfl := Except.ok.inj hr'
  refine ⟨hmerge sn cur r hr hlaw ha, ?_⟩
  exact keeps_whenever_of (fun h => keeps_foreignKeyOpt h) (h _)

end Handlers

theorem keeps_createEventHandler (caller : Caller) (body : CreateEventRequest) :
    Keeps rangeLaw (Settled caller (.createEvent body)) (createEventHandler caller body)
      (fun _ _ => True) [] := by
  simp only [createEventHandler, Prog.bind_eq, Prog.pure_eq]
  refine keeps_ofExcept fun title _ => keeps_ofExcept fun kind _ => ?_
  refine keeps_ofExcept fun startsAt hstarts => keeps_ofExcept fun endsAt hends => ?_
  refine keeps_ofExcept fun _ hrange => keeps_ofExcept fun _ _ => keeps_ofExcept fun _ _ => ?_
  refine keeps_readOnly (readOnly_ensureEventLinks _ _) fun _ _ => keeps_beginTx ?_
  refine keeps_insertEvent (fun id sn cur ha ends hends' => ?_) fun _ =>
    keeps_commitTx (keeps_ret trivial)
  have hvalid : validateOpt (validateEventDatetime caller.parsers · "starts_at")
      (some body.startsAt) = .ok (some startsAt) := by
    rw [validateOpt, hstarts]
    rfl
  have hsent := eq_sentInstant hvalid
  have hapart : ApartOpt (sentInstant caller.parsers (some body.startsAt))
      (sentInstant caller.parsers body.endsAt) := ha
  obtain ⟨e, he, rfl⟩ := Option.map_eq_some_iff.mp hends'
  rw [← hsent, ← eq_sentInstant hends, he] at hapart
  exact DateTime.toMicros_lt_toMicros (lt_of_validateEventRange hrange he) hapart

theorem keeps_patchEventHandler (caller : Caller) (id : Uuid) (body : PatchEventRequest) :
    Keeps rangeLaw (Settled caller (.patchEvent id body)) (patchEventHandler caller id body)
      (fun _ _ => True) [] := by
  simp only [patchEventHandler, Prog.bind_eq, Prog.pure_eq]
  refine keeps_ofExcept fun _ _ => keeps_select fun probed _ => ?_
  refine keeps_ofOption fun current hcurrent => ?_
  refine keeps_ofExcept fun title _ => keeps_ofExcept fun kind _ => ?_
  refine keeps_ofExcept fun startsAt hstarts => keeps_ofExcept fun endsAt hends => ?_
  refine keeps_ofExcept fun _ hrange => keeps_ofExcept fun _ _ => keeps_ofExcept fun _ _ => ?_
  refine keeps_readOnly (readOnly_ensureEventLinks _ _) fun _ more => keeps_beginTx ?_
  refine keeps_updateEvent (fun sn cur old hold hlaw ha => ?_) fun _ =>
    keeps_commitTx (keeps_ret trivial)
  have hprobed : Db.event probed id = some current := (Option.filter_eq_some_iff.mp hcurrent).1
  have hsettled : EventSettled caller.parsers body (Db.event probed id) (Db.event cur id) := ha
  rw [hprobed, hold] at hsettled
  exact startsAt_lt_endsAt_merge (eq_sentInstant hstarts) (eq_sentInstant hends) hlaw
    (fun _ => lt_of_validateEventRange hrange) hsettled

theorem keeps_createGoalHandler (caller : Caller) (today : NaiveDate) (body : CreateGoalRequest) :
    Keeps rangeLaw (Settled caller (.createGoal today body)) (createGoalHandler caller today body)
      (fun _ _ => True) [] := by
  simp only [createGoalHandler, Prog.bind_eq, Prog.pure_eq]
  refine keeps_ofExcept fun name _ => keeps_ofExcept fun area _ => ?_
  refine keeps_ofExcept fun status _ => keeps_ofExcept fun start? _ => ?_
  refine keeps_ofExcept fun due _ => keeps_ofExcept fun _ hrange => ?_
  refine keeps_readOnly (readOnly_ensureGoalCategory _ _) fun _ _ => ?_
  refine keeps_ofExcept fun _ _ => keeps_ofExcept fun _ _ => keeps_beginTx ?_
  refine keeps_insertGoal (fun id day hday => le_of_validateDateRange hrange hday) fun _ => ?_
  exact keeps_commitTx (keeps_ret trivial)

theorem keeps_patchGoalHandler (caller : Caller) (id : Uuid) (body : PatchGoalRequest) :
    Keeps rangeLaw (Settled caller (.patchGoal id body)) (patchGoalHandler caller id body)
      (fun _ _ => True) [] := by
  simp only [patchGoalHandler, Prog.bind_eq, Prog.pure_eq]
  refine keeps_ofExcept fun _ _ => keeps_select fun probed _ => ?_
  refine keeps_ofOption fun current hcurrent => ?_
  refine keeps_ofExcept fun name _ => keeps_ofExcept fun area _ => ?_
  refine keeps_ofExcept fun status _ => keeps_ofExcept fun start hstart => ?_
  refine keeps_ofExcept fun due hdue => keeps_ofExcept fun _ hrange => ?_
  refine keeps_readOnly (readOnly_ensureGoalCategory _ _) fun _ more => ?_
  refine keeps_ofExcept fun _ _ => keeps_ofExcept fun _ _ => keeps_beginTx ?_
  refine keeps_updateGoal (fun sn cur old hold hlaw ha => ?_) fun _ =>
    keeps_commitTx (keeps_ret trivial)
  have hprobed : Db.goal probed id = some current := (Option.filter_eq_some_iff.mp hcurrent).1
  have hsettled : GoalSettled caller.parsers body (Db.goal probed id) (Db.goal cur id) := ha
  rw [hprobed, hold] at hsettled
  exact startDate_le_dueDate_merge (eq_sentDate hstart) (eq_sentDate hdue) hlaw
    (fun _ => le_of_validateDateRange hrange) hsettled

theorem keeps_serveRange (caller : Caller) (r : RangeRequest) :
    Keeps rangeLaw (Settled caller r) (serveRange caller r) (fun _ _ => True) [] := by
  cases r with
  | createEvent body => exact keeps_map (keeps_createEventHandler caller body) RangeAnswer.event
  | patchEvent id body => exact keeps_map (keeps_patchEventHandler caller id body) RangeAnswer.event
  | createGoal today body =>
      exact keeps_map (keeps_createGoalHandler caller today body) RangeAnswer.goal
  | patchGoal id body => exact keeps_map (keeps_patchGoalHandler caller id body) RangeAnswer.goal

structure RangeDb where
  store : Db
  lawful : RowsOk rangeLaw store

variable {ι : Type} [DecidableEq ι]

def rangeStart (db : RangeDb) (requests : ι → Caller × RangeRequest) :
    Config ι Row SqlState AppError RangeAnswer :=
  start db.store fun i => serveRange (requests i).1 (requests i).2

def rangeRun (db : RangeDb) (requests : ι → Caller × RangeRequest) (cs : List (Choice ι)) :
    Config ι Row SqlState AppError RangeAnswer :=
  run .internal (rangeStart db requests) cs

/-- In every run all stored ranges are in order, if at each INSERT and UPDATE
the range that was validated is the range that is stored. -/
theorem rangesOrdered_rangeRun (db : RangeDb) (requests : ι → Caller × RangeRequest)
    (cs : List (Choice ι))
    (h : PremisesHold .internal (fun i => Settled (requests i).1 (requests i).2)
      (rangeStart db requests) (fun _ => []) cs) :
    RangesOrdered (rangeRun db requests cs).db := by
  have hlawful : Lawful rangeLaw (fun i => Settled (requests i).1 (requests i).2)
      (rangeStart db requests) fun _ => [] :=
    lawful_start db.lawful fun i => keeps_serveRange (requests i).1 (requests i).2
  exact rangesOrdered_of_rowsOk (hlawful.run .internal h)

def timeOfDay (minutes : Int) (nanos : Nat) (h : nanos < 1_000_000_000) : DateTime where
  secs := 1_788_480_000 + minutes * 60
  frac := nanos
  frac_lt := by omega
  leap hleap := by omega

def someTimes : Parsers where
  decimal _ := none
  naiveDate _ := none
  dateTime raw :=
    if raw = "2026-09-04T10:15:00Z" then some (timeOfDay 615 0 (by decide))
    else if raw = "2026-09-04T10:30:00Z" then some (timeOfDay 630 0 (by decide))
    else if raw = "2026-09-04T11:30:00Z" then some (timeOfDay 690 0 (by decide))
    else if raw = "2026-09-04T10:00:00.0000001Z" then some (timeOfDay 600 100 (by decide))
    else if raw = "2026-09-04T10:00:00.0000009Z" then some (timeOfDay 600 900 (by decide))
    else none

def meeting : EventRow :=
  { userId := 1, title := "Reunion", description := none, kind := .appointment
    startsAt := (timeOfDay 600 0 (by decide)).toMicros
    endsAt := some (timeOfDay 660 0 (by decide)).toMicros
    allDay := false, location := none, habitId := none, goalId := none, taskId := none
    subscriptionId := none, categoryId := none, createdAt := 0, updatedAt := 0 }

def meetingDb : RangeDb where
  store := put ∅ (Key.event 0) (some meeting)
  lawful := by
    refine rowsOk_empty.put fun r hr => ?_
    obtain rfl := Option.some.inj hr
    intro ends hends
    obtain rfl := Option.some.inj hends
    decide

def noLinks : EventLinks :=
  ⟨none, none, none, none, none⟩

def moveStart (startsAt : String) : RangeRequest :=
  .patchEvent 0
    { title := none, description := none, kind := none, startsAt := some startsAt
      endsAt := none, allDay := none, location := none, links := noLinks }

def moveEnd (endsAt : String) : RangeRequest :=
  .patchEvent 0
    { title := none, description := none, kind := none, startsAt := none
      endsAt := some endsAt, allDay := none, location := none, links := noLinks }

def movers (endsAt : String) (second : Bool) : Caller × RangeRequest :=
  (⟨someTimes, 1, 5⟩, if second then moveEnd endsAt else moveStart "2026-09-04T10:30:00Z")

def turns (second : Bool) (n : Nat) : List (Choice Bool) :=
  List.replicate n ⟨second, .advance 0⟩

def rescheduling (second : Bool) : Caller × RangeRequest :=
  (⟨someTimes, 1, 5⟩,
    if second then
      .patchEvent 0
        { title := none, description := none, kind := none
          startsAt := some "2026-09-04T10:15:00Z", endsAt := some "2026-09-04T10:30:00Z"
          allDay := none, location := none, links := noLinks }
    else moveStart "2026-09-04T10:30:00Z")

set_option maxRecDepth 8000 in
/-- Both requests read the meeting before either writes it. -/
theorem rangesOrdered_rangeRun_overlapping :
    let s := rangeRun meetingDb rescheduling
      (turns false 1 ++ turns true 1 ++ turns false 7 ++ turns true 7)
    (∃ e, Db.event s.db 0 = some e ∧ e.startsAt = meeting.startsAt + 15 * 60_000_000 ∧
      e.endsAt = some (meeting.startsAt + 30 * 60_000_000)) ∧
      s.commits.map Commit.proc = [true, false] ∧ RangesOrdered s.db :=
  ⟨⟨_, rfl, rfl, rfl⟩, rfl, rangesOrdered_rangeRun meetingDb rescheduling _ (by decide)⟩

def instantaneous : Caller × RangeRequest :=
  (⟨someTimes, 1, 5⟩, .createEvent
    { title := "Corte", description := none, kind := none
      startsAt := "2026-09-04T10:00:00.0000001Z", endsAt := some "2026-09-04T10:00:00.0000009Z"
      allDay := none, location := none, links := noLinks })

set_option maxRecDepth 8000 in
/-- Two requests that read the meeting before either wrote it leave it with its
end before its start; and an event shorter than a microsecond is stored without
length. -/
theorem not_rangesOrdered_crossed :
    ¬ RangesOrdered (rangeRun meetingDb (movers "2026-09-04T10:15:00Z")
      (turns false 1 ++ turns true 8 ++ turns false 7)).db ∧
    ¬ RangesOrdered (rangeRun ⟨∅, rowsOk_empty⟩ (fun _ : Bool => instantaneous)
      (turns false 5)).db := by
  constructor
  · exact fun h => absurd (h.events 0 _ _ rfl rfl) (by decide)
  · exact fun h => absurd (h.events 0 _ _ rfl rfl) (by decide)

end PersonalDashboard.StoredRanges
