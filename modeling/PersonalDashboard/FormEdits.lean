import PersonalDashboard.DateParsing
import PersonalDashboard.NoteHandlers
import PersonalDashboard.SoleWriter
import PersonalDashboard.TaskHandlers
import PersonalDashboard.TaskViews
import PersonalDashboard.TextReaders

/-! Edits of notes and tasks, from the forms through the client to the stored rows. -/

set_option autoImplicit false

namespace PersonalDashboard.FormEdits

open PersonalDashboard.Calendar
open PersonalDashboard.DateParsing
open PersonalDashboard.DateStrings
open PersonalDashboard.LedgerHandlers
open PersonalDashboard.NoteHandlers (NoteDb NoteHandler NoteKey NoteRow NoteTable
  PatchNoteRequest patchNoteHandler)
open PersonalDashboard.ReadCommitted
open PersonalDashboard.RowStore
open PersonalDashboard.Schema
open PersonalDashboard.SoleWriter
open PersonalDashboard.TaskHandlers (PatchTaskRequest patchTaskHandler)
open PersonalDashboard.TaskViews
open PersonalDashboard.TextReaders
open PersonalDashboard.Validation

/-- A value of a property of an object; an id is a string that the server wrote. -/
inductive JsValue where
  | undefined
  | null
  | boolean (b : Bool)
  | number (n : Int)
  | string (s : String)
  | id (u : Uuid)
  deriving DecidableEq, Repr

abbrev JsObject := List (String × JsValue)

def stripEmptyStrings (input : JsObject) : JsObject :=
  input.filter fun e =>
    match e.2 with
    | .undefined | .null => false
    | .string s => jsTrim s ≠ ""
    | .boolean _ | .number _ | .id _ => true

structure NoteForm where
  title : String
  body : String
  pinned : Bool
  deriving DecidableEq, Repr

def NoteForm.payload (form : NoteForm) : Option JsObject :=
  if jsTrim form.title = "" then none
  else some ([("title", .string (jsTrim form.title))] ++
    (if jsTrim form.body ≠ "" then [("body", .string (jsTrim form.body))] else []) ++
    [("is_pinned", .boolean form.pinned)])

/-- The fields of a task; the goal is the chosen option, if it is not the empty one. -/
structure TaskForm where
  title : String
  priority : String
  dueDate : String
  goalId : Option Uuid
  deriving DecidableEq, Repr

def TaskForm.payload (form : TaskForm) : Option JsObject :=
  if jsTrim form.title = "" then none
  else some ([("title", .string (jsTrim form.title)), ("priority", .string form.priority)] ++
    (if form.dueDate ≠ "" then [("due_date", .string form.dueDate)] else []) ++
    (form.goalId.toList.map fun g => ("goal_id", .id g)))

def onlyFields (names : List String) (body : JsObject) : Bool :=
  body.all fun e => names.contains e.1

/-- A field of type `Option<T>`: absent and `null` are `None`. -/
def optField {α : Type} (read : JsValue → Option α) (body : JsObject) (name : String) :
    Option (Option α) :=
  match body.lookup name with
  | none | some .undefined | some .null => some none
  | some v => (read v).map some

def readString : JsValue → Option String
  | .string s => some s
  | _ => none

def readBool : JsValue → Option Bool
  | .boolean b => some b
  | _ => none

def readInt : JsValue → Option Int
  | .number n => if -2 ^ 31 ≤ n ∧ n < 2 ^ 31 then some n else none
  | _ => none

def readUuid : JsValue → Option Uuid
  | .id u => some u
  | _ => none

def readNotePatch (body : JsObject) : Option PatchNoteRequest := do
  guard (onlyFields ["title", "body", "is_markdown", "is_pinned", "category_id"] body)
  let title ← optField readString body "title"
  let text ← optField readString body "body"
  let isMarkdown ← optField readBool body "is_markdown"
  let isPinned ← optField readBool body "is_pinned"
  let categoryId ← optField readUuid body "category_id"
  return { title := title, body := text, isMarkdown := isMarkdown, isPinned := isPinned,
           categoryId := categoryId }

def readTaskPatch (body : JsObject) : Option PatchTaskRequest := do
  guard (onlyFields ["title", "description", "priority", "status", "due_date", "goal_id",
    "category_id", "sort_order"] body)
  let title ← optField readString body "title"
  let description ← optField readString body "description"
  let priority ← optField readString body "priority"
  let status ← optField readString body "status"
  let dueDate ← optField readString body "due_date"
  let goalId ← optField readUuid body "goal_id"
  let categoryId ← optField readUuid body "category_id"
  let sortOrder ← optField readInt body "sort_order"
  return { title := title, description := description, priority := priority, status := status,
           dueDate := dueDate, goalId := goalId, categoryId := categoryId,
           sortOrder := sortOrder }

/-- The body that `updateNote` sends for a submitted form. -/
def submitNote (form : NoteForm) : Option PatchNoteRequest :=
  form.payload.bind fun payload => readNotePatch (stripEmptyStrings payload)

def submitTask (form : TaskForm) : Option PatchTaskRequest :=
  form.payload.bind fun payload => readTaskPatch (stripEmptyStrings payload)

def isBlank (c : Char) : Bool :=
  isJsWhiteSpace c || isWhiteSpace c

def core (s : String) : List Char :=
  strip isBlank s.toList

def priorityText : TaskPriority → String
  | .low => "low"
  | .medium => "medium"
  | .high => "high"
  | .urgent => "urgent"

structure NoteForm.Shows (form : NoteForm) (row : NoteRow) : Prop where
  title : core row.title = core form.title
  body : core row.body = core form.body
  pinned : row.isPinned = form.pinned

structure TaskForm.Shows (form : TaskForm) (row : TaskRow) : Prop where
  title : core row.title = core form.title
  priority : priorityText row.priority = form.priority
  dueDate : (row.dueDate.map formatYmd).getD "" = form.dueDate
  goalId : row.goalId = form.goalId

/-- What a date input and a choice of priorities can hold. -/
structure TaskForm.Offered (form : TaskForm) : Prop where
  priority : form.priority ∈ ["low", "medium", "high", "urgent"]
  dueDate : ∀ c ∈ form.dueDate.toList, c.isDigit ∨ c = '-'
  year : ∀ c ∈ form.dueDate.toList.head?, c.isDigit

def NoteForm.EmptiesNothing (form : NoteForm) (old : NoteRow) : Prop :=
  jsTrim form.body = "" → core old.body = []

def TaskForm.EmptiesNothing (form : TaskForm) (old : TaskRow) : Prop :=
  (form.dueDate = "" → old.dueDate = none) ∧ (form.goalId = none → old.goalId = none)

def sent (s : String) : Option String :=
  if s = "" then none else some s

theorem toList_jsTrim (s : String) : (jsTrim s).toList = strip isJsWhiteSpace s.toList := by
  rw [jsTrim, String.toList_ofList, strip]

theorem jsTrim_jsTrim (s : String) : jsTrim (jsTrim s) = jsTrim s := by
  apply String.toList_injective
  rw [toList_jsTrim, toList_jsTrim, strip_strip fun _ h => h]

theorem submitNote_eq (form : NoteForm) :
    submitNote form =
      if jsTrim form.title = "" then none
      else some { title := some (jsTrim form.title), body := sent (jsTrim form.body)
                  isMarkdown := none, isPinned := some form.pinned, categoryId := none } := by
  rw [submitNote, NoteForm.payload]
  split
  · rfl
  · rename_i htitle
    by_cases hbody : jsTrim form.body = "" <;>
      simp [stripEmptyStrings, jsTrim_jsTrim, htitle, hbody, readNotePatch, onlyFields, optField,
        List.lookup_cons, List.lookup_nil, readString, readBool, sent]

theorem isBlank_of_dateChar {c : Char} (h : c.isDigit ∨ c = '-') : isBlank c = false := by
  rcases h with h | rfl
  · have hbounds := toNat_lt_of_isDigit h
    have hzero : '0'.toNat = 48 := rfl
    rw [isBlank, isWhiteSpace_of_isDigit h, Bool.or_false, isJsWhiteSpace]
    simp only [Bool.or_eq_false_iff, Bool.and_eq_false_iff, decide_eq_false_iff_not]
    omega
  · decide

theorem jsTrim_eq_self {s : String} (h : ∀ c ∈ s.toList, isBlank c = false) : jsTrim s = s := by
  apply String.toList_injective
  rw [toList_jsTrim]
  exact strip_eq_self fun c hc => (Bool.or_eq_false_iff.mp (h c hc)).1

theorem submitTask_eq {form : TaskForm} (h : form.Offered) :
    submitTask form =
      if jsTrim form.title = "" then none
      else some { title := some (jsTrim form.title), description := none
                  priority := some form.priority, status := none, dueDate := sent form.dueDate
                  goalId := form.goalId, categoryId := none, sortOrder := none } := by
  have hdue : jsTrim form.dueDate = form.dueDate :=
    jsTrim_eq_self fun c hc => isBlank_of_dateChar (h.dueDate c hc)
  have hpriority : jsTrim form.priority ≠ "" := by
    have hmem := h.priority
    simp only [List.mem_cons, List.not_mem_nil, or_false] at hmem
    rcases hmem with h | h | h | h <;> rw [h] <;> decide
  rw [submitTask, TaskForm.payload]
  split
  · rfl
  · rename_i htitle
    by_cases hdate : form.dueDate = "" <;> cases form.goalId <;>
      simp [stripEmptyStrings, jsTrim_jsTrim, htitle, hdue, hpriority, hdate,
        readTaskPatch, onlyFields, optField, List.lookup_cons, List.lookup_nil, readString,
        readUuid, readInt, sent]

section Stored

open NoteHandlers (NotePatch ensureNoteCategory ownNote validateNoteBody validateNotePatch)

theorem sole_ensureNoteCategory {k : NoteKey} {α : Type} {post : Post NoteTable k α}
    {tx : Option (Option (NoteTable k))} {row : Option (NoteTable k)} {categoryId : Option Uuid}
    {userId : Uuid} {next : Unit → NoteHandler α} (h : soleWp k (next ()) post tx row) :
    soleWp k ((ensureNoteCategory categoryId userId).bind next) post tx row := by
  cases categoryId with
  | none => exact h
  | some categoryId =>
      simp only [ensureNoteCategory, Prog.bind_eq, Prog.bind_assoc]
      exact sole_select fun _ => sole_failIf h

theorem sole_patchNoteHandler {caller : Caller} {id : Uuid} {body : PatchNoteRequest}
    {old : NoteRow} {P : Option NoteRow → Prop}
    (h : ∀ title, validateOpt (validateRequiredText · NoteHandlers.maxTitleLen "title")
        body.title = .ok title →
      P (some (NotePatch.merge { title := title, body := body.body
                                 isMarkdown := body.isMarkdown, isPinned := body.isPinned
                                 categoryId := body.categoryId } caller.now old))) :
    soleWp (NoteKey.note id) (patchNoteHandler caller id body) (fun _ _ row => P row) none
      (some old) := by
  unfold patchNoteHandler NoteHandlers.updateNote
  simp only [Prog.bind_eq, Prog.pure_eq]
  refine sole_ofExcept fun _ _ => sole_select fun _ => sole_ofOption fun _ _ => ?_
  refine sole_ofExcept fun title htitle => sole_ofExcept fun _ _ => ?_
  refine sole_ensureNoteCategory (sole_beginTx ?_)
  simp only [Prog.bind_assoc]
  refine sole_fetchFor fun (r : NoteRow) hr hown => ?_
  obtain rfl := Option.some.inj hr
  refine sole_updateRow hown ?_
  have hcategory : ∀ c, NoteKey.category c ≠ NoteKey.note id := fun _ => NoteKey.noConfusion
  exact sole_whenever (fun h' => sole_foreignKeyOpt hcategory h') (sole_commitTx (h title htitle))

open TaskHandlers (TaskPatch ensureTaskCategory ensureTaskGoal recalcGoalProgress
  recalcGoalSql validateTaskPriority validateTaskStatus)

section Tasks

variable {α : Type} {k : Key} {post : Post Row k α} {tx : Option (Option (Row k))}
  {seen row : Option (Row k)} {userId : Uuid}

theorem sole_ensureTaskGoal {goalId : Option Uuid} {next : Unit → Handler α}
    (h : soleWp k (next ()) post tx row) :
    soleWp k ((ensureTaskGoal goalId userId).bind next) post tx row := by
  cases goalId with
  | none => exact h
  | some goalId =>
      simp only [ensureTaskGoal, TaskHandlers.ensureWritable, Prog.bind_eq, Prog.bind_assoc]
      refine sole_select fun _ => sole_whenever (fun h => ?_) h
      simp only [Prog.bind_assoc]
      exact sole_select fun _ => sole_failIf (sole_failIf h)

theorem sole_ensureTaskCategory {categoryId : Option Uuid} {next : Unit → Handler α}
    (h : soleWp k (next ()) post tx row) :
    soleWp k ((ensureTaskCategory categoryId userId).bind next) post tx row := by
  cases categoryId with
  | none => exact h
  | some categoryId =>
      simp only [ensureTaskCategory, TaskHandlers.ensureCategory, Prog.bind_eq, Prog.bind_assoc]
      exact sole_select fun _ => sole_failIf h

theorem sole_recalcGoalProgress {toErr : SqlState → AppError} {now : Timestamp}
    (hne : ∀ g, Key.goal g ≠ k) (goals : List Uuid) {next : Unit → Handler α}
    (h : soleWp k (next ()) post (some seen) row) :
    soleWp k ((recalcGoalProgress toErr now goals).bind next) post (some seen) row := by
  induction goals with
  | nil => exact h
  | cons g goals ih =>
      simp only [recalcGoalProgress, Prog.bind_eq, Prog.bind_assoc]
      exact sole_execSql_of_ne (hne g) fun _ => ih

end Tasks

theorem sole_patchTaskHandler {caller : Caller} {newFirst : Bool} {id : Uuid}
    {body : PatchTaskRequest} {old : TaskRow} {P : Option TaskRow → Prop}
    (h : ∀ title priority status due,
      validateOpt (validateRequiredText · TaskHandlers.maxTitleLen "title") body.title =
        .ok title →
      validateOpt validateTaskPriority body.priority = .ok priority →
      validateOpt validateTaskStatus body.status = .ok status →
      validateOpt (validateCalendarDate caller.parsers · "due_date") body.dueDate = .ok due →
      P (some (TaskPatch.merge
        { title := title, description := body.description, priority := priority
          status := status, dueDate := due, goalId := body.goalId
          categoryId := body.categoryId, sortOrder := body.sortOrder } caller.now old))) :
    soleWp (Key.task id) (patchTaskHandler caller newFirst id body) (fun _ _ row => P row) none
      (some old) := by
  unfold patchTaskHandler TaskHandlers.updateTask
  simp only [Prog.bind_eq, Prog.pure_eq]
  refine sole_ofExcept fun _ _ => sole_select fun _ => sole_ofOption fun _ _ => ?_
  refine sole_ofExcept fun title htitle => sole_ofExcept fun priority hpriority => ?_
  refine sole_ofExcept fun status hstatus => sole_ofExcept fun due hdue => ?_
  refine sole_ensureTaskGoal (sole_ensureTaskCategory (sole_ofExcept fun _ _ => ?_))
  refine sole_beginTx ?_
  simp only [Prog.bind_assoc]
  refine sole_fetchFor fun (r : TaskRow) hr hown => ?_
  obtain rfl := Option.some.inj hr
  refine sole_updateRow hown ?_
  have hgoal : ∀ g, Key.goal g ≠ Key.task id := fun _ => Key.noConfusion
  have hcategory : ∀ c, Key.category c ≠ Key.task id := fun _ => Key.noConfusion
  refine sole_whenever (fun h' => sole_foreignKeyOpt hgoal h') ?_
  refine sole_whenever (fun h' => sole_foreignKeyOpt hcategory h') ?_
  refine sole_whenever (fun h' => sole_recalcGoalProgress hgoal _ h') ?_
  exact sole_commitTx (h title priority status due htitle hpriority hstatus hdue)

end Stored

theorem core_jsTrim (s : String) : core (jsTrim s) = core s := by
  rw [core, toList_jsTrim]
  exact strip_strip fun c hc => Bool.or_eq_true_iff.mpr (Or.inl hc)

theorem core_trim (s : String) : core (trim s) = core s := by
  have htrim : (trim s).toList = strip isWhiteSpace s.toList := by
    rw [trim, String.toList_ofList, strip]
  rw [core, htrim]
  exact strip_strip fun c hc => Bool.or_eq_true_iff.mpr (Or.inr hc)

theorem core_getD_sent {s old : String} :
    core ((sent (jsTrim s)).getD old) = core s ↔ (jsTrim s = "" → core old = []) := by
  rw [← core_jsTrim s, sent]
  by_cases h : jsTrim s = ""
  · have hempty : core "" = [] := by decide
    simp [h, hempty]
  · simp [h]

theorem title_of_validateOpt {raw : String} {max : Nat} {title : Option String}
    (h : validateOpt (validateRequiredText · max "title") (some raw) = .ok title) :
    title = some (trim raw) := by
  simp only [validateOpt, validateRequiredText] at h
  split at h
  · cases h
  · exact (Except.ok.inj h).symm

theorem noteMerge_fields (patch : NoteHandlers.NotePatch) (now : Timestamp) (old : NoteRow) :
    (patch.merge now old).title = patch.title.getD old.title ∧
      (patch.merge now old).body = patch.body.getD old.body ∧
      (patch.merge now old).isPinned = patch.isPinned.getD old.isPinned :=
  ⟨rfl, rfl, rfl⟩

theorem noteShows_iff {fault : AppError} {caller : Caller} {id : Uuid} {form : NoteForm}
    {body : PatchNoteRequest} {old : NoteRow} {new : Option NoteRow}
    (hbody : submitNote form = some body)
    (hrun : AnswersAlone fault (NoteKey.note id) (patchNoteHandler caller id body) (some old)
      new) :
    (∃ row, new = some row ∧ form.Shows row) ↔ form.EmptiesNothing old := by
  rw [submitNote_eq] at hbody
  split at hbody
  · cases hbody
  · obtain rfl := Option.some.inj hbody
    refine hrun.post (P := fun new : Option NoteRow =>
      (∃ row, new = some row ∧ form.Shows row) ↔ form.EmptiesNothing old) ?_
    refine sole_patchNoteHandler fun title htitle => ?_
    obtain rfl := title_of_validateOpt htitle
    obtain ⟨hmtitle, hmbody, hmpinned⟩ := noteMerge_fields
      { title := some (trim (jsTrim form.title)), body := sent (jsTrim form.body)
        isMarkdown := none, isPinned := some form.pinned, categoryId := none } caller.now old
    rw [NoteForm.EmptiesNothing, ← core_getD_sent]
    constructor
    · rintro ⟨row, hrow, hshows⟩
      obtain rfl := Option.some.inj hrow
      rw [← hshows.body, hmbody]
    · intro hcore
      refine ⟨_, rfl, ?_, ?_, ?_⟩
      · rw [hmtitle, Option.getD_some, core_trim, core_jsTrim]
      · rw [hmbody, hcore]
      · rw [hmpinned, Option.getD_some]

theorem priority_of_validateOpt {raw : String} {priority : Option TaskPriority}
    (hraw : raw ∈ ["low", "medium", "high", "urgent"])
    (h : validateOpt TaskHandlers.validateTaskPriority (some raw) = .ok priority) :
    ∃ p, priority = some p ∧ priorityText p = raw := by
  have hofText : ∀ p, TaskHandlers.validateTaskPriority (priorityText p) = .ok p := by
    intro p
    cases p <;> decide +kernel
  obtain ⟨p, rfl⟩ : ∃ p, priorityText p = raw := by
    simp only [List.mem_cons, List.not_mem_nil, or_false] at hraw
    rcases hraw with rfl | rfl | rfl | rfl
    exacts [⟨.low, rfl⟩, ⟨.medium, rfl⟩, ⟨.high, rfl⟩, ⟨.urgent, rfl⟩]
  rw [validateOpt, hofText] at h
  exact ⟨p, (Except.ok.inj h).symm, rfl⟩

theorem date_of_offered {form : TaskForm} (hform : form.Offered) {parsers : Parsers}
    (hparsers : ReadsYmd parsers) {field : String} {d : NaiveDate}
    (h : validateCalendarDate parsers form.dueDate field = .ok d) :
    formatYmd d = form.dueDate := by
  have htrim : trim form.dueDate = form.dueDate := trim_eq_self fun c hc =>
    (Bool.or_eq_false_iff.mp (isBlank_of_dateChar (hform.dueDate c hc))).2
  obtain ⟨y, m, day, hreads⟩ := (parseCalendarDate_eq_ok hparsers).mp h
  rw [htrim] at hreads
  refine hreads.format_iff.mpr ?_
  have hchars : ∀ c ∈ y ++ '-' :: (m ++ '-' :: day), c.isDigit ∨ c = '-' := by
    rw [← hreads.toList_eq]
    exact hform.dueDate
  have hhead : ∀ c ∈ (y ++ '-' :: (m ++ '-' :: day)).head?, c.isDigit := by
    rw [← hreads.toList_eq]
    exact hform.year
  have hfield : ∀ {l : List Char} {n : Int}, FieldText l n → (∀ c ∈ l, c.isDigit ∨ c = '-') →
      Numeral l := by
    intro l n hl hall
    cases hl with
    | plain h => exact h.2.1
    | @blank c _ _ hc _ _ =>
        have hnot := (Bool.or_eq_false_iff.mp (isBlank_of_dateChar (hall c List.mem_cons_self))).2
        rw [hc] at hnot
        cases hnot
  have hyear : ∀ {l : List Char} {n : Int}, YearText l n →
      (∀ c ∈ (l ++ '-' :: (m ++ '-' :: day)).head?, c.isDigit) → Numeral l := by
    intro l n hl hall
    cases hl with
    | plain h => exact h.2.1
    | minus _ => exact absurd (hall '-' rfl) (by decide)
    | plus _ => exact absurd (hall '+' rfl) (by decide)
  have hmonth := hfield hreads.month fun c hc => hchars c (by simp [hc])
  have hday := hfield hreads.day fun c hc => hchars c (by simp [hc])
  exact List.forall_mem_append.mpr
    ⟨hyear hreads.year hhead, List.forall_mem_append.mpr ⟨hmonth, hday⟩⟩

theorem dueDate_of_validateOpt {form : TaskForm} (hform : form.Offered) {parsers : Parsers}
    (hparsers : ReadsYmd parsers) {due : Option NaiveDate}
    (h : validateOpt (validateCalendarDate parsers · "due_date") (sent form.dueDate) = .ok due) :
    (due.map formatYmd).getD "" = form.dueDate := by
  rw [sent] at h
  split at h
  · rename_i hempty
    rw [← Except.ok.inj h, hempty]
    rfl
  · simp only [validateOpt] at h
    cases hvalid : validateCalendarDate parsers form.dueDate "due_date" with
    | error e =>
        rw [hvalid] at h
        cases h
    | ok d =>
        rw [hvalid] at h
        rw [← Except.ok.inj h]
        exact date_of_offered hform hparsers hvalid

theorem merge_fields (patch : TaskHandlers.TaskPatch) (now : Timestamp) (old : TaskRow) :
    (patch.merge now old).title = patch.title.getD old.title ∧
      (patch.merge now old).priority = patch.priority.getD old.priority ∧
      (patch.merge now old).dueDate = patch.dueDate.or old.dueDate ∧
      (patch.merge now old).goalId = patch.goalId.or old.goalId := by
  unfold TaskHandlers.TaskPatch.merge TaskHandlers.setTaskCompletedAt
  split
  · exact ⟨rfl, rfl, rfl, rfl⟩
  split
  · exact ⟨rfl, rfl, rfl, rfl⟩
  · exact ⟨rfl, rfl, rfl, rfl⟩

theorem dueDate_or_iff {due old : Option NaiveDate} {text : String}
    (h : (due.map formatYmd).getD "" = text) :
    ((due.or old).map formatYmd).getD "" = text ↔ (text = "" → old = none) := by
  cases due with
  | none =>
      have htext : "" = text := h
      cases old with
      | none => simp [← htext]
      | some d => simp [← htext, formatYmd_ne_empty]
  | some d =>
      have htext : formatYmd d = text := h
      simp [← htext, formatYmd_ne_empty]

theorem goalId_or_iff {goalId old : Option Uuid} :
    goalId.or old = goalId ↔ (goalId = none → old = none) := by
  cases goalId with
  | none => simp
  | some g => simp

theorem taskShows_iff {fault : AppError} {parsers : Parsers} {userId : Uuid} {now : Timestamp}
    {newFirst : Bool} {id : Uuid} {form : TaskForm} {body : PatchTaskRequest} {old : TaskRow}
    {new : Option TaskRow} (hparsers : ReadsYmd parsers) (hform : form.Offered)
    (hbody : submitTask form = some body)
    (hrun : AnswersAlone fault (Key.task id)
      (patchTaskHandler ⟨parsers, userId, now⟩ newFirst id body) (some old) new) :
    (∃ row, new = some row ∧ form.Shows row) ↔ form.EmptiesNothing old := by
  rw [submitTask_eq hform] at hbody
  split at hbody
  · cases hbody
  · obtain rfl := Option.some.inj hbody
    refine hrun.post (P := fun new : Option TaskRow =>
      (∃ row, new = some row ∧ form.Shows row) ↔ form.EmptiesNothing old) ?_
    refine sole_patchTaskHandler fun title priority status due htitle hpriority hstatus hdue => ?_
    obtain rfl := title_of_validateOpt htitle
    obtain ⟨p, rfl, hp⟩ := priority_of_validateOpt hform.priority hpriority
    have hdueText := dueDate_of_validateOpt hform hparsers hdue
    obtain ⟨hmtitle, hmpriority, hmdue, hmgoal⟩ := merge_fields
      { title := some (trim (jsTrim form.title)), description := none, priority := some p
        status := status, dueDate := due, goalId := form.goalId, categoryId := none
        sortOrder := none } now old
    rw [TaskForm.EmptiesNothing, ← dueDate_or_iff hdueText, ← goalId_or_iff]
    constructor
    · rintro ⟨row, hrow, hshows⟩
      obtain rfl := Option.some.inj hrow
      exact ⟨hmdue ▸ hshows.dueDate, hmgoal ▸ hshows.goalId⟩
    · rintro ⟨hdate, hgoal⟩
      refine ⟨_, rfl, ?_, ?_, ?_, ?_⟩
      · rw [hmtitle, Option.getD_some, core_trim, core_jsTrim]
      · rw [hmpriority, Option.getD_some, hp]
      · rw [hmdue, hdate]
      · rw [hmgoal, hgoal]

/-- What is reported as saved is what the form shows exactly when the form empties no field
that the stored row has. -/
theorem savedAsSubmitted_iff (fault : AppError) {parsers : Parsers} (hparsers : ReadsYmd parsers)
    (userId : Uuid) (now : Timestamp) (id : Uuid) :
    (∀ (form : NoteForm) (body : PatchNoteRequest) (old : NoteRow) (new : Option NoteRow),
      submitNote form = some body →
      AnswersAlone fault (NoteKey.note id)
        (patchNoteHandler ⟨parsers, userId, now⟩ id body) (some old) new →
      ((∃ row, new = some row ∧ form.Shows row) ↔ form.EmptiesNothing old)) ∧
    ∀ (form : TaskForm) (body : PatchTaskRequest) (newFirst : Bool) (old : TaskRow)
      (new : Option TaskRow),
      form.Offered → submitTask form = some body →
      AnswersAlone fault (Key.task id)
        (patchTaskHandler ⟨parsers, userId, now⟩ newFirst id body) (some old) new →
      ((∃ row, new = some row ∧ form.Shows row) ↔ form.EmptiesNothing old) :=
  ⟨fun _ _ _ _ hbody hrun => noteShows_iff hbody hrun,
    fun _ _ _ _ _ hform hbody hrun => taskShows_iff hparsers hform hbody hrun⟩

def storedNote : NoteRow where
  userId := 1
  title := "compras"
  body := "pan"
  isMarkdown := false
  isPinned := false
  categoryId := none
  createdAt := 0
  updatedAt := 0

def storedTask : TaskRow where
  userId := 1
  title := "leer"
  description := none
  priority := .medium
  status := .pending
  dueDate := none
  completedAt := none
  goalId := none
  categoryId := none
  reminderId := none
  sortOrder := 0
  createdAt := 0
  updatedAt := 0

def clearedNote : NoteForm where
  title := "compras"
  body := ""
  pinned := false

def editedNote : NoteForm where
  title := "compras"
  body := "leche"
  pinned := true

def editedTask : TaskForm where
  title := "leer"
  priority := "high"
  dueDate := ""
  goalId := none

def editor : Caller where
  parsers := onlyDates
  userId := 1
  now := 60

def alone (n : Nat) : List (Choice Unit) :=
  List.replicate n ⟨(), .advance 0⟩

theorem answersAlone_of_alone {κ : Type} [DecidableEq κ] {ρ : κ → Type} {σ ε α : Type} {fault : ε}
    {k : κ} {p : Prog ρ σ ε α} {old new : Option (ρ k)} (db : Store ρ) (n : Nat) {a : α}
    (hold : db.lookup k = old)
    (hret : ((run fault (start db fun _ : Unit => p) (alone n)).procs ()).prog = .ret a)
    (hnew : (run fault (start db fun _ : Unit => p) (alone n)).db.lookup k = new) :
    AnswersAlone fault k p old new :=
  ⟨Unit, inferInstance, db, fun _ => p, (), alone n, a, rfl, hold,
    fun _ _ hne => absurd rfl hne, hret, hnew⟩

def notePatch (form : NoteForm) (body : Option String) : PatchNoteRequest where
  title := some form.title
  body := body
  isMarkdown := none
  isPinned := some form.pinned
  categoryId := none

def taskPatch (form : TaskForm) : PatchTaskRequest where
  title := some form.title
  description := none
  priority := some form.priority
  status := none
  dueDate := none
  goalId := none
  categoryId := none
  sortOrder := none

def noteDb : NoteDb :=
  put ∅ (NoteKey.note 5) (some storedNote)

set_option maxRecDepth 8000 in
theorem answersAlone_clearedNote :
    AnswersAlone .internal (NoteKey.note 5)
      (patchNoteHandler editor 5 (notePatch clearedNote none)) (some storedNote)
      (some { storedNote with updatedAt := 60 }) :=
  answersAlone_of_alone noteDb 8 rfl rfl rfl

set_option maxRecDepth 8000 in
theorem answersAlone_editedNote :
    AnswersAlone .internal (NoteKey.note 5)
      (patchNoteHandler editor 5 (notePatch editedNote (some "leche"))) (some storedNote)
      (some { storedNote with body := "leche", isPinned := true, updatedAt := 60 }) :=
  answersAlone_of_alone noteDb 8 rfl rfl rfl

set_option maxRecDepth 8000 in
theorem answersAlone_editedTask :
    AnswersAlone .internal (Key.task 7)
      (patchTaskHandler editor true 7 (taskPatch editedTask)) (some storedTask)
      (some { storedTask with priority := .high, updatedAt := 60 }) :=
  answersAlone_of_alone (put (ρ := Row) ∅ (Key.task 7) (some storedTask)) 8 rfl rfl rfl

theorem offered_editedTask : editedTask.Offered :=
  ⟨by decide, fun _ hc => (nomatch hc), fun _ hc => (nomatch hc)⟩

theorem submitNote_clearedNote : submitNote clearedNote = some (notePatch clearedNote none) :=
  submitNote_eq clearedNote

theorem submitNote_editedNote :
    submitNote editedNote = some (notePatch editedNote (some "leche")) :=
  submitNote_eq editedNote

theorem submitTask_editedTask : submitTask editedTask = some (taskPatch editedTask) :=
  submitTask_eq offered_editedTask

/-- An edit of a note and one of a task are stored as they were shown. -/
theorem savedAsSubmitted_edits :
    editedNote.Shows { storedNote with body := "leche", isPinned := true, updatedAt := 60 } ∧
      editedTask.Shows { storedTask with priority := .high, updatedAt := 60 } := by
  have hnote := (savedAsSubmitted_iff .internal readsYmd_onlyDates 1 60 5).1
  have htask := (savedAsSubmitted_iff .internal readsYmd_onlyDates 1 60 7).2
  obtain ⟨row, hrow, hshows⟩ := (hnote editedNote _ storedNote _ submitNote_editedNote
    answersAlone_editedNote).mpr fun h => absurd h (by decide)
  obtain ⟨row', hrow', hshows'⟩ := (htask editedTask _ true storedTask _ offered_editedTask
    submitTask_editedTask answersAlone_editedTask).mpr ⟨fun _ => rfl, fun _ => rfl⟩
  exact ⟨Option.some.inj hrow ▸ hshows, Option.some.inj hrow' ▸ hshows'⟩

/-- A note keeps its text although it is reported as saved without one. -/
theorem not_savedAsSubmitted :
    submitNote clearedNote = some (notePatch clearedNote none) ∧
    AnswersAlone .internal (NoteKey.note 5)
      (patchNoteHandler editor 5 (notePatch clearedNote none)) (some storedNote)
      (some { storedNote with updatedAt := 60 }) ∧
    ¬ clearedNote.Shows { storedNote with updatedAt := 60 } := by
  refine ⟨submitNote_clearedNote, answersAlone_clearedNote, fun hshows => ?_⟩
  exact absurd hshows.body (by decide)

end PersonalDashboard.FormEdits
