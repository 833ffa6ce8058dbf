import PersonalDashboard.RowInvariants
import PersonalDashboard.TaskHandlers

/-! Laws of the stored tasks: what task requests keep, once the rows that they store
satisfy it. -/

set_option autoImplicit false

namespace PersonalDashboard.TaskLaws

open PersonalDashboard.LedgerHandlers
open PersonalDashboard.ReadCommitted
open PersonalDashboard.RowInvariants
open PersonalDashboard.RowStatements
open PersonalDashboard.RowStore
open PersonalDashboard.Schema
open PersonalDashboard.TaskHandlers
open PersonalDashboard.Validation

/-- A law of the tasks, as one of all rows. -/
def lawOf (P : TaskRow → Prop) : (k : Key) → Row k → Prop
  | .task _, (t : TaskRow) => P t
  | _, _ => True

/-- The place that a new task gets: the given one, or the next one of a lawful state. -/
def Placed (P : TaskRow → Prop) (userId : Uuid) (given : Option Int) (n : Int) : Prop :=
  given = some n ∨ given = none ∧ ∃ s, RowsOk (lawOf P) s ∧ nextSortOrder userId s = .ok n

/-- The row that a request inserts, before the trigger. -/
structure Inserts (P : TaskRow → Prop) (caller : Caller) (body : CreateTaskRequest)
    (row : TaskRow) : Prop where
  dueDate : validateOpt (validateCalendarDate caller.parsers · "due_date") body.dueDate =
    .ok row.dueDate
  sortOrder : Placed P caller.userId body.sortOrder row.sortOrder

structure Updates (caller : Caller) (body : PatchTaskRequest) (patch : TaskPatch) : Prop where
  dueDate : validateOpt (validateCalendarDate caller.parsers · "due_date") body.dueDate =
    .ok patch.dueDate
  sortOrder : patch.sortOrder = body.sortOrder

def Respects (P : TaskRow → Prop) (caller : Caller) : TaskRequest → Prop
  | .create body =>
      ∀ row, Inserts P caller body row → P (setTaskCompletedAt caller.now none row)
  | .patch _ _ body =>
      ∀ patch, Updates caller body patch → ∀ old, P old → P (patch.merge caller.now old)
  | .delete _ => True

section Handlers

variable {P : TaskRow → Prop} {γ : Type} {A : Premise Row} {seen : Reads Row}
  {post : γ → Reads Row → Prop}

theorem readOnly_ensureTaskGoal (goalId : Option Uuid) (userId : Uuid) :
    ReadOnly (ensureTaskGoal goalId userId) := by
  cases goalId with
  | none => trivial
  | some goalId =>
      refine (readOnly_select _).bind fun owned => readOnly_whenever ?_
      exact (readOnly_select _).bind fun there =>
        (readOnly_failIf _ _).bind fun _ => readOnly_failIf _ _

theorem readOnly_ensureTaskCategory (categoryId : Option Uuid) (userId : Uuid) :
    ReadOnly (ensureTaskCategory categoryId userId) := by
  cases categoryId with
  | none => trivial
  | some categoryId => exact (readOnly_select _).bind fun found => readOnly_failIf _ _

theorem keeps_newSortOrder {userId : Uuid} {given : Option Int} {next : Int → Handler γ}
    (h : ∀ n more, Placed P userId given n → Keeps (lawOf P) A (next n) post (seen ++ more)) :
    Keeps (lawOf P) A ((newSortOrder userId given).bind next) post seen := by
  cases given with
  | some n =>
      have hnext := h n [] (Or.inl rfl)
      rw [List.append_nil] at hnext
      exact hnext
  | none =>
      refine keeps_select fun s hs => keeps_ofExcept fun n hn => h n _ (Or.inr ⟨rfl, s, hs, ?_⟩)
      cases hnext : nextSortOrder userId s with
      | ok m =>
          rw [hnext] at hn
          exact congrArg Except.ok (Except.ok.inj hn)
      | error e =>
          rw [hnext] at hn
          cases hn

theorem keeps_recalcGoalProgress {toErr : SqlState → AppError} {now : Timestamp}
    {goals : List Uuid} {next : Unit → Handler γ} (h : Keeps (lawOf P) A (next ()) post seen) :
    Keeps (lawOf P) A ((recalcGoalProgress toErr now goals).bind next) post seen := by
  induction goals with
  | nil => exact h
  | cons g goals ih =>
      simp only [recalcGoalProgress, Prog.bind_eq, Prog.bind_assoc]
      exact keeps_update (fun _ _ _ _ _ _ _ _ _ _ => trivial) fun _ => ih

theorem keeps_insertTask {now : Timestamp} {row : TaskRow}
    (hrow : P (setTaskCompletedAt now none row)) {next : Stored TaskRow → Handler γ}
    (h : ∀ stored, Keeps (lawOf P) A (next stored) post seen) :
    Keeps (lawOf P) A ((insertTask now row).bind next) post seen := by
  simp only [insertTask, Prog.bind_eq, Prog.pure_eq, Prog.bind_assoc]
  refine keeps_freshId fun id => keeps_insertRow (fun _ _ _ => hrow) ?_
  refine keeps_foreignKeyOpt (keeps_foreignKeyOpt (keeps_recalcGoalProgress ?_))
  exact h _

theorem keeps_updateTask {newFirst : Bool} {id userId : Uuid} {patch : TaskPatch}
    {now : Timestamp} (hpatch : ∀ old, P old → P (patch.merge now old))
    {next : TaskRow → Handler γ} (h : ∀ t, Keeps (lawOf P) A (next t) post seen) :
    Keeps (lawOf P) A ((updateTask newFirst id userId patch now).bind next) post seen := by
  simp only [updateTask, Prog.bind_eq, Prog.pure_eq, Prog.bind_assoc]
  refine keeps_fetchFor fun (old : TaskRow) hold _ => ?_
  have hnew : P (patch.merge now old) := hpatch old hold
  refine keeps_update (fun _ _ _ _ _ _ _ _ _ hr' => Except.ok.inj hr' ▸ hnew) fun _ => ?_
  refine keeps_whenever_of (fun h => keeps_foreignKeyOpt h) ?_
  refine keeps_whenever_of (fun h => keeps_foreignKeyOpt h) ?_
  exact keeps_whenever_of (fun h => keeps_recalcGoalProgress h) (h _)

theorem keeps_createTaskHandler {caller : Caller} {body : CreateTaskRequest}
    (h : Respects P caller (.create body)) :
    Keeps (lawOf P) A (createTaskHandler caller body) (fun _ _ => True) seen := by
  simp only [createTaskHandler, Prog.bind_eq, Prog.pure_eq]
  refine keeps_ofExcept fun title _ => keeps_ofExcept fun priority _ => ?_
  refine keeps_ofExcept fun status _ => keeps_ofExcept fun due hdue => ?_
  refine keeps_readOnly (readOnly_ensureTaskGoal _ _) fun _ _ => ?_
  refine keeps_readOnly (readOnly_ensureTaskCategory _ _) fun _ _ => ?_
  refine keeps_ofExcept fun _ _ => keeps_beginTx ?_
  refine keeps_newSortOrder fun sortOrder _ hplaced => ?_
  refine keeps_insertTask (h _ ⟨hdue, hplaced⟩) fun stored => ?_
  exact keeps_commitTx (keeps_ret trivial)

theorem keeps_patchTaskHandler {caller : Caller} {newFirst : Bool} {id : Uuid}
    {body : PatchTaskRequest} (h : Respects P caller (.patch newFirst id body)) :
    Keeps (lawOf P) A (patchTaskHandler caller newFirst id body) (fun _ _ => True) seen := by
  simp only [patchTaskHandler, Prog.bind_eq, Prog.pure_eq]
  refine keeps_ofExcept fun _ _ => keeps_select fun _ _ => keeps_ofOption fun _ _ => ?_
  refine keeps_ofExcept fun title _ => keeps_ofExcept fun priority _ => ?_
  refine keeps_ofExcept fun status _ => keeps_ofExcept fun due hdue => ?_
  refine keeps_readOnly (readOnly_ensureTaskGoal _ _) fun _ _ => ?_
  refine keeps_readOnly (readOnly_ensureTaskCategory _ _) fun _ _ => ?_
  refine keeps_ofExcept fun _ _ => keeps_beginTx ?_
  refine keeps_updateTask (h _ ⟨hdue, rfl⟩) fun t => ?_
  exact keeps_commitTx (keeps_ret trivial)

theorem keeps_deleteTaskHandler (caller : Caller) (id : Uuid) :
    Keeps (lawOf P) A (deleteTaskHandler caller id) (fun _ _ => True) seen := by
  simp only [deleteTaskHandler, Prog.bind_eq]
  refine keeps_beginTx (keeps_fetchDelete fun (old : TaskRow) _ _ => ?_)
  refine keeps_updateWhere (fun k r hr _ => ?_) fun _ =>
    keeps_recalcGoalProgress (keeps_commit trivial)
  cases k with
  | event _ => trivial
  | _ => exact hr

theorem keeps_serveTask {caller : Caller} {r : TaskRequest} (h : Respects P caller r) :
    Keeps (lawOf P) A (serveTask caller r) (fun _ _ => True) seen := by
  cases r with
  | create body => exact keeps_map (keeps_createTaskHandler h) some
  | patch newFirst id body => exact keeps_map (keeps_patchTaskHandler h) some
  | delete id => exact keeps_map (keeps_deleteTaskHandler caller id) fun _ => none

end Handlers

theorem rowsOk_run {P : TaskRow → Prop} {ι : Type} [DecidableEq ι] {db : Db}
    (hdb : RowsOk (lawOf P) db) {requests : ι → Caller × TaskRequest}
    (h : ∀ i, Respects P (requests i).1 (requests i).2) (cs : List (Choice ι)) :
    RowsOk (lawOf P)
      (run .internal (start db fun i => serveTask (requests i).1 (requests i).2) cs).db := by
  have hlawful : Lawful (lawOf P) (fun _ => always)
      (start db fun i => serveTask (requests i).1 (requests i).2) fun _ => [] :=
    lawful_start hdb fun i => keeps_serveTask (h i)
  exact hlawful.run .internal (premisesHold_always _ _ _ cs)

end PersonalDashboard.TaskLaws
