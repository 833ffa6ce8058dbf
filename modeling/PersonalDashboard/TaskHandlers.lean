import PersonalDashboard.LedgerHandlers
import Mathlib.Algebra.Order.Round

/-! The handlers of tasks, and the triggers that keep the progress of a goal. -/

set_option autoImplicit false

namespace PersonalDashboard.TaskHandlers

open PersonalDashboard.Calendar
open PersonalDashboard.LedgerHandlers
open PersonalDashboard.ReadCommitted
open PersonalDashboard.RowStatements
open PersonalDashboard.RowStore
open PersonalDashboard.Schema
open PersonalDashboard.Validation

structure CreateTaskRequest where
  title : String
  description : Option String
  priority : Option String
  status : Option String
  dueDate : Option String
  goalId : Option Uuid
  categoryId : Option Uuid
  sortOrder : Option Int

structure PatchTaskRequest where
  title : Option String
  description : Option String
  priority : Option String
  status : Option String
  dueDate : Option String
  goalId : Option Uuid
  categoryId : Option Uuid
  sortOrder : Option Int

def maxTitleLen : Nat :=
  200

def maxTextLen : Nat :=
  2000

def validateTaskStatus (raw : String) : Except AppError TaskStatus :=
  match trim raw with
  | "pending" => .ok .pending
  | "in_progress" => .ok .inProgress
  | "completed" => .ok .completed
  | "cancelled" => .ok .cancelled
  | _ => .error (.validation "status must be one of: pending, in_progress, completed, cancelled")

def validateTaskStatusOpt (raw : Option String) : Except AppError TaskStatus :=
  match raw with
  | none => .ok .pending
  | some raw => validateTaskStatus raw

def validateTaskPriority (raw : String) : Except AppError TaskPriority :=
  match trim raw with
  | "low" => .ok .low
  | "medium" => .ok .medium
  | "high" => .ok .high
  | "urgent" => .ok .urgent
  | _ => .error (.validation "priority must be one of: low, medium, high, urgent")

def validateTaskPriorityOpt (raw : Option String) : Except AppError TaskPriority :=
  match raw with
  | none => .ok .medium
  | some raw => validateTaskPriority raw

def validateTaskPatch (body : PatchTaskRequest) : Except AppError Unit :=
  if body.title.isNone && body.description.isNone && body.priority.isNone &&
      body.status.isNone && body.dueDate.isNone && body.goalId.isNone &&
      body.categoryId.isNone && body.sortOrder.isNone then
    .error (.validation "no updatable fields provided")
  else .ok ()

/-- Resolve a link to a row by its owner: the caller's passes, another user's is
not found, and a missing one is invalid. -/
def ensureWritable (owner : Db → Option Uuid) (missing : String) (userId : Uuid) :
    Handler Unit := do
  let owned ← select fun s => decide (owner s = some userId)
  whenever (owned = false) do
    let there ← select fun s => (owner s).isSome
    failIf there .notFound
    failIf (!there) (.validation missing)

def goalOwner (goalId : Uuid) (s : Db) : Option Uuid :=
  (s.goal goalId).map GoalRow.userId

def ensureTaskGoal (goalId : Option Uuid) (userId : Uuid) : Handler Unit :=
  match goalId with
  | some goalId => ensureWritable (goalOwner goalId) "goal does not exist" userId
  | none => pure ()

def categoryLookupSql (categoryId userId : Uuid) (s : Db) : Option CategoryKind :=
  ((s.category categoryId).filter fun c => c.userId = userId).map CategoryRow.kind

def ensureCategory (kind : CategoryKind) (msg : String) (categoryId : Option Uuid)
    (userId : Uuid) : Handler Unit :=
  match categoryId with
  | some categoryId => do
      let found ← select (categoryLookupSql categoryId userId)
      failIf (found ≠ some kind) (.validation msg)
  | none => pure ()

def ensureTaskCategory : Option Uuid → Uuid → Handler Unit :=
  ensureCategory .task "category must be an owned task category"

def mapTaskDbErr : SqlState → AppError
  | .uniqueViolation => .conflict "task already exists"
  | .foreignKeyViolation | .checkViolation | .invalidText => .validation "invalid task data"
  | .numericOutOfRange => .internal

/-- `set_task_completed_at`; `old` is the stored status, if any. -/
def setTaskCompletedAt (now : Timestamp) (old : Option TaskStatus) (new : TaskRow) : TaskRow :=
  if new.status = .completed ∧ old ≠ some .completed then { new with completedAt := some now }
  else if new.status ≠ .completed then { new with completedAt := none }
  else new

theorem links_setTaskCompletedAt (now : Timestamp) (old : Option TaskStatus) (t : TaskRow) :
    (setTaskCompletedAt now old t).userId = t.userId ∧
      (setTaskCompletedAt now old t).goalId = t.goalId ∧
        (setTaskCompletedAt now old t).categoryId = t.categoryId := by
  unfold setTaskCompletedAt
  split
  · exact ⟨rfl, rfl, rfl⟩
  split
  · exact ⟨rfl, rfl, rfl⟩
  · exact ⟨rfl, rfl, rfl⟩

theorem sortOrder_setTaskCompletedAt (now : Timestamp) (old : Option TaskStatus) (t : TaskRow) :
    (setTaskCompletedAt now old t).sortOrder = t.sortOrder := by
  unfold setTaskCompletedAt
  split
  · rfl
  split
  · rfl
  · rfl

def isTask (p : TaskRow → Bool) : (k : Key) → Row k → Int
  | .task _, (t : TaskRow) => if p t then 1 else 0
  | _, _ => 0

/-- `SELECT COUNT(*) FROM tasks WHERE p`. -/
def countTasks (p : TaskRow → Bool) (s : Db) : Int :=
  total (isTask p) s

def ofGoal (g : Uuid) (t : TaskRow) : Bool :=
  t.goalId = some g

/-- `ROUND(100.0 * completed / total)`, and 0 without a task. -/
def percentage (completed total : Int) : Int :=
  if total = 0 then 0 else (200 * completed + total) / (2 * total)

/-- The share of the goal's tasks that are completed. -/
def goalProgress (g : Uuid) (s : Db) : Int :=
  percentage (countTasks (fun t => ofGoal g t && t.status = .completed) s)
    (countTasks (ofGoal g) s)

/-- The statement of the trigger: it counts in its snapshot, and writes the
latest version of the goal. -/
def recalcGoalSql (g : Uuid) (now : Timestamp) : Sql (Option GoalRow) :=
  updateRow .noKeyUpdate exclusive_noKeyUpdate (Key.goal g) (fun _ => true)
    fun sn (r : GoalRow) => .ok { r with progress := goalProgress g sn, updatedAt := now }

/-- The goals that a change of a task names, each once; the order in which
DISTINCT yields two of them is `newFirst`. -/
def distinctGoals (newFirst : Bool) (old new : Option Uuid) : List Uuid :=
  if old = new then new.toList
  else if newFirst then new.toList ++ old.toList
  else old.toList ++ new.toList

def recalcGoalProgress (toErr : SqlState → AppError) (now : Timestamp) :
    List Uuid → Handler Unit
  | [] => pure ()
  | g :: goals => do
      let _ ← execSql toErr (recalcGoalSql g now)
      recalcGoalProgress toErr now goals

def ownTask (userId : Uuid) (t : TaskRow) : Bool :=
  t.userId = userId

def getTaskSql (id userId : Uuid) (s : Db) : Option TaskRow :=
  (s.task id).filter (ownTask userId)

def sortOrders (userId : Uuid) (s : Db) : List Int :=
  s.entries.filterMap fun
    | ⟨.task _, (t : TaskRow)⟩ => if t.userId = userId then some t.sortOrder else none
    | _ => none

/-- `COALESCE(MAX(sort_order) + 1, 0)` in an INTEGER column. -/
def nextSortOrder (userId : Uuid) (s : Db) : Except SqlState Int :=
  match (sortOrders userId s).max? with
  | none => .ok 0
  | some n => if n + 1 < 2 ^ 31 then .ok (n + 1) else .error .numericOutOfRange

/-- The place of a new task: the given one, or the last. -/
def newSortOrder (userId : Uuid) (sortOrder : Option Int) : Handler Int :=
  match sortOrder with
  | some n => pure n
  | none => do
      let next ← select (nextSortOrder userId)
      ofExcept (next.mapError mapTaskDbErr)

def insertTask (now : Timestamp) (row : TaskRow) : Handler (Stored TaskRow) := do
  let id ← freshId Key.task
  let new := setTaskCompletedAt now none row
  let _ ← execSql mapTaskDbErr (insertRow (Key.task id) (fun _ => .ok ()) new)
  foreignKeyOpt mapTaskDbErr .foreignKeyViolation Key.goal new.goalId
  foreignKeyOpt mapTaskDbErr .foreignKeyViolation Key.category new.categoryId
  recalcGoalProgress mapTaskDbErr now new.goalId.toList
  pure ⟨id, new⟩

structure TaskPatch where
  title : Option String
  description : Option String
  priority : Option TaskPriority
  status : Option TaskStatus
  dueDate : Option NaiveDate
  goalId : Option Uuid
  categoryId : Option Uuid
  sortOrder : Option Int

/-- `PATCH_TASK_SQL`: omitted fields keep their stored value. -/
def TaskPatch.merge (patch : TaskPatch) (now : Timestamp) (old : TaskRow) : TaskRow :=
  setTaskCompletedAt now (some old.status)
    { old with
      title := patch.title.getD old.title
      description := patch.description.or old.description
      priority := patch.priority.getD old.priority
      status := patch.status.getD old.status
      dueDate := patch.dueDate.or old.dueDate
      goalId := patch.goalId.or old.goalId
      categoryId := patch.categoryId.or old.categoryId
      sortOrder := patch.sortOrder.getD old.sortOrder
      updatedAt := now }

def updateTaskSql (id userId : Uuid) (new : TaskRow) : Sql (Option TaskRow) :=
  updateRow .noKeyUpdate exclusive_noKeyUpdate (Key.task id) (ownTask userId) fun _ _ => .ok new

/-- Update a task under its lock, check the foreign keys that changed, and
recount the goals when its status or its goal changed. -/
def updateTask (newFirst : Bool) (id userId : Uuid) (patch : TaskPatch) (now : Timestamp) :
    Handler TaskRow := do
  let old ← fetchOr mapTaskDbErr .notFound
    (selectFor .noKeyUpdate (Key.task id) (ownTask userId) fun t : TaskRow => t)
  let new := patch.merge now old
  let _ ← execSql mapTaskDbErr (updateTaskSql id userId new)
  whenever (old.goalId ≠ new.goalId)
    (foreignKeyOpt mapTaskDbErr .foreignKeyViolation Key.goal new.goalId)
  whenever (old.categoryId ≠ new.categoryId)
    (foreignKeyOpt mapTaskDbErr .foreignKeyViolation Key.category new.categoryId)
  whenever (old.status ≠ new.status ∨ old.goalId ≠ new.goalId)
    (recalcGoalProgress mapTaskDbErr now (distinctGoals newFirst old.goalId new.goalId))
  pure new

def taskRef : (k : Key) → Row k → Option Uuid
  | .event _, (e : EventRow) => e.taskId
  | _, _ => none

def clearTask (now : Timestamp) : (k : Key) → Row k → Row k
  | .event _, (e : EventRow) => { e with taskId := none, updatedAt := now }
  | _, r => r

def createTaskHandler (caller : Caller) (body : CreateTaskRequest) :
    Handler (Stored TaskRow) := do
  let title ← ofExcept (validateRequiredText body.title maxTitleLen "title")
  let priority ← ofExcept (validateTaskPriorityOpt body.priority)
  let status ← ofExcept (validateTaskStatusOpt body.status)
  let due ← ofExcept (validateOpt (validateCalendarDate caller.parsers · "due_date") body.dueDate)
  ensureTaskGoal body.goalId caller.userId
  ensureTaskCategory body.categoryId caller.userId
  ofExcept (validateOptionalText body.description maxTextLen "description")
  beginTx
  let sortOrder ← newSortOrder caller.userId body.sortOrder
  let stored ← insertTask caller.now
    { userId := caller.userId, title := title, description := body.description
      priority := priority, status := status, dueDate := due, completedAt := none
      goalId := body.goalId, categoryId := body.categoryId, reminderId := none
      sortOrder := sortOrder, createdAt := caller.now, updatedAt := caller.now }
  commitTx
  pure stored

def patchTaskHandler (caller : Caller) (newFirst : Bool) (id : Uuid) (body : PatchTaskRequest) :
    Handler (Stored TaskRow) := do
  ofExcept (validateTaskPatch body)
  let stored ← select (getTaskSql id caller.userId)
  let _ ← ofOption .notFound stored
  let title ← ofExcept (validateOpt (validateRequiredText · maxTitleLen "title") body.title)
  let priority ← ofExcept (validateOpt validateTaskPriority body.priority)
  let status ← ofExcept (validateOpt validateTaskStatus body.status)
  let due ← ofExcept (validateOpt (validateCalendarDate caller.parsers · "due_date") body.dueDate)
  ensureTaskGoal body.goalId caller.userId
  ensureTaskCategory body.categoryId caller.userId
  ofExcept (validateOptionalText body.description maxTextLen "description")
  beginTx
  let row ← updateTask newFirst id caller.userId
    { title := title, description := body.description, priority := priority, status := status
      dueDate := due, goalId := body.goalId, categoryId := body.categoryId
      sortOrder := body.sortOrder } caller.now
  commitTx
  pure ⟨id, row⟩

/-- Delete a task. Its events forget it, and its goal is recounted. -/
def deleteTaskHandler (caller : Caller) (id : Uuid) : Handler Unit := do
  beginTx
  let old ← fetchOr internal .notFound (deleteRow (Key.task id) (ownTask caller.userId))
  updateWhere internal (fun k r => taskRef k r = some id) (clearTask caller.now)
  recalcGoalProgress internal caller.now old.goalId.toList
  commitTx

inductive TaskRequest where
  | create (body : CreateTaskRequest)
  | patch (newFirst : Bool) (id : Uuid) (body : PatchTaskRequest)
  | delete (id : Uuid)

def serveTask (caller : Caller) : TaskRequest → Handler (Option (Stored TaskRow))
  | .create body => some <$> createTaskHandler caller body
  | .patch newFirst id body => some <$> patchTaskHandler caller newFirst id body
  | .delete id => (fun _ => none) <$> deleteTaskHandler caller id

end PersonalDashboard.TaskHandlers
