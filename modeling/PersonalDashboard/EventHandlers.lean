import PersonalDashboard.TaskHandlers

/-! The handlers that write events and goals. -/

set_option autoImplicit false

namespace PersonalDashboard.EventHandlers

open PersonalDashboard.Calendar
open PersonalDashboard.Instants
open PersonalDashboard.LedgerHandlers
open PersonalDashboard.ReadCommitted
open PersonalDashboard.RowStatements
open PersonalDashboard.RowStore
open PersonalDashboard.Schema
open PersonalDashboard.TaskHandlers
open PersonalDashboard.Validation

structure EventLinks where
  habitId : Option Uuid
  goalId : Option Uuid
  taskId : Option Uuid
  subscriptionId : Option Uuid
  categoryId : Option Uuid

structure CreateEventRequest where
  title : String
  description : Option String
  kind : Option String
  startsAt : String
  endsAt : Option String
  allDay : Option Bool
  location : Option String
  links : EventLinks

structure PatchEventRequest where
  title : Option String
  description : Option String
  kind : Option String
  startsAt : Option String
  endsAt : Option String
  allDay : Option Bool
  location : Option String
  links : EventLinks

def maxLocationLen : Nat :=
  500

def validateEventKind (raw : String) : Except AppError EventKind :=
  match trim raw with
  | "event" => .ok .event
  | "appointment" => .ok .appointment
  | "reminder" => .ok .reminder
  | "payment_due" => .ok .paymentDue
  | "goal_milestone" => .ok .goalMilestone
  | "habit_reminder" => .ok .habitReminder
  | _ => .error (.validation ("kind must be one of: event, appointment, reminder, payment_due, " ++
      "goal_milestone, habit_reminder"))

def validateEventKindOpt (raw : Option String) : Except AppError EventKind :=
  match raw with
  | none => .ok .event
  | some raw => validateEventKind raw

def validateEventDatetime (parsers : Parsers) (raw field : String) : Except AppError DateTime :=
  match parsers.dateTime (trim raw) with
  | some d => .ok d
  | none => .error (.validation s!"{field} must be an RFC 3339 datetime")

def validateEventRange (startsAt : DateTime) (endsAt : Option DateTime) : Except AppError Unit :=
  if endsAt.any fun ends => ends ≤ startsAt then
    .error (.validation "ends_at must be after starts_at")
  else .ok ()

def EventLinks.isEmpty (links : EventLinks) : Bool :=
  links.habitId.isNone && links.goalId.isNone && links.taskId.isNone &&
    links.subscriptionId.isNone && links.categoryId.isNone

def validateEventPatch (body : PatchEventRequest) : Except AppError Unit :=
  if body.title.isNone && body.description.isNone && body.kind.isNone && body.startsAt.isNone &&
      body.endsAt.isNone && body.allDay.isNone && body.location.isNone && body.links.isEmpty then
    .error (.validation "no updatable fields provided")
  else .ok ()

/-- Resolve a link of an event by the owner of its row: the caller's passes,
another user's is invalid, and a missing one is not found. -/
def ensureEventLink (owner : Db → Option Uuid) (field : String) (userId : Uuid) :
    Handler Unit := do
  let owned ← select fun s => decide (owner s = some userId)
  whenever (owned = false) do
    let there ← select fun s => (owner s).isSome
    failIf there (.validation s!"{field} belongs to another user")
    failIf (!there) .notFound

def ensureEventLinkOpt (owner : Uuid → Db → Option Uuid) (field : String) (userId : Uuid) :
    Option Uuid → Handler Unit
  | some id => ensureEventLink (owner id) field userId
  | none => pure ()

def habitOwner (habitId : Uuid) (s : Db) : Option Uuid :=
  (s.habit habitId).map HabitRow.userId

def taskOwner (taskId : Uuid) (s : Db) : Option Uuid :=
  (s.task taskId).map TaskRow.userId

def subscriptionOwner (subscriptionId : Uuid) (s : Db) : Option Uuid :=
  (s.subscription subscriptionId).map SubscriptionRow.userId

def ensureEventCategory (userId : Uuid) : Option Uuid → Handler Unit
  | some categoryId => do
      let owned ← select fun s : Db => (s.category categoryId).any fun c => c.userId = userId
      failIf (!owned) (.validation "category must be an owned category")
  | none => pure ()

def ensureEventLinks (userId : Uuid) (links : EventLinks) : Handler Unit := do
  ensureEventLinkOpt habitOwner "habit" userId links.habitId
  ensureEventLinkOpt goalOwner "goal" userId links.goalId
  ensureEventLinkOpt taskOwner "task" userId links.taskId
  ensureEventLinkOpt subscriptionOwner "subscription" userId links.subscriptionId
  ensureEventCategory userId links.categoryId

def mapEventDbErr : SqlState → AppError
  | .uniqueViolation => .conflict "event already exists"
  | .foreignKeyViolation | .checkViolation | .invalidText => .validation "invalid event data"
  | .numericOutOfRange => .internal

def ownEvent (userId : Uuid) (e : EventRow) : Bool :=
  e.userId = userId

def getEventSql (id userId : Uuid) (s : Db) : Option EventRow :=
  (s.event id).filter (ownEvent userId)

def insertEvent (row : EventRow) : Handler (Stored EventRow) := do
  let id ← freshId Key.event
  let _ ← execSql mapEventDbErr (insertRow (Key.event id) (fun _ => .ok ()) row)
  foreignKeyOpt mapEventDbErr .foreignKeyViolation Key.habit row.habitId
  foreignKeyOpt mapEventDbErr .foreignKeyViolation Key.goal row.goalId
  foreignKeyOpt mapEventDbErr .foreignKeyViolation Key.task row.taskId
  foreignKeyOpt mapEventDbErr .foreignKeyViolation Key.subscription row.subscriptionId
  foreignKeyOpt mapEventDbErr .foreignKeyViolation Key.category row.categoryId
  pure ⟨id, row⟩

structure EventPatch where
  title : Option String
  description : Option String
  kind : Option EventKind
  startsAt : Option DateTime
  endsAt : Option DateTime
  allDay : Option Bool
  location : Option String
  links : EventLinks

/-- `PATCH_EVENT_SQL`: omitted fields keep their stored value. -/
def EventPatch.merge (patch : EventPatch) (now : Timestamp) (old : EventRow) : EventRow :=
  { old with
    title := patch.title.getD old.title
    description := patch.description.or old.description
    kind := patch.kind.getD old.kind
    startsAt := (patch.startsAt.map DateTime.toMicros).getD old.startsAt
    endsAt := (patch.endsAt.map DateTime.toMicros).or old.endsAt
    allDay := patch.allDay.getD old.allDay
    location := patch.location.or old.location
    habitId := patch.links.habitId.or old.habitId
    goalId := patch.links.goalId.or old.goalId
    taskId := patch.links.taskId.or old.taskId
    subscriptionId := patch.links.subscriptionId.or old.subscriptionId
    categoryId := patch.links.categoryId.or old.categoryId
    updatedAt := now }

def updateEvent (id userId : Uuid) (patch : EventPatch) (now : Timestamp) :
    Handler EventRow := do
  let old ← fetchOr mapEventDbErr .notFound
    (selectFor .noKeyUpdate (Key.event id) (ownEvent userId) fun e : EventRow => e)
  let new ← fetchOr mapEventDbErr .notFound
    (updateRow .noKeyUpdate exclusive_noKeyUpdate (Key.event id) (ownEvent userId)
      fun _ (e : EventRow) => .ok (patch.merge now e))
  whenever (old.habitId ≠ new.habitId)
    (foreignKeyOpt mapEventDbErr .foreignKeyViolation Key.habit new.habitId)
  whenever (old.goalId ≠ new.goalId)
    (foreignKeyOpt mapEventDbErr .foreignKeyViolation Key.goal new.goalId)
  whenever (old.taskId ≠ new.taskId)
    (foreignKeyOpt mapEventDbErr .foreignKeyViolation Key.task new.taskId)
  whenever (old.subscriptionId ≠ new.subscriptionId)
    (foreignKeyOpt mapEventDbErr .foreignKeyViolation Key.subscription new.subscriptionId)
  whenever (old.categoryId ≠ new.categoryId)
    (foreignKeyOpt mapEventDbErr .foreignKeyViolation Key.category new.categoryId)
  pure new

def newEventRow (caller : Caller) (body : CreateEventRequest) (title : String) (kind : EventKind)
    (startsAt : DateTime) (endsAt : Option DateTime) : EventRow :=
  { userId := caller.userId, title := title, description := body.description, kind := kind
    startsAt := startsAt.toMicros, endsAt := endsAt.map DateTime.toMicros
    allDay := body.allDay.getD false, location := body.location
    habitId := body.links.habitId, goalId := body.links.goalId, taskId := body.links.taskId
    subscriptionId := body.links.subscriptionId, categoryId := body.links.categoryId
    createdAt := caller.now, updatedAt := caller.now }

def createEventHandler (caller : Caller) (body : CreateEventRequest) :
    Handler (Stored EventRow) := do
  let title ← ofExcept (validateRequiredText body.title maxTitleLen "title")
  let kind ← ofExcept (validateEventKindOpt body.kind)
  let startsAt ← ofExcept (validateEventDatetime caller.parsers body.startsAt "starts_at")
  let endsAt ← ofExcept (validateOpt (validateEventDatetime caller.parsers · "ends_at") body.endsAt)
  ofExcept (validateEventRange startsAt endsAt)
  ofExcept (validateOptionalText body.description maxTextLen "description")
  ofExcept (validateOptionalText body.location maxLocationLen "location")
  ensureEventLinks caller.userId body.links
  beginTx
  let stored ← insertEvent (newEventRow caller body title kind startsAt endsAt)
  commitTx
  pure stored

def patchEventHandler (caller : Caller) (id : Uuid) (body : PatchEventRequest) :
    Handler (Stored EventRow) := do
  ofExcept (validateEventPatch body)
  let existing ← select (getEventSql id caller.userId)
  let current ← ofOption .notFound existing
  let title ← ofExcept (validateOpt (validateRequiredText · maxTitleLen "title") body.title)
  let kind ← ofExcept (validateOpt validateEventKind body.kind)
  let startsAt ← ofExcept
    (validateOpt (validateEventDatetime caller.parsers · "starts_at") body.startsAt)
  let endsAt ← ofExcept (validateOpt (validateEventDatetime caller.parsers · "ends_at") body.endsAt)
  let effectiveStarts := startsAt.getD (.ofMicros current.startsAt)
  ofExcept (validateEventRange effectiveStarts (endsAt.or (current.endsAt.map .ofMicros)))
  ofExcept (validateOptionalText body.description maxTextLen "description")
  ofExcept (validateOptionalText body.location maxLocationLen "location")
  ensureEventLinks caller.userId body.links
  beginTx
  let row ← updateEvent id caller.userId
    { title := title, description := body.description, kind := kind, startsAt := startsAt
      endsAt := endsAt, allDay := body.allDay, location := body.location, links := body.links }
    caller.now
  commitTx
  pure ⟨id, row⟩

def deleteEventHandler (caller : Caller) (id : Uuid) : Handler Unit := do
  beginTx
  let _ ← fetchOr internal .notFound (deleteRow (Key.event id) (ownEvent caller.userId))
  commitTx

inductive EventRequest where
  | create (body : CreateEventRequest)
  | patch (id : Uuid) (body : PatchEventRequest)
  | delete (id : Uuid)

def serveEvent (caller : Caller) : EventRequest → Handler (Option (Stored EventRow))
  | .create body => some <$> createEventHandler caller body
  | .patch id body => some <$> patchEventHandler caller id body
  | .delete id => (fun _ => none) <$> deleteEventHandler caller id

structure CreateGoalRequest where
  name : String
  description : Option String
  area : String
  categoryId : Option Uuid
  startDate : Option String
  dueDate : Option String
  status : Option String
  color : Option String

structure PatchGoalRequest where
  name : Option String
  description : Option String
  area : Option String
  startDate : Option String
  dueDate : Option String
  status : Option String
  categoryId : Option Uuid
  color : Option String

def maxNameLen : Nat :=
  200

def maxAreaLen : Nat :=
  100

def maxColorLen : Nat :=
  32

def validateGoalStatus (raw : String) : Except AppError GoalStatus :=
  match trim raw with
  | "active" => .ok .active
  | "completed" => .ok .completed
  | "paused" => .ok .paused
  | "cancelled" => .ok .cancelled
  | _ => .error (.validation "status must be one of: active, completed, paused, cancelled")

def validateGoalStatusOpt (raw : Option String) : Except AppError GoalStatus :=
  match raw with
  | none => .ok .active
  | some raw => validateGoalStatus raw

def validateDateRange (start : NaiveDate) (due : Option NaiveDate) : Except AppError Unit :=
  if due.any fun due => due < start then
    .error (.validation "due_date must not be before start_date")
  else .ok ()

def validateGoalPatch (body : PatchGoalRequest) : Except AppError Unit :=
  if body.name.isNone && body.description.isNone && body.area.isNone && body.startDate.isNone &&
      body.dueDate.isNone && body.status.isNone && body.categoryId.isNone &&
      body.color.isNone then
    .error (.validation "no updatable fields provided")
  else .ok ()

def ensureGoalCategory : Option Uuid → Uuid → Handler Unit :=
  ensureCategory .goal "category must be an owned goal category"

def mapGoalDbErr : SqlState → AppError
  | .uniqueViolation => .conflict "goal already exists"
  | .foreignKeyViolation | .checkViolation | .invalidText => .validation "invalid goal data"
  | .numericOutOfRange => .internal

def ownGoal (userId : Uuid) (g : GoalRow) : Bool :=
  g.userId = userId

def getGoalSql (id userId : Uuid) (s : Db) : Option GoalRow :=
  (s.goal id).filter (ownGoal userId)

def insertGoal (row : GoalRow) : Handler (Stored GoalRow) := do
  let id ← freshId Key.goal
  let _ ← execSql mapGoalDbErr (insertRow (Key.goal id) (fun _ => .ok ()) row)
  foreignKeyOpt mapGoalDbErr .foreignKeyViolation Key.category row.categoryId
  pure ⟨id, row⟩

structure GoalPatch where
  name : Option String
  description : Option String
  area : Option String
  startDate : Option NaiveDate
  dueDate : Option NaiveDate
  status : Option GoalStatus
  categoryId : Option Uuid
  color : Option String

/-- `PATCH_GOAL_SQL`: omitted fields keep their stored value. -/
def GoalPatch.merge (patch : GoalPatch) (now : Timestamp) (old : GoalRow) : GoalRow :=
  { old with
    name := patch.name.getD old.name
    description := patch.description.or old.description
    area := patch.area.getD old.area
    startDate := patch.startDate.getD old.startDate
    dueDate := patch.dueDate.or old.dueDate
    status := patch.status.getD old.status
    categoryId := patch.categoryId.or old.categoryId
    color := patch.color.or old.color
    updatedAt := now }

def updateGoal (id userId : Uuid) (patch : GoalPatch) (now : Timestamp) : Handler GoalRow := do
  let old ← fetchOr mapGoalDbErr .notFound
    (selectFor .noKeyUpdate (Key.goal id) (ownGoal userId) fun g : GoalRow => g)
  let new ← fetchOr mapGoalDbErr .notFound
    (updateRow .noKeyUpdate exclusive_noKeyUpdate (Key.goal id) (ownGoal userId)
      fun _ (g : GoalRow) => .ok (patch.merge now g))
  whenever (old.categoryId ≠ new.categoryId)
    (foreignKeyOpt mapGoalDbErr .foreignKeyViolation Key.category new.categoryId)
  pure new

def newGoalRow (caller : Caller) (body : CreateGoalRequest) (name area : String)
    (status : GoalStatus) (start : NaiveDate) (due : Option NaiveDate) : GoalRow :=
  { userId := caller.userId, name := name, description := body.description, area := area
    categoryId := body.categoryId, startDate := start, dueDate := due, progress := 0
    status := status, color := body.color, createdAt := caller.now, updatedAt := caller.now }

def createGoalHandler (caller : Caller) (today : NaiveDate) (body : CreateGoalRequest) :
    Handler (Stored GoalRow) := do
  let name ← ofExcept (validateRequiredText body.name maxNameLen "name")
  let area ← ofExcept (validateRequiredText body.area maxAreaLen "area")
  let status ← ofExcept (validateGoalStatusOpt body.status)
  let start? ← ofExcept
    (validateOpt (validateCalendarDate caller.parsers · "start_date") body.startDate)
  let start := start?.getD today
  let due ← ofExcept (validateOpt (validateCalendarDate caller.parsers · "due_date") body.dueDate)
  ofExcept (validateDateRange start due)
  ensureGoalCategory body.categoryId caller.userId
  ofExcept (validateOptionalText body.description maxTextLen "description")
  ofExcept (validateOptionalText body.color maxColorLen "color")
  beginTx
  let stored ← insertGoal (newGoalRow caller body name area status start due)
  commitTx
  pure stored

def patchGoalHandler (caller : Caller) (id : Uuid) (body : PatchGoalRequest) :
    Handler (Stored GoalRow) := do
  ofExcept (validateGoalPatch body)
  let existing ← select (getGoalSql id caller.userId)
  let current ← ofOption .notFound existing
  let name ← ofExcept (validateOpt (validateRequiredText · maxNameLen "name") body.name)
  let area ← ofExcept (validateOpt (validateRequiredText · maxAreaLen "area") body.area)
  let status ← ofExcept (validateOpt validateGoalStatus body.status)
  let start ← ofExcept
    (validateOpt (validateCalendarDate caller.parsers · "start_date") body.startDate)
  let due ← ofExcept (validateOpt (validateCalendarDate caller.parsers · "due_date") body.dueDate)
  ofExcept (validateDateRange (start.getD current.startDate) (due.or current.dueDate))
  ensureGoalCategory body.categoryId caller.userId
  ofExcept (validateOptionalText body.description maxTextLen "description")
  ofExcept (validateOptionalText body.color maxColorLen "color")
  beginTx
  let row ← updateGoal id caller.userId
    { name := name, description := body.description, area := area, startDate := start
      dueDate := due, status := status, categoryId := body.categoryId, color := body.color }
    caller.now
  commitTx
  pure ⟨id, row⟩

end PersonalDashboard.EventHandlers
