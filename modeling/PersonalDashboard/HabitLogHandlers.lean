import PersonalDashboard.EventHandlers

/-! The handlers that write the daily logs of a habit. -/

set_option autoImplicit false

namespace PersonalDashboard.HabitLogHandlers

open PersonalDashboard.Calendar
open PersonalDashboard.EventHandlers
open PersonalDashboard.LedgerHandlers
open PersonalDashboard.ReadCommitted
open PersonalDashboard.RowStatements
open PersonalDashboard.RowStore
open PersonalDashboard.Schema
open PersonalDashboard.TaskHandlers
open PersonalDashboard.Validation

structure CreateLogRequest where
  logDate : String
  status : String
  countValue : Option String
  notes : Option String

structure PatchLogRequest where
  status : Option String
  countValue : Option String
  notes : Option String

/-- Counts from here on do not fit `NUMERIC(8,2)`. -/
def maxPeriodValue : Nat :=
  1_000_000

def validateLogDateAt (parsers : Parsers) (today : NaiveDate) (raw : String) :
    Except AppError NaiveDate := do
  let date ← validateCalendarDate parsers raw "log_date"
  if today < date then
    .error (.validation "no se pueden registrar hábitos para fechas futuras")
  else .ok date

/-- The statuses that can be written; `not_done` can only be read. -/
def validateLogStatus (raw : String) : Except AppError HabitLogStatus :=
  match trim raw with
  | "done" => .ok .done
  | "missed" => .ok .missed
  | "skipped" => .ok .skipped
  | _ => .error (.validation "status must be one of: done, missed, skipped")

def validateCount (parsers : Parsers) : Option String → Except AppError (Option Decimal)
  | none => .ok none
  | some raw => do
      let value ← parseMoneyAmountNonneg parsers raw
      if value.geNat maxPeriodValue then
        .error (.validation "count_value exceeds the maximum storable value")
      else .ok (some value)

def validateLogPatch (body : PatchLogRequest) : Except AppError Unit :=
  if body.status.isNone && body.countValue.isNone && body.notes.isNone then
    .error (.validation "no updatable fields provided")
  else .ok ()

def ensureHabitWritable (habitId userId : Uuid) : Handler Unit :=
  ensureWritable (habitOwner habitId) "habit does not exist" userId

def mapHabitDbErr : SqlState → AppError
  | .uniqueViolation => .conflict "habit already exists"
  | .foreignKeyViolation | .checkViolation | .invalidText => .validation "invalid habit data"
  | .numericOutOfRange => .internal

def mapLogDbErr : SqlState → AppError
  | .uniqueViolation => .conflict "log already exists for this date"
  | e => mapHabitDbErr e

/-- `habit_id=$1 AND user_id=$2 AND log_date=$3`. -/
def ownLog (habitId userId : Uuid) (logDate : NaiveDate) (l : HabitLogRow) : Bool :=
  l.habitId = habitId && l.userId = userId && l.logDate = logDate

def logIdsWhere (p : HabitLogRow → Bool) (s : Db) : List Uuid :=
  s.entries.filterMap fun
    | ⟨.habitLog id, (l : HabitLogRow)⟩ => if p l then some id else none
    | _ => none

/-- The caller's log of a habit on a day; the unique index leaves at most one. -/
def logIdSql (habitId userId : Uuid) (logDate : NaiveDate) (s : Db) : Option Uuid :=
  (logIdsWhere (ownLog habitId userId logDate) s).min?

def loggedOn (habitId : Uuid) (logDate : NaiveDate) (s : Db) : Bool :=
  !(logIdsWhere (fun l => l.habitId = habitId && l.logDate = logDate) s).isEmpty

/-- `CREATE_LOG_SQL`: the unique index, the row, then its foreign key. -/
def insertLog (row : HabitLogRow) : Handler (Stored HabitLogRow) := do
  let taken ← execSql mapLogDbErr
    (lockSlot (Key.habitLogSlot row.habitId row.logDate) (loggedOn row.habitId row.logDate))
  failIf (taken = some true) (mapLogDbErr .uniqueViolation)
  let id ← freshId Key.habitLog
  let _ ← execSql mapLogDbErr (insertRow (Key.habitLog id) (fun _ => .ok ()) row)
  foreignKey mapLogDbErr .foreignKeyViolation (Key.habit row.habitId)
  pure ⟨id, row⟩

structure LogPatch where
  status : Option HabitLogStatus
  countValue : Option Decimal
  notes : Option String

/-- `PATCH_LOG_SQL`: omitted fields keep their stored value. -/
def LogPatch.merge (patch : LogPatch) (now : Timestamp) (old : HabitLogRow) : HabitLogRow :=
  { old with
    status := patch.status.getD old.status
    countValue := (patch.countValue.map Decimal.cents).or old.countValue
    notes := patch.notes.or old.notes
    updatedAt := now }

/-- `DELETE_LOG_SQL`; there need not be a log. -/
def deleteLog (habitId userId : Uuid) (logDate : NaiveDate) : Handler Unit := do
  let found ← select (logIdSql habitId userId logDate)
  match found with
  | some id => do
      let _ ← execSql internal (deleteRow (Key.habitLog id) (ownLog habitId userId logDate))
      pure ()
  | none => pure ()

def createLogHandler (caller : Caller) (today : NaiveDate) (habitId : Uuid)
    (body : CreateLogRequest) : Handler (Stored HabitLogRow) := do
  let logDate ← ofExcept (validateLogDateAt caller.parsers today body.logDate)
  let status ← ofExcept (validateLogStatus body.status)
  let count ← ofExcept (validateCount caller.parsers body.countValue)
  ofExcept (validateOptionalText body.notes maxTextLen "notes")
  ensureHabitWritable habitId caller.userId
  beginTx
  let stored ← insertLog
    { userId := caller.userId, habitId := habitId, logDate := logDate, status := status
      countValue := count.map Decimal.cents, notes := body.notes
      createdAt := caller.now, updatedAt := caller.now }
  commitTx
  pure stored

def patchLogHandler (caller : Caller) (today : NaiveDate) (habitId : Uuid) (rawDate : String)
    (body : PatchLogRequest) : Handler (Stored HabitLogRow) := do
  ofExcept (validateLogPatch body)
  let logDate ← ofExcept (validateLogDateAt caller.parsers today rawDate)
  let status ← ofExcept (validateOpt validateLogStatus body.status)
  let count ← ofExcept (validateCount caller.parsers body.countValue)
  ofExcept (validateOptionalText body.notes maxTextLen "notes")
  ensureHabitWritable habitId caller.userId
  beginTx
  let found ← select (logIdSql habitId caller.userId logDate)
  let id ← ofOption .notFound found
  let patch : LogPatch := { status := status, countValue := count, notes := body.notes }
  let row ← fetchOr mapHabitDbErr .notFound
    (updateRow .noKeyUpdate exclusive_noKeyUpdate (Key.habitLog id)
      (ownLog habitId caller.userId logDate)
      fun _ (l : HabitLogRow) => .ok (patch.merge caller.now l))
  commitTx
  pure ⟨id, row⟩

def deleteLogHandler (caller : Caller) (today : NaiveDate) (habitId : Uuid) (rawDate : String) :
    Handler Unit := do
  let logDate ← ofExcept (validateLogDateAt caller.parsers today rawDate)
  ensureHabitWritable habitId caller.userId
  beginTx
  deleteLog habitId caller.userId logDate
  commitTx

inductive LogRequest where
  | create (habitId : Uuid) (body : CreateLogRequest)
  | patch (habitId : Uuid) (rawDate : String) (body : PatchLogRequest)
  | delete (habitId : Uuid) (rawDate : String)

def serveLog (caller : Caller) (today : NaiveDate) :
    LogRequest → Handler (Option (Stored HabitLogRow))
  | .create habitId body => some <$> createLogHandler caller today habitId body
  | .patch habitId rawDate body => some <$> patchLogHandler caller today habitId rawDate body
  | .delete habitId rawDate => (fun _ => none) <$> deleteLogHandler caller today habitId rawDate

end PersonalDashboard.HabitLogHandlers
