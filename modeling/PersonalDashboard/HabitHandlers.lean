import PersonalDashboard.HabitLogHandlers
import Mathlib.Data.List.Destutter
import Mathlib.Data.List.Sort

/-! The handlers of habits and of the categories that habits refer to, over a database of their
tables. -/

set_option autoImplicit false

namespace PersonalDashboard.HabitHandlers

open PersonalDashboard.Calendar
open PersonalDashboard.HabitLogHandlers (mapHabitDbErr maxPeriodValue)
open PersonalDashboard.LedgerHandlers (Caller Stored internal)
open PersonalDashboard.ReadCommitted
open PersonalDashboard.RowStatements
open PersonalDashboard.RowStore
open PersonalDashboard.Schema
open PersonalDashboard.Validation

structure CreateHabitRequest where
  name : String
  description : Option String
  direction : String
  frequency : Option String
  daysOfWeek : Option (List Int)
  targetPerPeriod : Option String
  startDate : Option String
  endDate : Option String
  categoryId : Option Uuid
  color : Option String
  icon : Option String
  category : Option String
  shortLabel : Option String

structure PatchHabitRequest where
  name : Option String
  description : Option String
  targetPerPeriod : Option String
  endDate : Option String
  categoryId : Option Uuid
  color : Option String
  icon : Option String
  isArchived : Option Bool
  category : Option String
  shortLabel : Option String

structure CreateCategoryRequest where
  name : String
  kind : Option String

/-- The row under an id. The row of a deleted one stays, unseen: its id is not given out again. -/
structure Issued (α : Type) where
  row : α
  isDeleted : Bool
  deriving DecidableEq, Repr

def Issued.live {α : Type} (p : α → Bool) (r : Issued α) : Bool :=
  !r.isDeleted && p r.row

/-- The rows, and the entries of the two unique indexes, which store no row. -/
inductive HabitKey where
  | habit (id : Uuid)
  | habitName (userId : Uuid) (name : String)
  | category (id : Uuid)
  | categoryName (userId : Uuid) (kind : CategoryKind) (name : String)
  deriving DecidableEq

@[reducible]
def HabitTable : HabitKey → Type
  | .habit _ => Issued HabitRow
  | .category _ => Issued CategoryRow
  | .habitName .. | .categoryName .. => Empty

abbrev HabitDb := Store HabitTable

abbrev HabitHandler (α : Type) := Prog HabitTable SqlState AppError α

namespace HabitDb

def habit (s : HabitDb) (id : Uuid) : Option (Issued HabitRow) :=
  s.lookup (HabitKey.habit id)

def category (s : HabitDb) (id : Uuid) : Option (Issued CategoryRow) :=
  s.lookup (HabitKey.category id)

end HabitDb

def maxNameLen : Nat :=
  200

def maxTextLen : Nat :=
  2000

def maxCategoryLen : Nat :=
  64

def maxShortLabelLen : Nat :=
  32

/-- Trimmed, and absent when blank; a blank text neither clears nor changes a stored one. -/
def normalizeOptionalText (value : Option String) (max : Nat) (field : String) :
    Except AppError (Option String) :=
  match value with
  | none => .ok none
  | some text =>
      let trimmed := trim text
      if trimmed.isEmpty then .ok none
      else (validateOptionalText (some trimmed) max field).map fun _ => some trimmed

def validateDirection (raw : String) : Except AppError HabitDirection :=
  match trim raw with
  | "build" => .ok .build
  | "maintain" => .ok .maintain
  | "reduce" => .ok .reduce
  | "quit" => .ok .quit
  | _ => .error (.validation "direction must be one of: build, maintain, reduce, quit")

def validateFrequency : Option String → Except AppError HabitFrequency
  | none => .ok .daily
  | some raw =>
      match trim raw with
      | "daily" => .ok .daily
      | "weekly" => .ok .weekly
      | "monthly" => .ok .monthly
      | "custom" => .ok .custom
      | _ => .error (.validation "frequency must be one of: daily, weekly, monthly, custom")

def frequencyText : HabitFrequency → String
  | .daily => "daily"
  | .weekly => "weekly"
  | .monthly => "monthly"
  | .custom => "custom"

/-- The sorted weekdays without repetitions, of which a custom frequency has some, any other
none. -/
def validateDaysMask (frequency : HabitFrequency) (days : Option (List Int)) :
    Except AppError (List Nat) :=
  let days := days.getD []
  if frequency = .custom ∧ days.isEmpty then
    .error (.validation "days_of_week must be non-empty for custom frequency")
  else if frequency ≠ .custom ∧ !days.isEmpty then
    .error (.validation s!"days_of_week must be empty for {frequencyText frequency} frequency")
  else if days.any fun d => d < 0 || 6 < d then
    .error (.validation "days_of_week must contain only values 0-6 (0=Sun .. 6=Sat)")
  else .ok (((days.insertionSort (· ≤ ·)).destutter (· ≠ ·)).map Int.toNat)

def validateTarget (parsers : Parsers) : Option String → Except AppError (Option Decimal)
  | none => .ok none
  | some raw => do
      let value ← parseMoneyAmount parsers raw
      if value.geNat maxPeriodValue then
        .error (.validation "target_per_period exceeds the maximum storable value")
      else .ok (some value)

def validateDateRange (start : NaiveDate) (end' : Option NaiveDate) : Except AppError Unit :=
  match end' with
  | some end' =>
      if end' < start then .error (.validation "end_date must not be before start_date")
      else .ok ()
  | none => .ok ()

def validateHabitPatch (body : PatchHabitRequest) : Except AppError Unit :=
  if body.name.isNone && body.description.isNone && body.targetPerPeriod.isNone &&
      body.endDate.isNone && body.categoryId.isNone && body.color.isNone && body.icon.isNone &&
      body.category.isNone && body.shortLabel.isNone && body.isArchived.isNone then
    .error (.validation "no updatable fields provided")
  else .ok ()

/-- `CATEGORY_LOOKUP_SQL`. -/
def categoryKindSql (categoryId userId : Uuid) (s : HabitDb) : Option CategoryKind :=
  ((s.category categoryId).filter (Issued.live fun c => c.userId = userId)).map fun c => c.row.kind

def ensureHabitCategory (userId : Uuid) : Option Uuid → HabitHandler Unit
  | some categoryId => do
      let kind ← select (categoryKindSql categoryId userId)
      failIf (kind ≠ some .habit) (.validation "category must be an owned habit category")
  | none => pure ()

def maxCategoryNameLen : Nat :=
  80

def validateCategoryKind : Option String → Except AppError (Option CategoryKind)
  | none => .ok none
  | some raw =>
      match trim raw with
      | "finance" => .ok (some .finance)
      | "habit" => .ok (some .habit)
      | "goal" => .ok (some .goal)
      | "task" => .ok (some .task)
      | "subscription" => .ok (some .subscription)
      | _ =>
          .error (.validation
            "category kind must be one of: finance, habit, goal, task, subscription")

def validateCategoryName (raw : String) : Except AppError String :=
  let name := trim raw
  if name.isEmpty || maxCategoryNameLen < name.length || containsNul name then
    .error (.validation "el nombre de la categoría debe tener entre 1 y 80 caracteres")
  else .ok name

def mapCategoryDbErr : SqlState → AppError
  | .uniqueViolation => .conflict "ya existe una categoría con ese nombre"
  | .checkViolation => .validation "datos de categoría inválidos"
  | _ => .internal

def ownHabit (userId : Uuid) : Issued HabitRow → Bool :=
  Issued.live fun h => h.userId = userId

def getHabitSql (id userId : Uuid) (s : HabitDb) : Option HabitRow :=
  ((s.habit id).filter (ownHabit userId)).map Issued.row

def habitsWhere (p : HabitRow → Bool) (s : HabitDb) : List (Stored HabitRow) :=
  s.entries.filterMap fun
    | ⟨.habit id, (h : Issued HabitRow)⟩ => if h.live p then some ⟨id, h.row⟩ else none
    | _ => none

def listHabitsSql (userId : Uuid) (s : HabitDb) : List (Stored HabitRow) :=
  (habitsWhere (fun h => h.userId = userId) s).insertionSort fun h h' =>
    h.row.createdAt ≤ h'.row.createdAt

def habitNamed (userId : Uuid) (name : String) (s : HabitDb) : Bool :=
  !(habitsWhere (fun h => h.userId = userId && h.name = name) s).isEmpty

def categoryNamed (row : CategoryRow) (s : HabitDb) : Bool :=
  s.entries.any fun
    | ⟨.category _, (c : Issued CategoryRow)⟩ => c.live fun c => c = row
    | _ => false

/-- The entry of the unique index on the names of a user's habits. -/
def claimHabitName (userId : Uuid) (name : String) : HabitHandler Unit := do
  let taken ← execSql mapHabitDbErr (lockSlot (HabitKey.habitName userId name)
    (habitNamed userId name))
  failIf (taken = some true) (mapHabitDbErr .uniqueViolation)

def categoryForeignKey : Option Uuid → HabitHandler Unit
  | some categoryId => do
      let there ← execSql mapHabitDbErr
        (selectFor .keyShare (HabitKey.category categoryId) (Issued.live fun _ => true) fun _ => ())
      failIf there.isNone (mapHabitDbErr .foreignKeyViolation)
  | none => pure ()

/-- `CREATE_HABIT_SQL`. -/
def insertHabit (row : HabitRow) : HabitHandler (Stored HabitRow) := do
  claimHabitName row.userId row.name
  let id ← freshId HabitKey.habit
  let _ ← execSql mapHabitDbErr
    (insertRow (HabitKey.habit id) (fun _ => .ok ()) { row := row, isDeleted := false })
  categoryForeignKey row.categoryId
  pure ⟨id, row⟩

structure HabitPatch where
  name : Option String
  description : Option String
  targetPerPeriod : Option Cents
  endDate : Option NaiveDate
  categoryId : Option Uuid
  color : Option String
  icon : Option String
  isArchived : Option Bool
  category : Option String
  shortLabel : Option String

/-- `PATCH_HABIT_SQL`: omitted fields keep their stored value. -/
def HabitPatch.merge (patch : HabitPatch) (now : Timestamp) (old : HabitRow) : HabitRow :=
  { old with
    name := patch.name.getD old.name
    description := patch.description.or old.description
    targetPerPeriod := patch.targetPerPeriod.or old.targetPerPeriod
    endDate := patch.endDate.or old.endDate
    categoryId := patch.categoryId.or old.categoryId
    color := patch.color.or old.color
    icon := patch.icon.or old.icon
    isArchived := patch.isArchived.getD old.isArchived
    category := patch.category.or old.category
    shortLabel := patch.shortLabel.or old.shortLabel
    updatedAt := now }

def updateHabitSql (id userId : Uuid) (patch : HabitPatch) (now : Timestamp) :
    Statement HabitTable SqlState (Option (Issued HabitRow)) :=
  updateRow .noKeyUpdate exclusive_noKeyUpdate (HabitKey.habit id) (ownHabit userId)
    fun _ (h : Issued HabitRow) => .ok { h with row := patch.merge now h.row }

/-- The row, then the index on the names if it has a new one, then the foreign key if it has a
new category. -/
def updateHabit (id userId : Uuid) (patch : HabitPatch) (now : Timestamp) :
    HabitHandler HabitRow := do
  let old ← fetchOr mapHabitDbErr .notFound
    (selectFor .noKeyUpdate (HabitKey.habit id) (ownHabit userId) fun h : Issued HabitRow => h.row)
  let new := patch.merge now old
  whenever (old.name ≠ new.name) (claimHabitName userId new.name)
  let _ ← execSql mapHabitDbErr (updateHabitSql id userId patch now)
  whenever (old.categoryId ≠ new.categoryId) (categoryForeignKey new.categoryId)
  pure new

def categoryRef : (k : HabitKey) → HabitTable k → Option Uuid
  | .habit _, (h : Issued HabitRow) => if h.isDeleted then none else h.row.categoryId
  | _, _ => none

/-- `ON DELETE SET NULL` on the habits of a category. -/
def clearCategory (now : Timestamp) : (k : HabitKey) → HabitTable k → HabitTable k
  | .habit _, (h : Issued HabitRow) =>
      { h with row := { h.row with categoryId := none, updatedAt := now } }
  | _, r => r

inductive HabitAnswer where
  | created (habit : Stored HabitRow)
  | updated (habit : Stored HabitRow)
  | read (habit : Stored HabitRow)
  | list (habits : List (Stored HabitRow))
  | category (category : Stored CategoryRow)
  | noContent

def createHabitHandler (caller : Caller) (today : NaiveDate) (body : CreateHabitRequest) :
    HabitHandler (Stored HabitRow) := do
  let name ← ofExcept (validateRequiredText body.name maxNameLen "name")
  let direction ← ofExcept (validateDirection body.direction)
  let frequency ← ofExcept (validateFrequency body.frequency)
  let mask ← ofExcept (validateDaysMask frequency body.daysOfWeek)
  let target ← ofExcept (validateTarget caller.parsers body.targetPerPeriod)
  let start ← ofExcept
    (validateOpt (validateCalendarDate caller.parsers · "start_date") body.startDate)
  let start := start.getD today
  let end' ← ofExcept (validateOpt (validateCalendarDate caller.parsers · "end_date") body.endDate)
  ofExcept (validateDateRange start end')
  ensureHabitCategory caller.userId body.categoryId
  ofExcept (validateOptionalText body.description maxTextLen "description")
  ofExcept (validateOptionalText body.color 32 "color")
  ofExcept (validateOptionalText body.icon 64 "icon")
  let category ← ofExcept (normalizeOptionalText body.category maxCategoryLen "category")
  let shortLabel ← ofExcept
    (normalizeOptionalText body.shortLabel maxShortLabelLen "short_label")
  beginTx
  let stored ← insertHabit
    { userId := caller.userId, name := name, description := body.description
      direction := direction, frequency := frequency, daysOfWeek := mask
      targetPerPeriod := target.map Decimal.cents, startDate := start, endDate := end'
      categoryId := body.categoryId, color := body.color, icon := body.icon, isArchived := false
      createdAt := caller.now, updatedAt := caller.now, category := category
      shortLabel := shortLabel }
  commitTx
  pure stored

def getHabitHandler (caller : Caller) (id : Uuid) : HabitHandler (Stored HabitRow) := do
  let row ← select (getHabitSql id caller.userId)
  let row ← ofOption .notFound row
  pure ⟨id, row⟩

/-- The range is checked against a row that was read before the update. -/
def patchHabitHandler (caller : Caller) (id : Uuid) (body : PatchHabitRequest) :
    HabitHandler (Stored HabitRow) := do
  ofExcept (validateHabitPatch body)
  let current ← select (getHabitSql id caller.userId)
  let current ← ofOption .notFound current
  let name ← ofExcept (validateOpt (validateRequiredText · maxNameLen "name") body.name)
  let target ← ofExcept (validateTarget caller.parsers body.targetPerPeriod)
  let end' ← ofExcept (validateOpt (validateCalendarDate caller.parsers · "end_date") body.endDate)
  ofExcept (validateDateRange current.startDate (end'.or current.endDate))
  ensureHabitCategory caller.userId body.categoryId
  ofExcept (validateOptionalText body.description maxTextLen "description")
  ofExcept (validateOptionalText body.color 32 "color")
  ofExcept (validateOptionalText body.icon 64 "icon")
  let category ← ofExcept (normalizeOptionalText body.category maxCategoryLen "category")
  let shortLabel ← ofExcept
    (normalizeOptionalText body.shortLabel maxShortLabelLen "short_label")
  beginTx
  let row ← updateHabit id caller.userId
    { name := name, description := body.description, targetPerPeriod := target.map Decimal.cents
      endDate := end', categoryId := body.categoryId, color := body.color, icon := body.icon
      isArchived := body.isArchived, category := category, shortLabel := shortLabel } caller.now
  commitTx
  pure ⟨id, row⟩

def deleteHabitHandler (caller : Caller) (id : Uuid) : HabitHandler Unit := do
  beginTx
  let _ ← fetchOr internal .notFound
    (updateRow .update rfl (HabitKey.habit id) (ownHabit caller.userId)
      fun _ (h : Issued HabitRow) => .ok { h with isDeleted := true })
  commitTx

def createCategoryHandler (caller : Caller) (body : CreateCategoryRequest) :
    HabitHandler (Stored CategoryRow) := do
  let name ← ofExcept (validateCategoryName body.name)
  let kind ← ofExcept (validateCategoryKind body.kind)
  let row : CategoryRow :=
    { userId := caller.userId, kind := kind.getD .finance, name := name }
  beginTx
  let taken ← execSql mapCategoryDbErr
    (lockSlot (HabitKey.categoryName row.userId row.kind row.name) (categoryNamed row))
  failIf (taken = some true) (mapCategoryDbErr .uniqueViolation)
  let id ← freshId HabitKey.category
  let _ ← execSql mapCategoryDbErr
    (insertRow (HabitKey.category id) (fun _ => .ok ()) { row := row, isDeleted := false })
  commitTx
  pure ⟨id, row⟩

def deleteCategoryHandler (caller : Caller) (id : Uuid) : HabitHandler Unit := do
  beginTx
  let _ ← fetchOr internal .notFound
    (updateRow .update rfl (HabitKey.category id) (Issued.live fun c => c.userId = caller.userId)
      fun _ (c : Issued CategoryRow) => .ok { c with isDeleted := true })
  updateWhere internal (fun k r => categoryRef k r = some id) (clearCategory caller.now)
  commitTx

inductive HabitRequest where
  | create (body : CreateHabitRequest)
  | get (id : Uuid)
  | list
  | patch (id : Uuid) (body : PatchHabitRequest)
  | delete (id : Uuid)
  | createCategory (body : CreateCategoryRequest)
  | deleteCategory (id : Uuid)

structure HabitCall where
  caller : Caller
  today : NaiveDate
  request : HabitRequest

def serveHabit (call : HabitCall) : HabitHandler HabitAnswer :=
  match call.request with
  | .create body => HabitAnswer.created <$> createHabitHandler call.caller call.today body
  | .get id => HabitAnswer.read <$> getHabitHandler call.caller id
  | .list => HabitAnswer.list <$> select (listHabitsSql call.caller.userId)
  | .patch id body => HabitAnswer.updated <$> patchHabitHandler call.caller id body
  | .delete id => (fun _ => HabitAnswer.noContent) <$> deleteHabitHandler call.caller id
  | .createCategory body => HabitAnswer.category <$> createCategoryHandler call.caller body
  | .deleteCategory id =>
      (fun _ => HabitAnswer.noContent) <$> deleteCategoryHandler call.caller id

end PersonalDashboard.HabitHandlers
