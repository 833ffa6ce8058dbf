import PersonalDashboard.Calendar
import PersonalDashboard.ReadCommitted

/-! The tables, their rows, and the errors a request can end with. -/

set_option autoImplicit false

namespace PersonalDashboard.Schema

open PersonalDashboard.Calendar
open PersonalDashboard.RowStore
open PersonalDashboard.ReadCommitted

abbrev Uuid := Nat

/-- Microseconds since the epoch. -/
abbrev Timestamp := Int

/-- A `NUMERIC(18,2)` amount in hundredths. -/
abbrev Cents := Int

inductive CategoryKind where
  | finance
  | habit
  | goal
  | task
  | subscription
  deriving DecidableEq, Repr

inductive Direction where
  | expense
  | income
  | transfer
  deriving DecidableEq, Repr

inductive SubscriptionFrequency where
  | daily
  | weekly
  | biweekly
  | monthly
  | quarterly
  | semiannual
  | annual
  deriving DecidableEq, Repr

inductive HabitDirection where
  | build
  | maintain
  | reduce
  | quit
  deriving DecidableEq, Repr

inductive HabitFrequency where
  | daily
  | weekly
  | monthly
  | custom
  deriving DecidableEq, Repr

inductive HabitLogStatus where
  | done
  | skipped
  | notDone
  | missed
  deriving DecidableEq, Repr

inductive GoalStatus where
  | active
  | completed
  | paused
  | cancelled
  deriving DecidableEq, Repr

inductive TaskPriority where
  | low
  | medium
  | high
  | urgent
  deriving DecidableEq, Repr

inductive TaskStatus where
  | pending
  | inProgress
  | completed
  | cancelled
  deriving DecidableEq, Repr

inductive EventKind where
  | event
  | appointment
  | reminder
  | paymentDue
  | goalMilestone
  | habitReminder
  deriving DecidableEq, Repr

inductive AssetCategory where
  | cash
  | account
  | investment
  | equipment
  | vehicle
  | property
  | other
  deriving DecidableEq, Repr

structure AccountRow where
  userId : Uuid
  name : String
  currency : String
  balance : Cents
  notes : Option String
  color : Option String
  icon : Option String
  isArchived : Bool
  createdAt : Timestamp
  updatedAt : Timestamp
  deriving DecidableEq, Repr

structure MovementRow where
  userId : Uuid
  accountId : Uuid
  transferAccountId : Option Uuid
  categoryId : Option Uuid
  direction : Direction
  amount : Cents
  occurredOn : NaiveDate
  description : Option String
  subscriptionId : Option Uuid
  createdAt : Timestamp
  updatedAt : Timestamp
  deriving DecidableEq, Repr

structure SubscriptionRow where
  userId : Uuid
  name : String
  price : Cents
  currency : String
  frequency : SubscriptionFrequency
  nextBillingOn : Option NaiveDate
  categoryId : Option Uuid
  paymentMethod : Option String
  url : Option String
  notes : Option String
  isActive : Bool
  cancelledAt : Option Timestamp
  createdAt : Timestamp
  updatedAt : Timestamp
  lastPaidOn : Option NaiveDate
  deriving DecidableEq, Repr

structure CategoryRow where
  userId : Uuid
  kind : CategoryKind
  name : String
  deriving DecidableEq, Repr

structure PreferencesRow where
  currencyCode : String
  deriving DecidableEq, Repr

structure HabitRow where
  userId : Uuid
  name : String
  description : Option String
  direction : HabitDirection
  frequency : HabitFrequency
  daysOfWeek : List Nat
  targetPerPeriod : Option Cents
  startDate : NaiveDate
  endDate : Option NaiveDate
  categoryId : Option Uuid
  color : Option String
  icon : Option String
  isArchived : Bool
  createdAt : Timestamp
  updatedAt : Timestamp
  category : Option String
  shortLabel : Option String
  deriving DecidableEq, Repr

structure HabitLogRow where
  userId : Uuid
  habitId : Uuid
  logDate : NaiveDate
  status : HabitLogStatus
  countValue : Option Cents
  notes : Option String
  createdAt : Timestamp
  updatedAt : Timestamp
  deriving DecidableEq, Repr

structure GoalRow where
  userId : Uuid
  name : String
  description : Option String
  area : String
  categoryId : Option Uuid
  startDate : NaiveDate
  dueDate : Option NaiveDate
  progress : Int
  status : GoalStatus
  color : Option String
  createdAt : Timestamp
  updatedAt : Timestamp
  deriving DecidableEq, Repr

structure TaskRow where
  userId : Uuid
  title : String
  description : Option String
  priority : TaskPriority
  status : TaskStatus
  dueDate : Option NaiveDate
  completedAt : Option Timestamp
  goalId : Option Uuid
  categoryId : Option Uuid
  reminderId : Option Uuid
  sortOrder : Int
  createdAt : Timestamp
  updatedAt : Timestamp
  deriving DecidableEq, Repr

structure EventRow where
  userId : Uuid
  title : String
  description : Option String
  kind : EventKind
  startsAt : Timestamp
  endsAt : Option Timestamp
  allDay : Bool
  location : Option String
  habitId : Option Uuid
  goalId : Option Uuid
  taskId : Option Uuid
  subscriptionId : Option Uuid
  categoryId : Option Uuid
  createdAt : Timestamp
  updatedAt : Timestamp
  deriving DecidableEq, Repr

structure AssetRow where
  userId : Uuid
  name : String
  category : AssetCategory
  accountId : Option Uuid
  currentValue : Cents
  currency : String
  acquiredOn : Option NaiveDate
  notes : Option String
  isArchived : Bool
  createdAt : Timestamp
  updatedAt : Timestamp
  deriving DecidableEq, Repr

structure ValuationRow where
  userId : Uuid
  assetId : Uuid
  value : Cents
  recordedOn : NaiveDate
  notes : Option String
  createdAt : Timestamp
  deriving DecidableEq, Repr

/-- The rows a statement can address or lock. The `…Name` and `…Slot` keys are
the entries of the unique indexes that inserts wait for; they store no row. -/
inductive Key where
  | account (id : Uuid)
  | movement (id : Uuid)
  | subscription (id : Uuid)
  | category (id : Uuid)
  | categoryName (userId : Uuid) (kind : CategoryKind) (name : String)
  | preferences (userId : Uuid)
  | habit (id : Uuid)
  | habitLog (id : Uuid)
  | habitLogSlot (habitId : Uuid) (logDate : NaiveDate)
  | goal (id : Uuid)
  | task (id : Uuid)
  | event (id : Uuid)
  | asset (id : Uuid)
  | valuation (id : Uuid)
  | valuationSlot (assetId : Uuid) (recordedOn : NaiveDate)
  deriving DecidableEq

@[reducible]
def Row : Key → Type
  | .account _ => AccountRow
  | .movement _ => MovementRow
  | .subscription _ => SubscriptionRow
  | .category _ => CategoryRow
  | .preferences _ => PreferencesRow
  | .habit _ => HabitRow
  | .habitLog _ => HabitLogRow
  | .goal _ => GoalRow
  | .task _ => TaskRow
  | .event _ => EventRow
  | .asset _ => AssetRow
  | .valuation _ => ValuationRow
  | .categoryName .. | .habitLogSlot .. | .valuationSlot .. => Empty

abbrev Db := Store Row

namespace Db

variable (s : Db)

def account (id : Uuid) : Option AccountRow := s.lookup (Key.account id)
def movement (id : Uuid) : Option MovementRow := s.lookup (Key.movement id)
def subscription (id : Uuid) : Option SubscriptionRow := s.lookup (Key.subscription id)
def category (id : Uuid) : Option CategoryRow := s.lookup (Key.category id)
def preferences (userId : Uuid) : Option PreferencesRow := s.lookup (Key.preferences userId)
def habit (id : Uuid) : Option HabitRow := s.lookup (Key.habit id)
def habitLog (id : Uuid) : Option HabitLogRow := s.lookup (Key.habitLog id)
def goal (id : Uuid) : Option GoalRow := s.lookup (Key.goal id)
def task (id : Uuid) : Option TaskRow := s.lookup (Key.task id)
def event (id : Uuid) : Option EventRow := s.lookup (Key.event id)
def asset (id : Uuid) : Option AssetRow := s.lookup (Key.asset id)
def valuation (id : Uuid) : Option ValuationRow := s.lookup (Key.valuation id)

section Writes

variable {s} {id : Uuid}

@[simp]
theorem account_put_self (r : Option AccountRow) :
    Db.account (put s (Key.account id) r) id = r :=
  lookup_put_self s (Key.account id) r

theorem account_put_of_ne {k : Key} (h : Key.account id ≠ k) (r : Option (Row k)) :
    Db.account (put s k r) id = s.account id :=
  lookup_put_of_ne h r

@[simp]
theorem movement_put_self (r : Option MovementRow) :
    Db.movement (put s (Key.movement id) r) id = r :=
  lookup_put_self s (Key.movement id) r

theorem movement_put_of_ne {k : Key} (h : Key.movement id ≠ k) (r : Option (Row k)) :
    Db.movement (put s k r) id = s.movement id :=
  lookup_put_of_ne h r

@[simp]
theorem subscription_put_self (r : Option SubscriptionRow) :
    Db.subscription (put s (Key.subscription id) r) id = r :=
  lookup_put_self s (Key.subscription id) r

theorem subscription_put_of_ne {k : Key} (h : Key.subscription id ≠ k) (r : Option (Row k)) :
    Db.subscription (put s k r) id = s.subscription id :=
  lookup_put_of_ne h r

@[simp]
theorem goal_put_self (r : Option GoalRow) : Db.goal (put s (Key.goal id) r) id = r :=
  lookup_put_self s (Key.goal id) r

theorem goal_put_of_ne {k : Key} (h : Key.goal id ≠ k) (r : Option (Row k)) :
    Db.goal (put s k r) id = s.goal id :=
  lookup_put_of_ne h r

@[simp]
theorem task_put_self (r : Option TaskRow) : Db.task (put s (Key.task id) r) id = r :=
  lookup_put_self s (Key.task id) r

theorem task_put_of_ne {k : Key} (h : Key.task id ≠ k) (r : Option (Row k)) :
    Db.task (put s k r) id = s.task id :=
  lookup_put_of_ne h r

end Writes

end Db

/-- The SQL error classes the handlers tell apart. -/
inductive SqlState where
  | invalidText
  | numericOutOfRange
  | foreignKeyViolation
  | uniqueViolation
  | checkViolation
  deriving DecidableEq, Repr

inductive AppError where
  | auth
  | validation (message : String)
  | notFound
  | conflict (message : String)
  | internal
  | rateLimited (seconds : Nat)
  deriving DecidableEq, Repr

namespace AppError

def statusAndCode : AppError → Nat × String
  | auth => (401, "UNAUTHORIZED")
  | validation _ => (422, "VALIDATION_ERROR")
  | notFound => (404, "NOT_FOUND")
  | conflict _ => (409, "CONFLICT")
  | rateLimited _ => (429, "RATE_LIMITED")
  | internal => (500, "INTERNAL_ERROR")

def message : AppError → String
  | validation msg | conflict msg => msg
  | auth => "Invalid credentials"
  | notFound => "Not found"
  | rateLimited _ => "Too many requests"
  | internal => "Internal server error"

end AppError

abbrev Handler (α : Type) := Prog Row SqlState AppError α

abbrev Sql (α : Type) := Statement Row SqlState α

end PersonalDashboard.Schema
