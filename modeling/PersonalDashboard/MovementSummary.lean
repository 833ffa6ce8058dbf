import PersonalDashboard.CalendarUnits
import PersonalDashboard.DateStrings
import PersonalDashboard.GroupedSums
import PersonalDashboard.LedgerHandlers
import PersonalDashboard.SoloRuns

/-! The summary of movements: four aggregations of one window, and the calendar
buckets that the last of them fills. -/

set_option autoImplicit false

namespace PersonalDashboard.MovementSummary

open PersonalDashboard.BillingDates
open PersonalDashboard.Calendar
open PersonalDashboard.Calendar.NaiveDate
open PersonalDashboard.CalendarUnits
open PersonalDashboard.DateStrings
open PersonalDashboard.GroupedSums
open PersonalDashboard.LedgerHandlers
open PersonalDashboard.ReadCommitted
open PersonalDashboard.RowStore
open PersonalDashboard.Schema
open PersonalDashboard.SoloRuns
open PersonalDashboard.Validation

structure MovementSummaryQuery where
  fromDate : Option String
  toDate : Option String
  group : Option String

inductive SummaryGroup where
  | day
  | week
  | month
  | year
  deriving DecidableEq, Repr

namespace SummaryGroup

def asStr : SummaryGroup → String
  | day => "day"
  | week => "week"
  | month => "month"
  | year => "year"

def calendarUnit : SummaryGroup → CalendarUnit
  | day => .day
  | week => .week
  | month => .month
  | year => .year

end SummaryGroup

def parseSummaryGroup (raw : Option String) : Except AppError SummaryGroup :=
  match raw with
  | some "day" => .ok .day
  | some "week" => .ok .week
  | some "month" => .ok .month
  | some "year" => .ok .year
  | some other =>
      .error (.validation s!"group must be one of: day, week, month, year (got `{other}`)")
  | none => .error (.validation "group is required: one of day, week, month, year")

def parseMovementRange (parsers : Parsers) :
    Option String → Option String → Except AppError (Option (NaiveDate × NaiveDate))
  | none, none => .ok none
  | some rawFrom, some rawTo => do
      let fromDate ← validateOccurredOn parsers rawFrom
      let toDate ← validateOccurredOn parsers rawTo
      if fromDate > toDate then .error (.validation "to must be after from")
      else .ok (some (fromDate, toDate))
  | _, _ => .error (.validation "from and to must be provided together")

def parseSummaryWindow (parsers : Parsers) (fromDate toDate : Option String) :
    Except AppError (NaiveDate × NaiveDate) := do
  match ← parseMovementRange parsers fromDate toDate with
  | some window => .ok window
  | none => .error (.validation "from and to are required")

structure SummaryBucket where
  key : String
  fromDate : NaiveDate
  toDate : NaiveDate
  expense : Cents
  income : Cents

/-- The last date the server can represent. -/
def maxDate : NaiveDate :=
  lastOfMonth 262142 12 january_le december_le

def summaryUnitStart (group : SummaryGroup) (date : NaiveDate) : NaiveDate :=
  match group with
  | .day => date
  | .week => date.subDays date.numDaysFromMonday
  | .month => (fromYmdOpt date.year date.month 1).getD date
  | .year => (fromYmdOpt date.year 1 1).getD date

/-- Inclusive last day of the unit that starts at `start`. -/
def summaryUnitEnd (group : SummaryGroup) (start : NaiveDate) : NaiveDate :=
  match group with
  | .day => start
  | .week => start.addDays 6
  | .month =>
      if start.month = 12 then (fromYmdOpt start.year 12 31).getD maxDate
      else ((fromYmdOpt start.year (start.month + 1) 1).map NaiveDate.pred).getD maxDate
  | .year => (fromYmdOpt start.year 12 31).getD maxDate

/-- `{:04}` of a year. -/
def formatYear (y : Int) : String :=
  if y < 0 then "-" ++ zeroPad 3 y.natAbs else zeroPad 4 y.natAbs

/-- The key of a bucket: `YYYY-MM-DD`, `YYYY-Www`, `YYYY-MM` or `YYYY`. -/
def summaryBucketKey (group : SummaryGroup) (start : NaiveDate) : String :=
  match group with
  | .day => formatYmd start
  | .week => toString (CalendarUnit.isoYear start) ++ "-W" ++ zeroPad 2 (CalendarUnit.isoWeek start)
  | .month => formatYear start.year ++ "-" ++ zeroPad 2 start.month
  | .year => toString start.year

def nextSummaryUnitStart (group : SummaryGroup) (start : NaiveDate) : Option NaiveDate :=
  match group with
  | .day => some start.succ
  | .week => some (start.addDays 7)
  | .month => some (addMonthsClamped start 1)
  | .year => fromYmdOpt (start.year + 1) 1 1

theorem lt_nextSummaryUnitStart {group : SummaryGroup} {start next : NaiveDate}
    (h : nextSummaryUnitStart group start = some next) : start < next := by
  cases group with
  | day =>
      obtain rfl := Option.some.inj h
      exact lt_succ_iff.mpr le_rfl
  | week =>
      obtain rfl := Option.some.inj h
      rw [lt_iff, numDaysFromCe_addDays]
      omega
  | month =>
      obtain rfl := Option.some.inj h
      exact lt_addMonthsClamped start (by decide)
  | year =>
      have hnext : some (firstOfMonth (start.year + 1) 1 le_rfl (by decide)) = some next :=
        (fromYmdOpt_self (firstOfMonth (start.year + 1) 1 le_rfl (by decide))).symm.trans h
      obtain rfl := Option.some.inj hnext
      exact numDaysFromCe_lt_of_year_lt (Int.lt_succ start.year)

/-- The loop of `summary_bucket_windows` from a start on. -/
def bucketWindowsFrom (group : SummaryGroup) (toDate start : NaiveDate) : List SummaryBucket :=
  if start ≤ toDate then
    { key := summaryBucketKey group start, fromDate := start
      toDate := summaryUnitEnd group start, expense := 0, income := 0 } ::
      match _hnext : nextSummaryUnitStart group start with
      | some next => bucketWindowsFrom group toDate next
      | none => []
  else []
termination_by (toDate.numDaysFromCe + 1 - start.numDaysFromCe).toNat
decreasing_by
  rename_i hle
  have hlt := lt_iff.mp (lt_nextSummaryUnitStart _hnext)
  have hle' := le_iff.mp hle
  omega

/-- Every calendar unit intersecting the inclusive window, oldest first. -/
def summaryBucketWindows (group : SummaryGroup) (fromDate toDate : NaiveDate) :
    List SummaryBucket :=
  bucketWindowsFrom group toDate (summaryUnitStart group fromDate)

/-- A row of the join of the movements with their accounts. -/
structure SummaryRow where
  movement : Stored MovementRow
  account : AccountRow

namespace SummaryRow

variable (r : SummaryRow)

/-- The account is active and in the user's currency. -/
def counted (currency : String) : Bool :=
  r.account.currency = currency && !r.account.isArchived

def expense : Cents :=
  if r.movement.row.direction = .expense then r.movement.row.amount else 0

def income : Cents :=
  if r.movement.row.direction = .income then r.movement.row.amount else 0

end SummaryRow

def movementRows (s : Db) : List (Stored MovementRow) :=
  s.entries.filterMap fun
    | ⟨.movement id, (m : MovementRow)⟩ => some ⟨id, m⟩
    | _ => none

/-- `FROM movements m JOIN accounts a ON a.id = m.account_id AND a.user_id =
m.user_id`. -/
def joinAccounts (s : Db) : List SummaryRow :=
  (movementRows s).filterMap fun m =>
    ((s.account m.row.accountId).filter fun a => a.userId = m.row.userId).map (SummaryRow.mk m)

def summaryRows (userId : Uuid) (fromDate toDate : NaiveDate) (s : Db) : List SummaryRow :=
  (joinAccounts s).filter fun r =>
    r.movement.row.userId = userId && fromDate ≤ r.movement.row.occurredOn &&
      r.movement.row.occurredOn ≤ toDate

def userCurrencySql (userId : Uuid) (s : Db) : String :=
  ((s.preferences userId).map PreferencesRow.currencyCode).getD "COP"

structure SummaryTotals where
  expense : Cents
  income : Cents
  count : Nat
  recentTotal : Nat

def summaryTotalsSql (userId : Uuid) (currency : String) (fromDate toDate : NaiveDate) (s : Db) :
    SummaryTotals :=
  let rows := summaryRows userId fromDate toDate s
  { expense := sumOf (fun r => if r.counted currency then r.expense else 0) rows
    income := sumOf (fun r => if r.counted currency then r.income else 0) rows
    count := rows.countP fun r => r.counted currency
    recentTotal := rows.length }

structure Split (κ : Type) where
  key : κ
  expense : Cents
  income : Cents

/-- The rows of the grouped queries: no transfer, and only counted accounts. -/
def splitRows (userId : Uuid) (fromDate toDate : NaiveDate) (currency : String) (s : Db) :
    List SummaryRow :=
  (summaryRows userId fromDate toDate s).filter fun r =>
    r.counted currency && r.movement.row.direction ≠ .transfer

def splitBy {κ : Type} [DecidableEq κ] (key : SummaryRow → κ) (rows : List SummaryRow) :
    List (Split κ) :=
  (groupBy key rows).map fun g => ⟨g.1, sumOf SummaryRow.expense g.2, sumOf SummaryRow.income g.2⟩

def summaryByAccountSql (userId : Uuid) (fromDate toDate : NaiveDate) (currency : String)
    (s : Db) : List (Split Uuid) :=
  (splitBy (fun r => r.movement.row.accountId)
    (splitRows userId fromDate toDate currency s)).mergeSort fun a b => a.key ≤ b.key

/-- The rows that have a category, grouped by it; the largest expense first. -/
def summaryByCategorySql (userId : Uuid) (fromDate toDate : NaiveDate) (currency : String)
    (s : Db) : List (Split Uuid) :=
  (splitBy (fun r => r.movement.row.categoryId.getD 0)
    ((splitRows userId fromDate toDate currency s).filter fun r =>
      r.movement.row.categoryId.isSome)).mergeSort fun a b =>
        b.expense < a.expense || (a.expense = b.expense && a.key ≤ b.key)

/-- `date_trunc` to a unit: the Monday of the ISO week, the first of the month,
the first of the year. -/
def dateTrunc (group : SummaryGroup) (d : NaiveDate) : NaiveDate :=
  group.calendarUnit.firstDay d

def summaryBucketsSql (userId : Uuid) (fromDate toDate : NaiveDate) (group : SummaryGroup)
    (currency : String) (s : Db) : List (Split NaiveDate) :=
  (splitBy (fun r => dateTrunc group r.movement.row.occurredOn)
    (splitRows userId fromDate toDate currency s)).mergeSort fun a b => a.key ≤ b.key

/-- `ORDER BY occurred_on DESC, created_at DESC, id DESC`. -/
def recentFirst (a b : Stored MovementRow) : Bool :=
  b.row.occurredOn < a.row.occurredOn ||
    (a.row.occurredOn = b.row.occurredOn &&
      (b.row.createdAt < a.row.createdAt || (a.row.createdAt = b.row.createdAt && b.id ≤ a.id)))

/-- The first five movements of the window. -/
def summaryRecentSql (userId : Uuid) (fromDate toDate : NaiveDate) (s : Db) :
    List (Stored MovementRow) :=
  (((movementRows s).filter fun m =>
    m.row.userId = userId && fromDate ≤ m.row.occurredOn && m.row.occurredOn ≤ toDate).mergeSort
      recentFirst).take 5

structure MovementBriefResponse where
  id : Uuid
  accountId : Uuid
  transferAccountId : Option Uuid
  categoryId : Option Uuid
  direction : Direction
  amount : Cents
  occurredOn : NaiveDate
  description : Option String

def MovementBriefResponse.ofRow (m : Stored MovementRow) : MovementBriefResponse :=
  { id := m.id, accountId := m.row.accountId, transferAccountId := m.row.transferAccountId
    categoryId := m.row.categoryId, direction := m.row.direction, amount := m.row.amount
    occurredOn := m.row.occurredOn, description := m.row.description }

structure MovementSummaryTotals where
  expense : Cents
  income : Cents
  count : Nat

structure MovementSummaryResponse where
  totals : MovementSummaryTotals
  byAccount : List (Split Uuid)
  byCategory : List (Split Uuid)
  buckets : List SummaryBucket
  recent : List MovementBriefResponse
  recentTotal : Nat

/-- Collect the grouped sums by their unit start. -/
def bucketTotals (rows : List (Split NaiveDate)) : AList fun _ : NaiveDate => Cents × Cents :=
  rows.foldl (fun totals r => totals.insert r.key (r.expense, r.income)) ∅

/-- Move the sums of every unit into its bucket. -/
def fillBuckets : (AList fun _ : NaiveDate => Cents × Cents) → List SummaryBucket →
    List SummaryBucket
  | _, [] => []
  | totals, bucket :: buckets =>
      match totals.lookup bucket.fromDate with
      | some (expense, income) =>
          { bucket with expense := expense, income := income } ::
            fillBuckets (totals.erase bucket.fromDate) buckets
      | none => bucket :: fillBuckets totals buckets

def movementSummaryHandler (caller : Caller) (query : MovementSummaryQuery) :
    Handler MovementSummaryResponse := do
  let window ← ofExcept (parseSummaryWindow caller.parsers query.fromDate query.toDate)
  let group ← ofExcept (parseSummaryGroup query.group)
  let currency ← select (userCurrencySql caller.userId)
  let totals ← select (summaryTotalsSql caller.userId currency window.1 window.2)
  let byAccount ← select (summaryByAccountSql caller.userId window.1 window.2 currency)
  let byCategory ← select (summaryByCategorySql caller.userId window.1 window.2 currency)
  let rows ← select (summaryBucketsSql caller.userId window.1 window.2 group currency)
  let buckets := fillBuckets (bucketTotals rows) (summaryBucketWindows group window.1 window.2)
  let recent ← select (summaryRecentSql caller.userId window.1 window.2)
  pure
    { totals := { expense := totals.expense, income := totals.income, count := totals.count }
      byAccount := byAccount, byCategory := byCategory, buckets := buckets
      recent := recent.map MovementBriefResponse.ofRow, recentTotal := totals.recentTotal }

section Windows

variable {group : SummaryGroup} {start : NaiveDate}

theorem summaryUnitStart_eq (group : SummaryGroup) (date : NaiveDate) :
    summaryUnitStart group date = group.calendarUnit.firstDay date := by
  cases group with
  | day => rfl
  | week => rfl
  | month =>
      have hfirst :=
        fromYmdOpt_self (firstOfMonth date.year date.month date.month_pos date.month_le)
      exact congrArg (Option.getD · date) hfirst
  | year =>
      have hfirst := fromYmdOpt_self (firstOfMonth date.year 1 le_rfl (by decide))
      exact congrArg (Option.getD · date) hfirst

theorem numDaysFromMonday_of_firstDay (h : CalendarUnit.week.firstDay start = start) :
    start.numDaysFromMonday = 0 := by
  have hn := congrArg numDaysFromCe h
  simp only [CalendarUnit.firstDay, numDaysFromCe_subDays] at hn
  omega

theorem succ_lastOfMonth (y : Int) {m : Nat} (h : 1 ≤ m) (h' : m < 12) :
    (lastOfMonth y m h h'.le).succ = firstOfMonth y (m + 1) (Nat.le_add_left 1 _) h' := by
  simp [NaiveDate.succ, lastOfMonth, h']

theorem succ_lastOfYear (y : Int) :
    (lastOfMonth y 12 (by decide) le_rfl).succ = firstOfMonth (y + 1) 1 le_rfl (by decide) := by
  simp [NaiveDate.succ, lastOfMonth]

theorem pred_succ (d : NaiveDate) : d.succ.pred = d := by
  refine numDaysFromCe_injective ?_
  rw [numDaysFromCe_pred, numDaysFromCe_succ]
  omega

theorem summaryUnitEnd_eq (h : group.calendarUnit.firstDay start = start) :
    summaryUnitEnd group start = group.calendarUnit.lastDay start := by
  cases group with
  | day => rfl
  | week =>
      have hmonday := numDaysFromMonday_of_firstDay h
      simp only [summaryUnitEnd, SummaryGroup.calendarUnit, CalendarUnit.lastDay, hmonday,
        Nat.sub_zero]
  | month =>
      simp only [summaryUnitEnd, SummaryGroup.calendarUnit, CalendarUnit.lastDay]
      split
      · rename_i hm
        have hlast := fromYmdOpt_self (lastOfMonth start.year start.month start.month_pos
          start.month_le)
        simp only [lastOfMonth, hm] at hlast ⊢
        exact congrArg (Option.getD · maxDate) hlast
      · rename_i hm
        have hlt : start.month < 12 := lt_of_le_of_ne start.month_le hm
        have hnext := fromYmdOpt_self (firstOfMonth start.year (start.month + 1)
          (Nat.le_add_left 1 _) hlt)
        simp only [firstOfMonth] at hnext
        rw [hnext, Option.map_some, Option.getD_some]
        exact (congrArg NaiveDate.pred (succ_lastOfMonth start.year start.month_pos hlt)).symm.trans
          (pred_succ _)
  | year =>
      have hlast := fromYmdOpt_self (lastOfMonth start.year 12 (by decide) le_rfl)
      exact congrArg (Option.getD · maxDate) hlast

theorem addMonthsClamped_one (h : start.day = 1) :
    addMonthsClamped start 1 =
      (lastOfMonth start.year start.month start.month_pos start.month_le).succ := by
  have hday : (addMonthsClamped start 1).day = 1 := by
    refine le_antisymm ?_ (addMonthsClamped start 1).day_pos
    simp only [addMonthsClamped, h]
    exact min_le_left _ _
  refine eq_of_monthIndex_eq ((monthIndex_addMonthsClamped start 1).trans ?_) (hday.trans ?_)
  · rcases Nat.lt_or_eq_of_le start.month_le with hm | hm
    · rw [succ_lastOfMonth start.year start.month_pos hm]
      simp only [monthIndex, firstOfMonth]
      omega
    · simp only [hm, succ_lastOfYear]
      simp only [monthIndex, firstOfMonth, hm]
      omega
  · rcases Nat.lt_or_eq_of_le start.month_le with hm | hm
    · rw [succ_lastOfMonth start.year start.month_pos hm]
      rfl
    · simp only [hm, succ_lastOfYear]
      rfl

theorem nextSummaryUnitStart_eq (h : group.calendarUnit.firstDay start = start) :
    nextSummaryUnitStart group start = some (group.calendarUnit.next start) := by
  cases group with
  | day => rfl
  | week =>
      have hmonday := numDaysFromMonday_of_firstDay h
      simp only [nextSummaryUnitStart, SummaryGroup.calendarUnit, CalendarUnit.next,
        CalendarUnit.lastDay, hmonday]
      rfl
  | month =>
      have hday : start.day = 1 := (congrArg NaiveDate.day h).symm
      exact congrArg some (addMonthsClamped_one hday)
  | year =>
      have hnext := fromYmdOpt_self (firstOfMonth (start.year + 1) 1 le_rfl (by decide))
      exact hnext.trans (congrArg some (succ_lastOfYear start.year).symm)

def emptyBucket (group : SummaryGroup) (start : NaiveDate) : SummaryBucket :=
  { key := summaryBucketKey group start, fromDate := start
    toDate := group.calendarUnit.lastDay start, expense := 0, income := 0 }

theorem bucketWindowsFrom_eq {toDate : NaiveDate}
    (h : group.calendarUnit.firstDay start = start) :
    bucketWindowsFrom group toDate start =
      (group.calendarUnit.starts toDate start).map (emptyBucket group) := by
  induction start using CalendarUnit.starts.induct group.calendarUnit toDate with
  | case1 start hle ih =>
      rw [bucketWindowsFrom, if_pos hle, CalendarUnit.starts_of_le hle, List.map_cons,
        summaryUnitEnd_eq h]
      refine congrArg (List.cons _) ?_
      split
      · rename_i next hnext
        rw [nextSummaryUnitStart_eq h] at hnext
        obtain rfl := Option.some.inj hnext
        exact ih (group.calendarUnit.firstDay_next start)
      · rename_i hnext
        rw [nextSummaryUnitStart_eq h] at hnext
        cases hnext
  | case2 start hlt =>
      rw [bucketWindowsFrom, if_neg hlt, CalendarUnit.starts_of_lt (lt_of_not_ge hlt), List.map_nil]

/-- The buckets are the calendar units that meet the window. -/
theorem summaryBucketWindows_eq (group : SummaryGroup) (fromDate toDate : NaiveDate) :
    summaryBucketWindows group fromDate toDate =
      (group.calendarUnit.starts toDate (group.calendarUnit.firstDay fromDate)).map
        (emptyBucket group) := by
  rw [summaryBucketWindows, summaryUnitStart_eq]
  exact bucketWindowsFrom_eq (group.calendarUnit.firstDay_firstDay fromDate)

end Windows

end PersonalDashboard.MovementSummary
