import PersonalDashboard.OrderedMaps
import PersonalDashboard.SummaryConservation
import PersonalDashboard.TaskViews
import PersonalDashboard.TrendWindows

/-! What the client makes of the movements it has read, and of the summary that the
server has made of them. -/

set_option autoImplicit false

namespace PersonalDashboard.ClientAggregates

open PersonalDashboard.DateStrings
open PersonalDashboard.GroupedSums
open PersonalDashboard.JsDate
open PersonalDashboard.LedgerHandlers
open PersonalDashboard.MovementSummary
open PersonalDashboard.OrderedMaps
open PersonalDashboard.OrderedMaps.OrderedMap
open PersonalDashboard.RowStore
open PersonalDashboard.RowStatements
open PersonalDashboard.Schema
open PersonalDashboard.TaskViews
open PersonalDashboard.TrendWindows

def directionText : Direction → String
  | .expense => "expense"
  | .income => "income"
  | .transfer => "transfer"

theorem directionText_injective : Function.Injective directionText := by
  intro direction direction' h
  cases direction <;> cases direction' <;> first | rfl | exact absurd h (by decide)

/-- A movement as it is sent; its amount is an exact decimal. -/
structure MovementWire where
  id : Uuid
  direction : String
  amount : Cents
  occurredOn : String
  description : Option String
  accountId : Uuid
  transferAccountId : Option Uuid
  categoryId : Option Uuid

def MovementWire.ofRow (m : Stored MovementRow) : MovementWire where
  id := m.id
  direction := directionText m.row.direction
  amount := m.row.amount
  occurredOn := formatYmd m.row.occurredOn
  description := m.row.description
  accountId := m.row.accountId
  transferAccountId := m.row.transferAccountId
  categoryId := m.row.categoryId

structure AccountWire where
  id : Uuid
  name : String
  currency : String
  balance : Cents

def AccountWire.ofRow (a : Stored AccountRow) : AccountWire :=
  ⟨a.id, a.row.name, a.row.currency, a.row.balance⟩

structure CategoryWire where
  id : Uuid
  kind : String
  name : String

def listMovementsBriefSql (userId : Uuid) (s : Db) : List (Stored MovementRow) :=
  ((movementRows s).filter fun m => m.row.userId = userId).mergeSort recentFirst

def listMovementsRangeBriefSql (userId : Uuid) (fromDate toDate : Calendar.NaiveDate) (s : Db) :
    List (Stored MovementRow) :=
  ((movementRows s).filter fun m =>
    m.row.userId = userId && fromDate ≤ m.row.occurredOn && m.row.occurredOn ≤ toDate).mergeSort
      recentFirst

def accountRows (s : Db) : List (Stored AccountRow) :=
  s.entries.filterMap fun
    | ⟨.account id, (a : AccountRow)⟩ => some ⟨id, a⟩
    | _ => none

def listAccountsBriefSql (userId : Uuid) (s : Db) : List (Stored AccountRow) :=
  ((accountRows s).filter fun a => a.row.userId = userId && !a.row.isArchived).mergeSort
    fun a b => a.row.createdAt ≤ b.row.createdAt

/-- `s <= t` on strings. -/
def jsLe (s t : String) : Bool :=
  !jsLt t s

/-- An amount, zero when there is none. -/
def toNumber (value : Option Cents) : Cents :=
  value.getD 0

def currencyByAccountId (accounts : List AccountWire) : OrderedMap Uuid String :=
  OrderedMap.ofList (accounts.map fun a => (a.id, a.currency))

def isUserCurrencyMovement (movement : MovementWire) (currencies : OrderedMap Uuid String)
    (userCurrency : String) : Bool :=
  currencies.get movement.accountId = some userCurrency

structure TrendBucket where
  bucket : String
  label : String
  expense : Cents
  income : Cents

structure TotalTrendOptions where
  period : TrendPeriod
  currencyByAccountId : OrderedMap Uuid String
  userCurrency : String
  now : Int
  buckets : Option Nat

def addToTrend (windows : List TrendWindow) (opts : TotalTrendOptions)
    (totals : OrderedMap String (Cents × Cents)) (m : MovementWire) :
    OrderedMap String (Cents × Cents) :=
  if m.direction = "transfer" then totals
  else if !isUserCurrencyMovement m opts.currencyByAccountId opts.userCurrency then totals
  else
    match windows.find? fun w => jsLe w.fromDate m.occurredOn && jsLe m.occurredOn w.toDate with
    | none => totals
    | some window =>
        let total := (totals.get window.key).getD 0
        let amount := toNumber (some m.amount)
        if m.direction = "expense" then totals.set window.key (total.1 + amount, total.2)
        else if m.direction = "income" then totals.set window.key (total.1, total.2 + amount)
        else totals

def toTotalTrend (zone : LocalZone) (shortMonth : Int → String)
    (movements : Option (List MovementWire)) (opts : TotalTrendOptions) : List TrendBucket :=
  let windows := trendBuckets zone shortMonth opts.period opts.now opts.buckets
  let totals := (movements.getD []).foldl (addToTrend windows opts)
    (OrderedMap.ofList (windows.map fun w => (w.key, 0)))
  windows.map fun w =>
    let total := (totals.get w.key).getD 0
    { bucket := w.key, label := w.label, expense := total.1, income := total.2 }

structure ExpenseCategorySlice where
  categoryId : Uuid
  name : String
  value : Cents

structure ExpenseOptions where
  range : String × String
  categories : Option (List CategoryWire)
  currencyByAccountId : OrderedMap Uuid String
  userCurrency : String

def nameById (categories : Option (List CategoryWire)) : OrderedMap Uuid String :=
  OrderedMap.ofList ((categories.getD []).map fun c => (c.id, c.name))

def addExpense (opts : ExpenseOptions) (totals : OrderedMap Uuid Cents) (m : MovementWire) :
    OrderedMap Uuid Cents :=
  if m.direction = "transfer" then totals
  else if m.direction ≠ "expense" then totals
  else
    match m.categoryId with
    | none => totals
    | some categoryId =>
        if !(nameById opts.categories).has categoryId then totals
        else if !isUserCurrencyMovement m opts.currencyByAccountId opts.userCurrency then totals
        else if jsLt m.occurredOn opts.range.1 || jsLt opts.range.2 m.occurredOn then totals
        else totals.set categoryId ((totals.get categoryId).getD 0 + toNumber (some m.amount))

/-- `.sort((a, b) => b.value - a.value)`. -/
def sortByValue (slices : List ExpenseCategorySlice) : List ExpenseCategorySlice :=
  slices.mergeSort fun a b => b.value - a.value ≤ 0

def toExpenseByCategory (movements : Option (List MovementWire)) (opts : ExpenseOptions) :
    List ExpenseCategorySlice :=
  let totals := (movements.getD []).foldl (addExpense opts) OrderedMap.empty
  sortByValue ((totals.entries.filter fun e => e.2 ≠ 0).map fun e =>
    { categoryId := e.1, name := ((nameById opts.categories).get e.1).getD "", value := e.2 })

/-- The sums of a row that the slices can show. -/
inductive SliceDirection where
  | expense
  | income

def SliceDirection.amount (direction : SliceDirection) (row : Split Uuid) : Cents :=
  match direction with
  | .expense => row.expense
  | .income => row.income

def toSummaryCategorySlices (summary : Option MovementSummaryResponse)
    (categories : Option (List CategoryWire)) (direction : SliceDirection) :
    List ExpenseCategorySlice :=
  let names := nameById categories
  let rows := ((summary.map MovementSummaryResponse.byCategory).getD []).filter fun row =>
    names.has row.key
  let slices := rows.map fun row =>
    ({ categoryId := row.key, name := (names.get row.key).getD ""
       value := toNumber (some (direction.amount row)) } : ExpenseCategorySlice)
  sortByValue (slices.filter fun slice => slice.value ≠ 0)

def toSummaryExpenseSlices (summary : Option MovementSummaryResponse)
    (categories : Option (List CategoryWire)) : List ExpenseCategorySlice :=
  toSummaryCategorySlices summary categories .expense

/-- The windows with the sums of the server, looked up by their keys. -/
def toSummaryTrend (zone : LocalZone) (shortMonth : Int → String)
    (summary : Option MovementSummaryResponse) (period : TrendPeriod) (now : Int)
    (buckets : Option Nat) : List TrendBucket :=
  let byKey := OrderedMap.ofList
    (((summary.map MovementSummaryResponse.buckets).getD []).map fun bucket =>
      (bucket.key, bucket))
  (trendBuckets zone shortMonth period now buckets).map fun window =>
    let row := byKey.get window.key
    { bucket := window.key, label := window.label
      expense := toNumber (row.map SummaryBucket.expense)
      income := toNumber (row.map SummaryBucket.income) }

section Loops

variable (m : MovementWire)

def wireFlows : Cents × Cents :=
  (if m.direction = "expense" then m.amount else 0, if m.direction = "income" then m.amount else 0)

def trendKey (windows : List TrendWindow) (opts : TotalTrendOptions) : Option String :=
  if (m.direction = "expense" || m.direction = "income") &&
      isUserCurrencyMovement m opts.currencyByAccountId opts.userCurrency then
    (windows.find? fun w => jsLe w.fromDate m.occurredOn && jsLe m.occurredOn w.toDate).map
      TrendWindow.key
  else none

theorem addToTrend_eq (windows : List TrendWindow) (opts : TotalTrendOptions)
    (totals : OrderedMap String (Cents × Cents)) :
    addToTrend windows opts totals m =
      accumulate (fun m => trendKey m windows opts) wireFlows totals m := by
  simp only [addToTrend, accumulate, trendKey, wireFlows, toNumber, Option.getD_some]
  cases hcurrency : isUserCurrencyMovement m opts.currencyByAccountId opts.userCurrency with
  | false => simp
  | true =>
      by_cases hexpense : m.direction = "expense"
      · cases windows.find? _ <;> simp [hexpense, Prod.add_def]
      · by_cases hincome : m.direction = "income"
        · cases windows.find? _ <;> simp [hincome, Prod.add_def]
        · cases windows.find? _ <;> simp [hexpense, hincome]

def expenseKey (opts : ExpenseOptions) : Option Uuid :=
  m.categoryId.filter fun categoryId =>
    m.direction = "expense" && (nameById opts.categories).has categoryId &&
      isUserCurrencyMovement m opts.currencyByAccountId opts.userCurrency &&
      (jsLe opts.range.1 m.occurredOn && jsLe m.occurredOn opts.range.2)

theorem addExpense_eq (opts : ExpenseOptions) (totals : OrderedMap Uuid Cents) :
    addExpense opts totals m =
      accumulate (fun m => expenseKey m opts) MovementWire.amount totals m := by
  simp only [addExpense, accumulate, expenseKey, toNumber, Option.getD_some]
  cases m.categoryId with
  | none => simp
  | some categoryId =>
      by_cases hexpense : m.direction = "expense"
      · cases hname : (nameById opts.categories).has categoryId with
        | false => simp [hname, Option.filter]
        | true =>
            cases isUserCurrencyMovement m opts.currencyByAccountId opts.userCurrency with
            | false => simp [Option.filter]
            | true =>
                cases hfrom : jsLt m.occurredOn opts.range.1 <;>
                  cases hto : jsLt opts.range.2 m.occurredOn <;>
                  simp [hexpense, hname, jsLe, Option.filter, hfrom, hto]
      · simp [hexpense, Option.filter]

end Loops

end PersonalDashboard.ClientAggregates
