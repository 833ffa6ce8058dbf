import PersonalDashboard.BillingDates
import PersonalDashboard.RowStatements
import PersonalDashboard.Validation
import Mathlib.Data.List.Sort

/-! The handlers of the money ledger: movements, transfers, subscription
payments, and the account, category and subscription writes around them. -/

set_option autoImplicit false

namespace PersonalDashboard.LedgerHandlers

open PersonalDashboard.BillingDates
open PersonalDashboard.Calendar
open PersonalDashboard.ReadCommitted
open PersonalDashboard.RowStatements
open PersonalDashboard.Schema
open PersonalDashboard.Validation

structure CreateMovementRequest where
  direction : String
  amount : String
  accountId : Uuid
  categoryId : Uuid
  occurredOn : String
  description : Option String

structure CreateTransferRequest where
  fromAccountId : Uuid
  toAccountId : Uuid
  amount : String
  occurredOn : String
  description : Option String

structure PatchMovementRequest where
  direction : Option String
  amount : Option String
  accountId : Option Uuid
  categoryId : Option Uuid
  occurredOn : Option String
  description : Option String

structure PatchAccountRequest where
  balance : Option String
  notes : Option String
  color : Option String
  icon : Option String
  isArchived : Option Bool

structure Stored (α : Type) where
  id : Uuid
  row : α
  deriving DecidableEq, Repr

/-- What a request brings besides its body: the libraries' parsers, the
authenticated caller, and the time its transaction sees. -/
structure Caller where
  parsers : Parsers
  userId : Uuid
  now : Timestamp

def validateDirection (raw : String) : Except AppError Direction :=
  match trim raw with
  | "expense" => .ok .expense
  | "income" => .ok .income
  | _ => .error (.validation "la direccion debe ser 'expense' o 'income'")

def validateMovementAmount (parsers : Parsers) (raw : String) : Except AppError Decimal :=
  match parseMoneyAmount parsers raw with
  | .error _ =>
      .error (.validation "el monto debe ser un numero positivo con maximo 2 decimales")
  | .ok amount =>
      if amount.geNat maxMoneyAmount then
        .error (.validation "el monto debe ser menor a 1000000000")
      else .ok amount

def maxDescriptionLen : Nat :=
  2000

def validateDescription (raw : String) : Except AppError String :=
  if maxDescriptionLen < raw.length then
    .error (.validation "la descripcion debe tener maximo 2000 caracteres")
  else .ok raw

/-- `map_err(|_| AppError::Internal)`. -/
def internal (_ : SqlState) : AppError :=
  .internal

def mapMovementDbErr : SqlState → AppError
  | .foreignKeyViolation | .checkViolation | .invalidText =>
      .validation "datos del movimiento invalidos"
  | _ => .internal

def mapSubDbErr : SqlState → AppError
  | .foreignKeyViolation | .checkViolation | .invalidText =>
      .validation "datos de la suscripción inválidos"
  | _ => .internal

def mapAccountDeleteErr : SqlState → AppError
  | .foreignKeyViolation => .conflict "la cuenta tiene movimientos y no se puede eliminar"
  | _ => .internal

/-- A value of a `NUMERIC(18,2)` column. -/
def numeric (x : Cents) : Except SqlState Cents :=
  if x.natAbs < 10 ^ 18 then .ok x else .error .numericOutOfRange

def movementChecks (m : MovementRow) : Except SqlState Unit :=
  if 0 < m.amount ∧
      (m.direction = .transfer ↔ m.transferAccountId.isSome) ∧
      m.transferAccountId ≠ some m.accountId ∧
      (m.direction = .transfer → m.categoryId = none) then
    (numeric m.amount).map fun _ => ()
  else .error .checkViolation

def ownAccount (userId : Uuid) (a : AccountRow) : Bool :=
  a.userId = userId

def ownMovement (userId : Uuid) (m : MovementRow) : Bool :=
  m.userId = userId

def ownSubscription (userId : Uuid) (s : SubscriptionRow) : Bool :=
  s.userId = userId

def lockAccountSql (id userId : Uuid) : Sql (Option Uuid) :=
  selectFor .update (Key.account id) (ownAccount userId) fun _ => id

def lockTransferAccountsSql (id userId : Uuid) : Sql (Option (Uuid × String × Bool)) :=
  selectFor .update (Key.account id) (ownAccount userId) fun a : AccountRow =>
    (id, a.currency, a.isArchived)

def payLockAccountSql (id userId : Uuid) : Sql (Option String) :=
  selectFor .update (Key.account id) (ownAccount userId) AccountRow.currency

def accountCurrencySql (id userId : Uuid) (s : Db) : Option String :=
  ((s.account id).filter (ownAccount userId)).map AccountRow.currency

def accountArchivedSql (id userId : Uuid) (s : Db) : Option Bool :=
  ((s.account id).filter (ownAccount userId)).map AccountRow.isArchived

def applyBalanceSql (id userId : Uuid) (delta : Cents) (now : Timestamp) :
    Sql (Option AccountRow) :=
  updateRow .noKeyUpdate exclusive_noKeyUpdate (Key.account id) (ownAccount userId)
    fun _ (a : AccountRow) => (numeric (a.balance + delta)).map fun balance =>
      { a with balance := balance, updatedAt := now }

def getMovementSql (id userId : Uuid) (s : Db) : Option MovementRow :=
  (s.movement id).filter (ownMovement userId)

def lockMovementSql (id userId : Uuid) : Sql (Option MovementRow) :=
  selectFor .update (Key.movement id) (ownMovement userId) fun m : MovementRow => m

def updateMovementRow (new : MovementRow) (now : Timestamp) (m : MovementRow) : MovementRow :=
  { m with
    accountId := new.accountId
    categoryId := new.categoryId
    direction := new.direction
    amount := new.amount
    occurredOn := new.occurredOn
    description := new.description
    updatedAt := now }

def updateMovementSql (id userId : Uuid) (new : MovementRow) (now : Timestamp) :
    Sql (Option MovementRow) :=
  updateRow .noKeyUpdate exclusive_noKeyUpdate (Key.movement id) (ownMovement userId)
    fun _ (m : MovementRow) =>
      (movementChecks (updateMovementRow new now m)).map fun _ => updateMovementRow new now m

def deleteMovementSql (id userId : Uuid) : Sql (Option MovementRow) :=
  deleteRow (Key.movement id) (ownMovement userId)

def insertMovement (toErr : SqlState → AppError) (row : MovementRow) : Handler Uuid := do
  let id ← freshId Key.movement
  let _ ← execSql toErr (insertRow (Key.movement id) (fun _ => movementChecks row) row)
  foreignKey toErr .foreignKeyViolation (Key.account row.accountId)
  foreignKeyOpt toErr .foreignKeyViolation Key.category row.categoryId
  foreignKeyOpt toErr .foreignKeyViolation Key.subscription row.subscriptionId
  foreignKeyOpt toErr .foreignKeyViolation Key.account row.transferAccountId
  pure id

def recheckMovement (toErr : SqlState → AppError) (old new : MovementRow) : Handler Unit := do
  whenever (old.accountId ≠ new.accountId)
    (foreignKey toErr .foreignKeyViolation (Key.account new.accountId))
  whenever (old.categoryId ≠ new.categoryId)
    (foreignKeyOpt toErr .foreignKeyViolation Key.category new.categoryId)

def ensureOwnedCategory (categoryId userId : Uuid) : Handler Unit := do
  let owned ← select fun s : Db => (s.category categoryId).any fun c => c.userId = userId
  failIf (!owned) (.validation "la categoria debe pertenecer al usuario")

def ensureOwnedCategoryOpt (categoryId : Option Uuid) (userId : Uuid) : Handler Unit :=
  match categoryId with
  | some categoryId => ensureOwnedCategory categoryId userId
  | none => pure ()

def ensureOwnedAccount (accountId userId : Uuid) : Handler Unit := do
  let owned ← select fun s : Db => (s.account accountId).any (ownAccount userId)
  failIf (!owned) (.validation "la cuenta debe pertenecer al usuario")

def ensureOwnedAccountOpt (accountId : Option Uuid) (userId : Uuid) : Handler Unit :=
  match accountId with
  | some accountId => ensureOwnedAccount accountId userId
  | none => pure ()

def notOwnedAccount : AppError :=
  .validation "la cuenta debe pertenecer al usuario"

def archivedAccount : AppError :=
  .validation "no se pueden crear movimientos sobre cuentas archivadas"

/-- Signed balance delta of the account a movement is booked on. -/
def signedDelta : Direction → Cents → Cents
  | .expense, amount | .transfer, amount => -amount
  | .income, amount => amount

def rejectTransferPatch (stored : Direction) : Except AppError Unit :=
  if stored = .transfer then
    .error (.validation "las transferencias no se pueden editar; elimina y vuelve a crearla")
  else .ok ()

def insertMovementRow (caller : Caller) (body : CreateMovementRequest) (direction : Direction)
    (amount : Cents) (occurredOn : NaiveDate) (description : Option String) : MovementRow :=
  { userId := caller.userId, accountId := body.accountId, transferAccountId := none
    categoryId := some body.categoryId, direction := direction, amount := amount
    occurredOn := occurredOn, description := description, subscriptionId := none
    createdAt := caller.now, updatedAt := caller.now }

def createMovementHandler (caller : Caller) (body : CreateMovementRequest) :
    Handler (Stored MovementRow) := do
  let direction ← ofExcept (validateDirection body.direction)
  let amount ← ofExcept (validateMovementAmount caller.parsers body.amount)
  let occurredOn ← ofExcept (validateOccurredOn caller.parsers body.occurredOn)
  let description ← ofExcept (validateOpt validateDescription body.description)
  ensureOwnedAccount body.accountId caller.userId
  beginTx
  -- the account row first: concurrent writers of one account serialize here
  let _ ← fetchOr internal notOwnedAccount (lockAccountSql body.accountId caller.userId)
  let archived? ← select (accountArchivedSql body.accountId caller.userId)
  let archived ← ofOption .internal archived?
  failIf archived archivedAccount
  ensureOwnedCategory body.categoryId caller.userId
  let row := insertMovementRow caller body direction amount.cents occurredOn description
  let id ← insertMovement mapMovementDbErr row
  let _ ← execSql mapMovementDbErr
    (applyBalanceSql body.accountId caller.userId (signedDelta direction amount.cents) caller.now)
  commitTx
  pure ⟨id, row⟩

/-- Lock the accounts of a transfer, collecting the currencies of its origin and
of its destination. -/
def lockTransferAccounts (userId fromAccountId : Uuid) :
    List Uuid → Option String × Option String → Handler (Option String × Option String)
  | [], currencies => pure currencies
  | accountId :: rest, currencies => do
      let (lockedId, currency, archived) ←
        fetchOr internal notOwnedAccount (lockTransferAccountsSql accountId userId)
      failIf archived archivedAccount
      if lockedId = fromAccountId then
        lockTransferAccounts userId fromAccountId rest (some currency, currencies.2)
      else lockTransferAccounts userId fromAccountId rest (currencies.1, some currency)

def insertTransferRow (caller : Caller) (body : CreateTransferRequest) (amount : Cents)
    (occurredOn : NaiveDate) (description : Option String) : MovementRow :=
  { userId := caller.userId, accountId := body.fromAccountId
    transferAccountId := some body.toAccountId, categoryId := none, direction := .transfer
    amount := amount, occurredOn := occurredOn, description := description
    subscriptionId := none, createdAt := caller.now, updatedAt := caller.now }

def createTransferHandler (caller : Caller) (body : CreateTransferRequest) :
    Handler (Stored MovementRow) := do
  let amount ← ofExcept (validateMovementAmount caller.parsers body.amount)
  let occurredOn ← ofExcept (validateOccurredOn caller.parsers body.occurredOn)
  let description ← ofExcept (validateOpt validateDescription body.description)
  ensureOwnedAccount body.fromAccountId caller.userId
  ensureOwnedAccount body.toAccountId caller.userId
  failIf (body.fromAccountId = body.toAccountId)
    (.validation "las cuentas de la transferencia deben ser distintas")
  beginTx
  let currencies ← lockTransferAccounts caller.userId body.fromAccountId
    ([body.fromAccountId, body.toAccountId].insertionSort (· ≤ ·)) (none, none)
  let fromCurrency ← ofOption notOwnedAccount currencies.1
  let toCurrency ← ofOption notOwnedAccount currencies.2
  failIf (fromCurrency ≠ toCurrency) (.validation "las cuentas deben tener la misma moneda")
  let row := insertTransferRow caller body amount.cents occurredOn description
  let id ← insertMovement mapMovementDbErr row
  -- the origin's debit, then the destination's credit
  let _ ← execSql mapMovementDbErr
    (applyBalanceSql body.fromAccountId caller.userId (-amount.cents) caller.now)
  let _ ← execSql mapMovementDbErr
    (applyBalanceSql body.toAccountId caller.userId amount.cents caller.now)
  commitTx
  pure ⟨id, row⟩

def lockAccounts (userId : Uuid) : List Uuid → Handler Unit
  | [] => pure ()
  | accountId :: rest => do
      let _ ← fetchOr internal notOwnedAccount (lockAccountSql accountId userId)
      lockAccounts userId rest

def movementLockRetryAttempts : Nat :=
  5

structure MovementPatch where
  direction : Option Direction
  amount : Option Cents
  accountId : Option Uuid
  categoryId : Option Uuid
  occurredOn : Option NaiveDate
  description : Option String

/-- The row a PATCH stores in place of the locked one: omitted fields keep their
stored value. -/
def MovementPatch.merge (patch : MovementPatch) (accountId : Uuid) (now : Timestamp)
    (locked : MovementRow) : MovementRow :=
  { locked with
    accountId := accountId
    categoryId := patch.categoryId.or locked.categoryId
    direction := patch.direction.getD locked.direction
    amount := patch.amount.getD locked.amount
    occurredOn := patch.occurredOn.getD locked.occurredOn
    description := patch.description.or locked.description
    updatedAt := now }

/-- A movement may only be re-pointed to an account that is not archived and
uses the currency of the account it leaves. -/
def ensureRepointable (userId fromAccountId toAccountId : Uuid) : Handler Unit := do
  let archived? ← select (accountArchivedSql toAccountId userId)
  let archived ← ofOption .internal archived?
  failIf archived (.validation "no se puede mover un movimiento a una cuenta archivada")
  let fromCurrency? ← select (accountCurrencySql fromAccountId userId)
  let fromCurrency ← ofOption .internal fromCurrency?
  let toCurrency? ← select (accountCurrencySql toAccountId userId)
  let toCurrency ← ofOption .internal toCurrency?
  failIf (fromCurrency ≠ toCurrency)
    (.validation "la cuenta debe usar la misma moneda que la del movimiento")

/-- The part of a PATCH after its movement is locked on the expected account. -/
def applyPatch (caller : Caller) (id : Uuid) (patch : MovementPatch) (accountId : Uuid)
    (locked : MovementRow) : Handler (Stored MovementRow) := do
  whenever (accountId ≠ locked.accountId)
    (ensureRepointable caller.userId locked.accountId accountId)
  let new := patch.merge accountId caller.now locked
  ensureOwnedCategoryOpt patch.categoryId caller.userId
  -- undo the stored delta on the account that holds it, then apply the new one
  let _ ← execSql mapMovementDbErr (applyBalanceSql locked.accountId caller.userId
    (-signedDelta locked.direction locked.amount) caller.now)
  let _ ← execSql mapMovementDbErr (applyBalanceSql accountId caller.userId
    (signedDelta new.direction new.amount) caller.now)
  let row ← fetchOr mapMovementDbErr .internal
    (updateMovementSql id caller.userId new caller.now)
  recheckMovement mapMovementDbErr locked row
  commitTx
  pure ⟨id, row⟩

/-- The attempts of a PATCH: lock the accounts the snapshot names, then the
movement, and start again from a fresh snapshot when it has moved meanwhile. -/
def patchAttempts (caller : Caller) (id : Uuid) (patch : MovementPatch) :
    Nat → MovementRow → Handler (Stored MovementRow)
  | 0, _ => .throw .internal
  | n + 1, snapshot => do
      let accountId := patch.accountId.getD snapshot.accountId
      beginTx
      let toLock :=
        if accountId ≠ snapshot.accountId then [snapshot.accountId, accountId]
        else [snapshot.accountId]
      lockAccounts caller.userId (toLock.insertionSort (· ≤ ·))
      let locked ← fetchOr internal .notFound (lockMovementSql id caller.userId)
      ofExcept (rejectTransferPatch locked.direction)
      if locked.accountId ≠ snapshot.accountId then do
        rollbackTx
        let snapshot? ← select (getMovementSql id caller.userId)
        let snapshot ← ofOption .notFound snapshot?
        patchAttempts caller id patch n snapshot
      else applyPatch caller id patch accountId locked

def patchMovementHandler (caller : Caller) (id : Uuid) (body : PatchMovementRequest) :
    Handler (Stored MovementRow) := do
  let snapshot? ← select (getMovementSql id caller.userId)
  let snapshot ← ofOption .notFound snapshot?
  ofExcept (rejectTransferPatch snapshot.direction)
  let direction ← ofExcept (validateOpt validateDirection body.direction)
  let amount ← ofExcept (validateOpt (validateMovementAmount caller.parsers) body.amount)
  let occurredOn ← ofExcept (validateOpt (validateOccurredOn caller.parsers) body.occurredOn)
  let description ← ofExcept (validateOpt validateDescription body.description)
  ensureOwnedAccountOpt body.accountId caller.userId
  patchAttempts caller id
    { direction := direction, amount := amount.map Decimal.cents, accountId := body.accountId
      categoryId := body.categoryId, occurredOn := occurredOn, description := description }
    movementLockRetryAttempts snapshot

/-- The accounts a movement is booked on, in lock order. -/
def accountsOf (m : MovementRow) : List Uuid :=
  (m.accountId :: m.transferAccountId.toList).insertionSort (· ≤ ·)

def reverseMovement (caller : Caller) (deleted : MovementRow) : Handler Unit := do
  if deleted.direction = .transfer then
    let destination ← ofOption .internal deleted.transferAccountId
    let _ ← execSql mapMovementDbErr
      (applyBalanceSql deleted.accountId caller.userId deleted.amount caller.now)
    let _ ← execSql mapMovementDbErr
      (applyBalanceSql destination caller.userId (-deleted.amount) caller.now)
  else
    let _ ← execSql mapMovementDbErr (applyBalanceSql deleted.accountId caller.userId
      (-signedDelta deleted.direction deleted.amount) caller.now)

/-- The attempts of a DELETE, locked like those of a PATCH. -/
def deleteAttempts (caller : Caller) (id : Uuid) : Nat → MovementRow → Handler Unit
  | 0, _ => .throw .internal
  | n + 1, snapshot => do
      beginTx
      lockAccounts caller.userId (accountsOf snapshot)
      let deleted ← fetchOr internal .notFound (deleteMovementSql id caller.userId)
      if accountsOf deleted ≠ accountsOf snapshot then do
        rollbackTx
        let snapshot? ← select (getMovementSql id caller.userId)
        let snapshot ← ofOption .notFound snapshot?
        deleteAttempts caller id n snapshot
      else do
        reverseMovement caller deleted
        commitTx

def deleteMovementHandler (caller : Caller) (id : Uuid) : Handler Unit := do
  let snapshot? ← select (getMovementSql id caller.userId)
  let snapshot ← ofOption .notFound snapshot?
  deleteAttempts caller id movementLockRetryAttempts snapshot

/-- Whether the subscription counts as paid for the cycle that contains
`today`. -/
def isPaidThisCycle (lastPaidOn nextBillingOn : Option NaiveDate) (today : NaiveDate) : Bool :=
  lastPaidOn.isSome && nextBillingOn.any fun due => due > today

def seedName : String :=
  "Suscripciones"

def findCategory (userId : Uuid) (kind : CategoryKind) (name : String) (s : Db) :
    Option Uuid :=
  s.entries.findSome? fun
    | ⟨.category id, (c : CategoryRow)⟩ =>
        if c.userId = userId ∧ c.kind = kind ∧ c.name = name then some id else none
    | _ => none

def insertSeedCategory (userId : Uuid) : Handler Uuid := do
  let id ← freshId Key.category
  let _ ← execSql internal (insertRow (Key.category id) (fun _ => .ok ())
    ({ userId := userId, kind := .finance, name := seedName } : CategoryRow))
  pure id

/-- `INSERT … ON CONFLICT (user_id, kind, name) DO UPDATE SET name`: wait for the
index entry, rewrite the row it leads to, or insert one. -/
def seedCategorySql (userId : Uuid) : Handler Uuid := do
  let existing ← execSql internal (lockSlot (Key.categoryName userId .finance seedName)
    (findCategory userId .finance seedName))
  match existing.join with
  | none => insertSeedCategory userId
  | some id => do
      let row ← execSql internal (updateRow .update exclusive_update (Key.category id)
        (fun _ => true) fun _ (c : CategoryRow) => .ok { c with name := seedName })
      if row.isSome then pure id else insertSeedCategory userId

def payLockSubSql (id userId : Uuid) : Sql (Option SubscriptionRow) :=
  selectFor .update (Key.subscription id) (ownSubscription userId) fun s : SubscriptionRow => s

def payUpdateSubSql (id userId : Uuid) (today next : NaiveDate) (now : Timestamp) :
    Sql (Option SubscriptionRow) :=
  updateRow .noKeyUpdate exclusive_noKeyUpdate (Key.subscription id) (ownSubscription userId)
    fun _ (s : SubscriptionRow) =>
      .ok { s with lastPaidOn := some today, nextBillingOn := some next, updatedAt := now }

def payInsertMovementRow (caller : Caller) (today : NaiveDate) (id accountId categoryId : Uuid)
    (price : Cents) : MovementRow :=
  { userId := caller.userId, accountId := accountId, transferAccountId := none
    categoryId := some categoryId, direction := .expense, amount := price
    occurredOn := today, description := none, subscriptionId := some id
    createdAt := caller.now, updatedAt := caller.now }

def paySubscriptionHandler (caller : Caller) (today : NaiveDate) (id accountId : Uuid) :
    Handler (Stored SubscriptionRow) := do
  beginTx
  let accountCurrency ← fetchOr internal .notFound (payLockAccountSql accountId caller.userId)
  let sub ← fetchOr internal .notFound (payLockSubSql id caller.userId)
  failIf (accountCurrency ≠ sub.currency)
    (.validation "la cuenta y la suscripción deben tener la misma moneda")
  failIf (!sub.isActive) (.validation "la suscripción está cancelada y no se puede pagar")
  failIf (sub.price = 0) (.validation "las suscripciones gratuitas no se pueden pagar")
  failIf (maxMoneyAmount * 100 ≤ sub.price) (.validation
    "el precio de la suscripcion supera el maximo permitido; editalo antes de pagar")
  failIf (isPaidThisCycle sub.lastPaidOn sub.nextBillingOn today)
    (.conflict "la suscripción ya está pagada en este ciclo")
  let categoryId ← seedCategorySql caller.userId
  let next := advanceNextBilling sub.nextBillingOn today
  let _ ← insertMovement mapSubDbErr
    (payInsertMovementRow caller today id accountId categoryId sub.price)
  let _ ← execSql mapSubDbErr
    (applyBalanceSql accountId caller.userId (-sub.price) caller.now)
  let row ← fetchOr internal .internal (payUpdateSubSql id caller.userId today next caller.now)
  commitTx
  pure ⟨id, row⟩

/-- A metadata field of at most `max` bytes without null bytes. -/
def validateMetadataLength (max : Nat) (msg : String) :
    Option String → Except AppError Unit
  | some text =>
      if max < byteLen text || containsNul text then .error (.validation msg) else .ok ()
  | none => .ok ()

def validateMetadataLengths (notes color icon : Option String) : Except AppError Unit := do
  validateMetadataLength 2000 "notes must be at most 2000 characters" notes
  validateMetadataLength 32 "color must be at most 32 characters" color
  validateMetadataLength 64 "icon must be at most 64 characters" icon

def validateAccountPatch (parsers : Parsers) (body : PatchAccountRequest) :
    Except AppError Unit := do
  let _ ← validateOpt (parseBalanceAmount parsers) body.balance
  validateMetadataLengths body.notes body.color body.icon

def patchAccountRow (body : PatchAccountRequest) (balance : Option Cents) (now : Timestamp)
    (a : AccountRow) : AccountRow :=
  { a with
    updatedAt := now
    balance := balance.getD a.balance
    notes := body.notes.or a.notes
    color := body.color.or a.color
    icon := body.icon.or a.icon
    isArchived := body.isArchived.getD a.isArchived }

def patchAccountHandler (caller : Caller) (id : Uuid) (body : PatchAccountRequest) :
    Handler (Stored AccountRow) := do
  ofExcept (validateAccountPatch caller.parsers body)
  failIf (body.balance.isNone && body.notes.isNone && body.color.isNone && body.icon.isNone &&
    body.isArchived.isNone) (.validation "no updatable fields provided")
  let balance ← ofExcept (validateOpt (parseBalanceAmount caller.parsers) body.balance)
  beginTx
  let row ← fetchOr internal .notFound
    (updateRow .noKeyUpdate exclusive_noKeyUpdate (Key.account id) (ownAccount caller.userId)
      fun _ (a : AccountRow) =>
        .ok (patchAccountRow body (balance.map Decimal.cents) caller.now a))
  commitTx
  pure ⟨id, row⟩

def refersToAccount (a : Uuid) (m : MovementRow) : Bool :=
  m.accountId = a || m.transferAccountId = some a

def movementsWhere (p : MovementRow → Bool) (s : Db) : List Key :=
  keysWhere (fun
    | .movement _, (m : MovementRow) => p m
    | _, _ => false) s

def accountMovementCountSql (id userId : Uuid) (s : Db) : Nat :=
  (movementsWhere (fun m => refersToAccount id m && ownMovement userId m) s).length

def accountRef : (k : Key) → Row k → Option Uuid
  | .asset _, (a : AssetRow) => a.accountId
  | _, _ => none

def clearAccount (now : Timestamp) : (k : Key) → Row k → Row k
  | .asset _, (a : AssetRow) => { a with accountId := none, updatedAt := now }
  | _, r => r

def categoryRef : (k : Key) → Row k → Option Uuid
  | .movement _, (m : MovementRow) => m.categoryId
  | .subscription _, (s : SubscriptionRow) => s.categoryId
  | .habit _, (h : HabitRow) => h.categoryId
  | .goal _, (g : GoalRow) => g.categoryId
  | .task _, (t : TaskRow) => t.categoryId
  | .event _, (e : EventRow) => e.categoryId
  | _, _ => none

def clearCategory (now : Timestamp) : (k : Key) → Row k → Row k
  | .movement _, (m : MovementRow) => { m with categoryId := none }
  | .subscription _, (s : SubscriptionRow) => { s with categoryId := none, updatedAt := now }
  | .habit _, (h : HabitRow) => { h with categoryId := none, updatedAt := now }
  | .goal _, (g : GoalRow) => { g with categoryId := none, updatedAt := now }
  | .task _, (t : TaskRow) => { t with categoryId := none, updatedAt := now }
  | .event _, (e : EventRow) => { e with categoryId := none, updatedAt := now }
  | _, r => r

def subscriptionRef : (k : Key) → Row k → Option Uuid
  | .movement _, (m : MovementRow) => m.subscriptionId
  | .event _, (e : EventRow) => e.subscriptionId
  | _, _ => none

def clearSubscription (now : Timestamp) : (k : Key) → Row k → Row k
  | .movement _, (m : MovementRow) => { m with subscriptionId := none }
  | .event _, (e : EventRow) => { e with subscriptionId := none, updatedAt := now }
  | _, r => r

/-- Delete an account. Its assets forget it; a movement that still refers to it
refuses the deletion. -/
def deleteAccountHandler (caller : Caller) (id : Uuid) : Handler Unit := do
  let owned ← select fun s : Db => (s.account id).any (ownAccount caller.userId)
  failIf (!owned) .notFound
  let count ← select (accountMovementCountSql id caller.userId)
  failIf (0 < count) (.conflict "la cuenta tiene movimientos y no se puede eliminar")
  beginTx
  let _ ← fetchOr mapAccountDeleteErr .notFound
    (deleteRow (Key.account id) (ownAccount caller.userId))
  updateWhere mapAccountDeleteErr (fun k r => accountRef k r = some id)
    (clearAccount caller.now)
  let referring ← select (movementsWhere (refersToAccount id))
  failIf (!referring.isEmpty) (mapAccountDeleteErr .foreignKeyViolation)
  commitTx

def deleteCategoryHandler (caller : Caller) (id : Uuid) : Handler Unit := do
  beginTx
  let _ ← fetchOr internal .notFound
    (deleteRow (Key.category id) fun c : CategoryRow => c.userId = caller.userId)
  updateWhere internal (fun k r => categoryRef k r = some id)
    (clearCategory caller.now)
  commitTx

def deleteSubscriptionHandler (caller : Caller) (id : Uuid) : Handler Unit := do
  beginTx
  let _ ← fetchOr internal .notFound
    (deleteRow (Key.subscription id) (ownSubscription caller.userId))
  updateWhere internal (fun k r => subscriptionRef k r = some id)
    (clearSubscription caller.now)
  commitTx

end PersonalDashboard.LedgerHandlers
