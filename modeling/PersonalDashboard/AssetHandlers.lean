import PersonalDashboard.TaskHandlers

/-! The handlers of assets and their valuations, and the trigger that keeps the
current value of an asset. -/

set_option autoImplicit false

namespace PersonalDashboard.AssetHandlers

open PersonalDashboard.Calendar
open PersonalDashboard.LedgerHandlers
open PersonalDashboard.ReadCommitted
open PersonalDashboard.RowStatements
open PersonalDashboard.RowStore
open PersonalDashboard.Schema
open PersonalDashboard.TaskHandlers
open PersonalDashboard.Validation

structure CreateAssetRequest where
  name : String
  category : String
  accountId : Option Uuid
  currency : Option String
  acquiredOn : Option String
  notes : Option String

structure PatchAssetRequest where
  name : Option String
  category : Option String
  accountId : Option Uuid
  currency : Option String
  acquiredOn : Option String
  notes : Option String

structure CreateValuationRequest where
  value : String
  recordedOn : String
  notes : Option String

def maxNameLen : Nat :=
  200

def validateValue (parsers : Parsers) (raw : String) : Except AppError Decimal :=
  match parseMoneyAmountNonneg parsers raw with
  | .error e => .error e
  | .ok value =>
      if value.geNat 10_000_000_000_000_000 then
        .error (.validation "value exceeds the maximum storable amount")
      else .ok value

def validateCategory (raw : String) : Except AppError AssetCategory :=
  match trim raw with
  | "cash" => .ok .cash
  | "account" => .ok .account
  | "investment" => .ok .investment
  | "equipment" => .ok .equipment
  | "vehicle" => .ok .vehicle
  | "property" => .ok .property
  | "other" => .ok .other
  | _ => .error (.validation
      "category must be one of: cash, account, investment, equipment, vehicle, property, other")

def validateOptionalDate (parsers : Parsers) (raw : Option String) (field : String) :
    Except AppError (Option NaiveDate) :=
  validateOpt (validateCalendarDate parsers · field) raw

def validateAssetPatch (body : PatchAssetRequest) : Except AppError Unit :=
  if body.name.isNone && body.category.isNone && body.accountId.isNone &&
      body.currency.isNone && body.acquiredOn.isNone && body.notes.isNone then
    .error (.validation "no updatable fields provided")
  else .ok ()

def mapAssetDbErr : SqlState → AppError
  | .foreignKeyViolation | .checkViolation | .invalidText => .validation "invalid asset data"
  | _ => .internal

def mapValuationDbErr : SqlState → AppError
  | .uniqueViolation => .conflict "valuation already recorded for this date"
  | .foreignKeyViolation | .checkViolation => .validation "invalid asset valuation"
  | _ => .internal

/-- `user_id=$2 AND NOT is_archived`. -/
def ownAsset (userId : Uuid) (a : AssetRow) : Bool :=
  a.userId = userId && !a.isArchived

def assetExistsSql (id : Uuid) (s : Db) : Bool :=
  (s.asset id).isSome

def assetOwnershipSql (id userId : Uuid) (s : Db) : Bool :=
  (s.asset id).any (ownAsset userId)

def lockAssetSql (id userId : Uuid) : Sql (Option Unit) :=
  selectFor .update (Key.asset id) (ownAsset userId) fun _ => ()

def assetCurrencySql (id userId : Uuid) (s : Db) : Option String :=
  ((s.asset id).filter fun a => a.userId = userId).map AssetRow.currency

def valuationsOf (assetId : Uuid) (s : Db) : List ValuationRow :=
  s.entries.filterMap fun
    | ⟨.valuation _, (v : ValuationRow)⟩ => if v.assetId = assetId then some v else none
    | _ => none

/-- `SELECT max(recorded_on) FROM asset_valuations WHERE asset_id=$1`. -/
def maxValuationSql (assetId : Uuid) (s : Db) : Option NaiveDate :=
  ((valuationsOf assetId s).map ValuationRow.recordedOn).max?

def assetValuationsExistSql (assetId : Uuid) (s : Db) : Bool :=
  !(valuationsOf assetId s).isEmpty

def ensureAccountOwned (accountId userId : Uuid) : Handler Unit := do
  let owned ← select fun s : Db => (s.account accountId).any (ownAccount userId)
  failIf (!owned) (.validation "account must be an owned account")

def ensureAccountOwnedOpt (accountId : Option Uuid) (userId : Uuid) : Handler Unit :=
  match accountId with
  | some accountId => ensureAccountOwned accountId userId
  | none => pure ()

/-- End with the error of an asset that the caller cannot write: it is hidden if
it is there, and invalid if it is not. -/
def assetNotWritable (assetId : Uuid) : Handler Unit := do
  let there ← select (assetExistsSql assetId)
  failIf there .notFound
  failIf (!there) (.validation "asset does not exist")

def ensureAssetWritable (assetId userId : Uuid) : Handler Unit := do
  let owned ← select (assetOwnershipSql assetId userId)
  whenever (owned = false) (assetNotWritable assetId)

def lockAsset (assetId userId : Uuid) : Handler Unit := do
  let locked ← execSql internal (lockAssetSql assetId userId)
  whenever (locked = none) (assetNotWritable assetId)

def guardCurrency (id userId : Uuid) : Option String → Handler Unit
  | none => pure ()
  | some currency => do
      let stored? ← select (assetCurrencySql id userId)
      let stored ← ofOption .internal stored?
      whenever (currency ≠ stored) do
        let hasValuations ← select (assetValuationsExistSql id)
        failIf hasValuations (.validation
          "no se puede cambiar la moneda de un activo con valuaciones registradas")

def guardOrder (assetId : Uuid) (recordedOn : NaiveDate) : Handler Unit := do
  let latest ← select (maxValuationSql assetId)
  failIf (latest.any fun d => recordedOn ≤ d)
    (.validation "valuation is older than the latest recorded valuation")

def valuationChecks (v : ValuationRow) : Except SqlState Unit :=
  if 0 ≤ v.value then (numeric v.value).map fun _ => () else .error .checkViolation

/-- `sync_asset_current_value`; the update also fires `set_updated_at`. -/
def syncAssetCurrentValue (now : Timestamp) (v : ValuationRow) : Sql (Option AssetRow) :=
  updateRow .noKeyUpdate exclusive_noKeyUpdate (Key.asset v.assetId) (fun _ => true)
    fun _ (a : AssetRow) => .ok { a with currentValue := v.value, updatedAt := now }

def valuedOn (assetId : Uuid) (recordedOn : NaiveDate) (s : Db) : Bool :=
  (valuationsOf assetId s).any fun v => v.recordedOn = recordedOn

def insertValuation (now : Timestamp) (row : ValuationRow) : Handler Uuid := do
  let taken ← execSql mapValuationDbErr
    (lockSlot (Key.valuationSlot row.assetId row.recordedOn) (valuedOn row.assetId row.recordedOn))
  failIf (taken = some true) (mapValuationDbErr .uniqueViolation)
  let id ← freshId Key.valuation
  let _ ← execSql mapValuationDbErr
    (insertRow (Key.valuation id) (fun _ => valuationChecks row) row)
  foreignKey mapValuationDbErr .foreignKeyViolation (Key.asset row.assetId)
  let _ ← execSql mapValuationDbErr (syncAssetCurrentValue now row)
  pure id

structure AssetPatch where
  name : Option String
  category : Option AssetCategory
  accountId : Option Uuid
  currency : Option String
  acquiredOn : Option NaiveDate
  notes : Option String

def AssetPatch.apply (patch : AssetPatch) (now : Timestamp) (old : AssetRow) : AssetRow :=
  { old with
    name := patch.name.getD old.name
    category := patch.category.getD old.category
    accountId := patch.accountId.or old.accountId
    currency := patch.currency.getD old.currency
    acquiredOn := patch.acquiredOn.or old.acquiredOn
    notes := patch.notes.or old.notes
    updatedAt := now }

def patchAssetSql (id userId : Uuid) (new : AssetRow) : Sql (Option AssetRow) :=
  updateRow .noKeyUpdate exclusive_noKeyUpdate (Key.asset id) (ownAsset userId) fun _ _ => .ok new

def patchAsset (id userId : Uuid) (patch : AssetPatch) (now : Timestamp) : Handler AssetRow := do
  let old ← fetchOr mapAssetDbErr .notFound
    (selectFor .noKeyUpdate (Key.asset id) (ownAsset userId) fun a : AssetRow => a)
  let new := patch.apply now old
  let _ ← execSql mapAssetDbErr (patchAssetSql id userId new)
  whenever (old.accountId ≠ new.accountId)
    (foreignKeyOpt mapAssetDbErr .foreignKeyViolation Key.account new.accountId)
  pure new

def archiveAssetSql (id userId : Uuid) (now : Timestamp) : Sql (Option AssetRow) :=
  updateRow .noKeyUpdate exclusive_noKeyUpdate (Key.asset id) (ownAsset userId)
    fun _ (a : AssetRow) => .ok { a with isArchived := true, updatedAt := now }

def newAssetRow (caller : Caller) (body : CreateAssetRequest) (name : String)
    (category : AssetCategory) (currency : String) (acquiredOn : Option NaiveDate) : AssetRow :=
  { userId := caller.userId, name := name, category := category, accountId := body.accountId
    currentValue := 0, currency := currency, acquiredOn := acquiredOn, notes := body.notes
    isArchived := false, createdAt := caller.now, updatedAt := caller.now }

def createAssetHandler (toUppercase : String → String) (caller : Caller)
    (body : CreateAssetRequest) : Handler (Stored AssetRow) := do
  let name ← ofExcept (validateRequiredText body.name maxNameLen "name")
  let category ← ofExcept (validateCategory body.category)
  ensureAccountOwnedOpt body.accountId caller.userId
  let currency ← ofExcept (validateCurrency toUppercase body.currency)
  let acquiredOn ← ofExcept (validateOptionalDate caller.parsers body.acquiredOn "acquired_on")
  ofExcept (validateOptionalText body.notes maxTextLen "notes")
  beginTx
  let id ← freshId Key.asset
  let row := newAssetRow caller body name category currency acquiredOn
  let _ ← execSql mapAssetDbErr (insertRow (Key.asset id) (fun _ => .ok ()) row)
  foreignKeyOpt mapAssetDbErr .foreignKeyViolation Key.account row.accountId
  commitTx
  pure ⟨id, row⟩

def deleteAssetHandler (caller : Caller) (id : Uuid) : Handler Unit := do
  beginTx
  let _ ← fetchOr internal .notFound (archiveAssetSql id caller.userId caller.now)
  commitTx

def patchAssetHandler (toUppercase : String → String) (caller : Caller) (id : Uuid)
    (body : PatchAssetRequest) : Handler (Stored AssetRow) := do
  ofExcept (validateAssetPatch body)
  ensureAssetWritable id caller.userId
  beginTx
  lockAsset id caller.userId
  let name ← ofExcept (validateOpt (validateRequiredText · maxNameLen "name") body.name)
  let category ← ofExcept (validateOpt validateCategory body.category)
  ensureAccountOwnedOpt body.accountId caller.userId
  let currency ← ofExcept
    (validateOpt (fun raw => validateCurrency toUppercase (some raw)) body.currency)
  guardCurrency id caller.userId currency
  let acquiredOn ← ofExcept
    (validateOpt (validateCalendarDate caller.parsers · "acquired_on") body.acquiredOn)
  ofExcept (validateOptionalText body.notes maxTextLen "notes")
  let row ← patchAsset id caller.userId
    { name := name, category := category, accountId := body.accountId, currency := currency
      acquiredOn := acquiredOn, notes := body.notes } caller.now
  commitTx
  pure ⟨id, row⟩

def createValuationHandler (caller : Caller) (assetId : Uuid) (body : CreateValuationRequest) :
    Handler (Stored ValuationRow) := do
  let value ← ofExcept (validateValue caller.parsers body.value)
  let recordedOn ← ofExcept (validateCalendarDate caller.parsers body.recordedOn "recorded_on")
  ofExcept (validateOptionalText body.notes maxTextLen "notes")
  beginTx
  lockAsset assetId caller.userId
  guardOrder assetId recordedOn
  let row : ValuationRow :=
    { userId := caller.userId, assetId := assetId, value := value.cents, recordedOn := recordedOn
      notes := body.notes, createdAt := caller.now }
  let id ← insertValuation caller.now row
  commitTx
  pure ⟨id, row⟩

inductive AssetRequest where
  | create (body : CreateAssetRequest)
  | patch (id : Uuid) (body : PatchAssetRequest)
  | archive (id : Uuid)
  | value (assetId : Uuid) (body : CreateValuationRequest)

inductive AssetAnswer where
  | asset (a : Stored AssetRow)
  | valuation (v : Stored ValuationRow)
  | noContent

def serveAsset (toUppercase : String → String) (caller : Caller) :
    AssetRequest → Handler AssetAnswer
  | .create body => .asset <$> createAssetHandler toUppercase caller body
  | .patch id body => .asset <$> patchAssetHandler toUppercase caller id body
  | .archive id => (fun _ => .noContent) <$> deleteAssetHandler caller id
  | .value assetId body => .valuation <$> createValuationHandler caller assetId body

end PersonalDashboard.AssetHandlers
