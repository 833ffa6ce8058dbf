import PersonalDashboard.CalendarReads
import PersonalDashboard.ExistenceProbes
import PersonalDashboard.TaskViews

/-! Which requests answer alike whatever rows other users have. -/

set_option autoImplicit false

namespace PersonalDashboard.ExistenceOracles

open PersonalDashboard.AssetHandlers
open PersonalDashboard.Calendar
open PersonalDashboard.CalendarReads
open PersonalDashboard.EventHandlers
open PersonalDashboard.ExistenceProbes
open PersonalDashboard.HabitLogHandlers
open PersonalDashboard.LedgerHandlers
open PersonalDashboard.OwnedRows
open PersonalDashboard.RowStore
open PersonalDashboard.Schema
open PersonalDashboard.SoloRuns
open PersonalDashboard.TaskHandlers
open PersonalDashboard.TaskViews
open PersonalDashboard.TwinRuns
open PersonalDashboard.TwinRuns.Frame
open PersonalDashboard.Validation

structure HabitLogResponse where
  id : Uuid
  habitId : Uuid
  logDate : NaiveDate
  status : String
  countValue : Option Cents
  notes : Option String
  createdAt : Timestamp
  updatedAt : Timestamp

/-- `status::text`. -/
def logStatusText : HabitLogStatus → String
  | .done => "done"
  | .skipped => "skipped"
  | .notDone => "not_done"
  | .missed => "missed"

def HabitLogResponse.ofRow (l : Stored HabitLogRow) : HabitLogResponse where
  id := l.id
  habitId := l.row.habitId
  logDate := l.row.logDate
  status := logStatusText l.row.status
  countValue := l.row.countValue
  notes := l.row.notes
  createdAt := l.row.createdAt
  updatedAt := l.row.updatedAt

structure AssetResponse where
  id : Uuid
  name : String
  category : String
  accountId : Option Uuid
  currentValue : Cents
  currency : String
  acquiredOn : Option NaiveDate
  notes : Option String
  isArchived : Bool
  createdAt : Timestamp
  updatedAt : Timestamp

/-- `category::text`. -/
def assetCategoryText : AssetCategory → String
  | .cash => "cash"
  | .account => "account"
  | .investment => "investment"
  | .equipment => "equipment"
  | .vehicle => "vehicle"
  | .property => "property"
  | .other => "other"

def AssetResponse.ofRow (a : Stored AssetRow) : AssetResponse where
  id := a.id
  name := a.row.name
  category := assetCategoryText a.row.category
  accountId := a.row.accountId
  currentValue := a.row.currentValue
  currency := a.row.currency
  acquiredOn := a.row.acquiredOn
  notes := a.row.notes
  isArchived := a.row.isArchived
  createdAt := a.row.createdAt
  updatedAt := a.row.updatedAt

structure ValuationResponse where
  id : Uuid
  assetId : Uuid
  value : Cents
  recordedOn : NaiveDate
  notes : Option String
  createdAt : Timestamp

def ValuationResponse.ofRow (v : Stored ValuationRow) : ValuationResponse where
  id := v.id
  assetId := v.row.assetId
  value := v.row.value
  recordedOn := v.row.recordedOn
  notes := v.row.notes
  createdAt := v.row.createdAt

/-- The requests of the five kinds; goals, habits, subscriptions, categories and
accounts are only linked to. -/
inductive Request where
  | log (r : LogRequest)
  | task (r : TaskRequest)
  | asset (r : AssetRequest)
  | event (r : EventRequest)

inductive Body where
  | log (l : HabitLogResponse)
  | task (t : TaskResponse)
  | asset (a : AssetResponse)
  | valuation (v : ValuationResponse)
  | event (e : EventResponse)
  | error (code message : String)
  | empty

def Body.ofAsset : AssetAnswer → Body
  | .asset a => .asset (.ofRow a)
  | .valuation v => .valuation (.ofRow v)
  | .noContent => .empty

def Body.ofOption {α : Type} (f : α → Body) (x : Option α) : Body :=
  x.elim .empty f

structure Response where
  status : Nat
  body : Body

def Request.okStatus : Request → Nat
  | .log (.create ..) | .task (.create ..) | .asset (.create ..) | .asset (.value ..)
  | .event (.create ..) => 201
  | .log (.patch ..) | .task (.patch ..) | .asset (.patch ..) | .event (.patch ..) => 200
  | .log (.delete ..) | .task (.delete ..) | .asset (.archive ..) | .event (.delete ..) => 204

def respond (okStatus : Nat) : Except AppError Body → Response
  | .ok body => ⟨okStatus, body⟩
  | .error e => ⟨e.statusAndCode.1, .error e.statusAndCode.2 e.message⟩

/-- The server: its own clock's day, and the upper-casing of its library. -/
structure Server where
  toUppercase : String → String
  today : NaiveDate

def serve (server : Server) (caller : Caller) : Request → Handler Body
  | .log r => Body.ofOption (.log ∘ .ofRow) <$> serveLog caller server.today r
  | .task r => Body.ofOption (.task ∘ .ofRow) <$> serveTask caller r
  | .asset r => .ofAsset <$> serveAsset server.toUppercase caller r
  | .event r => Body.ofOption (.event ∘ .ofRow) <$> serveEvent caller r

/-- What a request is answered, and the database it leaves behind, when the
identifiers of new rows are drawn from a list. -/
def answer (server : Server) (caller : Caller) (req : Request) (ids : Nat → Uuid) (s : Db) :
    Response × Db :=
  let (x, s') := outcome (serve server caller req) { db := s, ids := ids }
  (respond req.okStatus x, s')

def OthersKept (userId : Uuid) (s s' : Db) : Prop :=
  ∀ k r, ownerOf k r ≠ some userId → (s.lookup k = some r ↔ s'.lookup k = some r)

/-- The caller sees no difference between two databases, and no row of another
user changes. -/
def Alike (server : Server) (caller : Caller) (req : Request) (ids : Nat → Uuid) (s s' : Db) :
    Prop :=
  (answer server caller req ids s).1 = (answer server caller req ids s').1 ∧
    OthersKept caller.userId s (answer server caller req ids s).2 ∧
      OthersKept caller.userId s' (answer server caller req ids s').2

/-- The row of which a request asks whether it is there at all: the first one that
it names and that is not the caller's, once everything before has been accepted. -/
def probed (server : Server) (caller : Caller) : Request → Db → Option Key
  | .log r => logProbe caller server.today r
  | .task r => taskProbe caller r
  | .asset r => assetProbe caller r
  | .event r => eventProbe caller r

theorem discloses_serve {W : Frame Row} (server : Server) {caller : Caller}
    (hW : Divided W caller.userId) (req : Request) :
    W.Discloses status (serve server caller req) (probed server caller req) := by
  cases req with
  | log r =>
      rw [serve]
      exact (discloses_serveLog hW r).map _
  | task r =>
      rw [serve]
      exact (discloses_serveTask hW r).map _
  | asset r =>
      rw [serve]
      exact (discloses_serveAsset hW r).map _
  | event r =>
      rw [serve]
      exact (discloses_serveEvent hW r).map _

theorem othersKept_of_kept {userId : Uuid} {ids : Nat → Uuid} {s start : OwnedDb} (s' : OwnedDb)
    {t : Db} (h : AgreeFor userId s.store start.store) (hids : Unused ids start.store)
    (hkept : (frame userId ids s.store s'.store).Kept start.store t) :
    OthersKept userId start.store t := by
  intro k r hr
  by_cases hk : Shared userId ids s.store k
  · constructor
    · intro hstart
      rcases hk with hk | ⟨n, hn⟩
      · obtain ⟨r', hr', howner⟩ := ownerAt_eq_some.mp ((h.ownerAt_iff k).mp hk)
        obtain rfl := Option.some.inj (hstart.symm.trans hr')
        exact absurd howner hr
      · rw [hids n k hn] at hstart
        cases hstart
    · intro hend
      exact absurd (hkept.lawful k r hk hend).1 hr
  · rw [hkept.hidden k hk]

/-- Two databases in which the caller owns the same rows are told apart exactly by a
request that asks whether a row is there that only one of them has. -/
theorem alike_iff (server : Server) (caller : Caller) (req : Request) {ids : Nat → Uuid}
    {s s' : OwnedDb} (h : AgreeFor caller.userId s.store s'.store) (hids : Unused ids s.store)
    (hids' : Unused ids s'.store) :
    Alike server caller req ids s.store s'.store ↔
      ∀ k ∈ probed server caller req s.store,
        (s.store.lookup k).isSome = (s'.store.lookup k).isSome := by
  have htwin := twin_frame h hids hids'
  have hsessions : (frame caller.userId ids s.store s'.store).Sessions
      { db := s.store, ids := ids } { db := s'.store, ids := ids } :=
    ⟨htwin, .none, rfl, fun n => ⟨n, rfl⟩⟩
  obtain ⟨htold, hleft, hright⟩ :=
    discloses_serve server (divided_frame h hids hids') req _ _ hsessions
  have hothers := othersKept_of_kept s' (fun _ _ _ => Iff.rfl) hids hleft
  have hothers' := othersKept_of_kept s' h hids' hright
  constructor
  · rintro ⟨hsame, -⟩
    by_contra hnot
    obtain ⟨e, e', he, he', hne⟩ := htold.differ hnot
    simp only [answer, outcome, he, he', respond, Response.mk.injEq] at hsame
    exact hne hsame.1
  · intro hprobe
    refine ⟨?_, hothers, hothers'⟩
    simp only [answer, outcome, htold.eq hprobe]

def firstOfMarch : NaiveDate :=
  NaiveDate.firstOfMonth 2026 3 (by decide) (by decide)

def oneDate : Parsers where
  decimal _ := none
  naiveDate raw := if raw = "2026-03-01" then some firstOfMarch else none
  dateTime _ := none

def server : Server :=
  ⟨id, firstOfMarch⟩

def ana : Caller :=
  ⟨oneDate, 1, 0⟩

def newIds (n : Nat) : Uuid :=
  100 + n

def habitOfOther : HabitRow :=
  { userId := 2, name := "Leer", description := none, direction := .build, frequency := .daily
    daysOfWeek := [], targetPerPeriod := none, startDate := firstOfMarch, endDate := none
    categoryId := none, color := none, icon := none, isArchived := false, createdAt := 0
    updatedAt := 0, category := none, shortLabel := none }

def emptyDb : OwnedDb where
  store := ∅
  sameOwner k r hr := by
    rw [AList.lookup_empty] at hr
    cases hr

def otherDb : OwnedDb where
  store := put ∅ (Key.habit 7) (some habitOfOther)
  sameOwner k r hr := by
    by_cases hk : k = Key.habit 7
    · subst hk
      exact fun k' hk' => (nomatch hk')
    · rw [lookup_put_of_ne hk, AList.lookup_empty] at hr
      cases hr

theorem unused_emptyDb : Unused newIds emptyDb.store :=
  fun _ k _ => AList.lookup_empty k

theorem unused_otherDb : Unused newIds otherDb.store := by
  intro n k hk
  have hne : k ≠ Key.habit 7 := by
    rintro rfl
    have h7 : (7 : Nat) = 100 + n := Option.some.inj hk
    omega
  exact (lookup_put_of_ne hne _).trans (AList.lookup_empty k)

theorem agreeFor_otherDb : AgreeFor 1 emptyDb.store otherDb.store := by
  intro k r hr
  by_cases hk : k = Key.habit 7
  · subst hk
    constructor
    · intro h
      cases h
    · intro h
      rw [otherDb, lookup_put_self] at h
      obtain rfl := Option.some.inj h
      exact absurd hr (by decide)
  · rw [otherDb, lookup_put_of_ne hk]
    rfl

def deleteOtherLog : Request :=
  .log (.delete 7 "2026-03-01")

/-- The theorem for a request that names the habit of the other user. -/
theorem alike_iff_deleteOtherLog :
    Alike server ana deleteOtherLog newIds emptyDb.store otherDb.store ↔
      ∀ k ∈ probed server ana deleteOtherLog emptyDb.store,
        (emptyDb.store.lookup k).isSome = (otherDb.store.lookup k).isSome :=
  alike_iff server ana deleteOtherLog agreeFor_otherDb unused_emptyDb unused_otherDb

set_option maxRecDepth 8000 in
/-- Such a request tells whether the other user has the habit: it is invalid (422)
without it, and not found (404) with it. -/
theorem not_alike :
    ¬ ∀ (server : Server) (caller : Caller) (req : Request) (ids : Nat → Uuid) (s s' : OwnedDb),
      AgreeFor caller.userId s.store s'.store → Unused ids s.store → Unused ids s'.store →
        Alike server caller req ids s.store s'.store := by
  intro h
  have hsame := (h server ana deleteOtherLog newIds emptyDb otherDb agreeFor_otherDb
    unused_emptyDb unused_otherDb).1
  have hmissing : (answer server ana deleteOtherLog newIds emptyDb.store).1.status = 422 := by
    decide
  have hforeign : (answer server ana deleteOtherLog newIds otherDb.store).1.status = 404 := by
    decide
  rw [hsame, hforeign] at hmissing
  cases hmissing

end PersonalDashboard.ExistenceOracles
