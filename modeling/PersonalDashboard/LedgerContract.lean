import PersonalDashboard.Bookkeeping

/-! The requests of the ledger, what the commit of each may do, and the contract
their transactions keep to. -/

set_option autoImplicit false

namespace PersonalDashboard.LedgerContract

open PersonalDashboard.BillingDates
open PersonalDashboard.Bookkeeping
open PersonalDashboard.Calendar
open PersonalDashboard.LedgerHandlers
open PersonalDashboard.ReadCommitted
open PersonalDashboard.RowStatements
open PersonalDashboard.RowStore
open PersonalDashboard.Schema
open PersonalDashboard.TransactionLogic
open PersonalDashboard.TransactionLogic.Contract

inductive LedgerRequest where
  | createMovement (body : CreateMovementRequest)
  | createTransfer (body : CreateTransferRequest)
  | patchMovement (id : Uuid) (body : PatchMovementRequest)
  | deleteMovement (id : Uuid)
  | paySubscription (today : NaiveDate) (id accountId : Uuid)
  | patchAccount (id : Uuid) (body : PatchAccountRequest)
  | deleteAccount (id : Uuid)
  | deleteCategory (id : Uuid)
  | deleteSubscription (id : Uuid)

inductive LedgerAnswer where
  | movement (m : Stored MovementRow)
  | subscription (s : Stored SubscriptionRow)
  | account (a : Stored AccountRow)
  | noContent

def serve (caller : Caller) : LedgerRequest → Handler LedgerAnswer
  | .createMovement body => .movement <$> createMovementHandler caller body
  | .createTransfer body => .movement <$> createTransferHandler caller body
  | .patchMovement id body => .movement <$> patchMovementHandler caller id body
  | .deleteMovement id => (fun _ => .noContent) <$> deleteMovementHandler caller id
  | .paySubscription today id accountId =>
      .subscription <$> paySubscriptionHandler caller today id accountId
  | .patchAccount id body => .account <$> patchAccountHandler caller id body
  | .deleteAccount id => (fun _ => .noContent) <$> deleteAccountHandler caller id
  | .deleteCategory id => (fun _ => .noContent) <$> deleteCategoryHandler caller id
  | .deleteSubscription id => (fun _ => .noContent) <$> deleteSubscriptionHandler caller id

def isPaid (id : Uuid) : Key → Bool
  | .account _ | .movement _ | .category _ => true
  | .subscription id' => id' = id
  | _ => false

structure Booking (p : Key → Bool) (s s' : Db) (id : Uuid) (old new : Option MovementRow) :
    Prop where
  posting : Posting p s s' id old new
  valid : ∀ m ∈ new, MovementOk s m

/-- A subscription was paid: the expense is booked, and the next due date lies
one cycle on. -/
structure Payment (caller : Caller) (today : NaiveDate) (id accountId movementId categoryId : Uuid)
    (sub : SubscriptionRow) (s s' : Db) : Prop where
  stored : s.subscription id = some sub
  due : isPaidThisCycle sub.lastPaidOn sub.nextBillingOn today = false
  booked : Booking (isPaid id) s s' movementId none
    (some (payInsertMovementRow caller today id accountId categoryId sub.price))
  paid : s'.subscription id = some
    { sub with
      lastPaidOn := some today
      nextBillingOn := some (advanceNextBilling sub.nextBillingOn today)
      updatedAt := caller.now }

/-- A row was deleted, and the rows that refer to it forgot it. -/
structure Deletion (key : Key) (ref : (k : Key) → Row k → Option Uuid) (id : Uuid)
    (clear : (k : Key) → Row k → Row k) (s s' : Db) : Prop where
  deleted : s'.lookup key = none
  cleared : ∀ k, k ≠ key → s'.lookup k = s.lookup k ∨
    ∃ r, s.lookup k = some r ∧ ref k r = some id ∧ s'.lookup k = some (clear k r)

/-- How the rows that refer to a deleted one forget it: their reference is
cleared, and no account, no leg of a movement and no due date changes. -/
structure Forgets (ref : (k : Key) → Row k → Option Uuid) (clear : (k : Key) → Row k → Row k) :
    Prop where
  cleared : ∀ k r, ref k (clear k r) = none
  account : ∀ a r, ref (Key.account a) r = none
  kept : ∀ id r, Kept r (clear (Key.movement id) r)
  lastPaidOn : ∀ id r, (clear (Key.subscription id) r).lastPaidOn = r.lastPaidOn
  nextBillingOn : ∀ id r, (clear (Key.subscription id) r).nextBillingOn = r.nextBillingOn

theorem forgets_account (now : Timestamp) : Forgets accountRef (clearAccount now) where
  cleared k r := by cases k <;> rfl
  account _ _ := rfl
  kept _ r := Kept.refl r
  lastPaidOn _ _ := rfl
  nextBillingOn _ _ := rfl

theorem forgets_category (now : Timestamp) : Forgets categoryRef (clearCategory now) where
  cleared k r := by cases k <;> rfl
  account _ _ := rfl
  kept _ _ := ⟨rfl, rfl, rfl, rfl, rfl, fun _ => rfl⟩
  lastPaidOn _ _ := rfl
  nextBillingOn _ _ := rfl

theorem forgets_subscription (now : Timestamp) :
    Forgets subscriptionRef (clearSubscription now) where
  cleared k r := by cases k <;> rfl
  account _ _ := rfl
  kept _ _ := ⟨rfl, rfl, rfl, rfl, rfl, id⟩
  lastPaidOn _ _ := rfl
  nextBillingOn _ _ := rfl

section Deletions

variable {key : Key} {ref : (k : Key) → Row k → Option Uuid} {id : Uuid}
  {clear : (k : Key) → Row k → Row k} {s s' : Db}

theorem Deletion.account_eq (h : Deletion key ref id clear s s') (hf : Forgets ref clear)
    {a : Uuid} (ha : Key.account a ≠ key) : s'.account a = s.account a := by
  rcases h.cleared _ ha with heq | ⟨r, _, href, _⟩
  · exact heq
  · simp [hf.account] at href

theorem Deletion.movementsKept (h : Deletion key ref id clear s s') (hf : Forgets ref clear)
    (hkey : ∀ m, Key.movement m ≠ key) : MovementsKept s s' := by
  intro m
  rcases h.cleared _ (hkey m) with heq | ⟨r, hr, _, hr'⟩
  · have hsame : s'.movement m = s.movement m := heq
    rw [hsame]
    cases s.movement m with
    | none => exact .none
    | some r => exact .some (Kept.refl r)
  · have hold : s.movement m = some r := hr
    have hnew : s'.movement m = some (clear _ r) := hr'
    rw [hold, hnew]
    exact .some (hf.kept m r)

end Deletions

/-- What the commit of a request may do to the tables. -/
def Effect (caller : Caller) : LedgerRequest → Db → Db → Prop
  | .createMovement _, s, s' | .createTransfer _, s, s' =>
      ∃ id m, Booking isBook s s' id none (some m) ∧ OntoOpenAccounts s none (some m)
  | .patchMovement id _, s, s' =>
      ∃ m m', Booking isBook s s' id (some m) (some m') ∧
        OntoOpenAccounts s (some m) (some m') ∧ m.direction ≠ .transfer ∧
        (s.account m'.accountId).map holder = (s.account m.accountId).map holder
  | .deleteMovement id, s, s' => ∃ m, Booking isBook s s' id (some m) none
  | .paySubscription today id accountId, s, s' =>
      ∃ movementId categoryId sub,
        Payment caller today id accountId movementId categoryId sub s s'
  | .patchAccount id body, s, s' =>
      ∃ r balance, s.account id = some r ∧ (body.balance.isNone → balance = none) ∧
        s' = put s (Key.account id)
          (some (patchAccountRow body balance caller.now r : AccountRow))
  | .deleteAccount id, s, s' =>
      Deletion (Key.account id) accountRef id (clearAccount caller.now) s s' ∧
        ∀ m, (s.movement m).any (refersToAccount id) = false
  | .deleteCategory id, s, s' =>
      Deletion (Key.category id) categoryRef id (clearCategory caller.now) s s'
  | .deleteSubscription id, s, s' =>
      Deletion (Key.subscription id) subscriptionRef id (clearSubscription caller.now) s s'

/-- The movements that refer to an account belong to the region of its lock:
every request that books on an account locks it. -/
def ledger : Contract Row AppError where
  Region k := Option (Row k) × (Uuid → Bool)
  region k s := (s.lookup k, fun m =>
    match k with
    | .account a => (Db.movement s m).any (refersToAccount a)
    | _ => false)
  lookup_congr _ _ _ h := congrArg Prod.fst h
  inv := LedgerOk
  admits _ _ _ _ := True
  fault := .internal

section Publishing

variable {G : Db → Db → Prop} {t : ledger.Open} {c : Db}

theorem region_of_not_locks {k : Key} (hk : ¬ t.Locks k)
    (hrefs : ∀ a, Key.account a = k → ∀ m,
      (Db.movement (t.view c) m).any (refersToAccount a) =
        (c.movement m).any (refersToAccount a)) :
    ledger.region k (t.view c) = ledger.region k c := by
  refine Prod.ext (lookup_view_of_not_locks t hk c) (funext fun m => ?_)
  cases k with
  | account a => exact hrefs a rfl m
  | _ => rfl

/-- A booking may be committed once the accounts of the old and of the new
version are locked. -/
theorem Booking.publishable {p : Key → Bool} {id : Uuid} {old new : Option MovementRow}
    (h : Booking p c (t.view c) id old new) (hc : Sees t c)
    (hlocks : ∀ a, (old.any (refersToAccount a) = true ∨ new.any (refersToAccount a) = true) →
      t.Locks (Key.account a))
    (hG : G c (t.view c)) : ledger.Publishable G t c where
  unlocked k hk := by
    refine region_of_not_locks hk fun a ha m => ?_
    subst ha
    obtain ⟨hold, hnew⟩ := not_or.mp (mt (hlocks a) hk)
    by_cases hm : m = id
    · subst hm
      rw [h.posting.after, h.posting.before, Bool.eq_false_iff.mpr hold, Bool.eq_false_iff.mpr hnew]
    · rw [h.posting.others m hm]
  inv := h.posting.ledgerOk hc.inv h.valid
  allowed := hG

theorem publishable_of_kept (h : MovementsKept c (t.view c)) (hc : Sees t c)
    (hacc : ∀ a, (∃ id, (c.movement id).any (refersToAccount a) = true) →
      (Db.account (t.view c) a).map holder = (c.account a).map holder)
    (hG : G c (t.view c)) : ledger.Publishable G t c where
  unlocked _ hk := region_of_not_locks hk fun a _ m =>
    any_refersToAccount_of_rel (h m) a
  inv := h.ledgerOk hc.inv hacc
  allowed := hG

end Publishing

end PersonalDashboard.LedgerContract
