import PersonalDashboard.AccountTransactions

/-! What holds of the ledger across every interleaving of its requests. -/

set_option autoImplicit false

namespace PersonalDashboard.LedgerGuarantees

open PersonalDashboard.AccountTransactions
open PersonalDashboard.BillingDates
open PersonalDashboard.Bookkeeping
open PersonalDashboard.Calendar
open PersonalDashboard.LedgerContract
open PersonalDashboard.LedgerHandlers
open PersonalDashboard.MovementTransactions
open PersonalDashboard.ReadCommitted
open PersonalDashboard.RowStore
open PersonalDashboard.Schema
open PersonalDashboard.TransactionLogic
open PersonalDashboard.TransactionLogic.Contract

theorem wp_serve (caller : Caller) (r : LedgerRequest) :
    ledger.wp (Effect caller r) (serve caller r) (ledger.atomically _) none [] := by
  cases r with
  | createMovement body => exact wp_atomically_map _ (wp_createMovementHandler caller body)
  | createTransfer body => exact wp_atomically_map _ (wp_createTransferHandler caller body)
  | patchMovement id body => exact wp_atomically_map _ (wp_patchMovementHandler caller id body)
  | deleteMovement id => exact wp_atomically_map _ (wp_deleteMovementHandler caller id)
  | paySubscription today id accountId =>
      exact wp_atomically_map _ (wp_paySubscriptionHandler caller today id accountId)
  | patchAccount id body => exact wp_atomically_map _ (wp_patchAccountHandler caller id body)
  | deleteAccount id => exact wp_atomically_map _ (wp_deleteAccountHandler caller id)
  | deleteCategory id => exact wp_atomically_map _ (wp_deleteCategoryHandler caller id)
  | deleteSubscription id =>
      exact wp_atomically_map _ (wp_deleteSubscriptionHandler caller id)

variable {ι : Type} [DecidableEq ι]

/-- The requests of any callers, each served by a process of its own, after the
given choices of the scheduler. -/
def ledgerRun (db : LedgerDb) (requests : ι → Caller × LedgerRequest) (cs : List (Choice ι)) :
    Config ι Row SqlState AppError LedgerAnswer :=
  run .internal (start db.store fun i => serve (requests i).1 (requests i).2) cs

/-- The answer of a request and its commits: one commit, or an error and none. -/
def Answered (r : Except AppError LedgerAnswer) (done : List (Db × Db)) : Prop :=
  match r with
  | .ok _ => done.length = 1
  | .error _ => done = []

theorem sound_ledgerRun (db : LedgerDb) (requests : ι → Caller × LedgerRequest)
    (cs : List (Choice ι)) :
    Sound ledger (fun i => Effect (requests i).1 (requests i).2) (fun _ => Answered)
      (ledgerRun db requests cs) := by
  refine Sound.run (sound_start db.ok fun i => ?_) (admittedRun_of_forall (by simp [ledger]) _ _)
  refine wp_mono (fun r o done hr => ?_) (wp_serve (requests i).1 (requests i).2)
  cases r with
  | ok a => exact hr
  | error e => exact hr

theorem gap_eq_of_deletion {key : Key} {ref : (k : Key) → Row k → Option Uuid} {id : Uuid}
    {clear : (k : Key) → Row k → Row k} {s s' : Db} (h : Deletion key ref id clear s s')
    (hf : Forgets ref clear) (hkey : ∀ m, Key.movement m ≠ key) {a : Uuid}
    (ha : Key.account a ≠ key) : gap s' a = gap s a :=
  (h.movementsKept hf hkey).gap_eq (by rw [h.account_eq hf ha])

/-- A request changes what a balance holds beyond its movements only by setting
the balance or by deleting the account. -/
theorem gap_of_effect {caller : Caller} {r : LedgerRequest} {s s' : Db}
    (h : Effect caller r s s') (a : Uuid) :
    gap s' a = gap s a ∨ (∃ body, r = .patchAccount a body ∧ body.balance.isSome) ∨
      (r = .deleteAccount a ∧ gap s' a = none) := by
  cases r with
  | createMovement body =>
      obtain ⟨id, m, hbook, -⟩ := h
      exact Or.inl (hbook.posting.gap_eq a)
  | createTransfer body =>
      obtain ⟨id, m, hbook, -⟩ := h
      exact Or.inl (hbook.posting.gap_eq a)
  | patchMovement id body =>
      obtain ⟨m, m', hbook, -⟩ := h
      exact Or.inl (hbook.posting.gap_eq a)
  | deleteMovement id =>
      obtain ⟨m, hbook⟩ := h
      exact Or.inl (hbook.posting.gap_eq a)
  | paySubscription today id accountId =>
      obtain ⟨movementId, categoryId, sub, hpay⟩ := h
      exact Or.inl (hpay.booked.posting.gap_eq a)
  | patchAccount id body =>
      obtain ⟨r, balance, hr, hnone, rfl⟩ := h
      have hkept : MovementsKept s (put s (Key.account id)
          (some (patchAccountRow body balance caller.now r))) :=
        movementsKept_of_eq fun m => Db.movement_put_of_ne (by simp) _
      by_cases ha : a = id
      · subst ha
        cases hset : body.balance.isSome with
        | true => exact Or.inr (Or.inl ⟨body, rfl, hset⟩)
        | false =>
            obtain rfl := hnone (by simpa using hset)
            refine Or.inl (hkept.gap_eq ?_)
            rw [Db.account_put_self, hr]
            rfl
      · exact Or.inl (hkept.gap_eq (by rw [Db.account_put_of_ne (by simpa using ha)]))
  | deleteAccount id =>
      obtain ⟨hdel, -⟩ := h
      by_cases ha : a = id
      · subst ha
        have hnone : s'.account a = none := hdel.deleted
        exact Or.inr (Or.inr ⟨rfl, by rw [gap, hnone, Option.map_none]⟩)
      · exact Or.inl (gap_eq_of_deletion hdel (forgets_account _) (by simp) (by simpa using ha))
  | deleteCategory id =>
      exact Or.inl (gap_eq_of_deletion h (forgets_category _) (by simp) (by simp))
  | deleteSubscription id =>
      exact Or.inl (gap_eq_of_deletion h (forgets_subscription _) (by simp) (by simp))

/-- In every run, a step changes the difference between the balance of an
account and the sum of its movements only if it is the commit of a PATCH that
sets the balance; the difference ends with the commit of the account's
deletion. -/
theorem gap_ledgerRun_step (db : LedgerDb) (requests : ι → Caller × LedgerRequest)
    (cs : List (Choice ι)) (c : Choice ι) (a : Uuid) :
    let s := ledgerRun db requests cs
    let s' := step .internal s c
    gap s'.db a = gap s.db a ∨
      (s'.commits = ⟨c.proc, s.db, s'.db⟩ :: s.commits ∧
        ((∃ body, (requests c.proc).2 = .patchAccount a body ∧ body.balance.isSome) ∨
          ((requests c.proc).2 = .deleteAccount a ∧ gap s'.db a = none))) := by
  intro s s'
  rcases grows_step .internal s c with ⟨hdb, -⟩ | hcommit
  · exact Or.inl (congrArg (gap · a) hdb)
  · have hsound : Sound ledger (fun i => Effect (requests i).1 (requests i).2)
        (fun _ => Answered) s' :=
      (sound_ledgerRun db requests cs).step fun _ => admitted_of_forall (by simp [ledger]) _ _
    have heffect : Effect (requests c.proc).1 (requests c.proc).2 s.db s'.db :=
      hsound.allowed ⟨c.proc, s.db, s'.db⟩ (by rw [hcommit]; exact List.mem_cons_self)
    exact (gap_of_effect heffect a).imp_right fun h => ⟨hcommit, h⟩

def Repointed (s : Db) (old new : Option MovementRow) : Prop :=
  ∀ m ∈ old, ∀ m' ∈ new, m.direction ≠ .transfer ∧
    (s.account m'.accountId).map holder = (s.account m.accountId).map holder

theorem references_of_effect {caller : Caller} {r : LedgerRequest} {s s' : Db}
    (h : Effect caller r s s') :
    MovementsKept s s' ∨ ∃ p id old new, Booking p s s' id old new ∧ Repointed s old new ∧
      ((∀ today id accountId, r ≠ .paySubscription today id accountId) →
        OntoOpenAccounts s old new) := by
  cases r with
  | createMovement body =>
      obtain ⟨id, m, hbook, hopen⟩ := h
      exact Or.inr ⟨_, id, _, _, hbook, by simp [Repointed], fun _ => hopen⟩
  | createTransfer body =>
      obtain ⟨id, m, hbook, hopen⟩ := h
      exact Or.inr ⟨_, id, _, _, hbook, by simp [Repointed], fun _ => hopen⟩
  | patchMovement id body =>
      obtain ⟨m, m', hbook, hopen, hdirection, hholder⟩ := h
      refine Or.inr ⟨_, id, _, _, hbook, ?_, fun _ => hopen⟩
      simpa [Repointed] using ⟨hdirection, hholder⟩
  | deleteMovement id =>
      obtain ⟨m, hbook⟩ := h
      exact Or.inr ⟨_, id, _, _, hbook, by simp [Repointed], by simp [OntoOpenAccounts]⟩
  | paySubscription today id accountId =>
      obtain ⟨movementId, categoryId, sub, hpay⟩ := h
      exact Or.inr ⟨_, movementId, _, _, hpay.booked, by simp [Repointed],
        fun hne => absurd rfl (hne today id accountId)⟩
  | patchAccount id body =>
      obtain ⟨r, balance, hr, hnone, rfl⟩ := h
      exact Or.inl (movementsKept_of_eq fun m => Db.movement_put_of_ne (by simp) _)
  | deleteAccount id => exact Or.inl (h.1.movementsKept (forgets_account _) (by simp))
  | deleteCategory id => exact Or.inl (h.movementsKept (forgets_category _) (by simp))
  | deleteSubscription id => exact Or.inl (h.movementsKept (forgets_subscription _) (by simp))

def NewReferencesOpen (s s' : Db) : Prop :=
  ∀ id m a, s'.movement id = some m → refersToAccount a m = true →
    (s.movement id).any (refersToAccount a) = false →
    (s.account a).map AccountRow.isArchived = some false ∧
      (s'.account a).map AccountRow.isArchived = some false

/-- A movement that changes its account is no transfer, and stays with its
owner and its currency. -/
def RepointedWithinHolder (s s' : Db) : Prop :=
  ∀ id m m', s.movement id = some m → s'.movement id = some m' →
    m'.accountId ≠ m.accountId → m.direction ≠ .transfer ∧
      ∃ r r', s.account m.accountId = some r ∧ s.account m'.accountId = some r' ∧
        r'.userId = r.userId ∧ r'.currency = r.currency

/-- A transfer links two accounts of its owner in one currency and has no
category; other movements have no destination. -/
def TransfersLinked (s : Db) : Prop :=
  ∀ id m, s.movement id = some m →
    (m.direction = .transfer → m.categoryId = none ∧ ∃ b r r',
      m.transferAccountId = some b ∧ b ≠ m.accountId ∧ s.account m.accountId = some r ∧
        s.account b = some r' ∧ r.userId = m.userId ∧ r'.userId = m.userId ∧
        r'.currency = r.currency) ∧
    (m.direction ≠ .transfer → m.transferAccountId = none)

/-- Every account that a movement refers to is there, and is its owner's. -/
def ReferencesOwned (s : Db) : Prop :=
  ∀ id m a, s.movement id = some m → refersToAccount a m = true →
    ∃ r, s.account a = some r ∧ r.userId = m.userId

theorem newReferencesOpen_of_effect {caller : Caller} {r : LedgerRequest} {s s' : Db}
    (h : Effect caller r s s')
    (hpay : ∀ today id accountId, r ≠ .paySubscription today id accountId) :
    NewReferencesOpen s s' := by
  intro id m a hm ha hnew
  rcases references_of_effect h with hkept | ⟨p, id', old, new, hbook, -, hopen⟩
  · have hany := any_refersToAccount_of_rel (hkept id) a
    rw [hm, Option.any_some, ha, hnew] at hany
    cases hany
  · have hid : id = id' := by
      by_contra hid
      rw [← hbook.posting.others id hid, hm, Option.any_some, ha] at hnew
      cases hnew
    subst hid
    rw [hbook.posting.before] at hnew
    rw [hbook.posting.after] at hm
    have harchived := hopen hpay m hm a ha hnew
    exact ⟨harchived, ((hbook.posting.accounts a).map_eq fun _ _ _ => rfl).trans harchived⟩

theorem repointedWithinHolder_of_effect {caller : Caller} {r : LedgerRequest} {s s' : Db}
    (h : Effect caller r s s') : RepointedWithinHolder s s' := by
  intro id m m' hm hm' hne
  rcases references_of_effect h with hkept | ⟨p, id', old, new, hbook, hrepoint, -⟩
  · have hid := hkept id
    rw [hm, hm'] at hid
    cases hid with
    | some hsame => exact absurd hsame.accountId hne
  · have hid : id = id' := by
      by_contra hid
      rw [hbook.posting.others id hid, hm] at hm'
      exact hne (congrArg MovementRow.accountId (Option.some.inj hm').symm)
    subst hid
    rw [hbook.posting.before] at hm
    rw [hbook.posting.after] at hm'
    obtain ⟨hdirection, hholder⟩ := hrepoint m hm m' hm'
    obtain ⟨r', hr', -⟩ := Option.map_eq_some_iff.mp (hbook.valid m' hm').owned
    rw [hr', Option.map_some] at hholder
    obtain ⟨r, hr, heq⟩ := Option.map_eq_some_iff.mp hholder.symm
    obtain ⟨huser, hcurrency⟩ := Prod.mk.inj heq
    exact ⟨hdirection, r, r', hr, hr', huser.symm, hcurrency.symm⟩

theorem referencesOwned_of_ledgerOk {s : Db} (h : LedgerOk s) : ReferencesOwned s := by
  intro id m a hm ha
  have hok := h id m hm
  refine Option.map_eq_some_iff.mp ?_
  rcases refersToAccount_iff.mp ha with rfl | hb
  · exact hok.owned
  · exact (map_userId_of_map_holder (hok.destination a hb).2.2).trans hok.owned

theorem transfersLinked_of_ledgerOk {s : Db} (h : LedgerOk s) : TransfersLinked s := by
  intro id m hm
  have hok := h id m hm
  have howned := referencesOwned_of_ledgerOk h id m
  constructor
  · intro hdirection
    obtain ⟨b, hb⟩ := Option.isSome_iff_exists.mp (hok.transfer.mp hdirection)
    obtain ⟨hne, hcategory, hholder⟩ := hok.destination b hb
    obtain ⟨r, hr, huser⟩ := howned _ hm (refersToAccount_iff.mpr (Or.inl rfl))
    obtain ⟨r', hr', huser'⟩ := howned _ hm (refersToAccount_iff.mpr (Or.inr hb))
    rw [hr, hr', Option.map_some, Option.map_some] at hholder
    have hcurrency := (Prod.mk.inj (Option.some.inj hholder)).2
    exact ⟨hcategory, b, r, r', hb, hne, hr, hr', huser, huser', hcurrency⟩
  · intro hdirection
    simpa using mt hok.transfer.mpr hdirection

/-- The references between movements and accounts in every run of requests of
any users: only a payment books a movement on an archived account, and the
tables stay well linked. -/
theorem references_ledgerRun (db : LedgerDb) (requests : ι → Caller × LedgerRequest)
    (cs : List (Choice ι)) :
    let s := ledgerRun db requests cs
    (∀ c ∈ s.commits,
      (∀ today id accountId, (requests c.proc).2 ≠ .paySubscription today id accountId) →
      NewReferencesOpen c.before c.after) ∧
    TransfersLinked s.db ∧
    (∀ c ∈ s.commits, RepointedWithinHolder c.before c.after) ∧
    ReferencesOwned s.db := by
  intro s
  have hsound := sound_ledgerRun db requests cs
  exact ⟨fun c hc hpay => newReferencesOpen_of_effect (hsound.allowed c hc) hpay,
    transfersLinked_of_ledgerOk hsound.inv,
    fun c hc => repointedWithinHolder_of_effect (hsound.allowed c hc),
    referencesOwned_of_ledgerOk hsound.inv⟩

end PersonalDashboard.LedgerGuarantees
