import PersonalDashboard.LedgerGuarantees

/-! No subscription is paid twice in one cycle, however its payments interleave. -/

set_option autoImplicit false

namespace PersonalDashboard.PaymentGuarantees

open PersonalDashboard.BillingDates
open PersonalDashboard.Bookkeeping
open PersonalDashboard.Calendar
open PersonalDashboard.LedgerContract
open PersonalDashboard.LedgerGuarantees
open PersonalDashboard.LedgerHandlers
open PersonalDashboard.ReadCommitted
open PersonalDashboard.RowStatements
open PersonalDashboard.RowStore
open PersonalDashboard.Schema
open PersonalDashboard.TransactionLogic
open PersonalDashboard.TransactionLogic.Contract

/-- The errors a payment is refused with. -/
def PayRefusal (e : AppError) : Prop :=
  e.statusAndCode.1 ∈ [404, 409, 422, 500]

theorem payRefusal_mapSubDbErr (e : SqlState) : PayRefusal (mapSubDbErr e) := by
  cases e <;> simp [PayRefusal, mapSubDbErr, AppError.statusAndCode]

theorem payRefusal_internal (e : SqlState) : PayRefusal (internal e) := by
  simp [PayRefusal, internal, AppError.statusAndCode]

theorem payRefusal_validation (msg : String) : PayRefusal (.validation msg) := by
  simp [PayRefusal, AppError.statusAndCode]

theorem payRefusal_conflict (msg : String) : PayRefusal (.conflict msg) := by
  simp [PayRefusal, AppError.statusAndCode]

theorem payRefusal_notFound : PayRefusal .notFound := by
  simp [PayRefusal, AppError.statusAndCode]

theorem throws_foreignKey {toErr : SqlState → AppError} (herr : ∀ e, PayRefusal (toErr e))
    (k : Key) : (foreignKey toErr .foreignKeyViolation k : Handler Unit).Throws PayRefusal :=
  (throws_execSql herr _).bind fun _ => throws_failIf _ (herr _)

theorem throws_foreignKeyOpt {toErr : SqlState → AppError} (herr : ∀ e, PayRefusal (toErr e))
    (key : Uuid → Key) (a : Option Uuid) :
    (foreignKeyOpt toErr .foreignKeyViolation key a : Handler Unit).Throws PayRefusal := by
  cases a with
  | none => trivial
  | some a => exact throws_foreignKey herr (key a)

theorem throws_insertMovement {toErr : SqlState → AppError} (herr : ∀ e, PayRefusal (toErr e))
    (row : MovementRow) : (insertMovement toErr row).Throws PayRefusal := by
  unfold insertMovement
  refine (throws_freshId _).bind fun id => (throws_execSql herr _).bind fun _ => ?_
  refine (throws_foreignKey herr _).bind fun _ => ?_
  refine (throws_foreignKeyOpt herr _ _).bind fun _ => ?_
  refine (throws_foreignKeyOpt herr _ _).bind fun _ => ?_
  exact (throws_foreignKeyOpt herr _ _).bind fun _ => trivial

theorem throws_insertSeedCategory (userId : Uuid) :
    (insertSeedCategory userId).Throws PayRefusal :=
  (throws_freshId _).bind fun _ => (throws_execSql payRefusal_internal _).bind fun _ => trivial

theorem throws_seedCategorySql (userId : Uuid) : (seedCategorySql userId).Throws PayRefusal := by
  unfold seedCategorySql
  refine (throws_execSql payRefusal_internal _).bind fun existing => ?_
  split
  · exact throws_insertSeedCategory userId
  · refine (throws_execSql payRefusal_internal _).bind fun row => ?_
    split
    · trivial
    · exact throws_insertSeedCategory userId

theorem throws_paySubscriptionHandler (caller : Caller) (today : NaiveDate)
    (id accountId : Uuid) :
    (paySubscriptionHandler caller today id accountId).Throws PayRefusal := by
  unfold paySubscriptionHandler
  refine throws_beginTx.bind fun _ => ?_
  refine (throws_fetchOr payRefusal_internal payRefusal_notFound _).bind fun currency => ?_
  refine (throws_fetchOr payRefusal_internal payRefusal_notFound _).bind fun sub => ?_
  refine (throws_failIf _ (payRefusal_validation _)).bind fun _ => ?_
  refine (throws_failIf _ (payRefusal_validation _)).bind fun _ => ?_
  refine (throws_failIf _ (payRefusal_validation _)).bind fun _ => ?_
  refine (throws_failIf _ (payRefusal_validation _)).bind fun _ => ?_
  refine (throws_failIf _ (payRefusal_conflict _)).bind fun _ => ?_
  refine (throws_seedCategorySql _).bind fun categoryId => ?_
  refine (throws_insertMovement payRefusal_mapSubDbErr _).bind fun _ => ?_
  refine (throws_execSql payRefusal_mapSubDbErr _).bind fun _ => ?_
  refine (throws_fetchOr payRefusal_internal (payRefusal_internal .checkViolation) _).bind
    fun _ => ?_
  exact throws_commitTx.bind fun _ => trivial

def billing (s : Db) (id : Uuid) : Option (Option NaiveDate × Option NaiveDate) :=
  (s.subscription id).map fun r => (r.lastPaidOn, r.nextBillingOn)

theorem billing_eq_of_rest {p : Key → Bool} {s s' : Db} {id : Uuid}
    (h : ∀ k, p k = false → s'.lookup k = s.lookup k)
    (hp : p (Key.subscription id) = false) : billing s' id = billing s id :=
  congrArg (Option.map fun r : SubscriptionRow => (r.lastPaidOn, r.nextBillingOn)) (h _ hp)

theorem billing_eq_of_deletion {key : Key} {ref : (k : Key) → Row k → Option Uuid}
    {id' : Uuid} {clear : (k : Key) → Row k → Row k} {s s' : Db}
    (h : Deletion key ref id' clear s s') (hf : Forgets ref clear) {id : Uuid}
    (hkey : Key.subscription id ≠ key) : billing s' id = billing s id := by
  unfold billing
  rcases h.cleared _ hkey with heq | ⟨r, hr, -, hr'⟩
  · have hsame : s'.subscription id = s.subscription id := heq
    rw [hsame]
  · have hold : s.subscription id = some r := hr
    have hnew : s'.subscription id = some (clear _ r) := hr'
    rw [hold, hnew, Option.map_some, Option.map_some, hf.lastPaidOn, hf.nextBillingOn]

theorem billing_of_effect {caller : Caller} {r : LedgerRequest} {s s' : Db}
    (h : Effect caller r s s') {id : Uuid} (hdelete : r ≠ .deleteSubscription id)
    (hpay : ∀ today accountId, r ≠ .paySubscription today id accountId) :
    billing s' id = billing s id := by
  cases r with
  | createMovement body =>
      obtain ⟨_, _, hbook, -⟩ := h
      exact billing_eq_of_rest hbook.posting.rest rfl
  | createTransfer body =>
      obtain ⟨_, _, hbook, -⟩ := h
      exact billing_eq_of_rest hbook.posting.rest rfl
  | patchMovement id body =>
      obtain ⟨_, _, hbook, -⟩ := h
      exact billing_eq_of_rest hbook.posting.rest rfl
  | deleteMovement id =>
      obtain ⟨_, hbook⟩ := h
      exact billing_eq_of_rest hbook.posting.rest rfl
  | paySubscription today id' accountId =>
      obtain ⟨_, _, _, hpaid⟩ := h
      refine billing_eq_of_rest hpaid.booked.posting.rest (decide_eq_false ?_)
      rintro rfl
      exact hpay today accountId rfl
  | patchAccount id body =>
      obtain ⟨_, _, _, _, rfl⟩ := h
      exact congrArg _ (Db.subscription_put_of_ne (by simp) _)
  | deleteAccount id => exact billing_eq_of_deletion h.1 (forgets_account _) (by simp)
  | deleteCategory id => exact billing_eq_of_deletion h (forgets_category _) (by simp)
  | deleteSubscription id' =>
      refine billing_eq_of_deletion h (forgets_subscription _) fun heq => hdelete ?_
      rw [Key.subscription.inj heq]

/-- The subscription has been paid, and is next due on `d` or later. -/
def PaidUntil (s : Db) (id : Uuid) (d : NaiveDate) : Prop :=
  ∃ last due, billing s id = some (some last, some due) ∧ d ≤ due

/-- A payment finds the subscription due and leaves it paid until a later
date. -/
theorem paidUntil_of_payment {caller : Caller} {today : NaiveDate}
    {id accountId movementId categoryId : Uuid} {sub : SubscriptionRow} {s s' : Db}
    (h : Payment caller today id accountId movementId categoryId sub s s') :
    PaidUntil s' id (advanceNextBilling sub.nextBillingOn today) :=
  ⟨today, _, by rw [billing, h.paid, Option.map_some], le_refl _⟩

theorem le_of_paidUntil {caller : Caller} {today : NaiveDate}
    {id accountId movementId categoryId : Uuid} {sub : SubscriptionRow} {s s' : Db}
    (h : Payment caller today id accountId movementId categoryId sub s s') {d : NaiveDate}
    (hd : PaidUntil s id d) : d ≤ today := by
  obtain ⟨last, due, hbilling, hle⟩ := hd
  rw [billing, h.stored, Option.map_some] at hbilling
  obtain ⟨hlast, hdue⟩ := Prod.mk.inj (Option.some.inj hbilling)
  have hnot := h.due
  simp only [isPaidThisCycle, hlast, hdue, Option.isSome_some, Option.any_some,
    Bool.true_and, decide_eq_false_iff_not, gt_iff_lt, not_lt] at hnot
  exact hle.trans hnot

theorem PaidUntil.of_effect {caller : Caller} {r : LedgerRequest} {s s' : Db} {id : Uuid}
    {d : NaiveDate} (hd : PaidUntil s id d) (h : Effect caller r s s')
    (hdelete : r ≠ .deleteSubscription id) : PaidUntil s' id d := by
  by_cases hpay : ∃ today accountId, r = .paySubscription today id accountId
  · obtain ⟨today, accountId, rfl⟩ := hpay
    obtain ⟨_, _, sub, hpaid⟩ := h
    obtain ⟨last, due, hbilling, hle⟩ := paidUntil_of_payment hpaid
    have htoday := le_of_paidUntil hpaid hd
    exact ⟨last, due, hbilling,
      htoday.trans ((lt_advanceNextBilling sub.nextBillingOn today).le.trans hle)⟩
  · have hsame := billing_of_effect h hdelete fun today accountId heq =>
      hpay ⟨today, accountId, heq⟩
    obtain ⟨last, due, hbilling, hle⟩ := hd
    exact ⟨last, due, hsame.trans hbilling, hle⟩

section Runs

variable {ι : Type} {requests : ι → Caller × LedgerRequest} {id : Uuid}

theorem paidUntil_of_mem_commits {db₀ db : Db} {commits : List (Commit ι Row)}
    (hchain : Chained db₀ commits db)
    (heffect : ∀ c ∈ commits, Effect (requests c.proc).1 (requests c.proc).2 c.before c.after)
    (hdelete : ∀ i, (requests i).2 ≠ .deleteSubscription id) {e : Commit ι Row}
    (he : e ∈ commits) {today : NaiveDate} {accountId : Uuid}
    (hpay : (requests e.proc).2 = .paySubscription today id accountId) :
    ∃ next, (Db.subscription e.after id).bind SubscriptionRow.nextBillingOn = some next ∧
      PaidUntil db id next := by
  induction commits generalizing db with
  | nil => cases he
  | cons c commits ih =>
      obtain ⟨rfl, hchain⟩ := hchain
      rcases List.mem_cons.mp he with rfl | he
      · have hpaid := heffect e List.mem_cons_self
        rw [hpay] at hpaid
        obtain ⟨_, _, sub, hpaid⟩ := hpaid
        exact ⟨_, by rw [hpaid.paid, Option.bind_some], paidUntil_of_payment hpaid⟩
      · obtain ⟨next, hnext, hd⟩ :=
          ih hchain (fun c' hc' => heffect c' (List.mem_cons_of_mem _ hc')) he
        exact ⟨next, hnext, hd.of_effect (heffect c List.mem_cons_self) (hdelete _)⟩

/-- The later of two payments is made on or after the date the earlier one
stored. -/
theorem pairwise_payments {db₀ db : Db} {commits : List (Commit ι Row)}
    (hchain : Chained db₀ commits db)
    (heffect : ∀ c ∈ commits, Effect (requests c.proc).1 (requests c.proc).2 c.before c.after)
    (hdelete : ∀ i, (requests i).2 ≠ .deleteSubscription id) :
    commits.Pairwise fun later earlier => ∀ today today' accountId accountId',
      (requests later.proc).2 = .paySubscription today id accountId →
      (requests earlier.proc).2 = .paySubscription today' id accountId' →
      ∃ next, (Db.subscription earlier.after id).bind SubscriptionRow.nextBillingOn = some next ∧
        next ≤ today := by
  induction commits generalizing db with
  | nil => exact List.Pairwise.nil
  | cons c commits ih =>
      obtain ⟨rfl, hchain⟩ := hchain
      have hrest : ∀ c' ∈ commits,
          Effect (requests c'.proc).1 (requests c'.proc).2 c'.before c'.after :=
        fun c' hc' => heffect c' (List.mem_cons_of_mem _ hc')
      refine List.Pairwise.cons (fun e he today today' accountId accountId' hlater hearlier => ?_)
        (ih hchain hrest)
      obtain ⟨next, hnext, hd⟩ := paidUntil_of_mem_commits hchain hrest hdelete he hearlier
      have hpaid := heffect c List.mem_cons_self
      rw [hlater] at hpaid
      obtain ⟨_, _, _, hpaid⟩ := hpaid
      exact ⟨next, hnext, le_of_paidUntil hpaid hd⟩

end Runs

/-- What one successful payment does: one expense of the price on the named
account, which is debited by it, and the pay day and a later due date on the
subscription. -/
def PaysOnce (today : NaiveDate) (id accountId : Uuid) (s s' : Db) : Prop :=
  ∃ row next now movementId m,
    s.subscription id = some row ∧
    (s.movement movementId = none ∧ s'.movement movementId = some m ∧
      (∀ m', m' ≠ movementId → s'.movement m' = s.movement m') ∧
      m.direction = .expense ∧ m.amount = row.price ∧ m.accountId = accountId ∧
      m.subscriptionId = some id) ∧
    ((s.account accountId).isSome ∧ ∀ a, (s'.account a).map AccountRow.balance =
      (s.account a).map fun r => r.balance - if a = accountId then row.price else 0) ∧
    s'.subscription id = some
      { row with lastPaidOn := some today, nextBillingOn := some next, updatedAt := now } ∧
    today < next ∧ ∀ due, row.nextBillingOn = some due → due < next

theorem paysOnce_of_payment {caller : Caller} {today : NaiveDate}
    {id accountId movementId categoryId : Uuid} {sub : SubscriptionRow} {s s' : Db}
    (h : Payment caller today id accountId movementId categoryId sub s s') :
    PaysOnce today id accountId s s' := by
  have hposting := h.booked.posting
  have hvalid := h.booked.valid _ rfl
  generalize hrow : payInsertMovementRow caller today id accountId categoryId sub.price = row
    at hposting hvalid
  obtain ⟨hdirection, hamount, haccountId, hsubscription⟩ : row.direction = .expense ∧
      row.amount = sub.price ∧ row.accountId = accountId ∧ row.subscriptionId = some id := by
    simp [← hrow, payInsertMovementRow]
  refine ⟨sub, _, _, movementId, row, h.stored, ⟨hposting.before, hposting.after,
    hposting.others, hdirection, hamount, haccountId, hsubscription⟩, ⟨?_, fun a => ?_⟩, h.paid,
    lt_advanceNextBilling _ _, fun due hdue => ?_⟩
  · obtain ⟨r, hr, -⟩ := Option.map_eq_some_iff.mp hvalid.owned
    rw [← haccountId, hr, Option.isSome_some]
  · obtain ⟨stamp, hstamp⟩ := hposting.accounts a
    rw [hstamp, Option.map_map]
    refine congrArg (fun f => Option.map f (s.account a)) (funext fun r => ?_)
    simp only [Function.comp_apply, Option.elim, leg, hdirection, hamount, haccountId,
      eq_comm (a := a)]
    change (_ : Int) = _
    split <;> omega
  · rw [hdue]
    exact stored_lt_advanceNextBilling due today

/-- The payments of one subscription in every run in which nobody deletes it:
every successful one books and debits its price once and moves the due date past
its pay day and past the old due date; every refused one commits nothing; and of
two successful ones the later is made on or after the date the earlier stored.
The committed tables change by the listed commits only. -/
theorem payments_ledgerRun {ι : Type} [DecidableEq ι] (db : LedgerDb)
    (requests : ι → Caller × LedgerRequest) (id : Uuid)
    (hdelete : ∀ i, (requests i).2 ≠ .deleteSubscription id) (cs : List (Choice ι)) :
    let s := ledgerRun db requests cs
    (∀ i today accountId, (requests i).2 = .paySubscription today id accountId →
      (∀ answer, (s.procs i).prog = .ret answer → ∃ before after,
        s.ownCommits i = [(before, after)] ∧ PaysOnce today id accountId before after) ∧
      (∀ e, (s.procs i).prog = .throw e →
        s.ownCommits i = [] ∧ e.statusAndCode.1 ∈ [404, 409, 422, 500])) ∧
    s.commits.Pairwise (fun later earlier => ∀ today today' accountId accountId',
      (requests later.proc).2 = .paySubscription today id accountId →
      (requests earlier.proc).2 = .paySubscription today' id accountId' →
      ∃ next, (Db.subscription earlier.after id).bind SubscriptionRow.nextBillingOn = some next ∧
        next ≤ today) ∧
    Chained db.store s.commits s.db := by
  intro s
  have hsound := sound_ledgerRun db requests cs
  have hchain : Chained db.store s.commits s.db :=
    chained_run (chained_start _ _) AppError.internal cs
  refine ⟨fun i today accountId hpay => ⟨fun answer hret => ?_, fun e hthrow => ⟨?_, ?_⟩⟩,
    pairwise_payments hchain hsound.allowed hdelete, hchain⟩
  · have hone : (s.ownCommits i).length = 1 := hsound.post_of_ret hret
    obtain ⟨⟨before, after⟩, hown⟩ := List.length_eq_one_iff.mp hone
    obtain ⟨c, hc, rfl, hpair⟩ :=
      s.exists_commit_of_mem_ownCommits i (hown ▸ List.mem_singleton_self _)
    obtain ⟨rfl, rfl⟩ := Prod.mk.inj hpair
    have heffect := hsound.allowed c hc
    rw [hpay] at heffect
    obtain ⟨_, _, _, hpaid⟩ := heffect
    exact ⟨c.before, c.after, hown, paysOnce_of_payment hpaid⟩
  · exact hsound.post_of_throw hthrow
  · have hstart : ((start db.store fun i => serve (requests i).1 (requests i).2).procs
        i).prog.Throws PayRefusal := by
      simp only [start, hpay]
      exact (throws_paySubscriptionHandler _ _ _ _).bind fun _ => trivial
    have hrefusal := throws_run hstart (payRefusal_internal .checkViolation) cs
    have hthrow' : (s.procs i).prog.Throws PayRefusal := hrefusal
    rwa [hthrow] at hthrow'

def payDay : NaiveDate :=
  (NaiveDate.fromYmdOpt 2026 5 1).get rfl

def checkingAccount : AccountRow :=
  { userId := 1, name := "Corriente", currency := "EUR", balance := 10000, notes := none
    color := none, icon := none, isArchived := false, createdAt := 0, updatedAt := 0 }

def internetSubscription : SubscriptionRow :=
  { userId := 1, name := "Internet", price := 999, currency := "EUR", frequency := .monthly
    nextBillingOn := some payDay, categoryId := none, paymentMethod := none, url := none
    notes := none, isActive := true, cancelledAt := none, createdAt := 0, updatedAt := 0
    lastPaidOn := none }

def dueDb : LedgerDb where
  store := put (put ∅ (Key.account 1) (some checkingAccount)) (Key.subscription 2)
    (some internetSubscription)
  ok id m h := by
    rw [Db.movement_put_of_ne (by simp), Db.movement_put_of_ne (by simp)] at h
    simp [Db.movement] at h

def payRequests (_ : Bool) : Caller × LedgerRequest :=
  (⟨⟨fun _ => none, fun _ => none, fun _ => none⟩, 1, 5⟩, .paySubscription payDay 2 1)

def payTurns : List (Choice Bool) :=
  List.replicate 2 ⟨true, .advance 7⟩ ++ List.replicate 30 ⟨false, .advance 7⟩ ++
    List.replicate 30 ⟨true, .advance 8⟩

set_option maxRecDepth 4000 in
theorem payments_ledgerRun_twice :
    ∃ before after, (ledgerRun dueDb payRequests payTurns).ownCommits false = [(before, after)] ∧
      PaysOnce payDay 2 1 before after :=
  ((payments_ledgerRun dueDb payRequests 2 (by simp [payRequests]) payTurns).1 false payDay 1
    rfl).1 _ rfl

set_option maxRecDepth 4000 in
example : ((ledgerRun dueDb payRequests payTurns).procs true).prog =
    .throw (.conflict "la suscripción ya está pagada en este ciclo") :=
  rfl

end PersonalDashboard.PaymentGuarantees
