import PersonalDashboard.MovementTransactions
import PersonalDashboard.LockOrder
import Mathlib.Data.Prod.Lex

/-! The movement requests and the payments lock accounts by ascending id, then
movements and subscriptions, then categories, so they never deadlock. -/

set_option autoImplicit false

namespace PersonalDashboard.LedgerLockOrder

open PersonalDashboard.BillingDates
open PersonalDashboard.Bookkeeping
open PersonalDashboard.Calendar
open PersonalDashboard.LedgerContract
open PersonalDashboard.LedgerHandlers
open PersonalDashboard.LockOrder
open PersonalDashboard.MovementTransactions
open PersonalDashboard.ReadCommitted
open PersonalDashboard.RowStatements
open PersonalDashboard.RowStore
open PersonalDashboard.Schema

/-- The lock order: accounts by id, then movements and subscriptions, then the
entries of the category index, then categories. -/
def rank : Key → Nat ×ₗ Nat
  | .account id => toLex (0, id)
  | .movement _ | .subscription _ => toLex (1, 0)
  | .categoryName .. => toLex (2, 0)
  | .category _ => toLex (3, 0)
  | _ => toLex (4, 0)

def OnlyAccounts (held : List (Key × LockMode)) : Prop :=
  ∀ e ∈ held, ∃ a, e = (Key.account a, .update)

def HoldsAccounts (held : List (Key × LockMode)) (accounts : List Uuid) : Prop :=
  ∀ a ∈ accounts, (Key.account a, .update) ∈ held

theorem HoldsAccounts.covered {held : List (Key × LockMode)} {accounts : List Uuid}
    (h : HoldsAccounts held accounts) {a : Uuid} (ha : a ∈ accounts) (m : LockMode) :
    Covered held (Key.account a) m :=
  ⟨.update, h a ha, by cases m <;> decide⟩

section Rules

variable {γ : Type} {held : List (Key × LockMode)} {o : Option (List (Key × LockMode))}
  {toErr : SqlState → AppError}

theorem order_ensureOwnedAccount {accountId userId : Uuid} {next : Unit → Handler γ}
    (h : Ordered rank (next ()) o) :
    Ordered rank ((ensureOwnedAccount accountId userId).bind next) o := by
  unfold ensureOwnedAccount
  simp only [Prog.bind_eq, Prog.bind_assoc]
  exact order_select fun _ => order_failIf fun _ => h

theorem order_ensureOwnedAccountOpt {accountId : Option Uuid} {userId : Uuid}
    {next : Unit → Handler γ} (h : Ordered rank (next ()) o) :
    Ordered rank ((ensureOwnedAccountOpt accountId userId).bind next) o := by
  cases accountId with
  | none => exact h
  | some accountId => exact order_ensureOwnedAccount h

theorem order_ensureOwnedCategory {categoryId userId : Uuid} {next : Unit → Handler γ}
    (h : Ordered rank (next ()) o) :
    Ordered rank ((ensureOwnedCategory categoryId userId).bind next) o := by
  unfold ensureOwnedCategory
  simp only [Prog.bind_eq, Prog.bind_assoc]
  exact order_select fun _ => order_failIf fun _ => h

theorem order_ensureOwnedCategoryOpt {categoryId : Option Uuid} {userId : Uuid}
    {next : Unit → Handler γ} (h : Ordered rank (next ()) o) :
    Ordered rank ((ensureOwnedCategoryOpt categoryId userId).bind next) o := by
  cases categoryId with
  | none => exact h
  | some categoryId => exact order_ensureOwnedCategory h

theorem order_ensureRepointable {userId fromAccountId toAccountId : Uuid}
    {next : Unit → Handler γ} (h : Ordered rank (next ()) o) :
    Ordered rank ((ensureRepointable userId fromAccountId toAccountId).bind next) o := by
  unfold ensureRepointable
  simp only [Prog.bind_eq, Prog.bind_assoc]
  refine order_select fun _ => order_ofOption fun _ _ => order_failIf fun _ => ?_
  refine order_select fun _ => order_ofOption fun _ _ => ?_
  refine order_select fun _ => order_ofOption fun _ _ => order_failIf fun _ => ?_
  exact h

/-- Only accounts are held, none above those still to lock. -/
structure Ascending (held : List (Key × LockMode)) (accounts : List Uuid) : Prop where
  only : OnlyAccounts held
  below : ∀ b, (Key.account b, .update) ∈ held → ∀ a ∈ accounts, b ≤ a
  sorted : accounts.Pairwise (· ≤ ·)

theorem ascending_nil (accounts : List Uuid) :
    Ascending [] (accounts.insertionSort (· ≤ ·)) :=
  ⟨by simp [OnlyAccounts], by simp, List.pairwise_insertionSort _ _⟩

theorem Ascending.safe {a : Uuid} {accounts : List Uuid} (h : Ascending held (a :: accounts)) :
    Safe rank held (Key.account a) .update := by
  by_cases hmem : (Key.account a, .update) ∈ held
  · exact Or.inl ⟨.update, hmem, le_rfl⟩
  · refine Or.inr fun e he => ?_
    obtain ⟨b, rfl⟩ := h.only e he
    have hne : b ≠ a := by
      rintro rfl
      exact hmem he
    have hlt := lt_of_le_of_ne (h.below b he a List.mem_cons_self) hne
    simpa [rank, Prod.Lex.toLex_lt_toLex] using hlt

theorem Ascending.lock {a : Uuid} {accounts : List Uuid} (h : Ascending held (a :: accounts)) :
    Ascending ((Key.account a, .update) :: held) accounts where
  only e he := by
    rcases List.mem_cons.mp he with rfl | he
    · exact ⟨a, rfl⟩
    · exact h.only e he
  below b hb c hc := by
    rcases List.mem_cons.mp hb with heq | hb
    · obtain rfl := Key.account.inj (Prod.mk.inj heq).1
      exact List.rel_of_pairwise_cons h.sorted hc
    · exact h.below b hb c (List.mem_cons_of_mem _ hc)
  sorted := h.sorted.of_cons

theorem HoldsAccounts.of_sorted {accounts : List Uuid}
    (h : HoldsAccounts held (accounts.insertionSort (· ≤ ·))) : HoldsAccounts held accounts :=
  fun a ha => h a ((List.perm_insertionSort _ _).mem_iff.mpr ha)

theorem HoldsAccounts.cons {held' : List (Key × LockMode)} {a : Uuid} {accounts : List Uuid}
    (hsub : (Key.account a, .update) :: held ⊆ held') (h : HoldsAccounts held' accounts) :
    HoldsAccounts held' (a :: accounts) := by
  intro b hb
  rcases List.mem_cons.mp hb with rfl | hb
  · exact hsub List.mem_cons_self
  · exact h b hb

theorem order_lockAccounts {userId : Uuid} {accounts : List Uuid} {next : Unit → Handler γ}
    (hasc : Ascending held accounts)
    (h : ∀ held', held ⊆ held' → OnlyAccounts held' → HoldsAccounts held' accounts →
      Ordered rank (next ()) (some held')) :
    Ordered rank ((lockAccounts userId accounts).bind next) (some held) := by
  induction accounts generalizing held with
  | nil => exact h held (List.Subset.refl _) hasc.only (by simp [HoldsAccounts])
  | cons a accounts ih =>
      simp only [lockAccounts, Prog.bind_eq, Prog.bind_assoc]
      refine order_fetchOr hasc.safe rfl fun _ => ih hasc.lock fun held' hsub honly hholds => ?_
      exact h held' (List.subset_of_cons_subset hsub) honly (hholds.cons hsub)

theorem order_lockTransferAccounts {userId fromAccountId : Uuid} {accounts : List Uuid}
    {currencies : Option String × Option String}
    {next : Option String × Option String → Handler γ} (hasc : Ascending held accounts)
    (h : ∀ currencies held', held ⊆ held' → OnlyAccounts held' → HoldsAccounts held' accounts →
      Ordered rank (next currencies) (some held')) :
    Ordered rank ((lockTransferAccounts userId fromAccountId accounts currencies).bind next)
      (some held) := by
  induction accounts generalizing held currencies with
  | nil => exact h currencies held (List.Subset.refl _) hasc.only (by simp [HoldsAccounts])
  | cons a accounts ih =>
      simp only [lockTransferAccounts, Prog.bind_eq, Prog.bind_assoc]
      refine order_fetchOr hasc.safe rfl fun _ => order_failIf fun _ => ?_
      split
      all_goals
        refine ih hasc.lock fun currencies' held' hsub honly hholds => ?_
        exact h currencies' held' (List.subset_of_cons_subset hsub) honly (hholds.cons hsub)

theorem order_insertMovement {row : MovementRow} {next : Uuid → Handler γ}
    (haccount : ∀ a, refersToAccount a row = true → Covered held (Key.account a) .keyShare)
    (hcategory : ∀ id c, row.categoryId = some c →
      Safe rank ((Key.movement id, .update) :: held) (Key.category c) .keyShare)
    (hsubscription : ∀ id, row.subscriptionId = some id →
      Covered held (Key.subscription id) .keyShare)
    (h : ∀ id held', held ⊆ held' → Ordered rank (next id) (some held')) :
    Ordered rank ((insertMovement toErr row).bind next) (some held) := by
  unfold insertMovement
  simp only [Prog.bind_eq, Prog.bind_assoc]
  refine order_freshId fun id => ?_
  have hsub := List.subset_cons_self (Key.movement id, LockMode.update) held
  refine order_covered ⟨.update, List.mem_cons_self, le_rfl⟩ fun _ _ => ?_
  refine order_foreignKeyCovered ((haccount _ (by simp [refersToAccount])).mono hsub) ?_
  refine order_foreignKeyOpt (hcategory id) fun held' hsub' => ?_
  refine order_foreignKeyOptCovered (fun b hb => ?_) ?_
  · exact (hsubscription b hb).mono (List.Subset.trans hsub hsub')
  refine order_foreignKeyOptCovered (fun b hb => ?_) ?_
  · exact (haccount b (by simp [refersToAccount, hb])).mono (List.Subset.trans hsub hsub')
  exact h id held' (List.Subset.trans hsub hsub')

theorem order_recheckMovement {old new : MovementRow} {next : Unit → Handler γ}
    (haccount : Covered held (Key.account new.accountId) .keyShare)
    (hcategory : ∀ c, Safe rank held (Key.category c) .keyShare)
    (h : ∀ held', Ordered rank (next ()) (some held')) :
    Ordered rank ((recheckMovement toErr old new).bind next) (some held) := by
  unfold recheckMovement
  simp only [Prog.bind_eq, Prog.bind_assoc]
  have hrecheck : Ordered rank ((whenever (old.categoryId ≠ new.categoryId) (foreignKeyOpt toErr
      .foreignKeyViolation Key.category new.categoryId)).bind next) (some held) :=
    order_whenever (fun _ => order_foreignKeyOpt (fun c _ => hcategory c) fun held' _ => h held')
      fun _ => h held
  exact order_whenever (fun _ => order_foreignKeyCovered haccount hrecheck) fun _ => hrecheck

theorem order_applyBalance {id userId : Uuid} {delta : Cents} {now : Timestamp}
    {next : Option AccountRow → Handler γ}
    (hcov : Covered held (Key.account id) .update)
    (h : ∀ b, Ordered rank (next b) (some held)) :
    Ordered rank ((execSql toErr (applyBalanceSql id userId delta now)).bind next)
      (some held) := by
  have hweak : Covered held (Key.account id) .noKeyUpdate := hcov.weaken (by decide)
  exact order_covered hweak fun b _ => h b

theorem order_reverseMovement {caller : Caller} {deleted : MovementRow}
    {next : Unit → Handler γ}
    (hcovered : ∀ a, refersToAccount a deleted = true → Covered held (Key.account a) .update)
    (h : Ordered rank (next ()) (some held)) :
    Ordered rank ((reverseMovement caller deleted).bind next) (some held) := by
  have horigin := hcovered deleted.accountId (refersToAccount_iff.mpr (Or.inl rfl))
  unfold reverseMovement
  split
  · simp only [Prog.bind_eq, Prog.bind_assoc]
    refine order_ofOption fun destination hdestination => ?_
    refine order_applyBalance horigin fun _ => order_applyBalance ?_ fun _ => h
    exact hcovered destination (refersToAccount_iff.mpr (Or.inr hdestination))
  · simp only [Prog.bind_eq, Prog.bind_assoc]
    exact order_applyBalance horigin fun _ => h

def Below (held : List (Key × LockMode)) (n : Nat) : Prop :=
  ∀ e ∈ held, rank e.1 < toLex (n, 0)

theorem OnlyAccounts.below (h : OnlyAccounts held) : Below held 1 := by
  intro e he
  obtain ⟨a, rfl⟩ := h e he
  simp [rank, Prod.Lex.toLex_lt_toLex]

theorem Below.cons {n n' : Nat} (h : Below held n) {k : Key} (hk : rank k = toLex (n, 0))
    (m : LockMode) (hn : n < n') : Below ((k, m) :: held) n' := by
  have hlt : toLex (n, 0) < toLex (n', 0) := by
    simpa [Prod.Lex.toLex_lt_toLex] using hn
  intro e he
  rcases List.mem_cons.mp he with rfl | he
  · exact hk.trans_lt hlt
  · exact (h e he).trans hlt

theorem Below.safe {n : Nat} (h : Below held n) {k : Key} (hk : rank k = toLex (n, 0))
    (m : LockMode) : Safe rank held k m :=
  Or.inr fun e he => hk ▸ h e he

theorem OnlyAccounts.safe_category (h : OnlyAccounts held) (id c : Uuid) (m m' : LockMode) :
    Safe rank ((Key.movement id, m) :: held) (Key.category c) m' := by
  have hbelow : Below ((Key.movement id, m) :: held) 3 := h.below.cons rfl m (by decide)
  exact hbelow.safe rfl m'

theorem order_insertSeedCategory {userId : Uuid} {next : Uuid → Handler γ}
    (h : ∀ id held', held ⊆ held' → (Key.category id, .update) ∈ held' →
      Ordered rank (next id) (some held')) :
    Ordered rank ((insertSeedCategory userId).bind next) (some held) := by
  unfold insertSeedCategory
  simp only [Prog.bind_eq, Prog.bind_assoc]
  refine order_freshId fun id => ?_
  refine order_covered ⟨.update, List.mem_cons_self, le_rfl⟩ fun _ _ => ?_
  exact h id _ (List.subset_cons_self _ _) List.mem_cons_self

theorem order_seedCategory {userId : Uuid} {next : Uuid → Handler γ} (hbelow : Below held 2)
    (h : ∀ id held', held ⊆ held' → (Key.category id, .update) ∈ held' →
      Ordered rank (next id) (some held')) :
    Ordered rank ((seedCategorySql userId).bind next) (some held) := by
  unfold seedCategorySql
  simp only [Prog.bind_eq, Prog.bind_assoc]
  refine order_execSql (hbelow.safe rfl _) (order_insertSeedCategory h) fun existing _ => ?_
  have hslot := List.subset_cons_self
    (Key.categoryName userId .finance seedName, LockMode.update) held
  have hinsert : ∀ held', held ⊆ held' →
      Ordered rank ((insertSeedCategory userId).bind next) (some held') := by
    intro held' hsub
    refine order_insertSeedCategory fun id held'' hsub' hmem => ?_
    exact h id held'' (List.Subset.trans hsub hsub') hmem
  cases existing.join with
  | none => exact hinsert _ hslot
  | some id =>
      simp only [Prog.bind_assoc]
      have hsafe : Below ((Key.categoryName userId .finance seedName, .update) :: held) 3 :=
        hbelow.cons rfl _ (by decide)
      refine order_execSql (hsafe.safe rfl _) (hinsert _ hslot) fun row _ => ?_
      have hrow := List.Subset.trans hslot
        (List.subset_cons_self (Key.category id, LockMode.update) _)
      cases row with
      | none => exact hinsert _ hrow
      | some row => exact h id _ hrow List.mem_cons_self

end Rules

theorem ordered_createMovementHandler (caller : Caller) (body : CreateMovementRequest) :
    Ordered rank (createMovementHandler caller body) none := by
  unfold createMovementHandler
  simp only [Prog.bind_eq, Prog.pure_eq]
  refine order_ofExcept fun direction _ => order_ofExcept fun amount _ => ?_
  refine order_ofExcept fun occurredOn _ => order_ofExcept fun description _ => ?_
  refine order_ensureOwnedAccount (order_beginTx ?_)
  refine order_fetchOr (Or.inr (by simp)) rfl fun _ => ?_
  have honly : OnlyAccounts [(Key.account body.accountId, .update)] := by
    simp [OnlyAccounts]
  have hholds : HoldsAccounts [(Key.account body.accountId, .update)] [body.accountId] := by
    simp [HoldsAccounts]
  refine order_select fun _ => order_ofOption fun _ _ => order_failIf fun _ => ?_
  refine order_ensureOwnedCategory ?_
  refine order_insertMovement (fun a ha => ?_) (fun id c _ => honly.safe_category id c _ _)
    (fun id hid => by cases hid) fun id held' hsub => ?_
  · rcases refersToAccount_iff.mp ha with rfl | htransfer
    · exact hholds.covered (by simp [insertMovementRow]) _
    · cases htransfer
  · refine order_applyBalance ((hholds.covered (by simp) _).mono hsub) fun _ => ?_
    exact order_commitTx (order_ret _)

theorem ordered_createTransferHandler (caller : Caller) (body : CreateTransferRequest) :
    Ordered rank (createTransferHandler caller body) none := by
  unfold createTransferHandler
  simp only [Prog.bind_eq, Prog.pure_eq]
  refine order_ofExcept fun amount _ => order_ofExcept fun occurredOn _ => ?_
  refine order_ofExcept fun description _ => ?_
  refine order_ensureOwnedAccount (order_ensureOwnedAccount (order_failIf fun _ => ?_))
  refine order_beginTx (order_lockTransferAccounts (ascending_nil _) ?_)
  intro currencies held _ _ hsorted
  have hholds := hsorted.of_sorted
  have hfrom : Covered held (Key.account body.fromAccountId) .update :=
    hholds.covered (by simp) _
  have hto : Covered held (Key.account body.toAccountId) .update :=
    hholds.covered (by simp) _
  refine order_ofOption fun _ _ => order_ofOption fun _ _ => order_failIf fun _ => ?_
  refine order_insertMovement (fun a ha => ?_) (fun id c hc => nomatch hc)
    (fun id hid => nomatch hid) fun id held' hsub => ?_
  · rcases refersToAccount_iff.mp ha with rfl | htransfer
    · exact hholds.covered (by simp [insertTransferRow]) _
    · obtain rfl := Option.some.inj htransfer
      exact hholds.covered (by simp) _
  · refine order_applyBalance (hfrom.mono hsub) fun _ => ?_
    refine order_applyBalance (hto.mono hsub) fun _ => ?_
    exact order_commitTx (order_ret _)

theorem accountId_of_yields_updateMovement {id userId : Uuid} {new row : MovementRow}
    {now : Timestamp} (h : Yields (updateMovementSql id userId new now) (some row)) :
    row.accountId = new.accountId := by
  obtain ⟨sn, cur, c, hyield⟩ := h
  simp only [updateMovementSql, updateRow] at hyield
  split at hyield
  · cases hyield
  · rename_i m _
    cases hchecks : movementChecks (updateMovementRow new now m) with
    | error e => simp [hchecks, Except.map] at hyield
    | ok u =>
        simp only [hchecks, Except.map] at hyield
        obtain ⟨-, hrow⟩ := Prod.mk.inj (Except.ok.inj hyield)
        rw [← Option.some.inj hrow]
        rfl

theorem order_applyPatch {held : List (Key × LockMode)} (caller : Caller) (id : Uuid)
    (patch : MovementPatch) {accountId : Uuid} {locked : MovementRow}
    (hfrom : Covered held (Key.account locked.accountId) .update)
    (hto : Covered held (Key.account accountId) .update)
    (hmovement : Covered held (Key.movement id) .noKeyUpdate)
    (hcategory : ∀ c, Safe rank held (Key.category c) .keyShare) :
    Ordered rank (applyPatch caller id patch accountId locked) (some held) := by
  have hkey : Covered held (Key.account accountId) .keyShare := hto.weaken (by decide)
  unfold applyPatch
  simp only [Prog.bind_eq, Prog.pure_eq]
  refine order_whenever (fun _ => order_ensureRepointable ?_) fun _ => ?_
  all_goals
    refine order_ensureOwnedCategoryOpt ?_
    refine order_applyBalance hfrom fun _ => order_applyBalance hto fun _ => ?_
    refine order_fetchCovered hmovement rfl fun row hrow => ?_
    have haccount := accountId_of_yields_updateMovement hrow
    refine order_recheckMovement (haccount ▸ hkey) hcategory fun _ => ?_
    exact order_commitTx (order_ret _)

theorem ordered_patchAttempts (caller : Caller) (id : Uuid) (patch : MovementPatch) (n : Nat)
    (snapshot : MovementRow) :
    Ordered rank (patchAttempts caller id patch n snapshot) none := by
  induction n generalizing snapshot with
  | zero => exact order_throw _
  | succ n ih =>
      simp only [patchAttempts, Prog.bind_eq]
      refine order_beginTx (order_lockAccounts (ascending_nil _) fun held _ honly hsorted => ?_)
      have hholds := hsorted.of_sorted
      refine order_fetchOr (honly.below.safe rfl _) rfl fun locked => ?_
      refine order_ofExcept fun _ _ => ?_
      split
      · refine order_rollbackTx (order_select fun _ => order_ofOption fun snapshot' _ => ?_)
        exact ih snapshot'
      · rename_i hsame
        have hsub := List.subset_cons_self (Key.movement id, LockMode.update) held
        refine order_applyPatch caller id patch ?_ ?_ ⟨.update, List.mem_cons_self, by decide⟩
          fun c => honly.safe_category id c _ _
        · rw [not_not.mp hsame]
          refine (hholds.covered ?_ _).mono hsub
          split <;> simp
        · refine (hholds.covered ?_ _).mono hsub
          split
          · simp
          · rename_i heq
            simp [not_not.mp heq]

theorem ordered_deleteAttempts (caller : Caller) (id : Uuid) (n : Nat)
    (snapshot : MovementRow) :
    Ordered rank (deleteAttempts caller id n snapshot) none := by
  induction n generalizing snapshot with
  | zero => exact order_throw _
  | succ n ih =>
      simp only [deleteAttempts, Prog.bind_eq]
      refine order_beginTx (order_lockAccounts (ascending_nil _) fun held _ honly hsorted => ?_)
      refine order_fetchOr (honly.below.safe rfl _) rfl fun deleted => ?_
      split
      · refine order_rollbackTx (order_select fun _ => order_ofOption fun snapshot' _ => ?_)
        exact ih snapshot'
      · rename_i hsame
        have hcovered : ∀ a, refersToAccount a deleted = true →
            Covered ((Key.movement id, .update) :: held) (Key.account a) .update := by
          intro a ha
          have hmem : a ∈ accountsOf snapshot := not_not.mp hsame ▸ mem_accountsOf.mpr ha
          exact (hsorted.covered hmem _).mono (List.subset_cons_self _ _)
        exact order_reverseMovement hcovered (order_commitTx (order_ret _))

theorem ordered_patchMovementHandler (caller : Caller) (id : Uuid)
    (body : PatchMovementRequest) :
    Ordered rank (patchMovementHandler caller id body) none := by
  unfold patchMovementHandler
  simp only [Prog.bind_eq]
  refine order_select fun _ => order_ofOption fun snapshot _ => order_ofExcept fun _ _ => ?_
  refine order_ofExcept fun _ _ => order_ofExcept fun _ _ => ?_
  refine order_ofExcept fun _ _ => order_ofExcept fun _ _ => order_ensureOwnedAccountOpt ?_
  exact ordered_patchAttempts caller id _ _ snapshot

theorem ordered_deleteMovementHandler (caller : Caller) (id : Uuid) :
    Ordered rank (deleteMovementHandler caller id) none := by
  unfold deleteMovementHandler
  simp only [Prog.bind_eq]
  refine order_select fun _ => order_ofOption fun snapshot _ => ?_
  exact ordered_deleteAttempts caller id _ snapshot

theorem ordered_paySubscriptionHandler (caller : Caller) (today : NaiveDate)
    (id accountId : Uuid) :
    Ordered rank (paySubscriptionHandler caller today id accountId) none := by
  unfold paySubscriptionHandler
  simp only [Prog.bind_eq, Prog.pure_eq]
  refine order_beginTx (order_fetchOr (Or.inr (by simp)) rfl fun currency => ?_)
  have honly : OnlyAccounts [(Key.account accountId, .update)] := by
    simp [OnlyAccounts]
  refine order_fetchOr (honly.below.safe rfl _) rfl fun sub => ?_
  refine order_failIf fun _ => order_failIf fun _ => order_failIf fun _ => ?_
  refine order_failIf fun _ => order_failIf fun _ => ?_
  have hbelow : Below [(Key.subscription id, .update), (Key.account accountId, .update)] 2 :=
    honly.below.cons rfl _ (by decide)
  refine order_seedCategory hbelow fun categoryId held hsub hcategory => ?_
  have haccount : Covered held (Key.account accountId) .update :=
    ⟨.update, hsub (List.mem_cons_of_mem _ List.mem_cons_self), le_rfl⟩
  have hsubscription : Covered held (Key.subscription id) .update :=
    ⟨.update, hsub List.mem_cons_self, le_rfl⟩
  refine order_insertMovement (fun a ha => ?_) (fun mid c hc => ?_) (fun sid hsid => ?_)
    fun mid held' hsub' => ?_
  · rcases refersToAccount_iff.mp ha with rfl | htransfer
    · exact haccount.weaken (by decide)
    · exact nomatch htransfer
  · obtain rfl : categoryId = c := Option.some.inj hc
    exact Or.inl ⟨.update, List.mem_cons_of_mem _ hcategory, by decide⟩
  · obtain rfl : id = sid := Option.some.inj hsid
    exact hsubscription.weaken (by decide)
  · refine order_applyBalance (haccount.mono hsub') fun _ => ?_
    have hpaid : Covered held' (Key.subscription id) .noKeyUpdate :=
      (hsubscription.mono hsub').weaken (by decide)
    exact order_fetchCovered hpaid rfl fun row _ => order_commitTx (order_ret _)

inductive MoneyRequest where
  | createMovement (body : CreateMovementRequest)
  | createTransfer (body : CreateTransferRequest)
  | patchMovement (id : Uuid) (body : PatchMovementRequest)
  | deleteMovement (id : Uuid)
  | paySubscription (today : NaiveDate) (id accountId : Uuid)

def MoneyRequest.toLedger : MoneyRequest → LedgerRequest
  | createMovement body => .createMovement body
  | createTransfer body => .createTransfer body
  | patchMovement id body => .patchMovement id body
  | deleteMovement id => .deleteMovement id
  | paySubscription today id accountId => .paySubscription today id accountId

theorem ordered_serve (caller : Caller) (r : MoneyRequest) :
    Ordered rank (serve caller r.toLedger) none := by
  cases r with
  | createMovement body => exact (ordered_createMovementHandler caller body).map _
  | createTransfer body => exact (ordered_createTransferHandler caller body).map _
  | patchMovement id body => exact (ordered_patchMovementHandler caller id body).map _
  | deleteMovement id => exact (ordered_deleteMovementHandler caller id).map _
  | paySubscription today id accountId =>
      exact (ordered_paySubscriptionHandler caller today id accountId).map _

/-- Concurrent money requests never wait for one another in a cycle, and every
attempt of a request starts without a lock. -/
theorem deadlock_free {ι : Type} [DecidableEq ι] (db : Db)
    (requests : ι → Caller × MoneyRequest) (cs : List (Choice ι)) :
    let s := run .internal
      (start db fun i => serve (requests i).1 (requests i).2.toLedger) cs
    (∀ i, ¬ Relation.TransGen (WaitsFor s) i i) ∧
      ∀ i next, (s.procs i).prog = .begin next → ∀ l ∈ s.locks, l.proc ≠ i := by
  intro s
  have hs : LocksSound rank s := LocksSound.run
    (locksSound_start fun i => ordered_serve (requests i).1 (requests i).2) .internal cs
  refine ⟨hs.acyclic, fun i next hprog l hl => ?_⟩
  exact hs.not_mem_locks_of_tx_none (hs.tx_none_of_begin hprog) hl

end PersonalDashboard.LedgerLockOrder
