import PersonalDashboard.MovementTransactions

/-! The payments of subscriptions, and the account, category and subscription
writes, keep to the ledger's contract. -/

set_option autoImplicit false

namespace PersonalDashboard.AccountTransactions

open PersonalDashboard.Bookkeeping
open PersonalDashboard.BillingDates
open PersonalDashboard.Calendar
open PersonalDashboard.LedgerContract
open PersonalDashboard.LedgerHandlers
open PersonalDashboard.MovementTransactions
open PersonalDashboard.ReadCommitted
open PersonalDashboard.RowStatements
open PersonalDashboard.RowStore
open PersonalDashboard.Schema
open PersonalDashboard.TransactionLogic
open PersonalDashboard.TransactionLogic.Contract

def isCategory : Key → Bool
  | .category _ => true
  | _ => false

section Rules

variable {γ : Type} {G : Db → Db → Prop} {t : ledger.Open} {done : List (Db × Db)}
  {post : ledger.Post γ}

theorem seq_insertSeedCategory {userId : Uuid} {next : Uuid → Handler γ}
    (herr : post.MayFail done)
    (h : ∀ id t', Confined t t' isCategory → ledger.wp G (next id) post (some t') done) :
    ledger.wp G ((insertSeedCategory userId).bind next) post (some t) done := by
  unfold insertSeedCategory
  simp only [Prog.bind_eq, Prog.bind_assoc, Prog.pure_eq, Prog.ret_bind]
  refine seq_freshId herr fun id t₁ h₁ _ _ => ?_
  refine seq_insert herr fun _ t₂ h₂ _ _ => ?_
  exact h id t₂ ((Confined.of_step h₁ fun _ _ _ => rfl).trans (.of_put h₂ rfl))

theorem seq_seedCategorySql {userId : Uuid} {next : Uuid → Handler γ}
    (herr : post.MayFail done)
    (h : ∀ id t', Confined t t' isCategory → ledger.wp G (next id) post (some t') done) :
    ledger.wp G ((seedCategorySql userId).bind next) post (some t) done := by
  unfold seedCategorySql
  simp only [Prog.bind_eq, Prog.bind_assoc, Prog.pure_eq]
  refine seq_lockSlot herr fun c t₁ h₁ _ => ?_
  have hslot : Confined t t₁ isCategory := .of_step h₁ fun _ _ _ => rfl
  split
  · exact seq_insertSeedCategory herr fun id t₂ h₂ => h id t₂ (hslot.trans h₂)
  · rename_i id _
    simp only [Prog.bind_assoc]
    refine seq_tryUpdate rfl herr (fun _ _ _ => ?_) fun _ r' t₂ hup => ?_
    · simp only [Option.isSome_none, Bool.false_eq_true, if_false]
      exact seq_insertSeedCategory herr fun id' t₂ h₂ => h id' t₂ (hslot.trans h₂)
    · simp only [Option.isSome_some, if_true, Prog.ret_bind]
      exact h id t₂ (hslot.trans (.of_put hup.step rfl))

end Rules

theorem wp_paySubscriptionHandler (caller : Caller) (today : NaiveDate) (id accountId : Uuid) :
    ledger.wp (Effect caller (.paySubscription today id accountId))
      (paySubscriptionHandler caller today id accountId) (ledger.atomically _) none [] := by
  have herr := mayFail_atomically ledger (Stored SubscriptionRow)
  unfold paySubscriptionHandler
  simp only [Prog.bind_eq, Prog.pure_eq]
  refine seq_beginTx herr ?_
  refine seq_fetchFor rfl herr fun (r : AccountRow) t₁ h₁ hown hr => ?_
  have huser : r.userId = caller.userId := by simpa [ownAccount] using hown
  refine seq_fetchFor rfl herr fun (sub : SubscriptionRow) t₂ h₂ _ hsub => ?_
  refine seq_failIf herr fun _ => seq_failIf herr fun _ => seq_failIf herr fun _ => ?_
  refine seq_failIf herr fun _ => seq_failIf herr fun hdue => ?_
  refine seq_seedCategorySql herr fun categoryId t₃ h₃ => ?_
  have hview₃ : ∀ c, Sees t₃ c → ∀ k, isCategory k = false → (t₃.view c).lookup k = c.lookup k := by
    intro c hc k hk
    have hc₂ := h₃.sees c hc
    rw [h₃.rows c hc k hk, h₂.view c hc₂, id_eq, h₁.view c (h₂.sees c hc₂), id_eq, view_empty]
  have hacc : ∀ c, Sees t₃ c → Db.account c accountId = some r :=
    fun c hc => hr c (h₂.sees c (h₃.sees c hc))
  have hsub : ∀ c, Sees t₃ c → Db.subscription c id = some sub := by
    intro c hc
    have hrow := hsub c (h₃.sees c hc)
    rwa [h₁.view c (h₂.sees c (h₃.sees c hc))] at hrow
  generalize hrow : payInsertMovementRow caller today id accountId categoryId sub.price = row
  obtain ⟨hdirection, haccountId, hdest, hprice, howner⟩ : row.direction = .expense ∧
      row.accountId = accountId ∧ row.transferAccountId = none ∧ row.amount = sub.price ∧
      row.userId = caller.userId := by
    simp [← hrow, payInsertMovementRow]
  refine seq_insertMovement herr fun movementId t₄ h₄ hfresh hchecks => ?_
  refine seq_applyBalance herr (fun c hc => ⟨r, ?_, huser⟩) fun r₁ t₅ h₅ hr₁ => ?_
  · have hc₃ := h₄.sees c hc
    rw [h₄.view c hc, Db.account_put_of_ne (by simp)]
    exact (hview₃ c hc₃ _ rfl).trans (hacc c hc₃)
  refine seq_fetchUpdate rfl herr fun (sub₁ sub' : SubscriptionRow) t₆ h₆ => ?_
  refine seq_commitTx herr (fun c hc => ?_) fun c hc => (wp_ret _ _).mpr rfl
  have hc₅ := h₆.step.sees c hc
  have hc₄ := h₅.sees c hc₅
  have hc₃ := h₄.sees c hc₄
  have hbalance := hr₁ c hc₅
  have hsub₁ := h₆.old c hc
  rw [h₄.view c hc₄] at hbalance
  rw [h₅.view c hc₅, h₄.view c hc₄] at hsub₁
  obtain rfl : sub₁ = sub := by
    rw [lookup_put_of_ne (by simp), lookup_put_of_ne (by simp), hview₃ c hc₃ _ rfl] at hsub₁
    exact Option.some.inj (hsub₁.symm.trans (hsub c hc₃))
  obtain ⟨_, _, _, _, _, hsub'⟩ := h₆.admitted
  obtain rfl := Except.ok.inj hsub'
  have hunchanged : ∀ k, isPaid id k = false ∨ isBook k = true →
      (t₃.view c).lookup k = c.lookup k :=
    fun k hk => hview₃ c hc₃ k (by cases k <;> simp_all [isPaid, isBook, isCategory])
  have hdraft := ((Draft.of_unchanged hunchanged movementId).setMovement rfl (some row)).credit
    rfl hbalance (-sub₁.price) caller.now
  rw [hfresh c hc₄] at hdraft
  have hview₆ := h₆.step.view c hc
  rw [h₅.view c hc₅, h₄.view c hc₄] at hview₆
  have hposting : Posting (isPaid id) c (t₆.view c) movementId none (some row) := by
    rw [hview₆]
    refine (hdraft.setOther (by simp [isPaid]) (by simp) (by simp) _).posting fun a => ?_
    simp [leg_of_ne_transfer, hdirection, haccountId, hprice, signedDelta]
  have hbook : Booking (isPaid id) c (t₆.view c) movementId none (some row) := by
    refine ⟨hposting, fun m hm => ?_⟩
    obtain rfl := Option.some.inj hm
    exact movementOk_of_checks hchecks (haccountId ▸ hacc c hc₃) (huser.trans howner.symm)
      (by simp [hdest])
  refine hbook.publishable hc (fun a ha => ?_)
    ⟨movementId, categoryId, sub₁, hsub c hc₃, hdue, hrow ▸ hbook, ?_⟩
  · have ha : a = accountId := by
      simpa [refersToAccount, haccountId, hdest, eq_comm] using ha
    rw [ha]
    exact (h₆.step.locks _).mpr (Or.inr ((h₅.locks _).mpr (Or.inl rfl)))
  · rw [hview₆]
    exact Db.subscription_put_self _

theorem holder_patchAccountRow (body : PatchAccountRequest) (balance : Option Cents)
    (now : Timestamp) (r : AccountRow) : holder (patchAccountRow body balance now r) = holder r :=
  rfl

theorem wp_patchAccountHandler (caller : Caller) (id : Uuid) (body : PatchAccountRequest) :
    ledger.wp (Effect caller (.patchAccount id body)) (patchAccountHandler caller id body)
      (ledger.atomically _) none [] := by
  have herr := mayFail_atomically ledger (Stored AccountRow)
  unfold patchAccountHandler
  simp only [Prog.bind_eq, Prog.pure_eq]
  refine seq_ofExcept herr fun _ _ => seq_failIf herr fun _ => ?_
  refine seq_ofExcept herr fun balance hbalance => ?_
  have hnone : body.balance.isNone → balance.map Validation.Decimal.cents = none := by
    intro h
    rw [Option.isNone_iff_eq_none.mp h] at hbalance
    obtain rfl := Except.ok.inj hbalance
    rfl
  refine seq_beginTx herr ?_
  refine seq_fetchUpdate rfl herr fun (r r' : AccountRow) t hup => ?_
  refine seq_commitTx herr (fun c hc => ?_) fun c hc => (wp_ret _ _).mpr rfl
  obtain ⟨_, _, _, _, _, hr'⟩ := hup.admitted
  obtain rfl := Except.ok.inj hr'
  have hr : Db.account c id = some r := hup.old c hc
  have hview := hup.step.view c hc
  rw [view_empty] at hview
  refine publishable_of_kept ?_ hc (fun a _ => ?_) ⟨r, _, hr, hnone, hview⟩
  · refine movementsKept_of_eq fun m => ?_
    rw [hview, Db.movement_put_of_ne (by simp)]
  · rw [hview]
    by_cases ha : a = id
    · subst ha
      rw [Db.account_put_self, hr, Option.map_some, Option.map_some, holder_patchAccountRow]
    · rw [Db.account_put_of_ne (by simpa using ha)]

section Deletions

variable {t t' : ledger.Open} {c : Db} {key : Key} {ref : (k : Key) → Row k → Option Uuid}
  {id : Uuid} {clear : (k : Key) → Row k → Row k}

theorem deletion_of_rewritten (h : ({} : ledger.Open).Step t key fun s => put s key none)
    (h' : Rewritten t t' (fun k r => ref k r = some id) clear) (hc : Sees t' c) :
    Deletion key ref id clear c (t'.view c) := by
  have hview := h.view c (h'.sees c hc)
  rw [view_empty] at hview
  have hrows := h'.rows c hc
  rw [hview] at hrows
  constructor
  · rcases hrows key with heq | ⟨r, hr, _, _⟩
    · rw [heq, lookup_put_self]
    · simp at hr
  · intro k hk
    have hrow := hrows k
    rw [lookup_put_of_ne hk] at hrow
    simpa using hrow

theorem Deletion.publishable {G : Db → Db → Prop} (h : Deletion key ref id clear c (t.view c))
    (hf : Forgets ref clear) (hc : Sees t c) (hkey : ∀ m, Key.movement m ≠ key)
    (hunused : ∀ a, Key.account a = key → ∀ m, (c.movement m).any (refersToAccount a) = false)
    (hG : G c (t.view c)) : ledger.Publishable G t c := by
  refine publishable_of_kept (h.movementsKept hf hkey) hc (fun a ⟨m, hm⟩ => ?_) hG
  rw [h.account_eq hf]
  rintro rfl
  simp [hunused a rfl m] at hm

end Deletions

theorem wp_deleteCategoryHandler (caller : Caller) (id : Uuid) :
    ledger.wp (Effect caller (.deleteCategory id)) (deleteCategoryHandler caller id)
      (ledger.atomically _) none [] := by
  have herr := mayFail_atomically ledger Unit
  unfold deleteCategoryHandler
  simp only [Prog.bind_eq]
  refine seq_beginTx herr ?_
  refine seq_fetchDelete herr fun _ t₁ h₁ _ _ => ?_
  refine seq_updateWhere (fun k r => by simp [(forgets_category _).cleared]) herr fun t₂ h₂ => ?_
  refine wp_commitTx (herr _ _) fun c hc => ⟨?_, rfl⟩
  have hdel := deletion_of_rewritten h₁ h₂ hc
  exact Deletion.publishable hdel (forgets_category _) hc (by simp) (by simp) hdel

theorem wp_deleteSubscriptionHandler (caller : Caller) (id : Uuid) :
    ledger.wp (Effect caller (.deleteSubscription id)) (deleteSubscriptionHandler caller id)
      (ledger.atomically _) none [] := by
  have herr := mayFail_atomically ledger Unit
  unfold deleteSubscriptionHandler
  simp only [Prog.bind_eq]
  refine seq_beginTx herr ?_
  refine seq_fetchDelete herr fun _ t₁ h₁ _ _ => ?_
  refine seq_updateWhere (fun k r => by simp [(forgets_subscription _).cleared]) herr
    fun t₂ h₂ => ?_
  refine wp_commitTx (herr _ _) fun c hc => ⟨?_, rfl⟩
  have hdel := deletion_of_rewritten h₁ h₂ hc
  exact Deletion.publishable hdel (forgets_subscription _) hc (by simp) (by simp) hdel

theorem movement_any_of_movementsWhere {p : MovementRow → Bool} {s : Db}
    (h : (movementsWhere p s).isEmpty) (m : Uuid) : (s.movement m).any p = false := by
  rw [Bool.eq_false_iff]
  intro hany
  obtain ⟨r, hr, hp⟩ := (Option.any_eq_true _ _).mp hany
  have hmem : Key.movement m ∈ movementsWhere p s := mem_keysWhere.mpr ⟨r, hr, hp⟩
  rw [List.isEmpty_iff.mp h] at hmem
  cases hmem

theorem wp_deleteAccountHandler (caller : Caller) (id : Uuid) :
    ledger.wp (Effect caller (.deleteAccount id)) (deleteAccountHandler caller id)
      (ledger.atomically _) none [] := by
  have herr := mayFail_atomically ledger Unit
  unfold deleteAccountHandler
  simp only [Prog.bind_eq]
  refine seq_select herr fun _ _ => seq_failIf herr fun _ => ?_
  refine seq_select herr fun _ _ => seq_failIf herr fun _ => ?_
  refine seq_beginTx herr ?_
  refine seq_fetchDelete herr fun _ t₁ h₁ _ _ => ?_
  refine seq_updateWhere (fun k r => by simp [(forgets_account _).cleared]) herr fun t₂ h₂ => ?_
  refine seq_select herr fun c₁ hc₁ => seq_failIf herr fun hunused => ?_
  refine wp_commitTx (herr _ _) fun c hc => ⟨?_, rfl⟩
  have hdel := deletion_of_rewritten h₁ h₂ hc
  have hlocked : t₂.Locks (Key.account id) := h₂.locks _ ((h₁.locks _).mpr (Or.inl rfl))
  -- the movements on the locked account are the same in every store it can see
  have hunused : ∀ m, (Db.movement c m).any (refersToAccount id) = false := by
    intro m
    have hkept := (deletion_of_rewritten h₁ h₂ hc₁).movementsKept (forgets_account _) (by simp)
    have hregion := congrFun (congrArg Prod.snd (region_congr t₂ hlocked hc hc₁)) m
    refine hregion.trans ((any_refersToAccount_of_rel (hkept m) id).symm.trans ?_)
    exact movement_any_of_movementsWhere (by simpa using hunused) m
  exact Deletion.publishable hdel (forgets_account _) hc (by simp)
    (fun a ha m => by rw [Key.account.inj ha]; exact hunused m) ⟨hdel, hunused⟩

end PersonalDashboard.AccountTransactions
