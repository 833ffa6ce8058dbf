import PersonalDashboard.LedgerContract

/-! The movement handlers keep to the ledger's contract. -/

set_option autoImplicit false

namespace PersonalDashboard.MovementTransactions

open PersonalDashboard.Bookkeeping
open PersonalDashboard.LedgerContract
open PersonalDashboard.LedgerHandlers
open PersonalDashboard.ReadCommitted
open PersonalDashboard.RowStatements
open PersonalDashboard.RowStore
open PersonalDashboard.Schema
open PersonalDashboard.TransactionLogic
open PersonalDashboard.TransactionLogic.Contract

/-- Some accounts that satisfy `P` are locked, and nothing else has happened. -/
structure Held (t t' : ledger.Open) (P : Uuid → AccountRow → Prop) (accounts : List Uuid) :
    Prop where
  sees : ∀ c, Sees t' c → Sees t c
  view : ∀ c, Sees t' c → t'.view c = t.view c
  mono : ∀ k, t.Locks k → t'.Locks k
  locks : ∀ a ∈ accounts, t'.Locks (Key.account a)
  rows : ∀ a ∈ accounts, ∃ r, P a r ∧ ∀ c, Sees t' c → Db.account (t.view c) a = some r

theorem Held.refl (t : ledger.Open) (P : Uuid → AccountRow → Prop) : Held t t P [] :=
  ⟨fun _ hc => hc, fun _ _ => rfl, fun _ hk => hk, by simp, by simp⟩

theorem Held.cons {t t' t'' : ledger.Open} {P : Uuid → AccountRow → Prop} {a : Uuid}
    {accounts : List Uuid} {r : AccountRow} (h : t.Step t' (Key.account a) id) (hr : P a r)
    (hacc : ∀ c, Sees t' c → Db.account (t.view c) a = some r)
    (hrest : Held t' t'' P accounts) : Held t t'' P (a :: accounts) where
  sees c hc := h.sees c (hrest.sees c hc)
  view c hc := (hrest.view c hc).trans (h.view c (hrest.sees c hc))
  mono k hk := hrest.mono k ((h.locks k).mpr (Or.inr hk))
  locks b hb := by
    rcases List.mem_cons.mp hb with rfl | hb
    · exact hrest.mono _ ((h.locks _).mpr (Or.inl rfl))
    · exact hrest.locks b hb
  rows b hb := by
    rcases List.mem_cons.mp hb with rfl | hb
    · exact ⟨r, hr, fun c hc => hacc c (hrest.sees c hc)⟩
    · obtain ⟨r', hr', hacc'⟩ := hrest.rows b hb
      refine ⟨r', hr', fun c hc => ?_⟩
      rw [← hacc' c hc, h.view c (hrest.sees c hc)]
      rfl

theorem Held.perm {t t' : ledger.Open} {P : Uuid → AccountRow → Prop}
    {accounts accounts' : List Uuid} (h : Held t t' P accounts) (hp : accounts.Perm accounts') :
    Held t t' P accounts' :=
  ⟨h.sees, h.view, h.mono, fun a ha => h.locks a (hp.mem_iff.mpr ha),
    fun a ha => h.rows a (hp.mem_iff.mpr ha)⟩

/-- What a transfer reads of the accounts it locks: they are owned and open, and
the currencies are those of its origin and of its destination. -/
def Transferable (userId fromAccountId : Uuid) (currencies : Option String × Option String)
    (a : Uuid) (r : AccountRow) : Prop :=
  r.userId = userId ∧ r.isArchived = false ∧
    (if a = fromAccountId then currencies.1 else currencies.2) = some r.currency

theorem eq_of_map_filter {β : Type} {a : Uuid} {s : Db} {r : AccountRow}
    {p : AccountRow → Bool} {f : AccountRow → β} {x : β} (hr : s.account a = some r)
    (h : ((s.account a).filter p).map f = some x) : f r = x := by
  rw [hr] at h
  obtain ⟨r', hr', rfl⟩ := Option.map_eq_some_iff.mp h
  obtain ⟨hsome, -⟩ := Option.filter_eq_some_iff.mp hr'
  rw [Option.some.inj hsome]

theorem exists_owner_credit {s : Db} {a b userId : Uuid} {r : AccountRow}
    (hr : s.account a = some r) (h : ∃ r, s.account b = some r ∧ r.userId = userId)
    (x : Cents) (now : Timestamp) :
    ∃ r', Db.account (put s (Key.account a)
      (some { r with balance := r.balance + x, updatedAt := now })) b = some r' ∧
      r'.userId = userId := by
  obtain ⟨r', hr', huser⟩ := h
  by_cases hb : b = a
  · subst hb
    obtain rfl := Option.some.inj (hr.symm.trans hr')
    exact ⟨_, Db.account_put_self _, huser⟩
  · exact ⟨r', by rw [Db.account_put_of_ne (by simpa using hb), hr'], huser⟩

section Rules

variable {γ : Type} {G : Db → Db → Prop} {t : ledger.Open} {o : Option ledger.Open}
  {done : List (Db × Db)} {toErr : SqlState → AppError} {post : ledger.Post γ}

theorem seq_ensureOwnedAccount {accountId userId : Uuid} {next : Unit → Handler γ}
    (herr : post.MayFail done) (h : ledger.wp G (next ()) post o done) :
    ledger.wp G ((ensureOwnedAccount accountId userId).bind next) post o done := by
  unfold ensureOwnedAccount
  simp only [Prog.bind_eq, Prog.bind_assoc]
  exact seq_select herr fun _ _ => seq_failIf herr fun _ => h

theorem seq_ensureOwnedCategory {categoryId userId : Uuid} {next : Unit → Handler γ}
    (herr : post.MayFail done) (h : ledger.wp G (next ()) post o done) :
    ledger.wp G ((ensureOwnedCategory categoryId userId).bind next) post o done := by
  unfold ensureOwnedCategory
  simp only [Prog.bind_eq, Prog.bind_assoc]
  exact seq_select herr fun _ _ => seq_failIf herr fun _ => h

theorem seq_ensureOwnedAccountOpt {accountId : Option Uuid} {userId : Uuid}
    {next : Unit → Handler γ} (herr : post.MayFail done)
    (h : ledger.wp G (next ()) post o done) :
    ledger.wp G ((ensureOwnedAccountOpt accountId userId).bind next) post o done := by
  cases accountId with
  | none => exact h
  | some accountId => exact seq_ensureOwnedAccount herr h

theorem seq_ensureOwnedCategoryOpt {categoryId : Option Uuid} {userId : Uuid}
    {next : Unit → Handler γ} (herr : post.MayFail done)
    (h : ledger.wp G (next ()) post o done) :
    ledger.wp G ((ensureOwnedCategoryOpt categoryId userId).bind next) post o done := by
  cases categoryId with
  | none => exact h
  | some categoryId => exact seq_ensureOwnedCategory herr h

theorem seq_recheckMovement {old new : MovementRow} {next : Unit → Handler γ}
    (herr : post.MayFail done) (h : ledger.wp G (next ()) post (some t) done) :
    ledger.wp G ((recheckMovement toErr old new).bind next) post (some t) done := by
  unfold recheckMovement
  simp only [Prog.bind_eq, Prog.bind_assoc]
  have hcategory : ledger.wp G ((whenever (old.categoryId ≠ new.categoryId)
      (foreignKeyOpt toErr .foreignKeyViolation Key.category new.categoryId)).bind next) post
      (some t) done :=
    seq_whenever (fun _ => seq_foreignKeyOpt herr h) fun _ => h
  exact seq_whenever (fun _ => seq_foreignKey herr hcategory) fun _ => hcategory

theorem seq_insertMovement {row : MovementRow} {next : Uuid → Handler γ}
    (herr : post.MayFail done)
    (h : ∀ id t', t.Step t' (Key.movement id) (fun s => put s (Key.movement id) (some row)) →
      (∀ c, Sees t' c → Db.movement c id = none) → movementChecks row = .ok () →
      ledger.wp G (next id) post (some t') done) :
    ledger.wp G ((insertMovement toErr row).bind next) post (some t) done := by
  unfold insertMovement
  simp only [Prog.bind_eq, Prog.bind_assoc]
  refine seq_freshId herr fun id t₁ h₁ _ hfresh => ?_
  refine seq_insert herr fun c t₂ h₂ _ hchecks => ?_
  refine seq_foreignKey herr (seq_foreignKeyOpt herr (seq_foreignKeyOpt herr
    (seq_foreignKeyOpt herr ?_)))
  exact h id t₂ (h₁.comp t h₂) (fun c hc => hfresh c (h₂.sees c hc)) hchecks

theorem seq_applyBalance {a userId : Uuid} {δ : Cents} {now : Timestamp}
    {next : Option AccountRow → Handler γ} (herr : post.MayFail done)
    (hown : ∀ c, Sees t c → ∃ r, Db.account (t.view c) a = some r ∧ r.userId = userId)
    (h : ∀ (r : AccountRow) t',
      t.Step t' (Key.account a) (fun s => put s (Key.account a)
        (some { r with balance := r.balance + δ, updatedAt := now })) →
      (∀ c, Sees t' c → Db.account (t.view c) a = some r) →
      ledger.wp G (next (some { r with balance := r.balance + δ, updatedAt := now })) post
        (some t') done) :
    ledger.wp G ((execSql toErr (applyBalanceSql a userId δ now)).bind next) post (some t)
      done := by
  refine seq_update rfl herr (fun c hc => ?_) fun r r' t' hup => ?_
  · obtain ⟨r, hr, huser⟩ := hown c hc
    exact found_eq_true.mpr ⟨r, hr, by simpa [ownAccount] using huser⟩
  · obtain ⟨_, _, _, _, _, hr'⟩ := hup.admitted
    unfold numeric at hr'
    split at hr'
    · obtain rfl := Except.ok.inj hr'
      exact h r t' hup.step hup.old
    · cases hr'

theorem seq_updateMovement {id userId : Uuid} {new : MovementRow} {now : Timestamp}
    {e : AppError} {next : MovementRow → Handler γ} (herr : post.MayFail done)
    (h : ∀ (m : MovementRow) t', t.Step t' (Key.movement id) (fun s =>
        put s (Key.movement id) (some (updateMovementRow new now m))) →
      (∀ c, Sees t' c → Db.movement (t.view c) id = some m) →
      movementChecks (updateMovementRow new now m) = .ok () →
      ledger.wp G (next (updateMovementRow new now m)) post (some t') done) :
    ledger.wp G ((fetchOr toErr e (updateMovementSql id userId new now)).bind next) post
      (some t) done := by
  refine seq_fetchUpdate rfl herr fun m m' t' hup => ?_
  obtain ⟨_, _, _, _, _, hm'⟩ := hup.admitted
  cases hchecks : movementChecks (updateMovementRow new now m) with
  | error e => simp [hchecks, Except.map] at hm'
  | ok u =>
      simp only [hchecks, Except.map] at hm'
      obtain rfl := Except.ok.inj hm'
      exact h m t' hup.step hup.old hchecks

theorem seq_ensureRepointable {userId a b : Uuid} {r r' : AccountRow}
    {next : Unit → Handler γ} (herr : post.MayFail done)
    (hr : ∀ c, Sees t c → Db.account (t.view c) a = some r)
    (hr' : ∀ c, Sees t c → Db.account (t.view c) b = some r')
    (h : (b ≠ a → r'.isArchived = false ∧ r'.currency = r.currency) →
      ledger.wp G (next ()) post (some t) done) :
    ledger.wp G ((whenever (b ≠ a) (ensureRepointable userId a b)).bind next) post (some t)
      done := by
  refine seq_whenever (fun _ => ?_) fun heq => h fun hne => absurd hne heq
  unfold ensureRepointable
  simp only [Prog.bind_eq, Prog.bind_assoc]
  refine seq_select herr fun c₁ hc₁ => seq_ofOption herr fun archived harchived => ?_
  refine seq_failIf herr fun hopen => ?_
  refine seq_select herr fun c₂ hc₂ => seq_ofOption herr fun fromCurrency hfrom => ?_
  refine seq_select herr fun c₃ hc₃ => seq_ofOption herr fun toCurrency hto => ?_
  refine seq_failIf herr fun hsame => h fun _ => ⟨?_, ?_⟩
  · rw [← hopen]
    exact eq_of_map_filter (hr' c₁ hc₁) harchived
  · have hsame : fromCurrency = toCurrency := by simpa using hsame
    rw [← (eq_of_map_filter (hr c₂ hc₂) hfrom : r.currency = _)] at hsame
    exact (eq_of_map_filter (hr' c₃ hc₃) hto).trans hsame.symm

theorem seq_lockAccounts {userId : Uuid} {accounts : List Uuid} {next : Unit → Handler γ}
    (herr : post.MayFail done)
    (h : ∀ t', Held t t' (fun _ r => r.userId = userId) accounts →
      ledger.wp G (next ()) post (some t') done) :
    ledger.wp G ((lockAccounts userId accounts).bind next) post (some t) done := by
  induction accounts generalizing t with
  | nil => exact h t (Held.refl t _)
  | cons a accounts ih =>
      simp only [lockAccounts, Prog.bind_eq, Prog.bind_assoc]
      refine seq_fetchFor rfl herr fun r t₁ h₁ hown hr => ih fun t' hrest => ?_
      exact h t' (Held.cons h₁ (by simpa [ownAccount] using hown) hr hrest)

theorem seq_lockTransferAccounts_cons {userId fromAccountId a : Uuid} {rest : List Uuid}
    {currencies : Option String × Option String}
    {next : Option String × Option String → Handler γ} (herr : post.MayFail done)
    (h : ∀ r t', t.Step t' (Key.account a) id → r.userId = userId → r.isArchived = false →
      (∀ c, Sees t' c → Db.account (t.view c) a = some r) →
      ledger.wp G ((lockTransferAccounts userId fromAccountId rest
        (if a = fromAccountId then (some r.currency, currencies.2)
          else (currencies.1, some r.currency))).bind next) post (some t') done) :
    ledger.wp G ((lockTransferAccounts userId fromAccountId (a :: rest) currencies).bind next)
      post (some t) done := by
  simp only [lockTransferAccounts, Prog.bind_eq, Prog.bind_assoc]
  refine seq_fetchFor rfl herr fun (r : AccountRow) t₁ h₁ hown hr => ?_
  refine seq_failIf herr fun hopen => ?_
  have hnext := h r t₁ h₁ (by simpa [ownAccount] using hown) hopen hr
  split
  · rwa [if_pos ‹_›] at hnext
  · rwa [if_neg ‹_›] at hnext

theorem seq_lockTransferAccounts {userId a b : Uuid} (hne : a ≠ b)
    {next : Option String × Option String → Handler γ} (herr : post.MayFail done)
    (h : ∀ currencies t', Held t t' (Transferable userId a currencies) [a, b] →
      ledger.wp G (next currencies) post (some t') done) :
    ledger.wp G ((lockTransferAccounts userId a ([a, b].insertionSort (· ≤ ·))
      (none, none)).bind next) post (some t) done := by
  -- the accounts are locked in the order of their ids, whichever of them is the origin
  by_cases hle : a ≤ b
  · simp only [List.insertionSort, List.orderedInsert, List.foldr, if_pos hle]
    refine seq_lockTransferAccounts_cons herr fun r t₁ h₁ huser hopen hr => ?_
    refine seq_lockTransferAccounts_cons herr fun r' t₂ h₂ huser' hopen' hr' => ?_
    refine h _ _ (Held.cons h₁ ?_ hr (Held.cons h₂ ?_ hr' (Held.refl t₂ _)))
    · exact ⟨huser, hopen, by simp [hne.symm]⟩
    · exact ⟨huser', hopen', by simp [hne.symm]⟩
  · simp only [List.insertionSort, List.orderedInsert, List.foldr, if_neg hle]
    refine seq_lockTransferAccounts_cons herr fun r' t₁ h₁ huser' hopen' hr' => ?_
    refine seq_lockTransferAccounts_cons herr fun r t₂ h₂ huser hopen hr => ?_
    refine h _ _ ((Held.cons h₁ ?_ hr' (Held.cons h₂ ?_ hr (Held.refl t₂ _))).perm
      (List.Perm.swap a b []))
    · exact ⟨huser', hopen', by simp [hne.symm]⟩
    · exact ⟨huser, hopen, by simp [hne.symm]⟩

end Rules

theorem movementOk_of_checks {s : Db} {m : MovementRow} {r : AccountRow}
    (h : movementChecks m = .ok ()) (hacc : s.account m.accountId = some r)
    (huser : r.userId = m.userId)
    (hdest : ∀ b, m.transferAccountId = some b → (s.account b).map holder = some (holder r)) :
    MovementOk s m := by
  unfold movementChecks at h
  split at h
  · rename_i hchecks
    obtain ⟨hpos, htransfer, hne, hcat⟩ := hchecks
    refine ⟨hpos, by rw [hacc, Option.map_some, huser], htransfer, fun b hb => ?_⟩
    refine ⟨fun hb' => hne (hb' ▸ hb), hcat (htransfer.mpr (by simp [hb])), ?_⟩
    rw [hdest b hb, hacc, Option.map_some]
  · cases h

theorem ne_transfer_of_validateDirection {raw : String} {direction : Direction}
    (h : validateDirection raw = .ok direction) : direction ≠ .transfer := by
  rintro rfl
  unfold validateDirection at h
  split at h <;> cases h

theorem wp_createMovementHandler (caller : Caller) (body : CreateMovementRequest) :
    ledger.wp (Effect caller (.createMovement body)) (createMovementHandler caller body)
      (ledger.atomically _) none [] := by
  have herr := mayFail_atomically ledger (Stored MovementRow)
  unfold createMovementHandler
  simp only [Prog.bind_eq, Prog.pure_eq]
  refine seq_ofExcept herr fun direction hdir => ?_
  refine seq_ofExcept herr fun amount _ => ?_
  refine seq_ofExcept herr fun occurredOn _ => ?_
  refine seq_ofExcept herr fun description _ => ?_
  refine seq_ensureOwnedAccount herr ?_
  refine seq_beginTx herr ?_
  refine seq_fetchFor rfl herr fun r t₁ h₁ hown hr => ?_
  have hview₁ : ∀ c, Sees t₁ c → t₁.view c = c := h₁.view
  refine seq_select herr fun c₁ hc₁ => ?_
  refine seq_ofOption herr fun archived harchived => ?_
  refine seq_failIf herr fun hopen => ?_
  have hopen : r.isArchived = false := by
    rw [← hopen]
    exact eq_of_map_filter (hr c₁ hc₁) (hview₁ c₁ hc₁ ▸ harchived)
  refine seq_ensureOwnedCategory herr ?_
  generalize hrow : insertMovementRow caller body direction amount.cents occurredOn description
    = row
  refine seq_insertMovement herr fun id t₂ h₂ hfresh hchecks => ?_
  have hview₂ : ∀ c, Sees t₂ c → t₂.view c = put c (Key.movement id) (some row) :=
    fun c hc => (h₂.view c hc).trans (by rw [hview₁ c (h₂.sees c hc)])
  have hacc : ∀ c, Sees t₂ c → Db.account c body.accountId = some r :=
    fun c hc => hr c (h₂.sees c hc)
  refine seq_applyBalance herr (fun c hc => ⟨r, ?_, by simpa [ownAccount] using hown⟩)
    fun r' t₃ h₃ hr' => ?_
  · rw [hview₂ c hc, Db.account_put_of_ne (by simp), hacc c hc]
  refine seq_commitTx herr (fun c hc => ?_) fun c hc => (wp_ret _ _).mpr rfl
  have hc₂ := h₃.sees c hc
  have hview := h₃.view c hc
  have hbalance := hr' c hc
  rw [hview₂ c hc₂] at hview hbalance
  have hdraft := ((Draft.refl isBook c id).setMovement rfl (some row)).credit rfl hbalance
    (signedDelta direction amount.cents) caller.now
  rw [← hview, hfresh c hc₂] at hdraft
  have hbook : Booking isBook c (t₃.view c) id none (some row) := by
    subst hrow
    refine ⟨hdraft.posting fun a => ?_, fun m hm => ?_⟩
    · simp [insertMovementRow, leg_of_ne_transfer, ne_transfer_of_validateDirection hdir]
    · obtain rfl := Option.some.inj hm
      exact movementOk_of_checks hchecks (hacc c hc₂)
        (by simpa [ownAccount, insertMovementRow] using hown)
        (by simp [insertMovementRow])
  have hrefs : ∀ a, refersToAccount a row = true → a = body.accountId := by
    subst hrow
    simp [refersToAccount, insertMovementRow, eq_comm]
  refine hbook.publishable hc (fun a ha => ?_) ⟨id, row, hbook, fun m hm a ha _ => ?_⟩
  · obtain rfl := hrefs a (by simpa using ha)
    exact (h₃.locks _).mpr (Or.inl rfl)
  · obtain rfl := Option.some.inj hm
    rw [hrefs a ha, hacc c hc₂, Option.map_some, hopen]

theorem wp_createTransferHandler (caller : Caller) (body : CreateTransferRequest) :
    ledger.wp (Effect caller (.createTransfer body)) (createTransferHandler caller body)
      (ledger.atomically _) none [] := by
  have herr := mayFail_atomically ledger (Stored MovementRow)
  unfold createTransferHandler
  simp only [Prog.bind_eq, Prog.pure_eq]
  refine seq_ofExcept herr fun amount _ => ?_
  refine seq_ofExcept herr fun occurredOn _ => ?_
  refine seq_ofExcept herr fun description _ => ?_
  refine seq_ensureOwnedAccount herr ?_
  refine seq_ensureOwnedAccount herr ?_
  refine seq_failIf herr fun hne => ?_
  have hne : body.fromAccountId ≠ body.toAccountId := by simpa using hne
  refine seq_beginTx herr ?_
  refine seq_lockTransferAccounts hne herr fun currencies t₁ held => ?_
  obtain ⟨r, ⟨huser, hopen, hcur⟩, hacc⟩ := held.rows body.fromAccountId (by simp)
  obtain ⟨r', ⟨huser', hopen', hcur'⟩, hacc'⟩ := held.rows body.toAccountId (by simp)
  refine seq_ofOption herr fun fromCurrency hfrom => ?_
  refine seq_ofOption herr fun toCurrency hto => ?_
  refine seq_failIf herr fun hsame => ?_
  have hholder : holder r' = holder r := by
    rw [if_pos rfl, hfrom, Option.some.injEq] at hcur
    rw [if_neg hne.symm, hto, Option.some.injEq] at hcur'
    have hsame : fromCurrency = toCurrency := by simpa using hsame
    simp [holder, huser, huser', ← hcur, ← hcur', hsame]
  generalize hrow : insertTransferRow caller body amount.cents occurredOn description = row
  obtain ⟨hdirection, hfromId, htoId, hamount, howner⟩ : row.direction = .transfer ∧
      row.accountId = body.fromAccountId ∧ row.transferAccountId = some body.toAccountId ∧
      row.amount = amount.cents ∧ row.userId = caller.userId := by
    simp [← hrow, insertTransferRow]
  refine seq_insertMovement herr fun id t₂ h₂ hfresh hchecks => ?_
  have hview₂ : ∀ c, Sees t₂ c → t₂.view c = put c (Key.movement id) (some row) :=
    fun c hc => (h₂.view c hc).trans (by rw [held.view c (h₂.sees c hc), view_empty])
  have hacc₂ : ∀ c, Sees t₂ c → Db.account c body.fromAccountId = some r :=
    fun c hc => hacc c (h₂.sees c hc)
  have hacc₂' : ∀ c, Sees t₂ c → Db.account c body.toAccountId = some r' :=
    fun c hc => hacc' c (h₂.sees c hc)
  refine seq_applyBalance herr (fun c hc => ⟨r, ?_, huser⟩) fun r₃ t₃ h₃ hr₃ => ?_
  · rw [hview₂ c hc, Db.account_put_of_ne (by simp), hacc₂ c hc]
  refine seq_applyBalance herr (fun c hc => ⟨r', ?_, huser'⟩) fun r₄ t₄ h₄ hr₄ => ?_
  · have hc₂ := h₃.sees c hc
    rw [h₃.view c hc, Db.account_put_of_ne (by simpa using hne.symm), hview₂ c hc₂,
      Db.account_put_of_ne (by simp), hacc₂' c hc₂]
  refine seq_commitTx herr (fun c hc => ?_) fun c hc => (wp_ret _ _).mpr rfl
  have hc₃ := h₄.sees c hc
  have hc₂ := h₃.sees c hc₃
  have hview := h₄.view c hc
  have hbalance := hr₃ c hc₃
  have hbalance' := hr₄ c hc
  rw [h₃.view c hc₃, hview₂ c hc₂] at hview hbalance'
  rw [hview₂ c hc₂] at hbalance
  have hdraft := (((Draft.refl isBook c id).setMovement rfl (some row)).credit rfl hbalance
    (-amount.cents) caller.now).credit rfl hbalance' amount.cents caller.now
  rw [← hview, hfresh c hc₂] at hdraft
  have hbook : Booking isBook c (t₄.view c) id none (some row) := by
    refine ⟨hdraft.posting fun a => ?_, fun m hm => ?_⟩
    · simp [leg_of_transfer hdirection htoId, hfromId, hamount]
    · obtain rfl := Option.some.inj hm
      refine movementOk_of_checks hchecks (hfromId ▸ hacc₂ c hc₂) (huser.trans howner.symm)
        fun b hb => ?_
      obtain rfl := Option.some.inj (htoId.symm.trans hb)
      rw [hacc₂' c hc₂, Option.map_some, hholder]
  have hrefs : ∀ a, refersToAccount a row = true →
      a = body.fromAccountId ∨ a = body.toAccountId := by
    intro a ha
    rcases refersToAccount_iff.mp ha with hfrom | hto
    · exact Or.inl (hfrom.symm.trans hfromId)
    · exact Or.inr (Option.some.inj (hto.symm.trans htoId))
  refine hbook.publishable hc (fun a ha => ?_) ⟨id, row, hbook, fun m hm a ha _ => ?_⟩
  · rcases hrefs a (by simpa using ha) with rfl | rfl
    · exact (h₄.locks _).mpr (Or.inr ((h₃.locks _).mpr (Or.inl rfl)))
    · exact (h₄.locks _).mpr (Or.inl rfl)
  · obtain rfl := Option.some.inj hm
    rcases hrefs a ha with rfl | rfl
    · rw [hacc₂ c hc₂, Option.map_some, hopen]
    · rw [hacc₂' c hc₂, Option.map_some, hopen']

theorem wp_applyPatch (caller : Caller) (id : Uuid) (body : PatchMovementRequest)
    (patch : MovementPatch) (accountId : Uuid) {locked : MovementRow} {t : ledger.Open}
    (hlocks : ∀ a, a = locked.accountId ∨ a = accountId → t.Locks (Key.account a))
    (hrows : ∀ a, a = locked.accountId ∨ a = accountId → ∃ r : AccountRow,
      r.userId = caller.userId ∧ ∀ c, Sees t c → Db.account c a = some r)
    (hview : ∀ c, Sees t c → t.view c = c)
    (hlocked : ∀ c, Sees t c → Db.movement c id = some locked)
    (howner : locked.userId = caller.userId) (hdirection : locked.direction ≠ .transfer) :
    ledger.wp (Effect caller (.patchMovement id body))
      (applyPatch caller id patch accountId locked) (ledger.atomically _) (some t) [] := by
  have herr := mayFail_atomically ledger (Stored MovementRow)
  obtain ⟨r, huser, hr⟩ := hrows locked.accountId (Or.inl rfl)
  obtain ⟨r', huser', hr'⟩ := hrows accountId (Or.inr rfl)
  unfold applyPatch
  simp only [Prog.bind_eq, Prog.pure_eq]
  refine seq_ensureRepointable herr (fun c hc => (hview c hc).symm ▸ hr c hc)
    (fun c hc => (hview c hc).symm ▸ hr' c hc) fun hrepoint => ?_
  refine seq_ensureOwnedCategoryOpt herr ?_
  generalize hnew : patch.merge accountId caller.now locked = new
  obtain ⟨hnewAccount, hnewOwner, hnewTransfer⟩ : new.accountId = accountId ∧
      new.userId = locked.userId ∧ new.transferAccountId = locked.transferAccountId := by
    simp [← hnew, MovementPatch.merge]
  refine seq_applyBalance herr (fun c hc => ⟨r, (hview c hc).symm ▸ hr c hc, huser⟩)
    fun r₁ t₁ h₁ hr₁ => ?_
  refine seq_applyBalance herr (fun c hc => ?_) fun r₂ t₂ h₂ hr₂ => ?_
  · have hc₀ := h₁.sees c hc
    have hbalance := hr₁ c hc
    rw [hview c hc₀] at hbalance
    rw [h₁.view c hc, hview c hc₀]
    exact exists_owner_credit hbalance ⟨r', hr' c hc₀, huser'⟩ _ _
  refine seq_updateMovement herr fun m t₃ h₃ hm hchecks => ?_
  refine seq_recheckMovement herr ?_
  refine seq_commitTx herr (fun c hc => ?_) fun c hc => (wp_ret _ _).mpr rfl
  have hc₂ := h₃.sees c hc
  have hc₁ := h₂.sees c hc₂
  have hc₀ := h₁.sees c hc₁
  have hview₃ := h₃.view c hc
  have hbalance := hr₁ c hc₁
  have hbalance' := hr₂ c hc₂
  have hmovement := hm c hc
  rw [h₂.view c hc₂, h₁.view c hc₁, hview c hc₀] at hview₃ hmovement
  rw [h₁.view c hc₁, hview c hc₀] at hbalance'
  rw [hview c hc₀] at hbalance
  obtain rfl : m = locked := by
    rw [Db.movement_put_of_ne (by simp), Db.movement_put_of_ne (by simp),
      hlocked c hc₀] at hmovement
    exact (Option.some.inj hmovement).symm
  have hrow : updateMovementRow new caller.now m = new := by
    simp [← hnew, MovementPatch.merge, updateMovementRow]
  rw [hrow] at hview₃ hchecks
  have hdraft := (((Draft.refl isBook c id).credit rfl hbalance
    (-signedDelta m.direction m.amount) caller.now).credit rfl hbalance'
    (signedDelta new.direction new.amount) caller.now).setMovement rfl (some new)
  rw [← hview₃, hlocked c hc₀] at hdraft
  -- neither version is a transfer, so each has one leg, on its own account
  have hold := hc₀.inv id m (hlocked c hc₀)
  have hnone : m.transferAccountId = none := by
    simpa using mt hold.transfer.mpr hdirection
  have hvalid : MovementOk c new := by
    refine movementOk_of_checks hchecks (hnewAccount ▸ hr' c hc₀)
      (by rw [huser', hnewOwner, howner]) fun b hb => ?_
    rw [hnewTransfer, hnone] at hb
    cases hb
  have hnewDirection : new.direction ≠ .transfer := by
    refine mt hvalid.transfer.mp ?_
    simp [hnewTransfer, hnone]
  have hbook : Booking isBook c (t₃.view c) id (some m) (some new) := by
    refine ⟨hdraft.posting fun a => ?_, fun m' hm' => Option.some.inj hm' ▸ hvalid⟩
    simp only [Option.elim, leg_of_ne_transfer hdirection, leg_of_ne_transfer hnewDirection,
      hnewAccount]
    change (_ : Int) = _
    split <;> split <;> omega
  have hrefs : ∀ a, refersToAccount a new = true → a = accountId := by
    simp [refersToAccount, hnewAccount, hnewTransfer, hnone, eq_comm]
  have hrefs' : ∀ a, refersToAccount a m = true → a = m.accountId := by
    simp [refersToAccount, hnone, eq_comm]
  have hheld : ∀ a, a = m.accountId ∨ a = accountId → t₃.Locks (Key.account a) := fun a ha =>
    (h₃.locks _).mpr (Or.inr ((h₂.locks _).mpr (Or.inr ((h₁.locks _).mpr
      (Or.inr (hlocks a ha))))))
  refine hbook.publishable hc (fun a ha => hheld a ?_)
    ⟨m, new, hbook, fun m' hm' a ha hne => ?_, hdirection, ?_⟩
  · exact ha.imp (hrefs' a) (hrefs a)
  · obtain rfl := Option.some.inj hm'
    obtain rfl := hrefs a ha
    have hmoved : a ≠ m.accountId := by
      rintro rfl
      simp [refersToAccount] at hne
    rw [hr' c hc₀, Option.map_some, (hrepoint hmoved).1]
  · rw [hnewAccount, hr' c hc₀, hr c hc₀]
    by_cases hmoved : accountId = m.accountId
    · obtain rfl := Option.some.inj ((hr c hc₀).symm.trans (hmoved ▸ hr' c hc₀))
      rfl
    · simp [holder, huser, huser', (hrepoint hmoved).2]

theorem wp_patchAttempts (caller : Caller) (id : Uuid) (body : PatchMovementRequest)
    (patch : MovementPatch) (n : Nat) (snapshot : MovementRow) :
    ledger.wp (Effect caller (.patchMovement id body)) (patchAttempts caller id patch n snapshot)
      (ledger.atomically _) none [] := by
  have herr := mayFail_atomically ledger (Stored MovementRow)
  induction n generalizing snapshot with
  | zero => exact (wp_throw _ _).mpr (herr _ _)
  | succ n ih =>
      simp only [patchAttempts, Prog.bind_eq]
      generalize htarget : patch.accountId.getD snapshot.accountId = accountId
      refine seq_beginTx herr ?_
      refine seq_lockAccounts herr fun t₁ held => ?_
      refine seq_fetchFor rfl herr fun (locked : MovementRow) t₂ h₂ howner hlocked => ?_
      refine seq_ofExcept herr fun _ hdirection => ?_
      split
      · -- the movement has left the snapshot's account: try again
        refine seq_rollbackTx herr ?_
        refine seq_select herr fun _ _ => seq_ofOption herr fun snapshot' _ => ?_
        exact ih snapshot'
      · rename_i hstill
        have hstill : locked.accountId = snapshot.accountId := by simpa using hstill
        have hmem : ∀ a, a = locked.accountId ∨ a = accountId →
            a ∈ (if accountId ≠ snapshot.accountId then [snapshot.accountId, accountId]
              else [snapshot.accountId]) := by
          rw [hstill]
          intro a ha
          split <;> simp_all
        have held := held.perm (List.perm_insertionSort _ _)
        refine wp_applyPatch caller id body patch accountId (fun a ha => ?_) (fun a ha => ?_)
          (fun c hc => ?_) (fun c hc => ?_) (by simpa [ownMovement] using howner) ?_
        · exact (h₂.locks _).mpr (Or.inr (held.locks a (hmem a ha)))
        · obtain ⟨r, huser, hr⟩ := held.rows a (hmem a ha)
          exact ⟨r, huser, fun c hc => hr c (h₂.sees c hc)⟩
        · exact (h₂.view c hc).trans (held.view c (h₂.sees c hc))
        · have hrow := hlocked c hc
          rwa [held.view c (h₂.sees c hc)] at hrow
        · rintro htransfer
          simp [rejectTransferPatch, htransfer] at hdirection

theorem wp_patchMovementHandler (caller : Caller) (id : Uuid) (body : PatchMovementRequest) :
    ledger.wp (Effect caller (.patchMovement id body)) (patchMovementHandler caller id body)
      (ledger.atomically _) none [] := by
  have herr := mayFail_atomically ledger (Stored MovementRow)
  unfold patchMovementHandler
  simp only [Prog.bind_eq]
  refine seq_select herr fun _ _ => seq_ofOption herr fun snapshot _ => ?_
  refine seq_ofExcept herr fun _ _ => ?_
  refine seq_ofExcept herr fun direction _ => ?_
  refine seq_ofExcept herr fun amount _ => ?_
  refine seq_ofExcept herr fun occurredOn _ => ?_
  refine seq_ofExcept herr fun description _ => ?_
  refine seq_ensureOwnedAccountOpt herr ?_
  exact wp_patchAttempts caller id body _ _ snapshot

theorem mem_accountsOf {a : Uuid} {m : MovementRow} :
    a ∈ accountsOf m ↔ refersToAccount a m = true := by
  rw [accountsOf, (List.perm_insertionSort _ _).mem_iff, refersToAccount_iff, List.mem_cons,
    Option.mem_toList, eq_comm]

theorem wp_commit_deletion (caller : Caller) (id : Uuid) (deleted : MovementRow)
    {t : ledger.Open}
    (hlocks : ∀ a, refersToAccount a deleted = true → t.Locks (Key.account a))
    (hposting : ∀ c, Sees t c → Posting isBook c (t.view c) id (some deleted) none) :
    ledger.wp (Effect caller (.deleteMovement id)) (commitTx : Handler Unit)
      (ledger.atomically _) (some t) [] := by
  refine wp_commitTx (mayFail_atomically ledger _ _ _) fun c hc => ⟨?_, rfl⟩
  have hbook : Booking isBook c (t.view c) id (some deleted) none :=
    ⟨hposting c hc, by simp⟩
  exact hbook.publishable hc (fun a ha => hlocks a (by simpa using ha)) ⟨deleted, hbook⟩

/-- The part of a DELETE after its movement is deleted under the locks of its
accounts. -/
theorem wp_reverseMovement (caller : Caller) (id : Uuid) {deleted : MovementRow}
    {t : ledger.Open}
    (hlocks : ∀ a, refersToAccount a deleted = true → t.Locks (Key.account a))
    (hrows : ∀ a, refersToAccount a deleted = true → ∀ c, Sees t c →
      ∃ r, Db.account c a = some r ∧ r.userId = caller.userId)
    (hview : ∀ c, Sees t c → t.view c = put c (Key.movement id) none)
    (hdeleted : ∀ c, Sees t c → Db.movement c id = some deleted) :
    ledger.wp (Effect caller (.deleteMovement id))
      ((reverseMovement caller deleted).bind fun _ => commitTx) (ledger.atomically _) (some t)
      [] := by
  have herr := mayFail_atomically ledger Unit
  have hviewAccount : ∀ a c, Sees t c → Db.account (t.view c) a = Db.account c a :=
    fun a c hc => by rw [hview c hc, Db.account_put_of_ne (by simp)]
  have hdraft : ∀ c, Sees t c →
      Draft isBook c (t.view c) id (some deleted) none fun _ => 0 := by
    intro c hc
    rw [hview c hc, ← hdeleted c hc]
    exact (Draft.refl isBook c id).setMovement rfl none
  have hfrom : refersToAccount deleted.accountId deleted = true :=
    refersToAccount_iff.mpr (Or.inl rfl)
  unfold reverseMovement
  simp only [Prog.bind_eq, Prog.pure_eq]
  split
  · rename_i hdirection
    simp only [Prog.bind_assoc]
    refine seq_ofOption herr fun b hb => ?_
    have hto : refersToAccount b deleted = true := refersToAccount_iff.mpr (Or.inr hb)
    refine seq_applyBalance herr (fun c hc => ?_) fun r₁ t₁ h₁ hr₁ => ?_
    · rw [hviewAccount _ c hc]
      exact hrows _ hfrom c hc
    refine seq_applyBalance herr (fun c hc => ?_) fun r₂ t₂ h₂ hr₂ => ?_
    · have hc₀ := h₁.sees c hc
      rw [h₁.view c hc]
      refine exists_owner_credit (hr₁ c hc) ?_ _ _
      rw [hviewAccount b c hc₀]
      exact hrows b hto c hc₀
    refine wp_commit_deletion caller id deleted (fun a ha => ?_) fun c hc => ?_
    · exact (h₂.locks _).mpr (Or.inr ((h₁.locks _).mpr (Or.inr (hlocks a ha))))
    · have hc₁ := h₂.sees c hc
      have hbalance' := hr₂ c hc
      rw [h₁.view c hc₁] at hbalance'
      rw [h₂.view c hc, h₁.view c hc₁]
      refine (((hdraft c (h₁.sees c hc₁)).credit rfl (hr₁ c hc₁) _ _).credit rfl hbalance' _
        _).posting fun a => ?_
      simp only [Option.elim, leg_of_transfer hdirection hb]
      change (_ : Int) = _
      split <;> split <;> omega
  · rename_i hdirection
    simp only [Prog.bind_assoc]
    refine seq_applyBalance herr (fun c hc => ?_) fun r₁ t₁ h₁ hr₁ => ?_
    · rw [hviewAccount _ c hc]
      exact hrows _ hfrom c hc
    refine wp_commit_deletion caller id deleted (fun a ha => ?_) fun c hc => ?_
    · exact (h₁.locks _).mpr (Or.inr (hlocks a ha))
    · rw [h₁.view c hc]
      refine ((hdraft c (h₁.sees c hc)).credit rfl (hr₁ c hc) _ _).posting fun a => ?_
      simp only [Option.elim, leg_of_ne_transfer hdirection]
      change (_ : Int) = _
      split <;> omega

theorem wp_deleteAttempts (caller : Caller) (id : Uuid) (n : Nat) (snapshot : MovementRow) :
    ledger.wp (Effect caller (.deleteMovement id)) (deleteAttempts caller id n snapshot)
      (ledger.atomically _) none [] := by
  have herr := mayFail_atomically ledger Unit
  induction n generalizing snapshot with
  | zero => exact (wp_throw _ _).mpr (herr _ _)
  | succ n ih =>
      simp only [deleteAttempts, Prog.bind_eq]
      refine seq_beginTx herr ?_
      refine seq_lockAccounts herr fun t₁ held => ?_
      refine seq_fetchDelete herr fun (deleted : MovementRow) t₂ h₂ howner hdeleted => ?_
      split
      · -- the movement has changed its accounts: try again
        refine seq_rollbackTx herr ?_
        refine seq_select herr fun _ _ => seq_ofOption herr fun snapshot' _ => ?_
        exact ih snapshot'
      · rename_i hstill
        have hmem : ∀ a, refersToAccount a deleted = true → a ∈ accountsOf snapshot := by
          have hstill : accountsOf deleted = accountsOf snapshot := by simpa using hstill
          intro a ha
          rw [← hstill]
          exact mem_accountsOf.mpr ha
        refine wp_reverseMovement caller id (fun a ha => ?_) (fun a ha c hc => ?_)
          (fun c hc => ?_) fun c hc => ?_
        · exact (h₂.locks _).mpr (Or.inr (held.locks a (hmem a ha)))
        · obtain ⟨r, huser, hr⟩ := held.rows a (hmem a ha)
          exact ⟨r, hr c (h₂.sees c hc), huser⟩
        · rw [h₂.view c hc, held.view c (h₂.sees c hc), view_empty]
        · have hrow := hdeleted c hc
          rwa [held.view c (h₂.sees c hc)] at hrow

theorem wp_deleteMovementHandler (caller : Caller) (id : Uuid) :
    ledger.wp (Effect caller (.deleteMovement id)) (deleteMovementHandler caller id)
      (ledger.atomically _) none [] := by
  have herr := mayFail_atomically ledger Unit
  unfold deleteMovementHandler
  simp only [Prog.bind_eq]
  refine seq_select herr fun _ _ => seq_ofOption herr fun snapshot _ => ?_
  exact wp_deleteAttempts caller id _ snapshot

end PersonalDashboard.MovementTransactions
