import PersonalDashboard.TransactionLogic

/-! The four kinds of statements on one row, each with its rule in the
transaction logic. -/

set_option autoImplicit false

namespace PersonalDashboard.RowStatements

open PersonalDashboard.RowStore
open PersonalDashboard.ReadCommitted
open PersonalDashboard.TransactionLogic
open PersonalDashboard.TransactionLogic.Contract

variable {κ : Type} [DecidableEq κ] {ρ : κ → Type} {σ ε β : Type}

/-- The row under a key satisfies the WHERE clause. -/
def found (k : κ) (p : ρ k → Bool) (s : Store ρ) : Bool :=
  (s.lookup k).any p

theorem found_eq_true {k : κ} {p : ρ k → Bool} {s : Store ρ} :
    found k p s = true ↔ ∃ r, s.lookup k = some r ∧ p r = true := by
  simp [found, Option.any_eq_true]

/-- `SELECT … WHERE key = k AND p FOR mode`. -/
def selectFor (mode : LockMode) (k : κ) (p : ρ k → Bool) (proj : ρ k → β) :
    Statement ρ σ (Option β) where
  row := k
  mode := mode
  qualifies := found k p
  miss := none
  hit _ cur := .ok (.keep, (cur.lookup k).map proj)
  keep_of_shared _ _ _ _ _ h := by
    obtain ⟨rfl, -⟩ := Prod.mk.inj (Except.ok.inj h)
    rfl

/-- `UPDATE … SET f WHERE key = k AND p RETURNING …`; `f` also reads the
statement's snapshot. -/
def updateRow (mode : LockMode) (hmode : mode.exclusive) (k : κ) (p : ρ k → Bool)
    (f : Store ρ → ρ k → Except σ (ρ k)) : Statement ρ σ (Option (ρ k)) where
  row := k
  mode := mode
  qualifies := found k p
  miss := none
  hit sn cur :=
    match cur.lookup k with
    | none => .ok (.keep, none)
    | some r => (f sn r).map fun r' => (.set r', some r')
  keep_of_shared h := by simp [hmode] at h

/-- `DELETE … WHERE key = k AND p RETURNING …`. -/
def deleteRow (k : κ) (p : ρ k → Bool) : Statement ρ σ (Option (ρ k)) where
  row := k
  mode := .update
  qualifies := found k p
  miss := none
  hit _ cur := .ok (.remove, cur.lookup k)
  keep_of_shared h := by cases h

/-- `INSERT` of a row under a key of its own, after its constraints. -/
def insertRow (k : κ) (constraints : Store ρ → Except σ Unit) (r : ρ k) :
    Statement ρ σ (ρ k) where
  row := k
  mode := .update
  qualifies _ := true
  miss := r
  hit _ cur := (constraints cur).map fun _ => (.set r, r)
  keep_of_shared h := by cases h

/-- `INSERT … ON CONFLICT DO NOTHING` of a row under its primary key. -/
def insertIfAbsent (k : κ) (r : ρ k) : Statement ρ σ Unit where
  row := k
  mode := .update
  qualifies s := (s.lookup k).isNone
  miss := ()
  hit _ _ := .ok (.set r, ())
  keep_of_shared h := by cases h

/-- Wait for, and keep, an entry of a unique index, reading the latest version
of the store. -/
def lockSlot (k : κ) (f : Store ρ → β) : Statement ρ σ (Option β) where
  row := k
  mode := .update
  qualifies _ := true
  miss := none
  hit _ cur := .ok (.keep, some (f cur))
  keep_of_shared h := by cases h

/-- The check of a foreign key: the referenced row must be there, and stays. -/
def foreignKey (toErr : σ → ε) (violation : σ) (k : κ) : Prog ρ σ ε Unit :=
  (execSql toErr (selectFor .keyShare k (fun _ => true) fun _ => ())).bind fun r =>
    failIf r.isNone (toErr violation)

def foreignKeyOpt {α : Type} (toErr : σ → ε) (violation : σ) (key : α → κ) :
    Option α → Prog ρ σ ε Unit
  | some a => foreignKey toErr violation (key a)
  | none => .ret ()

def keysWhere (p : (k : κ) → ρ k → Bool) (s : Store ρ) : List κ :=
  (s.entries.filter fun e => p e.1 e.2).map Sigma.fst

theorem mem_keysWhere {p : (k : κ) → ρ k → Bool} {s : Store ρ} {k : κ} :
    k ∈ keysWhere p s ↔ ∃ r, s.lookup k = some r ∧ p k r = true := by
  simp only [keysWhere, List.mem_map, List.mem_filter]
  constructor
  · rintro ⟨⟨k', r⟩, ⟨hmem, hp⟩, rfl⟩
    exact ⟨r, AList.mem_lookup_iff.mpr hmem, hp⟩
  · rintro ⟨r, hr, hp⟩
    exact ⟨⟨k, r⟩, ⟨AList.mem_lookup_iff.mp hr, hp⟩, rfl⟩

/-- `UPDATE … SET f WHERE p` over the given rows, each checked again once it is
locked. -/
def updateAll (toErr : σ → ε) (p : (k : κ) → ρ k → Bool) (f : (k : κ) → ρ k → ρ k) :
    List κ → Prog ρ σ ε Unit
  | [] => .ret ()
  | k :: ks =>
      (execSql toErr (updateRow .noKeyUpdate rfl k (p k) fun _ r => .ok (f k r))).bind
        fun _ => updateAll toErr p f ks

/-- `UPDATE … SET f WHERE p` over all rows. -/
def updateWhere (toErr : σ → ε) (p : (k : κ) → ρ k → Bool) (f : (k : κ) → ρ k → ρ k) :
    Prog ρ σ ε Unit :=
  (select (keysWhere p)).bind (updateAll toErr p f)

section Hits

variable {mode : LockMode} {k : κ} {p : ρ k → Bool} {sn cur : Store ρ}

theorem selectFor_hit {proj : ρ k → β} {c : Change ρ k} {b : Option β}
    (hq : found k p cur = true)
    (h : (selectFor (σ := σ) mode k p proj).hit sn cur = .ok (c, b)) :
    ∃ r, cur.lookup k = some r ∧ p r = true ∧ c = .keep ∧ b = some (proj r) := by
  obtain ⟨r, hr, hp⟩ := found_eq_true.mp hq
  obtain ⟨rfl, rfl⟩ := Prod.mk.inj (Except.ok.inj h)
  exact ⟨r, hr, hp, rfl, by rw [hr, Option.map_some]⟩

theorem updateRow_hit {hmode : mode.exclusive} {f : Store ρ → ρ k → Except σ (ρ k)}
    {c : Change ρ k} {b : Option (ρ k)} (hq : found k p cur = true)
    (h : (updateRow mode hmode k p f).hit sn cur = .ok (c, b)) :
    ∃ r r', cur.lookup k = some r ∧ p r = true ∧ f sn r = .ok r' ∧ c = .set r' ∧
      b = some r' := by
  obtain ⟨r, hr, hp⟩ := found_eq_true.mp hq
  simp only [updateRow, hr] at h
  cases hr' : f sn r with
  | error e => simp [hr', Except.map] at h
  | ok r' =>
      simp only [hr', Except.map] at h
      obtain ⟨rfl, rfl⟩ := Prod.mk.inj (Except.ok.inj h)
      exact ⟨r, r', hr, hp, hr', rfl, rfl⟩

theorem deleteRow_hit {c : Change ρ k} {b : Option (ρ k)} (hq : found k p cur = true)
    (h : (deleteRow (σ := σ) k p).hit sn cur = .ok (c, b)) :
    ∃ r, cur.lookup k = some r ∧ p r = true ∧ c = .remove ∧ b = some r := by
  obtain ⟨r, hr, hp⟩ := found_eq_true.mp hq
  obtain ⟨rfl, rfl⟩ := Prod.mk.inj (Except.ok.inj h)
  exact ⟨r, hr, hp, rfl, hr⟩

omit [DecidableEq κ] in
theorem insertRow_hit {constraints : Store ρ → Except σ Unit} {r b : ρ k} {c : Change ρ k}
    (h : (insertRow k constraints r).hit sn cur = .ok (c, b)) :
    constraints cur = .ok () ∧ c = .set r ∧ b = r := by
  simp only [insertRow] at h
  cases hc : constraints cur with
  | error e => simp [hc, Except.map] at h
  | ok u =>
      simp only [hc, Except.map] at h
      obtain ⟨rfl, rfl⟩ := Prod.mk.inj (Except.ok.inj h)
      exact ⟨rfl, rfl, rfl⟩

omit [DecidableEq κ] in
theorem lockSlot_hit {f : Store ρ → β} {c : Change ρ k} {b : Option β}
    (h : (lockSlot (σ := σ) k f).hit sn cur = .ok (c, b)) : c = .keep ∧ b = some (f cur) := by
  obtain ⟨rfl, rfl⟩ := Prod.mk.inj (Except.ok.inj h)
  exact ⟨rfl, rfl⟩

end Hits

section Rules

variable {D : Contract ρ ε} {G : Store ρ → Store ρ → Prop} {t : D.Open}
  {done : List (Store ρ × Store ρ)} {toErr : σ → ε} {k : κ} {p : ρ k → Bool}

theorem wp_selectFor_shared {mode : LockMode} (hmode : mode.exclusive = false)
    {proj : ρ k → β} {post : D.Post (Option β)}
    (hfault : post (.error D.fault) none done) (herr : ∀ e, post (.error (toErr e)) none done)
    (hany : ∀ r, post (.ok r) (some t) done) :
    D.wp G (execSql toErr (selectFor mode k p proj)) post (some t) done := by
  refine wp_execSql hfault (fun _ _ _ _ _ => hany _) herr ?_
  intro sn cur c b _ _ _ _ _ h
  obtain ⟨rfl, rfl⟩ := Prod.mk.inj (Except.ok.inj h)
  simpa [Open.after, selectFor, hmode] using hany _

theorem wp_selectFor {mode : LockMode} (hmode : mode.exclusive) {proj : ρ k → β}
    {post : D.Post (Option β)} (hfault : post (.error D.fault) none done)
    (herr : ∀ e, post (.error (toErr e)) none done)
    (hmiss : ∀ c, Sees t c → found k p (t.view c) = false →
      post (.ok none) (some t) done)
    (hhit : ∀ c r, Sees t c → (t.view c).lookup k = some r → p r = true →
      post (.ok (some (proj r))) (some (t.lock k c .keep)) done) :
    D.wp G (execSql toErr (selectFor mode k p proj)) post (some t) done := by
  refine wp_execSql hfault ?_ herr ?_
  · rintro sn cur hsn hcur (hq | hq)
    · exact hmiss sn hsn hq
    · exact hmiss cur hcur hq
  · intro sn cur c b _ hcur _ hq _ h
    obtain ⟨r, hr, hp, rfl, rfl⟩ := selectFor_hit hq h
    simpa [Open.after, selectFor, hmode] using hhit cur r hcur hr hp

theorem wp_updateRow {mode : LockMode} (hmode : mode.exclusive)
    {f : Store ρ → ρ k → Except σ (ρ k)} {post : D.Post (Option (ρ k))}
    (hfault : post (.error D.fault) none done) (herr : ∀ e, post (.error (toErr e)) none done)
    (hmiss : ∀ c, Sees t c → found k p (t.view c) = false →
      post (.ok none) (some t) done)
    (hhit : ∀ sn c r r', Sees t sn → Sees t c → (t.view c).lookup k = some r →
      p r = true → D.admits k mode (t.view sn) (t.view c) →
      f (t.view sn) r = .ok r' →
      post (.ok (some r')) (some (t.lock k c (.set r'))) done) :
    D.wp G (execSql toErr (updateRow mode hmode k p f)) post (some t) done := by
  refine wp_execSql hfault ?_ herr ?_
  · rintro sn cur hsn hcur (hq | hq)
    · exact hmiss sn hsn hq
    · exact hmiss cur hcur hq
  · intro sn cur c b hsn hcur _ hq ha h
    obtain ⟨r, r', hr, hp, hr', rfl, rfl⟩ := updateRow_hit hq h
    simpa [Open.after, updateRow, hmode] using hhit sn cur r r' hsn hcur hr hp ha hr'

theorem wp_deleteRow {post : D.Post (Option (ρ k))}
    (hfault : post (.error D.fault) none done) (herr : ∀ e, post (.error (toErr e)) none done)
    (hmiss : ∀ c, Sees t c → found k p (t.view c) = false →
      post (.ok none) (some t) done)
    (hhit : ∀ c r, Sees t c → (t.view c).lookup k = some r → p r = true →
      post (.ok (some r)) (some (t.lock k c .remove)) done) :
    D.wp G (execSql toErr (deleteRow k p)) post (some t) done := by
  refine wp_execSql hfault ?_ herr ?_
  · rintro sn cur hsn hcur (hq | hq)
    · exact hmiss sn hsn hq
    · exact hmiss cur hcur hq
  · intro sn cur c b _ hcur _ hq _ h
    obtain ⟨r, hr, hp, rfl, rfl⟩ := deleteRow_hit hq h
    simpa [Open.after, deleteRow, LockMode.exclusive, LockMode.strength] using
      hhit cur r hcur hr hp

theorem wp_insertRow {constraints : Store ρ → Except σ Unit} {r : ρ k} {post : D.Post (ρ k)}
    (hfault : post (.error D.fault) none done) (herr : ∀ e, post (.error (toErr e)) none done)
    (hhit : ∀ c, Sees t c → constraints (t.view c) = .ok () →
      post (.ok r) (some (t.lock k c (.set r))) done) :
    D.wp G (execSql toErr (insertRow k constraints r)) post (some t) done := by
  refine wp_execSql hfault ?_ herr ?_
  · rintro sn cur hsn hcur (hq | hq) <;> cases hq
  · intro sn cur c b _ hcur _ _ _ h
    obtain ⟨hc, rfl, rfl⟩ := insertRow_hit h
    simpa [Open.after, insertRow, LockMode.exclusive, LockMode.strength] using
      hhit cur hcur hc

theorem wp_insertIfAbsent {r : ρ k} {post : D.Post Unit}
    (hfault : post (.error D.fault) none done) (herr : ∀ e, post (.error (toErr e)) none done)
    (hmiss : post (.ok ()) (some t) done)
    (hhit : ∀ c, Sees t c → (t.view c).lookup k = none →
      post (.ok ()) (some (t.lock k c (.set r))) done) :
    D.wp G (execSql toErr (insertIfAbsent k r)) post (some t) done := by
  refine wp_execSql hfault (fun _ _ _ _ _ => hmiss) herr ?_
  intro sn cur c b _ hcur _ hq _ h
  obtain ⟨rfl, rfl⟩ := Prod.mk.inj (Except.ok.inj h)
  simpa [Open.after, insertIfAbsent, LockMode.exclusive, LockMode.strength] using
    hhit cur hcur (Option.isNone_iff_eq_none.mp hq)

theorem wp_lockSlot {f : Store ρ → β} {post : D.Post (Option β)}
    (hfault : post (.error D.fault) none done) (herr : ∀ e, post (.error (toErr e)) none done)
    (hhit : ∀ c, Sees t c →
      post (.ok (some (f (t.view c))))
        (some (t.lock k c .keep)) done) :
    D.wp G (execSql toErr (lockSlot k f)) post (some t) done := by
  refine wp_execSql hfault ?_ herr ?_
  · rintro sn cur hsn hcur (hq | hq) <;> cases hq
  · intro sn cur c b _ hcur _ _ _ h
    obtain ⟨rfl, rfl⟩ := lockSlot_hit h
    simpa [Open.after, lockSlot, LockMode.exclusive, LockMode.strength] using
      hhit cur hcur

end Rules

-- Each rule below runs a statement that may end the request, and leaves the rest to verify.

section Sequence

variable {γ : Type} {D : Contract ρ ε} {G : Store ρ → Store ρ → Prop} {t : D.Open}
  {o : Option D.Open} {done : List (Store ρ × Store ρ)} {toErr : σ → ε} {e : ε} {k : κ}
  {p : ρ k → Bool} {post : D.Post γ}

theorem seq_failIf {c : Bool} {next : Unit → Prog ρ σ ε γ} (herr : post.MayFail done)
    (h : c = false → D.wp G (next ()) post o done) :
    D.wp G ((failIf c e).bind next) post o done := by
  cases c with
  | true => exact (wp_throw e post).mpr (herr _ _)
  | false => exact h rfl

theorem seq_whenever {c : Prop} [Decidable c] {p : Prog ρ σ ε Unit}
    {next : Unit → Prog ρ σ ε γ} (hp : c → D.wp G (p.bind next) post o done)
    (h : ¬ c → D.wp G (next ()) post o done) :
    D.wp G ((whenever c p).bind next) post o done := by
  unfold whenever
  split
  · exact hp ‹_›
  · exact h ‹_›

theorem seq_ofExcept {x : Except ε β} {next : β → Prog ρ σ ε γ} (herr : post.MayFail done)
    (h : ∀ b, x = .ok b → D.wp G (next b) post o done) :
    D.wp G ((ofExcept x).bind next) post o done := by
  cases x with
  | error e => exact (wp_throw e post).mpr (herr _ _)
  | ok b => exact h b rfl

theorem seq_ofOption {x : Option β} {next : β → Prog ρ σ ε γ} (herr : post.MayFail done)
    (h : ∀ b, x = some b → D.wp G (next b) post o done) :
    D.wp G ((ofOption e x).bind next) post o done := by
  cases x with
  | none => exact (wp_throw e post).mpr (herr _ _)
  | some b => exact h b rfl

theorem seq_select {f : Store ρ → β} {next : β → Prog ρ σ ε γ} (herr : post.MayFail done)
    (h : ∀ c, Sees (o.getD {}) c → D.wp G (next (f ((o.getD {}).view c))) post o done) :
    D.wp G ((select f).bind next) post o done :=
  wp_seq (wp_select (herr _ _) h)

theorem seq_beginTx {next : Unit → Prog ρ σ ε γ} (herr : post.MayFail done)
    (h : D.wp G (next ()) post (some {}) done) :
    D.wp G (beginTx.bind next) post none done :=
  wp_seq (wp_beginTx (herr _ _) h)

theorem seq_rollbackTx {next : Unit → Prog ρ σ ε γ} (herr : post.MayFail done)
    (h : D.wp G (next ()) post none done) :
    D.wp G (rollbackTx.bind next) post (some t) done :=
  wp_seq (wp_rollbackTx (herr _ _) h)

theorem seq_commitTx {next : Unit → Prog ρ σ ε γ} (herr : post.MayFail done)
    (hpub : ∀ c, Sees t c → D.Publishable G t c)
    (h : ∀ c, Sees t c → D.wp G (next ()) post none ((c, t.view c) :: done)) :
    D.wp G (commitTx.bind next) post (some t) done :=
  wp_seq (wp_commitTx (herr _ _) fun c hc => ⟨hpub c hc, h c hc⟩)

theorem seq_freshId {key : Nat → κ} {next : Nat → Prog ρ σ ε γ} (herr : post.MayFail done)
    (h : ∀ n t', t.Step t' (key n) id → ¬ t.Locks (key n) →
      (∀ c, Sees t' c → c.lookup (key n) = none) → D.wp G (next n) post (some t') done) :
    D.wp G ((freshId key).bind next) post (some t) done := by
  refine wp_seq (wp_freshId (herr _ _) fun c n _ hnone hlocks => ?_)
  refine h n _ (step_lock t _ c .keep) hlocks fun c' hc' => ?_
  rw [D.lookup_congr _ _ _ ((sees_lock t).mp hc').1, hnone]

theorem seq_fetchFor {mode : LockMode} (hmode : mode.exclusive) {proj : ρ k → β}
    {next : β → Prog ρ σ ε γ} (herr : post.MayFail done)
    (h : ∀ r t', t.Step t' k id → p r = true →
      (∀ c, Sees t' c → (t.view c).lookup k = some r) →
      D.wp G (next (proj r)) post (some t') done) :
    D.wp G ((fetchOr toErr e (selectFor mode k p proj)).bind next) post (some t) done := by
  refine wp_seq (wp_seq (wp_selectFor hmode (herr _ _) (fun _ => herr _ _)
    (fun _ _ _ => (wp_throw e _).mpr (herr _ _)) fun c r hc hr hp => ?_))
  exact (wp_ret _ _).mpr
    (h r _ (step_lock t k c .keep) hp fun _ hc' => (lookup_view_of_sees_lock t hc').trans hr)

/-- What is known once a row has been updated: the version `r` it had, and a
snapshot and a latest version from which the new version `r'` was computed. -/
structure Updated (t t' : D.Open) (mode : LockMode) (k : κ) (p : ρ k → Bool)
    (f : Store ρ → ρ k → Except σ (ρ k)) (r r' : ρ k) : Prop where
  step : t.Step t' k fun s => put s k (some r')
  holds : p r = true
  old : ∀ c, Sees t' c → (t.view c).lookup k = some r
  admitted : ∃ sn c, Sees t sn ∧ Sees t' c ∧ D.admits k mode (t.view sn) (t.view c) ∧
    f (t.view sn) r = .ok r'

theorem updated_of_hit {mode : LockMode} {f : Store ρ → ρ k → Except σ (ρ k)} {sn c : Store ρ}
    {r r' : ρ k}
    (hsn : Sees t sn) (hc : Sees t c) (hr : (t.view c).lookup k = some r) (hp : p r = true)
    (ha : D.admits k mode (t.view sn) (t.view c)) (hf : f (t.view sn) r = .ok r') :
    Updated t (t.lock k c (.set r')) mode k p f r r' :=
  ⟨step_lock t k c _, hp, fun _ hc' => (lookup_view_of_sees_lock t hc').trans hr,
    sn, c, hsn, (sees_lock t).mpr ⟨rfl, hc⟩, ha, hf⟩

theorem seq_fetchUpdate {mode : LockMode} (hmode : mode.exclusive)
    {f : Store ρ → ρ k → Except σ (ρ k)} {next : ρ k → Prog ρ σ ε γ}
    (herr : post.MayFail done)
    (h : ∀ r r' t', Updated t t' mode k p f r r' → D.wp G (next r') post (some t') done) :
    D.wp G ((fetchOr toErr e (updateRow mode hmode k p f)).bind next) post (some t) done :=
  wp_seq (wp_seq (wp_updateRow hmode (herr _ _) (fun _ => herr _ _)
    (fun _ _ _ => (wp_throw e _).mpr (herr _ _))
    fun _ _ r r' hsn hc hr hp ha hf =>
      (wp_ret _ _).mpr (h r r' _ (updated_of_hit hsn hc hr hp ha hf))))

theorem seq_tryUpdate {mode : LockMode} (hmode : mode.exclusive)
    {f : Store ρ → ρ k → Except σ (ρ k)} {next : Option (ρ k) → Prog ρ σ ε γ}
    (herr : post.MayFail done)
    (hmiss : ∀ c, Sees t c → found k p (t.view c) = false →
      D.wp G (next none) post (some t) done)
    (h : ∀ r r' t', Updated t t' mode k p f r r' → D.wp G (next (some r')) post (some t') done) :
    D.wp G ((execSql toErr (updateRow mode hmode k p f)).bind next) post (some t) done :=
  wp_seq (wp_updateRow hmode (herr _ _) (fun _ => herr _ _) hmiss
    fun _ _ r r' hsn hc hr hp ha hf => h r r' _ (updated_of_hit hsn hc hr hp ha hf))

theorem seq_update {mode : LockMode} (hmode : mode.exclusive)
    {f : Store ρ → ρ k → Except σ (ρ k)} {next : Option (ρ k) → Prog ρ σ ε γ}
    (herr : post.MayFail done) (hfound : ∀ c, Sees t c → found k p (t.view c) = true)
    (h : ∀ r r' t', Updated t t' mode k p f r r' → D.wp G (next (some r')) post (some t') done) :
    D.wp G ((execSql toErr (updateRow mode hmode k p f)).bind next) post (some t) done := by
  refine seq_tryUpdate hmode herr (fun c hc hmiss => ?_) h
  simp [hfound c hc] at hmiss

theorem seq_fetchDelete {next : ρ k → Prog ρ σ ε γ} (herr : post.MayFail done)
    (h : ∀ r t', t.Step t' k (fun s => put s k none) → p r = true →
      (∀ c, Sees t' c → (t.view c).lookup k = some r) → D.wp G (next r) post (some t') done) :
    D.wp G ((fetchOr toErr e (deleteRow k p)).bind next) post (some t) done := by
  refine wp_seq (wp_seq (wp_deleteRow (herr _ _) (fun _ => herr _ _)
    (fun _ _ _ => (wp_throw e _).mpr (herr _ _)) fun c r hc hr hp => ?_))
  exact (wp_ret _ _).mpr
    (h r _ (step_lock t k c .remove) hp fun _ hc' =>
      (lookup_view_of_sees_lock t hc').trans hr)

theorem seq_insert {constraints : Store ρ → Except σ Unit} {r : ρ k}
    {next : ρ k → Prog ρ σ ε γ} (herr : post.MayFail done)
    (h : ∀ c t', t.Step t' k (fun s => put s k (some r)) → Sees t' c →
      constraints (t.view c) = .ok () → D.wp G (next r) post (some t') done) :
    D.wp G ((execSql toErr (insertRow k constraints r)).bind next) post (some t) done :=
  wp_seq (wp_insertRow (herr _ _) (fun _ => herr _ _) fun c hc hok =>
    h c _ (step_lock t k c _) ((sees_lock t).mpr ⟨rfl, hc⟩) hok)

theorem seq_insertIfAbsent {r : ρ k} {next : Unit → Prog ρ σ ε γ} (herr : post.MayFail done)
    (hmiss : D.wp G (next ()) post (some t) done)
    (h : ∀ t', t.Step t' k (fun s => put s k (some r)) →
      (∀ c, Sees t' c → (t.view c).lookup k = none) → D.wp G (next ()) post (some t') done) :
    D.wp G ((execSql toErr (insertIfAbsent k r)).bind next) post (some t) done :=
  wp_seq (wp_insertIfAbsent (herr _ _) (fun _ => herr _ _) hmiss fun c _ hnone =>
    h _ (step_lock t k c _) fun _ hc' => (lookup_view_of_sees_lock t hc').trans hnone)

theorem seq_lockSlot {f : Store ρ → β} {next : Option β → Prog ρ σ ε γ}
    (herr : post.MayFail done)
    (h : ∀ c t', t.Step t' k id → Sees t' c → D.wp G (next (some (f (t.view c)))) post (some t')
      done) :
    D.wp G ((execSql toErr (lockSlot k f)).bind next) post (some t) done :=
  wp_seq (wp_lockSlot (herr _ _) (fun _ => herr _ _) fun c hc =>
    h c _ (step_lock t k c .keep) ((sees_lock t).mpr ⟨rfl, hc⟩))

/-- A transaction that went on, changing only rows of one kind. -/
structure Confined (t t' : D.Open) (q : κ → Bool) : Prop where
  sees : ∀ c, Sees t' c → Sees t c
  mono : ∀ k, t.Locks k → t'.Locks k
  rows : ∀ c, Sees t' c → ∀ k, q k = false → (t'.view c).lookup k = (t.view c).lookup k

theorem Confined.trans {t t' t'' : D.Open} {q : κ → Bool} (h : Confined t t' q)
    (h' : Confined t' t'' q) : Confined t t'' q :=
  ⟨fun c hc => h.sees c (h'.sees c hc), fun k hk => h'.mono k (h.mono k hk), fun c hc k hk =>
    (h'.rows c hc k hk).trans (h.rows c (h'.sees c hc) k hk)⟩

theorem Confined.of_step {t t' : D.Open} {q : κ → Bool} {F : Store ρ → Store ρ}
    (h : t.Step t' k F) (hF : ∀ s k', q k' = false → (F s).lookup k' = s.lookup k') :
    Confined t t' q :=
  ⟨h.sees, fun k' hk' => (h.locks k').mpr (Or.inr hk'), fun c hc k' hk' => by
    rw [h.view c hc, hF _ k' hk']⟩

theorem Confined.of_put {t t' : D.Open} {q : κ → Bool} {r : Option (ρ k)}
    (h : t.Step t' k fun s => put s k r) (hk : q k = true) : Confined t t' q := by
  refine .of_step h fun s k' hk' => lookup_put_of_ne ?_ r
  rintro rfl
  simp [hk] at hk'

theorem seq_foreignKey {violation : σ} {next : Unit → Prog ρ σ ε γ} (herr : post.MayFail done)
    (h : D.wp G (next ()) post (some t) done) :
    D.wp G ((foreignKey toErr violation k).bind next) post (some t) done := by
  refine wp_seq (wp_seq (wp_selectFor_shared rfl (herr _ _) (fun _ => herr _ _) fun r => ?_))
  cases r with
  | none => exact (wp_throw _ _).mpr (herr _ _)
  | some _ => exact (wp_ret _ _).mpr h

theorem seq_foreignKeyOpt {α : Type} {violation : σ} {key : α → κ} {a : Option α}
    {next : Unit → Prog ρ σ ε γ} (herr : post.MayFail done)
    (h : D.wp G (next ()) post (some t) done) :
    D.wp G ((foreignKeyOpt toErr violation key a).bind next) post (some t) done := by
  cases a with
  | none => exact h
  | some a => exact seq_foreignKey herr h

theorem seq_whenever_foreignKeyOpt {α : Type} {c : Prop} [Decidable c] {violation : σ}
    {key : α → κ} {a : Option α} {next : Unit → Prog ρ σ ε γ} (herr : post.MayFail done)
    (h : D.wp G (next ()) post (some t) done) :
    D.wp G ((whenever c (foreignKeyOpt toErr violation key a)).bind next) post (some t) done :=
  seq_whenever (fun _ => seq_foreignKeyOpt herr h) fun _ => h

/-- A transaction that, for some rows satisfying `p`, replaced them by `f`. -/
structure Rewritten (t t' : D.Open) (p : (k : κ) → ρ k → Bool) (f : (k : κ) → ρ k → ρ k) :
    Prop where
  sees : ∀ c, Sees t' c → Sees t c
  locks : ∀ k, t.Locks k → t'.Locks k
  rows : ∀ c, Sees t' c → ∀ k, (t'.view c).lookup k = (t.view c).lookup k ∨
    ∃ r, (t.view c).lookup k = some r ∧ p k r = true ∧ (t'.view c).lookup k = some (f k r)

theorem Rewritten.refl (t : D.Open) (p : (k : κ) → ρ k → Bool) (f : (k : κ) → ρ k → ρ k) :
    Rewritten t t p f :=
  ⟨fun _ hc => hc, fun _ hk => hk, fun _ _ _ => Or.inl rfl⟩

theorem Rewritten.trans {t t' t'' : D.Open} {p : (k : κ) → ρ k → Bool}
    {f : (k : κ) → ρ k → ρ k} (hpf : ∀ k r, p k (f k r) = false)
    (h : Rewritten t t' p f) (h' : Rewritten t' t'' p f) : Rewritten t t'' p f := by
  refine ⟨fun c hc => h.sees c (h'.sees c hc), fun k hk => h'.locks k (h.locks k hk), ?_⟩
  intro c hc k
  rcases h'.rows c hc k with heq | ⟨r, hr, hp, hr'⟩
  · rw [heq]
    exact h.rows c (h'.sees c hc) k
  · rcases h.rows c (h'.sees c hc) k with heq | ⟨r₀, hr₀, _, hr₀'⟩
    · exact Or.inr ⟨r, heq ▸ hr, hp, hr'⟩
    · obtain rfl := Option.some.inj (hr.symm.trans hr₀')
      simp [hpf] at hp

theorem rewritten_of_updated {t t' : D.Open} {mode : LockMode} {p : (k : κ) → ρ k → Bool}
    {f : (k : κ) → ρ k → ρ k} {r r' : ρ k}
    (h : Updated t t' mode k (p k) (fun _ r => (.ok (f k r) : Except σ (ρ k))) r r') :
    Rewritten t t' p f := by
  obtain ⟨_, _, _, _, _, hr'⟩ := h.admitted
  obtain rfl := Except.ok.inj hr'
  refine ⟨h.step.sees, fun k' hk' => (h.step.locks k').mpr (Or.inr hk'), fun c hc k' => ?_⟩
  rw [h.step.view c hc]
  by_cases hk : k' = k
  · subst hk
    exact Or.inr ⟨r, h.old c hc, h.holds, lookup_put_self _ _ _⟩
  · exact Or.inl (lookup_put_of_ne hk _)

theorem Rewritten.confined {t t' : D.Open} {p : (k : κ) → ρ k → Bool}
    {f : (k : κ) → ρ k → ρ k} {q : κ → Bool} (h : Rewritten t t' p f)
    (hp : ∀ k r, q k = false → p k r = false) : Confined t t' q := by
  refine ⟨h.sees, h.locks, fun c hc k hk => ?_⟩
  rcases h.rows c hc k with heq | ⟨r, _, hr, _⟩
  · exact heq
  · simp [hp k r hk] at hr

theorem seq_updateAll {p : (k : κ) → ρ k → Bool} {f : (k : κ) → ρ k → ρ k}
    (hpf : ∀ k r, p k (f k r) = false) {ks : List κ} {next : Unit → Prog ρ σ ε γ}
    (herr : post.MayFail done)
    (h : ∀ t', Rewritten t t' p f → D.wp G (next ()) post (some t') done) :
    D.wp G ((updateAll toErr p f ks).bind next) post (some t) done := by
  induction ks generalizing t with
  | nil => exact h t (Rewritten.refl t p f)
  | cons k ks ih =>
      refine wp_seq (wp_seq (wp_updateRow rfl (herr _ _) (fun _ => herr _ _) ?_ ?_))
      · intro c _ _
        exact (wp_bind _ _ _).mp (ih h)
      · intro sn c r r' hsn hc hr hp ha hf
        refine (wp_bind _ _ _).mp (ih fun t' ht' => h t' ?_)
        exact (rewritten_of_updated (updated_of_hit hsn hc hr hp ha hf)).trans hpf ht'

theorem seq_updateWhere {p : (k : κ) → ρ k → Bool} {f : (k : κ) → ρ k → ρ k}
    (hpf : ∀ k r, p k (f k r) = false) {next : Unit → Prog ρ σ ε γ}
    (herr : post.MayFail done)
    (h : ∀ t', Rewritten t t' p f → D.wp G (next ()) post (some t') done) :
    D.wp G ((updateWhere toErr p f).bind next) post (some t) done := by
  refine wp_seq (wp_seq (wp_select (herr _ _) fun c _ => ?_))
  exact (wp_bind _ _ _).mp (seq_updateAll hpf herr h)

end Sequence

end PersonalDashboard.RowStatements
