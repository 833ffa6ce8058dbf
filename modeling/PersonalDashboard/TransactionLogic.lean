import PersonalDashboard.ReadCommitted

/-! A program logic for transactions under row locks: a committed store can only
change, in the region that a key protects, by a commit of the process that holds
the key exclusively. -/

set_option autoImplicit false

namespace PersonalDashboard.TransactionLogic

open PersonalDashboard.RowStore
open PersonalDashboard.ReadCommitted
open PersonalDashboard.ReadCommitted.Config

/-- What all processes agree on: the region of the store that the exclusive lock
on a key protects, the invariant of committed stores, a condition under which a
statement may be assumed to take effect (on its row and lock mode, its snapshot and
the latest version), and the error that a failing step ends with. -/
structure Contract {κ : Type} [DecidableEq κ] (ρ : κ → Type) (ε : Type) where
  Region : κ → Type
  region : (k : κ) → Store ρ → Region k
  /-- The region of a key contains its row. -/
  lookup_congr : ∀ k c c', region k c = region k c' → c.lookup k = c'.lookup k
  inv : Store ρ → Prop
  admits : κ → LockMode → Store ρ → Store ρ → Prop
  fault : ε

variable {κ : Type} [DecidableEq κ] {ρ : κ → Type} {σ ε α β : Type}

namespace Contract

/-- An open transaction: the regions it has locked, as they were committed when
it locked them, and its pending changes, all of locked rows. -/
structure Open (D : Contract ρ ε) where
  frozen : List (Sigma D.Region) := []
  writes : List (Write ρ) := []
  framed : ∀ w ∈ writes, ∃ f ∈ frozen, f.1 = w.key := by simp

/-- The locked regions are still as they were when they were locked. -/
def Holds (D : Contract ρ ε) (fr : List (Sigma D.Region)) (c : Store ρ) : Prop :=
  ∀ f ∈ fr, D.region f.1 c = f.2

@[simp]
theorem holds_nil (D : Contract ρ ε) (c : Store ρ) : D.Holds [] c := by
  simp [Holds]

@[simp]
theorem holds_cons (D : Contract ρ ε) (f : Sigma D.Region) (fr : List (Sigma D.Region))
    (c : Store ρ) : D.Holds (f :: fr) c ↔ D.region f.1 c = f.2 ∧ D.Holds fr c := by
  simp [Holds]

/-- A committed store that the open transaction may be looking at. -/
structure Sees {D : Contract ρ ε} (o : D.Open) (c : Store ρ) : Prop where
  inv : D.inv c
  holds : D.Holds o.frozen c

def Open.lock {D : Contract ρ ε} (o : D.Open) (k : κ) (cur : Store ρ) (c : Change ρ k) :
    D.Open where
  frozen := ⟨k, D.region k cur⟩ :: o.frozen
  writes := o.writes ++ c.writes
  framed w hw := by
    rcases List.mem_append.mp hw with hw | hw
    · obtain ⟨f, hf, hkey⟩ := o.framed w hw
      exact ⟨f, List.mem_cons_of_mem _ hf, hkey⟩
    · exact ⟨_, List.mem_cons_self, (Change.key_of_mem_writes hw).symm⟩

def Open.after {D : Contract ρ ε} (o : D.Open) (st : Statement ρ σ β) (cur : Store ρ)
    (c : Change ρ st.row) : D.Open :=
  if st.mode.exclusive then o.lock st.row cur c else o

def Open.view {D : Contract ρ ε} (o : D.Open) (c : Store ρ) : Store ρ :=
  applyAll c o.writes

def Open.Locks {D : Contract ρ ε} (o : D.Open) (k : κ) : Prop :=
  ∃ f ∈ o.frozen, f.1 = k

/-- A transaction that locked one more key and changed what it reads by `F`. It
can only see stores that it could see before. -/
structure Open.Step {D : Contract ρ ε} (o o' : D.Open) (k : κ) (F : Store ρ → Store ρ) :
    Prop where
  sees : ∀ c, Sees o' c → Sees o c
  view : ∀ c, Sees o' c → o'.view c = F (o.view c)
  locks : ∀ k', o'.Locks k' ↔ k = k' ∨ o.Locks k'

section Views

variable {D : Contract ρ ε} (o : D.Open) {k : κ} {c cur : Store ρ}

@[simp]
theorem view_empty (c : Store ρ) : ({} : D.Open).view c = c :=
  rfl

@[simp]
theorem sees_empty : Sees ({} : D.Open) c ↔ D.inv c :=
  ⟨fun h => h.inv, fun h => ⟨h, D.holds_nil c⟩⟩

@[simp]
theorem locks_empty : ({} : D.Open).Locks k ↔ False := by
  simp [Open.Locks]

theorem sees_lock {ch : Change ρ k} :
    Sees (o.lock k cur ch) c ↔ D.region k c = D.region k cur ∧ Sees o c := by
  constructor
  · rintro ⟨hinv, hholds⟩
    obtain ⟨hk, hholds⟩ := (D.holds_cons _ _ _).mp hholds
    exact ⟨hk, hinv, hholds⟩
  · rintro ⟨hk, hinv, hholds⟩
    exact ⟨hinv, (D.holds_cons _ _ _).mpr ⟨hk, hholds⟩⟩

theorem step_lock (k : κ) (cur : Store ρ) (ch : Change ρ k) :
    o.Step (o.lock k cur ch) k ch.apply where
  sees _ hc := ((sees_lock o).mp hc).2
  view _ _ := applyAll_append _ _ _
  locks k' := by simp [Open.Locks, Open.lock]

theorem Open.Step.comp {o' o'' : D.Open} {F F' : Store ρ → Store ρ} (h : o.Step o' k F)
    (h' : o'.Step o'' k F') : o.Step o'' k (F' ∘ F) where
  sees c hc := h.sees c (h'.sees c hc)
  view c hc := by rw [h'.view c hc, h.view c (h'.sees c hc), Function.comp_apply]
  locks k' := by rw [h'.locks, h.locks, ← or_assoc, or_self]

/-- Once a key is locked, its row stays what the transaction has read. -/
theorem lookup_view_of_sees_lock {ch : Change ρ k} (h : Sees (o.lock k cur ch) c) :
    (o.view c).lookup k = (o.view cur).lookup k :=
  lookup_applyAll_congr (D.lookup_congr k _ _ ((sees_lock o).mp h).1) o.writes

theorem lookup_view_of_not_locks (h : ¬ o.Locks k) (c : Store ρ) :
    (o.view c).lookup k = c.lookup k := by
  refine lookup_applyAll_of_forall_ne (fun w hw hkey => ?_) c
  obtain ⟨f, hf, hf'⟩ := o.framed w hw
  exact h ⟨f, hf, hf'.trans hkey⟩

theorem region_congr (h : o.Locks k) {c c' : Store ρ} (hc : Sees o c) (hc' : Sees o c') :
    D.region k c = D.region k c' := by
  obtain ⟨f, hf, rfl⟩ := h
  rw [hc.holds f hf, hc'.holds f hf]

end Views

/-- A transaction may commit over a committed store when it changes only regions
it has locked, keeps the invariant and makes a change that its process is
allowed to make. -/
structure Publishable (D : Contract ρ ε) (G : Store ρ → Store ρ → Prop) (o : D.Open)
    (c : Store ρ) : Prop where
  unlocked : ∀ k, ¬ o.Locks k → D.region k (o.view c) = D.region k c
  inv : D.inv (o.view c)
  allowed : G c (o.view c)

/-- What a postcondition speaks about: the result, the transaction left open, and
the commits made so far (the committed stores around each). -/
abbrev Post (D : Contract ρ ε) (α : Type) :=
  Except ε α → Option D.Open → List (Store ρ × Store ρ) → Prop

/-- The weakest precondition of a program: every result of every run under
arbitrary interference by processes that keep to the same contract satisfies the
postcondition, and every commit on the way is publishable. -/
def wp (D : Contract ρ ε) (G : Store ρ → Store ρ → Prop) :
    Prog ρ σ ε α → D.Post α → Option D.Open → List (Store ρ × Store ρ) → Prop
  | .ret a, post, o, done => post (.ok a) o done
  | .throw e, post, o, done => post (.error e) o done
  | .query f next, post, o, done =>
      post (.error D.fault) none done ∧
      ∀ c, Sees (o.getD {}) c →
        D.wp G (next (f ((o.getD {}).view c))) post o done
  | .begin next, post, o, done =>
      post (.error D.fault) none done ∧ o.isNone ∧ D.wp G next post (some {}) done
  | .rollback next, post, o, done =>
      post (.error D.fault) none done ∧ o.isSome ∧ D.wp G next post none done
  | .commit next, post, some o, done =>
      post (.error D.fault) none done ∧
      ∀ c, Sees o c →
        D.Publishable G o c ∧ D.wp G next post none ((c, o.view c) :: done)
  | .commit _, _, none, _ => False
  | .alloc key next, post, some o, done =>
      post (.error D.fault) none done ∧
      ∀ c n, Sees o c → c.lookup (key n) = none → ¬ o.Locks (key n) →
        D.wp G (next n) post (some (o.lock (key n) c .keep)) done
  | .alloc _ _, _, none, _ => False
  | .exec st next, post, some o, done =>
      post (.error D.fault) none done ∧
      ∀ sn cur, Sees o sn → Sees o cur →
        (st.qualifies (o.view sn) = false ∨ st.qualifies (o.view cur) = false →
          D.wp G (next (.ok st.miss)) post (some o) done) ∧
        (st.qualifies (o.view sn) = true → st.qualifies (o.view cur) = true →
          D.admits st.row st.mode (o.view sn) (o.view cur) →
          match st.hit (o.view sn) (o.view cur) with
          | .error e => D.wp G (next (.error e)) post none done
          | .ok (c, b) => D.wp G (next (.ok b)) post (some (o.after st cur c)) done)
  | .exec _ _, _, none, _ => False

def Post.andThen {D : Contract ρ ε} (G : Store ρ → Store ρ → Prop)
    (f : α → Prog ρ σ ε β) (post : D.Post β) : D.Post α
  | .ok a, o, done => D.wp G (f a) post o done
  | .error e, o, done => post (.error e) o done

def Post.MayFail {D : Contract ρ ε} (post : D.Post α) (done : List (Store ρ × Store ρ)) :
    Prop :=
  ∀ e o, post (.error e) o done

/-- A request is answered after exactly one commit, or fails without one. -/
def atomically (D : Contract ρ ε) (α : Type) : D.Post α
  | .ok _, _, done => done.length = 1
  | .error _, _, done => done = []

theorem mayFail_atomically (D : Contract ρ ε) (α : Type) : (D.atomically α).MayFail [] :=
  fun _ _ => rfl

section Rules

variable {D : Contract ρ ε} {G : Store ρ → Store ρ → Prop} {o : Option D.Open}
  {done : List (Store ρ × Store ρ)}

@[simp]
theorem andThen_ok (f : α → Prog ρ σ ε β) (post : D.Post β) (a : α) :
    Post.andThen G f post (.ok a) o done ↔ D.wp G (f a) post o done :=
  Iff.rfl

@[simp]
theorem andThen_error (f : α → Prog ρ σ ε β) (post : D.Post β) (e : ε) :
    Post.andThen G f post (.error e) o done ↔ post (.error e) o done :=
  Iff.rfl

@[simp]
theorem wp_ret (a : α) (post : D.Post α) :
    D.wp G (.ret a : Prog ρ σ ε α) post o done ↔ post (.ok a) o done :=
  Iff.rfl

@[simp]
theorem wp_throw (e : ε) (post : D.Post α) :
    D.wp G (.throw e : Prog ρ σ ε α) post o done ↔ post (.error e) o done :=
  Iff.rfl

theorem wp_bind (p : Prog ρ σ ε α) (f : α → Prog ρ σ ε β) (post : D.Post β) :
    D.wp G (p.bind f) post o done ↔ D.wp G p (Post.andThen G f post) o done := by
  induction p generalizing o done with
  | ret a => rfl
  | throw e => rfl
  | query q next ih => simp only [Prog.bind, wp, ih, andThen_error]
  | begin next ih => simp only [Prog.bind, wp, ih, andThen_error]
  | rollback next ih => simp only [Prog.bind, wp, ih, andThen_error]
  | commit next ih =>
      cases o with
      | none => rfl
      | some o => simp only [Prog.bind, wp, ih, andThen_error]
  | alloc key next ih =>
      cases o with
      | none => rfl
      | some o => simp only [Prog.bind, wp, ih, andThen_error]
  | exec st next ih =>
      cases o with
      | none => rfl
      | some o => simp only [Prog.bind, wp, ih, andThen_error]

theorem wp_mono {p : Prog ρ σ ε α} {post post' : D.Post α}
    (h : ∀ r o done, post r o done → post' r o done)
    (hp : D.wp G p post o done) : D.wp G p post' o done := by
  induction p generalizing o done with
  | ret a => exact h _ _ _ hp
  | throw e => exact h _ _ _ hp
  | query q next ih =>
      exact ⟨h _ _ _ hp.1, fun c hc => ih _ (hp.2 c hc)⟩
  | begin next ih => exact ⟨h _ _ _ hp.1, hp.2.1, ih hp.2.2⟩
  | rollback next ih => exact ⟨h _ _ _ hp.1, hp.2.1, ih hp.2.2⟩
  | commit next ih =>
      cases o with
      | none => exact hp
      | some o =>
          exact ⟨h _ _ _ hp.1, fun c hc => ⟨(hp.2 c hc).1, ih (hp.2 c hc).2⟩⟩
  | alloc key next ih =>
      cases o with
      | none => exact hp
      | some o =>
          exact ⟨h _ _ _ hp.1, fun c n hc hn hne => ih _ (hp.2 c n hc hn hne)⟩
  | exec st next ih =>
      cases o with
      | none => exact hp
      | some o =>
          refine ⟨h _ _ _ hp.1, fun sn cur hsn hcur => ?_⟩
          obtain ⟨hmiss, hhit⟩ := hp.2 sn cur hsn hcur
          refine ⟨fun hq => ih _ (hmiss hq), fun hq hq' ha => ?_⟩
          have hnext := hhit hq hq' ha
          split at hnext
          · exact ih _ hnext
          · exact ih _ hnext

theorem fault_of_wp {p : Prog ρ σ ε α} {post : D.Post α} (h : D.wp G p post o done)
    (hret : ∀ a, p ≠ .ret a) (hthrow : ∀ e, p ≠ .throw e) :
    post (.error D.fault) none done := by
  cases p with
  | ret a => exact absurd rfl (hret a)
  | throw e => exact absurd rfl (hthrow e)
  | query q next => exact h.1
  | begin next => exact h.1
  | rollback next => exact h.1
  | commit next =>
      cases o with
      | none => exact h.elim
      | some o => exact h.1
  | alloc key next =>
      cases o with
      | none => exact h.elim
      | some o => exact h.1
  | exec st next =>
      cases o with
      | none => exact h.elim
      | some o => exact h.1

theorem wp_seq {p : Prog ρ σ ε α} {f : α → Prog ρ σ ε β} {post : D.Post β}
    (h : D.wp G p (Post.andThen G f post) o done) : D.wp G (p.bind f) post o done :=
  (wp_bind p f post).mpr h

theorem wp_atomically_map {p : Prog ρ σ ε α} (f : α → β)
    (h : D.wp G p (D.atomically α) o done) : D.wp G (f <$> p) (D.atomically β) o done := by
  rw [Prog.map_eq]
  refine wp_seq (wp_mono (fun r o done hr => ?_) h)
  cases r with
  | ok a => exact (wp_ret (G := G) (σ := σ) (f a) (D.atomically β)).mpr hr
  | error e => exact hr

theorem wp_select {f : Store ρ → β} {post : D.Post β}
    (hfault : post (.error D.fault) none done)
    (h : ∀ c, Sees (o.getD {}) c → post (.ok (f ((o.getD {}).view c))) o done) :
    D.wp G (select f : Prog ρ σ ε β) post o done :=
  ⟨hfault, h⟩

theorem wp_beginTx {post : D.Post Unit} (hfault : post (.error D.fault) none done)
    (h : post (.ok ()) (some {}) done) :
    D.wp G (beginTx : Prog ρ σ ε Unit) post none done :=
  ⟨hfault, rfl, h⟩

theorem wp_rollbackTx {post : D.Post Unit} {t : D.Open}
    (hfault : post (.error D.fault) none done) (h : post (.ok ()) none done) :
    D.wp G (rollbackTx : Prog ρ σ ε Unit) post (some t) done :=
  ⟨hfault, rfl, h⟩

theorem wp_commitTx {post : D.Post Unit} {t : D.Open}
    (hfault : post (.error D.fault) none done)
    (h : ∀ c, Sees t c →
      D.Publishable G t c ∧ post (.ok ()) none ((c, t.view c) :: done)) :
    D.wp G (commitTx : Prog ρ σ ε Unit) post (some t) done :=
  ⟨hfault, h⟩

theorem wp_freshId {key : Nat → κ} {post : D.Post Nat} {t : D.Open}
    (hfault : post (.error D.fault) none done)
    (h : ∀ c n, Sees t c → c.lookup (key n) = none → ¬ t.Locks (key n) →
      post (.ok n) (some (t.lock (key n) c .keep)) done) :
    D.wp G (freshId key : Prog ρ σ ε Nat) post (some t) done :=
  ⟨hfault, h⟩

theorem wp_execSql {toErr : σ → ε} {st : Statement ρ σ β} {post : D.Post β} {t : D.Open}
    (hfault : post (.error D.fault) none done)
    (hmiss : ∀ sn cur, Sees t sn → Sees t cur →
      st.qualifies (t.view sn) = false ∨ st.qualifies (t.view cur) = false →
      post (.ok st.miss) (some t) done)
    (herr : ∀ e, post (.error (toErr e)) none done)
    (hhit : ∀ sn cur c b, Sees t sn → Sees t cur → st.qualifies (t.view sn) = true →
      st.qualifies (t.view cur) = true → D.admits st.row st.mode (t.view sn) (t.view cur) →
      st.hit (t.view sn) (t.view cur) = .ok (c, b) →
      post (.ok b) (some (t.after st cur c)) done) :
    D.wp G (execSql toErr st) post (some t) done := by
  refine ⟨hfault, fun sn cur hsn hcur => ⟨hmiss sn cur hsn hcur, ?_⟩⟩
  intro hq hq' ha
  split
  · exact herr _
  · rename_i c b hr
    exact hhit sn cur c b hsn hcur hq hq' ha hr

end Rules

variable {ι : Type} [DecidableEq ι]

/-- A process holds the exclusive lock of every region it has frozen. -/
def Covers {D : Contract ρ ε} (locks : List (Lock ι κ)) (i : ι)
    (fr : List (Sigma D.Region)) : Prop :=
  ∀ f ∈ fr, ∃ l ∈ locks, l.proc = i ∧ l.key = f.1 ∧ l.mode.exclusive

omit [DecidableEq ι] in
theorem Covers.mono {D : Contract ρ ε} {locks locks' : List (Lock ι κ)} {i : ι}
    {fr : List (Sigma D.Region)} (h : Covers locks i fr) (hsub : locks ⊆ locks') :
    Covers locks' i fr := by
  intro f hf
  obtain ⟨l, hl, hrest⟩ := h f hf
  exact ⟨l, hsub hl, hrest⟩

theorem Covers.release {D : Contract ρ ε} {locks : List (Lock ι κ)} {i j : ι}
    {fr : List (Sigma D.Region)} (h : Covers locks j fr) (hij : j ≠ i) :
    Covers (locks.filter fun l => l.proc ≠ i) j fr := by
  intro f hf
  obtain ⟨l, hl, hproc, hrest⟩ := h f hf
  exact ⟨l, List.mem_filter.mpr ⟨hl, by simpa [hproc] using hij⟩, hproc, hrest⟩

/-- What the logic knows about one process: its remaining program meets the
postcondition, and what its transaction has frozen is locked and unchanged. -/
def ProcSound (D : Contract ρ ε) (G : Store ρ → Store ρ → Prop)
    (post : Except ε α → List (Store ρ × Store ρ) → Prop) (db : Store ρ)
    (locks : List (Lock ι κ)) (i : ι) (p : Proc ρ σ ε α)
    (done : List (Store ρ × Store ρ)) : Prop :=
  match p.tx with
  | none => D.wp G p.prog (fun r _ done => post r done) none done
  | some ws => ∃ o : D.Open, o.writes = ws ∧
      D.wp G p.prog (fun r _ done => post r done) (some o) done ∧
      D.Holds o.frozen db ∧ Covers locks i o.frozen ∧
      ∀ sn, p.snapshot = some sn → ∃ c, Sees o c ∧ sn = o.view c

omit [DecidableEq ι] in
/-- Steps of other processes do not disturb what is known about a process, as
long as they keep its locks and the regions it has frozen. -/
theorem ProcSound.frame {D : Contract ρ ε} {G : Store ρ → Store ρ → Prop}
    {post : Except ε α → List (Store ρ × Store ρ) → Prop} {db db' : Store ρ}
    {locks locks' : List (Lock ι κ)} {i : ι} {p : Proc ρ σ ε α}
    {done : List (Store ρ × Store ρ)} (h : ProcSound D G post db locks i p done)
    (hlocks : ∀ fr : List (Sigma D.Region), Covers locks i fr → Covers locks' i fr)
    (hdb : ∀ fr : List (Sigma D.Region), Covers locks i fr → D.Holds fr db → D.Holds fr db') :
    ProcSound D G post db' locks' i p done := by
  unfold ProcSound at h ⊢
  split at h
  · exact h
  · obtain ⟨o, hws, hwp, hholds, hcov, hsn⟩ := h
    exact ⟨o, hws, hwp, hdb _ hcov hholds, hlocks _ hcov, hsn⟩

structure Sound (D : Contract ρ ε) (G : ι → Store ρ → Store ρ → Prop)
    (post : ι → Except ε α → List (Store ρ × Store ρ) → Prop)
    (s : Config ι ρ σ ε α) : Prop where
  inv : D.inv s.db
  exclusive : Exclusive s.locks
  procs : ∀ i, ProcSound D (G i) (post i) s.db s.locks i (s.procs i) (s.ownCommits i)
  allowed : ∀ c ∈ s.commits, G c.proc c.before c.after

section Soundness

variable {D : Contract ρ ε} {G : ι → Store ρ → Store ρ → Prop}
  {post : ι → Except ε α → List (Store ρ × Store ρ) → Prop} {s : Config ι ρ σ ε α} {i : ι}

theorem Sound.of_tx_none (hs : Sound D G post s) (htx : (s.procs i).tx = none) :
    D.wp (G i) (s.procs i).prog (fun r _ done => post i r done) none (s.ownCommits i) := by
  have hproc := hs.procs i
  unfold ProcSound at hproc
  simpa only [htx] using hproc

theorem Sound.of_tx_some (hs : Sound D G post s) {ws : List (Write ρ)}
    (htx : (s.procs i).tx = some ws) :
    ∃ o : D.Open, o.writes = ws ∧
      D.wp (G i) (s.procs i).prog (fun r _ done => post i r done) (some o)
        (s.ownCommits i) ∧
      D.Holds o.frozen s.db ∧ Covers s.locks i o.frozen ∧
      ∀ sn, (s.procs i).snapshot = some sn → ∃ c, Sees o c ∧ sn = o.view c := by
  have hproc := hs.procs i
  unfold ProcSound at hproc
  simpa only [htx] using hproc

theorem Sound.exists_wp (hs : Sound D G post s) (i : ι) :
    ∃ o, D.wp (G i) (s.procs i).prog (fun r _ done => post i r done) o (s.ownCommits i) := by
  cases htx : (s.procs i).tx with
  | none => exact ⟨none, hs.of_tx_none htx⟩
  | some ws =>
      obtain ⟨o, -, hwp, -⟩ := hs.of_tx_some htx
      exact ⟨_, hwp⟩

theorem Sound.post_of_ret (hs : Sound D G post s) {a : α} (h : (s.procs i).prog = .ret a) :
    post i (.ok a) (s.ownCommits i) := by
  obtain ⟨o, hwp⟩ := hs.exists_wp i
  rwa [h] at hwp

theorem Sound.post_of_throw (hs : Sound D G post s) {e : ε}
    (h : (s.procs i).prog = .throw e) : post i (.error e) (s.ownCommits i) := by
  obtain ⟨o, hwp⟩ := hs.exists_wp i
  rwa [h] at hwp

theorem Sound.setProc (hs : Sound D G post s) {p : Proc ρ σ ε α}
    (hp : ProcSound D (G i) (post i) s.db s.locks i p (s.ownCommits i)) :
    Sound D G post (s.setProc i p) := by
  refine ⟨hs.inv, hs.exclusive, fun j => ?_, hs.allowed⟩
  by_cases hj : j = i
  · subst hj
    simpa using hp
  · simpa [hj] using hs.procs j

theorem Sound.abandon (hs : Sound D G post s) {p : Prog ρ σ ε α}
    (hp : D.wp (G i) p (fun r _ done => post i r done) none (s.ownCommits i)) :
    Sound D G post (s.abandon i p) := by
  refine ⟨hs.inv, hs.exclusive.mono (List.filter_subset_self _), fun j => ?_, hs.allowed⟩
  by_cases hj : j = i
  · subst hj
    simpa [ProcSound] using hp
  · simpa [hj] using (hs.procs j).frame (fun _ h => h.release hj) (fun _ _ h => h)

theorem Sound.acquire (hs : Sound D G post s) {k : κ} {m : LockMode}
    (hfree : ∀ l ∈ s.locks, l.proc ≠ i → l.key = k → l.mode.conflicts m = false) :
    Sound D G post (s.acquire i k m) :=
  ⟨hs.inv, hs.exclusive.cons hfree,
    fun j => (hs.procs j).frame (fun _ h => h.mono (List.subset_cons_self _ _)) (fun _ _ h => h),
    hs.allowed⟩

omit [DecidableEq ι] in
/-- A commit leaves the regions that other processes have frozen as they are:
what it changes lies under locks of its own. -/
theorem holds_of_publishable {o : D.Open} {fr' : List (Sigma D.Region)}
    {j : ι} {G : Store ρ → Store ρ → Prop} {c : Store ρ} {locks : List (Lock ι κ)}
    (hexcl : Exclusive locks) (hij : j ≠ i) (hi : Covers locks i o.frozen)
    (hp : D.Publishable G o c) (hj : Covers locks j fr') (hholds : D.Holds fr' c) :
    D.Holds fr' (o.view c) := by
  intro f hf
  rw [← hholds f hf]
  apply hp.unlocked
  rintro ⟨g, hg, hkey⟩
  obtain ⟨l, hl, hlproc, hlkey, hlexcl⟩ := hj f hf
  obtain ⟨l', hl', hlproc', hlkey', hlexcl'⟩ := hi g hg
  have hne : l.proc ≠ l'.proc := by
    rw [hlproc, hlproc']
    exact hij
  have hfree := hexcl l hl l' hl' (by rw [hlkey, hlkey', hkey]) hne
  simp [LockMode.conflicts_of_exclusive hlexcl hlexcl'] at hfree

theorem Sound.publish (hs : Sound D G post s) {o : D.Open} {p : Prog ρ σ ε α}
    (hcov : Covers s.locks i o.frozen) (hpub : D.Publishable (G i) o s.db)
    (hp : D.wp (G i) p (fun r _ done => post i r done) none
      ((s.db, o.view s.db) :: s.ownCommits i)) :
    Sound D G post (s.publish i o.writes p) := by
  refine ⟨hpub.inv, hs.exclusive.mono (List.filter_subset_self _), fun j => ?_, ?_⟩
  · by_cases hj : j = i
    · subst hj
      simpa [ProcSound, Open.view] using hp
    · have hframe := (hs.procs j).frame (fun _ h => h.release hj)
        (fun _ h hf => holds_of_publishable hs.exclusive hj hcov hpub h hf)
      simpa [hj, Open.view] using hframe
  · intro c hc
    rcases List.mem_cons.mp hc with rfl | hc
    · exact hpub.allowed
    · exact hs.allowed c hc

/-- The contract admits the effect of the statement that a process is about to
execute. -/
def Admitted (D : Contract ρ ε) (s : Config ι ρ σ ε α) (i : ι) : Prop :=
  ∀ (β : Type) (st : Statement ρ σ β) next sn, (s.procs i).prog = .exec st next →
    (s.procs i).snapshot = some sn → s.blocked i st.row st.mode = false →
    st.qualifies sn = true → st.qualifies (s.view i) = true →
    D.admits st.row st.mode sn (s.view i)

theorem Sound.execute (hs : Sound D G post s) {st : Statement ρ σ β}
    {next : Except σ β → Prog ρ σ ε α} {ws : List (Write ρ)} {sn : Store ρ}
    (hprog : (s.procs i).prog = .exec st next) (htx : (s.procs i).tx = some ws)
    (hsn : (s.procs i).snapshot = some sn) (ha : Admitted D s i) :
    Sound D G post (s.execute i st next ws sn) := by
  obtain ⟨o, rfl, hwp, hholds, hcov, hsnap⟩ := hs.of_tx_some htx
  rw [hprog] at hwp
  obtain ⟨-, hexec⟩ := hwp
  obtain ⟨c₀, hsees₀, rfl⟩ := hsnap sn hsn
  have hview : s.view i = o.view s.db := by simp [Config.view, htx, Open.view]
  obtain ⟨hmiss, hhit⟩ := hexec c₀ s.db hsees₀ ⟨hs.inv, hholds⟩
  have hskip : st.qualifies (o.view c₀) = false ∨ st.qualifies (o.view s.db) = false →
      Sound D G post (s.setProc i ⟨next (.ok st.miss), some o.writes, none⟩) :=
    fun h => hs.setProc ⟨o, rfl, hmiss h, hholds, hcov, by simp⟩
  have hcases := s.execute_cases i st next o.writes (o.view c₀)
  rw [hview] at hcases
  rcases hcases with ⟨he, hq⟩ | ⟨he, -⟩ | ⟨hq, hfree, hq', ⟨e, hr, he⟩ | ⟨c, b, hr, he⟩⟩ <;> rw [he]
  · exact hskip hq
  · exact hs
  · have hnext := hhit hq hq' (hview ▸ ha β st next _ hprog hsn hfree hq (hview.symm ▸ hq'))
    rw [hr] at hnext
    exact hs.abandon hnext
  · have hnext := hhit hq hq' (hview ▸ ha β st next _ hprog hsn hfree hq (hview.symm ▸ hq'))
    rw [hr] at hnext
    have hacq := hs.acquire (i := i) (k := st.row) (m := st.mode)
      (fun l hl => s.conflicts_eq_false_of_not_blocked i hfree hl)
    have hold : Covers (⟨i, st.row, st.mode⟩ :: s.locks) i o.frozen :=
      hcov.mono (List.subset_cons_self _ _)
    simp only [Open.after] at hnext
    split at hnext
    · rename_i hx
      refine hacq.setProc ⟨_, rfl, hnext, (D.holds_cons _ _ _).mpr ⟨rfl, hholds⟩, ?_, by simp⟩
      intro f hf
      rcases List.mem_cons.mp hf with rfl | hf
      · exact ⟨_, List.mem_cons_self, rfl, rfl, hx⟩
      · exact hold f hf
    · rename_i hx
      -- a shared lock writes nothing, so the pending changes stay as they are
      obtain rfl := st.keep_of_shared (by simpa using hx) _ _ _ _ hr
      exact hacq.setProc ⟨o, by simp [Change.writes], hnext, hholds, hold, by simp⟩

theorem Sound.query (hs : Sound D G post s) {f : Store ρ → β} {next : β → Prog ρ σ ε α}
    (hprog : (s.procs i).prog = .query f next) :
    Sound D G post (s.setProc i ⟨next (f (s.view i)), (s.procs i).tx, none⟩) := by
  apply hs.setProc
  cases htx : (s.procs i).tx with
  | none =>
      have hwp := hs.of_tx_none htx
      rw [hprog] at hwp
      simpa [ProcSound, Config.view, htx] using hwp.2 s.db (sees_empty.mpr hs.inv)
  | some ws =>
      obtain ⟨o, rfl, hwp, hholds, hcov, -⟩ := hs.of_tx_some htx
      rw [hprog] at hwp
      have hnext := hwp.2 s.db ⟨hs.inv, hholds⟩
      have hview : s.view i = o.view s.db := by simp [Config.view, htx, Open.view]
      exact ⟨o, rfl, hview ▸ hnext, hholds, hcov, by simp⟩

theorem Sound.takeFresh (hs : Sound D G post s) {key : Nat → κ} {next : Nat → Prog ρ σ ε α}
    {ws : List (Write ρ)} {fresh : Nat} (hprog : (s.procs i).prog = .alloc key next)
    (htx : (s.procs i).tx = some ws) (hnone : s.db.lookup (key fresh) = none)
    (hunlocked : ∀ l ∈ s.locks, l.key ≠ key fresh) :
    Sound D G post
      ((s.acquire i (key fresh) .update).setProc i ⟨next fresh, some ws, none⟩) := by
  obtain ⟨o, hws, hwp, hholds, hcov, -⟩ := hs.of_tx_some htx
  rw [hprog] at hwp
  have hne : ¬ o.Locks (key fresh) := by
    rintro ⟨f, hf, hkey⟩
    obtain ⟨l, hl, -, hkey', -⟩ := hcov f hf
    exact hunlocked l hl (hkey'.trans hkey)
  have hnext := hwp.2 s.db fresh ⟨hs.inv, hholds⟩ hnone hne
  have hacq := hs.acquire (i := i) (k := key fresh) (m := .update)
    (fun l hl _ hkey => absurd hkey (hunlocked l hl))
  refine hacq.setProc ⟨_, by simpa [Open.lock, Change.writes] using hws, hnext,
    (D.holds_cons _ _ _).mpr ⟨rfl, hholds⟩, ?_, by simp⟩
  intro f hf
  rcases List.mem_cons.mp hf with rfl | hf
  · exact ⟨_, List.mem_cons_self, rfl, rfl, rfl⟩
  · exact hcov.mono (List.subset_cons_self _ _) f hf

theorem Sound.advance (hs : Sound D G post s) (ha : Admitted D s i) (fresh : Nat) :
    Sound D G post (s.advance i fresh) := by
  unfold Config.advance
  split
  · exact hs.abandon (hs.post_of_ret ‹_›)
  · exact hs.abandon (hs.post_of_throw ‹_›)
  · exact hs.query ‹_›
  · rename_i hprog htx
    have hwp := hs.of_tx_none htx
    rw [hprog] at hwp
    exact hs.setProc ⟨{}, rfl, hwp.2.2, by simp, by simp [Covers], by simp⟩
  · exact hs
  · rename_i hprog htx
    obtain ⟨o, rfl, hwp, hholds, hcov, -⟩ := hs.of_tx_some htx
    rw [hprog] at hwp
    obtain ⟨hpub, hnext⟩ := hwp.2 s.db ⟨hs.inv, hholds⟩
    exact hs.publish hcov hpub hnext
  · exact hs
  · rename_i hprog htx
    obtain ⟨o, -, hwp, -⟩ := hs.of_tx_some htx
    rw [hprog] at hwp
    exact hs.abandon hwp.2.2
  · exact hs
  · rename_i hprog htx
    split
    · rename_i hfree
      exact hs.takeFresh hprog htx (by simpa using hfree.1) (by simpa using hfree.2)
    · exact hs
  · exact hs
  · rename_i hprog htx
    split
    · obtain ⟨o, rfl, hwp, hholds, hcov, -⟩ := hs.of_tx_some htx
      rw [hprog] at hwp
      refine hs.setProc ⟨o, rfl, hwp, hholds, hcov, ?_⟩
      intro sn hsn
      refine ⟨s.db, ⟨hs.inv, hholds⟩, ?_⟩
      simpa [Config.view, htx, Open.view] using hsn.symm
    · exact hs.execute hprog htx ‹_› ha
  · exact hs

/-- The step lemma: a step of any process, failing or not, keeps the system
sound. -/
theorem Sound.step (hs : Sound D G post s) {c : Choice ι}
    (ha : c.action ≠ .fail → Admitted D s c.proc) : Sound D G post (step D.fault s c) := by
  rcases step_cases D.fault s c with ⟨fresh, hc, he⟩ | he | ⟨hret, hthrow, he⟩ <;> rw [he]
  · exact hs.advance (ha (by simp [hc])) fresh
  · exact hs
  · obtain ⟨o, hwp⟩ := hs.exists_wp c.proc
    exact hs.abandon (fault_of_wp hwp hret hthrow)

def AdmittedRun (D : Contract ρ ε) : Config ι ρ σ ε α → List (Choice ι) → Prop
  | _, [] => True
  | s, c :: cs =>
      (c.action ≠ .fail → Admitted D s c.proc) ∧
        AdmittedRun D (ReadCommitted.step D.fault s c) cs

theorem admitted_of_forall (h : ∀ k m sn cur, D.admits k m sn cur) (s : Config ι ρ σ ε α)
    (i : ι) : Admitted D s i :=
  fun _ _ _ _ _ _ _ _ _ => h _ _ _ _

theorem admittedRun_of_forall (h : ∀ k m sn cur, D.admits k m sn cur)
    (s : Config ι ρ σ ε α) (cs : List (Choice ι)) : AdmittedRun D s cs := by
  induction cs generalizing s with
  | nil => trivial
  | cons c cs ih => exact ⟨fun _ => admitted_of_forall h s c.proc, ih _⟩

theorem AdmittedRun.append {cs ds : List (Choice ι)} (h : AdmittedRun D s cs)
    (h' : AdmittedRun D (ReadCommitted.run D.fault s cs) ds) : AdmittedRun D s (cs ++ ds) := by
  induction cs generalizing s with
  | nil => exact h'
  | cons c cs ih => exact ⟨h.1, ih h.2 h'⟩

/-- The snapshot that a process may hold is what it reads now. -/
def UpToDate (s : Config ι ρ σ ε α) (i : ι) : Prop :=
  ∀ sn, (s.procs i).snapshot = some sn → sn = s.view i

omit [DecidableEq ι] in
theorem upToDate_of_none (h : (s.procs i).snapshot = none) : UpToDate s i := by
  intro sn hsn
  rw [h] at hsn
  cases hsn

theorem UpToDate.execute (h : UpToDate s i) (st : Statement ρ σ β)
    (next : Except σ β → Prog ρ σ ε α) (ws : List (Write ρ)) (sn : Store ρ) :
    UpToDate (s.execute i st next ws sn) i := by
  rcases s.execute_cases i st next ws sn with
    ⟨he, -⟩ | ⟨he, -⟩ | ⟨-, -, -, ⟨e, -, he⟩ | ⟨c, b, -, he⟩⟩ <;> rw [he]
  · exact upToDate_of_none (by simp)
  · exact h
  · exact upToDate_of_none (by simp)
  · exact upToDate_of_none (by simp)

theorem UpToDate.advance (h : UpToDate s i) (fresh : Nat) : UpToDate (s.advance i fresh) i := by
  unfold Config.advance
  split
  case h_5 | h_7 | h_9 | h_11 | h_13 => exact h
  case h_10 =>
    split
    · exact upToDate_of_none (by simp)
    · exact h
  case h_12 hprog htx =>
    split
    · intro sn hsn
      simp only [setProc_procs_self, Option.some.injEq] at hsn
      rw [← hsn, Config.view, Config.view, setProc_procs_self, setProc_db, htx]
    · exact h.execute _ _ _ _
  all_goals exact upToDate_of_none (by simp)

theorem UpToDate.step (h : UpToDate s i) (fault : ε) (a : Action) :
    UpToDate (ReadCommitted.step fault s ⟨i, a⟩) i := by
  rcases step_cases fault s ⟨i, a⟩ with ⟨fresh, -, he⟩ | he | ⟨-, -, he⟩ <;> rw [he]
  · exact h.advance fresh
  · exact h
  · exact upToDate_of_none (by simp)

theorem admittedRun_alone (hD : ∀ k m cur, D.admits k m cur cur) (h : UpToDate s i)
    (as : List Action) : AdmittedRun D s (as.map (Choice.mk i)) := by
  induction as generalizing s with
  | nil => trivial
  | cons a as ih =>
      refine ⟨fun _ β st next sn _ hsn _ _ _ => ?_, ih (h.step _ a)⟩
      rw [h sn hsn]
      exact hD _ _ _

theorem Sound.run (hs : Sound D G post s) {cs : List (Choice ι)}
    (ha : AdmittedRun D s cs) : Sound D G post (run D.fault s cs) := by
  induction cs generalizing s with
  | nil => exact hs
  | cons c cs ih => exact ih (hs.step ha.1) ha.2

theorem sound_start {db : Store ρ} {progs : ι → Prog ρ σ ε α} (hinv : D.inv db)
    (h : ∀ i, D.wp (G i) (progs i) (fun r _ done => post i r done) none []) :
    Sound D G post (start db progs) :=
  ⟨hinv, by simp [start, Exclusive], h, by simp [start]⟩

end Soundness

-- from here on, programs are verified by the rules only
attribute [irreducible] wp

end Contract

end PersonalDashboard.TransactionLogic
