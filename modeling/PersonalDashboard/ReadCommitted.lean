import PersonalDashboard.RowStore

/-! Transactions of many processes over one row store, at the isolation level
READ COMMITTED: every statement reads a snapshot taken when it starts, waits for
the lock of the row it addresses, and then re-reads that row's latest version. -/

set_option autoImplicit false

namespace PersonalDashboard.ReadCommitted

open PersonalDashboard.RowStore

/-- The row lock modes, from the weakest to the strongest. -/
inductive LockMode where
  | keyShare
  | share
  | noKeyUpdate
  | update
  deriving DecidableEq, Repr

namespace LockMode

def strength : LockMode → Nat
  | keyShare => 0
  | share => 1
  | noKeyUpdate => 2
  | update => 3

/-- Two modes conflict unless their strengths leave room for both: a key share
lock excludes only an update, a share lock excludes every writer. -/
def conflicts (m m' : LockMode) : Bool :=
  3 ≤ m.strength + m'.strength

/-- The modes that at most one process holds on a row. -/
def exclusive (m : LockMode) : Bool :=
  2 ≤ m.strength

theorem conflicts_comm (m m' : LockMode) : m.conflicts m' = m'.conflicts m := by
  cases m <;> cases m' <;> rfl

theorem conflicts_of_exclusive {m m' : LockMode} (h : m.exclusive) (h' : m'.exclusive) :
    m.conflicts m' := by
  cases m <;> cases m' <;> simp_all [exclusive, conflicts, strength]

theorem conflicts_of_strength_le {m m' l : LockMode} (h : m.strength ≤ m'.strength)
    (hc : m.conflicts l) : m'.conflicts l := by
  simp only [conflicts, decide_eq_true_eq] at hc ⊢
  omega

/-- The conflict table of the row locks. -/
example :
    ([keyShare, share, noKeyUpdate, update].map fun m =>
      [keyShare, share, noKeyUpdate, update].map m.conflicts) =
      [[false, false, false, true], [false, false, true, true],
        [false, true, true, true], [true, true, true, true]] := by
  decide

end LockMode

theorem exclusive_noKeyUpdate : LockMode.noKeyUpdate.exclusive :=
  rfl

theorem exclusive_update : LockMode.update.exclusive :=
  rfl

variable {κ : Type} (ρ : κ → Type)

inductive Change (ρ : κ → Type) (k : κ) where
  | keep
  | set (row : ρ k)
  | remove

namespace Change

variable {ρ} {k : κ}

def writes : Change ρ k → List (Write ρ)
  | keep => []
  | set r => [⟨k, some r⟩]
  | remove => [⟨k, none⟩]

theorem key_of_mem_writes {c : Change ρ k} {w : Write ρ} (h : w ∈ c.writes) : w.key = k := by
  cases c <;> simp_all [writes]

def apply [DecidableEq κ] (c : Change ρ k) (s : Store ρ) : Store ρ :=
  applyAll s c.writes

end Change

/-- One statement on one row. `qualifies` is its WHERE clause, read first in
the statement's snapshot and again in the latest version once the row is locked;
`hit` computes its effect from the snapshot and the latest version, and may fail
with an SQL error of type `σ`. -/
structure Statement (σ β : Type) where
  row : κ
  mode : LockMode
  qualifies : Store ρ → Bool
  miss : β
  hit : Store ρ → Store ρ → Except σ (Change ρ row × β)
  /-- A row is only written under an exclusive lock. -/
  keep_of_shared : mode.exclusive = false →
    ∀ sn cur c b, hit sn cur = .ok (c, b) → c = .keep

/-- A request handler: queries, transaction brackets, fresh keys and
statements, ending with an answer or an error of type `ε`. -/
inductive Prog (σ ε α : Type) : Type 1 where
  | ret (a : α)
  | throw (e : ε)
  | query {β : Type} (f : Store ρ → β) (next : β → Prog σ ε α)
  | begin (next : Prog σ ε α)
  | commit (next : Prog σ ε α)
  | rollback (next : Prog σ ε α)
  | alloc (key : Nat → κ) (next : Nat → Prog σ ε α)
  | exec {β : Type} (st : Statement ρ σ β) (next : Except σ β → Prog σ ε α)

variable {ρ} {σ ε α β : Type}

namespace Prog

def bind : Prog ρ σ ε α → (α → Prog ρ σ ε β) → Prog ρ σ ε β
  | ret a, f => f a
  | throw e, _ => throw e
  | query q next, f => query q fun b => (next b).bind f
  | begin next, f => begin (next.bind f)
  | commit next, f => commit (next.bind f)
  | rollback next, f => rollback (next.bind f)
  | alloc key next, f => alloc key fun n => (next n).bind f
  | exec st next, f => exec st fun r => (next r).bind f

instance : Monad (Prog ρ σ ε) where
  pure := ret
  bind := bind

@[simp]
theorem pure_eq (a : α) : (pure a : Prog ρ σ ε α) = ret a :=
  rfl

@[simp]
theorem bind_eq (p : Prog ρ σ ε α) (f : α → Prog ρ σ ε β) : p >>= f = p.bind f :=
  rfl

@[simp]
theorem ret_bind (a : α) (f : α → Prog ρ σ ε β) : (ret a).bind f = f a :=
  rfl

theorem bind_assoc {γ : Type} (p : Prog ρ σ ε α) (f : α → Prog ρ σ ε β)
    (g : β → Prog ρ σ ε γ) : (p.bind f).bind g = p.bind fun a => (f a).bind g := by
  induction p with
  | ret a => rfl
  | throw e => rfl
  | query q next ih => exact congrArg _ (funext ih)
  | begin next ih => exact congrArg _ ih
  | commit next ih => exact congrArg _ ih
  | rollback next ih => exact congrArg _ ih
  | alloc key next ih => exact congrArg _ (funext ih)
  | exec st next ih => exact congrArg _ (funext ih)

@[simp]
theorem map_eq (f : α → β) (p : Prog ρ σ ε α) : f <$> p = p.bind fun a => ret (f a) :=
  rfl

end Prog

def select (f : Store ρ → β) : Prog ρ σ ε β :=
  .query f .ret

def beginTx : Prog ρ σ ε Unit :=
  .begin (.ret ())

def commitTx : Prog ρ σ ε Unit :=
  .commit (.ret ())

def rollbackTx : Prog ρ σ ε Unit :=
  .rollback (.ret ())

/-- A key that no stored row and no running transaction uses. -/
def freshId (key : Nat → κ) : Prog ρ σ ε Nat :=
  .alloc key .ret

/-- Run a statement; an SQL error reaches the caller as an error of its own. -/
def execSql (toErr : σ → ε) (st : Statement ρ σ β) : Prog ρ σ ε β :=
  .exec st fun
    | .ok b => .ret b
    | .error e => .throw (toErr e)

def failIf (c : Bool) (e : ε) : Prog ρ σ ε Unit :=
  if c then .throw e else .ret ()

def whenever (c : Prop) [Decidable c] (p : Prog ρ σ ε Unit) : Prog ρ σ ε Unit :=
  if c then p else .ret ()

def ofExcept : Except ε α → Prog ρ σ ε α
  | .ok a => .ret a
  | .error e => .throw e

def ofOption (e : ε) : Option α → Prog ρ σ ε α
  | some a => .ret a
  | none => .throw e

def fetchOr (toErr : σ → ε) (e : ε) (st : Statement ρ σ (Option β)) : Prog ρ σ ε β :=
  (execSql toErr st).bind (ofOption e)

def Prog.Throws (P : ε → Prop) : Prog ρ σ ε α → Prop
  | .ret _ => True
  | .throw e => P e
  | .query _ next => ∀ b, (next b).Throws P
  | .begin next | .commit next | .rollback next => next.Throws P
  | .alloc _ next => ∀ n, (next n).Throws P
  | .exec _ next => ∀ r, (next r).Throws P

theorem Prog.Throws.bind {P : ε → Prop} {p : Prog ρ σ ε α} {f : α → Prog ρ σ ε β}
    (hp : p.Throws P) (hf : ∀ a, (f a).Throws P) : (p.bind f).Throws P := by
  induction p with
  | ret a => exact hf a
  | throw e => exact hp
  | query q next ih => exact fun b => ih b (hp b)
  | begin next ih => exact ih hp
  | commit next ih => exact ih hp
  | rollback next ih => exact ih hp
  | alloc key next ih => exact fun n => ih n (hp n)
  | exec st next ih => exact fun r => ih r (hp r)

section Throwing

variable {P : ε → Prop}

theorem throws_beginTx : (beginTx : Prog ρ σ ε Unit).Throws P :=
  trivial

theorem throws_commitTx : (commitTx : Prog ρ σ ε Unit).Throws P :=
  trivial

theorem throws_freshId (key : Nat → κ) : (freshId key : Prog ρ σ ε Nat).Throws P :=
  fun _ => trivial

theorem throws_failIf (c : Bool) {e : ε} (he : P e) :
    (failIf c e : Prog ρ σ ε Unit).Throws P := by
  cases c with
  | true => exact he
  | false => trivial

theorem throws_ofOption {e : ε} (he : P e) (a : Option α) :
    (ofOption e a : Prog ρ σ ε α).Throws P := by
  cases a with
  | none => exact he
  | some a => trivial

theorem throws_execSql {toErr : σ → ε} (herr : ∀ e, P (toErr e)) (st : Statement ρ σ β) :
    (execSql toErr st).Throws P := by
  intro r
  cases r with
  | ok b => trivial
  | error e => exact herr e

theorem throws_fetchOr {toErr : σ → ε} (herr : ∀ e, P (toErr e)) {e : ε} (he : P e)
    (st : Statement ρ σ (Option β)) : (fetchOr toErr e st).Throws P :=
  (throws_execSql herr st).bind (throws_ofOption he)

end Throwing

/-- A process: what is left of its program, the pending changes of its open
transaction, and the snapshot of the statement it is executing. -/
structure Proc (ρ : κ → Type) (σ ε α : Type) where
  prog : Prog ρ σ ε α
  tx : Option (List (Write ρ)) := none
  snapshot : Option (Store ρ) := none

structure Lock (ι κ : Type) where
  proc : ι
  key : κ
  mode : LockMode

/-- Locks of different processes on one row never conflict. -/
def Exclusive {ι : Type} (locks : List (Lock ι κ)) : Prop :=
  ∀ l ∈ locks, ∀ l' ∈ locks, l.key = l'.key → l.proc ≠ l'.proc →
    l.mode.conflicts l'.mode = false

theorem Exclusive.mono {ι : Type} {locks locks' : List (Lock ι κ)} (h : Exclusive locks)
    (hsub : locks' ⊆ locks) : Exclusive locks' :=
  fun l hl l' hl' => h l (hsub hl) l' (hsub hl')

theorem Exclusive.cons {ι : Type} {locks : List (Lock ι κ)} (h : Exclusive locks) {i : ι}
    {k : κ} {m : LockMode}
    (hfree : ∀ l ∈ locks, l.proc ≠ i → l.key = k → l.mode.conflicts m = false) :
    Exclusive (⟨i, k, m⟩ :: locks) := by
  intro l hl l' hl' hkey hproc
  rcases List.mem_cons.mp hl with rfl | hl <;> rcases List.mem_cons.mp hl' with rfl | hl'
  · exact absurd rfl hproc
  · rw [LockMode.conflicts_comm]
    exact hfree l' hl' (Ne.symm hproc) hkey.symm
  · exact hfree l hl hproc hkey
  · exact h l hl l' hl' hkey hproc

/-- One commit: who made it, and the committed store before and after it. -/
structure Commit (ι : Type) (ρ : κ → Type) where
  proc : ι
  before : Store ρ
  after : Store ρ

/-- The committed store, the lock table, the processes, and the commits so
far, the newest first. -/
structure Config (ι : Type) (ρ : κ → Type) (σ ε α : Type) where
  db : Store ρ
  locks : List (Lock ι κ) := []
  procs : ι → Proc ρ σ ε α
  commits : List (Commit ι ρ) := []

/-- The scheduler either lets a process take its next step, offering it a
number for a fresh key, or makes that step fail. -/
inductive Action where
  | advance (fresh : Nat)
  | fail

structure Choice (ι : Type) where
  proc : ι
  action : Action

variable {ι : Type}

def start (db : Store ρ) (progs : ι → Prog ρ σ ε α) : Config ι ρ σ ε α where
  db := db
  procs i := { prog := progs i }

/-- The commits lead from one store to another, each from where the one before
it ended. -/
def Chained (db₀ : Store ρ) : List (Commit ι ρ) → Store ρ → Prop
  | [], db => db = db₀
  | c :: cs, db => c.after = db ∧ Chained db₀ cs c.before

theorem chained_start (db : Store ρ) (progs : ι → Prog ρ σ ε α) :
    Chained db (start db progs).commits (start db progs).db :=
  rfl

namespace Config

def acquire (s : Config ι ρ σ ε α) (i : ι) (k : κ) (m : LockMode) : Config ι ρ σ ε α :=
  { s with locks := ⟨i, k, m⟩ :: s.locks }

section Acquire

variable (s : Config ι ρ σ ε α) (i : ι)

@[simp] theorem acquire_db (k : κ) (m : LockMode) : (s.acquire i k m).db = s.db := rfl

@[simp]
theorem acquire_locks (k : κ) (m : LockMode) :
    (s.acquire i k m).locks = ⟨i, k, m⟩ :: s.locks :=
  rfl

@[simp]
theorem acquire_commits (k : κ) (m : LockMode) : (s.acquire i k m).commits = s.commits :=
  rfl

@[simp] theorem acquire_procs (k : κ) (m : LockMode) : (s.acquire i k m).procs = s.procs := rfl

end Acquire

variable [DecidableEq ι]

def setProc (s : Config ι ρ σ ε α) (i : ι) (p : Proc ρ σ ε α) : Config ι ρ σ ε α :=
  { s with procs := Function.update s.procs i p }

def release (s : Config ι ρ σ ε α) (i : ι) : Config ι ρ σ ε α :=
  { s with locks := s.locks.filter fun l => l.proc ≠ i }

/-- The committed stores around every commit of one process. -/
def ownCommits (s : Config ι ρ σ ε α) (i : ι) : List (Store ρ × Store ρ) :=
  (s.commits.filter fun c => c.proc = i).map fun c => (c.before, c.after)

/-- Leave the open transaction, dropping its changes and its locks, and go on
with the given program. -/
def abandon (s : Config ι ρ σ ε α) (i : ι) (p : Prog ρ σ ε α) : Config ι ρ σ ε α :=
  (s.release i).setProc i ⟨p, none, none⟩

section Operations

variable (s : Config ι ρ σ ε α) (i : ι)

@[simp] theorem setProc_db (p : Proc ρ σ ε α) : (s.setProc i p).db = s.db := rfl
@[simp] theorem setProc_locks (p : Proc ρ σ ε α) : (s.setProc i p).locks = s.locks := rfl
@[simp] theorem setProc_commits (p : Proc ρ σ ε α) : (s.setProc i p).commits = s.commits := rfl

@[simp]
theorem setProc_procs_self (p : Proc ρ σ ε α) : (s.setProc i p).procs i = p := by
  simp [setProc]

@[simp]
theorem setProc_procs_of_ne {j : ι} (h : j ≠ i) (p : Proc ρ σ ε α) :
    (s.setProc i p).procs j = s.procs j := by
  simp [setProc, h]

@[simp]
theorem setProc_ownCommits (p : Proc ρ σ ε α) (j : ι) :
    (s.setProc i p).ownCommits j = s.ownCommits j :=
  rfl

@[simp]
theorem acquire_ownCommits (k : κ) (m : LockMode) (j : ι) :
    (s.acquire i k m).ownCommits j = s.ownCommits j :=
  rfl

@[simp] theorem abandon_db (p : Prog ρ σ ε α) : (s.abandon i p).db = s.db := rfl
@[simp] theorem abandon_commits (p : Prog ρ σ ε α) : (s.abandon i p).commits = s.commits := rfl

@[simp]
theorem abandon_locks (p : Prog ρ σ ε α) :
    (s.abandon i p).locks = s.locks.filter fun l => l.proc ≠ i :=
  rfl

@[simp]
theorem abandon_procs_self (p : Prog ρ σ ε α) : (s.abandon i p).procs i = ⟨p, none, none⟩ :=
  (s.release i).setProc_procs_self i _

@[simp]
theorem abandon_procs_of_ne {j : ι} (h : j ≠ i) (p : Prog ρ σ ε α) :
    (s.abandon i p).procs j = s.procs j :=
  (s.release i).setProc_procs_of_ne i h _

@[simp]
theorem abandon_ownCommits (p : Prog ρ σ ε α) (j : ι) :
    (s.abandon i p).ownCommits j = s.ownCommits j :=
  rfl

theorem exists_commit_of_mem_ownCommits {p : Store ρ × Store ρ} (h : p ∈ s.ownCommits i) :
    ∃ c ∈ s.commits, c.proc = i ∧ (c.before, c.after) = p := by
  obtain ⟨c, hc, hp⟩ := List.mem_map.mp h
  obtain ⟨hmem, hproc⟩ := List.mem_filter.mp hc
  exact ⟨c, hmem, by simpa using hproc, hp⟩

end Operations

variable [DecidableEq κ]

/-- What a process reads now: the committed store under its own changes. -/
def view (s : Config ι ρ σ ε α) (i : ι) : Store ρ :=
  applyAll s.db ((s.procs i).tx.getD [])

def blocked (s : Config ι ρ σ ε α) (i : ι) (k : κ) (m : LockMode) : Bool :=
  s.locks.any fun l => l.proc ≠ i && l.key = k && l.mode.conflicts m

/-- Publish the pending changes of a process and release its locks. -/
def publish (s : Config ι ρ σ ε α) (i : ι) (ws : List (Write ρ)) (p : Prog ρ σ ε α) :
    Config ι ρ σ ε α :=
  { s.abandon i p with
    db := applyAll s.db ws
    commits := ⟨i, s.db, applyAll s.db ws⟩ :: s.commits }

section Publish

variable (s : Config ι ρ σ ε α) (i : ι) (ws : List (Write ρ)) (p : Prog ρ σ ε α)

@[simp] theorem publish_db : (s.publish i ws p).db = applyAll s.db ws := rfl

@[simp]
theorem publish_commits :
    (s.publish i ws p).commits = ⟨i, s.db, applyAll s.db ws⟩ :: s.commits :=
  rfl

@[simp]
theorem publish_locks :
    (s.publish i ws p).locks = s.locks.filter fun l => l.proc ≠ i :=
  rfl

@[simp]
theorem publish_procs_self : (s.publish i ws p).procs i = ⟨p, none, none⟩ :=
  s.abandon_procs_self i p

@[simp]
theorem publish_procs_of_ne {j : ι} (h : j ≠ i) :
    (s.publish i ws p).procs j = s.procs j :=
  s.abandon_procs_of_ne i h p

@[simp]
theorem publish_ownCommits_self :
    (s.publish i ws p).ownCommits i = (s.db, applyAll s.db ws) :: s.ownCommits i := by
  simp [ownCommits]

@[simp]
theorem publish_ownCommits_of_ne {j : ι} (h : j ≠ i) :
    (s.publish i ws p).ownCommits j = s.ownCommits j := by
  simp [ownCommits, Ne.symm h]

theorem conflicts_eq_false_of_not_blocked {k : κ} {m : LockMode} (h : s.blocked i k m = false)
    {l : Lock ι κ} (hl : l ∈ s.locks) (hproc : l.proc ≠ i) (hkey : l.key = k) :
    l.mode.conflicts m = false := by
  simp only [blocked, List.any_eq_false] at h
  simpa [hproc, hkey] using h l hl

end Publish

/-- The effect of a statement whose snapshot has been taken. A statement that
finds no row, then or after the wait, takes no lock; one whose row is locked by
another process waits; an SQL error rolls the transaction back. -/
def execute (s : Config ι ρ σ ε α) (i : ι) (st : Statement ρ σ β)
    (next : Except σ β → Prog ρ σ ε α) (ws : List (Write ρ)) (sn : Store ρ) :
    Config ι ρ σ ε α :=
  if st.qualifies sn = false then
    s.setProc i ⟨next (.ok st.miss), some ws, none⟩
  else if s.blocked i st.row st.mode then s
  else if st.qualifies (s.view i) = false then
    s.setProc i ⟨next (.ok st.miss), some ws, none⟩
  else
    match st.hit sn (s.view i) with
    | .error e => s.abandon i (next (.error e))
    | .ok (c, b) =>
        (s.acquire i st.row st.mode).setProc i ⟨next (.ok b), some (ws ++ c.writes), none⟩

theorem execute_cases (s : Config ι ρ σ ε α) (i : ι) (st : Statement ρ σ β)
    (next : Except σ β → Prog ρ σ ε α) (ws : List (Write ρ)) (sn : Store ρ) :
    (s.execute i st next ws sn = s.setProc i ⟨next (.ok st.miss), some ws, none⟩ ∧
      (st.qualifies sn = false ∨ st.qualifies (s.view i) = false)) ∨
    (s.execute i st next ws sn = s ∧ s.blocked i st.row st.mode = true) ∨
    (st.qualifies sn = true ∧ s.blocked i st.row st.mode = false ∧
      st.qualifies (s.view i) = true ∧
      ((∃ e, st.hit sn (s.view i) = .error e ∧
        s.execute i st next ws sn = s.abandon i (next (.error e))) ∨
      ∃ c b, st.hit sn (s.view i) = .ok (c, b) ∧
        s.execute i st next ws sn =
          (s.acquire i st.row st.mode).setProc i ⟨next (.ok b), some (ws ++ c.writes), none⟩)) := by
  unfold execute
  split
  · exact Or.inl ⟨rfl, Or.inl ‹_›⟩
  split
  · exact Or.inr (Or.inl ⟨rfl, ‹_›⟩)
  split
  · exact Or.inl ⟨rfl, Or.inr ‹_›⟩
  rename_i hq hfree hq'
  refine Or.inr (Or.inr ⟨by simpa using hq, by simpa using hfree, by simpa using hq', ?_⟩)
  split
  · exact Or.inl ⟨_, ‹_›, rfl⟩
  · exact Or.inr ⟨_, _, ‹_›, rfl⟩

/-- The next step of one process. A step that is not enabled changes nothing.
A finished process drops the transaction it left open. -/
def advance (s : Config ι ρ σ ε α) (i : ι) (fresh : Nat) : Config ι ρ σ ε α :=
  match (s.procs i).prog, (s.procs i).tx with
  | .ret a, _ => s.abandon i (.ret a)
  | .throw e, _ => s.abandon i (.throw e)
  | .query f next, tx => s.setProc i ⟨next (f (s.view i)), tx, none⟩
  | .begin next, none => s.setProc i ⟨next, some [], none⟩
  | .begin _, some _ => s
  | .commit next, some ws => s.publish i ws next
  | .commit _, none => s
  | .rollback next, some _ => s.abandon i next
  | .rollback _, none => s
  | .alloc key next, some ws =>
      if (s.db.lookup (key fresh)).isNone ∧ s.locks.all fun l => l.key ≠ key fresh then
        (s.acquire i (key fresh) .update).setProc i ⟨next fresh, some ws, none⟩
      else s
  | .alloc _ _, none => s
  | .exec st next, some ws =>
      match (s.procs i).snapshot with
      | none => s.setProc i ⟨.exec st next, some ws, some (s.view i)⟩
      | some sn => s.execute i st next ws sn
  | .exec _ _, none => s

end Config

variable [DecidableEq κ] [DecidableEq ι]

/-- One step of the system. A failing step (a lost connection, a timeout) ends
a running process with the error `fault` and rolls back its transaction. -/
def step (fault : ε) (s : Config ι ρ σ ε α) (c : Choice ι) : Config ι ρ σ ε α :=
  match c.action with
  | .advance fresh => s.advance c.proc fresh
  | .fail =>
      match (s.procs c.proc).prog with
      | .ret _ | .throw _ => s
      | _ => s.abandon c.proc (.throw fault)

/-- A step is the next step of a process, or ends a running process. -/
theorem step_cases (fault : ε) (s : Config ι ρ σ ε α) (c : Choice ι) :
    (∃ fresh, c.action = .advance fresh ∧ step fault s c = s.advance c.proc fresh) ∨
    step fault s c = s ∨
    ((∀ a, (s.procs c.proc).prog ≠ .ret a) ∧ (∀ e, (s.procs c.proc).prog ≠ .throw e) ∧
      step fault s c = s.abandon c.proc (.throw fault)) := by
  unfold step
  split
  · exact Or.inl ⟨_, ‹_›, rfl⟩
  split
  · exact Or.inr (Or.inl rfl)
  · exact Or.inr (Or.inl rfl)
  · exact Or.inr (Or.inr ⟨‹_›, ‹_›, rfl⟩)

def run (fault : ε) (s : Config ι ρ σ ε α) (cs : List (Choice ι)) : Config ι ρ σ ε α :=
  cs.foldl (step fault) s

@[simp]
theorem run_nil (fault : ε) (s : Config ι ρ σ ε α) : run fault s [] = s :=
  rfl

@[simp]
theorem run_cons (fault : ε) (s : Config ι ρ σ ε α) (c : Choice ι) (cs : List (Choice ι)) :
    run fault s (c :: cs) = run fault (step fault s c) cs :=
  rfl

theorem run_append (fault : ε) (s : Config ι ρ σ ε α) (cs ds : List (Choice ι)) :
    run fault s (cs ++ ds) = run fault (run fault s cs) ds := by
  simp [run]

def Grows (s s' : Config ι ρ σ ε α) (i : ι) : Prop :=
  (s'.db = s.db ∧ s'.commits = s.commits) ∨ s'.commits = ⟨i, s.db, s'.db⟩ :: s.commits

theorem grows_execute (s : Config ι ρ σ ε α) (i : ι) (st : Statement ρ σ β)
    (next : Except σ β → Prog ρ σ ε α) (ws : List (Write ρ)) (sn : Store ρ) :
    Grows s (s.execute i st next ws sn) i := by
  rcases s.execute_cases i st next ws sn with
    ⟨h, -⟩ | ⟨h, -⟩ | ⟨-, -, -, ⟨e, -, h⟩ | ⟨c, b, -, h⟩⟩
  all_goals
    rw [h]
    exact Or.inl ⟨rfl, rfl⟩

theorem grows_advance (s : Config ι ρ σ ε α) (i : ι) (fresh : Nat) :
    Grows s (s.advance i fresh) i := by
  unfold Config.advance
  split
  case h_6 => exact Or.inr rfl
  case h_10 =>
    split
    · exact Or.inl ⟨rfl, rfl⟩
    · exact Or.inl ⟨rfl, rfl⟩
  case h_12 =>
    split
    · exact Or.inl ⟨rfl, rfl⟩
    · exact grows_execute s i _ _ _ _
  all_goals exact Or.inl ⟨rfl, rfl⟩

theorem grows_step (fault : ε) (s : Config ι ρ σ ε α) (c : Choice ι) :
    Grows s (step fault s c) c.proc := by
  rcases step_cases fault s c with ⟨fresh, -, h⟩ | h | ⟨-, -, h⟩ <;> rw [h]
  · exact grows_advance s c.proc fresh
  · exact Or.inl ⟨rfl, rfl⟩
  · exact Or.inl ⟨rfl, rfl⟩

theorem chained_step {db₀ : Store ρ} {s : Config ι ρ σ ε α} (h : Chained db₀ s.commits s.db)
    (fault : ε) (c : Choice ι) :
    Chained db₀ (step fault s c).commits (step fault s c).db := by
  rcases grows_step fault s c with ⟨hdb, hcommits⟩ | hcommits
  · rwa [hdb, hcommits]
  · rw [hcommits]
    exact ⟨rfl, h⟩

theorem chained_run {db₀ : Store ρ} {s : Config ι ρ σ ε α} (h : Chained db₀ s.commits s.db)
    (fault : ε) (cs : List (Choice ι)) :
    Chained db₀ (run fault s cs).commits (run fault s cs).db := by
  induction cs generalizing s with
  | nil => exact h
  | cons c cs ih => exact ih (chained_step h fault c)

section Throws

variable {P : ε → Prop} {s : Config ι ρ σ ε α} {i : ι}

theorem throws_execute (h : (s.procs i).prog.Throws P) {st : Statement ρ σ β}
    {next : Except σ β → Prog ρ σ ε α} (hnext : ∀ r, (next r).Throws P) (ws : List (Write ρ))
    (sn : Store ρ) : ((s.execute i st next ws sn).procs i).prog.Throws P := by
  rcases s.execute_cases i st next ws sn with
    ⟨he, -⟩ | ⟨he, -⟩ | ⟨-, -, -, ⟨e, -, he⟩ | ⟨c, b, -, he⟩⟩ <;> rw [he]
  · simpa using hnext _
  · exact h
  · simpa using hnext _
  · simpa using hnext _

theorem throws_advance (h : (s.procs i).prog.Throws P) (fresh : Nat) :
    ((s.advance i fresh).procs i).prog.Throws P := by
  unfold Config.advance
  split
  case h_5 | h_7 | h_9 | h_11 | h_13 => exact h
  case h_1 => simp [Prog.Throws]
  case h_2 hprog =>
    rw [hprog] at h
    simpa using h
  case h_3 hprog =>
    rw [hprog] at h
    simpa using h _
  case h_4 hprog _ | h_6 hprog _ | h_8 hprog _ =>
    rw [hprog] at h
    simpa [Prog.Throws] using h
  case h_10 hprog _ =>
    rw [hprog] at h
    split
    · simpa using h fresh
    · rwa [hprog]
  case h_12 hprog _ =>
    have hnext := h
    rw [hprog] at hnext
    split
    · simpa using hnext
    · exact throws_execute h hnext _ _

theorem procs_execute_of_ne {j : ι} (hij : i ≠ j) (st : Statement ρ σ β)
    (next : Except σ β → Prog ρ σ ε α) (ws : List (Write ρ)) (sn : Store ρ) :
    (s.execute j st next ws sn).procs i = s.procs i := by
  rcases s.execute_cases j st next ws sn with
    ⟨he, -⟩ | ⟨he, -⟩ | ⟨-, -, -, ⟨e, -, he⟩ | ⟨c, b, -, he⟩⟩ <;> rw [he] <;> simp [hij]

theorem procs_step_of_ne {c : Choice ι} (hi : i ≠ c.proc) (fault : ε) :
    (step fault s c).procs i = s.procs i := by
  rcases step_cases fault s c with ⟨fresh, -, h⟩ | h | ⟨-, -, h⟩ <;> rw [h]
  · unfold Config.advance
    split
    case h_10 => split <;> simp [hi]
    case h_12 => split <;> simp [hi, procs_execute_of_ne]
    all_goals simp [hi]
  · simp [hi]

theorem throws_step (h : (s.procs i).prog.Throws P) {fault : ε} (hfault : P fault)
    (c : Choice ι) : ((step fault s c).procs i).prog.Throws P := by
  by_cases hi : i = c.proc
  · subst hi
    rcases step_cases fault s c with ⟨fresh, -, he⟩ | he | ⟨-, -, he⟩ <;> rw [he]
    · exact throws_advance h fresh
    · exact h
    · simpa [Prog.Throws] using hfault
  · rwa [procs_step_of_ne hi]

theorem throws_run (h : (s.procs i).prog.Throws P) {fault : ε} (hfault : P fault)
    (cs : List (Choice ι)) : ((run fault s cs).procs i).prog.Throws P := by
  induction cs generalizing s with
  | nil => exact h
  | cons c cs ih => exact ih (throws_step h hfault c)

end Throws

end PersonalDashboard.ReadCommitted
