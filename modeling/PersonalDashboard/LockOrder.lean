import PersonalDashboard.RowStatements
import Mathlib.Logic.Relation

/-! Deadlock freedom by lock order: when every process waits only for rows above
all the rows it holds, no cycle of waiting processes is ever reached. -/

set_option autoImplicit false

namespace PersonalDashboard.LockOrder

open PersonalDashboard.RowStore
open PersonalDashboard.ReadCommitted
open PersonalDashboard.ReadCommitted.Config
open PersonalDashboard.RowStatements

variable {κ : Type} {ρ : κ → Type} {σ ε α β : Type} {R : Type} [Preorder R]

/-- The row is held in a mode at least as strong. -/
def Covered (held : List (κ × LockMode)) (k : κ) (m : LockMode) : Prop :=
  ∃ m', (k, m') ∈ held ∧ m.strength ≤ m'.strength

theorem Covered.mono {held held' : List (κ × LockMode)} {k : κ} {m : LockMode}
    (h : Covered held k m) (hsub : held ⊆ held') : Covered held' k m := by
  obtain ⟨m', hmem, hle⟩ := h
  exact ⟨m', hsub hmem, hle⟩

theorem Covered.weaken {held : List (κ × LockMode)} {k : κ} {m m' : LockMode}
    (h : Covered held k m) (hle : m'.strength ≤ m.strength) : Covered held k m' := by
  obtain ⟨m₀, hmem, hle₀⟩ := h
  exact ⟨m₀, hmem, hle.trans hle₀⟩

/-- A lock request that closes no cycle: the row is covered, or lies above every
row that is held. -/
def Safe (rank : κ → R) (held : List (κ × LockMode)) (k : κ) (m : LockMode) : Prop :=
  Covered held k m ∨ ∀ e ∈ held, rank e.1 < rank k

def Yields (st : Statement ρ σ β) (b : β) : Prop :=
  ∃ sn cur c, st.hit sn cur = .ok (c, b)

/-- Every lock request of a program is safe, whatever the program reads. Outside
a transaction it holds nothing, and transactions do not nest. -/
def Ordered (rank : κ → R) : Prog ρ σ ε α → Option (List (κ × LockMode)) → Prop
  | .ret _, _ => True
  | .throw _, _ => True
  | .query _ next, held => ∀ b, Ordered rank (next b) held
  | .begin next, held => held = none ∧ Ordered rank next (some [])
  | .commit next, _ => Ordered rank next none
  | .rollback next, _ => Ordered rank next none
  | .alloc key next, some held =>
      ∀ n, Ordered rank (next n) (some ((key n, .update) :: held))
  | .alloc _ _, none => False
  | .exec st next, some held =>
      Safe rank held st.row st.mode ∧ Ordered rank (next (.ok st.miss)) (some held) ∧
        (∀ b, Yields st b → Ordered rank (next (.ok b)) (some ((st.row, st.mode) :: held))) ∧
        ∀ e, Ordered rank (next (.error e)) none
  | .exec _ _, none => False

theorem exists_key_eq_cons {held held' : List (κ × LockMode)}
    (hrows : ∀ e ∈ held', ∃ e' ∈ held, e'.1 = e.1) (l : κ × LockMode) :
    ∀ e ∈ l :: held', ∃ e' ∈ l :: held, e'.1 = e.1 := by
  intro e he
  rcases List.mem_cons.mp he with rfl | he
  · exact ⟨e, List.mem_cons_self, rfl⟩
  · obtain ⟨e', he', hkey⟩ := hrows e he
    exact ⟨e', List.mem_cons_of_mem _ he', hkey⟩

theorem Ordered.of_sameRows {rank : κ → R} {p : Prog ρ σ ε α}
    {held held' : List (κ × LockMode)} (h : Ordered rank p (some held)) (hsub : held ⊆ held')
    (hrows : ∀ e ∈ held', ∃ e' ∈ held, e'.1 = e.1) : Ordered rank p (some held') := by
  induction p generalizing held held' with
  | ret a => trivial
  | throw e => trivial
  | query q next ih => exact fun b => ih b (h b) hsub hrows
  | begin next ih => exact nomatch h.1
  | commit next ih => exact h
  | rollback next ih => exact h
  | alloc key next ih =>
      exact fun n => ih n (h n) (List.cons_subset_cons _ hsub) (exists_key_eq_cons hrows _)
  | exec st next ih =>
      obtain ⟨hsafe, hmiss, hhit, herr⟩ := h
      refine ⟨?_, ih _ hmiss hsub hrows, fun b hb => ?_, herr⟩
      · rcases hsafe with hcov | habove
        · exact Or.inl (hcov.mono hsub)
        · refine Or.inr fun e he => ?_
          obtain ⟨e', he', hkey⟩ := hrows e he
          exact hkey ▸ habove e' he'
      · exact ih _ (hhit b hb) (List.cons_subset_cons _ hsub) (exists_key_eq_cons hrows _)

theorem Ordered.map {rank : κ → R} {p : Prog ρ σ ε α} {held : Option (List (κ × LockMode))}
    (h : Ordered rank p held) (f : α → β) : Ordered rank (f <$> p) held := by
  induction p generalizing held with
  | ret a => trivial
  | throw e => trivial
  | query q next ih => exact fun b => ih b (h b)
  | begin next ih => exact ⟨h.1, ih h.2⟩
  | commit next ih => exact ih h
  | rollback next ih => exact ih h
  | alloc key next ih =>
      cases held with
      | none => exact h
      | some held => exact fun n => ih n (h n)
  | exec st next ih =>
      cases held with
      | none => exact h
      | some held =>
          obtain ⟨hsafe, hmiss, hhit, herr⟩ := h
          exact ⟨hsafe, ih _ hmiss, fun b hb => ih _ (hhit b hb), fun e => ih _ (herr e)⟩

section Rules

variable {γ : Type} {rank : κ → R} {held : List (κ × LockMode)}
  {o : Option (List (κ × LockMode))} {toErr : σ → ε} {e : ε} {k : κ}

theorem order_ret (a : α) : Ordered rank (.ret a : Prog ρ σ ε α) o :=
  trivial

theorem order_throw (e : ε) : Ordered rank (.throw e : Prog ρ σ ε α) o :=
  trivial

theorem order_failIf {c : Bool} {next : Unit → Prog ρ σ ε γ}
    (h : c = false → Ordered rank (next ()) o) : Ordered rank ((failIf c e).bind next) o := by
  cases c with
  | true => trivial
  | false => exact h rfl

theorem order_whenever {c : Prop} [Decidable c] {p : Prog ρ σ ε Unit}
    {next : Unit → Prog ρ σ ε γ} (hp : c → Ordered rank (p.bind next) o)
    (h : ¬ c → Ordered rank (next ()) o) : Ordered rank ((whenever c p).bind next) o := by
  unfold whenever
  split
  · exact hp ‹_›
  · exact h ‹_›

theorem order_ofExcept {x : Except ε β} {next : β → Prog ρ σ ε γ}
    (h : ∀ b, x = .ok b → Ordered rank (next b) o) :
    Ordered rank ((ofExcept x).bind next) o := by
  cases x with
  | error e => trivial
  | ok b => exact h b rfl

theorem order_ofOption {x : Option β} {next : β → Prog ρ σ ε γ}
    (h : ∀ b, x = some b → Ordered rank (next b) o) :
    Ordered rank ((ofOption e x).bind next) o := by
  cases x with
  | none => trivial
  | some b => exact h b rfl

theorem order_select {f : Store ρ → β} {next : β → Prog ρ σ ε γ}
    (h : ∀ b, Ordered rank (next b) o) : Ordered rank ((select f).bind next) o :=
  h

theorem order_beginTx {next : Unit → Prog ρ σ ε γ} (h : Ordered rank (next ()) (some [])) :
    Ordered rank (beginTx.bind next) none :=
  ⟨rfl, h⟩

theorem order_commitTx {next : Unit → Prog ρ σ ε γ} (h : Ordered rank (next ()) none) :
    Ordered rank (commitTx.bind next) o :=
  h

theorem order_rollbackTx {next : Unit → Prog ρ σ ε γ} (h : Ordered rank (next ()) none) :
    Ordered rank (rollbackTx.bind next) o :=
  h

theorem order_freshId {key : Nat → κ} {next : Nat → Prog ρ σ ε γ}
    (h : ∀ n, Ordered rank (next n) (some ((key n, .update) :: held))) :
    Ordered rank ((freshId key).bind next) (some held) :=
  h

theorem order_execSql {st : Statement ρ σ β} {next : β → Prog ρ σ ε γ}
    (hsafe : Safe rank held st.row st.mode) (hmiss : Ordered rank (next st.miss) (some held))
    (hhit : ∀ b, Yields st b → Ordered rank (next b) (some ((st.row, st.mode) :: held))) :
    Ordered rank ((execSql toErr st).bind next) (some held) :=
  ⟨hsafe, hmiss, hhit, fun _ => trivial⟩

theorem order_covered {st : Statement ρ σ β} {next : β → Prog ρ σ ε γ}
    (hcov : Covered held st.row st.mode)
    (h : ∀ b, b = st.miss ∨ Yields st b → Ordered rank (next b) (some held)) :
    Ordered rank ((execSql toErr st).bind next) (some held) := by
  refine order_execSql (Or.inl hcov) (h _ (Or.inl rfl)) fun b hb => ?_
  obtain ⟨m', hmem, -⟩ := hcov
  refine (h b (Or.inr hb)).of_sameRows (List.subset_cons_self _ _) fun e he => ?_
  rcases List.mem_cons.mp he with rfl | he
  · exact ⟨_, hmem, rfl⟩
  · exact ⟨e, he, rfl⟩

theorem order_fetchOr {st : Statement ρ σ (Option β)} {next : β → Prog ρ σ ε γ}
    (hsafe : Safe rank held st.row st.mode) (hmiss : st.miss = none)
    (h : ∀ b, Ordered rank (next b) (some ((st.row, st.mode) :: held))) :
    Ordered rank ((fetchOr toErr e st).bind next) (some held) := by
  unfold fetchOr
  rw [Prog.bind_assoc]
  refine order_execSql hsafe ?_ fun b _ => order_ofOption fun b' _ => h b'
  rw [hmiss]
  trivial

theorem order_fetchCovered {st : Statement ρ σ (Option β)} {next : β → Prog ρ σ ε γ}
    (hcov : Covered held st.row st.mode) (hmiss : st.miss = none)
    (h : ∀ b, Yields st (some b) → Ordered rank (next b) (some held)) :
    Ordered rank ((fetchOr toErr e st).bind next) (some held) := by
  unfold fetchOr
  rw [Prog.bind_assoc]
  refine order_covered hcov fun b hb => order_ofOption fun b' hb' => h b' ?_
  subst hb'
  rw [hmiss] at hb
  exact hb.resolve_left (Option.some_ne_none b')

variable [DecidableEq κ]

theorem order_foreignKey {violation : σ} {next : Unit → Prog ρ σ ε γ}
    (hsafe : Safe rank held k .keyShare)
    (h : ∀ held', held ⊆ held' → Ordered rank (next ()) (some held')) :
    Ordered rank ((foreignKey toErr violation k).bind next) (some held) := by
  unfold foreignKey
  rw [Prog.bind_assoc]
  exact order_execSql hsafe (order_failIf fun _ => h _ (List.Subset.refl _)) fun _ _ =>
    order_failIf fun _ => h _ (List.subset_cons_self _ _)

theorem order_foreignKeyCovered {violation : σ} {next : Unit → Prog ρ σ ε γ}
    (hcov : Covered held k .keyShare) (h : Ordered rank (next ()) (some held)) :
    Ordered rank ((foreignKey toErr violation k).bind next) (some held) := by
  unfold foreignKey
  rw [Prog.bind_assoc]
  exact order_covered hcov fun _ _ => order_failIf fun _ => h

theorem order_foreignKeyOpt {violation : σ} {key : α → κ} {a : Option α}
    {next : Unit → Prog ρ σ ε γ} (hsafe : ∀ b, a = some b → Safe rank held (key b) .keyShare)
    (h : ∀ held', held ⊆ held' → Ordered rank (next ()) (some held')) :
    Ordered rank ((foreignKeyOpt toErr violation key a).bind next) (some held) := by
  cases a with
  | none => exact h _ (List.Subset.refl _)
  | some a => exact order_foreignKey (hsafe a rfl) h

theorem order_foreignKeyOptCovered {violation : σ} {key : α → κ} {a : Option α}
    {next : Unit → Prog ρ σ ε γ} (hcov : ∀ b, a = some b → Covered held (key b) .keyShare)
    (h : Ordered rank (next ()) (some held)) :
    Ordered rank ((foreignKeyOpt toErr violation key a).bind next) (some held) := by
  cases a with
  | none => exact h
  | some a => exact order_foreignKeyCovered (hcov a rfl) h

end Rules

variable {ι : Type}

/-- The row whose lock a process is about to take for a statement that has found
it. -/
def Requests (s : Config ι ρ σ ε α) (i : ι) (k : κ) (m : LockMode) : Prop :=
  ∃ (β : Type) (st : Statement ρ σ β) (next : Except σ β → Prog ρ σ ε α)
    (ws : List (Write ρ)) (sn : Store ρ), (s.procs i).prog = .exec st next ∧
    (s.procs i).tx = some ws ∧ (s.procs i).snapshot = some sn ∧ st.qualifies sn = true ∧
    k = st.row ∧ m = st.mode

/-- A process waits for another that holds a conflicting lock on the row it
requests. -/
def WaitsFor (s : Config ι ρ σ ε α) (i j : ι) : Prop :=
  i ≠ j ∧ ∃ k m m', Requests s i k m ∧ ⟨j, k, m'⟩ ∈ s.locks ∧ m'.conflicts m = true

def LocksOf (locks : List (Lock ι κ)) (i : ι) (held : List (κ × LockMode)) : Prop :=
  ∀ k m, ⟨i, k, m⟩ ∈ locks ↔ (k, m) ∈ held

section LocksOf

variable {locks : List (Lock ι κ)} {i j : ι} {held : List (κ × LockMode)}

theorem LocksOf.acquire_self (h : LocksOf locks i held) (k : κ) (m : LockMode) :
    LocksOf (⟨i, k, m⟩ :: locks) i ((k, m) :: held) := by
  intro k' m'
  simp [h k' m']

theorem LocksOf.acquire_of_ne (h : LocksOf locks j held) (hji : j ≠ i) (k : κ) (m : LockMode) :
    LocksOf (⟨i, k, m⟩ :: locks) j held := by
  intro k' m'
  simp [h k' m', hji]

variable [DecidableEq ι]

theorem LocksOf.release_self : LocksOf (locks.filter fun l => l.proc ≠ i) i [] := by
  intro k m
  simp

theorem LocksOf.release_of_ne (h : LocksOf locks j held) (hji : j ≠ i) :
    LocksOf (locks.filter fun l => l.proc ≠ i) j held := by
  intro k m
  simpa [hji] using h k m

end LocksOf

structure LocksSound (rank : κ → R) (s : Config ι ρ σ ε α) : Prop where
  exclusive : Exclusive s.locks
  procs : ∀ i, ∃ held, Ordered rank (s.procs i).prog held ∧
    held.isSome = (s.procs i).tx.isSome ∧ LocksOf s.locks i (held.getD [])

section Invariance

variable {rank : κ → R} {s : Config ι ρ σ ε α} {i : ι}

theorem LocksSound.held_of_tx (hs : LocksSound rank s) {ws : List (Write ρ)}
    (htx : (s.procs i).tx = some ws) : ∃ held, Ordered rank (s.procs i).prog (some held) ∧
      LocksOf s.locks i held := by
  obtain ⟨held, hprog, hsome, hlocks⟩ := hs.procs i
  rw [htx, Option.isSome_some] at hsome
  obtain ⟨held, rfl⟩ := Option.isSome_iff_exists.mp hsome
  exact ⟨held, hprog, hlocks⟩

theorem locksSound_start {db : Store ρ} {progs : ι → Prog ρ σ ε α}
    (h : ∀ i, Ordered rank (progs i) none) : LocksSound rank (start db progs) :=
  ⟨by simp [start, Exclusive], fun i => ⟨none, h i, rfl, by simp [start, LocksOf]⟩⟩

/-- A process that waits for a row ranks it above every row it holds. -/
theorem LocksSound.rank_lt (hs : LocksSound rank s) {j : ι} {k k' : κ}
    {m m' n : LockMode} (hrequest : Requests s i k m) (hne : j ≠ i)
    (hblocked : ⟨j, k, m'⟩ ∈ s.locks) (hconflict : m'.conflicts m = true)
    (hheld : ⟨i, k', n⟩ ∈ s.locks) : rank k' < rank k := by
  obtain ⟨β, st, next, ws, sn, hprog, htx, -, -, rfl, rfl⟩ := hrequest
  obtain ⟨held, hordered, hlocks⟩ := hs.held_of_tx htx
  rw [hprog] at hordered
  rcases hordered.1 with ⟨m₀, hmem, hle⟩ | habove
  · -- a covered request conflicts with no lock of another process
    have hown : ⟨i, st.row, m₀⟩ ∈ s.locks := (hlocks _ _).mpr hmem
    have hfree := hs.exclusive _ hown _ hblocked rfl hne.symm
    rw [LockMode.conflicts_comm] at hconflict
    simp [LockMode.conflicts_of_strength_le hle hconflict] at hfree
  · exact habove _ ((hlocks _ _).mp hheld)

theorem requests_unique {k k' : κ} {m m' : LockMode} (h : Requests s i k m)
    (h' : Requests s i k' m') : k = k' := by
  obtain ⟨β, st, next, ws, sn, hprog, -, -, -, rfl, -⟩ := h
  obtain ⟨β', st', next', ws', sn', hprog', -, -, -, rfl, -⟩ := h'
  rw [hprog] at hprog'
  cases hprog'
  rfl

/-- Along a chain of waiting processes the requested rows ascend. -/
theorem LocksSound.rank_lt_of_transGen (hs : LocksSound rank s) {i j l : ι}
    (h : Relation.TransGen (WaitsFor s) i j) (hwait : WaitsFor s j l) :
    ∃ k m k' m', Requests s i k m ∧ Requests s j k' m' ∧ rank k < rank k' := by
  induction h generalizing l with
  | single h =>
      obtain ⟨-, k, m, n, hrequest, hheld, -⟩ := h
      obtain ⟨hne, k', m', n', hrequest', hblocked, hconflict⟩ := hwait
      exact ⟨k, m, k', m', hrequest, hrequest',
        hs.rank_lt hrequest' hne.symm hblocked hconflict hheld⟩
  | tail _ h ih =>
      obtain ⟨k, m, k₁, m₁, hrequest, hrequest₁, hlt⟩ := ih h
      obtain ⟨-, k₂, m₂, n, hrequest₂, hheld, -⟩ := h
      obtain ⟨hne, k', m', n', hrequest', hblocked, hconflict⟩ := hwait
      obtain rfl := requests_unique hrequest₁ hrequest₂
      exact ⟨k, m, k', m', hrequest, hrequest',
        hlt.trans (hs.rank_lt hrequest' hne.symm hblocked hconflict hheld)⟩

theorem LocksSound.acyclic (hs : LocksSound rank s) (i : ι) :
    ¬ Relation.TransGen (WaitsFor s) i i := by
  intro h
  obtain ⟨j, hwait, -⟩ := Relation.TransGen.head'_iff.mp h
  obtain ⟨k, m, k', m', hrequest, hrequest', hlt⟩ := hs.rank_lt_of_transGen h hwait
  obtain rfl := requests_unique hrequest hrequest'
  exact lt_irrefl _ hlt

theorem LocksSound.not_mem_locks_of_tx_none (hs : LocksSound rank s)
    (htx : (s.procs i).tx = none) {l : Lock ι κ} (hl : l ∈ s.locks) : l.proc ≠ i := by
  rintro rfl
  obtain ⟨held, -, hsome, hlocks⟩ := hs.procs l.proc
  rw [htx, Option.isSome_none] at hsome
  obtain rfl := Option.isSome_eq_false_iff.mp hsome |> Option.isNone_iff_eq_none.mp
  exact absurd ((hlocks l.key l.mode).mp hl) List.not_mem_nil

theorem LocksSound.tx_none_of_begin (hs : LocksSound rank s) {next : Prog ρ σ ε α}
    (hprog : (s.procs i).prog = .begin next) : (s.procs i).tx = none := by
  obtain ⟨held, hordered, hsome, -⟩ := hs.procs i
  rw [hprog] at hordered
  rw [hordered.1, Option.isSome_none] at hsome
  exact Option.isNone_iff_eq_none.mp (Option.isSome_eq_false_iff.mp hsome.symm)

variable [DecidableEq ι]

theorem LocksSound.setProc (hs : LocksSound rank s) {p : Proc ρ σ ε α}
    {held : Option (List (κ × LockMode))} (hp : Ordered rank p.prog held)
    (htx : held.isSome = p.tx.isSome) (hlocks : LocksOf s.locks i (held.getD [])) :
    LocksSound rank (s.setProc i p) := by
  refine ⟨hs.exclusive, fun j => ?_⟩
  by_cases hj : j = i
  · subst hj
    exact ⟨held, by simpa using ⟨hp, htx, hlocks⟩⟩
  · simpa [hj] using hs.procs j

theorem LocksSound.abandon (hs : LocksSound rank s) {p : Prog ρ σ ε α}
    (hp : Ordered rank p none) : LocksSound rank (s.abandon i p) := by
  refine ⟨hs.exclusive.mono (List.filter_subset_self _), fun j => ?_⟩
  by_cases hj : j = i
  · subst hj
    rw [abandon_procs_self]
    exact ⟨none, hp, rfl, LocksOf.release_self⟩
  · obtain ⟨held, hprog, htx, hlocks⟩ := hs.procs j
    rw [abandon_procs_of_ne s i hj]
    exact ⟨held, hprog, htx, hlocks.release_of_ne hj⟩

theorem LocksSound.acquire (hs : LocksSound rank s) {k : κ} {m : LockMode} {p : Proc ρ σ ε α}
    {held : List (κ × LockMode)}
    (hfree : ∀ l ∈ s.locks, l.proc ≠ i → l.key = k → l.mode.conflicts m = false)
    (hp : Ordered rank p.prog (some ((k, m) :: held))) (htx : p.tx.isSome)
    (hlocks : LocksOf s.locks i held) :
    LocksSound rank ((s.acquire i k m).setProc i p) := by
  refine ⟨hs.exclusive.cons hfree, fun j => ?_⟩
  by_cases hj : j = i
  · subst hj
    exact ⟨_, by simpa using ⟨hp, htx.symm, hlocks.acquire_self k m⟩⟩
  · obtain ⟨held', hprog, htx', hlocks'⟩ := hs.procs j
    exact ⟨held', by simpa [hj] using ⟨hprog, htx', hlocks'.acquire_of_ne hj k m⟩⟩

variable [DecidableEq κ]

theorem LocksSound.execute (hs : LocksSound rank s) {st : Statement ρ σ β}
    {next : Except σ β → Prog ρ σ ε α} {ws : List (Write ρ)} (sn : Store ρ)
    (hprog : (s.procs i).prog = .exec st next) (htx : (s.procs i).tx = some ws) :
    LocksSound rank (s.execute i st next ws sn) := by
  obtain ⟨held, hordered, hlocks⟩ := hs.held_of_tx htx
  rw [hprog] at hordered
  obtain ⟨-, hmiss, hhit, herr⟩ := hordered
  rcases s.execute_cases i st next ws sn with
    ⟨he, -⟩ | ⟨he, -⟩ | ⟨-, hfree, -, ⟨e, -, he⟩ | ⟨c, b, hyield, he⟩⟩ <;> rw [he]
  · exact hs.setProc hmiss rfl hlocks
  · exact hs
  · exact hs.abandon (herr _)
  · refine hs.acquire (fun l hl => ?_) (hhit _ ⟨_, _, _, hyield⟩) rfl hlocks
    exact s.conflicts_eq_false_of_not_blocked i hfree hl

theorem LocksSound.advance (hs : LocksSound rank s) (fresh : Nat) :
    LocksSound rank (s.advance i fresh) := by
  obtain ⟨held, hordered, hsome, hlocks⟩ := hs.procs i
  unfold Config.advance
  split
  case h_5 | h_7 | h_9 | h_11 | h_13 => exact hs
  case h_1 | h_2 => exact hs.abandon trivial
  case h_3 hprog =>
    rw [hprog] at hordered
    exact hs.setProc (hordered _) hsome hlocks
  case h_4 hprog _ =>
    rw [hprog] at hordered
    obtain ⟨rfl, hnext⟩ := hordered
    exact hs.setProc hnext rfl hlocks
  case h_6 next ws hprog _ =>
    rw [hprog] at hordered
    have habandon := hs.abandon (i := i) (p := next) hordered
    exact ⟨habandon.exclusive, habandon.procs⟩
  case h_8 hprog _ =>
    rw [hprog] at hordered
    exact hs.abandon hordered
  case h_10 hprog htx =>
    split
    · rename_i hfree
      obtain ⟨held, hordered, hlocks⟩ := hs.held_of_tx htx
      rw [hprog] at hordered
      refine hs.acquire (fun l hl _ hkey => ?_) (hordered _) rfl hlocks
      exact absurd hkey (by simpa using List.all_eq_true.mp hfree.2 l hl)
    · exact hs
  case h_12 hprog htx =>
    split
    · rw [hprog] at hordered
      exact hs.setProc hordered (hsome.trans (by rw [htx])) hlocks
    · exact hs.execute _ hprog htx

theorem LocksSound.step (hs : LocksSound rank s) (fault : ε) (c : Choice ι) :
    LocksSound rank (step fault s c) := by
  rcases step_cases fault s c with ⟨fresh, -, he⟩ | he | ⟨-, -, he⟩ <;> rw [he]
  · exact hs.advance fresh
  · exact hs
  · exact hs.abandon trivial

theorem LocksSound.run (hs : LocksSound rank s) (fault : ε) (cs : List (Choice ι)) :
    LocksSound rank (run fault s cs) := by
  induction cs generalizing s with
  | nil => exact hs
  | cons c cs ih => exact ih (hs.step fault c)

end Invariance

-- from here on, programs are checked by the rules only
attribute [irreducible] Ordered

end PersonalDashboard.LockOrder
