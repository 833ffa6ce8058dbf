import PersonalDashboard.RowStatements
import Mathlib.Data.Set.Finite.Basic

/-! What a program answers, and what it leaves behind, when it runs alone. -/

set_option autoImplicit false

namespace PersonalDashboard.SoloRuns

open PersonalDashboard.RowStatements
open PersonalDashboard.RowStore
open PersonalDashboard.ReadCommitted
open PersonalDashboard.ReadCommitted.Config
open PersonalDashboard.TransactionLogic.Contract

variable {ι κ : Type} {ρ : κ → Type} {σ ε α β : Type}

/-- The committed store, what the open transaction reads, if there is one, and
the numbers of the next fresh keys. -/
structure Session (ρ : κ → Type) where
  db : Store ρ
  tx : Option (Store ρ) := none
  ids : Nat → Nat

namespace Session

def view (w : Session ρ) : Store ρ :=
  w.tx.getD w.db

/-- A statement changes what its transaction reads; without a transaction it
commits at once. -/
def write (w : Session ρ) (s : Store ρ) : Session ρ :=
  match w.tx with
  | some _ => { w with tx := some s }
  | none => { w with db := s }

def abort (w : Session ρ) : Session ρ :=
  { w with tx := none }

def commit (w : Session ρ) : Session ρ :=
  { w with db := w.view, tx := none }

end Session

theorem write_write (w : Session ρ) (s t : Store ρ) : (w.write s).write t = w.write t := by
  obtain ⟨db, tx, ids⟩ := w
  cases tx <;> rfl

theorem view_write (w : Session ρ) (s : Store ρ) : (w.write s).view = s := by
  obtain ⟨db, tx, ids⟩ := w
  cases tx <;> rfl

theorem write_view (w : Session ρ) : w.write w.view = w := by
  obtain ⟨db, tx, ids⟩ := w
  cases tx <;> rfl

/-- Transactions are opened and closed in turn, and statements and fresh keys occur inside of
them only; `post` is about an answer and whether a transaction is open then. -/
def Bracketed : Prog ρ σ ε α → (α → Bool → Prop) → Bool → Prop
  | .ret a, post, inTx => post a inTx
  | .throw _, _, _ => True
  | .query _ next, post, inTx => ∀ b, Bracketed (next b) post inTx
  | .begin next, post, inTx => inTx = false ∧ Bracketed next post true
  | .commit next, post, inTx => inTx = true ∧ Bracketed next post false
  | .rollback next, post, inTx => inTx = true ∧ Bracketed next post false
  | .alloc key next, post, inTx =>
      inTx = true ∧ Function.Injective key ∧ ∀ n, Bracketed (next n) post true
  | .exec _ next, post, inTx =>
      inTx = true ∧ (∀ b, Bracketed (next (.ok b)) post true) ∧
        ∀ e, Bracketed (next (.error e)) post false

/-- The program answers in the same transaction, or outside of any, as it begins. -/
def Steady (p : Prog ρ σ ε α) (inTx : Bool) : Prop :=
  Bracketed p (fun _ now => now = inTx) inTx

section Bracketed

variable {post : α → Bool → Prop} {inTx : Bool}

theorem bracketed_bind (p : Prog ρ σ ε α) (f : α → Prog ρ σ ε β) (post : β → Bool → Prop) :
    Bracketed (p.bind f) post inTx ↔
      Bracketed p (fun a now => Bracketed (f a) post now) inTx := by
  induction p generalizing inTx with
  | ret a => exact Iff.rfl
  | throw e => exact Iff.rfl
  | query q next ih => exact forall_congr' fun b => ih b
  | begin next ih => exact and_congr_right fun _ => ih
  | commit next ih => exact and_congr_right fun _ => ih
  | rollback next ih => exact and_congr_right fun _ => ih
  | alloc key next ih =>
      exact and_congr_right fun _ => and_congr_right fun _ => forall_congr' fun n => ih n
  | exec st next ih =>
      exact and_congr_right fun _ => and_congr (forall_congr' fun b => ih _)
        (forall_congr' fun e => ih _)

theorem Bracketed.mono {post' : α → Bool → Prop} {p : Prog ρ σ ε α}
    (h : Bracketed p post inTx) (himp : ∀ a now, post a now → post' a now) :
    Bracketed p post' inTx := by
  induction p generalizing inTx with
  | ret a => exact himp a inTx h
  | throw e => trivial
  | query q next ih => exact fun b => ih b (h b)
  | begin next ih => exact ⟨h.1, ih h.2⟩
  | commit next ih => exact ⟨h.1, ih h.2⟩
  | rollback next ih => exact ⟨h.1, ih h.2⟩
  | alloc key next ih => exact ⟨h.1, h.2.1, fun n => ih n (h.2.2 n)⟩
  | exec st next ih => exact ⟨h.1, fun b => ih _ (h.2.1 b), fun e => ih _ (h.2.2 e)⟩

theorem Steady.bind {p : Prog ρ σ ε α} {f : α → Prog ρ σ ε β} {post : β → Bool → Prop}
    (h : Steady p inTx) (hf : ∀ a, Bracketed (f a) post inTx) :
    Bracketed (p.bind f) post inTx := by
  refine (bracketed_bind p f post).mpr (h.mono fun a now hnow => ?_)
  subst hnow
  exact hf a

theorem bracketed_ret {a : α} (h : post a inTx) : Bracketed (.ret a : Prog ρ σ ε α) post inTx :=
  h

theorem steady_ret (a : α) : Steady (.ret a : Prog ρ σ ε α) inTx :=
  rfl

theorem Steady.map {p : Prog ρ σ ε α} (h : Steady p inTx) (f : α → β) : Steady (f <$> p) inTx :=
  h.bind fun a => steady_ret (f a)

theorem steady_select (f : Store ρ → α) : Steady (select f : Prog ρ σ ε α) inTx :=
  fun _ => rfl

theorem steady_failIf (c : Bool) (e : ε) : Steady (failIf c e : Prog ρ σ ε Unit) inTx := by
  cases c with
  | true => trivial
  | false => rfl

theorem steady_whenever {c : Prop} [Decidable c] {p : Prog ρ σ ε Unit} (h : Steady p inTx) :
    Steady (whenever c p) inTx := by
  unfold whenever
  split
  · exact h
  · rfl

theorem steady_ofExcept (x : Except ε α) : Steady (ofExcept x : Prog ρ σ ε α) inTx := by
  cases x with
  | ok a => rfl
  | error e => trivial

theorem steady_execSql (toErr : σ → ε) (st : Statement ρ σ α) : Steady (execSql toErr st) true :=
  ⟨rfl, fun _ => rfl, fun _ => trivial⟩

theorem steady_freshId {key : Nat → κ} (hkey : Function.Injective key) :
    Steady (freshId key : Prog ρ σ ε Nat) true :=
  ⟨rfl, hkey, fun _ => rfl⟩

theorem steady_foreignKey [DecidableEq κ] (toErr : σ → ε) (violation : σ) (k : κ) :
    Steady (foreignKey toErr violation k : Prog ρ σ ε Unit) true :=
  (steady_execSql toErr _).bind fun _ => steady_failIf _ _

theorem steady_foreignKeyOpt [DecidableEq κ] (toErr : σ → ε) (violation : σ) (key : β → κ)
    (x : Option β) : Steady (foreignKeyOpt toErr violation key x : Prog ρ σ ε Unit) true := by
  cases x with
  | none => rfl
  | some a => exact steady_foreignKey toErr violation (key a)

theorem bracketed_beginTx {f : Unit → Prog ρ σ ε α} (h : Bracketed (f ()) post true) :
    Bracketed ((beginTx : Prog ρ σ ε Unit).bind f) post false :=
  ⟨rfl, h⟩

theorem bracketed_commitTx {f : Unit → Prog ρ σ ε α} (h : Bracketed (f ()) post false) :
    Bracketed ((commitTx : Prog ρ σ ε Unit).bind f) post true :=
  ⟨rfl, h⟩

end Bracketed

def Ended (p : Prog ρ σ ε α) : Prop :=
  ∃ r : Except ε α, p = ofExcept r

def LocksOpen (s : Config ι ρ σ ε α) : Prop :=
  ∀ l ∈ s.locks, (s.procs l.proc).tx.isSome

theorem locksOpen_start (db : Store ρ) (progs : ι → Prog ρ σ ε α) : LocksOpen (start db progs) :=
  fun _ hl => absurd hl List.not_mem_nil

/-- What is left of a process, and whether its transaction is open, while no other process
holds a lock. -/
structure Alone (s : Config ι ρ σ ε α) (i : ι) (p : Prog ρ σ ε α) (inTx : Bool) : Prop where
  prog : (s.procs i).prog = p
  tx : (s.procs i).tx.isSome = inTx
  locks : ∀ l ∈ s.locks, l.proc = i

section Alone

variable {s : Config ι ρ σ ε α} {i : ι} {p : Prog ρ σ ε α} {inTx : Bool}

theorem Alone.acquire (h : Alone s i p inTx) (k : κ) (m : LockMode) :
    Alone (s.acquire i k m) i p inTx :=
  ⟨h.prog, h.tx, fun l hl => (List.mem_cons.mp hl).elim (fun heq => heq ▸ rfl) (h.locks l)⟩

theorem Alone.tx_eq_none (h : Alone s i p false) : (s.procs i).tx = none :=
  Option.not_isSome_iff_eq_none.mp (by rw [h.tx]; exact Bool.false_ne_true)

theorem Alone.exists_tx (h : Alone s i p true) : ∃ ws, (s.procs i).tx = some ws :=
  Option.isSome_iff_exists.mp h.tx

theorem LocksOpen.acquire (h : LocksOpen s) {ws : List (Write ρ)}
    (htx : (s.procs i).tx = some ws) (k : κ) (m : LockMode) : LocksOpen (s.acquire i k m) := by
  intro l hl
  rcases List.mem_cons.mp hl with rfl | hl
  · rw [acquire_procs, htx]
    rfl
  · exact h l hl

variable [DecidableEq ι]

theorem LocksOpen.setProc (h : LocksOpen s) {p : Proc ρ σ ε α}
    (hp : (s.procs i).tx.isSome → p.tx.isSome) : LocksOpen (s.setProc i p) := by
  intro l hl
  have hopen := h l hl
  by_cases hi : l.proc = i
  · rw [hi] at hopen ⊢
    rw [setProc_procs_self]
    exact hp hopen
  · rwa [setProc_procs_of_ne s i hi]

theorem LocksOpen.abandon (h : LocksOpen s) (p : Prog ρ σ ε α) : LocksOpen (s.abandon i p) := by
  intro l hl
  obtain ⟨hl, hi⟩ := List.mem_filter.mp hl
  rw [abandon_procs_of_ne s i (by simpa using hi)]
  exact h l hl

theorem Alone.setProc (h : Alone s i p inTx) (q : Proc ρ σ ε α) :
    Alone (s.setProc i q) i q.prog q.tx.isSome :=
  ⟨by rw [setProc_procs_self], by rw [setProc_procs_self], h.locks⟩

theorem alone_abandon (s : Config ι ρ σ ε α) (q : Prog ρ σ ε α)
    (hlocks : ∀ l ∈ s.locks, l.proc = i) : Alone (s.abandon i q) i q false := by
  refine ⟨by rw [abandon_procs_self], by rw [abandon_procs_self]; rfl, fun l hl => ?_⟩
  exact hlocks l (List.mem_of_mem_filter hl)

end Alone

variable [DecidableEq κ]

/-- The result of a program that runs alone, and the session it ends in. -/
@[simp]
def solo : Prog ρ σ ε α → Session ρ → Except ε α × Session ρ
  | .ret a, w => (.ok a, w)
  | .throw e, w => (.error e, w)
  | .query f next, w => solo (next (f w.view)) w
  | .begin next, w => solo next { w with tx := some w.view }
  | .commit next, w => solo next w.commit
  | .rollback next, w => solo next w.abort
  | .alloc _ next, w => solo (next (w.ids 0)) { w with ids := fun n => w.ids (n + 1) }
  | .exec st next, w =>
      if st.qualifies w.view then
        match st.hit w.view w.view with
        | .error e => solo (next (.error e)) w.abort
        | .ok (c, b) => solo (next (.ok b)) (w.write (c.apply w.view))
      else solo (next (.ok st.miss)) w

/-- What others see of it: the result and the committed store. -/
def outcome (p : Prog ρ σ ε α) (w : Session ρ) : Except ε α × Store ρ :=
  ((solo p w).1, (solo p w).2.db)

theorem solo_bind (p : Prog ρ σ ε α) (f : α → Prog ρ σ ε β) (w : Session ρ) :
    solo (p.bind f) w =
      match solo p w with
      | (.ok a, w') => solo (f a) w'
      | (.error e, w') => (.error e, w') := by
  induction p generalizing w with
  | ret a => rfl
  | throw e => rfl
  | query q next ih => exact ih _ w
  | begin next ih => exact ih _
  | commit next ih => exact ih _
  | rollback next ih => exact ih _
  | alloc key next ih => exact ih _ _
  | exec st next ih =>
      simp only [Prog.bind, solo]
      split
      · split
        · exact ih _ _
        · exact ih _ _
      · exact ih _ _

theorem outcome_map (f : α → β) (p : Prog ρ σ ε α) (w : Session ρ) :
    outcome (f <$> p) w = ((outcome p w).1.map f, (outcome p w).2) := by
  rw [Prog.map_eq, outcome, solo_bind, outcome]
  generalize solo p w = x
  obtain ⟨_ | a, w'⟩ := x
  · rfl
  · rfl

theorem solo_bind_of_ok {p : Prog ρ σ ε α} {w w' : Session ρ} {a : α}
    (h : solo p w = (.ok a, w')) (f : α → Prog ρ σ ε β) : solo (p.bind f) w = solo (f a) w' := by
  rw [solo_bind, h]

theorem solo_bind_of_error {p : Prog ρ σ ε α} {w w' : Session ρ} {e : ε}
    (h : solo p w = (.error e, w')) (f : α → Prog ρ σ ε β) :
    solo (p.bind f) w = (.error e, w') := by
  rw [solo_bind, h]

section Statements

variable {toErr : σ → ε} {w : Session ρ} {k : κ}

theorem solo_updateRow {mode : LockMode} (hmode : mode.exclusive) {p : ρ k → Bool}
    {f : Store ρ → ρ k → Except σ (ρ k)} {r r' : ρ k} (hr : w.view.lookup k = some r)
    (hp : p r = true) (hf : f w.view r = .ok r') :
    solo (execSql toErr (updateRow mode hmode k p f) : Prog ρ σ ε (Option (ρ k))) w =
      (.ok (some r'), w.write (put w.view k (some r'))) := by
  have hfound : found k p w.view = true := found_eq_true.mpr ⟨r, hr, hp⟩
  simp only [execSql, solo, updateRow, hfound, hr, hf]
  rfl

theorem solo_updateRow_of_miss {mode : LockMode} (hmode : mode.exclusive) {p : ρ k → Bool}
    {f : Store ρ → ρ k → Except σ (ρ k)} (hr : w.view.lookup k = none) :
    solo (execSql toErr (updateRow mode hmode k p f) : Prog ρ σ ε (Option (ρ k))) w =
      (.ok none, w) := by
  have hfound : found k p w.view = false := by rw [found, hr, Option.any_none]
  simp only [execSql, solo, updateRow, hfound]
  rfl

theorem solo_insertRow {r : ρ k} :
    solo (execSql toErr (insertRow k (fun _ => .ok ()) r) : Prog ρ σ ε (ρ k)) w =
      (.ok r, w.write (put w.view k (some r))) :=
  rfl

theorem solo_foreignKey {violation : σ} (hk : (w.view.lookup k).isSome) :
    solo (foreignKey toErr violation k : Prog ρ σ ε Unit) w = (.ok (), w) := by
  obtain ⟨r, hr⟩ := Option.isSome_iff_exists.mp hk
  have hfound : found k (fun _ => true) w.view = true := found_eq_true.mpr ⟨r, hr, rfl⟩
  have hselect : solo (execSql toErr (selectFor .keyShare k (fun _ => true) fun _ => ()) :
      Prog ρ σ ε (Option Unit)) w = (.ok (some ()), w.write w.view) := by
    simp only [execSql, solo, selectFor, hfound, hr]
    rfl
  rw [foreignKey, solo_bind_of_ok hselect, write_view]
  rfl

theorem solo_foreignKeyOpt {violation : σ} {key : α → κ} {x : Option α}
    (hx : ∀ a, x = some a → (w.view.lookup (key a)).isSome) :
    solo (foreignKeyOpt toErr violation key x : Prog ρ σ ε Unit) w = (.ok (), w) := by
  cases x with
  | none => rfl
  | some a => exact solo_foreignKey (hx a rfl)

end Statements

def sessionOf (s : Config ι ρ σ ε α) (i : ι) (ids : Nat → Nat) : Session ρ :=
  ⟨s.db, (s.procs i).tx.map (applyAll s.db), ids⟩

theorem view_sessionOf (s : Config ι ρ σ ε α) (i : ι) (ids : Nat → Nat) :
    (sessionOf s i ids).view = s.view i := by
  rw [Session.view, sessionOf, Config.view]
  cases (s.procs i).tx with
  | none => rfl
  | some ws => rfl

def Continues (s s' : Config ι ρ σ ε α) (i : ι) : Prop :=
  ∀ ids', ∃ ids, outcome (s.procs i).prog (sessionOf s i ids) =
    outcome (s'.procs i).prog (sessionOf s' i ids')

theorem Continues.refl (s : Config ι ρ σ ε α) (i : ι) : Continues s s i :=
  fun ids => ⟨ids, rfl⟩

theorem Continues.of_solo {s s' : Config ι ρ σ ε α} {i : ι}
    (h : ∀ ids, solo (s.procs i).prog (sessionOf s i ids) =
      solo (s'.procs i).prog (sessionOf s' i ids)) : Continues s s' i :=
  fun ids => ⟨ids, by rw [outcome, outcome, h]⟩

theorem exists_fresh (s : Config ι ρ σ ε α) {key : Nat → κ} (hkey : Function.Injective key) :
    ∃ n, (s.db.lookup (key n)).isNone ∧ s.locks.all fun l => l.key ≠ key n := by
  obtain ⟨_, ⟨n, rfl⟩, hn⟩ := (Set.infinite_range_of_injective hkey).exists_notMem_finset
    (s.db.keys ++ s.locks.map Lock.key).toFinset
  rw [List.mem_toFinset, List.mem_append, not_or] at hn
  refine ⟨n, ?_, ?_⟩
  · rw [Option.isNone_iff_eq_none, AList.lookup_eq_none]
    exact hn.1
  · rw [List.all_eq_true]
    intro l hl
    simp only [decide_eq_true_eq]
    exact fun hkey => hn.2 (List.mem_map.mpr ⟨l, hl, hkey⟩)

variable [DecidableEq ι]

theorem continues_execute {s : Config ι ρ σ ε α} {i : ι} {st : Statement ρ σ β}
    {next : Except σ β → Prog ρ σ ε α} {ws : List (Write ρ)}
    (hprog : (s.procs i).prog = .exec st next) (htx : (s.procs i).tx = some ws) :
    Continues s (s.execute i st next ws (s.view i)) i := by
  have hsession : ∀ ids, sessionOf s i ids = ⟨s.db, some (applyAll s.db ws), ids⟩ := by
    intro ids
    rw [sessionOf, htx, Option.map_some]
  have hsolo : ∀ ids, solo (s.procs i).prog (sessionOf s i ids) =
      if st.qualifies (s.view i) then
        match st.hit (s.view i) (s.view i) with
        | .error e => solo (next (.error e)) (sessionOf s i ids).abort
        | .ok (c, b) => solo (next (.ok b)) ((sessionOf s i ids).write (c.apply (s.view i)))
      else solo (next (.ok st.miss)) (sessionOf s i ids) := by
    intro ids
    rw [hprog, solo, view_sessionOf]
  rcases s.execute_cases i st next ws (s.view i) with
    ⟨he, hq⟩ | ⟨he, -⟩ | ⟨hq, -, -, ⟨e, hr, he⟩ | ⟨c, b, hr, he⟩⟩ <;> rw [he]
  · refine .of_solo fun ids => ?_
    rw [hsolo, or_self_iff.mp hq, setProc_procs_self, hsession]
    simp [sessionOf]
  · exact Continues.refl s i
  · refine .of_solo fun ids => ?_
    rw [hsolo]
    simp only [hq, hr, if_true, abandon_procs_self, sessionOf, abandon_db, Session.abort,
      Option.map_none]
  · have happly : c.apply (s.view i) = applyAll s.db (ws ++ c.writes) := by
      rw [Change.apply, Config.view, htx, Option.getD_some, applyAll_append]
    refine .of_solo fun ids => ?_
    rw [hsolo]
    simp only [hq, hr, if_true, happly, hsession, Session.write, setProc_procs_self]
    simp only [sessionOf, setProc_procs_self, setProc_db, acquire_db, Option.map_some]

theorem continues_advance {s : Config ι ρ σ ε α} {i : ι} (h : UpToDate s i) (fresh : Nat) :
    Continues s (s.advance i fresh) i := by
  unfold Config.advance
  split
  case h_5 | h_7 | h_9 | h_11 | h_13 => exact Continues.refl s i
  case h_1 hprog | h_2 hprog =>
    refine fun ids => ⟨ids, ?_⟩
    simp only [outcome, hprog, solo, sessionOf, abandon_procs_self, abandon_db]
  case h_3 hprog =>
    refine .of_solo fun ids => ?_
    simp only [hprog, solo, view_sessionOf, setProc_procs_self]
    rw [sessionOf, sessionOf, setProc_procs_self, setProc_db]
  case h_4 hprog htx | h_6 hprog htx | h_8 hprog htx =>
    refine .of_solo fun ids => ?_
    simp [hprog, solo, sessionOf, htx, Session.view, Session.commit, Session.abort]
  case h_10 hprog htx =>
    split
    · refine fun ids => ⟨fun n => n.casesOn fresh ids, ?_⟩
      simp [outcome, hprog, solo, sessionOf, htx]
    · exact Continues.refl s i
  case h_12 hprog htx =>
    split
    · refine .of_solo fun ids => ?_
      simp [hprog, sessionOf, htx]
    · rename_i sn hsn
      rw [h sn hsn]
      exact continues_execute hprog htx

/-- The steps of one process, offered the given numbers for fresh keys. -/
def turns (i : ι) (fresh : List Nat) : List (Choice ι) :=
  fresh.map fun n => ⟨i, .advance n⟩

theorem exists_outcome_of_run {s : Config ι ρ σ ε α} {i : ι} (h : UpToDate s i) (fault : ε)
    (fresh : List Nat) {r : Except ε α}
    (hr : ((run fault s (turns i fresh)).procs i).prog = ofExcept r) :
    ∃ ids, outcome (s.procs i).prog (sessionOf s i ids) =
      (r, (run fault s (turns i fresh)).db) := by
  induction fresh generalizing s with
  | nil =>
      refine ⟨id, ?_⟩
      simp only [turns, List.map_nil, run_nil] at hr ⊢
      rw [hr]
      cases r <;> rfl
  | cons n fresh ih =>
      obtain ⟨ids', hids'⟩ := ih (h.advance n) hr
      obtain ⟨ids, hids⟩ := continues_advance h n ids'
      exact ⟨ids, hids.trans hids'⟩

section Locks

variable {s : Config ι ρ σ ε α} {i : ι}

theorem LocksOpen.execute (h : LocksOpen s) {ws : List (Write ρ)}
    (htx : (s.procs i).tx = some ws) (st : Statement ρ σ β) (next : Except σ β → Prog ρ σ ε α)
    (sn : Store ρ) : LocksOpen (s.execute i st next ws sn) := by
  rcases s.execute_cases i st next ws sn with
    ⟨he, -⟩ | ⟨he, -⟩ | ⟨-, -, -, ⟨e, -, he⟩ | ⟨c, b, -, he⟩⟩ <;> rw [he]
  · exact h.setProc fun _ => rfl
  · exact h
  · exact h.abandon _
  · exact (h.acquire htx _ _).setProc fun _ => rfl

theorem LocksOpen.advance (h : LocksOpen s) (fresh : Nat) : LocksOpen (s.advance i fresh) := by
  unfold Config.advance
  split
  case h_5 | h_7 | h_9 | h_11 | h_13 => exact h
  case h_1 | h_2 | h_8 => exact h.abandon _
  case h_3 htx => exact h.setProc fun hopen => hopen
  case h_4 => exact h.setProc fun _ => rfl
  case h_6 => exact h.abandon _
  case h_10 htx =>
    split
    · exact (h.acquire htx _ _).setProc fun _ => rfl
    · exact h
  case h_12 htx =>
    split
    · exact h.setProc fun _ => rfl
    · exact h.execute htx _ _ _

theorem LocksOpen.run (h : LocksOpen s) (fault : ε) (cs : List (Choice ι)) :
    LocksOpen (run fault s cs) := by
  induction cs generalizing s with
  | nil => exact h
  | cons c cs ih =>
      refine ih ?_
      rcases step_cases fault s c with ⟨fresh, -, he⟩ | he | ⟨-, -, he⟩ <;> rw [he]
      · exact h.advance fresh
      · exact h
      · exact h.abandon _

end Locks

theorem procs_run_of_notMem {s : Config ι ρ σ ε α} {i : ι} {cs : List (Choice ι)}
    (hi : ∀ c ∈ cs, c.proc ≠ i) (fault : ε) : (run fault s cs).procs i = s.procs i := by
  induction cs generalizing s with
  | nil => rfl
  | cons c cs ih =>
      rw [run_cons, ih fun c hc => hi c (List.mem_cons_of_mem _ hc),
        procs_step_of_ne (hi c List.mem_cons_self).symm]

section Alone

variable {s : Config ι ρ σ ε α} {i : ι} {p q : Prog ρ σ ε α} {inTx : Bool}

theorem alone_publish (s : Config ι ρ σ ε α) (ws : List (Write ρ)) (q : Prog ρ σ ε α)
    (hlocks : ∀ l ∈ s.locks, l.proc = i) : Alone (s.publish i ws q) i q false := by
  obtain ⟨hprog, htx, hfree⟩ := alone_abandon s q hlocks
  exact ⟨hprog, htx, hfree⟩

theorem Alone.blocked_eq_false (h : Alone s i p inTx) (k : κ) (m : LockMode) :
    s.blocked i k m = false := by
  rw [blocked, List.any_eq_false]
  intro l hl
  simp [h.locks l hl]

theorem Alone.execute {st : Statement ρ σ β} {next : Except σ β → Prog ρ σ ε α}
    (h : Alone s i (.exec st next) true) (ws : List (Write ρ)) (sn : Store ρ) :
    (∃ b, Alone (s.execute i st next ws sn) i (next (.ok b)) true) ∨
      ∃ e, Alone (s.execute i st next ws sn) i (next (.error e)) false := by
  rcases s.execute_cases i st next ws sn with
    ⟨he, -⟩ | ⟨-, hblocked⟩ | ⟨-, -, -, ⟨e, -, he⟩ | ⟨c, b, -, he⟩⟩
  · exact Or.inl ⟨st.miss, he ▸ h.setProc _⟩
  · exact absurd hblocked (by simp [h.blocked_eq_false])
  · exact Or.inr ⟨e, he ▸ alone_abandon s _ h.locks⟩
  · exact Or.inl ⟨b, he ▸ (h.acquire _ _).setProc _⟩

theorem ended_of_advance {fault : ε} {s' : Config ι ρ σ ε α} (n : Nat) (hs' : s.advance i n = s')
    (h : ∃ fresh, Ended ((run fault s' (turns i fresh)).procs i).prog) :
    ∃ fresh, Ended ((run fault s (turns i fresh)).procs i).prog := by
  obtain ⟨fresh, hended⟩ := h
  subst hs'
  exact ⟨n :: fresh, hended⟩

theorem Alone.exists_ended {post : α → Bool → Prop} (h : Alone s i p inTx)
    (hp : Bracketed p post inTx) (fault : ε) :
    ∃ fresh, Ended ((run fault s (turns i fresh)).procs i).prog := by
  induction p generalizing s inTx with
  | ret a => exact ⟨[], .ok a, h.prog⟩
  | throw e => exact ⟨[], .error e, h.prog⟩
  | query f next ih =>
      refine ended_of_advance 0 (by simp only [Config.advance, h.prog]; rfl) ?_
      exact ih _ (h.setProc _) (h.tx ▸ hp _)
  | begin next ih =>
      obtain ⟨rfl, hnext⟩ := hp
      refine ended_of_advance 0 (by simp only [Config.advance, h.prog, h.tx_eq_none]; rfl) ?_
      exact ih (h.setProc _) hnext
  | commit next ih =>
      obtain ⟨rfl, hnext⟩ := hp
      obtain ⟨ws, hws⟩ := h.exists_tx
      refine ended_of_advance 0 (by simp only [Config.advance, h.prog, hws]; rfl) ?_
      exact ih (alone_publish s ws next h.locks) hnext
  | rollback next ih =>
      obtain ⟨rfl, hnext⟩ := hp
      obtain ⟨ws, hws⟩ := h.exists_tx
      refine ended_of_advance 0 (by simp only [Config.advance, h.prog, hws]; rfl) ?_
      exact ih (alone_abandon s next h.locks) hnext
  | alloc key next ih =>
      obtain ⟨rfl, hkey, hnext⟩ := hp
      obtain ⟨ws, hws⟩ := h.exists_tx
      obtain ⟨n, hn⟩ := exists_fresh s hkey
      refine ended_of_advance n (by simp only [Config.advance, h.prog, hws, if_pos hn]; rfl) ?_
      exact ih n ((h.acquire _ _).setProc _) (hnext n)
  | exec st next ih =>
      obtain ⟨rfl, hok, herror⟩ := hp
      have hexecute : ∀ {s : Config ι ρ σ ε α}, Alone s i (.exec st next) true → ∀ ws sn,
          (s.procs i).tx = some ws → (s.procs i).snapshot = some sn →
          ∃ fresh, Ended ((run fault s (turns i fresh)).procs i).prog := by
        intro s h ws sn hws hsn
        refine ended_of_advance 0 (by simp only [Config.advance, h.prog, hws, hsn]; rfl) ?_
        rcases h.execute ws sn with ⟨b, hb⟩ | ⟨e, he⟩
        · exact ih _ hb (hok b)
        · exact ih _ he (herror e)
      obtain ⟨ws, hws⟩ := h.exists_tx
      cases hsn : (s.procs i).snapshot with
      | some sn => exact hexecute h ws sn hws hsn
      | none =>
          refine ended_of_advance 0 (by simp only [Config.advance, h.prog, hws, hsn]; rfl) ?_
          exact hexecute (h.setProc _) ws (s.view i) (by rw [setProc_procs_self])
            (by rw [setProc_procs_self])

end Alone

-- from here on, programs are checked by the rules only
attribute [irreducible] Bracketed

end PersonalDashboard.SoloRuns
