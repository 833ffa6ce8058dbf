import PersonalDashboard.RowStatements

/-! Programs that alone change a row, whatever the other processes do to the other rows. -/

set_option autoImplicit false

namespace PersonalDashboard.SoleWriter

open PersonalDashboard.ReadCommitted
open PersonalDashboard.ReadCommitted.Config
open PersonalDashboard.RowStatements
open PersonalDashboard.RowStore

variable {κ : Type} [DecidableEq κ] {ρ : κ → Type} {σ ε α β : Type}

/-- What holds of an answer, of the version of a row that the open transaction reads, if there
is one, and of the committed version. -/
abbrev Post (ρ : κ → Type) (k : κ) (α : Type) :=
  α → Option (Option (ρ k)) → Option (ρ k) → Prop

/-- Every answer of a program satisfies the postcondition, as long as no other process changes
the row: `tx` is the version that its open transaction reads, and `row` the committed one. -/
def soleWp (k : κ) :
    Prog ρ σ ε α → Post ρ k α → Option (Option (ρ k)) → Option (ρ k) → Prop
  | .ret a, post, tx, row => post a tx row
  | .throw _, _, _, _ => True
  | .query f next, post, tx, row =>
      ∀ s : Store ρ, s.lookup k = tx.getD row → soleWp k (next (f s)) post tx row
  | .begin next, post, none, row => soleWp k next post (some row) row
  | .begin _, _, some _, _ => True
  | .commit next, post, some seen, _ => soleWp k next post none seen
  | .commit _, _, none, _ => True
  | .rollback next, post, some _, row => soleWp k next post none row
  | .rollback _, _, none, _ => True
  | .alloc _ next, post, some seen, row => ∀ n, soleWp k (next n) post (some seen) row
  | .alloc _ _, _, none, _ => True
  | .exec st next, post, some seen, row =>
      ∀ sn cur : Store ρ, sn.lookup k = seen → cur.lookup k = seen →
        (st.qualifies sn = false ∨ st.qualifies cur = false →
          soleWp k (next (.ok st.miss)) post (some seen) row) ∧
        (st.qualifies sn = true → st.qualifies cur = true →
          match st.hit sn cur with
          | .error e => soleWp k (next (.error e)) post none row
          | .ok (c, b) =>
              soleWp k (next (.ok b)) post (some ((c.apply cur).lookup k)) row)
  | .exec _ _, _, none, _ => True

section Soundness

variable {ι : Type} [DecidableEq ι] {k : κ} {s : Config ι ρ σ ε α} {i : ι}
  {post : α → Option (ρ k) → Prop}

structure Sole (k : κ) (i : ι) (post : α → Option (ρ k) → Prop) (s : Config ι ρ σ ε α) :
    Prop where
  wp : soleWp k (s.procs i).prog (fun a _ row => post a row)
    ((s.procs i).tx.map fun ws => (applyAll s.db ws).lookup k) (s.db.lookup k)
  snapshot : ∀ sn, (s.procs i).snapshot = some sn → sn.lookup k = (s.view i).lookup k

omit [DecidableEq ι] in
theorem Sole.frame (h : Sole k i post s) {s' : Config ι ρ σ ε α}
    (hproc : s'.procs i = s.procs i) (hrow : s'.db.lookup k = s.db.lookup k) :
    Sole k i post s' := by
  have hview : ∀ ws, (applyAll s'.db ws).lookup k = (applyAll s.db ws).lookup k :=
    fun ws => lookup_applyAll_congr hrow ws
  refine ⟨?_, fun sn hsn => ?_⟩
  · rw [hproc, hrow]
    simp only [hview]
    exact h.wp
  · rw [hproc] at hsn
    rw [h.snapshot sn hsn, Config.view, Config.view, hproc, hview]

omit [DecidableEq ι] in
theorem Sole.of_some (h : Sole k i post s) {ws : List (Write ρ)}
    (htx : (s.procs i).tx = some ws) :
    soleWp k (s.procs i).prog (fun a _ row => post a row)
      (some ((applyAll s.db ws).lookup k)) (s.db.lookup k) := by
  have hwp := h.wp
  rwa [htx, Option.map_some] at hwp

theorem sole_abandon {p : Prog ρ σ ε α}
    (h : soleWp k p (fun a _ row => post a row) none (s.db.lookup k)) :
    Sole k i post (s.abandon i p) := by
  refine ⟨?_, fun sn hsn => ?_⟩
  · rwa [abandon_procs_self, abandon_db]
  · rw [abandon_procs_self] at hsn
    cases hsn

theorem sole_setProc {p : Prog ρ σ ε α} {tx : Option (List (Write ρ))}
    (h : soleWp k p (fun a _ row => post a row)
      (tx.map fun ws => (applyAll s.db ws).lookup k) (s.db.lookup k)) :
    Sole k i post (s.setProc i ⟨p, tx, none⟩) := by
  refine ⟨?_, fun sn hsn => ?_⟩
  · rwa [setProc_procs_self, setProc_db]
  · rw [setProc_procs_self] at hsn
    cases hsn

theorem Sole.execute (h : Sole k i post s) {st : Statement ρ σ β}
    {next : Except σ β → Prog ρ σ ε α} {ws : List (Write ρ)} {sn : Store ρ}
    (hprog : (s.procs i).prog = .exec st next) (htx : (s.procs i).tx = some ws)
    (hsn : (s.procs i).snapshot = some sn) : Sole k i post (s.execute i st next ws sn) := by
  have hview : s.view i = applyAll s.db ws := by rw [Config.view, htx, Option.getD_some]
  have hwp := h.of_some htx
  rw [hprog] at hwp
  obtain ⟨hmiss, hhit⟩ := hwp sn (s.view i) (by rw [h.snapshot sn hsn, hview]) (by rw [hview])
  rcases s.execute_cases i st next ws sn with
    ⟨he, hq⟩ | ⟨he, -⟩ | ⟨hsnap, -, hcur, ⟨e, hr, he⟩ | ⟨c, b, hr, he⟩⟩ <;> rw [he]
  · exact sole_setProc (hmiss hq)
  · exact h
  · have hnext := hhit hsnap hcur
    rw [hr] at hnext
    exact sole_abandon hnext
  · have hnext := hhit hsnap hcur
    rw [hr] at hnext
    refine sole_setProc (s := s.acquire i st.row st.mode) ?_
    rw [Option.map_some, acquire_db, applyAll_append, ← hview]
    exact hnext

theorem Sole.advance (h : Sole k i post s) (fresh : Nat) : Sole k i post (s.advance i fresh) := by
  have hwp := h.wp
  unfold Config.advance
  split
  case h_1 hprog =>
    rw [hprog] at hwp
    exact sole_abandon hwp
  case h_2 => exact sole_abandon trivial
  case h_3 hprog =>
    rw [hprog] at hwp
    refine sole_setProc (hwp _ ?_)
    rw [Config.view]
    cases (s.procs i).tx with
    | none => rfl
    | some ws => rfl
  case h_4 hprog htx =>
    rw [hprog, htx] at hwp
    exact sole_setProc hwp
  case h_6 hprog htx =>
    rw [hprog, htx] at hwp
    refine ⟨?_, fun sn hsn => ?_⟩
    · rw [publish_procs_self, publish_db]
      exact hwp
    · rw [publish_procs_self] at hsn
      cases hsn
  case h_8 hprog htx =>
    rw [hprog, htx] at hwp
    exact sole_abandon hwp
  case h_10 hprog htx =>
    split
    · rw [hprog, htx] at hwp
      exact sole_setProc (s := s.acquire i _ _) (hwp fresh)
    · exact h
  case h_12 hprog htx =>
    split
    · refine ⟨?_, fun sn hsn => ?_⟩
      · rw [setProc_procs_self, setProc_db, ← hprog, ← htx]
        exact hwp
      · rw [setProc_procs_self] at hsn
        rw [← Option.some.inj hsn, Config.view, Config.view, setProc_procs_self, setProc_db, htx]
    · exact h.execute hprog htx ‹_›
  all_goals exact h

theorem Sole.step (h : Sole k i post s) (fault : ε) (a : Action) :
    Sole k i post (ReadCommitted.step fault s ⟨i, a⟩) := by
  rcases step_cases fault s ⟨i, a⟩ with ⟨fresh, -, he⟩ | he | ⟨-, -, he⟩ <;> rw [he]
  · exact h.advance fresh
  · exact h
  · exact sole_abandon trivial

def Untouched (k : κ) (i : ι) (s : Config ι ρ σ ε α) : Prop :=
  ∀ c ∈ s.commits, c.proc ≠ i → c.after.lookup k = c.before.lookup k

theorem Sole.step_of_untouched (h : Sole k i post s) (fault : ε) (c : Choice ι)
    (hu : Untouched k i (ReadCommitted.step fault s c)) :
    Sole k i post (ReadCommitted.step fault s c) := by
  by_cases hi : i = c.proc
  · obtain ⟨j, a⟩ := c
    obtain rfl : i = j := hi
    exact h.step fault a
  · refine h.frame (procs_step_of_ne hi fault) ?_
    rcases grows_step fault s c with ⟨hdb, -⟩ | hcommits
    · rw [hdb]
    · exact hu ⟨c.proc, s.db, _⟩ (hcommits ▸ List.mem_cons_self) (Ne.symm hi)

theorem Untouched.of_step (fault : ε) (c : Choice ι)
    (hu : Untouched k i (ReadCommitted.step fault s c)) : Untouched k i s := by
  intro c' hc'
  refine hu c' ?_
  rcases grows_step fault s c with ⟨-, hcommits⟩ | hcommits
  · rwa [hcommits]
  · rw [hcommits]
    exact List.mem_cons_of_mem _ hc'

theorem Sole.run (h : Sole k i post s) (fault : ε) (cs : List (Choice ι))
    (hu : Untouched k i (ReadCommitted.run fault s cs)) :
    Sole k i post (ReadCommitted.run fault s cs) := by
  induction cs using List.reverseRecOn with
  | nil => exact h
  | append_singleton cs c ih =>
      rw [run_append] at hu ⊢
      exact (ih (hu.of_step fault c)).step_of_untouched fault c hu

theorem post_of_run {db : Store ρ} {progs : ι → Prog ρ σ ε α} (fault : ε)
    (h : soleWp k (progs i) (fun a _ row => post a row) none (db.lookup k))
    (cs : List (Choice ι)) (hu : Untouched k i (ReadCommitted.run fault (start db progs) cs))
    {a : α} (hret : ((ReadCommitted.run fault (start db progs) cs).procs i).prog = .ret a) :
    post a ((ReadCommitted.run fault (start db progs) cs).db.lookup k) := by
  have hstart : Sole k i post (start db progs) := ⟨h, fun _ hsn => (nomatch hsn)⟩
  have hwp := (hstart.run fault cs hu).wp
  rwa [hret] at hwp

end Soundness

/-- In some run the program answers, and alone changes a row, which is `old` at the start and
`new` at the end. -/
def AnswersAlone (fault : ε) (k : κ) (p : Prog ρ σ ε α) (old new : Option (ρ k)) : Prop :=
  ∃ (ι : Type) (_ : DecidableEq ι) (db : Store ρ) (progs : ι → Prog ρ σ ε α) (i : ι)
    (cs : List (Choice ι)) (a : α),
    progs i = p ∧ db.lookup k = old ∧ Untouched k i (run fault (start db progs) cs) ∧
      ((run fault (start db progs) cs).procs i).prog = .ret a ∧
      (run fault (start db progs) cs).db.lookup k = new

theorem AnswersAlone.post {fault : ε} {k : κ} {p : Prog ρ σ ε α} {old new : Option (ρ k)}
    (h : AnswersAlone fault k p old new) {P : Option (ρ k) → Prop}
    (hwp : soleWp k p (fun _ _ row => P row) none old) : P new := by
  obtain ⟨ι, _, db, progs, i, cs, a, rfl, rfl, hu, hret, rfl⟩ := h
  have hpost : (fun (_ : α) row => P row) a ((run fault (start db progs) cs).db.lookup k) :=
    post_of_run fault hwp cs hu hret
  exact hpost

section Rules

variable {k : κ} {post : Post ρ k β} {tx : Option (Option (ρ k))} {seen row : Option (ρ k)}
  {toErr : σ → ε}

theorem sole_ofExcept {x : Except ε α} {next : α → Prog ρ σ ε β}
    (h : ∀ a, x = .ok a → soleWp k (next a) post tx row) :
    soleWp k ((ofExcept x).bind next) post tx row := by
  cases x with
  | error e => trivial
  | ok a => exact h a rfl

theorem sole_ofOption {e : ε} {x : Option α} {next : α → Prog ρ σ ε β}
    (h : ∀ a, x = some a → soleWp k (next a) post tx row) :
    soleWp k ((ofOption e x).bind next) post tx row := by
  cases x with
  | none => trivial
  | some a => exact h a rfl

theorem sole_failIf {c : Bool} {e : ε} {next : Unit → Prog ρ σ ε β}
    (h : soleWp k (next ()) post tx row) : soleWp k ((failIf c e).bind next) post tx row := by
  cases c with
  | true => trivial
  | false => exact h

theorem sole_whenever {c : Prop} [Decidable c] {p : Prog ρ σ ε Unit}
    {next : Unit → Prog ρ σ ε β}
    (hp : soleWp k (next ()) post tx row → soleWp k (p.bind next) post tx row)
    (h : soleWp k (next ()) post tx row) : soleWp k ((whenever c p).bind next) post tx row := by
  unfold whenever
  split
  · exact hp h
  · exact h

theorem sole_select {f : Store ρ → α} {next : α → Prog ρ σ ε β}
    (h : ∀ a, soleWp k (next a) post tx row) : soleWp k ((select f).bind next) post tx row :=
  fun s _ => h (f s)

theorem sole_beginTx {next : Unit → Prog ρ σ ε β}
    (h : soleWp k (next ()) post (some row) row) : soleWp k (beginTx.bind next) post none row :=
  h

theorem sole_commitTx {next : Unit → Prog ρ σ ε β} (h : soleWp k (next ()) post none seen) :
    soleWp k (commitTx.bind next) post (some seen) row :=
  h

theorem sole_execSql {st : Statement ρ σ α} {next : α → Prog ρ σ ε β}
    (hmiss : ∀ sn cur : Store ρ, sn.lookup k = seen → cur.lookup k = seen →
      (st.qualifies sn = false ∨ st.qualifies cur = false) →
      soleWp k (next st.miss) post (some seen) row)
    (hhit : ∀ sn cur : Store ρ, sn.lookup k = seen → cur.lookup k = seen →
      st.qualifies cur = true → ∀ c a, st.hit sn cur = .ok (c, a) →
      soleWp k (next a) post (some ((c.apply cur).lookup k)) row) :
    soleWp k ((execSql toErr st).bind next) post (some seen) row := by
  intro sn cur hsn hcur
  refine ⟨fun h => hmiss sn cur hsn hcur h, fun _ hq => ?_⟩
  split
  · trivial
  · exact hhit sn cur hsn hcur hq _ _ ‹_›

theorem sole_execSql_of_ne {st : Statement ρ σ α} {next : α → Prog ρ σ ε β} (hne : st.row ≠ k)
    (h : ∀ a, soleWp k (next a) post (some seen) row) :
    soleWp k ((execSql toErr st).bind next) post (some seen) row := by
  refine sole_execSql (fun _ _ _ _ _ => h _) fun sn cur _ hcur _ c a _ => ?_
  have hrow : (c.apply cur).lookup k = cur.lookup k :=
    lookup_applyAll_of_forall_ne
      (fun w hw hkey => hne ((Change.key_of_mem_writes hw).symm.trans hkey)) cur
  rw [hrow, hcur]
  exact h a

theorem sole_foreignKeyOpt {γ : Type} {violation : σ} {key : γ → κ} {x : Option γ}
    {next : Unit → Prog ρ σ ε β} (hne : ∀ c, key c ≠ k)
    (h : soleWp k (next ()) post (some seen) row) :
    soleWp k ((foreignKeyOpt toErr violation key x).bind next) post (some seen) row := by
  cases x with
  | none => exact h
  | some c =>
      simp only [foreignKeyOpt, foreignKey, Prog.bind_assoc]
      exact sole_execSql_of_ne (hne c) fun _ => sole_failIf h

theorem sole_fetchFor {mode : LockMode} {p : ρ k → Bool} {e : ε} {next : ρ k → Prog ρ σ ε β}
    (h : ∀ r, seen = some r → p r = true → soleWp k (next r) post (some seen) row) :
    soleWp k ((fetchOr toErr e (selectFor mode k p fun r => r)).bind next) post (some seen)
      row := by
  rw [fetchOr, Prog.bind_assoc]
  refine sole_execSql (fun _ _ _ _ _ => sole_ofOption fun _ ha => (nomatch ha)) ?_
  intro sn cur _ hcur hq c a hhit
  obtain ⟨r, hr, hp, rfl, rfl⟩ := selectFor_hit hq hhit
  have hrow : (Change.keep : Change ρ k).apply cur = cur := rfl
  refine sole_ofOption fun r' hr' => ?_
  obtain rfl := Option.some.inj hr'
  change soleWp k _ post (some (((Change.keep : Change ρ k).apply cur).lookup k)) row
  rw [hrow, hcur]
  exact h r (hcur.symm.trans hr) hp

theorem sole_updateRow {mode : LockMode} {hmode : mode.exclusive} {p : ρ k → Bool} {r r' : ρ k}
    {next : Option (ρ k) → Prog ρ σ ε β} (hp : p r = true)
    (h : soleWp k (next (some r')) post (some (some r')) row) :
    soleWp k ((execSql toErr (updateRow mode hmode k p fun _ _ => .ok r')).bind next) post
      (some (some r)) row := by
  have hfound : ∀ s : Store ρ, s.lookup k = some r → found k p s = true := fun s hs =>
    found_eq_true.mpr ⟨r, hs, hp⟩
  refine sole_execSql (fun sn cur hsn hcur hq => ?_) fun sn cur _ hcur _ c a hhit => ?_
  · have hboth : found k p sn = true ∧ found k p cur = true := ⟨hfound sn hsn, hfound cur hcur⟩
    rcases hq with hq | hq
    · rw [show found k p sn = false from hq] at hboth
      exact absurd hboth.1 Bool.false_ne_true
    · rw [show found k p cur = false from hq] at hboth
      exact absurd hboth.2 Bool.false_ne_true
  · simp only [updateRow, hcur, Except.map] at hhit
    obtain ⟨rfl, rfl⟩ := Prod.mk.inj (Except.ok.inj hhit)
    change soleWp k _ post (some ((put cur k (some r')).lookup k)) row
    rw [lookup_put_self]
    exact h

end Rules

end PersonalDashboard.SoleWriter
