import PersonalDashboard.RowStatements

/-! Laws of single rows over runs: a program that keeps every row it writes
within a law keeps all stored rows within it, in any interleaving. What a program
writes may rest on what it has read before, under a premise on the moment at
which the statement takes effect. -/

set_option autoImplicit false

namespace PersonalDashboard.RowInvariants

open PersonalDashboard.RowStore
open PersonalDashboard.ReadCommitted
open PersonalDashboard.RowStatements

variable {κ : Type} [DecidableEq κ] {ρ : κ → Type} {σ ε α β γ : Type}

def RowsOk (P : (k : κ) → ρ k → Prop) (s : Store ρ) : Prop :=
  ∀ k r, s.lookup k = some r → P k r

def WritesOk (P : (k : κ) → ρ k → Prop) (ws : List (Write ρ)) : Prop :=
  ∀ w ∈ ws, ∀ r, w.row = some r → P w.key r

def ChangeOk (P : (k : κ) → ρ k → Prop) {k : κ} (c : Change ρ k) : Prop :=
  ∀ r, c = .set r → P k r

section Rows

variable {P : (k : κ) → ρ k → Prop} {s : Store ρ}

theorem rowsOk_empty : RowsOk P (∅ : Store ρ) := by
  intro k r h
  rw [AList.lookup_empty] at h
  cases h

theorem RowsOk.put (h : RowsOk P s) {k : κ} {r : Option (ρ k)}
    (hr : ∀ r', r = some r' → P k r') : RowsOk P (put s k r) := by
  intro k' r' hr'
  by_cases hk : k' = k
  · subst hk
    rw [lookup_put_self] at hr'
    exact hr r' hr'
  · rw [lookup_put_of_ne hk] at hr'
    exact h k' r' hr'

theorem RowsOk.applyAll (h : RowsOk P s) {ws : List (Write ρ)} (hws : WritesOk P ws) :
    RowsOk P (applyAll s ws) := by
  induction ws generalizing s with
  | nil => exact h
  | cons w ws ih =>
      rw [applyAll_cons]
      exact ih (h.put (hws w List.mem_cons_self)) fun w' hw' =>
        hws w' (List.mem_cons_of_mem w hw')

omit [DecidableEq κ] in
theorem writesOk_nil : WritesOk P ([] : List (Write ρ)) := by
  intro w hw
  cases hw

omit [DecidableEq κ] in
theorem WritesOk.append {ws : List (Write ρ)} (hws : WritesOk P ws) {k : κ} {c : Change ρ k}
    (hc : ChangeOk P c) : WritesOk P (ws ++ c.writes) := by
  intro w hw r hr
  rcases List.mem_append.mp hw with hw | hw
  · exact hws w hw r hr
  · cases c with
    | keep => cases hw
    | set r' =>
        obtain rfl := List.mem_singleton.mp hw
        exact hc r (congrArg Change.set (Option.some.inj hr))
    | remove =>
        obtain rfl := List.mem_singleton.mp hw
        cases hr

end Rows

/-- The stores that the queries of a process have read so far, the oldest
first. -/
abbrev Reads (ρ : κ → Type) := List (Store ρ)

/-- What is assumed when a statement on a row takes effect: of the reads before
it, of its snapshot, and of the latest version of the store. -/
abbrev Premise (ρ : κ → Type) := Reads ρ → κ → Store ρ → Store ρ → Prop

def always : Premise ρ :=
  fun _ _ _ _ => True

/-- Whatever stores within the law a program reads, it only stores versions
within the law, and ends with what `post` demands. -/
def Keeps (P : (k : κ) → ρ k → Prop) (A : Premise ρ) :
    Prog ρ σ ε α → (α → Reads ρ → Prop) → Reads ρ → Prop
  | .ret a, post, seen => post a seen
  | .throw _, _, _ => True
  | .query f next, post, seen =>
      ∀ s, RowsOk P s → Keeps P A (next (f s)) post (seen ++ [s])
  | .begin next, post, seen => Keeps P A next post seen
  | .commit next, post, seen => Keeps P A next post seen
  | .rollback next, post, seen => Keeps P A next post seen
  | .alloc _ next, post, seen => ∀ n, Keeps P A (next n) post seen
  | .exec st next, post, seen =>
      (∀ e, Keeps P A (next (.error e)) post seen) ∧
      Keeps P A (next (.ok st.miss)) post seen ∧
      ∀ sn cur c b, RowsOk P sn → RowsOk P cur → st.qualifies cur = true →
        A seen st.row sn cur → st.hit sn cur = .ok (c, b) →
        ChangeOk P c ∧ Keeps P A (next (.ok b)) post seen

section Rules

variable {P : (k : κ) → ρ k → Prop} {A : Premise ρ} {seen : Reads ρ}

theorem keeps_bind (p : Prog ρ σ ε α) (f : α → Prog ρ σ ε β) (post : β → Reads ρ → Prop)
    (seen : Reads ρ) :
    Keeps P A (p.bind f) post seen ↔
      Keeps P A p (fun a seen => Keeps P A (f a) post seen) seen := by
  induction p generalizing seen with
  | ret a => exact Iff.rfl
  | throw e => exact Iff.rfl
  | query q next ih => exact forall_congr' fun s => imp_congr_right fun _ => ih _ _
  | begin next ih => exact ih _
  | commit next ih => exact ih _
  | rollback next ih => exact ih _
  | alloc key next ih => exact forall_congr' fun n => ih _ _
  | exec st next ih =>
      refine and_congr (forall_congr' fun e => ih _ _) (and_congr (ih _ _) ?_)
      refine forall_congr' fun sn => forall_congr' fun cur => forall_congr' fun c =>
        forall_congr' fun b => ?_
      simp only [ih]

theorem keeps_ret {a : α} {post : α → Reads ρ → Prop} (h : post a seen) :
    Keeps P A (.ret a : Prog ρ σ ε α) post seen :=
  h

theorem keeps_mono {p : Prog ρ σ ε α} {post post' : α → Reads ρ → Prop}
    (h : Keeps P A p post seen) (hpost : ∀ a seen, post a seen → post' a seen) :
    Keeps P A p post' seen := by
  induction p generalizing seen with
  | ret a => exact hpost a seen h
  | throw e => trivial
  | query q next ih => exact fun s hs => ih _ (h s hs)
  | begin next ih => exact ih h
  | commit next ih => exact ih h
  | rollback next ih => exact ih h
  | alloc key next ih => exact fun n => ih n (h n)
  | exec st next ih =>
      refine ⟨fun e => ih _ (h.1 e), ih _ h.2.1, ?_⟩
      intro sn cur c b hsn hcur hq ha hhit
      obtain ⟨hc, hnext⟩ := h.2.2 sn cur c b hsn hcur hq ha hhit
      exact ⟨hc, ih _ hnext⟩

theorem keeps_map {p : Prog ρ σ ε α} (h : Keeps P A p (fun _ _ => True) seen) (f : α → β) :
    Keeps P A (f <$> p) (fun _ _ => True) seen := by
  rw [Prog.map_eq, keeps_bind]
  exact keeps_mono h fun _ _ _ => trivial

-- The rules below run the first part of a program, and leave the rest to verify.

variable {toErr : σ → ε} {e : ε} {post : γ → Reads ρ → Prop} {k : κ} {p : ρ k → Bool}

theorem keeps_seq {q : Prog ρ σ ε β} {next : β → Prog ρ σ ε γ}
    (h : Keeps P A q (fun b seen => Keeps P A (next b) post seen) seen) :
    Keeps P A (q.bind next) post seen :=
  (keeps_bind _ _ _ _).mpr h

theorem keeps_select {f : Store ρ → β} {next : β → Prog ρ σ ε γ}
    (h : ∀ s, RowsOk P s → Keeps P A (next (f s)) post (seen ++ [s])) :
    Keeps P A ((select f).bind next) post seen :=
  keeps_seq h

theorem keeps_beginTx {next : Unit → Prog ρ σ ε γ} (h : Keeps P A (next ()) post seen) :
    Keeps P A (beginTx.bind next) post seen :=
  h

theorem keeps_commitTx {next : Unit → Prog ρ σ ε γ} (h : Keeps P A (next ()) post seen) :
    Keeps P A (commitTx.bind next) post seen :=
  h

theorem keeps_commit {post : Unit → Reads ρ → Prop} (h : post () seen) :
    Keeps P A (commitTx : Prog ρ σ ε Unit) post seen :=
  h

theorem keeps_freshId {key : Nat → κ} {next : Nat → Prog ρ σ ε γ}
    (h : ∀ n, Keeps P A (next n) post seen) : Keeps P A ((freshId key).bind next) post seen :=
  h

theorem keeps_failIf {c : Bool} {next : Unit → Prog ρ σ ε γ}
    (h : c = false → Keeps P A (next ()) post seen) :
    Keeps P A ((failIf c e).bind next) post seen := by
  cases c with
  | true => trivial
  | false => exact h rfl

theorem keeps_ofExcept {x : Except ε β} {next : β → Prog ρ σ ε γ}
    (h : ∀ b, x = .ok b → Keeps P A (next b) post seen) :
    Keeps P A ((ofExcept x).bind next) post seen := by
  cases x with
  | error e => trivial
  | ok b => exact h b rfl

theorem keeps_ofOption {x : Option β} {next : β → Prog ρ σ ε γ}
    (h : ∀ b, x = some b → Keeps P A (next b) post seen) :
    Keeps P A ((ofOption e x).bind next) post seen := by
  cases x with
  | none => trivial
  | some b => exact h b rfl

theorem keeps_whenever {c : Prop} [Decidable c] {q : Prog ρ σ ε Unit}
    {next : Unit → Prog ρ σ ε γ} (hq : c → Keeps P A (q.bind next) post seen)
    (h : ¬ c → Keeps P A (next ()) post seen) :
    Keeps P A ((whenever c q).bind next) post seen := by
  unfold whenever
  split
  · exact hq ‹_›
  · exact h ‹_›

theorem keeps_whenever_of {c : Prop} [Decidable c] {q : Prog ρ σ ε Unit}
    {next : Unit → Prog ρ σ ε γ}
    (hq : Keeps P A (next ()) post seen → Keeps P A (q.bind next) post seen)
    (h : Keeps P A (next ()) post seen) : Keeps P A ((whenever c q).bind next) post seen :=
  keeps_whenever (fun _ => hq h) fun _ => h

theorem keeps_execSql {st : Statement ρ σ β} {next : β → Prog ρ σ ε γ}
    (hmiss : Keeps P A (next st.miss) post seen)
    (hhit : ∀ sn cur c b, RowsOk P sn → RowsOk P cur → st.qualifies cur = true →
      A seen st.row sn cur → st.hit sn cur = .ok (c, b) →
      ChangeOk P c ∧ Keeps P A (next b) post seen) :
    Keeps P A ((execSql toErr st).bind next) post seen :=
  keeps_seq ⟨fun _ => trivial, hmiss, hhit⟩

theorem keeps_selectFor {mode : LockMode} {proj : ρ k → β} {next : Option β → Prog ρ σ ε γ}
    (hmiss : Keeps P A (next none) post seen)
    (hhit : ∀ r, P k r → p r = true → Keeps P A (next (some (proj r))) post seen) :
    Keeps P A ((execSql toErr (selectFor mode k p proj)).bind next) post seen := by
  refine keeps_execSql hmiss fun sn cur c b _ hcur hq _ h => ?_
  obtain ⟨r, hr, hp, rfl, rfl⟩ := selectFor_hit hq h
  exact ⟨fun _ hc => (nomatch hc), hhit r (hcur k r hr) hp⟩

theorem keeps_updateRow {mode : LockMode} {hmode : mode.exclusive}
    {f : Store ρ → ρ k → Except σ (ρ k)} {next : Option (ρ k) → Prog ρ σ ε γ}
    (hmiss : Keeps P A (next none) post seen)
    (hhit : ∀ sn cur r r', RowsOk P sn → cur.lookup k = some r → P k r → p r = true →
      A seen k sn cur → f sn r = .ok r' → P k r' ∧ Keeps P A (next (some r')) post seen) :
    Keeps P A ((execSql toErr (updateRow mode hmode k p f)).bind next) post seen := by
  refine keeps_execSql hmiss fun sn cur c b hsn hcur hq ha h => ?_
  obtain ⟨r, r', hr, hp, hf, rfl, rfl⟩ := updateRow_hit hq h
  obtain ⟨hr', hnext⟩ := hhit sn cur r r' hsn hr (hcur k r hr) hp ha hf
  refine ⟨fun r'' hc => ?_, hnext⟩
  obtain rfl := Change.set.inj hc
  exact hr'

theorem keeps_update {mode : LockMode} {hmode : mode.exclusive}
    {f : Store ρ → ρ k → Except σ (ρ k)} {next : Option (ρ k) → Prog ρ σ ε γ}
    (hf : ∀ sn cur r r', RowsOk P sn → cur.lookup k = some r → P k r → p r = true →
      A seen k sn cur → f sn r = .ok r' → P k r')
    (h : ∀ r, Keeps P A (next r) post seen) :
    Keeps P A ((execSql toErr (updateRow mode hmode k p f)).bind next) post seen :=
  keeps_updateRow (h none) fun sn cur r r' hsn hr hP hp ha hr' =>
    ⟨hf sn cur r r' hsn hr hP hp ha hr', h (some r')⟩

theorem keeps_deleteRow {next : Option (ρ k) → Prog ρ σ ε γ}
    (hmiss : Keeps P A (next none) post seen)
    (hhit : ∀ r, P k r → p r = true → Keeps P A (next (some r)) post seen) :
    Keeps P A ((execSql toErr (deleteRow k p)).bind next) post seen := by
  refine keeps_execSql hmiss fun sn cur c b _ hcur hq _ h => ?_
  obtain ⟨r, hr, hp, rfl, rfl⟩ := deleteRow_hit hq h
  exact ⟨fun _ hc => (nomatch hc), hhit r (hcur k r hr) hp⟩

theorem keeps_insertRow {constraints : Store ρ → Except σ Unit} {r : ρ k}
    {next : ρ k → Prog ρ σ ε γ} (hr : ∀ sn cur, A seen k sn cur → P k r)
    (h : Keeps P A (next r) post seen) :
    Keeps P A ((execSql toErr (insertRow k constraints r)).bind next) post seen := by
  refine keeps_execSql h fun sn cur c b _ _ _ ha hhit => ?_
  obtain ⟨-, rfl, rfl⟩ := insertRow_hit hhit
  refine ⟨fun r' hr' => ?_, h⟩
  obtain rfl := Change.set.inj hr'
  exact hr sn cur ha

theorem keeps_fetchFor {mode : LockMode} {proj : ρ k → β} {next : β → Prog ρ σ ε γ}
    (h : ∀ r, P k r → p r = true → Keeps P A (next (proj r)) post seen) :
    Keeps P A ((fetchOr toErr e (selectFor mode k p proj)).bind next) post seen := by
  rw [fetchOr, Prog.bind_assoc]
  exact keeps_selectFor trivial h

theorem keeps_fetchUpdate {mode : LockMode} {hmode : mode.exclusive}
    {f : Store ρ → ρ k → Except σ (ρ k)} {next : ρ k → Prog ρ σ ε γ}
    (h : ∀ sn cur r r', RowsOk P sn → cur.lookup k = some r → P k r → p r = true →
      A seen k sn cur → f sn r = .ok r' → P k r' ∧ Keeps P A (next r') post seen) :
    Keeps P A ((fetchOr toErr e (updateRow mode hmode k p f)).bind next) post seen := by
  rw [fetchOr, Prog.bind_assoc]
  exact keeps_updateRow trivial h

theorem keeps_fetchDelete {next : ρ k → Prog ρ σ ε γ}
    (h : ∀ r, P k r → p r = true → Keeps P A (next r) post seen) :
    Keeps P A ((fetchOr toErr e (deleteRow k p)).bind next) post seen := by
  rw [fetchOr, Prog.bind_assoc]
  exact keeps_deleteRow trivial h

theorem keeps_foreignKey {violation : σ} {next : Unit → Prog ρ σ ε γ}
    (h : Keeps P A (next ()) post seen) :
    Keeps P A ((foreignKey toErr violation k).bind next) post seen := by
  rw [foreignKey, Prog.bind_assoc]
  exact keeps_selectFor (keeps_failIf fun _ => h) fun _ _ _ => keeps_failIf fun _ => h

theorem keeps_foreignKeyOpt {violation : σ} {key : α → κ} {a : Option α}
    {next : Unit → Prog ρ σ ε γ} (h : Keeps P A (next ()) post seen) :
    Keeps P A ((foreignKeyOpt toErr violation key a).bind next) post seen := by
  cases a with
  | none => exact h
  | some a => exact keeps_foreignKey h

theorem keeps_updateAll {p : (k : κ) → ρ k → Bool} {f : (k : κ) → ρ k → ρ k}
    (hf : ∀ k r, P k r → p k r = true → P k (f k r)) {ks : List κ}
    {next : Unit → Prog ρ σ ε γ} (h : Keeps P A (next ()) post seen) :
    Keeps P A ((updateAll toErr p f ks).bind next) post seen := by
  induction ks with
  | nil => exact h
  | cons k ks ih =>
      rw [updateAll, Prog.bind_assoc]
      refine keeps_update (fun _ _ r r' _ _ hr hp _ hr' => ?_) fun _ => ih
      rw [← Except.ok.inj hr']
      exact hf k r hr hp

theorem keeps_updateWhere {p : (k : κ) → ρ k → Bool} {f : (k : κ) → ρ k → ρ k}
    (hf : ∀ k r, P k r → p k r = true → P k (f k r)) {next : Unit → Prog ρ σ ε γ}
    (h : ∀ s, Keeps P A (next ()) post (seen ++ [s])) :
    Keeps P A ((updateWhere toErr p f).bind next) post seen := by
  rw [updateWhere, Prog.bind_assoc]
  exact keeps_select fun s _ => keeps_updateAll hf (h s)

end Rules

/-- The program has no statement that could lock or write a row. -/
def ReadOnly : Prog ρ σ ε α → Prop
  | .ret _ | .throw _ => True
  | .query _ next => ∀ b, ReadOnly (next b)
  | _ => False

section

omit [DecidableEq κ]

theorem readOnly_select (f : Store ρ → β) : ReadOnly (select f : Prog ρ σ ε β) :=
  fun _ => trivial

theorem readOnly_failIf (c : Bool) (e : ε) : ReadOnly (failIf c e : Prog ρ σ ε Unit) := by
  cases c <;> trivial

theorem readOnly_whenever {c : Prop} [Decidable c] {q : Prog ρ σ ε Unit} (h : ReadOnly q) :
    ReadOnly (whenever c q) := by
  unfold whenever
  split
  · exact h
  · trivial

theorem ReadOnly.bind {p : Prog ρ σ ε α} {f : α → Prog ρ σ ε β} (h : ReadOnly p)
    (hf : ∀ a, ReadOnly (f a)) : ReadOnly (p.bind f) := by
  induction p with
  | ret a => exact hf a
  | throw e => trivial
  | query q next ih => exact fun b => ih b (h b)
  | begin | commit | rollback | alloc | exec => cases h

end

/-- Whatever a program that only reads has found, the rest runs after more
reads. -/
theorem keeps_readOnly {P : (k : κ) → ρ k → Prop} {A : Premise ρ} {q : Prog ρ σ ε β}
    (hq : ReadOnly q) {next : β → Prog ρ σ ε γ} {post : γ → Reads ρ → Prop} {seen : Reads ρ}
    (h : ∀ b more, Keeps P A (next b) post (seen ++ more)) : Keeps P A (q.bind next) post seen := by
  induction q generalizing seen with
  | ret b => simpa using h b []
  | throw e => trivial
  | query f next' ih =>
      refine fun s _ => ih _ (hq _) fun b more => ?_
      rw [List.append_assoc]
      exact h b _
  | begin | commit | rollback | alloc | exec => cases hq

section Runs

variable {ι : Type} [DecidableEq ι]

def nextReads (s : Config ι ρ σ ε α) (c : Choice ι) (seen : ι → Reads ρ) : ι → Reads ρ :=
  match c.action, (s.procs c.proc).prog with
  | .advance _, .query _ _ => Function.update seen c.proc (seen c.proc ++ [s.view c.proc])
  | _, _ => seen

/-- If the next step is a statement that takes effect on a row, its premise
holds. -/
def PremiseHolds (A : ι → Premise ρ) (s : Config ι ρ σ ε α) (seen : ι → Reads ρ)
    (c : Choice ι) : Prop :=
  match c.action, (s.procs c.proc).prog, (s.procs c.proc).tx, (s.procs c.proc).snapshot with
  | .advance _, .exec st _, some _, some sn =>
      st.qualifies sn = true → s.blocked c.proc st.row st.mode = false →
        st.qualifies (s.view c.proc) = true → A c.proc (seen c.proc) st.row sn (s.view c.proc)
  | _, _, _, _ => True

def PremisesHold (fault : ε) (A : ι → Premise ρ) :
    Config ι ρ σ ε α → (ι → Reads ρ) → List (Choice ι) → Prop
  | _, _, [] => True
  | s, seen, c :: cs =>
      PremiseHolds A s seen c ∧ PremisesHold fault A (step fault s c) (nextReads s c seen) cs

theorem premisesHold_always (fault : ε) (s : Config ι ρ σ ε α) (seen : ι → Reads ρ)
    (cs : List (Choice ι)) : PremisesHold fault (fun _ => always) s seen cs := by
  induction cs generalizing s seen with
  | nil => trivial
  | cons c cs ih =>
      refine ⟨?_, ih _ _⟩
      unfold PremiseHolds
      split
      · exact fun _ _ _ => trivial
      · trivial

instance (A : ι → Premise ρ) [∀ i seen k sn cur, Decidable (A i seen k sn cur)]
    (s : Config ι ρ σ ε α) (seen : ι → Reads ρ) (c : Choice ι) :
    Decidable (PremiseHolds A s seen c) := by
  unfold PremiseHolds
  split <;> infer_instance

instance decidablePremisesHold (fault : ε) (A : ι → Premise ρ)
    [∀ i seen k sn cur, Decidable (A i seen k sn cur)] :
    (s : Config ι ρ σ ε α) → (seen : ι → Reads ρ) → (cs : List (Choice ι)) →
      Decidable (PremisesHold fault A s seen cs)
  | _, _, [] => .isTrue trivial
  | s, seen, c :: cs =>
      have := decidablePremisesHold fault A (step fault s c) (nextReads s c seen) cs
      inferInstanceAs (Decidable (_ ∧ _))

/-- Every stored, pending or snapshotted row is within the law, and every
process keeps it so. -/
structure Lawful (P : (k : κ) → ρ k → Prop) (A : ι → Premise ρ) (s : Config ι ρ σ ε α)
    (seen : ι → Reads ρ) : Prop where
  db : RowsOk P s.db
  pending : ∀ i, WritesOk P ((s.procs i).tx.getD [])
  snapshots : ∀ i sn, (s.procs i).snapshot = some sn → RowsOk P sn
  progs : ∀ i, Keeps P (A i) (s.procs i).prog (fun _ _ => True) (seen i)

variable {P : (k : κ) → ρ k → Prop} {A : ι → Premise ρ} {s : Config ι ρ σ ε α}
  {seen : ι → Reads ρ}

omit [DecidableEq ι] in
theorem lawful_start {db : Store ρ} (hdb : RowsOk P db) {progs : ι → Prog ρ σ ε α}
    (h : ∀ i, Keeps P (A i) (progs i) (fun _ _ => True) []) :
    Lawful P A (start db progs) fun _ => [] :=
  ⟨hdb, fun _ => writesOk_nil, fun _ _ hsn => (nomatch hsn), h⟩

omit [DecidableEq ι] in
theorem Lawful.view (h : Lawful P A s seen) (i : ι) : RowsOk P (s.view i) :=
  h.db.applyAll (h.pending i)

theorem Lawful.update {s' : Config ι ρ σ ε α} {seen' : ι → Reads ρ} (h : Lawful P A s seen)
    (i : ι) (hothers : ∀ j, j ≠ i → s'.procs j = s.procs j ∧ seen' j = seen j)
    (hdb : RowsOk P s'.db) (hpending : WritesOk P ((s'.procs i).tx.getD []))
    (hsnapshot : ∀ sn, (s'.procs i).snapshot = some sn → RowsOk P sn)
    (hprog : Keeps P (A i) (s'.procs i).prog (fun _ _ => True) (seen' i)) :
    Lawful P A s' seen' := by
  refine ⟨hdb, fun j => ?_, fun j => ?_, fun j => ?_⟩ <;> by_cases hj : j = i
  · exact hj ▸ hpending
  · rw [(hothers j hj).1]
    exact h.pending j
  · exact hj ▸ hsnapshot
  · rw [(hothers j hj).1]
    exact h.snapshots j
  · exact hj ▸ hprog
  · rw [(hothers j hj).1, (hothers j hj).2]
    exact h.progs j

theorem Lawful.setProc (h : Lawful P A s seen) {i : ι} {p : Prog ρ σ ε α}
    {tx : Option (List (Write ρ))} (htx : WritesOk P (tx.getD []))
    (hp : Keeps P (A i) p (fun _ _ => True) (seen i)) :
    Lawful P A (s.setProc i ⟨p, tx, none⟩) seen := by
  refine h.update i (fun j hj => ⟨Config.setProc_procs_of_ne _ _ hj _, rfl⟩) h.db ?_ ?_ ?_
  · rwa [Config.setProc_procs_self]
  · rw [Config.setProc_procs_self]
    exact fun _ hsn => (nomatch hsn)
  · rwa [Config.setProc_procs_self]

theorem Lawful.abandon (h : Lawful P A s seen) {i : ι} {p : Prog ρ σ ε α}
    (hp : Keeps P (A i) p (fun _ _ => True) (seen i)) : Lawful P A (s.abandon i p) seen := by
  refine h.update i (fun j hj => ⟨Config.abandon_procs_of_ne _ _ hj _, rfl⟩) h.db ?_ ?_ ?_
  · rw [Config.abandon_procs_self]
    exact writesOk_nil
  · rw [Config.abandon_procs_self]
    exact fun _ hsn => (nomatch hsn)
  · rwa [Config.abandon_procs_self]

theorem Lawful.publish (h : Lawful P A s seen) {i : ι} {ws : List (Write ρ)}
    (hws : (s.procs i).tx = some ws) {p : Prog ρ σ ε α}
    (hp : Keeps P (A i) p (fun _ _ => True) (seen i)) : Lawful P A (s.publish i ws p) seen := by
  have hpending := h.pending i
  rw [hws] at hpending
  refine h.update i (fun j hj => ⟨Config.publish_procs_of_ne _ _ _ _ hj, rfl⟩)
    (h.db.applyAll hpending) ?_ ?_ ?_
  · rw [Config.publish_procs_self]
    exact writesOk_nil
  · rw [Config.publish_procs_self]
    exact fun _ hsn => (nomatch hsn)
  · rwa [Config.publish_procs_self]

omit [DecidableEq ι] in
theorem Lawful.acquire (h : Lawful P A s seen) (i : ι) (k : κ) (m : LockMode) :
    Lawful P A (s.acquire i k m) seen :=
  ⟨h.db, h.pending, h.snapshots, h.progs⟩

theorem Lawful.execute (h : Lawful P A s seen) {i : ι} {st : Statement ρ σ β}
    {next : Except σ β → Prog ρ σ ε α} {ws : List (Write ρ)} {sn : Store ρ}
    (hprog : (s.procs i).prog = .exec st next) (htx : (s.procs i).tx = some ws)
    (hsn : (s.procs i).snapshot = some sn)
    (ha : st.qualifies sn = true → s.blocked i st.row st.mode = false →
      st.qualifies (s.view i) = true → A i (seen i) st.row sn (s.view i)) :
    Lawful P A (s.execute i st next ws sn) seen := by
  have hkeeps := h.progs i
  rw [hprog] at hkeeps
  obtain ⟨herror, hmiss, hhit⟩ := hkeeps
  have hws := h.pending i
  rw [htx] at hws
  rcases s.execute_cases i st next ws sn with
    ⟨he, -⟩ | ⟨he, -⟩ | ⟨hq, hfree, hq', ⟨e, -, he⟩ | ⟨c, b, hres, he⟩⟩ <;> rw [he]
  · exact h.setProc hws hmiss
  · exact h
  · exact h.abandon (herror _)
  · obtain ⟨hc, hnext⟩ := hhit sn _ c b (h.snapshots i sn hsn) (h.view i) hq'
      (ha hq hfree hq') hres
    exact (h.acquire i st.row st.mode).setProc (hws.append hc) hnext

theorem Lawful.query (h : Lawful P A s seen) {i : ι} {f : Store ρ → β}
    {next : β → Prog ρ σ ε α} (hprog : (s.procs i).prog = .query f next) :
    Lawful P A (s.setProc i ⟨next (f (s.view i)), (s.procs i).tx, none⟩)
      (Function.update seen i (seen i ++ [s.view i])) := by
  have hkeeps := h.progs i
  rw [hprog] at hkeeps
  refine h.update i (fun j hj => ⟨Config.setProc_procs_of_ne _ _ hj _, ?_⟩) h.db ?_ ?_ ?_
  · exact Function.update_of_ne hj _ _
  · rw [Config.setProc_procs_self]
    exact h.pending i
  · rw [Config.setProc_procs_self]
    exact fun _ hsn => (nomatch hsn)
  · rw [Config.setProc_procs_self, Function.update_self]
    exact hkeeps _ (h.view i)

theorem Lawful.takeSnapshot (h : Lawful P A s seen) (i : ι) :
    Lawful P A (s.setProc i ⟨(s.procs i).prog, (s.procs i).tx, some (s.view i)⟩) seen := by
  refine h.update i (fun j hj => ⟨Config.setProc_procs_of_ne _ _ hj _, rfl⟩) h.db ?_ ?_ ?_
  · rw [Config.setProc_procs_self]
    exact h.pending i
  · rw [Config.setProc_procs_self]
    intro sn hsn
    rw [← Option.some.inj hsn]
    exact h.view i
  · rw [Config.setProc_procs_self]
    exact h.progs i

theorem nextReads_of_ne {c : Choice ι} (hprog : ∀ {β : Type} (f : Store ρ → β) next,
    (s.procs c.proc).prog ≠ .query f next) : nextReads s c seen = seen := by
  unfold nextReads
  split
  · rename_i h
    exact absurd h (hprog _ _)
  · rfl

theorem Lawful.advance (h : Lawful P A s seen) {i : ι} {fresh : Nat}
    (ha : PremiseHolds A s seen ⟨i, .advance fresh⟩) :
    Lawful P A (s.advance i fresh) (nextReads s ⟨i, .advance fresh⟩ seen) := by
  have hkeeps := h.progs i
  have hpending := h.pending i
  cases hprog : (s.procs i).prog with
  | query f next =>
      have hreads : nextReads s ⟨i, .advance fresh⟩ seen =
          Function.update seen i (seen i ++ [s.view i]) := by
        simp only [nextReads, hprog]
      rw [hreads]
      simpa only [Config.advance, hprog] using h.query hprog
  | ret a =>
      rw [nextReads_of_ne (by simp [hprog])]
      simpa only [Config.advance, hprog] using h.abandon (hprog ▸ hkeeps)
  | throw e =>
      rw [nextReads_of_ne (by simp [hprog])]
      simpa only [Config.advance, hprog] using h.abandon (hprog ▸ hkeeps)
  | begin next =>
      rw [nextReads_of_ne (by simp [hprog])]
      rw [hprog] at hkeeps
      cases htx : (s.procs i).tx with
      | none =>
          have hnext : Lawful P A (s.setProc i ⟨next, some [], none⟩) seen :=
            h.setProc writesOk_nil hkeeps
          simpa only [Config.advance, hprog, htx] using hnext
      | some ws => simpa only [Config.advance, hprog, htx] using h
  | commit next =>
      rw [nextReads_of_ne (by simp [hprog])]
      rw [hprog] at hkeeps
      cases htx : (s.procs i).tx with
      | none => simpa only [Config.advance, hprog, htx] using h
      | some ws => simpa only [Config.advance, hprog, htx] using h.publish (p := next) htx hkeeps
  | rollback next =>
      rw [nextReads_of_ne (by simp [hprog])]
      rw [hprog] at hkeeps
      cases htx : (s.procs i).tx with
      | none => simpa only [Config.advance, hprog, htx] using h
      | some ws => simpa only [Config.advance, hprog, htx] using h.abandon (p := next) hkeeps
  | alloc key next =>
      rw [nextReads_of_ne (by simp [hprog])]
      rw [hprog] at hkeeps
      cases htx : (s.procs i).tx with
      | none => simpa only [Config.advance, hprog, htx] using h
      | some ws =>
          rw [htx] at hpending
          simp only [Config.advance, hprog, htx]
          split
          · exact (h.acquire i (key fresh) .update).setProc hpending (hkeeps fresh)
          · exact h
  | exec st next =>
      rw [nextReads_of_ne (by simp [hprog])]
      cases htx : (s.procs i).tx with
      | none => simpa only [Config.advance, hprog, htx] using h
      | some ws =>
          cases hsn : (s.procs i).snapshot with
          | none =>
              have hsnap := h.takeSnapshot i
              rw [hprog, htx] at hsnap
              simpa only [Config.advance, hprog, htx, hsn] using hsnap
          | some sn =>
              simp only [Config.advance, hprog, htx, hsn]
              refine h.execute hprog htx hsn ?_
              simpa only [PremiseHolds, hprog, htx, hsn] using ha

theorem Lawful.step (h : Lawful P A s seen) (fault : ε) {c : Choice ι}
    (ha : PremiseHolds A s seen c) : Lawful P A (step fault s c) (nextReads s c seen) := by
  obtain ⟨i, action⟩ := c
  cases action with
  | advance fresh => exact h.advance ha
  | fail =>
      have hreads : nextReads s ⟨i, .fail⟩ seen = seen := rfl
      rw [hreads]
      unfold ReadCommitted.step
      dsimp only
      split
      · exact h
      · exact h
      · exact h.abandon trivial

theorem Lawful.run (h : Lawful P A s seen) (fault : ε) {cs : List (Choice ι)}
    (ha : PremisesHold fault A s seen cs) : RowsOk P (run fault s cs).db := by
  induction cs generalizing s seen with
  | nil => exact h.db
  | cons c cs ih => exact ih (h.step fault ha.1) ha.2

end Runs

attribute [irreducible] Keeps

end PersonalDashboard.RowInvariants
