import PersonalDashboard.RowStatements

/-! Histories of the committed rows: how the versions of a row may follow each other in a
run, which changes each process may commit given the committed stores that it has read, and
what a program may conclude from its reads about the stores after them. -/

set_option autoImplicit false

namespace PersonalDashboard.RowHistories

open PersonalDashboard.ReadCommitted
open PersonalDashboard.ReadCommitted.Config
open PersonalDashboard.RowStatements
open PersonalDashboard.RowStore

/-- What the processes agree on: how a row may change over time, and which single changes of it
a process may make once it has read the given committed stores. -/
structure Discipline (ι : Type) {κ : Type} (ρ : κ → Type) where
  Evolves : (k : κ) → Option (ρ k) → Option (ρ k) → Prop
  Allows : ι → List (Store ρ) → (k : κ) → Option (ρ k) → Option (ρ k) → Prop
  evolves_refl : ∀ k r, Evolves k r r
  evolves_trans : ∀ {k r r' r''}, Evolves k r r' → Evolves k r' r'' → Evolves k r r''
  allows_mono : ∀ {i seen seen' k r r'},
    seen ⊆ seen' → Allows i seen k r r' → Allows i seen' k r r'
  evolves_of_allows : ∀ {i seen k r r'}, Allows i seen k r r' → Evolves k r r'

variable {ι κ : Type} {ρ : κ → Type} {σ ε α β γ : Type}

/-- What a process knows: the committed stores that it has read, the oldest first, the store
that it has looked at last, and, inside a transaction, the store before it and the rows that it
has locked against writers. -/
structure Knowledge (ρ : κ → Type) where
  seen : List (Store ρ) := []
  last : Store ρ
  tx : Option (Store ρ × List κ) := none

namespace Knowledge

variable (K : Knowledge ρ)

def rows : List κ :=
  (K.tx.map Prod.snd).getD []

def bound : Store ρ :=
  (K.tx.map Prod.fst).getD K.last

/-- The process has read a store, which is a committed one when it has no changes of its own. -/
def saw (s : Store ρ) : Knowledge ρ :=
  { K with seen := if K.rows.isEmpty then K.seen ++ [s] else K.seen }

def look (s : Store ρ) : Knowledge ρ :=
  { K with last := s }

def read (s : Store ρ) : Knowledge ρ :=
  (K.saw s).look s

def beginTx : Knowledge ρ :=
  { K with tx := some (K.last, []) }

def commitTx : Knowledge ρ :=
  { K with tx := none }

def abort : Knowledge ρ :=
  { K with last := K.bound, tx := none }

def hold (k : κ) (s : Store ρ) : Knowledge ρ :=
  { K with last := s, tx := K.tx.map fun t => (t.1, k :: t.2) }

@[simp] theorem abort_seen : K.abort.seen = K.seen := rfl
@[simp] theorem abort_bound : K.abort.bound = K.bound := rfl
@[simp] theorem abort_rows : K.abort.rows = [] := rfl
@[simp] theorem saw_rows (s : Store ρ) : (K.saw s).rows = K.rows := rfl
@[simp] theorem saw_last (s : Store ρ) : (K.saw s).last = K.last := rfl
@[simp] theorem saw_tx (s : Store ρ) : (K.saw s).tx = K.tx := rfl
@[simp] theorem saw_bound (s : Store ρ) : (K.saw s).bound = K.bound := rfl
@[simp] theorem look_rows (s : Store ρ) : (K.look s).rows = K.rows := rfl
@[simp] theorem look_last (s : Store ρ) : (K.look s).last = s := rfl
@[simp] theorem look_seen (s : Store ρ) : (K.look s).seen = K.seen := rfl
@[simp] theorem read_rows (s : Store ρ) : (K.read s).rows = K.rows := rfl

theorem rows_of_tx_none (h : K.tx = none) : K.rows = [] := by
  rw [rows, h]
  rfl

theorem bound_of_tx_none (h : K.tx = none) : K.bound = K.last := by
  rw [bound, h]
  rfl

theorem seen_subset_saw (s : Store ρ) : K.seen ⊆ (K.saw s).seen := by
  unfold saw
  split
  · exact List.subset_append_left _ _
  · exact List.Subset.refl _

theorem mem_seen_saw {s t : Store ρ} (h : t ∈ (K.saw s).seen) :
    t ∈ K.seen ∨ K.rows = [] ∧ t = s := by
  unfold saw at h
  split at h
  · rename_i hrows
    rcases List.mem_append.mp h with h | h
    · exact Or.inl h
    · exact Or.inr ⟨List.isEmpty_iff.mp hrows, List.mem_singleton.mp h⟩
  · exact Or.inl h

theorem mem_rows_hold {k : κ} {s : Store ρ} (h : K.tx.isSome) : k ∈ (K.hold k s).rows := by
  obtain ⟨o, ho⟩ := Option.isSome_iff_exists.mp h
  rw [rows, hold, ho]
  exact List.mem_cons_self

theorem mem_seen_saw_self {s : Store ρ} (h : K.rows = []) : s ∈ (K.saw s).seen := by
  rw [saw, h]
  exact List.mem_append_right _ (List.mem_singleton_self s)

end Knowledge

/-- What holds of the result of a program and of what its process knows at the end. -/
abbrev Post (ρ : κ → Type) (ε α : Type) :=
  Except ε α → Knowledge ρ → Prop

def Post.MayEnd (post : Post ρ ε α) (r : Except ε α) (K : Knowledge ρ) : Prop :=
  ∀ K', K.seen ⊆ K'.seen → post r K'

theorem Post.MayEnd.mono {post : Post ρ ε α} {r : Except ε α} {K K' : Knowledge ρ}
    (h : post.MayEnd r K) (hsub : K.seen ⊆ K'.seen) : post.MayEnd r K' :=
  fun K'' hsub' => h K'' (List.Subset.trans hsub hsub')

theorem Post.MayEnd.now {post : Post ρ ε α} {r : Except ε α} {K : Knowledge ρ}
    (h : post.MayEnd r K) : post r K :=
  h K (List.Subset.refl _)

namespace Discipline

variable (D : Discipline ι ρ)

/-- The changes of a row that a process may make, one after the other. -/
def Makes (D : Discipline ι ρ) (i : ι) (seen : List (Store ρ)) (k : κ) :
    Option (ρ k) → Option (ρ k) → Prop :=
  Relation.ReflTransGen (D.Allows i seen k)

theorem Makes.mono {D : Discipline ι ρ} {i : ι} {seen seen' : List (Store ρ)} {k : κ}
    {r r' : Option (ρ k)} (h : D.Makes i seen k r r') (hsub : seen ⊆ seen') :
    D.Makes i seen' k r r' :=
  Relation.ReflTransGen.mono (fun _ _ => D.allows_mono hsub) _ _ h

theorem Makes.evolves {D : Discipline ι ρ} {i : ι} {seen : List (Store ρ)} {k : κ}
    {r r' : Option (ρ k)} (h : D.Makes i seen k r r') : D.Evolves k r r' := by
  induction h with
  | refl => exact D.evolves_refl k r
  | tail _ hstep ih => exact D.evolves_trans ih (D.evolves_of_allows hstep)

def Owns (locks : List (Lock ι κ)) (i : ι) (k : κ) : Prop :=
  ∃ l ∈ locks, l.proc = i ∧ l.key = k ∧ l.mode.exclusive

theorem Owns.mono {i : ι} {locks locks' : List (Lock ι κ)} {k : κ} (h : Owns locks i k)
    (hsub : locks ⊆ locks') : Owns locks' i k := by
  obtain ⟨l, hl, hrest⟩ := h
  exact ⟨l, hsub hl, hrest⟩

theorem Owns.release [DecidableEq ι] {i : ι} {locks : List (Lock ι κ)} {j : ι} {k : κ}
    (h : Owns locks j k) (hij : j ≠ i) : Owns (locks.filter fun l => l.proc ≠ i) j k := by
  obtain ⟨l, hl, hproc, hrest⟩ := h
  exact ⟨l, List.mem_filter.mpr ⟨hl, by simpa [hproc] using hij⟩, hproc, hrest⟩

theorem Owns.unique {locks : List (Lock ι κ)} (hexcl : Exclusive locks) {i j : ι} {k : κ}
    (hi : Owns locks i k) (hj : Owns locks j k) : i = j := by
  obtain ⟨l, hl, rfl, hkey, hmode⟩ := hi
  obtain ⟨l', hl', rfl, hkey', hmode'⟩ := hj
  by_contra hne
  have hfree := hexcl l hl l' hl' (hkey.trans hkey'.symm) hne
  rw [LockMode.conflicts_of_exclusive hmode hmode'] at hfree
  cases hfree

variable [DecidableEq κ]

/-- One store comes later than another, and the given rows have not changed between them. -/
structure Later (rows : List κ) (s t : Store ρ) : Prop where
  kept : ∀ k ∈ rows, t.lookup k = s.lookup k
  evolves : ∀ k, D.Evolves k (s.lookup k) (t.lookup k)

variable {D}

theorem Later.refl (rows : List κ) (s : Store ρ) : D.Later rows s s :=
  ⟨fun _ _ => rfl, fun k => D.evolves_refl k _⟩

theorem Later.trans {rows : List κ} {s t u : Store ρ} (h : D.Later rows s t)
    (h' : D.Later rows t u) : D.Later rows s u :=
  ⟨fun k hk => (h'.kept k hk).trans (h.kept k hk), fun k =>
    D.evolves_trans (h.evolves k) (h'.evolves k)⟩

theorem Later.mono {rows rows' : List κ} {s t : Store ρ} (h : D.Later rows s t)
    (hsub : rows' ⊆ rows) : D.Later rows' s t :=
  ⟨fun k hk => h.kept k (hsub hk), h.evolves⟩

theorem Later.forget {rows : List κ} {s t : Store ρ} (h : D.Later rows s t) : D.Later [] s t :=
  h.mono (List.nil_subset _)

/-- Every result of a program satisfies the postcondition, and every change that it makes is
allowed, whatever the other processes do to the rows in the meantime. -/
def Follows (D : Discipline ι ρ) (i : ι) : Prog ρ σ ε α → Post ρ ε α → Knowledge ρ → Prop
  | .ret a, post, K => post (.ok a) K
  | .throw e, post, K => post (.error e) K
  | .query f next, post, K =>
      ∀ s, D.Later K.rows K.last s → D.Follows i (next (f s)) post (K.read s)
  | .begin next, post, K => K.tx = none → D.Follows i next post K.beginTx
  | .commit next, post, K => D.Follows i next post K.commitTx
  | .rollback next, post, K => D.Follows i next post K.abort
  | .alloc key next, post, K =>
      ∀ n s, D.Later K.rows K.last s → s.lookup (key n) = none →
        D.Follows i (next n) post (K.hold (key n) s)
  | .exec st next, post, K =>
      ∀ sn cur, D.Later K.rows K.last sn → D.Later K.rows sn cur →
        (st.qualifies sn = false ∨ st.qualifies cur = false →
          D.Follows i (next (.ok st.miss)) post ((K.saw sn).look cur)) ∧
        (st.qualifies sn = true → st.qualifies cur = true →
          match st.hit sn cur with
          | .error e => D.Follows i (next (.error e)) post (K.saw sn).abort
          | .ok (c, b) =>
              D.Makes i (K.saw sn).seen st.row (cur.lookup st.row)
                ((c.apply cur).lookup st.row) ∧
              D.Follows i (next (.ok b)) post
                (if st.mode.exclusive then (K.saw sn).hold st.row (c.apply cur)
                else (K.saw sn).look cur))

variable {i : ι} {K : Knowledge ρ}

def andThen (D : Discipline ι ρ) (i : ι) (f : α → Prog ρ σ ε β) (post : Post ρ ε β) :
    Post ρ ε α
  | .ok a, K => D.Follows i (f a) post K
  | .error e, K => post (.error e) K

theorem follows_bind (p : Prog ρ σ ε α) (f : α → Prog ρ σ ε β) (post : Post ρ ε β)
    (K : Knowledge ρ) :
    D.Follows i (p.bind f) post K ↔ D.Follows i p (D.andThen i f post) K := by
  induction p generalizing K with
  | ret a => exact Iff.rfl
  | throw e => exact Iff.rfl
  | query q next ih => exact forall_congr' fun s => imp_congr_right fun _ => ih _ _
  | begin next ih => exact imp_congr_right fun _ => ih _
  | commit next ih => exact ih _
  | rollback next ih => exact ih _
  | alloc key next ih =>
      exact forall_congr' fun n => forall_congr' fun s => imp_congr_right fun _ =>
        imp_congr_right fun _ => ih _ _
  | exec st next ih =>
      refine forall_congr' fun sn => forall_congr' fun cur => imp_congr_right fun _ =>
        imp_congr_right fun _ => and_congr (imp_congr_right fun _ => ih _ _) ?_
      refine imp_congr_right fun _ => imp_congr_right fun _ => ?_
      split
      · exact ih _ _
      · exact and_congr_right fun _ => ih _ _

theorem follows_mono {p : Prog ρ σ ε α} {post post' : Post ρ ε α}
    (h : D.Follows i p post K) (hpost : ∀ r K, post r K → post' r K) :
    D.Follows i p post' K := by
  induction p generalizing K with
  | ret a => exact hpost _ _ h
  | throw e => exact hpost _ _ h
  | query q next ih => exact fun s hs => ih _ (h s hs)
  | begin next ih => exact fun htx => ih (h htx)
  | commit next ih => exact ih h
  | rollback next ih => exact ih h
  | alloc key next ih => exact fun n s hs hn => ih n (h n s hs hn)
  | exec st next ih =>
      intro sn cur hsn hcur
      obtain ⟨hmiss, hhit⟩ := h sn cur hsn hcur
      refine ⟨fun hq => ih _ (hmiss hq), fun hq hq' => ?_⟩
      have hres := hhit hq hq'
      split at hres
      · exact ih _ hres
      · exact ⟨hres.1, ih _ hres.2⟩

-- Each rule runs the first part of a program, and leaves the rest to verify.

section Rules

variable {post : Post ρ ε γ} {toErr : σ → ε} {e : ε}

theorem follows_seq {q : Prog ρ σ ε β} {next : β → Prog ρ σ ε γ}
    (h : D.Follows i q (D.andThen i next post) K) : D.Follows i (q.bind next) post K :=
  (follows_bind q next post K).mpr h

theorem follows_ret {a : γ} (h : post (.ok a) K) :
    D.Follows i (.ret a : Prog ρ σ ε γ) post K :=
  h

theorem follows_throw (h : post (.error e) K) :
    D.Follows i (.throw e : Prog ρ σ ε γ) post K :=
  h

theorem follows_select {f : Store ρ → β} {next : β → Prog ρ σ ε γ}
    (h : ∀ s, D.Later K.rows K.last s → D.Follows i (next (f s)) post (K.read s)) :
    D.Follows i ((select f).bind next) post K :=
  h

theorem follows_beginTx {next : Unit → Prog ρ σ ε γ}
    (h : K.tx = none → D.Follows i (next ()) post K.beginTx) :
    D.Follows i (ReadCommitted.beginTx.bind next) post K :=
  h

theorem follows_commitTx {next : Unit → Prog ρ σ ε γ}
    (h : D.Follows i (next ()) post K.commitTx) :
    D.Follows i (ReadCommitted.commitTx.bind next) post K :=
  h

theorem follows_failIf {c : Bool} {next : Unit → Prog ρ σ ε γ}
    (herr : c = true → post (.error e) K)
    (h : c = false → D.Follows i (next ()) post K) :
    D.Follows i ((failIf c e).bind next) post K := by
  cases c with
  | true => exact herr rfl
  | false => exact h rfl

theorem follows_ofExcept {x : Except ε β} {next : β → Prog ρ σ ε γ}
    (herr : ∀ e, x = .error e → post (.error e) K)
    (h : ∀ b, x = .ok b → D.Follows i (next b) post K) :
    D.Follows i ((ofExcept x).bind next) post K := by
  cases x with
  | error e => exact herr e rfl
  | ok b => exact h b rfl

theorem follows_ofOption {x : Option β} {next : β → Prog ρ σ ε γ}
    (herr : x = none → post (.error e) K)
    (h : ∀ b, x = some b → D.Follows i (next b) post K) :
    D.Follows i ((ofOption e x).bind next) post K := by
  cases x with
  | none => exact herr rfl
  | some b => exact h b rfl

theorem follows_freshId {key : Nat → κ} {next : Nat → Prog ρ σ ε γ}
    (h : ∀ n s, D.Later K.rows K.last s → s.lookup (key n) = none →
      D.Follows i (next n) post (K.hold (key n) s)) :
    D.Follows i ((freshId key).bind next) post K :=
  h

theorem follows_execSql {st : Statement ρ σ β} {next : β → Prog ρ σ ε γ}
    (herr : ∀ x, post.MayEnd (.error (toErr x)) K)
    (hmiss : ∀ sn cur, D.Later K.rows K.last sn → D.Later K.rows sn cur →
      (st.qualifies sn = false ∨ st.qualifies cur = false) →
      D.Follows i (next st.miss) post ((K.saw sn).look cur))
    (hhit : ∀ sn cur c b, D.Later K.rows K.last sn → D.Later K.rows sn cur →
      st.qualifies sn = true → st.qualifies cur = true → st.hit sn cur = .ok (c, b) →
      D.Makes i (K.saw sn).seen st.row (cur.lookup st.row) ((c.apply cur).lookup st.row) ∧
      D.Follows i (next b) post
        (if st.mode.exclusive then (K.saw sn).hold st.row (c.apply cur)
        else (K.saw sn).look cur)) :
    D.Follows i ((execSql toErr st).bind next) post K := by
  intro sn cur hsn hcur
  refine ⟨hmiss sn cur hsn hcur, fun hq hq' => ?_⟩
  cases hr : st.hit sn cur with
  | error x => exact herr x _ (K.seen_subset_saw sn)
  | ok cb =>
      obtain ⟨c, b⟩ := cb
      exact hhit sn cur c b hsn hcur hq hq' hr

end Rules

/-- A store that was committed at some moment up to now. -/
def Past (s : Config ι ρ σ ε α) (t : Store ρ) : Prop :=
  t = s.db ∨ ∃ c ∈ s.commits, t = c.before

/-- What the process knows is true of the state. -/
structure Knows (D : Discipline ι ρ) (s : Config ι ρ σ ε α) (i : ι) (K : Knowledge ρ) :
    Prop where
  inTx : K.tx.isSome = (s.procs i).tx.isSome
  past : ∀ t ∈ K.seen, Past s t
  bound : D.Later [] K.bound s.db
  locked : ∀ k ∈ K.rows, Owns s.locks i k
  pending : ∀ w ∈ (s.procs i).tx.getD [], w.key ∈ K.rows
  last : D.Later K.rows K.last (s.view i)
  snapshot : ∀ sn, (s.procs i).snapshot = some sn →
    D.Later K.rows K.last sn ∧ D.Later K.rows sn (s.view i) ∧ (K.rows = [] → Past s sn)
  makes : ∀ k, D.Makes i K.seen k (s.db.lookup k) ((s.view i).lookup k)

/-- Every commit makes changes that its process may make, given committed stores from before
it. -/
def Justified (D : Discipline ι ρ) : List (Commit ι ρ) → Prop
  | [] => True
  | c :: cs =>
      (∃ seen, (∀ t ∈ seen, t = c.before ∨ ∃ c' ∈ cs, t = c'.before) ∧
        ∀ k, D.Makes c.proc seen k (c.before.lookup k) (c.after.lookup k)) ∧
      Justified D cs

/-- What a commit changes, its process may change, given committed stores from before it. -/
theorem Justified.makes {newer older : List (Commit ι ρ)} {c : Commit ι ρ}
    (h : Justified D (newer ++ c :: older)) :
    ∃ seen, (∀ t ∈ seen, t = c.before ∨ ∃ c' ∈ older, t = c'.before) ∧
      ∀ k, D.Makes c.proc seen k (c.before.lookup k) (c.after.lookup k) := by
  induction newer with
  | nil => exact h.1
  | cons c' newer ih => exact ih h.2

theorem Justified.evolves {cs : List (Commit ι ρ)} (h : Justified D cs) {c : Commit ι ρ}
    (hc : c ∈ cs) (k : κ) : D.Evolves k (c.before.lookup k) (c.after.lookup k) := by
  obtain ⟨newer, older, rfl⟩ := List.append_of_mem hc
  obtain ⟨seen, -, hmakes⟩ := h.makes
  exact (hmakes k).evolves

theorem later_of_chained {db₀ db : Store ρ} {cs : List (Commit ι ρ)} (h : Justified D cs)
    (hchain : Chained db₀ cs db) {c : Commit ι ρ} (hc : c ∈ cs) : D.Later [] c.after db := by
  induction cs generalizing db with
  | nil => cases hc
  | cons c' cs ih =>
      obtain ⟨rfl, hchain⟩ := hchain
      rcases List.mem_cons.mp hc with rfl | hc
      · exact Later.refl _ _
      · exact (ih h.2 hchain hc).trans
          ⟨fun _ hk => (by cases hk), h.evolves List.mem_cons_self⟩

theorem later_of_seen {db₀ db : Store ρ} {cs : List (Commit ι ρ)} (h : Justified D cs)
    (hchain : Chained db₀ cs db) {t : Store ρ} (ht : t = db ∨ ∃ c ∈ cs, t = c.before) :
    D.Later [] t db := by
  rcases ht with rfl | ⟨c, hc, rfl⟩
  · exact Later.refl _ _
  · have hevolves : D.Later [] c.before c.after := ⟨fun _ hk => (by cases hk), h.evolves hc⟩
    exact hevolves.trans (later_of_chained h hchain hc)

theorem exists_older {db₀ db : Store ρ} {cs : List (Commit ι ρ)} (h : Justified D cs)
    (hchain : Chained db₀ cs db) {c : Commit ι ρ} (hc : c ∈ cs) :
    ∃ older, Justified D (c :: older) ∧ Chained db₀ older c.before := by
  induction cs generalizing db with
  | nil => cases hc
  | cons c' cs ih =>
      rcases List.mem_cons.mp hc with rfl | hc
      · exact ⟨cs, h, hchain.2⟩
      · exact ih h.2 hchain.2 hc

theorem later_between {db₀ db : Store ρ} {newer older : List (Commit ι ρ)} {c c' : Commit ι ρ}
    (h : Justified D (newer ++ c' :: older)) (hchain : Chained db₀ (newer ++ c' :: older) db)
    (hc : c ∈ older) : D.Later [] c.after c'.before := by
  induction newer generalizing db with
  | nil => exact later_of_chained h.2 hchain.2 hc
  | cons _ _ ih => exact ih h.2 hchain.2

/-- A condition on the result of a program, on the committed stores that it has read, and on a
store that the committed one has evolved from. -/
abbrev Goal (ρ : κ → Type) (ε α : Type) :=
  Except ε α → List (Store ρ) → Store ρ → Prop

def Goal.post (P : Goal ρ ε α) : Post ρ ε α :=
  fun r K => P r K.seen K.bound

def Goal.map (f : α → β) (P : Goal ρ ε α) : Goal ρ ε β :=
  fun r seen t => ∃ r', r = r'.map f ∧ P r' seen t

theorem follows_map {p : Prog ρ σ ε α} {P : Goal ρ ε α} (f : α → β)
    (h : D.Follows i p P.post K) : D.Follows i (f <$> p) (P.map f).post K := by
  rw [Prog.map_eq, follows_bind]
  refine follows_mono h fun r K' hr => ?_
  cases r with
  | ok a =>
      have hmap : P.map f (.ok (f a)) K'.seen K'.bound := ⟨.ok a, rfl, hr⟩
      exact hmap
  | error e => exact ⟨.error e, rfl, hr⟩

structure Historical (D : Discipline ι ρ) (post : ι → Goal ρ ε α) (s : Config ι ρ σ ε α) :
    Prop where
  exclusive : Exclusive s.locks
  procs : ∀ i, ∃ K, Knows D s i K ∧ D.Follows i (s.procs i).prog (post i).post K
  justified : Justified D s.commits

section Soundness

variable {post : ι → Goal ρ ε α} {s s' : Config ι ρ σ ε α}

theorem Knows.lookup_view (h : Knows D s i K) {k : κ} (hk : k ∉ K.rows) :
    (s.view i).lookup k = s.db.lookup k :=
  lookup_applyAll_of_forall_ne (fun w hw (hkey : w.key = k) => hk (hkey ▸ h.pending w hw)) s.db

theorem Knows.view_eq (h : Knows D s i K) (hrows : K.rows = []) : s.view i = s.db := by
  have hws : (s.procs i).tx.getD [] = [] := by
    refine List.eq_nil_iff_forall_not_mem.mpr fun w hw => ?_
    have hmem := h.pending w hw
    rw [hrows] at hmem
    cases hmem
  rw [Config.view, hws]
  rfl

theorem Historical.goal (h : Historical D post s) {r : Except ε α}
    (hr : (s.procs i).prog = ofExcept r) :
    ∃ seen t, (∀ u ∈ seen, Past s u) ∧ D.Later [] t s.db ∧ post i r seen t := by
  obtain ⟨K, hK, hfollows⟩ := h.procs i
  rw [hr] at hfollows
  refine ⟨K.seen, K.bound, hK.past, hK.bound, ?_⟩
  cases r with
  | ok a => exact hfollows
  | error e => exact hfollows

/-- What a process knows outlives the steps of the others: they keep its locks, and change
none of its rows. -/
theorem Knows.frame (h : Knows D s i K) (hproc : s'.procs i = s.procs i)
    (hpast : ∀ t, Past s t → Past s' t)
    (hlocks : ∀ k, Owns s.locks i k → Owns s'.locks i k)
    (hkept : ∀ k, Owns s.locks i k → s'.db.lookup k = s.db.lookup k)
    (hdb : ∀ k, D.Evolves k (s.db.lookup k) (s'.db.lookup k)) : Knows D s' i K := by
  have howned : ∀ k ∈ K.rows, (s'.view i).lookup k = (s.view i).lookup k := by
    intro k hk
    rw [Config.view, Config.view, hproc]
    exact lookup_applyAll_congr (hkept k (h.locked k hk)) _
  have hfree : ∀ k ∉ K.rows, (s'.view i).lookup k = s'.db.lookup k := by
    intro k hk
    rw [Config.view, hproc]
    exact lookup_applyAll_of_forall_ne
      (fun w hw (hkey : w.key = k) => hk (hkey ▸ h.pending w hw)) s'.db
  have hview : D.Later K.rows (s.view i) (s'.view i) := by
    refine ⟨howned, fun k => ?_⟩
    by_cases hk : k ∈ K.rows
    · rw [howned k hk]
      exact D.evolves_refl k _
    · rw [hfree k hk, h.lookup_view hk]
      exact hdb k
  refine ⟨?_, fun t ht => hpast t (h.past t ht), h.bound.trans ⟨fun _ hk => (by cases hk), hdb⟩,
    fun k hk => hlocks k (h.locked k hk), ?_, h.last.trans hview, fun sn hsn => ?_, fun k => ?_⟩
  · rw [hproc]
    exact h.inTx
  · rw [hproc]
    exact h.pending
  · rw [hproc] at hsn
    obtain ⟨hlast, hsnap, hsnpast⟩ := h.snapshot sn hsn
    exact ⟨hlast, hsnap.trans hview, fun hrows => hpast sn (hsnpast hrows)⟩
  · by_cases hk : k ∈ K.rows
    · rw [howned k hk, hkept k (h.locked k hk)]
      exact h.makes k
    · rw [hfree k hk]
      exact .refl

theorem Knows.saw (h : Knows D s i K) {sn : Store ρ} (hsn : K.rows = [] → Past s sn) :
    Knows D s i (K.saw sn) := by
  refine ⟨h.inTx, fun t ht => ?_, h.bound, h.locked, h.pending, h.last, h.snapshot, fun k =>
    (h.makes k).mono (K.seen_subset_saw sn)⟩
  rcases K.mem_seen_saw ht with ht | ⟨hrows, rfl⟩
  · exact h.past t ht
  · exact hsn hrows

theorem Knows.acquire (h : Knows D s i K) {j : ι} {k : κ} {m : LockMode} :
    Knows D (s.acquire j k m) i K :=
  h.frame rfl (fun _ ht => ht) (fun _ hk => hk.mono (List.subset_cons_self _ _))
    (fun _ _ => rfl) fun k => D.evolves_refl k _

theorem Historical.acquire (h : Historical D post s) {k : κ} {m : LockMode}
    (hfree : ∀ l ∈ s.locks, l.proc ≠ i → l.key = k → l.mode.conflicts m = false) :
    Historical D post (s.acquire i k m) := by
  refine ⟨h.exclusive.cons hfree, fun j => ?_, h.justified⟩
  obtain ⟨K, hK, hfollows⟩ := h.procs j
  exact ⟨K, hK.acquire, hfollows⟩

theorem historical_start {db : Store ρ} {progs : ι → Prog ρ σ ε α}
    (h : ∀ i, D.Follows i (progs i) (post i).post { last := db }) :
    Historical D post (start db progs) := by
  refine ⟨fun _ hl => (by cases hl), fun i => ⟨{ last := db }, ?_, h i⟩, trivial⟩
  exact ⟨rfl, fun _ ht => (by cases ht), Later.refl _ _, fun _ hk => (by cases hk),
    fun _ hw => (by cases hw), Later.refl _ _, fun _ hsn => (by cases hsn), fun _ => .refl⟩

variable [DecidableEq ι]

theorem Historical.update (h : Historical D post s) (i : ι)
    (hprocs : ∀ j, j ≠ i → s'.procs j = s.procs j) (hexclusive : Exclusive s'.locks)
    (hjustified : Justified D s'.commits) (hpast : ∀ t, Past s t → Past s' t)
    (hlocks : ∀ j k, j ≠ i → Owns s.locks j k → Owns s'.locks j k)
    (hkept : ∀ j k, j ≠ i → Owns s.locks j k → s'.db.lookup k = s.db.lookup k)
    (hdb : ∀ k, D.Evolves k (s.db.lookup k) (s'.db.lookup k))
    (hi : ∃ K, Knows D s' i K ∧ D.Follows i (s'.procs i).prog (post i).post K) :
    Historical D post s' := by
  refine ⟨hexclusive, fun j => ?_, hjustified⟩
  by_cases hj : j = i
  · exact hj ▸ hi
  · obtain ⟨K, hK, hfollows⟩ := h.procs j
    rw [hprocs j hj]
    exact ⟨K, hK.frame (hprocs j hj) hpast (fun k => hlocks j k hj) (fun k => hkept j k hj) hdb,
      hfollows⟩

theorem Historical.setProc (h : Historical D post s) {p : Proc ρ σ ε α} (K : Knowledge ρ)
    (hK : Knows D (s.setProc i p) i K) (hp : D.Follows i p.prog (post i).post K) :
    Historical D post (s.setProc i p) := by
  refine h.update i (fun _ hj => setProc_procs_of_ne s i hj p) h.exclusive h.justified
    (fun _ ht => ht) (fun _ _ _ hk => hk) (fun _ _ _ _ => rfl) (fun k => D.evolves_refl k _)
    ⟨K, hK, ?_⟩
  rwa [setProc_procs_self]

theorem Historical.abandon (h : Historical D post s) {p : Prog ρ σ ε α}
    (hK : Knows D s i K) (hp : D.Follows i p (post i).post K.abort) :
    Historical D post (s.abandon i p) := by
  refine h.update i (fun j hj => abandon_procs_of_ne s i hj p)
    (h.exclusive.mono (List.filter_subset_self _)) h.justified (fun _ ht => ht)
    (fun _ _ hj hk => hk.release hj) (fun _ _ _ _ => rfl) (fun k => D.evolves_refl k _) ?_
  have hview : (s.abandon i p).view i = s.db := by
    rw [Config.view, abandon_procs_self]
    rfl
  refine ⟨K.abort, ⟨?_, hK.past, hK.bound, fun _ hk => (by cases hk), ?_, ?_, ?_, fun k => ?_⟩, ?_⟩
  · rw [abandon_procs_self]
    rfl
  · rw [abandon_procs_self]
    exact fun _ hw => (by cases hw)
  · rw [hview]
    exact hK.bound
  · rw [abandon_procs_self]
    exact fun _ hsn => (by cases hsn)
  · rw [hview]
    exact .refl
  · rwa [abandon_procs_self]

/-- A process commits: what it has changed, nobody else owns. -/
theorem Historical.publish (h : Historical D post s) {ws : List (Write ρ)} {p : Prog ρ σ ε α}
    (htx : (s.procs i).tx = some ws) (hK : Knows D s i K)
    (hp : D.Follows i p (post i).post K.commitTx) :
    Historical D post (s.publish i ws p) := by
  have hview : s.view i = applyAll s.db ws := by rw [Config.view, htx, Option.getD_some]
  have hnew : (s.publish i ws p).view i = applyAll s.db ws := by
    rw [Config.view, publish_procs_self]
    rfl
  have hlast := hK.last.forget
  rw [hview] at hlast
  have hpast : ∀ t, Past s t → Past (s.publish i ws p) t := by
    rintro t (rfl | ⟨c, hc, rfl⟩)
    · exact Or.inr ⟨_, List.mem_cons_self, rfl⟩
    · exact Or.inr ⟨c, List.mem_cons_of_mem _ hc, rfl⟩
  have hmakes := hK.makes
  rw [hview] at hmakes
  refine h.update i (fun j hj => publish_procs_of_ne s i ws p hj)
    (h.exclusive.mono (List.filter_subset_self _)) ⟨⟨K.seen, hK.past, hmakes⟩, h.justified⟩
    hpast (fun _ _ hj hk => hk.release hj) ?_
    (fun k => (hmakes k).evolves) ?_
  · intro j k hj hk
    refine (congrArg (AList.lookup k) hview.symm).trans (hK.lookup_view fun hrow => ?_)
    exact hj (hk.unique h.exclusive (hK.locked k hrow))
  · refine ⟨K.commitTx, ⟨?_, fun t ht => hpast t (hK.past t ht), hlast,
      fun _ hk => (by cases hk), ?_, ?_, ?_, fun k => ?_⟩, ?_⟩
    · rw [publish_procs_self]
      rfl
    · rw [publish_procs_self]
      exact fun _ hw => (by cases hw)
    · rw [hnew]
      exact hlast
    · rw [publish_procs_self]
      exact fun _ hsn => (by cases hsn)
    · rw [hnew]
      exact .refl
    · rwa [publish_procs_self]

theorem Historical.query (h : Historical D post s) {f : Store ρ → β} {next : β → Prog ρ σ ε α}
    (hprog : (s.procs i).prog = .query f next) :
    Historical D post (s.setProc i ⟨next (f (s.view i)), (s.procs i).tx, none⟩) := by
  obtain ⟨K, hK, hfollows⟩ := h.procs i
  rw [hprog] at hfollows
  have hview : (s.setProc i ⟨next (f (s.view i)), (s.procs i).tx, none⟩).view i = s.view i := by
    rw [Config.view, setProc_procs_self]
    rfl
  refine h.setProc (K.read (s.view i)) ⟨?_, ?_, ?_, ?_, ?_, ?_, ?_, fun k => ?_⟩
    (hfollows _ hK.last)
  · rw [setProc_procs_self]
    exact hK.inTx
  · intro t ht
    rcases K.mem_seen_saw ht with ht | ⟨hrows, rfl⟩
    · exact hK.past t ht
    · rw [hK.view_eq hrows]
      exact Or.inl rfl
  · cases htx : K.tx with
    | some o =>
        have hbound : (K.read (s.view i)).bound = K.bound := by
          simp only [Knowledge.bound, Knowledge.read, Knowledge.saw, Knowledge.look, htx,
            Option.map_some, Option.getD_some]
        rw [hbound]
        exact hK.bound
    | none =>
        have hbound : (K.read (s.view i)).bound = s.db := by
          rw [← hK.view_eq (K.rows_of_tx_none htx)]
          exact (K.read (s.view i)).bound_of_tx_none htx
        rw [hbound]
        exact Later.refl _ _
  · exact hK.locked
  · rw [setProc_procs_self]
    exact hK.pending
  · rw [hview]
    exact Later.refl _ _
  · rw [setProc_procs_self]
    exact fun _ hsn => (by cases hsn)
  · rw [hview]
    exact (hK.makes k).mono (K.seen_subset_saw _)

theorem Historical.beginTx (h : Historical D post s) {next : Prog ρ σ ε α}
    (hprog : (s.procs i).prog = .begin next) (htx : (s.procs i).tx = none) :
    Historical D post (s.setProc i ⟨next, some [], none⟩) := by
  obtain ⟨K, hK, hfollows⟩ := h.procs i
  rw [hprog] at hfollows
  have hnone : K.tx = none := by
    have hin := hK.inTx
    rw [htx] at hin
    simpa using hin
  have hlast := hK.last.forget
  rw [hK.view_eq (K.rows_of_tx_none hnone)] at hlast
  have hview : (s.setProc i ⟨next, some [], none⟩).view i = s.db := by
    rw [Config.view, setProc_procs_self]
    rfl
  refine h.setProc K.beginTx
    ⟨?_, hK.past, hlast, fun _ hk => (by cases hk), ?_, ?_, ?_, fun k => ?_⟩ (hfollows hnone)
  · rw [setProc_procs_self]
    rfl
  · rw [setProc_procs_self]
    exact fun _ hw => (by cases hw)
  · rw [hview]
    exact hlast
  · rw [setProc_procs_self]
    exact fun _ hsn => (by cases hsn)
  · rw [hview]
    exact .refl

theorem Historical.hold (h : Historical D post s) {k : κ} {p : Prog ρ σ ε α}
    {ws : List (Write ρ)} {c : Change ρ k} (hK : Knows D s i K)
    (htx : (s.procs i).tx = some ws) (hown : Owns s.locks i k)
    (hmakes : D.Makes i K.seen k ((s.view i).lookup k) ((c.apply (s.view i)).lookup k))
    (hp : D.Follows i p (post i).post (K.hold k (c.apply (s.view i)))) :
    Historical D post (s.setProc i ⟨p, some (ws ++ c.writes), none⟩) := by
  have hview : (s.setProc i ⟨p, some (ws ++ c.writes), none⟩).view i = c.apply (s.view i) := by
    rw [Config.view, Config.view, setProc_procs_self, htx]
    exact applyAll_append _ _ _
  obtain ⟨o, ho⟩ : ∃ o, K.tx = some o := by
    have hin := hK.inTx
    rw [htx] at hin
    exact Option.isSome_iff_exists.mp hin
  have hrows : (K.hold k (c.apply (s.view i))).rows = k :: K.rows := by
    simp only [Knowledge.rows, Knowledge.hold, ho, Option.map_some, Option.getD_some]
  have hbound : (K.hold k (c.apply (s.view i))).bound = K.bound := by
    simp only [Knowledge.bound, Knowledge.hold, ho, Option.map_some, Option.getD_some]
  refine h.setProc (K.hold k (c.apply (s.view i)))
    ⟨?_, hK.past, ?_, ?_, ?_, ?_, ?_, fun k' => ?_⟩ hp
  · rw [setProc_procs_self, Knowledge.hold, ho]
    rfl
  · rw [hbound]
    exact hK.bound
  · rw [hrows]
    intro k' hk'
    rcases List.mem_cons.mp hk' with rfl | hk'
    · exact hown
    · exact hK.locked k' hk'
  · rw [setProc_procs_self, hrows]
    intro w hw
    rcases List.mem_append.mp hw with hw | hw
    · exact List.mem_cons_of_mem _ (hK.pending w (by rwa [htx]))
    · exact Change.key_of_mem_writes hw ▸ List.mem_cons_self
  · rw [hview]
    exact Later.refl _ _
  · rw [setProc_procs_self]
    exact fun _ hsn => (by cases hsn)
  · rw [hview]
    by_cases hk : k' = k
    · subst hk
      exact (hK.makes k').trans hmakes
    · have hsame : (c.apply (s.view i)).lookup k' = (s.view i).lookup k' :=
        lookup_applyAll_of_forall_ne
          (fun w hw hkey => hk (hkey.symm.trans (Change.key_of_mem_writes hw))) _
      rw [hsame]
      exact hK.makes k'

theorem Historical.look (h : Historical D post s) {p : Prog ρ σ ε α} {ws : List (Write ρ)}
    (hK : Knows D s i K) (htx : (s.procs i).tx = some ws)
    (hp : D.Follows i p (post i).post (K.look (s.view i))) :
    Historical D post (s.setProc i ⟨p, some ws, none⟩) := by
  have hview : (s.setProc i ⟨p, some ws, none⟩).view i = s.view i := by
    rw [Config.view, Config.view, setProc_procs_self, htx]
    rfl
  obtain ⟨o, ho⟩ : ∃ o, K.tx = some o := by
    have hin := hK.inTx
    rw [htx] at hin
    exact Option.isSome_iff_exists.mp hin
  have hbound : (K.look (s.view i)).bound = K.bound := by
    simp only [Knowledge.bound, Knowledge.look, ho, Option.map_some, Option.getD_some]
  refine h.setProc (K.look (s.view i)) ⟨?_, hK.past, ?_, hK.locked, ?_, ?_, ?_, fun k => ?_⟩ hp
  · rw [setProc_procs_self, ← htx]
    exact hK.inTx
  · rw [hbound]
    exact hK.bound
  · rw [setProc_procs_self, ← htx]
    exact hK.pending
  · rw [hview]
    exact Later.refl _ _
  · rw [setProc_procs_self]
    exact fun _ hsn => (by cases hsn)
  · rw [hview]
    exact hK.makes k

theorem Historical.takeSnapshot (h : Historical D post s) {i : ι} :
    Historical D post
      (s.setProc i ⟨(s.procs i).prog, (s.procs i).tx, some (s.view i)⟩) := by
  obtain ⟨K, hK, hfollows⟩ := h.procs i
  have hview : (s.setProc i ⟨(s.procs i).prog, (s.procs i).tx, some (s.view i)⟩).view i =
      s.view i := by
    rw [Config.view, setProc_procs_self]
    rfl
  refine h.setProc K ⟨?_, hK.past, hK.bound, hK.locked, ?_, ?_, ?_, fun k => ?_⟩ hfollows
  · rw [setProc_procs_self]
    exact hK.inTx
  · rw [setProc_procs_self]
    exact hK.pending
  · rw [hview]
    exact hK.last
  · rw [setProc_procs_self, hview]
    intro sn hsn
    rw [← Option.some.inj hsn]
    exact ⟨hK.last, Later.refl _ _, fun hrows => Or.inl (hK.view_eq hrows)⟩
  · rw [hview]
    exact hK.makes k

theorem Historical.execute (h : Historical D post s) {st : Statement ρ σ β}
    {next : Except σ β → Prog ρ σ ε α} {ws : List (Write ρ)} {sn : Store ρ}
    (hprog : (s.procs i).prog = .exec st next) (htx : (s.procs i).tx = some ws)
    (hsn : (s.procs i).snapshot = some sn) : Historical D post (s.execute i st next ws sn) := by
  obtain ⟨K, hK, hfollows⟩ := h.procs i
  rw [hprog] at hfollows
  obtain ⟨hlast, hsnap, hpast⟩ := hK.snapshot sn hsn
  obtain ⟨hmiss, hhit⟩ := hfollows sn (s.view i) hlast hsnap
  have hsaw := hK.saw hpast
  rcases s.execute_cases i st next ws sn with
    ⟨he, hq⟩ | ⟨he, -⟩ | ⟨hq, hfree, hq', ⟨e, hr, he⟩ | ⟨c, b, hr, he⟩⟩ <;> rw [he]
  · exact h.look hsaw htx (hmiss hq)
  · exact h
  · have hnext := hhit hq hq'
    rw [hr] at hnext
    exact h.abandon hsaw hnext
  · have hnext := hhit hq hq'
    rw [hr] at hnext
    obtain ⟨hmakes, hnext⟩ := hnext
    have hacq := h.acquire (i := i) (k := st.row) (m := st.mode)
      (fun l hl => s.conflicts_eq_false_of_not_blocked i hfree hl)
    have hKacq : Knows D (s.acquire i st.row st.mode) i (K.saw sn) := hsaw.acquire
    split at hnext
    · rename_i hmode
      exact hacq.hold hKacq htx ⟨_, List.mem_cons_self, rfl, rfl, hmode⟩ hmakes hnext
    · rename_i hmode
      -- a shared lock writes nothing
      obtain rfl := st.keep_of_shared (by simpa using hmode) _ _ _ _ hr
      have hws : ws ++ (Change.keep : Change ρ st.row).writes = ws := List.append_nil ws
      rw [hws]
      exact hacq.look hKacq htx hnext

theorem Historical.takeFresh (h : Historical D post s) {key : Nat → κ}
    {next : Nat → Prog ρ σ ε α} {ws : List (Write ρ)} {fresh : Nat}
    (hprog : (s.procs i).prog = .alloc key next) (htx : (s.procs i).tx = some ws)
    (hnone : s.db.lookup (key fresh) = none) (hunlocked : ∀ l ∈ s.locks, l.key ≠ key fresh) :
    Historical D post
      ((s.acquire i (key fresh) .update).setProc i ⟨next fresh, some ws, none⟩) := by
  obtain ⟨K, hK, hfollows⟩ := h.procs i
  rw [hprog] at hfollows
  have hfree : key fresh ∉ K.rows := by
    intro hrow
    obtain ⟨l, hl, -, hkey, -⟩ := hK.locked _ hrow
    exact hunlocked l hl hkey
  have hnext := hfollows fresh (s.view i) hK.last ((hK.lookup_view hfree).trans hnone)
  have hacq := h.acquire (i := i) (k := key fresh) (m := .update)
    (fun l hl _ hkey => absurd hkey (hunlocked l hl))
  have hheld := hacq.hold (c := .keep) hK.acquire htx ⟨_, List.mem_cons_self, rfl, rfl, rfl⟩
    .refl hnext
  have hws : ws ++ (Change.keep : Change ρ (key fresh)).writes = ws := List.append_nil ws
  rwa [hws] at hheld

theorem Historical.advance (h : Historical D post s) (i : ι) (fresh : Nat) :
    Historical D post (s.advance i fresh) := by
  obtain ⟨K, hK, hfollows⟩ := h.procs i
  unfold Config.advance
  split
  case h_1 hprog =>
    rw [hprog] at hfollows
    exact h.abandon hK hfollows
  case h_2 hprog =>
    rw [hprog] at hfollows
    exact h.abandon hK hfollows
  case h_3 hprog => exact h.query hprog
  case h_4 hprog htx => exact h.beginTx hprog htx
  case h_6 hprog htx =>
    rw [hprog] at hfollows
    exact h.publish htx hK hfollows
  case h_8 hprog htx =>
    rw [hprog] at hfollows
    exact h.abandon hK hfollows
  case h_10 hprog htx =>
    split
    · rename_i hfree
      exact h.takeFresh hprog htx (by simpa using hfree.1) (by simpa using hfree.2)
    · exact h
  case h_12 hprog htx =>
    split
    · have hsnap := h.takeSnapshot (i := i)
      rwa [hprog, htx] at hsnap
    · exact h.execute hprog htx ‹_›
  all_goals exact h

theorem Historical.step (h : Historical D post s) {fault : ε}
    (hfault : ∀ i seen t, post i (.error fault) seen t) (c : Choice ι) :
    Historical D post (step fault s c) := by
  rcases step_cases fault s c with ⟨fresh, -, he⟩ | he | ⟨-, -, he⟩ <;> rw [he]
  · exact h.advance c.proc fresh
  · exact h
  · obtain ⟨K, hK, -⟩ := h.procs c.proc
    exact h.abandon hK (hfault _ _ _)

theorem Historical.run (h : Historical D post s) {fault : ε}
    (hfault : ∀ i seen t, post i (.error fault) seen t) (cs : List (Choice ι)) :
    Historical D post (run fault s cs) := by
  induction cs generalizing s with
  | nil => exact h
  | cons c cs ih => exact ih (h.step hfault c)

/-- A process that has not started yet may be held to another goal, one about the store at its
start. -/
theorem Historical.restart (h : Historical D post s) {p : Prog ρ σ ε α}
    (hproc : s.procs i = { prog := p }) {P : Goal ρ ε α}
    (hp : D.Follows i p P.post { last := s.db }) : Historical D (Function.update post i P) s := by
  refine ⟨h.exclusive, fun j => ?_, h.justified⟩
  by_cases hj : j = i
  · subst hj
    rw [Function.update_self]
    have hview : s.view j = s.db := by
      rw [Config.view, hproc]
      rfl
    refine ⟨{ last := s.db }, ⟨?_, fun _ ht => (by cases ht), Later.refl _ _,
      fun _ hk => (by cases hk), ?_, ?_, ?_, fun k => ?_⟩, ?_⟩
    · rw [hproc]
      rfl
    · rw [hproc]
      exact fun _ hw => (by cases hw)
    · rw [hview]
      exact Later.refl _ _
    · rw [hproc]
      exact fun _ hsn => (by cases hsn)
    · rw [hview]
      exact .refl
    · rwa [hproc]
  · rw [Function.update_of_ne hj]
    exact h.procs j

theorem Historical.goal_of_restart (h : Historical D post s) {fault : ε}
    (hfault : ∀ i seen t, post i (.error fault) seen t) {p : Prog ρ σ ε α}
    (hproc : s.procs i = { prog := p }) {P : Goal ρ ε α}
    (hPfault : ∀ seen t, P (.error fault) seen t)
    (hp : D.Follows i p P.post { last := s.db }) {cs : List (Choice ι)} {r : Except ε α}
    (hr : ((ReadCommitted.run fault s cs).procs i).prog = ofExcept r) :
    ∃ seen t, (∀ u ∈ seen, Past (ReadCommitted.run fault s cs) u) ∧
      D.Later [] t (ReadCommitted.run fault s cs).db ∧ P r seen t := by
  have hfault' : ∀ j seen t, Function.update post i P j (.error fault) seen t := by
    intro j seen t
    by_cases hj : j = i
    · subst hj
      rw [Function.update_self]
      exact hPfault seen t
    · rw [Function.update_of_ne hj]
      exact hfault j seen t
  obtain ⟨seen, t, hseen, ht, hgoal⟩ := ((h.restart hproc hp).run hfault' cs).goal hr
  rw [Function.update_self] at hgoal
  exact ⟨seen, t, hseen, ht, hgoal⟩

end Soundness

attribute [irreducible] Follows

end Discipline

end PersonalDashboard.RowHistories
