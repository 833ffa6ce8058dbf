import PersonalDashboard.RowStatements

/-! Foreign keys over row locks: a row that others refer to is only taken away under the
strongest lock, and only referred to under the weakest one, so that no reference ever dangles. -/

set_option autoImplicit false

namespace PersonalDashboard.ForeignKeys

open PersonalDashboard.ReadCommitted
open PersonalDashboard.ReadCommitted.Config
open PersonalDashboard.RowStatements
open PersonalDashboard.RowStore

variable {ι κ : Type} [DecidableEq κ] {ρ : κ → Type} {σ ε α β γ : Type}

/-- The row that a row refers to, and the rows that may be referred to. -/
structure References {κ : Type} (ρ : κ → Type) where
  ref : (k : κ) → ρ k → Option κ
  alive : (k : κ) → ρ k → Bool

structure Tx {κ : Type} (ρ : κ → Type) where
  locks : List (κ × LockMode) := []
  writes : List (Write ρ) := []

namespace Tx

def view (t : Tx ρ) (s : Store ρ) : Store ρ :=
  applyAll s t.writes

def hold (t : Tx ρ) (k : κ) (m : LockMode) (c : Change ρ k) : Tx ρ :=
  { locks := (k, m) :: t.locks, writes := t.writes ++ c.writes }

@[simp]
theorem view_hold (t : Tx ρ) (k : κ) (m : LockMode) (c : Change ρ k) (s : Store ρ) :
    (t.hold k m c).view s = c.apply (t.view s) :=
  applyAll_append s t.writes c.writes

end Tx

namespace References

variable (F : References ρ)

def Refers (s : Store ρ) (k k' : κ) : Prop :=
  ∃ r, s.lookup k = some r ∧ F.ref k r = some k'

def Alive (s : Store ρ) (k : κ) : Prop :=
  ∃ r, s.lookup k = some r ∧ F.alive k r = true

def Intact (s : Store ρ) : Prop :=
  ∀ k k', F.Refers s k k' → F.Alive s k'

/-- What the others may do to the committed store while a process holds some locks. -/
structure Interferes (locks : List (κ × LockMode)) (s s' : Store ρ) : Prop where
  kept : ∀ k m, (k, m) ∈ locks → m.exclusive → s'.lookup k = s.lookup k
  alive : ∀ k m, (k, m) ∈ locks → F.Alive s k → F.Alive s' k
  fresh : ∀ k k', (k, .update) ∈ locks → F.Refers s' k' k → F.Refers s k' k

structure Guarded (locks : List (κ × LockMode)) (s s' : Store ρ) : Prop where
  alive : ∀ k, F.Alive s k → F.Alive s' k ∨ (k, .update) ∈ locks
  fresh : ∀ k k', F.Refers s' k' k → F.Refers s k' k ∨ ∃ m, (k, m) ∈ locks
  intact : F.Intact s'

variable {F}

theorem Interferes.refl (locks : List (κ × LockMode)) (s : Store ρ) : F.Interferes locks s s :=
  ⟨fun _ _ _ _ => rfl, fun _ _ _ h => h, fun _ _ _ h => h⟩

theorem Interferes.trans {locks : List (κ × LockMode)} {s s' s'' : Store ρ}
    (h : F.Interferes locks s s') (h' : F.Interferes locks s' s'') : F.Interferes locks s s'' where
  kept k m hk hm := (h'.kept k m hk hm).trans (h.kept k m hk hm)
  alive k m hk ha := h'.alive k m hk (h.alive k m hk ha)
  fresh k k' hk hr := h.fresh k k' hk (h'.fresh k k' hk hr)

theorem Interferes.mono {locks locks' : List (κ × LockMode)} {s s' : Store ρ}
    (h : F.Interferes locks s s') (hsub : locks' ⊆ locks) : F.Interferes locks' s s' :=
  ⟨fun k m hk => h.kept k m (hsub hk), fun k m hk => h.alive k m (hsub hk),
    fun k k' hk => h.fresh k k' (hsub hk)⟩

theorem Interferes.lookup {locks : List (κ × LockMode)} {s s' : Store ρ}
    (h : F.Interferes locks s s') {k : κ} {m : LockMode} {r : Option (ρ k)}
    (hk : (k, m) ∈ locks) (hm : m.exclusive) (hr : s.lookup k = r) : s'.lookup k = r :=
  (h.kept k m hk hm).trans hr

theorem alive_put {s : Store ρ} {k k' : κ} {r : ρ k} (hr : F.alive k r = true)
    (h : F.Alive s k') : F.Alive (put s k (some r)) k' := by
  by_cases hk : k' = k
  · subst hk
    exact ⟨r, lookup_put_self s k' _, hr⟩
  · obtain ⟨r', hr', halive⟩ := h
    exact ⟨r', (lookup_put_of_ne hk _).trans hr', halive⟩

theorem guarded_put {locks : List (κ × LockMode)} {s : Store ρ} (hs : F.Intact s) {k : κ}
    {r : ρ k} (hr : F.alive k r = true)
    (href : ∀ k', F.ref k r = some k' →
      F.Refers s k k' ∨ (∃ m, (k', m) ∈ locks) ∧ F.Alive s k') :
    F.Guarded locks s (put s k (some r)) := by
  have hrefers : ∀ {k₁ k'}, F.Refers (put s k (some r)) k₁ k' →
      F.Refers s k₁ k' ∨ (∃ m, (k', m) ∈ locks) ∧ F.Alive s k' := by
    rintro k₁ k' ⟨r', hr', href'⟩
    by_cases hk : k₁ = k
    · subst hk
      rw [lookup_put_self] at hr'
      obtain rfl := Option.some.inj hr'
      exact href k' href'
    · rw [lookup_put_of_ne hk] at hr'
      exact Or.inl ⟨r', hr', href'⟩
  refine ⟨fun k' h => Or.inl (alive_put hr h), fun k' k₁ h => (hrefers h).imp_right And.left, ?_⟩
  intro k₁ k' h
  rcases hrefers h with h | ⟨-, h⟩
  · exact alive_put hr (hs k₁ k' h)
  · exact alive_put hr h

/-- What holds at the end of a program: of its answer, its open transaction, the committed store
it has seen last, and the stores around its commits, the newest first. -/
abbrev Post {κ : Type} (ρ : κ → Type) (α : Type) :=
  α → Option (Tx ρ) → Store ρ → List (Store ρ × Store ρ) → Prop

/-- Every commit of a program is guarded, and its answer satisfies the postcondition, whatever
the others do in the meantime. -/
def Keeps (F : References ρ) : Prog ρ σ ε α → Post ρ α → Option (Tx ρ) → Store ρ →
    List (Store ρ × Store ρ) → Prop
  | .ret a, post, o, s, done => post a o s done
  | .throw _, _, _, _, _ => True
  | .query f next, post, o, s, done =>
      ∀ s', F.Interferes (o.getD {}).locks s s' →
        F.Keeps (next (f ((o.getD {}).view s'))) post o s' done
  | .begin next, post, o, s, done => o = none → F.Keeps next post (some {}) s done
  | .commit next, post, o, s, done =>
      ∀ t, o = some t → ∀ s', F.Interferes t.locks s s' → F.Intact s' →
        F.Guarded t.locks s' (t.view s') ∧
        F.Keeps next post none (t.view s') ((s', t.view s') :: done)
  | .rollback next, post, _, s, done => F.Keeps next post none s done
  | .alloc key next, post, o, s, done =>
      ∀ t, o = some t → ∀ n s', F.Interferes t.locks s s' → s'.lookup (key n) = none →
        F.Keeps (next n) post (some (t.hold (key n) .update .keep)) s' done
  | .exec st next, post, o, s, done =>
      ∀ t, o = some t → ∀ sn cur, F.Interferes t.locks s sn → F.Interferes t.locks sn cur →
        (st.qualifies (t.view sn) = false ∨ st.qualifies (t.view cur) = false →
          F.Keeps (next (.ok st.miss)) post o cur done) ∧
        (st.qualifies (t.view sn) = true → st.qualifies (t.view cur) = true →
          match st.hit (t.view sn) (t.view cur) with
          | .error e => F.Keeps (next (.error e)) post none cur done
          | .ok (c, b) =>
              F.Keeps (next (.ok b)) post (some (t.hold st.row st.mode c)) cur done)

variable {o : Option (Tx ρ)} {t : Tx ρ} {s : Store ρ} {done : List (Store ρ × Store ρ)}

theorem keeps_bind (p : Prog ρ σ ε α) (f : α → Prog ρ σ ε β) (post : Post ρ β) :
    F.Keeps (p.bind f) post o s done ↔
      F.Keeps p (fun a o s done => F.Keeps (f a) post o s done) o s done := by
  induction p generalizing o s done with
  | ret a => exact Iff.rfl
  | throw e => exact Iff.rfl
  | query q next ih => exact forall_congr' fun s' => imp_congr_right fun _ => ih _
  | begin next ih => exact imp_congr_right fun _ => ih
  | commit next ih =>
      exact forall_congr' fun t => imp_congr_right fun _ => forall_congr' fun s' =>
        imp_congr_right fun _ => imp_congr_right fun _ => and_congr_right fun _ => ih
  | rollback next ih => exact ih
  | alloc key next ih =>
      exact forall_congr' fun t => imp_congr_right fun _ => forall_congr' fun n =>
        forall_congr' fun s' => imp_congr_right fun _ => imp_congr_right fun _ => ih n
  | exec st next ih =>
      refine forall_congr' fun t => imp_congr_right fun _ => forall_congr' fun sn =>
        forall_congr' fun cur => imp_congr_right fun _ => imp_congr_right fun _ =>
        and_congr (imp_congr_right fun _ => ih _) ?_
      refine imp_congr_right fun _ => imp_congr_right fun _ => ?_
      split
      · exact ih _
      · exact ih _

theorem keeps_mono {p : Prog ρ σ ε α} {post post' : Post ρ α} (h : F.Keeps p post o s done)
    (hpost : ∀ a o s done, post a o s done → post' a o s done) :
    F.Keeps p post' o s done := by
  induction p generalizing o s done with
  | ret a => exact hpost _ _ _ _ h
  | throw e => trivial
  | query q next ih => exact fun s' hs' => ih _ (h s' hs')
  | begin next ih => exact fun ho => ih (h ho)
  | commit next ih =>
      intro t ht s' hs' hintact
      obtain ⟨hguarded, hnext⟩ := h t ht s' hs' hintact
      exact ⟨hguarded, ih hnext⟩
  | rollback next ih => exact ih h
  | alloc key next ih => exact fun t ht n s' hs' hn => ih n (h t ht n s' hs' hn)
  | exec st next ih =>
      intro t ht sn cur hsn hcur
      obtain ⟨hmiss, hhit⟩ := h t ht sn cur hsn hcur
      refine ⟨fun hq => ih _ (hmiss hq), fun hq hq' => ?_⟩
      have hres := hhit hq hq'
      split at hres
      · exact ih _ hres
      · exact ih _ hres

-- Each rule runs the first part of a program, and leaves the rest to verify.

section Rules

variable {post : Post ρ γ} {toErr : σ → ε} {e : ε} {k : κ} {p : ρ k → Bool}

theorem keeps_ret {a : γ} (h : post a o s done) :
    F.Keeps (.ret a : Prog ρ σ ε γ) post o s done :=
  h

theorem keeps_throw : F.Keeps (.throw e : Prog ρ σ ε γ) post o s done :=
  trivial

theorem keeps_failIf {c : Bool} {next : Unit → Prog ρ σ ε γ}
    (h : c = false → F.Keeps (next ()) post o s done) :
    F.Keeps ((failIf c e).bind next) post o s done := by
  cases c with
  | true => exact keeps_throw
  | false => exact h rfl

theorem keeps_ofExcept {x : Except ε β} {next : β → Prog ρ σ ε γ}
    (h : ∀ b, x = .ok b → F.Keeps (next b) post o s done) :
    F.Keeps ((ofExcept x).bind next) post o s done := by
  cases x with
  | error e => exact keeps_throw
  | ok b => exact h b rfl

theorem keeps_ofOption {x : Option β} {next : β → Prog ρ σ ε γ}
    (h : ∀ b, x = some b → F.Keeps (next b) post o s done) :
    F.Keeps ((ofOption e x).bind next) post o s done := by
  cases x with
  | none => exact keeps_throw
  | some b => exact h b rfl

theorem keeps_whenever {c : Prop} [Decidable c] {q : Prog ρ σ ε Unit}
    {next : Unit → Prog ρ σ ε γ} (hq : c → F.Keeps (q.bind next) post o s done)
    (h : ¬ c → F.Keeps (next ()) post o s done) :
    F.Keeps ((whenever c q).bind next) post o s done := by
  unfold whenever
  split
  · exact hq ‹_›
  · exact h ‹_›

theorem keeps_select {f : Store ρ → β} {next : β → Prog ρ σ ε γ}
    (h : ∀ s', F.Interferes (o.getD {}).locks s s' →
      F.Keeps (next (f ((o.getD {}).view s'))) post o s' done) :
    F.Keeps ((select f).bind next) post o s done :=
  h

theorem keeps_beginTx {next : Unit → Prog ρ σ ε γ}
    (h : F.Keeps (next ()) post (some {}) s done) :
    F.Keeps (beginTx.bind next) post o s done :=
  fun _ => h

theorem keeps_commitTx {next : Unit → Prog ρ σ ε γ}
    (h : ∀ s', F.Interferes t.locks s s' → F.Intact s' →
      F.Guarded t.locks s' (t.view s') ∧
      F.Keeps (next ()) post none (t.view s') ((s', t.view s') :: done)) :
    F.Keeps (commitTx.bind next) post (some t) s done := by
  intro t' ht'
  obtain rfl := Option.some.inj ht'
  exact h

theorem keeps_freshId {key : Nat → κ} {next : Nat → Prog ρ σ ε γ}
    (h : ∀ n s', F.Interferes t.locks s s' → s'.lookup (key n) = none →
      F.Keeps (next n) post (some (t.hold (key n) .update .keep)) s' done) :
    F.Keeps ((freshId key).bind next) post (some t) s done := by
  intro t' ht'
  obtain rfl := Option.some.inj ht'
  exact h

theorem keeps_execSql {st : Statement ρ σ β} {next : β → Prog ρ σ ε γ}
    (hmiss : ∀ sn cur, F.Interferes t.locks s sn → F.Interferes t.locks sn cur →
      (st.qualifies (t.view sn) = false ∨ st.qualifies (t.view cur) = false) →
      F.Keeps (next st.miss) post (some t) cur done)
    (hhit : ∀ sn cur c b, F.Interferes t.locks s sn → F.Interferes t.locks sn cur →
      st.qualifies (t.view sn) = true → st.qualifies (t.view cur) = true →
      st.hit (t.view sn) (t.view cur) = .ok (c, b) →
      F.Keeps (next b) post (some (t.hold st.row st.mode c)) cur done) :
    F.Keeps ((execSql toErr st).bind next) post (some t) s done := by
  intro t' ht' sn cur hsn hcur
  obtain rfl := Option.some.inj ht'
  refine ⟨hmiss sn cur hsn hcur, fun hq hq' => ?_⟩
  cases hr : st.hit (t.view sn) (t.view cur) with
  | error x => exact keeps_throw
  | ok cb =>
      obtain ⟨c, b⟩ := cb
      exact hhit sn cur c b hsn hcur hq hq' hr

theorem keeps_selectFor {mode : LockMode} {proj : ρ k → β} {next : Option β → Prog ρ σ ε γ}
    (hmiss : ∀ cur, F.Interferes t.locks s cur → F.Keeps (next none) post (some t) cur done)
    (hhit : ∀ cur r, F.Interferes t.locks s cur → (t.view cur).lookup k = some r → p r = true →
      F.Keeps (next (some (proj r))) post (some (t.hold k mode .keep)) cur done) :
    F.Keeps ((execSql toErr (selectFor mode k p proj)).bind next) post (some t) s done := by
  refine keeps_execSql (fun sn cur hsn hcur _ => hmiss cur (hsn.trans hcur)) ?_
  intro sn cur c b hsn hcur _ hq h
  obtain ⟨r, hr, hp, rfl, rfl⟩ := selectFor_hit hq h
  exact hhit cur r (hsn.trans hcur) hr hp

theorem keeps_updateRow {mode : LockMode} {hmode : mode.exclusive}
    {f : Store ρ → ρ k → Except σ (ρ k)} {next : Option (ρ k) → Prog ρ σ ε γ}
    (hmiss : ∀ sn cur, F.Interferes t.locks s sn → F.Interferes t.locks sn cur →
      (found k p (t.view sn) = false ∨ found k p (t.view cur) = false) →
      F.Keeps (next none) post (some t) cur done)
    (hhit : ∀ sn cur r r', F.Interferes t.locks s cur → (t.view cur).lookup k = some r →
      p r = true → f sn r = .ok r' →
      F.Keeps (next (some r')) post (some (t.hold k mode (.set r'))) cur done) :
    F.Keeps ((execSql toErr (updateRow mode hmode k p f)).bind next) post (some t) s done := by
  refine keeps_execSql hmiss ?_
  intro sn cur c b hsn hcur _ hq h
  obtain ⟨r, r', hr, hp, hr', rfl, rfl⟩ := updateRow_hit hq h
  exact hhit _ cur r r' (hsn.trans hcur) hr hp hr'

theorem keeps_insertRow {constraints : Store ρ → Except σ Unit} {r : ρ k}
    {next : ρ k → Prog ρ σ ε γ}
    (h : ∀ cur, F.Interferes t.locks s cur →
      F.Keeps (next r) post (some (t.hold k .update (.set r))) cur done) :
    F.Keeps ((execSql toErr (insertRow k constraints r)).bind next) post (some t) s done := by
  refine keeps_execSql (fun sn cur _ _ hq => ?_) ?_
  · rcases hq with hq | hq <;> cases hq
  · intro sn cur c b hsn hcur _ _ hit
    obtain ⟨-, rfl, rfl⟩ := insertRow_hit hit
    exact h cur (hsn.trans hcur)

theorem keeps_lockSlot {f : Store ρ → β} {next : Option β → Prog ρ σ ε γ}
    (h : ∀ cur, F.Interferes t.locks s cur →
      F.Keeps (next (some (f (t.view cur)))) post (some (t.hold k .update .keep)) cur done) :
    F.Keeps ((execSql toErr (lockSlot k f)).bind next) post (some t) s done := by
  refine keeps_execSql (fun sn cur _ _ hq => ?_) ?_
  · rcases hq with hq | hq <;> cases hq
  · intro sn cur c b hsn hcur _ _ hit
    obtain ⟨rfl, rfl⟩ := lockSlot_hit hit
    exact h cur (hsn.trans hcur)

end Rules

/-- A transaction has taken one row away, under a lock that keeps new references to it out, and
cleared the rows that referred to it, but for those of the given keys. -/
structure Clears (F : References ρ) (t : Tx ρ) (s : Store ρ) (k₀ : κ)
    (f : (k : κ) → ρ k → ρ k) (ks : List κ) : Prop where
  locked : (k₀, .update) ∈ t.locks
  taken : ∃ r, F.ref k₀ r = none ∧ ∀ s', (t.view s').lookup k₀ = some r
  rows : ∀ k, k ≠ k₀ → (∀ s', (t.view s').lookup k = s'.lookup k) ∨
    ∃ r, ∀ s', F.Interferes t.locks s s' →
      s'.lookup k = some r ∧ (t.view s').lookup k = some (f k r)
  rest : ∀ s', F.Interferes t.locks s s' → ∀ k, F.Refers (t.view s') k k₀ → k ∈ ks

namespace Clears

variable {k₀ k : κ} {f : (k : κ) → ρ k → ρ k} {ks : List κ} {s' s'' : Store ρ}

theorem later (h : F.Clears t s k₀ f ks) (hs' : F.Interferes t.locks s s') :
    F.Clears t s' k₀ f ks where
  locked := h.locked
  taken := h.taken
  rows k hk := (h.rows k hk).imp_right fun ⟨r, hr⟩ => ⟨r, fun s'' hs'' => hr s'' (hs'.trans hs'')⟩
  rest s'' hs'' := h.rest s'' (hs'.trans hs'')

theorem refers (h : F.Clears t s k₀ f ks) (hf : ∀ k r, F.ref k (f k r) = none)
    (hs' : F.Interferes t.locks s s') {k' : κ} (href : F.Refers (t.view s') k k') :
    k ≠ k₀ ∧ (∀ s', (t.view s').lookup k = s'.lookup k) ∧ F.Refers s' k k' := by
  obtain ⟨r, hr, hk'⟩ := href
  have hne : k ≠ k₀ := by
    rintro rfl
    obtain ⟨r₀, hnone, hr₀⟩ := h.taken
    obtain rfl := Option.some.inj (hr.symm.trans (hr₀ s'))
    rw [hnone] at hk'
    cases hk'
  rcases h.rows k hne with hsame | ⟨r₁, hr₁⟩
  · exact ⟨hne, hsame, r, (hsame s').symm.trans hr, hk'⟩
  · obtain rfl := Option.some.inj (hr.symm.trans (hr₁ s' hs').2)
    rw [hf] at hk'
    cases hk'

theorem refers_of_later (h : F.Clears t s k₀ f ks) (hf : ∀ k r, F.ref k (f k r) = none)
    (hs' : F.Interferes t.locks s s') (hs'' : F.Interferes t.locks s' s'')
    (href : F.Refers (t.view s'') k k₀) : F.Refers (t.view s') k k₀ := by
  obtain ⟨-, hsame, href⟩ := h.refers hf (hs'.trans hs'') href
  obtain ⟨r, hr, hk⟩ := hs''.fresh k₀ k h.locked href
  exact ⟨r, (hsame s').trans hr, hk⟩

theorem skip {k : κ} (h : F.Clears t s k₀ f (k :: ks)) (hf : ∀ k r, F.ref k (f k r) = none)
    (hs' : F.Interferes t.locks s s') (hs'' : F.Interferes t.locks s' s'')
    (hnot : ¬ F.Refers (t.view s') k k₀ ∨ ¬ F.Refers (t.view s'') k k₀) :
    F.Clears t s'' k₀ f ks := by
  have hlater := hs'.trans hs''
  refine { h.later hlater with rest := fun u hu k' href => ?_ }
  rcases List.mem_cons.mp (h.rest u (hlater.trans hu) k' href) with rfl | hk'
  · rcases hnot with hnot | hnot
    · exact absurd (h.refers_of_later hf hs' (hs''.trans hu) href) hnot
    · exact absurd (h.refers_of_later hf hlater hu href) hnot
  · exact hk'

theorem clear {k : κ} {r : ρ k} {m : LockMode} (h : F.Clears t s k₀ f (k :: ks))
    (hf : ∀ k r, F.ref k (f k r) = none) (hm : m.exclusive) (hs' : F.Interferes t.locks s s')
    (hr : (t.view s').lookup k = some r) (href : F.ref k r = some k₀) :
    F.Clears (t.hold k m (.set (f k r))) s' k₀ f ks := by
  have hsub : t.locks ⊆ (t.hold k m (.set (f k r))).locks := List.subset_cons_self _ _
  obtain ⟨hne, hsame, -⟩ := h.refers hf hs' ⟨r, hr, href⟩
  have hview : ∀ u, (t.hold k m (.set (f k r))).view u = put (t.view u) k (some (f k r)) :=
    fun u => Tx.view_hold t k m _ u
  refine ⟨hsub h.locked, ?_, fun k' hk' => ?_, fun u hu k' href' => ?_⟩
  · obtain ⟨r₀, hnone, hr₀⟩ := h.taken
    refine ⟨r₀, hnone, fun u => ?_⟩
    rw [hview, lookup_put_of_ne hne.symm]
    exact hr₀ u
  · by_cases hkk : k' = k
    · subst hkk
      refine Or.inr ⟨r, fun u hu => ⟨?_, by rw [hview, lookup_put_self]⟩⟩
      exact hu.lookup List.mem_cons_self hm ((hsame s').symm.trans hr)
    · rcases h.rows k' hk' with hrow | ⟨r', hr'⟩
      · exact Or.inl fun u => by rw [hview, lookup_put_of_ne hkk, hrow]
      · refine Or.inr ⟨r', fun u hu => ?_⟩
        rw [hview, lookup_put_of_ne hkk]
        exact hr' u (hs'.trans (hu.mono hsub))
  · have hkk : k' ≠ k := by
      rintro rfl
      obtain ⟨r', hr', hk'⟩ := href'
      rw [hview, lookup_put_self] at hr'
      obtain rfl := Option.some.inj hr'
      rw [hf] at hk'
      cases hk'
    have hold : F.Refers (t.view u) k' k₀ := by
      obtain ⟨r', hr', hk'⟩ := href'
      rw [hview, lookup_put_of_ne hkk] at hr'
      exact ⟨r', hr', hk'⟩
    exact (List.mem_cons.mp (h.rest u (hs'.trans (hu.mono hsub)) k' hold)).resolve_left hkk

/-- Once nothing refers to the row any more, all may be committed. -/
theorem guarded (h : F.Clears t s k₀ f []) (hf : ∀ k r, F.ref k (f k r) = none)
    (hf' : ∀ k r, F.alive k (f k r) = F.alive k r) (hs' : F.Interferes t.locks s s')
    (hintact : F.Intact s') : F.Guarded t.locks s' (t.view s') := by
  have halive : ∀ k, k ≠ k₀ → F.Alive s' k → F.Alive (t.view s') k := by
    rintro k hk ⟨r, hr, ha⟩
    rcases h.rows k hk with hsame | ⟨r', hr'⟩
    · exact ⟨r, (hsame s').trans hr, ha⟩
    · obtain ⟨hr₁, hr₂⟩ := hr' s' hs'
      obtain rfl := Option.some.inj (hr₁.symm.trans hr)
      exact ⟨_, hr₂, (hf' k r').trans ha⟩
  refine ⟨fun k ha => ?_, fun k k' href => Or.inl (h.refers hf hs' href).2.2, fun k k' href => ?_⟩
  · by_cases hk : k = k₀
    · exact Or.inr (hk ▸ h.locked)
    · exact Or.inl (halive k hk ha)
  · refine halive k' ?_ (hintact k k' (h.refers hf hs' href).2.2)
    rintro rfl
    cases h.rest s' hs' k href

end Clears

theorem clears_taken {k₀ : κ} {r : ρ k₀} (hr : F.ref k₀ r = none) {f : (k : κ) → ρ k → ρ k}
    {p : (k : κ) → ρ k → Bool} (hp : ∀ k r, p k r = true ↔ F.ref k r = some k₀) :
    F.Clears (({} : Tx ρ).hold k₀ .update (.set r)) s k₀ f
      (keysWhere p ((({} : Tx ρ).hold k₀ .update (.set r)).view s)) := by
  have hlock : (k₀, LockMode.update) ∈ (({} : Tx ρ).hold k₀ .update (.set r)).locks :=
    List.mem_cons_self
  have hview : ∀ u, (({} : Tx ρ).hold k₀ .update (.set r)).view u = put u k₀ (some r) :=
    fun u => rfl
  refine ⟨hlock, ⟨r, hr, fun u => by rw [hview, lookup_put_self]⟩,
    fun k hk => Or.inl fun u => by rw [hview, lookup_put_of_ne hk], fun u hu k href => ?_⟩
  obtain ⟨r', hr', hk'⟩ := href
  have hne : k ≠ k₀ := by
    rintro rfl
    rw [hview, lookup_put_self] at hr'
    obtain rfl := Option.some.inj hr'
    rw [hr] at hk'
    cases hk'
  rw [hview, lookup_put_of_ne hne] at hr'
  obtain ⟨r₀, hr₀, hk₀⟩ := hu.fresh k₀ k hlock ⟨r', hr', hk'⟩
  exact mem_keysWhere.mpr ⟨r₀, by rwa [hview, lookup_put_of_ne hne], (hp k r₀).mpr hk₀⟩

theorem keeps_updateAll {k₀ : κ} {f : (k : κ) → ρ k → ρ k} {p : (k : κ) → ρ k → Bool}
    (hp : ∀ k r, p k r = true ↔ F.ref k r = some k₀) (hf : ∀ k r, F.ref k (f k r) = none)
    {post : Post ρ γ} {toErr : σ → ε} {next : Unit → Prog ρ σ ε γ} {ks : List κ}
    (hclears : F.Clears t s k₀ f ks)
    (h : ∀ t s, F.Clears t s k₀ f [] → F.Keeps (next ()) post (some t) s done) :
    F.Keeps ((updateAll toErr p f ks).bind next) post (some t) s done := by
  induction ks generalizing t s with
  | nil => exact h t s hclears
  | cons k ks ih =>
      rw [updateAll, Prog.bind_assoc]
      refine keeps_updateRow (fun sn cur hsn hcur hnot => ih ?_)
        fun sn cur r r' hcur hr hq hr' => ?_
      · refine hclears.skip hf hsn hcur (hnot.imp ?_ ?_)
        · rintro hmiss ⟨r, hr, href⟩
          rw [found_eq_true.mpr ⟨r, hr, (hp k r).mpr href⟩] at hmiss
          cases hmiss
        · rintro hmiss ⟨r, hr, href⟩
          rw [found_eq_true.mpr ⟨r, hr, (hp k r).mpr href⟩] at hmiss
          cases hmiss
      · obtain rfl := Except.ok.inj hr'
        exact ih (hclears.clear hf exclusive_noKeyUpdate hcur hr ((hp k r).mp hq))

theorem keeps_updateWhere {k₀ : κ} {r : ρ k₀} (hr : F.ref k₀ r = none)
    {f : (k : κ) → ρ k → ρ k} {p : (k : κ) → ρ k → Bool}
    (hp : ∀ k r, p k r = true ↔ F.ref k r = some k₀) (hf : ∀ k r, F.ref k (f k r) = none)
    {post : Post ρ γ} {toErr : σ → ε} {next : Unit → Prog ρ σ ε γ}
    (h : ∀ t s, F.Clears t s k₀ f [] → F.Keeps (next ()) post (some t) s done) :
    F.Keeps ((updateWhere toErr p f).bind next) post
      (some (({} : Tx ρ).hold k₀ .update (.set r))) s done := by
  rw [updateWhere, Prog.bind_assoc]
  exact keeps_select fun s' _ => keeps_updateAll hp hf (clears_taken hr hp) h

section Soundness

variable {s s' : Config ι ρ σ ε α} {i : ι} {c : Store ρ}
  {post : ι → α → List (Store ρ × Store ρ) → Prop}

def final (P : α → List (Store ρ × Store ρ) → Prop) : Post ρ α :=
  fun a _ _ done => P a done

theorem keeps_map {P : β → List (Store ρ × Store ρ) → Prop} {p : Prog ρ σ ε α} (f : α → β)
    {c : Store ρ} (h : F.Keeps p (final fun a done => P (f a) done) o c done) :
    F.Keeps (f <$> p) (final P) o c done := by
  rw [Prog.map_eq, keeps_bind]
  exact h

/-- A process holds the locks of its transaction, and has seen a committed store since which the
others have only interfered. -/
structure Holds (F : References ρ) (s : Config ι ρ σ ε α) (i : ι) (o : Option (Tx ρ))
    (c : Store ρ) : Prop where
  tx : (s.procs i).tx = o.map Tx.writes
  locked : ∀ k m, (k, m) ∈ (o.getD {}).locks → ⟨i, k, m⟩ ∈ s.locks
  owned : ∀ w ∈ (o.getD {}).writes, ∃ m, (w.key, m) ∈ (o.getD {}).locks ∧ m.exclusive
  now : F.Interferes (o.getD {}).locks c s.db
  snapshot : ∀ v, (s.procs i).snapshot = some v → ∃ sn, v = (o.getD {}).view sn ∧
    F.Interferes (o.getD {}).locks c sn ∧ F.Interferes (o.getD {}).locks sn s.db

theorem Holds.view_eq (h : F.Holds s i o c) : s.view i = (o.getD {}).view s.db := by
  rw [Config.view, h.tx, Tx.view]
  cases o with
  | none => rfl
  | some t => rfl

/-- What a process holds outlives the steps of the others. -/
theorem Holds.frame (h : F.Holds s i o c) (hproc : s'.procs i = s.procs i)
    (hlocks : ∀ l ∈ s.locks, l.proc = i → l ∈ s'.locks)
    (hdb : F.Interferes (o.getD {}).locks s.db s'.db) : F.Holds s' i o c where
  tx := by
    rw [hproc]
    exact h.tx
  locked k m hk := hlocks _ (h.locked k m hk) rfl
  owned := h.owned
  now := h.now.trans hdb
  snapshot v hv := by
    rw [hproc] at hv
    obtain ⟨sn, hview, hsn, hnow⟩ := h.snapshot v hv
    exact ⟨sn, hview, hsn, hnow.trans hdb⟩

theorem holds_idle {p : Prog ρ σ ε α} (hproc : s'.procs i = ⟨p, none, none⟩)
    (hnow : F.Interferes [] c s'.db) : F.Holds s' i none c where
  tx := by rw [hproc]; rfl
  locked _ _ hk := by cases hk
  owned _ hw := by cases hw
  now := hnow
  snapshot _ hv := by rw [hproc] at hv; cases hv

variable [DecidableEq ι]

structure Sound (F : References ρ) (post : ι → α → List (Store ρ × Store ρ) → Prop)
    (s : Config ι ρ σ ε α) : Prop where
  exclusive : Exclusive s.locks
  intact : F.Intact s.db
  past : ∀ c ∈ s.commits, F.Intact c.before
  procs : ∀ i, ∃ o c, F.Holds s i o c ∧
    F.Keeps (s.procs i).prog (final (post i)) o c (s.ownCommits i)

theorem Sound.update (h : F.Sound post s) (i : ι)
    (hprocs : ∀ j, j ≠ i → s'.procs j = s.procs j) (hexclusive : Exclusive s'.locks)
    (hintact : F.Intact s'.db) (hpast : ∀ c ∈ s'.commits, F.Intact c.before)
    (hcommits : ∀ j, j ≠ i → s'.ownCommits j = s.ownCommits j)
    (hlocks : ∀ l ∈ s.locks, l.proc ≠ i → l ∈ s'.locks)
    (hdb : ∀ j o c, j ≠ i → F.Holds s j o c → F.Interferes (o.getD {}).locks s.db s'.db)
    (hi : ∃ o c, F.Holds s' i o c ∧
      F.Keeps (s'.procs i).prog (final (post i)) o c (s'.ownCommits i)) : F.Sound post s' := by
  refine ⟨hexclusive, hintact, hpast, fun j => ?_⟩
  by_cases hj : j = i
  · exact hj ▸ hi
  · obtain ⟨o, c, hholds, hkeeps⟩ := h.procs j
    rw [hprocs j hj, hcommits j hj]
    exact ⟨o, c, hholds.frame (hprocs j hj) (fun l hl hproc => hlocks l hl (hproc ▸ hj))
      (hdb j o c hj hholds), hkeeps⟩

theorem Sound.setProc (h : F.Sound post s) {p : Proc ρ σ ε α} (o : Option (Tx ρ)) (c : Store ρ)
    (hp : F.Holds (s.setProc i p) i o c)
    (hkeeps : F.Keeps p.prog (final (post i)) o c (s.ownCommits i)) :
    F.Sound post (s.setProc i p) := by
  refine h.update i (fun _ hj => setProc_procs_of_ne s i hj p) h.exclusive h.intact h.past
    (fun _ _ => rfl) (fun _ hl _ => hl) (fun _ _ _ _ _ => .refl _ _) ⟨o, c, hp, ?_⟩
  rwa [setProc_procs_self]

theorem Sound.acquire (h : F.Sound post s) {k : κ} {m : LockMode}
    (hfree : ∀ l ∈ s.locks, l.proc ≠ i → l.key = k → l.mode.conflicts m = false) :
    F.Sound post (s.acquire i k m) := by
  refine ⟨h.exclusive.cons hfree, h.intact, h.past, fun j => ?_⟩
  obtain ⟨o, c, hholds, hkeeps⟩ := h.procs j
  exact ⟨o, c, hholds.frame rfl (fun _ hl _ => List.mem_cons_of_mem _ hl) (.refl _ _), hkeeps⟩

theorem Sound.abandon (h : F.Sound post s) {p : Prog ρ σ ε α} (hnow : F.Interferes [] c s.db)
    (hp : F.Keeps p (final (post i)) none c (s.ownCommits i)) : F.Sound post (s.abandon i p) := by
  refine h.update i (fun j hj => abandon_procs_of_ne s i hj p)
    (h.exclusive.mono (List.filter_subset_self _)) h.intact h.past (fun _ _ => rfl)
    (fun l hl hproc => List.mem_filter.mpr ⟨hl, by simpa using hproc⟩)
    (fun _ _ _ _ _ => .refl _ _) ⟨none, c, holds_idle (abandon_procs_self s i p) hnow, ?_⟩
  rwa [abandon_procs_self]

/-- What one process commits under its locks, the others see as interference with theirs. -/
theorem interferes_of_guarded (h : F.Sound post s) {t : Tx ρ} (hi : F.Holds s i (some t) c)
    (hguarded : F.Guarded t.locks s.db (t.view s.db)) {j : ι} (hj : j ≠ i) {o : Option (Tx ρ)}
    {c' : Store ρ} (hother : F.Holds s j o c') :
    F.Interferes (o.getD {}).locks s.db (t.view s.db) := by
  have hconflict : ∀ {k m m'}, (k, m) ∈ t.locks → (k, m') ∈ (o.getD {}).locks →
      m.conflicts m' = false := fun hk hk' =>
    h.exclusive _ (hi.locked _ _ hk) _ (hother.locked _ _ hk') rfl (Ne.symm hj)
  refine ⟨fun k m hk hm => ?_, fun k m hk ha => ?_, fun k k' hk href => ?_⟩
  · refine lookup_applyAll_of_forall_ne (fun w hw hkey => ?_) s.db
    obtain ⟨m', hk', hm'⟩ := hi.owned w hw
    have hfree := hconflict (hkey ▸ hk') hk
    rw [LockMode.conflicts_of_exclusive hm' hm] at hfree
    cases hfree
  · refine (hguarded.alive k ha).resolve_right fun hk' => ?_
    have hfree := hconflict hk' hk
    cases m <;> cases hfree
  · refine (hguarded.fresh k k' href).resolve_right fun ⟨m, hk'⟩ => ?_
    have hfree := hconflict hk' hk
    cases m <;> cases hfree

theorem Sound.publish (h : F.Sound post s) {t : Tx ρ} {p : Prog ρ σ ε α}
    (hi : F.Holds s i (some t) c) (hguarded : F.Guarded t.locks s.db (t.view s.db))
    (hp : F.Keeps p (final (post i)) none (t.view s.db)
      ((s.db, t.view s.db) :: s.ownCommits i)) : F.Sound post (s.publish i t.writes p) := by
  refine h.update i (fun j hj => publish_procs_of_ne s i t.writes p hj)
    (h.exclusive.mono (List.filter_subset_self _)) hguarded.intact ?_
    (fun j hj => publish_ownCommits_of_ne s i t.writes p hj)
    (fun l hl hproc => List.mem_filter.mpr ⟨hl, by simpa using hproc⟩)
    (fun j o c' hj hother => interferes_of_guarded h hi hguarded hj hother)
    ⟨none, t.view s.db, holds_idle (publish_procs_self s i t.writes p) (.refl _ _), ?_⟩
  · intro c' hc'
    rcases List.mem_cons.mp hc' with rfl | hc'
    · exact h.intact
    · exact h.past c' hc'
  · rw [publish_procs_self, publish_ownCommits_self]
    exact hp

theorem Sound.hold (h : F.Sound post s) {t : Tx ρ} {k : κ} {m : LockMode} {ch : Change ρ k}
    {p : Prog ρ σ ε α} (hi : F.Holds s i (some t) c)
    (hfree : ∀ l ∈ s.locks, l.proc ≠ i → l.key = k → l.mode.conflicts m = false)
    (hm : m.exclusive = false → ch = .keep)
    (hp : F.Keeps p (final (post i)) (some (t.hold k m ch)) s.db (s.ownCommits i)) :
    F.Sound post ((s.acquire i k m).setProc i ⟨p, some (t.writes ++ ch.writes), none⟩) := by
  refine (h.acquire hfree).setProc (some (t.hold k m ch)) s.db ⟨?_, ?_, ?_, .refl _ _, ?_⟩ hp
  · rw [setProc_procs_self]
    rfl
  · intro k' m' hk'
    rcases List.mem_cons.mp hk' with heq | hk'
    · obtain ⟨rfl, rfl⟩ := Prod.mk.inj heq
      exact List.mem_cons_self
    · exact List.mem_cons_of_mem _ (hi.locked k' m' hk')
  · intro w hw
    rcases List.mem_append.mp hw with hw | hw
    · obtain ⟨m', hk', hm'⟩ := hi.owned w hw
      exact ⟨m', List.mem_cons_of_mem _ hk', hm'⟩
    · refine ⟨m, Change.key_of_mem_writes hw ▸ List.mem_cons_self, ?_⟩
      by_contra hshared
      obtain rfl := hm (by simpa using hshared)
      cases hw
  · rw [setProc_procs_self]
    exact fun _ hv => by cases hv

theorem Sound.execute (h : F.Sound post s) {st : Statement ρ σ β}
    {next : Except σ β → Prog ρ σ ε α} {ws : List (Write ρ)} {v : Store ρ}
    (hprog : (s.procs i).prog = .exec st next) (htx : (s.procs i).tx = some ws)
    (hv : (s.procs i).snapshot = some v) : F.Sound post (s.execute i st next ws v) := by
  obtain ⟨o, c, hi, hkeeps⟩ := h.procs i
  rw [hprog] at hkeeps
  obtain ⟨t, rfl, rfl⟩ : ∃ t, o = some t ∧ t.writes = ws :=
    Option.map_eq_some_iff.mp (hi.tx.symm.trans htx)
  obtain ⟨sn, hsnap, hsn, hnow⟩ := hi.snapshot v hv
  obtain rfl : v = t.view sn := hsnap
  obtain ⟨hmiss, hhit⟩ := hkeeps t rfl sn s.db hsn hnow
  have hview : s.view i = t.view s.db := hi.view_eq
  rcases s.execute_cases i st next t.writes (t.view sn) with
    ⟨he, hq⟩ | ⟨he, -⟩ | ⟨hq, hfree, hq', ⟨e, hr, he⟩ | ⟨ch, b, hr, he⟩⟩ <;> rw [he]
  · rw [hview] at hq
    refine h.setProc (some t) s.db ⟨?_, hi.locked, hi.owned, .refl _ _, ?_⟩ (hmiss hq)
    · rw [setProc_procs_self]
      rfl
    · rw [setProc_procs_self]
      exact fun _ hv => by cases hv
  · exact h
  · rw [hview] at hq' hr
    have hnext := hhit hq hq'
    simp only [hr] at hnext
    exact h.abandon (.refl _ _) hnext
  · rw [hview] at hq' hr
    have hnext := hhit hq hq'
    simp only [hr] at hnext
    exact h.hold hi (fun l hl => s.conflicts_eq_false_of_not_blocked i hfree hl)
      (fun hm => st.keep_of_shared hm _ _ _ _ hr) hnext

theorem Sound.advance (h : F.Sound post s) (i : ι) (fresh : Nat) :
    F.Sound post (s.advance i fresh) := by
  obtain ⟨o, c, hi, hkeeps⟩ := h.procs i
  have hsome : ∀ {ws}, (s.procs i).tx = some ws → ∃ t, o = some t ∧ t.writes = ws :=
    fun htx => Option.map_eq_some_iff.mp (hi.tx.symm.trans htx)
  unfold Config.advance
  split
  case h_1 hprog =>
    rw [hprog] at hkeeps
    exact h.abandon (hi.now.mono (List.nil_subset _)) hkeeps
  case h_2 => exact h.abandon (hi.now.mono (List.nil_subset _)) keeps_throw
  case h_3 hprog =>
    rw [hprog] at hkeeps
    rw [hi.view_eq]
    refine h.setProc o s.db ⟨?_, hi.locked, hi.owned, .refl _ _, ?_⟩ (hkeeps s.db hi.now)
    · rw [setProc_procs_self]
      exact hi.tx
    · rw [setProc_procs_self]
      exact fun _ hv => by cases hv
  case h_4 hprog htx =>
    rw [hprog] at hkeeps
    obtain rfl : o = none := Option.map_eq_none_iff.mp (hi.tx.symm.trans htx)
    refine h.setProc (some {}) c ⟨?_, hi.locked, hi.owned, hi.now, ?_⟩ (hkeeps rfl)
    · rw [setProc_procs_self]
      rfl
    · rw [setProc_procs_self]
      exact fun _ hv => by cases hv
  case h_6 hprog htx =>
    rw [hprog] at hkeeps
    obtain ⟨t, rfl, rfl⟩ := hsome htx
    obtain ⟨hguarded, hnext⟩ := hkeeps t rfl s.db hi.now h.intact
    exact h.publish hi hguarded hnext
  case h_8 hprog _ =>
    rw [hprog] at hkeeps
    exact h.abandon (hi.now.mono (List.nil_subset _)) hkeeps
  case h_10 key next ws hprog htx =>
    rw [hprog] at hkeeps
    obtain ⟨t, rfl, rfl⟩ := hsome htx
    split
    · rename_i hfree
      obtain ⟨hnone, hunlocked⟩ := hfree
      have hnone := Option.isNone_iff_eq_none.mp hnone
      have hheld := h.hold (m := .update) hi (fun l hl _ hkey => absurd hkey (by
        simpa using List.all_eq_true.mp hunlocked l hl)) (fun hm => by cases hm)
        (hkeeps t rfl fresh s.db hi.now hnone)
      have hws : t.writes ++ (Change.keep : Change ρ (key fresh)).writes = t.writes :=
        List.append_nil _
      rwa [hws] at hheld
    · exact h
  case h_12 hprog htx =>
    split
    · refine h.setProc o c ⟨?_, hi.locked, hi.owned, hi.now, ?_⟩ (by rwa [hprog] at hkeeps)
      · rw [setProc_procs_self, ← htx]
        exact hi.tx
      · rw [setProc_procs_self]
        intro v hv
        rw [← Option.some.inj hv]
        exact ⟨s.db, hi.view_eq, hi.now, .refl _ _⟩
    · exact h.execute hprog htx ‹_›
  all_goals exact h

theorem Sound.step (h : F.Sound post s) (fault : ε) (c : Choice ι) :
    F.Sound post (step fault s c) := by
  rcases step_cases fault s c with ⟨fresh, -, he⟩ | he | ⟨-, -, he⟩ <;> rw [he]
  · exact h.advance c.proc fresh
  · exact h
  · obtain ⟨o, c', hi, -⟩ := h.procs c.proc
    exact h.abandon (hi.now.mono (List.nil_subset _)) keeps_throw

theorem Sound.run (h : F.Sound post s) (fault : ε) (cs : List (Choice ι)) :
    F.Sound post (run fault s cs) := by
  induction cs generalizing s with
  | nil => exact h
  | cons c cs ih => exact ih (h.step fault c)

theorem sound_start {db : Store ρ} (hdb : F.Intact db) {progs : ι → Prog ρ σ ε α}
    (h : ∀ i, F.Keeps (progs i) (final (post i)) none db []) : F.Sound post (start db progs) :=
  ⟨fun _ hl => (by cases hl), hdb, fun _ hc => (by cases hc), fun i =>
    ⟨none, db, holds_idle rfl (.refl _ _), h i⟩⟩

theorem Sound.answered (h : F.Sound post s) {a : α} (ha : (s.procs i).prog = .ret a) :
    post i a (s.ownCommits i) := by
  obtain ⟨o, c, -, hkeeps⟩ := h.procs i
  rw [ha] at hkeeps
  exact hkeeps

end Soundness

attribute [irreducible] Keeps

end References

end PersonalDashboard.ForeignKeys
