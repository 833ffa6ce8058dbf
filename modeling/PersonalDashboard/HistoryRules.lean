import PersonalDashboard.RowHistories

/-! The rules of the statements on one row, and of updates of many, for programs that follow a
discipline of row histories. -/

set_option autoImplicit false

namespace PersonalDashboard.RowHistories.Discipline

open PersonalDashboard.ReadCommitted
open PersonalDashboard.RowStatements
open PersonalDashboard.RowStore

variable {ι κ : Type} [DecidableEq κ] {ρ : κ → Type} {σ ε α β γ : Type}
  {D : Discipline ι ρ} {i : ι} {K : Knowledge ρ}

variable {post : Post ρ ε γ} {toErr : σ → ε} {e : ε} {k : κ} {p : ρ k → Bool}

theorem makes_set {seen : List (Store ρ)} {cur : Store ρ} {v : Option (ρ k)} {r : ρ k}
    (hv : cur.lookup k = v) (h : D.Makes i seen k v (some r)) :
    D.Makes i seen k (cur.lookup k) (((Change.set r).apply cur).lookup k) := by
  change D.Makes i seen k _ ((put cur k (some r)).lookup k)
  rwa [hv, lookup_put_self]

theorem follows_updateRow {mode : LockMode} {hmode : mode.exclusive}
    {f : Store ρ → ρ k → Except σ (ρ k)} {next : Option (ρ k) → Prog ρ σ ε γ}
    (herr : ∀ x, post.MayEnd (.error (toErr x)) K)
    (hmiss : ∀ sn cur, D.Later K.rows K.last sn → D.Later K.rows sn cur →
      (found k p sn = false ∨ found k p cur = false) →
      D.Follows i (next none) post ((K.saw sn).look cur))
    (hhit : ∀ sn cur r r', D.Later K.rows K.last sn → D.Later K.rows sn cur →
      found k p sn = true → cur.lookup k = some r → p r = true → f sn r = .ok r' →
      D.Makes i (K.saw sn).seen k (some r) (some r') ∧
      D.Follows i (next (some r')) post ((K.saw sn).hold k (put cur k (some r')))) :
    D.Follows i ((execSql toErr (updateRow mode hmode k p f)).bind next) post K := by
  refine follows_execSql herr hmiss fun sn cur c b hsn hcur hfound hq hr => ?_
  obtain ⟨r, r', hrow, hp, hf, rfl, rfl⟩ := updateRow_hit hq hr
  obtain ⟨hmakes, hnext⟩ := hhit sn cur r r' hsn hcur hfound hrow hp hf
  refine ⟨makes_set hrow hmakes, ?_⟩
  change D.Follows i (next (some r')) post
    (if mode.exclusive then (K.saw sn).hold k (put cur k (some r')) else (K.saw sn).look cur)
  rwa [if_pos hmode]

theorem follows_insertRow {constraints : Store ρ → Except σ Unit} {r : ρ k}
    {next : ρ k → Prog ρ σ ε γ} (herr : ∀ x, post.MayEnd (.error (toErr x)) K)
    (hhit : ∀ sn cur, D.Later K.rows K.last sn → D.Later K.rows sn cur →
      constraints cur = .ok () →
      D.Makes i (K.saw sn).seen k (cur.lookup k) (some r) ∧
      D.Follows i (next r) post ((K.saw sn).hold k (put cur k (some r)))) :
    D.Follows i ((execSql toErr (insertRow k constraints r)).bind next) post K := by
  refine follows_execSql herr ?_ fun sn cur c b hsn hcur _ _ hr => ?_
  · rintro sn cur - - (hq | hq) <;> cases hq
  obtain ⟨hok, rfl, rfl⟩ := insertRow_hit hr
  obtain ⟨hmakes, hnext⟩ := hhit sn cur hsn hcur hok
  exact ⟨makes_set rfl hmakes, hnext⟩

theorem follows_lockSlot {f : Store ρ → β} {next : Option β → Prog ρ σ ε γ}
    (herr : ∀ x, post.MayEnd (.error (toErr x)) K)
    (h : ∀ sn cur, D.Later K.rows K.last sn → D.Later K.rows sn cur →
      D.Follows i (next (some (f cur))) post ((K.saw sn).hold k cur)) :
    D.Follows i ((execSql toErr (lockSlot k f)).bind next) post K := by
  refine follows_execSql herr ?_ fun sn cur c b hsn hcur _ _ hr => ?_
  · rintro sn cur - - (hq | hq) <;> cases hq
  obtain ⟨rfl, rfl⟩ := lockSlot_hit hr
  exact ⟨.refl, h sn cur hsn hcur⟩

/-- Within a transaction, a process that has gone on from one state of knowledge to another. -/
structure Onward (D : Discipline ι ρ) (K K' : Knowledge ρ) : Prop where
  seen : K.seen ⊆ K'.seen
  bound : K'.tx.map Prod.fst = K.tx.map Prod.fst
  last : D.Later [] K.last K'.last

theorem Onward.refl (K : Knowledge ρ) : Onward D K K :=
  ⟨List.Subset.refl _, rfl, Later.refl _ _⟩

theorem Onward.trans {K K' K'' : Knowledge ρ} (h : Onward D K K') (h' : Onward D K' K'') :
    Onward D K K'' :=
  ⟨List.Subset.trans h.seen h'.seen, h'.bound.trans h.bound, h.last.trans h'.last⟩

theorem onward_look (sn : Store ρ) {s : Store ρ} (h : D.Later K.rows K.last s) :
    Onward D K ((K.saw sn).look s) :=
  ⟨K.seen_subset_saw sn, rfl, h.forget⟩

theorem onward_hold (sn : Store ρ) {s : Store ρ} (k : κ) (h : D.Later [] K.last s) :
    Onward D K ((K.saw sn).hold k s) := by
  refine ⟨K.seen_subset_saw sn, ?_, h⟩
  rw [Knowledge.hold, Option.map_map]
  rfl

theorem onward_fresh {s : Store ρ} (k : κ) (h : D.Later [] K.last s) : Onward D K (K.hold k s) := by
  refine ⟨List.Subset.refl _, ?_, h⟩
  rw [Knowledge.hold, Option.map_map]
  rfl

theorem follows_whenever {c : Prop} [Decidable c] {q : Prog ρ σ ε Unit}
    {next : Unit → Prog ρ σ ε γ}
    (hq : c → (∀ K', Onward D K K' → D.Follows i (next ()) post K') →
      D.Follows i (q.bind next) post K)
    (h : ∀ K', Onward D K K' → D.Follows i (next ()) post K') :
    D.Follows i ((whenever c q).bind next) post K := by
  unfold whenever
  split
  · exact hq ‹_› h
  · exact h K (Onward.refl K)

theorem follows_selectFor {β : Type} {mode : LockMode} {proj : ρ k → β}
    {next : Option β → Prog ρ σ ε γ} (herr : ∀ x, post.MayEnd (.error (toErr x)) K)
    (h : ∀ b K', Onward D K K' → D.Follows i (next b) post K') :
    D.Follows i ((execSql toErr (selectFor mode k p proj)).bind next) post K := by
  refine follows_execSql herr ?_ fun sn cur c b hsn hcur _ hq hr => ?_
  · exact fun sn cur hsn hcur _ => h none _ (onward_look sn (hsn.trans hcur))
  · obtain ⟨r, -, -, rfl, -⟩ := selectFor_hit hq hr
    refine ⟨.refl, h b _ ?_⟩
    split
    · exact onward_hold sn k (hsn.trans hcur).forget
    · exact onward_look sn (hsn.trans hcur)

theorem onward_transaction {K' : Knowledge ρ} (htx : K.tx = none)
    (h : Onward D K.beginTx K') : Onward D K K'.commitTx :=
  ⟨h.seen, congrArg (Option.map Prod.fst) htx.symm, h.last⟩

theorem follows_foreignKey {violation : σ} {next : Unit → Prog ρ σ ε γ}
    (herr : ∀ x, post.MayEnd (.error (toErr x)) K)
    (h : ∀ K', Onward D K K' → D.Follows i (next ()) post K') :
    D.Follows i ((foreignKey toErr violation k).bind next) post K := by
  rw [foreignKey, Prog.bind_assoc]
  refine follows_execSql herr ?_ fun sn cur c b hsn hcur _ hq hr => ?_
  · intro sn cur hsn hcur _
    exact follows_failIf (fun _ => herr _ _ (K.seen_subset_saw sn)) fun hc => (by cases hc)
  · obtain ⟨r, hr', -, rfl, rfl⟩ := selectFor_hit hq hr
    exact ⟨.refl, follows_failIf (fun hc => (by cases hc))
      fun _ => h _ (onward_look sn (hsn.trans hcur))⟩

theorem later_put {k : κ} {s : Store ρ} {r : Option (ρ k)}
    (h : D.Evolves k (s.lookup k) r) : D.Later [] s (put s k r) := by
  refine ⟨fun _ hk => (by cases hk), fun k' => ?_⟩
  by_cases hk : k' = k
  · subst hk
    rwa [lookup_put_self]
  · rw [lookup_put_of_ne hk]
    exact D.evolves_refl _ _

theorem onward_put {k : κ} (sn : Store ρ) {cur : Store ρ} {r : Option (ρ k)} {seen : List (Store ρ)}
    (hlast : D.Later K.rows K.last cur) (h : D.Allows i seen k (cur.lookup k) r) :
    Onward D K ((K.saw sn).hold k (put cur k r)) :=
  onward_hold sn k (hlast.forget.trans (later_put (D.evolves_of_allows h)))

/-- `UPDATE … SET f WHERE p` over the given rows: afterwards each of them satisfies what the
rows that `p` does not hold of satisfy, and what `f` makes of the others. -/
theorem follows_updateAll {p : (k : κ) → ρ k → Bool} {f : (k : κ) → ρ k → ρ k}
    {Q : (k : κ) → Option (ρ k) → Prop} {ks : List κ} {next : Unit → Prog ρ σ ε γ}
    (herr : ∀ x, post.MayEnd (.error (toErr x)) K)
    (hstable : ∀ k r r', D.Evolves k r r' → Q k r → Q k r')
    (hallows : ∀ k r, p k r = true → D.Allows i K.seen k (some r) (some (f k r)))
    (hset : ∀ k r, p k r = true → Q k (some (f k r)))
    (hmiss : ∀ k ∈ ks, ∀ r, D.Evolves k (K.last.lookup k) r → r.any (p k) = false → Q k r)
    (h : ∀ K', Onward D K K' → (∀ k ∈ ks, Q k (K'.last.lookup k)) →
      D.Follows i (next ()) post K') :
    D.Follows i ((updateAll toErr p f ks).bind next) post K := by
  induction ks generalizing K with
  | nil => exact h K (Onward.refl K) fun _ hk => (by cases hk)
  | cons k ks ih =>
      rw [updateAll, Prog.bind_assoc]
      have hrest : ∀ K', Onward D K K' → Q k (K'.last.lookup k) →
          D.Follows i ((updateAll toErr p f ks).bind next) post K' := by
        intro K' hK' hQ
        refine ih (fun x => (herr x).mono hK'.seen)
          (fun k r hp => D.allows_mono hK'.seen (hallows k r hp)) ?_
          fun K'' hK'' hall => ?_
        · exact fun k' hk' r hr => hmiss k' (List.mem_cons_of_mem _ hk') r
            (D.evolves_trans (hK'.last.evolves k') hr)
        · refine h K'' (hK'.trans hK'') fun k' hk' => ?_
          rcases List.mem_cons.mp hk' with rfl | hk'
          · exact hstable k' _ _ (hK''.last.evolves k') hQ
          · exact hall k' hk'
      refine follows_updateRow herr ?_ ?_
      · intro sn cur hsn hcur hq
        refine hrest _ (onward_look sn (hsn.trans hcur)) ?_
        rcases hq with hq | hq
        · exact hstable k _ _ (hcur.evolves k)
            (hmiss k List.mem_cons_self _ (hsn.evolves k) hq)
        · exact hmiss k List.mem_cons_self _ ((hsn.trans hcur).evolves k) hq
      · intro sn cur r r' hsn hcur _ hr hp hf
        obtain rfl := Except.ok.inj hf
        refine ⟨.single (D.allows_mono (K.seen_subset_saw sn) (hallows k r hp)),
          hrest _ (onward_hold sn k ((hsn.trans hcur).forget.trans ?_)) ?_⟩
        · refine later_put ?_
          rw [hr]
          exact D.evolves_of_allows (hallows k r hp)
        · change Q k ((put cur k (some (f k r))).lookup k)
          rw [lookup_put_self]
          exact hset k r hp

end PersonalDashboard.RowHistories.Discipline
