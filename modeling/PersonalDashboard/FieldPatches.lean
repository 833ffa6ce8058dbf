import PersonalDashboard.HistoryRules

/-! Rows that many processes patch: each lays its own patch over the latest version of a row, and
every field holds what the last committed patch that sets it has written. -/

set_option autoImplicit false

namespace PersonalDashboard.FieldPatches

open PersonalDashboard.ReadCommitted
open PersonalDashboard.RowHistories
open PersonalDashboard.RowHistories.Discipline
open PersonalDashboard.RowStore

/-- The rows that each process may insert under a key, the patch that it lays over a row, and
when it does so, given the committed stores that it has read. -/
structure Patches (ι : Type) {κ : Type} (ρ : κ → Type) where
  Inserts : ι → List (Store ρ) → (k : κ) → ρ k → Prop
  patch : ι → (k : κ) → ρ k → ρ k
  Guard : ι → List (Store ρ) → (k : κ) → ρ k → Prop
  patch_patch : ∀ i k r, patch i k (patch i k r) = patch i k r
  inserts_mono : ∀ {i seen seen' k r}, seen ⊆ seen' → Inserts i seen k r → Inserts i seen' k r
  guard_mono : ∀ {i seen seen' k r}, seen ⊆ seen' → Guard i seen k r → Guard i seen' k r

variable {ι κ : Type} {ρ : κ → Type} {σ ε β γ : Type}

namespace Patches

variable (P : Patches ι ρ)

inductive Change (i : ι) (seen : List (Store ρ)) (k : κ) :
    Option (ρ k) → Option (ρ k) → Prop where
  | insert {r : ρ k} (h : P.Inserts i seen k r) : Change i seen k none (some r)
  | patch (r : ρ k) (h : P.Guard i seen k r) : Change i seen k (some r) (some (P.patch i k r))

variable {P}

theorem Change.mono {i : ι} {seen seen' : List (Store ρ)} {k : κ} {v v' : Option (ρ k)}
    (hsub : seen ⊆ seen') (h : P.Change i seen k v v') : P.Change i seen' k v v' := by
  cases h with
  | insert h => exact .insert (P.inserts_mono hsub h)
  | patch r h => exact .patch r (P.guard_mono hsub h)

/-- The row that a process starts from: the stored one, or the one that it inserts. -/
def Based (P : Patches ι ρ) (i : ι) (seen : List (Store ρ)) (k : κ) (v : Option (ρ k)) (r : ρ k) :
    Prop :=
  v = some r ∨ v = none ∧ P.Inserts i seen k r

/-- What one commit does to a row: nothing, an insertion, a patch, or both. -/
def Step (P : Patches ι ρ) (i : ι) (k : κ) (v v' : Option (ρ k)) : Prop :=
  v' = v ∨ ∃ seen r, P.Based i seen k v r ∧ (v' = some r ∨ v' = some (P.patch i k r))

section Steps

variable {i : ι} {k : κ} {v : Option (ρ k)} {r : ρ k}

theorem step_insert (hv : v = none) (h : ∃ seen, P.Inserts i seen k r) : P.Step i k v (some r) := by
  obtain ⟨seen, h⟩ := h
  exact Or.inr ⟨seen, r, Or.inr ⟨hv, h⟩, Or.inl rfl⟩

theorem step_patch (hv : v = some r) : P.Step i k v (some (P.patch i k r)) :=
  Or.inr ⟨[], r, Or.inl hv, Or.inr rfl⟩

theorem eq_none_of_step (h : P.Step i k v none) : v = none := by
  rcases h with hv | ⟨_, r, -, hr | hr⟩
  · exact hv.symm
  · cases hr
  · cases hr

end Steps

/-- A field of the rows under a key: a patch sets it to a new value or keeps it. -/
structure Field (P : Patches ι ρ) (k : κ) (β : Type) where
  get : ρ k → β
  sets : ι → Option β
  get_patch : ∀ i r, get (P.patch i k r) = (sets i).getD (get r)

section Fields

variable [DecidableEq κ] [(k : κ) → DecidableEq (ρ k)]

variable (P) in
/-- A commit after which a row is as the patch of its process leaves it. -/
def Leaves (k : κ) (c : Commit ι ρ) : Bool :=
  (c.after.lookup k).any fun r => P.patch c.proc k r = r

variable (P) in
/-- A row under the patches of the commits that leave it so, one after the other; the newest
comes first. -/
def patched (k : κ) (cs : List (Commit ι ρ)) (r : ρ k) : ρ k :=
  (cs.filter (P.Leaves k)).foldr (fun c => P.patch c.proc k) r

/-- What the last of the commits that set a field has set it to; the newest comes first. -/
def Field.lastSet {k : κ} (f : P.Field k β) (cs : List (Commit ι ρ)) : Option β :=
  (cs.filter (P.Leaves k)).findSome? fun c => f.sets c.proc

variable {k : κ} {db₀ db : Store ρ} {cs : List (Commit ι ρ)}

theorem leaves_iff {c : Commit ι ρ} {r : ρ k} (h : c.after.lookup k = some r) :
    P.Leaves k c = true ↔ P.patch c.proc k r = r := by
  rw [Leaves, h, Option.any_some, decide_eq_true_eq]

theorem patched_cons {c : Commit ι ρ} {r r' r₀ : ρ k} (hr : c.after.lookup k = some r)
    (h : r = r' ∨ r = P.patch c.proc k r') (hr' : r' = P.patched k cs r₀) :
    r = P.patched k (c :: cs) r₀ := by
  rw [patched, List.filter_cons]
  split
  · rename_i hpatch
    rw [List.foldr_cons, ← patched, ← hr']
    rcases h with rfl | h
    · exact ((leaves_iff hr).mp hpatch).symm
    · exact h
  · rename_i hpatch
    rcases h with rfl | rfl
    · exact hr'
    · exact absurd ((leaves_iff hr).mpr (P.patch_patch _ _ _)) hpatch

theorem Field.get_patched (f : P.Field k β) (cs : List (Commit ι ρ)) (r : ρ k) :
    f.get (P.patched k cs r) = (f.lastSet cs).getD (f.get r) := by
  rw [patched, lastSet]
  induction cs.filter (P.Leaves k) with
  | nil => rfl
  | cons c cs ih =>
      rw [List.foldr_cons, f.get_patch, ih, List.findSome?_cons]
      cases f.sets c.proc with
      | none => rfl
      | some b => rfl

theorem absent_of_chained (h : ∀ c ∈ cs, P.Step c.proc k (c.before.lookup k) (c.after.lookup k))
    (hchain : Chained db₀ cs db) (hdb : db.lookup k = none) :
    db₀.lookup k = none ∧ cs.filter (P.Leaves k) = [] := by
  induction cs generalizing db with
  | nil => exact ⟨(show db = db₀ from hchain) ▸ hdb, rfl⟩
  | cons c cs ih =>
      obtain ⟨rfl, hchain⟩ := hchain
      have hstep := h c List.mem_cons_self
      rw [hdb] at hstep
      obtain ⟨hdb₀, hcs⟩ :=
        ih (fun c' hc' => h c' (List.mem_cons_of_mem c hc')) hchain (eq_none_of_step hstep)
      refine ⟨hdb₀, ?_⟩
      rw [List.filter_cons_of_neg, hcs]
      rw [Leaves, hdb, Option.any_none]
      exact Bool.false_ne_true

theorem exists_origin (h : ∀ c ∈ cs, P.Step c.proc k (c.before.lookup k) (c.after.lookup k))
    (hchain : Chained db₀ cs db) {r : ρ k} (hr : db.lookup k = some r) :
    ∃ r₀, (db₀.lookup k = some r₀ ∨
        db₀.lookup k = none ∧ ∃ c ∈ cs, ∃ seen, P.Inserts c.proc seen k r₀) ∧
      r = P.patched k cs r₀ := by
  induction cs generalizing db r with
  | nil => exact ⟨r, Or.inl ((show db = db₀ from hchain) ▸ hr), rfl⟩
  | cons c cs ih =>
      obtain ⟨rfl, hchain⟩ := hchain
      have hsteps := fun c' hc' => h c' (List.mem_cons_of_mem c hc')
      -- the row before the patch, if the commit is one
      obtain ⟨r', hr', hbased⟩ : ∃ r', (r = r' ∨ r = P.patch c.proc k r') ∧
          (c.before.lookup k = some r' ∨
            c.before.lookup k = none ∧ ∃ seen, P.Inserts c.proc seen k r') := by
        have hstep := h c List.mem_cons_self
        rw [hr] at hstep
        rcases hstep with hsame | ⟨seen, r', hbased, hr'⟩
        · exact ⟨r, Or.inl rfl, Or.inl hsame.symm⟩
        · refine ⟨r', ?_, hbased.imp_right fun h => ⟨h.1, seen, h.2⟩⟩
          rwa [Option.some.injEq, Option.some.injEq] at hr'
      rcases hbased with hbefore | ⟨hnone, hinserts⟩
      · obtain ⟨r₀, horigin, hpatched⟩ := ih hsteps hchain hbefore
        refine ⟨r₀, horigin.imp_right fun h => ⟨h.1, ?_⟩, patched_cons hr hr' hpatched⟩
        obtain ⟨c', hc', hinserts⟩ := h.2
        exact ⟨c', List.mem_cons_of_mem c hc', hinserts⟩
      · obtain ⟨hdb₀, hcs⟩ := absent_of_chained hsteps hchain hnone
        refine ⟨r', Or.inr ⟨hdb₀, c, List.mem_cons_self, hinserts⟩, patched_cons hr hr' ?_⟩
        rw [patched, hcs]
        rfl

/-- The value of a field, with one for a row that is missing. -/
def Field.shown (f : P.Field k β) (missing : β) (s : Store ρ) : β :=
  ((s.lookup k).map f.get).getD missing

/-- A field is what the last commit that set it has written, and otherwise what it was at first;
a row that is inserted must show what a missing one does. -/
theorem Field.shown_eq (f : P.Field k β) {missing : β}
    (h : ∀ c ∈ cs, P.Step c.proc k (c.before.lookup k) (c.after.lookup k))
    (hchain : Chained db₀ cs db)
    (hinsert : ∀ i seen r, P.Inserts i seen k r → f.get r = missing) :
    f.shown missing db = (f.lastSet cs).getD (f.shown missing db₀) := by
  cases hr : db.lookup k with
  | none =>
      obtain ⟨hdb₀, hcs⟩ := absent_of_chained h hchain hr
      rw [lastSet, hcs, shown, shown, hr, hdb₀]
      rfl
  | some r =>
      obtain ⟨r₀, horigin, rfl⟩ := exists_origin h hchain hr
      have hshown : f.shown missing db₀ = f.get r₀ := by
        rcases horigin with hr₀ | ⟨hdb₀, c, -, seen, hinserts⟩
        · rw [shown, hr₀]
          rfl
        · rw [shown, hdb₀]
          exact (hinsert _ _ _ hinserts).symm
      rw [hshown, ← f.get_patched, shown, hr]
      rfl

end Fields

variable (P) in
def discipline : Discipline ι ρ where
  Evolves k := Relation.ReflTransGen fun v v' => ∃ i seen, P.Change i seen k v v'
  Allows := P.Change
  evolves_refl _ _ := .refl
  evolves_trans h h' := h.trans h'
  allows_mono := Change.mono
  evolves_of_allows h := .single ⟨_, _, h⟩

section Histories

variable {i : ι} {seen : List (Store ρ)} {k : κ} {v v' : Option (ρ k)} {r : ρ k}

theorem exists_of_evolves {R : ρ k → ρ k → Prop} (hrefl : R r r)
    (hpatch : ∀ i r', R r r' → R r (P.patch i k r'))
    (h : P.discipline.Evolves k (some r) v) : ∃ r', v = some r' ∧ R r r' := by
  induction h with
  | refl => exact ⟨r, rfl, hrefl⟩
  | tail _ hstep ih =>
      obtain ⟨r', rfl, hr'⟩ := ih
      obtain ⟨i, seen, hchange⟩ := hstep
      cases hchange with
      | patch r' h => exact ⟨_, rfl, hpatch i r' hr'⟩

theorem makes_cases (h : P.discipline.Makes i seen k v v') :
    v' = v ∨ ∃ r, P.Based i seen k v r ∧
      (v' = some r ∨ P.Guard i seen k r ∧ v' = some (P.patch i k r)) := by
  induction h with
  | refl => exact Or.inl rfl
  | tail _ hstep ih =>
      cases hstep with
      | insert hinsert =>
          rcases ih with rfl | ⟨r, -, hr | ⟨-, hr⟩⟩
          · exact Or.inr ⟨_, Or.inr ⟨rfl, hinsert⟩, Or.inl rfl⟩
          · cases hr
          · cases hr
      | patch r hguard =>
          rcases ih with rfl | ⟨r', hbased, hr | ⟨hguard', hr⟩⟩
          · exact Or.inr ⟨r, Or.inl rfl, Or.inr ⟨hguard, rfl⟩⟩
          · obtain rfl := Option.some.inj hr
            exact Or.inr ⟨r, hbased, Or.inr ⟨hguard, rfl⟩⟩
          · obtain rfl := Option.some.inj hr
            exact Or.inr ⟨r', hbased, Or.inr ⟨hguard', by rw [P.patch_patch]⟩⟩

theorem step_of_makes (h : P.discipline.Makes i seen k v v') : P.Step i k v v' := by
  rcases makes_cases h with hv | ⟨r, hbased, hr | ⟨-, hr⟩⟩
  · exact Or.inl hv
  · exact Or.inr ⟨seen, r, hbased, Or.inl hr⟩
  · exact Or.inr ⟨seen, r, hbased, Or.inr hr⟩

variable [DecidableEq κ]

theorem steps_of_justified {cs : List (Commit ι ρ)} (h : Justified P.discipline cs) (k : κ) :
    ∀ c ∈ cs, P.Step c.proc k (c.before.lookup k) (c.after.lookup k) := by
  intro c hc
  obtain ⟨newer, older, rfl⟩ := List.append_of_mem hc
  obtain ⟨seen, -, hmakes⟩ := h.makes
  exact step_of_makes (hmakes k)

/-- What inserted rows satisfy, and patches and later changes of other rows keep, all rows
satisfy. A patch may rely on its guard, and on what the store has evolved from that its process
has read. -/
theorem holds_of_chained {Q : Store ρ → (k : κ) → ρ k → Prop} {db₀ db : Store ρ}
    {cs : List (Commit ι ρ)}
    (hlater : ∀ s t k r, P.discipline.Later [] s t → Q s k r → Q t k r)
    (hinsert : ∀ i seen s k r, P.Inserts i seen k r → (∀ t ∈ seen, P.discipline.Later [] t s) →
      Q s k r)
    (hpatch : ∀ i seen s k r, Q s k r → P.Guard i seen k r →
      (∀ t ∈ seen, P.discipline.Later [] t s ∧ P.discipline.Evolves k (t.lookup k) (some r)) →
      Q s k (P.patch i k r))
    (hdb : ∀ k r, db₀.lookup k = some r → Q db₀ k r) (h : Justified P.discipline cs)
    (hchain : Chained db₀ cs db) : ∀ k r, db.lookup k = some r → Q db k r := by
  induction cs generalizing db with
  | nil => exact (show db = db₀ from hchain) ▸ hdb
  | cons c cs ih =>
      obtain ⟨rfl, hchain⟩ := hchain
      have hafter : P.discipline.Later [] c.before c.after :=
        ⟨fun _ hk => (by cases hk), h.evolves List.mem_cons_self⟩
      obtain ⟨⟨seen, hseen, hmakes⟩, hjustified⟩ := h
      have hbefore := ih hjustified hchain
      have hread : ∀ t ∈ seen, P.discipline.Later [] t c.before := fun t ht =>
        later_of_seen hjustified hchain (hseen t ht)
      intro k r' hr'
      refine hlater c.before c.after k r' hafter ?_
      rcases makes_cases (hmakes k) with heq | ⟨r, hbased, hrow⟩
      · exact hbefore k r' (heq ▸ hr')
      · have hr : Q c.before k r ∧ P.discipline.Evolves k (c.before.lookup k) (some r) := by
          rcases hbased with hr | ⟨hnone, hr⟩
          · exact ⟨hbefore k r hr, hr ▸ .refl⟩
          · exact ⟨hinsert _ seen _ k r hr hread, hnone ▸ .single ⟨_, seen, .insert hr⟩⟩
        rw [hr', Option.some.injEq, Option.some.injEq] at hrow
        rcases hrow with rfl | ⟨hguard, rfl⟩
        · exact hr.1
        · exact hpatch _ seen _ k r hr.1 hguard fun t ht =>
            ⟨hread t ht, ((hread t ht).evolves k).trans hr.2⟩

end Histories

end Patches

end PersonalDashboard.FieldPatches
