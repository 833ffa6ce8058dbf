import PersonalDashboard.RowStatements
import PersonalDashboard.SoloRuns

/-! Two runs of one program from stores that share some of their rows: what makes
their answers the same, and what keeps the other rows as they are. -/

set_option autoImplicit false
namespace PersonalDashboard.TwinRuns

open PersonalDashboard.RowStore
open PersonalDashboard.ReadCommitted
open PersonalDashboard.RowStatements
open PersonalDashboard.SoloRuns

variable {κ : Type} [DecidableEq κ] {ρ : κ → Type} {σ ε α β γ : Type}

/-- The keys under which both runs see the same rows, the law of these rows, the
numbers of the fresh keys, and the stores that the runs start from. -/
structure Frame (ρ : κ → Type) where
  shared : κ → Prop
  law : (k : κ) → ρ k → Prop
  fresh : Nat → Prop
  left : Store ρ
  right : Store ρ

namespace Frame

variable {W : Frame ρ}

/-- Only shared rows have changed, and they keep the law. -/
structure Kept (W : Frame ρ) (start s : Store ρ) : Prop where
  hidden : ∀ k, ¬ W.shared k → s.lookup k = start.lookup k
  lawful : ∀ k r, W.shared k → s.lookup k = some r → W.law k r

structure Twin (W : Frame ρ) (s s' : Store ρ) : Prop where
  same : ∀ k, W.shared k → s.lookup k = s'.lookup k
  left : W.Kept W.left s
  right : W.Kept W.right s'

theorem Kept.put {start s : Store ρ} (h : W.Kept start s) {k : κ} (hk : W.shared k)
    {r : Option (ρ k)} (hr : ∀ x ∈ r, W.law k x) : W.Kept start (put s k r) := by
  constructor
  · intro k' hk'
    have hne : k' ≠ k := by
      rintro rfl
      exact hk' hk
    rw [lookup_put_of_ne hne]
    exact h.hidden k' hk'
  · intro k' x hk' hx
    by_cases hkk : k' = k
    · subst hkk
      rw [lookup_put_self] at hx
      exact hr x hx
    · rw [lookup_put_of_ne hkk] at hx
      exact h.lawful k' x hk' hx

theorem Twin.put {s s' : Store ρ} (h : W.Twin s s') {k : κ} (hk : W.shared k)
    {r : Option (ρ k)} (hr : ∀ x ∈ r, W.law k x) : W.Twin (put s k r) (put s' k r) := by
  refine ⟨fun k' hk' => ?_, h.left.put hk hr, h.right.put hk hr⟩
  by_cases hkk : k' = k
  · subst hkk
    rw [lookup_put_self, lookup_put_self]
  · rw [lookup_put_of_ne hkk, lookup_put_of_ne hkk]
    exact h.same k' hk'

theorem Twin.set {s s' : Store ρ} (h : W.Twin s s') {k : κ} (hk : W.shared k) {r : ρ k}
    (hr : W.law k r) : W.Twin ((Change.set r).apply s) ((Change.set r).apply s') := by
  change W.Twin (RowStore.put s k (some r)) (RowStore.put s' k (some r))
  refine h.put hk fun x hx => ?_
  obtain rfl := Option.some.inj hx
  exact hr

theorem Twin.remove {s s' : Store ρ} (h : W.Twin s s') {k : κ} (hk : W.shared k) :
    W.Twin ((Change.remove : Change ρ k).apply s) ((Change.remove : Change ρ k).apply s') := by
  change W.Twin (RowStore.put s k none) (RowStore.put s' k none)
  exact h.put hk fun x hx => (nomatch hx)

def Reaches (W : Frame ρ) (k : κ) (q : ρ k → Bool) : Prop :=
  ∀ r, q r = true → (W.left.lookup k = some r ∨ W.right.lookup k = some r) → W.shared k

section Reach

variable {s s' : Store ρ} {k : κ} {q : ρ k → Bool} {r : ρ k}

theorem Twin.shared_left (h : W.Twin s s') (hq : W.Reaches k q) (hr : s.lookup k = some r)
    (hqr : q r = true) : W.shared k := by
  by_contra hk
  exact hk (hq r hqr (Or.inl ((h.left.hidden k hk).symm.trans hr)))

theorem Twin.shared_right (h : W.Twin s s') (hq : W.Reaches k q) (hr : s'.lookup k = some r)
    (hqr : q r = true) : W.shared k := by
  by_contra hk
  exact hk (hq r hqr (Or.inr ((h.right.hidden k hk).symm.trans hr)))

theorem Twin.lookup_iff (h : W.Twin s s') (hq : W.Reaches k q) (hqr : q r = true) :
    s.lookup k = some r ↔ s'.lookup k = some r := by
  constructor
  · intro hr
    rw [← h.same k (h.shared_left hq hr hqr), hr]
  · intro hr
    rw [h.same k (h.shared_right hq hr hqr), hr]

theorem Twin.filter_eq (h : W.Twin s s') (hq : W.Reaches k q) :
    (s.lookup k).filter q = (s'.lookup k).filter q := by
  apply Option.ext
  intro r
  simp only [Option.filter_eq_some_iff]
  constructor
  · rintro ⟨hr, hqr⟩
    exact ⟨(h.lookup_iff hq hqr).mp hr, hqr⟩
  · rintro ⟨hr, hqr⟩
    exact ⟨(h.lookup_iff hq hqr).mpr hr, hqr⟩

theorem Twin.found_eq (h : W.Twin s s') (hq : W.Reaches k q) : found k q s = found k q s' := by
  apply Bool.eq_iff_iff.mpr
  rw [found_eq_true, found_eq_true]
  constructor
  · rintro ⟨r, hr, hqr⟩
    exact ⟨r, (h.lookup_iff hq hqr).mp hr, hqr⟩
  · rintro ⟨r, hr, hqr⟩
    exact ⟨r, (h.lookup_iff hq hqr).mpr hr, hqr⟩

theorem Twin.row_of_found (h : W.Twin s s') (hq : W.Reaches k q) (hfound : found k q s = true) :
    ∃ r, s.lookup k = some r ∧ s'.lookup k = some r ∧ q r = true ∧ W.shared k ∧
      W.law k r := by
  obtain ⟨r, hr, hqr⟩ := found_eq_true.mp hfound
  have hk := h.shared_left hq hr hqr
  exact ⟨r, hr, (h.lookup_iff hq hqr).mp hr, hqr, hk, h.left.lawful k r hk hr⟩

end Reach

theorem Twin.total_eq {M : Type} [AddCommGroup M] {s s' : Store ρ} (h : W.Twin s s')
    {p : (k : κ) → ρ k → Bool} (hp : ∀ k, W.Reaches k (p k)) {f : (k : κ) → ρ k → M}
    (hf : ∀ k r, p k r = false → f k r = 0) : total f s = total f s' := by
  refine total_congr fun k => ?_
  by_cases hk : W.shared k
  · rw [h.same k hk]
  · have hzero : ∀ {t : Store ρ}, (∀ r, t.lookup k = some r → p k r = false) →
        weight f k (t.lookup k) = 0 := by
      intro t ht
      cases hr : t.lookup k with
      | none => rfl
      | some r => exact hf k r (ht r hr)
    rw [hzero fun r hr => ?_, hzero fun r hr => ?_]
    · by_contra hpr
      exact hk (h.shared_right (hp k) hr (Bool.not_eq_false _ ▸ hpr))
    · by_contra hpr
      exact hk (h.shared_left (hp k) hr (Bool.not_eq_false _ ▸ hpr))

theorem Twin.mem_filterMap_iff {s s' : Store ρ} (h : W.Twin s s')
    {f : ((k : κ) × ρ k) → Option β} (hf : ∀ k, W.Reaches k fun r => (f ⟨k, r⟩).isSome) (b : β) :
    b ∈ s.entries.filterMap f ↔ b ∈ s'.entries.filterMap f := by
  have hmem : ∀ t : Store ρ, b ∈ t.entries.filterMap f ↔
      ∃ k r, t.lookup k = some r ∧ f ⟨k, r⟩ = some b := by
    intro t
    rw [List.mem_filterMap]
    constructor
    · rintro ⟨⟨k, r⟩, hr, hb⟩
      exact ⟨k, r, AList.mem_lookup_iff.mpr hr, hb⟩
    · rintro ⟨k, r, hr, hb⟩
      exact ⟨⟨k, r⟩, AList.mem_lookup_iff.mp hr, hb⟩
  rw [hmem, hmem]
  constructor
  · rintro ⟨k, r, hr, hb⟩
    exact ⟨k, r, (h.lookup_iff (hf k) (Option.isSome_of_eq_some hb)).mp hr, hb⟩
  · rintro ⟨k, r, hr, hb⟩
    exact ⟨k, r, (h.lookup_iff (hf k) (Option.isSome_of_eq_some hb)).mpr hr, hb⟩

section Lists

variable {s s' : Store ρ} {f : ((k : κ) × ρ k) → Option β}

theorem Twin.isEmpty_filterMap_eq (h : W.Twin s s')
    (hf : ∀ k, W.Reaches k fun r => (f ⟨k, r⟩).isSome) :
    (s.entries.filterMap f).isEmpty = (s'.entries.filterMap f).isEmpty := by
  apply Bool.eq_iff_iff.mpr
  simp only [List.isEmpty_iff, List.eq_nil_iff_forall_not_mem, h.mem_filterMap_iff hf]

theorem max?_congr [LinearOrder β] {l l' : List β} (h : ∀ b, b ∈ l ↔ b ∈ l') :
    l.max? = l'.max? := by
  apply Option.ext
  intro b
  simp only [List.max?_eq_some_iff, h]

theorem min?_congr [LinearOrder β] {l l' : List β} (h : ∀ b, b ∈ l ↔ b ∈ l') :
    l.min? = l'.min? := by
  apply Option.ext
  intro b
  simp only [List.min?_eq_some_iff, h]

end Lists

structure Sessions (W : Frame ρ) (w w' : Session ρ) : Prop where
  db : W.Twin w.db w'.db
  tx : Option.Rel W.Twin w.tx w'.tx
  ids : w.ids = w'.ids
  fresh : ∀ n, W.fresh (w.ids n)

variable {w w' : Session ρ}

theorem Sessions.view (h : W.Sessions w w') : W.Twin w.view w'.view := by
  have htx := h.tx
  rw [Session.view, Session.view]
  generalize w.tx = t at htx
  generalize w'.tx = t' at htx
  cases htx with
  | none => exact h.db
  | some ht => exact ht

theorem Sessions.write (h : W.Sessions w w') {s s' : Store ρ} (hs : W.Twin s s') :
    W.Sessions (w.write s) (w'.write s') := by
  obtain ⟨db, tx, ids⟩ := w
  obtain ⟨db', tx', ids'⟩ := w'
  obtain ⟨hdb, htx, hids, hfresh⟩ := h
  cases htx with
  | none => exact ⟨hs, .none, hids, hfresh⟩
  | some _ => exact ⟨hdb, .some hs, hids, hfresh⟩

theorem Sessions.abort (h : W.Sessions w w') : W.Sessions w.abort w'.abort :=
  ⟨h.db, .none, h.ids, h.fresh⟩

theorem Sessions.commit (h : W.Sessions w w') : W.Sessions w.commit w'.commit :=
  ⟨h.view, .none, h.ids, h.fresh⟩

theorem Sessions.begin (h : W.Sessions w w') :
    W.Sessions { w with tx := some w.view } { w' with tx := some w'.view } :=
  ⟨h.db, .some h.view, h.ids, h.fresh⟩

/-- Both runs answer the same, with a value of the given kind. -/
def Agrees (W : Frame ρ) (p : Prog ρ σ ε α) (post : α → Prop) : Prop :=
  ∀ w w', W.Sessions w w' → (solo p w).1 = (solo p w').1 ∧
    W.Sessions (solo p w).2 (solo p w').2 ∧ ∀ a, (solo p w).1 = .ok a → post a

theorem agrees_ret {a : α} {post : α → Prop} (h : post a) :
    W.Agrees (.ret a : Prog ρ σ ε α) post := by
  rintro w w' hw
  refine ⟨rfl, hw, fun b hb => ?_⟩
  obtain rfl := Except.ok.inj hb
  exact h

theorem agrees_throw (e : ε) (post : α → Prop) : W.Agrees (.throw e : Prog ρ σ ε α) post := by
  rintro w w' hw
  exact ⟨rfl, hw, fun b hb => (nomatch hb)⟩

theorem Agrees.bind {p : Prog ρ σ ε α} {f : α → Prog ρ σ ε β} {P : α → Prop}
    {P' : β → Prop} (h : W.Agrees p P) (hf : ∀ a, P a → W.Agrees (f a) P') :
    W.Agrees (p.bind f) P' := by
  intro w w' hw
  obtain ⟨hres, hend, hpost⟩ := h w w' hw
  rw [solo_bind, solo_bind]
  generalize solo p w = x at hres hend hpost
  generalize solo p w' = x' at hres hend
  obtain ⟨r, v⟩ := x
  obtain ⟨r', v'⟩ := x'
  obtain rfl : r = r' := hres
  cases r with
  | error e => exact ⟨rfl, hend, fun b hb => (nomatch hb)⟩
  | ok a => exact hf a (hpost a rfl) v v' hend

theorem Agrees.mono {p : Prog ρ σ ε α} {post post' : α → Prop} (h : W.Agrees p post)
    (hpost : ∀ a, post a → post' a) : W.Agrees p post' := by
  intro w w' hw
  obtain ⟨hres, hend, ha⟩ := h w w' hw
  exact ⟨hres, hend, fun a hok => hpost a (ha a hok)⟩

theorem agrees_select {f : Store ρ → α} {P : α → Prop}
    (h : ∀ s s', W.Twin s s' → f s = f s' ∧ P (f s)) :
    W.Agrees (select f : Prog ρ σ ε α) P := by
  intro w w' hw
  obtain ⟨heq, hpost⟩ := h w.view w'.view hw.view
  refine ⟨congrArg Except.ok heq, hw, fun a ha => ?_⟩
  obtain rfl := Except.ok.inj ha
  exact hpost

theorem agrees_ofExcept (x : Except ε α) :
    W.Agrees (ofExcept x : Prog ρ σ ε α) fun a => x = .ok a := by
  cases x with
  | error e => exact agrees_throw e _
  | ok a => exact agrees_ret rfl

theorem agrees_ofOption (e : ε) (x : Option α) :
    W.Agrees (ofOption e x : Prog ρ σ ε α) fun a => x = some a := by
  cases x with
  | none => exact agrees_throw e _
  | some a => exact agrees_ret rfl

theorem agrees_failIf (c : Bool) (e : ε) :
    W.Agrees (failIf c e : Prog ρ σ ε Unit) fun _ => c = false := by
  cases c with
  | true => exact agrees_throw e _
  | false => exact agrees_ret rfl

theorem agrees_whenever {c : Prop} [Decidable c] {p : Prog ρ σ ε Unit}
    (h : c → W.Agrees p fun _ => True) : W.Agrees (whenever c p) fun _ => True := by
  unfold whenever
  split
  · exact h ‹c›
  · exact agrees_ret trivial

theorem agrees_beginTx : W.Agrees (beginTx : Prog ρ σ ε Unit) fun _ => True := by
  intro w w' hw
  exact ⟨rfl, hw.begin, fun _ _ => trivial⟩

theorem agrees_commitTx : W.Agrees (commitTx : Prog ρ σ ε Unit) fun _ => True := by
  intro w w' hw
  exact ⟨rfl, hw.commit, fun _ _ => trivial⟩

theorem agrees_freshId (key : Nat → κ) : W.Agrees (freshId key : Prog ρ σ ε Nat) W.fresh := by
  intro w w' hw
  refine ⟨congrArg (fun ids : Nat → Nat => Except.ok (ids 0)) hw.ids,
    ⟨hw.db, hw.tx, ?_, fun n => hw.fresh (n + 1)⟩, fun a ha => ?_⟩
  · funext n
    exact congrFun hw.ids (n + 1)
  · obtain rfl := Except.ok.inj ha
    exact hw.fresh 0

theorem agrees_execSql {toErr : σ → ε} {st : Statement ρ σ β} {P : β → Prop}
    (hq : ∀ s s', W.Twin s s' → st.qualifies s = st.qualifies s') (hmiss : P st.miss)
    (hhit : ∀ s s', W.Twin s s' → st.qualifies s = true → st.hit s s = st.hit s' s' ∧
      ∀ c b, st.hit s s = .ok (c, b) → W.Twin (c.apply s) (c.apply s') ∧ P b) :
    W.Agrees (execSql toErr st) P := by
  intro w w' hw
  have hqualifies := hq w.view w'.view hw.view
  simp only [execSql, solo, ← hqualifies]
  cases hqw : st.qualifies w.view with
  | false =>
      simp only [Bool.false_eq_true, if_false]
      refine ⟨trivial, hw, fun b hb => ?_⟩
      obtain rfl := Except.ok.inj hb
      exact hmiss
  | true =>
      obtain ⟨heq, hok⟩ := hhit w.view w'.view hw.view hqw
      simp only [if_true, ← heq]
      cases hr : st.hit w.view w.view with
      | error e =>
          refine ⟨rfl, hw.abort, fun b hb => ?_⟩
          cases hb
      | ok cb =>
          obtain ⟨c, b⟩ := cb
          obtain ⟨htwin, hpost⟩ := hok c b hr
          refine ⟨rfl, hw.write htwin, fun b hb => ?_⟩
          obtain rfl := Except.ok.inj hb
          exact hpost

section Statements

variable {toErr : σ → ε} {k : κ} {q : ρ k → Bool}

theorem agrees_selectFor {mode : LockMode} {proj : ρ k → β} {P : Option β → Prop}
    (hq : W.Reaches k q) (hmiss : P none)
    (hhit : ∀ r, W.shared k → W.law k r → q r = true → P (some (proj r))) :
    W.Agrees (execSql toErr (selectFor mode k q proj)) P := by
  refine agrees_execSql (fun s s' h => h.found_eq hq) hmiss fun s s' h hfound => ?_
  obtain ⟨r, hr, hr', hqr, hk, hlaw⟩ := h.row_of_found hq hfound
  simp only [selectFor, hr, hr', Option.map_some]
  refine ⟨trivial, fun c b hcb => ?_⟩
  obtain ⟨rfl, rfl⟩ := Prod.mk.inj (Except.ok.inj hcb)
  exact ⟨h, hhit r hk hlaw hqr⟩

theorem agrees_updateRow {mode : LockMode} {hmode : mode.exclusive}
    {f : Store ρ → ρ k → Except σ (ρ k)} {P : Option (ρ k) → Prop} (hq : W.Reaches k q)
    (hmiss : P none)
    (hhit : ∀ s s' r, W.Twin s s' → W.shared k → W.law k r → q r = true →
      f s r = f s' r ∧ ∀ r', f s r = .ok r' → W.law k r' ∧ P (some r')) :
    W.Agrees (execSql toErr (updateRow mode hmode k q f)) P := by
  refine agrees_execSql (fun s s' h => h.found_eq hq) hmiss fun s s' h hfound => ?_
  obtain ⟨r, hr, hr', hqr, hk, hlaw⟩ := h.row_of_found hq hfound
  obtain ⟨heq, hok⟩ := hhit s s' r h hk hlaw hqr
  refine ⟨?_, fun c b hcb => ?_⟩
  · simp only [updateRow, hr, hr', heq]
  · obtain ⟨old, new, hold, -, hnew, rfl, rfl⟩ := updateRow_hit hfound hcb
    obtain rfl := Option.some.inj (hr.symm.trans hold)
    obtain ⟨hlaw', hpost⟩ := hok new hnew
    exact ⟨h.set hk hlaw', hpost⟩

theorem agrees_deleteRow {P : Option (ρ k) → Prop} (hq : W.Reaches k q) (hmiss : P none)
    (hhit : ∀ r, W.shared k → W.law k r → q r = true → P (some r)) :
    W.Agrees (execSql toErr (deleteRow k q)) P := by
  refine agrees_execSql (fun s s' h => h.found_eq hq) hmiss fun s s' h hfound => ?_
  obtain ⟨r, hr, hr', hqr, hk, hlaw⟩ := h.row_of_found hq hfound
  simp only [deleteRow, hr, hr']
  refine ⟨trivial, fun c b hcb => ?_⟩
  obtain ⟨rfl, rfl⟩ := Prod.mk.inj (Except.ok.inj hcb)
  exact ⟨h.remove hk, hhit r hk hlaw hqr⟩

theorem agrees_insertRow {constraints : Store ρ → Except σ Unit} {r : ρ k} (hk : W.shared k)
    (hr : W.law k r) (hc : ∀ s s', W.Twin s s' → constraints s = constraints s') :
    W.Agrees (execSql toErr (insertRow k constraints r)) fun _ => True := by
  refine agrees_execSql (fun _ _ _ => rfl) trivial fun s s' h _ => ?_
  refine ⟨?_, fun c b hcb => ?_⟩
  · simp only [insertRow, hc s s' h]
  · obtain ⟨-, rfl, rfl⟩ := insertRow_hit hcb
    exact ⟨h.set hk hr, trivial⟩

theorem agrees_lockSlot {f : Store ρ → β} (hf : ∀ s s', W.Twin s s' → f s = f s') :
    W.Agrees (execSql toErr (lockSlot k f)) fun _ => True := by
  refine agrees_execSql (fun _ _ _ => rfl) trivial fun s s' h _ => ?_
  refine ⟨?_, fun c b hcb => ?_⟩
  · simp only [lockSlot, hf s s' h]
  · obtain ⟨rfl, rfl⟩ := lockSlot_hit hcb
    exact ⟨h, trivial⟩

theorem agrees_fetchOr {st : Statement ρ σ (Option β)} {e : ε} {P : β → Prop}
    (h : W.Agrees (execSql toErr st) fun r => ∀ b, r = some b → P b) :
    W.Agrees (fetchOr toErr e st) P := by
  refine h.bind fun r hr => ?_
  exact (agrees_ofOption e r).mono fun b hb => hr b hb

theorem agrees_found {e : ε} (hq : W.Reaches k q) :
    W.Agrees ((select (found k q)).bind fun b => (failIf (!b) e : Prog ρ σ ε Unit)) fun _ =>
      W.shared k := by
  refine Agrees.bind (agrees_select (P := fun b => b = true → W.shared k)
    fun s s' h => ⟨h.found_eq hq, fun hfound => ?_⟩) fun b hb => ?_
  · obtain ⟨_, _, _, _, hk, _⟩ := h.row_of_found hq hfound
    exact hk
  · exact (agrees_failIf _ _).mono fun _ hc => hb (by simpa using hc)

theorem agrees_foreignKey {violation : σ} (hk : W.shared k) :
    W.Agrees (foreignKey toErr violation k) fun _ => True := by
  have hread : W.Agrees (execSql toErr
      (selectFor (β := Unit) .keyShare k (fun _ => true) fun _ => ())) fun _ => True := by
    refine agrees_execSql (fun s s' h => ?_) trivial fun s s' h _ => ?_
    · simp only [selectFor, found, h.same k hk]
    · simp only [selectFor, h.same k hk]
      refine ⟨trivial, fun c b hcb => ?_⟩
      obtain ⟨rfl, rfl⟩ := Prod.mk.inj (Except.ok.inj hcb)
      exact ⟨h, trivial⟩
  exact hread.bind fun r _ => (agrees_failIf _ _).mono fun _ _ => trivial

theorem agrees_foreignKeyOpt {violation : σ} {key : α → κ} {a : Option α}
    (hk : ∀ x, a = some x → W.shared (key x)) :
    W.Agrees (foreignKeyOpt toErr violation key a) fun _ => True := by
  cases a with
  | none => exact agrees_ret trivial
  | some x => exact agrees_foreignKey (hk x rfl)

end Statements

section Many

variable (toErr : σ → ε) {p : (k : κ) → ρ k → Bool} {f : (k : κ) → ρ k → ρ k}

def updated (p : (k : κ) → ρ k → Bool) (f : (k : κ) → ρ k → ρ k) (k : κ) (r : ρ k) : ρ k :=
  if p k r then f k r else r

theorem map_updated_of_not_found {k : κ} {s : Store ρ} (h : found k (p k) s = false) :
    (s.lookup k).map (updated p f k) = s.lookup k := by
  cases hr : s.lookup k with
  | none => rfl
  | some r =>
      have hpr : p k r = false := by simpa [found, hr] using h
      rw [Option.map_some, updated, hpr, if_neg Bool.false_ne_true]

theorem solo_updateAll (hpf : ∀ k r, p k (f k r) = false) (ks : List κ) (w : Session ρ) :
    ∃ t, solo (updateAll toErr p f ks : Prog ρ σ ε Unit) w = (.ok (), w.write t) ∧
      ∀ k, t.lookup k =
        if k ∈ ks then (w.view.lookup k).map (updated p f k) else w.view.lookup k := by
  induction ks generalizing w with
  | nil => exact ⟨w.view, by rw [write_view]; rfl, fun k => by simp⟩
  | cons k ks ih =>
      cases hq : found k (p k) w.view with
      | false =>
          obtain ⟨t, ht, hlookup⟩ := ih w
          refine ⟨t, ?_, fun k' => ?_⟩
          · rw [← ht]
            simp only [updateAll, execSql, Prog.bind, solo, updateRow, hq]
            rfl
          · rw [hlookup k']
            by_cases hk : k' = k
            · subst hk
              rw [map_updated_of_not_found hq, if_pos List.mem_cons_self, ite_self]
            · simp only [List.mem_cons, hk, false_or]
      | true =>
          obtain ⟨r, hr, hpr⟩ := found_eq_true.mp hq
          obtain ⟨t, ht, hlookup⟩ := ih (w.write (RowStore.put w.view k (some (f k r))))
          refine ⟨t, ?_, fun k' => ?_⟩
          · rw [write_write] at ht
            rw [← ht]
            simp only [updateAll, execSql, Prog.bind, solo, updateRow, hq, hr]
            rfl
          · rw [hlookup k', view_write]
            by_cases hk : k' = k
            · subst hk
              rw [lookup_put_self, hr, if_pos List.mem_cons_self]
              simp [updated, hpr, hpf]
            · simp only [List.mem_cons, hk, false_or, lookup_put_of_ne hk]

theorem solo_updateWhere (hpf : ∀ k r, p k (f k r) = false) (w : Session ρ) :
    ∃ t, solo (updateWhere toErr p f : Prog ρ σ ε Unit) w = (.ok (), w.write t) ∧
      ∀ k, t.lookup k = (w.view.lookup k).map (updated p f k) := by
  obtain ⟨t, ht, hlookup⟩ := solo_updateAll toErr hpf (keysWhere p w.view) w
  refine ⟨t, ht, fun k => ?_⟩
  rw [hlookup k]
  split
  · rfl
  · rename_i hk
    refine (map_updated_of_not_found (Bool.eq_false_iff.mpr fun hfound => hk ?_)).symm
    exact mem_keysWhere.mpr (found_eq_true.mp hfound)

theorem agrees_updateWhere (hpf : ∀ k r, p k (f k r) = false) (hp : ∀ k, W.Reaches k (p k))
    (hlaw : ∀ k r, W.law k r → p k r = true → W.law k (f k r)) :
    W.Agrees (updateWhere toErr p f : Prog ρ σ ε Unit) fun _ => True := by
  intro w w' hw
  obtain ⟨t, ht, hlookup⟩ := solo_updateWhere toErr hpf w
  obtain ⟨t', ht', hlookup'⟩ := solo_updateWhere toErr hpf w'
  have hview := hw.view
  have hkept : ∀ {start s u : Store ρ}, W.Kept start s →
      (∀ k r, s.lookup k = some r → p k r = true → W.shared k) →
      (∀ k, u.lookup k = (s.lookup k).map (updated p f k)) → W.Kept start u := by
    intro start s u hs hreach hu
    constructor
    · intro k hk
      rw [hu k, ← hs.hidden k hk]
      refine map_updated_of_not_found (Bool.eq_false_iff.mpr fun hfound => hk ?_)
      obtain ⟨r, hr, hpr⟩ := found_eq_true.mp hfound
      exact hreach k r hr hpr
    · intro k r hk hr
      rw [hu k] at hr
      obtain ⟨x, hx, rfl⟩ := Option.map_eq_some_iff.mp hr
      have hlawx := hs.lawful k x hk hx
      unfold updated
      split
      · exact hlaw k x hlawx ‹_›
      · exact hlawx
  have htwin : W.Twin t t' := by
    refine ⟨fun k hk => ?_, hkept hview.left (fun k r => hview.shared_left (hp k)) hlookup,
      hkept hview.right (fun k r => hview.shared_right (hp k)) hlookup'⟩
    rw [hlookup k, hlookup' k, hview.same k hk]
  rw [ht, ht']
  exact ⟨rfl, hw.write htwin, fun _ _ => trivial⟩

end Many

section Locked

variable {toErr : σ → ε} {e : ε} {mode mode' : LockMode} {hmode : mode'.exclusive} {k : κ}
  {q : ρ k → Bool} {g : ρ k → ρ k} {next : ρ k → ρ k → Prog ρ σ ε β}

theorem solo_fetchFor (w : Session ρ) :
    solo (fetchOr toErr e (selectFor mode k q fun r => r) : Prog ρ σ ε (ρ k)) w =
      match (w.view.lookup k).filter q with
      | none => (.error e, w)
      | some r => (.ok r, w) := by
  have hkeep : (Change.keep : Change ρ k).apply w.view = w.view := rfl
  rw [fetchOr, solo_bind]
  simp only [execSql, solo, selectFor, found]
  rcases Option.eq_none_or_eq_some (w.view.lookup k) with hr | ⟨r, hr⟩
  · simp [hr, solo, ofOption]
  · cases hqr : q r with
    | false => simp [hr, hqr, Option.filter, solo, ofOption]
    | true => simp [hr, hqr, Option.filter, solo, ofOption, hkeep, write_view]

theorem solo_fetchUpdated (w : Session ρ) :
    solo (fetchOr toErr e (updateRow mode' hmode k q fun _ r => .ok (g r)) : Prog ρ σ ε (ρ k)) w =
      match (w.view.lookup k).filter q with
      | none => (.error e, w)
      | some r => (.ok (g r), w.write ((Change.set (g r)).apply w.view)) := by
  rw [fetchOr, solo_bind]
  simp only [execSql, solo, updateRow, found]
  rcases Option.eq_none_or_eq_some (w.view.lookup k) with hr | ⟨r, hr⟩
  · simp [hr, solo, ofOption]
  · cases hqr : q r with
    | false => simp [hr, hqr, Option.filter, solo, ofOption]
    | true => simp [hr, hqr, Option.filter, solo, ofOption, Except.map]

theorem solo_fetchUpdate (w : Session ρ) :
    solo ((fetchOr toErr e (selectFor mode k q fun r => r)).bind fun old =>
      (fetchOr toErr e (updateRow mode' hmode k q fun _ r => .ok (g r))).bind (next old)) w =
      match (w.view.lookup k).filter q with
      | none => (.error e, w)
      | some r => solo (next r (g r)) (w.write ((Change.set (g r)).apply w.view)) := by
  rw [solo_bind, solo_fetchFor]
  cases hr : (w.view.lookup k).filter q with
  | none => rfl
  | some r =>
      dsimp only
      rw [solo_bind, solo_fetchUpdated, hr]

theorem agrees_fetchUpdate {P : β → Prop} (hq : W.Reaches k q)
    (hlaw : ∀ r, W.law k r → q r = true → W.law k (g r))
    (hnext : ∀ r, W.shared k → W.law k r → q r = true → W.Agrees (next r (g r)) P) :
    W.Agrees ((fetchOr toErr e (selectFor mode k q fun r => r)).bind fun old =>
      (fetchOr toErr e (updateRow mode' hmode k q fun _ r => .ok (g r))).bind (next old)) P := by
  intro w w' hw
  rw [solo_fetchUpdate, solo_fetchUpdate, ← hw.view.filter_eq hq]
  cases hr : (w.view.lookup k).filter q with
  | none => exact ⟨rfl, hw, fun b hb => (nomatch hb)⟩
  | some r =>
      obtain ⟨hr, hqr⟩ := Option.filter_eq_some_iff.mp hr
      have hk := hw.view.shared_left hq hr hqr
      have hlawr := hw.view.left.lawful k r hk hr
      exact hnext r hk hlawr hqr _ _ (hw.write (hw.view.set hk (hlaw r hlawr hqr)))

end Locked

variable {τ : Type} {tell : ε → τ}

/-- Two answers that are the same if both stores have the row that was looked
for, or neither has it, and errors that differ to the caller otherwise. -/
def Told (tell : ε → τ) (k : Option κ) (s s' : Store ρ) (x x' : Except ε α) : Prop :=
  if ∀ k' ∈ k, (s.lookup k').isSome = (s'.lookup k').isSome then x = x'
  else ∃ e e', x = .error e ∧ x' = .error e' ∧ tell e ≠ tell e'

/-- All that the answers disclose about the hidden rows is whether one row is
there, and the hidden rows are kept. -/
def Discloses (W : Frame ρ) (tell : ε → τ) (p : Prog ρ σ ε α) (q : Store ρ → Option κ) : Prop :=
  ∀ w w', W.Sessions w w' →
    Told tell (q w.view) w.view w'.view (solo p w).1 (solo p w').1 ∧
      W.Kept W.left (solo p w).2.db ∧ W.Kept W.right (solo p w').2.db

theorem Told.eq {k : Option κ} {s s' : Store ρ} {x x' : Except ε α} (h : Told tell k s s' x x')
    (hk : ∀ k' ∈ k, (s.lookup k').isSome = (s'.lookup k').isSome) : x = x' := by
  rwa [Told, if_pos hk] at h

theorem Told.differ {k : Option κ} {s s' : Store ρ} {x x' : Except ε α}
    (h : Told tell k s s' x x')
    (hk : ¬ ∀ k' ∈ k, (s.lookup k').isSome = (s'.lookup k').isSome) :
    ∃ e e', x = .error e ∧ x' = .error e' ∧ tell e ≠ tell e' := by
  rwa [Told, if_neg hk] at h

theorem told_none {s s' : Store ρ} {x x' : Except ε α} :
    Told tell (none : Option κ) s s' x x' ↔ x = x' := by
  simp [Told]

theorem Agrees.discloses {p : Prog ρ σ ε α} {P : α → Prop} (h : W.Agrees p P) :
    W.Discloses tell p fun _ => none := by
  intro w w' hw
  obtain ⟨hres, hend, -⟩ := h w w' hw
  exact ⟨told_none.mpr hres, hend.db.left, hend.db.right⟩

theorem Discloses.map {p : Prog ρ σ ε α} {q : Store ρ → Option κ} (h : W.Discloses tell p q)
    (f : α → β) : W.Discloses tell (f <$> p) q := by
  intro w w' hw
  obtain ⟨htold, hkept⟩ := h w w' hw
  have hsolo : ∀ v : Session ρ, solo (f <$> p) v = ((solo p v).1.map f, (solo p v).2) := by
    intro v
    rw [Prog.map_eq, solo_bind]
    generalize solo p v = x
    obtain ⟨r, v'⟩ := x
    cases r <;> rfl
  rw [hsolo, hsolo]
  refine ⟨?_, hkept⟩
  unfold Told
  split
  · rw [htold.eq ‹_›]
  · obtain ⟨e, e', he, he', hne⟩ := htold.differ ‹_›
    exact ⟨e, e', by rw [he]; rfl, by rw [he']; rfl, hne⟩

def Reads (p : Prog ρ σ ε α) (g : Store ρ → Except ε α) : Prop :=
  ∀ w, (solo p w).1 = g w.view ∧ (solo p w).2.view = w.view

theorem Discloses.bind {p : Prog ρ σ ε α} {g : Store ρ → Except ε α} {f : α → Prog ρ σ ε β}
    {post : α → Prop} {q : α → Store ρ → Option κ} (hg : Reads p g) (h : W.Agrees p post)
    (hf : ∀ a, post a → W.Discloses tell (f a) (q a)) :
    W.Discloses tell (p.bind f) fun s => (g s).toOption.bind fun a => q a s := by
  intro w w' hw
  obtain ⟨hres, hend, hpost⟩ := h w w' hw
  obtain ⟨hread, hview⟩ := hg w
  obtain ⟨-, hview'⟩ := hg w'
  dsimp only
  rw [solo_bind, solo_bind, ← hread]
  generalize solo p w = x at hres hend hpost hview
  generalize solo p w' = x' at hres hend hview'
  obtain ⟨r, v⟩ := x
  obtain ⟨r', v'⟩ := x'
  obtain rfl : r = r' := hres
  cases r with
  | error e => exact ⟨told_none.mpr rfl, hend.db.left, hend.db.right⟩
  | ok a =>
      dsimp only at hview hview'
      rw [← hview, ← hview']
      exact hf a (hpost a rfl) v v' hend

section Readers

variable {f : α → Prog ρ σ ε β} {P : α → Prop} {q : α → Store ρ → Option κ}

theorem discloses_select {h : Store ρ → α} (hh : ∀ s s', W.Twin s s' → h s = h s' ∧ P (h s))
    (hf : ∀ a, P a → W.Discloses tell (f a) (q a)) :
    W.Discloses tell ((select h).bind f) fun s => q (h s) s := by
  have hreads : Reads (select h : Prog ρ σ ε α) fun s => .ok (h s) := fun w => ⟨rfl, rfl⟩
  exact Discloses.bind hreads (agrees_select hh) hf

theorem discloses_ofExcept {x : Except ε α}
    (hf : ∀ a, x = .ok a → W.Discloses tell (f a) (q a)) :
    W.Discloses tell ((ofExcept x).bind f) fun s => x.toOption.bind fun a => q a s := by
  have hreads : Reads (ofExcept x : Prog ρ σ ε α) fun _ => x := by
    intro w
    cases x with
    | error e => exact ⟨rfl, rfl⟩
    | ok a => exact ⟨rfl, rfl⟩
  exact Discloses.bind hreads (agrees_ofExcept x) hf

theorem discloses_ofOption {e : ε} {x : Option α}
    (hf : ∀ a, x = some a → W.Discloses tell (f a) (q a)) :
    W.Discloses tell ((ofOption e x).bind f) fun s => x.bind fun a => q a s := by
  cases x with
  | none => exact (agrees_throw e fun _ => True).discloses
  | some a => exact hf a rfl

theorem discloses_fetch {h : Store ρ → Option α} {e : ε}
    (hh : ∀ s s', W.Twin s s' → h s = h s' ∧ ∀ a, h s = some a → P a)
    (hf : ∀ a, P a → W.Discloses tell (f a) (q a)) :
    W.Discloses tell ((select h).bind fun x => (ofOption e x).bind f) fun s =>
      (h s).bind fun a => q a s := by
  refine discloses_select (P := fun x => ∀ a, x = some a → P a)
    (q := fun (x : Option α) s => x.bind fun a => q a s) hh fun x hx => ?_
  exact discloses_ofOption fun a ha => hf a (hx a ha)

end Readers

theorem discloses_beginTx {f : Unit → Prog ρ σ ε β} {q : Store ρ → Option κ}
    (hf : W.Discloses tell (f ()) q) : W.Discloses tell (beginTx.bind f) q := by
  have hreads : Reads (beginTx : Prog ρ σ ε Unit) fun _ => .ok () := fun w => ⟨rfl, rfl⟩
  exact Discloses.bind (q := fun _ => q) hreads agrees_beginTx fun _ _ => hf

section Probes

variable {k : κ} {e e' : ε} {f : Unit → Prog ρ σ ε β} {q : Store ρ → Option κ}

/-- End with one error if a row is there, and with another if it is not. -/
def probe (k : κ) (e e' : ε) : Prog ρ σ ε Unit :=
  (select fun s => (s.lookup k).isSome).bind fun b => (failIf b e).bind fun _ => failIf (!b) e'

theorem discloses_probe (hne : tell e ≠ tell e') :
    W.Discloses tell ((probe k e e').bind f) fun _ => some k := by
  intro w w' hw
  have hsolo : ∀ v : Session ρ, solo ((probe k e e').bind f) v =
      (.error (if (v.view.lookup k).isSome then e else e'), v) := by
    intro v
    rw [solo_bind]
    simp only [probe, select, Prog.bind, solo]
    cases (v.view.lookup k).isSome <;> rfl
  rw [hsolo, hsolo]
  refine ⟨?_, hw.db.left, hw.db.right⟩
  simp only [Told, Option.mem_some_iff, forall_eq']
  cases (w.view.lookup k).isSome <;> cases (w'.view.lookup k).isSome
  · rfl
  · exact ⟨e', e, rfl, rfl, hne.symm⟩
  · exact ⟨e, e', rfl, rfl, hne⟩
  · rfl

theorem discloses_whenever {b : Bool} {p : Prog ρ σ ε Unit} {q' : Store ρ → Option κ}
    (hp : b = false → W.Discloses tell (p.bind f) q')
    (hf : b = true → W.Discloses tell (f ()) q) :
    W.Discloses tell ((whenever (b = false) p).bind f) fun s => if b then q s else q' s := by
  cases b with
  | false => exact hp rfl
  | true => exact hf rfl

theorem discloses_gate {may : Store ρ → Bool} {P : Prop} (hne : tell e ≠ tell e')
    (hmay : ∀ s s', W.Twin s s' → may s = may s' ∧ (may s = true → P))
    (hf : P → W.Discloses tell (f ()) q) :
    W.Discloses tell
      ((select may).bind fun b => (whenever (b = false) (probe k e e')).bind f) fun s =>
      if may s then q s else some k := by
  refine discloses_select (q := fun b s => if b then q s else some k)
    (P := fun b => b = true → P) hmay fun b hb => ?_
  exact discloses_whenever (fun _ => discloses_probe hne) fun h => hf (hb h)

/-- Go on with a lock on a row that the caller may use, and tell whether it is there
if not. -/
theorem discloses_lockGate (toErr : σ → ε) {mode : LockMode} {p : ρ k → Bool}
    (hne : tell e ≠ tell e') (hp : W.Reaches k p) (hf : W.shared k → W.Discloses tell (f ()) q) :
    W.Discloses tell
      ((execSql toErr (selectFor mode k p fun _ => ())).bind fun locked =>
        (whenever (locked = none) (probe k e e')).bind f) fun s =>
      if found k p s then q s else some k := by
  have hreads : Reads (execSql toErr (selectFor mode k p fun _ => ()) : Prog ρ σ ε (Option Unit))
      fun s => .ok (if found k p s then some () else none) := by
    intro w
    simp only [execSql, solo, selectFor]
    split
    · rename_i hfound
      obtain ⟨r, hr, -⟩ := found_eq_true.mp hfound
      rw [hr]
      exact ⟨rfl, view_write w w.view⟩
    · exact ⟨rfl, rfl⟩
  have hq : (fun s => if found k p s then q s else some k) = fun s =>
      (Except.ok (if found k p s then some () else none) : Except ε (Option Unit)).toOption.bind
        fun locked => locked.elim (some k) fun _ => q s := by
    funext s
    cases found k p s <;> rfl
  rw [hq]
  refine Discloses.bind (q := fun (x : Option Unit) s => x.elim (some k) fun _ => q s) hreads
    (agrees_selectFor (P := fun x => x ≠ none → W.shared k) hp (fun h => absurd rfl h)
      fun r hk _ _ _ => hk) fun locked hlocked => ?_
  cases locked with
  | none => exact discloses_probe hne
  | some u => exact hf (hlocked (Option.some_ne_none u))

end Probes

end Frame

end PersonalDashboard.TwinRuns
