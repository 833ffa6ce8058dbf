import PersonalDashboard.ForeignKeys
import PersonalDashboard.HabitRules

/-! The foreign key from habits to their categories: how each handler keeps it, and what an
answered PATCH has committed. -/

set_option autoImplicit false

namespace PersonalDashboard.HabitCategories

open PersonalDashboard.Calendar
open PersonalDashboard.ForeignKeys
open PersonalDashboard.ForeignKeys.References
open PersonalDashboard.HabitHandlers
open PersonalDashboard.HabitLogHandlers (mapHabitDbErr)
open PersonalDashboard.HabitRules
open PersonalDashboard.LedgerHandlers (Caller Stored)
open PersonalDashboard.ReadCommitted
open PersonalDashboard.RowStatements
open PersonalDashboard.RowStore
open PersonalDashboard.Schema

/-- A live habit refers to its category, which must not be deleted. -/
def categories : References HabitTable where
  ref k r := (categoryRef k r).map HabitKey.category
  alive
    | .category _, (c : Issued CategoryRow) => !c.isDeleted
    | _, _ => true

/-- A commit that has laid the patch of a request over a habit, and left the habit as given. -/
def PatchedTo (call : HabitCall) (habit : Stored HabitRow) (before after : HabitDb) : Prop :=
  ∃ p old, sentTo habit.id call = some p ∧
    before.habit habit.id = some { row := old, isDeleted := false } ∧
    habit.row = p.merge call.caller.now old ∧
    after.habit habit.id = some { row := habit.row, isDeleted := false }

/-- An answered PATCH has made one commit, and left there the habit that it answers. -/
def Answered (call : HabitCall) : HabitAnswer → List (HabitDb × HabitDb) → Prop
  | .updated habit, done => ∃ before after, done = [(before, after)] ∧
      PatchedTo call habit before after
  | _, _ => True

section Rules

variable {γ : Type} {post : Post HabitTable γ} {o : Option (Tx HabitTable)} {t : Tx HabitTable}
  {s : HabitDb} {done : List (HabitDb × HabitDb)}

theorem ref_habit {id : Uuid} {h : Issued HabitRow} {k : HabitKey}
    (hk : categories.ref (.habit id) h = some k) :
    ∃ categoryId, k = .category categoryId ∧ h.isDeleted = false ∧
      h.row.categoryId = some categoryId := by
  obtain ⟨categoryId, href, rfl⟩ := Option.map_eq_some_iff.mp hk
  simp only [categoryRef, Option.ite_none_left_eq_some, Bool.not_eq_true] at href
  exact ⟨categoryId, rfl, href⟩

theorem keeps_ensureHabitCategory {userId : Uuid} {categoryId : Option Uuid}
    {next : Unit → HabitHandler γ} (h : ∀ s, categories.Keeps (next ()) post o s done) :
    categories.Keeps ((ensureHabitCategory userId categoryId).bind next) post o s done := by
  cases categoryId with
  | none => exact h s
  | some categoryId =>
      simp only [ensureHabitCategory, Prog.bind_eq, Prog.bind_assoc]
      exact keeps_select fun s' _ => keeps_failIf fun _ => h s'

theorem keeps_claimHabitName {userId : Uuid} {name : String} {next : Unit → HabitHandler γ}
    (h : ∀ cur, categories.Interferes t.locks s cur →
      categories.Keeps (next ()) post
        (some (t.hold (HabitKey.habitName userId name) .update .keep)) cur done) :
    categories.Keeps ((claimHabitName userId name).bind next) post (some t) s done := by
  simp only [claimHabitName, Prog.bind_eq, Prog.bind_assoc]
  exact keeps_lockSlot fun cur hcur => keeps_failIf fun _ => h cur hcur

def MayRefer (t : Tx HabitTable) (s : HabitDb) (categoryId : Option Uuid) : Prop :=
  ∀ id, categoryId = some id → (∃ m, (HabitKey.category id, m) ∈ t.locks) ∧
    categories.Alive s (.category id)

theorem MayRefer.later {s' : HabitDb} {categoryId : Option Uuid} (h : MayRefer t s categoryId)
    (hs' : categories.Interferes t.locks s s') : MayRefer t s' categoryId := by
  intro id hid
  obtain ⟨⟨m, hm⟩, halive⟩ := h id hid
  exact ⟨⟨m, hm⟩, hs'.alive _ m hm halive⟩

theorem keeps_categoryForeignKey {categoryId : Option Uuid} {next : Unit → HabitHandler γ}
    (hview : ∀ s id, (t.view s).lookup (HabitKey.category id) = s.lookup (HabitKey.category id))
    (h : ∀ t' cur, categories.Interferes t.locks s cur → t'.writes = t.writes →
      t.locks ⊆ t'.locks → MayRefer t' cur categoryId →
      categories.Keeps (next ()) post (some t') cur done) :
    categories.Keeps ((categoryForeignKey categoryId).bind next) post (some t) s done := by
  cases categoryId with
  | none =>
      exact h t s (.refl _ _) rfl (List.Subset.refl _) fun id hid => by cases hid
  | some categoryId =>
      simp only [categoryForeignKey, Prog.bind_eq, Prog.bind_assoc]
      refine keeps_selectFor (fun cur _ => keeps_failIf fun hnone => (by cases hnone))
        fun cur c hcur hc hlive => keeps_failIf fun _ => ?_
      refine h _ cur hcur (List.append_nil _) (List.subset_cons_self _ _) fun id hid => ?_
      obtain rfl := Option.some.inj hid
      rw [hview] at hc
      rw [Issued.live, Bool.and_true] at hlive
      exact ⟨⟨_, List.mem_cons_self⟩, c, hc, hlive⟩

theorem view_of_writes {k : HabitKey} {r : HabitTable k} (ht : t.writes = [⟨k, some r⟩])
    (s : HabitDb) : t.view s = put s k (some r) := by
  rw [Tx.view, ht]
  rfl

theorem keeps_insertHabit {row : HabitRow} {next : Stored HabitRow → HabitHandler γ}
    (h : ∀ stored t cur, (∀ s', categories.Interferes t.locks cur s' → categories.Intact s' →
      categories.Guarded t.locks s' (t.view s')) →
      categories.Keeps (next stored) post (some t) cur done) :
    categories.Keeps ((insertHabit row).bind next) post (some {}) s done := by
  simp only [insertHabit, Prog.bind_eq, Prog.bind_assoc]
  refine keeps_claimHabitName fun cur _ => keeps_freshId fun id cur _ _ =>
    keeps_insertRow fun cur _ => keeps_categoryForeignKey ?_ fun t' cur _ hwrites _ hmay => ?_
  · intro s id'
    have hne : HabitKey.category id' ≠ HabitKey.habit id := fun hkey => by cases hkey
    rw [view_of_writes (k := HabitKey.habit id) rfl]
    exact lookup_put_of_ne hne _
  · refine h ⟨id, row⟩ t' cur fun s' hs' hintact => ?_
    rw [view_of_writes hwrites]
    refine guarded_put hintact rfl fun k hk => Or.inr ?_
    obtain ⟨categoryId, rfl, -, hcategory⟩ := ref_habit hk
    exact hmay.later hs' categoryId hcategory

structure Overwrites (t : Tx HabitTable) (s : HabitDb) (id : Uuid) (old new : HabitRow) :
    Prop where
  writes : t.writes = [⟨.habit id, some { row := new, isDeleted := false }⟩]
  locked : ∃ m, (HabitKey.habit id, m) ∈ t.locks ∧ m.exclusive
  before : s.habit id = some { row := old, isDeleted := false }
  category : old.categoryId ≠ new.categoryId → MayRefer t s new.categoryId

theorem Overwrites.later {id : Uuid} {old new : HabitRow} {s' : HabitDb}
    (h : Overwrites t s id old new) (hs' : categories.Interferes t.locks s s') :
    Overwrites t s' id old new := by
  obtain ⟨m, hm, hmode⟩ := h.locked
  exact ⟨h.writes, h.locked, hs'.lookup hm hmode h.before, fun hne => (h.category hne).later hs'⟩

theorem Overwrites.guarded {id : Uuid} {old new : HabitRow} (h : Overwrites t s id old new)
    (hs : categories.Intact s) : categories.Guarded t.locks s (t.view s) := by
  rw [view_of_writes h.writes]
  refine guarded_put hs rfl fun k hk => ?_
  obtain ⟨categoryId, rfl, -, hcategory⟩ := ref_habit hk
  by_cases hsame : old.categoryId = new.categoryId
  · refine Or.inl ⟨_, h.before, ?_⟩
    change old.categoryId.map HabitKey.category = _
    rw [hsame, hcategory]
    rfl
  · exact Or.inr (h.category hsame categoryId hcategory)

theorem keeps_patchedCategory {id : Uuid} {old new : HabitRow} {next : HabitHandler γ}
    (hwrites : t.writes = [⟨.habit id, some { row := new, isDeleted := false }⟩])
    (hlock : (HabitKey.habit id, LockMode.noKeyUpdate) ∈ t.locks)
    (hs : s.habit id = some { row := old, isDeleted := false })
    (h : ∀ t s, Overwrites t s id old new → categories.Keeps next post (some t) s done) :
    categories.Keeps ((whenever (old.categoryId ≠ new.categoryId)
      (categoryForeignKey new.categoryId)).bind fun _ => next) post (some t) s done := by
  refine keeps_whenever (fun _ => keeps_categoryForeignKey ?_ fun t' cur hcur hw hsub hmay => ?_)
    fun hsame => ?_
  · intro s id'
    have hne : HabitKey.category id' ≠ HabitKey.habit id := fun hkey => by cases hkey
    rw [view_of_writes hwrites]
    exact lookup_put_of_ne hne _
  · exact h t' cur ⟨hw.trans hwrites, ⟨_, hsub hlock, exclusive_noKeyUpdate⟩,
      hcur.lookup hlock exclusive_noKeyUpdate hs, fun _ => hmay⟩
  · exact h t s ⟨hwrites, ⟨_, hlock, exclusive_noKeyUpdate⟩, hs, fun hne => absurd hne hsame⟩

theorem keeps_patchedRow {id userId : Uuid} {patch : HabitPatch} {now : Timestamp} {old : HabitRow}
    {next : HabitHandler γ} (hwrites : t.writes = [])
    (hlock : (HabitKey.habit id, LockMode.noKeyUpdate) ∈ t.locks)
    (hs : s.habit id = some { row := old, isDeleted := false }) (hown : old.userId = userId)
    (h : ∀ t s, Overwrites t s id old (patch.merge now old) →
      categories.Keeps next post (some t) s done) :
    categories.Keeps ((execSql mapHabitDbErr (updateHabitSql id userId patch now)).bind fun _ =>
      (whenever (old.categoryId ≠ (patch.merge now old).categoryId)
        (categoryForeignKey (patch.merge now old).categoryId)).bind fun _ => next)
      post (some t) s done := by
  have hview : ∀ s, t.view s = s := fun s => by
    rw [Tx.view, hwrites]
    rfl
  have hrow : ∀ {s'}, categories.Interferes t.locks s s' →
      s'.lookup (.habit id) = some { row := old, isDeleted := false } :=
    fun hs' => hs'.lookup hlock exclusive_noKeyUpdate hs
  refine keeps_updateRow (fun sn cur hsn hcur hmiss => ?_) (fun sn cur r r' hcur hr _ hr' => ?_)
  · -- the row is there, so that the statement cannot miss it
    have hfound : ∀ {s'}, categories.Interferes t.locks s s' →
        found (HabitKey.habit id) (ownHabit userId) (t.view s') = true := fun hs' => by
      rw [hview]
      exact found_eq_true.mpr ⟨_, hrow hs', ownHabit_eq_true.mpr ⟨rfl, hown⟩⟩
    rcases hmiss with hmiss | hmiss
    · rw [hfound hsn] at hmiss
      cases hmiss
    · rw [hfound (hsn.trans hcur)] at hmiss
      cases hmiss
  · rw [hview, hrow hcur] at hr
    obtain rfl := Option.some.inj hr
    obtain rfl := Except.ok.inj hr'
    refine keeps_patchedCategory ?_ List.mem_cons_self (hrow hcur) h
    rw [Tx.hold, hwrites]
    rfl

theorem keeps_updateHabit {id userId : Uuid} {patch : HabitPatch} {now : Timestamp}
    {next : HabitRow → HabitHandler γ}
    (h : ∀ old t s, Overwrites t s id old (patch.merge now old) →
      categories.Keeps (next (patch.merge now old)) post (some t) s done) :
    categories.Keeps ((updateHabit id userId patch now).bind next) post (some {}) s done := by
  simp only [updateHabit, fetchOr, Prog.bind_eq, Prog.bind_assoc, Prog.pure_eq]
  refine keeps_selectFor (fun cur _ => keeps_throw) fun cur stored _ hstored hown => ?_
  obtain ⟨old, isDeleted⟩ := stored
  obtain ⟨rfl, huser⟩ := ownHabit_eq_true.mp hown
  refine keeps_ofOption fun old' hold => ?_
  obtain rfl := Option.some.inj hold
  refine keeps_whenever (fun _ => keeps_claimHabitName fun cur' hcur' => ?_) fun _ => ?_
  · exact keeps_patchedRow rfl (List.mem_cons_of_mem _ List.mem_cons_self)
      (hcur'.lookup List.mem_cons_self exclusive_noKeyUpdate hstored) huser (h old)
  · exact keeps_patchedRow rfl List.mem_cons_self hstored huser (h old)

end Rules

section Handlers

variable {caller : Caller} {s : HabitDb}

theorem keeps_createHabitHandler {today : NaiveDate} {body : CreateHabitRequest} :
    categories.Keeps (createHabitHandler caller today body) (final fun _ _ => True) none s [] := by
  simp only [createHabitHandler, Prog.bind_eq, Prog.pure_eq]
  refine keeps_ofExcept fun name _ => keeps_ofExcept fun direction _ =>
    keeps_ofExcept fun frequency _ => keeps_ofExcept fun mask _ => keeps_ofExcept fun target _ =>
    keeps_ofExcept fun start _ => keeps_ofExcept fun end' _ => keeps_ofExcept fun _ _ =>
    keeps_ensureHabitCategory fun s => ?_
  refine keeps_ofExcept fun _ _ => keeps_ofExcept fun _ _ => keeps_ofExcept fun _ _ =>
    keeps_ofExcept fun category _ => keeps_ofExcept fun shortLabel _ => keeps_beginTx ?_
  exact keeps_insertHabit fun stored t cur hguarded => keeps_commitTx fun s' hs' hintact =>
    ⟨hguarded s' hs' hintact, keeps_ret trivial⟩

/-- The PATCH commits once, and the row that it answers is the one that it has committed. -/
theorem keeps_patchHabitHandler {call : HabitCall} {id : Uuid} {body : PatchHabitRequest}
    (hrequest : call.request = .patch id body) :
    categories.Keeps (patchHabitHandler call.caller id body)
      (final fun habit done => Answered call (.updated habit) done) none s [] := by
  simp only [patchHabitHandler, Prog.bind_eq, Prog.pure_eq]
  refine keeps_ofExcept fun _ _ => keeps_select fun s _ => keeps_ofOption fun current _ =>
    keeps_ofExcept fun name hname => keeps_ofExcept fun target htarget =>
    keeps_ofExcept fun end' hend => keeps_ofExcept fun _ _ => keeps_ensureHabitCategory fun s => ?_
  refine keeps_ofExcept fun _ hdescription => keeps_ofExcept fun _ hcolor =>
    keeps_ofExcept fun _ hicon => keeps_ofExcept fun category hcategory =>
    keeps_ofExcept fun shortLabel hlabel => keeps_beginTx ?_
  have haccepted := acceptedPatch_of_checks hname htarget hend hdescription hcolor hicon hcategory
    hlabel
  refine keeps_updateHabit fun old t cur hover => keeps_commitTx fun s' hs' hintact => ?_
  have hover := hover.later hs'
  refine ⟨hover.guarded hintact, keeps_ret ⟨s', t.view s', rfl, _, old, ?_, hover.before, rfl, ?_⟩⟩
  · rw [sentTo, hrequest]
    exact (if_pos rfl).trans haccepted
  · rw [view_of_writes hover.writes]
    exact lookup_put_self _ _ _

theorem keeps_deleteHabitHandler {id : Uuid} :
    categories.Keeps (deleteHabitHandler caller id) (final fun _ _ => True) none s [] := by
  simp only [deleteHabitHandler, fetchOr, Prog.bind_eq, Prog.bind_assoc]
  refine keeps_beginTx (keeps_updateRow (fun _ _ _ _ _ => keeps_throw) fun sn cur h h' _ _ _ hh' =>
    keeps_ofOption fun _ _ => keeps_commitTx fun s' _ hintact => ⟨?_, keeps_ret trivial⟩)
  obtain rfl := Except.ok.inj hh'
  rw [view_of_writes (k := HabitKey.habit id) rfl]
  refine guarded_put hintact rfl fun k hk => ?_
  obtain ⟨_, _, hlive, _⟩ := ref_habit hk
  cases hlive

theorem keeps_createCategoryHandler {body : CreateCategoryRequest} :
    categories.Keeps (createCategoryHandler caller body) (final fun _ _ => True) none s [] := by
  simp only [createCategoryHandler, Prog.bind_eq, Prog.pure_eq]
  refine keeps_ofExcept fun name _ => keeps_ofExcept fun kind _ => keeps_beginTx <|
    keeps_lockSlot fun cur _ => keeps_failIf fun _ => keeps_freshId fun id cur _ _ =>
    keeps_insertRow fun cur _ => keeps_commitTx fun s' _ hintact => ⟨?_, keeps_ret trivial⟩
  rw [view_of_writes (k := HabitKey.category id) rfl]
  exact guarded_put hintact rfl fun k hk => by cases hk

/-- The category is taken away under the lock that keeps new references out, and then cleared
from the habits that have it. -/
theorem keeps_deleteCategoryHandler {id : Uuid} :
    categories.Keeps (deleteCategoryHandler caller id) (final fun _ _ => True) none s [] := by
  simp only [deleteCategoryHandler, fetchOr, Prog.bind_eq, Prog.bind_assoc]
  refine keeps_beginTx (keeps_updateRow (fun _ _ _ _ _ => keeps_throw) fun sn cur c c' _ _ _ hc' =>
    keeps_ofOption fun _ _ => ?_)
  have hp : ∀ k r, decide (categoryRef k r = some id) = true ↔
      categories.ref k r = some (.category id) := by
    intro k r
    change _ ↔ (categoryRef k r).map HabitKey.category = some (HabitKey.category id)
    rw [decide_eq_true_eq, Option.map_eq_some_iff]
    constructor
    · exact fun href => ⟨id, href, rfl⟩
    · rintro ⟨id', href, hid⟩
      rw [href, HabitKey.category.inj hid]
  have hclear : ∀ k r, categories.ref k (clearCategory caller.now k r) = none := by
    intro k r
    cases k with
    | habit id' =>
        change Option.map _ (if r.isDeleted then none else none) = none
        rw [ite_self]
        rfl
    | _ => rfl
  have halive : ∀ k r,
      categories.alive k (clearCategory caller.now k r) = categories.alive k r := by
    intro k r
    cases k with
    | _ => rfl
  exact keeps_updateWhere rfl hp hclear fun t s hclears => keeps_commitTx fun s' hs' hintact =>
    ⟨hclears.guarded hclear halive hs' hintact, keeps_ret trivial⟩

theorem keeps_serveHabit (call : HabitCall) :
    categories.Keeps (serveHabit call) (final (Answered call)) none s [] := by
  have hmap : ∀ {α : Type} {p : HabitHandler α} (f : α → HabitAnswer),
      (∀ a done, Answered call (f a) done) →
      categories.Keeps p (final fun _ _ => True) none s [] →
      categories.Keeps (f <$> p) (final (Answered call)) none s [] :=
    fun f hf h => keeps_map f (keeps_mono h fun a _ _ done _ => hf a done)
  unfold serveHabit
  cases hrequest : call.request with
  | create body => exact hmap _ (fun _ _ => trivial) keeps_createHabitHandler
  | patch id body => exact keeps_map _ (keeps_patchHabitHandler hrequest)
  | delete id => exact hmap _ (fun _ _ => trivial) keeps_deleteHabitHandler
  | createCategory body => exact hmap _ (fun _ _ => trivial) keeps_createCategoryHandler
  | deleteCategory id => exact hmap _ (fun _ _ => trivial) keeps_deleteCategoryHandler
  | get id =>
      refine hmap _ (fun _ _ => trivial) ?_
      simp only [getHabitHandler, Prog.bind_eq, Prog.pure_eq]
      exact keeps_select fun _ _ => keeps_ofOption fun _ _ => keeps_ret trivial
  | list =>
      simp only [Prog.map_eq]
      exact keeps_select fun _ _ => keeps_ret trivial

end Handlers

end PersonalDashboard.HabitCategories
