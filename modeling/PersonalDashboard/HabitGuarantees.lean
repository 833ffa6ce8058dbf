import PersonalDashboard.HabitCategories

/-! The habits after any interleaving of requests: they are as the checks want them, they go back
to what they were created as under the committed patches, and only their users change them. -/

set_option autoImplicit false

namespace PersonalDashboard.HabitGuarantees

open PersonalDashboard.Calendar
open PersonalDashboard.FieldPatches
open PersonalDashboard.FieldPatches.Patches
open PersonalDashboard.ForeignKeys
open PersonalDashboard.HabitCategories
open PersonalDashboard.HabitHandlers
open PersonalDashboard.HabitRules
open PersonalDashboard.LedgerHandlers (Caller Stored)
open PersonalDashboard.ReadCommitted
open PersonalDashboard.RowHistories
open PersonalDashboard.RowHistories.Discipline
open PersonalDashboard.RowStore
open PersonalDashboard.Schema
open PersonalDashboard.Validation

variable {ι : Type} {requests : ι → HabitCall} {i : ι} {id : Uuid}

structure Fixed where
  userId : Uuid
  direction : HabitDirection
  frequency : HabitFrequency
  daysOfWeek : List Nat
  startDate : NaiveDate
  createdAt : Timestamp
  deriving DecidableEq

def fixed (h : HabitRow) : Fixed :=
  { userId := h.userId, direction := h.direction, frequency := h.frequency
    daysOfWeek := h.daysOfWeek, startDate := h.startDate, createdAt := h.createdAt }

theorem patchHabitRow_cases (call : HabitCall) (id : Uuid) (h : Issued HabitRow) :
    (sentTo id call = none ∧ (patchHabitRow call id h).row = h.row) ∨
    (∃ p, sentTo id call = some p ∧
      (patchHabitRow call id h).row = p.merge call.caller.now h.row) ∨
    (sentTo id call = none ∧ (patchHabitRow call id h).row =
      { h.row with categoryId := none, updatedAt := call.caller.now }) := by
  obtain ⟨caller, today, request⟩ := call
  cases request with
  | patch id' body =>
      simp only [patchHabitRow]
      cases hsent : sentTo id ⟨caller, today, .patch id' body⟩ with
      | none => exact Or.inl ⟨rfl, rfl⟩
      | some p => exact Or.inr (Or.inl ⟨p, rfl, rfl⟩)
  | delete id' =>
      simp only [patchHabitRow]
      split
      · exact Or.inl ⟨rfl, rfl⟩
      · exact Or.inl ⟨rfl, rfl⟩
  | deleteCategory id' =>
      simp only [patchHabitRow]
      split
      · exact Or.inr (Or.inr ⟨rfl, rfl⟩)
      · exact Or.inl ⟨rfl, rfl⟩
  | _ => exact Or.inl ⟨rfl, rfl⟩

theorem fixed_patchHabitRow (call : HabitCall) (id : Uuid) (h : Issued HabitRow) :
    fixed (patchHabitRow call id h).row = fixed h.row := by
  rcases patchHabitRow_cases call id h with ⟨-, hrow⟩ | ⟨p, -, hrow⟩ | ⟨-, hrow⟩
  · rw [hrow]
  · rw [hrow]
    rfl
  · rw [hrow]
    rfl

theorem row_patchCategoryRow (call : HabitCall) (id : Uuid) (c : Issued CategoryRow) :
    (patchCategoryRow call id c).row = c.row := by
  unfold patchCategoryRow
  split
  · split
    · rfl
    · rfl
  · rfl

theorem fixed_of_evolves {h h' : Issued HabitRow}
    (hevolves : (patches requests).discipline.Evolves (.habit id) (some h) (some h')) :
    fixed h'.row = fixed h.row := by
  obtain ⟨r, hr, hfixed⟩ := exists_of_evolves
    (R := fun r r' : Issued HabitRow => fixed r'.row = fixed r.row) rfl
    (fun i r' hr' => (fixed_patchHabitRow (requests i) id r').trans hr') hevolves
  rw [Option.some.inj hr]
  exact hfixed

theorem exists_category_of_later {s t : HabitDb} {c : Issued CategoryRow}
    (h : (patches requests).discipline.Later [] s t) (hc : s.category id = some c) :
    ∃ c', t.category id = some c' ∧ c'.row = c.row := by
  have hevolves := h.evolves (.category id)
  rw [show s.lookup (.category id) = some c from hc] at hevolves
  exact exists_of_evolves (R := fun r r' : Issued CategoryRow => r'.row = r.row) rfl
    (fun i r' hr' => (row_patchCategoryRow (requests i) id r').trans hr') hevolves

def OwnCategory (s : HabitDb) (h : HabitRow) : Prop :=
  ∀ id, h.categoryId = some id → ∃ c, s.category id = some c ∧ c.row.userId = h.userId ∧
    c.row.kind = .habit

def Consistent (s : HabitDb) : Prop :=
  ∀ id h, s.habit id = some h → IsHabit h.row ∧ OwnCategory s h.row

def RowOk (s : HabitDb) : (k : HabitKey) → HabitTable k → Prop
  | .habit _, h => IsHabit h.row ∧ OwnCategory s h.row
  | _, _ => True

theorem OwnCategory.later {s t : HabitDb} {h : HabitRow} (hown : OwnCategory s h)
    (hlater : (patches requests).discipline.Later [] s t) : OwnCategory t h := by
  intro id hid
  obtain ⟨c, hc, huser, hkind⟩ := hown id hid
  obtain ⟨c', hc', hrow⟩ := exists_category_of_later hlater hc
  rw [← hrow] at huser hkind
  exact ⟨c', hc', huser, hkind⟩

theorem ownCategory_of_read {seen : List HabitDb} {s : HabitDb} {h : HabitRow}
    (hread : CategoryRead seen h.userId h.categoryId)
    (hseen : ∀ t ∈ seen, (patches requests).discipline.Later [] t s) : OwnCategory s h := by
  intro id hid
  obtain ⟨t, ht, c, hc, huser, hkind⟩ := hread id hid
  obtain ⟨c', hc', hrow⟩ := exists_category_of_later (hseen t ht) hc
  rw [← hrow] at huser hkind
  exact ⟨c', hc', huser, hkind⟩

theorem sentTo_eq_some {call : HabitCall} {p : HabitPatch} (h : sentTo id call = some p) :
    ∃ body, call.request = .patch id body ∧ acceptedPatch call.caller body = some p := by
  obtain ⟨caller, today, request⟩ := call
  cases request with
  | patch id' body =>
      simp only [sentTo] at h
      split at h
      · rename_i hid
        exact ⟨body, by rw [hid], h⟩
      · cases h
  | _ => cases h

theorem guard_of_sent {call : HabitCall} {seen : List HabitDb} {h : Issued HabitRow}
    {p : HabitPatch} (hguard : HabitGuard call seen id h) (hsent : sentTo id call = some p) :
    h.row.userId = call.caller.userId ∧ RangeRead seen id p.endDate ∧
      CategoryRead seen call.caller.userId p.categoryId := by
  obtain ⟨body, hrequest, -⟩ := sentTo_eq_some hsent
  rw [HabitGuard, hrequest] at hguard
  exact ⟨(ownHabit_eq_true.mp hguard.1).2, hguard.2 p hsent⟩

/-- The start date never changes, so that the range that a patch was checked for is the range that
it leaves. -/
theorem rowOk_patchHabitRow {call : HabitCall} {seen : List HabitDb} {s : HabitDb}
    {h : Issued HabitRow} (hok : IsHabit h.row ∧ OwnCategory s h.row)
    (hguard : HabitGuard call seen id h)
    (hseen : ∀ t ∈ seen, (patches requests).discipline.Later [] t s ∧
      (patches requests).discipline.Evolves (.habit id) (t.lookup (.habit id)) (some h)) :
    IsHabit (patchHabitRow call id h).row ∧ OwnCategory s (patchHabitRow call id h).row := by
  obtain ⟨hhabit, hown⟩ := hok
  rcases patchHabitRow_cases call id h with ⟨-, hrow⟩ | ⟨p, hsent, hrow⟩ | ⟨-, hrow⟩
  · rw [hrow]
    exact ⟨hhabit, hown⟩
  · obtain ⟨huser, hrange, hcategory⟩ := guard_of_sent hguard hsent
    obtain ⟨body, -, haccepted⟩ := sentTo_eq_some hsent
    rw [hrow]
    refine ⟨isHabit_merge haccepted hhabit (fun e he => ?_) _, ?_⟩
    · obtain ⟨t, ht, h₀, hh₀, hle⟩ := hrange e he
      have hevolves := (hseen t ht).2
      rw [show t.lookup (.habit id) = some h₀ from hh₀] at hevolves
      rw [show h.row.startDate = h₀.row.startDate from
        congrArg Fixed.startDate (fixed_of_evolves hevolves)]
      exact hle
    · cases hcat : p.categoryId with
      | none =>
          intro id' hid'
          refine hown id' ?_
          rw [HabitPatch.merge] at hid'
          rwa [hcat, Option.none_or] at hid'
      | some id' =>
          have hlater : ∀ t ∈ seen, (patches requests).discipline.Later [] t s :=
            fun t ht => (hseen t ht).1
          refine ownCategory_of_read ?_ hlater
          change CategoryRead seen h.row.userId (p.categoryId.or h.row.categoryId)
          rw [huser, hcat, Option.some_or, ← hcat]
          exact hcategory
  · rw [hrow]
    refine ⟨⟨hhabit.name, hhabit.description, hhabit.daysOfWeek, hhabit.targetPerPeriod,
      hhabit.range, hhabit.color, hhabit.icon, hhabit.category, hhabit.shortLabel⟩, ?_⟩
    intro id' hid'
    cases hid'

theorem consistent_of_chained {db₀ db : HabitDb} {cs : List (Commit ι HabitTable)}
    (hdb₀ : Consistent db₀) (h : Justified (patches requests).discipline cs)
    (hchain : Chained db₀ cs db) : Consistent db := by
  have hrows := holds_of_chained (P := patches requests) (Q := RowOk) ?_ ?_ ?_ ?_ h hchain
  · exact fun id h hh => hrows (.habit id) h hh
  · intro s t k r hlater hr
    cases k with
    | habit id => exact ⟨hr.1, hr.2.later hlater⟩
    | _ => trivial
  · intro i seen s k r hinserts hseen
    cases k with
    | habit id =>
        obtain ⟨⟨body, -, haccepted⟩, -, hread⟩ := hinserts
        obtain ⟨hhabit, huser⟩ := isHabit_of_accepted haccepted
        rw [← huser] at hread
        exact ⟨hhabit, ownCategory_of_read hread hseen⟩
    | _ => trivial
  · intro i seen s k r hr hguard hseen
    cases k with
    | habit id => exact rowOk_patchHabitRow hr hguard hseen
    | _ => trivial
  · intro k r hr
    cases k with
    | habit id => exact hdb₀ id r hr
    | _ => trivial

def CategoriesLive (s : HabitDb) : Prop :=
  ∀ id h, s.habit id = some h → h.isDeleted = false → ∀ categoryId,
    h.row.categoryId = some categoryId →
      ∃ c, s.category categoryId = some c ∧ c.isDeleted = false

def ShowsCategory (s : HabitDb) (h : HabitRow) : Prop :=
  ∀ id, h.categoryId = some id → ∃ c, s.category id = some c ∧ c.isDeleted = false ∧
    c.row.userId = h.userId ∧ c.row.kind = .habit

theorem intact_iff {s : HabitDb} : categories.Intact s ↔ CategoriesLive s := by
  constructor
  · intro hintact id h hh hlive categoryId hcategory
    obtain ⟨c, hc, hcat⟩ := hintact (.habit id) (.category categoryId) ⟨h, hh, by
      change Option.map _ (if h.isDeleted then none else h.row.categoryId) = _
      rw [hlive, hcategory]
      rfl⟩
    exact ⟨c, hc, by simpa [categories] using hcat⟩
  · rintro hlive k k' ⟨r, hr, href⟩
    cases k with
    | habit id =>
        obtain ⟨categoryId, rfl, hr', hcategory⟩ := ref_habit href
        obtain ⟨c, hc, hcat⟩ := hlive id r hr hr' categoryId hcategory
        exact ⟨c, hc, by simpa [categories] using hcat⟩
    | _ => cases href

theorem showsCategory_of_live {s : HabitDb} {row : HabitRow} (hown : OwnCategory s row)
    (hlive : CategoriesLive s) (hrow : s.habit id = some { row := row, isDeleted := false }) :
    ShowsCategory s row := by
  intro categoryId hcategory
  obtain ⟨c, hc, huser, hkind⟩ := hown categoryId hcategory
  obtain ⟨c', hc', hgone⟩ := hlive id _ hrow rfl categoryId hcategory
  obtain rfl := Option.some.inj (hc.symm.trans hc')
  exact ⟨c, hc, hgone, huser, hkind⟩

variable (requests) in
/-- The patches of a habit that have been committed, the newest first. -/
def committedPatches (id : Uuid) (commits : List (Commit ι HabitTable)) : List HabitPatch :=
  (commits.filter ((patches requests).Leaves (.habit id))).filterMap fun c =>
    sentTo id (requests c.proc)

def applyPatches (ps : List HabitPatch) (h : HabitRow) : HabitRow :=
  ps.foldr (fun p h => p.merge h.updatedAt h) h

/-- A habit is another one, up to when it was updated, and to a category that has been cleared. -/
def Resembles (h new : HabitRow) : Prop :=
  ∃ categoryId updatedAt, (categoryId = new.categoryId ∨ categoryId = none) ∧
    h = { new with categoryId := categoryId, updatedAt := updatedAt }

theorem Resembles.refl (h : HabitRow) : Resembles h h :=
  ⟨h.categoryId, h.updatedAt, Or.inl rfl, rfl⟩

theorem Resembles.merge {h new : HabitRow} (hnew : Resembles h new) (p : HabitPatch)
    (now now' : Timestamp) : Resembles (p.merge now h) (p.merge now' new) := by
  obtain ⟨categoryId, updatedAt, hcategory, rfl⟩ := hnew
  refine ⟨p.categoryId.or categoryId, now, ?_, rfl⟩
  rw [HabitPatch.merge]
  cases p.categoryId with
  | none => exact hcategory
  | some id => exact Or.inl rfl

theorem Resembles.clear {h new : HabitRow} (hnew : Resembles h new) (now : Timestamp) :
    Resembles { h with categoryId := none, updatedAt := now } new := by
  obtain ⟨categoryId, updatedAt, -, rfl⟩ := hnew
  exact ⟨none, now, Or.inr rfl, rfl⟩

theorem resembles_patched (commits : List (Commit ι HabitTable)) (h : Issued HabitRow) :
    Resembles ((patches requests).patched (.habit id) commits h).row
      (applyPatches (committedPatches requests id commits) h.row) := by
  rw [patched, committedPatches]
  induction commits.filter ((patches requests).Leaves (.habit id)) with
  | nil => exact Resembles.refl _
  | cons c cs ih =>
      rw [List.foldr_cons, List.filterMap_cons]
      generalize List.foldr _ h cs = h' at ih ⊢
      change Resembles (patchHabitRow (requests c.proc) id h').row _
      rcases patchHabitRow_cases (requests c.proc) id h' with
        ⟨hsent, hrow⟩ | ⟨p, hsent, hrow⟩ | ⟨hsent, hrow⟩
      · rw [hsent, hrow]
        exact ih
      · rw [hsent, hrow]
        exact ih.merge p _ _
      · rw [hsent, hrow]
        exact ih.clear _

theorem isDeleted_patchHabitRow {call : HabitCall} {h : Issued HabitRow}
    (hlive : h.isDeleted = false) (hgone : (patchHabitRow call id h).isDeleted = true) :
    call.request = .delete id := by
  obtain ⟨caller, today, request⟩ := call
  cases request with
  | delete id' =>
      simp only [patchHabitRow] at hgone
      split at hgone
      · rename_i hid
        rw [hid]
      · rw [hlive] at hgone
        cases hgone
  | patch id' body =>
      simp only [patchHabitRow] at hgone
      cases hsent : sentTo id ⟨caller, today, .patch id' body⟩ with
      | none =>
          rw [hsent] at hgone
          exact absurd hgone (by simp [hlive])
      | some p =>
          rw [hsent] at hgone
          exact absurd hgone (by simp [hlive])
  | deleteCategory id' =>
      simp only [patchHabitRow] at hgone
      split at hgone
      · exact absurd hgone (by simp [clearCategory, hlive])
      · exact absurd hgone (by simp [hlive])
  | _ => exact absurd hgone (by simp [patchHabitRow, hlive])

theorem own_of_patchHabitRow_ne {call : HabitCall} {seen : List HabitDb} {s : HabitDb}
    {h : Issued HabitRow} (hown : OwnCategory s h.row) (hguard : HabitGuard call seen id h)
    (hseen : ∀ t ∈ seen, (patches requests).discipline.Later [] t s)
    (hne : patchHabitRow call id h ≠ h) :
    h.isDeleted = false ∧ h.row.userId = call.caller.userId := by
  obtain ⟨caller, today, request⟩ := call
  cases request with
  | patch id' body => exact ownHabit_eq_true.mp hguard.1
  | deleteCategory id' =>
      simp only [patchHabitRow] at hne
      split at hne
      · rename_i href
        simp only [categoryRef] at href
        split at href
        · cases href
        · rename_i hlive
          obtain ⟨t, ht, c, hc, huser⟩ := hguard
          obtain ⟨c', hc', hrow⟩ := exists_category_of_later (hseen t ht) hc
          obtain ⟨c'', hc'', huser', -⟩ := hown id' href
          obtain rfl := Option.some.inj (hc'.symm.trans hc'')
          refine ⟨by simpa using hlive, ?_⟩
          rw [← huser', hrow]
          exact huser
      · exact absurd rfl hne
  | _ => exact ownHabit_eq_true.mp hguard

variable [DecidableEq ι]

variable (requests) in
def habitsRun (db : HabitDb) (cs : List (Choice ι)) :
    Config ι HabitTable SqlState AppError HabitAnswer :=
  run .internal (start db fun i => serveHabit (requests i)) cs

variable (requests) in
theorem historical_habitsRun (db : HabitDb) (cs : List (Choice ι)) :
    Historical (patches requests).discipline (fun i => Reads (requests i))
      (habitsRun requests db cs) :=
  (historical_start fun _ => follows_serveHabit rfl).run (fun _ _ _ => trivial) cs

variable (requests) in
theorem chained_habitsRun (db : HabitDb) (cs : List (Choice ι)) :
    Chained db (habitsRun requests db cs).commits (habitsRun requests db cs).db :=
  chained_run (chained_start _ _) _ _

theorem consistent_of_past {db t : HabitDb} {cs : List (Choice ι)} (hdb : Consistent db)
    (ht : Past (habitsRun requests db cs) t) : Consistent t := by
  have hjustified := (historical_habitsRun requests db cs).justified
  have hchain := chained_habitsRun requests db cs
  rcases ht with rfl | ⟨c, hc, rfl⟩
  · exact consistent_of_chained hdb hjustified hchain
  · obtain ⟨older, holder, hbefore⟩ := exists_older hjustified hchain hc
    exact consistent_of_chained hdb holder.2 hbefore

variable (requests) in
theorem sound_habitsRun {db : HabitDb} (hdb : categories.Intact db) (cs : List (Choice ι)) :
    categories.Sound (fun i => Answered (requests i)) (habitsRun requests db cs) :=
  (References.sound_start hdb fun _ => keeps_serveHabit _).run _ cs

theorem categoriesLive_of_past {db t : HabitDb} {cs : List (Choice ι)} (hdb : CategoriesLive db)
    (ht : Past (habitsRun requests db cs) t) : CategoriesLive t := by
  have hsound := sound_habitsRun requests (intact_iff.mpr hdb) cs
  rcases ht with rfl | ⟨c, hc, rfl⟩
  · exact intact_iff.mp hsound.intact
  · exact intact_iff.mp (hsound.past c hc)

theorem mem_habitsWhere {p : HabitRow → Bool} {s : HabitDb} {stored : Stored HabitRow}
    (h : stored ∈ habitsWhere p s) :
    s.habit stored.id = some { row := stored.row, isDeleted := false } ∧ p stored.row = true := by
  obtain ⟨⟨k, r⟩, hmem, hr⟩ := List.mem_filterMap.mp h
  cases k with
  | habit id =>
      simp only [Option.ite_none_right_eq_some, Option.some.injEq] at hr
      obtain ⟨hlive, rfl⟩ := hr
      rw [Issued.live, Bool.and_eq_true, Bool.not_eq_true'] at hlive
      refine ⟨?_, hlive.2⟩
      change s.lookup (.habit id) = _
      rw [AList.mem_lookup_iff.mpr hmem, ← hlive.1]
  | _ => cases hr

section Tabs

def noParsers : Parsers :=
  { decimal := fun _ => none, naiveDate := fun _ => none, dateTime := fun _ => none }

def newYear : NaiveDate :=
  NaiveDate.firstOfMonth 2026 1 NaiveDate.january_pos NaiveDate.january_le

def reading : HabitRow :=
  { userId := 1, name := "Leer", description := none, direction := .build, frequency := .custom
    daysOfWeek := [1, 3], targetPerPeriod := none, startDate := newYear
    endDate := some newYear, categoryId := none, color := none, icon := none
    isArchived := false, createdAt := 0, updatedAt := 0, category := none, shortLabel := none }

def readingDb : HabitDb :=
  put ∅ (HabitKey.habit 1) (some { row := reading, isDeleted := false })

def emptyPatch : PatchHabitRequest :=
  { name := none, description := none, targetPerPeriod := none, endDate := none, categoryId := none
    color := none, icon := none, isArchived := none, category := none, shortLabel := none }

def tabs (archives : Bool) : HabitCall :=
  if archives then
    ⟨⟨noParsers, 1, 20⟩, newYear, .patch 1 { emptyPatch with isArchived := some true }⟩
  else ⟨⟨noParsers, 1, 10⟩, newYear, .patch 1 { emptyPatch with color := some "#0a0" }⟩

def tabTurns : List (Choice Bool) :=
  (List.range 24).map fun n => ⟨n % 2 = 1, .advance 0⟩

theorem habit_readingDb {h : Issued HabitRow} (hh : readingDb.habit id = some h) :
    id = 1 ∧ h = { row := reading, isDeleted := false } := by
  by_cases hid : id = 1
  · subst hid
    exact ⟨rfl, (Option.some.inj hh).symm⟩
  · have hnone : readingDb.habit id = none :=
      lookup_put_of_ne (fun hkey => hid (HabitKey.habit.inj hkey)) _
    rw [hnone] at hh
    cases hh

theorem consistent_readingDb : Consistent readingDb := by
  intro id h hh
  obtain ⟨rfl, rfl⟩ := habit_readingDb hh
  refine ⟨⟨by decide, rfl, ⟨by decide, by decide, by decide⟩, fun _ ht => (by cases ht),
    fun e he => (Option.some.inj he) ▸ le_refl _, rfl, rfl, rfl, rfl⟩, fun _ hid => (by cases hid)⟩

def shelf : CategoryRow :=
  { userId := 1, kind := .habit, name := "Lectura" }

def shelfDb : HabitDb :=
  put readingDb (HabitKey.category 1) (some { row := shelf, isDeleted := false })

def filing (deletes : Bool) : HabitCall :=
  if deletes then ⟨⟨noParsers, 1, 20⟩, newYear, .deleteCategory 1⟩
  else ⟨⟨noParsers, 1, 10⟩, newYear, .patch 1 { emptyPatch with categoryId := some 1 }⟩

/-- The habit is filed while the other tab waits to delete the category. -/
def filingTurns : List (Choice Bool) :=
  List.replicate 7 ⟨false, .advance 0⟩ ++
    (List.range 24).map fun n => ⟨n % 2 = 0, .advance 0⟩

theorem habit_shelfDb {h : Issued HabitRow} (hh : shelfDb.habit id = some h) :
    id = 1 ∧ h = { row := reading, isDeleted := false } := by
  have hne : HabitKey.habit id ≠ HabitKey.category 1 := fun hkey => by cases hkey
  exact habit_readingDb ((lookup_put_of_ne hne _).symm.trans hh)

theorem consistent_shelfDb : Consistent shelfDb := by
  intro id h hh
  obtain ⟨rfl, rfl⟩ := habit_shelfDb hh
  exact ⟨(consistent_readingDb 1 _ rfl).1, fun _ hcategory => (by cases hcategory)⟩

theorem categoriesLive_readingDb : CategoriesLive readingDb := by
  intro id h hh _ categoryId hcategory
  rw [(habit_readingDb hh).2] at hcategory
  cases hcategory

theorem categoriesLive_shelfDb : CategoriesLive shelfDb := by
  intro id h hh _ categoryId hcategory
  rw [(habit_shelfDb hh).2] at hcategory
  cases hcategory

end Tabs

/-- Whatever requests run, in whatever order: every stored habit passes its checks again, its end
is not before its start, its weekdays fit its frequency, and its category is one of its user's own,
a live one if the habit is live; so does every habit that a read shows, in the state that it was
read from, and only to its user. -/
theorem consistent_habitsRun (requests : ι → HabitCall) (db : HabitDb) (hdb : Consistent db)
    (hlive : CategoriesLive db) (cs : List (Choice ι)) :
    let s := habitsRun requests db cs
    Consistent s.db ∧ CategoriesLive s.db ∧
    (∀ i habit, (s.procs i).prog = .ret (.read habit) →
      IsHabit habit.row ∧ habit.row.userId = (requests i).caller.userId ∧
        ∃ t, Past s t ∧ HabitDb.habit t habit.id = some { row := habit.row, isDeleted := false } ∧
          ShowsCategory t habit.row) ∧
    ∀ i habits, (s.procs i).prog = .ret (.list habits) → ∃ t, Past s t ∧ ∀ habit ∈ habits,
      IsHabit habit.row ∧ habit.row.userId = (requests i).caller.userId ∧
        HabitDb.habit t habit.id = some { row := habit.row, isDeleted := false } ∧
          ShowsCategory t habit.row := by
  intro s
  have hrun := historical_habitsRun requests db cs
  have hshown : ∀ {t : HabitDb} {id row}, Past s t →
      t.habit id = some { row := row, isDeleted := false } →
      IsHabit row ∧ ShowsCategory t row := by
    intro t id row ht hrow
    obtain ⟨hhabit, hown⟩ := consistent_of_past hdb ht id _ hrow
    exact ⟨hhabit, showsCategory_of_live hown (categoriesLive_of_past hlive ht) hrow⟩
  refine ⟨consistent_of_past hdb (Or.inl rfl), categoriesLive_of_past hlive (Or.inl rfl),
    fun i habit hret => ?_, fun i habits hret => ?_⟩
  · obtain ⟨seen, -, hseen, -, t, ht, hread⟩ := hrun.goal (r := .ok _) hret
    obtain ⟨hrow, huser⟩ := getHabitSql_eq_some.mp hread
    obtain ⟨hhabit, hcategory⟩ := hshown (hseen t ht) hrow
    exact ⟨hhabit, huser, t, hseen t ht, hrow, hcategory⟩
  · obtain ⟨seen, -, hseen, -, t, ht, rfl⟩ := hrun.goal (r := .ok _) hret
    refine ⟨t, hseen t ht, fun habit hhabit => ?_⟩
    obtain ⟨hrow, huser⟩ := mem_habitsWhere (List.mem_insertionSort _ |>.mp hhabit)
    obtain ⟨hhabit, hcategory⟩ := hshown (hseen t ht) hrow
    exact ⟨hhabit, of_decide_eq_true huser, hrow, hcategory⟩

theorem consistent_habitsRun_filing :
    let s := habitsRun filing shelfDb filingTurns
    Consistent s.db ∧ CategoriesLive s.db ∧
    (∀ i habit, (s.procs i).prog = .ret (.read habit) →
      IsHabit habit.row ∧ habit.row.userId = (filing i).caller.userId ∧
        ∃ t, Past s t ∧ HabitDb.habit t habit.id = some { row := habit.row, isDeleted := false } ∧
          ShowsCategory t habit.row) ∧
    ∀ i habits, (s.procs i).prog = .ret (.list habits) → ∃ t, Past s t ∧ ∀ habit ∈ habits,
      IsHabit habit.row ∧ habit.row.userId = (filing i).caller.userId ∧
        HabitDb.habit t habit.id = some { row := habit.row, isDeleted := false } ∧
          ShowsCategory t habit.row :=
  consistent_habitsRun filing shelfDb consistent_shelfDb categoriesLive_shelfDb filingTurns

theorem patchHabitRow_of_sent {call : HabitCall} {p : HabitPatch} {old new : HabitRow}
    (hsent : sentTo id call = some p) (hnew : new = p.merge call.caller.now old) :
    patchHabitRow call id { row := new, isDeleted := false } =
      { row := new, isDeleted := false } := by
  obtain ⟨body, hrequest, -⟩ := sentTo_eq_some hsent
  rw [patchHabitRow, hrequest]
  simp only [hsent, Option.elim_some, hnew, merge_merge]

/-- An answered PATCH is one of the committed patches of its habit, and its commit leaves the habit
as it is answered. -/
theorem exists_commit_of_updated {db : HabitDb} (hdb : CategoriesLive db) {cs : List (Choice ι)}
    {habit : Stored HabitRow}
    (hret : ((habitsRun requests db cs).procs i).prog = .ret (.updated habit)) :
    ∃ newer c older p, (habitsRun requests db cs).commits = newer ++ c :: older ∧ c.proc = i ∧
      sentTo habit.id (requests i) = some p ∧
      HabitDb.habit c.after habit.id = some { row := habit.row, isDeleted := false } ∧
      committedPatches requests habit.id (habitsRun requests db cs).commits =
        committedPatches requests habit.id newer ++
          p :: committedPatches requests habit.id older := by
  obtain ⟨before, after, hown, p, old, hsent, -, hrow, hafter⟩ :=
    (sound_habitsRun requests (intact_iff.mpr hdb) cs).answered hret
  obtain ⟨c, hfilter, heq⟩ := List.map_eq_singleton_iff.mp hown
  obtain ⟨newer, older, hcommits, -, hproc, -⟩ := List.filter_eq_cons_iff.mp hfilter
  obtain ⟨rfl, rfl⟩ := Prod.mk.inj heq
  have hproc : c.proc = i := of_decide_eq_true hproc
  have hleaves : (patches requests).Leaves (.habit habit.id) c = true := by
    rw [Leaves, show c.after.lookup (.habit habit.id) = _ from hafter, Option.any_some,
      decide_eq_true_eq, hproc]
    exact patchHabitRow_of_sent hsent hrow
  refine ⟨newer, c, older, p, hcommits, hproc, hsent, hafter, ?_⟩
  rw [hcommits, committedPatches, List.filter_append, List.filterMap_append,
    List.filter_cons_of_pos hleaves, List.filterMap_cons, hproc, hsent]
  rfl

/-- A habit goes back to one stored at first, or to what a request created it as, under the patches
that have been committed since, one after the other; only its category may have been cleared. Every
patch that is answered is among them, and its commit leaves the habit that it answers. -/
theorem patched_habitsRun (requests : ι → HabitCall) (db : HabitDb) (cs : List (Choice ι)) :
    let s := habitsRun requests db cs
    (∀ id h, HabitDb.habit s.db id = some h → ∃ origin : HabitRow,
      ((∃ h₀, db.habit id = some h₀ ∧ h₀.row = origin) ∨
        db.habit id = none ∧ ∃ c ∈ s.commits, ∃ body, (requests c.proc).request = .create body ∧
          acceptedHabit (requests c.proc).caller (requests c.proc).today body = some origin) ∧
      Resembles h.row (applyPatches (committedPatches requests id s.commits) origin)) ∧
    (CategoriesLive db → ∀ i habit, (s.procs i).prog = .ret (.updated habit) →
      ∃ newer c older p, s.commits = newer ++ c :: older ∧ c.proc = i ∧
        sentTo habit.id (requests i) = some p ∧
        HabitDb.habit c.after habit.id = some { row := habit.row, isDeleted := false } ∧
        committedPatches requests habit.id s.commits =
          committedPatches requests habit.id newer ++
            p :: committedPatches requests habit.id older) := by
  intro s
  refine ⟨fun id h hh => ?_, fun hlive i habit hret => exists_commit_of_updated hlive hret⟩
  have hsteps := steps_of_justified (historical_habitsRun requests db cs).justified (.habit id)
  obtain ⟨h₀, horigin, rfl⟩ := exists_origin hsteps (chained_habitsRun requests db cs) hh
  refine ⟨h₀.row, ?_, resembles_patched _ h₀⟩
  rcases horigin with hdb | ⟨hdb, c, hc, seen, ⟨body, hrequest, haccepted⟩, -⟩
  · exact Or.inl ⟨h₀, hdb, rfl⟩
  · exact Or.inr ⟨hdb, c, hc, body, hrequest, haccepted⟩

theorem patched_habitsRun_tabs :
    let s := habitsRun tabs readingDb tabTurns
    (∃ origin : HabitRow,
      ((∃ h₀, readingDb.habit 1 = some h₀ ∧ h₀.row = origin) ∨
        readingDb.habit 1 = none ∧ ∃ c ∈ s.commits, ∃ body,
          (tabs c.proc).request = .create body ∧
          acceptedHabit (tabs c.proc).caller (tabs c.proc).today body = some origin) ∧
      Resembles { reading with color := some "#0a0", isArchived := true, updatedAt := 20 }
        (applyPatches (committedPatches tabs 1 s.commits) origin)) ∧
    ∃ newer c older p, s.commits = newer ++ c :: older ∧ c.proc = false ∧
      sentTo 1 (tabs false) = some p ∧
      HabitDb.habit c.after 1 =
        some { row := { reading with color := some "#0a0", updatedAt := 10 }, isDeleted := false } ∧
      committedPatches tabs 1 s.commits =
        committedPatches tabs 1 newer ++ p :: committedPatches tabs 1 older := by
  obtain ⟨hpatched, hanswered⟩ := patched_habitsRun tabs readingDb tabTurns
  refine ⟨hpatched 1
    { row := { reading with color := some "#0a0", isArchived := true, updatedAt := 20 }
      isDeleted := false } (by decide), ?_⟩
  exact hanswered categoriesLive_readingDb false
    ⟨1, { reading with color := some "#0a0", updatedAt := 10 }⟩ rfl

/-- A commit that changes a habit starts from a live one of its user's own, stored or new, and keeps
it or lays its patch over it. -/
theorem exists_start_of_ne {db : HabitDb} (hdb : Consistent db) {cs : List (Choice ι)}
    {c : Commit ι HabitTable} (hc : c ∈ (habitsRun requests db cs).commits) {id : Uuid}
    (hne : HabitDb.habit c.after id ≠ HabitDb.habit c.before id) :
    ∃ r : Issued HabitRow, r.isDeleted = false ∧
      r.row.userId = (requests c.proc).caller.userId ∧
      (HabitDb.habit c.before id = some r ∨ HabitDb.habit c.before id = none) ∧
      (HabitDb.habit c.after id = some r ∨
        HabitDb.habit c.after id = some (patchHabitRow (requests c.proc) id r)) := by
  obtain ⟨older, ⟨⟨seen, hpast, hmakes⟩, holder⟩, hchain⟩ :=
    exists_older (historical_habitsRun requests db cs).justified
      (chained_habitsRun requests db cs) hc
  have hseen := fun t ht => later_of_seen holder hchain (hpast t ht)
  rcases makes_cases (hmakes (.habit id)) with hsame | ⟨r, hbased, hrow⟩
  · exact absurd hsame hne
  refine ⟨r, ?_⟩
  rcases hbased with hr | ⟨hnone, ⟨body, -, haccepted⟩, hlive, -⟩
  · rcases hrow with hrow | ⟨hguard, hrow⟩
    · exact absurd (hrow.trans hr.symm) hne
    · have hown := (consistent_of_chained hdb holder hchain id r hr).2
      obtain ⟨hlive, huser⟩ := own_of_patchHabitRow_ne hown hguard hseen fun heq => hne
        (Eq.trans (hrow.trans (congrArg some heq)) hr.symm)
      exact ⟨hlive, huser, Or.inl hr, Or.inr hrow⟩
  · exact ⟨hlive, (isHabit_of_accepted haccepted).2, Or.inr hnone, hrow.imp_right And.right⟩

/-- Each commit changes only habits of the user whose request it serves, keeps their rows, and hides
one only if that is what the request asks for. -/
theorem owned_habitsRun (requests : ι → HabitCall) (db : HabitDb) (hdb : Consistent db)
    (cs : List (Choice ι)) (c : Commit ι HabitTable)
    (hc : c ∈ (habitsRun requests db cs).commits) (id : Uuid)
    (hne : HabitDb.habit c.after id ≠ HabitDb.habit c.before id) :
    (∃ h, HabitDb.habit c.after id = some h) ∧
    (∀ h, HabitDb.habit c.before id = some h ∨ HabitDb.habit c.after id = some h →
      h.row.userId = (requests c.proc).caller.userId) ∧
    ∀ h, HabitDb.habit c.after id = some h → h.isDeleted = true →
      (requests c.proc).request = .delete id := by
  obtain ⟨r, hlive, huser, hbefore, hafter⟩ := exists_start_of_ne hdb hc hne
  have huser' : (patchHabitRow (requests c.proc) id r).row.userId =
      (requests c.proc).caller.userId :=
    (congrArg Fixed.userId (fixed_patchHabitRow _ id r)).trans huser
  refine ⟨hafter.elim (fun h => ⟨_, h⟩) fun h => ⟨_, h⟩, fun h hh => ?_, fun h hh hgone => ?_⟩
  · rcases hh with hh | hh
    · rcases hbefore with hr | hnone
      · obtain rfl := Option.some.inj (hr.symm.trans hh)
        exact huser
      · rw [hnone] at hh
        cases hh
    · rcases hafter with hr | hr
      · obtain rfl := Option.some.inj (hr.symm.trans hh)
        exact huser
      · obtain rfl := Option.some.inj (hr.symm.trans hh)
        exact huser'
  · rcases hafter with hr | hr
    · obtain rfl := Option.some.inj (hr.symm.trans hh)
      rw [hlive] at hgone
      cases hgone
    · obtain rfl := Option.some.inj (hr.symm.trans hh)
      exact isDeleted_patchHabitRow hlive hgone

theorem owned_habitsRun_tabs :
    ∃ c ∈ (habitsRun tabs readingDb tabTurns).commits,
      HabitDb.habit c.after 1 ≠ HabitDb.habit c.before 1 ∧
      (∃ h, HabitDb.habit c.after 1 = some h) ∧
      (∀ h, HabitDb.habit c.before 1 = some h ∨ HabitDb.habit c.after 1 = some h →
        h.row.userId = (tabs c.proc).caller.userId) ∧
      ∀ h, HabitDb.habit c.after 1 = some h → h.isDeleted = true →
        (tabs c.proc).request = .delete 1 := by
  have hsome : (habitsRun tabs readingDb tabTurns).commits ≠ [] := by
    rw [← List.isEmpty_eq_false_iff]
    decide
  have hne : HabitDb.habit ((habitsRun tabs readingDb tabTurns).commits.head hsome).after 1 ≠
      HabitDb.habit ((habitsRun tabs readingDb tabTurns).commits.head hsome).before 1 := by
    decide +revert
  exact ⟨_, List.head_mem hsome, hne,
    owned_habitsRun tabs readingDb consistent_readingDb tabTurns _ (List.head_mem hsome) 1 hne⟩

end PersonalDashboard.HabitGuarantees
