import PersonalDashboard.FieldPatches
import PersonalDashboard.HabitHandlers

/-! What the handlers of habits accept, and the rows that they insert and patch, given what they
have read before. -/

set_option autoImplicit false
namespace PersonalDashboard.HabitRules

open PersonalDashboard.Calendar
open PersonalDashboard.FieldPatches
open PersonalDashboard.HabitHandlers
open PersonalDashboard.HabitLogHandlers (maxPeriodValue)
open PersonalDashboard.LedgerHandlers (Caller Stored internal)
open PersonalDashboard.ReadCommitted
open PersonalDashboard.RowHistories
open PersonalDashboard.RowHistories.Discipline
open PersonalDashboard.RowStatements
open PersonalDashboard.RowStore
open PersonalDashboard.Schema
open PersonalDashboard.Validation

instance : (k : HabitKey) → DecidableEq (HabitTable k)
  | .habit _ => inferInstanceAs (DecidableEq (Issued HabitRow))
  | .category _ => inferInstanceAs (DecidableEq (Issued CategoryRow))
  | .habitName .. | .categoryName .. => inferInstanceAs (DecidableEq Empty)

/-- The habit that a request is accepted as, if it is. -/
def acceptedHabit (caller : Caller) (today : NaiveDate) (body : CreateHabitRequest) :
    Option HabitRow := do
  let name ← (validateRequiredText body.name maxNameLen "name").toOption
  let direction ← (validateDirection body.direction).toOption
  let frequency ← (validateFrequency body.frequency).toOption
  let mask ← (validateDaysMask frequency body.daysOfWeek).toOption
  let target ← (validateTarget caller.parsers body.targetPerPeriod).toOption
  let start ←
    (validateOpt (validateCalendarDate caller.parsers · "start_date") body.startDate).toOption
  let end' ← (validateOpt (validateCalendarDate caller.parsers · "end_date") body.endDate).toOption
  let _ ← (validateDateRange (start.getD today) end').toOption
  let _ ← (validateOptionalText body.description maxTextLen "description").toOption
  let _ ← (validateOptionalText body.color 32 "color").toOption
  let _ ← (validateOptionalText body.icon 64 "icon").toOption
  let category ← (normalizeOptionalText body.category maxCategoryLen "category").toOption
  let shortLabel ← (normalizeOptionalText body.shortLabel maxShortLabelLen "short_label").toOption
  pure { userId := caller.userId, name := name, description := body.description
         direction := direction, frequency := frequency, daysOfWeek := mask
         targetPerPeriod := target.map Decimal.cents, startDate := start.getD today
         endDate := end', categoryId := body.categoryId, color := body.color, icon := body.icon
         isArchived := false, createdAt := caller.now, updatedAt := caller.now
         category := category, shortLabel := shortLabel }

/-- The patch that a request is accepted as, if it is; its range is checked elsewhere. -/
def acceptedPatch (caller : Caller) (body : PatchHabitRequest) : Option HabitPatch := do
  let name ← (validateOpt (validateRequiredText · maxNameLen "name") body.name).toOption
  let target ← (validateTarget caller.parsers body.targetPerPeriod).toOption
  let end' ← (validateOpt (validateCalendarDate caller.parsers · "end_date") body.endDate).toOption
  let _ ← (validateOptionalText body.description maxTextLen "description").toOption
  let _ ← (validateOptionalText body.color 32 "color").toOption
  let _ ← (validateOptionalText body.icon 64 "icon").toOption
  let category ← (normalizeOptionalText body.category maxCategoryLen "category").toOption
  let shortLabel ← (normalizeOptionalText body.shortLabel maxShortLabelLen "short_label").toOption
  pure { name := name, description := body.description
         targetPerPeriod := target.map Decimal.cents, endDate := end'
         categoryId := body.categoryId, color := body.color, icon := body.icon
         isArchived := body.isArchived, category := category, shortLabel := shortLabel }

/-- The weekdays of a habit: in order, each once, and some exactly for a custom frequency. -/
structure IsMask (frequency : HabitFrequency) (mask : List Nat) : Prop where
  sorted : mask.Pairwise (· < ·)
  le : ∀ d ∈ mask, d ≤ 6
  custom : mask ≠ [] ↔ frequency = .custom

/-- The texts of a habit pass their checks again, unchanged, and so do its numbers and dates. -/
structure IsHabit (h : HabitRow) : Prop where
  name : validateRequiredText h.name maxNameLen "name" = .ok h.name
  description : validateOptionalText h.description maxTextLen "description" = .ok ()
  daysOfWeek : IsMask h.frequency h.daysOfWeek
  targetPerPeriod : ∀ t, h.targetPerPeriod = some t → 0 < t ∧ t < maxPeriodValue * 100
  range : ∀ e, h.endDate = some e → h.startDate ≤ e
  color : validateOptionalText h.color 32 "color" = .ok ()
  icon : validateOptionalText h.icon 64 "icon" = .ok ()
  category : normalizeOptionalText h.category maxCategoryLen "category" = .ok h.category
  shortLabel : normalizeOptionalText h.shortLabel maxShortLabelLen "short_label" = .ok h.shortLabel

theorem pairwise_lt_of_isChain_ne {l : List Int} (hle : l.Pairwise (· ≤ ·))
    (hne : l.IsChain (· ≠ ·)) : l.Pairwise (· < ·) := by
  refine List.isChain_iff_pairwise.mp ?_
  induction hne with
  | nil => exact .nil
  | singleton a => exact .singleton a
  | cons_cons hab _ ih =>
      obtain ⟨hall, hle⟩ := List.pairwise_cons.mp hle
      exact .cons_cons (lt_of_le_of_ne (hall _ List.mem_cons_self) hab) (ih hle)

theorem validateDaysMask_eq_ok {frequency : HabitFrequency} {days : Option (List Int)}
    {mask : List Nat} (h : validateDaysMask frequency days = .ok mask) :
    IsMask frequency mask := by
  simp only [validateDaysMask] at h
  generalize days.getD [] = l at h
  split at h
  · cases h
  split at h
  · cases h
  split at h
  · cases h
  rename_i hempty hother hrange
  obtain rfl := Except.ok.inj h
  have hbounds : ∀ d ∈ (l.insertionSort (· ≤ ·)).destutter (· ≠ ·), 0 ≤ d ∧ d ≤ 6 := by
    intro d hd
    have hmem := List.mem_insertionSort (r := (· ≤ ·)) |>.mp
      ((List.destutter_sublist _ _).subset hd)
    by_contra hnot
    refine hrange (List.any_eq_true.mpr ⟨d, hmem, ?_⟩)
    simp only [Bool.or_eq_true, decide_eq_true_eq]
    omega
  have hlt : ((l.insertionSort (· ≤ ·)).destutter (· ≠ ·)).Pairwise (· < ·) :=
    pairwise_lt_of_isChain_ne
      ((List.pairwise_insertionSort (· ≤ ·) l).sublist (List.destutter_sublist _ _))
      (List.isChain_destutter _ _)
  constructor
  · rw [List.pairwise_map]
    refine hlt.imp_of_mem fun ha hb hab => ?_
    have := hbounds _ ha
    have := hbounds _ hb
    omega
  · intro d hd
    obtain ⟨d', hd', rfl⟩ := List.mem_map.mp hd
    have := hbounds d' hd'
    omega
  · have hnil : l.insertionSort (· ≤ ·) = [] ↔ l.isEmpty = true := by
      rw [List.isEmpty_iff, ← List.length_eq_zero_iff, List.length_insertionSort,
        List.length_eq_zero_iff]
    rw [Ne, List.map_eq_nil_iff, List.destutter_eq_nil, hnil]
    constructor
    · intro hsome
      by_contra hcustom
      exact hother ⟨hcustom, by simpa using hsome⟩
    · exact fun hcustom hnone => hempty ⟨hcustom, hnone⟩

theorem validateTarget_eq_ok {parsers : Parsers} {raw : Option String} {target : Option Decimal}
    (h : validateTarget parsers raw = .ok target) :
    ∀ t, target.map Decimal.cents = some t → 0 < t ∧ t < maxPeriodValue * 100 := by
  intro t ht
  obtain ⟨d, rfl, rfl⟩ := Option.map_eq_some_iff.mp ht
  cases raw with
  | none => cases h
  | some raw =>
      simp only [validateTarget] at h
      cases hparse : parseMoneyAmount parsers raw with
      | error e => simp [hparse, bind, Except.bind] at h
      | ok value =>
          obtain ⟨hpos, hscale⟩ := parseMoney_eq_ok parsers hparse
          simp only [hparse, bind, Except.bind] at h
          split at h
          · cases h
          · rename_i hlt
            obtain rfl := Option.some.inj (Except.ok.inj h)
            refine ⟨Decimal.cents_pos (by simpa using hpos), ?_⟩
            exact_mod_cast Decimal.cents_lt_of_geNat_eq_false hscale (by simpa using hlt)

theorem validateDateRange_eq_ok {start : NaiveDate} {end' : Option NaiveDate} :
    validateDateRange start end' = .ok () ↔ ∀ e, end' = some e → start ≤ e := by
  cases end' with
  | none => simp [validateDateRange]
  | some e =>
      simp only [validateDateRange, Option.some.injEq, forall_eq']
      split
      · rename_i hlt
        simp [not_le.mpr hlt]
      · rename_i hle
        simp [not_lt.mp hle]

theorem normalizeOptionalText_of_ok {raw value : Option String} {max : Nat} {field : String}
    (h : normalizeOptionalText raw max field = .ok value) :
    normalizeOptionalText value max field = .ok value := by
  cases raw with
  | none =>
      obtain rfl := Except.ok.inj h
      rfl
  | some text =>
      simp only [normalizeOptionalText] at h
      split at h
      · obtain rfl := Except.ok.inj h
        rfl
      · rename_i hblank
        cases hvalid : validateOptionalText (some (trim text)) max field with
        | error e => simp [hvalid, Except.map] at h
        | ok u =>
            simp only [hvalid, Except.map, Except.ok.injEq] at h
            obtain rfl := h
            simp only [normalizeOptionalText, trim_trim]
            rw [if_neg hblank, hvalid]
            rfl

theorem isHabit_of_accepted {caller : Caller} {today : NaiveDate} {body : CreateHabitRequest}
    {h : HabitRow} (haccepted : acceptedHabit caller today body = some h) :
    IsHabit h ∧ h.userId = caller.userId := by
  simp only [acceptedHabit, Option.bind_eq_bind, Option.bind_eq_some_iff, toOption_eq_some,
    Option.pure_def, Option.some.injEq] at haccepted
  obtain ⟨name, hname, direction, -, frequency, -, mask, hmask, target, htarget, start, -, end',
    -, u, hrange, u₁, hdescription, u₂, hcolor, u₃, hicon, category, hcategory, shortLabel,
    hlabel, rfl⟩ := haccepted
  refine ⟨⟨validateRequiredText_of_ok hname, hdescription, validateDaysMask_eq_ok hmask,
    validateTarget_eq_ok htarget, validateDateRange_eq_ok.mp hrange, hcolor, hicon,
    normalizeOptionalText_of_ok hcategory, normalizeOptionalText_of_ok hlabel⟩, rfl⟩

theorem isHabit_merge {caller : Caller} {body : PatchHabitRequest} {p : HabitPatch}
    (h : acceptedPatch caller body = some p) {old : HabitRow} (hold : IsHabit old)
    (hrange : ∀ e, p.endDate = some e → old.startDate ≤ e) (now : Timestamp) :
    IsHabit (p.merge now old) := by
  simp only [acceptedPatch, Option.bind_eq_bind, Option.bind_eq_some_iff, toOption_eq_some,
    Option.pure_def, Option.some.injEq] at h
  obtain ⟨name, hname, target, htarget, end', -, u₁, hdescription, u₂, hcolor, u₃, hicon,
    category, hcategory, shortLabel, hlabel, rfl⟩ := h
  have hor : ∀ {α : Type} {Q : Option α → Prop} {v v' : Option α}, Q v → Q v' → Q (v.or v') := by
    intro α Q v v' hv hv'
    cases v with
    | none => exact hv'
    | some a => exact hv
  refine ⟨?_, hor (Q := fun v => validateOptionalText v _ _ = _) hdescription hold.description,
    hold.daysOfWeek,
    hor (Q := fun v => ∀ t, v = some t → 0 < t ∧ t < (maxPeriodValue : Cents) * 100)
      (validateTarget_eq_ok htarget) hold.targetPerPeriod,
    hor (Q := fun v => ∀ e, v = some e → old.startDate ≤ e) hrange hold.range,
    hor (Q := fun v => validateOptionalText v _ _ = _) hcolor hold.color,
    hor (Q := fun v => validateOptionalText v _ _ = _) hicon hold.icon,
    hor (Q := fun v => normalizeOptionalText v _ _ = .ok v)
      (normalizeOptionalText_of_ok hcategory) hold.category,
    hor (Q := fun v => normalizeOptionalText v _ _ = .ok v)
      (normalizeOptionalText_of_ok hlabel) hold.shortLabel⟩
  cases name with
  | none => exact hold.name
  | some value =>
      obtain ⟨raw, -, hvalue⟩ := validateOpt_eq_ok_some hname
      exact validateRequiredText_of_ok hvalue

/-- A category that may be named has been read as one of the user's own, for habits. -/
def CategoryRead (seen : List HabitDb) (userId : Uuid) (categoryId : Option Uuid) : Prop :=
  ∀ id, categoryId = some id → ∃ t ∈ seen, ∃ c, t.category id = some c ∧
    c.row.userId = userId ∧ c.row.kind = .habit

theorem CategoryRead.mono {seen seen' : List HabitDb} {userId : Uuid} {categoryId : Option Uuid}
    (h : CategoryRead seen userId categoryId) (hsub : seen ⊆ seen') :
    CategoryRead seen' userId categoryId := by
  intro id hid
  obtain ⟨t, ht, hc⟩ := h id hid
  exact ⟨t, hsub ht, hc⟩

/-- An end date that may be given has been read as one after the start of the habit. -/
def RangeRead (seen : List HabitDb) (id : Uuid) (end' : Option NaiveDate) : Prop :=
  ∀ e, end' = some e → ∃ t ∈ seen, ∃ h, t.habit id = some h ∧ h.row.startDate ≤ e

theorem RangeRead.mono {seen seen' : List HabitDb} {id : Uuid} {end' : Option NaiveDate}
    (h : RangeRead seen id end') (hsub : seen ⊆ seen') : RangeRead seen' id end' := by
  intro e he
  obtain ⟨t, ht, hrest⟩ := h e he
  exact ⟨t, hsub ht, hrest⟩

def sentTo (id : Uuid) (call : HabitCall) : Option HabitPatch :=
  match call.request with
  | .patch id' body => if id' = id then acceptedPatch call.caller body else none
  | _ => none

def Inserts (call : HabitCall) (seen : List HabitDb) : (k : HabitKey) → HabitTable k → Prop
  | .habit _, (h : Issued HabitRow) =>
      (∃ body, call.request = .create body ∧
        acceptedHabit call.caller call.today body = some h.row) ∧
      h.isDeleted = false ∧ CategoryRead seen call.caller.userId h.row.categoryId
  | .category _, (c : Issued CategoryRow) => c.row.userId = call.caller.userId
  | .habitName .., _ | .categoryName .., _ => False

def patchHabitRow (call : HabitCall) (id : Uuid) (h : Issued HabitRow) : Issued HabitRow :=
  match call.request with
  | .patch .. =>
      (sentTo id call).elim h fun p => { h with row := p.merge call.caller.now h.row }
  | .delete id' => if id' = id then { h with isDeleted := true } else h
  | .deleteCategory id' =>
      if categoryRef (.habit id) h = some id' then clearCategory call.caller.now (.habit id) h
      else h
  | _ => h

def patchCategoryRow (call : HabitCall) (id : Uuid) (c : Issued CategoryRow) :
    Issued CategoryRow :=
  match call.request with
  | .deleteCategory id' => if id' = id then { c with isDeleted := true } else c
  | _ => c

def patchRow (call : HabitCall) : (k : HabitKey) → HabitTable k → HabitTable k
  | .habit id, h => patchHabitRow call id h
  | .category id, c => patchCategoryRow call id c
  | .habitName .., r | .categoryName .., r => r

/-- When a request writes a habit: it is one of its caller's own, or refers to a category that is,
and what it is checked against has been read before. -/
def HabitGuard (call : HabitCall) (seen : List HabitDb) (id : Uuid) (h : Issued HabitRow) : Prop :=
  match call.request with
  | .patch .. => ownHabit call.caller.userId h = true ∧ ∀ p, sentTo id call = some p →
      RangeRead seen id p.endDate ∧ CategoryRead seen call.caller.userId p.categoryId
  | .deleteCategory id' =>
      ∃ t ∈ seen, ∃ c, t.category id' = some c ∧ c.row.userId = call.caller.userId
  | _ => ownHabit call.caller.userId h = true

def Guards (call : HabitCall) (seen : List HabitDb) : (k : HabitKey) → HabitTable k → Prop
  | .habit id, h => HabitGuard call seen id h
  | _, _ => True

theorem merge_merge (p : HabitPatch) (now : Timestamp) (h : HabitRow) :
    p.merge now (p.merge now h) = p.merge now h := by
  have hor : ∀ {α : Type} (v v' : Option α), v.or (v.or v') = v.or v' := by
    intro α v v'
    rw [← Option.or_assoc, Option.or_self]
  have hgetD : ∀ {α : Type} (v : Option α) (a : α), v.getD (v.getD a) = v.getD a := by
    intro α v a
    cases v with
    | none => rfl
    | some b => rfl
  simp only [HabitPatch.merge, hor, hgetD]

theorem patchHabitRow_patchHabitRow (call : HabitCall) (id : Uuid) (h : Issued HabitRow) :
    patchHabitRow call id (patchHabitRow call id h) = patchHabitRow call id h := by
  obtain ⟨caller, today, request⟩ := call
  cases request with
  | patch id' body =>
      simp only [patchHabitRow]
      cases sentTo id ⟨caller, today, .patch id' body⟩ with
      | none => rfl
      | some p => simp only [Option.elim_some, merge_merge]
  | delete id' =>
      simp only [patchHabitRow]
      split
      · rfl
      · rfl
  | deleteCategory id' =>
      simp only [patchHabitRow]
      by_cases hr : categoryRef (.habit id) h = some id'
      · have hcleared : categoryRef (.habit id) (clearCategory caller.now (.habit id) h) = none :=
          ite_self none
        rw [if_pos hr, hcleared, if_neg (by simp)]
      · rw [if_neg hr, if_neg hr]
  | _ => rfl

theorem patchCategoryRow_patchCategoryRow (call : HabitCall) (id : Uuid)
    (c : Issued CategoryRow) :
    patchCategoryRow call id (patchCategoryRow call id c) = patchCategoryRow call id c := by
  unfold patchCategoryRow
  cases call.request with
  | deleteCategory id' =>
      simp only
      split
      · rfl
      · rfl
  | _ => rfl

theorem HabitGuard.mono {call : HabitCall} {seen seen' : List HabitDb} {id : Uuid}
    {h : Issued HabitRow} (hguard : HabitGuard call seen id h) (hsub : seen ⊆ seen') :
    HabitGuard call seen' id h := by
  obtain ⟨caller, today, request⟩ := call
  cases request with
  | patch id' body =>
      refine ⟨hguard.1, fun p hp => ?_⟩
      obtain ⟨hrange, hcategory⟩ := hguard.2 p hp
      exact ⟨hrange.mono hsub, hcategory.mono hsub⟩
  | deleteCategory id' =>
      obtain ⟨t, ht, hrest⟩ := hguard
      exact ⟨t, hsub ht, hrest⟩
  | _ => exact hguard

/-- Habits are created, patched, deleted, and cleared of a deleted category; categories are
created and deleted. -/
def patches {ι : Type} (requests : ι → HabitCall) : Patches ι HabitTable where
  Inserts i := Inserts (requests i)
  patch i := patchRow (requests i)
  Guard i := Guards (requests i)
  patch_patch i k r := by
    cases k with
    | habit id => exact patchHabitRow_patchHabitRow _ id r
    | category id => exact patchCategoryRow_patchCategoryRow _ id r
    | _ => rfl
  inserts_mono {i seen seen' k r} hsub h := by
    cases k with
    | habit id => exact ⟨h.1, h.2.1, h.2.2.mono hsub⟩
    | _ => exact h
  guard_mono {i seen seen' k r} hsub h := by
    cases k with
    | habit id => exact HabitGuard.mono h hsub
    | _ => trivial

variable {ι γ : Type} {requests : ι → HabitCall} {i : ι}
  {K : Knowledge HabitTable} {post : Post HabitTable AppError γ}

def MayFail (post : Post HabitTable AppError γ) (K : Knowledge HabitTable) : Prop :=
  ∀ e, post.MayEnd (.error e) K

theorem MayFail.mono {K' : Knowledge HabitTable} (h : MayFail post K) (hsub : K.seen ⊆ K'.seen) :
    MayFail post K' :=
  fun e => (h e).mono hsub

theorem MayFail.now (h : MayFail post K) (e : AppError) : post (.error e) K :=
  Post.MayEnd.now (h e)

def anything (_ : Except AppError γ) (_ : List HabitDb) (_ : HabitDb) : Prop :=
  True

theorem mayFail_anything : MayFail (Goal.post (anything (γ := γ))) K :=
  fun _ _ _ => trivial

section Rules

variable {toErr : SqlState → AppError} {e : AppError}

theorem follows_check {x : Except AppError γ} {β : Type} {post : Post HabitTable AppError β}
    {next : γ → HabitHandler β} (hfail : MayFail post K)
    (h : ∀ b, x = .ok b → (patches requests).discipline.Follows i (next b) post K) :
    (patches requests).discipline.Follows i ((ofExcept x).bind next) post K :=
  follows_ofExcept (fun e _ => hfail.now e) h

theorem follows_ensureHabitCategory {userId : Uuid} {categoryId : Option Uuid}
    {next : Unit → HabitHandler γ} (htx : K.tx = none) (hfail : MayFail post K)
    (h : ∀ K', Onward (patches requests).discipline K K' →
      CategoryRead K'.seen userId categoryId →
      (patches requests).discipline.Follows i (next ()) post K') :
    (patches requests).discipline.Follows i ((ensureHabitCategory userId categoryId).bind next)
      post K := by
  cases categoryId with
  | none => exact h K (Onward.refl K) fun _ hid => (by cases hid)
  | some id =>
      simp only [ensureHabitCategory, Prog.bind_eq, Prog.bind_assoc]
      refine follows_select fun s hs => ?_
      have honward : Onward (patches requests).discipline K (K.read s) := onward_look s hs
      refine follows_failIf (fun _ => hfail _ _ honward.seen) fun hkind => h _ honward ?_
      intro id' hid'
      obtain rfl := Option.some.inj hid'
      rw [decide_eq_false_iff_not, not_not, categoryKindSql] at hkind
      obtain ⟨c, hc, hkind⟩ := Option.map_eq_some_iff.mp hkind
      obtain ⟨hc, hown⟩ := Option.filter_eq_some_iff.mp hc
      rw [Issued.live, Bool.and_eq_true, decide_eq_true_eq] at hown
      exact ⟨s, K.mem_seen_saw_self (K.rows_of_tx_none htx), c, hc, hown.2, hkind⟩

theorem follows_claimHabitName {userId : Uuid} {name : String} {next : Unit → HabitHandler γ}
    (hfail : MayFail post K)
    (h : ∀ K', Onward (patches requests).discipline K K' →
      (patches requests).discipline.Follows i (next ()) post K') :
    (patches requests).discipline.Follows i ((claimHabitName userId name).bind next) post K := by
  simp only [claimHabitName, Prog.bind_eq, Prog.bind_assoc]
  refine follows_lockSlot (fun x => hfail _) fun sn cur hsn hcur => ?_
  have honward : Onward (patches requests).discipline K ((K.saw sn).hold _ cur) :=
    onward_hold sn (HabitKey.habitName userId name) (hsn.trans hcur).forget
  exact follows_failIf (fun _ => hfail _ _ honward.seen) fun _ => h _ honward

theorem follows_categoryForeignKey {categoryId : Option Uuid} {next : Unit → HabitHandler γ}
    (hfail : MayFail post K)
    (h : ∀ K', Onward (patches requests).discipline K K' →
      (patches requests).discipline.Follows i (next ()) post K') :
    (patches requests).discipline.Follows i ((categoryForeignKey categoryId).bind next) post K := by
  cases categoryId with
  | none => exact h K (Onward.refl K)
  | some id =>
      simp only [categoryForeignKey, Prog.bind_eq, Prog.bind_assoc]
      refine follows_selectFor (fun x => hfail _) fun b K' honward => ?_
      exact follows_failIf (fun _ => hfail _ _ honward.seen) fun _ => h _ honward

theorem follows_insertIssued {key : Nat → HabitKey} {row : (n : Nat) → HabitTable (key n)}
    {next : Nat → HabitHandler γ} (htx : K.tx.isSome) (hfail : MayFail post K)
    (hinserts : ∀ n, Inserts (requests i) K.seen (key n) (row n))
    (h : ∀ n K', Onward (patches requests).discipline K K' →
      (patches requests).discipline.Follows i (next n) post K') :
    (patches requests).discipline.Follows i
      ((freshId key).bind fun n =>
        (execSql toErr (insertRow (key n) (fun _ => .ok ()) (row n))).bind fun _ => next n)
      post K := by
  refine follows_freshId fun n s hs hnone => ?_
  refine follows_insertRow (fun x => (hfail.mono (List.Subset.refl _)) _)
    fun sn cur hsn hcur _ => ?_
  have hmem : key n ∈ (K.hold (key n) s).rows := K.mem_rows_hold htx
  have hcur' : cur.lookup (key n) = none := by
    rw [hcur.kept _ hmem, hsn.kept _ hmem]
    exact hnone
  have hallows : (patches requests).discipline.Allows i ((K.hold (key n) s).saw sn).seen (key n)
      (cur.lookup (key n)) (some (row n)) := by
    rw [hcur']
    exact .insert ((patches requests).inserts_mono (Knowledge.seen_subset_saw _ sn) (hinserts n))
  exact ⟨.single hallows, h n _ ((onward_fresh (key n) hs.forget).trans
    (onward_put sn (hsn.trans hcur) hallows))⟩

theorem isSome_of_onward {K' : Knowledge HabitTable} (htx : K.tx.isSome)
    (h : Onward (patches requests).discipline K K') : K'.tx.isSome := by
  rw [← Option.isSome_map (f := Prod.fst), h.bound, Option.isSome_map]
  exact htx

theorem follows_insertHabit {row : HabitRow} {next : Stored HabitRow → HabitHandler γ}
    (htx : K.tx.isSome) (hfail : MayFail post K)
    (hinserts : ∀ id, Inserts (requests i) K.seen (.habit id) { row := row, isDeleted := false })
    (h : ∀ stored K', Onward (patches requests).discipline K K' →
      (patches requests).discipline.Follows i (next stored) post K') :
    (patches requests).discipline.Follows i ((insertHabit row).bind next) post K := by
  simp only [insertHabit, Prog.bind_eq, Prog.bind_assoc, Prog.pure_eq]
  refine follows_claimHabitName hfail fun K₁ hK₁ => ?_
  refine follows_insertIssued (isSome_of_onward htx hK₁) (hfail.mono hK₁.seen)
    (fun id => (patches requests).inserts_mono (i := i) (k := .habit id) hK₁.seen (hinserts id))
    fun id K₂ hK₂ => ?_
  have hon := hK₁.trans hK₂
  exact follows_categoryForeignKey (hfail.mono hon.seen) fun K₃ hK₃ => h _ K₃ (hon.trans hK₃)

theorem ownHabit_eq_true {userId : Uuid} {h : Issued HabitRow} :
    ownHabit userId h = true ↔ h.isDeleted = false ∧ h.row.userId = userId := by
  rw [ownHabit, Issued.live, Bool.and_eq_true, Bool.not_eq_true', decide_eq_true_eq]

theorem follows_updateHabitSql {id : Uuid} {body : PatchHabitRequest} {patch : HabitPatch}
    {next : Option (Issued HabitRow) → HabitHandler γ}
    (hrequest : (requests i).request = .patch id body)
    (hpatch : acceptedPatch (requests i).caller body = some patch) (hfail : MayFail post K)
    (hrange : RangeRead K.seen id patch.endDate)
    (hcategory : CategoryRead K.seen (requests i).caller.userId patch.categoryId)
    (h : ∀ r K', Onward (patches requests).discipline K K' →
      (patches requests).discipline.Follows i (next r) post K') :
    (patches requests).discipline.Follows i
      ((execSql toErr (updateHabitSql id (requests i).caller.userId patch
        (requests i).caller.now)).bind next) post K := by
  have hsent : sentTo id (requests i) = some patch := by
    rw [sentTo, hrequest]
    exact (if_pos rfl).trans hpatch
  refine follows_updateRow (fun x => hfail _) ?_ ?_
  · exact fun sn cur hsn hcur _ => h _ _ (onward_look sn (hsn.trans hcur))
  · intro sn cur r r' hsn hcur _ hr hown hr'
    obtain rfl := Except.ok.inj hr'
    have hrow : patchHabitRow (requests i) id r =
        { r with row := patch.merge (requests i).caller.now r.row } := by
      rw [patchHabitRow, hrequest, hsent]
      rfl
    have hguard : HabitGuard (requests i) K.seen id r := by
      rw [HabitGuard, hrequest]
      refine ⟨hown, fun p hp => ?_⟩
      obtain rfl := Option.some.inj (hsent.symm.trans hp)
      exact ⟨hrange, hcategory⟩
    have hallows : (patches requests).discipline.Allows i (K.saw sn).seen (.habit id)
        (cur.lookup (.habit id))
        (some { r with row := patch.merge (requests i).caller.now r.row }) := by
      rw [hr, ← hrow]
      exact .patch r (hguard.mono (K.seen_subset_saw sn))
    refine ⟨?_, h _ _ (onward_put sn (hsn.trans hcur) hallows)⟩
    rw [hr] at hallows
    exact .single hallows

theorem follows_updateHabit {id : Uuid} {body : PatchHabitRequest} {patch : HabitPatch}
    {next : HabitRow → HabitHandler γ} (hrequest : (requests i).request = .patch id body)
    (hpatch : acceptedPatch (requests i).caller body = some patch) (hfail : MayFail post K)
    (hrange : RangeRead K.seen id patch.endDate)
    (hcategory : CategoryRead K.seen (requests i).caller.userId patch.categoryId)
    (h : ∀ row K', Onward (patches requests).discipline K K' →
      (patches requests).discipline.Follows i (next row) post K') :
    (patches requests).discipline.Follows i
      ((updateHabit id (requests i).caller.userId patch (requests i).caller.now).bind next)
      post K := by
  simp only [updateHabit, fetchOr, Prog.bind_eq, Prog.bind_assoc, Prog.pure_eq]
  refine follows_selectFor (fun x => hfail _) fun old K₁ hK₁ => ?_
  refine follows_ofOption (fun _ => hfail _ _ hK₁.seen) fun old _ => ?_
  refine follows_whenever (fun _ hnext => follows_claimHabitName (hfail.mono hK₁.seen) hnext)
    fun K₂ hK₂ => ?_
  have hon₂ := hK₁.trans hK₂
  refine follows_updateHabitSql hrequest hpatch (hfail.mono hon₂.seen) (hrange.mono hon₂.seen)
    (hcategory.mono hon₂.seen) fun _ K₃ hK₃ => ?_
  have hon₃ := hon₂.trans hK₃
  exact follows_whenever (fun _ hnext => follows_categoryForeignKey (hfail.mono hon₃.seen) hnext)
    fun K₄ hK₄ => h _ K₄ (hon₃.trans hK₄)

theorem accepted_of_checks {caller : Caller} {today : NaiveDate} {body : CreateHabitRequest}
    {name : String} {direction : HabitDirection} {frequency : HabitFrequency} {mask : List Nat}
    {target : Option Decimal} {start end' : Option NaiveDate} {u u₁ u₂ u₃ : Unit}
    {category shortLabel : Option String}
    (hname : validateRequiredText body.name maxNameLen "name" = .ok name)
    (hdirection : validateDirection body.direction = .ok direction)
    (hfrequency : validateFrequency body.frequency = .ok frequency)
    (hmask : validateDaysMask frequency body.daysOfWeek = .ok mask)
    (htarget : validateTarget caller.parsers body.targetPerPeriod = .ok target)
    (hstart : validateOpt (validateCalendarDate caller.parsers · "start_date") body.startDate =
      .ok start)
    (hend : validateOpt (validateCalendarDate caller.parsers · "end_date") body.endDate = .ok end')
    (hrange : validateDateRange (start.getD today) end' = .ok u)
    (hdescription : validateOptionalText body.description maxTextLen "description" = .ok u₁)
    (hcolor : validateOptionalText body.color 32 "color" = .ok u₂)
    (hicon : validateOptionalText body.icon 64 "icon" = .ok u₃)
    (hcategory : normalizeOptionalText body.category maxCategoryLen "category" = .ok category)
    (hlabel : normalizeOptionalText body.shortLabel maxShortLabelLen "short_label" =
      .ok shortLabel) :
    acceptedHabit caller today body = some
      { userId := caller.userId, name := name, description := body.description
        direction := direction, frequency := frequency, daysOfWeek := mask
        targetPerPeriod := target.map Decimal.cents, startDate := start.getD today
        endDate := end', categoryId := body.categoryId, color := body.color, icon := body.icon
        isArchived := false, createdAt := caller.now, updatedAt := caller.now
        category := category, shortLabel := shortLabel } := by
  simp only [acceptedHabit, Except.toOption, Option.bind_eq_bind, Option.bind_some, hname,
    hdirection, hfrequency, hmask, htarget, hstart, hend, hrange, hdescription, hcolor, hicon,
    hcategory, hlabel]
  rfl

theorem follows_createHabitHandler {body : CreateHabitRequest}
    (hrequest : (requests i).request = .create body) (htx : K.tx = none) :
    (patches requests).discipline.Follows i
      (createHabitHandler (requests i).caller (requests i).today body) (Goal.post anything) K := by
  simp only [createHabitHandler, Prog.bind_eq, Prog.pure_eq]
  have hfail : MayFail (Goal.post (anything (γ := Stored HabitRow))) K := mayFail_anything
  refine follows_check hfail fun name hname => follows_check hfail fun direction hdirection =>
    follows_check hfail fun frequency hfrequency => follows_check hfail fun mask hmask =>
    follows_check hfail fun target htarget => follows_check hfail fun start hstart =>
    follows_check hfail fun end' hend => follows_check hfail fun u hrange =>
    follows_ensureHabitCategory htx hfail fun K₁ hK₁ hread => ?_
  have hfail₁ : MayFail (Goal.post (anything (γ := Stored HabitRow))) K₁ := mayFail_anything
  refine follows_check hfail₁ fun u₁ hdescription => follows_check hfail₁ fun u₂ hcolor =>
    follows_check hfail₁ fun u₃ hicon => follows_check hfail₁ fun category hcategory =>
    follows_check hfail₁ fun shortLabel hlabel => follows_beginTx fun _ => ?_
  refine follows_insertHabit rfl mayFail_anything (fun id => ⟨⟨body, hrequest, ?_⟩, rfl, hread⟩)
    fun stored K₂ _ => follows_commitTx (follows_ret trivial)
  exact accepted_of_checks hname hdirection hfrequency hmask htarget hstart hend hrange
    hdescription hcolor hicon hcategory hlabel

theorem acceptedPatch_of_checks {caller : Caller} {body : PatchHabitRequest} {name : Option String}
    {target : Option Decimal} {end' : Option NaiveDate} {u₁ u₂ u₃ : Unit}
    {category shortLabel : Option String}
    (hname : validateOpt (validateRequiredText · maxNameLen "name") body.name = .ok name)
    (htarget : validateTarget caller.parsers body.targetPerPeriod = .ok target)
    (hend : validateOpt (validateCalendarDate caller.parsers · "end_date") body.endDate = .ok end')
    (hdescription : validateOptionalText body.description maxTextLen "description" = .ok u₁)
    (hcolor : validateOptionalText body.color 32 "color" = .ok u₂)
    (hicon : validateOptionalText body.icon 64 "icon" = .ok u₃)
    (hcategory : normalizeOptionalText body.category maxCategoryLen "category" = .ok category)
    (hlabel : normalizeOptionalText body.shortLabel maxShortLabelLen "short_label" =
      .ok shortLabel) :
    acceptedPatch caller body = some
      { name := name, description := body.description
        targetPerPeriod := target.map Decimal.cents, endDate := end'
        categoryId := body.categoryId, color := body.color, icon := body.icon
        isArchived := body.isArchived, category := category, shortLabel := shortLabel } := by
  simp only [acceptedPatch, Except.toOption, Option.bind_eq_bind, Option.bind_some, hname, htarget,
    hend, hdescription, hcolor, hicon, hcategory, hlabel]
  rfl

theorem getHabitSql_eq_some {id userId : Uuid} {s : HabitDb} {row : HabitRow} :
    getHabitSql id userId s = some row ↔
      s.habit id = some { row := row, isDeleted := false } ∧ row.userId = userId := by
  rw [getHabitSql]
  constructor
  · intro h
    obtain ⟨r, hr, rfl⟩ := Option.map_eq_some_iff.mp h
    obtain ⟨hr, hown⟩ := Option.filter_eq_some_iff.mp hr
    obtain ⟨hlive, huser⟩ := ownHabit_eq_true.mp hown
    refine ⟨?_, huser⟩
    rw [hr, ← hlive]
  · rintro ⟨hr, huser⟩
    rw [hr, Option.filter_some, if_pos (ownHabit_eq_true.mpr ⟨rfl, huser⟩)]
    rfl

theorem follows_patchHabitHandler {id : Uuid} {body : PatchHabitRequest}
    (hrequest : (requests i).request = .patch id body) (htx : K.tx = none) :
    (patches requests).discipline.Follows i (patchHabitHandler (requests i).caller id body)
      (Goal.post anything) K := by
  simp only [patchHabitHandler, Prog.bind_eq, Prog.pure_eq]
  have hfail : ∀ K, MayFail (Goal.post (anything (γ := Stored HabitRow))) K :=
    fun _ => mayFail_anything
  refine follows_check (hfail _) fun _ _ => follows_select fun s hs =>
    follows_ofOption (fun _ => trivial) fun current hcurrent => ?_
  obtain ⟨hcurrent, -⟩ := getHabitSql_eq_some.mp hcurrent
  refine follows_check (hfail _) fun name hname => follows_check (hfail _) fun target htarget =>
    follows_check (hfail _) fun end' hend => follows_check (hfail _) fun u hrange => ?_
  have hseen : s ∈ (K.read s).seen := Knowledge.mem_seen_saw_self K (K.rows_of_tx_none htx)
  -- the start that the end date is checked against is that of a row read before
  have hread : RangeRead (K.read s).seen id end' := by
    intro e he
    refine ⟨s, hseen, _, hcurrent, validateDateRange_eq_ok.mp hrange e ?_⟩
    rw [he, Option.some_or]
  refine follows_ensureHabitCategory htx (hfail _) fun K₁ hK₁ hcategory => ?_
  refine follows_check (hfail _) fun u₁ hdescription => follows_check (hfail _) fun u₂ hcolor =>
    follows_check (hfail _) fun u₃ hicon => follows_check (hfail _) fun category hnormalized =>
    follows_check (hfail _) fun shortLabel hlabel => follows_beginTx fun _ => ?_
  refine follows_updateHabit hrequest ?_ (hfail _) (hread.mono hK₁.seen) hcategory
    fun row K₂ _ => follows_commitTx (follows_ret trivial)
  exact acceptedPatch_of_checks hname htarget hend hdescription hcolor hicon hnormalized hlabel

theorem follows_fetchUpdate {β : Type} {key : HabitKey} {p : HabitTable key → Bool}
    {f : HabitTable key → HabitTable key} {next : HabitTable key → HabitHandler β}
    {post : Post HabitTable AppError β} (hfail : MayFail post K)
    (hpatch : ∀ r, patchRow (requests i) key r = f r)
    (hguard : ∀ r, p r = true → Guards (requests i) K.seen key r)
    (h : ∀ sn r K', (patches requests).discipline.Later K.rows K.last sn →
      found key p sn = true → (K.saw sn).seen ⊆ K'.seen →
      Onward (patches requests).discipline K K' →
      (patches requests).discipline.Follows i (next r) post K') :
    (patches requests).discipline.Follows i
      ((fetchOr toErr e (updateRow .update rfl key p fun _ r => .ok (f r))).bind next) post K := by
  rw [fetchOr, Prog.bind_assoc]
  refine follows_updateRow (fun x => hfail _) ?_ ?_
  · exact fun sn cur hsn hcur _ =>
      follows_ofOption (fun _ => hfail _ _ (K.seen_subset_saw sn)) fun _ h => (by cases h)
  · intro sn cur r r' hsn hcur hfound hr hp hr'
    obtain rfl := Except.ok.inj hr'
    have hallows : (patches requests).discipline.Allows i (K.saw sn).seen key (cur.lookup key)
        (some (f r)) := by
      rw [hr, ← hpatch]
      exact .patch r ((patches requests).guard_mono (i := i) (K.seen_subset_saw sn) (hguard r hp))
    refine ⟨?_, follows_ofOption (fun h => (by cases h)) fun b _ => ?_⟩
    · rw [hr] at hallows
      exact .single hallows
    · exact h sn b _ hsn hfound (List.Subset.refl _) (onward_put sn (hsn.trans hcur) hallows)

theorem follows_deleteHabitHandler {id : Uuid} (hrequest : (requests i).request = .delete id) :
    (patches requests).discipline.Follows i (deleteHabitHandler (requests i).caller id)
      (Goal.post anything) K := by
  simp only [deleteHabitHandler, Prog.bind_eq]
  refine follows_beginTx fun _ => follows_fetchUpdate mayFail_anything ?_ ?_
    fun sn r K' _ _ _ _ => follows_commitTx (follows_ret trivial)
  · intro r
    change patchHabitRow (requests i) id r = _
    rw [patchHabitRow, hrequest]
    exact if_pos rfl
  · intro r hown
    change HabitGuard (requests i) _ id r
    rw [HabitGuard, hrequest]
    exact hown

theorem follows_createCategoryHandler {body : CreateCategoryRequest} :
    (patches requests).discipline.Follows i (createCategoryHandler (requests i).caller body)
      (Goal.post anything) K := by
  simp only [createCategoryHandler, Prog.bind_eq, Prog.pure_eq]
  have hfail : ∀ K, MayFail (Goal.post (anything (γ := Stored CategoryRow))) K :=
    fun _ => mayFail_anything
  refine follows_check (hfail _) fun name _ => follows_check (hfail _) fun kind _ =>
    follows_beginTx fun _ => follows_lockSlot (fun _ _ _ => trivial) fun sn cur _ _ =>
    follows_failIf (fun _ => trivial) fun _ => ?_
  exact follows_insertIssued rfl (hfail _) (fun _ => rfl)
    fun id K' _ => follows_commitTx (follows_ret trivial)

theorem follows_deleteCategoryHandler {id : Uuid}
    (hrequest : (requests i).request = .deleteCategory id) :
    (patches requests).discipline.Follows i (deleteCategoryHandler (requests i).caller id)
      (Goal.post anything) K := by
  simp only [deleteCategoryHandler, Prog.bind_eq]
  refine follows_beginTx fun _ => follows_fetchUpdate mayFail_anything ?_ (fun _ _ => trivial)
    fun sn r K₁ _ hfound hsub hK₁ => ?_
  · intro r
    change patchCategoryRow (requests i) id r = _
    rw [patchCategoryRow, hrequest]
    exact if_pos rfl
  -- the category was its caller's own when it was deleted
  obtain ⟨c, hc, hown⟩ := found_eq_true.mp hfound
  have hseen : sn ∈ K₁.seen := hsub (Knowledge.mem_seen_saw_self K.beginTx rfl)
  rw [updateWhere, Prog.bind_assoc]
  refine follows_select fun s hs => ?_
  refine follows_updateAll (Q := fun _ _ => True) (fun _ _ _ => trivial) (fun _ _ _ _ _ => trivial)
    ?_ (fun _ _ _ => trivial) (fun _ _ _ _ _ => trivial)
    fun K₂ _ _ => follows_commitTx (follows_ret trivial)
  intro k r href
  rw [decide_eq_true_eq] at href
  cases k with
  | habit id' =>
      have hrow : patchRow (requests i) (.habit id') r =
          clearCategory (requests i).caller.now (.habit id') r := by
        change patchHabitRow (requests i) id' r = _
        rw [patchHabitRow, hrequest]
        exact if_pos href
      rw [← hrow]
      refine .patch r ?_
      change HabitGuard (requests i) _ id' r
      rw [HabitGuard, hrequest]
      rw [Issued.live, Bool.and_eq_true, decide_eq_true_eq] at hown
      exact ⟨sn, Knowledge.seen_subset_saw _ s hseen, c, hc, hown.2⟩
  | _ => cases href

def Reads (call : HabitCall) : Goal HabitTable AppError HabitAnswer
  | .ok (.read habit), seen, _ =>
      ∃ t ∈ seen, getHabitSql habit.id call.caller.userId t = some habit.row
  | .ok (.list habits), seen, _ => ∃ t ∈ seen, habits = listHabitsSql call.caller.userId t
  | _, _, _ => True

theorem follows_serveHabit (htx : K.tx = none) :
    (patches requests).discipline.Follows i (serveHabit (requests i))
      (Reads (requests i)).post K := by
  have hmap : ∀ {α : Type} {p : HabitHandler α} (f : α → HabitAnswer),
      (∀ a seen t, Reads (requests i) (.ok (f a)) seen t) →
      (patches requests).discipline.Follows i p (Goal.post anything) K →
      (patches requests).discipline.Follows i (f <$> p) (Reads (requests i)).post K := by
    intro α p f hf h
    refine follows_mono (follows_map f h) fun r K' hr => ?_
    obtain ⟨r', rfl, -⟩ := hr
    cases r' with
    | ok a => exact hf a _ _
    | error e => trivial
  unfold serveHabit
  cases hrequest : (requests i).request with
  | create body => exact hmap _ (fun _ _ _ => trivial) (follows_createHabitHandler hrequest htx)
  | patch id body => exact hmap _ (fun _ _ _ => trivial) (follows_patchHabitHandler hrequest htx)
  | delete id => exact hmap _ (fun _ _ _ => trivial) (follows_deleteHabitHandler hrequest)
  | createCategory body => exact hmap _ (fun _ _ _ => trivial) follows_createCategoryHandler
  | deleteCategory id =>
      exact hmap _ (fun _ _ _ => trivial) (follows_deleteCategoryHandler hrequest)
  | get id =>
      simp only [getHabitHandler, Prog.map_eq, Prog.bind_eq, Prog.bind_assoc, Prog.pure_eq]
      refine follows_select fun s hs => follows_ofOption (fun _ => trivial) fun row hrow => ?_
      exact follows_ret ⟨s, Knowledge.mem_seen_saw_self K (K.rows_of_tx_none htx), hrow⟩
  | list =>
      simp only [Prog.map_eq]
      refine follows_select fun s hs => follows_ret ?_
      exact ⟨s, Knowledge.mem_seen_saw_self K (K.rows_of_tx_none htx), rfl⟩

end Rules

end PersonalDashboard.HabitRules
