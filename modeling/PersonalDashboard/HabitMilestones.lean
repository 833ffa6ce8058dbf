import PersonalDashboard.HabitMonths

/-! The milestone of the habit dashboard: a category without a gap, or a streak. -/

set_option autoImplicit false

namespace PersonalDashboard.HabitMilestones

open PersonalDashboard.DateStrings
open PersonalDashboard.GroupedSums
open PersonalDashboard.HabitDashboard
open PersonalDashboard.HabitDays
open PersonalDashboard.HabitMonths
open PersonalDashboard.HabitStatistics hiding round
open PersonalDashboard.JsDate
open PersonalDashboard.OrderedMaps
open PersonalDashboard.TaskViews

inductive Milestone where
  | category (category : String)
  | streak (habitName : String) (days : Nat)
  deriving DecidableEq, Repr

/-- `habit.category?.trim()`, if that is not empty. -/
def categoryOf (habit : ListedHabit) : Option String :=
  (habit.category.map jsTrim).filter (· ≠ "")

def windowDays (todayYmd : String) : List String :=
  match toMs todayYmd with
  | some todayMs => (msUpTo (todayMs - 13 * msPerDay) todayMs).map ymd
  | none => []

def windowCells (todayYmd : String) (habit : ListedHabit) : List (String × String) :=
  ((windowDays todayYmd).filter fun date => isExpected habit.toDashHabit date todayYmd).map
    fun date => (habit.id, date)

def addHabit (donePairs : List String) (todayYmd : String)
    (byCategory : OrderedMap String CellCount) (habit : ListedHabit) :
    OrderedMap String CellCount :=
  match categoryOf habit with
  | some category =>
      let bucket := (byCategory.get category).getD CellCount.zero
      byCategory.set category
        ((windowCells todayYmd habit).foldl (CellCount.add donePairs) bucket)
  | none => byCategory

def betterCategory (best : Option String × Nat) (entry : String × CellCount) :
    Option String × Nat :=
  if 0 < entry.2.expected ∧ entry.2.done = entry.2.expected ∧ best.2 < entry.2.expected then
    (some entry.1, entry.2.expected)
  else best

def betterStreak (logs : List DashLog) (todayYmd : String) (best : Option String × Nat)
    (habit : ListedHabit) : Option String × Nat :=
  let days := currentStreakDays habit.toDashHabit logs todayYmd
  if best.2 < days then (some habit.name, days) else best

def activeOf (habits : List ListedHabit) : List ListedHabit :=
  habits.filter fun habit => !habit.isArchived

def findMilestone (habits : List ListedHabit) (logs : List DashLog) (todayYmd : String) :
    Option Milestone :=
  let active := activeOf habits
  let byCategory := active.foldl (addHabit (donePairsOf logs) todayYmd) OrderedMap.empty
  match byCategory.entries.foldl betterCategory (none, 0) with
  | (some category, _) => some (.category category)
  | (none, _) =>
      match active.foldl (betterStreak logs todayYmd) (none, 0) with
      | (some habitName, days) =>
          if habitName ≠ "" ∧ 7 ≤ days then some (.streak habitName days) else none
      | (none, _) => none

section Greatest

variable {α β : Type} (label : α → β) (value : α → Nat)

/-- Keep the label of the first greatest value above 0. -/
def better (best : Option β × Nat) (a : α) : Option β × Nat :=
  if best.2 < value a then (some (label a), value a) else best

theorem foldl_better (l : List α) :
    (∀ a ∈ l, value a ≤ (l.foldl (better label value) (none, 0)).2) ∧
      (l.foldl (better label value) (none, 0) = (none, 0) ∨
        ∃ a ∈ l, 0 < value a ∧
          l.foldl (better label value) (none, 0) = (some (label a), value a)) := by
  induction l using List.reverseRecOn with
  | nil => exact ⟨fun a ha => (by cases ha), Or.inl rfl⟩
  | append_singleton l a ih =>
      obtain ⟨hmax, hbest⟩ := ih
      rw [List.foldl_append, List.foldl_cons, List.foldl_nil]
      generalize l.foldl (better label value) (none, 0) = best at *
      unfold better
      split
      · rename_i hlt
        refine ⟨fun b hb => ?_, Or.inr ⟨a, by simp, by omega, rfl⟩⟩
        rcases List.mem_append.mp hb with hb | hb
        · exact (hmax b hb).trans hlt.le
        · rw [List.mem_singleton.mp hb]
      · rename_i hge
        refine ⟨fun b hb => ?_, hbest.imp id fun ⟨b, hb, h⟩ => ⟨b, by simp [hb], h⟩⟩
        rcases List.mem_append.mp hb with hb | hb
        · exact hmax b hb
        · rw [List.mem_singleton.mp hb]
          exact not_lt.mp hge

end Greatest

def categoryCells (habits : List ListedHabit) (todayYmd category : String) :
    List (String × String) :=
  ((activeOf habits).filter fun habit => categoryOf habit = some category).flatMap
    (windowCells todayYmd)

/-- A category with expected days in the last 14, all of them logged as done. -/
structure IsPerfect (habits : List ListedHabit) (logs : List DashLog)
    (todayYmd category : String) : Prop where
  expected : categoryCells habits todayYmd category ≠ []
  done : ∀ cell ∈ categoryCells habits todayYmd category, cell.1 ∈ doneOn logs cell.2

theorem bar_notMem_ymd (ms : Int) : '|' ∉ (ymd ms).toList := by
  intro hmem
  have hpadded : ∀ w n, '|' ∉ padded w n := fun w n h =>
    absurd (numeral_padded w n '|' h) (by decide)
  have hyear : ∀ y, '|' ∉ isoYearChars y := by
    intro y
    unfold isoYearChars
    split
    · exact hpadded _ _
    · split
      · simp [hpadded]
      · simp [hpadded]
  rw [ymd, isoDate, String.toList_ofList] at hmem
  simpa [hyear, hpadded] using List.mem_of_mem_take hmem

theorem get_foldl_addHabit (donePairs : List String) (todayYmd category : String)
    (habits : List ListedHabit) (m : OrderedMap String CellCount) :
    (habits.foldl (addHabit donePairs todayYmd) m).get category =
      if habits.any fun habit => categoryOf habit = some category then
        some (((habits.filter fun habit => categoryOf habit = some category).flatMap
          (windowCells todayYmd)).foldl (CellCount.add donePairs)
            ((m.get category).getD CellCount.zero))
      else m.get category := by
  induction habits generalizing m with
  | nil => rfl
  | cons habit habits ih =>
      rw [List.foldl_cons, ih, List.any_cons, List.filter_cons]
      cases hcategory : categoryOf habit with
      | none => simp [addHabit, hcategory]
      | some category' =>
          by_cases h : category' = category
          · subst h
            simp only [addHabit, hcategory, OrderedMap.get_set_self, decide_true, Bool.true_or,
              if_true, List.flatMap_cons, List.foldl_append, Option.getD_some]
            split
            · rfl
            · rename_i hany
              rw [List.filter_eq_nil_iff.mpr]
              · rfl
              · exact fun habit' hmem h' => hany (List.any_eq_true.mpr ⟨habit', hmem, h'⟩)
          · simp [addHabit, hcategory, h, OrderedMap.get_set_of_ne m (Ne.symm h)]

section Window

variable (habits : List ListedHabit) (logs : List DashLog) (todayYmd : String)

def byCategory : OrderedMap String CellCount :=
  (activeOf habits).foldl (addHabit (donePairsOf logs) todayYmd) OrderedMap.empty

def perfectCells (entry : String × CellCount) : Nat :=
  if entry.2.done = entry.2.expected then entry.2.expected else 0

theorem betterCategory_eq : betterCategory = better Prod.fst perfectCells := by
  funext best entry
  unfold betterCategory better perfectCells
  split
  · rename_i h
    rw [if_pos h.2.1, if_pos h.2.2]
  · rename_i h
    split
    · rename_i hdone
      rw [if_neg fun hlt => h ⟨by omega, hdone, hlt⟩]
    · rw [if_neg (Nat.not_lt_zero _)]

theorem betterStreak_eq :
    betterStreak logs todayYmd =
      better (fun habit => habit.name)
        fun habit => currentStreakDays habit.toDashHabit logs todayYmd :=
  rfl

variable {habits logs todayYmd}

theorem perfectCells_countCells (hlogs : ∀ entry ∈ logs, '|' ∉ entry.date.toList)
    (category : String) :
    let cells := categoryCells habits todayYmd category
    perfectCells (category, countCells (donePairsOf logs) cells) =
      if ∀ cell ∈ cells, cell.1 ∈ doneOn logs cell.2 then cells.length else 0 := by
  intro cells
  have hcells : ∀ cell ∈ cells, '|' ∉ cell.2.toList := by
    intro cell hcell
    obtain ⟨habit, -, hcell⟩ := List.mem_flatMap.mp hcell
    obtain ⟨date, hdate, rfl⟩ := List.mem_map.mp hcell
    have hwindow := List.mem_of_mem_filter hdate
    unfold windowDays at hwindow
    split at hwindow
    · obtain ⟨ms, -, rfl⟩ := List.mem_map.mp hwindow
      exact bar_notMem_ymd ms
    · cases hwindow
  rw [perfectCells, done_countCells, expected_countCells, sumOf_one, sumOf_ite_one]
  refine if_congr ?_ rfl rfl
  rw [List.countP_eq_length]
  exact forall₂_congr fun cell hcell => isDoneCell_iff hlogs (hcells cell hcell)

theorem mem_byCategory {entry : String × CellCount}
    (h : entry ∈ (byCategory habits logs todayYmd).entries) :
    entry.2 = countCells (donePairsOf logs) (categoryCells habits todayYmd entry.1) := by
  rw [OrderedMap.mem_entries, byCategory, get_foldl_addHabit, OrderedMap.get_empty] at h
  split at h
  · exact (Option.some.inj h).symm
  · cases h

theorem exists_of_isPerfect {category : String} (h : IsPerfect habits logs todayYmd category) :
    (category, countCells (donePairsOf logs) (categoryCells habits todayYmd category)) ∈
      (byCategory habits logs todayYmd).entries := by
  rw [OrderedMap.mem_entries, byCategory, get_foldl_addHabit, if_pos]
  · rfl
  · by_contra hany
    refine h.expected ?_
    rw [categoryCells, List.filter_eq_nil_iff.mpr]
    · rfl
    · exact fun habit hmem h' => hany (List.any_eq_true.mpr ⟨habit, hmem, h'⟩)

variable (habits todayYmd) in
/-- The loop over the categories finds a perfect one with the most expected days. -/
theorem best_category (hlogs : ∀ entry ∈ logs, '|' ∉ entry.date.toList) :
    let best := (byCategory habits logs todayYmd).entries.foldl betterCategory (none, 0)
    (best = (none, 0) ∧ ∀ category, ¬ IsPerfect habits logs todayYmd category) ∨
      ∃ category, best.1 = some category ∧ IsPerfect habits logs todayYmd category ∧
        ∀ category', IsPerfect habits logs todayYmd category' →
          (categoryCells habits todayYmd category').length ≤
            (categoryCells habits todayYmd category).length := by
  intro best
  obtain ⟨hmax, hbest⟩ := foldl_better Prod.fst perfectCells
    (byCategory habits logs todayYmd).entries
  rw [← betterCategory_eq] at hmax hbest
  have hle : ∀ category, IsPerfect habits logs todayYmd category →
      (categoryCells habits todayYmd category).length ≤ best.2 := by
    intro category hperfect
    have h := hmax _ (exists_of_isPerfect hperfect)
    rwa [perfectCells_countCells hlogs, if_pos hperfect.done] at h
  rcases hbest with hnone | ⟨entry, hentry, hpos, hsome⟩
  · refine Or.inl ⟨hnone, fun category hperfect => ?_⟩
    have hlen := hle category hperfect
    have hzero : best.2 = 0 := congrArg Prod.snd hnone
    rw [hzero, Nat.le_zero] at hlen
    exact hperfect.expected (List.eq_nil_of_length_eq_zero hlen)
  · have heq : entry = (entry.1, countCells (donePairsOf logs)
        (categoryCells habits todayYmd entry.1)) :=
      Prod.ext rfl (mem_byCategory hentry)
    have hvalue : best.2 = perfectCells entry := congrArg Prod.snd hsome
    rw [heq, perfectCells_countCells hlogs] at hpos hvalue
    split at hpos
    · rename_i hdone
      rw [if_pos hdone] at hvalue
      refine Or.inr ⟨entry.1, congrArg Prod.fst hsome, ⟨?_, hdone⟩, ?_⟩
      · exact List.ne_nil_of_length_pos hpos
      · intro category' hperfect'
        exact (hle category' hperfect').trans hvalue.le
    · exact absurd hpos (Nat.lt_irrefl 0)

end Window

inductive MilestoneOf (habits : List ListedHabit) (logs : List DashLog) (todayYmd : String) :
    Option Milestone → Prop where
  | category (category : String) (perfect : IsPerfect habits logs todayYmd category)
      (greatest : ∀ category', IsPerfect habits logs todayYmd category' →
        (categoryCells habits todayYmd category').length ≤
          (categoryCells habits todayYmd category).length) :
      MilestoneOf habits logs todayYmd (some (.category category))
  | streak (habit : ListedHabit) (active : habit ∈ activeOf habits)
      (imperfect : ∀ category, ¬ IsPerfect habits logs todayYmd category)
      (week : 7 ≤ currentStreakDays habit.toDashHabit logs todayYmd)
      (longest : ∀ habit' ∈ activeOf habits,
        currentStreakDays habit'.toDashHabit logs todayYmd ≤
          currentStreakDays habit.toDashHabit logs todayYmd) :
      MilestoneOf habits logs todayYmd
        (some (.streak habit.name (currentStreakDays habit.toDashHabit logs todayYmd)))
  | none (imperfect : ∀ category, ¬ IsPerfect habits logs todayYmd category)
      (short : ∀ habit ∈ activeOf habits,
        currentStreakDays habit.toDashHabit logs todayYmd < 7) :
      MilestoneOf habits logs todayYmd none

/-- A category without a gap in the last 14 days comes first, then the longest current streak of
at least a week, and there is no milestone only when there is neither. -/
theorem findMilestone_spec (habits : List ListedHabit) (logs : List DashLog) (todayYmd : String)
    (hnames : ∀ habit ∈ habits, habit.name ≠ "")
    (hlogs : ∀ entry ∈ logs, '|' ∉ entry.date.toList) :
    MilestoneOf habits logs todayYmd (findMilestone habits logs todayYmd) := by
  rcases best_category habits todayYmd hlogs with
    ⟨hnone, himperfect⟩ | ⟨category, hsome, hperfect, hgreatest⟩
  · rw [findMilestone, ← byCategory, hnone]
    obtain ⟨hmax, hstreak⟩ := foldl_better (fun habit : ListedHabit => habit.name)
      (fun habit => currentStreakDays habit.toDashHabit logs todayYmd) (activeOf habits)
    rw [← betterStreak_eq] at hmax hstreak
    rcases hstreak with hzero | ⟨habit, hmem, -, hlongest⟩
    · rw [hzero] at hmax ⊢
      refine MilestoneOf.none himperfect fun habit hmem => ?_
      exact (hmax habit hmem).trans_lt (by decide)
    · rw [hlongest] at hmax ⊢
      have hname : habit.name ≠ "" := hnames habit (List.mem_of_mem_filter hmem)
      by_cases hweek : 7 ≤ currentStreakDays habit.toDashHabit logs todayYmd
      · simp only [if_pos (And.intro hname hweek)]
        exact MilestoneOf.streak habit hmem himperfect hweek hmax
      · simp only [if_neg fun h : habit.name ≠ "" ∧ _ => hweek h.2]
        exact MilestoneOf.none himperfect fun habit' hmem' =>
          (hmax habit' hmem').trans_lt (not_le.mp hweek)
  · rw [findMilestone, ← byCategory]
    generalize (byCategory habits logs todayYmd).entries.foldl betterCategory (none, 0) = best
      at hsome
    obtain ⟨best, days⟩ := best
    rw [show best = some category from hsome]
    exact MilestoneOf.category category hperfect hgreatest

theorem findMilestone_spec_september :
    MilestoneOf twoHabits septemberLogs "2026-09-09"
      (findMilestone twoHabits septemberLogs "2026-09-09") :=
  findMilestone_spec twoHabits septemberLogs "2026-09-09" (by decide) (by decide)

end PersonalDashboard.HabitMilestones
