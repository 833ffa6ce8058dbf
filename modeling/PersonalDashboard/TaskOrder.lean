import PersonalDashboard.SoloRuns
import PersonalDashboard.TaskViews

/-! The place of a new task in the list of its user. -/

set_option autoImplicit false

namespace PersonalDashboard.TaskOrder

open PersonalDashboard.LedgerHandlers
open PersonalDashboard.ReadCommitted
open PersonalDashboard.RowInvariants
open PersonalDashboard.RowStatements
open PersonalDashboard.RowStore
open PersonalDashboard.Schema
open PersonalDashboard.SoloRuns
open PersonalDashboard.TaskHandlers
open PersonalDashboard.TaskLaws
open PersonalDashboard.TaskViews
open PersonalDashboard.Validation

def IsI32 (n : Int) : Prop :=
  -2 ^ 31 ≤ n ∧ n < 2 ^ 31

instance : DecidablePred IsI32 := fun _ =>
  inferInstanceAs (Decidable (_ ∧ _))

def OrderOk (t : TaskRow) : Prop :=
  IsI32 t.sortOrder

def givenOrder : TaskRequest → Option Int
  | .create body => body.sortOrder
  | .patch _ _ body => body.sortOrder
  | .delete _ => none

/-- The sort order of a body is read as an `i32`. -/
def TypedOrder (r : TaskRequest) : Prop :=
  ∀ n, givenOrder r = some n → IsI32 n

section NextSortOrder

variable {userId : Uuid} {s : Db} {n : Int}

theorem mem_sortOrders :
    n ∈ sortOrders userId s ↔ ∃ id t, s.task id = some t ∧ t.userId = userId ∧ t.sortOrder = n := by
  rw [sortOrders, List.mem_filterMap]
  constructor
  · rintro ⟨⟨k, r⟩, hmem, hsome⟩
    cases k with
    | task id =>
        dsimp only at hsome
        split at hsome
        · exact ⟨id, r, AList.mem_lookup_iff.mpr hmem, ‹_›, Option.some.inj hsome⟩
        · cases hsome
    | _ => cases hsome
  · rintro ⟨id, t, hlookup, howner, rfl⟩
    exact ⟨⟨.task id, t⟩, AList.mem_lookup_iff.mp hlookup, if_pos howner⟩

theorem nextSortOrder_cases (userId : Uuid) (s : Db) :
    (sortOrders userId s = [] ∧ nextSortOrder userId s = .ok 0) ∨
    ∃ top ∈ sortOrders userId s, (∀ m ∈ sortOrders userId s, m ≤ top) ∧
      ((top + 1 < 2 ^ 31 ∧ nextSortOrder userId s = .ok (top + 1)) ∨
        (2 ^ 31 ≤ top + 1 ∧ nextSortOrder userId s = .error .numericOutOfRange)) := by
  unfold nextSortOrder
  cases hmax : (sortOrders userId s).max? with
  | none => exact Or.inl ⟨List.max?_eq_none_iff.mp hmax, rfl⟩
  | some top =>
      obtain ⟨hmem, hle⟩ := List.max?_eq_some_iff.mp hmax
      refine Or.inr ⟨top, hmem, hle, ?_⟩
      dsimp only
      split
      · exact Or.inl ⟨‹_›, rfl⟩
      · exact Or.inr ⟨not_lt.mp ‹_›, rfl⟩

theorem lt_nextSortOrder (h : nextSortOrder userId s = .ok n) :
    ∀ m ∈ sortOrders userId s, m < n := by
  intro m hm
  rcases nextSortOrder_cases userId s with
    ⟨hnil, -⟩ | ⟨top, -, hle, ⟨-, hnext⟩ | ⟨-, hnext⟩⟩
  · rw [hnil] at hm
    cases hm
  · obtain rfl := Except.ok.inj (hnext.symm.trans h)
    exact Int.lt_add_one_iff.mpr (hle m hm)
  · cases hnext.symm.trans h

theorem isI32_of_mem (hs : RowsOk (lawOf OrderOk) s) (hn : n ∈ sortOrders userId s) : IsI32 n := by
  obtain ⟨id, t, hlookup, -, rfl⟩ := mem_sortOrders.mp hn
  exact hs (Key.task id) t hlookup

theorem isI32_nextSortOrder (hs : RowsOk (lawOf OrderOk) s)
    (h : nextSortOrder userId s = .ok n) : IsI32 n := by
  rcases nextSortOrder_cases userId s with
    ⟨-, hnext⟩ | ⟨top, hmem, -, ⟨hlt, hnext⟩ | ⟨-, hnext⟩⟩
  · obtain rfl := Except.ok.inj (hnext.symm.trans h)
    decide
  · obtain rfl := Except.ok.inj (hnext.symm.trans h)
    exact ⟨(isI32_of_mem hs hmem).1.trans (Int.le_add_one le_rfl), hlt⟩
  · cases hnext.symm.trans h

theorem nextSortOrder_eq_error_iff (hs : RowsOk (lawOf OrderOk) s) :
    nextSortOrder userId s = .error .numericOutOfRange ↔ 2 ^ 31 - 1 ∈ sortOrders userId s := by
  rcases nextSortOrder_cases userId s with
    ⟨hnil, hnext⟩ | ⟨top, hmem, hle, ⟨hlt, hnext⟩ | ⟨hge, hnext⟩⟩ <;> rw [hnext]
  · rw [hnil]
    exact iff_of_false (fun h => nomatch h) List.not_mem_nil
  · refine iff_of_false (fun h => nomatch h) fun hlast => ?_
    have hbound : 2 ^ 31 - 1 ≤ top := hle _ hlast
    omega
  · have hlast : top = 2 ^ 31 - 1 := by
      have hlt := (isI32_of_mem hs hmem).2
      omega
    exact iff_of_true rfl (hlast ▸ hmem)

theorem exists_nextSortOrder (h : nextSortOrder userId s ≠ .error .numericOutOfRange) :
    ∃ n, nextSortOrder userId s = .ok n := by
  rcases nextSortOrder_cases userId s with
    ⟨-, hnext⟩ | ⟨top, -, -, ⟨-, hnext⟩ | ⟨-, hnext⟩⟩
  · exact ⟨0, hnext⟩
  · exact ⟨top + 1, hnext⟩
  · exact absurd hnext h

end NextSortOrder

theorem respects_orderOk {caller : Caller} {r : TaskRequest} (h : TypedOrder r) :
    Respects OrderOk caller r := by
  cases r with
  | create body =>
      intro row hrow
      rw [OrderOk, sortOrder_setTaskCompletedAt]
      rcases hrow.sortOrder with hgiven | ⟨-, s, hs, hnext⟩
      · exact h _ hgiven
      · exact isI32_nextSortOrder hs hnext
  | patch newFirst id body =>
      intro patch hpatch old hold
      rw [OrderOk, TaskPatch.merge, sortOrder_setTaskCompletedAt]
      cases hgiven : body.sortOrder with
      | none =>
          rw [hpatch.sortOrder, hgiven]
          exact hold
      | some n =>
          rw [hpatch.sortOrder, hgiven]
          exact h n hgiven
  | delete id => trivial

/-- The checks of a new task pass, and its links lead to rows of the user. -/
structure ValidTask (caller : Caller) (body : CreateTaskRequest) (s : Db) : Prop where
  title : ∃ title, validateRequiredText body.title maxTitleLen "title" = .ok title
  priority : ∃ priority, validateTaskPriorityOpt body.priority = .ok priority
  status : ∃ status, validateTaskStatusOpt body.status = .ok status
  dueDate : ∃ due,
    validateOpt (validateCalendarDate caller.parsers · "due_date") body.dueDate = .ok due
  goal : ∀ g, body.goalId = some g → goalOwner g s = some caller.userId
  category : ∀ c, body.categoryId = some c → categoryLookupSql c caller.userId s = some .task
  description : validateOptionalText body.description maxTextLen "description" = .ok ()

section Alone

variable {w : Session Row} {caller : Caller} {body : CreateTaskRequest} {userId : Uuid}

theorem solo_ensureTaskGoal {goalId : Option Uuid}
    (h : ∀ g, goalId = some g → goalOwner g w.view = some userId) :
    solo (ensureTaskGoal goalId userId) w = (.ok (), w) := by
  cases goalId with
  | none => rfl
  | some g =>
      have howned : solo (select fun s => decide (goalOwner g s = some userId) : Handler Bool) w =
          (.ok true, w) := by
        simp only [select, solo, h g rfl, decide_true]
      exact solo_bind_of_ok howned _

theorem solo_ensureTaskCategory {categoryId : Option Uuid}
    (h : ∀ c, categoryId = some c → categoryLookupSql c userId w.view = some .task) :
    solo (ensureTaskCategory categoryId userId) w = (.ok (), w) := by
  cases categoryId with
  | none => rfl
  | some c =>
      have hfound : solo (select (categoryLookupSql c userId) : Handler (Option CategoryKind)) w =
          (.ok (some .task), w) := by
        simp only [select, solo, h c rfl]
      exact solo_bind_of_ok hfound _

theorem isSome_goal_of_owner {g : Uuid} {s : Db} (h : goalOwner g s = some userId) :
    (s.lookup (Key.goal g)).isSome := by
  obtain ⟨row, hrow, -⟩ := Option.map_eq_some_iff.mp h
  exact Option.isSome_iff_exists.mpr ⟨row, hrow⟩

theorem isSome_category_of_lookup {c : Uuid} {s : Db} {kind : CategoryKind}
    (h : categoryLookupSql c userId s = some kind) : (s.lookup (Key.category c)).isSome := by
  obtain ⟨row, hrow, -⟩ := Option.map_eq_some_iff.mp h
  exact Option.isSome_iff_exists.mpr ⟨row, (Option.filter_eq_some_iff.mp hrow).1⟩

/-- The trigger writes goals only. -/
theorem solo_recalcGoalProgress (toErr : SqlState → AppError) (now : Timestamp)
    (goals : List Uuid) (w : Session Row) :
    ∃ t, solo (recalcGoalProgress toErr now goals) w = (.ok (), w.write t) ∧
      ∀ id, Db.task t id = Db.task w.view id := by
  induction goals generalizing w with
  | nil => exact ⟨w.view, by rw [write_view]; rfl, fun _ => rfl⟩
  | cons g goals ih =>
      cases hg : w.view.lookup (Key.goal g) with
      | none =>
          obtain ⟨t, ht, htasks⟩ := ih w
          refine ⟨t, ?_, htasks⟩
          rw [← ht]
          exact solo_bind_of_ok (solo_updateRow_of_miss rfl hg) _
      | some r =>
          obtain ⟨row, hrow⟩ : ∃ row : GoalRow, Db.goal w.view g = some row := ⟨r, hg⟩
          obtain ⟨t, ht, htasks⟩ := ih (w.write (put w.view (Key.goal g)
            (some { row with progress := goalProgress g w.view, updatedAt := now })))
          refine ⟨t, ?_, fun id => ?_⟩
          · rw [write_write] at ht
            rw [← ht]
            exact solo_bind_of_ok (solo_updateRow rfl hrow rfl rfl) _
          · rw [htasks id, view_write, Db.task_put_of_ne (by simp)]

theorem solo_insertTask (now : Timestamp) (row : TaskRow)
    (hgoal : ∀ g, row.goalId = some g → (w.view.lookup (Key.goal g)).isSome)
    (hcategory : ∀ c, row.categoryId = some c → (w.view.lookup (Key.category c)).isSome) :
    ∃ t, solo (insertTask now row) w = (.ok ⟨w.ids 0, setTaskCompletedAt now none row⟩,
        ({ w with ids := fun n => w.ids (n + 1) } : Session Row).write t) ∧
      ∀ id, Db.task t id =
        if id = w.ids 0 then some (setTaskCompletedAt now none row) else Db.task w.view id := by
  obtain ⟨-, hgoalId, hcategoryId⟩ := links_setTaskCompletedAt now none row
  generalize hnew : setTaskCompletedAt now none row = new at hgoalId hcategoryId ⊢
  generalize hw₁ : ({ w with ids := fun n => w.ids (n + 1) } : Session Row) = w₁
  have hview : w₁.view = w.view := hw₁ ▸ rfl
  have hfresh : solo (freshId Key.task : Handler Uuid) w = (.ok (w.ids 0), w₁) := hw₁ ▸ rfl
  have hother : ∀ k : Key, k ≠ Key.task (w.ids 0) →
      (put w.view (Key.task (w.ids 0)) (some new)).lookup k = w.view.lookup k :=
    fun k hk => lookup_put_of_ne hk _
  obtain ⟨t, ht, htasks⟩ := solo_recalcGoalProgress mapTaskDbErr now new.goalId.toList
    (w₁.write (put w.view (Key.task (w.ids 0)) (some new)))
  refine ⟨t, ?_, fun id => ?_⟩
  · unfold insertTask
    simp only [Prog.bind_eq]
    rw [solo_bind_of_ok hfresh, hnew, solo_bind_of_ok solo_insertRow, hview]
    rw [solo_bind_of_ok (solo_foreignKeyOpt fun g hg => ?_)]
    · rw [solo_bind_of_ok (solo_foreignKeyOpt fun c hc => ?_), solo_bind_of_ok ht, write_write]
      · rfl
      · rw [view_write, hother _ (by simp)]
        exact hcategory c (hcategoryId ▸ hc)
    · rw [view_write, hother _ (by simp)]
      exact hgoal g (hgoalId ▸ hg)
  · rw [htasks id, view_write]
    split
    · rename_i heq
      rw [heq, Db.task_put_self]
    · rename_i hne
      rw [Db.task_put_of_ne (by simpa using hne)]

theorem solo_newSortOrder (userId : Uuid) (w : Session Row) :
    solo (newSortOrder userId none) w =
      ((nextSortOrder userId w.view).mapError mapTaskDbErr, w) := by
  unfold newSortOrder select
  cases hnext : nextSortOrder userId w.view with
  | ok n => simp only [Prog.bind_eq, Prog.bind, solo, hnext]; rfl
  | error e => simp only [Prog.bind_eq, Prog.bind, solo, hnext]; rfl

structure NewRow (caller : Caller) (body : CreateTaskRequest) (n : Int) (row : TaskRow) :
    Prop where
  userId : row.userId = caller.userId
  goalId : row.goalId = body.goalId
  categoryId : row.categoryId = body.categoryId
  sortOrder : row.sortOrder = n

theorem solo_createTaskHandler (hvalid : ValidTask caller body w.db) (htx : w.tx = none)
    (hplace : body.sortOrder = none) :
    ∃ row : Int → TaskRow, (∀ n, NewRow caller body n (row n)) ∧
      solo (createTaskHandler caller body) w =
        match nextSortOrder caller.userId w.db with
        | .error e => (.error (mapTaskDbErr e), { w with tx := some w.db })
        | .ok n => solo ((insertTask caller.now (row n)).bind fun stored =>
            commitTx.bind fun _ => .ret stored) { w with tx := some w.db } := by
  obtain ⟨title, htitle⟩ := hvalid.title
  obtain ⟨priority, hpriority⟩ := hvalid.priority
  obtain ⟨status, hstatus⟩ := hvalid.status
  obtain ⟨due, hdue⟩ := hvalid.dueDate
  have hview : w.view = w.db := by rw [Session.view, htx, Option.getD_none]
  have hbegin : solo (beginTx : Handler Unit) w = (.ok (), { w with tx := some w.db }) := by
    rw [beginTx, solo, hview]
    rfl
  refine ⟨fun n =>
    { userId := caller.userId, title := title, description := body.description
      priority := priority, status := status, dueDate := due, completedAt := none
      goalId := body.goalId, categoryId := body.categoryId, reminderId := none
      sortOrder := n, createdAt := caller.now, updatedAt := caller.now },
    fun n => ⟨rfl, rfl, rfl, rfl⟩, ?_⟩
  unfold createTaskHandler
  simp only [Prog.bind_eq, Prog.pure_eq]
  rw [htitle, hpriority, hstatus, hdue, hvalid.description, hplace]
  simp only [ReadCommitted.ofExcept, Prog.ret_bind]
  rw [solo_bind_of_ok (solo_ensureTaskGoal (hview ▸ hvalid.goal)),
    solo_bind_of_ok (solo_ensureTaskCategory (hview ▸ hvalid.category)), solo_bind_of_ok hbegin]
  have hnext := solo_newSortOrder caller.userId { w with tx := some w.db }
  cases hn : nextSortOrder caller.userId w.db with
  | error e =>
      rw [Session.view, Option.getD_some, hn] at hnext
      exact solo_bind_of_error hnext _
  | ok n =>
      rw [Session.view, Option.getD_some, hn] at hnext
      exact solo_bind_of_ok hnext _

theorem outcome_of_nextSortOrder (hvalid : ValidTask caller body w.db) (htx : w.tx = none)
    (hplace : body.sortOrder = none) {n : Int} (hn : nextSortOrder caller.userId w.db = .ok n) :
    ∃ stored t, outcome (createTaskHandler caller body) w = (.ok stored, t) ∧
      stored.row.userId = caller.userId ∧ stored.row.sortOrder = n ∧
      ∀ id, Db.task t id = if id = stored.id then some stored.row else Db.task w.db id := by
  obtain ⟨row, hrow, hsolo⟩ := solo_createTaskHandler hvalid htx hplace
  obtain ⟨t, ht, htasks⟩ := solo_insertTask (w := { w with tx := some w.db }) caller.now (row n)
    (fun g hg => isSome_goal_of_owner (hvalid.goal g ((hrow n).goalId ▸ hg)))
    (fun c hc => isSome_category_of_lookup (hvalid.category c ((hrow n).categoryId ▸ hc)))
  rw [hn] at hsolo
  dsimp only at hsolo
  rw [solo_bind_of_ok ht] at hsolo
  refine ⟨_, t, by rw [outcome, hsolo]; rfl, ?_, ?_, htasks⟩
  · exact (links_setTaskCompletedAt _ _ _).1.trans (hrow n).userId
  · exact (sortOrder_setTaskCompletedAt _ _ _).trans (hrow n).sortOrder

theorem outcome_of_noSortOrder (hvalid : ValidTask caller body w.db) (htx : w.tx = none)
    (hplace : body.sortOrder = none)
    (hn : nextSortOrder caller.userId w.db = .error .numericOutOfRange) :
    outcome (createTaskHandler caller body) w = (.error .internal, w.db) := by
  obtain ⟨row, -, hsolo⟩ := solo_createTaskHandler hvalid htx hplace
  rw [hn] at hsolo
  rw [outcome, hsolo]
  rfl

end Alone

theorem getLast?_eq_some_of_pairwise {α : Type} {r : α → α → Bool} {l : List α} {a : α}
    (hl : l.Pairwise fun x y => r x y = true) (ha : a ∈ l)
    (hlast : ∀ b ∈ l, b ≠ a → r a b = false) : l.getLast? = some a := by
  obtain ⟨l, b, rfl⟩ := (List.eq_nil_or_concat' l).resolve_left (List.ne_nil_of_mem ha)
  rw [List.getLast?_append, List.getLast?_singleton, Option.some_or]
  by_contra hne
  have hmem : a ∈ l := by
    rcases List.mem_append.mp ha with h | h
    · exact h
    · exact absurd (congrArg some (List.mem_singleton.mp h).symm) hne
  have htrue : r a b = true :=
    (List.pairwise_append.mp hl).2.2 a hmem b (List.mem_singleton.mpr rfl)
  rw [hlast b (List.mem_append.mpr (Or.inr (List.mem_singleton.mpr rfl)))
    fun h => hne (congrArg some h)] at htrue
  cases htrue

/-- The order of the lists: by the sort order, then by the time of the creation. -/
def listedBefore (a b : Stored TaskRow) : Bool :=
  a.row.sortOrder < b.row.sortOrder ||
    (a.row.sortOrder = b.row.sortOrder && a.row.createdAt ≤ b.row.createdAt)

theorem pairwise_tasksWhere (p : TaskRow → Bool) (userId : Uuid) (s : Db) :
    (tasksWhere p userId s).Pairwise fun a b => listedBefore a b = true := by
  change (List.mergeSort _ listedBefore).Pairwise _
  refine List.pairwise_mergeSort (fun a b c hab hbc => ?_) (fun a b => ?_) _
  · simp only [listedBefore, Bool.or_eq_true, Bool.and_eq_true, decide_eq_true_eq,
      Timestamp] at hab hbc ⊢
    omega
  · simp only [listedBefore, Bool.or_eq_true, Bool.and_eq_true, decide_eq_true_eq, Timestamp]
    omega

structure PlacedLast (userId : Uuid) (stored : Stored TaskRow) (s : Db) : Prop where
  task : s.task stored.id = some stored.row
  owner : stored.row.userId = userId
  greatest : ∀ id t, s.task id = some t → t.userId = userId → id ≠ stored.id →
    t.sortOrder < stored.row.sortOrder
  listed : (listTasksSql userId s).getLast? = some stored

theorem placedLast_of_greatest {userId : Uuid} {stored : Stored TaskRow} {s : Db}
    (htask : s.task stored.id = some stored.row) (howner : stored.row.userId = userId)
    (hgreatest : ∀ id t, s.task id = some t → t.userId = userId → id ≠ stored.id →
      t.sortOrder < stored.row.sortOrder) : PlacedLast userId stored s := by
  refine ⟨htask, howner, hgreatest, ?_⟩
  refine getLast?_eq_some_of_pairwise (pairwise_tasksWhere _ userId s)
    (mem_tasksWhere.mpr ⟨htask, howner, rfl⟩) fun b hb hne => ?_
  obtain ⟨hb, hbowner, -⟩ := mem_tasksWhere.mp hb
  have hid : b.id ≠ stored.id := by
    intro hid
    rw [hid, htask] at hb
    obtain ⟨id, row⟩ := b
    obtain rfl := Option.some.inj hb
    exact hne (congrArg (Stored.mk · stored.row) hid)
  have hlt := hgreatest b.id b.row hb hbowner hid
  simp only [listedBefore, Bool.or_eq_false_iff, Bool.and_eq_false_iff, decide_eq_false_iff_not]
  omega

theorem steady_ensureTaskGoal (goalId : Option Uuid) (userId : Uuid) (inTx : Bool) :
    Steady (ensureTaskGoal goalId userId) inTx := by
  cases goalId with
  | none => exact steady_ret ()
  | some goalId =>
      refine (steady_select _).bind fun owned => steady_whenever ?_
      exact (steady_select _).bind fun there =>
        (steady_failIf _ _).bind fun _ => steady_failIf _ _

theorem steady_ensureTaskCategory (categoryId : Option Uuid) (userId : Uuid) (inTx : Bool) :
    Steady (ensureTaskCategory categoryId userId) inTx := by
  cases categoryId with
  | none => exact steady_ret ()
  | some categoryId => exact (steady_select _).bind fun found => steady_failIf _ _

theorem steady_newSortOrder (userId : Uuid) (given : Option Int) (inTx : Bool) :
    Steady (newSortOrder userId given) inTx := by
  cases given with
  | none => exact (steady_select _).bind fun next => steady_ofExcept _
  | some n => exact steady_ret n

theorem steady_recalcGoalProgress (toErr : SqlState → AppError) (now : Timestamp)
    (goals : List Uuid) : Steady (recalcGoalProgress toErr now goals) true := by
  induction goals with
  | nil => exact steady_ret ()
  | cons g goals ih => exact (steady_execSql _ _).bind fun _ => ih

theorem steady_insertTask (now : Timestamp) (row : TaskRow) :
    Steady (insertTask now row) true := by
  have hkey : Function.Injective Key.task := fun a b h => Key.task.inj h
  refine (steady_freshId hkey).bind fun id => (steady_execSql _ _).bind fun _ => ?_
  refine (steady_foreignKeyOpt _ _ _ _).bind fun _ => ?_
  refine (steady_foreignKeyOpt _ _ _ _).bind fun _ => ?_
  exact (steady_recalcGoalProgress _ _ _).bind fun _ => steady_ret _

theorem steady_createTaskHandler (caller : Caller) (body : CreateTaskRequest) :
    Steady (createTaskHandler caller body) false := by
  refine (steady_ofExcept _).bind fun title => (steady_ofExcept _).bind fun priority => ?_
  refine (steady_ofExcept _).bind fun status => (steady_ofExcept _).bind fun due => ?_
  refine (steady_ensureTaskGoal _ _ _).bind fun _ => ?_
  refine (steady_ensureTaskCategory _ _ _).bind fun _ => ?_
  refine (steady_ofExcept _).bind fun _ => bracketed_beginTx ?_
  refine (steady_newSortOrder _ _ _).bind fun sortOrder => ?_
  refine (steady_insertTask _ _).bind fun stored => ?_
  exact bracketed_commitTx (bracketed_ret rfl)

structure OrderDb where
  store : Db
  lawful : RowsOk (lawOf OrderOk) store

variable {ι : Type} [DecidableEq ι]

def orderRun (db : OrderDb) (requests : ι → Caller × TaskRequest) (cs : List (Choice ι)) :
    Config ι Row SqlState AppError (Option (Stored TaskRow)) :=
  run .internal (start db.store fun i => serveTask (requests i).1 (requests i).2) cs

/-- A request that runs alone from now on succeeds, and its task is the last one of its
user. -/
structure AppendsLast (s : Config ι Row SqlState AppError (Option (Stored TaskRow))) (i : ι)
    (userId : Uuid) : Prop where
  ends : ∃ fresh, Ended ((run .internal s (turns i fresh)).procs i).prog
  last : ∀ fresh r, ((run .internal s (turns i fresh)).procs i).prog = ReadCommitted.ofExcept r →
    ∃ stored, r = .ok (some stored) ∧
      PlacedLast userId stored (run .internal s (turns i fresh)).db

section Runs

variable {s : Config ι Row SqlState AppError (Option (Stored TaskRow))} {i : ι}
  {caller : Caller} {body : CreateTaskRequest}

theorem exists_outcome_of_turns
    (hproc : s.procs i = { prog := serveTask caller (.create body) }) {fresh : List Nat}
    {r : Except AppError (Option (Stored TaskRow))}
    (hr : ((run .internal s (turns i fresh)).procs i).prog = ReadCommitted.ofExcept r) :
    ∃ ids : Nat → Nat,
      (outcome (createTaskHandler caller body) ⟨s.db, none, ids⟩).1.map some = r ∧
        (outcome (createTaskHandler caller body) ⟨s.db, none, ids⟩).2 =
          (run .internal s (turns i fresh)).db := by
  have hready : TransactionLogic.Contract.UpToDate s i :=
    TransactionLogic.Contract.upToDate_of_none (by rw [hproc])
  obtain ⟨ids, hids⟩ := exists_outcome_of_run hready .internal fresh hr
  have hsession : sessionOf s i ids = ⟨s.db, none, ids⟩ := by rw [sessionOf, hproc]; rfl
  rw [hproc, hsession, serveTask, outcome_map] at hids
  exact ⟨ids, (Prod.mk.inj hids).1, (Prod.mk.inj hids).2⟩

theorem ends_alone (hproc : s.procs i = { prog := serveTask caller (.create body) })
    (hlocks : ∀ l ∈ s.locks, l.proc = i) :
    ∃ fresh, Ended ((run .internal s (turns i fresh)).procs i).prog := by
  have htx : (s.procs i).tx = none := by rw [hproc]
  have halone : Alone s i (serveTask caller (.create body)) false :=
    ⟨by rw [hproc], by rw [htx, Option.isSome_none], hlocks⟩
  have hsteady : Steady (serveTask caller (.create body)) false := by
    rw [serveTask]
    exact (steady_createTaskHandler caller body).map some
  exact halone.exists_ended hsteady .internal

theorem placedLast_of_next {userId : Uuid} {db t : Db} {n : Int} {stored : Stored TaskRow}
    (hn : nextSortOrder userId db = .ok n) (howner : stored.row.userId = userId)
    (horder : stored.row.sortOrder = n)
    (htasks : ∀ id, Db.task t id = if id = stored.id then some stored.row else Db.task db id) :
    PlacedLast userId stored t := by
  refine placedLast_of_greatest (by rw [htasks, if_pos rfl]) howner fun id row hrow huser hid => ?_
  rw [htasks, if_neg hid] at hrow
  rw [horder]
  exact lt_nextSortOrder hn _ (mem_sortOrders.mpr ⟨id, row, hrow, huser, rfl⟩)

theorem appendsLast_iff_of_alone (hrows : RowsOk (lawOf OrderOk) s.db)
    (hproc : s.procs i = { prog := serveTask caller (.create body) })
    (hlocks : ∀ l ∈ s.locks, l.proc = i) (hplace : body.sortOrder = none)
    (hvalid : ValidTask caller body s.db) :
    AppendsLast s i caller.userId ↔ 2 ^ 31 - 1 ∉ sortOrders caller.userId s.db := by
  rw [← nextSortOrder_eq_error_iff hrows]
  constructor
  · intro h herror
    obtain ⟨fresh, r, hr⟩ := h.ends
    obtain ⟨stored, rfl, -⟩ := h.last fresh r hr
    obtain ⟨ids, hanswer, -⟩ := exists_outcome_of_turns hproc hr
    rw [outcome_of_noSortOrder hvalid rfl hplace herror] at hanswer
    cases hanswer
  · intro hnext
    obtain ⟨n, hn⟩ := exists_nextSortOrder hnext
    refine ⟨ends_alone hproc hlocks, fun fresh r hr => ?_⟩
    obtain ⟨ids, hanswer, hdb⟩ := exists_outcome_of_turns hproc hr
    obtain ⟨stored, t, hout, howner, horder, htasks⟩ :=
      outcome_of_nextSortOrder (w := ⟨s.db, none, ids⟩) hvalid rfl hplace hn
    rw [hout] at hanswer hdb
    refine ⟨stored, hanswer.symm, ?_⟩
    rw [← hdb]
    exact placedLast_of_next hn howner horder htasks

end Runs

/-- In every state that task requests reach, while no transaction is open, a valid new task
without a sort order is appended to the list of its user if and only if none of the user's
tasks has the greatest sort order that there is. -/
theorem appendsLast_iff (db : OrderDb) (requests : ι → Caller × TaskRequest)
    (htyped : ∀ i, TypedOrder (requests i).2) (cs : List (Choice ι))
    (hidle : ∀ j, ((orderRun db requests cs).procs j).tx = none) {i : ι}
    (hnew : ∀ c ∈ cs, c.proc ≠ i) {caller : Caller} {body : CreateTaskRequest}
    (hrequest : requests i = (caller, .create body)) (hplace : body.sortOrder = none)
    (hvalid : ValidTask caller body (orderRun db requests cs).db) :
    AppendsLast (orderRun db requests cs) i caller.userId ↔
      ∀ id t, Db.task (orderRun db requests cs).db id = some t → t.userId = caller.userId →
        t.sortOrder ≠ 2 ^ 31 - 1 := by
  have hrows : RowsOk (lawOf OrderOk) (orderRun db requests cs).db :=
    rowsOk_run db.lawful (fun i => respects_orderOk (htyped i)) cs
  have hproc : (orderRun db requests cs).procs i = { prog := serveTask caller (.create body) } := by
    rw [orderRun, procs_run_of_notMem hnew]
    simp only [start, hrequest]
  have hlocks : ∀ l ∈ (orderRun db requests cs).locks, l.proc = i := by
    have hopen : LocksOpen (orderRun db requests cs) := (locksOpen_start db.store _).run _ cs
    intro l hl
    have htx := hopen l hl
    rw [hidle] at htx
    cases htx
  rw [appendsLast_iff_of_alone hrows hproc hlocks hplace hvalid, mem_sortOrders]
  constructor
  · exact fun h id t ht howner horder => h ⟨id, t, ht, howner, horder⟩
  · rintro h ⟨id, t, ht, howner, horder⟩
    exact h id t ht howner horder

def newTask (sortOrder : Option Int) : CreateTaskRequest where
  title := "Pagar arriendo"
  description := none
  priority := none
  status := none
  dueDate := none
  goalId := none
  categoryId := none
  sortOrder := sortOrder

def inTurn (n : Int) (second : Bool) : Caller × TaskRequest :=
  (⟨oneDate, 1, 5⟩, .create (newTask (if second then none else some n)))

def firstTurns : List (Choice Bool) :=
  turns false (List.replicate 6 0)

def emptyOrders : OrderDb :=
  ⟨∅, rowsOk_empty⟩

def firstTask (n : Int) : TaskRow where
  userId := 1
  title := "Pagar arriendo"
  description := none
  priority := .medium
  status := .pending
  dueDate := none
  completedAt := none
  goalId := none
  categoryId := none
  reminderId := none
  sortOrder := n
  createdAt := 5
  updatedAt := 5

theorem typedOrder_inTurn {n : Int} (hn : IsI32 n) (i : Bool) : TypedOrder (inTurn n i).2 := by
  intro m hm
  cases i with
  | true => cases hm
  | false =>
      obtain rfl := Option.some.inj hm
      exact hn

theorem validTask_newTask (s : Db) : ValidTask ⟨oneDate, 1, 5⟩ (newTask none) s where
  title := ⟨_, rfl⟩
  priority := ⟨_, rfl⟩
  status := ⟨_, rfl⟩
  dueDate := ⟨_, rfl⟩
  goal _ hg := nomatch hg
  category _ hc := nomatch hc
  description := rfl

set_option maxRecDepth 4000 in
theorem entries_firstTurns :
    (orderRun emptyOrders (inTurn 7) firstTurns).db.entries = [⟨Key.task 0, firstTask 7⟩] :=
  rfl

set_option maxRecDepth 4000 in
theorem appendsLast_inTurn :
    AppendsLast (orderRun emptyOrders (inTurn 7) firstTurns) true 1 := by
  have hrequest : inTurn 7 true = (⟨oneDate, 1, 5⟩, .create (newTask none)) := rfl
  refine (appendsLast_iff emptyOrders (inTurn 7) (typedOrder_inTurn (by decide)) firstTurns
    (fun j => by cases j <;> rfl) (by decide) hrequest rfl
    (validTask_newTask _)).mpr fun id t ht _ => ?_
  have hmem := AList.mem_lookup_iff.mp ht
  rw [entries_firstTurns] at hmem
  obtain ⟨hid, hrow⟩ := Sigma.mk.inj (List.mem_singleton.mp hmem)
  obtain rfl := Key.task.inj hid
  obtain rfl := eq_of_heq hrow
  decide

set_option maxRecDepth 4000 in
/-- After a task with the greatest sort order, the next one is refused. -/
theorem not_appendsLast :
    let s := orderRun emptyOrders (inTurn 2147483647) firstTurns
    (∀ i, TypedOrder (inTurn 2147483647 i).2) ∧ (∀ j, (s.procs j).tx = none) ∧
      ValidTask ⟨oneDate, 1, 5⟩ (newTask none) s.db ∧ ¬ AppendsLast s true 1 := by
  refine ⟨typedOrder_inTurn (by decide), fun j => by cases j <;> rfl, validTask_newTask _,
    fun h => ?_⟩
  obtain ⟨stored, heq, -⟩ := h.last [0, 0, 0] (.error .internal) rfl
  cases heq

end PersonalDashboard.TaskOrder
