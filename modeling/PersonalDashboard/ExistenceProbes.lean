import PersonalDashboard.OwnedRows

/-! What the answers to a user's requests disclose about the rows of other users. -/

set_option autoImplicit false

namespace PersonalDashboard.ExistenceProbes

open PersonalDashboard.AssetHandlers
open PersonalDashboard.Calendar
open PersonalDashboard.EventHandlers
open PersonalDashboard.HabitLogHandlers
open PersonalDashboard.LedgerHandlers
open PersonalDashboard.OwnedRows
open PersonalDashboard.ReadCommitted
open PersonalDashboard.RowStatements
open PersonalDashboard.RowStore
open PersonalDashboard.Schema
open PersonalDashboard.SoloRuns
open PersonalDashboard.TaskHandlers
open PersonalDashboard.TwinRuns
open PersonalDashboard.TwinRuns.Frame
open PersonalDashboard.Validation

def status (e : AppError) : Nat :=
  e.statusAndCode.1

theorem status_notFound_ne (msg : String) : status .notFound ≠ status (.validation msg) := by
  simp [status, AppError.statusAndCode]

def firstUnowned (userId : Uuid) (ks : List Key) (s : Db) : Option Key :=
  ks.find? fun k => !decide (ownerAt k s = some userId)

section Links

variable {W : Frame Row} {userId : Uuid} {α : Type} {f : Unit → Handler α} {ks : List Key}

theorem discloses_link (hW : Divided W userId) {k : Key} {owner : Db → Option Uuid}
    (howner : owner = ownerAt k) (htotal : ∀ r, (ownerOf k r).isSome) {e e' : AppError}
    (hne : status e ≠ status e')
    (hf : W.shared k → W.Discloses status (f ()) (firstUnowned userId ks)) :
    W.Discloses status
      ((select fun s => decide (owner s = some userId)).bind fun owned =>
        (whenever (owned = false) ((select fun s => (owner s).isSome).bind fun there =>
          (failIf there e).bind fun _ => failIf (!there) e')).bind f)
      (firstUnowned userId (k :: ks)) := by
  subst howner
  have hthere : (fun s => (ownerAt k s).isSome) = fun s : Db => (s.lookup k).isSome := by
    funext s
    rw [ownerAt]
    cases s.lookup k with
    | none => rfl
    | some r => exact htotal r
  have hq : firstUnowned userId (k :: ks) = fun s =>
      if decide (ownerAt k s = some userId) then firstUnowned userId ks s else some k := by
    funext s
    rw [firstUnowned, List.find?_cons]
    cases decide (ownerAt k s = some userId) <;> rfl
  rw [hthere, hq]
  refine discloses_gate (P := W.shared k) hne (fun s s' h => ⟨?_, fun hs => ?_⟩) hf
  · exact decide_eq_decide.mpr (hW.ownerAt_iff h)
  · exact hW.shared_of_owner h (of_decide_eq_true hs)

theorem discloses_ensureWritable (hW : Divided W userId) {k : Key} {owner : Db → Option Uuid}
    (howner : owner = ownerAt k) (htotal : ∀ r, (ownerOf k r).isSome) (missing : String)
    (hf : W.shared k → W.Discloses status (f ()) (firstUnowned userId ks)) :
    W.Discloses status ((ensureWritable owner missing userId).bind f)
      (firstUnowned userId (k :: ks)) :=
  discloses_link hW howner htotal (status_notFound_ne missing) hf

theorem habitOwner_eq (id : Uuid) : habitOwner id = ownerAt (Key.habit id) := by
  funext s
  rw [habitOwner, Db.habit, ownerAt]
  cases s.lookup (Key.habit id) <;> rfl

theorem goalOwner_eq (id : Uuid) : goalOwner id = ownerAt (Key.goal id) := by
  funext s
  rw [goalOwner, Db.goal, ownerAt]
  cases s.lookup (Key.goal id) <;> rfl

theorem taskOwner_eq (id : Uuid) : taskOwner id = ownerAt (Key.task id) := by
  funext s
  rw [taskOwner, Db.task, ownerAt]
  cases s.lookup (Key.task id) <;> rfl

theorem subscriptionOwner_eq (id : Uuid) :
    subscriptionOwner id = ownerAt (Key.subscription id) := by
  funext s
  rw [subscriptionOwner, Db.subscription, ownerAt]
  cases s.lookup (Key.subscription id) <;> rfl

theorem discloses_ensureTaskGoal (hW : Divided W userId) {goalId : Option Uuid}
    (hf : (∀ g ∈ goalId, W.shared (Key.goal g)) → W.Discloses status (f ()) fun _ => none) :
    W.Discloses status ((ensureTaskGoal goalId userId).bind f)
      (firstUnowned userId (goalId.toList.map Key.goal)) := by
  cases goalId with
  | none => exact hf fun g hg => (nomatch hg)
  | some g =>
      refine discloses_ensureWritable hW (goalOwner_eq g) (fun _ => rfl) _ fun hg => hf ?_
      rintro g' hg'
      obtain rfl := Option.some.inj hg'
      exact hg

theorem discloses_ensureEventLinkOpt (hW : Divided W userId) {owner : Uuid → Db → Option Uuid}
    {key : Uuid → Key} (howner : ∀ id, owner id = ownerAt (key id))
    (htotal : ∀ id r, (ownerOf (key id) r).isSome) (field : String) {link : Option Uuid}
    (hf : (∀ id ∈ link, W.shared (key id)) →
      W.Discloses status (f ()) (firstUnowned userId ks)) :
    W.Discloses status ((ensureEventLinkOpt owner field userId link).bind f)
      (firstUnowned userId (link.toList.map key ++ ks)) := by
  cases link with
  | none => exact hf fun id hid => (nomatch hid)
  | some id =>
      refine discloses_link hW (howner id) (htotal id) (status_notFound_ne _).symm fun hid => hf ?_
      rintro id' hid'
      obtain rfl := Option.some.inj hid'
      exact hid

end Links

section Owned

variable {W : Frame Row} {userId : Uuid}

theorem ownCategory_reaches (hW : Divided W userId) (id : Uuid) :
    W.Reaches (Key.category id) fun r : CategoryRow => r.userId = userId :=
  hW.reaches_of_owner fun _ hr => congrArg some (of_decide_eq_true hr)

theorem agrees_ensureCategory (hW : Divided W userId) (kind : CategoryKind) (msg : String)
    (categoryId : Option Uuid) :
    W.Agrees (ensureCategory kind msg categoryId userId) fun _ =>
      ∀ c ∈ categoryId, W.shared (Key.category c) := by
  cases categoryId with
  | none => exact agrees_ret fun c hc => (nomatch hc)
  | some c =>
      have hreach := ownCategory_reaches hW c
      refine Agrees.bind (agrees_select (P := fun x => x = some kind → W.shared (Key.category c))
        fun s s' h => ⟨?_, fun hfound => ?_⟩) fun found hfound => ?_
      · exact congrArg (Option.map CategoryRow.kind) (h.filter_eq hreach)
      · obtain ⟨r, hr, -⟩ := Option.map_eq_some_iff.mp hfound
        obtain ⟨hr, hown⟩ := Option.filter_eq_some_iff.mp hr
        exact h.shared_left hreach hr hown
      · refine (agrees_failIf _ _).mono fun _ hc c' hc' => ?_
        obtain rfl := Option.some.inj hc'
        exact hfound (not_not.mp (of_decide_eq_false hc))

theorem agrees_ensureEventCategory (hW : Divided W userId) (categoryId : Option Uuid) :
    W.Agrees (ensureEventCategory userId categoryId) fun _ =>
      ∀ c ∈ categoryId, W.shared (Key.category c) := by
  cases categoryId with
  | none => exact agrees_ret fun c hc => (nomatch hc)
  | some c =>
      have hreach := ownCategory_reaches hW c
      refine (agrees_found hreach).mono fun _ hc c' hc' => ?_
      obtain rfl := Option.some.inj hc'
      exact hc

theorem agrees_ensureAccountOwnedOpt (hW : Divided W userId) (accountId : Option Uuid) :
    W.Agrees (ensureAccountOwnedOpt accountId userId) fun _ =>
      ∀ a ∈ accountId, W.shared (Key.account a) := by
  cases accountId with
  | none => exact agrees_ret fun a ha => (nomatch ha)
  | some a =>
      have hreach : W.Reaches (Key.account a) (ownAccount userId) :=
        hW.reaches_of_owner fun _ hr => congrArg some (of_decide_eq_true hr)
      refine (agrees_found hreach).mono fun _ ha a' ha' => ?_
      obtain rfl := Option.some.inj ha'
      exact ha

end Owned

section HabitLogs

variable {W : Frame Row} {userId : Uuid}

theorem logIdsWhere_reaches {p : HabitLogRow → Bool} (hp : ∀ id, W.Reaches (Key.habitLog id) p)
    (k : Key) : W.Reaches k fun r => ((fun
      | ⟨.habitLog id, (l : HabitLogRow)⟩ => if p l then some id else none
      | _ => none : ((k : Key) × Row k) → Option Uuid) ⟨k, r⟩).isSome := by
  intro r hr hstored
  cases k
  case habitLog id => exact hp id r (by simpa using hr) hstored
  all_goals cases hr

theorem agrees_insertLog (hW : Divided W userId) {row : HabitLogRow} (howner : row.userId = userId)
    (hhabit : W.shared (Key.habit row.habitId)) :
    W.Agrees (insertLog row) fun _ => True := by
  unfold insertLog
  refine Agrees.bind (agrees_lockSlot fun s s' h => ?_) fun taken _ => ?_
  · refine congrArg not (h.isEmpty_filterMap_eq (logIdsWhere_reaches fun id => ?_))
    exact hW.reaches_of_reference hhabit fun r hr => by simp_all [references]
  refine Agrees.bind (agrees_failIf _ _) fun _ _ => ?_
  refine Agrees.bind (agrees_freshId _) fun id hid => ?_
  refine Agrees.bind (agrees_insertRow (hW.fresh id (Key.habitLog id) rfl hid) ?_
    fun _ _ _ => rfl) fun _ _ => ?_
  · refine (hW.law_iff _ _).mpr ⟨congrArg some howner, fun k hk => ?_⟩
    obtain rfl := List.mem_singleton.mp hk
    exact hhabit
  refine Agrees.bind (agrees_foreignKey hhabit) fun _ _ => ?_
  exact agrees_ret trivial

theorem ownLog_reaches (hW : Divided W userId) (habitId : Uuid) (logDate : NaiveDate) (id : Uuid) :
    W.Reaches (Key.habitLog id) (ownLog habitId userId logDate) := by
  refine hW.reaches_of_owner fun r hr => ?_
  simp only [ownLog, Bool.and_eq_true, decide_eq_true_eq] at hr
  exact congrArg some hr.1.2

theorem logIdSql_eq (hW : Divided W userId) (habitId : Uuid) (logDate : NaiveDate) {s s' : Db}
    (h : W.Twin s s') : logIdSql habitId userId logDate s = logIdSql habitId userId logDate s' :=
  min?_congr (h.mem_filterMap_iff (logIdsWhere_reaches (ownLog_reaches hW habitId logDate)))

/-- The habit whose existence a request for a log asks about. -/
def logProbe (caller : Caller) (today : NaiveDate) : LogRequest → Db → Option Key
  | .create habitId body, s => do
      let _ ← (validateLogDateAt caller.parsers today body.logDate).toOption
      let _ ← (validateLogStatus body.status).toOption
      let _ ← (validateCount caller.parsers body.countValue).toOption
      let _ ← (validateOptionalText body.notes maxTextLen "notes").toOption
      firstUnowned caller.userId [Key.habit habitId] s
  | .patch habitId rawDate body, s => do
      let _ ← (validateLogPatch body).toOption
      let _ ← (validateLogDateAt caller.parsers today rawDate).toOption
      let _ ← (validateOpt validateLogStatus body.status).toOption
      let _ ← (validateCount caller.parsers body.countValue).toOption
      let _ ← (validateOptionalText body.notes maxTextLen "notes").toOption
      firstUnowned caller.userId [Key.habit habitId] s
  | .delete habitId rawDate, s => do
      let _ ← (validateLogDateAt caller.parsers today rawDate).toOption
      firstUnowned caller.userId [Key.habit habitId] s

variable {caller : Caller} {today : NaiveDate} {habitId : Uuid}

theorem discloses_createLog (hW : Divided W caller.userId) (body : CreateLogRequest) :
    W.Discloses status (createLogHandler caller today habitId body)
      (logProbe caller today (.create habitId body)) := by
  unfold createLogHandler logProbe
  refine discloses_ofExcept fun logDate _ => ?_
  refine discloses_ofExcept fun status _ => ?_
  refine discloses_ofExcept fun count _ => ?_
  refine discloses_ofExcept fun _ _ => ?_
  refine discloses_ensureWritable hW (habitOwner_eq habitId) (fun _ => rfl) _ fun hhabit => ?_
  refine Agrees.discloses (P := fun _ => True) ?_
  refine Agrees.bind agrees_beginTx fun _ _ => ?_
  refine Agrees.bind (agrees_insertLog hW rfl hhabit) fun stored _ => ?_
  refine Agrees.bind agrees_commitTx fun _ _ => ?_
  exact agrees_ret trivial

theorem discloses_patchLog (hW : Divided W caller.userId) (rawDate : String)
    (body : PatchLogRequest) :
    W.Discloses status (patchLogHandler caller today habitId rawDate body)
      (logProbe caller today (.patch habitId rawDate body)) := by
  unfold patchLogHandler logProbe
  refine discloses_ofExcept fun _ _ => ?_
  refine discloses_ofExcept fun logDate _ => ?_
  refine discloses_ofExcept fun status _ => ?_
  refine discloses_ofExcept fun count _ => ?_
  refine discloses_ofExcept fun _ _ => ?_
  refine discloses_ensureWritable hW (habitOwner_eq habitId) (fun _ => rfl) _ fun hhabit => ?_
  refine Agrees.discloses (P := fun _ => True) ?_
  refine Agrees.bind agrees_beginTx fun _ _ => ?_
  refine Agrees.bind (agrees_select (P := fun _ => True) fun s s' h =>
    ⟨logIdSql_eq hW habitId logDate h, trivial⟩) fun found _ => ?_
  refine Agrees.bind (agrees_ofOption _ _) fun id _ => ?_
  refine Agrees.bind (agrees_fetchOr (P := fun _ => True)
    (agrees_updateRow (ownLog_reaches hW habitId logDate id) (fun _ _ => trivial)
      fun s s' r h hk hlaw hr => ⟨rfl, fun r' hr' => ⟨?_, fun _ _ => trivial⟩⟩)) fun row _ => ?_
  · obtain rfl := Except.ok.inj hr'
    have hold := (hW.law_iff _ r).mp hlaw
    exact (hW.law_iff _ _).mpr hold
  refine Agrees.bind agrees_commitTx fun _ _ => ?_
  exact agrees_ret trivial

theorem discloses_deleteLog (hW : Divided W caller.userId) (rawDate : String) :
    W.Discloses status (deleteLogHandler caller today habitId rawDate)
      (logProbe caller today (.delete habitId rawDate)) := by
  unfold deleteLogHandler logProbe
  refine discloses_ofExcept fun logDate _ => ?_
  refine discloses_ensureWritable hW (habitOwner_eq habitId) (fun _ => rfl) _ fun hhabit => ?_
  refine Agrees.discloses (P := fun _ => True) ?_
  refine Agrees.bind agrees_beginTx fun _ _ => ?_
  refine Agrees.bind (P := fun _ => True) ?_ fun _ _ => agrees_commitTx
  refine Agrees.bind (agrees_select (P := fun _ => True) fun s s' h =>
    ⟨logIdSql_eq hW habitId logDate h, trivial⟩) fun found _ => ?_
  cases found with
  | none => exact agrees_ret trivial
  | some id =>
      refine Agrees.bind (agrees_deleteRow (P := fun _ => True)
        (ownLog_reaches hW habitId logDate id) trivial fun _ _ _ _ => trivial) fun _ _ => ?_
      exact agrees_ret trivial

theorem discloses_serveLog (hW : Divided W caller.userId) (req : LogRequest) :
    W.Discloses status (serveLog caller today req) (logProbe caller today req) := by
  cases req with
  | create habitId body =>
      rw [serveLog]
      exact (discloses_createLog hW body).map _
  | patch habitId rawDate body =>
      rw [serveLog]
      exact (discloses_patchLog hW rawDate body).map _
  | delete habitId rawDate =>
      rw [serveLog]
      exact (discloses_deleteLog hW rawDate).map _

end HabitLogs

section Tasks

variable {W : Frame Row} {userId : Uuid} {toErr : SqlState → AppError} {now : Timestamp}

theorem countTasks_eq (hW : Divided W userId) {g : Uuid} (hg : W.shared (Key.goal g))
    {p : TaskRow → Bool} (hp : ∀ t, p t = true → t.goalId = some g) {s s' : Db}
    (h : W.Twin s s') : countTasks p s = countTasks p s' := by
  refine h.total_eq (p := fun k r => decide (isTask p k r ≠ 0)) (fun k => ?_) fun k r hr => ?_
  · refine hW.reaches_of_reference hg fun r hr => ?_
    cases k
    case task id =>
      have hpr : p r = true := by
        by_contra hpr
        simp [isTask, hpr] at hr
      simp [references, hp r hpr]
    all_goals simp [isTask] at hr
  · exact not_not.mp (of_decide_eq_false hr)

theorem goalProgress_eq (hW : Divided W userId) {g : Uuid} (hg : W.shared (Key.goal g))
    {s s' : Db} (h : W.Twin s s') : goalProgress g s = goalProgress g s' := by
  rw [goalProgress, goalProgress, countTasks_eq hW hg (fun t ht => ?_) h,
    countTasks_eq hW hg (fun t ht => ?_) h]
  · exact of_decide_eq_true ht
  · rw [Bool.and_eq_true] at ht
    exact of_decide_eq_true ht.1

theorem agrees_recalcGoalProgress (hW : Divided W userId) {goals : List Uuid}
    (hgoals : ∀ g ∈ goals, W.shared (Key.goal g)) :
    W.Agrees (recalcGoalProgress toErr now goals) fun _ => True := by
  induction goals with
  | nil => exact agrees_ret trivial
  | cons g goals ih =>
      have hg := hgoals g List.mem_cons_self
      refine Agrees.bind (agrees_updateRow (P := fun _ => True) (fun _ _ _ => hg) trivial
        fun s s' r h _ hlaw _ => ⟨?_, fun r' hr' => ⟨?_, trivial⟩⟩) fun _ _ =>
        ih fun g' hg' => hgoals g' (List.mem_cons_of_mem g hg')
      · rw [goalProgress_eq hW hg h]
      · obtain rfl := Except.ok.inj hr'
        have hold := (hW.law_iff _ r).mp hlaw
        exact (hW.law_iff _ _).mpr hold

theorem agrees_newSortOrder (hW : Divided W userId) (sortOrder : Option Int) :
    W.Agrees (newSortOrder userId sortOrder) fun _ => True := by
  cases sortOrder with
  | some n => exact agrees_ret trivial
  | none =>
      refine Agrees.bind (agrees_select (P := fun _ => True) fun s s' h => ⟨?_, trivial⟩)
        fun next _ => (agrees_ofExcept _).mono fun _ _ => trivial
      have hmax : (sortOrders userId s).max? = (sortOrders userId s').max? := by
        refine max?_congr (h.mem_filterMap_iff fun k => hW.reaches_of_owner fun r hr => ?_)
        cases k
        case task id => simpa [ownerOf] using hr
        all_goals cases hr
      rw [nextSortOrder, nextSortOrder, hmax]

theorem law_task (hW : Divided W userId) {id : Uuid} {t : TaskRow} :
    W.law (Key.task id) t ↔ t.userId = userId ∧ ∀ g ∈ t.goalId, W.shared (Key.goal g) := by
  refine (hW.law_iff _ _).trans ?_
  simp [ownerOf, references]

theorem agrees_insertTask (hW : Divided W userId) {row : TaskRow} (howner : row.userId = userId)
    (hgoal : ∀ g ∈ row.goalId, W.shared (Key.goal g))
    (hcategory : ∀ c ∈ row.categoryId, W.shared (Key.category c)) :
    W.Agrees (insertTask now row) fun _ => True := by
  obtain ⟨huser, hgoals, hcategories⟩ := links_setTaskCompletedAt now none row
  unfold insertTask
  refine Agrees.bind (agrees_freshId _) fun id hid => ?_
  refine Agrees.bind (agrees_insertRow (hW.fresh id (Key.task id) rfl hid) ?_
    fun _ _ _ => rfl) fun _ _ => ?_
  · exact (law_task hW).mpr ⟨huser.trans howner, by rwa [hgoals]⟩
  refine Agrees.bind (agrees_foreignKeyOpt (by rwa [hgoals])) fun _ _ => ?_
  refine Agrees.bind (agrees_foreignKeyOpt (by rwa [hcategories])) fun _ _ => ?_
  refine Agrees.bind (agrees_recalcGoalProgress hW ?_) fun _ _ => agrees_ret trivial
  simpa [hgoals] using hgoal

theorem links_merge (patch : TaskPatch) (now : Timestamp) (old : TaskRow) :
    (patch.merge now old).userId = old.userId ∧
      (patch.merge now old).goalId = patch.goalId.or old.goalId ∧
        (patch.merge now old).categoryId = patch.categoryId.or old.categoryId :=
  links_setTaskCompletedAt now (some old.status) _

theorem ownTask_reaches (hW : Divided W userId) (id : Uuid) :
    W.Reaches (Key.task id) (ownTask userId) :=
  hW.reaches_of_owner fun _ hr => congrArg some (of_decide_eq_true hr)

theorem agrees_updateTask (hW : Divided W userId) {newFirst : Bool} {id : Uuid} {patch : TaskPatch}
    (hgoal : ∀ g ∈ patch.goalId, W.shared (Key.goal g))
    (hcategory : ∀ c ∈ patch.categoryId, W.shared (Key.category c)) :
    W.Agrees (updateTask newFirst id userId patch now) fun _ => True := by
  have hreach := ownTask_reaches hW id
  unfold updateTask
  refine Agrees.bind (agrees_fetchOr (P := W.law (Key.task id))
    (agrees_selectFor hreach (fun _ hb => (nomatch hb)) fun r _ hlaw _ b hb => ?_))
    fun old hold => ?_
  · obtain rfl := Option.some.inj hb
    exact hlaw
  obtain ⟨huser, holdGoal⟩ := (law_task hW).mp hold
  obtain ⟨hnewUser, hnewGoal, hnewCategory⟩ := links_merge patch now old
  dsimp only
  generalize patch.merge now old = new at hnewUser hnewGoal hnewCategory ⊢
  have hgoals : ∀ g ∈ new.goalId, W.shared (Key.goal g) := by
    intro g hg
    rw [hnewGoal] at hg
    rcases Option.or_eq_some_iff.mp hg with h | ⟨-, h⟩
    · exact hgoal g h
    · exact holdGoal g h
  have hcategories : old.categoryId ≠ new.categoryId →
      ∀ c ∈ new.categoryId, W.shared (Key.category c) := by
    intro hne c hc
    rw [hnewCategory] at hne hc
    rcases Option.or_eq_some_iff.mp hc with h | ⟨h, -⟩
    · exact hcategory c h
    · exact absurd (by rw [h, Option.none_or]) hne
  refine Agrees.bind (agrees_updateRow (P := fun _ => True) hreach trivial
    fun s s' r _ _ _ _ => ⟨rfl, fun r' hr' => ⟨?_, trivial⟩⟩) fun _ _ => ?_
  · obtain rfl := Except.ok.inj hr'
    exact (law_task hW).mpr ⟨hnewUser.trans huser, hgoals⟩
  refine Agrees.bind (agrees_whenever fun _ => agrees_foreignKeyOpt hgoals) fun _ _ => ?_
  refine Agrees.bind (agrees_whenever fun h => agrees_foreignKeyOpt (hcategories h)) fun _ _ => ?_
  refine Agrees.bind (agrees_whenever fun _ => agrees_recalcGoalProgress hW fun g hg => ?_)
    fun _ _ => agrees_ret trivial
  have hmem : g ∈ old.goalId.toList ∨ g ∈ new.goalId.toList := by
    unfold distinctGoals at hg
    split at hg
    · exact Or.inr hg
    split at hg
    · exact (List.mem_append.mp hg).symm
    · exact List.mem_append.mp hg
  rcases hmem with h | h
  · exact holdGoal g (Option.mem_toList.mp h)
  · exact hgoals g (Option.mem_toList.mp h)

def taskProbe (caller : Caller) : TaskRequest → Db → Option Key
  | .create body, s => do
      let _ ← (validateRequiredText body.title maxTitleLen "title").toOption
      let _ ← (validateTaskPriorityOpt body.priority).toOption
      let _ ← (validateTaskStatusOpt body.status).toOption
      let _ ← (validateOpt (validateCalendarDate caller.parsers · "due_date")
        body.dueDate).toOption
      firstUnowned caller.userId (body.goalId.toList.map Key.goal) s
  | .patch _ id body, s => do
      let _ ← (validateTaskPatch body).toOption
      let _ ← getTaskSql id caller.userId s
      let _ ← (validateOpt (validateRequiredText · maxTitleLen "title") body.title).toOption
      let _ ← (validateOpt validateTaskPriority body.priority).toOption
      let _ ← (validateOpt validateTaskStatus body.status).toOption
      let _ ← (validateOpt (validateCalendarDate caller.parsers · "due_date")
        body.dueDate).toOption
      firstUnowned caller.userId (body.goalId.toList.map Key.goal) s
  | .delete _, _ => none

variable {caller : Caller}

theorem discloses_createTask (hW : Divided W caller.userId) (body : CreateTaskRequest) :
    W.Discloses status (createTaskHandler caller body) (taskProbe caller (.create body)) := by
  unfold createTaskHandler taskProbe
  refine discloses_ofExcept fun title _ => ?_
  refine discloses_ofExcept fun priority _ => ?_
  refine discloses_ofExcept fun status _ => ?_
  refine discloses_ofExcept fun due _ => ?_
  refine discloses_ensureTaskGoal hW fun hgoal => ?_
  refine Agrees.discloses (P := fun _ => True) ?_
  refine Agrees.bind (agrees_ensureCategory hW _ _ _) fun _ hcategory => ?_
  refine Agrees.bind (agrees_ofExcept _) fun _ _ => ?_
  refine Agrees.bind agrees_beginTx fun _ _ => ?_
  refine Agrees.bind (agrees_newSortOrder hW _) fun sortOrder _ => ?_
  refine Agrees.bind (agrees_insertTask hW rfl hgoal hcategory) fun stored _ => ?_
  refine Agrees.bind agrees_commitTx fun _ _ => ?_
  exact agrees_ret trivial

theorem discloses_patchTask (hW : Divided W caller.userId) (newFirst : Bool) (id : Uuid)
    (body : PatchTaskRequest) :
    W.Discloses status (patchTaskHandler caller newFirst id body)
      (taskProbe caller (.patch newFirst id body)) := by
  have hreach := ownTask_reaches hW id
  unfold patchTaskHandler taskProbe
  refine discloses_ofExcept fun _ _ => ?_
  refine discloses_fetch (P := fun _ => True) (fun s s' h => ⟨h.filter_eq hreach,
    fun _ _ => trivial⟩) fun _ _ => ?_
  refine discloses_ofExcept fun title _ => ?_
  refine discloses_ofExcept fun priority _ => ?_
  refine discloses_ofExcept fun status _ => ?_
  refine discloses_ofExcept fun due _ => ?_
  refine discloses_ensureTaskGoal hW fun hgoal => ?_
  refine Agrees.discloses (P := fun _ => True) ?_
  refine Agrees.bind (agrees_ensureCategory hW _ _ _) fun _ hcategory => ?_
  refine Agrees.bind (agrees_ofExcept _) fun _ _ => ?_
  refine Agrees.bind agrees_beginTx fun _ _ => ?_
  refine Agrees.bind (agrees_updateTask hW hgoal hcategory) fun row _ => ?_
  refine Agrees.bind agrees_commitTx fun _ _ => ?_
  exact agrees_ret trivial

theorem agrees_deleteTask (hW : Divided W caller.userId) (id : Uuid) :
    W.Agrees (deleteTaskHandler caller id) fun _ => True := by
  have hreach := ownTask_reaches hW id
  unfold deleteTaskHandler
  refine Agrees.bind agrees_beginTx fun _ _ => ?_
  refine Agrees.bind (agrees_fetchOr (P := fun r => W.shared (Key.task id) ∧ W.law (Key.task id) r)
    (agrees_deleteRow hreach (fun _ hb => (nomatch hb)) fun r hk hlaw _ b hb => ?_))
    fun old hold => ?_
  · obtain rfl := Option.some.inj hb
    exact ⟨hk, hlaw⟩
  obtain ⟨hk, hlaw⟩ := hold
  refine Agrees.bind (agrees_updateWhere internal (fun k r => ?_) (fun k => ?_) fun k r hr hp => ?_)
    fun _ _ => ?_
  · cases k <;> rfl
  · refine hW.reaches_of_reference hk fun r hr => ?_
    cases k
    case event e =>
      have href : r.taskId = some id := of_decide_eq_true hr
      simp [references, href]
    all_goals simp [taskRef] at hr
  · cases k
    case event e =>
      refine (hW.law_iff _ _).mpr ⟨((hW.law_iff _ r).mp hr).1, fun k' hk' => ?_⟩
      cases hk'
    all_goals simp [taskRef] at hp
  refine Agrees.bind (agrees_recalcGoalProgress hW fun g hg => ?_) fun _ _ => agrees_commitTx
  exact ((law_task hW).mp hlaw).2 g (Option.mem_toList.mp hg)

theorem discloses_serveTask (hW : Divided W caller.userId) (req : TaskRequest) :
    W.Discloses status (serveTask caller req) (taskProbe caller req) := by
  cases req with
  | create body =>
      rw [serveTask]
      exact (discloses_createTask hW body).map _
  | patch newFirst id body =>
      rw [serveTask]
      exact (discloses_patchTask hW newFirst id body).map _
  | delete id =>
      rw [serveTask]
      exact (agrees_deleteTask hW id).discloses.map _

end Tasks

section Assets

variable {W : Frame Row} {userId : Uuid} {now : Timestamp} {id : Uuid}

theorem ownAsset_reaches (hW : Divided W userId) (id : Uuid) :
    W.Reaches (Key.asset id) (ownAsset userId) := by
  refine hW.reaches_of_owner fun r hr => ?_
  simp only [ownAsset, Bool.and_eq_true, decide_eq_true_eq] at hr
  exact congrArg some hr.1

theorem law_asset (hW : Divided W userId) {a : AssetRow} :
    W.law (Key.asset id) a ↔ a.userId = userId := by
  refine (hW.law_iff _ _).trans ?_
  simp [ownerOf, references]

theorem mem_valuationsOf_iff (hW : Divided W userId) (hk : W.shared (Key.asset id)) {s s' : Db}
    (h : W.Twin s s') (v : ValuationRow) : v ∈ valuationsOf id s ↔ v ∈ valuationsOf id s' := by
  refine h.mem_filterMap_iff (fun k => hW.reaches_of_reference hk fun r hr => ?_) v
  cases k
  case valuation => simp_all [references]
  all_goals cases hr

/-- The asset, unless the user may write it. -/
def unwritableAsset (id userId : Uuid) (s : Db) : Option Key :=
  if assetOwnershipSql id userId s then none else some (Key.asset id)

theorem discloses_ensureAssetWritable (hW : Divided W userId) {α : Type} {f : Unit → Handler α}
    (hf : W.shared (Key.asset id) → W.Discloses status (f ()) fun _ => none) :
    W.Discloses status ((ensureAssetWritable id userId).bind f) (unwritableAsset id userId) := by
  have hreach := ownAsset_reaches hW id
  refine discloses_gate (k := Key.asset id) (P := W.shared (Key.asset id))
    (status_notFound_ne _) (fun s s' h => ⟨h.found_eq hreach, fun hs => ?_⟩) hf
  obtain ⟨r, hr, hown⟩ : ∃ r, s.lookup (Key.asset id) = some r ∧ ownAsset userId r = true :=
    found_eq_true.mp hs
  exact h.shared_left hreach hr hown

theorem discloses_lockAsset (hW : Divided W userId) {α : Type} {f : Unit → Handler α}
    (hf : W.shared (Key.asset id) → W.Discloses status (f ()) fun _ => none) :
    W.Discloses status ((lockAsset id userId).bind f) (unwritableAsset id userId) :=
  discloses_lockGate internal (status_notFound_ne _) (ownAsset_reaches hW id) hf

theorem agrees_lockAsset (hW : Divided W userId) (hk : W.shared (Key.asset id)) :
    W.Agrees (lockAsset id userId) fun _ => True := by
  refine Agrees.bind (agrees_selectFor (P := fun _ => True) (ownAsset_reaches hW id) trivial
    fun _ _ _ _ => trivial) fun locked _ => agrees_whenever fun _ => ?_
  refine Agrees.bind (agrees_select (P := fun _ => True) fun s s' h => ⟨?_, trivial⟩)
    fun there _ => ?_
  · exact congrArg Option.isSome (h.same _ hk)
  refine Agrees.bind (agrees_failIf _ _) fun _ _ => ?_
  exact (agrees_failIf _ _).mono fun _ _ => trivial

theorem agrees_guardCurrency (hW : Divided W userId) (hk : W.shared (Key.asset id))
    (currency : Option String) : W.Agrees (guardCurrency id userId currency) fun _ => True := by
  cases currency with
  | none => exact agrees_ret trivial
  | some currency =>
      refine Agrees.bind (agrees_select (P := fun _ => True) fun s s' h => ⟨?_, trivial⟩)
        fun stored? _ => ?_
      · rw [assetCurrencySql, assetCurrencySql, Db.asset, Db.asset, h.same _ hk]
      refine Agrees.bind (agrees_ofOption _ _) fun stored _ => agrees_whenever fun _ => ?_
      refine Agrees.bind (agrees_select (P := fun _ => True) fun s s' h => ⟨?_, trivial⟩)
        fun hasValuations _ => (agrees_failIf _ _).mono fun _ _ => trivial
      refine congrArg not (Bool.eq_iff_iff.mpr ?_)
      simp only [List.isEmpty_iff, List.eq_nil_iff_forall_not_mem, mem_valuationsOf_iff hW hk h]

theorem agrees_guardOrder (hW : Divided W userId) (hk : W.shared (Key.asset id))
    (recordedOn : NaiveDate) : W.Agrees (guardOrder id recordedOn) fun _ => True := by
  refine Agrees.bind (agrees_select (P := fun _ => True) fun s s' h => ⟨?_, trivial⟩)
    fun latest _ => (agrees_failIf _ _).mono fun _ _ => trivial
  refine max?_congr fun d => ?_
  simp only [List.mem_map, mem_valuationsOf_iff hW hk h]

theorem agrees_insertValuation (hW : Divided W userId) {row : ValuationRow}
    (howner : row.userId = userId) (hk : W.shared (Key.asset row.assetId)) :
    W.Agrees (insertValuation now row) fun _ => True := by
  unfold insertValuation
  refine Agrees.bind (agrees_lockSlot fun s s' h => ?_) fun taken _ => ?_
  · apply Bool.eq_iff_iff.mpr
    simp only [valuedOn, List.any_eq_true, mem_valuationsOf_iff hW hk h]
  refine Agrees.bind (agrees_failIf _ _) fun _ _ => ?_
  refine Agrees.bind (agrees_freshId _) fun id hid => ?_
  refine Agrees.bind (agrees_insertRow (hW.fresh id (Key.valuation id) rfl hid) ?_
    fun _ _ _ => rfl) fun _ _ => ?_
  · refine (hW.law_iff _ _).mpr ⟨congrArg some howner, fun k hk' => ?_⟩
    obtain rfl := List.mem_singleton.mp hk'
    exact hk
  refine Agrees.bind (agrees_foreignKey hk) fun _ _ => ?_
  refine Agrees.bind (agrees_updateRow (P := fun _ => True) (fun _ _ _ => hk) trivial
    fun s s' r _ _ hlaw _ => ⟨rfl, fun r' hr' => ⟨?_, trivial⟩⟩) fun _ _ => agrees_ret trivial
  obtain rfl := Except.ok.inj hr'
  have howner : r.userId = _ := (law_asset hW).mp hlaw
  exact (law_asset hW).mpr howner

theorem agrees_patchAsset (hW : Divided W userId) {patch : AssetPatch}
    (haccount : ∀ a ∈ patch.accountId, W.shared (Key.account a)) :
    W.Agrees (patchAsset id userId patch now) fun _ => True := by
  have hreach := ownAsset_reaches hW id
  unfold patchAsset
  refine Agrees.bind (agrees_fetchOr (P := fun a : AssetRow => a.userId = userId)
    (agrees_selectFor hreach (fun _ hb => (nomatch hb)) fun r _ hlaw _ b hb => ?_))
    fun old hold => ?_
  · obtain rfl := Option.some.inj hb
    exact (law_asset hW).mp hlaw
  refine Agrees.bind (agrees_updateRow (P := fun _ => True) hreach trivial
    fun s s' r _ _ _ _ => ⟨rfl, fun r' hr' => ⟨?_, trivial⟩⟩) fun _ _ => ?_
  · obtain rfl := Except.ok.inj hr'
    exact (law_asset hW).mpr hold
  refine Agrees.bind (agrees_whenever fun hne => agrees_foreignKeyOpt fun a ha => ?_)
    fun _ _ => agrees_ret trivial
  rcases Option.or_eq_some_iff.mp ha with h | ⟨h, -⟩
  · exact haccount a h
  · exact absurd (by simp only [AssetPatch.apply, h, Option.none_or]) hne

def assetProbe (caller : Caller) : AssetRequest → Db → Option Key
  | .create _, _ => none
  | .patch id body, s => do
      let _ ← (validateAssetPatch body).toOption
      unwritableAsset id caller.userId s
  | .archive _, _ => none
  | .value assetId body, s => do
      let _ ← (validateValue caller.parsers body.value).toOption
      let _ ← (validateCalendarDate caller.parsers body.recordedOn "recorded_on").toOption
      let _ ← (validateOptionalText body.notes maxTextLen "notes").toOption
      unwritableAsset assetId caller.userId s

variable {caller : Caller} {toUppercase : String → String}

theorem agrees_createAsset (hW : Divided W caller.userId) (body : CreateAssetRequest) :
    W.Agrees (createAssetHandler toUppercase caller body) fun _ => True := by
  unfold createAssetHandler
  refine Agrees.bind (agrees_ofExcept _) fun name _ => ?_
  refine Agrees.bind (agrees_ofExcept _) fun category _ => ?_
  refine Agrees.bind (agrees_ensureAccountOwnedOpt hW _) fun _ haccount => ?_
  refine Agrees.bind (agrees_ofExcept _) fun currency _ => ?_
  refine Agrees.bind (agrees_ofExcept _) fun acquiredOn _ => ?_
  refine Agrees.bind (agrees_ofExcept _) fun _ _ => ?_
  refine Agrees.bind agrees_beginTx fun _ _ => ?_
  refine Agrees.bind (agrees_freshId _) fun id hid => ?_
  refine Agrees.bind (agrees_insertRow (hW.fresh id (Key.asset id) rfl hid)
    ((law_asset hW).mpr rfl) fun _ _ _ => rfl) fun _ _ => ?_
  refine Agrees.bind (agrees_foreignKeyOpt haccount) fun _ _ => ?_
  refine Agrees.bind agrees_commitTx fun _ _ => ?_
  exact agrees_ret trivial

theorem discloses_patchAsset (hW : Divided W caller.userId) (body : PatchAssetRequest) :
    W.Discloses status (patchAssetHandler toUppercase caller id body)
      (assetProbe caller (.patch id body)) := by
  unfold patchAssetHandler assetProbe
  refine discloses_ofExcept fun _ _ => ?_
  refine discloses_ensureAssetWritable hW fun hk => ?_
  refine Agrees.discloses (P := fun _ => True) ?_
  refine Agrees.bind agrees_beginTx fun _ _ => ?_
  refine Agrees.bind (agrees_lockAsset hW hk) fun _ _ => ?_
  refine Agrees.bind (agrees_ofExcept _) fun name _ => ?_
  refine Agrees.bind (agrees_ofExcept _) fun category _ => ?_
  refine Agrees.bind (agrees_ensureAccountOwnedOpt hW _) fun _ haccount => ?_
  refine Agrees.bind (agrees_ofExcept _) fun currency _ => ?_
  refine Agrees.bind (agrees_guardCurrency hW hk _) fun _ _ => ?_
  refine Agrees.bind (agrees_ofExcept _) fun acquiredOn _ => ?_
  refine Agrees.bind (agrees_ofExcept _) fun _ _ => ?_
  refine Agrees.bind (agrees_patchAsset hW haccount) fun row _ => ?_
  refine Agrees.bind agrees_commitTx fun _ _ => ?_
  exact agrees_ret trivial

theorem agrees_deleteAsset (hW : Divided W caller.userId) :
    W.Agrees (deleteAssetHandler caller id) fun _ => True := by
  unfold deleteAssetHandler
  refine Agrees.bind agrees_beginTx fun _ _ => ?_
  refine Agrees.bind (agrees_fetchOr (P := fun _ => True) (agrees_updateRow
    (ownAsset_reaches hW id) (fun _ _ => trivial) fun s s' r _ _ hlaw _ =>
      ⟨rfl, fun r' hr' => ⟨?_, fun _ _ => trivial⟩⟩)) fun _ _ => agrees_commitTx
  obtain rfl := Except.ok.inj hr'
  have howner : r.userId = _ := (law_asset hW).mp hlaw
  exact (law_asset hW).mpr howner

theorem discloses_createValuation (hW : Divided W caller.userId) (body : CreateValuationRequest) :
    W.Discloses status (createValuationHandler caller id body)
      (assetProbe caller (.value id body)) := by
  unfold createValuationHandler assetProbe
  refine discloses_ofExcept fun value _ => ?_
  refine discloses_ofExcept fun recordedOn _ => ?_
  refine discloses_ofExcept fun _ _ => ?_
  refine discloses_beginTx ?_
  refine discloses_lockAsset hW fun hk => ?_
  refine Agrees.discloses (P := fun _ => True) ?_
  refine Agrees.bind (agrees_guardOrder hW hk recordedOn) fun _ _ => ?_
  refine Agrees.bind (agrees_insertValuation hW rfl hk) fun valuation _ => ?_
  refine Agrees.bind agrees_commitTx fun _ _ => ?_
  exact agrees_ret trivial

theorem discloses_serveAsset (hW : Divided W caller.userId) (req : AssetRequest) :
    W.Discloses status (serveAsset toUppercase caller req) (assetProbe caller req) := by
  cases req with
  | create body =>
      rw [serveAsset]
      exact (agrees_createAsset hW body).discloses.map _
  | patch id body =>
      rw [serveAsset]
      exact (discloses_patchAsset hW body).map _
  | archive id =>
      rw [serveAsset]
      exact (agrees_deleteAsset hW).discloses.map _
  | value assetId body =>
      rw [serveAsset]
      exact (discloses_createValuation hW body).map _

end Assets

section Events

variable {W : Frame Row} {userId : Uuid} {now : Timestamp} {id : Uuid} {links : EventLinks}

/-- The linked rows whose owners are looked up, in the order of the lookups. -/
def linkedRows (links : EventLinks) : List Key :=
  links.habitId.toList.map Key.habit ++ (links.goalId.toList.map Key.goal ++
    (links.taskId.toList.map Key.task ++ links.subscriptionId.toList.map Key.subscription))

structure LinksShared (W : Frame Row) (links : EventLinks) : Prop where
  habit : ∀ id ∈ links.habitId, W.shared (Key.habit id)
  goal : ∀ id ∈ links.goalId, W.shared (Key.goal id)
  task : ∀ id ∈ links.taskId, W.shared (Key.task id)
  subscription : ∀ id ∈ links.subscriptionId, W.shared (Key.subscription id)
  category : ∀ id ∈ links.categoryId, W.shared (Key.category id)

theorem discloses_ensureEventLinks (hW : Divided W userId) {α : Type} {f : Unit → Handler α}
    {P : α → Prop} (hf : LinksShared W links → W.Agrees (f ()) P) :
    W.Discloses status ((ensureEventLinks userId links).bind f)
      (firstUnowned userId (linkedRows links)) := by
  unfold ensureEventLinks linkedRows
  rw [← List.append_nil (links.subscriptionId.toList.map Key.subscription)]
  simp only [Prog.bind_eq, Prog.bind_assoc]
  refine discloses_ensureEventLinkOpt hW habitOwner_eq (fun _ _ => rfl) _ fun hhabit => ?_
  refine discloses_ensureEventLinkOpt hW goalOwner_eq (fun _ _ => rfl) _ fun hgoal => ?_
  refine discloses_ensureEventLinkOpt hW taskOwner_eq (fun _ _ => rfl) _ fun htask => ?_
  refine discloses_ensureEventLinkOpt hW subscriptionOwner_eq (fun _ _ => rfl) _
    fun hsubscription => ?_
  refine Agrees.discloses (P := P)
    (Agrees.bind (agrees_ensureEventCategory hW _) fun _ hcategory => ?_)
  exact hf ⟨hhabit, hgoal, htask, hsubscription, hcategory⟩

theorem law_event (hW : Divided W userId) {e : EventRow} :
    W.law (Key.event id) e ↔ e.userId = userId ∧ ∀ t ∈ e.taskId, W.shared (Key.task t) := by
  refine (hW.law_iff _ _).trans ?_
  simp [ownerOf, references]

theorem ownEvent_reaches (hW : Divided W userId) (id : Uuid) :
    W.Reaches (Key.event id) (ownEvent userId) :=
  hW.reaches_of_owner fun _ hr => congrArg some (of_decide_eq_true hr)

theorem agrees_insertEvent (hW : Divided W userId) {row : EventRow} (howner : row.userId = userId)
    (hlinks : LinksShared W
      ⟨row.habitId, row.goalId, row.taskId, row.subscriptionId, row.categoryId⟩) :
    W.Agrees (insertEvent row) fun _ => True := by
  unfold insertEvent
  refine Agrees.bind (agrees_freshId _) fun id hid => ?_
  refine Agrees.bind (agrees_insertRow (hW.fresh id (Key.event id) rfl hid)
    ((law_event hW).mpr ⟨howner, hlinks.task⟩) fun _ _ _ => rfl) fun _ _ => ?_
  refine Agrees.bind (agrees_foreignKeyOpt hlinks.habit) fun _ _ => ?_
  refine Agrees.bind (agrees_foreignKeyOpt hlinks.goal) fun _ _ => ?_
  refine Agrees.bind (agrees_foreignKeyOpt hlinks.task) fun _ _ => ?_
  refine Agrees.bind (agrees_foreignKeyOpt hlinks.subscription) fun _ _ => ?_
  refine Agrees.bind (agrees_foreignKeyOpt hlinks.category) fun _ _ => ?_
  exact agrees_ret trivial

theorem shared_of_changed {key : Uuid → Key} {link old : Option Uuid}
    (h : ∀ id ∈ link, W.shared (key id)) (hne : old ≠ link.or old) :
    ∀ id ∈ link.or old, W.shared (key id) := by
  intro id hid
  rcases Option.or_eq_some_iff.mp hid with hlink | ⟨hlink, -⟩
  · exact h id hlink
  · exact absurd (by rw [hlink, Option.none_or]) hne

theorem agrees_updateEvent (hW : Divided W userId) {patch : EventPatch}
    (hlinks : LinksShared W patch.links) :
    W.Agrees (updateEvent id userId patch now) fun _ => True := by
  refine agrees_fetchUpdate (ownEvent_reaches hW id) (fun e hlaw _ => ?_) fun e hk hlaw _ => ?_
  · obtain ⟨howner, htask⟩ := (law_event hW).mp hlaw
    refine (law_event hW).mpr ⟨howner, fun t ht => ?_⟩
    rcases Option.or_eq_some_iff.mp ht with h | ⟨-, h⟩
    · exact hlinks.task t h
    · exact htask t h
  refine Agrees.bind (agrees_whenever fun h =>
    agrees_foreignKeyOpt (shared_of_changed hlinks.habit h)) fun _ _ => ?_
  refine Agrees.bind (agrees_whenever fun h =>
    agrees_foreignKeyOpt (shared_of_changed hlinks.goal h)) fun _ _ => ?_
  refine Agrees.bind (agrees_whenever fun h =>
    agrees_foreignKeyOpt (shared_of_changed hlinks.task h)) fun _ _ => ?_
  refine Agrees.bind (agrees_whenever fun h =>
    agrees_foreignKeyOpt (shared_of_changed hlinks.subscription h)) fun _ _ => ?_
  refine Agrees.bind (agrees_whenever fun h =>
    agrees_foreignKeyOpt (shared_of_changed hlinks.category h)) fun _ _ => ?_
  exact agrees_ret trivial

/-- The linked row whose existence a request for an event asks about. -/
def eventProbe (caller : Caller) : EventRequest → Db → Option Key
  | .create body, s => do
      let _ ← (validateRequiredText body.title maxTitleLen "title").toOption
      let _ ← (validateEventKindOpt body.kind).toOption
      let startsAt ← (validateEventDatetime caller.parsers body.startsAt "starts_at").toOption
      let endsAt ← (validateOpt (validateEventDatetime caller.parsers · "ends_at")
        body.endsAt).toOption
      let _ ← (validateEventRange startsAt endsAt).toOption
      let _ ← (validateOptionalText body.description maxTextLen "description").toOption
      let _ ← (validateOptionalText body.location maxLocationLen "location").toOption
      firstUnowned caller.userId (linkedRows body.links) s
  | .patch id body, s => do
      let _ ← (validateEventPatch body).toOption
      let current ← getEventSql id caller.userId s
      let _ ← (validateOpt (validateRequiredText · maxTitleLen "title") body.title).toOption
      let _ ← (validateOpt validateEventKind body.kind).toOption
      let startsAt ← (validateOpt (validateEventDatetime caller.parsers · "starts_at")
        body.startsAt).toOption
      let endsAt ← (validateOpt (validateEventDatetime caller.parsers · "ends_at")
        body.endsAt).toOption
      let _ ← (validateEventRange (startsAt.getD (.ofMicros current.startsAt))
        (endsAt.or (current.endsAt.map .ofMicros))).toOption
      let _ ← (validateOptionalText body.description maxTextLen "description").toOption
      let _ ← (validateOptionalText body.location maxLocationLen "location").toOption
      firstUnowned caller.userId (linkedRows body.links) s
  | .delete _, _ => none

variable {caller : Caller}

theorem discloses_createEvent (hW : Divided W caller.userId) (body : CreateEventRequest) :
    W.Discloses status (createEventHandler caller body) (eventProbe caller (.create body)) := by
  unfold createEventHandler eventProbe
  refine discloses_ofExcept fun title _ => ?_
  refine discloses_ofExcept fun kind _ => ?_
  refine discloses_ofExcept fun startsAt _ => ?_
  refine discloses_ofExcept fun endsAt _ => ?_
  refine discloses_ofExcept fun _ _ => ?_
  refine discloses_ofExcept fun _ _ => ?_
  refine discloses_ofExcept fun _ _ => ?_
  refine discloses_ensureEventLinks hW (P := fun _ => True) fun hlinks => ?_
  refine Agrees.bind agrees_beginTx fun _ _ => ?_
  refine Agrees.bind (agrees_insertEvent hW rfl hlinks) fun stored _ => ?_
  refine Agrees.bind agrees_commitTx fun _ _ => ?_
  exact agrees_ret trivial

theorem discloses_patchEvent (hW : Divided W caller.userId) (body : PatchEventRequest) :
    W.Discloses status (patchEventHandler caller id body) (eventProbe caller (.patch id body)) := by
  unfold patchEventHandler eventProbe
  refine discloses_ofExcept fun _ _ => ?_
  refine discloses_fetch (P := fun _ => True) (fun s s' h =>
    ⟨h.filter_eq (ownEvent_reaches hW id), fun _ _ => trivial⟩) fun current _ => ?_
  refine discloses_ofExcept fun title _ => ?_
  refine discloses_ofExcept fun kind _ => ?_
  refine discloses_ofExcept fun startsAt _ => ?_
  refine discloses_ofExcept fun endsAt _ => ?_
  refine discloses_ofExcept fun _ _ => ?_
  refine discloses_ofExcept fun _ _ => ?_
  refine discloses_ofExcept fun _ _ => ?_
  refine discloses_ensureEventLinks hW (P := fun _ => True) fun hlinks => ?_
  refine Agrees.bind agrees_beginTx fun _ _ => ?_
  refine Agrees.bind (agrees_updateEvent hW hlinks) fun row _ => ?_
  refine Agrees.bind agrees_commitTx fun _ _ => ?_
  exact agrees_ret trivial

theorem agrees_deleteEvent (hW : Divided W caller.userId) :
    W.Agrees (deleteEventHandler caller id) fun _ => True := by
  unfold deleteEventHandler
  refine Agrees.bind agrees_beginTx fun _ _ => ?_
  refine Agrees.bind (agrees_fetchOr (P := fun _ => True) (agrees_deleteRow
    (ownEvent_reaches hW id) (fun _ _ => trivial) fun _ _ _ _ _ _ => trivial)) fun _ _ => ?_
  exact agrees_commitTx

theorem discloses_serveEvent (hW : Divided W caller.userId) (req : EventRequest) :
    W.Discloses status (serveEvent caller req) (eventProbe caller req) := by
  cases req with
  | create body =>
      rw [serveEvent]
      exact (discloses_createEvent hW body).map _
  | patch id body =>
      rw [serveEvent]
      exact (discloses_patchEvent hW body).map _
  | delete id =>
      rw [serveEvent]
      exact (agrees_deleteEvent hW).discloses.map _

end Events

end PersonalDashboard.ExistenceProbes
