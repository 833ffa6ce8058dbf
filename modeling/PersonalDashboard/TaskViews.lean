import PersonalDashboard.TaskLaws
import PersonalDashboard.DateStrings

/-! The views of the tasks: the lists of the server and the classification of
the client, over every interleaving of task requests. -/

set_option autoImplicit false

namespace PersonalDashboard.TaskViews

open PersonalDashboard.Calendar
open PersonalDashboard.DateStrings
open PersonalDashboard.LedgerHandlers
open PersonalDashboard.ReadCommitted
open PersonalDashboard.RowInvariants
open PersonalDashboard.RowStatements
open PersonalDashboard.RowStore
open PersonalDashboard.Schema
open PersonalDashboard.TaskHandlers
open PersonalDashboard.TaskLaws
open PersonalDashboard.TextReaders
open PersonalDashboard.Validation

/-- The four views, in the order of `TASK_VIEWS`. -/
inductive TaskView where
  | today
  | upcoming
  | overdue
  | done
  deriving DecidableEq, Repr

def validateTaskView (raw : Option String) : Except AppError (Option TaskView) :=
  match raw with
  | none => .ok none
  | some raw =>
      match trim raw with
      | "" => .ok none
      | "today" => .ok (some .today)
      | "upcoming" => .ok (some .upcoming)
      | "overdue" => .ok (some .overdue)
      | "done" => .ok (some .done)
      | _ => .error (.validation "view must be one of: today, upcoming, overdue, done")

inductive ReadShape where
  | full
  | brief
  deriving DecidableEq, Repr

def parseReadShape (raw : Option String) : Except AppError ReadShape :=
  match raw with
  | none => .ok .full
  | some "brief" => .ok .brief
  | some other => .error (.validation s!"shape must be one of: brief (got `{other}`)")

/-- `priority::text`. -/
def priorityText : TaskPriority → String
  | .low => "low"
  | .medium => "medium"
  | .high => "high"
  | .urgent => "urgent"

/-- `status::text`. -/
def statusText : TaskStatus → String
  | .pending => "pending"
  | .inProgress => "in_progress"
  | .completed => "completed"
  | .cancelled => "cancelled"

structure TaskResponse where
  id : Uuid
  title : String
  description : Option String
  priority : String
  status : String
  dueDate : Option NaiveDate
  completedAt : Option Timestamp
  goalId : Option Uuid
  categoryId : Option Uuid
  reminderId : Option Uuid
  sortOrder : Int
  createdAt : Timestamp
  updatedAt : Timestamp

def TaskResponse.ofRow (t : Stored TaskRow) : TaskResponse where
  id := t.id
  title := t.row.title
  description := t.row.description
  priority := priorityText t.row.priority
  status := statusText t.row.status
  dueDate := t.row.dueDate
  completedAt := t.row.completedAt
  goalId := t.row.goalId
  categoryId := t.row.categoryId
  reminderId := t.row.reminderId
  sortOrder := t.row.sortOrder
  createdAt := t.row.createdAt
  updatedAt := t.row.updatedAt

structure TaskBriefResponse where
  id : Uuid
  title : String
  priority : String
  status : String
  dueDate : Option NaiveDate
  completedAt : Option Timestamp
  goalId : Option Uuid

def TaskBriefResponse.ofRow (t : Stored TaskRow) : TaskBriefResponse where
  id := t.id
  title := t.row.title
  priority := priorityText t.row.priority
  status := statusText t.row.status
  dueDate := t.row.dueDate
  completedAt := t.row.completedAt
  goalId := t.row.goalId

inductive TasksResponse where
  | full (tasks : List TaskResponse)
  | brief (tasks : List TaskBriefResponse)

/-- `FROM tasks WHERE user_id=$1 AND p ORDER BY sort_order ASC, created_at ASC`. -/
def tasksWhere (p : TaskRow → Bool) (userId : Uuid) (s : Db) : List (Stored TaskRow) :=
  (s.entries.filterMap fun
    | ⟨.task id, (t : TaskRow)⟩ => if ownTask userId t && p t then some ⟨id, t⟩ else none
    | _ => none).mergeSort fun a b =>
      a.row.sortOrder < b.row.sortOrder ||
        (a.row.sortOrder = b.row.sortOrder && a.row.createdAt ≤ b.row.createdAt)

def listTasksSql : Uuid → Db → List (Stored TaskRow) :=
  tasksWhere fun _ => true

def listTasksTodaySql (today : NaiveDate) : Uuid → Db → List (Stored TaskRow) :=
  tasksWhere fun t => t.dueDate.any (· = today) && t.completedAt.isNone

def listTasksUpcomingSql (today : NaiveDate) : Uuid → Db → List (Stored TaskRow) :=
  tasksWhere fun t => t.dueDate.any (today < ·) && t.completedAt.isNone

def listTasksOverdueSql (today : NaiveDate) : Uuid → Db → List (Stored TaskRow) :=
  tasksWhere fun t => t.dueDate.any (· < today) && t.completedAt.isNone

def listTasksDoneSql : Uuid → Db → List (Stored TaskRow) :=
  tasksWhere fun t => t.completedAt.isSome

def listTasksBriefSql : Uuid → Db → List (Stored TaskRow) :=
  tasksWhere fun _ => true

def listTasksTodayBriefSql (today : NaiveDate) : Uuid → Db → List (Stored TaskRow) :=
  tasksWhere fun t => t.dueDate.any (· = today) && t.completedAt.isNone

def listTasksUpcomingBriefSql (today : NaiveDate) : Uuid → Db → List (Stored TaskRow) :=
  tasksWhere fun t => t.dueDate.any (today < ·) && t.completedAt.isNone

def listTasksOverdueBriefSql (today : NaiveDate) : Uuid → Db → List (Stored TaskRow) :=
  tasksWhere fun t => t.dueDate.any (· < today) && t.completedAt.isNone

def listTasksDoneBriefSql : Uuid → Db → List (Stored TaskRow) :=
  tasksWhere fun t => t.completedAt.isSome

/-- The answer of a list request: the statement of its shape and view, on the
given day. -/
def listTasks (shape : ReadShape) (view : Option TaskView) (today : NaiveDate) (userId : Uuid)
    (s : Db) : TasksResponse :=
  match shape with
  | .brief =>
      let sql := match view with
        | some .today => listTasksTodayBriefSql today
        | some .upcoming => listTasksUpcomingBriefSql today
        | some .overdue => listTasksOverdueBriefSql today
        | some .done => listTasksDoneBriefSql
        | none => listTasksBriefSql
      .brief ((sql userId s).map TaskBriefResponse.ofRow)
  | .full =>
      let sql := match view with
        | some .today => listTasksTodaySql today
        | some .upcoming => listTasksUpcomingSql today
        | some .overdue => listTasksOverdueSql today
        | some .done => listTasksDoneSql
        | none => listTasksSql
      .full ((sql userId s).map TaskResponse.ofRow)

def listTasksHandler (caller : Caller) (today : NaiveDate) (view shape : Option String) :
    Handler TasksResponse := do
  let view ← ofExcept (validateTaskView view)
  let shape ← ofExcept (parseReadShape shape)
  select (listTasks shape view today caller.userId)

def codeUnits (l : List Char) : List Nat :=
  l.flatMap fun c =>
    if c.toNat < 0x10000 then [c.toNat]
    else [0xD800 + (c.toNat - 0x10000) / 0x400, 0xDC00 + (c.toNat - 0x10000) % 0x400]

/-- `s < t` on strings. -/
def jsLt (s t : String) : Bool :=
  codeUnits s.toList < codeUnits t.toList

/-- The white space and line terminators that `String.prototype.trim` strips. -/
def isJsWhiteSpace (c : Char) : Bool :=
  (9 ≤ c.toNat && c.toNat ≤ 13) || c.toNat = 0x20 || c.toNat = 0xA0 || c.toNat = 0x1680 ||
    (0x2000 ≤ c.toNat && c.toNat ≤ 0x200A) || c.toNat = 0x2028 || c.toNat = 0x2029 ||
    c.toNat = 0x202F || c.toNat = 0x205F || c.toNat = 0x3000 || c.toNat = 0xFEFF

def jsTrim (s : String) : String :=
  String.ofList
    ((s.toList.dropWhile isJsWhiteSpace).reverse.dropWhile isJsWhiteSpace).reverse

structure TaskDateViewInput where
  status : String
  dueDate : Option String
  completedAt : Option String

def taskDateView (task : TaskDateViewInput) (todayYmd : String) : TaskView :=
  if task.status = "completed" || task.completedAt.any (· ≠ "") then .done
  else
    let due := jsTrim (task.dueDate.getD "")
    if due = "" then .upcoming
    else if jsLt due todayYmd then .overdue
    else if due = todayYmd then .today
    else .upcoming

/-- The task as the client reads it from a full answer; `rfc3339` is the
server's rendering of a timestamp. -/
def TaskResponse.dateViewInput (rfc3339 : Timestamp → String) (t : TaskResponse) :
    TaskDateViewInput :=
  ⟨t.status, t.dueDate.map formatYmd, t.completedAt.map rfc3339⟩

def TaskBriefResponse.dateViewInput (rfc3339 : Timestamp → String) (t : TaskBriefResponse) :
    TaskDateViewInput :=
  ⟨t.status, t.dueDate.map formatYmd, t.completedAt.map rfc3339⟩

def clientInput (rfc3339 : Timestamp → String) (shape : ReadShape) (t : Stored TaskRow) :
    TaskDateViewInput :=
  match shape with
  | .full => (TaskResponse.ofRow t).dateViewInput rfc3339
  | .brief => (TaskBriefResponse.ofRow t).dateViewInput rfc3339

def TasksResponse.ids : TasksResponse → List Uuid
  | .full tasks => tasks.map TaskResponse.id
  | .brief tasks => tasks.map TaskBriefResponse.id

theorem mem_tasksWhere {p : TaskRow → Bool} {userId : Uuid} {s : Db} {t : Stored TaskRow} :
    t ∈ tasksWhere p userId s ↔ s.task t.id = some t.row ∧ t.row.userId = userId ∧ p t.row := by
  rw [tasksWhere, List.mem_mergeSort, List.mem_filterMap]
  constructor
  · rintro ⟨⟨k, r⟩, hmem, hsome⟩
    cases k with
    | task id =>
        have hlookup : s.task id = some r := AList.mem_lookup_iff.mpr hmem
        dsimp only at hsome
        split at hsome
        · rename_i hp
          obtain rfl := Option.some.inj hsome
          simpa [hlookup, ownTask] using hp
        · cases hsome
    | _ => cases hsome
  · rintro ⟨hlookup, howner, hp⟩
    refine ⟨⟨.task t.id, t.row⟩, AList.mem_lookup_iff.mp hlookup, ?_⟩
    simp [ownTask, howner, hp]

def inView (today : NaiveDate) : TaskView → TaskRow → Bool
  | .today, t => t.dueDate.any (· = today) && t.completedAt.isNone
  | .upcoming, t => t.dueDate.any (today < ·) && t.completedAt.isNone
  | .overdue, t => t.dueDate.any (· < today) && t.completedAt.isNone
  | .done, t => t.completedAt.isSome

theorem mem_ids_listTasks {shape : ReadShape} {view : TaskView} {today : NaiveDate}
    {userId id : Uuid} {s : Db} :
    id ∈ (listTasks shape (some view) today userId s).ids ↔
      ∃ t, s.task id = some t ∧ t.userId = userId ∧ inView today view t := by
  have hids : (listTasks shape (some view) today userId s).ids =
      (tasksWhere (inView today view) userId s).map Stored.id := by
    cases shape <;> cases view <;> simp [listTasks, TasksResponse.ids, listTasksTodaySql,
      listTasksUpcomingSql, listTasksOverdueSql, listTasksDoneSql, listTasksTodayBriefSql,
      listTasksUpcomingBriefSql, listTasksOverdueBriefSql, listTasksDoneBriefSql,
      TaskResponse.ofRow, TaskBriefResponse.ofRow, Function.comp_def] <;> rfl
  rw [hids, List.mem_map]
  constructor
  · rintro ⟨t, ht, rfl⟩
    exact ⟨t.row, mem_tasksWhere.mp ht⟩
  · rintro ⟨t, ht⟩
    exact ⟨⟨id, t⟩, mem_tasksWhere.mpr ht, rfl⟩

theorem inView_unique {today : NaiveDate} {v w : TaskView} {t : TaskRow}
    (hv : inView today v t) (hw : inView today w t) : v = w := by
  cases hc : t.completedAt with
  | some stamp => cases v <;> cases w <;> simp_all [inView]
  | none =>
      cases hd : t.dueDate with
      | none => cases v <;> cases w <;> simp_all [inView]
      | some d =>
          rcases lt_trichotomy d today with hlt | heq | hgt
          · cases v <;> cases w <;> simp_all [inView, hlt.ne, hlt.not_gt]
          · cases v <;> cases w <;> simp_all [inView]
          · cases v <;> cases w <;> simp_all [inView, hgt.ne', hgt.not_gt]

theorem codeUnits_cons {c : Char} (hc : c.toNat < 0x10000) (l : List Char) :
    codeUnits (c :: l) = c.toNat :: codeUnits l := by
  rw [codeUnits, List.flatMap_cons, if_pos hc]
  rfl

theorem codeUnits_lt_iff {l l' : List Char} (h : ∀ c ∈ l, c.toNat < 0x10000)
    (h' : ∀ c ∈ l', c.toNat < 0x10000) : codeUnits l < codeUnits l' ↔ l < l' := by
  induction l generalizing l' with
  | nil =>
      cases l' with
      | nil => simp
      | cons c' l' =>
          rw [codeUnits_cons (h' c' List.mem_cons_self)]
          exact iff_of_true (List.nil_lt_cons _ _) (List.nil_lt_cons _ _)
  | cons c l ih =>
      cases l' with
      | nil => simp [codeUnits]
      | cons c' l' =>
          have ih' := ih (fun x hx => h x (List.mem_cons_of_mem c hx)) fun x hx =>
            h' x (List.mem_cons_of_mem c' hx)
          rw [codeUnits_cons (h c List.mem_cons_self), codeUnits_cons (h' c' List.mem_cons_self),
            List.cons_lt_cons_iff, List.cons_lt_cons_iff, ih', Char.toNat_inj]
          exact Iff.rfl

theorem toNat_of_mem_dateChars {d : NaiveDate} {c : Char} (h : c ∈ dateChars d) :
    c.toNat < 0x80 ∧ isJsWhiteSpace c = false := by
  rcases mem_dateChars h with rfl | rfl | hdigit
  · decide
  · decide
  · have hc := toNat_lt_of_isDigit hdigit
    have h0 : '0'.toNat = 48 := rfl
    refine ⟨by omega, ?_⟩
    simp only [isJsWhiteSpace, Bool.or_eq_false_iff, Bool.and_eq_false_iff, decide_eq_false_iff_not]
    omega

theorem jsTrim_formatYmd (d : NaiveDate) : jsTrim (formatYmd d) = formatYmd d := by
  have hstrip : strip isJsWhiteSpace (dateChars d) = dateChars d :=
    strip_eq_self fun c hc => (toNat_of_mem_dateChars hc).2
  rw [jsTrim, formatYmd, String.toList_ofList, ← strip, hstrip]

theorem formatYmd_ne_empty (d : NaiveDate) : formatYmd d ≠ "" := by
  rw [formatYmd, dateChars, Ne, String.ofList_eq_empty_iff]
  simp

/-- The days that `YYYY-MM-DD` can name. -/
def IsYmd (d : NaiveDate) : Prop :=
  0 ≤ d.year ∧ d.year ≤ 9999

instance (d : NaiveDate) : Decidable (IsYmd d) :=
  inferInstanceAs (Decidable (_ ∧ _))

theorem jsLt_dates (d e : NaiveDate) :
    jsLt (formatYmd d) (formatYmd e) = decide (dateChars d < dateChars e) := by
  have hunits : ∀ e : NaiveDate, ∀ c ∈ dateChars e, c.toNat < 0x10000 := fun e c hc =>
    (toNat_of_mem_dateChars hc).1.trans (by decide)
  rw [jsLt, formatYmd, formatYmd, String.toList_ofList, String.toList_ofList, decide_eq_decide,
    codeUnits_lt_iff (hunits d) (hunits e)]

theorem jsLt_formatYmd {d today : NaiveDate} (hd : d.year ≤ 9999) (htoday : IsYmd today) :
    jsLt (formatYmd d) (formatYmd today) = decide (d < today) := by
  rw [jsLt_dates, decide_eq_decide, dateChars_lt_iff_of_le hd htoday.1 htoday.2]

theorem formatYmd_eq_iff {d today : NaiveDate} (hd : d.year ≤ 9999) (htoday : IsYmd today) :
    formatYmd d = formatYmd today ↔ d = today := by
  rw [formatYmd, formatYmd, String.ofList_inj, dateChars_eq_iff hd htoday.1 htoday.2]

/-- A task is stamped as completed exactly when it is, and its due date has a
year of at most four digits. -/
structure TaskOk (t : TaskRow) : Prop where
  completedAt : t.completedAt.isSome ↔ t.status = .completed
  dueDate : ∀ d, t.dueDate = some d → d.year ≤ 9999

def taskLaw : (k : Key) → Row k → Prop
  | .task _, (t : TaskRow) => TaskOk t
  | _, _ => True

theorem inView_iff (rfc3339 : Timestamp → String) {t : Stored TaskRow} (ht : TaskOk t.row)
    {today : NaiveDate} (htoday : IsYmd today)
    (shape : ReadShape) (view : TaskView) :
    inView today view t.row ↔ (t.row.status = .completed ∨ t.row.dueDate.isSome) ∧
      taskDateView (clientInput rfc3339 shape t) (formatYmd today) = view := by
  have hinput : clientInput rfc3339 shape t =
      ⟨statusText t.row.status, t.row.dueDate.map formatYmd, t.row.completedAt.map rfc3339⟩ := by
    cases shape <;> rfl
  have htext : statusText t.row.status = "completed" ↔ t.row.status = .completed := by
    cases t.row.status <;> simp [statusText]
  rw [hinput]
  cases hc : t.row.completedAt with
  | some stamp =>
      have hstatus : t.row.status = .completed := ht.completedAt.mp (by simp [hc])
      have hdone : taskDateView ⟨statusText t.row.status, t.row.dueDate.map formatYmd,
          some (rfc3339 stamp)⟩ (formatYmd today) = .done := by
        simp [taskDateView, htext.mpr hstatus]
      rw [Option.map_some, hdone]
      cases view <;> simp [inView, hc, hstatus]
  | none =>
      have hstatus : t.row.status ≠ .completed := fun h => by simpa [hc] using ht.completedAt.mpr h
      cases hd : t.row.dueDate with
      | none => cases view <;> simp [inView, hc, hd, hstatus]
      | some d =>
          have hyear := ht.dueDate d hd
          have hview : taskDateView ⟨statusText t.row.status, some (formatYmd d), none⟩
              (formatYmd today) =
              if d < today then .overdue else if d = today then .today else .upcoming := by
            simp [taskDateView, htext, hstatus, jsTrim_formatYmd, formatYmd_ne_empty,
              jsLt_formatYmd hyear htoday, formatYmd_eq_iff hyear htoday]
          rw [Option.map_some, Option.map_none, hview]
          rcases lt_trichotomy d today with hlt | rfl | hgt
          · cases view <;> simp [inView, hc, hd, hlt, hlt.ne, hlt.not_gt]
          · cases view <;> simp [inView, hc, hd]
          · cases view <;> simp [inView, hc, hd, hgt, hgt.ne', hgt.not_gt]

/-- The library reads the year of a date from the bytes before its first dash:
four digits, or a sign and three. -/
def YearOfFourBytes (p : Parsers) : Prop :=
  ∀ raw d, byteLen raw = 10 → byteAt raw 4 = some 45 → p.naiveDate raw = some d → d.year ≤ 9999

theorem year_le_of_validateCalendarDate {p : Parsers} (hp : YearOfFourBytes p)
    {raw field : String} {d : NaiveDate} (h : validateCalendarDate p raw field = .ok d) :
    d.year ≤ 9999 := by
  simp only [validateCalendarDate, parseCalendarDate] at h
  split at h
  · rename_i hshape
    split at h
    · rename_i hd
      obtain rfl := Except.ok.inj h
      exact hp _ _ hshape.1 hshape.2.1 hd
    · cases h
  · cases h

theorem year_le_of_validateOpt {p : Parsers} (hp : YearOfFourBytes p) {raw : Option String}
    {field : String} {due : Option NaiveDate}
    (h : validateOpt (validateCalendarDate p · field) raw = .ok due) :
    ∀ d, due = some d → d.year ≤ 9999 := by
  rintro d rfl
  obtain ⟨a, _, ha⟩ := validateOpt_eq_ok_some h
  exact year_le_of_validateCalendarDate hp ha

theorem taskOk_insert (now : Timestamp) {t : TaskRow}
    (hd : ∀ d, t.dueDate = some d → d.year ≤ 9999) : TaskOk (setTaskCompletedAt now none t) := by
  unfold setTaskCompletedAt
  split
  · rename_i h
    exact ⟨by simp [h.1], hd⟩
  split
  · rename_i h
    exact ⟨by simp [h], hd⟩
  · rename_i h h'
    exact absurd ⟨not_not.mp h', by simp⟩ h

/-- The trigger stamps a task that becomes completed, keeps the stamp of one that
stays completed, and removes it from any other. -/
theorem taskOk_merge {patch : TaskPatch} (now : Timestamp) {old : TaskRow} (hold : TaskOk old)
    (hd : ∀ d, patch.dueDate = some d → d.year ≤ 9999) : TaskOk (patch.merge now old) := by
  have hdue : ∀ d, patch.dueDate.or old.dueDate = some d → d.year ≤ 9999 := by
    intro d h
    rcases Option.or_eq_some_iff.mp h with h | ⟨_, h⟩
    · exact hd d h
    · exact hold.dueDate d h
  unfold TaskPatch.merge setTaskCompletedAt
  split
  · rename_i h
    exact ⟨by simpa using h.1, hdue⟩
  split
  · rename_i h
    exact ⟨by simpa using h, hdue⟩
  · rename_i h h'
    have hnew := not_not.mp h'
    have hcompleted : old.status = .completed := by
      by_contra hne
      exact h ⟨hnew, by simpa using hne⟩
    exact ⟨iff_of_true (hold.completedAt.mpr hcompleted) hnew, hdue⟩

theorem taskLaw_eq : taskLaw = lawOf TaskOk := by
  funext k r
  cases k <;> rfl

theorem respects_taskOk {caller : Caller} (hp : YearOfFourBytes caller.parsers)
    (r : TaskRequest) : Respects TaskOk caller r := by
  cases r with
  | create body =>
      exact fun row hrow => taskOk_insert _ (year_le_of_validateOpt hp hrow.dueDate)
  | patch newFirst id body =>
      exact fun patch hpatch old hold =>
        taskOk_merge _ hold (year_le_of_validateOpt hp hpatch.dueDate)
  | delete id => trivial

structure TaskDb where
  store : Db
  lawful : RowsOk taskLaw store

variable {ι : Type} [DecidableEq ι]

def taskRun (db : TaskDb) (requests : ι → Caller × TaskRequest) (cs : List (Choice ι)) :
    Config ι Row SqlState AppError (Option (Stored TaskRow)) :=
  run .internal (start db.store fun i => serveTask (requests i).1 (requests i).2) cs

/-- The tasks of the tables are stamped as completed exactly when they are, and
the lists of the server are the views of the client. -/
structure ViewsAgree (rfc3339 : Timestamp → String) (s : Db) : Prop where
  completedAt : ∀ id t, s.task id = some t → (t.completedAt.isSome ↔ t.status = .completed)
  /-- A list holds stored tasks of its user. -/
  stored : ∀ userId today shape view id, id ∈ (listTasks shape (some view) today userId s).ids →
    ∃ t, s.task id = some t ∧ t.userId = userId
  disjoint : ∀ userId today shape shape' v w id, v ≠ w →
    id ∈ (listTasks shape (some v) today userId s).ids →
    id ∉ (listTasks shape' (some w) today userId s).ids
  /-- A task is listed in the view that the client names, unless it is open and
  has no due date. -/
  named : ∀ id t, s.task id = some t → ∀ today, IsYmd today → ∀ shape shape' view,
    id ∈ (listTasks shape (some view) today t.userId s).ids ↔
      (t.status = .completed ∨ t.dueDate.isSome) ∧
        taskDateView (clientInput rfc3339 shape' ⟨id, t⟩) (formatYmd today) = view

theorem viewsAgree_of_rowsOk (rfc3339 : Timestamp → String) {s : Db} (h : RowsOk taskLaw s) :
    ViewsAgree rfc3339 s := by
  have hok : ∀ id t, s.task id = some t → TaskOk t := fun id t ht => h (Key.task id) t ht
  refine ⟨fun id t ht => (hok id t ht).completedAt, ?_, ?_, ?_⟩
  · intro userId today shape view id hid
    obtain ⟨t, ht, howner, _⟩ := mem_ids_listTasks.mp hid
    exact ⟨t, ht, howner⟩
  · intro userId today shape shape' v w id hne hv hw
    obtain ⟨t, ht, _, hv'⟩ := mem_ids_listTasks.mp hv
    obtain ⟨t', ht', _, hw'⟩ := mem_ids_listTasks.mp hw
    obtain rfl := Option.some.inj (ht.symm.trans ht')
    exact hne (inView_unique hv' hw')
  · intro id t ht today htoday shape shape' view
    rw [← inView_iff rfc3339 (t := ⟨id, t⟩) (hok id t ht) htoday shape' view, mem_ids_listTasks]
    constructor
    · rintro ⟨t', ht', _, hview⟩
      obtain rfl := Option.some.inj (ht.symm.trans ht')
      exact hview
    · exact fun hview => ⟨t, ht, rfl, hview⟩

/-- In every state that task requests reach, in any interleaving, the views of
the server and of the client agree. -/
theorem viewsAgree_taskRun (rfc3339 : Timestamp → String) (db : TaskDb)
    (requests : ι → Caller × TaskRequest) (hp : ∀ i, YearOfFourBytes (requests i).1.parsers)
    (cs : List (Choice ι)) : ViewsAgree rfc3339 (taskRun db requests cs).db := by
  have hdb : RowsOk (lawOf TaskOk) db.store := taskLaw_eq ▸ db.lawful
  apply viewsAgree_of_rowsOk
  rw [taskLaw_eq]
  exact rowsOk_run hdb (fun i => respects_taskOk (hp i) (requests i).2) cs

def oneDate : Parsers where
  decimal _ := none
  naiveDate raw :=
    if raw = "2026-09-04" then NaiveDate.fromYmdOpt 2026 9 4 else none
  dateTime _ := none

theorem yearOfFourBytes_oneDate : YearOfFourBytes oneDate := by
  intro raw d _ _ h
  simp only [oneDate] at h
  split at h
  · rw [← Option.some.inj h]
    decide
  · cases h

def reopening (second : Bool) : Caller × TaskRequest :=
  (⟨oneDate, 1, 5⟩,
    if second then
      .patch true 0
        { title := none, description := none, priority := none, status := some "pending"
          dueDate := none, goalId := none, categoryId := none, sortOrder := none }
    else
      .create
        { title := "Pagar arriendo", description := none, priority := none
          status := some "completed", dueDate := some "2026-09-04", goalId := none
          categoryId := none, sortOrder := none })

def reopeningTurns : List (Choice Bool) :=
  List.replicate 8 ⟨false, .advance 0⟩ ++ List.replicate 8 ⟨true, .advance 0⟩

set_option maxRecDepth 4000 in
/-- The reopened task is listed as overdue on the next day. -/
theorem viewsAgree_taskRun_reopening :
    let s := (taskRun ⟨∅, rowsOk_empty⟩ reopening reopeningTurns).db
    (∃ t, Db.task s 0 = some t ∧ t.status = .pending) ∧
      ViewsAgree (fun _ => "2026-09-04T12:00:00Z") s :=
  ⟨⟨_, rfl, rfl⟩, viewsAgree_taskRun _ ⟨∅, rowsOk_empty⟩ reopening
    (fun i => by cases i <;> exact yearOfFourBytes_oneDate) reopeningTurns⟩

end PersonalDashboard.TaskViews
