import PersonalDashboard.TaskHandlers
import Mathlib.Data.Rat.Floor
import Mathlib.Tactic.FieldSimp
import Mathlib.Tactic.Ring

/-! The progress of goals across every interleaving of task requests: it is the
share of completed tasks as long as no recount takes effect on a stale count. -/

set_option autoImplicit false

namespace PersonalDashboard.GoalProgress

open PersonalDashboard.Calendar
open PersonalDashboard.LedgerHandlers
open PersonalDashboard.ReadCommitted
open PersonalDashboard.RowStatements
open PersonalDashboard.RowStore
open PersonalDashboard.Schema
open PersonalDashboard.TaskHandlers
open PersonalDashboard.TransactionLogic
open PersonalDashboard.TransactionLogic.Contract

theorem percentage_eq_round (completed : Int) {total : Int} (htotal : 0 < total) :
    percentage completed total = round (100 * completed / total : ℚ) := by
  have hne : (total : ℚ) ≠ 0 := by exact_mod_cast htotal.ne'
  have hhalf : (100 * completed / total + 1 / 2 : ℚ) =
      ((200 * completed + total : Int) : ℚ) / ((2 * total : Int) : ℚ) := by
    push_cast
    field_simp
    ring
  rw [percentage, if_neg htotal.ne', round_eq, hhalf,
    Int.floor_div_cast_of_nonneg (by omega), Int.floor_intCast]

def goalTask (g : Uuid) (s : Db) (m : Uuid) : Option TaskStatus :=
  ((s.task m).filter (ofGoal g)).map TaskRow.status

def SameTasks (g : Uuid) (s s' : Db) : Prop :=
  ∀ m, goalTask g s m = goalTask g s' m

theorem weight_isTask (g : Uuid) (p : TaskStatus → Bool) (m : Uuid) (r : Option TaskRow) :
    weight (isTask fun t => ofGoal g t && p t.status) (Key.task m) r =
      ((r.filter (ofGoal g)).map TaskRow.status).elim 0 fun status =>
        if p status then 1 else 0 := by
  cases r with
  | none => rfl
  | some t =>
      cases hg : ofGoal g t with
      | true => simp [isTask, Option.filter, hg]
      | false => simp [isTask, Option.filter, hg]

theorem countTasks_congr {g : Uuid} {s s' : Db} (h : SameTasks g s s')
    (p : TaskStatus → Bool) :
    countTasks (fun t => ofGoal g t && p t.status) s =
      countTasks (fun t => ofGoal g t && p t.status) s' := by
  refine total_congr fun k => ?_
  cases k with
  | task m =>
      have hm := congrArg (fun r => r.elim (0 : Int) fun status => if p status then 1 else 0) (h m)
      exact (weight_isTask g p m _).trans (Eq.trans hm (weight_isTask g p m _).symm)
  | _ => rw [weight_eq_zero fun _ => rfl, weight_eq_zero fun _ => rfl]

theorem goalProgress_congr {g : Uuid} {s s' : Db} (h : SameTasks g s s') :
    goalProgress g s = goalProgress g s' := by
  have hall := countTasks_congr h fun _ => true
  have hcompleted := countTasks_congr h fun status => status = .completed
  simp only [Bool.and_true] at hall
  rw [goalProgress, goalProgress, hall, hcompleted]

theorem goalTask_put_of_ne {g m : Uuid} {s : Db} {k : Key} (h : Key.task m ≠ k)
    (r : Option (Row k)) : goalTask g (put s k r) m = goalTask g s m := by
  rw [goalTask, goalTask, Db.task_put_of_ne h]

theorem SameTasks.applyAll {g : Uuid} {s s' : Db} (h : SameTasks g s s')
    (ws : List (Write Row)) : SameTasks g (applyAll s ws) (applyAll s' ws) := by
  induction ws generalizing s s' with
  | nil => exact h
  | cons w ws ih =>
      obtain ⟨k, r⟩ := w
      refine ih fun m => ?_
      by_cases hm : Key.task m = k
      · subst hm
        rw [goalTask, goalTask, Db.task_put_self, Db.task_put_self]
      · rw [goalTask_put_of_ne hm, goalTask_put_of_ne hm]
        exact h m

theorem SameTasks.of_lookup {g : Uuid} {s s' : Db}
    (h : ∀ m, s.lookup (Key.task m) = s'.lookup (Key.task m)) : SameTasks g s s' := by
  intro m
  have hm : s.task m = s'.task m := h m
  rw [goalTask, goalTask, hm]

theorem SameTasks.trans {g : Uuid} {s s' s'' : Db} (h : SameTasks g s s')
    (h' : SameTasks g s' s'') : SameTasks g s s'' :=
  fun m => (h m).trans (h' m)

def ProgressOk (g : Uuid) (s : Db) : Prop :=
  ∀ row, s.goal g = some row → row.progress = goalProgress g s

/-- The invariant of the committed stores: no goal comes or goes, and the progress
of each is right. -/
structure GoalsOk (db s : Db) : Prop where
  kept : ∀ g, (s.goal g).isSome = (db.goal g).isSome
  progress : ∀ g, ProgressOk g s

/-- The tasks of a stored goal belong to the region of its lock. A recount may be
assumed to take effect only while its count is up to date. -/
def progress (db : Db) : Contract Row AppError where
  Region k := Option (Row k) × (Uuid → Option TaskStatus)
  region k s := (s.lookup k, fun m =>
    match k with
    | .goal g => if (Db.goal s g).isSome then goalTask g s m else none
    | _ => none)
  lookup_congr _ _ _ h := congrArg Prod.fst h
  inv := GoalsOk db
  admits k mode sn cur :=
    match k, mode with
    | .goal g, .noKeyUpdate => SameTasks g sn cur
    | _, _ => True
  fault := .internal

/-- An open transaction that still has to recount the goals in `todo`. -/
structure Pending {db : Db} (t : (progress db).Open) (todo : List Uuid) : Prop where
  kept : ∀ c, Sees t c → ∀ g, (Db.goal (t.view c) g).isSome = (db.goal g).isSome
  settled : ∀ g, g ∉ todo → ∀ c, Sees t c → (db.goal g).isSome →
    ProgressOk g (t.view c) ∧ (t.Locks (Key.goal g) ∨ SameTasks g (t.view c) c)

section Transactions

variable {db : Db} {t t' : (progress db).Open} {todo : List Uuid}

theorem pending_empty : Pending ({} : (progress db).Open) [] where
  kept _ hc := hc.inv.kept
  settled g _ _ hc _ := ⟨hc.inv.progress g, Or.inr fun _ => rfl⟩

theorem goalProgress_put_goal (g g' : Uuid) (s : Db) (r : Option GoalRow) :
    goalProgress g (put s (Key.goal g') r) = goalProgress g s :=
  goalProgress_congr fun _ => goalTask_put_of_ne (by simp) _

theorem Pending.confined {q : Key → Bool} (h : Pending t todo) (hconf : Confined t t' q)
    (hgoal : ∀ g, q (.goal g) = false) (htask : ∀ m, q (.task m) = false) :
    Pending t' todo where
  kept c hc g := by
    have heq : Db.goal (t'.view c) g = Db.goal (t.view c) g := hconf.rows c hc _ (hgoal g)
    rw [heq]
    exact h.kept c (hconf.sees c hc) g
  settled g hg c hc hdb := by
    have hsame : SameTasks g (t'.view c) (t.view c) :=
      .of_lookup fun m => hconf.rows c hc _ (htask m)
    obtain ⟨hok, hlocks⟩ := h.settled g hg c (hconf.sees c hc) hdb
    refine ⟨fun row hrow => ?_, hlocks.imp (hconf.mono _) hsame.trans⟩
    have heq : Db.goal (t'.view c) g = Db.goal (t.view c) g := hconf.rows c hc _ (hgoal g)
    rw [goalProgress_congr hsame]
    exact hok row (heq ▸ hrow)

/-- A change of a task leaves the goals to recount that it belonged to, or now
belongs to. -/
theorem Pending.putTask {m : Uuid} {old new : Option TaskRow} {goals : List Uuid}
    (h : Pending t []) (hstep : t.Step t' (Key.task m) fun s => put s (Key.task m) new)
    (hold : ∀ c, Sees t' c → Db.task (t.view c) m = old)
    (hgoals : ∀ g, g ∉ goals →
      (new.filter (ofGoal g)).map TaskRow.status = (old.filter (ofGoal g)).map TaskRow.status) :
    Pending t' goals where
  kept c hc g := by
    rw [hstep.view c hc, Db.goal_put_of_ne (by simp)]
    exact h.kept c (hstep.sees c hc) g
  settled g hg c hc hdb := by
    have hsame : SameTasks g (t'.view c) (t.view c) := by
      intro m'
      rw [hstep.view c hc]
      by_cases hm : m' = m
      · subst hm
        rw [goalTask, goalTask, Db.task_put_self, hold c hc]
        exact hgoals g hg
      · exact goalTask_put_of_ne (by simpa using hm) _
    obtain ⟨hok, hlocks⟩ := h.settled g List.not_mem_nil c (hstep.sees c hc) hdb
    refine ⟨fun row hrow => ?_,
      hlocks.imp (fun hk => (hstep.locks _).mpr (Or.inr hk)) hsame.trans⟩
    rw [hstep.view c hc, Db.goal_put_of_ne (by simp)] at hrow
    rw [goalProgress_congr hsame]
    exact hok row hrow

theorem sameTasks_of_locks {g : Uuid} {c c' : Db} (hk : t.Locks (Key.goal g))
    (hdb : (db.goal g).isSome) (hc : Sees t c) (hc' : Sees t c') : SameTasks g c c' := by
  intro m
  have hregion := congrFun (congrArg Prod.snd (region_congr t hk hc hc')) m
  simpa [progress, hc.inv.kept g, hc'.inv.kept g, hdb] using hregion

theorem Pending.recount {g : Uuid} {now : Timestamp} {r r' : GoalRow}
    (h : Pending t (g :: todo))
    (hup : Updated t t' .noKeyUpdate (Key.goal g) (fun _ => true)
      (fun sn (r : GoalRow) => (.ok { r with progress := goalProgress g sn, updatedAt := now } :
        Except SqlState GoalRow)) r r') : Pending t' todo where
  kept c hc g' := by
    rw [hup.step.view c hc]
    by_cases hg : g' = g
    · subst hg
      have hold : Db.goal (t.view c) g' = some r := hup.old c hc
      rw [← h.kept c (hup.step.sees c hc) g', hold, Db.goal_put_self]
      rfl
    · rw [← h.kept c (hup.step.sees c hc) g', Db.goal_put_of_ne (by simpa using hg)]
  settled g' hg' c hc hdb := by
    have hlocks : t'.Locks (Key.goal g) := (hup.step.locks _).mpr (Or.inl rfl)
    obtain ⟨sn, c₀, hsn, hc₀, hadmits, hr'⟩ := hup.admitted
    obtain rfl := Except.ok.inj hr'
    rw [hup.step.view c hc]
    by_cases hg : g' = g
    · subst hg
      refine ⟨fun row hrow => ?_, Or.inl hlocks⟩
      rw [Db.goal_put_self] at hrow
      obtain rfl := Option.some.inj hrow
      have hnow : SameTasks g' (t.view c₀) (t.view c) :=
        (sameTasks_of_locks hlocks hdb hc₀ hc).applyAll t.writes
      rw [goalProgress_put_goal]
      exact goalProgress_congr (SameTasks.trans hadmits hnow)
    · obtain ⟨hok, hrest⟩ := h.settled g' (by simp [hg, hg']) c (hup.step.sees c hc) hdb
      refine ⟨?_, hrest.imp (fun hk => (hup.step.locks _).mpr (Or.inr hk)) fun hsame m => ?_⟩
      · intro row
        rw [Db.goal_put_of_ne (by simpa using hg), goalProgress_put_goal]
        exact hok row
      · rw [goalTask_put_of_ne (by simp)]
        exact hsame m

theorem Pending.missing {g : Uuid} {c : Db} (h : Pending t (g :: todo)) (hc : Sees t c)
    (hmiss : found (Key.goal g) (fun _ => true) (t.view c) = false) : Pending t todo where
  kept := h.kept
  settled g' hg' c' hc' hdb := by
    by_cases hg : g' = g
    · subst hg
      have hsome : ((t.view c).lookup (Key.goal g')).isSome = true := (h.kept c hc g').trans hdb
      obtain ⟨r, hr⟩ := Option.isSome_iff_exists.mp hsome
      simp [found, hr] at hmiss
    · exact h.settled g' (by simp [hg, hg']) c' hc' hdb

theorem Pending.publishable {c : Db} (h : Pending t []) (hc : Sees t c) :
    (progress db).Publishable (fun _ _ => True) t c where
  unlocked k hk := by
    refine Prod.ext (lookup_view_of_not_locks t hk c) (funext fun m => ?_)
    cases k with
    | goal g =>
        change (if (Db.goal (t.view c) g).isSome then goalTask g (t.view c) m else none) =
          if (c.goal g).isSome then goalTask g c m else none
        rw [h.kept c hc g, hc.inv.kept g]
        by_cases hdb : (db.goal g).isSome
        · obtain ⟨-, hsame⟩ := h.settled g List.not_mem_nil c hc hdb
          rw [if_pos hdb, if_pos hdb]
          exact hsame.resolve_left hk m
        · rw [if_neg hdb, if_neg hdb]
    | _ => rfl
  inv := by
    refine ⟨h.kept c hc, fun g row hrow => ?_⟩
    have hdb : (db.goal g).isSome := by rw [← h.kept c hc g, hrow, Option.isSome_some]
    exact (h.settled g List.not_mem_nil c hc hdb).1 row hrow
  allowed := trivial

end Transactions

section Handlers

variable {γ : Type} {db : Db} {t : (progress db).Open} {done : List (Db × Db)}
  {post : (progress db).Post γ}

theorem seq_recalcGoalProgress {toErr : SqlState → AppError} {now : Timestamp}
    {goals : List Uuid} {next : Unit → Handler γ} (ht : Pending t goals)
    (herr : post.MayFail done)
    (h : ∀ t', Pending t' [] → (progress db).wp (fun _ _ => True) (next ()) post (some t') done) :
    (progress db).wp (fun _ _ => True) ((recalcGoalProgress toErr now goals).bind next) post
      (some t) done := by
  induction goals generalizing t with
  | nil => exact h t ht
  | cons g goals ih =>
      simp only [recalcGoalProgress, Prog.bind_eq, Prog.bind_assoc]
      refine seq_tryUpdate rfl herr (fun c hc hmiss => ?_) fun r r' t' hup => ?_
      · exact ih (ht.missing hc hmiss)
      · exact ih (ht.recount hup)

theorem seq_insertTask {now : Timestamp} {row : TaskRow} {next : Stored TaskRow → Handler γ}
    (ht : Pending t []) (herr : post.MayFail done)
    (h : ∀ stored t', Pending t' [] →
      (progress db).wp (fun _ _ => True) (next stored) post (some t') done) :
    (progress db).wp (fun _ _ => True) ((insertTask now row).bind next) post (some t) done := by
  simp only [insertTask, Prog.bind_eq, Prog.bind_assoc, Prog.pure_eq, Prog.ret_bind]
  refine seq_freshId herr fun id t₁ h₁ hfree hnone => ?_
  refine seq_insert herr fun _ t₂ h₂ _ _ => ?_
  refine seq_foreignKeyOpt herr (seq_foreignKeyOpt herr ?_)
  have ht₁ : Pending t₁ [] :=
    ht.confined (q := fun _ => false) (.of_step h₁ fun _ _ _ => rfl) (fun _ => rfl) fun _ => rfl
  have hold : ∀ c, Sees t₂ c → Db.task (t₁.view c) id = none := by
    intro c hc
    have hc₁ := h₂.sees c hc
    rw [h₁.view c hc₁]
    exact (lookup_view_of_not_locks t hfree c).trans (hnone c hc₁)
  refine seq_recalcGoalProgress (ht₁.putTask h₂ hold fun g hg => ?_) herr (h _)
  have hgoal : ofGoal g (setTaskCompletedAt now none row) = false := by
    simpa [ofGoal, eq_comm] using hg
  simp [Option.filter, hgoal]

theorem filter_ofGoal_merge (newFirst : Bool) {old new : TaskRow} {g : Uuid}
    (h : old.status = new.status ∧ old.goalId = new.goalId ∨
      g ∉ distinctGoals newFirst old.goalId new.goalId) :
    ((some new).filter (ofGoal g)).map TaskRow.status =
      ((some old).filter (ofGoal g)).map TaskRow.status := by
  rcases h with ⟨hstatus, hgoal⟩ | hg
  · have hof : ofGoal g new = ofGoal g old := by rw [ofGoal, ofGoal, hgoal]
    simp only [Option.filter, hof]
    split
    · rw [Option.map_some, Option.map_some, hstatus]
    · rfl
  · have hboth : ofGoal g old = false ∧ ofGoal g new = false := by
      unfold distinctGoals at hg
      split at hg
      · simp_all [ofGoal]
      · split at hg
        · simp_all [ofGoal]
        · simp_all [ofGoal]
    simp [Option.filter, hboth]

theorem seq_updateTask {newFirst : Bool} {id userId : Uuid} {patch : TaskPatch}
    {now : Timestamp} {next : TaskRow → Handler γ} (ht : Pending t [])
    (herr : post.MayFail done)
    (h : ∀ row t', Pending t' [] →
      (progress db).wp (fun _ _ => True) (next row) post (some t') done) :
    (progress db).wp (fun _ _ => True) ((updateTask newFirst id userId patch now).bind next) post
      (some t) done := by
  simp only [updateTask, Prog.bind_eq, Prog.bind_assoc, Prog.pure_eq, Prog.ret_bind]
  refine seq_fetchFor rfl herr fun (old : TaskRow) t₁ h₁ hown hold => ?_
  generalize patch.merge now old = new
  have ht₁ : Pending t₁ [] :=
    ht.confined (q := fun _ => false) (.of_step h₁ fun _ _ _ => rfl) (fun _ => rfl) fun _ => rfl
  have hold₁ : ∀ c, Sees t₁ c → Db.task (t₁.view c) id = some old := by
    intro c hc
    rw [h₁.view c hc]
    exact hold c hc
  refine seq_update rfl herr (fun c hc => found_eq_true.mpr ⟨old, hold₁ c hc, hown⟩)
    fun _ r' t₂ hup => ?_
  obtain ⟨_, _, _, _, _, hr'⟩ := hup.admitted
  obtain rfl := Except.ok.inj hr'
  have hpending : ∀ goals, (old.status = new.status ∧ old.goalId = new.goalId ∨
      goals = distinctGoals newFirst old.goalId new.goalId) → Pending t₂ goals := by
    intro goals hgoals
    refine ht₁.putTask hup.step (fun c hc => hold₁ c (hup.step.sees c hc)) fun g hg => ?_
    refine filter_ofGoal_merge newFirst (hgoals.imp_right ?_)
    rintro rfl
    exact hg
  refine seq_whenever_foreignKeyOpt herr (seq_whenever_foreignKeyOpt herr ?_)
  refine seq_whenever (fun _ => ?_) fun hsame => ?_
  · exact seq_recalcGoalProgress (hpending _ (Or.inr rfl)) herr (h new)
  · obtain ⟨hstatus, hgoal⟩ := not_or.mp hsame
    exact h new t₂ (hpending [] (Or.inl ⟨not_not.mp hstatus, not_not.mp hgoal⟩))

theorem seq_ensureTaskGoal {o : Option (progress db).Open} {G : Db → Db → Prop}
    {goalId : Option Uuid} {userId : Uuid} {next : Unit → Handler γ} (herr : post.MayFail done)
    (h : (progress db).wp G (next ()) post o done) :
    (progress db).wp G ((ensureTaskGoal goalId userId).bind next) post o done := by
  cases goalId with
  | none => exact h
  | some goalId =>
      simp only [ensureTaskGoal, ensureWritable, Prog.bind_eq, Prog.bind_assoc]
      refine seq_select herr fun _ _ => seq_whenever (fun _ => ?_) fun _ => h
      simp only [Prog.bind_assoc]
      exact seq_select herr fun _ _ => seq_failIf herr fun _ => seq_failIf herr fun _ => h

theorem seq_ensureTaskCategory {o : Option (progress db).Open} {G : Db → Db → Prop}
    {categoryId : Option Uuid} {userId : Uuid} {next : Unit → Handler γ}
    (herr : post.MayFail done) (h : (progress db).wp G (next ()) post o done) :
    (progress db).wp G ((ensureTaskCategory categoryId userId).bind next) post o done := by
  cases categoryId with
  | none => exact h
  | some categoryId =>
      simp only [ensureTaskCategory, ensureCategory, Prog.bind_eq, Prog.bind_assoc]
      exact seq_select herr fun _ _ => seq_failIf herr fun _ => h

theorem seq_newSortOrder {o : Option (progress db).Open} {G : Db → Db → Prop} {userId : Uuid}
    {sortOrder : Option Int} {next : Int → Handler γ} (herr : post.MayFail done)
    (h : ∀ n, (progress db).wp G (next n) post o done) :
    (progress db).wp G ((newSortOrder userId sortOrder).bind next) post o done := by
  cases sortOrder with
  | some n => exact h n
  | none =>
      simp only [newSortOrder, Prog.bind_eq, Prog.bind_assoc]
      exact seq_select herr fun _ _ => seq_ofExcept herr fun n _ => h n

theorem seq_commitPending {next : Unit → Handler γ} (ht : Pending t [])
    (herr : post.MayFail done)
    (h : ∀ c, (progress db).wp (fun _ _ => True) (next ()) post none ((c, t.view c) :: done)) :
    (progress db).wp (fun _ _ => True) (commitTx.bind next) post (some t) done :=
  seq_commitTx herr (fun _ hc => ht.publishable hc) fun c _ => h c

end Handlers

def anyhow (db : Db) (α : Type) : (progress db).Post α :=
  fun _ _ _ => True

theorem mayFail_anyhow (db : Db) (α : Type) (done : List (Db × Db)) :
    (anyhow db α).MayFail done :=
  fun _ _ => trivial

theorem wp_createTaskHandler (db : Db) (caller : Caller) (body : CreateTaskRequest) :
    (progress db).wp (fun _ _ => True) (createTaskHandler caller body) (anyhow db _) none [] := by
  have herr := mayFail_anyhow db (Stored TaskRow) []
  unfold createTaskHandler
  simp only [Prog.bind_eq, Prog.pure_eq]
  refine seq_ofExcept herr fun title _ => seq_ofExcept herr fun priority _ => ?_
  refine seq_ofExcept herr fun status _ => seq_ofExcept herr fun due _ => ?_
  refine seq_ensureTaskGoal herr (seq_ensureTaskCategory herr ?_)
  refine seq_ofExcept herr fun _ _ => seq_beginTx herr ?_
  refine seq_newSortOrder herr fun sortOrder => ?_
  refine seq_insertTask pending_empty herr fun stored t ht => ?_
  exact seq_commitPending ht herr fun _ => (wp_ret _ _).mpr trivial

theorem wp_patchTaskHandler (db : Db) (caller : Caller) (newFirst : Bool) (id : Uuid)
    (body : PatchTaskRequest) :
    (progress db).wp (fun _ _ => True) (patchTaskHandler caller newFirst id body) (anyhow db _)
      none [] := by
  have herr := mayFail_anyhow db (Stored TaskRow) []
  unfold patchTaskHandler
  simp only [Prog.bind_eq, Prog.pure_eq]
  refine seq_ofExcept herr fun _ _ => seq_select herr fun _ _ => seq_ofOption herr fun _ _ => ?_
  refine seq_ofExcept herr fun title _ => seq_ofExcept herr fun priority _ => ?_
  refine seq_ofExcept herr fun status _ => seq_ofExcept herr fun due _ => ?_
  refine seq_ensureTaskGoal herr (seq_ensureTaskCategory herr ?_)
  refine seq_ofExcept herr fun _ _ => seq_beginTx herr ?_
  refine seq_updateTask pending_empty herr fun row t ht => ?_
  exact seq_commitPending ht herr fun _ => (wp_ret _ _).mpr trivial

def isEvent : Key → Bool
  | .event _ => true
  | _ => false

theorem wp_deleteTaskHandler (db : Db) (caller : Caller) (id : Uuid) :
    (progress db).wp (fun _ _ => True) (deleteTaskHandler caller id) (anyhow db _) none [] := by
  have herr := mayFail_anyhow db Unit []
  unfold deleteTaskHandler
  simp only [Prog.bind_eq]
  refine seq_beginTx herr (seq_fetchDelete herr fun (old : TaskRow) t₁ h₁ _ hold => ?_)
  refine seq_updateWhere (fun k r => ?_) herr fun t₂ h₂ => ?_
  · cases k <;> simp [taskRef, clearTask]
  have ht₁ : Pending t₁ old.goalId.toList := by
    refine pending_empty.putTask h₁ hold fun g hg => ?_
    have hgoal : ofGoal g old = false := by simpa [ofGoal, eq_comm] using hg
    simp [Option.filter, hgoal]
  have hevents : Confined t₁ t₂ isEvent :=
    h₂.confined fun k r hk => by cases k <;> simp_all [isEvent, taskRef]
  refine seq_recalcGoalProgress (ht₁.confined hevents (fun _ => rfl) fun _ => rfl) herr
    fun t₃ ht₃ => ?_
  exact wp_commitTx trivial fun c hc => ⟨ht₃.publishable hc, trivial⟩

theorem wp_anyhow_map {α β : Type} {db : Db} {p : Handler α} (f : α → β)
    (h : (progress db).wp (fun _ _ => True) p (anyhow db α) none []) :
    (progress db).wp (fun _ _ => True) (f <$> p) (anyhow db β) none [] := by
  rw [Prog.map_eq]
  refine wp_seq (wp_mono (fun r o done _ => ?_) h)
  cases r with
  | ok a => exact (wp_ret _ _).mpr trivial
  | error e => trivial

theorem wp_serveTask (db : Db) (caller : Caller) (r : TaskRequest) :
    (progress db).wp (fun _ _ => True) (serveTask caller r) (anyhow db _) none [] := by
  cases r with
  | create body => exact wp_anyhow_map _ (wp_createTaskHandler db caller body)
  | patch newFirst id body => exact wp_anyhow_map _ (wp_patchTaskHandler db caller newFirst id body)
  | delete id => exact wp_anyhow_map _ (wp_deleteTaskHandler db caller id)

structure GoalDb where
  store : Db
  progress : ∀ g, ProgressOk g store

theorem GoalDb.ok (db : GoalDb) : GoalsOk db.store db.store :=
  ⟨fun _ => rfl, db.progress⟩

variable {ι : Type} [DecidableEq ι]

def taskRun (db : GoalDb) (requests : ι → Caller × TaskRequest) (cs : List (Choice ι)) :
    Config ι Row SqlState AppError (Option (Stored TaskRow)) :=
  run .internal (start db.store fun i => serveTask (requests i).1 (requests i).2) cs

/-- Whenever the update of a goal's progress takes effect in a run, the tasks of
the goal that its statement counted are those that are stored then. -/
def RecountsFresh (db : GoalDb) (requests : ι → Caller × TaskRequest) (cs : List (Choice ι)) :
    Prop :=
  AdmittedRun (progress db.store)
    (start db.store fun i => serveTask (requests i).1 (requests i).2) cs

theorem countTasks_nonneg (p : TaskRow → Bool) (s : Db) : 0 ≤ countTasks p s := by
  refine List.sum_nonneg fun n hn => ?_
  obtain ⟨⟨k, r⟩, -, rfl⟩ := List.mem_map.mp hn
  cases k with
  | task m =>
      simp only [isTask]
      split <;> decide
  | _ => exact le_rfl

/-- The progress of a goal as it is documented: the share of its completed tasks
in percent, rounded to the nearest whole number, and 0 without a task. -/
def documentedProgress (g : Uuid) (s : Db) : Int :=
  let completed := countTasks (fun t => ofGoal g t && t.status = .completed) s
  let total := countTasks (ofGoal g) s
  if total = 0 then 0 else round (100 * completed / total : ℚ)

theorem goalProgress_eq_documentedProgress (g : Uuid) (s : Db) :
    goalProgress g s = documentedProgress g s := by
  have hnonneg := countTasks_nonneg (ofGoal g) s
  rw [goalProgress, documentedProgress]
  split
  · rename_i htotal
    rw [percentage, if_pos htotal]
  · rename_i htotal
    exact percentage_eq_round _ (lt_of_le_of_ne hnonneg (Ne.symm htotal))

/-- The progress of every goal, in every state of a run whose recounts are
fresh. -/
theorem progress_taskRun (db : GoalDb) (requests : ι → Caller × TaskRequest)
    (cs : List (Choice ι)) (h : RecountsFresh db requests cs) (g : Uuid) (row : GoalRow)
    (hrow : Db.goal (taskRun db requests cs).db g = some row) :
    row.progress = documentedProgress g (taskRun db requests cs).db := by
  have hsound : Sound (progress db.store) (fun _ _ _ => True) (fun _ _ _ => True)
      (taskRun db requests cs) :=
    Sound.run (sound_start db.ok fun i => wp_serveTask _ _ _) h
  rw [hsound.inv.progress g row hrow, goalProgress_eq_documentedProgress]

def savingsGoal : GoalRow :=
  { userId := 1, name := "Ahorro", description := none, area := "finance", categoryId := none
    startDate := NaiveDate.firstOfMonth 2026 5 (by decide) (by decide), dueDate := none
    progress := 0, status := .active, color := none, createdAt := 0, updatedAt := 0 }

def savingsDb : GoalDb where
  store := put ∅ (Key.goal 0) (some savingsGoal)
  progress g row hrow := by
    by_cases hg : g = 0
    · subst hg
      rw [Db.goal_put_self] at hrow
      rw [← Option.some.inj hrow]
      rfl
    · rw [Db.goal_put_of_ne (by simpa using hg)] at hrow
      cases hrow

def savingsRequests (completed : Bool) : Caller × TaskRequest :=
  (⟨⟨fun _ => none, fun _ => none, fun _ => none⟩, 1, 5⟩,
    .create
      { title := "Abrir cuenta", description := none, priority := none
        status := some (if completed then "completed" else "pending"), dueDate := none
        goalId := some 0, categoryId := none, sortOrder := some 0 })

def savingsSteps (completed : Bool) (n : Nat) : List (Choice Bool) :=
  (List.replicate n (Action.advance (if completed then 1 else 2))).map (Choice.mk completed)

/-- Both requests insert their tasks before either commits, and the second counts
the tasks of the goal after the first has committed. -/
def savingsTurns : List (Choice Bool) :=
  savingsSteps true 7 ++ savingsSteps false 7 ++ savingsSteps true 5 ++ savingsSteps false 5

theorem recountsFresh_savingsTurns : RecountsFresh savingsDb savingsRequests savingsTurns := by
  have hrefl : ∀ k m cur, (progress savingsDb.store).admits k m cur cur := by
    intro k m cur
    cases k <;> cases m <;> first | trivial | exact fun _ => rfl
  have hsteps : ∀ (s : Config Bool Row SqlState AppError (Option (Stored TaskRow))) completed n,
      (s.procs completed).snapshot = none →
      AdmittedRun (progress savingsDb.store) s (savingsSteps completed n) :=
    fun _ _ _ hnone => admittedRun_alone hrefl (upToDate_of_none hnone) _
  refine (((hsteps _ true 7 ?_).append (hsteps _ false 7 ?_)).append
    (hsteps _ true 5 ?_)).append (hsteps _ false 5 ?_)
  all_goals rfl

set_option maxRecDepth 4000 in
theorem progress_taskRun_overlapping :
    let inserted := taskRun savingsDb savingsRequests (savingsSteps true 7 ++ savingsSteps false 7)
    let s := taskRun savingsDb savingsRequests savingsTurns
    (∀ i, (inserted.procs i).tx.isSome) ∧ (∀ i, (s.procs i).tx = none) ∧
      ∃ row, Db.goal s.db 0 = some row ∧ row.progress = 50 ∧
        row.progress = documentedProgress 0 s.db :=
  ⟨fun i => by cases i <;> rfl, fun i => by cases i <;> rfl, _, rfl, rfl,
    progress_taskRun savingsDb savingsRequests savingsTurns recountsFresh_savingsTurns 0 _ rfl⟩

/-- Both requests count the tasks of the goal before either commits. -/
def crossedTurns : List (Choice Bool) :=
  List.replicate 8 ⟨true, .advance 1⟩ ++ List.replicate 8 ⟨false, .advance 2⟩ ++
    List.replicate 4 ⟨true, .advance 1⟩ ++ List.replicate 4 ⟨false, .advance 2⟩

set_option maxRecDepth 4000 in
/-- After both have committed, the goal has one completed task of two, and the
progress 0. -/
theorem not_documentedProgress_crossed :
    let s := taskRun savingsDb savingsRequests crossedTurns
    (∀ i, (s.procs i).tx = none) ∧
      ¬ ∀ row, Db.goal s.db 0 = some row → row.progress = documentedProgress 0 s.db := by
  intro s
  refine ⟨fun i => by cases i <;> rfl, fun h => ?_⟩
  have hcount : goalProgress 0 s.db = 50 := rfl
  have hstored := h _ rfl
  rw [← goalProgress_eq_documentedProgress, hcount] at hstored
  cases hstored

end PersonalDashboard.GoalProgress
