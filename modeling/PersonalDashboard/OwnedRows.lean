import PersonalDashboard.AssetHandlers
import PersonalDashboard.HabitLogHandlers
import PersonalDashboard.TwinRuns

/-! The owners of the rows, and the frame of two databases that agree on the rows
of one user. -/

set_option autoImplicit false

namespace PersonalDashboard.OwnedRows

open PersonalDashboard.LedgerHandlers
open PersonalDashboard.ReadCommitted
open PersonalDashboard.RowStatements
open PersonalDashboard.RowStore
open PersonalDashboard.Schema
open PersonalDashboard.TaskHandlers
open PersonalDashboard.TwinRuns

def ownerOf : (k : Key) → Row k → Option Uuid
  | .account _, (r : AccountRow) => some r.userId
  | .movement _, (r : MovementRow) => some r.userId
  | .subscription _, (r : SubscriptionRow) => some r.userId
  | .category _, (r : CategoryRow) => some r.userId
  | .preferences userId, _ => some userId
  | .habit _, (r : HabitRow) => some r.userId
  | .habitLog _, (r : HabitLogRow) => some r.userId
  | .goal _, (r : GoalRow) => some r.userId
  | .task _, (r : TaskRow) => some r.userId
  | .event _, (r : EventRow) => some r.userId
  | .asset _, (r : AssetRow) => some r.userId
  | .valuation _, (r : ValuationRow) => some r.userId
  | _, _ => none

/-- The foreign keys that triggers, unique indexes and deletions follow. -/
def references : (k : Key) → Row k → List Key
  | .habitLog _, (r : HabitLogRow) => [.habit r.habitId]
  | .task _, (r : TaskRow) => r.goalId.toList.map .goal
  | .event _, (r : EventRow) => r.taskId.toList.map .task
  | .valuation _, (r : ValuationRow) => [.asset r.assetId]
  | _, _ => []

def keyId : Key → Option Uuid
  | .account id | .movement id | .subscription id | .category id | .habit id | .habitLog id
  | .goal id | .task id | .event id | .asset id | .valuation id => some id
  | _ => none

def ownerAt (k : Key) (s : Db) : Option Uuid :=
  (s.lookup k).bind (ownerOf k)

/-- A database in which every such reference leads to a row of the same owner. -/
structure OwnedDb where
  store : Db
  sameOwner : ∀ k r, store.lookup k = some r → ∀ k' ∈ references k r,
    ownerAt k' store = ownerOf k r

def AgreeFor (userId : Uuid) (s s' : Db) : Prop :=
  ∀ k r, ownerOf k r = some userId → (s.lookup k = some r ↔ s'.lookup k = some r)

def Unused (ids : Nat → Nat) (s : Db) : Prop :=
  ∀ n k, keyId k = some (ids n) → s.lookup k = none

/-- The rows of a user and the rows that a request of the user may add. -/
def Shared (userId : Uuid) (ids : Nat → Nat) (s : Db) (k : Key) : Prop :=
  ownerAt k s = some userId ∨ ∃ n, keyId k = some (ids n)

def frame (userId : Uuid) (ids : Nat → Nat) (s s' : Db) : Frame Row where
  shared := Shared userId ids s
  law k r := ownerOf k r = some userId ∧ ∀ k' ∈ references k r, Shared userId ids s k'
  fresh n := ∃ m, n = ids m
  left := s
  right := s'

theorem ownerAt_eq_some {k : Key} {s : Db} {userId : Uuid} :
    ownerAt k s = some userId ↔ ∃ r, s.lookup k = some r ∧ ownerOf k r = some userId :=
  Option.bind_eq_some_iff

theorem AgreeFor.ownerAt_iff {userId : Uuid} {s s' : Db} (h : AgreeFor userId s s') (k : Key) :
    ownerAt k s = some userId ↔ ownerAt k s' = some userId := by
  rw [ownerAt_eq_some, ownerAt_eq_some]
  constructor
  · rintro ⟨r, hr, howner⟩
    exact ⟨r, (h k r howner).mp hr, howner⟩
  · rintro ⟨r, hr, howner⟩
    exact ⟨r, (h k r howner).mpr hr, howner⟩

theorem ownerOf_isSome {k : Key} {r : Row k} {k' : Key} (h : k' ∈ references k r) :
    ∃ userId, ownerOf k r = some userId := by
  cases k
  case habitLog | task | event | valuation => exact ⟨_, rfl⟩
  all_goals exact (nomatch h)

/-- The rows that two databases share, with what holds of them and of the hidden
ones. -/
structure Divided (W : Frame Row) (userId : Uuid) : Prop where
  law_iff : ∀ k r, W.law k r ↔ ownerOf k r = some userId ∧ ∀ k' ∈ references k r, W.shared k'
  fresh : ∀ n k, keyId k = some n → W.fresh n → W.shared k
  hidden : ∀ k r, (W.left.lookup k = some r ∨ W.right.lookup k = some r) → ¬ W.shared k →
    ownerOf k r ≠ some userId ∧ ∀ k' ∈ references k r, ¬ W.shared k'

section Start

variable {userId : Uuid} {ids : Nat → Nat} {s s' : OwnedDb}

theorem hidden_frame {t : OwnedDb} (hshared : ∀ k, Shared userId ids s.store k ↔
    Shared userId ids t.store k) (hunused : Unused ids t.store) {k : Key} {r : Row k}
    (hr : t.store.lookup k = some r) (hk : ¬ Shared userId ids s.store k) :
    ownerOf k r ≠ some userId ∧ ∀ k' ∈ references k r, ¬ Shared userId ids s.store k' := by
  have howner : ownerOf k r ≠ some userId := fun h =>
    hk ((hshared k).mpr (Or.inl (ownerAt_eq_some.mpr ⟨r, hr, h⟩)))
  refine ⟨howner, fun k' hk' hs => ?_⟩
  have hsame := t.sameOwner k r hr k' hk'
  rcases (hshared k').mp hs with h | ⟨n, hn⟩
  · exact howner (hsame.symm.trans h)
  · obtain ⟨u, hu⟩ := ownerOf_isSome hk'
    rw [ownerAt, hunused n k' hn, hu] at hsame
    cases hsame

theorem divided_frame (h : AgreeFor userId s.store s'.store) (hids : Unused ids s.store)
    (hids' : Unused ids s'.store) : Divided (frame userId ids s.store s'.store) userId := by
  have hshared : ∀ k, Shared userId ids s.store k ↔ Shared userId ids s'.store k := by
    intro k
    exact or_congr (h.ownerAt_iff k) Iff.rfl
  constructor
  · intro k r
    exact Iff.rfl
  · rintro n k hk ⟨m, rfl⟩
    exact Or.inr ⟨m, hk⟩
  · rintro k r (hr | hr) hk
    · exact hidden_frame (fun _ => Iff.rfl) hids hr hk
    · exact hidden_frame hshared hids' hr hk

theorem twin_frame (h : AgreeFor userId s.store s'.store) (hids : Unused ids s.store)
    (hids' : Unused ids s'.store) :
    (frame userId ids s.store s'.store).Twin s.store s'.store := by
  have hlaw : ∀ (t : OwnedDb) k r, AgreeFor userId s.store t.store → Unused ids t.store →
      Shared userId ids s.store k → t.store.lookup k = some r →
        ownerOf k r = some userId ∧ ∀ k' ∈ references k r, Shared userId ids s.store k' := by
    intro t k r hagree hunused hk hr
    have howner : ownerOf k r = some userId := by
      rcases hk with hk | ⟨n, hn⟩
      · obtain ⟨r', hr', howner⟩ := ownerAt_eq_some.mp ((hagree.ownerAt_iff k).mp hk)
        obtain rfl := Option.some.inj (hr.symm.trans hr')
        exact howner
      · rw [hunused n k hn] at hr
        cases hr
    refine ⟨howner, fun k' hk' => Or.inl ((hagree.ownerAt_iff k').mpr ?_)⟩
    rw [t.sameOwner k r hr k' hk', howner]
  refine ⟨fun k hk => ?_, ⟨fun _ _ => rfl, ?_⟩, ⟨fun _ _ => rfl, ?_⟩⟩
  · rcases hk with hk | ⟨n, hn⟩
    · obtain ⟨r, hr, howner⟩ := ownerAt_eq_some.mp hk
      rw [hr, (h k r howner).mp hr]
    · rw [hids n k hn, hids' n k hn]
  · exact fun k r hk hr => hlaw s k r (fun _ _ _ => Iff.rfl) hids hk hr
  · exact fun k r hk hr => hlaw s' k r h hids' hk hr

end Start

namespace Divided

variable {W : Frame Row} {userId : Uuid} {s s' : Db} {k : Key}

theorem reaches_of_owner (hW : Divided W userId) {q : Row k → Bool}
    (h : ∀ r, q r = true → ownerOf k r = some userId) : W.Reaches k q := by
  intro r hq hr
  by_contra hk
  exact (hW.hidden k r hr hk).1 (h r hq)

theorem reaches_of_reference (hW : Divided W userId) {k' : Key} (hk' : W.shared k')
    {q : Row k → Bool} (h : ∀ r, q r = true → k' ∈ references k r) : W.Reaches k q := by
  intro r hq hr
  by_contra hk
  exact (hW.hidden k r hr hk).2 k' (h r hq) hk'

theorem shared_of_owner (hW : Divided W userId) (h : W.Twin s s')
    (hk : ownerAt k s = some userId) : W.shared k := by
  obtain ⟨r, hr, howner⟩ := ownerAt_eq_some.mp hk
  exact h.shared_left (q := fun r => ownerOf k r = some userId)
    (hW.reaches_of_owner fun r hr => of_decide_eq_true hr) hr (decide_eq_true howner)

theorem agreeFor (hW : Divided W userId) (h : W.Twin s s') : AgreeFor userId s s' := by
  intro k r howner
  have hreach : W.Reaches k fun r => ownerOf k r = some userId :=
    hW.reaches_of_owner fun r hr => of_decide_eq_true hr
  exact h.lookup_iff hreach (decide_eq_true howner)

theorem ownerAt_iff (hW : Divided W userId) (h : W.Twin s s') :
    ownerAt k s = some userId ↔ ownerAt k s' = some userId :=
  (hW.agreeFor h).ownerAt_iff k

end Divided

end PersonalDashboard.OwnedRows
