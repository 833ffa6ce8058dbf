import PersonalDashboard.BillingAdvance
import PersonalDashboard.PaymentGuarantees

/-! The billing dates of a subscription that is always paid on the day it is due:
each payment anchors the next date on the one stored, so a date that a short
month clamped stays clamped. -/

set_option autoImplicit false

namespace PersonalDashboard.BillingCycles

open PersonalDashboard.BillingAdvance
open PersonalDashboard.BillingDates
open PersonalDashboard.Bookkeeping
open PersonalDashboard.Calendar
open PersonalDashboard.LedgerContract
open PersonalDashboard.LedgerGuarantees
open PersonalDashboard.LedgerHandlers
open PersonalDashboard.PaymentGuarantees
open PersonalDashboard.ReadCommitted
open PersonalDashboard.RowStore
open PersonalDashboard.Schema

theorem advanceNextBilling_self (due : NaiveDate) :
    advanceNextBilling (some due) due = addMonthsClamped due 1 := by
  have hloop := firstOccurrenceAfter_self due 1199
  simp only [advanceNextBilling, max_self]
  rw [show maxCatchUpMonths = 1199 + 1 from rfl, hloop]

def onTimeBilling (d₀ : NaiveDate) : Nat → NaiveDate
  | 0 => d₀
  | k + 1 => addMonthsClamped (onTimeBilling d₀ k) 1

/-- The day of the first billing date, cut down to the shortest of the months
passed since. -/
def shortestDay (d₀ : NaiveDate) : Nat → Nat
  | 0 => d₀.day
  | k + 1 => min (shortestDay d₀ k) (monthLength (monthIndex d₀ + (k + 1 : Nat)))

theorem monthIndex_onTimeBilling (d₀ : NaiveDate) (k : Nat) :
    monthIndex (onTimeBilling d₀ k) = monthIndex d₀ + k := by
  induction k with
  | zero => exact (add_zero _).symm
  | succ k ih =>
      rw [onTimeBilling, monthIndex_addMonthsClamped, ih]
      omega

theorem day_onTimeBilling (d₀ : NaiveDate) (k : Nat) :
    (onTimeBilling d₀ k).day = shortestDay d₀ k := by
  induction k with
  | zero => rfl
  | succ k ih =>
      rw [onTimeBilling, day_addMonthsClamped, ih, monthIndex_onTimeBilling, shortestDay, add_assoc]
      rfl

theorem le_shortestDay_iff (d₀ : NaiveDate) (k n : Nat) :
    n ≤ shortestDay d₀ k ↔
      n ≤ d₀.day ∧ ∀ i : Nat, 1 ≤ i → i ≤ k → n ≤ monthLength (monthIndex d₀ + i) := by
  induction k with
  | zero => exact ⟨fun h => ⟨h, fun i hi hi' => by omega⟩, fun h => h.1⟩
  | succ k ih =>
      rw [shortestDay, le_min_iff, ih]
      constructor
      · rintro ⟨⟨hday, hmonths⟩, hlast⟩
        refine ⟨hday, fun i hi hik => ?_⟩
        rcases Nat.le_succ_iff.mp hik with hik | rfl
        · exact hmonths i hi hik
        · exact hlast
      · rintro ⟨hday, hmonths⟩
        exact ⟨⟨hday, fun i hi hik => hmonths i hi (Nat.le_succ_of_le hik)⟩,
          hmonths (k + 1) (Nat.le_add_left 1 k) le_rfl⟩

theorem onTimeBilling_eq_iff (d₀ : NaiveDate) (k : Nat) :
    onTimeBilling d₀ k = addMonthsClamped d₀ k ↔
      ∀ i : Nat, 1 ≤ i → i < k →
        min d₀.day (monthLength (monthIndex d₀ + k)) ≤ monthLength (monthIndex d₀ + i) := by
  have hday : onTimeBilling d₀ k = addMonthsClamped d₀ k ↔
      shortestDay d₀ k = (addMonthsClamped d₀ k).day := by
    rw [← day_onTimeBilling]
    refine ⟨congrArg _, eq_of_monthIndex_eq ?_⟩
    rw [monthIndex_onTimeBilling, monthIndex_addMonthsClamped]
  have hle : shortestDay d₀ k ≤ (addMonthsClamped d₀ k).day := by
    obtain ⟨hfirst, hmonths⟩ := (le_shortestDay_iff d₀ k _).mp le_rfl
    rw [day_addMonthsClamped]
    refine le_min hfirst ?_
    rcases Nat.eq_zero_or_pos k with rfl | hk
    · rw [Nat.cast_zero, add_zero, monthLength_monthIndex]
      exact d₀.day_le
    · exact hmonths k hk le_rfl
  rw [hday, le_antisymm_iff, and_iff_right hle, le_shortestDay_iff, day_addMonthsClamped,
    and_iff_right (min_le_left _ _)]
  refine forall_congr' fun i => forall_congr' fun _ => ?_
  constructor
  · exact fun h hik => h hik.le
  · intro h hik
    rcases hik.lt_or_eq with hlt | rfl
    · exact h hlt
    · exact min_le_right _ _

section Runs

variable {ι : Type} {requests : ι → Caller × LedgerRequest} {id : Uuid}

def nextBillingOn (s : Db) (id : Uuid) : Option NaiveDate :=
  (s.subscription id).bind SubscriptionRow.nextBillingOn

theorem nextBillingOn_eq_of_billing {s s' : Db} (h : billing s' id = billing s id) :
    nextBillingOn s' id = nextBillingOn s id := by
  have hbind : ∀ s : Db, nextBillingOn s id = (billing s id).bind Prod.snd := by
    intro s
    rw [nextBillingOn, billing]
    cases Db.subscription s id <;> rfl
  rw [hbind, hbind, h]

def paysFor (id : Uuid) : LedgerRequest → Bool
  | .paySubscription _ id' _ => id' = id
  | _ => false

def payments (requests : ι → Caller × LedgerRequest) (id : Uuid) (commits : List (Commit ι Row)) :
    List (Commit ι Row) :=
  commits.filter fun c => paysFor id (requests c.proc).2

/-- Each payment of the subscription is made on the day it is due. -/
def OnTime (requests : ι → Caller × LedgerRequest) (id : Uuid)
    (commits : List (Commit ι Row)) : Prop :=
  ∀ c ∈ commits, ∀ today accountId,
    (requests c.proc).2 = .paySubscription today id accountId →
      nextBillingOn c.before id = some today

theorem nextBillingOn_of_effect {caller : Caller} {r : LedgerRequest} {s s' : Db} {d₀ : NaiveDate}
    {k : Nat} (h : Effect caller r s s') (hdelete : r ≠ .deleteSubscription id)
    (hontime : ∀ today accountId, r = .paySubscription today id accountId →
      nextBillingOn s id = some today)
    (hd : nextBillingOn s id = some (onTimeBilling d₀ k)) :
    nextBillingOn s' id = some (onTimeBilling d₀ (k + (if paysFor id r then 1 else 0))) := by
  by_cases hpay : ∃ today accountId, r = .paySubscription today id accountId
  · obtain ⟨today, accountId, rfl⟩ := hpay
    have htoday := hontime today accountId rfl
    obtain ⟨_, _, sub, hpaid⟩ := h
    have hsub : sub.nextBillingOn = some today := by
      rw [nextBillingOn, hpaid.stored, Option.bind_some] at htoday
      exact htoday
    have heq : today = onTimeBilling d₀ k := Option.some.inj (htoday.symm.trans hd)
    rw [nextBillingOn, hpaid.paid, Option.bind_some]
    simp only [hsub, advanceNextBilling_self, paysFor, decide_true, if_true, onTimeBilling, heq]
  · have hsame := billing_of_effect h hdelete fun today accountId heq =>
      hpay ⟨today, accountId, heq⟩
    have hnot : paysFor id r = false := by
      cases r with
      | paySubscription today id' accountId =>
          refine decide_eq_false ?_
          rintro rfl
          exact hpay ⟨today, accountId, rfl⟩
      | _ => rfl
    rw [nextBillingOn_eq_of_billing hsame, hd, hnot]
    rfl

theorem nextBillingOn_of_chained {db₀ db : Db} {commits : List (Commit ι Row)} {d₀ : NaiveDate}
    (hchain : Chained db₀ commits db)
    (heffect : ∀ c ∈ commits, Effect (requests c.proc).1 (requests c.proc).2 c.before c.after)
    (hdelete : ∀ i, (requests i).2 ≠ .deleteSubscription id)
    (hontime : OnTime requests id commits) (hd₀ : nextBillingOn db₀ id = some d₀) :
    nextBillingOn db id =
      some (onTimeBilling d₀ (payments requests id commits).length) := by
  induction commits generalizing db with
  | nil =>
      obtain rfl := hchain
      exact hd₀
  | cons c commits ih =>
      obtain ⟨rfl, hchain⟩ := hchain
      have hbefore := ih hchain (fun c' hc' => heffect c' (List.mem_cons_of_mem _ hc'))
        fun c' hc' => hontime c' (List.mem_cons_of_mem _ hc')
      have hafter := nextBillingOn_of_effect (heffect c List.mem_cons_self) (hdelete _)
        (hontime c List.mem_cons_self) hbefore
      rw [hafter, payments, payments, List.filter_cons]
      split
      · rfl
      · rfl

end Runs

/-- In every run in which each payment of a subscription is made on the day it is
due, and nobody deletes it, the billing date after `k` payments lies `k` months
after the first one. Its day is that of the first one, cut down to the shortest
month passed since; it is the first date plus `k` months exactly when none of the
months passed on the way was too short for that date. -/
theorem nextBillingOn_ledgerRun {ι : Type} [DecidableEq ι] (db : LedgerDb)
    (requests : ι → Caller × LedgerRequest) (id : Uuid) (d₀ : NaiveDate)
    (hd₀ : nextBillingOn db.store id = some d₀)
    (hdelete : ∀ i, (requests i).2 ≠ .deleteSubscription id) (cs : List (Choice ι))
    (hontime : OnTime requests id (ledgerRun db requests cs).commits) :
    let s := ledgerRun db requests cs
    let k := (payments requests id s.commits).length
    ∃ next, nextBillingOn s.db id = some next ∧ monthIndex next = monthIndex d₀ + k ∧
      next.day = shortestDay d₀ k ∧
      (next = addMonthsClamped d₀ k ↔ ∀ i : Nat, 1 ≤ i → i < k →
        min d₀.day (monthLength (monthIndex d₀ + k)) ≤ monthLength (monthIndex d₀ + i)) := by
  intro s k
  have hsound := sound_ledgerRun db requests cs
  have hchain : Chained db.store s.commits s.db :=
    chained_run (chained_start _ _) AppError.internal cs
  exact ⟨onTimeBilling d₀ k, nextBillingOn_of_chained hchain hsound.allowed hdelete hontime hd₀,
    monthIndex_onTimeBilling d₀ k, day_onTimeBilling d₀ k, onTimeBilling_eq_iff d₀ k⟩

def february28 : NaiveDate :=
  ⟨2026, 2, 28, by decide, by decide, by decide, by decide⟩

def januaryDb : LedgerDb where
  store := put (put ∅ (Key.account 1) (some checkingAccount)) (Key.subscription 2)
    (some { internetSubscription with nextBillingOn := some january31 })
  ok id m h := by
    rw [Db.movement_put_of_ne (by simp), Db.movement_put_of_ne (by simp)] at h
    simp [Db.movement] at h

def monthEndRequests (second : Bool) : Caller × LedgerRequest :=
  (⟨⟨fun _ => none, fun _ => none, fun _ => none⟩, 1, 5⟩,
    .paySubscription (if second then february28 else january31) 2 1)

def monthEndTurns : List (Choice Bool) :=
  List.replicate 30 ⟨false, .advance 7⟩ ++ List.replicate 30 ⟨true, .advance 8⟩

set_option maxRecDepth 4000 in
theorem onTime_monthEnd :
    OnTime monthEndRequests 2 (ledgerRun januaryDb monthEndRequests monthEndTurns).commits := by
  have hcommits : (ledgerRun januaryDb monthEndRequests monthEndTurns).commits.map
      (fun c => (c.proc, nextBillingOn c.before 2)) =
        [(true, some february28), (false, some january31)] := rfl
  intro c hc today accountId hpay
  have hmem := List.mem_map_of_mem (f := fun c => (c.proc, nextBillingOn c.before 2)) hc
  rw [hcommits] at hmem
  rcases List.mem_cons.mp hmem with h | h
  · obtain ⟨hproc, hbefore⟩ := Prod.mk.inj h
    rw [hproc] at hpay
    rw [hbefore, ← (LedgerRequest.paySubscription.inj hpay).1]
    rfl
  · obtain ⟨hproc, hbefore⟩ := Prod.mk.inj (List.mem_singleton.mp h)
    rw [hproc] at hpay
    rw [hbefore, ← (LedgerRequest.paySubscription.inj hpay).1]
    rfl

set_option maxRecDepth 4000 in
theorem nextBillingOn_ledgerRun_monthEnd :
    ∃ next, nextBillingOn (ledgerRun januaryDb monthEndRequests monthEndTurns).db 2 = some next ∧
      monthIndex next = monthIndex january31 + 2 ∧ next.day = shortestDay january31 2 := by
  obtain ⟨next, hnext, hmonth, hday, -⟩ := nextBillingOn_ledgerRun januaryDb monthEndRequests 2
    january31 rfl (by simp [monthEndRequests]) monthEndTurns onTime_monthEnd
  exact ⟨next, hnext, hmonth, hday⟩

set_option maxRecDepth 4000 in
/-- After both payments the subscription is due on 28 March, not on the 31st. -/
theorem not_addMonthsClamped_monthEnd :
    OnTime monthEndRequests 2 (ledgerRun januaryDb monthEndRequests monthEndTurns).commits ∧
      (payments monthEndRequests 2
        (ledgerRun januaryDb monthEndRequests monthEndTurns).commits).length = 2 ∧
      nextBillingOn (ledgerRun januaryDb monthEndRequests monthEndTurns).db 2 ≠
        some (addMonthsClamped january31 2) := by
  refine ⟨onTime_monthEnd, rfl, ?_⟩
  have hday : (nextBillingOn (ledgerRun januaryDb monthEndRequests monthEndTurns).db 2).map
      NaiveDate.day = some 28 := rfl
  intro h
  rw [h] at hday
  exact absurd hday (by decide)

end PersonalDashboard.BillingCycles
