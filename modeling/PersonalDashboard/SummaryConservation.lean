import PersonalDashboard.MovementSummary

/-! The summary shares out the counted movements of its window, and every date of
the window falls into one bucket. -/

set_option autoImplicit false

namespace PersonalDashboard.SummaryConservation

open PersonalDashboard.Calendar
open PersonalDashboard.Calendar.NaiveDate
open PersonalDashboard.CalendarUnits
open PersonalDashboard.GroupedSums
open PersonalDashboard.LedgerHandlers
open PersonalDashboard.MovementSummary
open PersonalDashboard.ReadCommitted
open PersonalDashboard.RowStore
open PersonalDashboard.Schema
open PersonalDashboard.SoloRuns

/-- The expense and the income of a movement; a transfer has neither. -/
def flows (m : MovementRow) : Cents × Cents :=
  (if m.direction = .expense then m.amount else 0, if m.direction = .income then m.amount else 0)

/-- The account of a movement is its owner's, active, and in the owner's
currency. -/
def inOpenAccount (s : Db) (m : MovementRow) : Bool :=
  (s.account m.accountId).any fun a =>
    a.userId = m.userId && a.currency = userCurrencySql m.userId s && !a.isArchived

/-- The movements that a summary counts. -/
def Counted (s : Db) (userId : Uuid) (fromDate toDate : NaiveDate) (m : MovementRow) : Bool :=
  m.userId = userId && fromDate ≤ m.occurredOn && m.occurredOn ≤ toDate && inOpenAccount s m

def flowTotal (p : MovementRow → Bool) (s : Db) : Cents × Cents :=
  total (fun
    | .movement _, (m : MovementRow) => if p m then flows m else 0
    | _, _ => 0) s

def rowFlows (r : SummaryRow) : Cents × Cents :=
  flows r.movement.row

def splitSums {κ : Type} (r : Split κ) : Cents × Cents :=
  (r.expense, r.income)

def bucketSums (b : SummaryBucket) : Cents × Cents :=
  (b.expense, b.income)

def totalSums (t : MovementSummaryTotals) : Cents × Cents :=
  (t.expense, t.income)

theorem flowTotal_eq_sumOf (p : MovementRow → Bool) (s : Db) :
    flowTotal p s = sumOf (fun m => if p m.row then flows m.row else 0) (movementRows s) := by
  rw [movementRows, sumOf_filterMap]
  refine sumOf_congr fun e _ => ?_
  obtain ⟨k, r⟩ := e
  cases k <;> rfl

theorem flowTotal_congr {p p' : MovementRow → Bool} {s : Db}
    (h : ∀ m, (if p m then flows m else 0) = if p' m then flows m else 0) :
    flowTotal p s = flowTotal p' s := by
  rw [flowTotal_eq_sumOf, flowTotal_eq_sumOf]
  exact sumOf_congr fun m _ => h m.row

theorem sumOf_joinAccounts (q : MovementRow → AccountRow → Bool) (s : Db) :
    sumOf rowFlows ((joinAccounts s).filter fun r => q r.movement.row r.account) =
      flowTotal (fun m => (s.account m.accountId).any fun a => a.userId = m.userId && q m a) s := by
  rw [sumOf_filter, joinAccounts, sumOf_filterMap, flowTotal_eq_sumOf]
  refine sumOf_congr fun m _ => ?_
  cases s.account m.row.accountId with
  | none => rfl
  | some a =>
      by_cases ha : a.userId = m.row.userId
      · simp [Option.filter, ha, rowFlows]
      · simp [Option.filter, ha]

theorem sumOf_splitRows (p : MovementRow → Bool) (s : Db) (userId : Uuid)
    (fromDate toDate : NaiveDate) :
    sumOf rowFlows ((splitRows userId fromDate toDate (userCurrencySql userId s) s).filter
        fun r => p r.movement.row) =
      flowTotal (fun m => Counted s userId fromDate toDate m && p m) s := by
  rw [splitRows, summaryRows, List.filter_filter, List.filter_filter]
  refine (sumOf_joinAccounts (fun m a => (p m &&
    (decide (a.currency = userCurrencySql userId s) && !a.isArchived &&
      decide (m.direction ≠ .transfer))) &&
    (decide (m.userId = userId) && decide (fromDate ≤ m.occurredOn) &&
      decide (m.occurredOn ≤ toDate))) s).trans (flowTotal_congr fun m => ?_)
  by_cases hdirection : m.direction = .transfer
  · have hzero : flows m = 0 := by simp [flows, hdirection]
    simp [hzero]
  · refine congrArg (fun c : Bool => if c then flows m else 0) (Bool.eq_iff_iff.mpr ?_)
    cases ha : s.account m.accountId with
    | none => simp [Counted, inOpenAccount, ha]
    | some a =>
        simp only [Counted, inOpenAccount, ha, Option.any_some, Bool.and_eq_true,
          decide_eq_true_eq]
        constructor
        · rintro ⟨howner, ⟨hp, hopen, -⟩, ⟨huser, hfrom⟩, hto⟩
          subst huser
          exact ⟨⟨⟨⟨rfl, hfrom⟩, hto⟩, ⟨howner, hopen.1⟩, hopen.2⟩, hp⟩
        · rintro ⟨⟨⟨⟨huser, hfrom⟩, hto⟩, ⟨howner, hcurrency⟩, hopen⟩, hp⟩
          subst huser
          exact ⟨howner, ⟨hp, ⟨hcurrency, hopen⟩, hdirection⟩, ⟨rfl, hfrom⟩, hto⟩

theorem sumOf_splitRows_all (s : Db) (userId : Uuid) (fromDate toDate : NaiveDate) :
    sumOf rowFlows (splitRows userId fromDate toDate (userCurrencySql userId s) s) =
      flowTotal (Counted s userId fromDate toDate) s := by
  have h := sumOf_splitRows (fun _ => true) s userId fromDate toDate
  simpa using h

theorem totals_eq (s : Db) (userId : Uuid) (fromDate toDate : NaiveDate) :
    let totals := summaryTotalsSql userId (userCurrencySql userId s) fromDate toDate s
    (totals.expense, totals.income) = flowTotal (Counted s userId fromDate toDate) s := by
  intro totals
  let rows := summaryRows userId fromDate toDate s
  let currency := userCurrencySql userId s
  calc
    (totals.expense, totals.income) =
        sumOf (fun r => if r.counted currency then rowFlows r else 0) rows := by
      refine (sumOf_prod _ _ rows).symm.trans (sumOf_congr fun r _ => ?_)
      cases r.counted currency <;> rfl
    _ = sumOf rowFlows (rows.filter fun r => r.counted currency) := (sumOf_filter _ _ _).symm
    _ = sumOf rowFlows (splitRows userId fromDate toDate currency s) := by
      rw [splitRows, sumOf_filter, sumOf_filter]
      refine sumOf_congr fun r _ => ?_
      by_cases hdirection : r.movement.row.direction = .transfer
      · simp [rowFlows, flows, hdirection]
      · simp [hdirection]
    _ = flowTotal (Counted s userId fromDate toDate) s :=
      sumOf_splitRows_all s userId fromDate toDate

section Groups

variable {κ : Type} [DecidableEq κ] {key : SummaryRow → κ} {rows : List SummaryRow}

theorem mem_splitBy {r : Split κ} :
    r ∈ splitBy key rows ↔
      r.key ∈ rows.map key ∧ splitSums r = sumOf rowFlows (group key rows r.key) := by
  have hsums : ∀ g : List SummaryRow,
      (sumOf SummaryRow.expense g, sumOf SummaryRow.income g) = sumOf rowFlows g :=
    fun g => (sumOf_prod _ _ g).symm
  simp only [splitBy, List.mem_map, Prod.exists, mem_groupBy]
  constructor
  · rintro ⟨k, g, ⟨hk, rfl⟩, rfl⟩
    exact ⟨hk, hsums _⟩
  · rintro ⟨hk, hr⟩
    refine ⟨r.key, _, ⟨hk, rfl⟩, ?_⟩
    obtain ⟨hexpense, hincome⟩ := Prod.mk.inj ((hsums _).trans hr.symm)
    rw [hexpense, hincome]

theorem nodup_keys_splitBy : ((splitBy key rows).map Split.key).Nodup := by
  rw [splitBy, List.map_map]
  exact nodup_keys_groupBy

theorem sumOf_splitBy : sumOf splitSums (splitBy key rows) = sumOf rowFlows rows := by
  calc
    sumOf splitSums (splitBy key rows) =
        sumOf (fun g => sumOf rowFlows g.2) (groupBy key rows) := by
      rw [splitBy, sumOf_map]
      exact sumOf_congr fun g _ => (sumOf_prod _ _ g.2).symm
    _ = sumOf rowFlows rows := sumOf_groupBy rowFlows

end Groups

theorem lookup_foldl_insert {rows : List (Split NaiveDate)} (h : (rows.map Split.key).Nodup)
    (totals : AList fun _ : NaiveDate => Cents × Cents) :
    let totals' := rows.foldl (fun totals r => totals.insert r.key (r.expense, r.income)) totals
    (∀ r ∈ rows, totals'.lookup r.key = some (splitSums r)) ∧
      ∀ k, k ∉ rows.map Split.key → totals'.lookup k = totals.lookup k := by
  induction rows generalizing totals with
  | nil => simp
  | cons r rows ih =>
      obtain ⟨hnot, hnodup⟩ := List.nodup_cons.mp h
      obtain ⟨hmem, hrest⟩ := ih hnodup (totals.insert r.key (r.expense, r.income))
      refine ⟨fun r' hr' => ?_, fun k hk => ?_⟩
      · rcases List.mem_cons.mp hr' with rfl | hr'
        · exact (hrest _ hnot).trans (AList.lookup_insert _)
        · exact hmem r' hr'
      · obtain ⟨hne, hk⟩ := not_or.mp (mt List.mem_cons.mpr hk)
        exact (hrest k hk).trans (AList.lookup_insert_ne hne)

theorem lookup_bucketTotals_of_mem {rows : List (Split NaiveDate)}
    (h : (rows.map Split.key).Nodup) {r : Split NaiveDate} (hr : r ∈ rows) :
    (bucketTotals rows).lookup r.key = some (splitSums r) :=
  (lookup_foldl_insert h ∅).1 r hr

theorem lookup_bucketTotals_of_not_mem {rows : List (Split NaiveDate)}
    (h : (rows.map Split.key).Nodup) {k : NaiveDate} (hk : k ∉ rows.map Split.key) :
    (bucketTotals rows).lookup k = none :=
  ((lookup_foldl_insert h ∅).2 k hk).trans (AList.lookup_empty k)

theorem fillBuckets_eq {buckets : List SummaryBucket}
    (h : (buckets.map SummaryBucket.fromDate).Nodup)
    (totals : AList fun _ : NaiveDate => Cents × Cents) :
    fillBuckets totals buckets = buckets.map fun b =>
      (totals.lookup b.fromDate).elim b fun sums =>
        { b with expense := sums.1, income := sums.2 } := by
  induction buckets generalizing totals with
  | nil => rfl
  | cons b buckets ih =>
      obtain ⟨hnot, hnodup⟩ := List.nodup_cons.mp h
      rw [fillBuckets, List.map_cons]
      cases hlookup : totals.lookup b.fromDate with
      | none => simp only [ih hnodup, Option.elim_none]
      | some sums =>
          simp only [ih hnodup, Option.elim_some]
          refine congrArg (List.cons _) (List.map_congr_left fun b' hb' => ?_)
          have hne : b'.fromDate ≠ b.fromDate :=
            fun heq => hnot (heq ▸ List.mem_map_of_mem hb')
          rw [AList.lookup_erase_ne hne]

def filledBucket (group : SummaryGroup) (rows : List SummaryRow) (start : NaiveDate) :
    SummaryBucket :=
  let sums := sumOf rowFlows
    (GroupedSums.group (fun r => dateTrunc group r.movement.row.occurredOn) rows start)
  { emptyBucket group start with expense := sums.1, income := sums.2 }

/-- The emitted buckets are the units of the window, each with the sums of its
rows; a unit without rows stays at zero. -/
theorem buckets_eq (s : Db) (userId : Uuid) (fromDate toDate : NaiveDate) (group : SummaryGroup)
    (currency : String) :
    fillBuckets (bucketTotals (summaryBucketsSql userId fromDate toDate group currency s))
        (summaryBucketWindows group fromDate toDate) =
      (group.calendarUnit.starts toDate (group.calendarUnit.firstDay fromDate)).map
        (filledBucket group (splitRows userId fromDate toDate currency s)) := by
  let key : SummaryRow → NaiveDate := fun r => dateTrunc group r.movement.row.occurredOn
  let rows := splitRows userId fromDate toDate currency s
  have hperm : (summaryBucketsSql userId fromDate toDate group currency s).Perm
      (splitBy key rows) := List.mergeSort_perm _ _
  have hnodup : ((summaryBucketsSql userId fromDate toDate group currency s).map
      Split.key).Nodup := (hperm.map Split.key).nodup_iff.mpr nodup_keys_splitBy
  have hstarts := group.calendarUnit.pairwise_starts toDate (group.calendarUnit.firstDay fromDate)
  rw [summaryBucketWindows_eq, fillBuckets_eq, List.map_map]
  · refine List.map_congr_left fun start _ => ?_
    change ((bucketTotals _).lookup start).elim (emptyBucket group start) _ = _
    by_cases hmem : start ∈ rows.map key
    · let sums := sumOf rowFlows (GroupedSums.group key rows start)
      have hrow : (⟨start, sums.1, sums.2⟩ : Split NaiveDate) ∈ splitBy key rows :=
        mem_splitBy.mpr ⟨hmem, rfl⟩
      have hlookup := lookup_bucketTotals_of_mem hnodup (hperm.mem_iff.mpr hrow)
      rw [hlookup]
      rfl
    · have hkey : start ∉ (summaryBucketsSql userId fromDate toDate group currency s).map
          Split.key := by
        intro hin
        obtain ⟨r, hr, rfl⟩ := List.mem_map.mp hin
        exact hmem (mem_splitBy.mp (hperm.mem_iff.mp hr)).1
      have hempty : GroupedSums.group key rows start = [] := group_eq_nil hmem
      rw [lookup_bucketTotals_of_not_mem hnodup hkey, filledBucket]
      simp only [Option.elim_none]
      change _ = { emptyBucket group start with
        expense := (sumOf rowFlows (GroupedSums.group key rows start)).1
        income := (sumOf rowFlows (GroupedSums.group key rows start)).2 }
      rw [hempty]
      rfl
  · rw [List.map_map]
    exact (List.map_id _).symm ▸ hstarts.imp ne_of_lt

theorem bucketSums_filledBucket (s : Db) (userId : Uuid) (fromDate toDate : NaiveDate)
    {group : SummaryGroup} {start : NaiveDate}
    (h : group.calendarUnit.firstDay start = start) :
    bucketSums (filledBucket group
        (splitRows userId fromDate toDate (userCurrencySql userId s) s) start) =
      flowTotal (fun m => Counted s userId fromDate toDate m &&
        (start ≤ m.occurredOn && m.occurredOn ≤ group.calendarUnit.lastDay start)) s := by
  rw [← sumOf_splitRows]
  refine congrArg (sumOf rowFlows) (List.filter_congr fun r _ => ?_)
  have hunit := group.calendarUnit.firstDay_eq_iff start r.movement.row.occurredOn
  rw [h] at hunit
  change decide (group.calendarUnit.firstDay r.movement.row.occurredOn = start) = _
  rw [← Bool.decide_and]
  exact decide_eq_decide.mpr hunit

/-- What the summary of a window promises. -/
structure Conserves (s : Db) (userId : Uuid) (fromDate toDate : NaiveDate) (group : SummaryGroup)
    (r : MovementSummaryResponse) : Prop where
  totals : totalSums r.totals = flowTotal (Counted s userId fromDate toDate) s
  byAccount : sumOf splitSums r.byAccount = totalSums r.totals
  byCategory : sumOf splitSums r.byCategory +
    flowTotal (fun m => Counted s userId fromDate toDate m && m.categoryId.isNone) s =
      totalSums r.totals
  buckets : sumOf bucketSums r.buckets = totalSums r.totals
  /-- An entry of an account has the flows of its movements. -/
  account : ∀ row ∈ r.byAccount, splitSums row =
    flowTotal (fun m => Counted s userId fromDate toDate m && m.accountId = row.key) s
  category : ∀ row ∈ r.byCategory, splitSums row =
    flowTotal (fun m => Counted s userId fromDate toDate m && m.categoryId = some row.key) s
  /-- A bucket has the flows of the movements dated inside it. -/
  bucket : ∀ b ∈ r.buckets, bucketSums b =
    flowTotal (fun m => Counted s userId fromDate toDate m &&
      (b.fromDate ≤ m.occurredOn && m.occurredOn ≤ b.toDate)) s
  contiguous : r.buckets.IsChain fun b b' => b'.fromDate = b.toDate.succ
  increasing : r.buckets.Pairwise fun b b' => b.fromDate < b'.fromDate
  covers : ∃ first last, r.buckets.head? = some first ∧ r.buckets.getLast? = some last ∧
    first.fromDate ≤ fromDate ∧ toDate ≤ last.toDate
  partitions : ∀ d, fromDate ≤ d → d ≤ toDate →
    ∃! b, b ∈ r.buckets ∧ b.fromDate ≤ d ∧ d ≤ b.toDate
  /-- No row of the grouping is dropped. -/
  attached : ∀ row ∈ summaryBucketsSql userId fromDate toDate group (userCurrencySql userId s) s,
    ∃! b, b ∈ r.buckets ∧ b.fromDate = row.key ∧ bucketSums b = splitSums row

def summaryResponse (userId : Uuid) (fromDate toDate : NaiveDate) (group : SummaryGroup)
    (s : Db) : MovementSummaryResponse :=
  let currency := userCurrencySql userId s
  let totals := summaryTotalsSql userId currency fromDate toDate s
  { totals := { expense := totals.expense, income := totals.income, count := totals.count }
    byAccount := summaryByAccountSql userId fromDate toDate currency s
    byCategory := summaryByCategorySql userId fromDate toDate currency s
    buckets := fillBuckets (bucketTotals
        (summaryBucketsSql userId fromDate toDate group currency s))
      (summaryBucketWindows group fromDate toDate)
    recent := (summaryRecentSql userId fromDate toDate s).map MovementBriefResponse.ofRow
    recentTotal := totals.recentTotal }

theorem le_of_parseSummaryWindow {parsers : Validation.Parsers} {fromDate toDate : Option String}
    {window : NaiveDate × NaiveDate}
    (h : parseSummaryWindow parsers fromDate toDate = .ok window) : window.1 ≤ window.2 := by
  cases fromDate with
  | none => cases toDate <;> cases h
  | some rawFrom =>
      cases toDate with
      | none => cases h
      | some rawTo =>
          simp only [parseSummaryWindow, parseMovementRange] at h
          cases hfrom : Validation.validateOccurredOn parsers rawFrom with
          | error e => simp [hfrom, bind, Except.bind] at h
          | ok d =>
              cases hto : Validation.validateOccurredOn parsers rawTo with
              | error e => simp [hfrom, hto, bind, Except.bind] at h
              | ok d' =>
                  by_cases hgt : d > d'
                  · simp [hfrom, hto, hgt, bind, Except.bind] at h
                  · simp only [hfrom, hto, hgt, bind, Except.bind, if_false] at h
                    obtain rfl := Except.ok.inj h
                    exact not_lt.mp hgt

section Response

variable (userId : Uuid) (fromDate toDate : NaiveDate) (group : SummaryGroup) (s : Db)

theorem totalSums_summaryResponse :
    totalSums (summaryResponse userId fromDate toDate group s).totals =
      flowTotal (Counted s userId fromDate toDate) s :=
  totals_eq s userId fromDate toDate

theorem sumOf_summaryByCategorySql :
    sumOf splitSums (summaryByCategorySql userId fromDate toDate (userCurrencySql userId s) s) =
      flowTotal (fun m => Counted s userId fromDate toDate m && m.categoryId.isSome) s := by
  rw [← sumOf_splitRows, summaryByCategorySql, sumOf_perm (List.mergeSort_perm _ _), sumOf_splitBy]

theorem flowTotal_add_isNone (p : MovementRow → Bool) :
    flowTotal (fun m => p m && m.categoryId.isSome) s +
      flowTotal (fun m => p m && m.categoryId.isNone) s = flowTotal p s := by
  rw [flowTotal_eq_sumOf, flowTotal_eq_sumOf, flowTotal_eq_sumOf, ← sumOf_add]
  refine sumOf_congr fun m _ => ?_
  cases p m.row <;> cases m.row.categoryId <;> simp

theorem splitSums_of_mem_byAccount {row : Split Uuid}
    (h : row ∈ summaryByAccountSql userId fromDate toDate (userCurrencySql userId s) s) :
    splitSums row =
      flowTotal (fun m => Counted s userId fromDate toDate m && m.accountId = row.key) s := by
  have hrow := (List.mergeSort_perm _ _).mem_iff.mp h
  rw [(mem_splitBy.mp hrow).2, ← sumOf_splitRows]
  rfl

theorem sumOf_group_category (categoryId : Uuid) :
    sumOf rowFlows (GroupedSums.group (fun r => r.movement.row.categoryId.getD 0)
        ((splitRows userId fromDate toDate (userCurrencySql userId s) s).filter fun r =>
          r.movement.row.categoryId.isSome) categoryId) =
      flowTotal (fun m =>
        Counted s userId fromDate toDate m && m.categoryId = some categoryId) s := by
  rw [← sumOf_splitRows, GroupedSums.group, List.filter_filter]
  refine congrArg (sumOf rowFlows) (List.filter_congr fun r _ => ?_)
  cases r.movement.row.categoryId <;> simp

theorem splitSums_of_mem_byCategory {row : Split Uuid}
    (h : row ∈ summaryByCategorySql userId fromDate toDate (userCurrencySql userId s) s) :
    splitSums row =
      flowTotal (fun m => Counted s userId fromDate toDate m && m.categoryId = some row.key) s := by
  have hrow := (List.mergeSort_perm _ _).mem_iff.mp h
  exact (mem_splitBy.mp hrow).2.trans (sumOf_group_category userId fromDate toDate s row.key)

theorem exists_mem_byCategory {categoryId : Uuid}
    (h : flowTotal (fun m => Counted s userId fromDate toDate m &&
      m.categoryId = some categoryId) s ≠ 0) :
    ∃ row ∈ summaryByCategorySql userId fromDate toDate (userCurrencySql userId s) s,
      row.key = categoryId := by
  rw [← sumOf_group_category] at h
  by_contra hnone
  refine h (congrArg (sumOf rowFlows) (group_eq_nil fun hkey => hnone ?_))
  let sums := sumOf rowFlows (GroupedSums.group (fun r => r.movement.row.categoryId.getD 0)
    ((splitRows userId fromDate toDate (userCurrencySql userId s) s).filter fun r =>
      r.movement.row.categoryId.isSome) categoryId)
  exact ⟨⟨categoryId, sums.1, sums.2⟩,
    (List.mergeSort_perm _ _).mem_iff.mpr (mem_splitBy.mpr ⟨hkey, rfl⟩), rfl⟩

variable {userId fromDate toDate group s}

theorem dateTrunc_mem_starts {currency : String} {r : SummaryRow}
    (hr : r ∈ splitRows userId fromDate toDate currency s) :
    dateTrunc group r.movement.row.occurredOn ∈
      group.calendarUnit.starts toDate (group.calendarUnit.firstDay fromDate) := by
  have hwindow := (List.mem_filter.mp (List.mem_filter.mp hr).1).2
  simp only [Bool.and_eq_true, decide_eq_true_eq] at hwindow
  exact CalendarUnit.firstDay_mem_starts hwindow.1.2 hwindow.2

theorem conserves_summaryResponse (hle : fromDate ≤ toDate) :
    Conserves s userId fromDate toDate group (summaryResponse userId fromDate toDate group s) := by
  let u := group.calendarUnit
  let rows := splitRows userId fromDate toDate (userCurrencySql userId s) s
  let starts := u.starts toDate (u.firstDay fromDate)
  have hbuckets : (summaryResponse userId fromDate toDate group s).buckets =
      starts.map (filledBucket group rows) :=
    buckets_eq s userId fromDate toDate group (userCurrencySql userId s)
  have htotals := totalSums_summaryResponse userId fromDate toDate group s
  have hfirst : ∀ start ∈ starts, u.firstDay start = start := fun start hstart =>
    CalendarUnit.firstDay_of_mem_starts (u.firstDay_firstDay fromDate) hstart
  have hfrom : u.firstDay fromDate ≤ toDate := (u.firstDay_le fromDate).trans hle
  have hhead : starts.head? = some (u.firstDay fromDate) :=
    congrArg List.head? (CalendarUnit.starts_of_le hfrom)
  refine ⟨htotals, ?_, ?_, ?_, fun row hrow => ?_, fun row hrow => ?_, ?_, ?_, ?_, ?_, ?_, ?_⟩
  · rw [htotals, ← sumOf_splitRows_all]
    exact (sumOf_perm (List.mergeSort_perm _ _)).trans sumOf_splitBy
  · rw [htotals]
    refine Eq.trans ?_ (flowTotal_add_isNone s (Counted s userId fromDate toDate))
    rw [← sumOf_summaryByCategorySql]
    rfl
  · rw [htotals, hbuckets, sumOf_map, ← sumOf_splitRows_all]
    refine sumOf_groups ?_ (fun r hr => dateTrunc_mem_starts hr) rowFlows
    exact (u.pairwise_starts toDate _).imp ne_of_lt
  · exact splitSums_of_mem_byAccount userId fromDate toDate s hrow
  · exact splitSums_of_mem_byCategory userId fromDate toDate s hrow
  · intro b hb
    rw [hbuckets] at hb
    obtain ⟨start, hstart, rfl⟩ := List.mem_map.mp hb
    exact bucketSums_filledBucket s userId fromDate toDate (hfirst start hstart)
  · rw [hbuckets, List.isChain_map]
    exact u.isChain_starts toDate _
  · rw [hbuckets, List.pairwise_map]
    exact u.pairwise_starts toDate _
  · refine ⟨filledBucket group rows (u.firstDay fromDate),
      filledBucket group rows (u.firstDay toDate), ?_, ?_, u.firstDay_le fromDate, ?_⟩
    · rw [hbuckets, List.head?_map, hhead, Option.map_some]
    · rw [hbuckets, List.getLast?_map,
        CalendarUnit.getLast?_starts (u.firstDay_firstDay fromDate) hfrom, Option.map_some]
    · exact (u.le_lastDay toDate).trans_eq (u.lastDay_firstDay toDate).symm
  · intro d hfromd hdto
    rw [hbuckets]
    refine ⟨filledBucket group rows (u.firstDay d), ⟨List.mem_map_of_mem ?_, u.firstDay_le d,
      ?_⟩, ?_⟩
    · exact CalendarUnit.firstDay_mem_starts hfromd hdto
    · exact (u.le_lastDay d).trans_eq (u.lastDay_firstDay d).symm
    · rintro b ⟨hb, hge, hle'⟩
      obtain ⟨start, hstart, rfl⟩ := List.mem_map.mp hb
      have hsame := (u.firstDay_eq_iff start d).mpr ⟨(hfirst start hstart).symm ▸ hge, hle'⟩
      rw [hsame, hfirst start hstart]
  · intro row hrow
    obtain ⟨hkey, hsums⟩ := mem_splitBy.mp ((List.mergeSort_perm _ _).mem_iff.mp hrow)
    obtain ⟨r, hr, hrkey⟩ := List.mem_map.mp hkey
    rw [hbuckets]
    refine ⟨filledBucket group rows row.key, ⟨List.mem_map_of_mem ?_, rfl, hsums.symm⟩, ?_⟩
    · exact hrkey ▸ dateTrunc_mem_starts hr
    · rintro b ⟨hb, hfromb, -⟩
      obtain ⟨start, -, rfl⟩ := List.mem_map.mp hb
      exact congrArg (filledBucket group rows) hfromb

end Response

/-- Over an unchanged database, every accepted window and grouping is answered,
and the answer shares out the counted movements of the window. -/
theorem summary_conserves (caller : Caller) (query : MovementSummaryQuery)
    (window : NaiveDate × NaiveDate) (group : SummaryGroup)
    (hwindow : parseSummaryWindow caller.parsers query.fromDate query.toDate = .ok window)
    (hgroup : parseSummaryGroup query.group = .ok group) (s : Db) (ids : Nat → Nat) :
    ∃ response, outcome (movementSummaryHandler caller query) ⟨s, none, ids⟩ =
        (.ok response, s) ∧
      Conserves s caller.userId window.1 window.2 group response := by
  refine ⟨summaryResponse caller.userId window.1 window.2 group s, ?_,
    conserves_summaryResponse (le_of_parseSummaryWindow hwindow)⟩
  simp only [outcome, movementSummaryHandler, hwindow, hgroup]
  rfl

def newYearCaller : Caller :=
  { parsers :=
      { decimal := fun _ => none
        naiveDate := fun raw =>
          if raw = "2026-12-31" then fromYmdOpt 2026 12 31
          else if raw = "2027-01-05" then fromYmdOpt 2027 1 5
          else none
        dateTime := fun _ => none }
    userId := 1, now := 5 }

def newYearDb : Db :=
  put (put ∅ (Key.account 1) (some
    { userId := 1, name := "Corriente", currency := "COP", balance := 10000, notes := none
      color := none, icon := none, isArchived := false, createdAt := 0, updatedAt := 0 }))
    (Key.movement 2) (some
      { userId := 1, accountId := 1, transferAccountId := none, categoryId := none
        direction := .expense, amount := 999
        occurredOn := lastOfMonth 2026 12 january_le december_le
        description := none, subscriptionId := none, createdAt := 0, updatedAt := 0 })

theorem summary_conserves_newYear :
    ∃ response, outcome (movementSummaryHandler newYearCaller
          ⟨some "2026-12-31", some "2027-01-05", some "week"⟩) ⟨newYearDb, none, id⟩ =
        (.ok response, newYearDb) ∧
      Conserves newYearDb 1 ⟨2026, 12, 31, by decide, by decide, by decide, by decide⟩
        ⟨2027, 1, 5, by decide, by decide, by decide, by decide⟩ .week response :=
  summary_conserves newYearCaller ⟨some "2026-12-31", some "2027-01-05", some "week"⟩ (_, _) .week
    rfl rfl newYearDb id

end PersonalDashboard.SummaryConservation
