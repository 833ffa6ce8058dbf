import PersonalDashboard.ClientAggregates

/-! The summary of the server gives the client what it would have aggregated itself
from the movements. -/

set_option autoImplicit false

namespace PersonalDashboard.SummaryRefinement

open PersonalDashboard.Calendar
open PersonalDashboard.Calendar.NaiveDate
open PersonalDashboard.CalendarUnits
open PersonalDashboard.ClientAggregates
open PersonalDashboard.DateStrings
open PersonalDashboard.GroupedSums
open PersonalDashboard.JsDate
open PersonalDashboard.LedgerHandlers
open PersonalDashboard.MovementSummary
open PersonalDashboard.OrderedMaps
open PersonalDashboard.ReadCommitted
open PersonalDashboard.RowStore
open PersonalDashboard.Schema
open PersonalDashboard.SoloRuns
open PersonalDashboard.SummaryConservation
open PersonalDashboard.TaskViews
open PersonalDashboard.TrendWindows
open PersonalDashboard.Validation

section Dates

variable {parsers : Parsers} {d e : NaiveDate}

theorem utf8Size_of_mem_dateChars {c : Char} (h : c ∈ dateChars d) :
    c.utf8Size = 1 ∧ isWhiteSpace c = false := by
  have hc := (toNat_of_mem_dateChars h).1
  refine ⟨Char.utf8Size_eq_one_iff.mpr ?_, ?_⟩
  · exact Nat.lt_succ_iff.mp hc
  · rcases mem_dateChars h with rfl | rfl | hdigit
    · decide
    · decide
    · have hdigit := toNat_lt_of_isDigit hdigit
      have h0 : '0'.toNat = 48 := rfl
      simp only [isWhiteSpace, Bool.or_eq_false_iff, Bool.and_eq_false_iff, decide_eq_false_iff_not]
      omega

theorem validateOccurredOn_formatYmd (hparse : parsers.naiveDate (formatYmd d) = some d)
    (hd : FourDigits d) : validateOccurredOn parsers (formatYmd d) = .ok d := by
  have hsize : ∀ c ∈ dateChars d, c.utf8Size = 1 := fun c hc => (utf8Size_of_mem_dateChars hc).1
  have htrim : trim (formatYmd d) = formatYmd d := by
    apply trim_eq_self
    rw [formatYmd, String.toList_ofList]
    exact fun c hc => (utf8Size_of_mem_dateChars hc).2
  have hlen : byteLen (formatYmd d) = 10 :=
    (byteLen_ofList hsize).trans (length_dateChars (by have := hd.1; omega) hd.2)
  have hyear : (padded 4 d.year.natAbs).length = 4 :=
    length_padded (by decide) (by have := hd.1; have := hd.2; omega)
  have hmonth : (padded 2 d.month).length = 2 :=
    length_padded (by decide) (by have := d.month_le; omega)
  have hchars : dateChars d =
      padded 4 d.year.natAbs ++ '-' :: (padded 2 d.month ++ '-' :: padded 2 d.day) := by
    rw [dateChars, yearChars_of_le (by have := hd.1; omega) hd.2]
  have hfour : byteAt (formatYmd d) 4 = some 45 := by
    rw [formatYmd, byteAt_ofList hsize, hchars, List.getElem?_append_right hyear.le, hyear]
    rfl
  have hseven : byteAt (formatYmd d) 7 = some 45 := by
    rw [formatYmd, byteAt_ofList hsize, hchars, List.getElem?_append_right (by omega), hyear,
      List.getElem?_cons_succ, List.getElem?_append_right hmonth.le, hmonth]
    rfl
  simp only [validateOccurredOn, parseCalendarDate, htrim, hlen, hfour, hseven, hparse, and_self,
    if_true]

theorem parseSummaryWindow_formatYmd (hparse : ∀ d, FourDigits d →
      parsers.naiveDate (formatYmd d) = some d)
    (hd : FourDigits d) (he : FourDigits e) (h : d ≤ e) :
    parseSummaryWindow parsers (some (formatYmd d)) (some (formatYmd e)) = .ok (d, e) := by
  have hle : ¬ d > e := not_lt.mpr h
  simp only [parseSummaryWindow, parseMovementRange,
    validateOccurredOn_formatYmd (hparse d hd) hd, validateOccurredOn_formatYmd (hparse e he) he,
    bind, Except.bind, hle, if_false]

theorem formatYmd_injective (hd : FourDigits d) (he : FourDigits e)
    (h : formatYmd d = formatYmd e) : d = e :=
  (formatYmd_eq_iff hd.2 ⟨by have := he.1; omega, he.2⟩).mp h

theorem jsLe_dates_iff {lo hi : NaiveDate} (hlo : FourDigits lo) (hhi : FourDigits hi) :
    (jsLe (formatYmd lo) (formatYmd d) && jsLe (formatYmd d) (formatYmd hi)) =
      (decide (lo ≤ d) && decide (d ≤ hi)) := by
  have hiff := dateChars_between_iff (d := d) (show 0 ≤ lo.year by have := hlo.1; omega) hlo.2
    (show 0 ≤ hi.year by have := hhi.1; omega) hhi.2
  rw [jsLe, jsLe, jsLt_dates, jsLt_dates, ← decide_not, ← decide_not, ← Bool.decide_and,
    ← Bool.decide_and]
  exact decide_eq_decide.mpr hiff

theorem isoWeekKey_injective (hweek : CalendarUnit.week.firstDay d = d)
    (hweek' : CalendarUnit.week.firstDay e = e) (hd : FourDigits d)
    (hd' : FourDigits (CalendarUnit.week.lastDay d)) (he : FourDigits e)
    (he' : FourDigits (CalendarUnit.week.lastDay e))
    (h : summaryBucketKey .week d = summaryBucketKey .week e) : d = e := by
  obtain ⟨hge, hle⟩ := year_le_isoYear hweek
  obtain ⟨hge', hle'⟩ := year_le_isoYear hweek'
  obtain ⟨k, hk, hnumber, hthursday⟩ := exists_isoWeek hweek
  obtain ⟨k', hk', hnumber', hthursday'⟩ := exists_isoWeek hweek'
  have hyear : FourDigits d ∧ FourDigits (CalendarUnit.week.lastDay d) := ⟨hd, hd'⟩
  have hyear' : FourDigits e ∧ FourDigits (CalendarUnit.week.lastDay e) := ⟨he, he'⟩
  simp only [FourDigits] at hyear hyear'
  have hchars := congrArg String.toList h
  simp only [summaryBucketKey, toString_year (y := CalendarUnit.isoYear d) (by omega) (by omega),
    toString_year (y := CalendarUnit.isoYear e) (by omega) (by omega), zeroPad,
    String.toList_append, String.toList_ofList, hnumber, hnumber', List.append_assoc] at hchars
  have hlen : (padded 4 (CalendarUnit.isoYear d).natAbs).length =
      (padded 4 (CalendarUnit.isoYear e).natAbs).length := by
    rw [length_padded (by decide) (by omega), length_padded (by decide) (by omega)]
  obtain ⟨hiso, hrest⟩ := List.append_inj hchars hlen
  have habs := padded_injective 4 hiso
  have hsame : CalendarUnit.isoYear d = CalendarUnit.isoYear e := by omega
  have hweeks : k + 1 = k' + 1 := padded_injective 2 (List.append_cancel_left hrest)
  have hmonday := (numDaysFromCe_thursday hweek).1
  have hmonday' := (numDaysFromCe_thursday hweek').1
  rw [hsame] at hthursday
  apply numDaysFromCe_injective
  omega

theorem summaryBucketKey_injective {period : TrendPeriod}
    (hunit : period.calendarUnit.firstDay d = d) (hunit' : period.calendarUnit.firstDay e = e)
    (hd : FourDigits d) (hd' : FourDigits (period.calendarUnit.lastDay d)) (he : FourDigits e)
    (he' : FourDigits (period.calendarUnit.lastDay e))
    (h : summaryBucketKey period d = summaryBucketKey period e) : d = e := by
  cases period with
  | day => exact formatYmd_injective hd he h
  | week => exact isoWeekKey_injective hunit hunit' hd hd' he he' h
  | month =>
      apply formatYmd_injective hd he
      rw [summaryBucketKey_month hd.1 hd.2, summaryBucketKey_month he.1 he.2] at h
      rw [formatYmd_firstOfMonth hd.1 hd.2 (firstDay_month_eq_self.mp hunit),
        formatYmd_firstOfMonth he.1 he.2 (firstDay_month_eq_self.mp hunit'), h]
  | year =>
      apply formatYmd_injective hd he
      have hsuffix :
          "-" ++ pad2 ((1 : Nat) : Int) ++ ("-" ++ pad2 ((1 : Nat) : Int)) = "-01-01" := by
        decide
      rw [formatYmd_year hd.1 hd.2 (congrArg NaiveDate.month hunit).symm
          (congrArg NaiveDate.day hunit).symm hsuffix,
        formatYmd_year he.1 he.2 (congrArg NaiveDate.month hunit').symm
          (congrArg NaiveDate.day hunit').symm hsuffix]
      exact congrArg (· ++ "-01-01") h

end Dates

section Fetched

variable {userId : Uuid} {fromDate toDate : NaiveDate} {s : Db}

/-- The movements of a user, at least those of a range, in any order. -/
def Fetched (userId : Uuid) (fromDate toDate : NaiveDate) (s : Db)
    (movements : List MovementWire) : Prop :=
  ∃ p : MovementRow → Bool, (∀ m, fromDate ≤ m.occurredOn → m.occurredOn ≤ toDate → p m = true) ∧
    movements.Perm (((movementRows s).filter fun m =>
      m.row.userId = userId && p m.row).map MovementWire.ofRow)

theorem fetched_listMovements (userId : Uuid) (fromDate toDate : NaiveDate) (s : Db) :
    Fetched userId fromDate toDate s
      ((listMovementsBriefSql userId s).map MovementWire.ofRow) := by
  refine ⟨fun _ => true, fun _ _ _ => rfl, ?_⟩
  simp only [Bool.and_true]
  exact (List.mergeSort_perm _ _).map _

theorem fetched_listMovementsRange (userId : Uuid) (fromDate toDate : NaiveDate) (s : Db) :
    Fetched userId fromDate toDate s
      ((listMovementsRangeBriefSql userId fromDate toDate s).map MovementWire.ofRow) := by
  refine ⟨fun m => fromDate ≤ m.occurredOn && m.occurredOn ≤ toDate, fun m h h' => ?_, ?_⟩
  · simp [h, h']
  · simp only [← Bool.and_assoc]
    exact (List.mergeSort_perm _ _).map _

theorem sumOf_fetched {M : Type} [AddCommMonoid M] {movements : List MovementWire}
    (h : Fetched userId fromDate toDate s movements) {f : MovementWire → M}
    {g : Stored MovementRow → M}
    (hzero : ∀ m, ¬ (m.row.userId = userId ∧ fromDate ≤ m.row.occurredOn ∧
      m.row.occurredOn ≤ toDate) → g m = 0)
    (hsame : ∀ m, m.row.userId = userId → f (MovementWire.ofRow m) = g m) :
    sumOf f movements = sumOf g (movementRows s) := by
  obtain ⟨p, hp, hperm⟩ := h
  rw [sumOf_perm hperm, sumOf_map, sumOf_filter]
  refine sumOf_congr fun m _ => ?_
  split
  · rename_i hkept
    simp only [Bool.and_eq_true, decide_eq_true_eq] at hkept
    exact hsame m hkept.1
  · rename_i hdropped
    refine (hzero m ?_).symm
    rintro ⟨hm, hfrom, hto⟩
    simp [hm, hp m.row hfrom hto] at hdropped

theorem mem_accountRows {a : Stored AccountRow} :
    a ∈ accountRows s ↔ s.account a.id = some a.row := by
  rw [accountRows, List.mem_filterMap]
  constructor
  · rintro ⟨⟨k, r⟩, hmem, hsome⟩
    cases k with
    | account id =>
        obtain rfl := Option.some.inj hsome
        exact AList.mem_lookup_iff.mpr hmem
    | _ => cases hsome
  · intro h
    exact ⟨⟨Key.account a.id, a.row⟩, AList.mem_lookup_iff.mp h, rfl⟩

/-- The accounts of the user that are not archived, in any order. -/
def OpenAccounts (userId : Uuid) (s : Db) (accounts : List AccountWire) : Prop :=
  accounts.Perm ((listAccountsBriefSql userId s).map AccountWire.ofRow)

theorem mem_map_currency {accounts : List AccountWire} (h : OpenAccounts userId s accounts)
    {id : Uuid} {currency : String} :
    (id, currency) ∈ accounts.map (fun a => (a.id, a.currency)) ↔
      ∃ a, s.account id = some a ∧ a.userId = userId ∧ a.isArchived = false ∧
        a.currency = currency := by
  rw [(h.map _).mem_iff, List.map_map, List.mem_map]
  simp only [listAccountsBriefSql, List.mem_mergeSort, List.mem_filter, mem_accountRows,
    Bool.and_eq_true, decide_eq_true_eq, Bool.not_eq_true']
  constructor
  · rintro ⟨a, ⟨ha, howner, hopen⟩, heq⟩
    obtain ⟨rfl, rfl⟩ := Prod.mk.inj heq
    exact ⟨a.row, ha, howner, hopen, rfl⟩
  · rintro ⟨a, ha, howner, hopen, rfl⟩
    exact ⟨⟨id, a⟩, ⟨ha, howner, hopen⟩, rfl⟩

/-- The rule of one currency is the same for both: the account is the user's, open,
and in the user's currency. -/
theorem isUserCurrencyMovement_ofRow {accounts : List AccountWire}
    (h : OpenAccounts userId s accounts) {m : Stored MovementRow} (hm : m.row.userId = userId) :
    isUserCurrencyMovement (MovementWire.ofRow m) (currencyByAccountId accounts)
      (userCurrencySql userId s) = inOpenAccount s m.row := by
  apply Bool.eq_iff_iff.mpr
  have hcurrency : ∀ v, (m.row.accountId, v) ∈ accounts.map (fun a => (a.id, a.currency)) ↔ _ :=
    fun v => mem_map_currency h
  simp only [isUserCurrencyMovement, inOpenAccount, decide_eq_true_eq, Option.any_eq_true,
    Bool.and_eq_true, Bool.not_eq_true', hm]
  constructor
  · intro hget
    obtain ⟨a, ha, howner, hopen, hcur⟩ := (hcurrency _).mp (OrderedMap.get_ofList_eq_some hget)
    exact ⟨a, ha, ⟨howner, hcur⟩, hopen⟩
  · rintro ⟨a, ha, ⟨howner, hcur⟩, hopen⟩
    refine OrderedMap.get_ofList_of_mem (fun v hv => ?_)
      ((hcurrency _).mpr ⟨a, ha, howner, hopen, hcur⟩)
    obtain ⟨a', ha', _, _, rfl⟩ := (hcurrency v).mp hv
    obtain rfl := Option.some.inj (ha.symm.trans ha')
    exact hcur

end Fetched

section Trend

variable {zone : LocalZone} {shortMonth : Int → String} {period : TrendPeriod} {now : Int}
variable {d : NaiveDate} {buckets : Option Nat} {n : Nat} {userId : Uuid} {s : Db}
variable {accounts : List AccountWire} {movements : List MovementWire}

def shownStarts (period : TrendPeriod) (n : Nat) (d : NaiveDate) : List NaiveDate :=
  period.calendarUnit.starts (lastShown period d) (firstShown period n d)

theorem fourDigits_of_mem_shownStarts (h : InYears zone period n d) {start : NaiveDate}
    (hstart : start ∈ shownStarts period n d) :
    FourDigits start ∧ FourDigits (period.calendarUnit.lastDay start) := by
  obtain ⟨-, hfrom, hto⟩ := shown_of_mem_starts hstart
  have hlower := h.lower
  have hupper := h.upper
  have hyear := year_le_year hfrom
  have hyear' := year_le_year hto
  have hle := year_le_year (period.calendarUnit.le_lastDay start)
  simp only [FourDigits]
  omega

theorem eq_of_key_eq (h : InYears zone period n d) {start start' : NaiveDate}
    (hstart : start ∈ shownStarts period n d) (hstart' : start' ∈ shownStarts period n d)
    (hkey : summaryBucketKey period start = summaryBucketKey period start') : start = start' := by
  obtain ⟨hfirst, hlast⟩ := fourDigits_of_mem_shownStarts h hstart
  obtain ⟨hfirst', hlast'⟩ := fourDigits_of_mem_shownStarts h hstart'
  exact summaryBucketKey_injective (shown_of_mem_starts hstart).1 (shown_of_mem_starts hstart').1
    hfirst hlast hfirst' hlast' hkey

def windowOf (zone : LocalZone) (shortMonth : Int → String) (period : TrendPeriod)
    (start : NaiveDate) : TrendWindow :=
  trendWindow zone shortMonth period (zone.startOf start)

theorem windowOf_bounds (shortMonth : Int → String) (h : InYears zone period n d)
    {start : NaiveDate}
    (hstart : start ∈ shownStarts period n d) :
    (windowOf zone shortMonth period start).key = summaryBucketKey period start ∧
      (windowOf zone shortMonth period start).fromDate = formatYmd start ∧
      (windowOf zone shortMonth period start).toDate =
        formatYmd (period.calendarUnit.lastDay start) := by
  have hbounds := bounds_of_mem_starts shortMonth h hstart
  exact ⟨congrArg (fun b => b.1) hbounds, congrArg (fun b => b.2.1) hbounds,
    congrArg (fun b => b.2.2) hbounds⟩

theorem inWindow_iff (h : InYears zone period n d) {start : NaiveDate}
    (hstart : start ∈ shownStarts period n d) (e : NaiveDate) :
    (jsLe (windowOf zone shortMonth period start).fromDate (formatYmd e) &&
        jsLe (formatYmd e) (windowOf zone shortMonth period start).toDate) = true ↔
      period.calendarUnit.firstDay e = start := by
  obtain ⟨-, hfrom, hto⟩ := windowOf_bounds shortMonth h hstart
  obtain ⟨hfirst, hlast⟩ := fourDigits_of_mem_shownStarts h hstart
  have hunit := period.calendarUnit.firstDay_eq_iff start e
  rw [(shown_of_mem_starts hstart).1] at hunit
  rw [hfrom, hto, jsLe_dates_iff hfirst hlast, hunit, Bool.and_eq_true, decide_eq_true_eq,
    decide_eq_true_eq]

theorem find?_window_iff (shortMonth : Int → String) (h : InYears zone period n d)
    {start : NaiveDate}
    (hstart : start ∈ shownStarts period n d) (e : NaiveDate) :
    (((shownStarts period n d).map (windowOf zone shortMonth period)).find? fun w =>
        jsLe w.fromDate (formatYmd e) && jsLe (formatYmd e) w.toDate).map TrendWindow.key =
        some (windowOf zone shortMonth period start).key ↔
      period.calendarUnit.firstDay e = start := by
  have hfound : ∀ {w}, ((shownStarts period n d).map (windowOf zone shortMonth period)).find?
      (fun w => jsLe w.fromDate (formatYmd e) && jsLe (formatYmd e) w.toDate) = some w →
      ∃ start' ∈ shownStarts period n d, windowOf zone shortMonth period start' = w ∧
        period.calendarUnit.firstDay e = start' := by
    intro w hw
    obtain ⟨start', hstart', rfl⟩ := List.mem_map.mp (List.mem_of_find?_eq_some hw)
    have hholds := List.find?_some hw
    exact ⟨start', hstart', rfl, (inWindow_iff h hstart' e).mp hholds⟩
  constructor
  · intro hkey
    obtain ⟨w, hw, hwkey⟩ := Option.map_eq_some_iff.mp hkey
    obtain ⟨start', hstart', rfl, hday⟩ := hfound hw
    rw [(windowOf_bounds shortMonth h hstart').1, (windowOf_bounds shortMonth h hstart).1] at hwkey
    exact hday.trans (eq_of_key_eq h hstart' hstart hwkey)
  · intro hday
    cases hw : ((shownStarts period n d).map (windowOf zone shortMonth period)).find?
        (fun w => jsLe w.fromDate (formatYmd e) && jsLe (formatYmd e) w.toDate) with
    | none =>
        have hnone := List.find?_eq_none.mp hw _ (List.mem_map_of_mem hstart)
        exact absurd ((inWindow_iff h hstart e).mpr hday) hnone
    | some w =>
        obtain ⟨start', -, rfl, hday'⟩ := hfound hw
        rw [Option.map_some, ← hday', hday]

theorem direction_ofRow (m : Stored MovementRow) :
    ((MovementWire.ofRow m).direction = "expense" ↔ m.row.direction = .expense) ∧
      ((MovementWire.ofRow m).direction = "income" ↔ m.row.direction = .income) := by
  have hexpense : "expense" = directionText .expense := rfl
  have hincome : "income" = directionText .income := rfl
  rw [hexpense, hincome]
  exact ⟨directionText_injective.eq_iff, directionText_injective.eq_iff⟩

theorem wireFlows_ofRow (m : Stored MovementRow) :
    wireFlows (MovementWire.ofRow m) = flows m.row := by
  obtain ⟨hexpense, hincome⟩ := direction_ofRow m
  exact Prod.ext (if_congr hexpense rfl rfl) (if_congr hincome rfl rfl)

def trendOptions (userId : Uuid) (s : Db) (accounts : List AccountWire) (period : TrendPeriod)
    (now : Int) (buckets : Option Nat) : TotalTrendOptions where
  period := period
  currencyByAccountId := currencyByAccountId accounts
  userCurrency := userCurrencySql userId s
  now := now
  buckets := buckets

theorem sumOf_trend (h : InYears zone period n d) (haccounts : OpenAccounts userId s accounts)
    (hmovements : Fetched userId (firstShown period n d) (lastShown period d) s movements)
    {start : NaiveDate} (hstart : start ∈ shownStarts period n d) :
    sumOf (fun m => if trendKey m ((shownStarts period n d).map (windowOf zone shortMonth period))
          (trendOptions userId s accounts period now buckets) =
        some (windowOf zone shortMonth period start).key then wireFlows m else 0) movements =
      flowTotal (fun m => Counted s userId (firstShown period n d) (lastShown period d) m &&
        (start ≤ m.occurredOn && m.occurredOn ≤ period.calendarUnit.lastDay start)) s := by
  obtain ⟨hself, hfrom, hto⟩ := shown_of_mem_starts hstart
  rw [flowTotal_eq_sumOf]
  apply sumOf_fetched hmovements
  · intro m hm
    rw [if_neg]
    simp only [Counted, Bool.and_eq_true, decide_eq_true_eq]
    rintro ⟨⟨⟨⟨hm₁, hm₂⟩, hm₃⟩, -⟩, -⟩
    exact hm ⟨hm₁, hm₂, hm₃⟩
  · intro m hm
    rw [wireFlows_ofRow]
    by_cases htransfer : m.row.direction = .transfer
    · have hzero : flows m.row = 0 := by simp [flows, htransfer]
      simp [hzero]
    · refine if_congr ?_ rfl rfl
      have hdirection : ((MovementWire.ofRow m).direction = "expense" ||
          (MovementWire.ofRow m).direction = "income") = true := by
        obtain ⟨hexpense, hincome⟩ := direction_ofRow m
        rw [Bool.or_eq_true, decide_eq_true_eq, decide_eq_true_eq, hexpense, hincome]
        cases hdir : m.row.direction with
        | expense => exact Or.inl rfl
        | income => exact Or.inr rfl
        | transfer => exact absurd hdir htransfer
      have hcurrency := isUserCurrencyMovement_ofRow haccounts hm
      have hwindow := find?_window_iff shortMonth h hstart m.row.occurredOn
      have hunit := period.calendarUnit.firstDay_eq_iff start m.row.occurredOn
      rw [hself] at hunit
      simp only [trendKey, hdirection, trendOptions, hcurrency, Bool.true_and]
      simp only [Counted, hm, Bool.and_eq_true, decide_eq_true_eq]
      cases hopen : inOpenAccount s m.row with
      | false => simp
      | true =>
          rw [if_pos rfl]
          refine hwindow.trans (hunit.trans ?_)
          constructor
          · rintro ⟨hge, hle⟩
            exact ⟨⟨⟨⟨trivial, hfrom.trans hge⟩, hle.trans hto⟩, rfl⟩, hge, hle⟩
          · exact fun hcounted => hcounted.2

theorem totals_toTotalTrend (h : InYears zone period n d)
    (haccounts : OpenAccounts userId s accounts)
    (hmovements : Fetched userId (firstShown period n d) (lastShown period d) s movements)
    {start : NaiveDate} (hstart : start ∈ shownStarts period n d) :
    let windows := (shownStarts period n d).map (windowOf zone shortMonth period)
    ((movements.foldl (addToTrend windows (trendOptions userId s accounts period now buckets))
        (OrderedMap.ofList (windows.map fun w => (w.key, 0)))).get
          (windowOf zone shortMonth period start).key).getD 0 =
      flowTotal (fun m => Counted s userId (firstShown period n d) (lastShown period d) m &&
        (start ≤ m.occurredOn && m.occurredOn ≤ period.calendarUnit.lastDay start)) s := by
  intro windows
  have hloop : addToTrend windows (trendOptions userId s accounts period now buckets) =
      OrderedMap.accumulate
        (fun m => trendKey m windows (trendOptions userId s accounts period now buckets))
        wireFlows := by
    funext totals m
    exact addToTrend_eq m windows _ totals
  have hentry : ((windowOf zone shortMonth period start).key, (0 : Cents × Cents)) ∈
      windows.map fun w => (w.key, 0) :=
    List.mem_map.mpr ⟨_, List.mem_map_of_mem hstart, rfl⟩
  have hinit : (OrderedMap.ofList (windows.map fun w => (w.key, (0 : Cents × Cents)))).get
      (windowOf zone shortMonth period start).key = some 0 := by
    refine OrderedMap.get_ofList_of_mem (fun v hv => ?_) hentry
    obtain ⟨w, -, heq⟩ := List.mem_map.mp hv
    exact (congrArg Prod.snd heq).symm
  rw [hloop, OrderedMap.get_foldl_accumulate, hinit, Option.getD_some, zero_add]
  exact sumOf_trend h haccounts hmovements hstart

theorem get_buckets (h : InYears zone period n d) {start : NaiveDate}
    (hstart : start ∈ shownStarts period n d) (rows : List SummaryRow) :
    (OrderedMap.ofList (((shownStarts period n d).map (filledBucket period rows)).map
        fun bucket => (bucket.key, bucket))).get (windowOf zone shortMonth period start).key =
      some (filledBucket period rows start) := by
  rw [(windowOf_bounds shortMonth h hstart).1]
  refine OrderedMap.get_ofList_of_mem (fun bucket hbucket => ?_) ?_
  · rw [List.map_map, List.mem_map] at hbucket
    obtain ⟨start', hstart', heq⟩ := hbucket
    obtain ⟨hkey, rfl⟩ := Prod.mk.inj heq
    rw [eq_of_key_eq h hstart' hstart hkey]
  · rw [List.map_map, List.mem_map]
    exact ⟨start, hstart, rfl⟩

theorem toSummaryTrend_eq (shortMonth : Int → String) (hnow : zone.localDate now = d)
    (hcount : buckets.getD (defaultBuckets period) = n + 1) (h : InYears zone period n d)
    (haccounts : OpenAccounts userId s accounts)
    (hmovements : Fetched userId (firstShown period n d) (lastShown period d) s movements) :
    toSummaryTrend zone shortMonth
        (some (summaryResponse userId (firstShown period n d) (lastShown period d) period s))
        period now buckets =
      toTotalTrend zone shortMonth (some movements)
        (trendOptions userId s accounts period now buckets) := by
  have hwindows : trendBuckets zone shortMonth period now buckets =
      (shownStarts period n d).map (windowOf zone shortMonth period) :=
    trendBuckets_eq_map shortMonth hnow hcount h
  have hwindows' : trendBuckets zone shortMonth
      (trendOptions userId s accounts period now buckets).period
      (trendOptions userId s accounts period now buckets).now
      (trendOptions userId s accounts period now buckets).buckets =
      (shownStarts period n d).map (windowOf zone shortMonth period) := hwindows
  let rows := splitRows userId (firstShown period n d) (lastShown period d)
    (userCurrencySql userId s) s
  have hbuckets : (summaryResponse userId (firstShown period n d) (lastShown period d) period
      s).buckets = (shownStarts period n d).map (filledBucket period rows) := by
    have heq := buckets_eq s userId (firstShown period n d) (lastShown period d) period
      (userCurrencySql userId s)
    rwa [firstDay_firstShown] at heq
  simp only [toSummaryTrend, toTotalTrend, hwindows, hwindows', Option.map_some, Option.getD_some,
    hbuckets]
  apply List.map_congr_left
  intro w hw
  obtain ⟨start, hstart, rfl⟩ := List.mem_map.mp hw
  have hsums := bucketSums_filledBucket s userId (firstShown period n d) (lastShown period d)
    (shown_of_mem_starts hstart).1
  simp only [get_buckets h hstart, totals_toTotalTrend h haccounts hmovements hstart, ← hsums]
  rfl

end Trend

section Slices

variable {userId : Uuid} {fromDate toDate : NaiveDate} {s : Db}
variable {accounts : List AccountWire} {movements : List MovementWire}
variable {categories : Option (List CategoryWire)}

/-- The same slices, up to the order of those of one value. -/
structure SameUpToTies (l l' : List ExpenseCategorySlice) : Prop where
  perm : l.Perm l'
  values : l.map ExpenseCategorySlice.value = l'.map ExpenseCategorySlice.value

theorem sortByValue_perm (l : List ExpenseCategorySlice) : (sortByValue l).Perm l :=
  List.mergeSort_perm _ _

theorem pairwise_sortByValue (l : List ExpenseCategorySlice) :
    ((sortByValue l).map ExpenseCategorySlice.value).Pairwise fun v v' => v' ≤ v := by
  rw [List.pairwise_map]
  refine (List.pairwise_mergeSort ?_ ?_ l).imp fun {a b} h => ?_
  · intro a b c hab hbc
    simp only [decide_eq_true_eq, Cents] at hab hbc ⊢
    omega
  · intro a b
    simp only [Bool.or_eq_true, decide_eq_true_eq, Cents]
    omega
  · exact sub_nonpos.mp (of_decide_eq_true h)

def spent (userId : Uuid) (fromDate toDate : NaiveDate) (s : Db) (categoryId : Uuid) : Cents :=
  (flowTotal (fun m => Counted s userId fromDate toDate m && m.categoryId = some categoryId) s).1

def IsSlice (userId : Uuid) (fromDate toDate : NaiveDate) (s : Db)
    (categories : Option (List CategoryWire)) (slice : ExpenseCategorySlice) : Prop :=
  slice.value ≠ 0 ∧ (nameById categories).has slice.categoryId = true ∧
    slice.name = ((nameById categories).get slice.categoryId).getD "" ∧
    slice.value = spent userId fromDate toDate s slice.categoryId

def expenseOptions (userId : Uuid) (fromDate toDate : NaiveDate) (s : Db)
    (accounts : List AccountWire) (categories : Option (List CategoryWire)) : ExpenseOptions where
  range := (formatYmd fromDate, formatYmd toDate)
  categories := categories
  currencyByAccountId := currencyByAccountId accounts
  userCurrency := userCurrencySql userId s

theorem expenseKey_ofRow (categories : Option (List CategoryWire))
    (hfrom : FourDigits fromDate) (hto : FourDigits toDate)
    (haccounts : OpenAccounts userId s accounts) {m : Stored MovementRow}
    (hm : m.row.userId = userId) (categoryId : Uuid) :
    expenseKey (MovementWire.ofRow m)
        (expenseOptions userId fromDate toDate s accounts categories) = some categoryId ↔
      m.row.direction = .expense ∧ (nameById categories).has categoryId = true ∧
        (Counted s userId fromDate toDate m.row && m.row.categoryId = some categoryId) = true := by
  have hdirection := (direction_ofRow m).1
  have hcurrency := isUserCurrencyMovement_ofRow haccounts hm
  have hrange : (jsLe (formatYmd fromDate) (MovementWire.ofRow m).occurredOn &&
      jsLe (MovementWire.ofRow m).occurredOn (formatYmd toDate)) = _ :=
    jsLe_dates_iff (d := m.row.occurredOn) hfrom hto
  simp only [expenseKey, expenseOptions, hcurrency, hrange, Option.filter_eq_some_iff,
    Bool.and_eq_true, decide_eq_true_eq, hdirection, Counted, hm]
  change m.row.categoryId = some categoryId ∧ _ ↔ _
  constructor
  · rintro ⟨hcategory, ⟨⟨hexpense, hhas⟩, hopen⟩, hafter, hbefore⟩
    exact ⟨hexpense, hhas, ⟨⟨⟨trivial, hafter⟩, hbefore⟩, hopen⟩, hcategory⟩
  · rintro ⟨hexpense, hhas, ⟨⟨⟨-, hafter⟩, hbefore⟩, hopen⟩, hcategory⟩
    exact ⟨hcategory, ⟨⟨hexpense, hhas⟩, hopen⟩, hafter, hbefore⟩

theorem sumOf_expenses (hfrom : FourDigits fromDate) (hto : FourDigits toDate)
    (haccounts : OpenAccounts userId s accounts)
    (hmovements : Fetched userId fromDate toDate s movements) {categoryId : Uuid}
    (hknown : (nameById categories).has categoryId = true) :
    sumOf (fun m => if expenseKey m (expenseOptions userId fromDate toDate s accounts categories) =
        some categoryId then m.amount else 0) movements =
      spent userId fromDate toDate s categoryId := by
  rw [spent, flowTotal_eq_sumOf, fst_sumOf]
  apply sumOf_fetched hmovements
  · intro m hm
    rw [if_neg]
    · rfl
    · simp only [Counted, Bool.and_eq_true, decide_eq_true_eq]
      rintro ⟨⟨⟨⟨hm₁, hm₂⟩, hm₃⟩, -⟩, -⟩
      exact hm ⟨hm₁, hm₂, hm₃⟩
  · intro m hm
    have hkey := expenseKey_ofRow categories hfrom hto haccounts hm categoryId
    rw [apply_ite Prod.fst]
    by_cases hexpense : m.row.direction = .expense
    · have hflow : (flows m.row).1 = m.row.amount := if_pos hexpense
      rw [hflow]
      exact if_congr (hkey.trans ⟨fun h => h.2.2, fun h => ⟨hexpense, hknown, h⟩⟩) rfl rfl
    · have hflow : (flows m.row).1 = 0 := if_neg hexpense
      rw [hflow, if_neg fun h => hexpense (hkey.mp h).1]
      exact (ite_self _).symm

theorem has_of_expenseKey {m : MovementWire} {opts : ExpenseOptions} {categoryId : Uuid}
    (h : expenseKey m opts = some categoryId) :
    (nameById opts.categories).has categoryId = true := by
  simp only [expenseKey, Option.filter_eq_some_iff, Bool.and_eq_true] at h
  exact h.2.1.1.2

theorem totals_toExpenseByCategory (categories : Option (List CategoryWire))
    (hfrom : FourDigits fromDate) (hto : FourDigits toDate)
    (haccounts : OpenAccounts userId s accounts)
    (hmovements : Fetched userId fromDate toDate s movements) (categoryId : Uuid) :
    ((movements.foldl (addExpense (expenseOptions userId fromDate toDate s accounts categories))
        OrderedMap.empty).get categoryId).getD 0 =
      if (nameById categories).has categoryId then spent userId fromDate toDate s categoryId
      else 0 := by
  have hloop : addExpense (expenseOptions userId fromDate toDate s accounts categories) =
      OrderedMap.accumulate
        (fun m => expenseKey m (expenseOptions userId fromDate toDate s accounts categories))
        MovementWire.amount := by
    funext totals m
    exact addExpense_eq m _ totals
  rw [hloop, OrderedMap.get_foldl_accumulate, OrderedMap.get_empty, Option.getD_none, zero_add]
  split
  · rename_i hknown
    exact sumOf_expenses hfrom hto haccounts hmovements hknown
  · rename_i hunknown
    refine (sumOf_congr fun m _ => if_neg fun hkey => ?_).trans (sumOf_zero movements)
    exact hunknown (has_of_expenseKey hkey)

theorem get_eq_some_iff_of_ne_zero {o : Option Cents} {v : Cents} (hv : v ≠ 0) :
    o = some v ↔ o.getD 0 = v := by
  cases o with
  | none => exact iff_of_false (nofun) hv.symm
  | some w => exact Option.some_inj

theorem mem_toExpenseByCategory (hfrom : FourDigits fromDate) (hto : FourDigits toDate)
    (haccounts : OpenAccounts userId s accounts)
    (hmovements : Fetched userId fromDate toDate s movements) {slice : ExpenseCategorySlice} :
    slice ∈ toExpenseByCategory (some movements)
        (expenseOptions userId fromDate toDate s accounts categories) ↔
      IsSlice userId fromDate toDate s categories slice := by
  have htotals := totals_toExpenseByCategory categories hfrom hto haccounts
    hmovements
  obtain ⟨categoryId, name, value⟩ := slice
  simp only [toExpenseByCategory, (sortByValue_perm _).mem_iff, List.mem_map, List.mem_filter,
    Option.getD_some, decide_eq_true_eq, Prod.exists, OrderedMap.mem_entries, IsSlice,
    ExpenseCategorySlice.mk.injEq]
  constructor
  · rintro ⟨c, v, ⟨hget, hv⟩, rfl, rfl, rfl⟩
    have hsum := ((get_eq_some_iff_of_ne_zero hv).mp hget).symm.trans (htotals c)
    split at hsum
    · rename_i hknown
      exact ⟨hv, hknown, rfl, hsum⟩
    · exact absurd hsum hv
  · rintro ⟨hv, hknown, rfl, hspent⟩
    refine ⟨categoryId, value, ⟨(get_eq_some_iff_of_ne_zero hv).mpr ?_, hv⟩, rfl, rfl, rfl⟩
    rw [htotals, if_pos hknown, hspent]

theorem nodup_toExpenseByCategory (movements : Option (List MovementWire)) (opts : ExpenseOptions) :
    (toExpenseByCategory movements opts).Nodup := by
  apply List.Nodup.of_map ExpenseCategorySlice.categoryId
  rw [toExpenseByCategory, ((sortByValue_perm _).map _).nodup_iff, List.map_map]
  exact (OrderedMap.nodup _).sublist (List.filter_sublist.map _)

theorem mem_toSummaryExpenseSlices (group : SummaryGroup) {slice : ExpenseCategorySlice} :
    slice ∈ toSummaryExpenseSlices (some (summaryResponse userId fromDate toDate group s))
        categories ↔ IsSlice userId fromDate toDate s categories slice := by
  have hspent : ∀ row ∈ summaryByCategorySql userId fromDate toDate (userCurrencySql userId s) s,
      row.expense = spent userId fromDate toDate s row.key := fun row hrow =>
    congrArg Prod.fst (splitSums_of_mem_byCategory userId fromDate toDate s hrow)
  obtain ⟨categoryId, name, value⟩ := slice
  simp only [toSummaryExpenseSlices, toSummaryCategorySlices, summaryResponse,
    SliceDirection.amount, (sortByValue_perm _).mem_iff, List.mem_map, List.mem_filter,
    Option.map_some, Option.getD_some, toNumber, decide_eq_true_eq, IsSlice,
    ExpenseCategorySlice.mk.injEq]
  constructor
  · rintro ⟨⟨row, ⟨hrow, hknown⟩, rfl, rfl, rfl⟩, hv⟩
    exact ⟨hv, hknown, rfl, hspent row hrow⟩
  · rintro ⟨hv, hknown, rfl, rfl⟩
    have hflows : flowTotal (fun m => Counted s userId fromDate toDate m &&
        m.categoryId = some categoryId) s ≠ 0 := fun hzero => hv (congrArg Prod.fst hzero)
    obtain ⟨row, hrow, rfl⟩ := exists_mem_byCategory userId fromDate toDate s hflows
    exact ⟨⟨row, ⟨hrow, hknown⟩, rfl, rfl, hspent row hrow⟩, hv⟩

theorem nodup_toSummaryExpenseSlices (group : SummaryGroup) :
    (toSummaryExpenseSlices (some (summaryResponse userId fromDate toDate group s))
      categories).Nodup := by
  have hkeys : ((summaryByCategorySql userId fromDate toDate (userCurrencySql userId s) s).map
      Split.key).Nodup :=
    ((List.mergeSort_perm _ _).map Split.key).nodup_iff.mpr nodup_keys_splitBy
  apply List.Nodup.of_map ExpenseCategorySlice.categoryId
  rw [toSummaryExpenseSlices, toSummaryCategorySlices, ((sortByValue_perm _).map _).nodup_iff]
  refine List.Nodup.sublist (List.filter_sublist.map _) ?_
  rw [List.map_map]
  exact hkeys.sublist (List.filter_sublist.map _)

theorem slices_eq (group : SummaryGroup) (hfrom : FourDigits fromDate) (hto : FourDigits toDate)
    (haccounts : OpenAccounts userId s accounts)
    (hmovements : Fetched userId fromDate toDate s movements) :
    SameUpToTies
      (toSummaryExpenseSlices (some (summaryResponse userId fromDate toDate group s)) categories)
      (toExpenseByCategory (some movements)
        (expenseOptions userId fromDate toDate s accounts categories)) := by
  have hperm : (toSummaryExpenseSlices (some (summaryResponse userId fromDate toDate group s))
      categories).Perm (toExpenseByCategory (some movements)
        (expenseOptions userId fromDate toDate s accounts categories)) := by
    apply (List.perm_ext_iff_of_nodup (nodup_toSummaryExpenseSlices group)
      (nodup_toExpenseByCategory _ _)).mpr
    intro slice
    rw [mem_toSummaryExpenseSlices, mem_toExpenseByCategory hfrom hto haccounts hmovements]
  exact ⟨hperm, (hperm.map _).eq_of_pairwise (fun v v' _ _ hv hv' => le_antisymm hv' hv)
    (pairwise_sortByValue _) (pairwise_sortByValue _)⟩

end Slices

/-- Reading the dates of four digits that the client writes. -/
def ReadsDates (parsers : Parsers) : Prop :=
  ∀ d, FourDigits d → parsers.naiveDate (formatYmd d) = some d

/-- The server's summary of the range that the client asks for has the windows of the
client's trend, and gives it the trend and the slices that it would have added up
itself from the movements of its open accounts. -/
theorem summary_refines {zone : LocalZone} (shortMonth : Int → String) {period : TrendPeriod}
    {now : Int} {buckets : Option Nat} {n : Nat}
    (hcount : buckets.getD (defaultBuckets period) = n + 1)
    (hyears : InYears zone period n (zone.localDate now)) (caller : Caller)
    (hparse : ReadsDates caller.parsers) (s : Db) (ids : Nat → Nat) :
    ∃ range window response,
      trendRange zone shortMonth period now buckets = some range ∧
      parseSummaryWindow caller.parsers (some range.1) (some range.2) = .ok window ∧
      (summaryBucketWindows period window.1 window.2).map bucketBounds =
        (trendBuckets zone shortMonth period now buckets).map TrendWindow.bounds ∧
      outcome (movementSummaryHandler caller ⟨some range.1, some range.2, some period.asStr⟩)
        ⟨s, none, ids⟩ = (.ok response, s) ∧
      ∀ accounts movements, OpenAccounts caller.userId s accounts →
        Fetched caller.userId window.1 window.2 s movements →
        toSummaryTrend zone shortMonth (some response) period now buckets =
          toTotalTrend zone shortMonth (some movements)
            ⟨period, currencyByAccountId accounts, userCurrencySql caller.userId s, now, buckets⟩ ∧
        ∀ categories, SameUpToTies (toSummaryExpenseSlices (some response) categories)
          (toExpenseByCategory (some movements)
            ⟨range, categories, currencyByAccountId accounts,
              userCurrencySql caller.userId s⟩) := by
  let d := zone.localDate now
  have hle : firstShown period n d ≤ lastShown period d :=
    (firstShown_le_self period n d).trans (period.calendarUnit.le_lastDay d)
  have hyear := year_le_year hle
  have hfrom : FourDigits (firstShown period n d) := ⟨hyears.lower, hyear.trans hyears.upper⟩
  have hto : FourDigits (lastShown period d) := ⟨hyears.lower.trans hyear, hyears.upper⟩
  have hwindow : parseSummaryWindow caller.parsers (some (formatYmd (firstShown period n d)))
      (some (formatYmd (lastShown period d))) = .ok (firstShown period n d, lastShown period d) :=
    parseSummaryWindow_formatYmd hparse hfrom hto hle
  have hgroup : parseSummaryGroup (some period.asStr) = .ok period := by
    cases period <;> rfl
  refine ⟨(formatYmd (firstShown period n d), formatYmd (lastShown period d)),
    (firstShown period n d, lastShown period d),
    summaryResponse caller.userId (firstShown period n d) (lastShown period d) period s,
    trendRange_eq shortMonth rfl hcount hyears, hwindow,
    (bounds_trendBuckets shortMonth rfl hcount hyears).symm, ?_, ?_⟩
  · simp only [outcome, movementSummaryHandler, hwindow, hgroup]
    rfl
  · intro accounts movements haccounts hmovements
    refine ⟨toSummaryTrend_eq shortMonth rfl hcount hyears haccounts hmovements, ?_⟩
    exact fun categories => slices_eq period hfrom hto haccounts hmovements

def bogota : LocalZone :=
  LocalZone.fixed (-18_000_000)

/-- A reader of the dates of the form `YYYY-MM-DD`. -/
def ymdParsers : Parsers where
  decimal _ := none
  naiveDate raw := do
    let (year, month, day) ← matchDate raw
    fromYmdOpt year month day
  dateTime _ := none

theorem readsDates_ymdParsers : ReadsDates ymdParsers := by
  intro d hd
  have hyear : 0 ≤ d.year := by have := hd.1; omega
  have habs : (d.year.natAbs : Int) = d.year := Int.natAbs_of_nonneg hyear
  simp only [ymdParsers, matchDate_formatYmd hyear hd.2, Option.bind_eq_bind, Option.bind_some,
    habs]
  exact fromYmdOpt_self d

theorem inYears_newYear : InYears bogota .week 1 (bogota.localDate 1798736400000) where
  lower := by decide
  upper := by decide
  regular := LocalZone.regular_fixed _ _ _

theorem summary_refines_newYear :
    ∃ range window response,
      trendRange bogota (fun _ => "dic") .week 1798736400000 (some 2) = some range ∧
      parseSummaryWindow ymdParsers (some range.1) (some range.2) = .ok window ∧
      (summaryBucketWindows .week window.1 window.2).map bucketBounds =
        (trendBuckets bogota (fun _ => "dic") .week 1798736400000 (some 2)).map TrendWindow.bounds ∧
      outcome (movementSummaryHandler ⟨ymdParsers, 1, 5⟩
        ⟨some range.1, some range.2, some "week"⟩) ⟨newYearDb, none, id⟩ =
          (.ok response, newYearDb) ∧
      ∀ accounts movements, OpenAccounts 1 newYearDb accounts →
        Fetched 1 window.1 window.2 newYearDb movements →
        toSummaryTrend bogota (fun _ => "dic") (some response) .week 1798736400000 (some 2) =
          toTotalTrend bogota (fun _ => "dic") (some movements)
            ⟨.week, currencyByAccountId accounts, userCurrencySql 1 newYearDb, 1798736400000,
              some 2⟩ ∧
        ∀ categories, SameUpToTies (toSummaryExpenseSlices (some response) categories)
          (toExpenseByCategory (some movements)
            ⟨range, categories, currencyByAccountId accounts, userCurrencySql 1 newYearDb⟩) :=
  summary_refines (fun _ => "dic") rfl inYears_newYear ⟨ymdParsers, 1, 5⟩ readsDates_ymdParsers
    newYearDb id

end PersonalDashboard.SummaryRefinement
