import PersonalDashboard.DateParsing
import PersonalDashboard.PeriodRanges
import PersonalDashboard.TextIndices

/-! The activity report of a period, and the days on which the browser's clocks show what it
lists. -/

set_option autoImplicit false

namespace PersonalDashboard.ActivityReports

open PersonalDashboard.Calendar
open PersonalDashboard.Calendar.NaiveDate
open PersonalDashboard.CalendarReads
open PersonalDashboard.DateParsing (isWhiteSpace_of_isDigit)
open PersonalDashboard.DateStrings
open PersonalDashboard.EventHandlers
open PersonalDashboard.Instants
open PersonalDashboard.JsDate
open PersonalDashboard.LedgerHandlers
open PersonalDashboard.PeriodRanges
open PersonalDashboard.ReadCommitted
open PersonalDashboard.RowStore
open PersonalDashboard.Schema
open PersonalDashboard.SoloRuns
open PersonalDashboard.TaskViews
open PersonalDashboard.TextIndices (append_cons_inj)
open PersonalDashboard.TrendWindows
open PersonalDashboard.Validation

/-- `s.slice(0, 10)`. -/
def firstTen (s : String) : String :=
  String.ofList (s.toList.take 10)

def inRange (day : Option String) (range : DateRange) : Bool :=
  match day with
  | none => false
  | some day =>
      if day = "" then false
      else
        let date := firstTen day
        !jsLt date range.fromDate && !jsLt range.toDate date

def overlapsRange (startsAt : String) (endsAt : Option String) (range : DateRange) : Bool :=
  if startsAt = "" then false
  else
    let starts := firstTen startsAt
    let ends := firstTen (endsAt.getD startsAt)
    !jsLt range.toDate starts && !jsLt ends range.fromDate

def completions : TasksResponse → List (Uuid × Option Timestamp)
  | .full tasks => tasks.map fun t => (t.id, t.completedAt)
  | .brief tasks => tasks.map fun t => (t.id, t.completedAt)

def occasions : EventsResponse → List (Uuid × Timestamp × Option Timestamp)
  | .full events => events.map fun e => (e.id, e.startsAt, e.endsAt)
  | .brief events => events.map fun e => (e.id, e.startsAt, e.endsAt)

structure Activity where
  doneTasks : List Uuid
  periodEvents : List Uuid

def periodQuery (range : DateRange) : EventRangeQuery :=
  let eventRange := toEventRange range 0
  eventsQuery (some eventRange.fromDate) (some eventRange.toDate)

/-- What the activity block lists for a range; where a read fails, it lists nothing. `rfc3339`
is the server's rendering of a timestamp. -/
def activityBlock (rfc3339 : Timestamp → String) (caller : Caller) (today : NaiveDate)
    (range : DateRange) (w : Session Row) : Activity :=
  match (outcome (listTasksHandler caller today (some "done") (some "brief")) w).1,
      (outcome (listEventsHandler caller (periodQuery range)) w).1 with
  | .ok tasks, .ok events =>
      { doneTasks := ((completions tasks).filter fun t =>
          inRange (t.2.map rfc3339) range).map Prod.fst
        periodEvents := ((occasions events).filter fun e =>
          overlapsRange (rfc3339 e.2.1) (e.2.2.map rfc3339) range).map Prod.fst }
  | _, _ => { doneTasks := [], periodEvents := [] }

/-! ### What is assumed of the libraries -/

/-- A timestamp is written with its date in UTC first. -/
def WritesDates (rfc3339 : Timestamp → String) : Prop :=
  ∀ t, ∃ time, (rfc3339 t).toList = dateChars (utcDate (t / 1000)) ++ 'T' :: time

/-- An RFC 3339 text begins with a year of exactly four digits. -/
def ReadsYears (parsers : Parsers) : Prop :=
  ∀ raw d, parsers.dateTime raw = some d →
    ∃ year rest, raw.toList = year ++ '-' :: rest ∧ year.length = 4 ∧ Numeral year

section Period

variable (dateParse : Timestamp → Option Int) (offset : Int) (first last : NaiveDate)

def InPeriod (t : Timestamp) : Prop :=
  first ≤ (LocalZone.fixed offset).localDate (t / 1000) ∧
    (LocalZone.fixed offset).localDate (t / 1000) ≤ last

def DrawnIn (e : EventRow) : Prop :=
  ∃ d, first ≤ d ∧ d ≤ last ∧
    eventOverlapsDate dateParse offset e.startsAt e.endsAt (formatYmd d)

/-- The report lists what falls into the range on the browser's clocks. -/
structure Agrees (report : Activity) (s : Db) (userId : Uuid) : Prop where
  tasks : ∀ id t completed, s.task id = some t → t.userId = userId →
    t.completedAt = some completed →
      (id ∈ report.doneTasks ↔ InPeriod offset first last completed)
  events : ∀ id e, s.event id = some e → e.userId = userId →
    (id ∈ report.periodEvents ↔ DrawnIn dateParse offset first last e)

/-- The instant is on the same side of the midnights in UTC and of the local ones, where the
range begins and where it ends. -/
def ClearInstant (t : Timestamp) : Prop :=
  (midnight first * 1000 ≤ t ↔ (midnight first - offset) * 1000 ≤ t) ∧
    (t < (midnight last + msPerDay) * 1000 ↔ t < (midnight last + msPerDay - offset) * 1000)

def StartsBefore (e : EventRow) : Prop :=
  e.startsAt < (midnight last + msPerDay - 1) * 1000

/-- The event ends, or starts if it has no end, after the range begins in UTC, and its end has
no year of five digits. -/
def EndsAfter (e : EventRow) : Prop :=
  match e.endsAt with
  | some ends => midnight first * 1000 < ends ∧ (utcDate (ends / 1000)).year ≤ 9999
  | none => midnight first * 1000 ≤ e.startsAt

def StartsBeforeLocal (e : EventRow) : Prop :=
  ∃ start, dateParse e.startsAt = some start ∧ start < midnight last + msPerDay - offset

/-- The event ends after the local midnight at which the range begins; without an end, or with
one that is not after its start, it does not start before it. -/
def EndsAfterLocal (e : EventRow) : Prop :=
  ∃ start, dateParse e.startsAt = some start ∧
    match e.endsAt.bind dateParse with
    | some ends =>
        if ends ≤ start then midnight first - offset ≤ start else midnight first - offset < ends
    | none => midnight first - offset ≤ start

def Within (e : EventRow) : Prop :=
  StartsBefore last e ∧ EndsAfter first e

def WithinLocal (e : EventRow) : Prop :=
  StartsBeforeLocal dateParse offset last e ∧ EndsAfterLocal dateParse offset first e

structure Proper (e : EventRow) : Prop where
  starts : IsYmd (utcDate (e.startsAt / 1000))
  ends : ∀ ends, e.endsAt = some ends → e.startsAt < ends ∧ IsYmd (utcDate (ends / 1000))

/-- A proper event is on the same side of either edge of the range in UTC and on the browser's
clocks. Another one need only lie between the edges in both or in neither. -/
structure ClearEvent (e : EventRow) : Prop where
  proper : Proper e → (StartsBefore last e ↔ StartsBeforeLocal dateParse offset last e) ∧
    (EndsAfter first e ↔ EndsAfterLocal dateParse offset first e)
  improper : ¬ Proper e → (Within first last e ↔ WithinLocal dateParse offset first last e)

def WrittenRange (range : DateRange) : Prop :=
  Written range.fromDate first ∧ Written range.toDate last

/-- All instants are clear of the ends of the range, or, where the server cannot read the range,
nothing falls into it. -/
structure Clear (range : DateRange) (s : Db) (userId : Uuid) : Prop where
  tasks : WrittenRange first last range → ∀ id t completed, s.task id = some t →
    t.userId = userId → t.completedAt = some completed →
      ClearInstant offset first last completed
  events : WrittenRange first last range → ∀ id e, s.event id = some e → e.userId = userId →
    ClearEvent dateParse offset first last e
  noTask : ¬ WrittenRange first last range → ∀ id t completed, s.task id = some t →
    t.userId = userId → t.completedAt = some completed → ¬ InPeriod offset first last completed
  noEvent : ¬ WrittenRange first last range → ∀ id e, s.event id = some e → e.userId = userId →
    ¬ DrawnIn dateParse offset first last e

end Period

section Edges

variable {d first last : NaiveDate} {offset ms : Int}

theorem le_utcDate_iff : d ≤ utcDate ms ↔ midnight d ≤ ms := by
  rw [le_iff, utcDate, numDaysFromCe_ofNumDaysFromCe, midnight,
    ← Int.le_ediv_iff_mul_le (by decide)]
  omega

theorem utcDate_le_iff : utcDate ms ≤ d ↔ ms < midnight d + msPerDay := by
  rw [le_iff, utcDate, numDaysFromCe_ofNumDaysFromCe, midnight]
  simp only [msPerDay]
  omega

theorem midnight_add_le (h : first ≤ last) :
    midnight first + msPerDay ≤ midnight last + msPerDay := by
  rw [le_iff] at h
  simp only [midnight, msPerDay]
  omega

/-- Two windows hold the same instant if it is on the same sides of their ends, where no end of
one comes before a beginning. -/
theorem and_iff_and_iff {a a' b b' : Prop} (h : ¬ b ∨ ¬ b' → a ∧ a') :
    (a ∧ b ↔ a' ∧ b') ↔ (a ↔ a') ∧ (b ↔ b') := by
  by_cases hb : b
  · by_cases hb' : b'
    · simp [hb, hb']
    · obtain ⟨ha, ha'⟩ := h (Or.inr hb')
      simp [ha, ha']
  · obtain ⟨ha, ha'⟩ := h (Or.inl hb)
    simp [ha, ha']

theorem inPeriod_iff {t : Int} : InPeriod offset first last t ↔
    (midnight first - offset) * 1000 ≤ t ∧ t < (midnight last + msPerDay - offset) * 1000 := by
  have hlocal : (LocalZone.fixed offset).localDate (t / 1000) = utcDate (t / 1000 + offset) := rfl
  rw [InPeriod, hlocal, le_utcDate_iff, utcDate_le_iff]
  omega

theorem inPeriod_iff_clearInstant {t : Int} (hle : first ≤ last) (ho : -12 * hour ≤ offset)
    (ho' : offset ≤ 14 * hour) :
    (first ≤ utcDate (t / 1000) ∧ utcDate (t / 1000) ≤ last ↔ InPeriod offset first last t) ↔
      ClearInstant offset first last t := by
  have hday := midnight_add_le hle
  rw [le_utcDate_iff, utcDate_le_iff, inPeriod_iff, and_comm,
    and_comm (a := (midnight first - offset) * 1000 ≤ t), and_iff_and_iff, and_comm]
  · have hfirst : midnight first ≤ t / 1000 ↔ midnight first * 1000 ≤ t := by omega
    have hlast : t / 1000 < midnight last + msPerDay ↔ t < (midnight last + msPerDay) * 1000 := by
      omega
    rw [hfirst, hlast]
    exact Iff.rfl
  · simp only [msPerDay, hour] at *
    omega

end Edges

section Texts

theorem length_dateChars_ge (d : NaiveDate) : 10 ≤ (dateChars d).length := by
  have hpadded : ∀ w n, w ≤ (padded w n).length := by
    intro w n
    rw [padded, List.length_append, List.length_replicate]
    omega
  have hyear : 4 ≤ (yearChars d.year).length := by
    have hlen := hpadded 4 d.year.natAbs
    unfold yearChars
    split
    · exact hlen.trans (Nat.le_succ _)
    split
    · exact hlen.trans (Nat.le_succ _)
    · exact hlen
  have hmonth := hpadded 2 d.month
  have hday := hpadded 2 d.day
  simp only [dateChars, List.length_append, List.length_cons]
  omega

theorem firstTen_eq {rfc3339 : Timestamp → String} (h : WritesDates rfc3339) (t : Timestamp) :
    firstTen (rfc3339 t) = String.ofList ((dateChars (utcDate (t / 1000))).take 10) := by
  obtain ⟨time, htime⟩ := h t
  rw [firstTen, htime, List.take_append_of_le_length (length_dateChars_ge _)]

theorem rfc3339_ne_empty {rfc3339 : Timestamp → String} (h : WritesDates rfc3339) (t : Timestamp) :
    rfc3339 t ≠ "" := by
  obtain ⟨time, htime⟩ := h t
  intro hempty
  rw [hempty] at htime
  simp at htime

theorem jsLt_ofList {l l' : List Char} (h : ∀ c ∈ l, c.toNat < 0x80)
    (h' : ∀ c ∈ l', c.toNat < 0x80) :
    jsLt (String.ofList l) (String.ofList l') = decide (l < l') := by
  rw [jsLt, String.toList_ofList, String.toList_ofList, decide_eq_decide]
  exact codeUnits_lt_iff (fun c hc => (h c hc).trans (by decide)) fun c hc =>
    (h' c hc).trans (by decide)

variable {d u : NaiveDate}

theorem exists_sign (hu : ¬ IsYmd u) :
    ∃ sign l, (dateChars u).take 10 = sign :: l ∧ sign.toNat < '0'.toNat := by
  rw [dateChars, yearChars]
  split
  · exact ⟨'-', _, rfl, by decide⟩
  split
  · exact ⟨'+', _, rfl, by decide⟩
  · exact absurd (show IsYmd u from ⟨by omega, by omega⟩) hu

theorem take_dateChars (hu : IsYmd u) : (dateChars u).take 10 = dateChars u :=
  List.take_of_length_le (length_dateChars hu.1 hu.2).le

theorem take_lt_iff (hd : IsYmd d) : (dateChars u).take 10 < dateChars d ↔ ¬ IsYmd u ∨ u < d := by
  by_cases hu : IsYmd u
  · rw [take_dateChars hu, dateChars_lt_iff hu.1 hu.2 hd.1 hd.2, not_not.mpr hu |> fun h =>
      or_iff_right h]
  · obtain ⟨sign, l, htake, hsign⟩ := exists_sign hu
    rw [htake]
    exact iff_of_true (sign_lt_dateChars hsign hd.1 hd.2) (Or.inl hu)

theorem lt_take_iff (hd : IsYmd d) : dateChars d < (dateChars u).take 10 ↔ IsYmd u ∧ d < u := by
  by_cases hu : IsYmd u
  · rw [take_dateChars hu, dateChars_lt_iff hd.1 hd.2 hu.1 hu.2, and_iff_right hu]
  · obtain ⟨sign, l, htake, hsign⟩ := exists_sign hu
    rw [htake]
    refine iff_of_false (fun h => ?_) fun h => hu h.1
    exact absurd (sign_lt_dateChars hsign hd.1 hd.2) (List.lt_asymm h)

variable {rfc3339 : Timestamp → String} {t : Timestamp}

theorem jsLt_firstTen (h : WritesDates rfc3339) (hd : IsYmd d) :
    jsLt (firstTen (rfc3339 t)) (formatYmd d) ↔
      ¬ IsYmd (utcDate (t / 1000)) ∨ utcDate (t / 1000) < d := by
  rw [firstTen_eq h, formatYmd, jsLt_ofList, decide_eq_true_eq, take_lt_iff hd]
  · exact fun c hc => (toNat_of_mem_dateChars (List.mem_of_mem_take hc)).1
  · exact fun c hc => (toNat_of_mem_dateChars hc).1

theorem jsLt_firstTen' (h : WritesDates rfc3339) (hd : IsYmd d) :
    jsLt (formatYmd d) (firstTen (rfc3339 t)) ↔
      IsYmd (utcDate (t / 1000)) ∧ d < utcDate (t / 1000) := by
  rw [firstTen_eq h, formatYmd, jsLt_ofList, decide_eq_true_eq, lt_take_iff hd]
  · exact fun c hc => (toNat_of_mem_dateChars hc).1
  · exact fun c hc => (toNat_of_mem_dateChars (List.mem_of_mem_take hc)).1

end Texts

section Events

variable {rfc3339 : Timestamp → String} {dateParse : Timestamp → Option Int} {offset : Int}
  {first last : NaiveDate} {e : EventRow}

theorem inEventRange_and_overlapsRange_iff (hwrites : WritesDates rfc3339) (hfirst : IsYmd first)
    (hlast : IsYmd last) :
    inEventRange (midnight first * 1000) ((midnight last + msPerDay - 1) * 1000) e ∧
        overlapsRange (rfc3339 e.startsAt) (e.endsAt.map rfc3339)
          ⟨formatYmd first, formatYmd last⟩ ↔
      Within first last e := by
  have hstarts : StartsBefore last e → utcDate (e.startsAt / 1000) ≤ last := by
    intro h
    rw [StartsBefore] at h
    rw [utcDate_le_iff]
    simp only [Timestamp] at *
    omega
  have hafter : ∀ t : Int, first ≤ utcDate (t / 1000) ↔ midnight first * 1000 ≤ t := by
    intro t
    rw [le_utcDate_iff]
    omega
  have hyear : ∀ {d : NaiveDate}, first ≤ d → 0 ≤ d.year := fun h => hfirst.1.trans (year_le_year h)
  simp only [overlapsRange, if_neg (rfc3339_ne_empty hwrites _), inEventRange, Bool.and_eq_true,
    Bool.not_eq_true', Bool.eq_false_iff, Ne, jsLt_firstTen' hwrites hlast, decide_eq_true_eq]
  cases hends : e.endsAt with
  | none =>
      simp only [Option.map_none, Option.getD_none, jsLt_firstTen hwrites hfirst, Within, EndsAfter,
        hends, Option.isNone_none, Bool.true_or, and_true, not_or, not_not, not_lt, hafter]
      constructor
      · rintro ⟨hbefore, -, -, hge⟩
        exact ⟨hbefore, hge⟩
      · rintro ⟨hbefore, hge⟩
        have hto := hstarts hbefore
        have hpos := hyear ((hafter _).mpr hge)
        exact ⟨hbefore, fun h => not_lt.mpr hto h.2,
          ⟨hpos, (year_le_year hto).trans hlast.2⟩, hge⟩
  | some ends =>
      simp only [Option.map_some, Option.getD_some, jsLt_firstTen hwrites hfirst, Within, EndsAfter,
        hends, Option.isNone_some, Bool.false_or, Option.any_some, decide_eq_true_eq, not_or,
        not_not, not_lt]
      constructor
      · rintro ⟨⟨hbefore, hgt⟩, -, hymd, -⟩
        exact ⟨hbefore, hgt, hymd.2⟩
      · rintro ⟨hbefore, hgt, hle9999⟩
        have hge := (hafter ends).mpr (le_of_lt hgt)
        exact ⟨⟨hbefore, hgt⟩, fun h => not_lt.mpr (hstarts hbefore) h.2,
          ⟨hyear hge, hle9999⟩, hge⟩

theorem exists_day_iff {start stop : Int} (offset : Int) (hle : first ≤ last) (hlt : start < stop) :
    (∃ d, first ≤ d ∧ d ≤ last ∧ start < midnight d + msPerDay - offset ∧
      midnight d - offset < stop) ↔
    start < midnight last + msPerDay - offset ∧ midnight first - offset < stop := by
  constructor
  · rintro ⟨d, hge, hle', hstart, hstop⟩
    have hday := midnight_add_le hge
    have hday' := midnight_add_le hle'
    omega
  · rintro ⟨hstart, hstop⟩
    rcases le_total first (utcDate (start + offset)) with hge | hge
    · have hself := le_utcDate_iff.mp (le_refl (utcDate (start + offset)))
      have hself' := utcDate_le_iff.mp (le_refl (utcDate (start + offset)))
      exact ⟨utcDate (start + offset), hge, utcDate_le_iff.mpr (by omega), by omega, by omega⟩
    · exact ⟨first, le_rfl, hle, by have := utcDate_le_iff.mp hge; omega, hstop⟩

theorem exists_day_iff_point {start : Int} (hle : first ≤ last) :
    (∃ d, first ≤ d ∧ d ≤ last ∧ midnight d - offset ≤ start ∧
      start < midnight d + msPerDay - offset) ↔
    start < midnight last + msPerDay - offset ∧ midnight first - offset ≤ start := by
  have hiff := exists_day_iff offset hle (Int.lt_succ start)
  simp only [Int.lt_add_one_iff] at hiff
  rw [← hiff]
  exact exists_congr fun d => by rw [and_comm (a := start < _)]

theorem drawnIn_iff (hyear : 100 ≤ first.year) (hyear' : last.year ≤ 9999) (hle : first ≤ last) :
    DrawnIn dateParse offset first last e ↔
      WithinLocal dateParse offset first last e := by
  have hbounds : ∀ d, first ≤ d → d ≤ last → localDayBounds offset (formatYmd d) =
      some (midnight d - offset, midnight d + msPerDay - offset) := fun d hd hd' =>
    localDayBounds_formatYmd offset (hyear.trans (year_le_year hd))
      ((year_le_year hd').trans hyear')
  have hdrawn : DrawnIn dateParse offset first last e ↔ ∃ d, first ≤ d ∧ d ≤ last ∧
      eventOverlapsDate dateParse offset e.startsAt e.endsAt (formatYmd d) := Iff.rfl
  cases hstart : dateParse e.startsAt with
  | none =>
      refine iff_of_false ?_ ?_
      · rintro ⟨d, hd, hd', h⟩
        simp [eventOverlapsDate, hbounds d hd hd', hstart] at h
      · rintro ⟨⟨start, h, -⟩, -⟩
        rw [hstart] at h
        cases h
  | some start =>
      have hpoint : (∀ d, first ≤ d → d ≤ last →
          (eventOverlapsDate dateParse offset e.startsAt e.endsAt (formatYmd d) ↔
            midnight d - offset ≤ start ∧ start < midnight d + msPerDay - offset)) →
          (DrawnIn dateParse offset first last e ↔
            start < midnight last + msPerDay - offset ∧ midnight first - offset ≤ start) := by
        intro h
        rw [hdrawn, ← exists_day_iff_point hle]
        exact exists_congr fun d => and_congr_right fun hd => and_congr_right fun hd' => h d hd hd'
      simp only [WithinLocal, StartsBeforeLocal, EndsAfterLocal, hstart, Option.some.injEq,
        exists_eq_left']
      cases hends : e.endsAt.bind dateParse with
      | none =>
          refine hpoint fun d hd hd' => ?_
          simp [eventOverlapsDate, hbounds d hd hd', hstart, hends]
      | some ends =>
          by_cases hinverted : ends ≤ start
          · simp only [if_pos hinverted]
            refine hpoint fun d hd hd' => ?_
            simp [eventOverlapsDate, hbounds d hd hd', hstart, hends, hinverted]
          · simp only [if_neg hinverted]
            rw [hdrawn, ← exists_day_iff offset hle (not_le.mp hinverted)]
            refine exists_congr fun d => and_congr_right fun hd => and_congr_right fun hd' => ?_
            simp [eventOverlapsDate, hbounds d hd hd', hstart, hends, hinverted]

theorem startsBefore_of_not_endsAfter (hparse : ReadsTimestamps dateParse) (hle : first ≤ last)
    (ho : -12 * hour ≤ offset) (ho' : offset ≤ 14 * hour) (hproper : Proper e)
    (h : ¬ EndsAfter first e ∨ ¬ EndsAfterLocal dateParse offset first e) :
    StartsBefore last e ∧ StartsBeforeLocal dateParse offset last e := by
  obtain ⟨start, hstart⟩ := Option.isSome_iff_exists.mp (hparse.isSome _ hproper.starts)
  have hnear : start * 1000 < e.startsAt + 1000 ∧ e.startsAt < start * 1000 + 1000 :=
    hparse.near _ _ hstart
  have hday := midnight_add_le hle
  simp only [EndsAfter, EndsAfterLocal, StartsBefore, StartsBeforeLocal, hstart,
    Option.some.injEq, exists_eq_left', msPerDay, hour, Timestamp] at *
  cases hends : e.endsAt with
  | none =>
      simp only [hends, Option.bind_none] at h
      omega
  | some ends =>
      obtain ⟨hlt, hymd⟩ := hproper.ends ends hends
      obtain ⟨stop, hstop⟩ := Option.isSome_iff_exists.mp (hparse.isSome _ hymd)
      have hmax := hymd.2
      have hpos := Int.sub_pos_of_lt hlt
      simp only [hends, Option.bind_some, hstop] at h
      split at h <;> omega

theorem drawnIn_iff_clearEvent (hparse : ReadsTimestamps dateParse) (hyear : 100 ≤ first.year)
    (hyear' : last.year ≤ 9999) (hle : first ≤ last) (ho : -12 * hour ≤ offset)
    (ho' : offset ≤ 14 * hour) :
    (Within first last e ↔ DrawnIn dateParse offset first last e) ↔
      ClearEvent dateParse offset first last e := by
  rw [drawnIn_iff hyear hyear' hle]
  by_cases hproper : Proper e
  · rw [Within, WithinLocal,
      and_iff_and_iff (startsBefore_of_not_endsAfter hparse hle ho ho' hproper)]
    exact ⟨fun h => ⟨fun _ => h, fun hnot => absurd hproper hnot⟩, fun h => h.proper hproper⟩
  · exact ⟨fun h => ⟨fun hp => absurd hp hproper, fun _ => h⟩, fun h => h.improper hproper⟩

end Events

section Report

variable {rfc3339 : Timestamp → String} {parsers : Parsers} {userId id : Uuid}
  {clock : Timestamp} {today first last : NaiveDate} {range : DateRange} {s : Db}
  {ids : Nat → Nat}

theorem outcome_listTasksHandler (caller : Caller) (today : NaiveDate) (s : Db) (ids : Nat → Nat) :
    outcome (listTasksHandler caller today (some "done") (some "brief")) ⟨s, none, ids⟩ =
      (.ok (listTasks .brief (some .done) today caller.userId s), s) := by
  have htrim : trim "done" = "done" := by decide
  simp only [listTasksHandler, validateTaskView, htrim, parseReadShape]
  rfl

theorem periodQuery_eq {first last : NaiveDate} :
    periodQuery ⟨formatYmd first, formatYmd last⟩ =
      ⟨some (formatYmd first ++ "T00:00:00.000Z"), some (formatYmd last ++ "T23:59:59.999Z"),
        some "brief"⟩ := by
  simp only [periodQuery, toEventRange, lt_irrefl, if_false, eventsQuery, Option.filter_some,
    append_ne_empty, ne_eq, not_false_eq_true, decide_true, if_true]

theorem activityBlock_eq (hbounds : ReadsBounds parsers) (hfirst : IsYmd first)
    (hlast : IsYmd last) (hle : first ≤ last) :
    activityBlock rfc3339 ⟨parsers, userId, clock⟩ today ⟨formatYmd first, formatYmd last⟩
        ⟨s, none, ids⟩ =
      { doneTasks := ((completions (listTasks .brief (some .done) today userId s)).filter fun t =>
          inRange (t.2.map rfc3339) ⟨formatYmd first, formatYmd last⟩).map Prod.fst
        periodEvents := ((occasions (.brief ((listEventsRangeBriefSql (midnight first * 1000)
          ((midnight last + msPerDay - 1) * 1000) userId s).map EventBriefResponse.ofRow))).filter
            fun e => overlapsRange (rfc3339 e.2.1) (e.2.2.map rfc3339)
              ⟨formatYmd first, formatYmd last⟩).map Prod.fst } := by
  have hday := midnight_add_le hle
  have hlt : startOfDay first < endOfDay last := by
    refine DateTime.ofMicros_lt_ofMicros ?_
    simp only [msPerDay, Timestamp] at *
    omega
  rw [activityBlock, outcome_listTasksHandler, periodQuery_eq,
    outcome_listEventsHandler (validateEventDatetime_start hbounds hfirst "from")
      (validateEventDatetime_end hbounds hlast "to") hlt s ids]
  simp only [startOfDay, endOfDay, DateTime.toMicros_ofMicros]

theorem mem_completions {entry : Uuid × Option Timestamp} :
    entry ∈ completions (listTasks .brief (some .done) today userId s) ↔
      ∃ t, s.task entry.1 = some t ∧ t.userId = userId ∧ t.completedAt.isSome ∧
        t.completedAt = entry.2 := by
  rw [listTasks, completions, List.map_map, List.mem_map]
  constructor
  · rintro ⟨t, ht, rfl⟩
    obtain ⟨hlookup, howner, hdone⟩ := mem_tasksWhere.mp ht
    exact ⟨t.row, hlookup, howner, hdone, rfl⟩
  · rintro ⟨t, hlookup, howner, hdone, hcompleted⟩
    exact ⟨⟨entry.1, t⟩, mem_tasksWhere.mpr ⟨hlookup, howner, hdone⟩, Prod.ext rfl hcompleted⟩

theorem mem_occasions {start stop : Timestamp} {entry : Uuid × Timestamp × Option Timestamp} :
    entry ∈ occasions (.brief ((listEventsRangeBriefSql start stop userId s).map
        EventBriefResponse.ofRow)) ↔
      ∃ e, s.event entry.1 = some e ∧ e.userId = userId ∧ inEventRange start stop e ∧
        (e.startsAt, e.endsAt) = entry.2 := by
  rw [occasions, List.map_map, List.mem_map]
  constructor
  · rintro ⟨e, he, rfl⟩
    obtain ⟨hlookup, howner, hrange⟩ := mem_eventsWhere.mp he
    exact ⟨e.row, hlookup, howner, hrange, rfl⟩
  · rintro ⟨e, hlookup, howner, hrange, hspan⟩
    exact ⟨⟨entry.1, e⟩, mem_eventsWhere.mpr ⟨hlookup, howner, hrange⟩, Prod.ext rfl hspan⟩

theorem inRange_iff (hwrites : WritesDates rfc3339) (hfirst : IsYmd first) (hlast : IsYmd last)
    {t : Timestamp} :
    inRange (some (rfc3339 t)) ⟨formatYmd first, formatYmd last⟩ ↔
      first ≤ utcDate (t / 1000) ∧ utcDate (t / 1000) ≤ last := by
  simp only [inRange, if_neg (rfc3339_ne_empty hwrites t), Bool.and_eq_true, Bool.not_eq_true',
    Bool.eq_false_iff, Ne, jsLt_firstTen hwrites hfirst, jsLt_firstTen' hwrites hlast, not_or,
    not_not, not_and, not_lt]
  constructor
  · rintro ⟨⟨hymd, hge⟩, hle⟩
    exact ⟨hge, hle hymd⟩
  · rintro ⟨hge, hle⟩
    exact ⟨⟨⟨hfirst.1.trans (year_le_year hge), (year_le_year hle).trans hlast.2⟩, hge⟩,
      fun _ => hle⟩

theorem mem_doneTasks_iff (hwrites : WritesDates rfc3339) (hbounds : ReadsBounds parsers)
    (hfirst : IsYmd first) (hlast : IsYmd last) (hle : first ≤ last) {t : TaskRow}
    {completed : Timestamp} (ht : s.task id = some t) (howner : t.userId = userId)
    (hcompleted : t.completedAt = some completed) :
    id ∈ (activityBlock rfc3339 ⟨parsers, userId, clock⟩ today
        ⟨formatYmd first, formatYmd last⟩ ⟨s, none, ids⟩).doneTasks ↔
      first ≤ utcDate (completed / 1000) ∧ utcDate (completed / 1000) ≤ last := by
  rw [activityBlock_eq hbounds hfirst hlast hle, ← inRange_iff hwrites hfirst hlast, List.mem_map]
  constructor
  · rintro ⟨entry, hentry, rfl⟩
    obtain ⟨hmem, hrange⟩ := List.mem_filter.mp hentry
    obtain ⟨t', ht', -, -, hcompleted'⟩ := mem_completions.mp hmem
    obtain rfl := Option.some.inj (ht.symm.trans ht')
    rwa [← hcompleted', hcompleted] at hrange
  · intro hrange
    refine ⟨(id, some completed), List.mem_filter.mpr ⟨mem_completions.mpr ?_, hrange⟩, rfl⟩
    exact ⟨t, ht, howner, by rw [hcompleted]; rfl, hcompleted⟩

theorem mem_periodEvents_iff (hwrites : WritesDates rfc3339) (hbounds : ReadsBounds parsers)
    (hfirst : IsYmd first) (hlast : IsYmd last) (hle : first ≤ last) {e : EventRow}
    (he : s.event id = some e) (howner : e.userId = userId) :
    id ∈ (activityBlock rfc3339 ⟨parsers, userId, clock⟩ today
        ⟨formatYmd first, formatYmd last⟩ ⟨s, none, ids⟩).periodEvents ↔
      Within first last e := by
  rw [activityBlock_eq hbounds hfirst hlast hle,
    ← inEventRange_and_overlapsRange_iff hwrites hfirst hlast, List.mem_map]
  constructor
  · rintro ⟨entry, hentry, rfl⟩
    obtain ⟨hmem, hoverlaps⟩ := List.mem_filter.mp hentry
    obtain ⟨e', he', -, hrange, hspan⟩ := mem_occasions.mp hmem
    obtain rfl := Option.some.inj (he.symm.trans he')
    rw [← hspan] at hoverlaps
    exact ⟨hrange, hoverlaps⟩
  · rintro ⟨hrange, hoverlaps⟩
    refine ⟨(id, e.startsAt, e.endsAt), List.mem_filter.mpr ⟨mem_occasions.mpr ?_, hoverlaps⟩, rfl⟩
    exact ⟨e, he, howner, hrange, rfl⟩

theorem toList_year (y : Int) :
    (toString y).toList = (if y < 0 then ['-'] else []) ++ Nat.toDigits 10 y.natAbs := by
  cases y with
  | ofNat n =>
      rw [Int.ofNat_eq_natCast, if_neg (not_lt.mpr (Int.natCast_nonneg n)), toString_natCast,
        String.toList_ofList]
      rfl
  | negSucc n =>
      have hneg : toString (Int.negSucc n) = "-" ++ toString ((n + 1 : Nat) : Int) := rfl
      rw [if_pos (Int.negSucc_lt_zero n), hneg, toString_natCast, String.toList_append]
      simp only [String.toList_ofList]
      rfl

theorem mem_year {y : Int} {c : Char} (h : c ∈ (toString y).toList) : c = '-' ∨ c.isDigit := by
  rw [toList_year] at h
  rcases List.mem_append.mp h with h | h
  · split at h
    · exact Or.inl (List.mem_singleton.mp h)
    · cases h
  · exact Or.inr (Nat.isDigit_of_mem_toDigits (by decide) (by decide) h)

theorem dash_notMem_of_numeral {l : List Char} (h : Numeral l) : '-' ∉ l :=
  fun hmem => absurd (h '-' hmem) (by decide)

theorem not_fourDigits {y : Int} (h : y < 1000 ∨ 9999 < y) {year rest rest' : List Char}
    (hlen : year.length = 4) (hyear : Numeral year)
    (heq : (toString y).toList ++ '-' :: rest = year ++ '-' :: rest') : False := by
  rw [toList_year] at heq
  have hdigits : Numeral (Nat.toDigits 10 y.natAbs) := fun c hc =>
    Nat.isDigit_of_mem_toDigits (by decide) (by decide) hc
  split at heq
  · have hcut : [] ++ '-' :: (Nat.toDigits 10 y.natAbs ++ '-' :: rest) = year ++ '-' :: rest' := heq
    obtain ⟨rfl, -⟩ := append_cons_inj List.not_mem_nil (dash_notMem_of_numeral hyear) hcut
    cases hlen
  · rw [List.nil_append] at heq
    obtain ⟨rfl, -⟩ := append_cons_inj (dash_notMem_of_numeral hdigits)
      (dash_notMem_of_numeral hyear) heq
    have hle : y.natAbs < 10 ^ 4 := (Nat.length_toDigits_le_iff (by decide) (by decide)).mp hlen.le
    have hge : ¬ y.natAbs < 10 ^ 3 := fun hlt => by
      have hshort := (Nat.length_toDigits_le_iff (by decide) (by decide)).mpr hlt
      omega
    omega

theorem validateEventDatetime_isoText (hyears : ReadsYears parsers) {d : NaiveDate}
    (h : d.year < 1000 ∨ 9999 < d.year) {time : String}
    (htime : (time.toList.all fun c => !isWhiteSpace c) = true) (field : String)
    (bound : DateTime) :
    validateEventDatetime parsers (isoText d ++ time) field ≠ .ok bound := by
  have hnot : ∀ c, c = '-' ∨ c.isDigit → isWhiteSpace c = false := by
    rintro c (rfl | hc)
    · decide
    · exact isWhiteSpace_of_isDigit hc
  have hpad : ∀ w n c, c ∈ padded w n → c = '-' ∨ c.isDigit := fun w n c hc =>
    Or.inr (numeral_padded w n c hc)
  have htrim : trim (isoText d ++ time) = isoText d ++ time := by
    apply trim_eq_self
    intro c hc
    simp only [isoText, String.toList_append, List.mem_append, pad2_natCast, zeroPad,
      String.toList_ofList] at hc
    rcases hc with ((((hc | hc) | hc) | hc) | hc) | hc
    · exact hnot c (mem_year hc)
    · exact hnot c (Or.inl (List.mem_singleton.mp hc))
    · exact hnot c (hpad _ _ c hc)
    · exact hnot c (Or.inl (List.mem_singleton.mp hc))
    · exact hnot c (hpad _ _ c hc)
    · simpa using List.all_eq_true.mp htime c hc
  intro hok
  rw [validateEventDatetime, htrim] at hok
  split at hok
  · rename_i parsed hparsed
    obtain ⟨year, rest, hlist, hlen, hyear⟩ := hyears _ _ hparsed
    simp only [isoText, String.toList_append, List.append_assoc] at hlist
    exact not_fourDigits h hlen hyear hlist
  · cases hok

theorem bounds_of_outcome {caller : Caller} {rawFrom rawTo : String} {w : Session Row}
    {response : EventsResponse}
    (h : (outcome (listEventsHandler caller ⟨some rawFrom, some rawTo, some "brief"⟩) w).1 =
      .ok response) :
    (∃ bound, validateEventDatetime caller.parsers rawFrom "from" = .ok bound) ∧
      ∃ bound, validateEventDatetime caller.parsers rawTo "to" = .ok bound := by
  cases hfrom : validateEventDatetime caller.parsers rawFrom "from" with
  | error err =>
      have hrun : (outcome (listEventsHandler caller ⟨some rawFrom, some rawTo, some "brief"⟩)
          w).1 = .error err := by
        simp only [listEventsHandler, parseReadShape, validateOpt, hfrom]
        rfl
      rw [hrun] at h
      cases h
  | ok bound =>
      cases hto : validateEventDatetime caller.parsers rawTo "to" with
      | error err =>
          have hrun : (outcome (listEventsHandler caller ⟨some rawFrom, some rawTo, some "brief"⟩)
              w).1 = .error err := by
            simp only [listEventsHandler, parseReadShape, validateOpt, hfrom, hto]
            rfl
          rw [hrun] at h
          cases h
      | ok bound' => exact ⟨⟨bound, rfl⟩, ⟨bound', rfl⟩⟩

theorem activityBlock_of_not_written (hyears : ReadsYears parsers)
    (hspans : Spans range first last) (h : ¬ WrittenRange first last range) (w : Session Row) :
    activityBlock rfc3339 ⟨parsers, userId, clock⟩ today range w =
      { doneTasks := [], periodEvents := [] } := by
  have hquery : periodQuery range = ⟨some (range.fromDate ++ "T00:00:00.000Z"),
      some (range.toDate ++ "T23:59:59.999Z"), some "brief"⟩ := by
    have hne : ∀ s t : String, t ≠ "" → s ++ t ≠ "" := fun s t ht hempty =>
      ht (String.append_eq_empty_iff.mp hempty).2
    have hfrom := hne range.fromDate "T00:00:00.000Z" (by decide)
    have hto := hne range.toDate "T23:59:59.999Z" (by decide)
    simp only [periodQuery, toEventRange, lt_irrefl, if_false, eventsQuery, Option.filter_some,
      hfrom, hto, ne_eq, not_false_eq_true, decide_true, if_true]
  rw [activityBlock, hquery]
  split
  · rename_i tasks events _ hevents
    obtain ⟨⟨bound, hfrom⟩, ⟨bound', hto⟩⟩ := bounds_of_outcome hevents
    refine absurd ?_ h
    constructor
    · rcases hspans.fromDate.written_or with hwritten | ⟨htext, hyear⟩
      · exact hwritten
      · rw [htext] at hfrom
        exact absurd hfrom (validateEventDatetime_isoText hyears hyear rfl _ _)
    · rcases hspans.toDate.written_or with hwritten | ⟨htext, hyear⟩
      · exact hwritten
      · rw [htext] at hto
        exact absurd hto (validateEventDatetime_isoText hyears hyear rfl _ _)
  · rfl

end Report

section Agreement

variable {rfc3339 : Timestamp → String} {dateParse : Timestamp → Option Int} {parsers : Parsers}
  {offset : Int} {userId : Uuid} {clock : Timestamp} {today first last : NaiveDate}
  {range : DateRange} {s : Db} {ids : Nat → Nat}

theorem agrees_iff_clear (hbounds : ReadsBounds parsers) (hyears : ReadsYears parsers)
    (hparse : ReadsTimestamps dateParse) (hwrites : WritesDates rfc3339)
    (ho : -12 * hour ≤ offset) (ho' : offset ≤ 14 * hour) (hspans : Spans range first last) :
    Agrees dateParse offset first last
        (activityBlock rfc3339 ⟨parsers, userId, clock⟩ today range ⟨s, none, ids⟩) s userId ↔
      Clear dateParse offset first last range s userId := by
  by_cases hwritten : WrittenRange first last range
  · have hwritten' := hwritten
    obtain ⟨⟨hfrom, hfyear, hfyear'⟩, hto, hlyear, hlyear'⟩ := hwritten
    have hrange : range = ⟨formatYmd first, formatYmd last⟩ := by
      rw [← hfrom, ← hto]
    have hfirst : IsYmd first := ⟨by omega, hfyear'⟩
    have hlast : IsYmd last := ⟨by omega, hlyear'⟩
    have htask : ∀ {id t completed}, s.task id = some t → t.userId = userId →
        t.completedAt = some completed →
        ((id ∈ (activityBlock rfc3339 ⟨parsers, userId, clock⟩ today range
          ⟨s, none, ids⟩).doneTasks ↔ InPeriod offset first last completed) ↔
          ClearInstant offset first last completed) := by
      intro id t completed ht howner hcompleted
      rw [hrange, mem_doneTasks_iff hwrites hbounds hfirst hlast hspans.le ht howner hcompleted,
        inPeriod_iff_clearInstant hspans.le ho ho']
    have hevent : ∀ {id e}, s.event id = some e → e.userId = userId →
        ((id ∈ (activityBlock rfc3339 ⟨parsers, userId, clock⟩ today range
          ⟨s, none, ids⟩).periodEvents ↔ DrawnIn dateParse offset first last e) ↔
          ClearEvent dateParse offset first last e) := by
      intro id e he howner
      rw [hrange, mem_periodEvents_iff hwrites hbounds hfirst hlast hspans.le he howner,
        drawnIn_iff_clearEvent hparse hfyear hlyear' hspans.le ho ho']
    constructor
    · intro h
      refine ⟨fun _ id t completed ht howner hcompleted => ?_, fun _ id e he howner => ?_,
        fun hnot => absurd hwritten' hnot, fun hnot => absurd hwritten' hnot⟩
      · exact (htask ht howner hcompleted).mp (h.tasks id t completed ht howner hcompleted)
      · exact (hevent he howner).mp (h.events id e he howner)
    · intro h
      refine ⟨fun id t completed ht howner hcompleted => ?_, fun id e he howner => ?_⟩
      · exact (htask ht howner hcompleted).mpr
          (h.tasks hwritten' id t completed ht howner hcompleted)
      · exact (hevent he howner).mpr (h.events hwritten' id e he howner)
  · rw [activityBlock_of_not_written hyears hspans hwritten]
    constructor
    · intro h
      refine ⟨fun hw => absurd hw hwritten, fun hw => absurd hw hwritten,
        fun _ id t completed ht howner hcompleted hin => ?_, fun _ id e he howner hdrawn => ?_⟩
      · exact List.not_mem_nil ((h.tasks id t completed ht howner hcompleted).mpr hin)
      · exact List.not_mem_nil ((h.events id e he howner).mpr hdrawn)
    · intro h
      refine ⟨fun id t completed ht howner hcompleted => ?_, fun id e he howner => ?_⟩
      · exact iff_of_false List.not_mem_nil (h.noTask hwritten id t completed ht howner hcompleted)
      · exact iff_of_false List.not_mem_nil (h.noEvent hwritten id e he howner)

/-- In every range that is accepted, the report lists what falls into it on the browser's clocks
exactly if all instants are clear of its ends. -/
theorem agrees_iff_clear_of_toPeriodRange (hbounds : ReadsBounds parsers)
    (hyears : ReadsYears parsers) (hparse : ReadsTimestamps dateParse)
    (hwrites : WritesDates rfc3339) (ho : -12 * hour ≤ offset) (ho' : offset ≤ 14 * hour)
    {sel : PeriodSel} {now : Int}
    (hrange : toPeriodRange (LocalZone.fixed offset) sel now = some range) :
    (∃ first last, Spans range first last) ∧
    ∀ first last, Spans range first last →
      ∀ (userId : Uuid) (clock : Timestamp) (today : NaiveDate) (s : Db) (ids : Nat → Nat),
        Agrees dateParse offset first last
            (activityBlock rfc3339 ⟨parsers, userId, clock⟩ today range ⟨s, none, ids⟩) s userId ↔
          Clear dateParse offset first last range s userId :=
  ⟨exists_spans hrange, fun _ _ hspans _ _ _ _ _ =>
    agrees_iff_clear hbounds hyears hparse hwrites ho ho' hspans⟩

end Agreement

/-- The server's rendering of a timestamp: with as many digits of a fraction as it takes. -/
def writeTimestamp (t : Timestamp) : String :=
  let micros := (t % 86_400_000_000).toNat
  let fraction := if micros % 1_000_000 = 0 then []
    else if micros % 1000 = 0 then '.' :: padded 3 (micros % 1_000_000 / 1000)
    else '.' :: padded 6 (micros % 1_000_000)
  String.ofList (dateChars (utcDate (t / 1000)) ++ 'T' :: (padded 2 (micros / 3_600_000_000) ++
    ':' :: (padded 2 (micros / 60_000_000 % 60) ++ ':' :: (padded 2 (micros / 1_000_000 % 60) ++
      (fraction ++ ['Z'])))))

theorem writesDates_writeTimestamp : WritesDates writeTimestamp :=
  fun _ => ⟨_, String.toList_ofList⟩

theorem readsYears_boundParsers : ReadsYears boundParsers := by
  intro raw bound h
  have hparse : parseBound raw = some bound := h
  rw [parseBound] at hparse
  obtain ⟨⟨year, month, day⟩, hmatch, -⟩ := Option.bind_eq_some_iff.mp hparse
  obtain ⟨l, m, r, hlist, hlen, -, -, hyear, -⟩ := matchDate_eq_some hmatch
  rw [String.toList_ofList] at hlist
  refine ⟨l, m ++ '-' :: r ++ raw.toList.drop 10, ?_, hlen, (numeral_of_digits hyear).1⟩
  conv_lhs => rw [← List.take_append_drop 10 raw.toList, hlist]
  simp

def january : DateRange where
  fromDate := "2026-01-01"
  toDate := "2026-01-31"

def firstOfJanuary : NaiveDate :=
  firstOfMonth 2026 1 january_pos january_le

def lastOfJanuary : NaiveDate :=
  lastOfMonth 2026 1 january_pos january_le

theorem spans_january : Spans january firstOfJanuary lastOfJanuary where
  fromDate := Or.inl ⟨by decide, by decide, by decide⟩
  toDate := Or.inl ⟨by decide, by decide, by decide⟩
  le := by decide

def finishedTask (completed : Timestamp) : TaskRow where
  userId := 1
  title := "Informe"
  description := none
  priority := .medium
  status := .completed
  dueDate := none
  completedAt := some completed
  goalId := none
  categoryId := none
  reminderId := none
  sortOrder := 0
  createdAt := 0
  updatedAt := 0

def activityDb (completed startsAt : Timestamp) (endsAt : Option Timestamp) : Db :=
  put (put ∅ (Key.task 1) (some (finishedTask completed))) (Key.event 2)
    (some (plainEvent startsAt endsAt))

section Evening

variable {completed startsAt : Timestamp} {endsAt : Option Timestamp}

theorem task_activityDb {id : Uuid} {t : TaskRow}
    (h : (activityDb completed startsAt endsAt).task id = some t) :
    id = 1 ∧ t = finishedTask completed := by
  have hlookup : (activityDb completed startsAt endsAt).lookup (Key.task id) = some t := h
  rw [activityDb, lookup_put_of_ne (fun hkey => Key.noConfusion hkey)] at hlookup
  by_cases hid : id = 1
  · subst hid
    rw [lookup_put_self] at hlookup
    exact ⟨rfl, (Option.some.inj hlookup).symm⟩
  · rw [lookup_put_of_ne fun hkey => hid (Key.task.inj hkey)] at hlookup
    cases hlookup

theorem event_activityDb {id : Uuid} {e : EventRow}
    (h : (activityDb completed startsAt endsAt).event id = some e) :
    id = 2 ∧ e = plainEvent startsAt endsAt := by
  have hlookup : (activityDb completed startsAt endsAt).lookup (Key.event id) = some e := h
  rw [activityDb] at hlookup
  by_cases hid : id = 2
  · subst hid
    rw [lookup_put_self] at hlookup
    exact ⟨rfl, (Option.some.inj hlookup).symm⟩
  · rw [lookup_put_of_ne fun hkey => hid (Key.event.inj hkey),
      lookup_put_of_ne fun hkey => Key.noConfusion hkey] at hlookup
    cases hlookup

end Evening

/-- At noon on the fifteenth and on the twentieth the clocks make no difference. -/
theorem agrees_january :
    Agrees parseTimestamp (-5 * hour) firstOfJanuary lastOfJanuary
      (activityBlock writeTimestamp ⟨boundParsers, 1, 0⟩ lastOfJanuary january
        ⟨activityDb 1_768_496_400_000_000 1_768_921_200_000_000 (some 1_768_924_800_000_000),
          none, id⟩)
      (activityDb 1_768_496_400_000_000 1_768_921_200_000_000 (some 1_768_924_800_000_000)) 1 := by
  have hrange : toPeriodRange (LocalZone.fixed (-5 * hour)) ⟨.month, none, none⟩
      1_768_478_400_000 = some january := rfl
  refine ((agrees_iff_clear_of_toPeriodRange readsBounds_boundParsers readsYears_boundParsers
    readsTimestamps_parseTimestamp writesDates_writeTimestamp (by decide) (by decide) hrange).2
    firstOfJanuary lastOfJanuary spans_january 1 0 lastOfJanuary _ id).mpr ?_
  have hwritten : WrittenRange firstOfJanuary lastOfJanuary january :=
    ⟨⟨by decide, by decide, by decide⟩, ⟨by decide, by decide, by decide⟩⟩
  refine ⟨fun _ id t completed ht _ hcompleted => ?_, fun _ id e he _ => ?_,
    fun hnot => absurd hwritten hnot, fun hnot => absurd hwritten hnot⟩
  · obtain ⟨-, rfl⟩ := task_activityDb ht
    obtain rfl := Option.some.inj hcompleted
    exact ⟨by decide, by decide⟩
  · obtain ⟨-, rfl⟩ := event_activityDb he
    have hstart : parseTimestamp 1_768_921_200_000_000 = some 1_768_921_200_000 := by decide
    have hend : parseTimestamp 1_768_924_800_000_000 = some 1_768_924_800_000 := by decide
    refine ⟨fun _ => ?_, fun hnot => absurd ?_ hnot⟩
    · have hbefore : 1_768_921_200_000 < midnight lastOfJanuary + msPerDay - -5 * hour := by decide
      have hafter : midnight firstOfJanuary - -5 * hour < 1_768_924_800_000 := by decide
      have hbeforeUtc : (1_768_921_200_000_000 : Int) <
        (midnight lastOfJanuary + msPerDay - 1) * 1000 := by decide
      have hafterUtc : midnight firstOfJanuary * 1000 < 1_768_924_800_000_000 := by decide
      refine ⟨iff_of_true hbeforeUtc ⟨_, hstart, hbefore⟩,
        iff_of_true ⟨hafterUtc, by decide⟩ ⟨_, hstart, ?_⟩⟩
      have hafterLocal : ¬ (1_768_924_800_000 : Int) ≤ 1_768_921_200_000 := by decide
      simp only [plainEvent, Option.bind_some, hend, if_neg hafterLocal]
      exact hafter
    · refine ⟨by decide, fun ends hends => ?_⟩
      obtain rfl := Option.some.inj hends
      exact ⟨by decide, by decide⟩

theorem agrees_january_iff (s : Db) :
    Agrees parseTimestamp (-5 * hour) firstOfJanuary lastOfJanuary
        (activityBlock writeTimestamp ⟨boundParsers, 1, 0⟩ lastOfJanuary january ⟨s, none, id⟩)
        s 1 ↔
      Clear parseTimestamp (-5 * hour) firstOfJanuary lastOfJanuary january s 1 :=
  agrees_iff_clear readsBounds_boundParsers readsYears_boundParsers readsTimestamps_parseTimestamp
    writesDates_writeTimestamp (by decide) (by decide) spans_january

/-- A task completed at ten in the evening of the thirty-first, and an event at eight, are of
January on the browser's clocks, and not in the report of January. -/
theorem not_agrees_january :
    ¬ Agrees parseTimestamp (-5 * hour) firstOfJanuary lastOfJanuary
        (activityBlock writeTimestamp ⟨boundParsers, 1, 0⟩ lastOfJanuary january
          ⟨put ∅ (Key.task 1) (some (finishedTask 1_769_914_800_000_000)), none, id⟩)
        (put ∅ (Key.task 1) (some (finishedTask 1_769_914_800_000_000))) 1 ∧
      ¬ Agrees parseTimestamp (-5 * hour) firstOfJanuary lastOfJanuary
        (activityBlock writeTimestamp ⟨boundParsers, 1, 0⟩ lastOfJanuary january
          ⟨put ∅ (Key.event 2) (some (plainEvent 1_769_907_600_000_000 none)), none, id⟩)
        (put ∅ (Key.event 2) (some (plainEvent 1_769_907_600_000_000 none))) 1 := by
  have hwritten : WrittenRange firstOfJanuary lastOfJanuary january :=
    ⟨⟨by decide, by decide, by decide⟩, ⟨by decide, by decide, by decide⟩⟩
  rw [agrees_january_iff, agrees_january_iff]
  constructor
  · intro h
    have hclear := h.tasks hwritten 1 _ _ (lookup_put_self _ _ _) rfl rfl
    exact absurd hclear.2 (by decide)
  · intro h
    have hclear := h.events hwritten 2 _ (lookup_put_self _ _ _) rfl
    have hproper : Proper (plainEvent 1_769_907_600_000_000 none) :=
      ⟨by decide, fun _ hends => (nomatch hends)⟩
    have hstart : parseTimestamp 1_769_907_600_000_000 = some 1_769_907_600_000 := by decide
    have hlocal : 1_769_907_600_000 < midnight lastOfJanuary + msPerDay - -5 * hour := by decide
    have hutc : (1_769_907_600_000_000 : Int) < (midnight lastOfJanuary + msPerDay - 1) * 1000 :=
      (hclear.proper hproper).1.mpr ⟨_, hstart, hlocal⟩
    exact absurd hutc (by decide)

end PersonalDashboard.ActivityReports
