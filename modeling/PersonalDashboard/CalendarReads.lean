import PersonalDashboard.EventHandlers
import PersonalDashboard.JsDate
import PersonalDashboard.SoloRuns
import PersonalDashboard.TaskViews

/-! The events that the calendar of a month loads, and those that it draws. -/

set_option autoImplicit false

namespace PersonalDashboard.CalendarReads

open PersonalDashboard.Calendar
open PersonalDashboard.Calendar.NaiveDate
open PersonalDashboard.DateStrings
open PersonalDashboard.EventHandlers
open PersonalDashboard.Instants
open PersonalDashboard.JsDate
open PersonalDashboard.LedgerHandlers
open PersonalDashboard.ReadCommitted
open PersonalDashboard.RowStore
open PersonalDashboard.Schema
open PersonalDashboard.SoloRuns
open PersonalDashboard.TaskViews
open PersonalDashboard.Validation

structure EventRangeQuery where
  fromTime : Option String
  toTime : Option String
  shape : Option String

/-- `kind::text`. -/
def kindText : EventKind → String
  | .event => "event"
  | .appointment => "appointment"
  | .reminder => "reminder"
  | .paymentDue => "payment_due"
  | .goalMilestone => "goal_milestone"
  | .habitReminder => "habit_reminder"

structure EventResponse where
  id : Uuid
  title : String
  description : Option String
  kind : String
  startsAt : Timestamp
  endsAt : Option Timestamp
  allDay : Bool
  location : Option String
  habitId : Option Uuid
  goalId : Option Uuid
  taskId : Option Uuid
  subscriptionId : Option Uuid
  reminderId : Option Uuid
  categoryId : Option Uuid
  createdAt : Timestamp
  updatedAt : Timestamp

def EventResponse.ofRow (e : Stored EventRow) : EventResponse where
  id := e.id
  title := e.row.title
  description := e.row.description
  kind := kindText e.row.kind
  startsAt := e.row.startsAt
  endsAt := e.row.endsAt
  allDay := e.row.allDay
  location := e.row.location
  habitId := e.row.habitId
  goalId := e.row.goalId
  taskId := e.row.taskId
  subscriptionId := e.row.subscriptionId
  reminderId := none
  categoryId := e.row.categoryId
  createdAt := e.row.createdAt
  updatedAt := e.row.updatedAt

structure EventBriefResponse where
  id : Uuid
  title : String
  kind : String
  startsAt : Timestamp
  endsAt : Option Timestamp
  allDay : Bool
  location : Option String

def EventBriefResponse.ofRow (e : Stored EventRow) : EventBriefResponse where
  id := e.id
  title := e.row.title
  kind := kindText e.row.kind
  startsAt := e.row.startsAt
  endsAt := e.row.endsAt
  allDay := e.row.allDay
  location := e.row.location

inductive EventsResponse where
  | full (events : List EventResponse)
  | brief (events : List EventBriefResponse)

def EventsResponse.ids : EventsResponse → List Uuid
  | .full events => events.map EventResponse.id
  | .brief events => events.map EventBriefResponse.id

/-- `FROM events WHERE user_id=$1 AND p ORDER BY starts_at ASC`. -/
def eventsWhere (p : EventRow → Bool) (userId : Uuid) (s : Db) : List (Stored EventRow) :=
  (s.entries.filterMap fun
    | ⟨.event id, (e : EventRow)⟩ => if ownEvent userId e && p e then some ⟨id, e⟩ else none
    | _ => none).mergeSort fun a b => a.row.startsAt ≤ b.row.startsAt

def listEventsSql : Uuid → Db → List (Stored EventRow) :=
  eventsWhere fun _ => true

def listEventsFromSql (fromTime : Timestamp) : Uuid → Db → List (Stored EventRow) :=
  eventsWhere fun e => e.endsAt.isNone || e.endsAt.any (fromTime < ·)

def listEventsToSql (toTime : Timestamp) : Uuid → Db → List (Stored EventRow) :=
  eventsWhere fun e => e.startsAt < toTime

/-- The condition of `LIST_EVENTS_RANGE_SQL` on an event. -/
def inEventRange (fromTime toTime : Timestamp) (e : EventRow) : Bool :=
  e.startsAt < toTime && (e.endsAt.isNone || e.endsAt.any (fromTime < ·))

def listEventsRangeSql (fromTime toTime : Timestamp) : Uuid → Db → List (Stored EventRow) :=
  eventsWhere (inEventRange fromTime toTime)

def listEventsBriefSql : Uuid → Db → List (Stored EventRow) :=
  eventsWhere fun _ => true

def listEventsFromBriefSql (fromTime : Timestamp) : Uuid → Db → List (Stored EventRow) :=
  eventsWhere fun e => e.endsAt.isNone || e.endsAt.any (fromTime < ·)

def listEventsToBriefSql (toTime : Timestamp) : Uuid → Db → List (Stored EventRow) :=
  eventsWhere fun e => e.startsAt < toTime

def listEventsRangeBriefSql (fromTime toTime : Timestamp) : Uuid → Db → List (Stored EventRow) :=
  eventsWhere (inEventRange fromTime toTime)

def listEvents (shape : ReadShape) (fromTime toTime : Option DateTime) (userId : Uuid) (s : Db) :
    EventsResponse :=
  match shape with
  | .brief =>
      let sql := match fromTime, toTime with
        | some fromTime, some toTime => listEventsRangeBriefSql fromTime.toMicros toTime.toMicros
        | some fromTime, none => listEventsFromBriefSql fromTime.toMicros
        | none, some toTime => listEventsToBriefSql toTime.toMicros
        | none, none => listEventsBriefSql
      .brief ((sql userId s).map EventBriefResponse.ofRow)
  | .full =>
      let sql := match fromTime, toTime with
        | some fromTime, some toTime => listEventsRangeSql fromTime.toMicros toTime.toMicros
        | some fromTime, none => listEventsFromSql fromTime.toMicros
        | none, some toTime => listEventsToSql toTime.toMicros
        | none, none => listEventsSql
      .full ((sql userId s).map EventResponse.ofRow)

def listEventsHandler (caller : Caller) (query : EventRangeQuery) : Handler EventsResponse := do
  let shape ← ofExcept (parseReadShape query.shape)
  let fromTime ← ofExcept
    (validateOpt (validateEventDatetime caller.parsers · "from") query.fromTime)
  let toTime ← ofExcept (validateOpt (validateEventDatetime caller.parsers · "to") query.toTime)
  failIf (fromTime.any fun f => toTime.any fun t => decide (t ≤ f))
    (.validation "to must be after from")
  select (listEvents shape fromTime toTime caller.userId)

def yearMonth (monthKey : String) : Option (Nat × Nat) :=
  (matchMonth monthKey).filter fun (_, month) => 1 ≤ month && month ≤ 12

structure CalendarDayCell where
  date : String
  inMonth : Bool
  isToday : Bool

/-- The 42 cells, from a Monday on, that cover a month. -/
def monthGridCells (monthKey today : String) : List CalendarDayCell :=
  match yearMonth monthKey with
  | none => []
  | some (year, month) =>
      let first := utc year (month - 1) 1
      let leading := (getUTCDay first + 6) % 7
      (List.range 42).map fun (i : Nat) =>
        let date := isoDate (first + ((i : Int) - leading) * msPerDay)
        { date := date
          inMonth := String.ofList (date.toList.take 7) = monthKey
          isToday := date = today }

structure DateRange where
  fromDate : String
  toDate : String

def monthGridRange (monthKey today : String) : DateRange :=
  let cells := monthGridCells monthKey today
  { fromDate := (cells.head?.map CalendarDayCell.date).getD ""
    toDate := (cells.getLast?.map CalendarDayCell.date).getD "" }

/-- A date shifted by whole days; invalid input passes through. -/
def shiftDay (date : String) (days : Int) : String :=
  match matchDate date with
  | none => date
  | some (year, month, day) => isoDate (utc year (month - 1) (day + days))

/-- The instants that a request sends for a range of days, widened by a margin. -/
def toEventRange (range : DateRange) (marginDays : Nat) : DateRange :=
  let fromDate := if 0 < marginDays then shiftDay range.fromDate (-marginDays) else range.fromDate
  let toDate := if 0 < marginDays then shiftDay range.toDate marginDays else range.toDate
  { fromDate := fromDate ++ "T00:00:00.000Z", toDate := toDate ++ "T23:59:59.999Z" }

/-- The query of an events read; an empty bound is left out. -/
def eventsQuery (fromTime toTime : Option String) : EventRangeQuery where
  fromTime := fromTime.filter (· ≠ "")
  toTime := toTime.filter (· ≠ "")
  shape := some "brief"

def calendarQuery (monthKey today : String) : EventRangeQuery :=
  let range := monthGridRange monthKey today
  if range.fromDate ≠ "" ∧ range.toDate ≠ "" then
    let eventRange := toEventRange range 1
    eventsQuery (some eventRange.fromDate) (some eventRange.toDate)
  else eventsQuery none none

/-- The times at which a local day starts and ends, where the clocks are `offset`
milliseconds ahead of UTC. -/
def localDayBounds (offset : Int) (date : String) : Option (Int × Int) :=
  (matchDate date).map fun (year, month, day) =>
    ((LocalZone.fixed offset).newDate year (month - 1) day,
      (LocalZone.fixed offset).newDate year (month - 1) (day + 1))

variable (dateParse : Timestamp → Option Int)

/-- The event occupies an instant of a local day. `dateParse` is `Date.parse` of
the text that the server writes for a timestamp. -/
def eventOverlapsDate (offset : Int) (startsAt : Timestamp) (endsAt : Option Timestamp)
    (date : String) : Bool :=
  match localDayBounds offset date, dateParse startsAt with
  | some (dayStart, dayEnd), some start =>
      match endsAt.bind dateParse with
      | some parsedEnd =>
          if parsedEnd ≤ start then dayStart ≤ start && start < dayEnd
          else start < dayEnd && dayStart < parsedEnd
      | none => dayStart ≤ start && start < dayEnd
  | _, _ => false

/-! ### What is assumed of the parsers -/

def startOfDay (d : NaiveDate) : DateTime :=
  .ofMicros (midnight d * 1000)

def endOfDay (d : NaiveDate) : DateTime :=
  .ofMicros ((midnight d + msPerDay - 1) * 1000)

/-- What the server's parser makes of the bounds that a client sends: the first
and last millisecond of a day with a year of four digits are read as such, and a
text with less than two dashes has no date. -/
structure ReadsBounds (parsers : Parsers) : Prop where
  startOfDay : ∀ d : NaiveDate, IsYmd d →
    parsers.dateTime (formatYmd d ++ "T00:00:00.000Z") = some (startOfDay d)
  endOfDay : ∀ d : NaiveDate, IsYmd d →
    parsers.dateTime (formatYmd d ++ "T23:59:59.999Z") = some (endOfDay d)
  dashes : ∀ raw, raw.toList.count '-' < 2 → parsers.dateTime raw = none

/-- What the client makes of a timestamp of the server: it is read, within a
millisecond, if its year has four digits, and else it may not be read. -/
structure ReadsTimestamps (dateParse : Timestamp → Option Int) : Prop where
  isSome : ∀ t : Timestamp, IsYmd (utcDate (t / 1000)) → (dateParse t).isSome
  near : ∀ t ms : Int, dateParse t = some ms → ms * 1000 < t + 1000 ∧ t < ms * 1000 + 1000

def OrderedEvent (e : EventRow) : Prop :=
  ∀ ends, e.endsAt = some ends → e.startsAt < ends

def hour : Int :=
  3_600_000

def Drawn (offset : Int) (monthKey today : String) (e : EventRow) : Prop :=
  ∃ cell ∈ monthGridCells monthKey today,
    eventOverlapsDate dateParse offset e.startsAt e.endsAt cell.date

def SatisfiesRange (parsers : Parsers) (range : DateRange) (e : EventRow) : Prop :=
  ∃ fromTime toTime, validateEventDatetime parsers range.fromDate "from" = .ok fromTime ∧
    validateEventDatetime parsers range.toDate "to" = .ok toTime ∧
    inEventRange fromTime.toMicros toTime.toMicros e

/-- The calendar of a month loses no event that it would draw: the event
satisfies the condition of the range statement, and is in the list that is
loaded from any database that has it. -/
def LosesNone (parsers : Parsers) (monthKey : String) : Prop :=
  ∀ (offset : Int) (today : String) (e : EventRow), -14 * hour ≤ offset → offset ≤ 14 * hour →
    OrderedEvent e → Drawn dateParse offset monthKey today e →
    SatisfiesRange parsers (toEventRange (monthGridRange monthKey today) 1) e ∧
      ∀ (caller : Caller) (s : Db) (ids : Nat → Nat) (id : Uuid), caller.parsers = parsers →
        e.userId = caller.userId → s.event id = some e →
        ∃ response, outcome (listEventsHandler caller (calendarQuery monthKey today))
          ⟨s, none, ids⟩ = (.ok response, s) ∧ id ∈ response.ids

def gridDay (first : NaiveDate) (i : Nat) : NaiveDate :=
  (first.subDays first.numDaysFromMonday).addDays i

theorem numDaysFromCe_gridDay (first : NaiveDate) (i : Nat) :
    (gridDay first i).numDaysFromCe = first.numDaysFromCe - first.numDaysFromMonday + i := by
  rw [gridDay, numDaysFromCe_addDays, numDaysFromCe_subDays]

theorem yearMonth_eq_some {monthKey : String} {ym : Nat × Nat}
    (h : yearMonth monthKey = some ym) :
    matchMonth monthKey = some ym ∧ 1 ≤ ym.2 ∧ ym.2 ≤ 12 := by
  obtain ⟨hmatch, hmonth⟩ := Option.filter_eq_some_iff.mp h
  rw [Bool.and_eq_true, decide_eq_true_eq, decide_eq_true_eq] at hmonth
  exact ⟨hmatch, hmonth⟩

/-- The first day of the month that a key stands for; a year of one or two
digits is one of the twentieth century. -/
def FirstDay (monthKey : String) (first : NaiveDate) : Prop :=
  ∃ year month, yearMonth monthKey = some (year, month) ∧ first.year = fullYear year ∧
    first.month = month ∧ first.day = 1

theorem exists_firstDay {monthKey today : String} {cell : CalendarDayCell}
    (h : cell ∈ monthGridCells monthKey today) : ∃ first, FirstDay monthKey first := by
  unfold monthGridCells at h
  split at h
  · cases h
  · rename_i year month hym
    have hmonth := (yearMonth_eq_some hym).2
    exact ⟨firstOfMonth (fullYear year) month hmonth.1 hmonth.2, year, month, hym, rfl, rfl, rfl⟩

variable {monthKey today : String} {first : NaiveDate}

theorem dates_monthGridCells (h : FirstDay monthKey first) (today : String) :
    (monthGridCells monthKey today).map CalendarDayCell.date =
      (List.range 42).map fun i => isoDate (midnight (gridDay first i)) := by
  obtain ⟨year, month, hym, hyear, hmonth, hday⟩ := h
  have hbounds := (yearMonth_eq_some hym).2
  have hfirst : firstOfMonth (fullYear year) month hbounds.1 hbounds.2 = first :=
    NaiveDate.ext hyear.symm hmonth.symm hday.symm
  have hleading : (getUTCDay (midnight first) + 6) % 7 = first.numDaysFromMonday := by
    rw [getUTCDay, utcDate_midnight, numDaysFromMonday_eq]
  simp only [monthGridCells, hym, List.map_map]
  apply List.map_congr_left
  intro i _
  have htime : midnight first + ((i : Int) - first.numDaysFromMonday) * msPerDay =
      midnight (gridDay first i) := by
    apply midnight_add
    rw [numDaysFromCe_gridDay]
    omega
  rw [Function.comp_apply, utc_firstOfMonth year hbounds.1 hbounds.2, hfirst, hleading, htime]

theorem monthGridRange_eq (h : FirstDay monthKey first) (today : String) :
    monthGridRange monthKey today =
      ⟨isoDate (midnight (gridDay first 0)), isoDate (midnight (gridDay first 41))⟩ := by
  have hdates := dates_monthGridCells h today
  simp only [monthGridRange, ← List.head?_map, ← List.getLast?_map, hdates]
  rfl

/-- The days of the grid, and one day before and after it, have years that are
read and written with four digits and stand for themselves. -/
structure InCalendar (first : NaiveDate) : Prop where
  lower : 100 ≤ (gridDay first 0).pred.year
  upper : (gridDay first 41).succ.year ≤ 9999

theorem InCalendar.year {d : NaiveDate} (h : InCalendar first)
    (hd : (gridDay first 0).pred ≤ d) (hd' : d ≤ (gridDay first 41).succ) :
    100 ≤ d.year ∧ d.year ≤ 9999 :=
  ⟨h.lower.trans (year_le_year hd), (year_le_year hd').trans h.upper⟩

theorem InCalendar.gridDay_year (h : InCalendar first) {i : Nat} (hi : i < 42) :
    100 ≤ (gridDay first i).year ∧ (gridDay first i).year ≤ 9999 := by
  apply h.year
  · rw [le_iff, numDaysFromCe_pred, numDaysFromCe_gridDay, numDaysFromCe_gridDay]
    omega
  · rw [le_iff, numDaysFromCe_succ, numDaysFromCe_gridDay, numDaysFromCe_gridDay]
    omega

theorem shiftDay_formatYmd {d e : NaiveDate} {n : Int} (hd : 100 ≤ d.year) (hd' : d.year ≤ 9999)
    (he : IsYmd e) (h : e.numDaysFromCe = d.numDaysFromCe + n) :
    shiftDay (formatYmd d) n = formatYmd e := by
  have hyear : (d.year.natAbs : Int) = d.year := Int.natAbs_of_nonneg (by omega)
  rw [shiftDay, matchDate_formatYmd (by omega) hd']
  dsimp only
  rw [hyear, utc_eq hd h, isoDate_midnight he.1 he.2]

theorem localDayBounds_formatYmd {d : NaiveDate} (offset : Int) (hd : 100 ≤ d.year)
    (hd' : d.year ≤ 9999) :
    localDayBounds offset (formatYmd d) =
      some (midnight d - offset, midnight d + msPerDay - offset) := by
  have hyear : (d.year.natAbs : Int) = d.year := Int.natAbs_of_nonneg (by omega)
  have hstart : (LocalZone.fixed offset).newDate d.year (d.month - 1) (d.day + 0) =
      midnight d - offset := LocalZone.newDate_eq hd (Int.add_zero _).symm
  have hnext : (LocalZone.fixed offset).newDate d.year (d.month - 1) (d.day + 1) =
      midnight d.succ - offset := LocalZone.newDate_eq hd (numDaysFromCe_succ d)
  have hsucc : midnight d + 1 * msPerDay = midnight d.succ := midnight_add (numDaysFromCe_succ d)
  rw [Int.add_zero] at hstart
  rw [Int.one_mul] at hsucc
  rw [localDayBounds, matchDate_formatYmd (by omega) hd', Option.map_some]
  dsimp only
  rw [hyear, hstart, hnext, hsucc]

theorem toEventRange_monthGridRange (h : FirstDay monthKey first) (hcal : InCalendar first)
    (today : String) :
    toEventRange (monthGridRange monthKey today) 1 =
      ⟨formatYmd (gridDay first 0).pred ++ "T00:00:00.000Z",
        formatYmd (gridDay first 41).succ ++ "T23:59:59.999Z"⟩ := by
  have hfirst := hcal.gridDay_year (show 0 < 42 by decide)
  have hlast := hcal.gridDay_year (show 41 < 42 by decide)
  have hupper := hcal.upper
  have hlower := hcal.lower
  have hpred : (gridDay first 0).pred.year ≤ (gridDay first 0).year := by
    apply year_le_year
    rw [le_iff, numDaysFromCe_pred]
    omega
  have hsucc : (gridDay first 41).year ≤ (gridDay first 41).succ.year :=
    year_le_year (lt_succ_iff.mpr le_rfl).le
  rw [monthGridRange_eq h, isoDate_midnight (by omega) hfirst.2,
    isoDate_midnight (by omega) hlast.2]
  simp only [toEventRange, Nat.one_pos, if_true, Nat.cast_one]
  rw [shiftDay_formatYmd hfirst.1 hfirst.2 ⟨by omega, by omega⟩ (numDaysFromCe_pred _),
    shiftDay_formatYmd hlast.1 hlast.2 ⟨by omega, hupper⟩ (numDaysFromCe_succ _)]

theorem append_ne_empty (d : NaiveDate) (time : String) : formatYmd d ++ time ≠ "" := by
  intro h
  exact formatYmd_ne_empty d (String.append_eq_empty_iff.mp h).1

theorem calendarQuery_eq (h : FirstDay monthKey first) (hcal : InCalendar first)
    (today : String) :
    calendarQuery monthKey today =
      ⟨some (formatYmd (gridDay first 0).pred ++ "T00:00:00.000Z"),
        some (formatYmd (gridDay first 41).succ ++ "T23:59:59.999Z"), some "brief"⟩ := by
  have hfirst := hcal.gridDay_year (show 0 < 42 by decide)
  have hlast := hcal.gridDay_year (show 41 < 42 by decide)
  have hne : (monthGridRange monthKey today).fromDate ≠ "" ∧
      (monthGridRange monthKey today).toDate ≠ "" := by
    rw [monthGridRange_eq h, isoDate_midnight (by omega) hfirst.2,
      isoDate_midnight (by omega) hlast.2]
    exact ⟨formatYmd_ne_empty _, formatYmd_ne_empty _⟩
  rw [calendarQuery, if_pos hne, toEventRange_monthGridRange h hcal]
  simp only [eventsQuery, Option.filter_some, append_ne_empty, ne_eq, not_false_eq_true,
    decide_true, if_true]

theorem trim_bound (d : NaiveDate) {time : String}
    (h : (time.toList.all fun c => !isWhiteSpace c) = true) :
    trim (formatYmd d ++ time) = formatYmd d ++ time := by
  apply trim_eq_self
  intro c hc
  rw [String.toList_append, formatYmd, String.toList_ofList] at hc
  rcases List.mem_append.mp hc with hc | hc
  · rcases mem_dateChars hc with rfl | rfl | hdigit
    · rfl
    · rfl
    · have hnat := toNat_lt_of_isDigit hdigit
      have h0 : '0'.toNat = 48 := rfl
      simp only [isWhiteSpace, Bool.or_eq_false_iff, Bool.and_eq_false_iff,
        decide_eq_false_iff_not]
      omega
  · simpa using List.all_eq_true.mp h c hc

theorem validateEventDatetime_start {parsers : Parsers} (hp : ReadsBounds parsers) {d : NaiveDate}
    (hd : IsYmd d) (field : String) :
    validateEventDatetime parsers (formatYmd d ++ "T00:00:00.000Z") field =
      .ok (startOfDay d) := by
  rw [validateEventDatetime, trim_bound d rfl, hp.startOfDay d hd]

theorem validateEventDatetime_end {parsers : Parsers} (hp : ReadsBounds parsers) {d : NaiveDate}
    (hd : IsYmd d) (field : String) :
    validateEventDatetime parsers (formatYmd d ++ "T23:59:59.999Z") field = .ok (endOfDay d) := by
  rw [validateEventDatetime, trim_bound d rfl, hp.endOfDay d hd]

/-- An event that is drawn on a day starts before the day is over and, unless it
has no end, does not end before the day starts. -/
theorem bounds_of_overlaps {dateParse : Timestamp → Option Int} (hp : ReadsTimestamps dateParse)
    {offset starts : Int} {endsAt : Option Int} (he : ∀ ends, endsAt = some ends → starts < ends)
    {date : String} {dayStart dayEnd : Int}
    (hbounds : localDayBounds offset date = some (dayStart, dayEnd))
    (h : eventOverlapsDate dateParse offset starts endsAt date) :
    starts < dayEnd * 1000 ∧ ∀ ends, endsAt = some ends → dayStart * 1000 - 1000 < ends := by
  simp only [eventOverlapsDate, hbounds] at h
  cases hstart : dateParse starts with
  | none => simp [hstart] at h
  | some start =>
      have hnear := hp.near _ _ hstart
      have hpoint : (dayStart ≤ start && start < dayEnd) = true →
          starts < dayEnd * 1000 ∧
            ∀ ends, endsAt = some ends → dayStart * 1000 - 1000 < ends := by
        intro hday
        rw [Bool.and_eq_true, decide_eq_true_eq, decide_eq_true_eq] at hday
        refine ⟨by omega, fun ends hends => ?_⟩
        have hlt := he ends hends
        omega
      simp only [hstart] at h
      cases hend : endsAt.bind dateParse with
      | none =>
          simp only [hend] at h
          exact hpoint h
      | some parsedEnd =>
          simp only [hend] at h
          split at h
          · exact hpoint h
          · rw [Bool.and_eq_true, decide_eq_true_eq, decide_eq_true_eq] at h
            obtain ⟨ends, hends, hparsed⟩ := Option.bind_eq_some_iff.mp hend
            have hnear' := hp.near _ _ hparsed
            refine ⟨by omega, fun ends' hends' => ?_⟩
            obtain rfl : ends = ends' := Option.some.inj (hends.symm.trans hends')
            omega

theorem inEventRange_of_drawn {dateParse : Timestamp → Option Int}
    (hp : ReadsTimestamps dateParse) {offset : Int} (hoffset : -14 * hour ≤ offset)
    (hoffset' : offset ≤ 14 * hour) {e : EventRow} (he : OrderedEvent e)
    (h : FirstDay monthKey first) (hcal : InCalendar first)
    (hdrawn : Drawn dateParse offset monthKey today e) :
    inEventRange (startOfDay (gridDay first 0).pred).toMicros
      (endOfDay (gridDay first 41).succ).toMicros e := by
  obtain ⟨cell, hcell, hoverlaps⟩ := hdrawn
  have hdate : cell.date ∈ (monthGridCells monthKey today).map CalendarDayCell.date :=
    List.mem_map_of_mem hcell
  rw [dates_monthGridCells h, List.mem_map] at hdate
  obtain ⟨i, hi, hdate⟩ := hdate
  rw [List.mem_range] at hi
  have hyear := hcal.gridDay_year hi
  rw [← hdate, isoDate_midnight (by omega) hyear.2] at hoverlaps
  obtain ⟨hstarts, hends⟩ := bounds_of_overlaps hp he
    (localDayBounds_formatYmd offset hyear.1 hyear.2) hoverlaps
  have hfrom : midnight (gridDay first 0).pred + (i + 1) * msPerDay = midnight (gridDay first i) :=
    midnight_add (by
      rw [numDaysFromCe_pred, numDaysFromCe_gridDay, numDaysFromCe_gridDay]
      omega)
  have hto : midnight (gridDay first i) + (42 - i) * msPerDay = midnight (gridDay first 41).succ :=
    midnight_add (by
      rw [numDaysFromCe_succ, numDaysFromCe_gridDay, numDaysFromCe_gridDay]
      omega)
  have hmargin : midnight (gridDay first i) + msPerDay - offset ≤
      midnight (gridDay first 41).succ + msPerDay - 1 := by
    simp only [msPerDay, hour] at *
    omega
  have hmargin' : midnight (gridDay first 0).pred + 1 ≤ midnight (gridDay first i) - offset := by
    simp only [msPerDay, hour] at *
    omega
  rw [inEventRange, startOfDay, endOfDay, DateTime.toMicros_ofMicros, DateTime.toMicros_ofMicros,
    Bool.and_eq_true, decide_eq_true_eq]
  constructor
  · exact hstarts.trans_le (Int.mul_le_mul_of_nonneg_right hmargin (by decide))
  · cases hend : e.endsAt with
    | none => rfl
    | some ends =>
        have hle : midnight (gridDay first 0).pred * 1000 ≤
            (midnight (gridDay first i) - offset) * 1000 - 1000 := by
          omega
        rw [Option.isNone_some, Bool.false_or, Option.any_some, decide_eq_true_eq]
        exact lt_of_le_of_lt hle (hends ends hend)

theorem mem_eventsWhere {p : EventRow → Bool} {userId : Uuid} {s : Db} {e : Stored EventRow} :
    e ∈ eventsWhere p userId s ↔ s.event e.id = some e.row ∧ e.row.userId = userId ∧ p e.row := by
  rw [eventsWhere, List.mem_mergeSort, List.mem_filterMap]
  constructor
  · rintro ⟨⟨k, r⟩, hmem, hsome⟩
    cases k with
    | event id =>
        have hlookup : s.event id = some r := AList.mem_lookup_iff.mpr hmem
        dsimp only at hsome
        split at hsome
        · rename_i hp
          obtain rfl := Option.some.inj hsome
          simpa [hlookup, ownEvent] using hp
        · cases hsome
    | _ => cases hsome
  · rintro ⟨hlookup, howner, hp⟩
    refine ⟨⟨.event e.id, e.row⟩, AList.mem_lookup_iff.mp hlookup, ?_⟩
    simp [ownEvent, howner, hp]

theorem outcome_listEventsHandler {caller : Caller} {rawFrom rawTo : String}
    {fromTime toTime : DateTime}
    (hfrom : validateEventDatetime caller.parsers rawFrom "from" = .ok fromTime)
    (hto : validateEventDatetime caller.parsers rawTo "to" = .ok toTime) (hlt : fromTime < toTime)
    (s : Db) (ids : Nat → Nat) :
    outcome (listEventsHandler caller ⟨some rawFrom, some rawTo, some "brief"⟩) ⟨s, none, ids⟩ =
      (.ok (.brief ((listEventsRangeBriefSql fromTime.toMicros toTime.toMicros caller.userId s).map
        EventBriefResponse.ofRow)), s) := by
  have horder : decide (toTime ≤ fromTime) = false := decide_eq_false (not_le.mpr hlt)
  have hrun : listEventsHandler caller ⟨some rawFrom, some rawTo, some "brief"⟩ =
      select (listEvents .brief (some fromTime) (some toTime) caller.userId) := by
    simp only [listEventsHandler, parseReadShape, validateOpt, hfrom, hto]
    change (failIf (decide (toTime ≤ fromTime)) _).bind _ = _
    rw [horder]
    rfl
  rw [hrun]
  rfl

theorem losesNone_of_inCalendar {parsers : Parsers} (hparsers : ReadsBounds parsers)
    {dateParse : Timestamp → Option Int} (hdates : ReadsTimestamps dateParse)
    (h : FirstDay monthKey first) (hcal : InCalendar first) :
    LosesNone dateParse parsers monthKey := by
  intro offset today e hoffset hoffset' he hdrawn
  have hrange := toEventRange_monthGridRange h hcal today
  have hin := inEventRange_of_drawn hdates hoffset hoffset' he h hcal hdrawn
  have hlower := hcal.lower
  have hupper := hcal.upper
  have hle : (gridDay first 0).pred ≤ (gridDay first 41).succ := by
    rw [le_iff, numDaysFromCe_pred, numDaysFromCe_succ, numDaysFromCe_gridDay,
      numDaysFromCe_gridDay]
    omega
  have hyears := year_le_year hle
  have hfirst : IsYmd (gridDay first 0).pred := ⟨by omega, by omega⟩
  have hlast : IsYmd (gridDay first 41).succ := ⟨by omega, hupper⟩
  have hfrom := validateEventDatetime_start hparsers hfirst "from"
  have hto := validateEventDatetime_end hparsers hlast "to"
  refine ⟨⟨_, _, by rw [hrange]; exact hfrom, by rw [hrange]; exact hto, hin⟩, ?_⟩
  rintro caller s ids id rfl howner hlookup
  have hlt : startOfDay (gridDay first 0).pred < endOfDay (gridDay first 41).succ := by
    have hmidnight : midnight (gridDay first 0).pred + 43 * msPerDay =
        midnight (gridDay first 41).succ := midnight_add (by
      rw [numDaysFromCe_pred, numDaysFromCe_succ, numDaysFromCe_gridDay, numDaysFromCe_gridDay]
      omega)
    have hmicros : midnight (gridDay first 0).pred * 1000 <
        (midnight (gridDay first 41).succ + msPerDay - 1) * 1000 := by
      simp only [msPerDay] at *
      omega
    exact DateTime.ofMicros_lt_ofMicros hmicros
  rw [calendarQuery_eq h hcal]
  refine ⟨_, outcome_listEventsHandler hfrom hto hlt s ids, ?_⟩
  rw [EventsResponse.ids, List.map_map, List.mem_map]
  exact ⟨⟨id, e⟩, mem_eventsWhere.mpr ⟨hlookup, howner, hin⟩, rfl⟩

theorem inCalendar_of_ne (h : FirstDay monthKey first) (hlast : monthKey ≠ "9999-12")
    (hfirst : monthKey ≠ "0100-01") : InCalendar first := by
  obtain ⟨year, month, hym, hyear, hmonth, hday⟩ := h
  obtain ⟨hmatch, hpos, hle⟩ := yearMonth_eq_some hym
  have hlt := year_lt_of_matchMonth hmatch
  have hfull : 100 ≤ fullYear year ∧ fullYear year ≤ 9999 ∧
      (fullYear year ≤ 100 → year = 100) ∧ (9999 ≤ fullYear year → year = 9999) := by
    rw [fullYear]
    split <;> omega
  have hlower : (⟨100, 2, 1, by decide, by decide, by decide, by decide⟩ : NaiveDate) ≤ first := by
    have hkey : matchMonth monthKey ≠ some (100, 1) := fun h =>
      hfirst (matchMonth_injective h (by decide))
    refine not_lt.mp fun hlt => hkey ?_
    have hlex := lt_iff_lex.mp hlt
    dsimp only at hlex
    obtain rfl : year = 100 := hfull.2.2.1 (by omega)
    obtain rfl : month = 1 := by omega
    exact hmatch
  have hupper :
      first ≤ (⟨9999, 11, 1, by decide, by decide, by decide, by decide⟩ : NaiveDate) := by
    have hkey : matchMonth monthKey ≠ some (9999, 12) := fun h =>
      hlast (matchMonth_injective h (by decide))
    refine not_lt.mp fun hlt => hkey ?_
    have hlex := lt_iff_lex.mp hlt
    dsimp only at hlex
    obtain rfl : year = 9999 := hfull.2.2.2 (by omega)
    obtain rfl : month = 12 := by omega
    exact hmatch
  have hmonday : first.numDaysFromMonday ≤ 6 := by
    simp only [numDaysFromMonday]
    omega
  constructor
  · have hge : (36_191 : Int) ≤ first.numDaysFromCe := hlower
    have hle : (⟨100, 1, 1, by decide, by decide, by decide, by decide⟩ : NaiveDate) ≤
        (gridDay first 0).pred := by
      rw [le_iff, numDaysFromCe_pred, numDaysFromCe_gridDay]
      change (36_160 : Int) ≤ _
      omega
    exact year_le_year hle
  · have hle : first.numDaysFromCe ≤ (3_651_999 : Int) := hupper
    have hle' : (gridDay first 41).succ ≤
        (⟨9999, 12, 31, by decide, by decide, by decide, by decide⟩ : NaiveDate) := by
      rw [le_iff, numDaysFromCe_succ, numDaysFromCe_gridDay]
      change _ ≤ (3_652_059 : Int)
      omega
    have hyear := year_le_year hle'
    exact hyear

theorem ReadsTimestamps.of_millis {dateParse : Timestamp → Option Int}
    (h : ReadsTimestamps dateParse) {ms : Int} (hms : IsYmd (utcDate ms)) :
    dateParse (ms * 1000) = some ms := by
  have hdiv : ms * 1000 / 1000 = ms := Int.mul_ediv_cancel ms (by decide)
  obtain ⟨ms', hms'⟩ := Option.isSome_iff_exists.mp (h.isSome (ms * 1000) (by rwa [hdiv]))
  have hnear := h.near _ _ hms'
  obtain rfl : ms' = ms := by omega
  exact hms'

def plainEvent (startsAt : Timestamp) (endsAt : Option Timestamp) : EventRow :=
  { userId := 1, title := "Cita", description := none, kind := .event, startsAt := startsAt
    endsAt := endsAt, allDay := false, location := none, habitId := none, goalId := none
    taskId := none, subscriptionId := none, categoryId := none, createdAt := 0, updatedAt := 0 }

theorem drawn_of_mem {dateParse : Timestamp → Option Int} {offset : Int} {e : EventRow}
    {date : String} (hmem : date ∈ (monthGridCells monthKey today).map CalendarDayCell.date)
    (h : eventOverlapsDate dateParse offset e.startsAt e.endsAt date) :
    Drawn dateParse offset monthKey today e := by
  obtain ⟨cell, hcell, rfl⟩ := List.mem_map.mp hmem
  exact ⟨cell, hcell, h⟩

section Losses

variable {parsers : Parsers} (hparsers : ReadsBounds parsers)
variable {dateParse : Timestamp → Option Int} (hdates : ReadsTimestamps dateParse)

include hparsers hdates

set_option maxRecDepth 8000 in
/-- The last cells of December 9999 have a year of five digits, whose string is
cut within the month, and the server does not read the bound that is sent. An
appointment at noon on 9999-12-15 is drawn. -/
theorem not_losesNone_lastMonth : ¬ LosesNone dateParse parsers "9999-12" := by
  intro h
  have hstart : dateParse (253_400_875_200_000 * 1000) = some 253_400_875_200_000 :=
    hdates.of_millis (by decide)
  have hdrawn : Drawn dateParse 0 "9999-12" "" (plainEvent (253_400_875_200_000 * 1000) none) := by
    refine drawn_of_mem (show "9999-12-15" ∈ _ by decide) ?_
    have hbounds : localDayBounds 0 "9999-12-15" =
        some (253_400_832_000_000, 253_400_918_400_000) := by decide
    simp only [eventOverlapsDate, plainEvent, hbounds, hstart, Option.bind_none]
    decide
  have hordered : OrderedEvent (plainEvent (253_400_875_200_000 * 1000) none) := by
    intro ends hends
    cases hends
  obtain ⟨⟨fromTime, toTime, _, hto, _⟩, _⟩ := h 0 "" _ (by decide) (by decide) hordered hdrawn
  have hbound : (toEventRange (monthGridRange "9999-12" "") 1).toDate =
      "+010000-01T23:59:59.999Z" := by decide
  have htrim : trim "+010000-01T23:59:59.999Z" = "+010000-01T23:59:59.999Z" := by decide
  rw [hbound, validateEventDatetime, htrim, hparsers.dashes _ (by decide)] at hto
  cases hto

set_option maxRecDepth 8000 in
/-- The first cells of January 100 lie in the year 99, and the day before them
is taken for one of 1999. An appointment at noon on 0100-01-15 is drawn. -/
theorem not_losesNone_yearHundred : ¬ LosesNone dateParse parsers "0100-01" := by
  intro h
  have hstart : dateParse (-59_010_206_400_000 * 1000) = some (-59_010_206_400_000) :=
    hdates.of_millis (by decide)
  have hend : dateParse (-59_010_202_800_000 * 1000) = some (-59_010_202_800_000) :=
    hdates.of_millis (by decide)
  have hdrawn : Drawn dateParse 0 "0100-01" ""
      (plainEvent (-59_010_206_400_000 * 1000) (some (-59_010_202_800_000 * 1000))) := by
    refine drawn_of_mem (show "0100-01-15" ∈ _ by decide) ?_
    have hbounds : localDayBounds 0 "0100-01-15" =
        some (-59_010_249_600_000, -59_010_163_200_000) := by decide
    simp only [eventOverlapsDate, plainEvent, hbounds, hstart, Option.bind_some, hend]
    decide
  have hordered : OrderedEvent
      (plainEvent (-59_010_206_400_000 * 1000) (some (-59_010_202_800_000 * 1000))) := by
    intro ends hends
    obtain rfl := Option.some.inj hends
    decide
  obtain ⟨⟨fromTime, toTime, hfrom, _, hin⟩, _⟩ := h 0 "" _ (by decide) (by decide) hordered hdrawn
  have hbound : (toEventRange (monthGridRange "0100-01" "") 1).fromDate =
      formatYmd ⟨1999, 12, 27, by decide, by decide, by decide, by decide⟩ ++
        "T00:00:00.000Z" := by decide
  rw [hbound, validateEventDatetime_start hparsers (by decide)] at hfrom
  obtain rfl := Except.ok.inj hfrom
  rw [inEventRange, startOfDay, DateTime.toMicros_ofMicros, Bool.and_eq_true] at hin
  exact absurd hin.2 (by decide)

/-- The calendar of a month loses an event that it would draw in the first month
of the year 100 and the last of the year 9999, and in no other. -/
theorem losesNone_iff (monthKey : String) :
    LosesNone dateParse parsers monthKey ↔ monthKey ≠ "9999-12" ∧ monthKey ≠ "0100-01" := by
  constructor
  · intro h
    constructor
    · rintro rfl
      exact not_losesNone_lastMonth hparsers hdates h
    · rintro rfl
      exact not_losesNone_yearHundred hparsers hdates h
  · rintro ⟨hlast, hhundred⟩ offset today e hoffset hoffset' he ⟨cell, hcell, hoverlaps⟩
    obtain ⟨first, hfirst⟩ := exists_firstDay hcell
    exact losesNone_of_inCalendar hparsers hdates hfirst
      (inCalendar_of_ne hfirst hlast hhundred) offset today e hoffset hoffset' he
      ⟨cell, hcell, hoverlaps⟩

end Losses

def parseBound (raw : String) : Option DateTime := do
  let (year, month, day) ← matchDate (String.ofList (raw.toList.take 10))
  let date ← fromYmdOpt year month day
  match String.ofList (raw.toList.drop 10) with
  | "T00:00:00.000Z" => some (startOfDay date)
  | "T23:59:59.999Z" => some (endOfDay date)
  | _ => none

def boundParsers : Parsers where
  decimal := fun _ => none
  naiveDate := fun _ => none
  dateTime := parseBound

theorem parseBound_append {d : NaiveDate} (hd : IsYmd d) (time : String) :
    parseBound (formatYmd d ++ time) =
      match time with
      | "T00:00:00.000Z" => some (startOfDay d)
      | "T23:59:59.999Z" => some (endOfDay d)
      | _ => none := by
  have hlen := length_dateChars hd.1 hd.2
  have hlist : (formatYmd d ++ time).toList = dateChars d ++ time.toList := by
    rw [String.toList_append, formatYmd, String.toList_ofList]
  have hyear : (d.year.natAbs : Int) = d.year := Int.natAbs_of_nonneg hd.1
  have htake : (dateChars d ++ time.toList).take 10 = dateChars d := List.take_left' hlen
  have hdrop : (dateChars d ++ time.toList).drop 10 = time.toList := List.drop_left' hlen
  rw [parseBound, hlist, htake, hdrop, ← formatYmd, matchDate_formatYmd hd.1 hd.2,
    Option.bind_eq_bind, Option.bind_some]
  dsimp only
  rw [hyear, fromYmdOpt_self, Option.bind_eq_bind, Option.bind_some, String.ofList_toList]

theorem readsBounds_boundParsers : ReadsBounds boundParsers where
  startOfDay _ hd := parseBound_append hd _
  endOfDay _ hd := parseBound_append hd _
  dashes raw hraw := by
    have hnone : matchDate (String.ofList (raw.toList.take 10)) = none := by
      unfold matchDate
      split
      · rename_i hlist
        rw [String.toList_ofList] at hlist
        have hle := (List.take_sublist 10 raw.toList).count_le '-'
        rw [hlist] at hle
        simp only [List.count_cons, beq_self_eq_true, if_true] at hle
        omega
      · rfl
    change parseBound raw = none
    rw [parseBound, hnone]
    rfl

def parseTimestamp (t : Timestamp) : Option Int :=
  if IsYmd (utcDate (t / 1000)) then some (t / 1000) else none

theorem readsTimestamps_parseTimestamp : ReadsTimestamps parseTimestamp where
  isSome t ht := by
    rw [parseTimestamp, if_pos ht]
    rfl
  near t ms h := by
    obtain ⟨-, h⟩ := Option.ite_none_right_eq_some.mp h
    obtain rfl : t / 1000 = ms := Option.some.inj h
    omega

/-- The calendar of December 9999 does not load an appointment of its month. -/
theorem not_losesNone_december : ¬ LosesNone parseTimestamp boundParsers "9999-12" :=
  not_losesNone_lastMonth readsBounds_boundParsers readsTimestamps_parseTimestamp

theorem losesNone_february : LosesNone parseTimestamp boundParsers "2026-02" :=
  (losesNone_iff readsBounds_boundParsers readsTimestamps_parseTimestamp "2026-02").mpr
    ⟨by decide, by decide⟩

end PersonalDashboard.CalendarReads
