import PersonalDashboard.FieldPatches
import PersonalDashboard.LedgerHandlers

/-! The preferences of the users: their defaults, what a patch accepts, and what concurrent
patches leave behind. -/

set_option autoImplicit false

namespace PersonalDashboard.UserPreferences

open PersonalDashboard.FieldPatches
open PersonalDashboard.FieldPatches.Patches
open PersonalDashboard.LedgerHandlers (Caller)
open PersonalDashboard.ReadCommitted
open PersonalDashboard.RowStatements
open PersonalDashboard.RowStore
open PersonalDashboard.Schema
open PersonalDashboard.TransactionLogic
open PersonalDashboard.TransactionLogic.Contract
open PersonalDashboard.Validation

variable {Json : Type}

structure Preferences (Json : Type) where
  currencyCode : String
  locale : String
  timezone : String
  dashboardLayout : Json
  deriving DecidableEq, Repr

structure PreferencesRow (Json : Type) extends Preferences Json where
  updatedAt : Timestamp
  deriving DecidableEq, Repr

structure PatchPreferencesRequest (Json : Type) where
  currencyCode : Option String
  locale : Option String
  timezone : Option String
  dashboardLayout : Option Json

structure WidgetPayload where
  id : String
  widgetType : String
  order : Int
  size : String
  deriving DecidableEq, Repr

structure DashboardLayoutPayload where
  widgets : List WidgetPayload
  deriving DecidableEq, Repr

/-- What the handlers rely on: the time zones of the database, the typed reading of a JSON value
that refuses unknown fields, and the value of an empty object. -/
structure Libraries (Json : Type) where
  timezoneExists : String → Bool
  layoutOf : Json → Option DashboardLayoutPayload
  emptyObject : Json

@[reducible]
def PreferencesTable (Json : Type) (_ : Uuid) : Type :=
  PreferencesRow Json

abbrev PreferencesDb (Json : Type) := Store (PreferencesTable Json)

abbrev PreferencesHandler (Json α : Type) := Prog (PreferencesTable Json) SqlState AppError α

def iso4217Currencies : List String :=
  ["USD", "EUR", "JPY", "GBP", "CHF", "CAD", "AUD", "CNY", "HKD", "SGD", "NZD", "SEK", "NOK",
    "DKK", "PLN", "CZK", "HUF", "ILS", "MXN", "BRL", "ARS", "CLP", "COP", "PEN", "UYU", "BOB",
    "DOP", "GTQ", "CRC", "PAB", "JMD", "TTD", "XCD", "QAR", "SAR", "AED", "KWD", "EGP", "NGN",
    "KES", "GHS", "ZAR", "INR", "PKR", "BDT", "LKR", "THB", "VND", "IDR", "MYR", "PHP", "KRW",
    "TWD", "TRY", "UAH"]

def validateCurrencyCode (raw : String) : Except AppError String :=
  let value := trim raw
  let wellFormed := byteLen value = 3 ∧ value.toList.all Char.isUpper
  if ¬ wellFormed ∨ value ∉ iso4217Currencies then
    .error (.validation "currency_code must be a known ISO-4217 code")
  else .ok value

/-- `ll` or `ll-CC`. -/
def isLocale (value : String) : Bool :=
  match value.toList with
  | [a, b] => a.isLower && b.isLower
  | [a, b, dash, c, d] => dash = '-' && a.isLower && b.isLower && c.isUpper && d.isUpper
  | _ => false

def validateLocale (raw : String) : Except AppError String :=
  let value := trim raw
  if isLocale value then .ok value
  else .error (.validation "locale must match ll or ll-CC (e.g. es-CO)")

def widgetTypes : List String :=
  ["metric", "chart", "list", "ledger", "heatmap"]

def widgetSizes : List String :=
  ["sm", "md", "lg"]

def maxWidgets : Nat :=
  32

def maxWidgetIdLen : Nat :=
  64

def validateWidget (widget : WidgetPayload) : Except AppError Unit :=
  let id := trim widget.id
  if id.isEmpty || maxWidgetIdLen < byteLen id then
    .error (.validation "dashboard_layout widget id must be 1-64 characters")
  else if widget.widgetType ∉ widgetTypes then
    .error (.validation
      "dashboard_layout widget type must be one of: metric, chart, list, ledger, heatmap")
  else if widget.order < 0 then
    .error (.validation "dashboard_layout widget order must be >= 0")
  else if widget.size ∉ widgetSizes then
    .error (.validation "dashboard_layout widget size must be one of: sm, md, lg")
  else .ok ()

def validateWidgets : List WidgetPayload → Except AppError Unit
  | [] => .ok ()
  | widget :: widgets => do
      validateWidget widget
      validateWidgets widgets

def validateDashboardLayout (libraries : Libraries Json) (value : Json) : Except AppError Unit :=
  match libraries.layoutOf value with
  | none => .error (.validation "dashboard_layout has an unknown field or wrong shape")
  | some layout =>
      if maxWidgets < layout.widgets.length then
        .error (.validation s!"dashboard_layout.widgets must have at most {maxWidgets} entries")
      else validateWidgets layout.widgets

/-- `TIMEZONE_EXISTS_SQL`, over the time zones of the database. -/
def ensureTimezone (libraries : Libraries Json) (raw : Option String) :
    PreferencesHandler Json (Option String) :=
  match raw with
  | none => pure none
  | some raw => do
      let there ← select fun _ => libraries.timezoneExists (trim raw)
      failIf (!there) (.validation "timezone must be a known IANA time zone name")
      pure (some (trim raw))

/-- The defaults of the columns, which are those of `me_handler`. -/
def defaultPreferences (libraries : Libraries Json) : Preferences Json :=
  { currencyCode := "COP", locale := "es-CO", timezone := "America/Bogota"
    dashboardLayout := libraries.emptyObject }

structure PreferencesPatch (Json : Type) where
  currencyCode : Option String
  locale : Option String
  timezone : Option String
  dashboardLayout : Option Json

/-- `PATCH_PREFS_SQL`: omitted fields keep their stored value. -/
def PreferencesPatch.merge (patch : PreferencesPatch Json) (now : Timestamp)
    (old : PreferencesRow Json) : PreferencesRow Json :=
  { currencyCode := patch.currencyCode.getD old.currencyCode
    locale := patch.locale.getD old.locale
    timezone := patch.timezone.getD old.timezone
    dashboardLayout := patch.dashboardLayout.getD old.dashboardLayout
    updatedAt := now }

def internal (_ : SqlState) : AppError :=
  .internal

/-- `ENSURE_PREFS_SQL`. -/
def ensurePreferences (libraries : Libraries Json) (caller : Caller) :
    PreferencesHandler Json Unit :=
  execSql internal (insertIfAbsent caller.userId
    { defaultPreferences libraries with updatedAt := caller.now })

def updatePreferencesSql (caller : Caller) (patch : PreferencesPatch Json) :
    Statement (PreferencesTable Json) SqlState (Option (PreferencesRow Json)) :=
  updateRow .noKeyUpdate exclusive_noKeyUpdate caller.userId (fun _ => true)
    fun _ (r : PreferencesRow Json) => .ok (patch.merge caller.now r)

def patchPreferencesHandler (libraries : Libraries Json) (caller : Caller)
    (body : PatchPreferencesRequest Json) : PreferencesHandler Json (Preferences Json) := do
  failIf (body.currencyCode.isNone && body.locale.isNone && body.timezone.isNone &&
    body.dashboardLayout.isNone) (.validation "no updatable fields provided")
  let currencyCode ← ofExcept (validateOpt validateCurrencyCode body.currencyCode)
  let locale ← ofExcept (validateOpt validateLocale body.locale)
  let timezone ← ensureTimezone libraries body.timezone
  let _ ← ofExcept (validateOpt (validateDashboardLayout libraries) body.dashboardLayout)
  beginTx
  ensurePreferences libraries caller
  commitTx
  beginTx
  let row ← fetchOr internal .internal (updatePreferencesSql caller
    { currencyCode := currencyCode, locale := locale, timezone := timezone
      dashboardLayout := body.dashboardLayout })
  commitTx
  pure row.toPreferences

/-- The preferences in the answer of `me_handler`, once its session is resolved. -/
def mePreferences (libraries : Libraries Json) (caller : Caller) :
    PreferencesHandler Json (Preferences Json) := do
  let row ← select fun s => s.lookup caller.userId
  pure ((row.map PreferencesRow.toPreferences).getD (defaultPreferences libraries))

inductive PreferencesRequest (Json : Type) where
  | patch (body : PatchPreferencesRequest Json)
  | me

def servePreferences (libraries : Libraries Json) (caller : Caller) :
    PreferencesRequest Json → PreferencesHandler Json (Preferences Json)
  | .patch body => patchPreferencesHandler libraries caller body
  | .me => mePreferences libraries caller

structure IsWidget (widget : WidgetPayload) : Prop where
  id_ne : trim widget.id ≠ ""
  id_le : byteLen (trim widget.id) ≤ 64
  widgetType : widget.widgetType ∈ widgetTypes
  order : 0 ≤ widget.order
  size : widget.size ∈ widgetSizes

/-- A layout of at most 32 widgets, each well formed. -/
def IsLayout (libraries : Libraries Json) (value : Json) : Prop :=
  ∃ layout, libraries.layoutOf value = some layout ∧ layout.widgets.length ≤ 32 ∧
    ∀ widget ∈ layout.widgets, IsWidget widget

/-- Preferences that a patch accepts, or their defaults. -/
structure IsValid (libraries : Libraries Json) (p : Preferences Json) : Prop where
  currencyCode : p.currencyCode ∈ iso4217Currencies
  locale : isLocale p.locale
  timezone : p.timezone = "America/Bogota" ∨ libraries.timezoneExists p.timezone
  dashboardLayout : p.dashboardLayout = libraries.emptyObject ∨ IsLayout libraries p.dashboardLayout

theorem validateWidget_eq_ok_iff (widget : WidgetPayload) :
    validateWidget widget = .ok () ↔ IsWidget widget := by
  have hmax : maxWidgetIdLen = 64 := rfl
  have hempty : (trim widget.id).isEmpty = true ↔ trim widget.id = "" := String.isEmpty_iff
  simp only [validateWidget, Bool.or_eq_true, hempty, decide_eq_true_eq, hmax]
  constructor
  · intro h
    split at h
    · cases h
    split at h
    · cases h
    split at h
    · cases h
    split at h
    · cases h
    rename_i hid htype horder hsize
    rw [not_or, not_lt] at hid
    exact ⟨hid.1, hid.2, not_not.mp htype, not_lt.mp horder, not_not.mp hsize⟩
  · rintro ⟨hid, hlen, htype, horder, hsize⟩
    rw [if_neg (not_or.mpr ⟨hid, not_lt.mpr hlen⟩), if_neg (not_not.mpr htype),
      if_neg (not_lt.mpr horder), if_neg (not_not.mpr hsize)]

theorem validateWidgets_eq_ok_iff (widgets : List WidgetPayload) :
    validateWidgets widgets = .ok () ↔ ∀ widget ∈ widgets, IsWidget widget := by
  induction widgets with
  | nil => simp [validateWidgets]
  | cons widget widgets ih =>
      rw [List.forall_mem_cons, ← ih, ← validateWidget_eq_ok_iff, validateWidgets]
      cases validateWidget widget with
      | error e => simp [bind, Except.bind]
      | ok u => simp [bind, Except.bind]

theorem validateDashboardLayout_eq_ok_iff (libraries : Libraries Json) (value : Json) :
    validateDashboardLayout libraries value = .ok () ↔ IsLayout libraries value := by
  unfold validateDashboardLayout IsLayout
  cases libraries.layoutOf value with
  | none => simp
  | some layout =>
      have hmax : maxWidgets = 32 := rfl
      simp only [Option.some.injEq, exists_eq_left', hmax]
      split
      · rename_i hlt
        simp [not_le.mpr hlt]
      · rename_i hle
        rw [validateWidgets_eq_ok_iff]
        simp [not_lt.mp hle]

theorem isValid_defaultPreferences (libraries : Libraries Json) :
    IsValid libraries (defaultPreferences libraries) :=
  ⟨show "COP" ∈ iso4217Currencies by decide, show isLocale "es-CO" = true by decide, Or.inl rfl,
    Or.inl rfl⟩

def validateTimezone (libraries : Libraries Json) (raw : String) : Except AppError String :=
  if libraries.timezoneExists (trim raw) then .ok (trim raw)
  else .error (.validation "timezone must be a known IANA time zone name")

/-- The patch that a request is accepted as, if it is. -/
def acceptedPatch (libraries : Libraries Json) (body : PatchPreferencesRequest Json) :
    Option (PreferencesPatch Json) := do
  let currencyCode ← (validateOpt validateCurrencyCode body.currencyCode).toOption
  let locale ← (validateOpt validateLocale body.locale).toOption
  let timezone ← (validateOpt (validateTimezone libraries) body.timezone).toOption
  let _ ← (validateOpt (validateDashboardLayout libraries) body.dashboardLayout).toOption
  pure { currencyCode := currencyCode, locale := locale, timezone := timezone
         dashboardLayout := body.dashboardLayout }

theorem validateCurrencyCode_eq_ok {raw value : String}
    (h : validateCurrencyCode raw = .ok value) : value ∈ iso4217Currencies := by
  simp only [validateCurrencyCode] at h
  split at h
  · cases h
  · rename_i hok
    obtain rfl := Except.ok.inj h
    exact not_not.mp (not_or.mp hok).2

theorem validateLocale_eq_ok {raw value : String} (h : validateLocale raw = .ok value) :
    isLocale value = true := by
  simp only [validateLocale] at h
  split at h
  · rename_i hok
    exact Except.ok.inj h ▸ hok
  · cases h

theorem validateTimezone_eq_ok {libraries : Libraries Json} {raw value : String}
    (h : validateTimezone libraries raw = .ok value) : libraries.timezoneExists value = true := by
  unfold validateTimezone at h
  split at h
  · rename_i hok
    exact Except.ok.inj h ▸ hok
  · cases h

theorem isValid_merge {libraries : Libraries Json} {body : PatchPreferencesRequest Json}
    {patch : PreferencesPatch Json} (h : acceptedPatch libraries body = some patch)
    {old : PreferencesRow Json} (hold : IsValid libraries old.toPreferences) (now : Timestamp) :
    IsValid libraries (patch.merge now old).toPreferences := by
  simp only [acceptedPatch, Option.bind_eq_bind, Option.bind_eq_some_iff, toOption_eq_some,
    Option.pure_def, Option.some.injEq] at h
  obtain ⟨currencyCode, hcurrency, locale, hlocale, timezone, htimezone, layout, hlayout, rfl⟩ := h
  constructor
  · cases currencyCode with
    | none => exact hold.currencyCode
    | some value =>
        obtain ⟨raw, -, hvalue⟩ := validateOpt_eq_ok_some hcurrency
        exact validateCurrencyCode_eq_ok hvalue
  · cases locale with
    | none => exact hold.locale
    | some value =>
        obtain ⟨raw, -, hvalue⟩ := validateOpt_eq_ok_some hlocale
        exact validateLocale_eq_ok hvalue
  · cases timezone with
    | none => exact hold.timezone
    | some value =>
        obtain ⟨raw, -, hvalue⟩ := validateOpt_eq_ok_some htimezone
        exact Or.inr (validateTimezone_eq_ok hvalue)
  · cases hbody : body.dashboardLayout with
    | none => exact hold.dashboardLayout
    | some value =>
        rw [hbody] at hlayout
        cases layout with
        | none =>
            simp only [validateOpt] at hlayout
            cases hvalue : validateDashboardLayout libraries value with
            | error e => simp [hvalue, Except.map] at hlayout
            | ok u => simp [hvalue, Except.map] at hlayout
        | some u =>
            obtain ⟨raw, hraw, hvalue⟩ := validateOpt_eq_ok_some hlayout
            obtain rfl := Option.some.inj hraw
            exact Or.inr ((validateDashboardLayout_eq_ok_iff libraries value).mp hvalue)

section Runs

variable {ι : Type} (libraries : Libraries Json)
  (requests : ι → Caller × PreferencesRequest Json)

def sentTo (userId : Uuid) (request : Caller × PreferencesRequest Json) :
    Option (PreferencesPatch Json) :=
  match request with
  | (caller, .patch body) =>
      if caller.userId = userId then acceptedPatch libraries body else none
  | (_, .me) => none

def patches : Patches ι (PreferencesTable Json) where
  Inserts _ _ _ r := r.toPreferences = defaultPreferences libraries
  patch i userId r :=
    (sentTo libraries userId (requests i)).elim r fun p => p.merge (requests i).1.now r
  Guard _ _ _ _ := True
  patch_patch i userId r := by
    cases sentTo libraries userId (requests i) with
    | none => rfl
    | some p =>
        simp only [Option.elim_some, PreferencesPatch.merge]
        cases p.currencyCode <;> cases p.locale <;> cases p.timezone <;>
          cases p.dashboardLayout <;> rfl
  inserts_mono _ h := h
  guard_mono _ _ := trivial

def shown (s : PreferencesDb Json) (userId : Uuid) : Preferences Json :=
  ((s.lookup userId).map PreferencesRow.toPreferences).getD (defaultPreferences libraries)

/-- The patches of a user's preferences that have been committed, the newest first. -/
def committedPatches [DecidableEq Json] (userId : Uuid)
    (commits : List (Commit ι (PreferencesTable Json))) :
    List (PreferencesPatch Json) :=
  (commits.filter ((patches libraries requests).Leaves userId)).filterMap fun c =>
    sentTo libraries userId (requests c.proc)

/-- The preferences under patches, of which the first that has a field decides it. -/
def overlay (ps : List (PreferencesPatch Json)) (p : Preferences Json) : Preferences Json :=
  { currencyCode := (ps.findSome? PreferencesPatch.currencyCode).getD p.currencyCode
    locale := (ps.findSome? PreferencesPatch.locale).getD p.locale
    timezone := (ps.findSome? PreferencesPatch.timezone).getD p.timezone
    dashboardLayout := (ps.findSome? PreferencesPatch.dashboardLayout).getD p.dashboardLayout }

def field {β : Type} (get : Preferences Json → β) (sent : PreferencesPatch Json → Option β)
    (h : ∀ (p : PreferencesPatch Json) now (r : PreferencesRow Json),
      get (p.merge now r).toPreferences = (sent p).getD (get r.toPreferences)) (userId : Uuid) :
    (patches libraries requests).Field userId β where
  get r := get r.toPreferences
  sets i := (sentTo libraries userId (requests i)).bind sent
  get_patch i r := by
    simp only [patches]
    cases sentTo libraries userId (requests i) with
    | none => rfl
    | some p => exact h p _ r

variable {libraries requests} {β : Type} {get : Preferences Json → β}
  {sent : PreferencesPatch Json → Option β} {userId : Uuid}

theorem lastSet_field [DecidableEq Json]
    {h : ∀ (p : PreferencesPatch Json) now (r : PreferencesRow Json),
      get (p.merge now r).toPreferences = (sent p).getD (get r.toPreferences)}
    (commits : List (Commit ι (PreferencesTable Json))) :
    (field libraries requests get sent h userId).lastSet commits =
      (committedPatches libraries requests userId commits).findSome? sent := by
  rw [committedPatches, ← List.head?_filterMap, List.filterMap_filterMap, List.head?_filterMap]
  rfl

variable (libraries) in
def AllValid (s : PreferencesDb Json) : Prop :=
  ∀ userId r, s.lookup userId = some r → IsValid libraries r.toPreferences

theorem isValid_shown {s : PreferencesDb Json} (h : AllValid libraries s) (userId : Uuid) :
    IsValid libraries (shown libraries s userId) := by
  unfold shown
  cases hrow : s.lookup userId with
  | none => exact isValid_defaultPreferences libraries
  | some r => exact h userId r hrow

variable (libraries) in
def validity (db : PreferencesDb Json) : Contract (PreferencesTable Json) AppError where
  Region _ := Option (PreferencesRow Json)
  region userId s := s.lookup userId
  lookup_congr _ _ _ h := h
  inv s := AllValid libraries db → AllValid libraries s
  admits _ _ _ _ := True
  fault := .internal

variable (libraries requests) in
def Patching (i : ι) (c c' : PreferencesDb Json) : Prop :=
  ∀ userId, (patches libraries requests).Step i userId (c.lookup userId) (c'.lookup userId)

theorem isValid_patch {i : ι} {r : PreferencesRow Json} (h : IsValid libraries r.toPreferences) :
    IsValid libraries ((patches libraries requests).patch i userId r).toPreferences := by
  simp only [patches, sentTo]
  split
  · rename_i caller body _
    split
    · cases hpatch : acceptedPatch libraries body with
      | none => exact h
      | some p => exact isValid_merge hpatch h _
    · exact h
  · exact h

theorem isValid_step {i : ι} {v v' : Option (PreferencesRow Json)}
    (h : (patches libraries requests).Step i userId v v')
    (hv : ∀ r, v = some r → IsValid libraries r.toPreferences) :
    ∀ r, v' = some r → IsValid libraries r.toPreferences := by
  rcases h with rfl | ⟨seen, r, hbased, hr⟩
  · exact hv
  · have hvalid : IsValid libraries r.toPreferences := by
      rcases hbased with hr | ⟨-, hr⟩
      · exact hv r hr
      · rw [show r.toPreferences = defaultPreferences libraries from hr]
        exact isValid_defaultPreferences libraries
    rcases hr with rfl | rfl
    · exact fun r' heq => Option.some.inj heq ▸ hvalid
    · exact fun r' heq => Option.some.inj heq ▸ isValid_patch hvalid

variable {db c : PreferencesDb Json} {i : ι} {t : (validity libraries db).Open}
  {done : List (PreferencesDb Json × PreferencesDb Json)}

theorem publishable_of_patching (hc : Sees t c)
    (h : Patching libraries requests i c (t.view c)) :
    (validity libraries db).Publishable (Patching libraries requests i) t c where
  unlocked _ hu := lookup_view_of_not_locks t hu c
  inv hdb u := isValid_step (h u) (hc.inv hdb u)
  allowed := h

theorem patching_put {v : Option (PreferencesRow Json)}
    (h : (patches libraries requests).Step i userId (c.lookup userId) v) :
    Patching libraries requests i c (put c userId v) := by
  intro userId'
  by_cases hu : userId' = userId
  · subst hu
    rwa [lookup_put_self]
  · rw [lookup_put_of_ne hu]
    exact Or.inl rfl

variable (libraries requests) in
/-- A commit of a request leaves the preferences that it is answered with, under the patch that it
is accepted as. -/
structure Commits (i : ι) (a : Preferences Json) (c : PreferencesDb Json × PreferencesDb Json) :
    Prop where
  sent : (sentTo libraries (requests i).1.userId (requests i)).isSome
  stored : ∃ r, c.2.lookup (requests i).1.userId = some r ∧ r.toPreferences = a ∧
    (patches libraries requests).patch i (requests i).1.userId r = r

variable (libraries requests db) in
/-- What a request may be answered after its commits: a patch has committed what it answers, and
what is refused as invalid has committed nothing. -/
def Answers (i : ι) :
    Except AppError (Preferences Json) → List (PreferencesDb Json × PreferencesDb Json) → Prop
  | .ok a, done =>
      (AllValid libraries db → IsValid libraries a) ∧
        ∀ body, (requests i).2 = .patch body → ∃ c ∈ done, Commits libraries requests i a c
  | .error (.validation _), done => done = []
  | .error _, _ => True

section Rules

variable {γ : Type} {post : (validity libraries db).Post γ} {caller : Caller}
  {body : PatchPreferencesRequest Json} {o : Option (validity libraries db).Open}

theorem seq_ensureTimezone {G : PreferencesDb Json → PreferencesDb Json → Prop}
    {raw : Option String} {next : Option String → PreferencesHandler Json γ}
    (herr : post.MayFail done)
    (h : ∀ timezone, validateOpt (validateTimezone libraries) raw = .ok timezone →
      (validity libraries db).wp G (next timezone) post o done) :
    (validity libraries db).wp G ((ensureTimezone libraries raw).bind next) post o done := by
  cases raw with
  | none => exact h none rfl
  | some raw =>
      unfold ensureTimezone
      simp only [Prog.bind_eq, Prog.bind_assoc, Prog.pure_eq, Prog.ret_bind]
      refine seq_select herr fun c _ => seq_failIf herr fun hthere => h _ ?_
      rw [Bool.not_eq_false'] at hthere
      rw [validateOpt, validateTimezone, if_pos hthere]
      rfl

theorem wp_updatePreferences {p : PreferencesPatch Json}
    (hsent : sentTo libraries (requests i).1.userId (requests i) = some p) :
    (validity libraries db).wp (Patching libraries requests i)
      (beginTx.bind fun _ =>
        (fetchOr internal .internal (updatePreferencesSql (requests i).1 p)).bind fun row =>
          commitTx.bind fun _ => .ret row.toPreferences)
      (fun r _ done => Answers libraries requests db i r done) none done := by
  have hpatch : ∀ r, (patches libraries requests).patch i (requests i).1.userId r =
      p.merge (requests i).1.now r := by
    intro r
    simp only [patches, hsent, Option.elim_some]
  refine wp_seq (wp_beginTx trivial ((andThen_ok _ _ _).mpr ?_))
  refine wp_seq (wp_seq (wp_updateRow exclusive_noKeyUpdate trivial (fun _ => trivial)
    (fun _ _ _ => (wp_throw _ _).mpr trivial) fun sn c r r' _ hc hr _ _ hf => ?_))
  obtain rfl := Except.ok.inj hf
  refine (wp_ret _ _).mpr ((andThen_ok _ _ _).mpr ?_)
  have hview : ∀ c', Sees (({} : (validity libraries db).Open).lock _ c (.set _)) c' →
      c'.lookup (requests i).1.userId = some r ∧ Open.view _ c' =
        put c' (requests i).1.userId (some (p.merge (requests i).1.now r)) := fun c' hc' =>
    ⟨(lookup_view_of_sees_lock {} hc').trans hr, (step_lock {} _ c (.set _)).view c' hc'⟩
  refine wp_seq (wp_commitTx trivial fun c' hc' => ⟨publishable_of_patching hc' ?_, ?_⟩)
  · obtain ⟨hr', hput⟩ := hview c' hc'
    rw [hput]
    rw [← hpatch]
    exact patching_put (step_patch hr')
  · obtain ⟨hr', hput⟩ := hview c' hc'
    have hvalid : AllValid libraries db → IsValid libraries
        (p.merge (requests i).1.now r).toPreferences := by
      intro hdb
      rw [← hpatch]
      exact isValid_patch (hc'.inv hdb _ r hr')
    refine (andThen_ok _ _ _).mpr ((wp_ret _ _).mpr ⟨hvalid, fun _ _ =>
      ⟨_, List.mem_cons_self, ?_, p.merge (requests i).1.now r, ?_, rfl, ?_⟩⟩)
    · rw [hsent]
      rfl
    · rw [hput]
      exact lookup_put_self _ _ _
    · rw [← hpatch]
      exact (patches libraries requests).patch_patch _ _ _

theorem sentTo_self (hreq : (requests i).2 = .patch body) :
    sentTo libraries (requests i).1.userId (requests i) = acceptedPatch libraries body := by
  generalize requests i = request at hreq ⊢
  obtain ⟨caller, request⟩ := request
  obtain rfl : request = .patch body := hreq
  exact if_pos rfl

theorem wp_patchPreferences (hreq : (requests i).2 = .patch body) :
    (validity libraries db).wp (Patching libraries requests i)
      (patchPreferencesHandler libraries (requests i).1 body)
      (fun r _ done => Answers libraries requests db i r done) none [] := by
  have herr : Contract.Post.MayFail
      (fun r (_ : Option (validity libraries db).Open) done =>
        Answers libraries requests db i r done) [] := by
    intro e o
    cases e with
    | validation msg => rfl
    | _ => trivial
  unfold patchPreferencesHandler ensurePreferences
  simp only [Prog.bind_eq, Prog.pure_eq]
  refine seq_failIf herr fun _ => seq_ofExcept herr fun currencyCode hcurrency =>
    seq_ofExcept herr fun locale hlocale => seq_ensureTimezone herr fun timezone htimezone =>
    seq_ofExcept herr fun layout hlayout => seq_beginTx herr ?_
  have hsent : sentTo libraries (requests i).1.userId (requests i) = some
      { currencyCode := currencyCode, locale := locale, timezone := timezone
        dashboardLayout := body.dashboardLayout } := by
    rw [sentTo_self hreq, acceptedPatch, hcurrency, hlocale, htimezone, hlayout]
    rfl
  refine seq_insertIfAbsent herr ?_ fun t' hstep hnone => ?_
  · exact seq_commitTx herr (fun c hc => publishable_of_patching hc fun _ => Or.inl rfl)
      fun c _ => wp_updatePreferences hsent
  · refine seq_commitTx herr (fun c hc => publishable_of_patching hc ?_)
      fun c _ => wp_updatePreferences hsent
    rw [hstep.view c hc]
    exact patching_put (step_insert (hnone c hc) ⟨[], rfl⟩)

theorem wp_mePreferences (hreq : (requests i).2 = .me) :
    (validity libraries db).wp (Patching libraries requests i)
      (mePreferences libraries (requests i).1)
      (fun r _ done => Answers libraries requests db i r done) none [] := by
  unfold mePreferences
  simp only [Prog.bind_eq, Prog.pure_eq]
  refine wp_seq (wp_select trivial fun c hc => (andThen_ok _ _ _).mpr ((wp_ret _ _).mpr ?_))
  refine ⟨fun hdb => isValid_shown (hc.inv hdb) _, fun body hbody => ?_⟩
  rw [hreq] at hbody
  cases hbody

end Rules

variable [DecidableEq ι]

variable (libraries requests) in
def preferencesRun (db : PreferencesDb Json) (cs : List (Choice ι)) :
    Config ι (PreferencesTable Json) SqlState AppError (Preferences Json) :=
  run .internal
    (start db fun i => servePreferences libraries (requests i).1 (requests i).2) cs

variable (libraries requests) in
theorem sound_preferencesRun (db : PreferencesDb Json) (cs : List (Choice ι)) :
    Sound (validity libraries db) (Patching libraries requests) (Answers libraries requests db)
      (preferencesRun libraries requests db cs) := by
  refine (sound_start (fun hdb => hdb) fun i => ?_).run (admittedRun_of_forall (fun _ _ _ _ =>
    trivial) _ _)
  cases hreq : (requests i).2 with
  | patch body => exact wp_patchPreferences hreq
  | me => exact wp_mePreferences hreq

/-- In every interleaving of the requests of any users, what `GET /me` shows of a user is what it
showed at first under the committed patches: each field is what the last of them that has it says,
so no patch undoes another field's. -/
theorem shown_preferencesRun [DecidableEq Json] (libraries : Libraries Json)
    (requests : ι → Caller × PreferencesRequest Json) (db : PreferencesDb Json)
    (cs : List (Choice ι)) (userId : Uuid) :
    let s := preferencesRun libraries requests db cs
    shown libraries s.db userId =
      overlay (committedPatches libraries requests userId s.commits)
        (shown libraries db userId) := by
  intro s
  have hsteps := fun c hc => (sound_preferencesRun libraries requests db cs).allowed c hc userId
  have hchain : Chained db s.commits s.db := chained_run (chained_start _ _) _ _
  have hfield : ∀ {β : Type} (get : Preferences Json → β) (sent : PreferencesPatch Json → Option β)
      (_ : ∀ (p : PreferencesPatch Json) now (r : PreferencesRow Json),
        get (p.merge now r).toPreferences = (sent p).getD (get r.toPreferences)),
      get (shown libraries s.db userId) =
        ((committedPatches libraries requests userId s.commits).findSome? sent).getD
          (get (shown libraries db userId)) := by
    intro β get sent h
    have hshown : ∀ s : PreferencesDb Json, get (shown libraries s userId) =
        (field libraries requests get sent h userId).shown
          (get (defaultPreferences libraries)) s := by
      intro s
      unfold shown Patches.Field.shown
      cases s.lookup userId with
      | none => rfl
      | some r => rfl
    rw [hshown, hshown, ← lastSet_field]
    exact Patches.Field.shown_eq _ hsteps hchain fun i seen r hr => congrArg get hr
  have hcurrency := hfield Preferences.currencyCode _ fun _ _ _ => rfl
  have hlocale := hfield Preferences.locale _ fun _ _ _ => rfl
  have htimezone := hfield Preferences.timezone _ fun _ _ _ => rfl
  have hlayout := hfield Preferences.dashboardLayout _ fun _ _ _ => rfl
  rw [overlay, ← hcurrency, ← hlocale, ← htimezone, ← hlayout]

/-- Preferences are stored and shown only as valid, whatever requests run. -/
theorem valid_preferencesRun (libraries : Libraries Json)
    (requests : ι → Caller × PreferencesRequest Json) (db : PreferencesDb Json)
    (hdb : AllValid libraries db) (cs : List (Choice ι)) :
    let s := preferencesRun libraries requests db cs
    AllValid libraries s.db ∧ ∀ i a, (s.procs i).prog = .ret a → IsValid libraries a := by
  intro s
  have hsound := sound_preferencesRun libraries requests db cs
  exact ⟨hsound.inv hdb, fun i a hret => (hsound.post_of_ret hret).1 hdb⟩

end Runs

def tabLibraries : Libraries (Option DashboardLayoutPayload) :=
  { timezoneExists := fun name => name = "America/Bogota", layoutOf := id, emptyObject := none }

def noParsers : Parsers :=
  { decimal := fun _ => none, naiveDate := fun _ => none, dateTime := fun _ => none }

def tabs (tab : Fin 2) : Caller × PreferencesRequest (Option DashboardLayoutPayload) :=
  if tab = 0 then
    (⟨noParsers, 1, 10⟩,
      .patch { currencyCode := some "USD", locale := none, timezone := none
               dashboardLayout := none })
  else
    (⟨noParsers, 1, 20⟩,
      .patch { currencyCode := none, locale := some "en-US", timezone := none
               dashboardLayout := none })

def tabTurns : List (Choice (Fin 2)) :=
  (List.range 20).map fun n => ⟨if n % 2 = 0 then 0 else 1, .advance 0⟩

theorem valid_preferencesRun_tabs :
    let s := preferencesRun tabLibraries tabs ∅ tabTurns
    AllValid tabLibraries s.db ∧ ∀ i a, (s.procs i).prog = .ret a → IsValid tabLibraries a :=
  valid_preferencesRun tabLibraries tabs ∅ (fun _ _ h => by cases h) _

example :
    shown tabLibraries (preferencesRun tabLibraries tabs ∅ tabTurns).db 1 =
      { currencyCode := "USD", locale := "en-US", timezone := "America/Bogota"
        dashboardLayout := none } := by
  decide

end PersonalDashboard.UserPreferences
