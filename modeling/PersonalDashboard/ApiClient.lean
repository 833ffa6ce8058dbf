import Mathlib.Logic.Function.Basic

/-! The session token in the pages of one browser: what a 401 does to it, over
every interleaving of requests, answers, logins and logouts. -/

set_option autoImplicit false

namespace PersonalDashboard.ApiClient

/-- A request that waits for its answer: its page, and the token in its
`Authorization` header. -/
structure Request (ι : Type) where
  page : ι
  token : Option String

/-- What became of the latest login that brought a token: none of its requests
was answered with a 401 yet, or one was. -/
inductive Phase where
  | live
  | expired
  deriving DecidableEq, Repr

/-- The pages of a browser. They share `localStorage`, which may be blocked;
`redirectInFlight` is a variable of the module in each page. The navigations to
the login page are listed with the newest first. -/
structure Browser (ι : Type) where
  blocked : Bool
  item : Option String
  redirectInFlight : ι → Bool := fun _ => false
  pending : Nat → Option (Request ι) := fun _ => none
  leaving : ι → Nat := fun _ => 0
  navigations : List ι := []
  logins : String → Option Phase := fun _ => none

inductive Action (ι : Type) where
  /-- Call `apiFetch`, with an `Authorization` header of the caller's own if one
  is given. -/
  | apiFetch (id : Nat) (page : ι) (own : Option (Option String))
  | answer (id : Nat) (status : Option Nat)
  | login (token : String) (full : Bool)
  | logout (page : ι)
  /-- The server answered the logout, or did not in time. -/
  | logoutDone (page : ι)
  deriving DecidableEq, Repr

variable {ι : Type} [DecidableEq ι]

namespace Browser

def getToken (b : Browser ι) : Option String :=
  if b.blocked then none else b.item

def setToken (b : Browser ι) (token : String) (full : Bool) : Browser ι :=
  if b.blocked || full then b else { b with item := some token }

def clearToken (b : Browser ι) : Browser ι :=
  if b.blocked then b else { b with item := none }

def navigateToLogin (b : Browser ι) (page : ι) : Browser ι :=
  { b with navigations := page :: b.navigations }

def handleUnauthorized (b : Browser ι) (page : ι) : Browser ι :=
  if b.redirectInFlight page then b
  else
    ({ b with redirectInFlight := Function.update b.redirectInFlight page true }).clearToken
      |>.navigateToLogin page

/-- An empty token is not attached. -/
def attached (b : Browser ι) (own : Option (Option String)) : Option String :=
  own.getD (b.getToken.filter fun token => token ≠ "")

def step (b : Browser ι) : Action ι → Browser ι
  | .apiFetch id page own =>
      if (b.pending id).isSome then b
      else { b with pending := Function.update b.pending id (some ⟨page, b.attached own⟩) }
  | .answer id status =>
      match b.pending id with
      | none => b
      | some request =>
          let b' := { b with pending := Function.update b.pending id none }
          if status = some 401 then
            let b'' := b'.handleUnauthorized request.page
            match request.token with
            | none => b''
            | some token =>
                { b'' with
                  logins := Function.update b.logins token
                    ((b.logins token).map fun _ => .expired) }
          else b'
  | .login token full =>
      { b.setToken token full with logins := Function.update b.logins token (some .live) }
  | .logout page =>
      { b.clearToken with leaving := Function.update b.leaving page (b.leaving page + 1) }
  | .logoutDone page =>
      if b.leaving page = 0 then b
      else
        ({ b with leaving := Function.update b.leaving page (b.leaving page - 1) }).navigateToLogin
          page

def run (b : Browser ι) (actions : List (Action ι)) : Browser ι :=
  actions.foldl step b

def opened (blocked : Bool) (item : Option String) : Browser ι where
  blocked := blocked
  item := item
  logins token := if item = some token then some .live else none

end Browser

open Browser

/-- The 401 of a request removes the stored token only if it is the one that
the request carried. The first 401 for the token of a login removes it and
navigates; the further ones navigate no more. -/
structure EndsOwnSession (b b' : Browser ι) (request : Request ι) : Prop where
  only : b'.getToken ≠ b.getToken → b.getToken = request.token
  first : ∀ token, request.token = some token → b.logins token = some .live →
    b'.getToken ≠ some token ∧ b'.navigations = request.page :: b.navigations
  further : ∀ token, request.token = some token → b.logins token = some .expired →
    b'.navigations = b.navigations

/-- When `handleUnauthorized` is right: a page that still redirects finds no
token but the one that the request carried, and the page still redirects exactly
at the first 401 for the token of a login. -/
structure Armed (b : Browser ι) (request : Request ι) : Prop where
  stored : b.redirectInFlight request.page = false →
    b.getToken = none ∨ b.getToken = request.token
  first : ∀ token, request.token = some token → b.logins token = some .live →
    b.redirectInFlight request.page = false
  further : ∀ token, request.token = some token → b.logins token = some .expired →
    b.redirectInFlight request.page = true

/-- Every 401 of a run satisfies a condition on the states around it. -/
def EachUnauthorized (P : Browser ι → Browser ι → Request ι → Prop) :
    Browser ι → List (Action ι) → Prop
  | _, [] => True
  | b, action :: actions =>
      (∀ id request, action = .answer id (some 401) → b.pending id = some request →
        P b (b.step action) request) ∧
      EachUnauthorized P (b.step action) actions

section Steps

variable {b : Browser ι} {id : Nat} {request : Request ι}

section

omit [DecidableEq ι]

@[simp]
theorem getToken_clearToken (b : Browser ι) : b.clearToken.getToken = none := by
  unfold clearToken getToken
  split <;> simp_all

@[simp]
theorem navigations_clearToken (b : Browser ι) : b.clearToken.navigations = b.navigations := by
  unfold clearToken
  split <;> rfl

@[simp]
theorem redirectInFlight_clearToken (b : Browser ι) :
    b.clearToken.redirectInFlight = b.redirectInFlight := by
  unfold clearToken
  split <;> rfl

@[simp]
theorem pending_clearToken (b : Browser ι) : b.clearToken.pending = b.pending := by
  unfold clearToken
  split <;> rfl

end

theorem step_answer_of_armed (hpending : b.pending id = some request)
    (h : b.redirectInFlight request.page = false) :
    (b.step (.answer id (some 401))).getToken = none ∧
      (b.step (.answer id (some 401))).navigations = request.page :: b.navigations := by
  simp only [step, hpending, handleUnauthorized, h, Bool.false_eq_true, if_false, if_true]
  cases request.token with
  | none =>
      refine ⟨getToken_clearToken _, ?_⟩
      exact congrArg (List.cons request.page) (navigations_clearToken _)
  | some token =>
      refine ⟨getToken_clearToken _, ?_⟩
      exact congrArg (List.cons request.page) (navigations_clearToken _)

theorem step_answer_of_redirected (hpending : b.pending id = some request)
    (h : b.redirectInFlight request.page = true) :
    (b.step (.answer id (some 401))).getToken = b.getToken ∧
      (b.step (.answer id (some 401))).navigations = b.navigations := by
  simp only [step, hpending, handleUnauthorized, h, if_true]
  cases request.token with
  | none => exact ⟨rfl, rfl⟩
  | some token => exact ⟨rfl, rfl⟩

/-- The step lemma: a 401 does what it should exactly when the page is armed for
it. -/
theorem endsOwnSession_step_iff (hpending : b.pending id = some request) :
    EndsOwnSession b (b.step (.answer id (some 401))) request ↔ Armed b request := by
  cases h : b.redirectInFlight request.page with
  | false =>
      obtain ⟨htoken, hnavigations⟩ := step_answer_of_armed hpending h
      constructor
      · rintro ⟨honly, -, hfurther⟩
        refine ⟨fun _ => ?_, fun _ _ _ => h, fun token htok hexpired => ?_⟩
        · by_cases hnone : b.getToken = none
          · exact Or.inl hnone
          · exact Or.inr (honly (htoken ▸ fun heq => hnone heq.symm))
        · have hsame := hfurther token htok hexpired
          rw [hnavigations] at hsame
          simp at hsame
      · rintro ⟨hstored, -, hfurther⟩
        refine ⟨fun hne => ?_, fun _ _ _ => ⟨by simp [htoken], hnavigations⟩,
          fun token htok hexpired => ?_⟩
        · exact (hstored h).resolve_left fun hnone => hne (htoken.trans hnone.symm)
        · have hredirected := hfurther token htok hexpired
          simp [h] at hredirected
  | true =>
      obtain ⟨htoken, hnavigations⟩ := step_answer_of_redirected hpending h
      constructor
      · rintro ⟨-, hfirst, -⟩
        refine ⟨fun hfalse => by simp [h] at hfalse, fun token htok hlive => ?_, fun _ _ _ => h⟩
        have hnew := (hfirst token htok hlive).2
        rw [hnavigations] at hnew
        simp at hnew
      · rintro ⟨-, hfirst, -⟩
        refine ⟨fun hne => absurd htoken hne, fun token htok hlive => ?_, fun _ _ _ => hnavigations⟩
        have hfalse := hfirst token htok hlive
        simp [h] at hfalse

end Steps

theorem eachUnauthorized_congr {P Q : Browser ι → Browser ι → Request ι → Prop}
    (h : ∀ (b : Browser ι) id request, b.pending id = some request →
      (P b (b.step (.answer id (some 401))) request ↔ Q b (b.step (.answer id (some 401))) request))
    (b : Browser ι) (actions : List (Action ι)) :
    EachUnauthorized P b actions ↔ EachUnauthorized Q b actions := by
  induction actions generalizing b with
  | nil => exact Iff.rfl
  | cons action actions ih =>
      refine and_congr (forall_congr' fun id => forall_congr' fun request => ?_) (ih _)
      refine forall_congr' fun haction => forall_congr' fun hpending => ?_
      subst haction
      exact h b id request hpending

/-- In every run of the pages of a browser, the 401s end the sessions they
belong to exactly when each of them finds its page armed for it. -/
theorem eachUnauthorized_run_iff (blocked : Bool) (item : Option String)
    (actions : List (Action ι)) :
    EachUnauthorized EndsOwnSession (opened blocked item) actions ↔
      EachUnauthorized (fun b _ request => Armed b request) (opened blocked item) actions :=
  eachUnauthorized_congr (fun _ _ _ hpending => endsOwnSession_step_iff hpending) _ actions

theorem redirectInFlight_step {b : Browser ι} {page : ι} (h : b.redirectInFlight page = true)
    (action : Action ι) : (b.step action).redirectInFlight page = true := by
  cases action with
  | apiFetch id page' own =>
      simp only [step]
      split <;> exact h
  | answer id status =>
      have hunauthorized : ∀ (b : Browser ι) (page' : ι), b.redirectInFlight page = true →
          (b.handleUnauthorized page').redirectInFlight page = true := by
        intro b page' hb
        unfold handleUnauthorized
        split
        · exact hb
        · simp only [navigateToLogin, redirectInFlight_clearToken, Function.update_apply, hb,
            ite_self]
      simp only [step]
      split
      · exact h
      · split
        · split
          · exact hunauthorized _ _ h
          · exact hunauthorized _ _ h
        · exact h
  | login token full =>
      simp only [step, setToken]
      split <;> exact h
  | logout page' =>
      simp only [step, redirectInFlight_clearToken]
      exact h
  | logoutDone page' =>
      simp only [step]
      split <;> exact h

theorem redirectInFlight_run {b : Browser ι} {page : ι} (h : b.redirectInFlight page = true)
    (actions : List (Action ι)) : (b.run actions).redirectInFlight page = true := by
  induction actions generalizing b with
  | nil => exact h
  | cons action actions ih => exact ih (redirectInFlight_step h action)

theorem not_armed_run {b : Browser ι} {request : Request ι} {token : String}
    (h : b.redirectInFlight request.page = true) (actions : List (Action ι))
    (htoken : request.token = some token) (hlive : (b.run actions).logins token = some .live) :
    ¬ Armed (b.run actions) request := by
  intro harmed
  have hunset := harmed.first token htoken hlive
  rw [redirectInFlight_run h actions] at hunset
  cases hunset

def OfPage (page : ι) : Action ι → Prop
  | .apiFetch _ page' own => page' = page ∧ own = none
  | .answer _ _ => True
  | _ => False

/-- The latest login brought the token, and only the page has sent requests
since. -/
structure InSession (token : String) (page : ι) (b : Browser ι) : Prop where
  stored : b.getToken = if b.redirectInFlight page then none else some token
  phase : b.logins token = some (if b.redirectInFlight page then .expired else .live)
  pages : ∀ id request, b.pending id = some request → request.page = page
  tokens : ∀ id request, b.pending id = some request →
    request.token = some token ∨ b.redirectInFlight page = true ∧ request.token = none

section InSession

variable {token : String} {page : ι} {b : Browser ι}

section

omit [DecidableEq ι]

theorem InSession.armed (h : InSession token page b) {id : Nat} {request : Request ι}
    (hpending : b.pending id = some request) : Armed b request := by
  have hpage := h.pages id request hpending
  have hphase := h.phase
  have htokens := h.tokens id request hpending
  rw [← hpage] at hphase htokens
  have hown : ∀ token', request.token = some token' → token' = token := by
    intro token' htoken'
    rcases htokens with htoken | ⟨-, hnone⟩
    · exact Option.some.inj (htoken'.symm.trans htoken)
    · rw [htoken'] at hnone
      cases hnone
  refine ⟨fun hunset => Or.inr ?_, fun token' htoken' hlive => ?_,
    fun token' htoken' hexpired => ?_⟩
  · have hstored := h.stored
    rw [← hpage, hunset] at hstored
    rcases htokens with htoken | ⟨hset, -⟩
    · exact hstored.trans htoken.symm
    · rw [hunset] at hset
      cases hset
  · rw [hown token' htoken', hphase] at hlive
    by_contra hset
    simp [hset] at hlive
  · rw [hown token' htoken', hphase] at hexpired
    by_contra hunset
    simp [hunset] at hexpired

theorem InSession.setPending (h : InSession token page b) (id : Nat) {sent : Option (Request ι)}
    (hsent : ∀ request, sent = some request → request.page = page ∧
      (request.token = some token ∨ b.redirectInFlight page = true ∧ request.token = none)) :
    InSession token page { b with pending := Function.update b.pending id sent } := by
  have hcases : ∀ id' request, Function.update b.pending id sent id' = some request →
      sent = some request ∨ b.pending id' = some request := by
    intro id' request hpending
    by_cases hid : id' = id
    · rw [hid, Function.update_self] at hpending
      exact Or.inl hpending
    · rw [Function.update_of_ne hid] at hpending
      exact Or.inr hpending
  refine ⟨h.stored, h.phase, fun id' request hpending => ?_, fun id' request hpending => ?_⟩
  · exact (hcases id' request hpending).elim (fun heq => (hsent request heq).1)
      (h.pages id' request)
  · exact (hcases id' request hpending).elim (fun heq => (hsent request heq).2)
      (h.tokens id' request)

theorem InSession.attached (h : InSession token page b) (htoken : token ≠ "") :
    b.attached none = some token ∨ b.redirectInFlight page = true ∧ b.attached none = none := by
  have hstored := h.stored
  cases hset : b.redirectInFlight page with
  | false =>
      rw [hset] at hstored
      exact Or.inl (by simp [Browser.attached, hstored, htoken])
  | true =>
      rw [hset] at hstored
      exact Or.inr ⟨rfl, by simp [Browser.attached, hstored]⟩

end

theorem InSession.unauthorized (h : InSession token page b) {request : Request ι}
    (hpage : request.page = page)
    (htoken : request.token = some token ∨
      b.redirectInFlight page = true ∧ request.token = none) :
    InSession token page
      (match request.token with
      | none => b.handleUnauthorized request.page
      | some token' =>
          { b.handleUnauthorized request.page with
            logins := Function.update b.logins token'
              ((b.logins token').map fun _ => .expired) }) := by
  subst hpage
  cases hset : b.redirectInFlight request.page with
  | false =>
      have hcarried : request.token = some token := by
        refine htoken.resolve_right ?_
        rintro ⟨hset', -⟩
        rw [hset] at hset'
        cases hset'
      simp only [hcarried, handleUnauthorized, hset, Bool.false_eq_true, if_false]
      refine ⟨?_, ?_, fun id request' hpending => ?_, fun id request' hpending => ?_⟩
      · simp only [navigateToLogin, redirectInFlight_clearToken, Function.update_self, if_true]
        exact getToken_clearToken _
      · simp [navigateToLogin, h.phase]
      · simp only [navigateToLogin, pending_clearToken] at hpending
        exact h.pages id request' hpending
      · simp only [navigateToLogin, pending_clearToken] at hpending
        refine Or.inl ((h.tokens id request' hpending).resolve_right fun hor => ?_)
        simp [hset] at hor
  | true =>
      simp only [handleUnauthorized, hset, if_true]
      rcases htoken with hcarried | ⟨-, hnone⟩
      · simp only [hcarried]
        exact ⟨h.stored, by simp [h.phase, hset], h.pages, h.tokens⟩
      · simp only [hnone]
        exact h

theorem InSession.step (h : InSession token page b) (htoken : token ≠ "") {action : Action ι}
    (haction : OfPage page action) : InSession token page (b.step action) := by
  cases action with
  | apiFetch id page' own =>
      obtain ⟨rfl, rfl⟩ := haction
      simp only [Browser.step]
      split
      · exact h
      · refine h.setPending id fun request hrequest => ?_
        obtain rfl := Option.some.inj hrequest
        exact ⟨rfl, h.attached htoken⟩
  | answer id status =>
      simp only [Browser.step]
      split
      · exact h
      · rename_i request hpending
        have hanswered : InSession token page
            { b with pending := Function.update b.pending id none } :=
          h.setPending id fun _ hnone => by cases hnone
        split
        · exact hanswered.unauthorized (h.pages id request hpending) (h.tokens id request hpending)
        · exact hanswered
  | login token' full => exact haction.elim
  | logout page' => exact haction.elim
  | logoutDone page' => exact haction.elim

end InSession

theorem armed_run {token : String} (htoken : token ≠ "") {page : ι} {b : Browser ι}
    (h : InSession token page b) {actions : List (Action ι)}
    (hactions : ∀ action ∈ actions, OfPage page action) :
    EachUnauthorized (fun b _ request => Armed b request) b actions := by
  induction actions generalizing b with
  | nil => trivial
  | cons action actions ih =>
      have hstep := h.step htoken (hactions action List.mem_cons_self)
      exact ⟨fun id request _ hpending => h.armed hpending,
        ih hstep fun action' haction' => hactions action' (List.mem_cons_of_mem action haction')⟩

/-- A page is armed for every 401 of a run in which a login is followed by its own
requests and their answers alone, however many there are and in whatever order
they are answered. -/
theorem armed_firstSession (item : Option String) {token : String} (htoken : token ≠ "")
    (page : ι) {actions : List (Action ι)} (hactions : ∀ action ∈ actions, OfPage page action) :
    EachUnauthorized (fun b _ request => Armed b request) (opened false item)
      (.login token false :: actions) := by
  refine ⟨fun id request haction => (by cases haction), armed_run htoken ?_ hactions⟩
  refine ⟨rfl, Function.update_self .., fun id request hpending => ?_,
    fun id request hpending => ?_⟩
  · cases hpending
  · cases hpending

def secondSession : List (Action Unit) :=
  [.login "first" false, .apiFetch 0 () none, .answer 0 (some 401),
    .login "second" false, .apiFetch 1 () none, .answer 1 (some 401)]

def lateAnswer : List (Action Unit) :=
  [.login "first" false, .apiFetch 0 () none, .login "second" false, .answer 0 (some 401)]

/-- The second session is not ended when it expires; and a late 401 of the first
one removes the token of the second. -/
theorem not_eachUnauthorized_secondSession :
    ¬ EachUnauthorized EndsOwnSession (opened false none) secondSession ∧
    ¬ EachUnauthorized EndsOwnSession (opened false none) lateAnswer := by
  constructor
  · rintro ⟨-, -, -, -, -, h, -⟩
    exact ((h 1 _ rfl rfl).first "second" rfl rfl).1 rfl
  · rintro ⟨-, -, -, h, -⟩
    exact absurd ((h 0 _ rfl rfl).only (by decide)) (by decide)

end PersonalDashboard.ApiClient
