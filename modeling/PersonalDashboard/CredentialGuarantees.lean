import PersonalDashboard.CredentialRules

/-! What holds in every run of credential requests: where sessions and tokens come from, whom
their changes belong to, and that what has been revoked stays useless. -/

set_option autoImplicit false

namespace PersonalDashboard.CredentialGuarantees

open PersonalDashboard.CredentialEffects
open PersonalDashboard.CredentialHandlers
open PersonalDashboard.CredentialRules
open PersonalDashboard.LedgerHandlers
open PersonalDashboard.ReadCommitted
open PersonalDashboard.RowHistories
open PersonalDashboard.RowHistories.Discipline
open PersonalDashboard.RowStore
open PersonalDashboard.Schema

variable {ι : Type} {platform : Platform}
  {requests : ι → Presented × CredentialRequest} {db : CredentialDb} {i : ι}

theorem outcome_internal (s₀ : CredentialDb) (seen : List CredentialDb) (t : CredentialDb) :
    Outcome platform requests i s₀ (.error .internal) seen t := by
  cases hrequest : (requests i).2 with
  | login _ =>
      simp only [Outcome, hrequest]
      exact ⟨.error .internal, rfl, trivial⟩
  | logout =>
      simp only [Outcome, hrequest]
      exact ⟨.error .internal, rfl, fun h => (by cases h)⟩
  | deleteSessions =>
      simp only [Outcome, hrequest]
      exact ⟨.error .internal, rfl, Or.inr (Or.inl rfl), fun h => (by cases h)⟩
  | deleteToken _ =>
      simp only [Outcome, hrequest]
      exact ⟨.error .internal, rfl, Or.inr (Or.inl rfl), fun _ h => (by cases h)⟩
  | _ =>
      simp only [Outcome, hrequest]
      exact ⟨.error .internal, rfl, Or.inr (Or.inl rfl)⟩

theorem vouched_of_map {α β : Type} {f : α → β} {s₀ : CredentialDb} {r : Except AppError β}
    {seen : List CredentialDb} {t : CredentialDb}
    (h : ∃ r' : Except AppError α, r = r'.map f ∧ Vouched platform requests i s₀ r' seen t) :
    Vouched platform requests i s₀ r seen t := by
  obtain ⟨r', rfl, rfl | rfl | hauth⟩ := h
  · exact Or.inl rfl
  · exact Or.inr (Or.inl rfl)
  · exact Or.inr (Or.inr hauth)

theorem vouched_of_outcome {s₀ : CredentialDb} {r : Except AppError CredentialAnswer}
    {seen : List CredentialDb} {t : CredentialDb}
    (hrequest : requiresSession (requests i).2 ∨ acceptsApiTokens (requests i).2)
    (h : Outcome platform requests i s₀ r seen t) :
    Vouched platform requests i s₀ r seen t := by
  cases heq : (requests i).2 with
  | login _ =>
      rw [heq] at hrequest
      rcases hrequest with hrequest | hrequest <;> cases hrequest
  | logout =>
      rw [heq] at hrequest
      rcases hrequest with hrequest | hrequest <;> cases hrequest
  | deleteSessions =>
      simp only [Outcome, heq] at h
      obtain ⟨r', hr, hvouched, -⟩ := h
      exact vouched_of_map ⟨r', hr, hvouched⟩
  | deleteToken _ =>
      simp only [Outcome, heq] at h
      obtain ⟨r', hr, hvouched, -⟩ := h
      exact vouched_of_map ⟨r', hr, hvouched⟩
  | _ =>
      simp only [Outcome, heq] at h
      exact vouched_of_map h

/-- No session under the hash is live from the given time on, nor will one appear. -/
def NoSession (platform : Platform) (requests : ι → Presented × CredentialRequest)
    (hash : String) (now : Timestamp) (s : CredentialDb) : Prop :=
  Gone (∃ j, openedHash platform (requests j).2 = some hash) (SessionRow.live now)
    (s.session hash)

/-- No API token under the hash is live from the given time on, nor will one appear. -/
def NoApiToken (platform : Platform) (requests : ι → Presented × CredentialRequest)
    (hash : String) (now : Timestamp) (s : CredentialDb) : Prop :=
  Gone (∃ j, mintedHash platform (requests j).2 = some hash) (ApiTokenRow.live now)
    (s.apiToken hash)

theorem NoSession.later {hash : String} {now : Timestamp} {s t : CredentialDb}
    (h : NoSession platform requests hash now s)
    (hlater : (credentials platform requests).Later [] s t) :
    NoSession platform requests hash now t :=
  Gone.persists h (fun _ _ hevolves => hevolves.live_eq_false) (hlater.evolves (.session hash))

theorem NoApiToken.later {hash : String} {now : Timestamp} {s t : CredentialDb}
    (h : NoApiToken platform requests hash now s)
    (hlater : (credentials platform requests).Later [] s t) :
    NoApiToken platform requests hash now t :=
  Gone.persists h (fun _ _ hevolves => hevolves.live_eq_false) (hlater.evolves (.apiToken hash))

theorem NoSession.lookup_eq_none {hash : String} {now : Timestamp} {s : CredentialDb}
    (h : NoSession platform requests hash now s) : sessionLookupSql hash now s = none := by
  refine Option.eq_none_iff_forall_ne_some.mpr fun userId huser => ?_
  obtain ⟨r, hr, hlive, -⟩ := sessionLookupSql_eq_some.mp huser
  rw [h.dead r hr] at hlive
  cases hlive

theorem NoApiToken.lookup_eq_none {hash : String} {now : Timestamp} {s : CredentialDb}
    (h : NoApiToken platform requests hash now s) : apiTokenLookupSql hash now s = none := by
  refine Option.eq_none_iff_forall_ne_some.mpr fun userId huser => ?_
  obtain ⟨r, hr, hlive, -⟩ := apiTokenLookupSql_eq_some.mp huser
  rw [h.dead r hr] at hlive
  cases hlive

structure Useless (platform : Platform) (requests : ι → Presented × CredentialRequest) (i : ι)
    (s : CredentialDb) : Prop where
  request : requiresSession (requests i).2 ∨ acceptsApiTokens (requests i).2
  session : ∀ hash, presentedHash platform (requests i).1 = some hash →
    NoSession platform requests hash (requests i).1.sessionNow s
  apiToken : acceptsApiTokens (requests i).2 →
    ∀ hash, presentedHash platform (requests i).1 = some hash →
      NoApiToken platform requests hash (requests i).1.tokenNow s

theorem Useless.not_authenticated {s₀ : CredentialDb} {seen : List CredentialDb} {userId : Uuid}
    (h : Useless platform requests i s₀) :
    ¬ Authenticated platform requests i s₀ seen userId := by
  rintro ⟨s, -, hprincipal, hlater⟩
  generalize hrequest : (requests i).2 = request at hprincipal
  cases hprincipal with
  | password _ =>
      have hkind := h.request
      rw [hrequest] at hkind
      rcases hkind with hkind | hkind <;> cases hkind
  | logout _ _ =>
      have hkind := h.request
      rw [hrequest] at hkind
      rcases hkind with hkind | hkind <;> cases hkind
  | session _ hhash huser =>
      rw [((h.session _ hhash).later hlater).lookup_eq_none] at huser
      cases huser
  | apiToken haccepts hhash huser =>
      rw [← hrequest] at haccepts
      rw [((h.apiToken haccepts _ hhash).later hlater).lookup_eq_none] at huser
      cases huser

theorem SessionRow.live_eq_false_of_le {r : SessionRow} {now now' : Timestamp}
    (h : r.live now = false) (hle : now ≤ now') : r.live now' = false := by
  cases hrevoked : r.revokedAt with
  | some _ => simp [SessionRow.live, hrevoked]
  | none =>
      simp only [SessionRow.live, hrevoked, Option.isNone_none, Bool.true_and,
        decide_eq_false_iff_not, not_lt] at h ⊢
      exact h.trans hle

theorem noSession_of_closed {hash : String} {now now' : Timestamp} {s₀ t : CredentialDb}
    {r : SessionRow} (h : Closed hash now s₀ t) (hr : s₀.session hash = some r)
    (hle : now ≤ now') : NoSession platform requests hash now' t := by
  obtain ⟨r', hr', -, hdead⟩ := h r hr
  refine ⟨fun r'' hr'' => ?_, fun hnone => ?_⟩
  · obtain rfl := Option.some.inj (hr'.symm.trans hr'')
    exact SessionRow.live_eq_false_of_le hdead hle
  · rw [hr'] at hnone
    cases hnone

theorem noApiToken_of_revoked {hash : String} {now : Timestamp} {s : CredentialDb}
    {r : ApiTokenRow} (hr : s.apiToken hash = some r) (hrevoked : r.revokedAt.isSome) :
    NoApiToken platform requests hash now s := by
  refine ⟨fun r' hr' => ?_, fun hnone => ?_⟩
  · obtain rfl := Option.some.inj (hr.symm.trans hr')
    obtain ⟨t, ht⟩ := Option.isSome_iff_exists.mp hrevoked
    simp [ApiTokenRow.live, ht]
  · rw [hr] at hnone
    cases hnone

structure Minted (platform : Platform) (p : Presented) (seen : List CredentialDb)
    (request : CredentialRequest) (r : ApiTokenRow) (mint : TokenMint) (s : CredentialDb)
    (lifetimeDays : Int) : Prop where
  request : request = .createToken mint
  mem : s ∈ seen
  principal : Principal platform p s r.userId (.createToken mint)
  name : validateTokenName mint.body.name = .ok r.name
  lifetime : effectiveLifetimeDays mint.body.expiresInDays = .ok lifetimeDays
  expiresAt : r.expiresAt = some (p.utcNow + days lifetimeDays)

theorem minted_of_effect {p : Presented} {seen : List CredentialDb} {hash : String}
    {request : CredentialRequest} {r : ApiTokenRow}
    (h : Effect platform p seen request (.apiToken hash) none (some r)) :
    ∃ mint s lifetimeDays, Minted platform p seen request r mint s lifetimeDays := by
  cases h with
  | createToken hs h hname hdays => exact ⟨_, _, _, rfl, hs, h, hname, hdays, rfl⟩

theorem minted_of_makes {seen : List CredentialDb} {hash : String} {r : ApiTokenRow}
    (h : (credentials platform requests).Makes i seen (.apiToken hash) none (some r)) :
    ∃ mint s lifetimeDays,
      Minted platform (requests i).1 seen (requests i).2 r mint s lifetimeDays := by
  generalize hv : (some r : Option (CredentialTable (.apiToken hash))) = v at h
  induction h generalizing r with
  | refl => cases hv
  | @tail v' _ _ hstep ih =>
      subst hv
      cases v' with
      | none => exact minted_of_effect hstep
      | some r' =>
          -- a request that mints a token neither touches nor revokes one
          obtain ⟨mint, s, n, hminted⟩ := ih rfl
          change Effect platform (requests i).1 seen (requests i).2 _ _ _ at hstep
          rw [hminted.request] at hstep
          cases hstep with
          | touch _ haccepts _ _ _ => cases haccepts

def rowOwner : (k : CredentialKey) → CredentialTable k → Option Uuid
  | .session _, (r : SessionRow) => some r.userId
  | .apiToken _, (r : ApiTokenRow) => some r.userId
  | _, _ => none

structure OwnChange (userId : Uuid) (k : CredentialKey) (v v' : Option (CredentialTable k)) :
    Prop where
  stored : ∃ r, v' = some r ∧ rowOwner k r = some userId
  before : ∀ r, v = some r → rowOwner k r = some userId

theorem Effect.ownChange {p : Presented} {seen : List CredentialDb} {request : CredentialRequest}
    {k : CredentialKey} {v v' : Option (CredentialTable k)}
    (h : Effect platform p seen request k v v') :
    ∃ s ∈ seen, ∃ userId, Principal platform p s userId request ∧ OwnChange userId k v v' := by
  cases h with
  | login hs h => exact ⟨_, hs, _, h, ⟨_, rfl, rfl⟩, fun _ hr => (by cases hr)⟩
  | logout hs h _ _ => exact ⟨_, hs, _, h, ⟨_, rfl, rfl⟩, fun _ hr => Option.some.inj hr ▸ rfl⟩
  | deleteSessions hs h _ _ =>
      exact ⟨_, hs, _, h, ⟨_, rfl, rfl⟩, fun _ hr => Option.some.inj hr ▸ rfl⟩
  | createToken hs h _ _ => exact ⟨_, hs, _, h, ⟨_, rfl, rfl⟩, fun _ hr => (by cases hr)⟩
  | touch hs _ h _ _ => exact ⟨_, hs, _, h, ⟨_, rfl, rfl⟩, fun _ hr => Option.some.inj hr ▸ rfl⟩
  | deleteToken hs h _ => exact ⟨_, hs, _, h, ⟨_, rfl, rfl⟩, fun _ hr => Option.some.inj hr ▸ rfl⟩

theorem ownChange_of_makes {seen : List CredentialDb} {k : CredentialKey}
    {v v' : Option (CredentialTable k)}
    (h : (credentials platform requests).Makes i seen k v v') (hne : v' ≠ v) :
    ∃ s ∈ seen, ∃ userId, Principal platform (requests i).1 s userId (requests i).2 ∧
      OwnChange userId k v v' := by
  induction h with
  | refl => exact absurd rfl hne
  | @tail b c hab hbc ih =>
      obtain ⟨s, hs, userId, hprincipal, hchange⟩ := Effect.ownChange hbc
      refine ⟨s, hs, userId, hprincipal, hchange.stored, ?_⟩
      by_cases hb : b = v
      · exact hb ▸ hchange.before
      · obtain ⟨-, -, userId', -, hchange'⟩ := ih hb
        obtain ⟨r', hr', howner'⟩ := hchange'.stored
        have howner := hchange.before r' hr'
        intro r hr
        rw [hchange'.before r hr, ← howner', howner]

structure Stamps (c : Commit ι CredentialTable) (hash : String) (r r' : ApiTokenRow) : Prop where
  before : CredentialDb.apiToken c.before hash = some r
  after : CredentialDb.apiToken c.after hash = some r'
  changes : r'.lastUsedAt ≠ r.lastUsedAt

theorem Stamps.exists_stamp {cs : List (Commit ι CredentialTable)}
    {c : Commit ι CredentialTable} {hash : String} {r r' : ApiTokenRow}
    (h : Stamps c hash r r') (hjustified : Justified (credentials platform requests) cs)
    (hc : c ∈ cs) : ∃ t', r'.lastUsedAt = some t' ∧
      ∀ t, r.lastUsedAt = some t → t + touchInterval < t' := by
  have hlater : (credentials platform requests).Later [] c.before c.after :=
    ⟨fun _ hk => (by cases hk), hjustified.evolves hc⟩
  obtain ⟨r'', hr'', hstep⟩ := exists_apiToken_of_later hlater h.before
  obtain rfl := Option.some.inj (h.after.symm.trans hr'')
  rcases hstep.used with hsame | hstamp
  · exact absurd hsame h.changes
  · exact hstamp

variable [DecidableEq ι]

/-- A run of all requests, in the given order of steps. -/
def serve (platform : Platform) (requests : ι → Presented × CredentialRequest)
    (db : CredentialDb) (cs : List (Choice ι)) :
    Config ι CredentialTable SqlState AppError CredentialAnswer :=
  run .internal
    (start db fun i => serveCredential platform (requests i).1 (requests i).2) cs

abbrev stored (platform : Platform) (requests : ι → Presented × CredentialRequest)
    (db : CredentialDb) (cs : List (Choice ι)) : CredentialDb :=
  (serve platform requests db cs).db

def Waiting (platform : Platform) (requests : ι → Presented × CredentialRequest)
    (s : Config ι CredentialTable SqlState AppError CredentialAnswer) (i : ι) : Prop :=
  s.procs i = { prog := serveCredential platform (requests i).1 (requests i).2 }

theorem historical_serve (platform : Platform) (requests : ι → Presented × CredentialRequest)
    (db : CredentialDb) (cs : List (Choice ι)) :
    Historical (credentials platform requests) (fun i => Outcome platform requests i db)
      (serve platform requests db cs) :=
  (historical_start fun _ => follows_serveCredential rfl).run
    (fun _ seen t => outcome_internal db seen t) cs

theorem serve_append (cs ds : List (Choice ι)) :
    serve platform requests db (cs ++ ds) = run .internal (serve platform requests db cs) ds :=
  run_append _ _ _ _

/-- A request that starts at some moment of a run ends as its outcome says, about the store of
that moment. -/
theorem outcome_of_waiting {cs ds : List (Choice ι)} {r : Except AppError CredentialAnswer}
    (hwaiting : Waiting platform requests (serve platform requests db cs) i)
    (hr : ((serve platform requests db (cs ++ ds)).procs i).prog = ofExcept r) :
    ∃ seen t, (∀ u ∈ seen, Past (serve platform requests db (cs ++ ds)) u) ∧
      (credentials platform requests).Later [] t (stored platform requests db (cs ++ ds)) ∧
      Outcome platform requests i (stored platform requests db cs) r seen t := by
  rw [stored, serve_append]
  rw [serve_append] at hr
  exact (historical_serve platform requests db cs).goal_of_restart
    (fun _ seen t => outcome_internal db seen t) hwaiting
    (fun seen t => outcome_internal _ seen t) (follows_serveCredential rfl) hr

def Rejected (s : Config ι CredentialTable SqlState AppError CredentialAnswer) (i : ι) : Prop :=
  ∀ r, (s.procs i).prog = ofExcept r → r = .error .auth ∨ r = .error .internal

theorem Useless.rejected {cs ds : List (Choice ι)}
    (h : Useless platform requests i (stored platform requests db cs))
    (hwaiting : Waiting platform requests (serve platform requests db cs) i) :
    Rejected (serve platform requests db (cs ++ ds)) i := by
  intro r hr
  obtain ⟨seen, t, -, -, houtcome⟩ := outcome_of_waiting hwaiting hr
  rcases vouched_of_outcome h.request houtcome with hauth | hinternal | ⟨userId, hauth⟩
  · exact Or.inl hauth
  · exact Or.inr hinternal
  · exact absurd hauth h.not_authenticated

/-- A request of another kind than logins and logouts, one that has not started yet, presents
the secret under the hash. -/
structure Presents (platform : Platform) (requests : ι → Presented × CredentialRequest)
    (s : Config ι CredentialTable SqlState AppError CredentialAnswer) (hash : String) (j : ι) :
    Prop where
  request : requiresSession (requests j).2 ∨ acceptsApiTokens (requests j).2
  hash : presentedHash platform (requests j).1 = some hash
  waiting : Waiting platform requests s j

theorem Presents.rejected {cs ds : List (Choice ι)} {hash : String}
    (h : Presents platform requests (serve platform requests db cs) hash i)
    (hsession : NoSession platform requests hash (requests i).1.sessionNow
      (stored platform requests db cs))
    (htoken : acceptsApiTokens (requests i).2 → NoApiToken platform requests hash
      (requests i).1.tokenNow (stored platform requests db cs)) :
    Rejected (serve platform requests db (cs ++ ds)) i := by
  have huseless : Useless platform requests i (stored platform requests db cs) := by
    refine ⟨h.request, fun hash' hhash' => ?_, fun haccepts hash' hhash' => ?_⟩
    · obtain rfl := Option.some.inj (h.hash.symm.trans hhash')
      exact hsession
    · obtain rfl := Option.some.inj (h.hash.symm.trans hhash')
      exact htoken haccepts
  exact huseless.rejected h.waiting

section Visits

def plainPlatform : Platform :=
  ⟨id, fun password hash => password = hash, id, 24⟩

def showing (secret : String) (now : Timestamp) : Presented :=
  ⟨some ("Bearer " ++ secret), now, now, now, now, now⟩

def sessionOf (id userId : Uuid) : SessionRow :=
  ⟨id, userId, none, none, 1_000, none, 0⟩

def mcpToken (lastUsedAt : Option Timestamp) : ApiTokenRow :=
  ⟨4, 1, "mcp", "pd_mcp", none, lastUsedAt, none, 0⟩

def oneUserDb : CredentialDb :=
  put (put (put (put ∅ (CredentialKey.user 1) (some ⟨"ana@x.co", "clave", "Ana", true⟩))
    (CredentialKey.session "phone") (some (sessionOf 2 1)))
    (CredentialKey.session "laptop") (some (sessionOf 3 1)))
    (CredentialKey.apiToken "pd_mcp") (some (mcpToken none))

def visits : Fin 7 → Presented × CredentialRequest
  | 0 => (showing "phone" 40, .other)
  | 1 => (showing "laptop" 40, .createToken ⟨⟨"cli", none⟩, none, "cli", 5⟩)
  | 2 => (showing "pd_mcp" 20, .other)
  | 3 => (showing "pd_mcp" 400_000_000, .other)
  | 4 => (showing "laptop" 30, .deleteSessions)
  | 5 => (showing "laptop" 30, .deleteToken 4)
  | 6 => (showing "laptop" 30, .logout)

def turns (i : Fin 7) : List (Choice (Fin 7)) :=
  List.replicate 16 ⟨i, .advance 0⟩

end Visits

/-- After an answered logout, no request that starts later is served for the session, unless
its clock is behind, or the same hash is that of an API token. -/
theorem logout_ends_session (cs ds es : List (Choice ι)) {j : ι} (hash : String)
    {r : SessionRow} {a : CredentialAnswer} (hrequest : (requests i).2 = .logout)
    (hhash : presentedHash platform (requests i).1 = some hash)
    (hwaiting : Waiting platform requests (serve platform requests db cs) i)
    (hr : (stored platform requests db cs).session hash = some r)
    (hanswer : ((serve platform requests db (cs ++ ds)).procs i).prog = .ret a)
    (hnext : Presents platform requests (serve platform requests db (cs ++ ds)) hash j)
    (hclock : (requests i).1.now ≤ (requests j).1.sessionNow)
    (htoken : acceptsApiTokens (requests j).2 → NoApiToken platform requests hash
      (requests j).1.tokenNow (stored platform requests db (cs ++ ds))) :
    Rejected (serve platform requests db (cs ++ ds ++ es)) j := by
  obtain ⟨seen, t, -, ht, houtcome⟩ := outcome_of_waiting (r := .ok a) hwaiting hanswer
  simp only [Outcome, hrequest] at houtcome
  obtain ⟨r', hr', hlogout⟩ := houtcome
  cases r' with
  | error e => cases hr'
  | ok u =>
      have hclosed := (hlogout rfl hash hhash).later ht
      exact hnext.rejected (noSession_of_closed hclosed hr hclock) htoken

set_option maxRecDepth 4000 in
theorem logout_ends_session_laptop :
    Rejected (serve plainPlatform visits oneUserDb ([] ++ turns 6 ++ turns 1)) 1 :=
  logout_ends_session (i := 6) [] (turns 6) (turns 1) "laptop" rfl rfl rfl rfl rfl
    ⟨Or.inl rfl, rfl, rfl⟩ (by decide) fun haccepts => (by cases haccepts)

/-- After an answered `DELETE /sessions`, no request that starts later is served for any other
session that its caller had when it started. -/
theorem deleteSessions_ends_others (platform : Platform)
    (requests : ι → Presented × CredentialRequest) (db : CredentialDb) (cs ds : List (Choice ι))
    {a : CredentialAnswer}
    (hrequest : (requests i).2 = .deleteSessions)
    (hwaiting : Waiting platform requests (serve platform requests db cs) i)
    (hanswer : ((serve platform requests db (cs ++ ds)).procs i).prog = .ret a) :
    ∃ own userId, presentedHash platform (requests i).1 = some own ∧
      (∃ t, Past (serve platform requests db (cs ++ ds)) t ∧
        sessionLookupSql own (requests i).1.sessionNow t = some userId) ∧
      ∀ hash r, (stored platform requests db cs).session hash = some r →
        r.userId = userId → hash ≠ own → ∀ j es,
          Presents platform requests (serve platform requests db (cs ++ ds)) hash j →
          (requests i).1.now ≤ (requests j).1.sessionNow →
          (acceptsApiTokens (requests j).2 → NoApiToken platform requests hash
            (requests j).1.tokenNow (stored platform requests db (cs ++ ds))) →
          Rejected (serve platform requests db (cs ++ ds ++ es)) j := by
  obtain ⟨seen, t, hseen, ht, houtcome⟩ := outcome_of_waiting (r := .ok a) hwaiting hanswer
  simp only [Outcome, hrequest] at houtcome
  obtain ⟨r', hr', -, hothers⟩ := houtcome
  cases r' with
  | error e => cases hr'
  | ok u =>
      obtain ⟨userId, ⟨s, hs, hprincipal, -⟩, hclosed⟩ := hothers rfl
      rw [hrequest] at hprincipal
      cases hprincipal with
      | @session _ own _ hown huser =>
          refine ⟨own, userId, hown, ⟨s, hseen s hs, huser⟩, ?_⟩
          intro hash r hr howner hne j es hnext hclock htoken
          have hpresented : presentedHash platform (requests i).1 ≠ some hash := by
            rw [hown]
            exact fun heq => hne (Option.some.inj heq).symm
          have hdone := (hclosed hash r hr howner hpresented).later ht
          exact hnext.rejected (noSession_of_closed hdone hr hclock) htoken
      | apiToken haccepts _ _ => cases haccepts

set_option maxRecDepth 4000 in
theorem deleteSessions_ends_others_phone :
    Rejected (serve plainPlatform visits oneUserDb ([] ++ turns 4 ++ turns 0)) 0 := by
  obtain ⟨own, userId, hown, ⟨t, ht, huser⟩, hends⟩ :=
    deleteSessions_ends_others (i := 4) plainPlatform visits oneUserDb [] (turns 4) rfl rfl rfl
  obtain rfl : "laptop" = own := Option.some.inj hown
  have hone : 1 = userId := by
    have hbefore : (serve plainPlatform visits oneUserDb ([] ++ turns 4)).commits.map
        Commit.before = [oneUserDb] := rfl
    rcases ht with rfl | ⟨c, hc, rfl⟩
    · exact Option.some.inj huser
    · have hmem := List.mem_map_of_mem (f := Commit.before) hc
      rw [hbefore, List.mem_singleton] at hmem
      rw [hmem] at huser
      exact Option.some.inj huser
  have hphone : (stored plainPlatform visits oneUserDb []).session "phone" =
      some (sessionOf 2 1) := rfl
  refine hends "phone" _ hphone hone (by decide) 0 (turns 0) ⟨Or.inr rfl, rfl, rfl⟩ (by decide) ?_
  exact fun _ => ⟨fun _ hr => (by cases hr), fun _ => by decide⟩

/-- After an answered `DELETE /tokens/:id`, the token is stored as revoked, and no request that
starts later is served for it. -/
theorem deleteToken_ends_token (platform : Platform)
    (requests : ι → Presented × CredentialRequest) (db : CredentialDb) (cs ds : List (Choice ι))
    {id : Uuid} {row : ApiTokenResponse}
    (hrequest : (requests i).2 = .deleteToken id)
    (hwaiting : Waiting platform requests (serve platform requests db cs) i)
    (hanswer : ((serve platform requests db (cs ++ ds)).procs i).prog = .ret (.revoked row)) :
    ∃ hash r t, (stored platform requests db (cs ++ ds)).apiToken hash = some r ∧ r.id = id ∧
      r.id = row.id ∧ r.revokedAt = row.revokedAt ∧ r.revokedAt.isSome ∧
      Past (serve platform requests db (cs ++ ds)) t ∧
      Principal platform (requests i).1 t r.userId (requests i).2 ∧
      ∀ j es, Presents platform requests (serve platform requests db (cs ++ ds)) hash j →
        NoSession platform requests hash (requests j).1.sessionNow
          (stored platform requests db (cs ++ ds)) →
        Rejected (serve platform requests db (cs ++ ds ++ es)) j := by
  obtain ⟨seen, t, hseen, ht, houtcome⟩ :=
    outcome_of_waiting (r := .ok (.revoked row)) hwaiting hanswer
  simp only [Outcome, hrequest] at houtcome
  obtain ⟨r', hr', -, htoken⟩ := houtcome
  cases r' with
  | error e => cases hr'
  | ok row' =>
      obtain rfl := CredentialAnswer.revoked.inj (Except.ok.inj hr')
      obtain ⟨hash, r, hr, rfl, hid, hrevoked, s, hs, hprincipal, -⟩ := htoken row rfl
      obtain ⟨r₁, hr₁, hevolves⟩ := exists_apiToken_of_later ht hr
      have hkeeps := hevolves.revoked hrevoked
      have hsame : r₁.id = r.id := by rw [hevolves.same]
      refine ⟨hash, r₁, s, hr₁, hsame.trans hid, hsame, hkeeps, hkeeps ▸ hrevoked, hseen s hs, ?_,
        fun j es hnext hsession => ?_⟩
      · rwa [hevolves.userId_eq]
      · exact hnext.rejected hsession fun _ => noApiToken_of_revoked hr₁ (hkeeps ▸ hrevoked)

set_option maxRecDepth 4000 in
theorem deleteToken_ends_token_mcp :
    Rejected (serve plainPlatform visits oneUserDb ([] ++ turns 5 ++ turns 3)) 3 := by
  obtain ⟨hash, r, t, hr, -, -, -, -, -, -, hends⟩ :=
    deleteToken_ends_token (i := 5) plainPlatform visits oneUserDb [] (turns 5) rfl rfl rfl
  have hkeys : (stored plainPlatform visits oneUserDb ([] ++ turns 5)).keys =
      [.apiToken "pd_mcp", .session "laptop", .session "phone", .user 1] := rfl
  have hmem : CredentialKey.apiToken hash ∈
      (stored plainPlatform visits oneUserDb ([] ++ turns 5)).keys :=
    AList.mem_keys.mp (AList.lookup_isSome.mp (Option.isSome_of_eq_some hr))
  rw [hkeys] at hmem
  obtain rfl : hash = "pd_mcp" := by simpa using hmem
  exact hends 3 (turns 3) ⟨Or.inr rfl, rfl, rfl⟩ ⟨fun _ h => (by cases h), fun _ => by decide⟩

def Before (older : List (Commit ι CredentialTable)) (c : Commit ι CredentialTable)
    (t : CredentialDb) : Prop :=
  t = c.before ∨ ∃ c' ∈ older, t = c'.before

theorem makes_of_commit {cs : List (Choice ι)} {newer older : List (Commit ι CredentialTable)}
    {c : Commit ι CredentialTable}
    (h : (serve platform requests db cs).commits = newer ++ c :: older) :
    ∃ seen, (∀ t ∈ seen, Before older c t) ∧ ∀ k,
      (credentials platform requests).Makes c.proc seen k (c.before.lookup k)
        (c.after.lookup k) := by
  have hjustified := (historical_serve platform requests db cs).justified
  rw [h] at hjustified
  exact hjustified.makes

theorem validateTokenName_ok {raw name : String} (h : validateTokenName raw = .ok name) :
    name.isEmpty = false ∧ name.length ≤ maxNameLen := by
  simp only [validateTokenName] at h
  split at h
  · cases h
  · split at h
    · cases h
    · obtain rfl := Except.ok.inj h
      exact ⟨Bool.eq_false_iff.mpr ‹_›, Nat.le_of_not_lt ‹_›⟩

theorem effectiveLifetimeDays_ok {raw : Option Int} {n : Int}
    (h : effectiveLifetimeDays raw = .ok n) : 1 ≤ n ∧ n ≤ maxExpiresInDays := by
  cases raw with
  | none =>
      obtain rfl := Except.ok.inj h
      decide
  | some m =>
      simp only [effectiveLifetimeDays, validateExpiresInDays] at h
      split at h
      · obtain rfl := Except.ok.inj h
        assumption
      · cases h

theorem Principal.session_of_createToken {p : Presented} {s : CredentialDb} {userId : Uuid}
    {mint : TokenMint} (h : Principal platform p s userId (.createToken mint)) :
    ∃ own, presentedHash platform p = some own ∧
      sessionLookupSql own p.sessionNow s = some userId := by
  cases h with
  | session _ hhash huser => exact ⟨_, hhash, huser⟩
  | apiToken haccepts _ _ => cases haccepts

/-- Every API token that a run commits has been minted by a request that showed a live session
of the token's owner, for at least a day and at most ten years. -/
theorem tokens_minted_by_sessions (platform : Platform)
    (requests : ι → Presented × CredentialRequest) (db : CredentialDb) (cs : List (Choice ι))
    (newer older : List (Commit ι CredentialTable)) {c : Commit ι CredentialTable}
    (h : (serve platform requests db cs).commits = newer ++ c :: older) (hash : String)
    {r : ApiTokenRow} (hnew : CredentialDb.apiToken c.before hash = none)
    (hr : CredentialDb.apiToken c.after hash = some r) :
    ∃ mint own t lifetimeDays, (requests c.proc).2 = .createToken mint ∧
      presentedHash platform (requests c.proc).1 = some own ∧ Before older c t ∧
      sessionLookupSql own (requests c.proc).1.sessionNow t = some r.userId ∧
      1 ≤ lifetimeDays ∧ lifetimeDays ≤ maxExpiresInDays ∧
      r.expiresAt = some ((requests c.proc).1.utcNow + days lifetimeDays) ∧
      r.name.isEmpty = false ∧ r.name.length ≤ maxNameLen := by
  obtain ⟨seen, hseen, hmakes⟩ := makes_of_commit h
  have hmint := hmakes (.apiToken hash)
  rw [show c.before.lookup (.apiToken hash) = none from hnew,
    show c.after.lookup (.apiToken hash) = some r from hr] at hmint
  obtain ⟨mint, t, n, hminted⟩ := minted_of_makes hmint
  obtain ⟨own, hown, huser⟩ := Principal.session_of_createToken hminted.principal
  obtain ⟨hlow, hhigh⟩ := effectiveLifetimeDays_ok hminted.lifetime
  obtain ⟨hname, hlength⟩ := validateTokenName_ok hminted.name
  exact ⟨mint, own, t, n, hminted.request, hown, hseen t hminted.mem, huser, hlow, hhigh,
    hminted.expiresAt, hname, hlength⟩

set_option maxRecDepth 4000 in
theorem tokens_minted_by_sessions_cli :
    ∃ t, sessionLookupSql "laptop" 40 t = some 1 ∧ ∃ r : ApiTokenRow, r.userId = 1 ∧
      (stored plainPlatform visits oneUserDb (turns 1)).apiToken "pd_cli" = some r := by
  obtain ⟨mint, own, t, n, -, hown, -, huser, -⟩ :=
    tokens_minted_by_sessions plainPlatform visits oneUserDb (turns 1) [] [] rfl "pd_cli" rfl rfl
  obtain rfl : "laptop" = own := Option.some.inj hown
  exact ⟨t, huser, _, rfl, rfl⟩

/-- Every row that a commit changes belongs, before and after, to the user that a store from
before the commit resolves the credentials of its request to. -/
theorem commits_change_own_rows (platform : Platform)
    (requests : ι → Presented × CredentialRequest) (db : CredentialDb) (cs : List (Choice ι))
    (newer older : List (Commit ι CredentialTable)) {c : Commit ι CredentialTable}
    (h : (serve platform requests db cs).commits = newer ++ c :: older) (k : CredentialKey)
    (hne : c.after.lookup k ≠ c.before.lookup k) :
    ∃ t, Before older c t ∧ ∃ userId,
      Principal platform (requests c.proc).1 t userId (requests c.proc).2 ∧
      OwnChange userId k (c.before.lookup k) (c.after.lookup k) := by
  obtain ⟨seen, hseen, hmakes⟩ := makes_of_commit h
  obtain ⟨t, ht, userId, hprincipal, hchange⟩ := ownChange_of_makes (hmakes k) hne
  exact ⟨t, hseen t ht, userId, hprincipal, hchange⟩

set_option maxRecDepth 4000 in
theorem commits_change_own_rows_cli :
    ∃ t userId, Principal plainPlatform (visits 1).1 t userId (visits 1).2 ∧
      ∃ r, (stored plainPlatform visits oneUserDb (turns 1)).apiToken "pd_cli" = some r ∧
        r.userId = userId := by
  have hne : (stored plainPlatform visits oneUserDb (turns 1)).apiToken "pd_cli" ≠
      oneUserDb.apiToken "pd_cli" := by decide
  have hcommits : (serve plainPlatform visits oneUserDb (turns 1)).commits =
      [] ++ ⟨1, oneUserDb, stored plainPlatform visits oneUserDb (turns 1)⟩ :: [] := rfl
  obtain ⟨t, -, userId, hprincipal, ⟨r, hr, howner⟩, -⟩ :=
    commits_change_own_rows plainPlatform visits oneUserDb (turns 1) [] [] hcommits
      (.apiToken "pd_cli") hne
  exact ⟨t, userId, hprincipal, r, hr, Option.some.inj howner⟩

/-- Two commits of a run that stamp the last use of the same API token do so more than five
minutes apart. -/
theorem stamps_apart (platform : Platform) (requests : ι → Presented × CredentialRequest)
    (db : CredentialDb) (cs : List (Choice ι))
    (newer mid older : List (Commit ι CredentialTable)) {c c' : Commit ι CredentialTable}
    (h : (serve platform requests db cs).commits = newer ++ c' :: (mid ++ c :: older))
    (hash : String) {r₁ r₁' r₂ r₂' : ApiTokenRow} (hstamp : Stamps c hash r₁ r₁')
    (hstamp' : Stamps c' hash r₂ r₂') :
    ∃ t t', r₁'.lastUsedAt = some t ∧ r₂'.lastUsedAt = some t' ∧ t + touchInterval < t' := by
  have hjustified := (historical_serve platform requests db cs).justified
  have hchain : Chained db (serve platform requests db cs).commits _ :=
    chained_run (chained_start _ _) AppError.internal cs
  have hin : c ∈ mid ++ c :: older := List.mem_append_right _ List.mem_cons_self
  have hin' : c ∈ (serve platform requests db cs).commits := by
    rw [h]
    exact List.mem_append_right _ (List.mem_cons_of_mem _ hin)
  obtain ⟨t, ht, -⟩ := hstamp.exists_stamp hjustified hin'
  obtain ⟨t', ht', hgap⟩ := hstamp'.exists_stamp hjustified (by rw [h]; simp)
  refine ⟨t, t', ht, ht', ?_⟩
  rw [h] at hjustified hchain
  have hlater := later_between hjustified hchain hin
  obtain ⟨r, hr, hevolves⟩ := exists_apiToken_of_later hlater hstamp.after
  obtain rfl := Option.some.inj (hstamp'.before.symm.trans hr)
  rcases hevolves.used with hsame | ⟨u, hu, hbetween⟩
  · exact hgap t (hsame.trans ht)
  · have hfirst := hbetween t ht
    have hnext := hgap u hu
    have hpos : (0 : Int) < touchInterval := by decide
    calc
      t + touchInterval < u := hfirst
      _ < u + touchInterval := lt_add_of_pos_right u hpos
      _ < t' := hnext

set_option maxRecDepth 4000 in
theorem stamps_apart_mcp :
    ∃ t t', (mcpToken (some 20)).lastUsedAt = some t ∧
      (mcpToken (some 400_000_000)).lastUsedAt = some t' ∧ t + touchInterval < t' := by
  have hfirst : CredentialDb.apiToken oneUserDb "pd_mcp" = some (mcpToken none) := rfl
  refine stamps_apart plainPlatform visits oneUserDb (turns 2 ++ turns 3) [] [] [] rfl "pd_mcp"
    ⟨hfirst, rfl, ?_⟩ ⟨rfl, rfl, ?_⟩
  · exact fun h => Option.some_ne_none _ h
  · decide

end PersonalDashboard.CredentialGuarantees
