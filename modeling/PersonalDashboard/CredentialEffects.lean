import PersonalDashboard.CredentialHandlers

/-! What credential requests do to the stored rows: how users, sessions and API tokens may
change over time, and which changes a request may make, by whom it has been authorised. -/

set_option autoImplicit false

namespace PersonalDashboard.CredentialEffects

open PersonalDashboard.CredentialHandlers
open PersonalDashboard.LedgerHandlers
open PersonalDashboard.ReadCommitted
open PersonalDashboard.RowHistories
open PersonalDashboard.RowHistories.Discipline
open PersonalDashboard.RowStatements
open PersonalDashboard.RowStore
open PersonalDashboard.Schema
open PersonalDashboard.Validation

/-- A stored row stays, and changes as `E` says; a new one may appear when `N` holds. -/
def Persists {α : Type} (N : Prop) (E : α → α → Prop) : Option α → Option α → Prop
  | none, none => True
  | none, some _ => N
  | some r, some r' => E r r'
  | some _, none => False

section Persists

variable {α : Type} {N : Prop} {E : α → α → Prop}

theorem Persists.refl (hE : ∀ r, E r r) (v : Option α) : Persists N E v v := by
  cases v with
  | none => trivial
  | some r => exact hE r

theorem Persists.trans (hE : ∀ r r' r'', E r r' → E r' r'' → E r r'') {v v' v'' : Option α}
    (h : Persists N E v v') (h' : Persists N E v' v'') : Persists N E v v'' := by
  cases v with
  | none =>
      cases v' with
      | none => exact h'
      | some r' =>
          cases v'' with
          | none => trivial
          | some r'' => exact h
  | some r =>
      cases v' with
      | none => exact h.elim
      | some r' =>
          cases v'' with
          | none => exact h'.elim
          | some r'' => exact hE _ _ _ h h'

theorem Persists.exists_of_some {r : α} {v : Option α} (h : Persists N E (some r) v) :
    ∃ r', v = some r' ∧ E r r' := by
  cases v with
  | none => exact h.elim
  | some r' => exact ⟨r', rfl, h⟩

/-- No live row is there, and none will appear. -/
structure Gone (N : Prop) (live : α → Bool) (v : Option α) : Prop where
  dead : ∀ r, v = some r → live r = false
  never : v = none → ¬ N

theorem Gone.persists {live : α → Bool} {v v' : Option α} (h : Gone N live v)
    (hE : ∀ r r', E r r' → live r = false → live r' = false) (hp : Persists N E v v') :
    Gone N live v' := by
  cases v with
  | some r =>
      obtain ⟨r', rfl, hr'⟩ := hp.exists_of_some
      refine ⟨fun r'' heq => ?_, fun hnone => (by cases hnone)⟩
      obtain rfl := Option.some.inj heq
      exact hE r r' hr' (h.dead r rfl)
  | none =>
      cases v' with
      | none => exact h
      | some r => exact absurd hp (h.never rfl)

end Persists

structure SessionEvolves (r r' : SessionRow) : Prop where
  same : r' = { r with revokedAt := r'.revokedAt }
  revoked : r.revokedAt.isSome → r'.revokedAt = r.revokedAt

/-- An API token keeps its revocation, and its last use moves on by more than the interval
between two touches. -/
structure ApiTokenEvolves (r r' : ApiTokenRow) : Prop where
  same : r' = { r with lastUsedAt := r'.lastUsedAt, revokedAt := r'.revokedAt }
  revoked : r.revokedAt.isSome → r'.revokedAt = r.revokedAt
  used : r'.lastUsedAt = r.lastUsedAt ∨
    ∃ t', r'.lastUsedAt = some t' ∧ ∀ t, r.lastUsedAt = some t → t + touchInterval < t'

theorem SessionEvolves.refl (r : SessionRow) : SessionEvolves r r :=
  ⟨rfl, fun _ => rfl⟩

theorem SessionEvolves.trans {r r' r'' : SessionRow} (h : SessionEvolves r r')
    (h' : SessionEvolves r' r'') : SessionEvolves r r'' := by
  refine ⟨?_, fun hr => ?_⟩
  · rw [h'.same, h.same]
  · have hrevoked := h.revoked hr
    rw [h'.revoked (hrevoked ▸ hr), hrevoked]

theorem ApiTokenEvolves.refl (r : ApiTokenRow) : ApiTokenEvolves r r :=
  ⟨rfl, fun _ => rfl, Or.inl rfl⟩

theorem ApiTokenEvolves.trans {r r' r'' : ApiTokenRow} (h : ApiTokenEvolves r r')
    (h' : ApiTokenEvolves r' r'') : ApiTokenEvolves r r'' := by
  refine ⟨?_, fun hr => ?_, ?_⟩
  · rw [h'.same, h.same]
  · have hrevoked := h.revoked hr
    rw [h'.revoked (hrevoked ▸ hr), hrevoked]
  · rcases h'.used with heq | ⟨t'', ht'', hlater⟩
    · rw [heq]
      exact h.used
    · refine Or.inr ⟨t'', ht'', fun t ht => ?_⟩
      rcases h.used with heq | ⟨t', ht', hlater'⟩
      · exact hlater t (heq.trans ht)
      · have hfirst := hlater' t ht
        have hnext := hlater t' ht'
        have hpos : (0 : Int) < touchInterval := by decide
        calc
          t + touchInterval < t' := hfirst
          _ < t' + touchInterval := lt_add_of_pos_right t' hpos
          _ < t'' := hnext

theorem SessionEvolves.userId_eq {r r' : SessionRow} (h : SessionEvolves r r') :
    r'.userId = r.userId := by
  rw [h.same]

theorem ApiTokenEvolves.userId_eq {r r' : ApiTokenRow} (h : ApiTokenEvolves r r') :
    r'.userId = r.userId := by
  rw [h.same]

theorem SessionEvolves.live_eq_false {r r' : SessionRow} (h : SessionEvolves r r')
    {now : Timestamp} (hr : r.live now = false) : r'.live now = false := by
  have hexpires : r'.expiresAt = r.expiresAt := by rw [h.same]
  cases hrevoked : r.revokedAt with
  | none => simp_all [SessionRow.live]
  | some t =>
      have hkeeps := h.revoked (by rw [hrevoked, Option.isSome_some])
      simp [SessionRow.live, hkeeps, hrevoked]

theorem ApiTokenEvolves.live_eq_false {r r' : ApiTokenRow} (h : ApiTokenEvolves r r')
    {now : Timestamp} (hr : r.live now = false) : r'.live now = false := by
  have hexpires : r'.expiresAt = r.expiresAt := by rw [h.same]
  cases hrevoked : r.revokedAt with
  | none => simp_all [ApiTokenRow.live]
  | some t =>
      have hkeeps := h.revoked (by rw [hrevoked, Option.isSome_some])
      simp [ApiTokenRow.live, hkeeps, hrevoked]

variable {ι : Type} {platform : Platform}

/-- The secret that a request generates, hashed, when it opens a session. -/
def openedHash (platform : Platform) : CredentialRequest → Option String
  | .login attempt => some (platform.hashToken attempt.secret)
  | _ => none

def mintedHash (platform : Platform) : CredentialRequest → Option String
  | .createToken mint => some (platform.hashToken (mintRawToken mint.secret))
  | _ => none

def presentedHash (platform : Platform) (p : Presented) : Option String :=
  (extractBearer p.authorization).map platform.hashToken

def acceptsApiTokens : CredentialRequest → Bool
  | .listTokens | .deleteToken _ | .other => true
  | _ => false

def requiresSession : CredentialRequest → Bool
  | .listSessions | .deleteSessions | .createToken _ => true
  | _ => false

/-- A store resolves the credentials of a request to a user. -/
inductive Principal (platform : Platform) (p : Presented) (s : CredentialDb) (userId : Uuid) :
    CredentialRequest → Prop
  | password {attempt : LoginAttempt}
      (h : verifiedUserId platform attempt.body.password
        (loginLookupSql platform (trim attempt.body.email) s) = some userId) :
      Principal platform p s userId (.login attempt)
  | logout {hash : String} (hhash : presentedHash platform p = some hash)
      (h : sessionLookupSql hash p.now s = some userId) : Principal platform p s userId .logout
  | session {request : CredentialRequest} {hash : String}
      (hrequest : requiresSession request ∨ acceptsApiTokens request)
      (hhash : presentedHash platform p = some hash)
      (h : sessionLookupSql hash p.sessionNow s = some userId) :
      Principal platform p s userId request
  | apiToken {request : CredentialRequest} {hash : String} (hrequest : acceptsApiTokens request)
      (hhash : presentedHash platform p = some hash)
      (h : apiTokenLookupSql hash p.tokenNow s = some userId) :
      Principal platform p s userId request

/-- The changes of single rows that the statements of a request make, once a store that it has
read resolves its credentials to the owner of the row. -/
inductive Effect (platform : Platform) (p : Presented) (seen : List CredentialDb) :
    CredentialRequest → (k : CredentialKey) → Option (CredentialTable k) →
      Option (CredentialTable k) → Prop
  | login {attempt : LoginAttempt} {s : CredentialDb} {userId : Uuid} (hs : s ∈ seen)
      (h : Principal platform p s userId (.login attempt)) :
      Effect platform p seen (.login attempt) (.session (platform.hashToken attempt.secret)) none
        (some
          { id := attempt.id, userId := userId, userAgent := none
            ipAddress := some attempt.ip
            expiresAt := sessionExpiry platform p attempt.body.rememberMe, revokedAt := none
            createdAt := p.now })
  | logout {hash : String} {s : CredentialDb} {r : SessionRow} (hs : s ∈ seen)
      (h : Principal platform p s r.userId .logout)
      (hhash : presentedHash platform p = some hash) (hlive : r.live p.now) :
      Effect platform p seen .logout (.session hash) (some r)
        (some { r with revokedAt := some p.now })
  | deleteSessions {hash : String} {s : CredentialDb} {r : SessionRow} (hs : s ∈ seen)
      (h : Principal platform p s r.userId .deleteSessions)
      (hother : presentedHash platform p ≠ some hash) (hlive : r.live p.now) :
      Effect platform p seen .deleteSessions (.session hash) (some r)
        (some { r with revokedAt := some p.now })
  | createToken {mint : TokenMint} {s : CredentialDb} {userId : Uuid} {name : String}
      {lifetimeDays : Int} (hs : s ∈ seen)
      (h : Principal platform p s userId (.createToken mint))
      (hname : validateTokenName mint.body.name = .ok name)
      (hdays : effectiveLifetimeDays mint.body.expiresInDays = .ok lifetimeDays) :
      Effect platform p seen (.createToken mint)
        (.apiToken (platform.hashToken (mintRawToken mint.secret))) none
        (some
          { id := mint.id, userId := userId, name := name
            tokenPrefix := tokenPrefix (mintRawToken mint.secret)
            expiresAt := some (p.utcNow + days lifetimeDays), lastUsedAt := none
            revokedAt := none, createdAt := p.now })
  | touch {request : CredentialRequest} {hash : String} {s : CredentialDb} {r : ApiTokenRow}
      (hs : s ∈ seen) (hrequest : acceptsApiTokens request)
      (h : Principal platform p s r.userId request)
      (hhash : presentedHash platform p = some hash) (hdue : touchDue p.touchNow r) :
      Effect platform p seen request (.apiToken hash) (some r)
        (some { r with lastUsedAt := some p.touchNow })
  | deleteToken {id : Uuid} {hash : String} {s : CredentialDb} {r : ApiTokenRow} (hs : s ∈ seen)
      (h : Principal platform p s r.userId (.deleteToken id)) (hid : r.id = id) :
      Effect platform p seen (.deleteToken id) (.apiToken hash) (some r)
        (some { r with revokedAt := r.revokedAt.or (some p.now) })

theorem Effect.mono {p : Presented} {seen seen' : List CredentialDb}
    {request : CredentialRequest} {k : CredentialKey} {v v' : Option (CredentialTable k)}
    (h : Effect platform p seen request k v v') (hsub : seen ⊆ seen') :
    Effect platform p seen' request k v v' := by
  cases h with
  | login hs h => exact .login (hsub hs) h
  | logout hs h hhash hlive => exact .logout (hsub hs) h hhash hlive
  | deleteSessions hs h hother hlive => exact .deleteSessions (hsub hs) h hother hlive
  | createToken hs h hname hdays => exact .createToken (hsub hs) h hname hdays
  | touch hs hrequest h hhash hdue => exact .touch (hsub hs) hrequest h hhash hdue
  | deleteToken hs h hid => exact .deleteToken (hsub hs) h hid

/-- How a row may change while the given requests run: users do not change, and sessions and
tokens appear under the hashes that the requests generate. -/
def RowEvolves (platform : Platform) (requests : ι → Presented × CredentialRequest) :
    (k : CredentialKey) → Option (CredentialTable k) → Option (CredentialTable k) → Prop
  | .session hash, v, v' =>
      Persists (∃ i, openedHash platform (requests i).2 = some hash) SessionEvolves v v'
  | .apiToken hash, v, v' =>
      Persists (∃ i, mintedHash platform (requests i).2 = some hash) ApiTokenEvolves v v'
  | .user _, v, v' | .sessionId _, v, v' | .apiTokenId _, v, v' | .apiTokenName _ _, v, v' =>
      v' = v

theorem Effect.evolves {requests : ι → Presented × CredentialRequest} {i : ι}
    {seen : List CredentialDb} {k : CredentialKey} {v v' : Option (CredentialTable k)}
    (h : Effect platform (requests i).1 seen (requests i).2 k v v') :
    RowEvolves platform requests k v v' := by
  generalize hrequest : (requests i).2 = request at h
  cases h with
  | login hs h => exact ⟨i, by rw [hrequest]; rfl⟩
  | logout hs h hhash hlive =>
      refine ⟨rfl, fun hr => ?_⟩
      simp_all [SessionRow.live]
  | deleteSessions hs h hother hlive =>
      refine ⟨rfl, fun hr => ?_⟩
      simp_all [SessionRow.live]
  | createToken hs h hname hdays => exact ⟨i, by rw [hrequest]; rfl⟩
  | @touch request hash s r hs haccepts h hhash hdue =>
      refine ⟨rfl, fun _ => rfl, Or.inr ⟨_, rfl, fun t ht => ?_⟩⟩
      have hlt : t < (requests i).1.touchNow - touchInterval := by
        simpa [touchDue, ht] using hdue
      exact lt_sub_iff_add_lt.mp hlt
  | @deleteToken id hash s r hs h hid =>
      refine ⟨rfl, fun hr => ?_, Or.inl rfl⟩
      obtain ⟨t, ht⟩ := Option.isSome_iff_exists.mp hr
      simp [ht]

def credentials (platform : Platform) (requests : ι → Presented × CredentialRequest) :
    Discipline ι CredentialTable where
  Evolves := RowEvolves platform requests
  Allows i seen k v v' := Effect platform (requests i).1 seen (requests i).2 k v v'
  evolves_refl k v := by
    cases k with
    | session _ => exact Persists.refl SessionEvolves.refl v
    | apiToken _ => exact Persists.refl ApiTokenEvolves.refl v
    | _ => rfl
  evolves_trans {k v v' v''} h h' := by
    cases k with
    | session _ => exact Persists.trans (E := SessionEvolves) (fun _ _ _ => .trans) h h'
    | apiToken _ => exact Persists.trans (E := ApiTokenEvolves) (fun _ _ _ => .trans) h h'
    | _ => exact Eq.trans h' h
  allows_mono hsub h := h.mono hsub
  evolves_of_allows h := h.evolves

end PersonalDashboard.CredentialEffects
