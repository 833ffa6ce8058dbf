import PersonalDashboard.HistoryRules
import PersonalDashboard.LedgerHandlers

/-! The handlers of credentials: logins, the sessions they open, and the personal API tokens
that sessions mint. -/

set_option autoImplicit false

namespace PersonalDashboard.CredentialHandlers

open PersonalDashboard.LedgerHandlers
open PersonalDashboard.ReadCommitted
open PersonalDashboard.RowStatements
open PersonalDashboard.RowStore
open PersonalDashboard.Schema
open PersonalDashboard.Validation

structure UserRow where
  email : String
  passwordHash : String
  displayName : String
  isActive : Bool
  deriving DecidableEq, Repr

structure SessionRow where
  id : Uuid
  userId : Uuid
  userAgent : Option String
  ipAddress : Option String
  expiresAt : Timestamp
  revokedAt : Option Timestamp
  createdAt : Timestamp
  deriving DecidableEq, Repr

structure ApiTokenRow where
  id : Uuid
  userId : Uuid
  name : String
  tokenPrefix : String
  expiresAt : Option Timestamp
  lastUsedAt : Option Timestamp
  revokedAt : Option Timestamp
  createdAt : Timestamp
  deriving DecidableEq, Repr

/-- Sessions and API tokens are stored under their `token_hash`, which is unique and not null.
The `…Id` and `…Name` keys are the entries of the other unique indexes; they store no row. -/
inductive CredentialKey where
  | user (id : Uuid)
  | session (tokenHash : String)
  | apiToken (tokenHash : String)
  | sessionId (id : Uuid)
  | apiTokenId (id : Uuid)
  | apiTokenName (userId : Uuid) (name : String)
  deriving DecidableEq

@[reducible]
def CredentialTable : CredentialKey → Type
  | .user _ => UserRow
  | .session _ => SessionRow
  | .apiToken _ => ApiTokenRow
  | .sessionId _ | .apiTokenId _ | .apiTokenName .. => Empty

abbrev CredentialDb := Store CredentialTable

abbrev CredentialHandler (α : Type) := Prog CredentialTable SqlState AppError α

abbrev CredentialSql (α : Type) := Statement CredentialTable SqlState α

namespace CredentialDb

variable (s : CredentialDb)

def user (id : Uuid) : Option UserRow := s.lookup (CredentialKey.user id)
def session (hash : String) : Option SessionRow := s.lookup (CredentialKey.session hash)
def apiToken (hash : String) : Option ApiTokenRow := s.lookup (CredentialKey.apiToken hash)

end CredentialDb

/-- The libraries and settings that the handlers rely on: SHA-256 in hexadecimal, the Argon2
verification, the case folding of `CITEXT`, and the configured lifetime of a session. -/
structure Platform where
  hashToken : String → String
  verifyPassword : String → String → Bool
  citext : String → String
  sessionTtlHours : Nat

/-- What a request brings besides its body: the value of its Authorization header, and the
times that the server and the statements of the request see. -/
structure Presented where
  authorization : Option String
  sessionNow : Timestamp
  tokenNow : Timestamp
  touchNow : Timestamp
  utcNow : Timestamp
  now : Timestamp

def hours (n : Nat) : Int :=
  n * 3_600_000_000

def days (n : Int) : Int :=
  n * 86_400_000_000

def bearerScheme : List Char :=
  "Bearer ".toList

def extractBearer (authorization : Option String) : Option String :=
  authorization.bind fun value =>
    if bearerScheme.isPrefixOf value.toList then
      let token := String.ofList (value.toList.drop bearerScheme.length)
      if (trim token).isEmpty then none else some token
    else none

def activeUser (s : CredentialDb) (id : Uuid) : Bool :=
  (s.user id).any UserRow.isActive

def SessionRow.live (now : Timestamp) (r : SessionRow) : Bool :=
  r.revokedAt.isNone && now < r.expiresAt

def ApiTokenRow.live (now : Timestamp) (r : ApiTokenRow) : Bool :=
  r.revokedAt.isNone && r.expiresAt.all (now < ·)

def sessionLookupSql (hash : String) (now : Timestamp) (s : CredentialDb) : Option Uuid :=
  ((s.session hash).filter fun r => r.live now && activeUser s r.userId).map SessionRow.userId

def apiTokenLookupSql (hash : String) (now : Timestamp) (s : CredentialDb) : Option Uuid :=
  ((s.apiToken hash).filter fun r => r.live now && activeUser s r.userId).map ApiTokenRow.userId

/-- `interval '5 minutes'`. -/
def touchInterval : Int :=
  300_000_000

def touchDue (now : Timestamp) (r : ApiTokenRow) : Bool :=
  r.lastUsedAt.all (· < now - touchInterval)

/-- `API_TOKEN_TOUCH_SQL`. -/
def touchSql (hash : String) (now : Timestamp) : CredentialSql (Option ApiTokenRow) :=
  updateRow .noKeyUpdate exclusive_noKeyUpdate (CredentialKey.apiToken hash) (touchDue now)
    fun _ r => .ok { r with lastUsedAt := some now }

def resolveTokenUserId (platform : Platform) (p : Presented) (rawToken : String) :
    CredentialHandler Uuid := do
  let hash := platform.hashToken rawToken
  let sessionUser ← select (sessionLookupSql hash p.sessionNow)
  match sessionUser with
  | some userId => pure userId
  | none => do
      let apiUser ← select (apiTokenLookupSql hash p.tokenNow)
      let userId ← ofOption .auth apiUser
      beginTx
      let _ ← execSql internal (touchSql hash p.touchNow)
      commitTx
      pure userId

def requireUserId (platform : Platform) (p : Presented) : CredentialHandler Uuid := do
  let token ← ofOption .auth (extractBearer p.authorization)
  resolveTokenUserId platform p token

/-- Only a session passes: API tokens never mint credentials, nor manage sessions. -/
def requireSessionUserId (platform : Platform) (p : Presented) : CredentialHandler Uuid := do
  let token ← ofOption .auth (extractBearer p.authorization)
  let user ← select (sessionLookupSql (platform.hashToken token) p.sessionNow)
  ofOption .auth user

structure LoginRequest where
  email : String
  password : String
  rememberMe : Bool

/-- A login request with what the server adds to it: the limiter's answer, the address it keys
on, and the secret and the id that it generates. -/
structure LoginAttempt where
  body : LoginRequest
  retry : Option Nat
  ip : String
  secret : String
  id : Uuid

def rememberMeTtlHours : Nat :=
  72

def dummyPasswordHash : String :=
  "$argon2id$v=19$m=19456,t=2,p=1$dzMtZHVtbXktc2FsdC0wMQ$" ++
    "WlpaWlpaWlpaWlpaWlpaWlpaWlpaWlpaWlpaWlpaWlo"

def loginLookupSql (platform : Platform) (email : String) (s : CredentialDb) :
    Option (Uuid × UserRow) :=
  s.entries.findSome? fun
    | ⟨.user id, (u : UserRow)⟩ =>
        if platform.citext u.email = platform.citext email then some (id, u) else none
    | _ => none

def verifyCredentials (platform : Platform) (password : String) (row : Option (String × Bool)) :
    Bool :=
  let stored := row.getD (dummyPasswordHash, false)
  platform.verifyPassword password stored.1 && stored.2

def verifiedUserId (platform : Platform) (password : String) (row : Option (Uuid × UserRow)) :
    Option Uuid :=
  if verifyCredentials platform password (row.map fun r => (r.2.passwordHash, r.2.isActive)) then
    row.map Prod.fst
  else none

def sessionIdTaken (id : Uuid) (s : CredentialDb) : Bool :=
  s.entries.any fun
    | ⟨.session _, (r : SessionRow)⟩ => r.id = id
    | _ => false

def absent (k : CredentialKey) (s : CredentialDb) : Except SqlState Unit :=
  if (s.lookup k).isSome then .error .uniqueViolation else .ok ()

def insertSession (hash : String) (row : SessionRow) : CredentialHandler Unit := do
  let taken ← execSql internal (lockSlot (CredentialKey.sessionId row.id) (sessionIdTaken row.id))
  failIf (taken = some true) .internal
  let _ ← execSql internal
    (insertRow (CredentialKey.session hash) (absent (CredentialKey.session hash)) row)
  foreignKey internal .foreignKeyViolation (CredentialKey.user row.userId)

structure LoginResponse where
  token : String
  expiresAt : Timestamp
  deriving DecidableEq, Repr

def sessionExpiry (platform : Platform) (p : Presented) (rememberMe : Bool) : Timestamp :=
  p.utcNow + hours (if rememberMe then rememberMeTtlHours else platform.sessionTtlHours)

def loginHandler (platform : Platform) (p : Presented) (attempt : LoginAttempt) :
    CredentialHandler LoginResponse := do
  let email := trim attempt.body.email
  let password := attempt.body.password
  failIf (email.isEmpty || password.isEmpty) (.validation "email and password required")
  failIf (320 < byteLen email || 1024 < byteLen password) (.validation "invalid input")
  failIf attempt.retry.isSome (.rateLimited (max (attempt.retry.getD 0) 1))
  let row ← select (loginLookupSql platform email)
  let userId ← ofOption .auth (verifiedUserId platform password row)
  let expiresAt := sessionExpiry platform p attempt.body.rememberMe
  beginTx
  insertSession (platform.hashToken attempt.secret)
    { id := attempt.id, userId := userId, userAgent := none, ipAddress := some attempt.ip
      expiresAt := expiresAt, revokedAt := none, createdAt := p.now }
  commitTx
  pure ⟨attempt.secret, expiresAt⟩

/-- The revoking UPDATE of a logout; it requires an active owner. -/
def revokeSessionSql (hash : String) (now : Timestamp) : CredentialSql (Option SessionRow) where
  row := .session hash
  mode := .noKeyUpdate
  qualifies s := (sessionLookupSql hash now s).isSome
  miss := none
  hit _ cur :=
    match cur.lookup (CredentialKey.session hash) with
    | none => .ok (.keep, none)
    | some (r : SessionRow) =>
        let r' : SessionRow := { r with revokedAt := some now }
        .ok (.set r', some r')
  keep_of_shared h := by cases h

def ownedSession (hash : String) (s : CredentialDb) : Bool :=
  (s.session hash).any fun r => activeUser s r.userId

def logoutHandler (platform : Platform) (p : Presented) : CredentialHandler Unit := do
  let token ← ofOption .auth (extractBearer p.authorization)
  let hash := platform.hashToken token
  beginTx
  let revoked ← execSql internal (revokeSessionSql hash p.now)
  commitTx
  match revoked with
  | some _ => pure ()
  | none => do
      let there ← select (ownedSession hash)
      failIf (!there) .auth

structure SessionResponse where
  id : Uuid
  createdAt : Timestamp
  expiresAt : Timestamp
  revokedAt : Option Timestamp
  userAgent : Option String
  ipAddress : Option String
  current : Bool
  deriving DecidableEq, Repr

/-- `ORDER BY created_at DESC, id DESC`. -/
def newestFirst (a b : Timestamp × Uuid) : Bool :=
  b.1 < a.1 || (a.1 = b.1 && b.2 ≤ a.2)

def listSessionsSql (userId : Uuid) (hash : String) (now : Timestamp) (s : CredentialDb) :
    List SessionResponse :=
  (s.entries.filterMap fun
    | ⟨.session h, (r : SessionRow)⟩ =>
        if r.userId = userId && r.live now then
          some ⟨r.id, r.createdAt, r.expiresAt, r.revokedAt, r.userAgent, r.ipAddress, h = hash⟩
        else none
    | _ => none).mergeSort fun a b => newestFirst (a.createdAt, a.id) (b.createdAt, b.id)

def listSessionsHandler (platform : Platform) (p : Presented) :
    CredentialHandler (List SessionResponse) := do
  let token ← ofOption .auth (extractBearer p.authorization)
  let userId ← requireSessionUserId platform p
  select (listSessionsSql userId (platform.hashToken token) p.now)

/-- The WHERE clause of `REVOKE_OTHER_SESSIONS_SQL`. -/
def otherSession (userId : Uuid) (hash : String) (now : Timestamp) :
    (k : CredentialKey) → CredentialTable k → Bool
  | .session h, (r : SessionRow) => r.userId = userId && h ≠ hash && r.live now
  | _, _ => false

def revokeRow (now : Timestamp) : (k : CredentialKey) → CredentialTable k → CredentialTable k
  | .session _, (r : SessionRow) => { r with revokedAt := some now }
  | .user _, r | .apiToken _, r | .sessionId _, r | .apiTokenId _, r | .apiTokenName _ _, r => r

def deleteSessionsHandler (platform : Platform) (p : Presented) : CredentialHandler Unit := do
  let token ← ofOption .auth (extractBearer p.authorization)
  let userId ← requireSessionUserId platform p
  beginTx
  updateWhere internal (otherSession userId (platform.hashToken token) p.now) (revokeRow p.now)
  commitTx

structure CreateTokenRequest where
  name : String
  expiresInDays : Option Int

/-- A create request with what the server adds to it: the limiter's answer, and the secret and
the id that it generates. -/
structure TokenMint where
  body : CreateTokenRequest
  retry : Option Nat
  secret : String
  id : Uuid

def prefixLen : Nat :=
  8

def maxNameLen : Nat :=
  80

def maxExpiresInDays : Int :=
  3650

def defaultExpiresInDays : Int :=
  90

def validateTokenName (raw : String) : Except AppError String :=
  let name := trim raw
  if name.isEmpty then .error (.validation "token name must not be empty")
  else if maxNameLen < name.length then
    .error (.validation s!"token name must be at most {maxNameLen} characters")
  else .ok name

def validateExpiresInDays : Option Int → Except AppError (Option Int)
  | none => .ok none
  | some n =>
      if 1 ≤ n ∧ n ≤ maxExpiresInDays then .ok (some n)
      else .error (.validation s!"expires_in_days must be between 1 and {maxExpiresInDays}")

def effectiveLifetimeDays (raw : Option Int) : Except AppError Int :=
  (validateExpiresInDays raw).map fun n => n.getD defaultExpiresInDays

def mintRawToken (generated : String) : String :=
  "pd_" ++ generated

def tokenPrefix (raw : String) : String :=
  String.ofList (raw.toList.take prefixLen)

def mapTokenDbErr : SqlState → AppError
  | .uniqueViolation => .conflict "a token with this name already exists"
  | _ => .internal

def apiTokenExists (p : ApiTokenRow → Bool) (s : CredentialDb) : Bool :=
  s.entries.any fun
    | ⟨.apiToken _, (r : ApiTokenRow)⟩ => p r
    | _ => false

/-- `CREATE_TOKEN_SQL`: the unique indexes, the row, then its foreign key. -/
def insertApiToken (hash : String) (row : ApiTokenRow) : CredentialHandler Unit := do
  let idTaken ← execSql mapTokenDbErr
    (lockSlot (CredentialKey.apiTokenId row.id) (apiTokenExists fun r => r.id = row.id))
  failIf (idTaken = some true) (mapTokenDbErr .uniqueViolation)
  let nameTaken ← execSql mapTokenDbErr
    (lockSlot (CredentialKey.apiTokenName row.userId row.name)
      (apiTokenExists fun r => r.userId = row.userId && r.name = row.name))
  failIf (nameTaken = some true) (mapTokenDbErr .uniqueViolation)
  let _ ← execSql mapTokenDbErr
    (insertRow (CredentialKey.apiToken hash) (absent (CredentialKey.apiToken hash)) row)
  foreignKey mapTokenDbErr .foreignKeyViolation (CredentialKey.user row.userId)

structure CreateTokenResponse where
  id : Uuid
  name : String
  token : String
  tokenPrefix : String
  expiresAt : Option Timestamp
  deriving DecidableEq, Repr

def createTokenHandler (platform : Platform) (p : Presented) (mint : TokenMint) :
    CredentialHandler CreateTokenResponse := do
  let userId ← requireSessionUserId platform p
  let name ← ofExcept (validateTokenName mint.body.name)
  let lifetimeDays ← ofExcept (effectiveLifetimeDays mint.body.expiresInDays)
  failIf mint.retry.isSome (.rateLimited (max (mint.retry.getD 0) 1))
  let raw := mintRawToken mint.secret
  let row : ApiTokenRow :=
    { id := mint.id, userId := userId, name := name, tokenPrefix := tokenPrefix raw
      expiresAt := some (p.utcNow + days lifetimeDays), lastUsedAt := none, revokedAt := none
      createdAt := p.now }
  beginTx
  insertApiToken (platform.hashToken raw) row
  commitTx
  pure ⟨row.id, row.name, raw, row.tokenPrefix, row.expiresAt⟩

structure ApiTokenResponse where
  id : Uuid
  name : String
  tokenPrefix : String
  expiresAt : Option Timestamp
  lastUsedAt : Option Timestamp
  revokedAt : Option Timestamp
  createdAt : Timestamp
  deriving DecidableEq, Repr

def ApiTokenRow.response (r : ApiTokenRow) : ApiTokenResponse :=
  ⟨r.id, r.name, r.tokenPrefix, r.expiresAt, r.lastUsedAt, r.revokedAt, r.createdAt⟩

def listTokensSql (userId : Uuid) (s : CredentialDb) : List ApiTokenResponse :=
  (s.entries.filterMap fun
    | ⟨.apiToken _, (r : ApiTokenRow)⟩ => if r.userId = userId then some r.response else none
    | _ => none).mergeSort fun a b => newestFirst (a.createdAt, a.id) (b.createdAt, b.id)

def listTokensHandler (platform : Platform) (p : Presented) :
    CredentialHandler (List ApiTokenResponse) := do
  let userId ← requireUserId platform p
  select (listTokensSql userId)

def ownApiToken (id userId : Uuid) (r : ApiTokenRow) : Bool :=
  r.id = id && r.userId = userId

def tokenHashSql (id userId : Uuid) (s : CredentialDb) : Option String :=
  s.entries.findSome? fun
    | ⟨.apiToken hash, (r : ApiTokenRow)⟩ => if ownApiToken id userId r then some hash else none
    | _ => none

/-- `REVOKE_TOKEN_SQL`: the first revocation keeps its time. -/
def revokeTokenSql (hash : String) (id userId : Uuid) (now : Timestamp) :
    CredentialSql (Option ApiTokenRow) :=
  updateRow .noKeyUpdate exclusive_noKeyUpdate (CredentialKey.apiToken hash)
    (ownApiToken id userId) fun _ r => .ok { r with revokedAt := r.revokedAt.or (some now) }

def deleteTokenHandler (platform : Platform) (p : Presented) (id : Uuid) :
    CredentialHandler ApiTokenResponse := do
  let userId ← requireUserId platform p
  beginTx
  let found ← select (tokenHashSql id userId)
  let hash ← ofOption .notFound found
  let row ← fetchOr internal .notFound (revokeTokenSql hash id userId p.now)
  commitTx
  pure (ApiTokenRow.response row)

/-- The requests that read or write credentials. Every other authenticated route begins as
`other` does, and touches no credential after that. -/
inductive CredentialRequest where
  | login (attempt : LoginAttempt)
  | logout
  | listSessions
  | deleteSessions
  | createToken (mint : TokenMint)
  | listTokens
  | deleteToken (id : Uuid)
  | other

inductive CredentialAnswer where
  | loggedIn (response : LoginResponse)
  | noContent
  | sessions (rows : List SessionResponse)
  | created (response : CreateTokenResponse)
  | tokens (rows : List ApiTokenResponse)
  | revoked (row : ApiTokenResponse)
  | caller (userId : Uuid)
  deriving DecidableEq, Repr

def serveCredential (platform : Platform) (p : Presented) :
    CredentialRequest → CredentialHandler CredentialAnswer
  | .login attempt => .loggedIn <$> loginHandler platform p attempt
  | .logout => (fun _ => .noContent) <$> logoutHandler platform p
  | .listSessions => .sessions <$> listSessionsHandler platform p
  | .deleteSessions => (fun _ => .noContent) <$> deleteSessionsHandler platform p
  | .createToken mint => .created <$> createTokenHandler platform p mint
  | .listTokens => .tokens <$> listTokensHandler platform p
  | .deleteToken id => .revoked <$> deleteTokenHandler platform p id
  | .other => .caller <$> requireUserId platform p

end PersonalDashboard.CredentialHandlers
