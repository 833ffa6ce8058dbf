import PersonalDashboard.CredentialEffects

/-! The handlers of credentials follow their discipline: each authenticates against a
committed store, and changes only what that store entitles its caller to. -/

set_option autoImplicit false

namespace PersonalDashboard.CredentialRules

open PersonalDashboard.CredentialEffects
open PersonalDashboard.CredentialHandlers
open PersonalDashboard.LedgerHandlers
open PersonalDashboard.ReadCommitted
open PersonalDashboard.RowHistories
open PersonalDashboard.RowHistories.Discipline
open PersonalDashboard.RowStatements
open PersonalDashboard.RowStore
open PersonalDashboard.Schema
open PersonalDashboard.Validation

variable {ι γ : Type} {platform : Platform}
  {requests : ι → Presented × CredentialRequest} {i : ι} {K : Knowledge CredentialTable}
  {post : Post CredentialTable AppError γ}

/-- One of the stores read, one later than the store at the start, resolves the credentials of
the request. -/
def Authenticated (platform : Platform) (requests : ι → Presented × CredentialRequest) (i : ι)
    (s₀ : CredentialDb) (seen : List CredentialDb) (userId : Uuid) : Prop :=
  ∃ s ∈ seen, Principal platform (requests i).1 s userId (requests i).2 ∧
    (credentials platform requests).Later [] s₀ s

theorem Authenticated.mono {s₀ : CredentialDb} {seen seen' : List CredentialDb} {userId : Uuid}
    (h : Authenticated platform requests i s₀ seen userId) (hsub : seen ⊆ seen') :
    Authenticated platform requests i s₀ seen' userId := by
  obtain ⟨s, hs, hrest⟩ := h
  exact ⟨s, hsub hs, hrest⟩

def MayReject (post : Post CredentialTable AppError γ) (K : Knowledge CredentialTable) : Prop :=
  post.MayEnd (.error .auth) K ∧ post.MayEnd (.error .internal) K

theorem sessionLookupSql_eq_some {hash : String} {now : Timestamp} {s : CredentialDb}
    {userId : Uuid} : sessionLookupSql hash now s = some userId ↔
      ∃ r, s.session hash = some r ∧ r.live now ∧ activeUser s r.userId ∧ r.userId = userId := by
  simp [sessionLookupSql, Option.filter_eq_some_iff, and_assoc]

theorem apiTokenLookupSql_eq_some {hash : String} {now : Timestamp} {s : CredentialDb}
    {userId : Uuid} : apiTokenLookupSql hash now s = some userId ↔
      ∃ r, s.apiToken hash = some r ∧ r.live now ∧ activeUser s r.userId ∧ r.userId = userId := by
  simp [apiTokenLookupSql, Option.filter_eq_some_iff, and_assoc]

theorem exists_session_of_later {s t : CredentialDb} {rows : List CredentialKey} {hash : String}
    {r : SessionRow} (h : (credentials platform requests).Later rows s t)
    (hr : s.session hash = some r) : ∃ r', t.session hash = some r' ∧ SessionEvolves r r' := by
  have hevolves := h.evolves (.session hash)
  rw [show s.lookup (.session hash) = some r from hr] at hevolves
  exact Persists.exists_of_some hevolves

theorem evolves_session {seen : List CredentialDb} {hash : String} {r r' : SessionRow}
    (h : (credentials platform requests).Allows i seen (.session hash) (some r) (some r')) :
    SessionEvolves r r' :=
  (credentials platform requests).evolves_of_allows h

theorem exists_apiToken_of_later {s t : CredentialDb} {rows : List CredentialKey}
    {hash : String} {r : ApiTokenRow} (h : (credentials platform requests).Later rows s t)
    (hr : s.apiToken hash = some r) : ∃ r', t.apiToken hash = some r' ∧ ApiTokenEvolves r r' := by
  have hevolves := h.evolves (.apiToken hash)
  rw [show s.lookup (.apiToken hash) = some r from hr] at hevolves
  exact Persists.exists_of_some hevolves

theorem exists_of_evolves {k : CredentialKey} {r : CredentialTable k}
    {v : Option (CredentialTable k)}
    (h : (credentials platform requests).Evolves k (some r) v) : ∃ r', v = some r' := by
  cases k with
  | session _ =>
      obtain ⟨r', rfl, -⟩ := Persists.exists_of_some h
      exact ⟨r', rfl⟩
  | apiToken _ =>
      obtain ⟨r', rfl, -⟩ := Persists.exists_of_some h
      exact ⟨r', rfl⟩
  | _ => exact ⟨r, h⟩

theorem user_eq_of_later {s t : CredentialDb} {rows : List CredentialKey}
    (h : (credentials platform requests).Later rows s t) (id : Uuid) : t.user id = s.user id :=
  h.evolves (.user id)

theorem onward_read {s : CredentialDb}
    (h : (credentials platform requests).Later K.rows K.last s) :
    Onward (credentials platform requests) K (K.read s) :=
  onward_look s h

theorem follows_requireSessionUserId
    {next : Uuid → CredentialHandler γ} (hrequest : requiresSession (requests i).2)
    (htx : K.tx = none) (herr : MayReject post K)
    (h : ∀ userId K', Onward (credentials platform requests) K K' →
      Authenticated platform requests i K.last K'.seen userId →
      (credentials platform requests).Follows i (next userId) post K') :
    (credentials platform requests).Follows i
      ((requireSessionUserId platform (requests i).1).bind next) post K := by
  refine follows_seq (follows_ofOption (fun _ => herr.1.now) fun token htoken => ?_)
  refine follows_select fun s hs => ?_
  have hseen := (onward_read hs).seen
  refine (follows_bind _ _ _ _).mp
    (follows_ofOption (fun _ => herr.1 _ hseen) fun userId huser => ?_)
  refine h userId _ (onward_read hs)
    ⟨s, K.mem_seen_saw_self (K.rows_of_tx_none htx), ?_, hs.forget⟩
  exact .session (Or.inl hrequest) (by rw [presentedHash, htoken, Option.map_some]) huser

theorem follows_resolveTokenUserId {token : String} {next : Uuid → CredentialHandler γ}
    (hrequest : acceptsApiTokens (requests i).2)
    (hhash : presentedHash platform (requests i).1 = some (platform.hashToken token))
    (htx : K.tx = none) (herr : MayReject post K)
    (h : ∀ userId K', Onward (credentials platform requests) K K' →
      Authenticated platform requests i K.last K'.seen userId →
      (credentials platform requests).Follows i (next userId) post K') :
    (credentials platform requests).Follows i
      ((resolveTokenUserId platform (requests i).1 token).bind next) post K := by
  have hrows := K.rows_of_tx_none htx
  refine follows_seq (follows_select fun s hs => ?_)
  cases huser : sessionLookupSql (platform.hashToken token) (requests i).1.sessionNow s with
  | some userId =>
      exact follows_ret (h userId _ (onward_read hs)
        ⟨s, K.mem_seen_saw_self hrows, .session (Or.inr hrequest) hhash huser, hs.forget⟩)
  | none =>
      refine follows_select fun s' hs' => ?_
      have hin : s' ∈ ((K.read s).read s').seen := Knowledge.mem_seen_saw_self _ hrows
      have honward : Onward (credentials platform requests) K ((K.read s).read s') :=
        (onward_read hs).trans (onward_read hs')
      refine follows_ofOption (fun _ => herr.1 _ honward.seen) fun userId huser' => ?_
      have hprincipal : Principal platform (requests i).1 s' userId (requests i).2 :=
        .apiToken hrequest hhash huser'
      have hauth : ∀ K', Onward (credentials platform requests) ((K.read s).read s') K' →
          Authenticated platform requests i K.last K'.seen userId := fun K' hK' =>
        ⟨s', hK'.seen hin, hprincipal, hs.forget.trans hs'.forget⟩
      obtain ⟨r₀, hr₀, -, -, rfl⟩ := apiTokenLookupSql_eq_some.mp huser'
      refine follows_beginTx fun _ => follows_updateRow
        (fun _ => herr.2.mono honward.seen) ?_ ?_
      · intro sn cur hsn hcur _
        have hon := onward_transaction (K := (K.read s).read s') htx
          (onward_look sn (hsn.trans hcur))
        exact follows_commitTx (follows_ret (h _ _ (honward.trans hon) (hauth _ hon)))
      · intro sn cur r r' hsn hcur _ hr hdue hr'
        obtain rfl := Except.ok.inj hr'
        obtain ⟨r₁, hr₁, hevolves⟩ := exists_apiToken_of_later (hsn.trans hcur) hr₀
        obtain rfl := Option.some.inj (hr.symm.trans hr₁)
        have hallows : (credentials platform requests).Allows i
            ((K.read s).read s').seen (.apiToken (platform.hashToken token))
            (some r) (some { r with lastUsedAt := some (requests i).1.touchNow }) := by
          refine .touch hin hrequest ?_ hhash hdue
          rwa [hevolves.userId_eq]
        have hon := onward_transaction (K := (K.read s).read s') htx
          (onward_put sn (hsn.trans hcur) (hr ▸ hallows))
        exact ⟨.single (Discipline.allows_mono _ (Knowledge.seen_subset_saw _ sn) hallows),
          follows_commitTx (follows_ret (h _ _ (honward.trans hon) (hauth _ hon)))⟩

theorem follows_requireUserId {next : Uuid → CredentialHandler γ}
    (hrequest : acceptsApiTokens (requests i).2) (htx : K.tx = none) (herr : MayReject post K)
    (h : ∀ userId K', Onward (credentials platform requests) K K' →
      Authenticated platform requests i K.last K'.seen userId →
      (credentials platform requests).Follows i (next userId) post K') :
    (credentials platform requests).Follows i
      ((requireUserId platform (requests i).1).bind next) post K := by
  refine follows_seq (follows_ofOption (fun _ => herr.1.now) fun token htoken => ?_)
  have hhash : presentedHash platform (requests i).1 = some (platform.hashToken token) := by
    rw [presentedHash, htoken, Option.map_some]
  exact (follows_bind _ _ _ _).mp (follows_resolveTokenUserId hrequest hhash htx herr h)

theorem absent_eq_ok {k : CredentialKey} {s : CredentialDb} (h : absent k s = .ok ()) :
    s.lookup k = none := by
  rw [absent] at h
  split at h
  · cases h
  · exact Option.not_isSome_iff_eq_none.mp ‹_›

theorem follows_insertSession {hash : String} {row : SessionRow}
    {next : Unit → CredentialHandler γ}
    (hallows : (credentials platform requests).Allows i K.seen (.session hash) none (some row))
    (herr : post.MayEnd (.error .internal) K)
    (h : ∀ K', Onward (credentials platform requests) K K' →
      (credentials platform requests).Follows i (next ()) post K') :
    (credentials platform requests).Follows i ((insertSession hash row).bind next) post K := by
  refine follows_seq (follows_lockSlot (fun _ => herr) fun sn cur hsn hcur => ?_)
  have hlock : Onward (credentials platform requests) K ((K.saw sn).hold (.sessionId row.id) cur) :=
    onward_hold sn _ (hsn.trans hcur).forget
  refine follows_failIf (fun _ => herr _ hlock.seen) fun _ => ?_
  refine follows_insertRow (fun _ => herr.mono hlock.seen) fun sn' cur' hsn' hcur' hfree => ?_
  have hnone := absent_eq_ok hfree
  have hallows' := (credentials platform requests).allows_mono hlock.seen hallows
  have hput : Onward (credentials platform requests) K _ :=
    hlock.trans (onward_put sn' (hsn'.trans hcur') (hnone ▸ hallows'))
  refine ⟨?_, ?_⟩
  · rw [hnone]
    exact .single (Discipline.allows_mono _ (Knowledge.seen_subset_saw _ sn') hallows')
  · refine (follows_bind _ _ _ _).mp (follows_foreignKey (fun _ => herr.mono hput.seen) ?_)
    exact fun K' hK' => h K' (hput.trans hK')

theorem follows_insertApiToken {hash : String} {row : ApiTokenRow}
    {next : Unit → CredentialHandler γ}
    (hallows : (credentials platform requests).Allows i K.seen (.apiToken hash) none (some row))
    (herr : ∀ x, post.MayEnd (.error (mapTokenDbErr x)) K)
    (h : ∀ K', Onward (credentials platform requests) K K' →
      (credentials platform requests).Follows i (next ()) post K') :
    (credentials platform requests).Follows i ((insertApiToken hash row).bind next) post K := by
  refine follows_seq (follows_lockSlot herr fun sn cur hsn hcur => ?_)
  have hid : Onward (credentials platform requests) K
      ((K.saw sn).hold (.apiTokenId row.id) cur) :=
    onward_hold sn _ (hsn.trans hcur).forget
  refine follows_failIf (fun _ => herr _ _ hid.seen) fun _ => ?_
  refine follows_lockSlot (fun x => (herr x).mono hid.seen) fun sn' cur' hsn' hcur' => ?_
  have hname := hid.trans (onward_hold sn' (.apiTokenName row.userId row.name)
    (hsn'.trans hcur').forget)
  refine follows_failIf (fun _ => herr _ _ hname.seen) fun _ => ?_
  refine follows_insertRow (fun x => (herr x).mono hname.seen)
    fun sn₂ cur₂ hsn₂ hcur₂ hfree => ?_
  have hnone := absent_eq_ok hfree
  have hallows' := (credentials platform requests).allows_mono hname.seen hallows
  have hput : Onward (credentials platform requests) K _ :=
    hname.trans (onward_put sn₂ (hsn₂.trans hcur₂) (hnone ▸ hallows'))
  refine ⟨?_, ?_⟩
  · rw [hnone]
    exact .single (Discipline.allows_mono _ (Knowledge.seen_subset_saw _ sn₂) hallows')
  · refine (follows_bind _ _ _ _).mp (follows_foreignKey (fun x => (herr x).mono hput.seen) ?_)
    exact fun K' hK' => h K' (hput.trans hK')

theorem follows_loginHandler {attempt : LoginAttempt} (hrequest : (requests i).2 = .login attempt)
    (htx : K.tx = none) :
    (credentials platform requests).Follows i
      (loginHandler platform (requests i).1 attempt) (Goal.post fun _ _ _ => True) K := by
  simp only [loginHandler, Prog.bind_eq, Prog.pure_eq]
  refine follows_failIf (fun _ => trivial) fun _ => follows_failIf (fun _ => trivial) fun _ => ?_
  refine follows_failIf (fun _ => trivial) fun _ => follows_select fun s hs => ?_
  refine follows_ofOption (fun _ => trivial) fun userId huser => follows_beginTx fun _ => ?_
  refine follows_insertSession ?_ (fun _ _ => trivial) fun K' _ => ?_
  · change Effect platform (requests i).1 _ (requests i).2 _ _ _
    rw [hrequest]
    exact .login (K.mem_seen_saw_self (K.rows_of_tx_none htx)) (.password huser)
  · exact follows_commitTx (follows_ret trivial)

theorem ownedSession_eq_true {hash : String} {s : CredentialDb} : ownedSession hash s = true ↔
    ∃ r, s.session hash = some r ∧ activeUser s r.userId := by
  simp [ownedSession, Option.any_eq_true]

theorem activeUser_eq_of_later {s t : CredentialDb} {rows : List CredentialKey}
    (h : (credentials platform requests).Later rows s t) (id : Uuid) :
    activeUser t id = activeUser s id := by
  rw [activeUser, activeUser, user_eq_of_later h]

theorem revokeSessionSql_hit {hash : String} {now : Timestamp} {sn cur : CredentialDb}
    {c : Change CredentialTable (.session hash)} {b : Option SessionRow}
    (hq : (revokeSessionSql hash now).qualifies cur = true)
    (h : (revokeSessionSql hash now).hit sn cur = .ok (c, b)) :
    ∃ r, cur.session hash = some r ∧ r.live now ∧
      c = .set { r with revokedAt := some now } ∧ b = some { r with revokedAt := some now } := by
  obtain ⟨userId, huser⟩ := Option.isSome_iff_exists.mp hq
  obtain ⟨r, hr, hlive, -, -⟩ := sessionLookupSql_eq_some.mp huser
  have hlookup : cur.lookup (.session hash) = some r := hr
  simp only [revokeSessionSql, hlookup] at h
  obtain ⟨rfl, rfl⟩ := Prod.mk.inj (Except.ok.inj h)
  exact ⟨r, hr, hlive, rfl, rfl⟩

/-- The session under the hash, if the store at the start has one, is not live any more. -/
def Closed (hash : String) (now : Timestamp) (s₀ t : CredentialDb) : Prop :=
  ∀ r, s₀.session hash = some r →
    ∃ r', t.session hash = some r' ∧ SessionEvolves r r' ∧ r'.live now = false

theorem Closed.later {hash : String} {now : Timestamp} {s₀ t u : CredentialDb}
    {rows : List CredentialKey} (h : Closed hash now s₀ t)
    (hlater : (credentials platform requests).Later rows t u) : Closed hash now s₀ u := by
  intro r hr
  obtain ⟨r', hr', hevolves, hdead⟩ := h r hr
  obtain ⟨r'', hr'', hevolves'⟩ := exists_session_of_later hlater hr'
  exact ⟨r'', hr'', hevolves.trans hevolves', hevolves'.live_eq_false hdead⟩

theorem closed_of_miss {hash : String} {now : Timestamp} {s₀ s t : CredentialDb}
    {rows rows' : List CredentialKey} (hs : (credentials platform requests).Later rows s₀ s)
    (ht : (credentials platform requests).Later rows' s t)
    (hmiss : (sessionLookupSql hash now s).isSome = false)
    (howned : ownedSession hash t = true) : Closed hash now s₀ t := by
  intro r hr
  obtain ⟨r', hr', hevolves⟩ := exists_session_of_later hs hr
  obtain ⟨r'', hr'', hevolves'⟩ := exists_session_of_later ht hr'
  obtain ⟨r₁, hr₁, hactive⟩ := ownedSession_eq_true.mp howned
  obtain rfl := Option.some.inj (hr''.symm.trans hr₁)
  refine ⟨r'', hr'', hevolves.trans hevolves', hevolves'.live_eq_false ?_⟩
  rw [activeUser_eq_of_later ht, hevolves'.userId_eq] at hactive
  rw [Bool.eq_false_iff]
  intro hlive
  rw [sessionLookupSql_eq_some.mpr ⟨r', hr', hlive, hactive, rfl⟩] at hmiss
  cases hmiss

def LoggedOut (platform : Platform) (requests : ι → Presented × CredentialRequest) (i : ι)
    (s₀ : CredentialDb) : Goal CredentialTable AppError Unit :=
  fun r _ t => r = .ok () → ∀ hash, presentedHash platform (requests i).1 = some hash →
    Closed hash (requests i).1.now s₀ t

theorem follows_logoutHandler (hrequest : (requests i).2 = .logout) :
    (credentials platform requests).Follows i (logoutHandler platform (requests i).1)
      (LoggedOut platform requests i K.last).post K := by
  have herr : ∀ e, (LoggedOut platform requests i K.last).post.MayEnd (.error e) K :=
    fun e K' _ h => (by cases h)
  simp only [logoutHandler, Prog.bind_eq, Prog.pure_eq]
  refine follows_ofOption (fun _ => (herr _).now) fun token htoken => ?_
  have hhash : presentedHash platform (requests i).1 = some (platform.hashToken token) := by
    rw [presentedHash, htoken, Option.map_some]
  refine follows_beginTx fun _ => follows_execSql (fun _ => herr _) ?_ ?_
  · intro sn cur hsn hcur hq
    refine follows_commitTx (follows_select fun s hs => ?_)
    cases howned : ownedSession (platform.hashToken token) s with
    | false => exact follows_throw fun h => (by cases h)
    | true =>
        refine follows_ret fun _ hash hhash' => ?_
        obtain rfl := Option.some.inj (hhash.symm.trans hhash')
        rcases hq with hq | hq
        · exact closed_of_miss hsn (hcur.forget.trans hs) hq howned
        · exact closed_of_miss (hsn.trans hcur) hs hq howned
  · intro sn cur c b hsn hcur hqsn hq hhit
    obtain ⟨r, hr, hlive, rfl, rfl⟩ := revokeSessionSql_hit hq hhit
    obtain ⟨userId, huser⟩ := Option.isSome_iff_exists.mp hqsn
    obtain ⟨r₁, hr₁, -, -, rfl⟩ := sessionLookupSql_eq_some.mp huser
    obtain ⟨r₂, hr₂, hevolves⟩ := exists_session_of_later hcur hr₁
    obtain rfl := Option.some.inj (hr.symm.trans hr₂)
    have hallows : (credentials platform requests).Allows i (K.beginTx.saw sn).seen
        (.session (platform.hashToken token)) (some r)
        (some { r with revokedAt := some (requests i).1.now }) := by
      change Effect platform (requests i).1 _ (requests i).2 _ _ _
      rw [hrequest]
      refine .logout (Knowledge.mem_seen_saw_self _ rfl) ?_ hhash hlive
      rw [hevolves.userId_eq]
      exact .logout hhash huser
    have hput := lookup_put_self cur (CredentialKey.session (platform.hashToken token))
      (some { r with revokedAt := some (requests i).1.now })
    refine ⟨?_, follows_commitTx (follows_ret fun _ hash hhash' r₀ hr₀ => ?_)⟩
    · exact makes_set hr (.single hallows)
    · obtain rfl := Option.some.inj (hhash.symm.trans hhash')
      obtain ⟨r₃, hr₃, hevolves₀⟩ := exists_session_of_later (hsn.trans hcur) hr₀
      obtain rfl := Option.some.inj (hr.symm.trans hr₃)
      refine ⟨_, hput, hevolves₀.trans (evolves_session hallows), ?_⟩
      simp [SessionRow.live]

/-- A request that ends with anything but the errors of authentication, or those of the server,
has been authenticated. -/
def Vouched {α : Type} (platform : Platform) (requests : ι → Presented × CredentialRequest)
    (i : ι) (s₀ : CredentialDb) : Goal CredentialTable AppError α :=
  fun r seen _ => r = .error .auth ∨ r = .error .internal ∨
    ∃ userId, Authenticated platform requests i s₀ seen userId

def Spared (userId : Uuid) (hash : String) (now : Timestamp) (k : CredentialKey)
    (v : Option (CredentialTable k)) : Prop :=
  ∃ r, v = some r ∧ otherSession userId hash now k r = false

theorem Spared.evolves {userId : Uuid} {hash : String} {now : Timestamp} {k : CredentialKey}
    {v v' : Option (CredentialTable k)} (hv : Spared userId hash now k v)
    (h : (credentials platform requests).Evolves k v v') : Spared userId hash now k v' := by
  obtain ⟨r, rfl, hother⟩ := hv
  cases k with
  | session hash' =>
      obtain ⟨r', rfl, hevolves⟩ := Persists.exists_of_some h
      refine ⟨r', rfl, ?_⟩
      have huser := hevolves.userId_eq
      have hlive : SessionRow.live now r = false → SessionRow.live now r' = false :=
        hevolves.live_eq_false
      simp only [otherSession] at hother ⊢
      grind
  | apiToken hash' =>
      obtain ⟨r', rfl, -⟩ := Persists.exists_of_some h
      exact ⟨r', rfl, rfl⟩
  | _ => exact ⟨r, h, rfl⟩

def OthersClosed (platform : Platform) (requests : ι → Presented × CredentialRequest) (i : ι)
    (s₀ : CredentialDb) : Goal CredentialTable AppError Unit :=
  fun r seen t => Vouched platform requests i s₀ r seen t ∧ (r = .ok () →
    ∃ userId, Authenticated platform requests i s₀ seen userId ∧ ∀ hash r₀,
      s₀.session hash = some r₀ → r₀.userId = userId →
      presentedHash platform (requests i).1 ≠ some hash → Closed hash (requests i).1.now s₀ t)

theorem closed_of_spared {userId : Uuid} {hash hash' : String} {now : Timestamp}
    {s₀ t : CredentialDb} {rows : List CredentialKey} {r₀ : SessionRow}
    (hlater : (credentials platform requests).Later rows s₀ t)
    (hr₀ : s₀.session hash = some r₀) (huser : r₀.userId = userId) (hne : hash ≠ hash')
    (h : Spared userId hash' now (.session hash) (t.lookup (.session hash))) :
    Closed hash now s₀ t := by
  intro r hr
  obtain rfl := Option.some.inj (hr₀.symm.trans hr)
  obtain ⟨r', hr', hevolves⟩ := exists_session_of_later hlater hr
  refine ⟨r', hr', hevolves, ?_⟩
  obtain ⟨r'', hr'', hother⟩ := h
  obtain rfl := Option.some.inj (hr'.symm.trans hr'')
  have huser' := hevolves.userId_eq.trans huser
  simpa [otherSession, huser', hne] using hother

theorem follows_deleteSessionsHandler (hrequest : (requests i).2 = .deleteSessions)
    (htx : K.tx = none) :
    (credentials platform requests).Follows i (deleteSessionsHandler platform (requests i).1)
      (OthersClosed platform requests i K.last).post K := by
  have hreject : MayReject (OthersClosed platform requests i K.last).post K :=
    ⟨fun _ _ => ⟨Or.inl rfl, fun h => (by cases h)⟩,
      fun _ _ => ⟨Or.inr (Or.inl rfl), fun h => (by cases h)⟩⟩
  simp only [deleteSessionsHandler, Prog.bind_eq]
  refine follows_ofOption (fun _ => hreject.1.now) fun token htoken => ?_
  have hhash : presentedHash platform (requests i).1 = some (platform.hashToken token) := by
    rw [presentedHash, htoken, Option.map_some]
  have hsession : requiresSession (requests i).2 := by rw [hrequest]; rfl
  refine follows_requireSessionUserId hsession htx hreject fun userId K₁ hK₁ hauth => ?_
  refine follows_beginTx fun htx₁ => ?_
  rw [updateWhere, Prog.bind_assoc]
  refine follows_select fun s hs => ?_
  have hread : Onward (credentials platform requests) K₁.beginTx (K₁.beginTx.read s) :=
    onward_read hs
  have hs₀ : (credentials platform requests).Later [] K.last s := hK₁.last.trans hread.last
  have hcaller := hauth
  obtain ⟨s₁, hs₁, hprincipal, -⟩ := hcaller
  refine follows_updateAll (Q := Spared userId (platform.hashToken token) (requests i).1.now)
    (fun _ => hreject.2.mono (List.Subset.trans hK₁.seen hread.seen))
    (fun k r r' h hQ => hQ.evolves h) ?_ ?_ ?_ ?_
  · intro k r hp
    cases k with
    | session hash =>
        simp only [otherSession, Bool.and_eq_true, decide_eq_true_eq] at hp
        obtain ⟨⟨rfl, hne⟩, hlive⟩ := hp
        change Effect platform (requests i).1 _ (requests i).2 _ _ _
        rw [hrequest] at hprincipal ⊢
        refine .deleteSessions (hread.seen hs₁) hprincipal ?_ hlive
        rw [hhash]
        exact fun heq => hne (Option.some.inj heq).symm
    | _ => cases hp
  · intro k r hp
    cases k with
    | session hash => exact ⟨_, rfl, by simp [otherSession, revokeRow, SessionRow.live]⟩
    | _ => cases hp
  · intro k hk r h hq
    obtain ⟨r₁, hr₁, -⟩ := mem_keysWhere.mp hk
    rw [show (K₁.beginTx.read s).last.lookup k = some r₁ from hr₁] at h
    obtain ⟨r', rfl⟩ := exists_of_evolves h
    exact ⟨r', rfl, hq⟩
  · intro K₂ hK₂ hall
    refine follows_commitTx (follows_ret ⟨Or.inr (Or.inr ⟨userId, hauth.mono ?_⟩), fun _ => ?_⟩)
    · exact List.Subset.trans hread.seen hK₂.seen
    · refine ⟨userId, hauth.mono (List.Subset.trans hread.seen hK₂.seen), ?_⟩
      intro hash r₀ hr₀ huser hpresented
      have hne : hash ≠ platform.hashToken token := fun heq => hpresented (heq ▸ hhash)
      refine closed_of_spared (hs₀.trans hK₂.last) hr₀ huser hne ?_
      obtain ⟨r, hr, -⟩ := exists_session_of_later hs₀ hr₀
      cases hother : otherSession userId (platform.hashToken token) (requests i).1.now
          (.session hash) r with
      | true => exact hall _ (mem_keysWhere.mpr ⟨r, hr, hother⟩)
      | false => exact Spared.evolves ⟨r, hr, hother⟩ (hK₂.last.evolves (.session hash))

theorem mayReject_vouched (s₀ : CredentialDb) :
    MayReject (Goal.post (Vouched (α := γ) platform requests i s₀)) K :=
  ⟨fun _ _ => Or.inl rfl, fun _ _ => Or.inr (Or.inl rfl)⟩

theorem vouched_of_authenticated {s₀ : CredentialDb} {seen seen' : List CredentialDb}
    {userId : Uuid} (h : Authenticated platform requests i s₀ seen userId) (hsub : seen ⊆ seen')
    (r : Except AppError γ) (t : CredentialDb) : Vouched platform requests i s₀ r seen' t :=
  Or.inr (Or.inr ⟨userId, h.mono hsub⟩)

theorem follows_listSessionsHandler (hrequest : requiresSession (requests i).2)
    (htx : K.tx = none) :
    (credentials platform requests).Follows i (listSessionsHandler platform (requests i).1)
      (Vouched platform requests i K.last).post K := by
  simp only [listSessionsHandler, Prog.bind_eq]
  refine follows_ofOption (fun _ => (mayReject_vouched _).1.now) fun token htoken => ?_
  refine follows_requireSessionUserId hrequest htx (mayReject_vouched _)
    fun userId K' hK' hauth => follows_select fun s hs => follows_ret ?_
  exact vouched_of_authenticated hauth (Knowledge.seen_subset_saw _ _) _ _

theorem follows_createTokenHandler {mint : TokenMint}
    (hrequest : (requests i).2 = .createToken mint) (htx : K.tx = none) :
    (credentials platform requests).Follows i (createTokenHandler platform (requests i).1 mint)
      (Vouched platform requests i K.last).post K := by
  have hsession : requiresSession (requests i).2 := by rw [hrequest]; rfl
  simp only [createTokenHandler, Prog.bind_eq, Prog.pure_eq]
  refine follows_requireSessionUserId hsession htx (mayReject_vouched _)
    fun userId K' hK' hauth => ?_
  have hvouched : ∀ r : Except AppError CreateTokenResponse,
      (Vouched platform requests i K.last).post.MayEnd r K' :=
    fun r K'' hsub => vouched_of_authenticated hauth hsub r _
  refine follows_ofExcept (fun _ _ => (hvouched _).now) fun name hname => ?_
  refine follows_ofExcept (fun _ _ => (hvouched _).now) fun lifetimeDays hdays => ?_
  refine follows_failIf (fun _ => (hvouched _).now) fun _ => follows_beginTx fun _ => ?_
  obtain ⟨s, hs, hprincipal, -⟩ := hauth
  refine follows_insertApiToken ?_ (fun _ => hvouched _) fun K'' hK'' => ?_
  · change Effect platform (requests i).1 _ (requests i).2 _ _ _
    rw [hrequest] at hprincipal ⊢
    exact .createToken hs hprincipal hname hdays
  · exact follows_commitTx (follows_ret (hvouched _ _ hK''.seen))

theorem follows_listTokensHandler (hrequest : acceptsApiTokens (requests i).2)
    (htx : K.tx = none) :
    (credentials platform requests).Follows i (listTokensHandler platform (requests i).1)
      (Vouched platform requests i K.last).post K :=
  follows_requireUserId hrequest htx (mayReject_vouched _) fun _ _ _ hauth =>
    follows_select fun _ _ => follows_ret
      (vouched_of_authenticated hauth (Knowledge.seen_subset_saw _ _) _ _)

def TokenRevoked (platform : Platform) (requests : ι → Presented × CredentialRequest) (i : ι)
    (id : Uuid) (s₀ : CredentialDb) : Goal CredentialTable AppError ApiTokenResponse :=
  fun r seen (t : CredentialDb) => Vouched platform requests i s₀ r seen t ∧ ∀ row, r = .ok row →
    ∃ hash token, t.apiToken hash = some token ∧ token.response = row ∧ token.id = id ∧
      token.revokedAt.isSome ∧ Authenticated platform requests i s₀ seen token.userId

theorem follows_deleteTokenHandler {id : Uuid} (hrequest : (requests i).2 = .deleteToken id)
    (htx : K.tx = none) :
    (credentials platform requests).Follows i (deleteTokenHandler platform (requests i).1 id)
      (TokenRevoked platform requests i id K.last).post K := by
  have haccepts : acceptsApiTokens (requests i).2 := by rw [hrequest]; rfl
  have hreject : MayReject (TokenRevoked platform requests i id K.last).post K :=
    ⟨fun _ _ => ⟨Or.inl rfl, fun _ h => (by cases h)⟩,
      fun _ _ => ⟨Or.inr (Or.inl rfl), fun _ h => (by cases h)⟩⟩
  simp only [deleteTokenHandler, Prog.bind_eq, Prog.pure_eq]
  refine follows_requireUserId haccepts htx hreject fun userId K' hK' hauth => ?_
  have hend : ∀ e, (TokenRevoked platform requests i id K.last).post.MayEnd (.error e) K' :=
    fun e K'' hsub => ⟨vouched_of_authenticated hauth hsub _ _, fun _ h => (by cases h)⟩
  refine follows_beginTx fun _ => follows_select fun s hs => ?_
  have hread : Onward (credentials platform requests) K'.beginTx (K'.beginTx.read s) :=
    onward_read hs
  refine follows_ofOption (fun _ => hend _ _ hread.seen) fun hash hhash => ?_
  rw [fetchOr, Prog.bind_assoc]
  refine follows_updateRow (fun _ => (hend _).mono hread.seen) ?_ ?_
  · intro sn cur hsn hcur _
    refine follows_ofOption (fun _ => ?_) fun _ h => (by cases h)
    exact hend _ _ (List.Subset.trans hread.seen (onward_look sn (hsn.trans hcur)).seen)
  · intro sn cur r r' hsn hcur _ hr hown hr'
    obtain rfl := Except.ok.inj hr'
    obtain ⟨hid, huser⟩ : r.id = id ∧ r.userId = userId := by
      simpa [ownApiToken] using hown
    have hcaller := hauth
    obtain ⟨s₁, hs₁, hprincipal, -⟩ := hcaller
    have hallows : (credentials platform requests).Allows i (K'.beginTx.read s).seen
        (.apiToken hash) (some r)
        (some { r with revokedAt := r.revokedAt.or (some (requests i).1.now) }) := by
      change Effect platform (requests i).1 _ (requests i).2 _ _ _
      rw [hrequest] at hprincipal ⊢
      exact .deleteToken (hread.seen hs₁) (huser ▸ hprincipal) hid
    refine ⟨.single (Discipline.allows_mono _ (Knowledge.seen_subset_saw _ sn) hallows), ?_⟩
    have hon := hread.trans (onward_put sn (hsn.trans hcur) (hr ▸ hallows))
    refine follows_commitTx (follows_ret ⟨vouched_of_authenticated hauth hon.seen _ _, ?_⟩)
    intro row hrow
    obtain rfl := Except.ok.inj hrow
    have hput := lookup_put_self cur (.apiToken hash)
      (some { r with revokedAt := r.revokedAt.or (some (requests i).1.now) })
    refine ⟨hash, _, hput, rfl, hid, ?_, huser ▸ hauth.mono hon.seen⟩
    cases r.revokedAt <;> rfl

def Outcome (platform : Platform) (requests : ι → Presented × CredentialRequest) (i : ι)
    (s₀ : CredentialDb) : Goal CredentialTable AppError CredentialAnswer :=
  match (requests i).2 with
  | .login _ => Goal.map .loggedIn fun _ _ _ => True
  | .logout => (LoggedOut platform requests i s₀).map fun _ => .noContent
  | .listSessions => (Vouched platform requests i s₀).map .sessions
  | .deleteSessions => (OthersClosed platform requests i s₀).map fun _ => .noContent
  | .createToken _ => (Vouched platform requests i s₀).map .created
  | .listTokens => (Vouched platform requests i s₀).map .tokens
  | .deleteToken id => (TokenRevoked platform requests i id s₀).map .revoked
  | .other => (Vouched platform requests i s₀).map .caller

theorem follows_serveCredential (htx : K.tx = none) :
    (credentials platform requests).Follows i
      (serveCredential platform (requests i).1 (requests i).2)
      (Outcome platform requests i K.last).post K := by
  cases hrequest : (requests i).2 with
  | login attempt =>
      simp only [Outcome, hrequest, serveCredential]
      exact follows_map _ (follows_loginHandler hrequest htx)
  | logout =>
      simp only [Outcome, hrequest, serveCredential]
      exact follows_map _ (follows_logoutHandler hrequest)
  | listSessions =>
      simp only [Outcome, hrequest, serveCredential]
      exact follows_map _ (follows_listSessionsHandler (by rw [hrequest]; rfl) htx)
  | deleteSessions =>
      simp only [Outcome, hrequest, serveCredential]
      exact follows_map _ (follows_deleteSessionsHandler hrequest htx)
  | createToken mint =>
      simp only [Outcome, hrequest, serveCredential]
      exact follows_map _ (follows_createTokenHandler hrequest htx)
  | listTokens =>
      simp only [Outcome, hrequest, serveCredential]
      exact follows_map _ (follows_listTokensHandler (by rw [hrequest]; rfl) htx)
  | deleteToken id =>
      simp only [Outcome, hrequest, serveCredential]
      exact follows_map _ (follows_deleteTokenHandler hrequest htx)
  | other =>
      simp only [Outcome, hrequest, serveCredential]
      have haccepts : acceptsApiTokens (requests i).2 := by rw [hrequest]; rfl
      rw [Prog.map_eq]
      refine follows_requireUserId haccepts htx ⟨fun _ _ => ?_, fun _ _ => ?_⟩
        fun userId K' _ hauth => follows_ret ?_
      · exact ⟨.error .auth, rfl, Or.inl rfl⟩
      · exact ⟨.error .internal, rfl, Or.inr (Or.inl rfl)⟩
      · exact ⟨.ok userId, rfl, Or.inr (Or.inr ⟨userId, hauth⟩)⟩

end PersonalDashboard.CredentialRules
