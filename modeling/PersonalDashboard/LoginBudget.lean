import Mathlib.Data.Finset.Card
import PersonalDashboard.RateLimiter

/-! Concurrent logins under the rate limiter: how many failed verifications each
account and each client key can have in one window. -/

set_option autoImplicit false

namespace PersonalDashboard.LoginBudget

open PersonalDashboard.RateLimiter
open PersonalDashboard.Schema
open PersonalDashboard.Validation

/-- A login request; `ip` is the client key its limits are counted under. -/
structure LoginRequest (Ip : Type) where
  ip : Ip
  email : String
  password : String

/-- A failed login: when it passed the check, when its password was verified, and
when its failure was recorded. -/
structure Failure where
  checkedAt : Instant
  verifiedAt : Instant
  recordedAt : Instant

inductive Phase where
  | received
  | admitted (checkedAt : Instant)
  | failing (checkedAt verifiedAt : Instant)
  | verified
  | failed (failure : Failure)
  | refused (error : AppError)
  | loggedIn
  | dropped

namespace Phase

def checkedAt : Phase → Option Instant
  | admitted c | failing c _ => some c
  | failed f => some f.checkedAt
  | _ => none

def verifiedAt : Phase → Option Instant
  | failing _ v => some v
  | failed f => some f.verifiedAt
  | _ => none

def recordedAt : Phase → Option Instant
  | failed f => some f.recordedAt
  | _ => none

/-- The request has passed the check, and no failure of it is recorded yet. -/
def pending : Phase → Bool
  | admitted _ | failing .. => true
  | _ => false

def isReceived : Phase → Bool
  | received => true
  | _ => false

def isVerified : Phase → Bool
  | verified => true
  | _ => false

end Phase

/-- What happens next to a request. The database read of a login yields the
stored hash and whether the user is active; it may fail, and the client may
leave while the server waits for the database. -/
inductive Action where
  | enter
  | verify (row : Option (String × Bool))
  | lookupFails
  | record
  | openSession (ok : Bool)
  | drop

structure Choice (ι : Type) where
  proc : ι
  elapsed : Duration
  action : Action

structure Config (ι Ip : Type) where
  limiter : LimiterState Ip := {}
  phase : ι → Phase := fun _ => .received
  clock : Instant := 0

/-- What the server is built on: the limits, `str::to_lowercase`, and the Argon2
verification of a password against a PHC hash, `none` for a hash it cannot
parse. -/
structure Server where
  limits : Limits
  lower : String → String
  argon2 : String → String → Option Bool

/-- A well-formed hash of no password. -/
def dummyPasswordHash : String :=
  "$argon2id$v=19$m=19456,t=2,p=1$dzMtZHVtbXktc2FsdC0wMQ$" ++
    "WlpaWlpaWlpaWlpaWlpaWlpaWlpaWlpaWlpaWlpaWlo"

section Bucket

variable {ι K : Type} [DecidableEq K]

/-- The recorded failures of a key and its pending requests leave room for one
more. -/
def Room (window : Duration) (limit : Nat) (key : ι → K) (phase : ι → Phase)
    (map : Attempts K) (i : ι) (now : Instant) : Prop :=
  ∀ G : Finset ι, (∀ j ∈ G, (phase j).pending = true ∧ key j = key i) →
    (live window now (attempts map (key i))).length + G.card < limit

def RecordedSince (t : Instant) (p : Phase) : Prop :=
  ∃ r ∈ p.recordedAt, t ≤ r

/-- The request counts in the window from `t` on: it passed the check before the
window ends, and its failure is still pending or was recorded since. -/
def Counts (window : Duration) (t : Instant) (p : Phase) : Prop :=
  (∃ c ∈ p.checkedAt, c < t + window) ∧ (p.pending = true ∨ RecordedSince t p)

theorem sub_lt_window {window t r now : Nat} (hpos : 0 < window) (hend : now < t + window)
    (hr : t ≤ r) : now - r < window := by
  omega

/-- The bucket holds every recorded failure that is live, and no window counts
more requests than the limit. -/
structure Bucket (window : Duration) (limit : Nat) (keys : Finset K) (key : ι → K)
    (phase : ι → Phase) (clock : Instant) (map : Attempts K) : Prop where
  keys : ∀ k ∈ map.keys, k ∈ keys
  stored : ∀ k t (F : Finset ι), clock < t + window →
    (∀ i ∈ F, key i = k ∧ RecordedSince t (phase i)) →
    F.card ≤ (attempts map k).countP fun r => t ≤ r
  bounded : ∀ k t (F : Finset ι),
    (∀ i ∈ F, key i = k ∧ Counts window t (phase i)) → F.card ≤ limit

theorem of_update [DecidableEq ι] (Q : Phase → Prop) {phase : ι → Phase} {i j : ι} {p : Phase}
    (h : Q (Function.update phase i p j)) (hp : Q p → Q (phase i)) : Q (phase j) := by
  by_cases hji : j = i
  · subst hji
    rw [Function.update_self] at h
    exact hp h
  · rwa [Function.update_of_ne hji] at h

theorem Room.prune {window : Duration} {limit : Nat} {key : ι → K} {phase : ι → Phase}
    {map : Attempts K} {i : ι} {now : Instant} (h : Room window limit key phase map i now) :
    Room window limit key phase (prune window now map) i now := by
  intro G hG
  rw [attempts_prune, live_live]
  exact h G hG

namespace Bucket

variable {window : Duration} {limit : Nat} {keys : Finset K} {key : ι → K}
  {phase : ι → Phase} {clock now : Instant} {map : Attempts K} {i : ι}

theorem tick (h : Bucket window limit keys key phase clock map) (hle : clock ≤ now) :
    Bucket window limit keys key phase now map where
  keys := h.keys
  stored k t F ht hF := h.stored k t F (hle.trans_lt ht) hF
  bounded := h.bounded

theorem prune (hpos : 0 < window) (h : Bucket window limit keys key phase now map) :
    Bucket window limit keys key phase now (prune window now map) where
  keys k hk := h.keys k (keys_prune_subset window now map hk)
  stored k t F ht hF := by
    rw [attempts_prune, live, List.countP_filter]
    refine (h.stored k t F ht hF).trans (List.countP_mono_left fun r _ hr => ?_)
    simp only [decide_eq_true_eq, Bool.and_eq_true] at hr ⊢
    exact ⟨hr, sub_lt_window hpos ht hr⟩
  bounded := h.bounded

variable [DecidableEq ι]

theorem setPhase (h : Bucket window limit keys key phase clock map) {p : Phase}
    (hrecorded : ∀ r ∈ p.recordedAt, r ∈ (phase i).recordedAt)
    (hcounts : ∀ t, Counts window t p → Counts window t (phase i)) :
    Bucket window limit keys key (Function.update phase i p) clock map where
  keys := h.keys
  stored k t F ht hF := by
    refine h.stored k t F ht fun j hj => ⟨(hF j hj).1, of_update (RecordedSince t) (hF j hj).2 ?_⟩
    rintro ⟨r, hr, hle⟩
    exact ⟨r, hrecorded r hr, hle⟩
  bounded k t F hF :=
    h.bounded k t F fun j hj => ⟨(hF j hj).1, of_update (Counts window t) (hF j hj).2 (hcounts t)⟩

theorem passCheck (hpos : 0 < window) (h : Bucket window limit keys key phase now map)
    (hroom : Room window limit key phase map i now) :
    Bucket window limit keys key (Function.update phase i (.admitted now)) now map where
  keys := h.keys
  stored k t F ht hF := by
    refine h.stored k t F ht fun j hj => ⟨(hF j hj).1, of_update (RecordedSince t) (hF j hj).2 ?_⟩
    rintro ⟨r, hr, -⟩
    cases hr
  bounded k t F hF := by
    by_cases hi : i ∈ F
    · obtain ⟨rfl, ⟨c, hc, hend⟩, -⟩ := hF i hi
      rw [Function.update_self] at hc
      obtain rfl : now = c := Option.some.inj hc
      have hothers : ∀ j ∈ F.erase i, key j = key i ∧ Counts window t (phase j) := by
        intro j hj
        obtain ⟨hne, hj⟩ := Finset.mem_erase.mp hj
        obtain ⟨hkey, hcount⟩ := hF j hj
        rw [Function.update_of_ne hne] at hcount
        exact ⟨hkey, hcount⟩
      -- the others are pending, or recorded and live
      have hpending := hroom ((F.erase i).filter fun j => (phase j).pending) (by
        intro j hj
        obtain ⟨hj, hpending⟩ := Finset.mem_filter.mp hj
        exact ⟨hpending, (hothers j hj).1⟩)
      have hrecorded := h.stored (key i) t ((F.erase i).filter fun j => ¬ (phase j).pending) hend
        (by
          intro j hj
          obtain ⟨hj, hpending⟩ := Finset.mem_filter.mp hj
          obtain ⟨hkey, -, hcount⟩ := hothers j hj
          exact ⟨hkey, hcount.resolve_left hpending⟩)
      have hlive : ((attempts map (key i)).countP fun r => t ≤ r) ≤
          (live window now (attempts map (key i))).length := by
        rw [live, ← List.countP_eq_length_filter]
        refine List.countP_mono_left fun r _ hr => ?_
        simp only [decide_eq_true_eq] at hr ⊢
        exact sub_lt_window hpos hend hr
      have hsplit := Finset.card_filter_add_card_filter_not (s := F.erase i)
        (fun j => (phase j).pending = true)
      have hcard := Finset.card_erase_add_one hi
      omega
    · refine h.bounded k t F fun j hj => ⟨(hF j hj).1, ?_⟩
      have hcount := (hF j hj).2
      rwa [Function.update_of_ne (ne_of_mem_of_not_mem hj hi)] at hcount

theorem record (h : Bucket window limit keys key phase now map) {c v : Instant}
    (hphase : phase i = .failing c v) (hkey : key i ∈ keys) :
    Bucket window limit keys key (Function.update phase i (.failed ⟨c, v, now⟩)) now
      (push map (key i) now) where
  keys k hk := by
    rw [push, AList.keys_insert] at hk
    rcases List.mem_cons.mp hk with rfl | hk
    · exact hkey
    · exact h.keys k (List.mem_of_mem_erase hk)
  stored k t F ht hF := by
    have hothers : ∀ j ∈ F.erase i, key j = k ∧ RecordedSince t (phase j) := by
      intro j hj
      obtain ⟨hne, hj⟩ := Finset.mem_erase.mp hj
      have hj := hF j hj
      rwa [Function.update_of_ne hne] at hj
    have hold := h.stored k t (F.erase i) ht hothers
    by_cases hk : k = key i
    · subst hk
      rw [attempts_push_self, List.countP_append]
      by_cases hi : i ∈ F
      · obtain ⟨-, r, hr, hle⟩ := hF i hi
        rw [Function.update_self] at hr
        obtain rfl : now = r := Option.some.inj hr
        have hcard := Finset.card_erase_add_one hi
        simp only [List.countP_singleton, hle, decide_true, if_true]
        omega
      · rw [Finset.erase_eq_of_notMem hi] at hold
        exact hold.trans (Nat.le_add_right _ _)
    · have hi : i ∉ F := fun hi => hk (hF i hi).1.symm
      rw [Finset.erase_eq_of_notMem hi] at hold
      rwa [attempts_push_of_ne hk]
  bounded k t F hF := by
    refine h.bounded k t F fun j hj => ⟨(hF j hj).1, of_update (Counts window t) (hF j hj).2 ?_⟩
    rintro ⟨hchecked, -⟩
    rw [hphase]
    exact ⟨hchecked, Or.inl rfl⟩

end Bucket

end Bucket

section Handler

variable {ι Ip : Type} [DecidableEq ι] [DecidableEq Ip] (server : Server)

def verifyPassword (password hash : String) : Bool :=
  match server.argon2 password hash with
  | some ok => ok
  | none => (server.argon2 password dummyPasswordHash).getD false

/-- Whether an attempt is authenticated; a missing row is verified against the
dummy hash. -/
def verifyCredentials (password : String) (row : Option (String × Bool)) : Bool :=
  let (hash, isActive) := row.getD (dummyPasswordHash, false)
  verifyPassword server password hash && isActive

def account (r : LoginRequest Ip) : String :=
  normalizeAccount server.lower (trim r.email)

def accountKey (r : LoginRequest Ip) : String :=
  normalizeAccount server.lower (account server r)

/-- The first part of the login handler: validate the input, then check both
buckets. -/
def enter (r : LoginRequest Ip) (limiter : LimiterState Ip) (now : Instant) :
    LimiterState Ip × Phase :=
  let email := trim r.email
  if email.isEmpty || r.password.isEmpty then
    (limiter, .refused (.validation "email and password required"))
  else if 320 < byteLen email || 1024 < byteLen r.password then
    (limiter, .refused (.validation "invalid input"))
  else
    match checkLogin server.limits server.lower limiter r.ip (account server r) now with
    | (limiter', some retry) =>
        (limiter', .refused (.rateLimited (max (retry / secondsToNanos 1) 1)))
    | (limiter', none) => (limiter', .admitted now)

theorem enter_cases (r : LoginRequest Ip) (limiter : LimiterState Ip) (now : Instant) :
    (∃ e, enter server r limiter now = (limiter, .refused e)) ∨
      (∃ e, enter server r limiter now = (limiter.pruned server.limits now, .refused e)) ∨
      enter server r limiter now = (limiter.pruned server.limits now, .admitted now) ∧
        retries server.limits server.lower limiter r.ip (account server r) now = (none, none) := by
  unfold enter
  dsimp only
  split
  · exact Or.inl ⟨_, rfl⟩
  split
  · exact Or.inl ⟨_, rfl⟩
  split
  · rename_i limiter' retry hcheck
    obtain ⟨rfl, -⟩ := Prod.mk.inj hcheck
    exact Or.inr (Or.inl ⟨_, rfl⟩)
  · rename_i limiter' hcheck
    refine Or.inr (Or.inr ⟨?_, ?_⟩)
    · obtain ⟨rfl, -⟩ := Prod.mk.inj hcheck
      rfl
    · exact (checkLogin_eq_none server.limits server.lower).mp (congrArg Prod.snd hcheck)

def Config.setPhase (s : Config ι Ip) (i : ι) (p : Phase) : Config ι Ip :=
  { s with phase := Function.update s.phase i p }

variable (requests : ι → LoginRequest Ip)

/-- One step of one request. A step that does not apply only lets time pass. -/
def step (s : Config ι Ip) (c : Choice ι) : Config ι Ip :=
  let r := requests c.proc
  let now := s.clock + c.elapsed
  let s := { s with clock := now }
  match s.phase c.proc, c.action with
  | .received, .enter =>
      let (limiter, p) := enter server r s.limiter now
      { s with limiter := limiter }.setPhase c.proc p
  | .admitted t, .verify row =>
      s.setPhase c.proc
        (if verifyCredentials server r.password row then .verified else .failing t now)
  | .admitted _, .lookupFails => s.setPhase c.proc (.refused .internal)
  | .failing t v, .record =>
      { s with
        limiter := recordFailure server.limits server.lower s.limiter r.ip (account server r) now
        }.setPhase c.proc (.failed ⟨t, v, now⟩)
  | .verified, .openSession true =>
      { s with
        limiter := recordSuccess server.limits server.lower s.limiter (account server r) now
        }.setPhase c.proc .loggedIn
  | .verified, .openSession false => s.setPhase c.proc (.refused .internal)
  | .admitted _, .drop | .verified, .drop => s.setPhase c.proc .dropped
  | _, _ => s

def run (s : Config ι Ip) (cs : List (Choice ι)) : Config ι Ip :=
  cs.foldl (step server requests) s

/-- Every step of a run meets a condition on the configuration before it. -/
def EveryStep (P : Config ι Ip → Choice ι → Prop) : Config ι Ip → List (Choice ι) → Prop
  | _, [] => True
  | s, c :: cs => P s c ∧ EveryStep P (step server requests s c) cs

def Rejects (c : Choice ι) : Prop :=
  ∀ row, c.action = .verify row →
    verifyCredentials server (requests c.proc).password row = false

/-- A request enters only while, for its client key and for its account, the
failures recorded in the window and the requests still pending leave room. -/
def Uncontended (s : Config ι Ip) (c : Choice ι) : Prop :=
  let now := s.clock + c.elapsed
  let r := requests c.proc
  (s.phase c.proc).isReceived = true → c.action = .enter →
    retries server.limits server.lower s.limiter r.ip (account server r) now = (none, none) →
      Room server.limits.window server.limits.maxRequests (fun i => (requests i).ip) s.phase
        s.limiter.byIp c.proc now ∧
      Room server.limits.window server.limits.maxAccountFailures
        (fun i => accountKey server (requests i)) s.phase s.limiter.byAccount c.proc now

end Handler

section Runs

variable {ι Ip : Type} [DecidableEq Ip] {server : Server}
  {requests : ι → LoginRequest Ip}

structure Timed (clock : Instant) (p : Phase) : Prop where
  checked : ∀ c ∈ p.checkedAt, c ≤ clock
  verified : ∀ v ∈ p.verifiedAt, v ≤ clock ∧ ∃ c ∈ p.checkedAt, c ≤ v
  recorded : ∀ v ∈ p.verifiedAt, p.pending = true ∨ ∃ r ∈ p.recordedAt, v ≤ r

/-- What holds in every configuration of a run in which no request is admitted
into a full budget. -/
structure Sound (server : Server) (requests : ι → LoginRequest Ip) (ips : Finset Ip)
    (accounts : Finset String) (s : Config ι Ip) : Prop where
  byIp : Bucket server.limits.window server.limits.maxRequests ips (fun i => (requests i).ip)
    s.phase s.clock s.limiter.byIp
  byAccount : Bucket server.limits.window server.limits.maxAccountFailures accounts
    (fun i => accountKey server (requests i)) s.phase s.clock s.limiter.byAccount
  timed : ∀ i, Timed s.clock (s.phase i)
  rejected : ∀ i, (s.phase i).isVerified = false

theorem Timed.counts {clock t v : Instant} {window : Duration} {p : Phase} (h : Timed clock p)
    (hv : v ∈ p.verifiedAt) (hle : t ≤ v) (hlt : v < t + window) : Counts window t p := by
  obtain ⟨c, hc, hcv⟩ := (h.verified v hv).2
  refine ⟨⟨c, hc, hcv.trans_lt hlt⟩, (h.recorded v hv).imp id ?_⟩
  rintro ⟨r, hr, hvr⟩
  exact ⟨r, hr, hle.trans hvr⟩

theorem Timed.tick {clock now : Instant} {p : Phase} (h : Timed clock p) (hle : clock ≤ now) :
    Timed now p where
  checked c hc := (h.checked c hc).trans hle
  verified v hv := ⟨(h.verified v hv).1.trans hle, (h.verified v hv).2⟩
  recorded := h.recorded

theorem timed_admitted (now : Instant) : Timed now (.admitted now) where
  checked _ hc := (Option.some.inj hc).ge
  verified _ hv := nomatch hv
  recorded _ hv := nomatch hv

theorem Timed.fail {clock c : Instant} (h : Timed clock (.admitted c)) :
    Timed clock (.failing c clock) where
  checked := h.checked
  verified _ hv :=
    ⟨(Option.some.inj hv).ge, c, rfl, (h.checked c rfl).trans (Option.some.inj hv).le⟩
  recorded _ _ := Or.inl rfl

theorem Timed.record {clock c v : Instant} (h : Timed clock (.failing c v)) :
    Timed clock (.failed ⟨c, v, clock⟩) where
  checked := h.checked
  verified := h.verified
  recorded v' hv := Or.inr ⟨clock, rfl, (h.verified v' hv).1⟩

section Steps

variable {ips : Finset Ip} {accounts : Finset String} {s : Config ι Ip} {i : ι}

theorem Sound.tick (h : Sound server requests ips accounts s) (d : Duration) :
    Sound server requests ips accounts { s with clock := s.clock + d } where
  byIp := h.byIp.tick (Nat.le_add_right _ _)
  byAccount := h.byAccount.tick (Nat.le_add_right _ _)
  timed j := (h.timed j).tick (Nat.le_add_right _ _)
  rejected := h.rejected

theorem Sound.prune (h : Sound server requests ips accounts s) :
    Sound server requests ips accounts
      { s with limiter := s.limiter.pruned server.limits s.clock } where
  byIp := h.byIp.prune server.limits.window_pos
  byAccount := h.byAccount.prune server.limits.window_pos
  timed := h.timed
  rejected := h.rejected

theorem bucket_start {K : Type} [DecidableEq K] (window : Duration) (limit : Nat)
    (keys : Finset K) (key : ι → K) :
    Bucket window limit keys key (fun _ => .received) 0 ∅ where
  keys k hk := nomatch hk
  stored k t F _ hF := by
    have hempty : F = ∅ := Finset.eq_empty_of_forall_notMem fun i hi => by
      obtain ⟨-, r, hr, -⟩ := hF i hi
      cases hr
    simp [hempty]
  bounded k t F hF := by
    have hempty : F = ∅ := Finset.eq_empty_of_forall_notMem fun i hi => by
      obtain ⟨-, ⟨c, hc, -⟩, -⟩ := hF i hi
      cases hc
    simp [hempty]

theorem sound_start : Sound server requests ips accounts {} where
  byIp := bucket_start _ _ _ _
  byAccount := bucket_start _ _ _ _
  timed _ := ⟨(fun _ hc => nomatch hc), (fun _ hv => nomatch hv), (fun _ hv => nomatch hv)⟩
  rejected _ := rfl

variable [DecidableEq ι]

theorem forall_update (Q : Phase → Prop) {phase : ι → Phase} {p : Phase}
    (h : ∀ j, Q (phase j)) (hp : Q p) (j : ι) : Q (Function.update phase i p j) := by
  by_cases hji : j = i
  · subst hji
    rwa [Function.update_self]
  · rw [Function.update_of_ne hji]
    exact h j

theorem Sound.setPhase (h : Sound server requests ips accounts s) {p : Phase}
    (hrecorded : p.recordedAt = none)
    (hcounts : ∀ window t, Counts window t p → Counts window t (s.phase i))
    (htimed : Timed s.clock p) (hrejected : p.isVerified = false) :
    Sound server requests ips accounts (s.setPhase i p) where
  byIp := h.byIp.setPhase (by simp [hrecorded]) (hcounts _)
  byAccount := h.byAccount.setPhase (by simp [hrecorded]) (hcounts _)
  timed := forall_update (Timed s.clock) h.timed htimed
  rejected := forall_update (fun p => p.isVerified = false) h.rejected hrejected

theorem Sound.leave (h : Sound server requests ips accounts s) {p : Phase}
    (hchecked : p.checkedAt = none) (hverified : p.verifiedAt = none)
    (hrecorded : p.recordedAt = none) (hrejected : p.isVerified = false) :
    Sound server requests ips accounts (s.setPhase i p) := by
  refine h.setPhase hrecorded (fun window t hcount => ?_) ⟨?_, ?_, ?_⟩ hrejected
  · obtain ⟨⟨c, hc, -⟩, -⟩ := hcount
    simp [hchecked] at hc
  · simp [hchecked]
  · simp [hverified]
  · simp [hverified]

theorem Sound.passCheck (h : Sound server requests ips accounts s)
    (hip : Room server.limits.window server.limits.maxRequests (fun i => (requests i).ip)
      s.phase s.limiter.byIp i s.clock)
    (haccount : Room server.limits.window server.limits.maxAccountFailures
      (fun i => accountKey server (requests i)) s.phase s.limiter.byAccount i s.clock) :
    Sound server requests ips accounts (s.setPhase i (.admitted s.clock)) where
  byIp := h.byIp.passCheck server.limits.window_pos hip
  byAccount := h.byAccount.passCheck server.limits.window_pos haccount
  timed := forall_update (Timed s.clock) h.timed (timed_admitted s.clock)
  rejected := forall_update (fun p => p.isVerified = false) h.rejected rfl

/-- A failure is recorded; no key is evicted. -/
theorem Sound.record (h : Sound server requests ips accounts s)
    (hips : ips.card ≤ server.limits.maxKeys) (hacc : accounts.card ≤ server.limits.maxKeys)
    (hip : (requests i).ip ∈ ips) (haccount : accountKey server (requests i) ∈ accounts)
    {c v : Instant} (hphase : s.phase i = .failing c v) :
    Sound server requests ips accounts
      ({ s with
        limiter := recordFailure server.limits server.lower s.limiter (requests i).ip
          (account server (requests i)) s.clock }.setPhase i (.failed ⟨c, v, s.clock⟩)) where
  byIp := by
    have hpruned := h.byIp.prune server.limits.window_pos
    have hrecord := hpruned.record hphase hip
    rwa [← boundKeys_of_subset hpruned.keys hip hips] at hrecord
  byAccount := by
    have hpruned := h.byAccount.prune server.limits.window_pos
    have hrecord := hpruned.record hphase haccount
    rwa [← boundKeys_of_subset hpruned.keys haccount hacc] at hrecord
  timed := forall_update (Timed s.clock) h.timed (Timed.record (hphase ▸ h.timed i))
  rejected := forall_update (fun p => p.isVerified = false) h.rejected rfl

theorem Sound.step (h : Sound server requests ips accounts s)
    (hips : ips.card ≤ server.limits.maxKeys) (hacc : accounts.card ≤ server.limits.maxKeys)
    (hip : ∀ i, (requests i).ip ∈ ips) (haccount : ∀ i, accountKey server (requests i) ∈ accounts)
    {c : Choice ι} (hrejects : Rejects server requests c)
    (huncontended : Uncontended server requests s c) :
    Sound server requests ips accounts (step server requests s c) := by
  have htick := h.tick c.elapsed
  have hnot : s.phase c.proc ≠ .verified := fun hp => by
    have hrejected := h.rejected c.proc
    rw [hp] at hrejected
    cases hrejected
  unfold LoginBudget.step
  dsimp only
  split
  case h_1 hphase haction =>
    rcases enter_cases server (requests c.proc) s.limiter (s.clock + c.elapsed) with
      ⟨e, he⟩ | ⟨e, he⟩ | ⟨he, hopen⟩
    · rw [he]
      exact htick.leave rfl rfl rfl rfl
    · rw [he]
      exact htick.prune.leave rfl rfl rfl rfl
    · rw [he]
      obtain ⟨hroomIp, hroomAccount⟩ := huncontended (by rw [hphase]; rfl) haction hopen
      exact htick.prune.passCheck hroomIp.prune hroomAccount.prune
  case h_2 t row hphase haction =>
    rw [hrejects row haction]
    refine htick.setPhase rfl (fun window t' hcount => ?_) ?_ rfl
    · rw [show s.phase c.proc = .admitted t from hphase]
      exact ⟨hcount.1, Or.inl rfl⟩
    · have htimed := htick.timed c.proc
      rw [show s.phase c.proc = .admitted t from hphase] at htimed
      exact htimed.fail
  case h_3 => exact htick.leave rfl rfl rfl rfl
  case h_4 hphase _ => exact htick.record hips hacc (hip _) (haccount _) hphase
  case h_5 hphase _ => exact absurd hphase hnot
  case h_6 hphase _ => exact absurd hphase hnot
  case h_7 => exact htick.leave rfl rfl rfl rfl
  case h_8 hphase _ => exact absurd hphase hnot
  case h_9 => exact htick

theorem Sound.run (h : Sound server requests ips accounts s)
    (hips : ips.card ≤ server.limits.maxKeys) (hacc : accounts.card ≤ server.limits.maxKeys)
    (hip : ∀ i, (requests i).ip ∈ ips) (haccount : ∀ i, accountKey server (requests i) ∈ accounts)
    {cs : List (Choice ι)}
    (hsteps : EveryStep server requests
      (fun s c => Rejects server requests c ∧ Uncontended server requests s c) s cs) :
    Sound server requests ips accounts (run server requests s cs) := by
  induction cs generalizing s with
  | nil => exact h
  | cons c cs ih =>
      obtain ⟨⟨hrejects, huncontended⟩, hrest⟩ := hsteps
      exact ih (h.step hips hacc hip haccount hrejects huncontended) hrest

end Steps

end Runs

end PersonalDashboard.LoginBudget
