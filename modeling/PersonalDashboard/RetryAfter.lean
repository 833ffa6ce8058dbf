import PersonalDashboard.LimiterMemory

/-! The wait that a refused client is told, and when its bucket has room again. -/

set_option autoImplicit false
namespace PersonalDashboard.RetryAfter

open PersonalDashboard.LimiterMemory
open PersonalDashboard.RateLimiter
open PersonalDashboard.TokenMints

/-- `retry.as_secs().max(1)`: the seconds of the `Retry-After` header. -/
def retryAfter (retry : Duration) : Nat :=
  max (retry / secondsToNanos 1) 1

/-- The recorded instants of one key, and how many of them close it. -/
structure Bucket where
  limit : Nat
  entries : List Instant

namespace Bucket

def Full (b : Bucket) : Prop :=
  b.limit ≤ b.entries.length

/-- The entry that has to leave the window before there is room: there are fewer
later ones than close the bucket. -/
def deciding (b : Bucket) : Option Instant :=
  b.entries[b.entries.length - b.limit]?

/-- How long until the oldest entry of a full bucket leaves the window. -/
def Wait (window : Duration) (now : Instant) (b : Bucket) (w : Duration) : Prop :=
  b.Full ∧ ∃ o ∈ b.entries.min?, w = o + window - now

end Bucket

/-- In every full bucket, the deciding entry leaves the window within the wait of the
oldest entry of some full bucket, cut to whole seconds but at least one. -/
def InTime (window : Duration) (now : Instant) (buckets : List Bucket) : Prop :=
  ∀ b ∈ buckets, b.Full → ∀ e ∈ b.deciding, ∃ b' ∈ buckets, ∃ w, b'.Wait window now w ∧
    e + window ≤ now + secondsToNanos (retryAfter w)

theorem retryAfter_mono {w w' : Duration} (h : w ≤ w') : retryAfter w ≤ retryAfter w' :=
  max_le_max (Nat.div_le_div_right h) le_rfl

theorem seconds_retryAfter_le {w window : Duration} (hw : w ≤ window)
    (hwindow : secondsToNanos 1 ≤ window) : secondsToNanos (retryAfter w) ≤ window := by
  unfold retryAfter
  rcases le_total (w / secondsToNanos 1) 1 with h | h
  · rwa [max_eq_right h]
  · rw [max_eq_left h, secondsToNanos, secondsToNanos, Nat.one_mul]
    exact (Nat.div_mul_le_self w _).trans hw

theorem sub_lt_iff_lt_add {window t u : Nat} (hwindow : 0 < window) :
    u - t < window ↔ u < t + window := by
  omega

theorem length_live_lt_iff {window : Duration} (hwindow : 0 < window) {limit : Nat}
    (hlimit : 0 < limit) {entries : List Instant} (hsorted : entries.Pairwise (· ≤ ·))
    (u : Instant) :
    (live window u entries).length < limit ↔
      (Bucket.mk limit entries).Full →
        ∀ e ∈ (Bucket.mk limit entries).deciding, e + window ≤ u := by
  simp only [Bucket.Full, Bucket.deciding]
  rcases lt_or_ge entries.length limit with hlt | hfull
  · exact iff_of_true (lt_of_le_of_lt (length_live_le window u entries) hlt)
      fun h => absurd h (not_le.mpr hlt)
  have hi : entries.length - limit < entries.length := by omega
  have hrest : entries.length - (entries.length - limit) = limit := by omega
  generalize entries.length - limit = i at hi hrest ⊢
  have hsplit : entries = entries.take i ++ entries.drop i := (List.take_append_drop i entries).symm
  have hdrop : entries.drop i = entries[i] :: entries.drop (i + 1) := List.drop_eq_getElem_cons hi
  rw [hsplit, List.pairwise_append] at hsorted
  obtain ⟨-, hlater, hcross⟩ := hsorted
  rw [List.getElem?_eq_getElem hi]
  simp only [Option.mem_some_iff, forall_eq', hfull, forall_const]
  constructor
  · intro hlt
    by_contra hleft
    -- The deciding entry and all later ones are still in the window.
    have hall : live window u (entries.drop i) = entries.drop i := by
      refine List.filter_eq_self.mpr fun t ht => decide_eq_true ?_
      rw [sub_lt_iff_lt_add hwindow]
      have hle : entries[i] ≤ t := by
        rw [hdrop] at ht hlater
        rcases List.mem_cons.mp ht with rfl | ht
        · exact le_rfl
        · exact List.rel_of_pairwise_cons hlater ht
      exact lt_of_lt_of_le (not_le.mp hleft) (Nat.add_le_add_right hle window)
    have hlen : limit ≤ (live window u entries).length := by
      rw [hsplit, live, List.filter_append, List.length_append, ← live, ← live, hall,
        List.length_drop, hrest]
      exact Nat.le_add_left _ _
    omega
  · intro hleft
    -- It has left, and all earlier ones with it.
    have hdead : ∀ t, t ≤ entries[i] → ¬ u - t < window := by
      intro t ht
      rw [sub_lt_iff_lt_add hwindow]
      exact not_lt.mpr ((Nat.add_le_add_right ht window).trans hleft)
    have hnone : live window u (entries.take i) = [] := by
      refine List.filter_eq_nil_iff.mpr fun t ht hlive => hdead t ?_ (of_decide_eq_true hlive)
      exact hcross t ht _ (by rw [hdrop]; exact List.mem_cons_self)
    have hcut : live window u entries = live window u (entries.drop (i + 1)) := by
      conv_lhs => rw [hsplit, hdrop]
      rw [live, List.filter_append, ← live, hnone, List.nil_append,
        List.filter_cons_of_neg (by simpa using hdead _ le_rfl)]
      rfl
    have hlen := length_live_le window u (entries.drop (i + 1))
    rw [List.length_drop] at hlen
    rw [hcut]
    omega

/-- The wait of a refusal: the longest of the buckets that are full. -/
structure Refuses (window : Duration) (now : Instant) (buckets : List Bucket)
    (retry : Duration) : Prop where
  some_wait : ∃ b ∈ buckets, b.Wait window now retry
  longest : ∀ b ∈ buckets, ∀ w, b.Wait window now w → w ≤ retry

theorem Refuses.inTime_iff {window retry : Duration} {now : Instant} {buckets : List Bucket}
    (h : Refuses window now buckets retry) :
    InTime window now buckets ↔ ∀ b ∈ buckets, b.Full → ∀ e ∈ b.deciding,
      e + window ≤ now + secondsToNanos (retryAfter retry) := by
  constructor
  · intro htime b hb hfull e he
    obtain ⟨b', hb', w, hw, hle⟩ := htime b hb hfull e he
    refine hle.trans (Nat.add_le_add_left ?_ now)
    exact Nat.mul_le_mul_right _ (retryAfter_mono (h.longest b' hb' w hw))
  · intro htime b hb hfull e he
    obtain ⟨b', hb', hw⟩ := h.some_wait
    exact ⟨b', hb', retry, hw, htime b hb hfull e he⟩

theorem Bucket.Wait.le {window w : Duration} {now : Instant} {b : Bucket}
    (h : b.Wait window now w) (hpast : ∀ t ∈ b.entries, t ≤ now) : w ≤ window := by
  obtain ⟨-, o, ho, rfl⟩ := h
  have hle := hpast o (List.min?_mem ho)
  exact Nat.sub_le_iff_le_add'.mpr (Nat.add_le_add_right hle window)

section Blocked

variable {K : Type} [DecidableEq K] {map : Attempts K} {key : K} {limit : Nat}
  {window : Duration} {now : Instant}

theorem blockedFor_eq_some (hlimit : 0 < limit) {w : Duration} :
    blockedFor (map.lookup key) limit window now = some w ↔
      (Bucket.mk limit (attempts map key)).Wait window now w := by
  unfold Bucket.Wait Bucket.Full attempts
  cases hlookup : map.lookup key with
  | none =>
      simp only [blockedFor, reduceCtorEq, Option.getD_none, List.length_nil, false_iff]
      rintro ⟨hfull, -⟩
      omega
  | some entries =>
      simp only [blockedFor, Option.getD_some]
      rcases lt_or_ge entries.length limit with hlt | hfull
      · simp [hlt, not_le.mpr hlt]
      · have hne : entries ≠ [] := by
          rintro rfl
          simp only [List.length_nil] at hfull
          omega
        cases hmin : entries.min? with
        | none => exact absurd (List.min?_eq_none_iff.mp hmin) hne
        | some o => simp [not_lt.mpr hfull, hfull, eq_comm]

theorem blockedFor_eq_none (window : Duration) (now : Instant) (hlimit : 0 < limit) :
    blockedFor (map.lookup key) limit window now = none ↔ (attempts map key).length < limit := by
  refine ⟨length_lt_of_blockedFor hlimit, fun hlt => ?_⟩
  rw [Option.eq_none_iff_forall_ne_some]
  intro w hw
  exact absurd (le_length_of_blockedFor hw) (not_le.mpr hlt)

end Blocked

section Maps

variable {K : Type} [DecidableEq K]

/-- The entries of every key are in the order of their instants, and none is ahead of
the clock. -/
structure Ordered (clock : Instant) (map : Attempts K) : Prop where
  sorted : ∀ key, (attempts map key).Pairwise (· ≤ ·)
  past : ∀ key, ∀ t ∈ attempts map key, t ≤ clock

variable {clock now : Instant} {map map' : Attempts K}

theorem Ordered.of_sublist (h : Ordered clock map)
    (hsub : ∀ key, (attempts map' key).Sublist (attempts map key)) : Ordered clock map' where
  sorted key := (h.sorted key).sublist (hsub key)
  past key t ht := h.past key t ((hsub key).subset ht)

theorem Ordered.tick (h : Ordered clock map) (hle : clock ≤ now) : Ordered now map where
  sorted := h.sorted
  past key t ht := (h.past key t ht).trans hle

theorem ordered_empty : Ordered clock (∅ : Attempts K) where
  sorted _ := List.Pairwise.nil
  past _ _ ht := (nomatch ht)

theorem Ordered.push (h : Ordered now map) (key : K) : Ordered now (push map key now) := by
  have hself := attempts_push_self map key now
  constructor
  · intro key'
    by_cases hkey : key' = key
    · subst hkey
      rw [hself, List.pairwise_append]
      refine ⟨h.sorted key', List.pairwise_singleton _ _, fun t ht u hu => ?_⟩
      obtain rfl := List.mem_singleton.mp hu
      exact h.past key' t ht
    · rw [attempts_push_of_ne hkey]
      exact h.sorted key'
  · intro key' t ht
    by_cases hkey : key' = key
    · subst hkey
      rw [hself, List.mem_append] at ht
      rcases ht with ht | ht
      · exact h.past key' t ht
      · exact (List.mem_singleton.mp ht).le
    · rw [attempts_push_of_ne hkey] at ht
      exact h.past key' t ht

theorem attempts_prune_sublist (window : Duration) (now : Instant) (map : Attempts K) (key : K) :
    (attempts (prune window now map) key).Sublist (attempts map key) := by
  rw [attempts_prune]
  exact List.filter_sublist

theorem attempts_erase_sublist (map : Attempts K) (victim key : K) :
    (attempts (map.erase victim) key).Sublist (attempts map key) := by
  by_cases hkey : key = victim
  · subst hkey
    rw [attempts, AList.lookup_erase, Option.getD_none]
    exact List.nil_sublist _
  · rw [attempts, AList.lookup_erase_ne hkey, attempts]

theorem attempts_boundKeys_sublist (map : Attempts K) (incoming key : K) (limit maxKeys : Nat) :
    (attempts (boundKeys map incoming limit maxKeys) key).Sublist (attempts map key) := by
  unfold boundKeys
  split
  · exact List.Sublist.refl _
  dsimp only
  split
  · exact attempts_erase_sublist map _ key
  · exact List.Sublist.refl _

theorem attempts_releaseTokenMint_sublist (limits : MintLimits) (map : Attempts K) (user key : K)
    (reservedAt now : Instant) :
    (attempts (releaseTokenMint limits map user reservedAt now) key).Sublist
      (attempts map key) := by
  by_cases hkey : key = user
  · subst hkey
    rw [attempts_releaseTokenMint_self]
    exact List.erase_sublist.trans List.filter_sublist
  · rw [attempts_releaseTokenMint_of_ne _ hkey]
    exact List.filter_sublist

theorem attempts_record_sublist {incoming key : K} (h : key ≠ incoming) (window : Duration)
    (now : Instant) (map : Attempts K) (limit maxKeys : Nat) :
    (attempts (push (boundKeys (prune window now map) incoming limit maxKeys) incoming now)
      key).Sublist (attempts map key) := by
  rw [attempts_push_of_ne h]
  exact (attempts_boundKeys_sublist _ _ _ _ _).trans (attempts_prune_sublist _ _ _ _)

theorem Ordered.record (h : Ordered now map) (window : Duration) (incoming : K)
    (limit maxKeys : Nat) :
    Ordered now (RateLimiter.push (boundKeys (prune window now map) incoming limit maxKeys)
      incoming now) := by
  refine (h.of_sublist fun key => ?_).push incoming
  exact (attempts_boundKeys_sublist _ _ _ _ _).trans (attempts_prune_sublist _ _ _ _)

end Maps

section Limiter

variable {Ip U : Type} [DecidableEq Ip] [DecidableEq U] (limits : MintLimits)
  (lower : String → String)

def limiterAfter (s : LimiterMaps Ip U × Instant) (ops : List (Duration × LimiterOp Ip U)) :
    LimiterMaps Ip U × Instant :=
  ops.foldl (fun s e => (limiterStep limits lower s.1 (s.2 + e.1) e.2, s.2 + e.1)) s

theorem limiterAfter_cons (s : LimiterMaps Ip U × Instant) (e : Duration × LimiterOp Ip U)
    (ops : List (Duration × LimiterOp Ip U)) :
    limiterAfter limits lower s (e :: ops) =
      limiterAfter limits lower (limiterStep limits lower s.1 (s.2 + e.1) e.2, s.2 + e.1) ops :=
  rfl

/-- An operation that records no failure for a client key, and none for an account. -/
def Spares (ip : Ip) (account : String) (op : LimiterOp Ip U) : Prop :=
  ∀ ip' account', op = .recordFailure ip' account' →
    ip ≠ ip' ∧ normalizeAccount lower account ≠ normalizeAccount lower account'

def SparesUser (user : U) (op : LimiterOp Ip U) : Prop :=
  op ≠ .reserveTokenMint user

structure MapsOrdered (clock : Instant) (s : LimiterMaps Ip U) : Prop where
  byIp : Ordered clock s.byIp
  byAccount : Ordered clock s.byAccount
  byTokenMinter : Ordered clock s.byTokenMinter

variable {limits lower} {s : LimiterMaps Ip U} {clock now : Instant}

theorem MapsOrdered.tick (h : MapsOrdered clock s) (hle : clock ≤ now) : MapsOrdered now s :=
  ⟨h.byIp.tick hle, h.byAccount.tick hle, h.byTokenMinter.tick hle⟩

theorem MapsOrdered.step (h : MapsOrdered now s) (op : LimiterOp Ip U) :
    MapsOrdered now (limiterStep limits lower s now op) := by
  cases op with
  | checkLogin ip account =>
      exact ⟨h.byIp.of_sublist (attempts_prune_sublist _ _ _),
        h.byAccount.of_sublist (attempts_prune_sublist _ _ _), h.byTokenMinter⟩
  | recordFailure ip account =>
      exact ⟨h.byIp.record _ _ _ _, h.byAccount.record _ _ _ _, h.byTokenMinter⟩
  | recordSuccess account =>
      refine ⟨h.byIp, h.byAccount.of_sublist fun key => ?_, h.byTokenMinter⟩
      exact (attempts_erase_sublist _ _ _).trans (attempts_prune_sublist _ _ _ _)
  | reserveTokenMint user =>
      refine ⟨h.byIp, h.byAccount, ?_⟩
      simp only [limiterStep, reserveTokenMint]
      split
      · exact h.byTokenMinter.of_sublist (attempts_prune_sublist _ _ _)
      · exact h.byTokenMinter.record _ _ _ _
  | commit => exact h
  | releaseTokenMint user reservedAt =>
      exact ⟨h.byIp, h.byAccount,
        h.byTokenMinter.of_sublist fun key => attempts_releaseTokenMint_sublist _ _ _ _ _ _⟩

theorem mapsOrdered_limiterRun (ops : List (Duration × LimiterOp Ip U)) :
    MapsOrdered (limiterRun limits lower ops).2 (limiterRun limits lower ops).1 := by
  induction ops using List.reverseRecOn with
  | nil => exact ⟨ordered_empty, ordered_empty, ordered_empty⟩
  | append_singleton ops e ih =>
      rw [limiterRun, List.foldl_append]
      exact (ih.tick (Nat.le_add_right _ e.1)).step e.2

theorem limiterStep_sublist (limits : MintLimits) {ip : Ip} {account : String} {op : LimiterOp Ip U}
    (h : Spares lower ip account op) (s : LimiterMaps Ip U) (now : Instant) :
    (attempts (limiterStep limits lower s now op).byIp ip).Sublist (attempts s.byIp ip) ∧
      (attempts (limiterStep limits lower s now op).byAccount
        (normalizeAccount lower account)).Sublist
          (attempts s.byAccount (normalizeAccount lower account)) := by
  cases op with
  | checkLogin ip' account' =>
      exact ⟨attempts_prune_sublist _ _ _ _, attempts_prune_sublist _ _ _ _⟩
  | recordFailure ip' account' =>
      obtain ⟨hip, haccount⟩ := h ip' account' rfl
      exact ⟨attempts_record_sublist hip _ _ _ _ _, attempts_record_sublist haccount _ _ _ _ _⟩
  | recordSuccess account' =>
      exact ⟨List.Sublist.refl _,
        (attempts_erase_sublist _ _ _).trans (attempts_prune_sublist _ _ _ _)⟩
  | reserveTokenMint user => exact ⟨List.Sublist.refl _, List.Sublist.refl _⟩
  | commit => exact ⟨List.Sublist.refl _, List.Sublist.refl _⟩
  | releaseTokenMint user reservedAt => exact ⟨List.Sublist.refl _, List.Sublist.refl _⟩

theorem limiterStep_sublist_mint {user : U} {op : LimiterOp Ip U} (h : SparesUser user op)
    (s : LimiterMaps Ip U) (now : Instant) :
    (attempts (limiterStep limits lower s now op).byTokenMinter user).Sublist
      (attempts s.byTokenMinter user) := by
  cases op with
  | reserveTokenMint user' =>
      have hne : user ≠ user' := by
        rintro rfl
        exact h rfl
      simp only [limiterStep, reserveTokenMint]
      split
      · exact attempts_prune_sublist _ _ _ _
      · exact attempts_record_sublist hne _ _ _ _ _
  | releaseTokenMint user' reservedAt => exact attempts_releaseTokenMint_sublist _ _ _ _ _ _
  | checkLogin | recordFailure | recordSuccess | commit => exact List.Sublist.refl _

theorem limiterAfter_sublist (limits : MintLimits) {ip : Ip} {account : String}
    {ops : List (Duration × LimiterOp Ip U)} (h : ∀ e ∈ ops, Spares lower ip account e.2)
    (s : LimiterMaps Ip U × Instant) :
    (attempts (limiterAfter limits lower s ops).1.byIp ip).Sublist (attempts s.1.byIp ip) ∧
      (attempts (limiterAfter limits lower s ops).1.byAccount
        (normalizeAccount lower account)).Sublist
          (attempts s.1.byAccount (normalizeAccount lower account)) := by
  induction ops generalizing s with
  | nil => exact ⟨List.Sublist.refl _, List.Sublist.refl _⟩
  | cons e ops ih =>
      obtain ⟨hip, haccount⟩ := limiterStep_sublist limits
        (h e List.mem_cons_self) s.1 (s.2 + e.1)
      rw [limiterAfter_cons]
      obtain ⟨hip', haccount'⟩ := ih (fun e' he' => h e' (List.mem_cons_of_mem e he')) _
      exact ⟨hip'.trans hip, haccount'.trans haccount⟩

theorem limiterAfter_sublist_mint (limits : MintLimits) (lower : String → String) {user : U}
    {ops : List (Duration × LimiterOp Ip U)} (h : ∀ e ∈ ops, SparesUser user e.2)
    (s : LimiterMaps Ip U × Instant) :
    (attempts (limiterAfter limits lower s ops).1.byTokenMinter user).Sublist
      (attempts s.1.byTokenMinter user) := by
  induction ops generalizing s with
  | nil => exact List.Sublist.refl _
  | cons e ops ih =>
      rw [limiterAfter_cons]
      refine (ih (fun e' he' => h e' (List.mem_cons_of_mem e he')) _).trans ?_
      exact limiterStep_sublist_mint (h e List.mem_cons_self) s.1 (s.2 + e.1)

variable (limits lower)

def loginBuckets (s : LimiterMaps Ip U) (ip : Ip) (account : String) (now : Instant) :
    List Bucket :=
  [⟨limits.maxRequests, live limits.window now (attempts s.byIp ip)⟩,
    ⟨limits.maxAccountFailures,
      live limits.window now (attempts s.byAccount (normalizeAccount lower account))⟩]

def mintBucket (s : LimiterMaps Ip U) (user : U) (now : Instant) : Bucket :=
  ⟨limits.maxTokenMints, live limits.tokenMintWindow now (attempts s.byTokenMinter user)⟩

/-- If a login is refused, it is told to wait no longer than the window, and admitted
whenever it has waited that long, as long as no other failure of its client key or its
account is recorded. -/
def LoginTold (s : LimiterMaps Ip U) (ip : Ip) (account : String) (now : Instant) : Prop :=
  ∀ retry, (checkLogin limits.toLimits lower s.toLimiterState ip account now).2 = some retry →
    secondsToNanos (retryAfter retry) ≤ limits.window ∧
    ∀ (ops : List (Duration × LimiterOp Ip U)) (elapsed : Duration),
      (∀ e ∈ ops, Spares lower ip account e.2) →
      let later := limiterAfter limits lower
        (limiterStep limits lower s now (.checkLogin ip account), now) ops
      now + secondsToNanos (retryAfter retry) ≤ later.2 + elapsed →
        (checkLogin limits.toLimits lower later.1.toLimiterState ip account
          (later.2 + elapsed)).2 = none

def MintTold (s : LimiterMaps Ip U) (user : U) (now : Instant) : Prop :=
  ∀ retry, (reserveTokenMint limits s.byTokenMinter user now).2 = .error retry →
    secondsToNanos (retryAfter retry) ≤ limits.tokenMintWindow ∧
    ∀ (ops : List (Duration × LimiterOp Ip U)) (elapsed : Duration),
      (∀ e ∈ ops, SparesUser user e.2) →
      let later := limiterAfter limits lower
        (limiterStep limits lower s now (.reserveTokenMint user), now) ops
      now + secondsToNanos (retryAfter retry) ≤ later.2 + elapsed →
        (reserveTokenMint limits later.1.byTokenMinter user (later.2 + elapsed)).2.isOk

variable {limits lower} {ip : Ip} {account : String} {user : U}

omit [DecidableEq U] in
theorem checkLogin_eq_none_iff (hip : 0 < limits.maxRequests)
    (haccount : 0 < limits.maxAccountFailures) :
    (checkLogin limits.toLimits lower s.toLimiterState ip account now).2 = none ↔
      ∀ b ∈ loginBuckets limits lower s ip account now, b.entries.length < b.limit := by
  rw [checkLogin_eq_none, retries, Prod.mk.injEq, blockedFor_eq_none _ _ hip,
    blockedFor_eq_none _ _ haccount]
  simp only [LimiterState.pruned, attempts_prune, loginBuckets, List.forall_mem_cons,
    List.not_mem_nil, false_implies, implies_true, and_true]

omit [DecidableEq U] in
theorem refuses_of_checkLogin (hip : 0 < limits.maxRequests)
    (haccount : 0 < limits.maxAccountFailures) {retry : Duration}
    (h : (checkLogin limits.toLimits lower s.toLimiterState ip account now).2 = some retry) :
    Refuses limits.window now (loginBuckets limits lower s ip account now) retry := by
  have hwait : ∀ w,
      ((retries limits.toLimits lower s.toLimiterState ip account now).1 = some w ↔
        (Bucket.mk limits.maxRequests (live limits.window now (attempts s.byIp ip))).Wait
          limits.window now w) ∧
      ((retries limits.toLimits lower s.toLimiterState ip account now).2 = some w ↔
        (Bucket.mk limits.maxAccountFailures (live limits.window now
          (attempts s.byAccount (normalizeAccount lower account)))).Wait limits.window now w) := by
    intro w
    rw [retries, blockedFor_eq_some hip, blockedFor_eq_some haccount]
    simp only [LimiterState.pruned, attempts_prune, and_self]
  unfold checkLogin at h
  dsimp only at h
  generalize retries limits.toLimits lower s.toLimiterState ip account now = p at h hwait
  obtain ⟨x, y⟩ := p
  have hlongest : ∀ w, x = some w ∨ y = some w → w ≤ retry := by
    rintro w (rfl | rfl)
    · cases y with
      | none => exact (Option.some.inj h).le
      | some v => exact (le_max_left w v).trans (Option.some.inj h).le
    · cases x with
      | none => exact (Option.some.inj h).le
      | some v => exact (le_max_right v w).trans (Option.some.inj h).le
  constructor
  · have hsome : x = some retry ∨ y = some retry := by
      cases x with
      | none => cases y with
        | none => cases h
        | some v => exact Or.inr h
      | some u => cases y with
        | none => exact Or.inl h
        | some v =>
            obtain rfl : max u v = retry := Option.some.inj h
            rcases max_choice u v with hmax | hmax
            · exact Or.inl (congrArg some hmax.symm)
            · exact Or.inr (congrArg some hmax.symm)
    rcases hsome with hx | hy
    · exact ⟨_, List.mem_cons_self, (hwait retry).1.mp hx⟩
    · exact ⟨_, List.mem_cons_of_mem _ List.mem_cons_self, (hwait retry).2.mp hy⟩
  · intro b hb w hw
    rcases List.mem_pair.mp hb with rfl | rfl
    · exact hlongest w (Or.inl ((hwait w).1.mpr hw))
    · exact hlongest w (Or.inr ((hwait w).2.mpr hw))

theorem length_live_lt_of_sublist {window : Duration} {u : Instant} {limit : Nat}
    {entries entries' : List Instant} (hsub : entries'.Sublist entries)
    (h : (live window u entries).length < limit) : (live window u entries').length < limit :=
  lt_of_le_of_lt (hsub.filter _).length_le h

theorem loginTold_iff (hlimits : 0 < limits.maxRequests ∧ 0 < limits.maxAccountFailures)
    (hwindow : secondsToNanos 1 ≤ limits.window) (hs : MapsOrdered now s) :
    LoginTold limits lower s ip account now ↔
      InTime limits.window now (loginBuckets limits lower s ip account now) := by
  obtain ⟨hip, haccount⟩ := hlimits
  have hb' : ∀ b ∈ loginBuckets limits lower s ip account now,
      0 < b.limit ∧ b.entries.Pairwise (· ≤ ·) ∧ ∀ t ∈ b.entries, t ≤ now := by
    intro b hb
    rcases List.mem_pair.mp hb with rfl | rfl
    · exact ⟨hip, (hs.byIp.sorted ip).sublist List.filter_sublist,
        fun t ht => hs.byIp.past ip t (List.mem_of_mem_filter ht)⟩
    · exact ⟨haccount, (hs.byAccount.sorted _).sublist List.filter_sublist,
        fun t ht => hs.byAccount.past _ t (List.mem_of_mem_filter ht)⟩
  cases hcheck : (checkLogin limits.toLimits lower s.toLimiterState ip account now).2 with
  | none =>
      refine iff_of_true (fun retry hretry => ?_) fun b hb hfull => ?_
      · rw [hcheck] at hretry
        cases hretry
      · exact absurd ((checkLogin_eq_none_iff hip haccount).mp hcheck b hb) (not_lt.mpr hfull)
  | some retry =>
      have hrefuses := refuses_of_checkLogin hip haccount hcheck
      rw [hrefuses.inTime_iff]
      constructor
      · intro htold b hb hfull e he
        have hadmitted := (htold retry hcheck).2 [] (secondsToNanos (retryAfter retry))
          (fun _ he => (nomatch he)) le_rfl
        rw [checkLogin_eq_none_iff hip haccount] at hadmitted
        have hroom : (live limits.window (now + secondsToNanos (retryAfter retry))
            b.entries).length < b.limit := by
          simp only [loginBuckets, limiterAfter, List.foldl_nil, limiterStep, checkLogin,
            LimiterState.pruned, attempts_prune, List.forall_mem_cons] at hadmitted
          rcases List.mem_pair.mp hb with rfl | rfl
          · exact hadmitted.1
          · exact hadmitted.2.1
        obtain ⟨hlimit, hsorted, -⟩ := hb' b hb
        exact (length_live_lt_iff limits.window_pos hlimit hsorted _).mp hroom hfull e he
      · intro htime retry' hretry'
        obtain rfl : retry = retry' := Option.some.inj (hcheck.symm.trans hretry')
        refine ⟨?_, fun ops elapsed hops hlate => ?_⟩
        · obtain ⟨b, hb, hwait⟩ := hrefuses.some_wait
          exact seconds_retryAfter_le (hwait.le (hb' b hb).2.2) hwindow
        have hroom : ∀ b ∈ loginBuckets limits lower s ip account now,
            (live limits.window _ b.entries).length < b.limit := fun b hb =>
          (length_live_lt_iff limits.window_pos (hb' b hb).1 (hb' b hb).2.1 _).mpr
            fun hfull e he => (htime b hb hfull e he).trans hlate
        obtain ⟨hsub, hsub'⟩ := limiterAfter_sublist limits hops
          (limiterStep limits lower s now (.checkLogin ip account), now)
        simp only [limiterStep, checkLogin, LimiterState.pruned, attempts_prune] at hsub hsub'
        rw [checkLogin_eq_none_iff hip haccount]
        intro b hb
        rcases List.mem_pair.mp hb with rfl | rfl
        · exact length_live_lt_of_sublist hsub (hroom _ List.mem_cons_self)
        · exact length_live_lt_of_sublist hsub'
            (hroom _ (List.mem_cons_of_mem _ List.mem_cons_self))

omit [DecidableEq Ip] in
theorem reserveTokenMint_eq_error {retry : Duration} :
    (reserveTokenMint limits s.byTokenMinter user now).2 = .error retry ↔
      (mintBucket limits s user now).Wait limits.tokenMintWindow now retry := by
  rw [mintBucket, ← attempts_prune, ← blockedFor_eq_some limits.maxTokenMints_pos]
  simp only [reserveTokenMint]
  split
  · rename_i w hw
    rw [hw, Except.error.injEq, Option.some.injEq]
  · rename_i hnone
    simp [hnone]

omit [DecidableEq Ip] in
theorem reserveTokenMint_isOk :
    (reserveTokenMint limits s.byTokenMinter user now).2.isOk ↔
      (mintBucket limits s user now).entries.length < limits.maxTokenMints := by
  rw [mintBucket, ← attempts_prune,
    ← blockedFor_eq_none limits.tokenMintWindow now limits.maxTokenMints_pos]
  simp only [reserveTokenMint]
  split
  · rename_i w hw
    simp [hw, Except.isOk, Except.toBool]
  · rename_i hnone
    simp [hnone, Except.isOk, Except.toBool]

theorem mintTold_iff (hwindow : secondsToNanos 1 ≤ limits.tokenMintWindow)
    (hs : MapsOrdered now s) :
    MintTold limits lower s user now ↔
      InTime limits.tokenMintWindow now [mintBucket limits s user now] := by
  have hlimit := limits.maxTokenMints_pos
  have hpos : 0 < limits.tokenMintWindow := lt_of_lt_of_le (by decide) hwindow
  have hsorted : (mintBucket limits s user now).entries.Pairwise (· ≤ ·) :=
    (hs.byTokenMinter.sorted user).sublist List.filter_sublist
  have hpast : ∀ t ∈ (mintBucket limits s user now).entries, t ≤ now :=
    fun t ht => hs.byTokenMinter.past user t (List.mem_of_mem_filter ht)
  have hstep : ∀ retry, (reserveTokenMint limits s.byTokenMinter user now).2 = .error retry →
      attempts (limiterStep limits lower s now (.reserveTokenMint user)).byTokenMinter user =
        (mintBucket limits s user now).entries := by
    intro retry hretry
    rw [mintBucket, ← attempts_prune]
    simp only [limiterStep, reserveTokenMint] at hretry ⊢
    split at hretry
    · rfl
    · cases hretry
  constructor
  · intro htold b hb hfull e he
    obtain rfl := List.mem_singleton.mp hb
    obtain ⟨o, ho⟩ : ∃ o, (mintBucket limits s user now).entries.min? = some o := by
      refine Option.ne_none_iff_exists'.mp fun hnone => ?_
      have hlen : limits.maxTokenMints ≤ (mintBucket limits s user now).entries.length := hfull
      rw [List.min?_eq_none_iff.mp hnone, List.length_nil] at hlen
      omega
    have hwait : (mintBucket limits s user now).Wait limits.tokenMintWindow now
        (o + limits.tokenMintWindow - now) := ⟨hfull, o, ho, rfl⟩
    refine ⟨_, List.mem_cons_self, _, hwait, ?_⟩
    have hretry := reserveTokenMint_eq_error.mpr hwait
    have hadmitted := (htold _ hretry).2 [] _ (fun _ he => absurd he List.not_mem_nil) le_rfl
    rw [reserveTokenMint_isOk, mintBucket] at hadmitted
    dsimp only [limiterAfter, List.foldl_nil] at hadmitted
    rw [hstep _ hretry] at hadmitted
    exact (length_live_lt_iff hpos hlimit hsorted _).mp hadmitted hfull e he
  · intro htime retry hretry
    have hwait := reserveTokenMint_eq_error.mp hretry
    have hrefuses : Refuses limits.tokenMintWindow now [mintBucket limits s user now] retry := by
      refine ⟨⟨_, List.mem_cons_self, hwait⟩, fun b hb w hw => ?_⟩
      obtain rfl := List.mem_singleton.mp hb
      exact (Except.error.inj ((reserveTokenMint_eq_error.mpr hw).symm.trans hretry)).le
    refine ⟨seconds_retryAfter_le (hwait.le hpast) hwindow, fun ops elapsed hops hlate => ?_⟩
    have hroom := (length_live_lt_iff hpos hlimit hsorted _).mpr fun hfull e he =>
      (hrefuses.inTime_iff.mp htime _ List.mem_cons_self hfull e he).trans hlate
    have hsub := limiterAfter_sublist_mint limits lower hops
      (limiterStep limits lower s now (.reserveTokenMint user), now)
    rw [hstep _ hretry] at hsub
    rw [reserveTokenMint_isOk]
    exact length_live_lt_of_sublist hsub hroom

end Limiter

/-- In every reachable state, a refused login is told to wait long enough exactly when
the entry that has to leave each full bucket leaves it within the wait of an oldest
entry, cut to whole seconds; and so is a refused mint. -/
theorem told_iff {Ip U : Type} [DecidableEq Ip] [DecidableEq U] (lower : String → String)
    (ops : List (Duration × LimiterOp Ip U)) (elapsed : Duration) (ip : Ip) (account : String)
    (user : U) :
    let limits := MintLimits.new
    let s := limiterRun limits lower ops
    let now := s.2 + elapsed
    (LoginTold limits lower s.1 ip account now ↔
      InTime limits.window now (loginBuckets limits lower s.1 ip account now)) ∧
    (MintTold limits lower s.1 user now ↔
      InTime limits.tokenMintWindow now [mintBucket limits s.1 user now]) := by
  intro limits s now
  have hs : MapsOrdered now s.1 :=
    (mapsOrdered_limiterRun ops).tick (Nat.le_add_right _ elapsed)
  exact ⟨loginTold_iff (by decide) (by decide) hs, mintTold_iff (by decide) hs⟩

def failures (elapsed : Duration) (n : Nat) : List (Duration × LimiterOp Nat Nat) :=
  (elapsed, .recordFailure 0 "ana") :: List.replicate n (0, .recordFailure 0 "ana")

def mints (elapsed : Duration) (n : Nat) : List (Duration × LimiterOp Nat Nat) :=
  (elapsed, .reserveTokenMint 0) :: List.replicate n (0, .reserveTokenMint 0)

def halfSecond : Duration :=
  500_000_000

set_option maxRecDepth 8000 in
/-- A wait of 899.5 seconds is told as 899; a wait that is a whole number of seconds is
too short for an account with a sixth failure one second after the first; and the wait
of a mint is cut as well. -/
theorem not_told :
    ¬ LoginTold MintLimits.new id (limiterRun MintLimits.new id (failures halfSecond 4)).1 0 "ana"
        (secondsToNanos 1) ∧
    ¬ LoginTold MintLimits.new id
        (limiterRun MintLimits.new id
          (failures (secondsToNanos 1) 0 ++ failures (secondsToNanos 1) 4)).1 0 "ana"
        (secondsToNanos 3) ∧
    ¬ MintTold MintLimits.new id (limiterRun MintLimits.new id (mints halfSecond 9)).1 0
        (secondsToNanos 1) := by
  refine ⟨fun h => ?_, fun h => ?_, fun h => ?_⟩
  · have hadmitted := (h 899_500_000_000 (by decide)).2 [] (secondsToNanos 899)
      (fun _ he => (nomatch he)) (by decide)
    exact absurd hadmitted (by decide)
  · have hadmitted := (h 898_000_000_000 (by decide)).2 [] (secondsToNanos 898)
      (fun _ he => (nomatch he)) (by decide)
    exact absurd hadmitted (by decide)
  · have hadmitted := (h 3599_500_000_000 (by rfl)).2 [] (secondsToNanos 3599)
      (fun _ he => (nomatch he)) (by decide)
    exact absurd hadmitted (by decide)

end PersonalDashboard.RetryAfter
