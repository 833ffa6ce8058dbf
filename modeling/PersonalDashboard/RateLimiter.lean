import Mathlib.Data.List.AList
import Mathlib.Data.List.MinMax
import PersonalDashboard.Validation

/-! The login rate limiter: failed attempts by client key and by account. -/

set_option autoImplicit false

namespace PersonalDashboard.RateLimiter

open PersonalDashboard.Validation

/-- Nanoseconds of the monotonic clock. -/
abbrev Instant := Nat

abbrev Duration := Nat

/-- The recorded instants of every key. -/
abbrev Attempts (K : Type) := AList fun _ : K => List Instant

section Attempts

variable {K : Type}

/-- The attempts that are younger than the window. -/
def live (window : Duration) (now : Instant) (entries : List Instant) : List Instant :=
  entries.filter fun t => now - t < window

theorem live_live (window : Duration) (now : Instant) (entries : List Instant) :
    live window now (live window now entries) = live window now entries := by
  simp [live]

def retainLive (window : Duration) (now : Instant) (e : Σ _ : K, List Instant) :
    Option (Σ _ : K, List Instant) :=
  if (live window now e.2).isEmpty then none else some ⟨e.1, live window now e.2⟩

theorem retainLive_eq_some {window : Duration} {now : Instant} {e e' : Σ _ : K, List Instant} :
    retainLive window now e = some e' ↔
      live window now e.2 ≠ [] ∧ e' = ⟨e.1, live window now e.2⟩ := by
  unfold retainLive
  split
  · rename_i hempty
    simp [List.isEmpty_iff.mp hempty]
  · rename_i hlive
    rw [List.isEmpty_iff] at hlive
    simp only [hlive, Option.some.injEq, ne_eq, not_false_eq_true, true_and]
    exact eq_comm

theorem keys_filterMap_retainLive (window : Duration) (now : Instant)
    (entries : List (Σ _ : K, List Instant)) :
    (entries.filterMap (retainLive window now)).keys.Sublist entries.keys := by
  induction entries with
  | nil => exact List.Sublist.slnil
  | cons e entries ih =>
      cases he : retainLive window now e with
      | none =>
          rw [List.filterMap_cons_none he]
          exact ih.cons e.1
      | some e' =>
          obtain ⟨-, rfl⟩ := retainLive_eq_some.mp he
          rw [List.filterMap_cons_some he]
          exact ih.cons_cons e.1

/-- Drop attempts outside the window and any key left empty. -/
def prune (window : Duration) (now : Instant) (map : Attempts K) : Attempts K where
  entries := map.entries.filterMap (retainLive window now)
  nodupKeys := map.keys_nodup.sublist (keys_filterMap_retainLive window now map.entries)

theorem keys_prune_subset (window : Duration) (now : Instant) (map : Attempts K) :
    (prune window now map).keys ⊆ map.keys :=
  (keys_filterMap_retainLive window now map.entries).subset

variable [DecidableEq K]

def attempts (map : Attempts K) (key : K) : List Instant :=
  (map.lookup key).getD []

theorem attempts_eq_of_mem {map : Attempts K} {key : K} {entries : List Instant}
    (h : ⟨key, entries⟩ ∈ map.entries) : attempts map key = entries := by
  rw [attempts, AList.mem_lookup_iff.mpr h, Option.getD_some]

theorem attempts_eq_nil {map : Attempts K} {key : K} (h : key ∉ map) : attempts map key = [] := by
  rw [attempts, AList.lookup_eq_none.mpr h, Option.getD_none]

theorem attempts_prune (window : Duration) (now : Instant) (map : Attempts K) (key : K) :
    attempts (prune window now map) key = live window now (attempts map key) := by
  cases hpruned : (prune window now map).lookup key with
  | some entries =>
      obtain ⟨e, hmem, he⟩ := List.mem_filterMap.mp (AList.mem_lookup_iff.mp hpruned)
      obtain ⟨-, heq⟩ := retainLive_eq_some.mp he
      cases heq
      rw [attempts, hpruned, attempts_eq_of_mem hmem, Option.getD_some]
  | none =>
      rw [attempts, hpruned, Option.getD_none]
      cases hlookup : map.lookup key with
      | none => rw [attempts_eq_nil (AList.lookup_eq_none.mp hlookup)]; rfl
      | some entries =>
          have hmem := AList.mem_lookup_iff.mp hlookup
          rw [attempts_eq_of_mem hmem]
          by_contra hne
          have hkept : ⟨key, live window now entries⟩ ∈ (prune window now map).entries :=
            List.mem_filterMap.mpr ⟨_, hmem, retainLive_eq_some.mpr ⟨Ne.symm hne, rfl⟩⟩
          rw [AList.mem_lookup_iff.mpr hkept] at hpruned
          cases hpruned

/-- Remaining lockout for one bucket, or `none` when it still has room. -/
def blockedFor (entries : Option (List Instant)) (limit : Nat) (window : Duration)
    (now : Instant) : Option Duration :=
  match entries with
  | none => none
  | some entries =>
      if entries.length < limit then none else some (entries.min?.getD now + window - now)

theorem length_lt_of_blockedFor {map : Attempts K} {key : K} {limit : Nat} {window : Duration}
    {now : Instant} (hlimit : 0 < limit)
    (h : blockedFor (map.lookup key) limit window now = none) :
    (attempts map key).length < limit := by
  unfold attempts
  cases hlookup : map.lookup key with
  | none => exact hlimit
  | some entries =>
      rw [hlookup] at h
      simpa [blockedFor] using h

theorem le_length_of_blockedFor {map : Attempts K} {key : K} {limit : Nat} {window : Duration}
    {now : Instant} {retry : Duration}
    (h : blockedFor (map.lookup key) limit window now = some retry) :
    limit ≤ (attempts map key).length := by
  unfold attempts
  cases hlookup : map.lookup key with
  | none =>
      rw [hlookup] at h
      cases h
  | some entries =>
      rw [hlookup] at h
      rw [Option.getD_some]
      by_contra hlt
      rw [blockedFor, if_pos (not_le.mp hlt)] at h
      cases h

/-- The key whose last attempt is the oldest. -/
def leastRecent (entries : List (Σ _ : K, List Instant)) : Option K :=
  (entries.argmin fun e => (e.2.getLast? : WithBot Instant)).map Sigma.fst

/-- Bound the number of distinct keys: evict the least recently active key that
is not blocked, or the least recently active one when all are. -/
def boundKeys (map : Attempts K) (incoming : K) (keyLimit maxKeys : Nat) : Attempts K :=
  if incoming ∈ map ∨ map.keys.length < maxKeys then map
  else
    let unblocked := leastRecent (map.entries.filter fun e => e.2.length < keyLimit)
    match unblocked.or (leastRecent map.entries) with
    | some victim => map.erase victim
    | none => map

def push (map : Attempts K) (key : K) (now : Instant) : Attempts K :=
  map.insert key (attempts map key ++ [now])

theorem attempts_push_self (map : Attempts K) (key : K) (now : Instant) :
    attempts (push map key now) key = attempts map key ++ [now] := by
  rw [attempts, push, AList.lookup_insert, Option.getD_some]

theorem attempts_push_of_ne {key key' : K} (h : key' ≠ key) (map : Attempts K) (now : Instant) :
    attempts (push map key now) key' = attempts map key' := by
  rw [attempts, push, AList.lookup_insert_ne h, attempts]

theorem boundKeys_of_subset {map : Attempts K} {key : K} {keys : Finset K} {keyLimit maxKeys : Nat}
    (hkeys : ∀ k ∈ map.keys, k ∈ keys) (hkey : key ∈ keys) (hcard : keys.card ≤ maxKeys) :
    boundKeys map key keyLimit maxKeys = map := by
  unfold boundKeys
  refine if_pos ?_
  by_cases hmem : key ∈ map
  · exact Or.inl hmem
  · refine Or.inr ?_
    have hnodup : (key :: map.keys).Nodup :=
      List.nodup_cons.mpr ⟨mt AList.mem_keys.mpr hmem, map.keys_nodup⟩
    have hsub : (key :: map.keys).toFinset ⊆ keys := by
      intro k hk
      rcases List.mem_cons.mp (List.mem_toFinset.mp hk) with rfl | hk
      · exact hkey
      · exact hkeys k hk
    have hle := Finset.card_le_card hsub
    rw [List.toFinset_card_of_nodup hnodup, List.length_cons] at hle
    omega

end Attempts

structure Limits where
  maxRequests : Nat
  maxAccountFailures : Nat
  window : Duration
  maxKeys : Nat
  window_pos : 0 < window

def secondsToNanos (secs : Nat) : Duration :=
  secs * 1_000_000_000

def Limits.new : Limits where
  maxRequests := 10
  maxAccountFailures := 5
  window := secondsToNanos (15 * 60)
  maxKeys := 4096
  window_pos := by decide

structure LimiterState (Ip : Type) where
  byIp : Attempts Ip := ∅
  byAccount : Attempts String := ∅

section Login

variable {Ip : Type} [DecidableEq Ip]

/-- Trimmed and lowercased; `lower` is `str::to_lowercase`. -/
def normalizeAccount (lower : String → String) (email : String) : String :=
  lower (trim email)

variable (limits : Limits) (lower : String → String)

def LimiterState.pruned (state : LimiterState Ip) (now : Instant) : LimiterState Ip where
  byIp := prune limits.window now state.byIp
  byAccount := prune limits.window now state.byAccount

/-- Remaining lockout of a client key and of an account. -/
def retries (state : LimiterState Ip) (ip : Ip) (account : String) (now : Instant) :
    Option Duration × Option Duration :=
  (blockedFor ((state.pruned limits now).byIp.lookup ip) limits.maxRequests limits.window now,
    blockedFor ((state.pruned limits now).byAccount.lookup (normalizeAccount lower account))
      limits.maxAccountFailures limits.window now)

/-- Gate a login before any database or password work: `none` when both buckets
allow it. -/
def checkLogin (state : LimiterState Ip) (ip : Ip) (account : String) (now : Instant) :
    LimiterState Ip × Option Duration :=
  (state.pruned limits now,
    match retries limits lower state ip account now with
    | (none, none) => none
    | (some ipWindow, none) => some ipWindow
    | (none, some accountWindow) => some accountWindow
    | (some ipWindow, some accountWindow) => some (max ipWindow accountWindow))

def recordFailure (state : LimiterState Ip) (ip : Ip) (account : String) (now : Instant) :
    LimiterState Ip :=
  let pruned := state.pruned limits now
  let key := normalizeAccount lower account
  { byIp := push (boundKeys pruned.byIp ip limits.maxRequests limits.maxKeys) ip now
    byAccount :=
      push (boundKeys pruned.byAccount key limits.maxAccountFailures limits.maxKeys) key now }

def recordSuccess (state : LimiterState Ip) (account : String) (now : Instant) :
    LimiterState Ip :=
  { state with
    byAccount :=
      (prune limits.window now state.byAccount).erase (normalizeAccount lower account) }

theorem checkLogin_eq_none {state : LimiterState Ip} {ip : Ip} {account : String}
    {now : Instant} : (checkLogin limits lower state ip account now).2 = none ↔
      retries limits lower state ip account now = (none, none) := by
  unfold checkLogin
  dsimp only
  split <;> simp_all

end Login

end PersonalDashboard.RateLimiter
