import PersonalDashboard.TokenMints

/-! The memory of the rate limiter: none of its maps outgrows the key bound, and
a blocked key is only evicted when every key is blocked. -/

set_option autoImplicit false

namespace PersonalDashboard.LimiterMemory

open PersonalDashboard.RateLimiter
open PersonalDashboard.TokenMints

section Maps

variable {K : Type}

theorem leastRecent_eq_some {entries : List (Σ _ : K, List Instant)} {key : K}
    (h : leastRecent entries = some key) : ∃ attempts, ⟨key, attempts⟩ ∈ entries := by
  obtain ⟨e, he, rfl⟩ := Option.map_eq_some_iff.mp h
  exact ⟨e.2, List.argmin_mem he⟩

theorem leastRecent_eq_none {entries : List (Σ _ : K, List Instant)}
    (h : leastRecent entries = none) : entries = [] :=
  List.argmin_eq_none.mp (Option.map_eq_none_iff.mp h)

variable [DecidableEq K]

/-- A map of at most `maxKeys` keys, none of them without entries. -/
structure Bounded (maxKeys : Nat) (map : Attempts K) : Prop where
  size : map.keys.length ≤ maxKeys
  nonempty : ∀ key entries, map.lookup key = some entries → entries ≠ []

def Blocked (window : Duration) (limit : Nat) (now : Instant) (map : Attempts K) (key : K) :
    Prop :=
  limit ≤ (live window now (attempts map key)).length

/-- A blocked key is evicted only if every key is blocked. -/
def SafeEviction (window : Duration) (limit : Nat) (now : Instant) (before after : Attempts K) :
    Prop :=
  ∀ key ∈ prune window now before, key ∉ after → Blocked window limit now before key →
    ∀ key' ∈ prune window now before, Blocked window limit now before key'

variable {maxKeys : Nat} {map : Attempts K}

theorem bounded_empty : Bounded maxKeys (∅ : Attempts K) where
  size := Nat.zero_le _
  nonempty key entries h := by cases h

theorem Bounded.prune (h : Bounded maxKeys map) (window : Duration) (now : Instant) :
    Bounded maxKeys (prune window now map) where
  size := (keys_filterMap_retainLive window now map.entries).length_le.trans h.size
  nonempty key entries hlookup := by
    obtain ⟨e, -, he⟩ := List.mem_filterMap.mp (AList.mem_lookup_iff.mp hlookup)
    obtain ⟨hlive, heq⟩ := retainLive_eq_some.mp he
    cases heq
    exact hlive

theorem Bounded.erase (h : Bounded maxKeys map) (key : K) : Bounded maxKeys (map.erase key) where
  size := by
    rw [AList.keys_erase]
    exact (List.erase_sublist).length_le.trans h.size
  nonempty key' entries hlookup := by
    by_cases hne : key' = key
    · subst hne
      rw [AList.lookup_erase] at hlookup
      cases hlookup
    · rw [AList.lookup_erase_ne hne] at hlookup
      exact h.nonempty key' entries hlookup

theorem length_keys_insert (map : Attempts K) (key : K) (entries : List Instant) :
    (map.insert key entries).keys.length =
      if key ∈ map then map.keys.length else map.keys.length + 1 := by
  rw [AList.keys_insert, List.length_cons, List.length_erase]
  by_cases hmem : key ∈ map
  · rw [if_pos (AList.mem_keys.mp hmem), if_pos hmem]
    exact Nat.sub_add_cancel (List.length_pos_of_mem (AList.mem_keys.mp hmem))
  · rw [if_neg (mt AList.mem_keys.mpr hmem), if_neg hmem]

theorem Bounded.insert (h : Bounded maxKeys map) {key : K} {entries : List Instant}
    (hroom : key ∈ map ∨ map.keys.length < maxKeys) (hentries : entries ≠ []) :
    Bounded maxKeys (map.insert key entries) where
  size := by
    rw [length_keys_insert]
    have hsize := h.size
    split
    · exact hsize
    · exact hroom.resolve_left ‹_›
  nonempty key' entries' hlookup := by
    by_cases hne : key' = key
    · subst hne
      rw [AList.lookup_insert] at hlookup
      exact Option.some.inj hlookup ▸ hentries
    · rw [AList.lookup_insert_ne hne] at hlookup
      exact h.nonempty key' entries' hlookup

/-- Either there is room for the key, or one other key is evicted, a blocked one
only if all are. -/
theorem boundKeys_cases (map : Attempts K) (incoming : K) (limit : Nat) {maxKeys : Nat}
    (hpos : 0 < maxKeys) :
    (boundKeys map incoming limit maxKeys = map ∧
      (incoming ∈ map ∨ map.keys.length < maxKeys)) ∨
    ∃ victim ∈ map, boundKeys map incoming limit maxKeys = map.erase victim ∧
      (limit ≤ (attempts map victim).length → ∀ key ∈ map, limit ≤ (attempts map key).length) := by
  unfold boundKeys
  by_cases hroom : incoming ∈ map ∨ map.keys.length < maxKeys
  · exact Or.inl ⟨if_pos hroom, hroom⟩
  refine Or.inr ?_
  rw [if_neg hroom]
  cases hunblocked : leastRecent (map.entries.filter fun e => e.2.length < limit) with
  | some victim =>
      obtain ⟨entries, hmem⟩ := leastRecent_eq_some hunblocked
      obtain ⟨hmem, hlt⟩ := List.mem_filter.mp hmem
      refine ⟨victim, AList.mem_keys.mpr (List.mem_keys_of_mem hmem), rfl, fun hle => ?_⟩
      rw [attempts_eq_of_mem hmem] at hle
      exact absurd (of_decide_eq_true hlt) (not_lt.mpr hle)
  | none =>
      have hall := leastRecent_eq_none hunblocked
      cases hoverall : leastRecent map.entries with
      | none =>
          have hempty : map.keys = [] := congrArg List.keys (leastRecent_eq_none hoverall)
          rw [hempty] at hroom
          exact absurd (Or.inr hpos) hroom
      | some victim =>
          obtain ⟨entries, hmem⟩ := leastRecent_eq_some hoverall
          refine ⟨victim, AList.mem_keys.mpr (List.mem_keys_of_mem hmem), rfl, fun _ key hkey => ?_⟩
          obtain ⟨entries', hentries'⟩ := List.exists_of_mem_keys (AList.mem_keys.mp hkey)
          rw [attempts_eq_of_mem hentries']
          by_contra hlt
          have hfiltered : ⟨key, entries'⟩ ∈ map.entries.filter fun e => e.2.length < limit :=
            List.mem_filter.mpr ⟨hentries', decide_eq_true (not_le.mp hlt)⟩
          rw [hall] at hfiltered
          cases hfiltered

theorem Bounded.push (h : Bounded maxKeys map) (hpos : 0 < maxKeys) (key : K) (limit : Nat)
    (now : Instant) : Bounded maxKeys (push (boundKeys map key limit maxKeys) key now) := by
  have hentries : ∀ map : Attempts K, attempts map key ++ [now] ≠ [] :=
    fun _ => List.append_ne_nil_of_right_ne_nil _ (List.cons_ne_nil _ _)
  rcases boundKeys_cases map key limit hpos with ⟨heq, hroom⟩ | ⟨victim, hvictim, heq, -⟩
  · rw [heq]
    exact h.insert hroom (hentries map)
  · rw [heq]
    refine (h.erase victim).insert (Or.inr ?_) (hentries _)
    rw [AList.keys_erase, List.length_erase, if_pos (AList.mem_keys.mp hvictim)]
    have hcount := List.length_pos_of_mem (AList.mem_keys.mp hvictim)
    have hsize := h.size
    omega

theorem mem_push {key key' : K} (now : Instant) :
    key' ∈ push map key now ↔ key' = key ∨ key' ∈ map := by
  rw [RateLimiter.push, AList.mem_insert]

theorem safeEviction_push (hpos : 0 < maxKeys) (window : Duration) (limit : Nat) (now : Instant)
    (map : Attempts K) (key : K) :
    SafeEviction window limit now map
      (push (boundKeys (prune window now map) key limit maxKeys) key now) := by
  intro victim hvictim hgone hblocked key' hkey'
  have hlive : ∀ k, live window now (attempts map k) = attempts (prune window now map) k :=
    fun k => (attempts_prune window now map k).symm
  rw [Blocked, hlive] at hblocked ⊢
  rw [mem_push] at hgone
  obtain ⟨-, hgone⟩ := not_or.mp hgone
  rcases boundKeys_cases (prune window now map) key limit hpos with
    ⟨heq, -⟩ | ⟨evicted, hevicted, heq, hsafe⟩
  · rw [heq] at hgone
    exact absurd hvictim hgone
  · rw [heq, AList.mem_erase] at hgone
    have hsame : victim = evicted := by
      by_contra hne
      exact hgone ⟨hne, hvictim⟩
    subst hsame
    exact hsafe hblocked key' hkey'

end Maps

section Tokens

variable {U : Type} [DecidableEq U] (limits : MintLimits) {map : Attempts U}

theorem Bounded.reserveTokenMint (h : Bounded limits.maxKeys map) (hpos : 0 < limits.maxKeys)
    (user : U) (now : Instant) :
    Bounded limits.maxKeys (reserveTokenMint limits map user now).1 := by
  simp only [TokenMints.reserveTokenMint]
  split
  · exact h.prune _ _
  · exact (h.prune _ _).push hpos user _ now

theorem safeEviction_reserveTokenMint (hpos : 0 < limits.maxKeys) (map : Attempts U) (user : U)
    (now : Instant) : SafeEviction limits.tokenMintWindow limits.maxTokenMints now map
      (reserveTokenMint limits map user now).1 := by
  simp only [reserveTokenMint]
  split
  · exact fun key hkey hgone => absurd hkey hgone
  · exact safeEviction_push hpos _ _ _ _ _

theorem Bounded.releaseTokenMint (h : Bounded limits.maxKeys map) (user : U)
    (reservedAt now : Instant) :
    Bounded limits.maxKeys (releaseTokenMint limits map user reservedAt now) := by
  have hpruned := h.prune limits.tokenMintWindow now
  simp only [TokenMints.releaseTokenMint]
  split
  · exact hpruned
  rename_i entries hsome
  split
  · exact hpruned.erase user
  · rename_i hrest
    refine hpruned.insert (Or.inl (AList.lookup_isSome.mp ?_)) fun hempty => hrest ?_
    · rw [hsome, Option.isSome_some]
    · rw [hempty, List.isEmpty_nil]

end Tokens

structure LimiterMaps (Ip U : Type) extends LimiterState Ip where
  byTokenMinter : Attempts U := ∅

/-- Committing a reservation touches no map; dropping it uncommitted releases
it. -/
inductive LimiterOp (Ip U : Type) where
  | checkLogin (ip : Ip) (account : String)
  | recordFailure (ip : Ip) (account : String)
  | recordSuccess (account : String)
  | reserveTokenMint (user : U)
  | commit
  | releaseTokenMint (user : U) (reservedAt : Instant)

section Limiter

variable {Ip U : Type} [DecidableEq Ip] [DecidableEq U] (limits : MintLimits)
  (lower : String → String)

def limiterStep (s : LimiterMaps Ip U) (now : Instant) : LimiterOp Ip U → LimiterMaps Ip U
  | .checkLogin ip account =>
      { s with
        toLimiterState :=
          (checkLogin limits.toLimits lower s.toLimiterState ip account now).1 }
  | .recordFailure ip account =>
      { s with
        toLimiterState := recordFailure limits.toLimits lower s.toLimiterState ip account now }
  | .recordSuccess account =>
      { s with
        toLimiterState := recordSuccess limits.toLimits lower s.toLimiterState account now }
  | .reserveTokenMint user =>
      { s with byTokenMinter := (reserveTokenMint limits s.byTokenMinter user now).1 }
  | .commit => s
  | .releaseTokenMint user reservedAt =>
      { s with byTokenMinter := releaseTokenMint limits s.byTokenMinter user reservedAt now }

/-- The maps and the clock after some operations, each some time after the last. -/
def limiterRun (ops : List (Duration × LimiterOp Ip U)) : LimiterMaps Ip U × Instant :=
  ops.foldl (fun s e => (limiterStep limits lower s.1 (s.2 + e.1) e.2, s.2 + e.1)) ({}, 0)

structure Sized (s : LimiterMaps Ip U) : Prop where
  byIp : Bounded limits.maxKeys s.byIp
  byAccount : Bounded limits.maxKeys s.byAccount
  byTokenMinter : Bounded limits.maxKeys s.byTokenMinter

/-- In each of the maps, an operation evicts a blocked key only if every key is
blocked. A login that succeeds and a released reservation evict nothing: they
take back the entries of their own key. -/
structure EvictsSafely (s s' : LimiterMaps Ip U) (now : Instant) (op : LimiterOp Ip U) :
    Prop where
  byIp : SafeEviction limits.window limits.maxRequests now s.byIp s'.byIp
  byAccount : (∃ account, op = .recordSuccess account) ∨
    SafeEviction limits.window limits.maxAccountFailures now s.byAccount s'.byAccount
  byTokenMinter : (∃ user reservedAt, op = .releaseTokenMint user reservedAt) ∨
    SafeEviction limits.tokenMintWindow limits.maxTokenMints now s.byTokenMinter
      s'.byTokenMinter

variable {limits lower} {s : LimiterMaps Ip U} {now : Instant}

theorem Sized.step (h : Sized limits s) (hpos : 0 < limits.maxKeys) (now : Instant)
    (op : LimiterOp Ip U) : Sized limits (limiterStep limits lower s now op) := by
  cases op with
  | checkLogin ip account => exact ⟨h.byIp.prune _ _, h.byAccount.prune _ _, h.byTokenMinter⟩
  | recordFailure ip account =>
      exact ⟨(h.byIp.prune _ _).push hpos _ _ _, (h.byAccount.prune _ _).push hpos _ _ _,
        h.byTokenMinter⟩
  | recordSuccess account =>
      exact ⟨h.byIp, (h.byAccount.prune _ _).erase _, h.byTokenMinter⟩
  | reserveTokenMint user =>
      exact ⟨h.byIp, h.byAccount, h.byTokenMinter.reserveTokenMint limits hpos user now⟩
  | commit => exact h
  | releaseTokenMint user reservedAt =>
      exact ⟨h.byIp, h.byAccount, h.byTokenMinter.releaseTokenMint limits user reservedAt now⟩

theorem safeEviction_prune {K : Type} [DecidableEq K] (window : Duration) (limit : Nat)
    (now : Instant) (map : Attempts K) : SafeEviction window limit now map (prune window now map) :=
  fun _ hkey hgone => absurd hkey hgone

theorem safeEviction_self {K : Type} [DecidableEq K] (window : Duration) (limit : Nat)
    (now : Instant) (map : Attempts K) : SafeEviction window limit now map map :=
  fun _ hkey hgone => absurd
    (AList.mem_keys.mpr (keys_prune_subset window now map (AList.mem_keys.mp hkey))) hgone

theorem evictsSafely_limiterStep (hpos : 0 < limits.maxKeys) (s : LimiterMaps Ip U)
    (now : Instant) (op : LimiterOp Ip U) :
    EvictsSafely limits s (limiterStep limits lower s now op) now op := by
  cases op with
  | checkLogin ip account =>
      exact ⟨safeEviction_prune _ _ _ _, Or.inr (safeEviction_prune _ _ _ _),
        Or.inr (safeEviction_self _ _ _ _)⟩
  | recordFailure ip account =>
      exact ⟨safeEviction_push hpos _ _ _ _ _, Or.inr (safeEviction_push hpos _ _ _ _ _),
        Or.inr (safeEviction_self _ _ _ _)⟩
  | recordSuccess account =>
      exact ⟨safeEviction_self _ _ _ _, Or.inl ⟨account, rfl⟩, Or.inr (safeEviction_self _ _ _ _)⟩
  | reserveTokenMint user =>
      exact ⟨safeEviction_self _ _ _ _, Or.inr (safeEviction_self _ _ _ _),
        Or.inr (safeEviction_reserveTokenMint limits hpos _ user now)⟩
  | commit =>
      exact ⟨safeEviction_self _ _ _ _, Or.inr (safeEviction_self _ _ _ _),
        Or.inr (safeEviction_self _ _ _ _)⟩
  | releaseTokenMint user reservedAt =>
      exact ⟨safeEviction_self _ _ _ _, Or.inr (safeEviction_self _ _ _ _),
        Or.inl ⟨user, reservedAt, rfl⟩⟩

theorem sized_limiterRun (hpos : 0 < limits.maxKeys) (ops : List (Duration × LimiterOp Ip U)) :
    Sized limits (limiterRun limits lower ops).1 := by
  induction ops using List.reverseRecOn with
  | nil => exact ⟨bounded_empty, bounded_empty, bounded_empty⟩
  | append_singleton ops e ih =>
      rw [limiterRun, List.foldl_append]
      exact ih.step hpos _ e.2

end Limiter

/-- Whatever the operations so far, none of the maps outgrows the bound or keeps
a key without entries, and the next operation evicts a blocked key only if every
key of its map is blocked. -/
theorem bounded_limiterRun {Ip U : Type} [DecidableEq Ip] [DecidableEq U] (limits : MintLimits)
    (lower : String → String) (hpos : 0 < limits.maxKeys)
    (ops : List (Duration × LimiterOp Ip U)) :
    let s := limiterRun limits lower ops
    Sized limits s.1 ∧ ∀ elapsed op,
      EvictsSafely limits s.1 (limiterStep limits lower s.1 (s.2 + elapsed) op) (s.2 + elapsed)
        op := by
  intro s
  exact ⟨sized_limiterRun hpos ops,
    fun elapsed op => evictsSafely_limiterStep hpos s.1 (s.2 + elapsed) op⟩

def twoKeys : MintLimits where
  toLimits := { Limits.new with maxKeys := 2 }
  maxTokenMints := 1
  tokenMintWindow := 60
  maxTokenMints_pos := Nat.one_pos

def thirdMint : List (Duration × LimiterOp Nat Nat) :=
  [(1, .reserveTokenMint 1), (1, .reserveTokenMint 2), (1, .reserveTokenMint 3)]

theorem bounded_limiterRun_third :
    (limiterRun twoKeys id thirdMint).1.byTokenMinter.keys = [3, 2] ∧
      Sized twoKeys (limiterRun twoKeys id thirdMint).1 :=
  ⟨by decide, (bounded_limiterRun twoKeys id (by decide) thirdMint).1⟩

end PersonalDashboard.LimiterMemory
