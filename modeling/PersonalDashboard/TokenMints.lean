import Mathlib.Data.List.Perm.Basic
import PersonalDashboard.RateLimiter

/-! The budget of minted API tokens: every reservation takes one slot of its
user, and gives it back when it is dropped uncommitted. -/

set_option autoImplicit false

namespace PersonalDashboard.TokenMints

open PersonalDashboard.RateLimiter

/-- The limits of the limiter, with the mint budget of a user. -/
structure MintLimits extends Limits where
  maxTokenMints : Nat
  tokenMintWindow : Duration
  maxTokenMints_pos : 0 < maxTokenMints

def MintLimits.new : MintLimits where
  toLimits := Limits.new
  maxTokenMints := 10
  tokenMintWindow := secondsToNanos (60 * 60)
  maxTokenMints_pos := by decide

section Buckets

variable {U : Type} [DecidableEq U] (limits : MintLimits)

/-- Reserve one slot in the mint budget of a user, or tell how long it stays
full. -/
def reserveTokenMint (map : Attempts U) (user : U) (now : Instant) :
    Attempts U × Except Duration Instant :=
  let pruned := prune limits.tokenMintWindow now map
  match blockedFor (pruned.lookup user) limits.maxTokenMints limits.tokenMintWindow now with
  | some retry => (pruned, .error retry)
  | none =>
      (push (boundKeys pruned user limits.maxTokenMints limits.maxKeys) user now, .ok now)

/-- Release a reservation: remove one entry at the reserved instant, and the key
with its last entry. -/
def releaseTokenMint (map : Attempts U) (user : U) (reservedAt now : Instant) : Attempts U :=
  let pruned := prune limits.tokenMintWindow now map
  match pruned.lookup user with
  | none => pruned
  | some entries =>
      if (entries.erase reservedAt).isEmpty then pruned.erase user
      else pruned.insert user (entries.erase reservedAt)

/-- The entries of a user that are younger than the window. -/
def slots (map : Attempts U) (user : U) (now : Instant) : List Instant :=
  live limits.tokenMintWindow now (attempts map user)

theorem attempts_releaseTokenMint_self (map : Attempts U) (user : U) (reservedAt now : Instant) :
    attempts (releaseTokenMint limits map user reservedAt now) user =
      (slots limits map user now).erase reservedAt := by
  rw [slots, ← attempts_prune]
  simp only [releaseTokenMint]
  split
  · rename_i hnone
    rw [attempts, hnone, Option.getD_none, List.erase_nil]
  · rename_i entries hsome
    have hentries : attempts (prune limits.tokenMintWindow now map) user = entries := by
      rw [attempts, hsome, Option.getD_some]
    rw [hentries]
    split
    · rename_i hempty
      rw [attempts, AList.lookup_erase, Option.getD_none, List.isEmpty_iff.mp hempty]
    · rw [attempts, AList.lookup_insert, Option.getD_some]

theorem attempts_releaseTokenMint_of_ne {user user' : U} (h : user' ≠ user) (map : Attempts U)
    (reservedAt now : Instant) :
    attempts (releaseTokenMint limits map user reservedAt now) user' =
      slots limits map user' now := by
  rw [slots, ← attempts_prune]
  simp only [releaseTokenMint]
  split
  · rfl
  split
  · rw [attempts, AList.lookup_erase_ne h, attempts]
  · rw [attempts, AList.lookup_insert_ne h, attempts]

theorem keys_releaseTokenMint_subset (map : Attempts U) (user : U) (reservedAt now : Instant) :
    (releaseTokenMint limits map user reservedAt now).keys ⊆ map.keys := by
  have hpruned := keys_prune_subset limits.tokenMintWindow now map
  simp only [releaseTokenMint]
  split
  · exact hpruned
  rename_i entries hsome
  have huser : user ∈ (prune limits.tokenMintWindow now map).keys :=
    AList.mem_keys.mp (AList.lookup_isSome.mp (by rw [hsome, Option.isSome_some]))
  split
  · rw [AList.keys_erase]
    exact List.Subset.trans List.erase_subset hpruned
  · rw [AList.keys_insert]
    refine List.cons_subset.mpr ⟨hpruned huser, ?_⟩
    exact List.Subset.trans List.erase_subset hpruned

end Buckets

/-- A reservation is held until it is committed or dropped. -/
inductive Status where
  | held
  | committed
  | dropped
  deriving DecidableEq, Repr

structure Reservation (U : Type) where
  user : U
  reservedAt : Instant
  status : Status

/-- The bucket of every user, the reservations granted so far, and the clock. -/
structure MintState (U : Type) where
  map : Attempts U := ∅
  reservations : List (Reservation U) := []
  clock : Instant := 0

/-- `commit` and `drop` name a reservation by its place among those granted. -/
inductive MintOp (U : Type) where
  | reserve (user : U)
  | commit (r : Nat)
  | drop (r : Nat)

section Runs

variable {U : Type} [DecidableEq U] (limits : MintLimits)

/-- One operation, some time after the last. A reservation that is no longer
held cannot be committed or dropped. -/
def mintStep (s : MintState U) (elapsed : Duration) : MintOp U → MintState U
  | .reserve user =>
      match reserveTokenMint limits s.map user (s.clock + elapsed) with
      | (map, .error _) => { s with map := map, clock := s.clock + elapsed }
      | (map, .ok now) =>
          { map := map, reservations := s.reservations ++ [⟨user, now, .held⟩]
            clock := s.clock + elapsed }
  | .commit r =>
      match s.reservations[r]? with
      | some ⟨user, t, .held⟩ =>
          { s with
            reservations := s.reservations.set r ⟨user, t, .committed⟩
            clock := s.clock + elapsed }
      | _ => { s with clock := s.clock + elapsed }
  | .drop r =>
      match s.reservations[r]? with
      | some ⟨user, t, .held⟩ =>
          { map := releaseTokenMint limits s.map user t (s.clock + elapsed)
            reservations := s.reservations.set r ⟨user, t, .dropped⟩
            clock := s.clock + elapsed }
      | _ => { s with clock := s.clock + elapsed }

def mintRun (s : MintState U) (ops : List (Duration × MintOp U)) : MintState U :=
  ops.foldl (fun s e => mintStep limits s e.1 e.2) s

/-- The instants of a user's reservations that were not dropped. -/
def granted (user : U) (rs : List (Reservation U)) : List Instant :=
  (rs.filter fun r => r.user = user ∧ r.status ≠ .dropped).map Reservation.reservedAt

/-- Those of them that lie inside the window. -/
def grantedSlots (user : U) (rs : List (Reservation U)) (now : Instant) : List Instant :=
  live limits.tokenMintWindow now (granted user rs)

def MintOp.subject (rs : List (Reservation U)) : MintOp U → Option U
  | .reserve user => some user
  | .commit r | .drop r => rs[r]?.map Reservation.user

def MintOp.Within (users : Finset U) : MintOp U → Prop
  | .reserve user => user ∈ users
  | .commit _ | .drop _ => True

instance (users : Finset U) : (op : MintOp U) → Decidable (op.Within users)
  | .reserve user => inferInstanceAs (Decidable (user ∈ users))
  | .commit _ | .drop _ => inferInstanceAs (Decidable True)

def Reservation.countsFor (user : U) (t : Instant) (r : Reservation U) : Bool :=
  r.user = user ∧ r.status ≠ .dropped ∧ r.reservedAt = t

theorem count_granted (user : U) (t : Instant) (rs : List (Reservation U)) :
    (granted user rs).count t = rs.countP (Reservation.countsFor user t) := by
  rw [granted, List.count_eq_countP, List.countP_map, List.countP_filter]
  refine congrArg (fun p => rs.countP p) (funext fun r => Bool.eq_iff_iff.mpr ?_)
  simp only [Reservation.countsFor, Function.comp_apply, Bool.and_eq_true, beq_iff_eq,
    decide_eq_true_eq]
  exact ⟨fun ⟨ht, huser, hstatus⟩ => ⟨huser, hstatus, ht⟩,
    fun ⟨huser, hstatus, ht⟩ => ⟨ht, huser, hstatus⟩⟩

theorem count_granted_append (user : U) (t : Instant) (rs : List (Reservation U))
    (r : Reservation U) : (granted user (rs ++ [r])).count t =
      (granted user rs).count t + if r.countsFor user t then 1 else 0 := by
  rw [count_granted, count_granted, List.countP_append, List.countP_singleton]

theorem count_granted_set (user : U) (t : Instant) {rs : List (Reservation U)} {i : Nat}
    {r : Reservation U} (h : rs[i]? = some r) (r' : Reservation U) :
    (granted user (rs.set i r')).count t + (if r.countsFor user t then 1 else 0) =
      (granted user rs).count t + if r'.countsFor user t then 1 else 0 := by
  obtain ⟨hi, rfl⟩ := List.getElem?_eq_some_iff.mp h
  rw [count_granted, count_granted, List.countP_set hi]
  split
  · rename_i hcounts
    have hpos : 0 < rs.countP (Reservation.countsFor user t) :=
      List.countP_pos_iff.mpr ⟨_, List.getElem_mem hi, hcounts⟩
    omega
  · omega

theorem count_live (window : Duration) (now t : Instant) (entries : List Instant) :
    (live window now entries).count t = if now - t < window then entries.count t else 0 := by
  unfold live
  split
  · rename_i hlt
    exact List.count_filter (by simpa using hlt)
  · rename_i hge
    refine List.count_eq_zero.mpr fun hmem => hge ?_
    simpa using (List.mem_filter.mp hmem).2

theorem length_live_le (window : Duration) (now : Instant) (entries : List Instant) :
    (live window now entries).length ≤ entries.length :=
  List.length_filter_le _ _

/-- The entries of the buckets are the reservations that count, as far as they
are younger than the window. -/
structure Tracks (users : Finset U) (s : MintState U) : Prop where
  counts : ∀ user t, s.clock - t < limits.tokenMintWindow →
    (attempts s.map user).count t = (granted user s.reservations).count t
  bounded : ∀ user, (attempts s.map user).length ≤ limits.maxTokenMints
  keys : ∀ user ∈ s.map.keys, user ∈ users

variable {limits} {users : Finset U} {s : MintState U} {user : U}

theorem Tracks.perm (h : Tracks limits users s) (user : U) :
    (slots limits s.map user s.clock).Perm (grantedSlots limits user s.reservations s.clock) := by
  refine List.perm_iff_count.mpr fun t => ?_
  rw [slots, grantedSlots, count_live, count_live]
  split
  · exact h.counts user t ‹_›
  · rfl

theorem sub_lt_of_add_sub_lt {clock elapsed t window : Nat} (h : clock + elapsed - t < window) :
    clock - t < window := by
  omega

theorem Tracks.tick (h : Tracks limits users s) (elapsed : Duration) :
    Tracks limits users { s with clock := s.clock + elapsed } where
  counts user t ht := h.counts user t (sub_lt_of_add_sub_lt ht)
  bounded := h.bounded
  keys := h.keys

theorem tracks_start : Tracks limits users {} where
  counts user t _ := rfl
  bounded user := Nat.zero_le _
  keys user huser := by cases huser

theorem Tracks.prune (h : Tracks limits users s) :
    Tracks limits users { s with map := prune limits.tokenMintWindow s.clock s.map } where
  counts user t ht := by
    rw [attempts_prune, count_live, if_pos ht]
    exact h.counts user t ht
  bounded user := by
    rw [attempts_prune]
    exact (length_live_le _ _ _).trans (h.bounded user)
  keys user huser := h.keys user (keys_prune_subset _ _ _ huser)

theorem Tracks.push (h : Tracks limits users s) (huser : user ∈ users)
    (hroom : (attempts s.map user).length < limits.maxTokenMints) :
    Tracks limits users { s with
      map := push s.map user s.clock
      reservations := s.reservations ++ [⟨user, s.clock, .held⟩] } where
  counts user' t ht := by
    have hcount := h.counts user' t ht
    rw [count_granted_append]
    by_cases hne : user' = user
    · subst hne
      rw [attempts_push_self, List.count_append, hcount]
      simp [Reservation.countsFor, List.count_singleton]
    · rw [attempts_push_of_ne hne, hcount]
      simp [Reservation.countsFor, Ne.symm hne]
  bounded user' := by
    by_cases hne : user' = user
    · subst hne
      rw [attempts_push_self, List.length_append]
      exact hroom
    · rw [attempts_push_of_ne hne]
      exact h.bounded user'
  keys user' huser' := by
    rw [RateLimiter.push, AList.keys_insert] at huser'
    rcases List.mem_cons.mp huser' with rfl | hmem
    · exact huser
    · exact h.keys user' (List.mem_of_mem_erase hmem)

theorem Tracks.commit (h : Tracks limits users s) {r : Nat} {t : Instant}
    (hr : s.reservations[r]? = some ⟨user, t, .held⟩) :
    Tracks limits users
      { s with reservations := s.reservations.set r ⟨user, t, .committed⟩ } where
  counts user' t' ht := by
    have hset := count_granted_set user' t' hr ⟨user, t, .committed⟩
    have hsame : Reservation.countsFor user' t' ⟨user, t, .committed⟩ =
        Reservation.countsFor user' t' ⟨user, t, .held⟩ := by
      simp [Reservation.countsFor]
    rw [hsame] at hset
    rw [h.counts user' t' ht]
    exact (Nat.add_right_cancel hset).symm
  bounded := h.bounded
  keys := h.keys

theorem Tracks.drop (h : Tracks limits users s) {r : Nat} {t : Instant}
    (hr : s.reservations[r]? = some ⟨user, t, .held⟩) :
    Tracks limits users { s with
      map := releaseTokenMint limits s.map user t s.clock
      reservations := s.reservations.set r ⟨user, t, .dropped⟩ } where
  counts user' t' ht := by
    have hcount := h.counts user' t' ht
    have hset := count_granted_set user' t' hr ⟨user, t, .dropped⟩
    have hgone : Reservation.countsFor user' t' ⟨user, t, .dropped⟩ = false := by
      simp [Reservation.countsFor]
    rw [hgone, if_neg Bool.false_ne_true, Nat.add_zero] at hset
    by_cases hne : user' = user
    · subst hne
      rw [attempts_releaseTokenMint_self, List.count_erase, slots, count_live, if_pos ht, hcount,
        ← hset]
      simp only [Reservation.countsFor, true_and, ne_eq, reduceCtorEq, not_false_eq_true,
        decide_eq_true_eq, beq_iff_eq]
      exact Nat.add_sub_cancel _ _
    · rw [attempts_releaseTokenMint_of_ne limits hne, slots, count_live, if_pos ht, hcount, ← hset]
      simp [Reservation.countsFor, Ne.symm hne]
  bounded user' := by
    by_cases hne : user' = user
    · subst hne
      rw [attempts_releaseTokenMint_self]
      exact (List.length_erase_le).trans ((length_live_le _ _ _).trans (h.bounded user'))
    · rw [attempts_releaseTokenMint_of_ne limits hne]
      exact (length_live_le _ _ _).trans (h.bounded user')
  keys user' huser' := h.keys user' (keys_releaseTokenMint_subset limits _ _ _ _ huser')

theorem reserveTokenMint_cases (limits : MintLimits) (now : Instant) {map : Attempts U} {user : U}
    (hkeys : ∀ u ∈ map.keys, u ∈ users) (huser : user ∈ users)
    (hfit : users.card ≤ limits.maxKeys) :
    (∃ retry, reserveTokenMint limits map user now =
        (prune limits.tokenMintWindow now map, .error retry) ∧
      limits.maxTokenMints ≤ (slots limits map user now).length) ∨
    (reserveTokenMint limits map user now =
        (push (prune limits.tokenMintWindow now map) user now, .ok now) ∧
      (slots limits map user now).length < limits.maxTokenMints) := by
  have hslots : slots limits map user now =
      attempts (prune limits.tokenMintWindow now map) user := (attempts_prune _ _ _ _).symm
  have hbound : boundKeys (prune limits.tokenMintWindow now map) user limits.maxTokenMints
      limits.maxKeys = prune limits.tokenMintWindow now map :=
    boundKeys_of_subset (fun u hu => hkeys u (keys_prune_subset _ _ _ hu)) huser hfit
  rw [hslots]
  cases hblocked : blockedFor ((prune limits.tokenMintWindow now map).lookup user)
      limits.maxTokenMints limits.tokenMintWindow now with
  | none =>
      refine Or.inr ⟨?_, length_lt_of_blockedFor limits.maxTokenMints_pos hblocked⟩
      simp only [reserveTokenMint, hblocked, hbound]
  | some retry =>
      refine Or.inl ⟨retry, by simp only [reserveTokenMint, hblocked], ?_⟩
      exact le_length_of_blockedFor hblocked

theorem Tracks.step (h : Tracks limits users s) (hfit : users.card ≤ limits.maxKeys)
    (elapsed : Duration) {op : MintOp U} (hop : op.Within users) :
    Tracks limits users (mintStep limits s elapsed op) := by
  have htick := h.tick elapsed
  cases op with
  | reserve user =>
      rcases reserveTokenMint_cases limits (s.clock + elapsed) h.keys hop hfit with
        ⟨retry, heq, -⟩ | ⟨heq, hroom⟩
      · simp only [mintStep, heq]
        exact htick.prune
      · simp only [mintStep, heq]
        refine htick.prune.push hop ?_
        rwa [attempts_prune]
  | commit r =>
      simp only [mintStep]
      split
      · exact htick.commit ‹_›
      · exact htick
  | drop r =>
      simp only [mintStep]
      split
      · exact htick.drop ‹_›
      · exact htick

theorem Tracks.run (h : Tracks limits users s) (hfit : users.card ≤ limits.maxKeys)
    {ops : List (Duration × MintOp U)} (hops : ∀ e ∈ ops, e.2.Within users) :
    Tracks limits users (mintRun limits s ops) := by
  induction ops generalizing s with
  | nil => exact h
  | cons e ops ih =>
      exact ih (h.step hfit e.1 (hops e List.mem_cons_self))
        fun e' he' => hops e' (List.mem_cons_of_mem _ he')

/-- A refused reservation finds the budget used up; a drop gives back one slot,
if it is still inside the window; a commit gives back none; and nobody else's
slots change. -/
structure Fair (limits : MintLimits) (s s' : MintState U) (op : MintOp U) : Prop where
  refused : ∀ user retry, op = .reserve user →
    (reserveTokenMint limits s.map user s'.clock).2 = .error retry →
    limits.maxTokenMints ≤ (grantedSlots limits user s.reservations s'.clock).length
  dropped : ∀ r user t, op = .drop r → s.reservations[r]? = some ⟨user, t, .held⟩ →
    (slots limits s'.map user s'.clock).length +
        (if s'.clock - t < limits.tokenMintWindow then 1 else 0) =
      (slots limits s.map user s'.clock).length
  committed : ∀ r, op = .commit r → s'.map = s.map
  others : ∀ user, op.subject s.reservations ≠ some user →
    slots limits s'.map user s'.clock = slots limits s.map user s'.clock

theorem mintStep_clock (s : MintState U) (elapsed : Duration) (op : MintOp U) :
    (mintStep limits s elapsed op).clock = s.clock + elapsed := by
  cases op with
  | reserve user =>
      simp only [mintStep]
      split <;> rfl
  | commit r =>
      simp only [mintStep]
      split <;> rfl
  | drop r =>
      simp only [mintStep]
      split <;> rfl

theorem slots_releaseTokenMint_of_ne {user' : U} (h : user' ≠ user) (map : Attempts U)
    (reservedAt now : Instant) :
    slots limits (releaseTokenMint limits map user reservedAt now) user' now =
      slots limits map user' now := by
  rw [slots, attempts_releaseTokenMint_of_ne limits h, slots, live_live]

theorem slots_releaseTokenMint_self (map : Attempts U) (user : U) (reservedAt now : Instant) :
    slots limits (releaseTokenMint limits map user reservedAt now) user now =
      (slots limits map user now).erase reservedAt := by
  rw [slots, attempts_releaseTokenMint_self]
  refine List.filter_eq_self.mpr fun t ht => ?_
  exact (List.mem_filter.mp (List.mem_of_mem_erase ht)).2

theorem Tracks.mem_slots_iff (h : Tracks limits users s) {r : Nat} {t : Instant}
    (hr : s.reservations[r]? = some ⟨user, t, .held⟩) :
    t ∈ slots limits s.map user s.clock ↔ s.clock - t < limits.tokenMintWindow := by
  have hcounts : 0 < (granted user s.reservations).count t := by
    rw [count_granted]
    exact List.countP_pos_iff.mpr ⟨_, List.mem_of_getElem? hr, by simp [Reservation.countsFor]⟩
  rw [← List.count_pos_iff, slots, count_live]
  split
  · rename_i hlt
    rw [h.counts user t hlt]
    exact iff_of_true hcounts hlt
  · exact iff_of_false (lt_irrefl 0) ‹_›

theorem slots_push_of_ne {user' : U} (h : user' ≠ user) (map : Attempts U) (now : Instant) :
    slots limits (push (prune limits.tokenMintWindow now map) user now) user' now =
      slots limits map user' now := by
  rw [slots, attempts_push_of_ne h, attempts_prune, slots, live_live]

theorem slots_prune (map : Attempts U) (user : U) (now : Instant) :
    slots limits (prune limits.tokenMintWindow now map) user now = slots limits map user now := by
  rw [slots, attempts_prune, slots, live_live]

theorem Tracks.fair_reserve (h : Tracks limits users s) (hfit : users.card ≤ limits.maxKeys)
    (elapsed : Duration) (huser : user ∈ users) :
    Fair limits s (mintStep limits s elapsed (.reserve user)) (.reserve user) := by
  have hperm := (h.tick elapsed).perm user
  have hcases := reserveTokenMint_cases limits (s.clock + elapsed) h.keys huser hfit
  refine ⟨fun user' retry heq herr => ?_, fun _ _ _ heq => (nomatch heq),
    fun _ heq => (nomatch heq), fun user' hne => ?_⟩
  · obtain rfl := MintOp.reserve.inj heq
    rw [mintStep_clock] at herr ⊢
    rcases hcases with ⟨retry', -, hfull⟩ | ⟨hok, -⟩
    · rw [← hperm.length_eq]
      exact hfull
    · rw [hok] at herr
      cases herr
  · rw [mintStep_clock]
    rcases hcases with ⟨retry', heq, -⟩ | ⟨heq, -⟩
    · simp only [mintStep, heq]
      exact slots_prune _ _ _
    · simp only [mintStep, heq]
      exact slots_push_of_ne (fun hsame => hne (congrArg some hsame.symm)) _ _

theorem fair_commit (s : MintState U) (elapsed : Duration) (r : Nat) :
    Fair limits s (mintStep limits s elapsed (.commit r)) (.commit r) := by
  have hmap : (mintStep limits s elapsed (.commit r)).map = s.map := by
    simp only [mintStep]
    split <;> rfl
  exact ⟨fun _ _ heq => (nomatch heq), fun _ _ _ heq => (nomatch heq), fun _ _ => hmap,
    fun _ _ => by rw [hmap]⟩

theorem Tracks.fair_drop (h : Tracks limits users s) (elapsed : Duration) (r : Nat) :
    Fair limits s (mintStep limits s elapsed (.drop r)) (.drop r) := by
  refine ⟨fun _ _ heq => (nomatch heq), fun r' user t heq hr => ?_, fun _ heq => (nomatch heq),
    fun user' hne => ?_⟩
  · obtain rfl := MintOp.drop.inj heq
    rw [mintStep_clock]
    simp only [mintStep, hr]
    rw [slots_releaseTokenMint_self, List.length_erase]
    have hmem : t ∈ slots limits s.map user (s.clock + elapsed) ↔
        s.clock + elapsed - t < limits.tokenMintWindow := (h.tick elapsed).mem_slots_iff hr
    by_cases hin : t ∈ slots limits s.map user (s.clock + elapsed)
    · rw [if_pos hin, if_pos (hmem.mp hin)]
      exact Nat.sub_add_cancel (List.length_pos_of_mem hin)
    · rw [if_neg hin, if_neg (mt hmem.mpr hin)]
      rfl
  · rw [mintStep_clock]
    simp only [mintStep]
    split
    · rename_i user t hr
      refine slots_releaseTokenMint_of_ne (fun hsame => hne ?_) _ _ _
      rw [MintOp.subject, hr, hsame]
      rfl
    · rfl

theorem Tracks.fair (h : Tracks limits users s) (hfit : users.card ≤ limits.maxKeys)
    (elapsed : Duration) {op : MintOp U} (hop : op.Within users) :
    Fair limits s (mintStep limits s elapsed op) op := by
  cases op with
  | reserve user => exact h.fair_reserve hfit elapsed hop
  | commit r => exact fair_commit s elapsed r
  | drop r => exact h.fair_drop elapsed r

/-- In every run that the keys of the limiter suffice for, the slots of a user
are its reservations inside the window that were not dropped, at most as many as
the budget allows, and the next operation is fair. -/
theorem slots_mintRun (limits : MintLimits) (users : Finset U)
    (hfit : users.card ≤ limits.maxKeys) (ops : List (Duration × MintOp U))
    (hops : ∀ e ∈ ops, e.2.Within users) :
    let s := mintRun limits {} ops
    (∀ user, (slots limits s.map user s.clock).Perm
        (grantedSlots limits user s.reservations s.clock) ∧
      (attempts s.map user).length ≤ limits.maxTokenMints) ∧
    ∀ elapsed op, op.Within users → Fair limits s (mintStep limits s elapsed op) op := by
  intro s
  have h : Tracks limits users s := tracks_start.run hfit hops
  exact ⟨fun user => ⟨h.perm user, h.bounded user⟩,
    fun elapsed op hop => h.fair hfit elapsed hop⟩

end Runs

def singleMint : MintLimits where
  toLimits := Limits.new
  maxTokenMints := 1
  tokenMintWindow := 60
  maxTokenMints_pos := by decide

def mintsInTurn : List (Duration × MintOp Nat) :=
  [(5, .reserve 7), (0, .drop 0), (0, .reserve 7), (3, .commit 1)]

theorem slots_mintRun_inTurn :
    (slots singleMint (mintRun singleMint {} mintsInTurn).map 7 8).Perm [5] ∧
      Fair singleMint (mintRun singleMint {} mintsInTurn)
        (mintStep singleMint (mintRun singleMint {} mintsInTurn) 1 (.reserve 7)) (.reserve 7) := by
  have h := slots_mintRun singleMint {7} (by decide) mintsInTurn (by decide)
  exact ⟨(h.1 7).1, h.2 1 (.reserve 7) (by decide)⟩

end PersonalDashboard.TokenMints
