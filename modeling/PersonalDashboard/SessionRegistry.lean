import Mathlib.Data.List.AList
import Mathlib.Data.List.Induction
import Mathlib.Algebra.Order.Ring.Rat
import Mathlib.Data.Nat.Cast.Order.Ring
import Mathlib.Order.Monotone.Defs

/-! The session registry of the MCP server: a bounded map of sessions that
expire when they are idle, over every sequence of calls. -/

set_option autoImplicit false

namespace PersonalDashboard.SessionRegistry

/-- A value that the registry closes. Its `close` may call back `close` of the
registry, with a session id. -/
class ClosableSession (T : Type) where
  onclose : T → Option String

structure Entry (T : Type) where
  value : T
  lastSeen : ℚ

/-- The bounds of a registry, and its clock: the milliseconds that its n-th
reading shows. -/
structure Settings where
  max : Nat
  ttlMs : ℚ
  now : Nat → ℚ

/-- A registry, with the number of clock readings so far, the values that were
stored, and those whose `close` was called, each with its id and the newest
first. The entries are in the reverse of the order of their insertion. -/
structure Registry (T : Type) where
  entries : AList fun _ : String => Entry T := ∅
  reads : Nat := 0
  stored : List (String × T) := []
  closed : List (String × T) := []

variable {T : Type}

theorem dlookup_kreplace (id id' : String) (e : Entry T) (l : List (Σ _ : String, Entry T)) :
    (l.kreplace id e).dlookup id' =
      if id' = id then (l.dlookup id).map fun _ => e else l.dlookup id' := by
  induction l with
  | nil => simp [List.kreplace]
  | cons x l ih =>
      obtain ⟨k, v⟩ := x
      by_cases hk : id = k
      · subst hk
        have hcons : List.kreplace id e (⟨id, v⟩ :: l) = ⟨id, e⟩ :: l :=
          List.lookmap_cons_some _ _ (dif_pos rfl)
        rw [hcons]
        by_cases hid : id' = id
        · rw [if_pos hid, hid, List.dlookup_cons_eq l, List.dlookup_cons_eq l id v]
          rfl
        · rw [if_neg hid, List.dlookup_cons_ne l ⟨id, e⟩ hid, List.dlookup_cons_ne l ⟨id, v⟩ hid]
      · have hcons : List.kreplace id e (⟨k, v⟩ :: l) = ⟨k, v⟩ :: List.kreplace id e l :=
          List.lookmap_cons_none _ _ (dif_neg hk)
        rw [hcons, List.dlookup_cons_ne l ⟨k, v⟩ hk]
        by_cases hid : id' = k
        · rw [if_neg fun h => hk (h.symm.trans hid), hid, List.dlookup_cons_eq l k v]
          exact List.dlookup_cons_eq (β := fun _ => Entry T) _ k v
        · rw [List.dlookup_cons_ne l ⟨k, v⟩ hid, ← ih]
          exact List.dlookup_cons_ne (β := fun _ => Entry T) _ ⟨k, v⟩ hid

theorem lookup_replace (m : AList fun _ : String => Entry T) (id id' : String) (e : Entry T) :
    (m.replace id e).lookup id' =
      if id' = id then (m.lookup id).map fun _ => e else m.lookup id' :=
  dlookup_kreplace id id' e m.entries

namespace Registry

def size (s : Registry T) : Nat :=
  s.entries.keys.length

/-- `this.entries.delete(id)`. -/
def delete (s : Registry T) (id : String) : Registry T :=
  { s with entries := s.entries.erase id }

def tick (s : Registry T) : Registry T :=
  { s with reads := s.reads + 1 }

theorem size_delete_lt {s : Registry T} {id : String} {e : Entry T}
    (h : s.entries.lookup id = some e) : (s.delete id).size < s.size := by
  have hmem : id ∈ s.entries.keys := AList.mem_keys.mp (AList.lookup_isSome.mp (by simp [h]))
  rw [size, size, delete, AList.keys_erase, List.length_erase_of_mem hmem]
  exact Nat.sub_lt (List.length_pos_of_mem hmem) Nat.one_pos

variable [ClosableSession T]

/-- The entry is deleted before its value is closed, so that a call back finds
it gone. -/
def close (s : Registry T) (id : String) : Registry T :=
  match _h : s.entries.lookup id with
  | none => s
  | some entry =>
      let s' := { s.delete id with closed := (id, entry.value) :: s.closed }
      match ClosableSession.onclose entry.value with
      | none => s'
      | some own => s'.close own
termination_by s.size
decreasing_by exact size_delete_lt _h

/-- `value.close()` of a value that was stored under an id. -/
def closeValue (s : Registry T) (id : String) (value : T) : Registry T :=
  let s' := { s with closed := (id, value) :: s.closed }
  match ClosableSession.onclose value with
  | none => s'
  | some own => s'.close own

variable (cfg : Settings)

/-- What `isExpired` finds at the next reading of the clock. -/
def isExpired (s : Registry T) (lastSeen : ℚ) : Bool :=
  cfg.ttlMs < cfg.now s.reads - lastSeen

def reap : List (Σ _ : String, Entry T) → Registry T → List String × Registry T
  | [], s => ([], s)
  | ⟨id, entry⟩ :: rest, s =>
      if s.isExpired cfg entry.lastSeen then
        let (ids, s') := reap rest ((s.tick.delete id).closeValue id entry.value)
        (id :: ids, s')
      else reap rest s.tick

def reapExpired (s : Registry T) : List String × Registry T :=
  reap cfg s.entries.entries.reverse s

def canOpen (s : Registry T) : Bool × Registry T :=
  let s' := (s.reapExpired cfg).2
  (decide (s'.size < cfg.max), s')

/-- `this.entries.set(id, …)`: an id that is there keeps its place. -/
def set (s : Registry T) (id : String) (entry : Entry T) : Registry T :=
  { s with
    entries := if id ∈ s.entries then s.entries.replace id entry else s.entries.insert id entry }

def openSession (s : Registry T) (id : String) (value : T) : Bool × Registry T :=
  let (free, s') := s.canOpen cfg
  if free then
    (true, { (s'.set id ⟨value, cfg.now s'.reads⟩).tick with stored := (id, value) :: s'.stored })
  else (false, s')

/-- `entry.lastSeen = this.now()`. -/
def refresh (s : Registry T) (id : String) (entry : Entry T) : Registry T :=
  { s.tick with entries := s.entries.replace id { entry with lastSeen := cfg.now s.reads } }

def get (s : Registry T) (id : String) : Option T × Registry T :=
  match s.entries.lookup id with
  | none => (none, s)
  | some entry =>
      if s.isExpired cfg entry.lastSeen then (none, s.tick.close id)
      else (some entry.value, s.tick.refresh cfg id entry)

def touch (s : Registry T) (id : String) : Registry T :=
  match s.entries.lookup id with
  | none => s
  | some entry =>
      if s.isExpired cfg entry.lastSeen then s.tick else s.tick.refresh cfg id entry

def sweep (s : Registry T) : List String × Registry T :=
  s.reapExpired cfg

end Registry

open Registry

/-- The calls of `close` on the value stored under an id. -/
def Registry.closings (s : Registry T) (id : String) : List T :=
  (s.closed.filter fun p => p.1 = id).map Prod.snd

def Registry.dropped (s : Registry T) (id : String) (value : T) : Registry T :=
  { s.delete id with closed := (id, value) :: s.closed }

section Dropped

variable {s : Registry T} {id : String} {value : T}

@[simp]
theorem lookup_dropped_self : (s.dropped id value).entries.lookup id = none :=
  AList.lookup_erase id s.entries

theorem lookup_dropped_of_ne {id' : String} (h : id' ≠ id) :
    (s.dropped id value).entries.lookup id' = s.entries.lookup id' :=
  AList.lookup_erase_ne h

theorem closings_dropped_self : (s.dropped id value).closings id = value :: s.closings id := by
  simp [Registry.closings, Registry.dropped]

theorem closings_dropped_of_ne {id' : String} (h : id' ≠ id) :
    (s.dropped id value).closings id' = s.closings id' := by
  simp [Registry.closings, Registry.dropped, Ne.symm h]

theorem size_dropped_le : (s.dropped id value).size ≤ s.size := by
  rw [Registry.size, Registry.size, Registry.dropped, Registry.delete, AList.keys_erase]
  exact List.erase_sublist.length_le

end Dropped

section Reaped

/-- At some clock reading between two states, the session is idle for longer
than the bound. -/
def IdleBetween (cfg : Settings) (s s' : Registry T) (e : Entry T) : Prop :=
  ∃ n, s.reads ≤ n ∧ n < s'.reads ∧ cfg.ttlMs < cfg.now n - e.lastSeen

def LiveBetween (cfg : Settings) (s s' : Registry T) (e : Entry T) : Prop :=
  ∃ n, s.reads ≤ n ∧ n < s'.reads ∧ cfg.now n - e.lastSeen ≤ cfg.ttlMs

/-- Entries have at most been closed, each when it was idle for too long. -/
structure Reaped (cfg : Settings) (s s' : Registry T) : Prop where
  reads : s.reads ≤ s'.reads
  stored : s'.stored = s.stored
  kept : ∀ id e, s'.entries.lookup id = some e → s.entries.lookup id = some e
  idle : ∀ id e, s.entries.lookup id = some e → s'.entries.lookup id = none →
    IdleBetween cfg s s' e

variable {cfg : Settings} {s s' s'' : Registry T}

theorem Reaped.refl (cfg : Settings) (s : Registry T) : Reaped cfg s s := by
  refine ⟨le_rfl, rfl, fun _ _ he => he, fun id e he hnone => ?_⟩
  rw [he] at hnone
  cases hnone

theorem reaped_tick (cfg : Settings) (s : Registry T) : Reaped cfg s s.tick := by
  refine ⟨Nat.le_succ _, rfl, fun _ _ he => he, fun id e he hnone => ?_⟩
  exact absurd (he.symm.trans hnone) (by simp)

theorem reaped_dropped {id : String} {e : Entry T} (he : s.entries.lookup id = some e)
    (hexpired : s.isExpired cfg e.lastSeen) : Reaped cfg s (s.tick.dropped id e.value) := by
  refine ⟨Nat.le_succ _, rfl, fun id' e' he' => ?_, fun id' e' he' hnone => ?_⟩
  · by_cases hid : id' = id
    · subst hid
      rw [lookup_dropped_self] at he'
      cases he'
    · rwa [lookup_dropped_of_ne hid] at he'
  · by_cases hid : id' = id
    · subst hid
      obtain rfl := Option.some.inj (he.symm.trans he')
      exact ⟨s.reads, le_rfl, Nat.lt_succ_self _, of_decide_eq_true hexpired⟩
    · rw [lookup_dropped_of_ne hid] at hnone
      exact absurd (he'.symm.trans hnone) (by simp)

theorem Reaped.trans (h : Reaped cfg s s') (h' : Reaped cfg s' s'') : Reaped cfg s s'' := by
  refine ⟨h.reads.trans h'.reads, h'.stored.trans h.stored,
    fun id e he => h.kept id e (h'.kept id e he), fun id e he hnone => ?_⟩
  cases hmid : s'.entries.lookup id with
  | none =>
      obtain ⟨n, hle, hlt, hidle⟩ := h.idle id e he hmid
      exact ⟨n, hle, hlt.trans_le h'.reads, hidle⟩
  | some e' =>
      obtain rfl := Option.some.inj ((h.kept id e' hmid).symm.trans he)
      obtain ⟨n, hle, hlt, hidle⟩ := h'.idle id e' hmid hnone
      exact ⟨n, h.reads.trans hle, hlt, hidle⟩

end Reaped

inductive Call (T : Type) where
  | canOpen
  | openSession (id : String) (value : T)
  | get (id : String)
  | touch (id : String)
  | close (id : String)
  | sweep

inductive Answer (T : Type) where
  | flag (b : Bool)
  | value (v : Option T)
  | ids (l : List String)
  | nothing

variable [ClosableSession T]

def step (cfg : Settings) (s : Registry T) : Call T → Answer T × Registry T
  | .canOpen => ((s.canOpen cfg).map .flag id)
  | .openSession id value => (s.openSession cfg id value).map .flag fun s => s
  | .get id => (s.get cfg id).map .value fun s => s
  | .touch id => (.nothing, s.touch cfg id)
  | .close id => (.nothing, s.close id)
  | .sweep => (s.sweep cfg).map .ids fun s => s

def run (cfg : Settings) (calls : List (Call T)) : Registry T :=
  calls.foldl (fun s call => (step cfg s call).2) {}

/-- A value calls back with its own id, if at all. -/
def CallsOwn (id : String) (value : T) : Prop :=
  ClosableSession.onclose value = none ∨ ClosableSession.onclose value = some id

theorem close_of_lookup_none {s : Registry T} {id : String} (h : s.entries.lookup id = none) :
    s.close id = s := by
  rw [Registry.close]
  split
  · rfl
  · rename_i h'
    rw [h] at h'
    cases h'

theorem closeValue_delete {s : Registry T} {id : String} {value : T} (h : CallsOwn id value) :
    (s.delete id).closeValue id value = s.dropped id value := by
  unfold Registry.closeValue
  rcases h with h | h
  · rw [h]
    rfl
  · rw [h]
    exact close_of_lookup_none (AList.lookup_erase id s.entries)

theorem close_of_lookup_some {s : Registry T} {id : String} {e : Entry T}
    (h : s.entries.lookup id = some e) (hown : CallsOwn id e.value) :
    s.close id = s.dropped id e.value := by
  rw [← closeValue_delete hown, Registry.close]
  split
  · rename_i h'
    rw [h] at h'
    cases h'
  · rename_i h'
    obtain rfl := Option.some.inj (h.symm.trans h')
    rfl

/-- A registry within its bound, whose stored values have been closed exactly
once if they have left it, and never if they have not. -/
structure Sound (max : Nat) (s : Registry T) : Prop where
  size : s.size ≤ max
  unique : (s.stored.map Prod.fst).Nodup
  own : ∀ p ∈ s.stored, CallsOwn p.1 p.2
  registered : ∀ id e, s.entries.lookup id = some e →
    (id, e.value) ∈ s.stored ∧ s.closings id = []
  left : ∀ id value, (id, value) ∈ s.stored → s.entries.lookup id = none →
    s.closings id = [value]
  closed : ∀ p ∈ s.closed, p ∈ s.stored

theorem Sound.value_eq {max : Nat} {s : Registry T} (h : Sound max s) {id : String} {v v' : T}
    (hv : (id, v) ∈ s.stored) (hv' : (id, v') ∈ s.stored) : v = v' :=
  (Prod.mk.inj (List.inj_on_of_nodup_map h.unique hv hv' rfl)).2

theorem sound_empty (max : Nat) : Sound max ({} : Registry T) where
  size := Nat.zero_le _
  unique := List.nodup_nil
  own _ hp := nomatch hp
  registered _ _ h := nomatch h
  left _ _ h := nomatch h
  closed _ hp := nomatch hp

theorem Sound.tick {max : Nat} {s : Registry T} (h : Sound max s) : Sound max s.tick :=
  ⟨h.size, h.unique, h.own, h.registered, h.left, h.closed⟩

theorem Sound.dropped {max : Nat} {s : Registry T} (h : Sound max s) {id : String} {e : Entry T}
    (he : s.entries.lookup id = some e) : Sound max (s.dropped id e.value) where
  size := size_dropped_le.trans h.size
  unique := h.unique
  own := h.own
  registered id' e' he' := by
    by_cases hid : id' = id
    · subst hid
      rw [lookup_dropped_self] at he'
      cases he'
    · rw [lookup_dropped_of_ne hid] at he'
      rw [closings_dropped_of_ne hid]
      exact h.registered id' e' he'
  left id' v hv hnone := by
    by_cases hid : id' = id
    · subst hid
      obtain ⟨hstored, hclosings⟩ := h.registered id' e he
      rw [closings_dropped_self, hclosings, h.value_eq hstored hv]
    · rw [lookup_dropped_of_ne hid] at hnone
      rw [closings_dropped_of_ne hid]
      exact h.left id' v hv hnone
  closed p hp := by
    rcases List.mem_cons.mp hp with rfl | hp
    · exact (h.registered id e he).1
    · exact h.closed p hp

theorem Sound.refresh {max : Nat} {s : Registry T} (h : Sound max s) (cfg : Settings)
    {id : String} {e : Entry T} (he : s.entries.lookup id = some e) :
    Sound max (s.refresh cfg id e) := by
  have hlookup : ∀ id', (s.refresh cfg id e).entries.lookup id' =
      if id' = id then some { e with lastSeen := cfg.now s.reads } else s.entries.lookup id' := by
    intro id'
    rw [Registry.refresh, lookup_replace, he]
    rfl
  refine ⟨?_, h.unique, h.own, ?_, ?_, h.closed⟩
  · rw [Registry.size, Registry.refresh, AList.keys_replace]
    exact h.size
  · intro id' e' he'
    rw [hlookup] at he'
    split at he'
    · rename_i hid
      obtain rfl := Option.some.inj he'
      exact hid ▸ h.registered id e he
    · exact h.registered id' e' he'
  · intro id' v hv hnone
    rw [hlookup] at hnone
    split at hnone
    · cases hnone
    · exact h.left id' v hv hnone

variable {cfg : Settings} {max : Nat} {s s' s'' : Registry T}

theorem reap_spec (cfg : Settings) (hs : Sound max s) {todo : List (Σ _ : String, Entry T)}
    (htodo : ∀ x ∈ todo, s.entries.lookup x.1 = some x.2)
    (hnodup : (todo.map Sigma.fst).Nodup) :
    Sound max (reap cfg todo s).2 ∧ Reaped cfg s (reap cfg todo s).2 ∧
      ∀ x ∈ todo, (reap cfg todo s).2.entries.lookup x.1 = some x.2 →
        LiveBetween cfg s (reap cfg todo s).2 x.2 := by
  induction todo generalizing s with
  | nil => exact ⟨hs, Reaped.refl cfg s, fun x hx => (nomatch hx)⟩
  | cons x rest ih =>
      obtain ⟨id, e⟩ := x
      have he : s.entries.lookup id = some e := htodo _ List.mem_cons_self
      obtain ⟨hid, hnodup'⟩ := List.nodup_cons.mp hnodup
      have hrest : ∀ x ∈ rest, s.entries.lookup x.1 = some x.2 := fun x hx =>
        htodo x (List.mem_cons_of_mem _ hx)
      rw [reap]
      split
      · rename_i hexpired
        have hown := hs.own _ (hs.registered id e he).1
        have hclose : (s.tick.delete id).closeValue id e.value = s.tick.dropped id e.value :=
          closeValue_delete hown
        have hne : ∀ x ∈ rest, x.1 ≠ id := fun x hx heq =>
          hid (List.mem_map.mpr ⟨x, hx, heq⟩)
        obtain ⟨hsound, hreaped, hlive⟩ := ih (s := s.tick.dropped id e.value)
          (hs.tick.dropped he) (fun x hx => by
            rw [lookup_dropped_of_ne (hne x hx)]
            exact hrest x hx) hnodup'
        have hall := (reaped_dropped he hexpired).trans hreaped
        rw [hclose]
        refine ⟨hsound, hall, fun x hx hkept => ?_⟩
        rcases List.mem_cons.mp hx with rfl | hx
        · have hgone := hreaped.kept _ _ hkept
          rw [lookup_dropped_self] at hgone
          cases hgone
        · obtain ⟨n, hle, hlt, hn⟩ := hlive x hx hkept
          exact ⟨n, (Nat.le_succ _).trans hle, hlt, hn⟩
      · rename_i hlive'
        obtain ⟨hsound, hreaped, hlive⟩ := ih (s := s.tick) hs.tick hrest hnodup'
        refine ⟨hsound, (reaped_tick cfg s).trans hreaped, fun x hx hkept => ?_⟩
        rcases List.mem_cons.mp hx with rfl | hx
        · refine ⟨s.reads, le_rfl, Nat.lt_of_lt_of_le (Nat.lt_succ_self _) hreaped.reads, ?_⟩
          simpa [isExpired] using hlive'
        · obtain ⟨n, hle, hlt, hn⟩ := hlive x hx hkept
          exact ⟨n, (Nat.le_succ _).trans hle, hlt, hn⟩

/-- After the expired sessions have been closed, every session left was live
when it was visited. -/
theorem reapExpired_spec (hs : Sound max s) (cfg : Settings) :
    Sound max (s.reapExpired cfg).2 ∧ Reaped cfg s (s.reapExpired cfg).2 ∧
      ∀ id e, (s.reapExpired cfg).2.entries.lookup id = some e →
        LiveBetween cfg s (s.reapExpired cfg).2 e := by
  have hnodup : (s.entries.entries.reverse.map Sigma.fst).Nodup := by
    rw [List.map_reverse, List.nodup_reverse]
    exact s.entries.keys_nodup
  obtain ⟨hsound, hreaped, hlive⟩ := reap_spec cfg hs
    (fun x hx => AList.mem_lookup_iff.mpr (List.mem_reverse.mp hx)) hnodup
  refine ⟨hsound, hreaped, fun id e he => hlive ⟨id, e⟩ ?_ he⟩
  exact List.mem_reverse.mpr (AList.mem_lookup_iff.mp (hreaped.kept id e he))

/-- What one call can do: a session enters by being opened, leaves by being
closed or after having been idle for too long, and is refreshed only if it is not
idle for too long when the call starts. -/
structure Stepped (cfg : Settings) (s : Registry T) (call : Call T) (s' : Registry T) : Prop where
  sound : Sound cfg.max s'
  reads : s.reads ≤ s'.reads
  stored : ∀ p ∈ s'.stored, p ∈ s.stored ∨ call = .openSession p.1 p.2
  enters : ∀ id e, s.entries.lookup id = none → s'.entries.lookup id = some e →
    call = .openSession id e.value
  leaves : ∀ id e, s.entries.lookup id = some e → s'.entries.lookup id = none →
    call = .close id ∨ IdleBetween cfg s s' e
  kept : ∀ id e e', s.entries.lookup id = some e → s'.entries.lookup id = some e' →
    e' = e ∨ s.isExpired cfg e.lastSeen = false

theorem Reaped.stepped (h : Reaped cfg s s') (hs : Sound cfg.max s') (call : Call T) :
    Stepped cfg s call s' where
  sound := hs
  reads := h.reads
  stored p hp := Or.inl (h.stored ▸ hp)
  enters id e hnone he := absurd (hnone.symm.trans (h.kept id e he)) (by simp)
  leaves id e he hnone := Or.inr (h.idle id e he hnone)
  kept id e e' he he' := Or.inl (Option.some.inj ((h.kept id e' he').symm.trans he))

def Registry.added (s : Registry T) (id : String) (e : Entry T) : Registry T :=
  { (s.set id e).tick with stored := (id, e.value) :: s.stored }

theorem lookup_none_of_fresh (hs : Sound max s) {id : String}
    (hfresh : id ∉ s.stored.map Prod.fst) : s.entries.lookup id = none := by
  cases he : s.entries.lookup id with
  | none => rfl
  | some e => exact absurd (List.mem_map_of_mem (hs.registered id e he).1) hfresh

theorem lookup_added (hs : Sound max s) {id : String} (hfresh : id ∉ s.stored.map Prod.fst)
    (e : Entry T) (id' : String) :
    (s.added id e).entries.lookup id' = if id' = id then some e else s.entries.lookup id' := by
  have hmem : id ∉ s.entries := AList.lookup_eq_none.mp (lookup_none_of_fresh hs hfresh)
  simp only [Registry.added, Registry.tick, Registry.set, if_neg hmem]
  split
  · rename_i hid
    rw [hid]
    exact AList.lookup_insert s.entries
  · rename_i hid
    exact AList.lookup_insert_ne hid

theorem Sound.added (hs : Sound max s) {id : String} (hfresh : id ∉ s.stored.map Prod.fst)
    {e : Entry T} (hown : CallsOwn id e.value) (hroom : s.size < max) :
    Sound max (s.added id e) where
  size := by
    have hmem : id ∉ s.entries := AList.lookup_eq_none.mp (lookup_none_of_fresh hs hfresh)
    simp only [Registry.size, Registry.added, Registry.tick, Registry.set, if_neg hmem]
    rw [AList.keys_insert, List.erase_of_not_mem (mt AList.mem_keys.mpr hmem)]
    exact hroom
  unique := List.nodup_cons.mpr ⟨hfresh, hs.unique⟩
  own p hp := by
    rcases List.mem_cons.mp hp with rfl | hp
    · exact hown
    · exact hs.own p hp
  registered id' e' he' := by
    rw [lookup_added hs hfresh] at he'
    split at he'
    · rename_i hid
      obtain rfl := Option.some.inj he'
      subst hid
      refine ⟨List.mem_cons_self, ?_⟩
      rw [Registry.closings, List.map_eq_nil_iff, List.filter_eq_nil_iff]
      intro p hp hpid
      exact hfresh (List.mem_map.mpr ⟨p, hs.closed p hp, of_decide_eq_true hpid⟩)
    · obtain ⟨hstored, hclosings⟩ := hs.registered id' e' he'
      exact ⟨List.mem_cons_of_mem _ hstored, hclosings⟩
  left id' v hv hnone := by
    rw [lookup_added hs hfresh] at hnone
    split at hnone
    · cases hnone
    · rename_i hid
      rcases List.mem_cons.mp hv with heq | hv
      · exact absurd (Prod.mk.inj heq).1 hid
      · exact hs.left id' v hv hnone
  closed p hp := List.mem_cons_of_mem _ (hs.closed p hp)

/-- The id that a call opens is new, and its value calls back with no other
id. -/
def FreshCall (s : Registry T) (call : Call T) : Prop :=
  ∀ id value, call = .openSession id value →
    id ∉ s.stored.map Prod.fst ∧ CallsOwn id value

/-- The entry that a new session gets once the expired ones are gone. -/
def Registry.opened (s : Registry T) (cfg : Settings) (value : T) : Entry T :=
  ⟨value, cfg.now (s.reapExpired cfg).2.reads⟩

theorem openSession_of_lt {id : String} {value : T}
    (hroom : (s.reapExpired cfg).2.size < cfg.max) :
    s.openSession cfg id value =
      (true, (s.reapExpired cfg).2.added id (s.opened cfg value)) := by
  simp only [Registry.openSession, Registry.canOpen, decide_eq_true hroom, if_true]
  rfl

theorem openSession_of_not_lt {id : String} {value : T}
    (hfull : ¬ (s.reapExpired cfg).2.size < cfg.max) :
    s.openSession cfg id value = (false, (s.reapExpired cfg).2) := by
  simp [Registry.openSession, Registry.canOpen, hfull]

theorem stepped_openSession (hs : Sound cfg.max s) {id : String} {value : T}
    (hfresh : id ∉ s.stored.map Prod.fst) (hown : CallsOwn id value) :
    Stepped cfg s (.openSession id value) (s.openSession cfg id value).2 := by
  obtain ⟨hsound, hreaped, _⟩ := reapExpired_spec hs cfg
  have hstep := hreaped.stepped hsound (.openSession id value)
  by_cases hroom : (s.reapExpired cfg).2.size < cfg.max
  · have hfresh' : id ∉ (s.reapExpired cfg).2.stored.map Prod.fst := by rwa [hreaped.stored]
    have hlookup := lookup_added hsound hfresh' (s.opened cfg value)
    rw [openSession_of_lt hroom]
    refine ⟨hsound.added hfresh' hown hroom, hreaped.reads.trans (Nat.le_succ _), ?_, ?_, ?_, ?_⟩
    · intro p hp
      rcases List.mem_cons.mp hp with rfl | hp
      · exact Or.inr rfl
      · exact hstep.stored p hp
    · intro id' e hnone he
      rw [hlookup] at he
      split at he
      · rename_i hid
        obtain rfl := Option.some.inj he
        rw [hid]
        rfl
      · exact hstep.enters id' e hnone he
    · intro id' e he hnone
      rw [hlookup] at hnone
      split at hnone
      · cases hnone
      · obtain ⟨n, hle, hlt, hn⟩ := hreaped.idle id' e he hnone
        exact Or.inr ⟨n, hle, hlt.trans_le (Nat.le_succ _), hn⟩
    · intro id' e e' he he'
      rw [hlookup] at he'
      split at he'
      · rename_i hid
        rw [hid, lookup_none_of_fresh hs hfresh] at he
        cases he
      · exact hstep.kept id' e e' he he'
  · rw [openSession_of_not_lt hroom]
    exact hstep

theorem stepped_refresh (hs : Sound cfg.max s) {id : String} {e : Entry T}
    (he : s.entries.lookup id = some e) (hlive : s.isExpired cfg e.lastSeen = false)
    (call : Call T) : Stepped cfg s call (s.tick.refresh cfg id e) := by
  have hlookup : ∀ id', (s.tick.refresh cfg id e).entries.lookup id' =
      if id' = id then some { e with lastSeen := cfg.now s.tick.reads }
      else s.entries.lookup id' := by
    intro id'
    simp only [Registry.refresh, Registry.tick, lookup_replace, he]
    rfl
  refine ⟨hs.tick.refresh cfg he, (Nat.le_succ _).trans (Nat.le_succ _),
    fun p hp => Or.inl hp, ?_, ?_, ?_⟩
  · intro id' e' hnone he'
    rw [hlookup] at he'
    split at he'
    · rename_i hid
      rw [hid, he] at hnone
      cases hnone
    · exact absurd (hnone.symm.trans he') (by simp)
  · intro id' e' he' hnone
    rw [hlookup] at hnone
    split at hnone
    · cases hnone
    · exact absurd (he'.symm.trans hnone) (by simp)
  · intro id' e' e'' he' he''
    rw [hlookup] at he''
    split at he''
    · rename_i hid
      rw [hid] at he'
      obtain rfl := Option.some.inj (he.symm.trans he')
      exact Or.inr hlive
    · exact Or.inl (Option.some.inj (he''.symm.trans he'))

theorem stepped_get (hs : Sound cfg.max s) (id : String) :
    Stepped cfg s (.get id) (s.get cfg id).2 := by
  unfold Registry.get
  split
  · exact (Reaped.refl cfg s).stepped hs _
  · rename_i e he
    have hown := hs.own _ (hs.registered id e he).1
    split
    · rename_i hexpired
      have hclose : s.tick.close id = s.tick.dropped id e.value := close_of_lookup_some he hown
      dsimp only
      rw [hclose]
      exact (reaped_dropped he hexpired).stepped (hs.tick.dropped he) _
    · rename_i hlive
      exact stepped_refresh hs he (Bool.eq_false_of_not_eq_true hlive) _

theorem stepped_touch (hs : Sound cfg.max s) (id : String) :
    Stepped cfg s (.touch id) (s.touch cfg id) := by
  unfold Registry.touch
  split
  · exact (Reaped.refl cfg s).stepped hs _
  · rename_i e he
    split
    · exact (reaped_tick cfg s).stepped hs.tick _
    · rename_i hlive
      exact stepped_refresh hs he (Bool.eq_false_of_not_eq_true hlive) _

theorem stepped_close (hs : Sound cfg.max s) (id : String) :
    Stepped cfg s (.close id) (s.close id) := by
  cases he : s.entries.lookup id with
  | none =>
      rw [close_of_lookup_none he]
      exact (Reaped.refl cfg s).stepped hs _
  | some e =>
      rw [close_of_lookup_some he (hs.own _ (hs.registered id e he).1)]
      refine ⟨hs.dropped he, le_rfl, fun p hp => Or.inl hp, ?_, ?_, ?_⟩
      · intro id' e' hnone he'
        by_cases hid : id' = id
        · rw [hid, lookup_dropped_self] at he'
          cases he'
        · rw [lookup_dropped_of_ne hid, hnone] at he'
          cases he'
      · intro id' e' he' hnone
        by_cases hid : id' = id
        · exact Or.inl (hid ▸ rfl)
        · rw [lookup_dropped_of_ne hid, he'] at hnone
          cases hnone
      · intro id' e' e'' he' he''
        by_cases hid : id' = id
        · rw [hid, lookup_dropped_self] at he''
          cases he''
        · rw [lookup_dropped_of_ne hid, he'] at he''
          exact Or.inl (Option.some.inj he'').symm

theorem stepped_step (cfg : Settings) (hs : Sound cfg.max s) {call : Call T}
    (hcall : FreshCall s call) : Stepped cfg s call (step cfg s call).2 := by
  cases call with
  | canOpen =>
      obtain ⟨hsound, hreaped, _⟩ := reapExpired_spec hs cfg
      exact hreaped.stepped hsound _
  | openSession id value =>
      obtain ⟨hfresh, hown⟩ := hcall id value rfl
      exact stepped_openSession hs hfresh hown
  | get id => exact stepped_get hs id
  | touch id => exact stepped_touch hs id
  | close id => exact stepped_close hs id
  | sweep =>
      obtain ⟨hsound, hreaped, _⟩ := reapExpired_spec hs cfg
      exact hreaped.stepped hsound _

def openedIds (calls : List (Call T)) : List String :=
  calls.filterMap fun
    | .openSession id _ => some id
    | _ => none

/-- Every session is opened under an id of its own, and calls back with no other
id. -/
structure Fresh (calls : List (Call T)) : Prop where
  unique : (openedIds calls).Nodup
  own : ∀ id value, Call.openSession id value ∈ calls → CallsOwn id value

theorem Fresh.of_append {calls later : List (Call T)} (h : Fresh (calls ++ later)) :
    Fresh calls where
  unique := by
    have hunique := h.unique
    rw [openedIds, List.filterMap_append] at hunique
    exact hunique.of_append_left
  own id value hmem := h.own id value (List.mem_append_left _ hmem)

theorem Fresh.not_mem {calls : List (Call T)} {id : String} {value : T}
    (h : Fresh (calls ++ [.openSession id value])) : id ∉ openedIds calls := by
  have hunique := h.unique
  rw [openedIds, List.filterMap_append] at hunique
  intro hmem
  exact (List.disjoint_of_nodup_append hunique) hmem (by simp)

theorem run_append (cfg : Settings) (calls : List (Call T)) (call : Call T) :
    run cfg (calls ++ [call]) = (step cfg (run cfg calls) call).2 := by
  simp [run]

theorem sound_run (cfg : Settings) {calls : List (Call T)} (h : Fresh calls) :
    Sound cfg.max (run cfg calls) ∧ ∀ p ∈ (run cfg calls).stored, p.1 ∈ openedIds calls := by
  induction calls using List.reverseRecOn with
  | nil => exact ⟨sound_empty _, fun p hp => (nomatch hp)⟩
  | append_singleton calls call ih =>
      obtain ⟨hsound, hstored⟩ := ih h.of_append
      have hcall : FreshCall (run cfg calls) call := by
        rintro id value rfl
        refine ⟨fun hmem => ?_, h.own id value (by simp)⟩
        obtain ⟨p, hp, rfl⟩ := List.mem_map.mp hmem
        exact h.not_mem (hstored p hp)
      have hstep := stepped_step cfg hsound hcall
      rw [run_append]
      refine ⟨hstep.sound, fun p hp => ?_⟩
      rw [openedIds, List.filterMap_append, List.mem_append]
      rcases hstep.stored p hp with hp | rfl
      · exact Or.inl (hstored p hp)
      · exact Or.inr (by simp)

theorem freshCall_run {cfg : Settings} {calls : List (Call T)} {call : Call T}
    (h : Fresh (calls ++ [call])) : FreshCall (run cfg calls) call := by
  rintro id value rfl
  refine ⟨fun hmem => ?_, h.own id value (by simp)⟩
  obtain ⟨p, hp, rfl⟩ := List.mem_map.mp hmem
  exact h.not_mem ((sound_run cfg h.of_append).2 p hp)

structure Guarded (cfg : Settings) (calls : List (Call T)) : Prop where
  size : (run cfg calls).size ≤ cfg.max
  registered : ∀ id e, (run cfg calls).entries.lookup id = some e →
    (id, e.value) ∈ (run cfg calls).stored ∧ (run cfg calls).closings id = []
  /-- A value that has left the registry has been closed once. -/
  left : ∀ id value, (id, value) ∈ (run cfg calls).stored →
    (run cfg calls).entries.lookup id = none → (run cfg calls).closings id = [value]
  leaves : ∀ call, Fresh (calls ++ [call]) → ∀ id e,
    (run cfg calls).entries.lookup id = some e →
    (run cfg (calls ++ [call])).entries.lookup id = none →
    call = .close id ∨ IdleBetween cfg (run cfg calls) (run cfg (calls ++ [call])) e
  /-- A session is refused only when the registry is full of live ones. -/
  refused : ∀ id value, Fresh (calls ++ [.openSession id value]) →
    ((run cfg calls).openSession cfg id value).1 = false →
    (run cfg (calls ++ [.openSession id value])).size = cfg.max ∧
    ∀ id' e, (run cfg (calls ++ [.openSession id value])).entries.lookup id' = some e →
      (run cfg calls).entries.lookup id' = some e ∧
      LiveBetween cfg (run cfg calls) (run cfg (calls ++ [.openSession id value])) e
  /-- A session once idle for too long is neither returned nor refreshed, by any
  later call. -/
  expired : ∀ id e, (run cfg calls).entries.lookup id = some e →
    (run cfg calls).isExpired cfg e.lastSeen → ∀ later, Fresh (calls ++ later) →
    ((run cfg (calls ++ later)).get cfg id).1 = none ∧
    ∀ e', (run cfg (calls ++ later)).entries.lookup id = some e' → e' = e

theorem expired_run {cfg : Settings} (hclock : Monotone cfg.now) {calls : List (Call T)}
    {id : String} {e : Entry T} (he : (run cfg calls).entries.lookup id = some e)
    (hexpired : (run cfg calls).isExpired cfg e.lastSeen) {later : List (Call T)}
    (h : Fresh (calls ++ later)) :
    (run cfg calls).reads ≤ (run cfg (calls ++ later)).reads ∧
      ∀ e', (run cfg (calls ++ later)).entries.lookup id = some e' → e' = e := by
  induction later using List.reverseRecOn with
  | nil =>
      rw [List.append_nil]
      exact ⟨le_rfl, fun e' he' => Option.some.inj (he'.symm.trans he)⟩
  | append_singleton later call ih =>
      rw [← List.append_assoc] at h ⊢
      obtain ⟨hreads, hsame⟩ := ih h.of_append
      have hstep := stepped_step cfg (sound_run cfg h.of_append).1 (freshCall_run h)
      rw [run_append]
      refine ⟨hreads.trans hstep.reads, fun e' he' => ?_⟩
      cases hmid : (run cfg (calls ++ later)).entries.lookup id with
      | none =>
          have hopened : id ∈ openedIds (calls ++ later) := by
            have hsound := sound_run cfg h.of_append.of_append
            rw [openedIds, List.filterMap_append, List.mem_append]
            exact Or.inl (hsound.2 _ (hsound.1.registered id e he).1)
          obtain rfl := hstep.enters id e' hmid he'
          exact absurd hopened h.not_mem
      | some e'' =>
          obtain rfl := hsame e'' hmid
          refine (hstep.kept id e'' e' hmid he').resolve_right fun hlive => ?_
          have hidle := of_decide_eq_true hexpired
          have hlive' := of_decide_eq_false hlive
          exact hlive' (hidle.trans_le (sub_le_sub_right (hclock hreads) _))

/-- The bounds, the closing and the expiry of sessions, after every sequence of
calls under a clock that does not go back. -/
theorem guarded_run (cfg : Settings) (hclock : Monotone cfg.now) (calls : List (Call T))
    (h : Fresh calls) : Guarded cfg calls := by
  obtain ⟨hsound, -⟩ := sound_run cfg h
  refine ⟨hsound.size, hsound.registered, hsound.left, ?_, ?_, ?_⟩
  · intro call hcall id e he hnone
    rw [run_append] at hnone ⊢
    exact (stepped_step cfg hsound (freshCall_run hcall)).leaves id e he hnone
  · intro id value hcall hrefused
    obtain ⟨hreaped, hkept, hlive⟩ := reapExpired_spec hsound cfg
    rw [run_append]
    by_cases hroom : ((run cfg calls).reapExpired cfg).2.size < cfg.max
    · rw [openSession_of_lt hroom] at hrefused
      cases hrefused
    · have hstep : (step cfg (run cfg calls) (.openSession id value)).2 =
          ((run cfg calls).reapExpired cfg).2 := by
        simp only [step, Prod.map, openSession_of_not_lt hroom]
      rw [hstep]
      exact ⟨le_antisymm hreaped.size (not_lt.mp hroom),
        fun id' e he => ⟨hkept.kept id' e he, hlive id' e he⟩⟩
  · intro id e he hexpired later hlater
    obtain ⟨hreads, hsame⟩ := expired_run hclock he hexpired hlater
    refine ⟨?_, hsame⟩
    unfold Registry.get
    split
    · rfl
    · rename_i e' he'
      obtain rfl := hsame e' he'
      have hidle : (run cfg (calls ++ later)).isExpired cfg e'.lastSeen :=
        decide_eq_true ((of_decide_eq_true hexpired).trans_le
          (sub_le_sub_right (hclock hreads) _))
      rw [if_pos hidle]

/-- A transport; its `onclose` closes the session of its own id. -/
structure Transport where
  sessionId : String
  deriving DecidableEq

instance : ClosableSession Transport where
  onclose transport := some transport.sessionId

/-- One session at most, and a clock that goes on by one at each reading. -/
def oneSession : Settings where
  max := 1
  ttlMs := 3
  now n := n

/-- The second session is refused as long as the first is live. -/
def turnover : List (Call Transport) :=
  [.openSession "a" ⟨"a"⟩, .touch "a", .get "a", .openSession "b" ⟨"b"⟩, .sweep, .sweep, .sweep,
    .openSession "c" ⟨"c"⟩, .get "c"]

theorem fresh_turnover : Fresh turnover where
  unique := by decide
  own id value hmem := by
    simp only [turnover, List.mem_cons, reduceCtorEq, Call.openSession.injEq, List.not_mem_nil,
      false_or, or_false] at hmem
    rcases hmem with ⟨rfl, rfl⟩ | ⟨rfl, rfl⟩ | ⟨rfl, rfl⟩ <;> exact Or.inr rfl

/-- The first session is closed when it has expired, the second was never
registered, and the third is. -/
theorem guarded_run_turnover :
    let s := run oneSession turnover
    Guarded oneSession turnover ∧ s.entries.keys = ["c"] ∧ s.stored = [("c", ⟨"c"⟩), ("a", ⟨"a"⟩)] ∧
      s.closed = [("a", ⟨"a"⟩)] :=
  ⟨guarded_run oneSession Nat.mono_cast turnover fresh_turnover, by decide +kernel,
    by decide +kernel, by decide +kernel⟩

end PersonalDashboard.SessionRegistry
