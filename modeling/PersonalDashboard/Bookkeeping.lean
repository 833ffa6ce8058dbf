import PersonalDashboard.LedgerHandlers

/-! What the money ledger is for: balances that follow the stored movements, and
movements that refer to accounts of their owner. -/

set_option autoImplicit false

namespace PersonalDashboard.Bookkeeping

open PersonalDashboard.LedgerHandlers
open PersonalDashboard.RowStore
open PersonalDashboard.Schema

/-- What a movement adds to the balance of an account. -/
def leg (a : Uuid) (m : MovementRow) : Cents :=
  match m.direction with
  | .income => if m.accountId = a then m.amount else 0
  | .expense => if m.accountId = a then -m.amount else 0
  | .transfer =>
      (if m.accountId = a then -m.amount else 0) +
        (if m.transferAccountId = some a then m.amount else 0)

def legs (a : Uuid) : (k : Key) → Row k → Cents
  | .movement _, (m : MovementRow) => leg a m
  | _, _ => 0

def movementSum (s : Db) (a : Uuid) : Cents :=
  total (legs a) s

/-- What the balance of an account holds beyond its movements. -/
def gap (s : Db) (a : Uuid) : Option Cents :=
  (s.account a).map fun r => r.balance - movementSum s a

theorem leg_of_ne_transfer {m : MovementRow} (h : m.direction ≠ .transfer) (a : Uuid) :
    leg a m = if a = m.accountId then signedDelta m.direction m.amount else 0 := by
  unfold leg
  simp only [eq_comm (a := a)]
  split <;> simp_all [signedDelta]

theorem leg_of_transfer {m : MovementRow} (h : m.direction = .transfer) {b : Uuid}
    (hb : m.transferAccountId = some b) (a : Uuid) :
    leg a m = (if a = m.accountId then -m.amount else 0) + if a = b then m.amount else 0 := by
  simp only [leg, h, hb, Option.some.injEq, eq_comm (a := a)]

/-- An account whose balance moved by `δ`, with nothing else but its time stamp
changed. -/
def Shifted (δ : Cents) (old new : Option AccountRow) : Prop :=
  ∃ stamp : AccountRow → Timestamp,
    new = old.map fun r => { r with balance := r.balance + δ, updatedAt := stamp r }

theorem Shifted.refl (r : Option AccountRow) : Shifted 0 r r :=
  ⟨AccountRow.updatedAt, by simp⟩

theorem Shifted.trans {δ δ' : Cents} {r r' r'' : Option AccountRow} (h : Shifted δ r r')
    (h' : Shifted δ' r' r'') : Shifted (δ + δ') r r'' := by
  obtain ⟨stamp, rfl⟩ := h
  obtain ⟨stamp', rfl⟩ := h'
  refine ⟨fun r => stamp' { r with balance := r.balance + δ, updatedAt := stamp r }, ?_⟩
  cases r with
  | none => rfl
  | some r => simp [Int.add_assoc]

def Balanced (s s' : Db) (δ : Uuid → Cents) : Prop :=
  ∀ a, Shifted (δ a) (s.account a) (s'.account a)

theorem Balanced.put {s s' : Db} {δ : Uuid → Cents} (h : Balanced s s' δ) {k : Key}
    (hk : ∀ a, Key.account a ≠ k) (r : Option (Row k)) : Balanced s (put s' k r) δ := by
  intro a
  rw [Db.account_put_of_ne (hk a)]
  exact h a

theorem Balanced.credit {s s' : Db} {δ : Uuid → Cents} (h : Balanced s s' δ) {a : Uuid}
    {r : AccountRow} (hr : s'.account a = some r) (x : Cents) (now : Timestamp) :
    Balanced s (RowStore.put s' (Key.account a)
      (some ({ r with balance := r.balance + x, updatedAt := now } : AccountRow)))
      fun b => δ b + if b = a then x else 0 := by
  intro b
  refine (h b).trans ?_
  by_cases hb : b = a
  · subst hb
    refine ⟨fun _ => now, ?_⟩
    rw [if_pos rfl, hr, Db.account_put_self, Option.map_some]
  · rw [if_neg hb, Db.account_put_of_ne (by simpa using hb)]
    exact Shifted.refl _

def isBook : Key → Bool
  | .account _ | .movement _ => true
  | _ => false

/-- A posting in the making: one movement was inserted, replaced or deleted,
the balances moved by `δ`, and only rows of the given kind changed. -/
structure Draft (p : Key → Bool) (s s' : Db) (id : Uuid) (old new : Option MovementRow)
    (δ : Uuid → Cents) : Prop where
  before : s.movement id = old
  after : s'.movement id = new
  others : ∀ m, m ≠ id → s'.movement m = s.movement m
  accounts : Balanced s s' δ
  rest : ∀ k, p k = false → s'.lookup k = s.lookup k

namespace Draft

variable {p : Key → Bool} {s s' : Db} {id : Uuid} {old new : Option MovementRow}
  {δ : Uuid → Cents}

theorem of_unchanged (h : ∀ k, p k = false ∨ isBook k = true → s'.lookup k = s.lookup k)
    (id : Uuid) : Draft p s s' id (s.movement id) (s.movement id) fun _ => 0 where
  before := rfl
  after := h _ (Or.inr rfl)
  others _ _ := h _ (Or.inr rfl)
  accounts a := by
    have hsame : s'.account a = s.account a := h _ (Or.inr rfl)
    rw [hsame]
    exact Shifted.refl _
  rest k hk := h k (Or.inl hk)

theorem refl (p : Key → Bool) (s : Db) (id : Uuid) :
    Draft p s s id (s.movement id) (s.movement id) fun _ => 0 :=
  of_unchanged (fun _ _ => rfl) id

theorem rest_put (h : Draft p s s' id old new δ) {k : Key} (hk : p k = true)
    (r : Option (Row k)) (k' : Key) (hk' : p k' = false) :
    (put s' k r).lookup k' = s.lookup k' := by
  have hne : k' ≠ k := by
    rintro rfl
    simp [hk] at hk'
  rw [lookup_put_of_ne hne, h.rest k' hk']

theorem setMovement (h : Draft p s s' id old new δ) (hp : p (Key.movement id) = true)
    (new' : Option MovementRow) :
    Draft p s (put s' (Key.movement id) new') id old new' δ where
  before := h.before
  after := Db.movement_put_self new'
  others m hm := (Db.movement_put_of_ne (by simpa using hm) _).trans (h.others m hm)
  accounts := h.accounts.put (by simp) _
  rest := h.rest_put hp _

theorem credit (h : Draft p s s' id old new δ) {a : Uuid} (hp : p (Key.account a) = true)
    {r : AccountRow} (hr : s'.account a = some r) (x : Cents) (now : Timestamp) :
    Draft p s (put s' (Key.account a)
      (some { r with balance := r.balance + x, updatedAt := now })) id old new
      fun b => δ b + if b = a then x else 0 where
  before := h.before
  after := (Db.movement_put_of_ne (by simp) _).trans h.after
  others m hm := (Db.movement_put_of_ne (by simp) _).trans (h.others m hm)
  accounts := h.accounts.credit hr x now
  rest := h.rest_put hp _

theorem setOther (h : Draft p s s' id old new δ) {k : Key} (hp : p k = true)
    (hacc : ∀ a, Key.account a ≠ k) (hmov : ∀ m, Key.movement m ≠ k) (r : Option (Row k)) :
    Draft p s (put s' k r) id old new δ where
  before := h.before
  after := (Db.movement_put_of_ne (hmov id) _).trans h.after
  others m hm := (Db.movement_put_of_ne (hmov m) _).trans (h.others m hm)
  accounts := h.accounts.put hacc _
  rest := h.rest_put hp _

end Draft

/-- A posting: the balances moved by exactly the change of the movement's
legs. -/
abbrev Posting (p : Key → Bool) (s s' : Db) (id : Uuid) (old new : Option MovementRow) : Prop :=
  Draft p s s' id old new fun a => new.elim 0 (leg a) - old.elim 0 (leg a)

theorem Draft.posting {p : Key → Bool} {s s' : Db} {id : Uuid} {old new : Option MovementRow}
    {δ : Uuid → Cents} (h : Draft p s s' id old new δ)
    (hδ : ∀ a, δ a = new.elim 0 (leg a) - old.elim 0 (leg a)) : Posting p s s' id old new := by
  obtain rfl := funext hδ
  exact h

theorem weight_legs_of_movement (a id : Uuid) (m : Option MovementRow) :
    weight (legs a) (Key.movement id) m = m.elim 0 (leg a) := by
  cases m <;> rfl

theorem weight_legs_of_ne {k : Key} (hk : ∀ id, k ≠ Key.movement id) (a : Uuid)
    (r : Option (Row k)) : weight (legs a) k r = 0 := by
  cases r with
  | none => rfl
  | some r =>
      cases k with
      | movement id => exact absurd rfl (hk id)
      | _ => rfl

theorem movementSum_congr {s s' : Db} {a : Uuid}
    (h : ∀ id, (s'.movement id).elim 0 (leg a) = (s.movement id).elim 0 (leg a)) :
    movementSum s' a = movementSum s a := by
  refine total_congr fun k => ?_
  by_cases hk : ∃ id, k = Key.movement id
  · obtain ⟨id, rfl⟩ := hk
    exact (weight_legs_of_movement a id _).trans
      ((h id).trans (weight_legs_of_movement a id _).symm)
  · have hne : ∀ id, k ≠ Key.movement id := fun id e => hk ⟨id, e⟩
    rw [weight_legs_of_ne hne, weight_legs_of_ne hne]

theorem Posting.movementSum_eq {p : Key → Bool} {s s' : Db} {id : Uuid}
    {old new : Option MovementRow} (h : Posting p s s' id old new) (a : Uuid) :
    movementSum s' a = movementSum s a + (new.elim 0 (leg a) - old.elim 0 (leg a)) := by
  have hrest : ∀ k, k ≠ Key.movement id →
      weight (legs a) k (s'.lookup k) = weight (legs a) k (s.lookup k) := by
    intro k hk
    by_cases hmov : ∃ id', k = Key.movement id'
    · obtain ⟨id', rfl⟩ := hmov
      exact congrArg _ (h.others id' (by simpa using hk))
    · have hne : ∀ id', k ≠ Key.movement id' := fun id' e => hmov ⟨id', e⟩
      rw [weight_legs_of_ne hne, weight_legs_of_ne hne]
  have hold : weight (legs a) (Key.movement id) (s.lookup (Key.movement id)) =
      old.elim 0 (leg a) := h.before ▸ weight_legs_of_movement a id _
  have hnew : weight (legs a) (Key.movement id) (s'.lookup (Key.movement id)) =
      new.elim 0 (leg a) := h.after ▸ weight_legs_of_movement a id _
  rw [movementSum, movementSum, total_shift hrest, hold, hnew]

theorem Posting.gap_eq {p : Key → Bool} {s s' : Db} {id : Uuid} {old new : Option MovementRow}
    (h : Posting p s s' id old new) (a : Uuid) : gap s' a = gap s a := by
  obtain ⟨stamp, hstamp⟩ := h.accounts a
  rw [gap, gap, hstamp, h.movementSum_eq a, Option.map_map]
  refine congrArg (fun f => Option.map f (s.account a)) (funext fun r => ?_)
  simp only [Function.comp_apply, Cents] at *
  omega

def holder (r : AccountRow) : Uuid × String :=
  (r.userId, r.currency)

structure MovementOk (s : Db) (m : MovementRow) : Prop where
  positive : 0 < m.amount
  owned : (s.account m.accountId).map AccountRow.userId = some m.userId
  transfer : m.direction = .transfer ↔ m.transferAccountId.isSome
  destination : ∀ b, m.transferAccountId = some b →
    b ≠ m.accountId ∧ m.categoryId = none ∧
      (s.account b).map holder = (s.account m.accountId).map holder

/-- The invariant of the ledger tables. -/
def LedgerOk (s : Db) : Prop :=
  ∀ id m, s.movement id = some m → MovementOk s m

structure LedgerDb where
  store : Db
  ok : LedgerOk store

instance : Inhabited LedgerDb :=
  ⟨∅, fun _ _ h => by simp [Db.movement] at h⟩

theorem refersToAccount_iff {a : Uuid} {m : MovementRow} :
    refersToAccount a m = true ↔ m.accountId = a ∨ m.transferAccountId = some a := by
  simp [refersToAccount]

theorem map_userId_of_map_holder {r r' : Option AccountRow}
    (h : r'.map holder = r.map holder) :
    r'.map AccountRow.userId = r.map AccountRow.userId := by
  have hfst := congrArg (Option.map Prod.fst) h
  rwa [Option.map_map, Option.map_map] at hfst

theorem MovementOk.congr {s s' : Db} {m : MovementRow} (h : MovementOk s m)
    (hsame : ∀ a, refersToAccount a m = true →
      (s'.account a).map holder = (s.account a).map holder) : MovementOk s' m := by
  have hacc := hsame _ (refersToAccount_iff.mpr (Or.inl rfl))
  refine ⟨h.positive, (map_userId_of_map_holder hacc).trans h.owned, h.transfer, ?_⟩
  intro b hb
  obtain ⟨hne, hcat, hholder⟩ := h.destination b hb
  exact ⟨hne, hcat, ((hsame b (refersToAccount_iff.mpr (Or.inr hb))).trans hholder).trans
    hacc.symm⟩

theorem Shifted.map_eq {β : Type} {δ : Cents} {r r' : Option AccountRow} (h : Shifted δ r r')
    {f : AccountRow → β} (hf : ∀ r b t, f { r with balance := b, updatedAt := t } = f r) :
    r'.map f = r.map f := by
  obtain ⟨stamp, rfl⟩ := h
  rw [Option.map_map]
  exact congrArg (Option.map · r) (funext fun r => hf r _ _)

theorem Shifted.holder_eq {δ : Cents} {r r' : Option AccountRow} (h : Shifted δ r r') :
    r'.map holder = r.map holder :=
  h.map_eq fun _ _ _ => rfl

theorem Posting.ledgerOk {p : Key → Bool} {s s' : Db} {id : Uuid} {old new : Option MovementRow}
    (h : Posting p s s' id old new) (hs : LedgerOk s) (hnew : ∀ m ∈ new, MovementOk s m) :
    LedgerOk s' := by
  intro id' m hm
  have hok : MovementOk s m := by
    by_cases hid : id' = id
    · subst hid
      exact hnew m (h.after.symm.trans hm)
    · exact hs id' m ((h.others id' hid).symm.trans hm)
  exact hok.congr fun a _ => (h.accounts a).holder_eq

/-- A movement that at most lost its category or its subscription. -/
structure Kept (m m' : MovementRow) : Prop where
  userId : m'.userId = m.userId
  accountId : m'.accountId = m.accountId
  transferAccountId : m'.transferAccountId = m.transferAccountId
  direction : m'.direction = m.direction
  amount : m'.amount = m.amount
  categoryId : m.categoryId = none → m'.categoryId = none

theorem Kept.refl (m : MovementRow) : Kept m m :=
  ⟨rfl, rfl, rfl, rfl, rfl, id⟩

def MovementsKept (s s' : Db) : Prop :=
  ∀ id, Option.Rel Kept (s.movement id) (s'.movement id)

theorem movementsKept_of_eq {s s' : Db} (h : ∀ id, s'.movement id = s.movement id) :
    MovementsKept s s' := by
  intro id
  rw [h id]
  cases s.movement id with
  | none => exact .none
  | some m => exact .some (Kept.refl m)

theorem Kept.refersToAccount_eq {m m' : MovementRow} (h : Kept m m') (a : Uuid) :
    refersToAccount a m' = refersToAccount a m := by
  simp only [refersToAccount, h.accountId, h.transferAccountId]

theorem any_refersToAccount_of_rel {old new : Option MovementRow} (h : Option.Rel Kept old new)
    (a : Uuid) : new.any (refersToAccount a) = old.any (refersToAccount a) := by
  cases h with
  | none => rfl
  | some hm => exact hm.refersToAccount_eq a

theorem elim_leg_of_rel {old new : Option MovementRow} (h : Option.Rel Kept old new)
    (a : Uuid) : new.elim 0 (leg a) = old.elim 0 (leg a) := by
  cases h with
  | none => rfl
  | some hm =>
      simp only [Option.elim, leg, hm.direction, hm.accountId, hm.transferAccountId, hm.amount]

theorem MovementsKept.movementSum_eq {s s' : Db} (h : MovementsKept s s') (a : Uuid) :
    movementSum s' a = movementSum s a :=
  movementSum_congr fun id => elim_leg_of_rel (h id) a

theorem MovementsKept.gap_eq {s s' : Db} (h : MovementsKept s s') {a : Uuid}
    (hacc : (s'.account a).map AccountRow.balance = (s.account a).map AccountRow.balance) :
    gap s' a = gap s a := by
  have hmap := congrArg (Option.map fun b => b - movementSum s a) hacc
  rw [Option.map_map, Option.map_map] at hmap
  rw [gap, gap, h.movementSum_eq a]
  exact hmap

/-- Deleting an account that no movement refers to, or changing anything but
its holder, keeps the ledger well formed. -/
theorem MovementsKept.ledgerOk {s s' : Db} (h : MovementsKept s s') (hs : LedgerOk s)
    (hacc : ∀ a, (∃ id, (s.movement id).any (refersToAccount a) = true) →
      (s'.account a).map holder = (s.account a).map holder) : LedgerOk s' := by
  intro id m' hm'
  have hkept := h id
  rw [hm'] at hkept
  generalize hold : s.movement id = old at hkept
  cases hkept with
  | some hm =>
      rename_i m
      have hok := hs id m hold
      have hok' : MovementOk s m' := by
        refine ⟨hm.amount ▸ hok.positive, ?_, ?_, ?_⟩
        · rw [hm.accountId, hm.userId]
          exact hok.owned
        · rw [hm.direction, hm.transferAccountId]
          exact hok.transfer
        · intro b hb
          rw [hm.transferAccountId] at hb
          obtain ⟨hne, hcat, hholder⟩ := hok.destination b hb
          rw [hm.accountId]
          exact ⟨hne, hm.categoryId hcat, hholder⟩
      refine hok'.congr fun a ha => hacc a ⟨id, ?_⟩
      rw [hold, Option.any_some, ← hm.refersToAccount_eq]
      exact ha

def OntoOpenAccounts (s : Db) (old new : Option MovementRow) : Prop :=
  ∀ m ∈ new, ∀ a, refersToAccount a m = true → old.any (refersToAccount a) = false →
    (s.account a).map AccountRow.isArchived = some false

end PersonalDashboard.Bookkeeping
