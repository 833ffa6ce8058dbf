import PersonalDashboard.AssetHandlers

/-! The value of an asset follows its valuations, in every interleaving of the
requests that write assets. -/

set_option autoImplicit false

namespace PersonalDashboard.AssetHistory

open PersonalDashboard.AssetHandlers
open PersonalDashboard.Calendar
open PersonalDashboard.LedgerHandlers
open PersonalDashboard.ReadCommitted
open PersonalDashboard.ReadCommitted.Config
open PersonalDashboard.RowStatements
open PersonalDashboard.RowStore
open PersonalDashboard.Schema
open PersonalDashboard.TaskHandlers
open PersonalDashboard.TransactionLogic
open PersonalDashboard.TransactionLogic.Contract

structure Values (s : Db) (a v : Uuid) (val : ValuationRow) : Prop where
  stored : s.valuation v = some val
  asset : val.assetId = a

/-- The value of the latest valuation of an asset, or 0. -/
inductive Worth (s : Db) (a : Uuid) : Cents → Prop
  | none (h : ∀ v val, ¬ Values s a v val) : Worth s a 0
  | latest {v : Uuid} {val : ValuationRow} (h : Values s a v val)
      (hmax : ∀ v' val', Values s a v' val' → val'.recordedOn ≤ val.recordedOn) :
      Worth s a val.value

/-- Assets show the worth that their valuations give them, each valuation is of
a stored asset, and no asset is valued twice on one day. -/
structure HistoryOk (s : Db) : Prop where
  worth : ∀ a r, s.asset a = some r → Worth s a r.currentValue
  owned : ∀ a v val, Values s a v val → ∃ r, s.asset a = some r
  dated : ∀ a v v' val val', Values s a v val → Values s a v' val' →
    val.recordedOn = val'.recordedOn → v = v'

structure AssetDb where
  store : Db
  ok : HistoryOk store

instance : Inhabited AssetDb :=
  ⟨∅, fun _ _ h => by simp [Db.asset] at h, fun _ _ _ h => by simpa [Db.valuation] using h.stored,
    fun _ _ _ _ _ h => by simpa [Db.valuation] using h.stored⟩

/-- The tables later on: valuations stay and newer ones are of later days, and
an asset stays, in the currency it had at its first valuation. -/
structure Extends (s s' : Db) : Prop where
  kept : ∀ a v val, Values s a v val → Values s' a v val
  later : ∀ a v val v' val', Values s' a v val → s.valuation v = none →
    Values s a v' val' → val'.recordedOn < val.recordedOn
  currency : ∀ a r v val, s.asset a = some r → Values s a v val →
    ∃ r', s'.asset a = some r' ∧ r'.currency = r.currency

theorem Values.unique {s : Db} {a a' v : Uuid} {val val' : ValuationRow} (h : Values s a v val)
    (h' : Values s a' v val') : val = val' :=
  Option.some.inj (h.stored.symm.trans h'.stored)

theorem Extends.refl (s : Db) : Extends s s where
  kept _ _ _ h := h
  later _ _ _ _ _ h hnone _ := by simp [h.stored] at hnone
  currency _ r _ _ hr _ := ⟨r, hr, rfl⟩

theorem Extends.trans {s s' s'' : Db} (h : Extends s s') (h' : Extends s' s'') :
    Extends s s'' where
  kept a v val hv := h'.kept a v val (h.kept a v val hv)
  later a v val v' val' hv hnone hv' := by
    cases hmid : s'.valuation v with
    | none => exact h'.later a v val v' val' hv hmid (h.kept a v' val' hv')
    | some mid =>
        -- the valuation was added in the first part, and stayed
        have hkept := h'.kept _ v mid ⟨hmid, rfl⟩
        obtain rfl := hkept.unique hv
        exact h.later a v mid v' val' ⟨hmid, hv.asset⟩ hnone hv'
  currency a r v val hr hv := by
    obtain ⟨r', hr', hcurrency⟩ := h.currency a r v val hr hv
    obtain ⟨r'', hr'', hcurrency'⟩ := h'.currency a r' v val hr' (h.kept a v val hv)
    exact ⟨r'', hr'', hcurrency'.trans hcurrency⟩

/-- What a commit may do to the tables: write an asset but not its value, nor
its currency once it has valuations; or add a valuation later than the others,
which becomes the value of the asset. -/
inductive Effect (s : Db) : Db → Prop
  | asset {a : Uuid} {row : AssetRow} (hnew : s.asset a = none → row.currentValue = 0)
      (hold : ∀ old, s.asset a = some old → row.currentValue = old.currentValue ∧
        (row.currency = old.currency ∨ ∀ v val, ¬ Values s a v val)) :
      Effect s (put s (Key.asset a) (some row))
  | valuation {v : Uuid} {val : ValuationRow} {old : AssetRow} {now : Timestamp}
      (hold : s.asset val.assetId = some old) (hnew : s.valuation v = none)
      (hlater : ∀ v' val', Values s val.assetId v' val' → val'.recordedOn < val.recordedOn) :
      Effect s (put (put s (Key.valuation v) (some val)) (Key.asset val.assetId)
        (some ({ old with currentValue := val.value, updatedAt := now } : AssetRow)))

section Writes

variable {s : Db} {a v : Uuid} {val : ValuationRow}

theorem asset_put_self (r : Option AssetRow) : Db.asset (put s (Key.asset a) r) a = r :=
  lookup_put_self s (Key.asset a) r

theorem asset_put_of_ne {k : Key} (h : Key.asset a ≠ k) (r : Option (Row k)) :
    Db.asset (put s k r) a = s.asset a :=
  lookup_put_of_ne h r

theorem valuation_put_self (r : Option ValuationRow) :
    Db.valuation (put s (Key.valuation v) r) v = r :=
  lookup_put_self s (Key.valuation v) r

theorem valuation_put_of_ne {k : Key} (h : Key.valuation v ≠ k) (r : Option (Row k)) :
    Db.valuation (put s k r) v = s.valuation v :=
  lookup_put_of_ne h r

theorem valuation_put_asset (r : Option AssetRow) (v : Uuid) :
    Db.valuation (put s (Key.asset a) r) v = s.valuation v :=
  valuation_put_of_ne (k := Key.asset a) (by simp) r

theorem values_put_asset {b : Uuid} (r : Option AssetRow) :
    Values (put s (Key.asset b) r) a v val ↔ Values s a v val := by
  constructor
  · rintro ⟨hstored, hasset⟩
    exact ⟨(valuation_put_asset r v).symm.trans hstored, hasset⟩
  · rintro ⟨hstored, hasset⟩
    exact ⟨(valuation_put_asset r v).trans hstored, hasset⟩

theorem values_put_valuation {w : Uuid} {new : ValuationRow} (hnew : s.valuation w = none) :
    Values (put s (Key.valuation w) (some new)) a v val ↔
      Values s a v val ∨ (v = w ∧ val = new ∧ new.assetId = a) := by
  constructor
  · rintro ⟨hstored, hasset⟩
    by_cases hv : v = w
    · subst hv
      obtain rfl := Option.some.inj ((valuation_put_self (some new)).symm.trans hstored)
      exact Or.inr ⟨rfl, rfl, hasset⟩
    · exact Or.inl ⟨(valuation_put_of_ne (by simpa using hv) _).symm.trans hstored, hasset⟩
  · rintro (⟨hstored, hasset⟩ | ⟨rfl, rfl, hasset⟩)
    · refine ⟨(valuation_put_of_ne ?_ _).trans hstored, hasset⟩
      rintro ⟨⟩
      simp [hnew] at hstored
    · exact ⟨valuation_put_self _, hasset⟩

theorem Worth.congr {s s' : Db} {x : Cents} (h : Worth s a x)
    (hsame : ∀ v val, Values s' a v val ↔ Values s a v val) : Worth s' a x := by
  cases h with
  | none hnone => exact .none fun v val hv => hnone v val ((hsame v val).mp hv)
  | latest hv hmax =>
      exact .latest ((hsame _ _).mpr hv) fun v' val' hv' => hmax v' val' ((hsame v' val').mp hv')

end Writes

theorem Effect.historyOk {s s' : Db} (h : Effect s s') (hs : HistoryOk s) : HistoryOk s' := by
  cases h with
  | @asset a row hnew hold =>
      refine ⟨fun b r hr => ?_, fun b v val hv => ?_, fun b v v' val val' hv hv' => ?_⟩
      · refine Worth.congr ?_ fun v val => values_put_asset _
        by_cases hb : b = a
        · subst hb
          obtain rfl := Option.some.inj ((asset_put_self (some row)).symm.trans hr)
          cases hstored : s.asset b with
          | none =>
              rw [hnew hstored]
              refine .none fun v val hv => ?_
              obtain ⟨r, hr⟩ := hs.owned b v val hv
              simp [hstored] at hr
          | some old => exact (hold old hstored).1 ▸ hs.worth b old hstored
        · rw [asset_put_of_ne (by simpa using hb)] at hr
          exact hs.worth b r hr
      · obtain ⟨r, hr⟩ := hs.owned b v val ((values_put_asset _).mp hv)
        by_cases hb : b = a
        · subst hb
          exact ⟨row, asset_put_self _⟩
        · exact ⟨r, (asset_put_of_ne (by simpa using hb) _).trans hr⟩
      · exact hs.dated b v v' val val' ((values_put_asset _).mp hv) ((values_put_asset _).mp hv')
  | @valuation w new old now hold hnew hlater =>
      have hvalues : ∀ b v val, Values (put (put s (Key.valuation w) (some new))
          (Key.asset new.assetId)
          (some ({ old with currentValue := new.value, updatedAt := now } : AssetRow))) b v val ↔
          Values s b v val ∨ (v = w ∧ val = new ∧ new.assetId = b) :=
        fun b v val => (values_put_asset _).trans (values_put_valuation hnew)
      refine ⟨fun b r hr => ?_, fun b v val hv => ?_, fun b v v' val val' hv hv' hdate => ?_⟩
      · by_cases hb : b = new.assetId
        · subst hb
          obtain rfl := Option.some.inj ((asset_put_self _).symm.trans hr)
          refine Worth.latest ((hvalues _ w new).mpr (Or.inr ⟨rfl, rfl, rfl⟩)) fun v' val' hv' => ?_
          rcases (hvalues _ v' val').mp hv' with hv' | ⟨rfl, rfl, -⟩
          · exact (hlater v' val' hv').le
          · exact le_rfl
        · rw [asset_put_of_ne (by simpa using hb), asset_put_of_ne (by simp)] at hr
          refine (hs.worth b r hr).congr fun v val => (hvalues b v val).trans ?_
          exact or_iff_left fun h => hb h.2.2.symm
      · by_cases hb : b = new.assetId
        · subst hb
          exact ⟨_, asset_put_self _⟩
        · rcases (hvalues b v val).mp hv with hv | ⟨-, -, rfl⟩
          · obtain ⟨r, hr⟩ := hs.owned b v val hv
            refine ⟨r, (asset_put_of_ne (by simpa using hb) _).trans ?_⟩
            exact (asset_put_of_ne (by simp) _).trans hr
          · exact absurd rfl hb
      · rcases (hvalues b v val).mp hv with hold | ⟨rfl, rfl, hb⟩
        · rcases (hvalues b v' val').mp hv' with hold' | ⟨rfl, rfl, hb⟩
          · exact hs.dated b v v' val val' hold hold' hdate
          · subst hb
            exact absurd hdate (hlater v val hold).ne
        · rcases (hvalues b v' val').mp hv' with hold' | ⟨rfl, rfl, -⟩
          · subst hb
            exact absurd hdate (hlater v' val' hold').ne'
          · rfl

theorem Effect.extends {s s' : Db} (h : Effect s s') : Extends s s' := by
  cases h with
  | @asset a row hnew hold =>
      refine ⟨fun b v val hv => (values_put_asset _).mpr hv, fun b v val v' val' hv hnone _ => ?_,
        fun b r v val hr hv => ?_⟩
      · simp [((values_put_asset _).mp hv).stored] at hnone
      · by_cases hb : b = a
        · subst hb
          refine ⟨row, asset_put_self _, ?_⟩
          exact (hold r hr).2.resolve_right fun hnone => hnone v val hv
        · exact ⟨r, (asset_put_of_ne (by simpa using hb) _).trans hr, rfl⟩
  | @valuation w new old now hold hnew hlater =>
      refine ⟨fun b v val hv => ?_, fun b v val v' val' hv hnone hv' => ?_,
        fun b r v val hr hv => ?_⟩
      · exact (values_put_asset _).mpr ((values_put_valuation hnew).mpr (Or.inl hv))
      · rcases (values_put_valuation hnew).mp ((values_put_asset _).mp hv) with hv | ⟨-, rfl, rfl⟩
        · simp [hv.stored] at hnone
        · exact hlater v' val' hv'
      · by_cases hb : b = new.assetId
        · subst hb
          obtain rfl := Option.some.inj (hold.symm.trans hr)
          exact ⟨_, asset_put_self _, rfl⟩
        · refine ⟨r, (asset_put_of_ne (by simpa using hb) _).trans ?_, rfl⟩
          exact (asset_put_of_ne (by simp) _).trans hr

theorem Effect.added_unique {s s' : Db} (h : Effect s s') {v v' : Uuid}
    (hv : s'.valuation v ≠ s.valuation v) (hv' : s'.valuation v' ≠ s.valuation v') : v = v' := by
  cases h with
  | asset hnew hold => exact absurd (valuation_put_asset _ v) hv
  | @valuation w new old now hold hnew hlater =>
      have hne : ∀ u, Db.valuation (put (put s (Key.valuation w) (some new))
          (Key.asset new.assetId)
          (some ({ old with currentValue := new.value, updatedAt := now } : AssetRow))) u ≠
          s.valuation u → u = w := by
        intro u hu
        by_contra huw
        exact hu ((valuation_put_asset _ u).trans (valuation_put_of_ne (by simpa using huw) _))
      rw [hne v hv, hne v' hv']

end PersonalDashboard.AssetHistory
