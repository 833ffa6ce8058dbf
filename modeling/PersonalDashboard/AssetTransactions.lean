import PersonalDashboard.AssetHistory

/-! The requests that write assets keep the history of every asset. -/

set_option autoImplicit false

namespace PersonalDashboard.AssetTransactions

open PersonalDashboard.AssetHandlers
open PersonalDashboard.AssetHistory
open PersonalDashboard.Calendar
open PersonalDashboard.LedgerHandlers
open PersonalDashboard.ReadCommitted
open PersonalDashboard.ReadCommitted.Config
open PersonalDashboard.RowStatements
open PersonalDashboard.RowStore
open PersonalDashboard.Schema
open PersonalDashboard.TaskHandlers
open PersonalDashboard.TransactionLogic
open PersonalDashboard.TransactionLogic.Contract
open PersonalDashboard.Validation

/-- The valuations of an asset belong to the region of its lock: every request
that values or relabels an asset locks it. -/
def history : Contract Row AppError where
  Region k := Option (Row k) × (Uuid → Option ValuationRow)
  region k s := (s.lookup k, fun v =>
    match k with
    | .asset a => (Db.valuation s v).filter fun val => val.assetId = a
    | _ => none)
  lookup_congr _ _ _ h := congrArg Prod.fst h
  inv := HistoryOk
  admits _ _ _ _ := True
  fault := .internal

section Regions

variable {t : history.Open} {c c' : Db} {a : Uuid}

theorem values_congr (h : t.Locks (Key.asset a)) (hc : Sees t c) (hc' : Sees t c') (v : Uuid)
    (val : ValuationRow) : Values c a v val ↔ Values c' a v val := by
  have hregion := congrFun (congrArg Prod.snd (region_congr t h hc hc')) v
  have hfilter : ∀ s : Db, Values s a v val ↔
      (Db.valuation s v).filter (fun val => val.assetId = a) = some val := by
    intro s
    rw [Option.filter_eq_some_iff, decide_eq_true_iff]
    exact ⟨fun hv => ⟨hv.stored, hv.asset⟩, fun hv => ⟨hv.1, hv.2⟩⟩
  rw [hfilter, hfilter]
  exact Eq.congr_left hregion

theorem region_of_not_locks {k : Key} (hk : ¬ t.Locks k)
    (hvalues : ∀ a, Key.asset a = k → ∀ v,
      (Db.valuation (t.view c) v).filter (fun val => val.assetId = a) =
        (c.valuation v).filter fun val => val.assetId = a) :
    history.region k (t.view c) = history.region k c := by
  refine Prod.ext (lookup_view_of_not_locks t hk c) (funext fun v => ?_)
  cases k with
  | asset a => exact hvalues a rfl v
  | _ => rfl

theorem publishable_of_effect (h : Effect c (t.view c)) (hc : Sees t c)
    (hlocks : ∀ v val, Db.valuation (t.view c) v = some val → c.valuation v = none →
      t.Locks (Key.asset val.assetId)) : history.Publishable Effect t c where
  unlocked k hk := by
    refine region_of_not_locks hk fun a ha v => ?_
    subst ha
    cases hold : c.valuation v with
    | some val => rw [(h.extends.kept _ v val ⟨hold, rfl⟩).stored]
    | none =>
        cases hnew : Db.valuation (t.view c) v with
        | none => rfl
        | some val =>
            have hne : val.assetId ≠ a := by
              rintro rfl
              exact hk (hlocks v val hnew hold)
            rw [Option.filter_none, Option.filter_some, if_neg (by simpa using hne)]
  inv := h.historyOk hc.inv
  allowed := h

end Regions

theorem mem_valuationsOf {s : Db} {a : Uuid} {val : ValuationRow} :
    val ∈ valuationsOf a s ↔ ∃ v, Values s a v val := by
  simp only [valuationsOf, List.mem_filterMap]
  constructor
  · rintro ⟨⟨k, r⟩, hmem, hval⟩
    cases k with
    | valuation v =>
        obtain ⟨hasset, hr⟩ := Option.ite_none_right_eq_some.mp hval
        obtain rfl := Option.some.inj hr
        exact ⟨v, AList.mem_lookup_iff.mpr hmem, hasset⟩
    | _ => cases hval
  · rintro ⟨v, hstored, hasset⟩
    exact ⟨⟨.valuation v, val⟩, AList.mem_lookup_iff.mp hstored, if_pos hasset⟩

theorem not_values_of_assetValuationsExistSql {s : Db} {a : Uuid}
    (h : assetValuationsExistSql a s = false) (v : Uuid) (val : ValuationRow) :
    ¬ Values s a v val := by
  intro hv
  have hmem := mem_valuationsOf.mpr ⟨v, hv⟩
  have hnil : valuationsOf a s = [] := by simpa [assetValuationsExistSql] using h
  rw [hnil] at hmem
  cases hmem

theorem lt_of_maxValuationSql {s : Db} {a : Uuid} {d : NaiveDate}
    (h : ((maxValuationSql a s).any fun latest => d ≤ latest) = false) {v : Uuid}
    {val : ValuationRow} (hv : Values s a v val) : val.recordedOn < d := by
  have hmem : val.recordedOn ∈ (valuationsOf a s).map ValuationRow.recordedOn :=
    List.mem_map_of_mem (mem_valuationsOf.mpr ⟨v, hv⟩)
  cases hmax : maxValuationSql a s with
  | none =>
      have hnil : (valuationsOf a s).map ValuationRow.recordedOn = [] :=
        List.max?_eq_none_iff.mp hmax
      rw [hnil] at hmem
      cases hmem
  | some latest =>
      rw [hmax, Option.any_some, decide_eq_false_iff_not, not_le] at h
      exact ((List.max?_eq_some_iff.mp hmax).2 _ hmem).trans_lt h

section Rules

variable {γ : Type} {G : Db → Db → Prop} {t : history.Open} {o : Option history.Open}
  {done : List (Db × Db)} {post : history.Post γ}

theorem seq_assetNotWritable {assetId : Uuid} {next : Unit → Handler γ}
    (herr : post.MayFail done) :
    history.wp G ((assetNotWritable assetId).bind next) post o done := by
  unfold assetNotWritable
  simp only [Prog.bind_eq, Prog.bind_assoc]
  refine seq_select herr fun c _ => seq_failIf herr fun hthere => seq_failIf herr fun hnot => ?_
  simp [hthere] at hnot

theorem seq_ensureAssetWritable {assetId userId : Uuid} {next : Unit → Handler γ}
    (herr : post.MayFail done) (h : history.wp G (next ()) post o done) :
    history.wp G ((ensureAssetWritable assetId userId).bind next) post o done := by
  unfold ensureAssetWritable
  simp only [Prog.bind_eq, Prog.bind_assoc]
  exact seq_select herr fun c _ =>
    seq_whenever (fun _ => seq_assetNotWritable herr) fun _ => h

theorem seq_lockAsset {assetId userId : Uuid} {next : Unit → Handler γ}
    (herr : post.MayFail done)
    (h : ∀ r t', t.Step t' (Key.asset assetId) id →
      (∀ c, Sees t' c → Db.asset (t.view c) assetId = some r) →
      history.wp G (next ()) post (some t') done) :
    history.wp G ((lockAsset assetId userId).bind next) post (some t) done := by
  unfold lockAsset
  simp only [Prog.bind_eq, Prog.bind_assoc]
  refine wp_seq (wp_selectFor rfl (herr _ _) (fun _ => herr _ _) ?_ ?_)
  · intro c _ _
    exact seq_whenever (fun _ => seq_assetNotWritable herr) fun hsome => absurd rfl hsome
  · intro c r hc hr _
    refine seq_whenever (fun hnone => by cases hnone) fun _ => ?_
    exact h r _ (step_lock t _ c .keep) fun _ hc' => (lookup_view_of_sees_lock t hc').trans hr

theorem seq_ensureAccountOwnedOpt {accountId : Option Uuid} {userId : Uuid}
    {next : Unit → Handler γ} (herr : post.MayFail done)
    (h : history.wp G (next ()) post o done) :
    history.wp G ((ensureAccountOwnedOpt accountId userId).bind next) post o done := by
  cases accountId with
  | none => exact h
  | some accountId =>
      unfold ensureAccountOwnedOpt ensureAccountOwned
      simp only [Prog.bind_eq, Prog.bind_assoc]
      exact seq_select herr fun c _ => seq_failIf herr fun _ => h

/-- The currency guard: the currency stays, or there is nothing it could
relabel. -/
theorem seq_guardCurrency {id userId : Uuid} {currency : Option String} {r : AssetRow}
    {next : Unit → Handler γ} (herr : post.MayFail done) (hlock : t.Locks (Key.asset id))
    (hview : ∀ c, Sees t c → t.view c = c) (hr : ∀ c, Sees t c → Db.asset c id = some r)
    (h : (currency.getD r.currency = r.currency ∨
        ∀ c, Sees t c → ∀ v val, ¬ Values c id v val) →
      history.wp G (next ()) post (some t) done) :
    history.wp G ((guardCurrency id userId currency).bind next) post (some t) done := by
  cases currency with
  | none => exact h (Or.inl rfl)
  | some currency =>
      unfold guardCurrency
      simp only [Prog.bind_eq, Prog.bind_assoc]
      refine seq_select herr fun c hc => seq_ofOption herr fun stored hstored => ?_
      refine seq_whenever (fun _ => ?_) fun hsame => ?_
      · simp only [Prog.bind_assoc]
        refine seq_select herr fun c₁ hc₁ => seq_failIf herr fun hnone => h (Or.inr ?_)
        intro c₂ hc₂ v val hv
        have hnone' : assetValuationsExistSql id c₁ = false := hview c₁ hc₁ ▸ hnone
        exact not_values_of_assetValuationsExistSql hnone' v val
          ((values_congr hlock hc₂ hc₁ v val).mp hv)
      · have hrow : Db.asset (t.view c) id = some r := (hview c hc).symm ▸ hr c hc
        simp only [Option.getD_some, assetCurrencySql] at hstored
        rw [hrow, Option.map_eq_some_iff] at hstored
        obtain ⟨r', hr', rfl⟩ := hstored
        obtain rfl := Option.some.inj (Option.filter_eq_some_iff.mp hr').1
        exact h (Or.inl (not_not.mp hsame))

theorem seq_guardOrder {assetId : Uuid} {recordedOn : NaiveDate} {next : Unit → Handler γ}
    (herr : post.MayFail done) (hlock : t.Locks (Key.asset assetId))
    (hview : ∀ c, Sees t c → t.view c = c)
    (h : (∀ c, Sees t c → ∀ v val, Values c assetId v val → val.recordedOn < recordedOn) →
      history.wp G (next ()) post (some t) done) :
    history.wp G ((guardOrder assetId recordedOn).bind next) post (some t) done := by
  unfold guardOrder
  simp only [Prog.bind_eq, Prog.bind_assoc]
  refine seq_select herr fun c hc => seq_failIf herr fun hmax => h ?_
  intro c' hc' v val hv
  have hmax' : ((maxValuationSql assetId c).any fun latest => recordedOn ≤ latest) = false :=
    hview c hc ▸ hmax
  exact lt_of_maxValuationSql hmax' ((values_congr hlock hc' hc v val).mp hv)

theorem seq_insertValuation {now : Timestamp} {row : ValuationRow} {r : AssetRow}
    {next : Uuid → Handler γ} (herr : post.MayFail done)
    (hr : ∀ c, Sees t c → Db.asset (t.view c) row.assetId = some r)
    (h : ∀ id t', (∀ c, Sees t' c → Sees t c) → t'.Locks (Key.asset row.assetId) →
      (∀ c, Sees t' c → Db.valuation c id = none) →
      (∀ c, Sees t' c → t'.view c = put (put (t.view c) (Key.valuation id) (some row))
        (Key.asset row.assetId)
        (some ({ r with currentValue := row.value, updatedAt := now } : AssetRow))) →
      history.wp G (next id) post (some t') done) :
    history.wp G ((insertValuation now row).bind next) post (some t) done := by
  unfold insertValuation
  simp only [Prog.bind_eq, Prog.bind_assoc, Prog.pure_eq, Prog.ret_bind]
  refine seq_lockSlot herr fun _ t₁ h₁ _ => seq_failIf herr fun _ => ?_
  refine seq_freshId herr fun id t₂ h₂ _ hfresh => ?_
  refine seq_insert herr fun _ t₃ h₃ _ _ => seq_foreignKey herr ?_
  have hsees : ∀ c, Sees t₃ c → Sees t c :=
    fun c hc => h₁.sees c (h₂.sees c (h₃.sees c hc))
  have hview : ∀ c, Sees t₃ c →
      t₃.view c = put (t.view c) (Key.valuation id) (some row) := by
    intro c hc
    have hc₂ := h₃.sees c hc
    rw [h₃.view c hc, h₂.view c hc₂, id_eq, h₁.view c (h₂.sees c hc₂), id_eq]
  have hasset : ∀ c, Sees t₃ c → Db.asset (t₃.view c) row.assetId = some r := by
    intro c hc
    rw [hview c hc, asset_put_of_ne (by simp)]
    exact hr c (hsees c hc)
  refine seq_update rfl herr (fun c hc => ?_) fun old new t₄ h₄ => ?_
  · exact found_eq_true.mpr ⟨r, hasset c hc, rfl⟩
  · refine h id t₄ (fun c hc => hsees c (h₄.step.sees c hc))
      ((h₄.step.locks _).mpr (Or.inl rfl))
      (fun c hc => hfresh c (h₃.sees c (h₄.step.sees c hc))) fun c hc => ?_
    have hc₃ := h₄.step.sees c hc
    obtain rfl : old = r := Option.some.inj ((h₄.old c hc).symm.trans (hasset c hc₃))
    obtain ⟨_, _, _, _, _, hnew⟩ := h₄.admitted
    obtain rfl := Except.ok.inj hnew
    rw [h₄.step.view c hc, hview c hc₃]

theorem seq_patchAsset {id userId : Uuid} {patch : AssetPatch} {now : Timestamp} {r : AssetRow}
    {next : AssetRow → Handler γ} (herr : post.MayFail done)
    (hr : ∀ c, Sees t c → Db.asset (t.view c) id = some r)
    (h : ∀ t', t.Step t' (Key.asset id) (fun s => put s (Key.asset id) (some (patch.apply now r))) →
      history.wp G (next (patch.apply now r)) post (some t') done) :
    history.wp G ((patchAsset id userId patch now).bind next) post (some t) done := by
  unfold patchAsset
  simp only [Prog.bind_eq, Prog.bind_assoc, Prog.pure_eq, Prog.ret_bind]
  refine seq_fetchFor rfl herr fun r₁ t₁ h₁ hown hr₁ => ?_
  have hrow : ∀ c, Sees t₁ c → Db.asset (t₁.view c) id = some r₁ := by
    intro c hc
    rw [h₁.view c hc]
    exact hr₁ c hc
  refine seq_update rfl herr (fun c hc => found_eq_true.mpr ⟨r₁, hrow c hc, hown⟩)
    fun old new t₂ h₂ => seq_whenever_foreignKeyOpt herr ?_
  obtain ⟨_, c, _, hc, _, hnew⟩ := h₂.admitted
  obtain rfl := Except.ok.inj hnew
  obtain rfl : r₁ = r := by
    have hc₁ := h₂.step.sees c hc
    exact Option.some.inj ((hr₁ c hc₁).symm.trans (hr c (h₁.sees c hc₁)))
  exact h t₂ (h₁.comp t h₂.step)

end Rules

theorem wp_createAssetHandler (toUppercase : String → String) (caller : Caller)
    (body : CreateAssetRequest) :
    history.wp Effect (createAssetHandler toUppercase caller body) (history.atomically _)
      none [] := by
  have herr := mayFail_atomically history (Stored AssetRow)
  unfold createAssetHandler
  simp only [Prog.bind_eq, Prog.pure_eq]
  refine seq_ofExcept herr fun _ _ => seq_ofExcept herr fun _ _ => ?_
  refine seq_ensureAccountOwnedOpt herr ?_
  refine seq_ofExcept herr fun _ _ => seq_ofExcept herr fun _ _ => ?_
  refine seq_ofExcept herr fun _ _ => seq_beginTx herr ?_
  refine seq_freshId herr fun id t₁ h₁ _ hfresh => ?_
  refine seq_insert herr fun _ t₂ h₂ _ _ => seq_foreignKeyOpt herr ?_
  refine seq_commitTx herr (fun c hc => ?_) fun c hc => (wp_ret _ _).mpr rfl
  have hc₁ := h₂.sees c hc
  have hnone : Db.asset c id = none := hfresh c hc₁
  have hview := h₂.view c hc
  rw [h₁.view c hc₁, id_eq, view_empty] at hview
  refine publishable_of_effect ?_ hc fun v val hnew hold => ?_
  · rw [hview]
    exact .asset (fun _ => rfl) fun old hold => by simp [hnone] at hold
  · rw [hview, valuation_put_asset, hold] at hnew
    cases hnew

theorem wp_deleteAssetHandler (caller : Caller) (id : Uuid) :
    history.wp Effect (deleteAssetHandler caller id) (history.atomically _) none [] := by
  have herr := mayFail_atomically history Unit
  unfold deleteAssetHandler
  simp only [Prog.bind_eq]
  refine seq_beginTx herr (seq_fetchUpdate rfl herr fun r r' t h => ?_)
  refine wp_commitTx (herr _ _) fun c hc => ⟨?_, rfl⟩
  obtain ⟨_, _, _, _, _, hr'⟩ := h.admitted
  obtain rfl := Except.ok.inj hr'
  have hr : Db.asset c id = some r := h.old c hc
  have hview := h.step.view c hc
  rw [view_empty] at hview
  refine publishable_of_effect ?_ hc fun v val hnew hold => ?_
  · rw [hview]
    refine .asset (fun hnone => by simp [hnone] at hr) fun old hold => ?_
    obtain rfl := Option.some.inj (hr.symm.trans hold)
    exact ⟨rfl, Or.inl rfl⟩
  · rw [hview, valuation_put_asset, hold] at hnew
    cases hnew

theorem wp_patchAssetHandler (toUppercase : String → String) (caller : Caller) (id : Uuid)
    (body : PatchAssetRequest) :
    history.wp Effect (patchAssetHandler toUppercase caller id body) (history.atomically _)
      none [] := by
  have herr := mayFail_atomically history (Stored AssetRow)
  unfold patchAssetHandler
  simp only [Prog.bind_eq, Prog.pure_eq]
  refine seq_ofExcept herr fun _ _ => seq_ensureAssetWritable herr ?_
  refine seq_beginTx herr (seq_lockAsset herr fun r t₁ h₁ hr => ?_)
  have hlock : t₁.Locks (Key.asset id) := (h₁.locks _).mpr (Or.inl rfl)
  have hview : ∀ c, Sees t₁ c → t₁.view c = c := h₁.view
  have hrow : ∀ c, Sees t₁ c → Db.asset c id = some r := hr
  refine seq_ofExcept herr fun name _ => seq_ofExcept herr fun category _ => ?_
  refine seq_ensureAccountOwnedOpt herr (seq_ofExcept herr fun currency _ => ?_)
  refine seq_guardCurrency herr hlock hview hrow fun hcurrency => ?_
  refine seq_ofExcept herr fun acquiredOn _ => seq_ofExcept herr fun _ _ => ?_
  refine seq_patchAsset herr (fun c hc => (hview c hc).symm ▸ hrow c hc) fun t₂ h₂ => ?_
  refine seq_commitTx herr (fun c hc => ?_) fun c hc => (wp_ret _ _).mpr rfl
  have hc₁ := h₂.sees c hc
  have hview₂ := h₂.view c hc
  rw [hview c hc₁] at hview₂
  refine publishable_of_effect ?_ hc fun v val hnew hold => ?_
  · rw [hview₂]
    refine .asset (fun hnone => by simp [hrow c hc₁] at hnone) fun old hold => ?_
    obtain rfl := Option.some.inj ((hrow c hc₁).symm.trans hold)
    exact ⟨rfl, hcurrency.imp_right fun hnone => hnone c hc₁⟩
  · rw [hview₂, valuation_put_asset, hold] at hnew
    cases hnew

theorem wp_createValuationHandler (caller : Caller) (assetId : Uuid)
    (body : CreateValuationRequest) :
    history.wp Effect (createValuationHandler caller assetId body) (history.atomically _)
      none [] := by
  have herr := mayFail_atomically history (Stored ValuationRow)
  unfold createValuationHandler
  simp only [Prog.bind_eq, Prog.pure_eq]
  refine seq_ofExcept herr fun value _ => seq_ofExcept herr fun recordedOn _ => ?_
  refine seq_ofExcept herr fun _ _ => seq_beginTx herr ?_
  refine seq_lockAsset herr fun r t₁ h₁ hr => ?_
  have hlock : t₁.Locks (Key.asset assetId) := (h₁.locks _).mpr (Or.inl rfl)
  have hview : ∀ c, Sees t₁ c → t₁.view c = c := h₁.view
  have hrow : ∀ c, Sees t₁ c → Db.asset c assetId = some r := hr
  refine seq_guardOrder herr hlock hview fun horder => ?_
  refine seq_insertValuation herr (fun c hc => (hview c hc).symm ▸ hrow c hc)
    fun id t₂ hsees hlock₂ hfresh hview₂ => ?_
  refine seq_commitTx herr (fun c hc => ?_) fun c hc => (wp_ret _ _).mpr rfl
  have hc₁ := hsees c hc
  have hstored := hview₂ c hc
  rw [hview c hc₁] at hstored
  refine publishable_of_effect ?_ hc fun v val hnew hold => ?_
  · rw [hstored]
    exact .valuation (hrow c hc₁) (hfresh c hc) (horder c hc₁)
  · rw [hstored, valuation_put_asset] at hnew
    by_cases hv : v = id
    · subst hv
      obtain rfl := Option.some.inj ((valuation_put_self _).symm.trans hnew)
      exact hlock₂
    · rw [valuation_put_of_ne (by simpa using hv), hold] at hnew
      cases hnew

theorem wp_serveAsset (toUppercase : String → String) (caller : Caller) (r : AssetRequest) :
    history.wp Effect (serveAsset toUppercase caller r) (history.atomically _) none [] := by
  cases r with
  | create body => exact wp_atomically_map _ (wp_createAssetHandler toUppercase caller body)
  | patch id body => exact wp_atomically_map _ (wp_patchAssetHandler toUppercase caller id body)
  | archive id => exact wp_atomically_map _ (wp_deleteAssetHandler caller id)
  | value assetId body => exact wp_atomically_map _ (wp_createValuationHandler caller assetId body)

variable {ι : Type} [DecidableEq ι]

def assetRun (toUppercase : String → String) (db : AssetDb) (requests : ι → Caller × AssetRequest)
    (cs : List (Choice ι)) : Config ι Row SqlState AppError AssetAnswer :=
  run .internal (start db.store fun i => serveAsset toUppercase (requests i).1 (requests i).2) cs

def Answered (r : Except AppError AssetAnswer) (done : List (Db × Db)) : Prop :=
  match r with
  | .ok _ => done.length = 1
  | .error _ => done = []

theorem sound_assetRun (toUppercase : String → String) (db : AssetDb)
    (requests : ι → Caller × AssetRequest) (cs : List (Choice ι)) :
    Sound history (fun _ => Effect) (fun _ => Answered) (assetRun toUppercase db requests cs) := by
  refine Sound.run (sound_start db.ok fun i => ?_) (admittedRun_of_forall (by simp [history]) _ _)
  refine wp_mono (fun r o done hr => ?_) (wp_serveAsset toUppercase (requests i).1 (requests i).2)
  cases r with
  | ok a => exact hr
  | error e => exact hr

theorem effect_assetRun_step (toUppercase : String → String) (db : AssetDb)
    (requests : ι → Caller × AssetRequest) (cs : List (Choice ι)) (c : Choice ι) :
    let s := assetRun toUppercase db requests cs
    let s' := assetRun toUppercase db requests (cs ++ [c])
    (s'.db = s.db ∧ s'.commits = s.commits) ∨
      (Effect s.db s'.db ∧ s'.commits = ⟨c.proc, s.db, s'.db⟩ :: s.commits) := by
  intro s s'
  have hstep : s' = step .internal s c := run_append _ _ cs [c]
  rcases grows_step .internal s c with hsame | hcommit
  · exact Or.inl (hstep ▸ hsame)
  · rw [← hstep] at hcommit
    have hmem : (⟨c.proc, s.db, s'.db⟩ : Commit ι Row) ∈ s'.commits :=
      hcommit ▸ List.mem_cons_self
    exact Or.inr ⟨(sound_assetRun toUppercase db requests (cs ++ [c])).allowed _ hmem, hcommit⟩

theorem extends_assetRun (toUppercase : String → String) (db : AssetDb)
    (requests : ι → Caller × AssetRequest) (cs cs' : List (Choice ι)) :
    Extends (assetRun toUppercase db requests cs).db
      (assetRun toUppercase db requests (cs ++ cs')).db := by
  induction cs' using List.reverseRecOn with
  | nil => exact (List.append_nil cs).symm ▸ Extends.refl _
  | append_singleton cs' c ih =>
      rw [← List.append_assoc]
      rcases effect_assetRun_step toUppercase db requests (cs ++ cs') c with ⟨hdb, -⟩ | ⟨heffect, -⟩
      · rwa [hdb]
      · exact ih.trans heffect.extends

/-- The value history of every asset, in every interleaving of the requests of
any users: each asset shows the worth its valuations give it; valuations are
added one by one, each of a later day than those before it, and from the first
on the asset keeps its currency; and a request that fails writes nothing. -/
theorem history_assetRun (toUppercase : String → String) (db : AssetDb)
    (requests : ι → Caller × AssetRequest) (cs cs' : List (Choice ι)) (c : Choice ι) :
    let s := assetRun toUppercase db requests cs
    HistoryOk s.db ∧
    Extends s.db (assetRun toUppercase db requests (cs ++ cs')).db ∧
    (∀ v v', Db.valuation (step .internal s c).db v ≠ Db.valuation s.db v →
      Db.valuation (step .internal s c).db v' ≠ Db.valuation s.db v' → v = v') ∧
    (Chained db.store s.commits s.db ∧
      ∀ i e, (s.procs i).prog = .throw e → ∀ d ∈ s.commits, d.proc ≠ i) := by
  intro s
  have hsound := sound_assetRun toUppercase db requests cs
  refine ⟨hsound.inv, extends_assetRun toUppercase db requests cs cs', fun v v' hv hv' => ?_,
    chained_run (chained_start _ _) _ _, fun i e hthrow d hd hproc => ?_⟩
  · have hstep : assetRun toUppercase db requests (cs ++ [c]) = step .internal s c :=
      run_append _ _ cs [c]
    rcases effect_assetRun_step toUppercase db requests cs c with ⟨hdb, -⟩ | ⟨heffect, -⟩
    · rw [hstep] at hdb
      exact absurd (congrArg (Db.valuation · v) hdb) hv
    · rw [hstep] at heffect
      exact heffect.added_unique hv hv'
  · have hnone : s.ownCommits i = [] := hsound.post_of_throw hthrow
    have hmem : (d.before, d.after) ∈ s.ownCommits i :=
      List.mem_map.mpr ⟨d, List.mem_filter.mpr ⟨hd, by simpa using hproc⟩, rfl⟩
    rw [hnone] at hmem
    cases hmem

end PersonalDashboard.AssetTransactions
