import RedRoomRewards.Service.Configs

/-! Which row the lookups of effective-dated configuration use: when it is the newest that is
in force at the time of the call. -/
namespace RedRoomRewards
open Store

section rows

/-- The rows a lookup of an exchange rate is about. -/
def MerchantPairConfigs.rows (configs : MerchantPairConfigs) (tenantId fromMerchantId toMerchantId : String) :
    List MerchantPairConfig :=
  configs.docs.filter fun c => c.tenantId = tenantId ∧ c.fromMerchantId = fromMerchantId ∧
    c.toMerchantId = toMerchantId

/-- The rows a lookup of an earn rate is about. -/
def EarnRateConfigs.rows (configs : EarnRateConfigs) (tenantId merchantId merchantTier eventClass : String) :
    List EarnRateConfig :=
  configs.docs.filter fun c => c.tenantId = tenantId ∧ c.merchantId = merchantId ∧
    c.merchantTier = merchantTier ∧ c.eventClass = eventClass

/-- The rows a lookup of a tier cap is about. -/
def TierCapConfigs.rows (configs : TierCapConfigs) (tenantId merchantId tierName : String) : List TierCapConfig :=
  configs.docs.filter fun c => c.tenantId = tenantId ∧ c.merchantId = merchantId ∧ c.tierName.code = tierName

end rows

section lookups
variable {now : Time} {tenantId merchantId fromMerchantId toMerchantId merchantTier eventClass tierName : String}

private theorem findConfig_eq (configs : MerchantPairConfigs) :
    CrossMerchantExchangeService.findConfig configs tenantId fromMerchantId toMerchantId now =
      (configs.rows tenantId fromMerchantId toMerchantId).find? fun c =>
        c.effectiveAt ≤ now ∧ c.supersededAt = none := by
  rw [CrossMerchantExchangeService.findConfig, MerchantPairConfigs.rows, List.find?_filter]
  congr 1
  funext c
  simp [and_assoc]

/-- The unique index leaves a pair one row that is not superseded. -/
private theorem active_unique (configs : MerchantPairConfigs) :
    ∀ c ∈ configs.rows tenantId fromMerchantId toMerchantId,
      ∀ c' ∈ configs.rows tenantId fromMerchantId toMerchantId,
        c.supersededAt = none → c'.supersededAt = none → c = c' := by
  intro c hc c' hc' hactive hactive'
  obtain ⟨hmem, hpair⟩ := List.mem_filter.mp hc
  obtain ⟨hmem', hpair'⟩ := List.mem_filter.mp hc'
  obtain ⟨htenant, hfrom, hto⟩ := of_decide_eq_true hpair
  obtain ⟨htenant', hfrom', hto'⟩ := of_decide_eq_true hpair'
  refine List.inj_on_of_nodup_map configs.active_nodup (List.mem_filter.mpr ⟨hmem, decide_eq_true hactive⟩)
    (List.mem_filter.mpr ⟨hmem', decide_eq_true hactive'⟩) ?_
  rw [MerchantPairConfig.pair, MerchantPairConfig.pair, htenant, hfrom, hto, htenant', hfrom', hto']

/-- The lookup of an exchange rate finds the newest row in force exactly if no row in force
whose end is set is newer than the row that has none and has taken effect. -/
theorem exchange_config_iff (configs : MerchantPairConfigs) :
    Selects MerchantPairConfig.effectiveAt MerchantPairConfig.supersededAt now
        (configs.rows tenantId fromMerchantId toMerchantId)
        (CrossMerchantExchangeService.findConfig configs tenantId fromMerchantId toMerchantId now) ↔
      OpenNewest MerchantPairConfig.effectiveAt MerchantPairConfig.supersededAt now (·.effectiveAt ≤ now)
        (configs.rows tenantId fromMerchantId toMerchantId) := by
  rw [findConfig_eq]
  exact selects_find_iff (active_unique configs)

theorem earnRate_config_iff (configs : EarnRateConfigs) :
    Selects EarnRateConfig.effectiveAt EarnRateConfig.supersededAt now
        (EarnRateConfigs.rows configs tenantId merchantId merchantTier eventClass)
        (PointAccrualService.findEarnRateConfig configs tenantId merchantId merchantTier eventClass) ↔
      (∀ c ∈ EarnRateConfigs.rows configs tenantId merchantId merchantTier eventClass,
        c.supersededAt = none → c.effectiveAt ≤ now) ∧
      OpenNewest EarnRateConfig.effectiveAt EarnRateConfig.supersededAt now (fun _ => True)
        (EarnRateConfigs.rows configs tenantId merchantId merchantTier eventClass) := by
  have hrows : PointAccrualService.findEarnRateConfig configs tenantId merchantId merchantTier eventClass =
      newest EarnRateConfig.effectiveAt ((EarnRateConfigs.rows configs tenantId merchantId merchantTier
        eventClass).filter fun c => c.supersededAt = none) := by
    rw [PointAccrualService.findEarnRateConfig, EarnRateConfigs.rows, List.filter_filter]
    congr 2
    funext c
    simp only [Bool.decide_and]
    ac_rfl
  rw [hrows]
  exact selects_newest_iff

theorem tierCap_config_iff (configs : TierCapConfigs) :
    Selects TierCapConfig.effectiveAt TierCapConfig.supersededAt now
        (TierCapConfigs.rows configs tenantId merchantId tierName)
        (PointRedemptionService.findTierCapConfig configs tenantId merchantId tierName) ↔
      (∀ c ∈ TierCapConfigs.rows configs tenantId merchantId tierName,
        c.supersededAt = none → c.effectiveAt ≤ now) ∧
      OpenNewest TierCapConfig.effectiveAt TierCapConfig.supersededAt now (fun _ => True)
        (TierCapConfigs.rows configs tenantId merchantId tierName) := by
  have hrows : PointRedemptionService.findTierCapConfig configs tenantId merchantId tierName =
      newest TierCapConfig.effectiveAt ((TierCapConfigs.rows configs tenantId merchantId tierName).filter
        fun c => c.supersededAt = none) := by
    rw [PointRedemptionService.findTierCapConfig, TierCapConfigs.rows, List.filter_filter]
    congr 2
    funext c
    simp only [Bool.decide_and]
    ac_rfl
  rw [hrows]
  exact selects_newest_iff

end lookups

section answers
variable {now : Time} {tenantId merchantId fromMerchantId toMerchantId merchantTier eventClass tierName : String}

/-- The exchange rate that a row gives. -/
def exchangeRateBy (found : Option MerchantPairConfig) : ℚ :=
  found.elim CrossMerchantExchangeService.defaultExchangeRate MerchantPairConfig.exchangeRate

/-- The points that a row gives for an amount, to a purchase of a kind. -/
def earnRateBy (tenantId merchantId merchantTier eventClass : String) :
    Option EarnRateConfig → ℚ → Bool → Except ServiceError ℚ
  | none, _, _ => .error (.error ["No active earn-rate config for tenant=", tenantId, " merchant=", merchantId,
      " tier=", merchantTier, " event=", eventClass])
  | some c, amount, isDiamondConcierge =>
    if isDiamondConcierge = true ∧ c.diamondConciergeZeroEarn = true then .ok 0
    else .ok (c.basePointsPerUnit * c.infernoMultiplier * amount)

/-- What a row says to a redemption out of the value of a transaction. -/
def tierCapBy (tenantId merchantId tierName : String) : Option TierCapConfig → ℚ → ℚ → Except ServiceError Unit
  | none, _, _ => .error (.error ["No active tier cap config for tenant=", tenantId, " merchant=", merchantId,
      " tier=", tierName])
  | some c, transactionValue, redemptionAmount =>
    if c.redemptionCapPct / 100 * transactionValue < redemptionAmount then
      .error (.error ["Redemption amount ", redemptionAmount, " exceeds tier cap of ", c.redemptionCapPct,
        "% (", c.redemptionCapPct / 100 * transactionValue, ") for tier ", tierName])
    else .ok ()

def MerchantPairConfig.withRate (rates : String → ℚ) (c : MerchantPairConfig) : MerchantPairConfig :=
  { c with exchangeRate := rates c.configId }

/-- The same rows with other rates. -/
def MerchantPairConfigs.withRates (configs : MerchantPairConfigs) (rates : String → ℚ) : MerchantPairConfigs where
  toCollection := configs.mapDocs (.withRate rates) fun _ => ⟨rfl, rfl⟩
  active_nodup := by
    show ((List.filter _ (configs.docs.map _)).map _).Nodup
    rw [List.filter_map, List.map_map]
    exact configs.active_nodup

/-- What an earn rate has beside its keys and dates. -/
structure EarnTerms where
  basePointsPerUnit : ℚ
  infernoMultiplier : ℚ
  diamondConciergeZeroEarn : Bool

def EarnRateConfig.withTerms (terms : String → EarnTerms) (c : EarnRateConfig) : EarnRateConfig :=
  { c with
    basePointsPerUnit := (terms c.configId).basePointsPerUnit
    infernoMultiplier := (terms c.configId).infernoMultiplier
    diamondConciergeZeroEarn := (terms c.configId).diamondConciergeZeroEarn }

def EarnRateConfigs.withTerms (configs : EarnRateConfigs) (terms : String → EarnTerms) : EarnRateConfigs :=
  configs.mapDocs (.withTerms terms) fun _ => ⟨rfl, rfl⟩

def TierCapConfig.withCap (caps : String → ℚ) (c : TierCapConfig) : TierCapConfig :=
  { c with redemptionCapPct := caps c.configId }

def TierCapConfigs.withCaps (configs : TierCapConfigs) (caps : String → ℚ) : TierCapConfigs :=
  configs.mapDocs (.withCap caps) fun _ => ⟨rfl, rfl⟩

/-- The ids tell the rows of a lookup apart. -/
private theorem row_unique {δ : Type} {id index : δ → String} {configs : Collection δ String String id index}
    {p : δ → Bool} : ∀ r ∈ configs.docs.filter p, ∀ r' ∈ configs.docs.filter p, id r = id r' → r = r' :=
  fun _ hr _ hr' h => List.inj_on_of_nodup_map configs.key_nodup (List.mem_of_mem_filter hr)
    (List.mem_of_mem_filter hr') h

theorem getExchangeRate_iff (configs : MerchantPairConfigs) :
    (∀ rates, FromActive MerchantPairConfig.effectiveAt MerchantPairConfig.supersededAt now
        ((configs.withRates rates).rows tenantId fromMerchantId toMerchantId) exchangeRateBy
        (CrossMerchantExchangeService.getExchangeRate (configs.withRates rates) tenantId fromMerchantId
          toMerchantId now)) ↔
      OpenNewest MerchantPairConfig.effectiveAt MerchantPairConfig.supersededAt now (·.effectiveAt ≤ now)
        (configs.rows tenantId fromMerchantId toMerchantId) := by
  have hedit : ∀ {rates} (c : MerchantPairConfig), (c.withRate rates).effectiveAt = c.effectiveAt ∧
      (c.withRate rates).supersededAt = c.supersededAt := fun _ => ⟨rfl, rfl⟩
  have hrows : ∀ rates, (configs.withRates rates).rows tenantId fromMerchantId toMerchantId =
      (configs.rows tenantId fromMerchantId toMerchantId).map (.withRate rates) :=
    fun rates => List.filter_map
  have hresult : ∀ rates, CrossMerchantExchangeService.getExchangeRate (configs.withRates rates) tenantId
      fromMerchantId toMerchantId now = exchangeRateBy ((CrossMerchantExchangeService.findConfig configs tenantId
        fromMerchantId toMerchantId now).map fun c => { c with exchangeRate := rates c.configId }) := by
    intro rates
    have hfind : CrossMerchantExchangeService.findConfig (configs.withRates rates) tenantId fromMerchantId
        toMerchantId now = (CrossMerchantExchangeService.findConfig configs tenantId fromMerchantId toMerchantId
          now).map (.withRate rates) := List.find?_map
    rw [CrossMerchantExchangeService.getExchangeRate, hfind]
    cases CrossMerchantExchangeService.findConfig configs tenantId fromMerchantId toMerchantId now <;> rfl
  simp only [hrows, hresult]
  refine (fromActive_iff exchangeRateBy id MerchantPairConfig.configId 2 3 (fun _ => hedit)
    (fun c hc => ?_) row_unique (fun _ _ => rfl) (by decide) (by decide)).trans (exchange_config_iff configs)
  rw [findConfig_eq] at hc
  exact List.mem_of_find?_eq_some hc

theorem calculateEarnRate_iff (configs : EarnRateConfigs) :
    (∀ terms, FromActive EarnRateConfig.effectiveAt EarnRateConfig.supersededAt now
        (EarnRateConfigs.rows (configs.withTerms terms) tenantId merchantId merchantTier eventClass)
        (earnRateBy tenantId merchantId merchantTier eventClass)
        (PointAccrualService.calculateEarnRate (configs.withTerms terms) tenantId merchantId merchantTier
          eventClass)) ↔
      (∀ c ∈ EarnRateConfigs.rows configs tenantId merchantId merchantTier eventClass,
        c.supersededAt = none → c.effectiveAt ≤ now) ∧
      OpenNewest EarnRateConfig.effectiveAt EarnRateConfig.supersededAt now (fun _ => True)
        (EarnRateConfigs.rows configs tenantId merchantId merchantTier eventClass) := by
  have hedit : ∀ {terms} (c : EarnRateConfig), (c.withTerms terms).effectiveAt = c.effectiveAt ∧
      (c.withTerms terms).supersededAt = c.supersededAt := fun _ => ⟨rfl, rfl⟩
  have hrows : ∀ terms, EarnRateConfigs.rows (configs.withTerms terms) tenantId merchantId merchantTier eventClass =
      (EarnRateConfigs.rows configs tenantId merchantId merchantTier eventClass).map (.withTerms terms) :=
    fun terms => List.filter_map
  have hresult : ∀ terms, PointAccrualService.calculateEarnRate (configs.withTerms terms) tenantId merchantId
      merchantTier eventClass = earnRateBy tenantId merchantId merchantTier eventClass
        ((PointAccrualService.findEarnRateConfig configs tenantId merchantId merchantTier eventClass).map
          (.withTerms terms)) := by
    intro terms
    have hfind : PointAccrualService.findEarnRateConfig (configs.withTerms terms) tenantId merchantId merchantTier
        eventClass = (PointAccrualService.findEarnRateConfig configs tenantId merchantId merchantTier eventClass).map
          (.withTerms terms) := (congrArg (newest _) List.filter_map).trans (newest_map hedit)
    funext amount isDiamondConcierge
    rw [PointAccrualService.calculateEarnRate, hfind]
    cases PointAccrualService.findEarnRateConfig configs tenantId merchantId merchantTier eventClass <;> rfl
  simp only [hrows, hresult]
  refine (fromActive_iff (earnRateBy tenantId merchantId merchantTier eventClass) (fun terms amount isDiamondConcierge =>
      if isDiamondConcierge = true ∧ terms.diamondConciergeZeroEarn = true then .ok 0
      else .ok (terms.basePointsPerUnit * terms.infernoMultiplier * amount))
    EarnRateConfig.configId ⟨2, 1, false⟩ ⟨3, 1, false⟩ (fun _ => hedit) (fun c hc => ?_) row_unique (fun _ _ => rfl)
    (fun h => ?_) fun h => ?_).trans (earnRate_config_iff configs)
  · have hmem := (newest_eq_some hc).1
    simp only [List.mem_filter, decide_eq_true_eq] at hmem ⊢
    exact ⟨hmem.1, hmem.2.1, hmem.2.2.1, hmem.2.2.2.1, hmem.2.2.2.2.1⟩
  · have hone := congrFun (congrFun h 1) false
    simp at hone
  · have hone := congrFun (congrFun h 1) false
    cases hone

theorem validateTierCap_iff (configs : TierCapConfigs) :
    (∀ caps, FromActive TierCapConfig.effectiveAt TierCapConfig.supersededAt now
        (TierCapConfigs.rows (configs.withCaps caps) tenantId merchantId tierName)
        (tierCapBy tenantId merchantId tierName)
        (PointRedemptionService.validateTierCap (configs.withCaps caps) tenantId merchantId tierName)) ↔
      (∀ c ∈ TierCapConfigs.rows configs tenantId merchantId tierName, c.supersededAt = none → c.effectiveAt ≤ now) ∧
      OpenNewest TierCapConfig.effectiveAt TierCapConfig.supersededAt now (fun _ => True)
        (TierCapConfigs.rows configs tenantId merchantId tierName) := by
  have hedit : ∀ {caps} (c : TierCapConfig), (c.withCap caps).effectiveAt = c.effectiveAt ∧
      (c.withCap caps).supersededAt = c.supersededAt := fun _ => ⟨rfl, rfl⟩
  have hrows : ∀ caps, TierCapConfigs.rows (configs.withCaps caps) tenantId merchantId tierName =
      (TierCapConfigs.rows configs tenantId merchantId tierName).map (.withCap caps) :=
    fun caps => List.filter_map
  have hresult : ∀ caps, PointRedemptionService.validateTierCap (configs.withCaps caps) tenantId merchantId tierName =
      tierCapBy tenantId merchantId tierName
        ((PointRedemptionService.findTierCapConfig configs tenantId merchantId tierName).map (.withCap caps)) := by
    intro caps
    have hfind : PointRedemptionService.findTierCapConfig (configs.withCaps caps) tenantId merchantId tierName =
        (PointRedemptionService.findTierCapConfig configs tenantId merchantId tierName).map (.withCap caps) :=
      (congrArg (newest _) List.filter_map).trans (newest_map hedit)
    funext transactionValue redemptionAmount
    rw [PointRedemptionService.validateTierCap, hfind]
    cases PointRedemptionService.findTierCapConfig configs tenantId merchantId tierName <;> rfl
  simp only [hrows, hresult]
  refine (fromActive_iff (tierCapBy tenantId merchantId tierName) (fun cap transactionValue redemptionAmount =>
      if cap / 100 * transactionValue < redemptionAmount then
        .error (.error ["Redemption amount ", redemptionAmount, " exceeds tier cap of ", cap,
          "% (", cap / 100 * transactionValue, ") for tier ", tierName])
      else .ok ())
    TierCapConfig.configId 50 0 (fun _ => hedit) (fun c hc => ?_) row_unique (fun _ _ => rfl) (fun h => ?_)
    fun h => ?_).trans (tierCap_config_iff configs)
  · have hmem := (newest_eq_some hc).1
    simp only [List.mem_filter, decide_eq_true_eq] at hmem ⊢
    exact ⟨hmem.1, hmem.2.1, hmem.2.2.1, hmem.2.2.2.1⟩
  · have hone := congrFun (congrFun h 100) 50
    norm_num at hone
    cases hone
  · have hone := congrFun (congrFun h 100) 50
    norm_num [tierCapBy] at hone
    cases hone

/-- Whatever the rows say, the three functions answer by the newest row in force at the time of the
call, and as if there were none only where there is none, exactly if no row whose end is set and
still ahead is newer than the rows without an end, and, for earn rates and tier caps, no row without
an end has still to take effect. Rates are exact and identifiers trimmed. -/
theorem active_config_iff (pairs : MerchantPairConfigs) (rates : EarnRateConfigs) (caps : TierCapConfigs)
    (now : Time) (tenantId merchantId fromMerchantId toMerchantId merchantTier eventClass tierName : String) :
    ((∀ exchangeRates, FromActive MerchantPairConfig.effectiveAt MerchantPairConfig.supersededAt now
          ((pairs.withRates exchangeRates).rows tenantId fromMerchantId toMerchantId) exchangeRateBy
          (CrossMerchantExchangeService.getExchangeRate (pairs.withRates exchangeRates) tenantId fromMerchantId
            toMerchantId now)) ↔
        OpenNewest MerchantPairConfig.effectiveAt MerchantPairConfig.supersededAt now (·.effectiveAt ≤ now)
          (pairs.rows tenantId fromMerchantId toMerchantId)) ∧
      ((∀ terms, FromActive EarnRateConfig.effectiveAt EarnRateConfig.supersededAt now
          (EarnRateConfigs.rows (rates.withTerms terms) tenantId merchantId merchantTier eventClass)
          (earnRateBy tenantId merchantId merchantTier eventClass)
          (PointAccrualService.calculateEarnRate (rates.withTerms terms) tenantId merchantId merchantTier
            eventClass)) ↔
        (∀ c ∈ EarnRateConfigs.rows rates tenantId merchantId merchantTier eventClass,
          c.supersededAt = none → c.effectiveAt ≤ now) ∧
        OpenNewest EarnRateConfig.effectiveAt EarnRateConfig.supersededAt now (fun _ => True)
          (EarnRateConfigs.rows rates tenantId merchantId merchantTier eventClass)) ∧
      ((∀ percentages, FromActive TierCapConfig.effectiveAt TierCapConfig.supersededAt now
          (TierCapConfigs.rows (caps.withCaps percentages) tenantId merchantId tierName)
          (tierCapBy tenantId merchantId tierName)
          (PointRedemptionService.validateTierCap (caps.withCaps percentages) tenantId merchantId tierName)) ↔
        (∀ c ∈ TierCapConfigs.rows caps tenantId merchantId tierName, c.supersededAt = none → c.effectiveAt ≤ now) ∧
        OpenNewest TierCapConfig.effectiveAt TierCapConfig.supersededAt now (fun _ => True)
          (TierCapConfigs.rows caps tenantId merchantId tierName)) :=
  ⟨getExchangeRate_iff pairs, calculateEarnRate_iff rates, validateTierCap_iff caps⟩

/-- Where rows are only ever superseded by one that takes effect at once, the three functions
answer by the newest row in force, whatever the rows say. -/
theorem config_of_past {pairs : MerchantPairConfigs} {rates : EarnRateConfigs} {caps : TierCapConfigs}
    (hpairs : Past MerchantPairConfig.effectiveAt MerchantPairConfig.supersededAt now
      (pairs.rows tenantId fromMerchantId toMerchantId))
    (hrates : Past EarnRateConfig.effectiveAt EarnRateConfig.supersededAt now
      (EarnRateConfigs.rows rates tenantId merchantId merchantTier eventClass))
    (hcaps : Past TierCapConfig.effectiveAt TierCapConfig.supersededAt now
      (TierCapConfigs.rows caps tenantId merchantId tierName)) :
    (∀ exchangeRates, FromActive MerchantPairConfig.effectiveAt MerchantPairConfig.supersededAt now
        ((pairs.withRates exchangeRates).rows tenantId fromMerchantId toMerchantId) exchangeRateBy
        (CrossMerchantExchangeService.getExchangeRate (pairs.withRates exchangeRates) tenantId fromMerchantId
          toMerchantId now)) ∧
      (∀ terms, FromActive EarnRateConfig.effectiveAt EarnRateConfig.supersededAt now
        (EarnRateConfigs.rows (rates.withTerms terms) tenantId merchantId merchantTier eventClass)
        (earnRateBy tenantId merchantId merchantTier eventClass)
        (PointAccrualService.calculateEarnRate (rates.withTerms terms) tenantId merchantId merchantTier eventClass)) ∧
      ∀ percentages, FromActive TierCapConfig.effectiveAt TierCapConfig.supersededAt now
        (TierCapConfigs.rows (caps.withCaps percentages) tenantId merchantId tierName)
        (tierCapBy tenantId merchantId tierName)
        (PointRedemptionService.validateTierCap (caps.withCaps percentages) tenantId merchantId tierName) :=
  ⟨(getExchangeRate_iff pairs).mpr hpairs.openNewest,
    (calculateEarnRate_iff rates).mpr ⟨fun c hc _ => (hrates c hc).1, hrates.openNewest⟩,
    (validateTierCap_iff caps).mpr ⟨fun c hc _ => (hcaps c hc).1, hcaps.openNewest⟩⟩

end answers

section scenario

/-- A rate that is superseded at 100. -/
def samplePairs : MerchantPairConfigs where
  docs := [⟨"config-1", "tenant-1", "merchant-1", "merchant-2", 2, 0, some 100⟩]
  key_nodup := by simp
  index_nodup := by simp
  active_nodup := by simp

/-- A rate that is in force, and one that takes effect at 100. -/
def sampleRates : EarnRateConfigs where
  docs := [⟨"config-1", "tenant-1", "merchant-1", 0, none, "GOLD", "PURCHASE", 1, 1, true⟩,
    ⟨"config-2", "tenant-1", "merchant-1", 100, none, "GOLD", "PURCHASE", 2, 1, true⟩]
  key_nodup := by simp
  index_nodup := by simp

/-- A cap that is in force, and one that takes effect at 100. -/
def sampleCaps : TierCapConfigs where
  docs := [⟨"config-1", "tenant-1", "merchant-1", 0, none, .gold, 35⟩,
    ⟨"config-2", "tenant-1", "merchant-1", 100, none, .gold, 50⟩]
  key_nodup := by simp
  index_nodup := by simp

/-- At 50 the exchange rate falls back to the default, and earn rate and cap are those of
the rows that take effect at 100: none of them is what the row in force says. -/
theorem config_of_other_time :
    CrossMerchantExchangeService.getExchangeRate samplePairs "tenant-1" "merchant-1" "merchant-2" 50 = 1 ∧
      ¬ FromActive MerchantPairConfig.effectiveAt MerchantPairConfig.supersededAt 50
        (samplePairs.rows "tenant-1" "merchant-1" "merchant-2") exchangeRateBy
        (CrossMerchantExchangeService.getExchangeRate samplePairs "tenant-1" "merchant-1" "merchant-2" 50) ∧
      PointAccrualService.calculateEarnRate sampleRates "tenant-1" "merchant-1" "GOLD" "PURCHASE" 10 false = .ok 20 ∧
      ¬ FromActive EarnRateConfig.effectiveAt EarnRateConfig.supersededAt 50
        (EarnRateConfigs.rows sampleRates "tenant-1" "merchant-1" "GOLD" "PURCHASE")
        (fun found => earnRateBy "tenant-1" "merchant-1" "GOLD" "PURCHASE" found 10 false)
        (PointAccrualService.calculateEarnRate sampleRates "tenant-1" "merchant-1" "GOLD" "PURCHASE" 10 false) ∧
      PointRedemptionService.validateTierCap sampleCaps "tenant-1" "merchant-1" "GOLD" 100 50 = .ok () ∧
      ¬ FromActive TierCapConfig.effectiveAt TierCapConfig.supersededAt 50
        (TierCapConfigs.rows sampleCaps "tenant-1" "merchant-1" "GOLD")
        (fun found => tierCapBy "tenant-1" "merchant-1" "GOLD" found 100 50)
        (PointRedemptionService.validateTierCap sampleCaps "tenant-1" "merchant-1" "GOLD" 100 50) := by
  decide +kernel

end scenario
end RedRoomRewards
