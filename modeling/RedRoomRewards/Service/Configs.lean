import RedRoomRewards.Service.Types
import RedRoomRewards.Store.Collection
import RedRoomRewards.Store.EffectiveDating

/-! The effective-dated configuration of merchants, and the three places that look it up:
exchange rates, earn rates and tier caps. Each makes one query; what it finds decides. -/
namespace RedRoomRewards
open Store

section rows

structure MerchantPairConfig where
  configId : String
  tenantId : String
  fromMerchantId : String
  toMerchantId : String
  exchangeRate : ℚ
  effectiveAt : Time
  supersededAt : Option Time
  deriving DecidableEq

/-- The key of the unique partial index. -/
def MerchantPairConfig.pair (c : MerchantPairConfig) : String × String × String :=
  (c.tenantId, c.fromMerchantId, c.toMerchantId)

/-- Of the rows that are not superseded, no two have the same pair. -/
structure MerchantPairConfigs extends
    Collection MerchantPairConfig String String MerchantPairConfig.configId MerchantPairConfig.configId where
  active_nodup : ((docs.filter fun c => c.supersededAt = none).map MerchantPairConfig.pair).Nodup

structure EarnRateConfig where
  configId : String
  tenantId : String
  merchantId : String
  effectiveAt : Time
  supersededAt : Option Time
  merchantTier : String
  eventClass : String
  basePointsPerUnit : ℚ
  infernoMultiplier : ℚ
  diamondConciergeZeroEarn : Bool
  deriving DecidableEq

abbrev EarnRateConfigs := Collection EarnRateConfig String String EarnRateConfig.configId EarnRateConfig.configId

inductive TierName where
  | platinum
  | gold
  | silver
  | member
  | guest
  deriving DecidableEq

def TierName.code : TierName → String
  | platinum => "PLATINUM"
  | gold => "GOLD"
  | silver => "SILVER"
  | member => "MEMBER"
  | guest => "GUEST"

structure TierCapConfig where
  configId : String
  tenantId : String
  merchantId : String
  effectiveAt : Time
  supersededAt : Option Time
  tierName : TierName
  redemptionCapPct : ℚ
  deriving DecidableEq

abbrev TierCapConfigs := Collection TierCapConfig String String TierCapConfig.configId TierCapConfig.configId

end rows

namespace CrossMerchantExchangeService
variable (configs : MerchantPairConfigs) (tenantId fromMerchantId toMerchantId : String)

def defaultExchangeRate : ℚ := 1

/-- The `findOne` of the lookup; `now` is the time the call reads. -/
def findConfig (now : Time) : Option MerchantPairConfig :=
  configs.docs.find? fun c => c.tenantId = tenantId ∧ c.fromMerchantId = fromMerchantId ∧
    c.toMerchantId = toMerchantId ∧ c.effectiveAt ≤ now ∧ c.supersededAt = none

def getExchangeRate (now : Time) : ℚ :=
  match findConfig configs tenantId fromMerchantId toMerchantId now with
  | none => defaultExchangeRate
  | some config => config.exchangeRate

end CrossMerchantExchangeService

namespace PointAccrualService
variable (configs : EarnRateConfigs) (tenantId merchantId merchantTier eventClass : String)

/-- The `findOne` of the lookup, newest first. -/
def findEarnRateConfig : Option EarnRateConfig :=
  newest EarnRateConfig.effectiveAt (configs.docs.filter fun c => c.tenantId = tenantId ∧
    c.merchantId = merchantId ∧ c.merchantTier = merchantTier ∧ c.eventClass = eventClass ∧ c.supersededAt = none)

def calculateEarnRate (amount : ℚ) (isDiamondConcierge : Bool) : Except ServiceError ℚ :=
  match findEarnRateConfig configs tenantId merchantId merchantTier eventClass with
  | none => .error (.error ["No active earn-rate config for tenant=", tenantId, " merchant=", merchantId,
      " tier=", merchantTier, " event=", eventClass])
  | some config =>
    if isDiamondConcierge = true ∧ config.diamondConciergeZeroEarn = true then .ok 0
    else .ok (config.basePointsPerUnit * config.infernoMultiplier * amount)

end PointAccrualService

namespace PointRedemptionService
variable (configs : TierCapConfigs) (tenantId merchantId tierName : String)

/-- The `findOne` of the lookup, newest first. -/
def findTierCapConfig : Option TierCapConfig :=
  newest TierCapConfig.effectiveAt (configs.docs.filter fun c => c.tenantId = tenantId ∧
    c.merchantId = merchantId ∧ c.tierName.code = tierName ∧ c.supersededAt = none)

def validateTierCap (transactionValue redemptionAmount : ℚ) : Except ServiceError Unit :=
  match findTierCapConfig configs tenantId merchantId tierName with
  | none => .error (.error ["No active tier cap config for tenant=", tenantId, " merchant=", merchantId,
      " tier=", tierName])
  | some capConfig =>
    let maxAllowed := capConfig.redemptionCapPct / 100 * transactionValue
    if maxAllowed < redemptionAmount then
      .error (.error ["Redemption amount ", redemptionAmount, " exceeds tier cap of ", capConfig.redemptionCapPct,
        "% (", maxAllowed, ") for tier ", tierName])
    else .ok ()

end PointRedemptionService
end RedRoomRewards
