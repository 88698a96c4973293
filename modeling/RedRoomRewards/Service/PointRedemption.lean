import RedRoomRewards.Service.Wallet

/-! Point redemption: a checked hold in escrow for one queue item. -/
namespace RedRoomRewards.PointRedemptionService
open Process Prog

structure Config where
  maxRedemptionAmount : ℚ
  minRedemptionAmount : ℚ
  validateBalance : Bool

def defaultConfig : Config := ⟨100000, 1, true⟩

variable (config : Config)

def validateAmount (amount : ℚ) : Service Unit := do
  throwIf (amount < config.minRedemptionAmount)
    (.error ["Amount must be at least ", config.minRedemptionAmount])
  throwIf (config.maxRedemptionAmount < amount)
    (.error ["Amount cannot exceed ", config.maxRedemptionAmount])
  throwIf (amount ≤ 0) (.error ["Amount must be a positive finite number"])

def redemptionReasons : List TransactionReason := [.chipMenuPurchase, .spinWheelPlay, .performanceRequest]

def validateRedemptionReason (reason : TransactionReason) : Service Unit :=
  throwIf (reason ∉ redemptionReasons) (.error ["Invalid redemption reason: ", reason.code])

def validFeatures : List String := ["chip_menu", "spin_wheel", "performance"]

def validateFeatureType (featureType : String) : Service Unit :=
  throwIf (featureType ∉ validFeatures) (.error ["Invalid feature type: ", featureType])

/-- The request a redemption passes to the wallet service. -/
def escrowRequest (request : RedeemPointsRequest) : EscrowHoldRequest where
  userId := request.userId
  amount := request.amount
  reason := request.reason
  queueItemId := request.queueItemId
  featureType := request.featureType
  idempotencyKey := "redemption-" ++ request.userId ++ "-" ++ request.queueItemId
  requestId := request.requestId
  metadata := some ((request.metadata.getD []).set "modelId" (request.modelId.elim .undefined .str))

/-- The balance check, where the configuration asks for it. -/
def checkBalance (request : RedeemPointsRequest) : Service Unit :=
  if config.validateBalance then do
    let balance ← WalletService.getUserBalance request.userId
    throwIf (balance.available < request.amount)
      (.error ["Insufficient balance. Required: ", request.amount, ", Available: ", balance.available])
  else pure ()

def redeemPoints (wallet : WalletService.Config) (request : RedeemPointsRequest) :
    Service RedeemPointsResponse := do
  validateAmount config request.amount
  validateRedemptionReason request.reason
  validateFeatureType request.featureType
  checkBalance config request
  let escrowResponse ← WalletService.holdInEscrow wallet (escrowRequest request)
  pure ⟨escrowResponse.transactionId, escrowResponse.escrowId, request.amount,
    escrowResponse.newAvailableBalance, escrowResponse.escrowBalance, request.queueItemId,
    escrowResponse.timestamp⟩

end RedRoomRewards.PointRedemptionService
