import RedRoomRewards.Service.Ledger
import Mathlib.Algebra.Order.Group.Abs
import Mathlib.Algebra.Order.Ring.Rat

/-! Admin operations: manual credits and debits of a user's available balance, and its
correction. -/
namespace RedRoomRewards.AdminOpsService
open Process Prog LedgerService

structure Config where
  defaultCurrency : String
  maxAdjustmentAmount : ℚ
  requireReason : Bool
  ledger : LedgerService.Config

def defaultConfig : Config := ⟨"points", 1000000, true, LedgerService.defaultConfig⟩

def validateAdminAuth (admin : AdminContext) : Service Unit := do
  throwIf (admin.adminId = "" ∨ admin.roles = []) (.error ["Invalid admin context"])
  throwIf (¬ ("admin" ∈ admin.roles ∨ "super_admin" ∈ admin.roles ∨ "finance_admin" ∈ admin.roles))
    (.error ["Insufficient permissions for admin operation"])

variable (config : Config) (request : ManualAdjustmentRequest)

/-- `request.metadata?.allowNegative`. -/
def allowNegative : Bool := ((request.metadata.getD []).get "allowNegative").truthy

private def auditMetadata : Metadata :=
  (((((request.metadata.getD []).set "adminId" (.str request.admin.adminId)).set
    "adminUsername" (.str request.admin.adminUsername)).set
    "adminReason" (.str request.reason)).set
    "adminIpAddress" (request.admin.ipAddress.elim .undefined .str)).set
    "operationType" (.str "manual_adjustment")

def adjustmentEntry (wallet : Wallet) (transactionId : String) : CreateLedgerEntryRequest where
  transactionId := transactionId
  accountId := request.userId
  accountType := .user
  amount := request.amount
  type := if 0 < request.amount then .credit else .debit
  balanceState := .available
  stateTransition := if 0 < request.amount then "none→available" else "available→none"
  reason := some (if 0 < request.amount then .adminCredit else .adminDebit)
  idempotencyKey := "admin-adjustment-" ++ request.admin.adminId ++ "-" ++ request.userId ++ "-" ++
    request.requestId
  requestId := request.requestId
  balanceBefore := wallet.availableBalance
  balanceAfter := wallet.availableBalance + request.amount
  currency := config.defaultCurrency
  metadata := some (auditMetadata request)
  escrowId := none
  queueItemId := none
  featureType := none
  correlationId := none

/-- Where the guarded update misses, the function calls itself again. -/
def manualAdjustment : Service (Next Unit ManualAdjustmentResponse) := do
  validateAdminAuth request.admin
  throwIf (config.requireReason = true ∧ request.reason = "")
    (.error ["Reason is required for manual adjustments"])
  throwIf (config.maxAdjustmentAmount < |request.amount|)
    (.error ["Adjustment amount exceeds maximum: ", config.maxAdjustmentAmount])
  throwIf (request.amount = 0) (.error ["Adjustment amount cannot be zero"])
  let wallet : Option Wallet ← issue (.findWallet request.userId)
  let wallet ← orThrow (.error ["Wallet not found for user: ", request.userId]) wallet
  let newBalance := wallet.availableBalance + request.amount
  throwIf (newBalance < 0 ∧ allowNegative request = false)
    (.error ["Adjustment would result in negative balance"])
  let updated : Option Wallet ←
    issue (.updateWallet ⟨request.userId, wallet.version, none⟩ (.inc request.amount 0 1))
  match updated with
  | none => pure (.again ())
  | some _ => do
    let transactionId : String ← issue .uuidv4
    let timestamp : Time ← issue .now
    let _ ← createEntry config.ledger (adjustmentEntry config request wallet transactionId)
    pure (.done ⟨transactionId, request.amount, wallet.availableBalance, newBalance, timestamp⟩)

section correction

structure BalanceCorrectionRequest where
  userId : String
  expectedBalance : ℚ
  actualBalance : ℚ
  reason : String
  admin : AdminContext
  requestId : String

structure BalanceCorrectionResponse where
  transactionId : String
  correctionAmount : ℚ
  newBalance : ℚ
  timestamp : Time

def BalanceCorrectionRequest.adjustment (request : BalanceCorrectionRequest) : ManualAdjustmentRequest where
  userId := request.userId
  amount := request.expectedBalance - request.actualBalance
  reason := request.reason
  admin := request.admin
  requestId := request.requestId
  metadata := some [("operationType", .str "balance_correction"), ("expectedBalance", .num request.expectedBalance),
    ("actualBalance", .num request.actualBalance), ("allowNegative", .bool true)]

/-- The checks read nothing, so calling `manualAdjustment` again is calling this again. -/
def correctBalance (request : BalanceCorrectionRequest) : Service (Next Unit BalanceCorrectionResponse) := do
  validateAdminAuth request.admin
  let correctionAmount := request.expectedBalance - request.actualBalance
  throwIf (correctionAmount = 0) (.error ["No correction needed - balances match"])
  let result ← manualAdjustment config request.adjustment
  match result with
  | .again () => pure (.again ())
  | .done result => pure (.done ⟨result.transactionId, correctionAmount, result.newBalance, result.timestamp⟩)

end correction
end RedRoomRewards.AdminOpsService
