import RedRoomRewards.Service.Wallet

/-! Point accrual: awards and direct deductions with bounded optimistic retries, and the
awards whose keys are made of their ids. -/
namespace RedRoomRewards.PointAccrualService
open Process Prog

structure Config where
  defaultCurrency : String
  maxAwardAmount : ℚ
  minAwardAmount : ℚ
  maxRetryAttempts : ℕ
  ledger : LedgerService.Config

def defaultConfig : Config := ⟨"points", 1000000, 1, 3, LedgerService.defaultConfig⟩

variable (config : Config)

/-- Amounts are finite numbers here, so of the last check only the sign remains. -/
def validateAmount (amount : ℚ) : Service Unit := do
  throwIf (amount < config.minAwardAmount) (.error ["Amount must be at least ", config.minAwardAmount])
  throwIf (config.maxAwardAmount < amount) (.error ["Amount cannot exceed ", config.maxAwardAmount])
  throwIf (amount ≤ 0) (.error ["Amount must be a positive finite number"])

def earningReasons : List TransactionReason :=
  [.userSignupBonus, .referralBonus, .promotionalAward, .adminCredit]

def validateEarningReason (reason : TransactionReason) : Service Unit :=
  throwIf (reason ∉ earningReasons) (.error ["Invalid earning reason: ", reason.code])

def debitReasons : List TransactionReason := [.adminDebit, .pointExpiry]

def validateDebitReason (reason : TransactionReason) : Service Unit :=
  throwIf (reason ∉ debitReasons)
    (.error ["Invalid debit reason for deductFromAvailable: ", reason.code])

/-- The idempotency check of the first attempt. -/
def checkFirst (first : Prop) [Decidable first] (request : AwardPointsRequest)
    (operationType : String) : Service Unit :=
  if first then do
    let used ← LedgerService.checkIdempotency request.idempotencyKey operationType request.tenantId
    throwIf (used = true) (.error ["Idempotency key already used"])
  else pure ()

variable (request : AwardPointsRequest)

/-- The text of the error after the last attempt. -/
def conflict : ServiceError := .error ["Optimistic lock conflict after ",
  (config.maxRetryAttempts : ℚ), " attempts for user ", request.userId]

def awardEntry (wallet : Wallet) (transactionId : String) : LedgerService.CreateLedgerEntryRequest where
  transactionId := transactionId
  accountId := request.userId
  accountType := .user
  amount := request.amount
  type := .credit
  balanceState := .available
  stateTransition := "none→available"
  reason := request.reason
  idempotencyKey := request.idempotencyKey
  requestId := request.requestId
  balanceBefore := wallet.availableBalance
  balanceAfter := wallet.availableBalance + request.amount
  currency := config.defaultCurrency
  metadata := some ((request.metadata.getD []).set "expiresAt"
    (request.expiresAt.elim .undefined fun t => .str t.toISOString))
  escrowId := none
  queueItemId := none
  featureType := none
  correlationId := none

/-- `awardPoints` up to the wallet update that commits, and then `record`; its last argument is
`maxRetryAttempts - retryCount`. -/
def awardAttemptsThen (record : Wallet → Service AwardPointsResponse) : ℕ → Service AwardPointsResponse
  | 0 => throw (conflict config request)
  | left + 1 => do
    validateAmount config request.amount
    validateEarningReason request.reason
    checkFirst (left + 1 = config.maxRetryAttempts) request "award_points"
    let wallet ← WalletService.getOrCreateWallet config.defaultCurrency request.userId
    let updated : Option Wallet ←
      issue (.updateWallet ⟨request.userId, wallet.version, none⟩ (.inc request.amount 0 1))
    match updated with
    | none => awardAttemptsThen record left
    | some _ => record wallet

/-- The rest of `awardPoints`, where the date of expiry is a valid one. -/
def recordAward (wallet : Wallet) : Service AwardPointsResponse := do
  let newBalance := wallet.availableBalance + request.amount
  let transactionId : String ← issue .uuidv4
  let timestamp : Time ← issue .now
  let _ ← LedgerService.createEntry config.ledger (awardEntry config request wallet transactionId)
  pure ⟨transactionId, request.amount, newBalance, timestamp⟩

/-- The rest of `awardPoints`, where `expiresAt` is an Invalid Date: `toISOString()` throws. -/
def recordUndated (_ : Wallet) : Service AwardPointsResponse := do
  let _ : String ← issue .uuidv4
  let _ : Time ← issue .now
  throw (.error ["Invalid time value"])

def awardAttempts (left : ℕ) : Service AwardPointsResponse :=
  awardAttemptsThen config request (recordAward config request) left

def awardPoints : Service AwardPointsResponse := awardAttempts config request config.maxRetryAttempts

/-- `awardPoints` of a request that has an Invalid Date for its `expiresAt`. -/
def awardPointsUndated : Service AwardPointsResponse :=
  awardAttemptsThen config request recordUndated config.maxRetryAttempts

section awards
variable (userId : String) (amount : ℚ)

def signupBonus (requestId tenantId : String) : AwardPointsRequest where
  userId := userId
  amount := amount
  reason := .userSignupBonus
  idempotencyKey := "signup-bonus-" ++ userId
  requestId := requestId
  tenantId := tenantId
  metadata := some [("bonusType", .str "signup")]
  expiresAt := none

def awardSignupBonus (bonusAmount : ℚ) (requestId tenantId : String) : Service AwardPointsResponse :=
  awardPoints config (signupBonus userId bonusAmount requestId tenantId)

def referralBonus (referrerId referredUserId : String) (bonusAmount : ℚ) (requestId tenantId : String) :
    AwardPointsRequest where
  userId := referrerId
  amount := bonusAmount
  reason := .referralBonus
  idempotencyKey := "referral-bonus-" ++ referrerId ++ "-" ++ referredUserId
  requestId := requestId
  tenantId := tenantId
  metadata := some [("bonusType", .str "referral"), ("referredUserId", .str referredUserId)]
  expiresAt := none

def awardReferralBonus (referrerId referredUserId : String) (bonusAmount : ℚ) (requestId tenantId : String) :
    Service AwardPointsResponse :=
  awardPoints config (referralBonus referrerId referredUserId bonusAmount requestId tenantId)

def promotionalAward (promotionId requestId tenantId : String) (expiresAt : Option Time) : AwardPointsRequest where
  userId := userId
  amount := amount
  reason := .promotionalAward
  idempotencyKey := "promo-" ++ promotionId ++ "-" ++ userId
  requestId := requestId
  tenantId := tenantId
  metadata := some [("promotionId", .str promotionId), ("bonusType", .str "promotional")]
  expiresAt := expiresAt

def awardPromotionalPoints (promotionId requestId tenantId : String) (expiresAt : Option Time) :
    Service AwardPointsResponse :=
  awardPoints config (promotionalAward userId amount promotionId requestId tenantId expiresAt)

def adminCredit (adminId reason requestId tenantId : String) : AwardPointsRequest where
  userId := userId
  amount := amount
  reason := .adminCredit
  idempotencyKey := "admin-credit-" ++ adminId ++ "-" ++ userId ++ "-" ++ requestId
  requestId := requestId
  tenantId := tenantId
  metadata := some [("adminId", .str adminId), ("adminReason", .str reason), ("operationType", .str "admin_credit")]
  expiresAt := none

def adminCreditPoints (adminId reason requestId tenantId : String) : Service AwardPointsResponse :=
  awardPoints config (adminCredit userId amount adminId reason requestId tenantId)

end awards

def deductEntry (wallet : Wallet) (transactionId : String) : LedgerService.CreateLedgerEntryRequest where
  transactionId := transactionId
  accountId := request.userId
  accountType := .user
  amount := -request.amount
  type := .debit
  balanceState := .available
  stateTransition := "available→debit"
  reason := request.reason
  idempotencyKey := request.idempotencyKey
  requestId := request.requestId
  balanceBefore := wallet.availableBalance
  balanceAfter := wallet.availableBalance - request.amount
  currency := config.defaultCurrency
  correlationId := transactionId
  metadata := some (request.metadata.getD [])
  escrowId := none
  queueItemId := none
  featureType := none

/-- `deductFromAvailable`; its argument is `maxRetryAttempts - retryCount`. -/
def deductAttempts : ℕ → Service AwardPointsResponse
  | 0 => throw (conflict config request)
  | left + 1 => do
    validateAmount config request.amount
    validateDebitReason request.reason
    checkFirst (left + 1 = config.maxRetryAttempts) request "deduct_points"
    let wallet : Option Wallet ← issue (.findWallet request.userId)
    let wallet ← orThrow
      (.error ["Insufficient balance: wallet not found for ", request.userId]) wallet
    throwIf (wallet.availableBalance < request.amount)
      (.error ["Insufficient balance for ", request.userId, " — available ", wallet.availableBalance,
        ", requested ", request.amount])
    let newBalance := wallet.availableBalance - request.amount
    let updated : Option Wallet ← issue (.updateWallet
      ⟨request.userId, wallet.version, some request.amount⟩ (.inc (-request.amount) 0 1))
    match updated with
    | none => deductAttempts left
    | some _ => do
      let transactionId : String ← issue .uuidv4
      let timestamp : Time ← issue .now
      let _ ← LedgerService.createEntry config.ledger (deductEntry config request wallet transactionId)
      pure ⟨transactionId, request.amount, newBalance, timestamp⟩

def deductFromAvailable : Service AwardPointsResponse :=
  deductAttempts config request config.maxRetryAttempts

end RedRoomRewards.PointAccrualService
