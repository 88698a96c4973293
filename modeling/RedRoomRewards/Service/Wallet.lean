import RedRoomRewards.Arithmetic.Double
import RedRoomRewards.Service.Ledger
import Mathlib.Algebra.Order.Group.Abs
import Mathlib.Algebra.Order.Ring.Rat

/-! The wallet service: holds, settlements and refunds under optimistic locking.
Back-off sleeps issue no command and are left out. -/
namespace RedRoomRewards.WalletService
open Process Prog Arithmetic

structure Config where
  maxRetryAttempts : ℕ
  defaultCurrency : String
  ledger : LedgerService.Config

def defaultConfig : Config := ⟨3, "points", LedgerService.defaultConfig⟩

section helpers

/-- Claim the key of an escrow operation or throw. -/
def claim (idempotencyKey operationType : String) : Service Unit := do
  let claimed ← LedgerService.claimIdempotency idempotencyKey operationType none
  throwIf (claimed = false) (.error ["Idempotency key already used"])

/-- The wallet the services create for a user who has none. -/
def newWallet (currency userId : String) : Wallet where
  userId := userId
  availableBalance := 0
  escrowBalance := 0
  currency := currency
  version := 0

def getOrCreateWallet (currency userId : String) : Service Wallet := do
  let wallet : Option Wallet ← issue (.findWallet userId)
  match wallet with
  | some wallet => pure wallet
  | none => do
    let reply : Except MongoError Wallet ← issue (.createWallet (newWallet currency userId))
    created reply

def newModelWallet (currency modelId : String) : ModelWallet where
  modelId := modelId
  earnedBalance := 0
  currency := currency
  type := .earnings
  version := 0

def getOrCreateModelWallet (currency modelId : String) : Service ModelWallet := do
  let modelWallet : Option ModelWallet ← issue (.findModelWallet modelId)
  match modelWallet with
  | some modelWallet => pure modelWallet
  | none => do
    let reply : Except MongoError ModelWallet ←
      issue (.createModelWallet (newModelWallet currency modelId))
    created reply

/-- Move a held item to an intermediate status and return it as it was. -/
def lockEscrow (escrowId : String) (status : EscrowStatus) : Service EscrowItem := do
  let processedAt : Time ← issue .now
  let escrow : Option EscrowItem ← issue (.lockEscrowItem escrowId status processedAt)
  match escrow with
  | some escrow => pure escrow
  | none => do
    let existing : Option EscrowItem ← issue (.findEscrowItem escrowId)
    match existing with
    | none => throw (.escrowNotFound escrowId)
    | some existing => throw (.escrowAlreadyProcessed escrowId existing.status)

/-- `{ $set: { status: 'held', processedAt: null } }`. -/
def reopening : EscrowItemUpdate := ⟨.held, some none, none⟩

/-- Publish with the base fields of `EventBuilder.createBase`. A failure is
counted as a metric and not thrown. -/
def publish (event : WalletEvent) : Service Unit := do
  let eventId : String ← issue .uuidv4
  let timestamp : Time ← issue .now
  let _ ← issue (.publish ⟨eventId, timestamp, event⟩)
  pure ()

end helpers

variable (config : Config)

section hold
variable (request : EscrowHoldRequest)

/-- The item a hold creates. -/
def heldItem (escrowId : String) (createdAt : Time) : EscrowItem where
  escrowId := escrowId
  userId := request.userId
  amount := request.amount
  status := .held
  queueItemId := request.queueItemId
  featureType := request.featureType
  reason := request.reason
  metadata := request.metadata
  createdAt := createdAt
  processedAt := none
  modelId := none

def holdDebit (wallet : Wallet) (escrowId transactionId : String) :
    LedgerService.CreateLedgerEntryRequest where
  transactionId := transactionId
  accountId := request.userId
  accountType := .user
  amount := -request.amount
  type := .debit
  balanceState := .available
  stateTransition := "available→escrow"
  reason := request.reason
  idempotencyKey := request.idempotencyKey ++ "_debit"
  requestId := request.requestId
  balanceBefore := wallet.availableBalance
  balanceAfter := wallet.availableBalance - request.amount
  currency := config.defaultCurrency
  escrowId := escrowId
  queueItemId := request.queueItemId
  featureType := request.featureType
  metadata := request.metadata
  correlationId := none

def holdCredit (wallet : Wallet) (escrowId transactionId : String) :
    LedgerService.CreateLedgerEntryRequest where
  transactionId := transactionId
  accountId := request.userId
  accountType := .user
  amount := request.amount
  type := .credit
  balanceState := .escrow
  stateTransition := "available→escrow"
  reason := request.reason
  idempotencyKey := request.idempotencyKey ++ "_credit"
  requestId := request.requestId
  balanceBefore := wallet.escrowBalance
  balanceAfter := wallet.escrowBalance + request.amount
  currency := config.defaultCurrency
  escrowId := escrowId
  queueItemId := request.queueItemId
  featureType := request.featureType
  metadata := request.metadata
  correlationId := none

/-- What follows the debit of a hold: two ledger entries, the event, the response. -/
def recordHold (wallet : Wallet) (escrowId : String) : Service EscrowHoldResponse := do
  let newAvailableBalance := wallet.availableBalance - request.amount
  let newEscrowBalance := wallet.escrowBalance + request.amount
  let transactionId : String ← issue .uuidv4
  let timestamp : Time ← issue .now
  let _ ← LedgerService.createEntry config.ledger (holdDebit config request wallet escrowId transactionId)
  let _ ← LedgerService.createEntry config.ledger (holdCredit config request wallet escrowId transactionId)
  publish (.escrowHeld request.userId escrowId request.amount request.reason request.queueItemId
    request.featureType transactionId newAvailableBalance newEscrowBalance request.idempotencyKey
    request.metadata)
  pure ⟨transactionId, escrowId, wallet.availableBalance, newAvailableBalance, newEscrowBalance, timestamp⟩

def executeHoldInEscrow : Service EscrowHoldResponse := do
  let wallet ← getOrCreateWallet config.defaultCurrency request.userId
  throwIf (wallet.availableBalance < request.amount)
    (.insufficientBalance request.amount wallet.availableBalance)
  let newAvailableBalance := wallet.availableBalance - request.amount
  let newEscrowBalance := wallet.escrowBalance + request.amount
  let currentVersion := wallet.version
  let escrowId : String ← issue .uuidv4
  let createdAt : Time ← issue .now
  let reply : Except MongoError EscrowItem ←
    issue (.createEscrowItem (heldItem request escrowId createdAt))
  let _ ← created reply
  let updated : Option Wallet ← issue (.updateWallet ⟨request.userId, currentVersion, none⟩
    (.set newAvailableBalance newEscrowBalance (currentVersion + 1)))
  match updated with
  | none => do
    let _ ← issue (.deleteEscrowItem escrowId)
    throw (.optimisticLock "wallet" request.userId)
  | some _ => recordHold config request wallet escrowId

/-- The retry loop; its argument is `maxRetryAttempts - attempts`. -/
def holdAttempts : ℕ → Service EscrowHoldResponse
  | 0 => throw (.optimisticLock "wallet" request.userId)
  | left + 1 => (executeHoldInEscrow config request).catching fun error =>
    match error with
    | .optimisticLock .. => if 0 < left then holdAttempts left else throw error
    | _ => throw error

def holdInEscrow : Service EscrowHoldResponse := do
  claim request.idempotencyKey "hold_escrow"
  holdAttempts config request config.maxRetryAttempts

end hold

section settle
variable (request : EscrowSettleRequest)

def settleEntry (modelWallet : ModelWallet) (transactionId : String) :
    LedgerService.CreateLedgerEntryRequest where
  transactionId := transactionId
  accountId := request.modelId
  accountType := .model
  amount := request.amount
  type := .credit
  balanceState := .earned
  stateTransition := "escrow→earned"
  reason := request.reason
  idempotencyKey := request.idempotencyKey
  requestId := request.requestId
  balanceBefore := modelWallet.earnedBalance
  balanceAfter := modelWallet.earnedBalance + request.amount
  currency := config.defaultCurrency
  escrowId := request.escrowId
  queueItemId := request.queueItemId
  featureType := none
  metadata := request.metadata
  correlationId := none

/-- What follows the finalised status of a settlement. -/
def recordSettle (escrow : EscrowItem) (modelWallet : ModelWallet) : Service EscrowSettleResponse := do
  let newEarnedBalance := modelWallet.earnedBalance + request.amount
  let transactionId : String ← issue .uuidv4
  let _ ← LedgerService.createEntry config.ledger (settleEntry config request modelWallet transactionId)
  let timestamp : Time ← issue .now
  publish (.escrowSettled escrow.userId request.modelId request.escrowId request.amount request.reason
    request.queueItemId transactionId newEarnedBalance request.idempotencyKey request.metadata)
  pure ⟨transactionId, request.amount, newEarnedBalance, timestamp⟩

def settleEscrow (authorization : Option QueueSettlementAuthorization) :
    Service EscrowSettleResponse := do
  throwIf (authorization.all (·.token = "")) (.error ["Authorization required"])
  claim request.idempotencyKey "settle_escrow"
  let escrow ← lockEscrow request.escrowId .settling
  let modelWallet ← getOrCreateModelWallet config.defaultCurrency request.modelId
  let newEarnedBalance := modelWallet.earnedBalance + request.amount
  let modelVersion := modelWallet.version
  let updatedModelWallet : Option ModelWallet ←
    issue (.updateModelWallet ⟨request.modelId, modelVersion⟩ ⟨newEarnedBalance, 1⟩)
  throwIf (updatedModelWallet = none) (.optimisticLock "model_wallet" request.modelId)
  let userWallet : Option Wallet ← issue (.findWallet escrow.userId)
  let userWallet ← orThrow (.error ["User wallet not found"]) userWallet
  let userVersion := userWallet.version
  let updatedUserWallet : Option Wallet ←
    issue (.updateWallet ⟨escrow.userId, userVersion, none⟩ (.inc 0 (-request.amount) 1))
  match updatedUserWallet with
  | none => do
    let _ ← issue (.updateEscrowItem request.escrowId reopening)
    throw (.optimisticLock "wallet" escrow.userId)
  | some _ => do
    let _ ← issue (.updateEscrowItem request.escrowId ⟨.settled, none, some request.modelId⟩)
    recordSettle config request escrow modelWallet

end settle

section refund
variable (request : EscrowRefundRequest)

def refundEntry (wallet : Wallet) (transactionId : String) : LedgerService.CreateLedgerEntryRequest where
  transactionId := transactionId
  accountId := request.userId
  accountType := .user
  amount := request.amount
  type := .credit
  balanceState := .available
  stateTransition := "escrow→available"
  reason := request.reason
  idempotencyKey := request.idempotencyKey
  requestId := request.requestId
  balanceBefore := wallet.availableBalance
  balanceAfter := wallet.availableBalance + request.amount
  currency := config.defaultCurrency
  escrowId := request.escrowId
  queueItemId := request.queueItemId
  featureType := none
  metadata := request.metadata
  correlationId := none

/-- What follows the finalised status of a refund. -/
def recordRefund (wallet updatedWallet : Wallet) : Service EscrowRefundResponse := do
  let newAvailableBalance := wallet.availableBalance + request.amount
  let transactionId : String ← issue .uuidv4
  let _ ← LedgerService.createEntry config.ledger (refundEntry config request wallet transactionId)
  let timestamp : Time ← issue .now
  publish (.escrowRefunded request.userId request.escrowId request.amount request.reason
    request.queueItemId transactionId newAvailableBalance updatedWallet.escrowBalance
    request.idempotencyKey request.metadata)
  pure ⟨transactionId, request.amount, newAvailableBalance, timestamp⟩

def refundEscrow (authorization : Option QueueRefundAuthorization) : Service EscrowRefundResponse := do
  throwIf (authorization.all (·.token = "")) (.error ["Authorization required"])
  claim request.idempotencyKey "refund_escrow"
  let _ ← lockEscrow request.escrowId .refunding
  let wallet : Option Wallet ← issue (.findWallet request.userId)
  let wallet ← orThrow (.error ["Wallet not found"]) wallet
  let walletVersion := wallet.version
  let updatedWallet : Option Wallet ← issue
    (.updateWallet ⟨request.userId, walletVersion, none⟩ (.inc request.amount (-request.amount) 1))
  match updatedWallet with
  | none => do
    let _ ← issue (.updateEscrowItem request.escrowId reopening)
    throw (.optimisticLock "wallet" request.userId)
  | some updatedWallet => do
    let _ ← issue (.updateEscrowItem request.escrowId ⟨.refunded, none, none⟩)
    recordRefund config request wallet updatedWallet

end refund

section partialSettle
variable (request : EscrowPartialSettleRequest)

def partialRefundEntry (userWallet : Wallet) (transactionId : String) :
    LedgerService.CreateLedgerEntryRequest where
  transactionId := transactionId
  accountId := request.userId
  accountType := .user
  amount := request.refundAmount
  type := .credit
  balanceState := .available
  stateTransition := "escrow→available"
  reason := request.reason
  idempotencyKey := request.idempotencyKey ++ "_refund"
  requestId := request.requestId
  balanceBefore := userWallet.availableBalance
  balanceAfter := userWallet.availableBalance + request.refundAmount
  currency := config.defaultCurrency
  escrowId := request.escrowId
  queueItemId := request.queueItemId
  featureType := none
  metadata := request.metadata
  correlationId := none

def partialSettleEntry (modelWallet : ModelWallet) (transactionId : String) :
    LedgerService.CreateLedgerEntryRequest where
  transactionId := transactionId
  accountId := request.modelId
  accountType := .model
  amount := request.settleAmount
  type := .credit
  balanceState := .earned
  stateTransition := "escrow→earned"
  reason := request.reason
  idempotencyKey := request.idempotencyKey ++ "_settle"
  requestId := request.requestId
  balanceBefore := modelWallet.earnedBalance
  balanceAfter := modelWallet.earnedBalance + request.settleAmount
  currency := config.defaultCurrency
  escrowId := request.escrowId
  queueItemId := request.queueItemId
  featureType := none
  metadata := request.metadata
  correlationId := none

/-- By how much the two parts miss the amount of the item, computed in doubles. -/
def missedBy (refundAmount settleAmount amount : ℚ) : ℚ :=
  let totalAmount := double (refundAmount + settleAmount)
  |double (totalAmount - amount)|

/-- `createEntry` for a positive amount, nothing otherwise. -/
def createEntryIf (amount : ℚ) (entry : LedgerService.CreateLedgerEntryRequest) : Service Unit :=
  if 0 < amount then do
    let _ ← LedgerService.createEntry config.ledger entry
    pure ()
  else pure ()

/-- What follows the finalised status of a partial settlement. -/
def recordPartialSettle (userWallet updatedUserWallet : Wallet) (modelWallet : ModelWallet) :
    Service EscrowPartialSettleResponse := do
  let newUserAvailableBalance := userWallet.availableBalance + request.refundAmount
  let newModelEarnedBalance := modelWallet.earnedBalance + request.settleAmount
  let transactionId : String ← issue .uuidv4
  createEntryIf config request.refundAmount (partialRefundEntry config request userWallet transactionId)
  createEntryIf config request.settleAmount (partialSettleEntry config request modelWallet transactionId)
  let timestamp : Time ← issue .now
  publish (.escrowPartialSettled request.userId request.modelId request.escrowId request.refundAmount
    request.settleAmount request.reason request.queueItemId transactionId newUserAvailableBalance
    updatedUserWallet.escrowBalance newModelEarnedBalance request.idempotencyKey request.metadata)
  pure ⟨transactionId, request.refundAmount, request.settleAmount, newUserAvailableBalance,
    newModelEarnedBalance, timestamp⟩

def partialSettleEscrow (authorization : Option QueuePartialSettlementAuthorization) :
    Service EscrowPartialSettleResponse := do
  throwIf (authorization.all (·.token = "")) (.error ["Authorization required"])
  claim request.idempotencyKey "partial_settle_escrow"
  let escrow ← lockEscrow request.escrowId .partialSettling
  throwIf (missedBy request.refundAmount request.settleAmount escrow.amount > double (1 / 100))
    (.error ["Refund + settle amounts must equal escrow amount"])
  let userWallet : Option Wallet ← issue (.findWallet request.userId)
  let userWallet ← orThrow (.error ["User wallet not found"]) userWallet
  let userVersion := userWallet.version
  let modelWallet ← getOrCreateModelWallet config.defaultCurrency request.modelId
  let newModelEarnedBalance := modelWallet.earnedBalance + request.settleAmount
  let modelVersion := modelWallet.version
  let updatedUserWallet : Option Wallet ← issue
    (.updateWallet ⟨request.userId, userVersion, none⟩ (.inc request.refundAmount (-escrow.amount) 1))
  match updatedUserWallet with
  | none => do
    let _ ← issue (.updateEscrowItem request.escrowId reopening)
    throw (.optimisticLock "wallet" request.userId)
  | some updatedUserWallet => do
    let updatedModelWallet : Option ModelWallet ←
      issue (.updateModelWallet ⟨request.modelId, modelVersion⟩ ⟨newModelEarnedBalance, 1⟩)
    match updatedModelWallet with
    | none => do
      -- the user's wallet keeps the update made above
      let _ ← issue (.updateEscrowItem request.escrowId reopening)
      throw (.optimisticLock "model_wallet" request.modelId)
    | some _ => do
      let _ ← issue (.updateEscrowItem request.escrowId ⟨.settled, none, some request.modelId⟩)
      recordPartialSettle config request userWallet updatedUserWallet modelWallet

end partialSettle

structure UserBalance where
  available : ℚ
  escrow : ℚ
  total : ℚ

def getUserBalance (userId : String) : Service UserBalance := do
  let wallet : Option Wallet ← issue (.findWallet userId)
  match wallet with
  | none => pure ⟨0, 0, 0⟩
  | some wallet => pure ⟨wallet.availableBalance, wallet.escrowBalance,
      wallet.availableBalance + wallet.escrowBalance⟩

end RedRoomRewards.WalletService
