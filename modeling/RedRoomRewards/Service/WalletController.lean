import RedRoomRewards.Service.PointAccrual

/-! The wallet endpoints: credits and deductions behind a cache of results. -/
namespace RedRoomRewards

/-- A `CreditPointsRequest` or `DeductPointsRequest`; they have the same fields. -/
structure TransactionRequest where
  amount : ℚ
  reason : String
  metadata : Option Metadata
  idempotencyKey : String
  requestId : String
  tenantId : String

structure WalletResponse where
  userId : String
  availableBalance : ℚ
  escrowBalance : ℚ
  totalBalance : ℚ
  currency : String
  version : ℕ
  createdAt : String
  lastUpdated : String

/-- The `transaction` part of a response. -/
structure TransactionDetails where
  id : String
  userId : String
  amount : ℚ
  type : TransactionType
  reason : String
  timestamp : String
  idempotencyKey : String
  previousBalance : ℚ
  newBalance : ℚ
  requestId : String

def WalletResponse.json (wallet : WalletResponse) : Json := .obj [
  ("userId", .str wallet.userId),
  ("availableBalance", .num wallet.availableBalance),
  ("escrowBalance", .num wallet.escrowBalance),
  ("totalBalance", .num wallet.totalBalance),
  ("currency", .str wallet.currency),
  ("version", .num wallet.version),
  ("createdAt", .str wallet.createdAt),
  ("lastUpdated", .str wallet.lastUpdated)]

def TransactionDetails.json (transaction : TransactionDetails) : Json := .obj [
  ("id", .str transaction.id),
  ("userId", .str transaction.userId),
  ("amount", .num transaction.amount),
  ("type", .str (match transaction.type with | .credit => "credit" | .debit => "debit")),
  ("reason", .str transaction.reason),
  ("timestamp", .str transaction.timestamp),
  ("idempotencyKey", .str transaction.idempotencyKey),
  ("previousBalance", .num transaction.previousBalance),
  ("newBalance", .num transaction.newBalance),
  ("requestId", .str transaction.requestId)]

namespace IdempotencyService
open Process Prog

def buildScope (tenantId operation : String) : String := tenantId ++ ":" ++ operation

/-- The result stored in a record; `null` and a missing result count as none. -/
def storedResult : Option IdempotencyRecord → Option Json
  | none => none
  | some record => match record.storedResult with
    | .undefined | .null => none
    | result => some result

def checkKey (key tenantId operation : String) : Service (Option Json) := do
  let record : Option IdempotencyRecord ← issue (.findIdempotencyResult key (buildScope tenantId operation))
  pure (storedResult record)

/-- `hashResult` stands for the SHA-256 of the result's stable serialisation. -/
def resultRecord (hashResult : Json → String) (key tenantId operation : String) (result : Json) :
    IdempotencyRecord where
  pointsIdempotencyKey := key
  eventScope := buildScope tenantId operation
  resultHash := hashResult result
  storedResult := result.stored
  retentionUntil := none
  expiresAt := none
  tenantId := none

def recordKey (hashResult : Json → String) (key tenantId operation : String) (result : Json) :
    Service Unit := do
  let reply : Except MongoError IdempotencyRecord ←
    issue (.createIdempotencyRecord (resultRecord hashResult key tenantId operation result))
  let _ ← created reply
  pure ()

end IdempotencyService

namespace WalletController
open Process Prog

structure Config where
  accrual : PointAccrualService.Config
  hashResult : Json → String

variable (config : Config) (userId : String) (request : TransactionRequest)

def getWallet : Service WalletResponse := do
  let balance ← WalletService.getUserBalance userId
  let createdAt : Time ← issue .now
  let lastUpdated : Time ← issue .now
  pure {
    userId := userId
    availableBalance := balance.available
    escrowBalance := balance.escrow
    totalBalance := balance.total
    currency := "points"
    version := 0
    createdAt := createdAt.toISOString
    lastUpdated := lastUpdated.toISOString }

/-- What both endpoints do: `perform` is the call of the accrual service and `amount` the
signed amount of the transaction. -/
def transact (operation : String) (type : TransactionType) (amount : ℚ)
    (perform : Service AwardPointsResponse) : Service Json := do
  throwIf (LedgerService.blank request.idempotencyKey) (.badRequest ["idempotencyKey is required"])
  throwIf (request.amount ≤ 0) (.error ["Amount must be positive"])
  match ← IdempotencyService.checkKey request.idempotencyKey userId operation with
  | some cached => pure cached
  | none => do
    let previousBalance := (← WalletService.getUserBalance userId).available
    let award ← perform
    let transaction : TransactionDetails := {
      id := award.transactionId
      userId := userId
      amount := amount
      type := type
      reason := request.reason
      timestamp := award.timestamp.toISOString
      idempotencyKey := request.idempotencyKey
      previousBalance := previousBalance
      newBalance := award.newBalance
      requestId := request.requestId }
    let wallet ← getWallet userId
    let result : Json := .obj [("transaction", transaction.json), ("wallet", wallet.json)]
    IdempotencyService.recordKey config.hashResult request.idempotencyKey userId operation result
    pure result

/-- The request handed to the accrual service. -/
def awardRequest (reason : TransactionReason) : AwardPointsRequest where
  userId := userId
  amount := request.amount
  reason := reason
  idempotencyKey := request.idempotencyKey
  requestId := request.requestId
  tenantId := request.tenantId
  metadata := request.metadata
  expiresAt := none

def coerceDebitReason (reason : String) : TransactionReason :=
  if reason = TransactionReason.pointExpiry.code then .pointExpiry else .adminDebit

def coerceCreditReason (reason : String) : TransactionReason :=
  if reason = TransactionReason.userSignupBonus.code then .userSignupBonus
  else if reason = TransactionReason.referralBonus.code then .referralBonus
  else if reason = TransactionReason.promotionalAward.code then .promotionalAward
  else .adminCredit

def deductPoints : Service Json :=
  transact config userId request "wallet_deduct" .debit (-request.amount)
    (PointAccrualService.deductFromAvailable config.accrual
      (awardRequest userId request (coerceDebitReason request.reason)))

def creditPoints : Service Json :=
  transact config userId request "wallet_credit" .credit request.amount
    (PointAccrualService.awardPoints config.accrual
      (awardRequest userId request (coerceCreditReason request.reason)))

end WalletController

/-- A request to one of the endpoints that change a wallet. -/
inductive ApiCall where
  | credit (userId : String) (request : TransactionRequest)
  | deduct (userId : String) (request : TransactionRequest)

namespace ApiCall

def userId : ApiCall → String
  | credit userId _ | deduct userId _ => userId

def request : ApiCall → TransactionRequest
  | credit _ request | deduct _ request => request

/-- The scope in which the endpoint looks up and records its results. -/
def scope : ApiCall → String
  | credit userId _ => IdempotencyService.buildScope userId "wallet_credit"
  | deduct userId _ => IdempotencyService.buildScope userId "wallet_deduct"

/-- By how much the request changes the available balance. -/
def change : ApiCall → ℚ
  | credit _ request => request.amount
  | deduct _ request => -request.amount

def body (config : WalletController.Config) : ApiCall → Service Json
  | credit userId request => WalletController.creditPoints config userId request
  | deduct userId request => WalletController.deductPoints config userId request

end ApiCall
end RedRoomRewards
