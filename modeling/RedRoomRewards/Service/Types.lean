import Mathlib.Algebra.Order.Field.Rat
import Mathlib.Data.List.Basic

/-! Documents, requests, responses and errors of the wallet and point services. Amounts are exact
numbers, which doubles are as long as nothing is rounded (`Service.Doubles`); identifiers are taken
as the schemas store and query them, trimmed, but the keys of ledger entries, which are trimmed
here when they are stored; dates are valid where an invalid one is not named. -/
namespace RedRoomRewards

/-- A valid `Date`, in milliseconds since the epoch. -/
abbrev Time := Int

namespace Time

def digits (width : ℕ) (n : Int) : String :=
  let s := toString n
  String.ofList (List.replicate (width - s.length) '0') ++ s

/-- Year, month and day of a day number, in the proleptic Gregorian calendar. -/
def civil (day : Int) : Int × Int × Int :=
  let z := day + 719468
  let era := z / 146097
  let doe := z - era * 146097
  let yoe := (doe - doe / 1460 + doe / 36524 - doe / 146096) / 365
  let doy := doe - (365 * yoe + yoe / 4 - yoe / 100)
  let mp := (5 * doy + 2) / 153
  let month := if mp < 10 then mp + 3 else mp - 9
  (yoe + era * 400 + (if month ≤ 2 then 1 else 0), month, doy - (153 * mp + 2) / 5 + 1)

/-- The part of `toISOString()` before the `T`. -/
def isoDate (t : Time) : String :=
  let (y, m, d) := civil (t / 86400000)
  let year := if 0 ≤ y ∧ y ≤ 9999 then digits 4 y
    else (if y < 0 then "-" else "+") ++ digits 6 y.natAbs
  year ++ "-" ++ digits 2 m ++ "-" ++ digits 2 d

def toISOString (t : Time) : String :=
  let ms := t % 86400000
  t.isoDate ++ "T" ++ digits 2 (ms / 3600000) ++ ":" ++ digits 2 (ms / 60000 % 60) ++ ":" ++
    digits 2 (ms / 1000 % 60) ++ "." ++ digits 3 (ms % 1000) ++ "Z"

end Time

/-- Metadata values; `undefined` is a key that is present without a value. -/
inductive Json where
  | undefined
  | null
  | bool (b : Bool)
  | num (n : ℚ)
  | str (s : String)
  | date (t : Time)
  | arr (items : List Json)
  | obj (fields : List (String × Json))

/-- JavaScript's truthiness. -/
def Json.truthy : Json → Bool
  | .undefined | .null => false
  | .bool b => b
  | .num n => n ≠ 0
  | .str s => s ≠ ""
  | .date _ | .arr _ | .obj _ => true

/-- `Record<string, unknown>` with its keys in insertion order. -/
abbrev Metadata := List (String × Json)

namespace Metadata

/-- The value of a key; reading a missing key gives `undefined`. -/
def get (m : Metadata) (key : String) : Json :=
  match m.find? (fun kv => kv.1 = key) with
  | some kv => kv.2
  | none => .undefined

/-- `{ ...m, key: value }`. -/
def set : Metadata → String → Json → Metadata
  | [], key, value => [(key, value)]
  | kv :: m, key, value => if kv.1 = key then (key, value) :: m else kv :: set m key value

end Metadata

inductive AccountType where
  | user
  | model
  deriving DecidableEq

inductive TransactionType where
  | credit
  | debit
  deriving DecidableEq

inductive BalanceState where
  | available
  | escrow
  | earned
  deriving DecidableEq

inductive TransactionReason where
  | userSignupBonus
  | referralBonus
  | promotionalAward
  | adminCredit
  | chipMenuPurchase
  | spinWheelPlay
  | performanceRequest
  | performanceCompleted
  | partialPerformance
  | performanceAbandoned
  | userDisconnected
  | modelInitiatedRefund
  | ropeDropTimeout
  | adminRefund
  | pointExpiry
  | adminDebit
  | chargeback
  deriving DecidableEq

def TransactionReason.code : TransactionReason → String
  | userSignupBonus => "user_signup_bonus"
  | referralBonus => "referral_bonus"
  | promotionalAward => "promotional_award"
  | adminCredit => "admin_credit"
  | chipMenuPurchase => "chip_menu_purchase"
  | spinWheelPlay => "spin_wheel_play"
  | performanceRequest => "performance_request"
  | performanceCompleted => "performance_completed"
  | partialPerformance => "partial_performance"
  | performanceAbandoned => "performance_abandoned"
  | userDisconnected => "user_disconnected"
  | modelInitiatedRefund => "model_initiated_refund"
  | ropeDropTimeout => "rope_drop_timeout"
  | adminRefund => "admin_refund"
  | pointExpiry => "point_expiry"
  | adminDebit => "admin_debit"
  | chargeback => "chargeback"

/-- The statuses the `EscrowItem` schema allows. -/
inductive EscrowStatus where
  | held
  | settling
  | settled
  | refunding
  | refunded
  | partialSettling
  deriving DecidableEq

def EscrowStatus.code : EscrowStatus → String
  | held => "held"
  | settling => "settling"
  | settled => "settled"
  | refunding => "refunding"
  | refunded => "refunded"
  | partialSettling => "partial_settling"

structure Wallet where
  userId : String
  availableBalance : ℚ
  escrowBalance : ℚ
  currency : String
  version : ℕ
  deriving DecidableEq

inductive ModelWalletType where
  | promotional
  | earnings
  deriving DecidableEq

structure ModelWallet where
  modelId : String
  earnedBalance : ℚ
  currency : String
  type : ModelWalletType
  version : ℕ
  deriving DecidableEq

structure EscrowItem where
  escrowId : String
  userId : String
  amount : ℚ
  status : EscrowStatus
  queueItemId : String
  featureType : String
  reason : TransactionReason
  metadata : Option Metadata
  createdAt : Time
  processedAt : Option Time
  modelId : Option String

structure LedgerEntry where
  entryId : String
  transactionId : String
  accountId : String
  accountType : AccountType
  amount : ℚ
  type : TransactionType
  balanceState : BalanceState
  stateTransition : String
  reason : TransactionReason
  idempotencyKey : String
  requestId : String
  balanceBefore : ℚ
  balanceAfter : ℚ
  timestamp : Time
  currency : String
  metadata : Option Metadata
  escrowId : Option String
  queueItemId : Option String
  featureType : Option String
  correlationId : Option String
  tenantId : Option String

structure IdempotencyRecord where
  pointsIdempotencyKey : String
  eventScope : String
  resultHash : String
  storedResult : Json
  retentionUntil : Option Time
  expiresAt : Option Time
  tenantId : Option String

/-- What the event bus is given by the wallet service. -/
inductive WalletEvent where
  | escrowHeld (userId escrowId : String) (amount : ℚ) (reason : TransactionReason)
      (queueItemId featureType transactionId : String) (userAvailableBalance userEscrowBalance : ℚ)
      (idempotencyKey : String) (metadata : Option Metadata)
  | escrowSettled (userId modelId escrowId : String) (amount : ℚ) (reason : TransactionReason)
      (queueItemId transactionId : String) (modelEarnedBalance : ℚ) (idempotencyKey : String)
      (metadata : Option Metadata)
  | escrowRefunded (userId escrowId : String) (amount : ℚ) (reason : TransactionReason)
      (queueItemId transactionId : String) (userAvailableBalance userEscrowBalance : ℚ)
      (idempotencyKey : String) (metadata : Option Metadata)
  | escrowPartialSettled (userId modelId escrowId : String) (refundAmount settleAmount : ℚ)
      (reason : TransactionReason) (queueItemId transactionId : String)
      (userAvailableBalance userEscrowBalance modelEarnedBalance : ℚ) (idempotencyKey : String)
      (metadata : Option Metadata)

/-- An event with the base fields `EventBuilder.createBase` adds. -/
structure PublishedEvent where
  eventId : String
  timestamp : Time
  event : WalletEvent

section errors

/-- One piece of an error text; numbers are those a template literal prints. -/
inductive Fragment where
  | text (s : String)
  | number (n : ℚ)
  deriving DecidableEq

instance : Coe String Fragment := ⟨.text⟩
instance : Coe ℚ Fragment := ⟨.number⟩

abbrev Message := List Fragment

inductive MongoError where
  | validation (paths : List String)
  | duplicateKey (keyPattern : List String)
  | unavailable (message : String)
  deriving DecidableEq

/-- What `createEntry` throws. -/
inductive LedgerError where
  | error (message : Message)
  | mongo (e : MongoError)
  deriving DecidableEq

inductive ServiceError where
  | error (message : Message)
  | badRequest (message : Message)
  | insufficientBalance (required available : ℚ)
  | escrowNotFound (escrowId : String)
  | escrowAlreadyProcessed (escrowId : String) (status : EscrowStatus)
  | optimisticLock (resourceType resourceId : String)
  | mongo (e : MongoError)
  | ledger (e : LedgerError)
  deriving DecidableEq

end errors

section requests

structure EscrowHoldRequest where
  userId : String
  amount : ℚ
  reason : TransactionReason
  queueItemId : String
  featureType : String
  idempotencyKey : String
  requestId : String
  metadata : Option Metadata

structure EscrowHoldResponse where
  transactionId : String
  escrowId : String
  previousBalance : ℚ
  newAvailableBalance : ℚ
  escrowBalance : ℚ
  timestamp : Time

structure EscrowSettleRequest where
  escrowId : String
  modelId : String
  amount : ℚ
  queueItemId : String
  reason : TransactionReason
  idempotencyKey : String
  requestId : String
  metadata : Option Metadata

structure EscrowSettleResponse where
  transactionId : String
  settledAmount : ℚ
  modelEarnedBalance : ℚ
  timestamp : Time

structure EscrowRefundRequest where
  escrowId : String
  userId : String
  amount : ℚ
  queueItemId : String
  reason : TransactionReason
  idempotencyKey : String
  requestId : String
  metadata : Option Metadata

structure EscrowRefundResponse where
  transactionId : String
  refundedAmount : ℚ
  userAvailableBalance : ℚ
  timestamp : Time

structure EscrowPartialSettleRequest where
  escrowId : String
  userId : String
  modelId : String
  refundAmount : ℚ
  settleAmount : ℚ
  queueItemId : String
  reason : TransactionReason
  idempotencyKey : String
  requestId : String
  metadata : Option Metadata

structure EscrowPartialSettleResponse where
  transactionId : String
  refundedAmount : ℚ
  settledAmount : ℚ
  userAvailableBalance : ℚ
  modelEarnedBalance : ℚ
  timestamp : Time

structure QueueSettlementAuthorization where
  queueItemId : String
  token : String
  escrowId : String
  modelId : String
  amount : ℚ
  reason : TransactionReason
  issuedAt : Time
  expiresAt : Time

structure QueueRefundAuthorization where
  queueItemId : String
  token : String
  escrowId : String
  userId : String
  amount : ℚ
  reason : TransactionReason
  issuedAt : Time
  expiresAt : Time

structure QueuePartialSettlementAuthorization where
  queueItemId : String
  token : String
  escrowId : String
  userId : String
  modelId : String
  refundAmount : ℚ
  settleAmount : ℚ
  reason : TransactionReason
  issuedAt : Time
  expiresAt : Time

structure AwardPointsRequest where
  userId : String
  amount : ℚ
  reason : TransactionReason
  idempotencyKey : String
  requestId : String
  tenantId : String
  metadata : Option Metadata
  expiresAt : Option Time

structure AwardPointsResponse where
  transactionId : String
  amountAwarded : ℚ
  newBalance : ℚ
  timestamp : Time

structure UserExpirationDetails where
  userId : String
  amountExpired : ℚ
  transactionId : String
  timestamp : Time

structure AdminContext where
  adminId : String
  adminUsername : String
  roles : List String
  ipAddress : Option String

structure ManualAdjustmentRequest where
  userId : String
  amount : ℚ
  reason : String
  admin : AdminContext
  requestId : String
  metadata : Option Metadata

structure ManualAdjustmentResponse where
  transactionId : String
  amountAdjusted : ℚ
  previousBalance : ℚ
  newBalance : ℚ
  timestamp : Time

structure RedeemPointsRequest where
  userId : String
  amount : ℚ
  featureType : String
  modelId : Option String
  queueItemId : String
  reason : TransactionReason
  requestId : String
  metadata : Option Metadata

structure RedeemPointsResponse where
  transactionId : String
  escrowId : String
  amountRedeemed : ℚ
  newAvailableBalance : ℚ
  escrowBalance : ℚ
  queueItemId : String
  timestamp : Time

end requests
end RedRoomRewards
