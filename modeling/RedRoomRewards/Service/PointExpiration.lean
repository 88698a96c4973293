import RedRoomRewards.Arithmetic.Double
import RedRoomRewards.Process.AwaitAll
import RedRoomRewards.Service.Ledger
import RedRoomRewards.Store.Grouping

/-! Point expiration: the debit of a user's expired credits, for many users in batches, and
the list of the users whose credits are about to expire. -/
namespace RedRoomRewards.PointExpirationService
open Process Prog LedgerService

/-- `dateOf` is the valid date that `new Date(value)` gives, if it gives one, and `round` what the
total of the expired amounts is rounded to with each addition. -/
structure Config where
  defaultCurrency : String
  gracePeriodDays : ℤ
  dateOf : Json → Option Time
  ledger : LedgerService.Config
  round : ℚ → ℚ

/-- With exact amounts. -/
def defaultConfig (dateOf : Json → Option Time) : Config :=
  ⟨"points", 0, dateOf, LedgerService.defaultConfig, id⟩

/-- With amounts in doubles. -/
def Config.inDoubles (config : Config) : Config := { config with round := Arithmetic.double }

variable (config : Config)

/-- The date a stored entry expires at; comparisons with an invalid date fail. -/
def expiresAt (entry : LedgerEntry) : Option Time :=
  let value := (entry.metadata.getD []).get "expiresAt"
  if value.truthy then config.dateOf value else none

def expired (gracePeriodDate : Time) (entry : LedgerEntry) : Bool :=
  (expiresAt config entry).any (· ≤ gracePeriodDate)

/-- The loop over the queried entries. -/
def totalExpired (gracePeriodDate : Time) (entries : List LedgerEntry) : ℚ :=
  entries.foldl (fun total entry =>
    if expired config gracePeriodDate entry then config.round (total + entry.amount) else total) 0

variable (userId requestId : String)

def creditFilter : LedgerQueryFilter where
  accountId := userId
  accountType := some .user
  type := some .credit
  balanceState := some .available

def expirationEntry (wallet : Wallet) (amountToExpire : ℚ) (transactionId : String) (timestamp : Time) :
    CreateLedgerEntryRequest where
  transactionId := transactionId
  accountId := userId
  accountType := .user
  amount := -amountToExpire
  type := .debit
  balanceState := .available
  stateTransition := "available→expired"
  reason := some .pointExpiry
  idempotencyKey := "expiration-" ++ userId ++ "-" ++ timestamp.isoDate
  requestId := requestId
  balanceBefore := wallet.availableBalance
  balanceAfter := wallet.availableBalance - amountToExpire
  currency := config.defaultCurrency
  metadata := some [("expirationDate", .str timestamp.toISOString), ("amountExpired", .num amountToExpire)]
  escrowId := none
  queueItemId := none
  featureType := none
  correlationId := none

/-- Where the guarded update misses, the function calls itself again. -/
def processUserExpiration : Service (Next Unit (Option UserExpirationDetails)) := do
  let ledgerResult ← queryEntries (creditFilter userId)
  let now : Time ← issue .now
  let gracePeriodDate := now - config.gracePeriodDays * 24 * 60 * 60 * 1000
  let totalExpired := totalExpired config gracePeriodDate ledgerResult.entries
  if totalExpired = 0 then pure (.done none)
  else do
    let wallet : Option Wallet ← issue (.findWallet userId)
    let wallet ← orThrow (.error ["Wallet not found for user: ", userId]) wallet
    let amountToExpire := min totalExpired wallet.availableBalance
    if amountToExpire ≤ 0 then pure (.done none)
    else do
      let updated : Option Wallet ←
        issue (.updateWallet ⟨userId, wallet.version, none⟩ (.inc (-amountToExpire) 0 1))
      match updated with
      | none => pure (.again ())
      | some _ => do
        let transactionId : String ← issue .uuidv4
        let timestamp : Time ← issue .now
        let _ ← createEntry config.ledger
          (expirationEntry config userId requestId wallet amountToExpire transactionId timestamp)
        pure (.done (some ⟨userId, amountToExpire, transactionId, timestamp⟩))

section batch

structure ExpirationBatchResult where
  usersProcessed : ℕ
  totalPointsExpired : ℚ
  successCount : ℕ
  failureCount : ℕ
  timestamp : Time
  errors : List (String × String)

/-- How a call of `processUserExpiration` ends; what is thrown has a message if it is an `Error`. -/
abbrev ExpirationOutcome := Except (Option String) (Option UserExpirationDetails)

namespace ExpirationBatchResult

/-- What a settled call adds to the result. -/
def record (result : ExpirationBatchResult) (userId : String) : ExpirationOutcome → ExpirationBatchResult
  | .ok expiration =>
    let result := { result with usersProcessed := result.usersProcessed + 1 }
    match expiration with
    | some expiration =>
      { result with
        totalPointsExpired := result.totalPointsExpired + expiration.amountExpired
        successCount := result.successCount + 1 }
    | none => result
  | .error message =>
    { result with
      failureCount := result.failureCount + 1
      errors := result.errors ++ [(userId, message.getD "Unknown error")] }

end ExpirationBatchResult

/-- The users that are processed: those of all wallets if none are given. -/
def batchUsers (userIds : Option (List String)) (wallets : List Wallet) : List String :=
  userIds.getD (wallets.map Wallet.userId)

/-- What the batches come to in a number of steps, when the call for the user at the place
`i` of the list ends with `outcomes i`. -/
def processBatchExpiration (userIds : Option (List String)) (wallets : List Wallet) (batchSize : ℕ)
    (outcomes : ℕ → ExpirationOutcome) (timestamp : Time) : ℕ → AwaitAll (String × ℕ) ExpirationBatchResult → Prop :=
  AwaitAll.Run (batchUsers userIds wallets).zipIdx batchSize (fun result user => result.record user.1 (outcomes user.2))
    ⟨0, 0, 0, 0, timestamp, []⟩

end batch

section warning

structure ExpiringPoints where
  userId : String
  amountExpiring : ℚ
  expiresAt : Time

/-- An entry of `userExpirationMap`. -/
structure Expiration where
  amount : ℚ
  date : Time

variable (warningPeriodDays : ℤ)

/-- The date of an entry if it lies in the warning period. -/
def expiring (now : Time) (entry : LedgerEntry) : Option Time :=
  let warningDate := now + warningPeriodDays * 24 * 60 * 60 * 1000
  (expiresAt config entry).filter fun date => now ≤ date ∧ date ≤ warningDate

def warningFilter : LedgerQueryFilter where
  type := some .credit
  balanceState := some .available

/-- What an entry makes of the expiration of its account. -/
def addExpiration (existing : Option Expiration) (entry : LedgerEntry × Time) : Expiration :=
  let (entry, expiresAt) := entry
  match existing with
  | some existing => ⟨existing.amount + entry.amount, if expiresAt < existing.date then expiresAt else existing.date⟩
  | none => ⟨entry.amount, expiresAt⟩

/-- The loop over the queried entries. -/
def userExpirationMap (now : Time) (entries : List LedgerEntry) : List (String × Expiration) :=
  entries.foldl (fun map entry =>
    match expiring config warningPeriodDays now entry with
    | some expiresAt => Store.alter entry.accountId (addExpiration · (entry, expiresAt)) map
    | none => map) []

def getUsersWithExpiringPoints : Service (List ExpiringPoints) := do
  let now : Time ← issue .now
  let ledgerResult ← queryEntries warningFilter
  pure ((userExpirationMap config warningPeriodDays now ledgerResult.entries).map fun (userId, value) =>
    ⟨userId, value.amount, value.date⟩)

end warning
end RedRoomRewards.PointExpirationService
