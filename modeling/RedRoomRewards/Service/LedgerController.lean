import RedRoomRewards.Service.Ledger

/-! The ledger's part of the REST interface. Dates are taken as the controller parses them. -/
namespace RedRoomRewards.LedgerController
open Process LedgerService

/-- The transaction types a request can ask for. -/
inductive RequestedType where
  | credit
  | debit
  | all

structure ListTransactionsRequest where
  userId : Option String := none
  type : Option RequestedType := none
  startDate : Option Time := none
  endDate : Option Time := none
  limit : Option ℕ := none
  offset : Option ℕ := none

structure Transaction where
  id : String
  userId : String
  amount : ℚ
  type : TransactionType
  reason : TransactionReason
  metadata : Option Metadata
  timestamp : String
  idempotencyKey : String
  previousBalance : ℚ
  newBalance : ℚ
  requestId : String

def Transaction.ofEntry (entry : LedgerEntry) : Transaction where
  id := entry.transactionId
  userId := entry.accountId
  amount := entry.amount
  type := entry.type
  reason := entry.reason
  metadata := entry.metadata
  timestamp := entry.timestamp.toISOString
  idempotencyKey := entry.idempotencyKey
  previousBalance := entry.balanceBefore
  newBalance := entry.balanceAfter
  requestId := entry.requestId

structure Pagination where
  limit : ℕ
  offset : ℕ
  total : ℕ
  hasMore : Bool

structure TransactionListResponse where
  transactions : List Transaction
  pagination : Pagination

def typeFilter : Option RequestedType → Option TransactionType
  | some .credit => some .credit
  | some .debit => some .debit
  | some .all | none => none

/-- The filter that the request's parameters make. -/
def ListTransactionsRequest.filter (request : ListTransactionsRequest) : LedgerQueryFilter where
  accountId := request.userId
  accountType := match request.userId with
    | some userId => if userId = "" then none else some .user
    | none => none
  type := typeFilter request.type
  startDate := request.startDate
  endDate := request.endDate
  limit := some (min (match request.limit with | some (n + 1) => n + 1 | _ => 100) 1000)
  offset := some (request.offset.getD 0)
  sortBy := some .timestamp
  ascending := false

def listTransactions (request : ListTransactionsRequest) : Service TransactionListResponse := do
  let result ← queryEntries request.filter
  pure ⟨result.entries.map Transaction.ofEntry, result.limit, result.offset, result.totalCount, result.hasMore⟩

end RedRoomRewards.LedgerController
