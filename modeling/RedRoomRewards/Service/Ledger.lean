import RedRoomRewards.Service.Mongo

/-! The ledger service: write-once entries and idempotency claims. -/
namespace RedRoomRewards.LedgerService
open Process Prog

structure Config where
  defaultCurrency : String

def defaultConfig : Config := ⟨"points"⟩

structure CreateLedgerEntryRequest where
  transactionId : Option String
  accountId : String
  accountType : AccountType
  amount : ℚ
  type : TransactionType
  balanceState : BalanceState
  stateTransition : String
  reason : Option TransactionReason
  idempotencyKey : String
  requestId : String
  balanceBefore : ℚ
  balanceAfter : ℚ
  currency : Option String
  metadata : Option Metadata
  escrowId : Option String
  queueItemId : Option String
  featureType : Option String
  correlationId : Option String

section pii

private def letter (c : Char) : Bool := c.isAlpha
private def wordChar (c : Char) : Bool := c.isAlphanum || c = '_'
private def localChar (c : Char) : Bool := c.isAlphanum || c ∈ ['.', '_', '%', '+', '-']
private def domainChar (c : Char) : Bool := c.isAlphanum || c ∈ ['.', '-']

/-- `[A-Za-z]{2,}\b` matches at the start of the text. -/
private def topLevel (cs : List Char) : Bool :=
  2 ≤ (cs.takeWhile letter).length && !(cs.dropWhile letter).head?.any wordChar

/-- `[A-Za-z0-9.-]*\.[A-Za-z]{2,}\b` matches at the start of the text. -/
private def dotted : List Char → Bool
  | [] => false
  | c :: cs => c = '.' && topLevel cs || domainChar c && dotted cs

private def domain : List Char → Bool
  | [] => false
  | c :: cs => domainChar c && dotted cs

/-- Scans for an `@` between a local part and a domain. A run of local
characters has a word boundary before one of them exactly if it contains a word
character, which `inWord` records. -/
private def addressFrom : Bool → List Char → Bool
  | _, [] => false
  | inWord, c :: cs =>
    c = '@' && inWord && domain cs || addressFrom (localChar c && (inWord || wordChar c)) cs

/-- `/\b[A-Za-z0-9._%+-]+@[A-Za-z0-9.-]+\.[A-Za-z]{2,}\b/.test(s)`. -/
def emailPattern (s : String) : Bool := addressFrom false s.toList

/-- The names that `key.toLowerCase()` is compared with; all are ASCII. -/
def piiFieldNames : List String := ["email", "password", "ssn", "creditcard", "phonenumber", "phone"]

def isPiiField (key : String) : Bool :=
  piiFieldNames.any (fun name => name.toList = key.toList.map Char.toLower)

/-- The first complaint of the metadata check. -/
@[irreducible] def piiIn : Metadata → Option Message
  | [] => none
  | (key, value) :: rest =>
    if isPiiField key then
      some ["PII detected in metadata: field \"", key, "\" may contain sensitive data"]
    else match value with
      | .str s => if emailPattern s then
          some ["PII detected in metadata: field \"", key, "\" contains an email address"]
        else piiIn rest
      | _ => piiIn rest

end pii

/-- `s.trim().length === 0`. -/
def blank (s : String) : Bool := s.toList.all jsSpace

private def rejection (message : Message) : ServiceError := .ledger (.error message)

/-- The document `createEntry` inserts. -/
def CreateLedgerEntryRequest.entryDoc (request : CreateLedgerEntryRequest) (config : Config)
    (entryId transactionId correlationId : String) (reason : TransactionReason) (timestamp : Time) :
    LedgerEntry where
  entryId := entryId
  transactionId := transactionId
  accountId := request.accountId
  accountType := request.accountType
  amount := request.amount
  type := request.type
  balanceState := request.balanceState
  stateTransition := request.stateTransition
  reason := reason
  idempotencyKey := trim request.idempotencyKey
  requestId := request.requestId
  balanceBefore := request.balanceBefore
  balanceAfter := request.balanceAfter
  timestamp := timestamp
  currency := match request.currency with
    | some currency => if currency = "" then config.defaultCurrency else currency
    | none => config.defaultCurrency
  metadata := request.metadata
  escrowId := request.escrowId
  queueItemId := request.queueItemId
  featureType := request.featureType
  correlationId := some correlationId
  tenantId := none

/-- Insert the entry; where its key is taken, return the entry that has it. -/
def insertEntry (entryDoc : LedgerEntry) : Service LedgerEntry := do
  match ← issue (.createLedgerEntry entryDoc) with
  | .ok created => pure created
  | .error e =>
    if e = .duplicateKey ["idempotencyKey"] then do
      let existing : Option LedgerEntry ← issue (.findLedgerEntry entryDoc.idempotencyKey)
      orThrow (.ledger (.mongo e)) existing
    else throw (.ledger (.mongo e))

/-- `transactionId || uuidv4()`. -/
def givenOrFresh : Option String → Service String
  | some id => if id = "" then issue .uuidv4 else pure id
  | none => issue .uuidv4

def createEntry (config : Config) (request : CreateLedgerEntryRequest) : Service LedgerEntry := do
  throwIf (request.accountType = .user ∧ request.balanceState = .earned)
    (rejection ["Invalid state transition: users cannot use earned balance state"])
  throwIf (request.accountType = .model ∧ request.balanceState = .escrow)
    (rejection ["Invalid state transition: models cannot use escrow balance state"])
  match request.metadata.bind piiIn with
  | some message => throw (rejection message)
  | none => do
    let entryId : String ← issue .uuidv4
    let transactionId ← givenOrFresh request.transactionId
    let timestamp : Time ← issue .now
    let correlationId := match request.correlationId with
      | some id => if blank id then transactionId else id
      | none => transactionId
    throwIf (blank correlationId)
      (rejection ["createEntry: correlationId is required (invariant B-012)"])
    let reason ← orThrow (rejection ["createEntry: reason is required (invariant B-012)"]) request.reason
    insertEntry (request.entryDoc config entryId transactionId correlationId reason timestamp)

/-- Insert a reservation record; `false` if the key is already taken in its scope. -/
def claimIdempotency (key operationType : String) (tenantId : Option String) : Service Bool := do
  let expiresAt : Time ← issue .now
  let retentionUntil : Time ← issue .now
  match ← issue (.createIdempotencyRecord {
      pointsIdempotencyKey := key
      eventScope := operationType
      resultHash := "pending"
      storedResult := (Json.obj []).stored
      retentionUntil := some (retentionUntil + 60000)
      expiresAt := some (expiresAt + 60000)
      tenantId := tenantId }) with
  | .ok _ => pure true
  | .error (.duplicateKey _) => pure false
  | .error e => throw (.mongo e)

def checkIdempotency (key operationType tenantId : String) : Service Bool := do
  let existing : Option IdempotencyRecord ← issue (.findIdempotencyRecord tenantId key operationType)
  pure existing.isSome

/-- `stringify` stands for `JSON.stringify`. -/
def storeIdempotencyResult (stringify : Json → String) (key operationType : String) (result : Json)
    (ttlSeconds : ℤ) : Service Unit := do
  let expiresAt : Time ← issue .now
  let retentionUntil : Time ← issue .now
  let reply : Except MongoError IdempotencyRecord ← issue (.createIdempotencyRecord {
    pointsIdempotencyKey := key
    eventScope := operationType
    resultHash := stringify result
    storedResult := result.stored
    retentionUntil := some (retentionUntil + ttlSeconds * 1000)
    expiresAt := some (expiresAt + ttlSeconds * 1000)
    tenantId := none })
  let _ ← created reply
  pure ()

structure LedgerQueryFilter where
  accountId : Option String := none
  accountType : Option AccountType := none
  type : Option TransactionType := none
  reason : Option TransactionReason := none
  balanceState : Option BalanceState := none
  escrowId : Option String := none
  queueItemId : Option String := none
  featureType : Option String := none
  startDate : Option Time := none
  endDate : Option Time := none
  offset : Option ℕ := none
  limit : Option ℕ := none
  sortBy : Option SortField := none
  ascending : Bool := false
  tenantId : Option String := none

structure LedgerQueryResult where
  entries : List LedgerEntry
  totalCount : ℕ
  offset : ℕ
  limit : ℕ
  hasMore : Bool

/-- A text filter counts only if it is not empty. -/
private def given (s : Option String) : Option String := s.filter (· ≠ "")

def LedgerQueryFilter.query (filter : LedgerQueryFilter) : LedgerQuery where
  accountId := given filter.accountId
  accountType := filter.accountType
  type := filter.type
  reason := filter.reason
  balanceState := filter.balanceState
  escrowId := given filter.escrowId
  queueItemId := given filter.queueItemId
  featureType := given filter.featureType
  startDate := filter.startDate
  endDate := filter.endDate
  tenantId := given filter.tenantId

/-- `Math.min(limit || 100, 1000)`. -/
def LedgerQueryFilter.pageSize (filter : LedgerQueryFilter) : ℕ :=
  min (match filter.limit with | some (n + 1) => n + 1 | _ => 100) 1000

def queryEntries (filter : LedgerQueryFilter) : Service LedgerQueryResult := do
  let limit := filter.pageSize
  let offset := filter.offset.getD 0
  let sort : LedgerSort := ⟨filter.sortBy.getD .timestamp, filter.ascending⟩
  let entries : List LedgerEntry ← issue (.findLedgerEntries filter.query sort offset limit)
  let totalCount : ℕ ← issue (.countLedgerEntries filter.query)
  pure ⟨entries, totalCount, offset, limit, offset + entries.length < totalCount⟩

section snapshot

structure BalanceSnapshot where
  accountId : String
  accountType : AccountType
  availableBalance : ℚ
  escrowBalance : Option ℚ
  earnedBalance : Option ℚ
  asOf : Time
  currency : String

/-- The loop variable of `getBalanceSnapshot`: one balance for each state. -/
structure StateBalances where
  available : ℚ := 0
  escrow : ℚ := 0
  earned : ℚ := 0

/-- `balances[entry.balanceState] = entry.balanceAfter`. -/
def StateBalances.assign (balances : StateBalances) (entry : LedgerEntry) : StateBalances :=
  match entry.balanceState with
  | .available => { balances with available := entry.balanceAfter }
  | .escrow => { balances with escrow := entry.balanceAfter }
  | .earned => { balances with earned := entry.balanceAfter }

def snapshotQuery (accountId : String) (accountType : AccountType) (asOf : Option Time)
    (tenantId : Option String) : LedgerQuery where
  accountId := accountId
  accountType := accountType
  type := none
  reason := none
  balanceState := none
  escrowId := none
  queueItemId := none
  featureType := none
  startDate := none
  endDate := asOf
  tenantId := given tenantId

theorem snapshotQuery_accepts (accountId : String) (accountType : AccountType) (e : LedgerEntry) :
    (snapshotQuery accountId accountType none none).accepts e =
      decide (e.accountId = accountId ∧ e.accountType = accountType) := by
  simp [LedgerQuery.accepts, snapshotQuery, given, eq_comm]

/-- The snapshot the entries give, which are sorted by their timestamps. -/
def snapshotOf (config : Config) (accountId : String) (accountType : AccountType)
    (entries : List LedgerEntry) (asOf : Time) : BalanceSnapshot :=
  let balances := entries.foldl StateBalances.assign {}
  { accountId := accountId
    accountType := accountType
    availableBalance := balances.available
    escrowBalance := if accountType = .user then some balances.escrow else none
    earnedBalance := if accountType = .model then some balances.earned else none
    asOf := asOf
    currency := config.defaultCurrency }

def getBalanceSnapshot (config : Config) (accountId : String) (accountType : AccountType)
    (asOf : Option Time) (tenantId : Option String) : Service BalanceSnapshot := do
  let entries : List LedgerEntry ←
    issue (.listLedgerEntries (snapshotQuery accountId accountType asOf tenantId) ⟨.timestamp, true⟩)
  let asOf : Time ← match asOf with
    | some t => pure t
    | none => issue .now
  pure (snapshotOf config accountId accountType entries asOf)

end snapshot

section promotional

/-- A call of `creditPoints` or `deductPoints`. -/
structure PromotionalRequest where
  accountId : String
  amount : ℚ
  source : String
  reason : String
  idempotencyKey : Option String

variable (config : Config) (request : PromotionalRequest)

/-- `idempotencyKey ?? <prefix>-<source>-<accountId>-<uuid>`. -/
def keyOr (kind : String) : Service String :=
  match request.idempotencyKey with
  | some key => pure key
  | none => do
    let id : String ← issue .uuidv4
    pure (kind ++ "-" ++ request.source ++ "-" ++ request.accountId ++ "-" ++ id)

/-- The entry that moves the snapshot's available balance by `amount`. -/
def promotionalEntry (snapshot : BalanceSnapshot) (amount : ℚ) (type : TransactionType)
    (stateTransition : String) (reason : TransactionReason) (idempotencyKey requestId : String) :
    CreateLedgerEntryRequest where
  transactionId := none
  accountId := request.accountId
  accountType := .user
  amount := amount
  type := type
  balanceState := .available
  stateTransition := stateTransition
  reason := reason
  idempotencyKey := idempotencyKey
  requestId := requestId
  balanceBefore := snapshot.availableBalance
  balanceAfter := snapshot.availableBalance + amount
  currency := none
  metadata := some [("reason", .str request.reason), ("source", .str request.source)]
  escrowId := none
  queueItemId := none
  featureType := none
  correlationId := request.source

/-- The transaction it opens covers the insert alone: the snapshot is read outside of
its session. -/
def creditPoints : Service Bool := do
  throwIf (request.amount ≤ 0)
    (.error ["creditPoints: amount must be positive, got ", request.amount])
  let snapshot ← getBalanceSnapshot config request.accountId .user none none
  let idempotencyKey ← keyOr request "credit"
  let requestId : String ← issue .uuidv4
  let _ ← createEntry config (promotionalEntry request snapshot request.amount .credit
    "promotional-credit→available" .promotionalAward idempotencyKey requestId)
  pure true

def deductPoints : Service Bool := do
  throwIf (request.amount ≤ 0)
    (.error ["deductPoints: amount must be positive, got ", request.amount])
  let snapshot ← getBalanceSnapshot config request.accountId .user none none
  throwIf (snapshot.availableBalance < request.amount)
    (.error ["deductPoints: insufficient balance for ", request.accountId, " — available ",
      snapshot.availableBalance, ", requested ", request.amount])
  let idempotencyKey ← keyOr request "debit"
  let requestId : String ← issue .uuidv4
  let _ ← createEntry config (promotionalEntry request snapshot (-request.amount) .debit
    "available→promotional-debit" .adminDebit idempotencyKey requestId)
  pure true

end promotional

end RedRoomRewards.LedgerService
