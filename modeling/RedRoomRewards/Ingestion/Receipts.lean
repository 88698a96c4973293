import RedRoomRewards.Ingestion.Controller
import RedRoomRewards.Service.Auth

/-! The receipts of events, and the guard in front of them: what a support token shows of an
event that has been received. `jsonwebtoken` is a parameter, and so are the texts that a
schema makes of values that are none. -/
namespace RedRoomRewards.Ingestion
open Process Store Ingest

section guard

inductive UserRole where
  | admin
  | user
  | model
  | queueService
  | system
  deriving DecidableEq

def UserRole.code : UserRole → String
  | admin => "admin"
  | user => "user"
  | model => "model"
  | queueService => "queue_service"
  | system => "system"

structure AuthCheckResult where
  authorized : Bool
  reason : Option String := none
  payload : Option Json := none

structure AuthGuardConfig where
  jwtSecret : String
  algorithm : Option AuthService.Algorithm := none

/-- `jwt.verify` at the time of a request; what it throws has a message if it is an `Error`. -/
abbrev Verify := (token secret : String) → AuthService.Algorithm → Except (Option String) Json

/-- `text.split(' ')`. -/
def splitSpaces (text : String) : List String := (text.toList.splitOn ' ').map String.ofList

/-- The role that a verified payload names. -/
def hasRequiredRole (payload : Json) : Bool :=
  match Metadata.get (fields payload) "role" with
  | .str role => role = UserRole.admin.code ∨ role = UserRole.system.code
  | _ => false

variable (verify : Verify) (config : AuthGuardConfig)

def checkToken (token : String) : AuthCheckResult :=
  match verify token config.jwtSecret (config.algorithm.getD .hs256) with
  | .ok payload =>
    if hasRequiredRole payload then { authorized := true, payload := some payload }
    else ⟨false, some "Insufficient permissions - admin or support role required", some payload⟩
  | .error message => { authorized := false, reason := some (message.getD "Authorization failed") }

def checkAdminSupportAuth (authHeader : Option String) : AuthCheckResult :=
  match authHeader.filter (· ≠ "") with
  | none => { authorized := false, reason := some "Missing authorization header" }
  | some header =>
    match splitSpaces header with
    | ["Bearer", token] => checkToken verify config token
    | _ => { authorized := false, reason := some "Invalid authorization header format" }

end guard

section receipts

structure EventReceiptResponse where
  correlationId : Option String
  merchantId : Option String
  eventId : String
  idempotencyKey : Option String
  status : IngestEventStatus
  accepted : Option Bool
  replayed : Bool
  postedTransactions : ℕ
  errorCode : Option String
  deriving DecidableEq

variable (cast : Json → Option String)

/-- The text that is stored for a value. -/
def storedText : Json → Option String
  | .undefined | .null => none
  | .str s => some (trim s)
  | value => (cast value).map trim

/-- Only approved fields. -/
def ReceivedEvent.receipt (event : ReceivedEvent) : EventReceiptResponse where
  correlationId := storedText cast event.correlationId
  merchantId := storedText cast event.merchantId
  eventId := event.eventId
  idempotencyKey := event.idempotencyKey
  status := event.status
  accepted := event.accepted
  replayed := event.replayed
  postedTransactions := event.postedTransactions
  errorCode := event.lastErrorCode

/-- What the lookup asks of an event. -/
def ReceivedEvent.answers (merchantId idempotencyKey : String) (event : ReceivedEvent) : Bool :=
  storedText cast event.merchantId = some (trim merchantId) ∧ event.idempotencyKey = some (trim idempotencyKey)

/-- The query may fail, as `o` says. -/
def getEventReceipt (o : Oracle) (db : Db) (merchantId idempotencyKey : String) :
    Except MongoError (Option EventReceiptResponse) :=
  (o.attempt db (.ok ((db.events.docs.find? (ReceivedEvent.answers cast merchantId idempotencyKey)).map
    (ReceivedEvent.receipt cast)), db)).1

end receipts

section endpoint

structure HTTPRequest where
  authorization : Option String
  merchantId : Option String
  idempotencyKey : Option String

inductive HTTPBody where
  | error (error message : String)
  | receipt (receipt : EventReceiptResponse)
  deriving DecidableEq

structure HTTPResponse where
  status : ℕ
  body : HTTPBody
  deriving DecidableEq

def badRequest : HTTPResponse :=
  ⟨400, .error "BAD_REQUEST" "Both merchantId and idempotencyKey query parameters are required"⟩
def unauthorized (message : String) : HTTPResponse := ⟨401, .error "UNAUTHORIZED" message⟩
def notFound : HTTPResponse := ⟨404, .error "NOT_FOUND" "Event receipt not found"⟩
def lookupFailed : HTTPResponse := ⟨500, .error "INTERNAL_SERVER_ERROR" "Failed to retrieve receipt"⟩

/-- The answer to a lookup that has not failed. -/
def receiptResponse : Option EventReceiptResponse → HTTPResponse
  | some receipt => ⟨200, .receipt receipt⟩
  | none => notFound

variable (cast : Json → Option String) (verify : Verify) (config : AuthGuardConfig) (o : Oracle) (db : Db)

def handleReceiptRequest (req : HTTPRequest) : HTTPResponse :=
  match req.merchantId.filter (· ≠ ""), req.idempotencyKey.filter (· ≠ "") with
  | some merchantId, some idempotencyKey =>
    let authResult := checkAdminSupportAuth verify config req.authorization
    if authResult.authorized = false then
      unauthorized (textOr authResult.reason "Authentication required")
    else match getEventReceipt cast o db merchantId idempotencyKey with
      | .ok receipt => receiptResponse receipt
      | .error _ => lookupFailed
  | _, _ => badRequest

end endpoint
end RedRoomRewards.Ingestion
