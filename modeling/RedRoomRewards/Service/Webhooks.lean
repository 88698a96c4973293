import RedRoomRewards.Service.ResultHash

/-! Incoming webhooks: a delivery is checked against its signature and accepted once for each
event. Logging issues no command and is left out. -/
namespace RedRoomRewards.WebhookReceiveService
open Process Prog

/-- A delivery: its payload and the headers that are looked at. -/
structure Delivery where
  payload : Metadata
  signature : Option String
  timestamp : Option String

/-- `secret` is `RRR_WEBHOOK_SECRET`; the others stand for HMAC-SHA256 in hexadecimal digits, the
printing of numbers, the hash of a result, and what the database makes of an event id that is
not a text: as a filter, which may hold operators, and as the value of a `String` path. -/
structure Config where
  secret : Option String
  hmac : String → String → String
  print : ℚ → NumberText
  hashResult : Json → String
  findOne : Json → Service (Option IdempotencyRecord)
  cast : Json → Except MongoError String

def webhookReceiveOp : String := "webhook_receive"

def webhookTenantScope : String := "system"

/-- The scope of the service's idempotency records. -/
def webhookScope : String := IdempotencyService.buildScope webhookTenantScope webhookReceiveOp

section delivery
variable (config : Config) (delivery : Delivery)

/-- A header that is missing is written as `undefined`. -/
def Delivery.timestampText : String := delivery.timestamp.getD "undefined"

/-- `JSON.stringify(payload)`. -/
def Delivery.payloadText : List Char :=
  Text.stringify (IdempotencyService.jsonValue config.print (.obj delivery.payload))

/-- The text that is signed. -/
def Delivery.body : String := .ofList (delivery.timestampText.toList ++ '.' :: delivery.payloadText config)

/-- Without a secret every delivery passes; a signature of another length makes the comparison
throw, which counts as none. -/
def verifySignature : Bool :=
  match config.secret with
  | none => true
  | some secret => secret = "" || delivery.signature = some (config.hmac secret (delivery.body config))

/-- `payload['eventId'] || payload['id']`. -/
def eventIdOf (payload : Metadata) : Json :=
  let eventId := payload.get "eventId"
  if eventId.truthy then eventId else payload.get "id"

/-- What is answered and recorded for an event. -/
def accepted (eventId : Json) : Json := .obj [("status", .str "accepted"), ("eventId", eventId)]

/-- `checkKey`: the event id goes into the filter as the payload has it. -/
def checkEvent : Json → Service (Option Json)
  | .str s => IdempotencyService.checkKey (trim s) webhookTenantScope webhookReceiveOp
  | eventId => do pure (IdempotencyService.storedResult (← config.findOne eventId))

/-- The event id as the idempotency records have it. -/
def castKey : Json → Service String
  | .str s => pure (trim s)
  | eventId => match config.cast eventId with
    | .ok key => pure key
    | .error e => throw (.mongo e)

def handleIncoming : Service Json := do
  throwIf (verifySignature config delivery = false) (.error ["Invalid webhook signature"])
  let eventId := eventIdOf delivery.payload
  throwIf (eventId.truthy = false) (.error ["Missing eventId in webhook payload"])
  match (← checkEvent config eventId).filter Json.truthy with
  | some existing => pure existing
  | none => do
    let key ← castKey config eventId
    IdempotencyService.recordKey config.hashResult key webhookTenantScope webhookReceiveOp (accepted eventId)
    pure (accepted eventId)

end delivery

/-- A delivery, or any other program over the database. -/
inductive Call where
  | deliver (delivery : Delivery)
  | other (program : Service Unit)

def Call.body (config : Config) : Call → Service (Next Call Json)
  | deliver delivery => handleIncoming config delivery >>= fun answer => pure (.done answer)
  | other program => program >>= fun _ => pure (.done .undefined)

/-- Any number of deliveries and other programs over one database. -/
def webhooks (config : Config) : Machine Mongo Db Oracle Call Json ServiceError where
  exec := exec
  body := Call.body config

@[simp] theorem webhooks_exec (config : Config) : (webhooks config).exec = exec := rfl

abbrev Run := State Mongo Db Call Json ServiceError

abbrev Schedule := Run → Label Oracle Call → Prop

end RedRoomRewards.WebhookReceiveService
