import RedRoomRewards.Ingest.System

/-! The events controller: it validates a request and queues its event, with an
idempotency record for each key. Here texts are as the client sends them; the schemas
trim what they store and what is looked up. -/
namespace RedRoomRewards.Ingestion
open Process Store Ingest

section requests

/-- The body of a request; a field that it does not have is `undefined`. -/
structure PostEventRequest where
  eventId : Json := .undefined
  eventType : Json
  payload : Json
  idempotencyKey : Json
  requestId : Json := .undefined
  replayable : Json := .undefined
  correlationId : Json := .undefined

inductive ResponseStatus where
  | queued
  | duplicate
  deriving DecidableEq

structure EventResponse where
  eventId : String
  status : ResponseStatus
  message : String
  queuePosition : Option ℕ
  requestId : Json
  correlationId : Json

structure ValidationError where
  field : String
  message : String
  code : String
  deriving DecidableEq

inductive PostError where
  /-- `Validation failed`. -/
  | validation (validationErrors : List ValidationError)
  | mongo (e : MongoError)

/-- The text of a value that is one. -/
def text : Json → String
  | .str s => s
  | _ => ""

/-- The own fields of an object. -/
def fields : Json → Metadata
  | .obj fields => fields
  | _ => []

end requests

section validation

def required (field message : String) : ValidationError := ⟨field, message, "REQUIRED_FIELD_MISSING"⟩
def invalidType (field message : String) : ValidationError := ⟨field, message, "INVALID_TYPE"⟩
def invalidLength (field message : String) : ValidationError := ⟨field, message, "INVALID_LENGTH"⟩

def validateIdempotencyKey (value : Json) : List ValidationError :=
  if value.truthy = false then [required "idempotencyKey" "Idempotency key is required"]
  else match value with
    | .str s => if jsLength s < 1 ∨ 256 < jsLength s then
        [invalidLength "idempotencyKey" "Idempotency key must be between 1 and 256 characters"] else []
    | _ => [invalidType "idempotencyKey" "Idempotency key must be a string"]

def validateEventType (value : Json) : List ValidationError :=
  if value.truthy = false then [required "eventType" "Event type is required"]
  else match value with
    | .str s => if 128 < jsLength s then
        [invalidLength "eventType" "Event type must be 128 characters or less"] else []
    | _ => [invalidType "eventType" "Event type must be a string"]

def validatePayload (value : Json) : List ValidationError :=
  if value.truthy = false then [required "payload" "Payload is required"]
  else match value with
    | .obj _ | .date _ => []
    | _ => [invalidType "payload" "Payload must be an object"]

def validateEventId : Json → List ValidationError
  | .undefined => []
  | .str s => if 256 < jsLength s then [invalidLength "eventId" "Event ID must be 256 characters or less"] else []
  | _ => [invalidType "eventId" "Event ID must be a string"]

def validateReplayable : Json → List ValidationError
  | .undefined | .bool _ => []
  | _ => [invalidType "replayable" "Replayable must be a boolean"]

def validationErrors (request : PostEventRequest) : List ValidationError :=
  validateIdempotencyKey request.idempotencyKey ++ validateEventType request.eventType ++
    validatePayload request.payload ++ validateEventId request.eventId ++ validateReplayable request.replayable

end validation

section documents

/-- An event with the fields of its receipt. -/
structure ReceivedEvent extends IngestEvent where
  correlationId : Json
  merchantId : Json
  idempotencyKey : Option String
  accepted : Option Bool
  replayed : Bool
  postedTransactions : ℕ

/-- The document as its schema stores it. -/
def ReceivedEvent.stored (e : ReceivedEvent) : ReceivedEvent :=
  { e with
    eventId := trim e.eventId
    eventType := e.eventType.map trim
    idempotencyKey := e.idempotencyKey.map trim }

def storedRecord (r : IdempotencyRecord) : IdempotencyRecord :=
  { r with
    pointsIdempotencyKey := trim r.pointsIdempotencyKey
    eventScope := trim r.eventScope
    tenantId := r.tenantId.map trim }

/-- `type: String, maxlength: max`, for a value that is cast to a text. -/
def castText (max : ℕ) : Json → Bool
  | .str s => jsLength (trim s) ≤ max
  | .obj fields => match Metadata.get fields "_id" with
    | .str s => jsLength (trim s) ≤ max
    | _ => false
  | .arr _ => false
  | _ => true

def ReceivedEvent.invalid (e : ReceivedEvent) : List String := e.toIngestEvent.invalid ++ invalidPaths [
  ("correlationId", castText 256 e.correlationId),
  ("merchantId", castText 256 e.merchantId),
  ("idempotencyKey", optionalText 256 e.idempotencyKey)]

abbrev ReceivedEvents := Collection ReceivedEvent String String (·.id) (·.eventId)

structure Db where
  records : IdempotencyRecords
  events : ReceivedEvents

def Db.empty : Db := ⟨.empty, .empty⟩

end documents

section commands

inductive Cmd where
  | uuid
  | objectId
  | now
  | findRecord (key eventScope : String)
  | createRecord (r : IdempotencyRecord)
  | createEvent (e : ReceivedEvent)
  /-- `countDocuments({ status: QUEUED, receivedAt: { $lt: receivedAt } })`. -/
  | countQueuedBefore (receivedAt : Time)

@[reducible] def Cmd.Reply : Cmd → Type
  | uuid => String
  | objectId => String
  | now => Time
  | findRecord .. => Except MongoError (Option IdempotencyRecord)
  | createRecord _ => Except MongoError IdempotencyRecord
  | createEvent _ => Except MongoError ReceivedEvent
  | countQueuedBefore _ => Except MongoError ℕ

abbrev Intake : Interface := ⟨Cmd, Cmd.Reply⟩

/-- A database call that throws, before the database has done it or after. -/
structure Failure where
  done : Bool
  message : String

/-- What a run leaves open at each step: what the language gives, and whether the
database call fails. -/
structure Oracle where
  uuid : String
  objectId : String
  now : Time
  failure : Option Failure

/-- The outcome of a database call that may fail. -/
def Oracle.attempt {α : Type} (o : Oracle) (db : Db) (outcome : Except MongoError α × Db) : Except MongoError α × Db :=
  match o.failure with
  | none => outcome
  | some failure => (.error (.unavailable failure.message), if failure.done then outcome.2 else db)

/-- A call that may fail is done and answered, done or not done and failed. -/
theorem attempt_cases {α : Type} (o : Oracle) (db : Db) (outcome : Except MongoError α × Db) :
    o.failure = none ∧ o.attempt db outcome = outcome ∨
      ∃ failure, o.failure = some failure ∧
        o.attempt db outcome = (.error (.unavailable failure.message), if failure.done then outcome.2 else db) := by
  cases hfailure : o.failure with
  | none => exact .inl ⟨rfl, by simp [Oracle.attempt, hfailure]⟩
  | some failure => exact .inr ⟨failure, rfl, by simp [Oracle.attempt, hfailure]⟩

/-- A call that fails leaves what it would have made of the store, or the store as it was. -/
theorem attempt_keeps {α : Type} {P : Db → Prop} {o : Oracle} {db : Db} {outcome : Except MongoError α × Db}
    (h : P db) (h' : P outcome.2) : P (o.attempt db outcome).2 := by
  obtain ⟨-, hnone⟩ | ⟨failure, -, hsome⟩ := attempt_cases o db outcome
  · rw [hnone]
    exact h'
  · rw [hsome]
    by_cases hdone : failure.done = true
    · rw [if_pos hdone]
      exact h'
    · rw [if_neg hdone]
      exact h

def Db.createRecord (db : Db) (r : IdempotencyRecord) : Except MongoError IdempotencyRecord × Db :=
  let (reply, records) := create db.records (storedRecord r) (storedRecord r).invalid ["pointsIdempotencyKey", "eventScope"]
  (reply, { db with records })

def Db.createEvent (db : Db) (e : ReceivedEvent) : Except MongoError ReceivedEvent × Db :=
  let (reply, events) := create db.events e.stored e.stored.invalid ["eventId"]
  (reply, { db with events })

/-- One atomic command. -/
def exec (o : Oracle) (db : Db) : (c : Cmd) → c.Reply × Db
  | .uuid => (o.uuid, db)
  | .objectId => (o.objectId, db)
  | .now => (o.now, db)
  | .findRecord key eventScope => o.attempt db (.ok (db.records.find (trim key, trim eventScope)), db)
  | .createRecord r => o.attempt db (db.createRecord r)
  | .createEvent e => o.attempt db (db.createEvent e)
  | .countQueuedBefore receivedAt =>
    o.attempt db (.ok (db.events.docs.countP fun e => e.status = .queued && e.receivedAt < receivedAt), db)

/-- A program of the events controller. -/
abbrev Job (α : Type) := Prog Intake PostError α

def issue (c : Cmd) : Job c.Reply := Prog.ask (I := Intake) c

@[simp] theorem issue_bind {α : Type} (c : Cmd) (f : c.Reply → Job α) :
    issue c >>= f = Prog.call (I := Intake) c f := rfl

/-- The answer; a failed call throws its error. -/
def answered {α : Type} : Except MongoError α → Job α
  | .ok a => .ret a
  | .error e => .throw (.mongo e)

end commands

section controller

/-- The scope of the controller's idempotency records. -/
def ingestionScope : String := "event_ingestion"

/-- The record of a key. -/
def ingestionRecord (idempotencyKey eventId : String) (timestamp : Time) : IdempotencyRecord where
  pointsIdempotencyKey := idempotencyKey
  eventScope := ingestionScope
  resultHash := eventId
  storedResult := .obj [("eventId", .str eventId), ("queued", .bool true), ("timestamp", .date timestamp)]
  retentionUntil := none
  expiresAt := none
  tenantId := none

/-- Whether the key has been used before. -/
def checkIdempotency (idempotencyKey : String) : Job Bool := do
  let record ← issue (.findRecord idempotencyKey ingestionScope) >>= answered
  pure record.isSome

def storeIdempotency (idempotencyKey eventId : String) : Job Unit := do
  let timestamp ← issue .now
  match ← issue (.createRecord (ingestionRecord idempotencyKey eventId timestamp)) with
  | .ok _ => pure ()
  -- a duplicate key is a race that another record has won
  | .error (.duplicateKey _) => pure ()
  | .error e => .throw (.mongo e)

/-- The document of a request's event. -/
def PostEventRequest.document (request : PostEventRequest) (id eventId : String) (correlationId : Json)
    (receivedAt : Time) : ReceivedEvent where
  id := id
  eventId := eventId
  eventType := some (text request.eventType)
  receivedAt := receivedAt
  status := .queued
  attempts := 0
  lastErrorCode := none
  lastErrorAt := none
  payloadSnapshot := some (fields request.payload)
  replayable := match request.replayable with
    | .bool replayable => replayable
    | _ => true
  nextAttemptAt := none
  correlationId := correlationId
  merchantId := Metadata.get (fields request.payload) "merchantId"
  idempotencyKey := some (text request.idempotencyKey)
  accepted := some true
  replayed := false
  postedTransactions := 0

/-- `value || generate()`, where what is generated starts with the tag. -/
def orGenerate (value : Json) (tag : String) : Job Json :=
  if value.truthy then pure value else do
    let uuid ← issue .uuid
    pure (.str (tag ++ uuid))

/-- What is done for a key that has not been used. -/
def queueEvent (request : PostEventRequest) (eventId : String) (requestId correlationId : Json) : Job EventResponse := do
  storeIdempotency (text request.idempotencyKey) eventId
  let id ← issue .objectId
  let receivedAt ← issue .now
  let ingestEvent ← issue (.createEvent (request.document id eventId correlationId receivedAt)) >>= answered
  let queuePosition ← issue (.countQueuedBefore ingestEvent.receivedAt) >>= answered
  pure ⟨eventId, .queued, "Event queued for processing", some (queuePosition + 1), requestId, correlationId⟩

def postEvent (request : PostEventRequest) : Job EventResponse := do
  let correlationId ← orGenerate (if request.correlationId.truthy then request.correlationId else request.requestId) ""
  Prog.throwIf (validationErrors request ≠ []) (.validation (validationErrors request))
  let eventId ← orGenerate request.eventId "evt_"
  let requestId ← orGenerate request.requestId "req_"
  let isDuplicate ← checkIdempotency (text request.idempotencyKey)
  if isDuplicate then
    pure ⟨text eventId, .duplicate, "Event already processed or queued", none, requestId, correlationId⟩
  else
    queueEvent request (text eventId) requestId correlationId

end controller

section machine

/-- Any number of requests over one database. -/
def intake : Machine Intake Db Oracle PostEventRequest EventResponse PostError where
  exec := exec
  body := fun request => postEvent request >>= fun response => pure (.done response)

@[simp] theorem intake_exec : intake.exec = exec := rfl

/-- A state of the running controller. -/
abbrev Run := State Intake Db PostEventRequest EventResponse PostError

abbrev Schedule := Run → Label Oracle PostEventRequest → Prop

end machine
end RedRoomRewards.Ingestion
