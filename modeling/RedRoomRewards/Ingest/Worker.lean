import RedRoomRewards.Ingest.Queue

/-! The ingest worker: claiming a queued event, handling it, and what becomes of it. -/
namespace RedRoomRewards.Ingest
open Process

/-- The scope of the worker's idempotency records. -/
def ingestScope : String := "ingest_event"

/-- Whether an event has been processed. -/
def checkIdempotency (eventId : String) : Job Bool := do
  let record ← issue (.findRecord eventId ingestScope)
  pure record.isSome

structure IngestWorker where
  /-- The types and scopes with a registered handler. -/
  handlers : List String
  config : WorkerConfig

namespace IngestWorker
variable (worker : IngestWorker)

def getHandler (eventType : Option String) : Handler :=
  match eventType with
  | some type => if type ≠ "" ∧ type ∈ worker.handlers then .registered type else .defaultHandler
  | none => .defaultHandler

/-- The instant of the next attempt; a `Date` has no fractions of a millisecond. -/
def calculateNextAttempt (attempts : ℕ) (now : Time) : Time :=
  let delay := min
    (worker.config.initialRetryDelayMs * worker.config.retryBackoffMultiplier ^ ((attempts : ℤ) - 1))
    worker.config.maxRetryDelayMs
  let instant := (now : ℚ) + delay
  instant.num.tdiv instant.den

/-- The record of a dead letter. -/
def deadLetter (event : IngestEvent) (errorCode errorMessage : String) (movedToDLQAt lastErrorAt : Time) :
    DLQEvent where
  eventId := event.eventId
  eventType := event.eventType
  originalReceivedAt := event.receivedAt
  movedToDLQAt := movedToDLQAt
  attempts := event.attempts
  lastErrorCode := some errorCode
  lastErrorMessage := some errorMessage
  lastErrorAt := some lastErrorAt
  payloadSnapshot := event.payloadSnapshot
  replayable := event.replayable

def moveToDLQ (event : IngestEvent) (errorCode errorMessage : String) : Job Unit := do
  let movedToDLQAt ← issue .now
  let lastErrorAt ← issue .now
  let _ ← issue (.createDLQ (deadLetter event errorCode errorMessage movedToDLQAt lastErrorAt)) >>= answered
  let updatedAt ← issue .now
  issue (.updateEvent event.id
    { status := .dlq, lastErrorCode := some (some errorCode), lastErrorAt := some (some updatedAt) })

/-- The record of an event that has been processed. -/
def processedRecord (eventId : String) (timestamp : Time) : IdempotencyRecord where
  pointsIdempotencyKey := eventId
  eventScope := ingestScope
  resultHash := "processed"
  storedResult := .obj [("processed", .bool true), ("timestamp", .date timestamp)]
  retentionUntil := none
  expiresAt := none
  tenantId := none

def storeIdempotency (eventId : String) : Job Unit := do
  let timestamp ← issue .now
  match ← issue (.createRecord (processedRecord eventId timestamp)) with
  | .ok _ => pure ()
  -- a duplicate key is a race that another record has won
  | .error (.mongo (.duplicateKey _) _) => pure ()
  | .error e => .throw e

def handleProcessingResult (event : IngestEvent) (response : ProcessingResponse) : Job Unit :=
  match response.result with
  | .success => do
    issue (.updateEvent event.id { status := .processed })
    storeIdempotency event.eventId
  | .retryableFailure =>
    if worker.config.maxRetryAttempts ≤ event.attempts then
      moveToDLQ event (textOr response.errorCode "MAX_RETRIES_EXCEEDED")
        (textOr response.errorMessage "Maximum retry attempts exceeded")
    else do
      let now ← issue .now
      let lastErrorAt ← issue .now
      issue (.updateEvent event.id
        { status := .queued
          nextAttemptAt := some (worker.calculateNextAttempt event.attempts now)
          -- an undefined code is not written
          lastErrorCode := response.errorCode.map some
          lastErrorAt := some (some lastErrorAt) })
  | .nonRetryableFailure =>
    moveToDLQ event (textOr response.errorCode "NON_RETRYABLE_ERROR")
      (textOr response.errorMessage "Non-retryable failure")

def contextOf (event : IngestEvent) : EventProcessingContext where
  eventId := event.eventId
  eventType := event.eventType
  payload := event.payloadSnapshot
  attempts := event.attempts

/-- What is tried with an event once it is claimed. -/
def attempt (event : IngestEvent) : Job Unit := do
  if event.eventId = "" then
    moveToDLQ event "MISSING_EVENT_ID" "Event ID is required"
  else
    let isProcessed ← checkIdempotency event.eventId
    if isProcessed then
      issue (.updateEvent event.id { status := .processed })
    else
      let handler := worker.getHandler event.eventType
      let context := contextOf event
      issue (.invoke handler context)
      let response ← issue (.respond handler context) >>= answered
      worker.handleProcessingResult event response

/-- What is done when the attempt has thrown. -/
def recover (eventMongoId : String) (error : QueueError) : Job Unit := do
  match ← issue (.findById eventMongoId) with
  | none => pure ()
  | some errorEvent =>
    worker.handleProcessingResult errorEvent
      ⟨.retryableFailure, some "PROCESSING_ERROR", some error.message⟩

def claimAndAttempt (eventMongoId : String) : Job Unit := do
  match ← issue (.claim eventMongoId) with
  -- another worker was faster
  | none => pure ()
  | some event => worker.attempt event

def processEvent (eventMongoId : String) : Job Unit :=
  (worker.claimAndAttempt eventMongoId).catching (worker.recover eventMongoId)

/-- The events of the next batch; a call of `processEvent` follows for each. -/
def processNextBatch : Job (List IngestEvent) := do
  let now ← issue .now
  issue (.findEligible now worker.config.maxConcurrentJobs)

end IngestWorker
end RedRoomRewards.Ingest
