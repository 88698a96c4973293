import RedRoomRewards.Ingest.Worker

/-! Replaying dead letters. -/
namespace RedRoomRewards.Ingest
open Process

namespace ReplayResult
variable (result : ReplayResult)

def skip : ReplayResult := { result with skipped := result.skipped + 1 }

def succeed : ReplayResult :=
  { result with successful := result.successful + 1, totalReplayed := result.totalReplayed + 1 }

def fail : ReplayResult :=
  { result with failed := result.failed + 1, totalReplayed := result.totalReplayed + 1 }

end ReplayResult

namespace ReplayController

/-- The query of the given options; empty texts are no filter. -/
def query (options : ReplayOptions) : DLQQuery where
  eventId := options.eventId.filter (· ≠ "")
  eventType := options.eventType.filter (· ≠ "")
  startDate := options.startDate
  endDate := options.endDate

/-- An event is queued again. -/
def requeue (now : Time) : IngestEventUpdate where
  status := .queued
  attempts := some 0
  nextAttemptAt := some now
  lastErrorCode := some none
  lastErrorAt := some none

/-- The event that replaces a missing one. -/
def recreated (dlqEvent : DLQEvent) (id : String) (now : Time) : IngestEvent where
  id := id
  eventId := dlqEvent.eventId
  eventType := dlqEvent.eventType
  receivedAt := now
  status := .queued
  attempts := 0
  lastErrorCode := none
  lastErrorAt := none
  payloadSnapshot := dlqEvent.payloadSnapshot
  replayable := dlqEvent.replayable
  nextAttemptAt := none

def replayEvent (dlqEvent : DLQEvent) (result : ReplayResult) : Job ReplayResult := do
  let isProcessed ← checkIdempotency dlqEvent.eventId
  if isProcessed then
    pure (result.skip)
  else
    match ← issue (.findByEventId dlqEvent.eventId) with
    | some existingEvent => do
      let now ← issue .now
      issue (.updateEvent existingEvent.id (requeue now))
      pure (result.succeed)
    | none => do
      let id ← issue .objectId
      let now ← issue .now
      let _ ← issue (.createEvent (recreated dlqEvent id now)) >>= answered
      pure (result.succeed)

/-- Each event in turn; one that fails does not stop the others. -/
def replayEach : List DLQEvent → ReplayResult → Job ReplayResult
  | [], result => pure result
  | dlqEvent :: rest, result => do
    let result ← (replayEvent dlqEvent result).catching fun _ => pure (result.fail)
    replayEach rest result

def replay (options : ReplayOptions) : Job ReplayResult := do
  let dlqEvents ← issue (.findDLQ (query options) (options.maxEvents.filter (· ≠ 0)))
  replayEach dlqEvents {}

end ReplayController
end RedRoomRewards.Ingest
