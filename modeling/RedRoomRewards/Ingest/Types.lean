import RedRoomRewards.Service.Types
import Mathlib.Algebra.Order.Field.Basic

/-! Documents, configuration, results and errors of the ingest queue. -/
namespace RedRoomRewards.Ingest

inductive IngestEventStatus where
  | queued
  | processing
  | processed
  | rejected
  | dlq
  deriving DecidableEq

/-- `id` is the document's `_id`. -/
structure IngestEvent where
  id : String
  eventId : String
  eventType : Option String
  receivedAt : Time
  status : IngestEventStatus
  attempts : ℕ
  lastErrorCode : Option String
  lastErrorAt : Option Time
  payloadSnapshot : Option Metadata
  replayable : Bool
  nextAttemptAt : Option Time

structure DLQEvent where
  eventId : String
  eventType : Option String
  originalReceivedAt : Time
  movedToDLQAt : Time
  attempts : ℕ
  lastErrorCode : Option String
  lastErrorMessage : Option String
  lastErrorAt : Option Time
  payloadSnapshot : Option Metadata
  replayable : Bool

section processing

inductive ProcessingResult where
  | success
  | retryableFailure
  | nonRetryableFailure
  deriving DecidableEq

structure EventProcessingContext where
  eventId : String
  eventType : Option String
  payload : Option Metadata
  attempts : ℕ

structure ProcessingResponse where
  result : ProcessingResult
  errorCode : Option String
  errorMessage : Option String

/-- The handler registered for a type or scope, or the worker's own placeholder. -/
inductive Handler where
  | registered (eventTypeOrScope : String)
  | defaultHandler
  deriving DecidableEq

/-- What can be thrown: by a handler, with its text where it is an `Error`, or by the
database, with the text the driver gives it. -/
inductive QueueError where
  | thrown (message : Option String)
  | mongo (e : MongoError) (message : String)

/-- `error instanceof Error ? error.message : 'Unknown error'`. -/
def QueueError.message : QueueError → String
  | thrown message => message.getD "Unknown error"
  | mongo _ message => message

end processing

section config

structure WorkerConfig where
  maxConcurrentJobs : ℕ
  maxRetryAttempts : ℕ
  initialRetryDelayMs : ℚ
  maxRetryDelayMs : ℚ
  retryBackoffMultiplier : ℚ

/-- `Partial<WorkerConfig>`. -/
structure WorkerOptions where
  maxConcurrentJobs : Option ℕ := none
  maxRetryAttempts : Option ℕ := none
  initialRetryDelayMs : Option ℚ := none
  maxRetryDelayMs : Option ℚ := none
  retryBackoffMultiplier : Option ℚ := none

/-- `value || fallback` for a number. -/
def numberOr {α : Type} [Zero α] [DecidableEq α] (value : Option α) (fallback : α) : α :=
  (value.filter (· ≠ 0)).getD fallback

/-- `value || fallback` for a string. -/
def textOr (value : Option String) (fallback : String) : String := (value.filter (· ≠ "")).getD fallback

def WorkerOptions.config (o : WorkerOptions) : WorkerConfig where
  maxConcurrentJobs := numberOr o.maxConcurrentJobs 10
  maxRetryAttempts := numberOr o.maxRetryAttempts 5
  initialRetryDelayMs := numberOr o.initialRetryDelayMs 1000
  maxRetryDelayMs := numberOr o.maxRetryDelayMs 60000
  retryBackoffMultiplier := numberOr o.retryBackoffMultiplier 2

theorem numberOr_ne_zero {α : Type} [Zero α] [DecidableEq α] (value : Option α) {fallback : α}
    (h : fallback ≠ 0) : numberOr value fallback ≠ 0 := by
  cases value with
  | none => exact h
  | some x => by_cases hx : x = 0 <;> simp [numberOr, Option.filter, hx, h]

/-- A worker allows at least one attempt and one job. -/
theorem WorkerOptions.config_pos (o : WorkerOptions) :
    0 < o.config.maxRetryAttempts ∧ 0 < o.config.maxConcurrentJobs :=
  ⟨Nat.pos_of_ne_zero (numberOr_ne_zero _ (by decide)), Nat.pos_of_ne_zero (numberOr_ne_zero _ (by decide))⟩

end config

section replay

structure ReplayOptions where
  eventId : Option String := none
  eventType : Option String := none
  startDate : Option Time := none
  endDate : Option Time := none
  maxEvents : Option ℕ := none

structure ReplayResult where
  totalReplayed : ℕ := 0
  successful : ℕ := 0
  failed : ℕ := 0
  skipped : ℕ := 0
  deriving DecidableEq

end replay
end RedRoomRewards.Ingest
