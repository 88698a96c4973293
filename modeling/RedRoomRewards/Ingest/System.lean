import RedRoomRewards.Ingest.Replay

/-! Any number of workers, replays and arriving events over one queue. -/
namespace RedRoomRewards.Ingest
open Process

/-- What the events controller stores an event from. -/
structure PostedEvent where
  eventId : String
  eventType : String
  payload : Metadata
  replayable : Option Bool

/-- The new document: `replayable` is true where it is not given. -/
def PostedEvent.document (event : PostedEvent) (id : String) (now : Time) : IngestEvent where
  id := id
  eventId := event.eventId
  eventType := some event.eventType
  receivedAt := now
  status := .queued
  attempts := 0
  lastErrorCode := none
  lastErrorAt := none
  payloadSnapshot := some event.payload
  replayable := event.replayable.getD true
  nextAttemptAt := none

/-- The events controller queues an event. -/
def PostedEvent.enqueue (event : PostedEvent) : Job Unit := do
  let id ← issue .objectId
  let now ← issue .now
  let _ ← issue (.createEvent (event.document id now)) >>= answered
  pure ()

/-- What runs over the queue. A worker's poll is a call, and so is each `processEvent`
that it starts; it is identified by the thread of its poll. A worker crashes by a call
that does nothing, after which none of its calls goes on. -/
inductive Call where
  | poll (worker : ℕ)
  | process (worker poll : ℕ) (eventMongoId : String)
  | replay (options : ReplayOptions)
  | post (event : PostedEvent)
  | crash (worker : ℕ)

namespace Call

/-- The worker that runs a call. -/
def worker : Call → Option ℕ
  | poll worker | process worker _ _ => some worker
  | _ => none

def isPoll : Call → Bool
  | poll _ => true
  | _ => false

def isReplay : Call → Bool
  | replay _ => true
  | _ => false

/-- The call handles what the given poll has found in the event. -/
def handles (pollThread : ℕ) (eventMongoId : String) : Call → Bool
  | process _ p id => p = pollThread && id = eventMongoId
  | _ => false

def crashes (worker : ℕ) : Call → Bool
  | crash w => w = worker
  | _ => false

def body (workers : ℕ → IngestWorker) : Call → Job (Next Call Unit)
  | poll worker => (workers worker).processNextBatch >>= fun _ => pure (.done ())
  | process worker _ id => (workers worker).processEvent id >>= fun _ => pure (.done ())
  | replay options => ReplayController.replay options >>= fun _ => pure (.done ())
  | post event => event.enqueue >>= fun _ => pure (.done ())
  | crash _ => pure (.done ())

end Call

def queue (workers : ℕ → IngestWorker) : Machine Queue Db Oracle Call Unit QueueError where
  exec := exec
  body := Call.body workers

@[simp] theorem queue_exec (workers : ℕ → IngestWorker) : (queue workers).exec = exec := rfl

/-- A state of the running queue. -/
abbrev Run := State Queue Db Call Unit QueueError

abbrev Schedule := Run → Label Oracle Call → Prop

section views

/-- The events that a poll has found. -/
def Cmd.found : (c : Cmd) → c.Reply → List String
  | .findEligible .., events => events.map (·.id)
  | _, _ => []

/-- The `eventId` of the event whose handler is invoked. -/
def Cmd.invokes : Cmd → Option String
  | .invoke _ context => some context.eventId
  | _ => none

/-- The `eventId` of the event whose handler has returned `SUCCESS`. -/
def Cmd.succeeds : (c : Cmd) → c.Reply → Option String
  | .respond _ context, .ok response => if response.result = .success then some context.eventId else none
  | _, _ => none

/-- The command by which ingestion or a replay queues the event. -/
def Call.queues (call : Call) (id : String) : (c : Cmd) → c.Reply → Bool
  | .createEvent e, .ok _ => e.id = id
  | .updateEvent i _, _ => call.isReplay && i = id
  | _, _ => false

variable (s : Run)

/-- The `_id`s of the events that the poll of thread `t` has found. -/
def batch (t : ℕ) : List String := (s.history t).flatMap fun ev => ev.cmd.found ev.reply

def Crashed (worker : ℕ) : Prop := ∃ x ∈ s.spawns, x.2.crashes worker = true

/-- The handler that thread `t` has invoked for the event has not returned. -/
def Handling (t : ℕ) (eventId : String) : Prop :=
  (s.history t).head?.bind (fun ev => ev.cmd.invokes) = some eventId

/-- How often a handler has returned `SUCCESS` for the event. -/
def successes (eventId : String) : ℕ := s.log.countP fun ev => ev.cmd.succeeds ev.reply = some eventId

/-- The batch of a poll is over: it has run, and each event that it found has been
handled (`Promise.allSettled`). -/
def Settled (t : ℕ) : Prop := (s.result t).isSome = true ∧
  ∀ id ∈ batch s t, ∃ x ∈ s.spawns, x.2.handles t id = true ∧ (s.result x.1).isSome = true

instance (worker : ℕ) : Decidable (Crashed s worker) := inferInstanceAs (Decidable (∃ x ∈ _, _))
instance (t : ℕ) (eventId : String) : Decidable (Handling s t eventId) :=
  inferInstanceAs (Decidable (_ = _))
instance (t : ℕ) : Decidable (Settled s t) := inferInstanceAs (Decidable (_ ∧ _))

end views

section schedules

/-- The steps that workers, replays and arrivals can take: a poll is followed by one call
for each event it has found, and a worker that has crashed takes no step. -/
def Working : Schedule
  | s, .spawn _ (.process worker poll id) => ¬ Crashed s worker ∧ id ∈ batch s poll ∧
      (∃ x ∈ s.spawns, x.1 = poll ∧ x.2.isPoll = true ∧ x.2.worker = some worker) ∧
      ∀ x ∈ s.spawns, x.2.handles poll id = false
  | s, .spawn _ call => ∀ worker ∈ call.worker, ¬ Crashed s worker
  | s, .run t _ => ∀ x ∈ s.spawns, x.1 = t → ∀ worker ∈ x.2.worker, ¬ Crashed s worker

instance (s : Run) (l : Label Oracle Call) : Decidable (Working s l) :=
  match l with
  | .spawn _ (.poll _) | .spawn _ (.process ..) | .spawn _ (.replay _) | .spawn _ (.post _) | .spawn _ (.crash _) | .run .. => by
    dsimp only [Working]
    infer_instance

end schedules
end RedRoomRewards.Ingest
