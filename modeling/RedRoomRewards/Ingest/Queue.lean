import RedRoomRewards.Ingest.Types
import RedRoomRewards.Service.Mongo

/-! The collections of the ingest queue and the commands that are issued to them, each
one atomic. A handler's invocation and its response are two commands, so that anything
can happen between them. Texts are as the schemas store and query them, trimmed. -/
namespace RedRoomRewards.Ingest
open Process Store

section schemas

def IngestEvent.invalid (e : IngestEvent) : List String := invalidPaths [
  ("eventId", requiredText 256 e.eventId),
  ("eventType", optionalText 128 e.eventType),
  ("lastErrorCode", optionalText 128 e.lastErrorCode)]

def DLQEvent.invalid (d : DLQEvent) : List String := invalidPaths [
  ("eventId", requiredText 256 d.eventId),
  ("eventType", optionalText 128 d.eventType),
  ("lastErrorCode", optionalText 128 d.lastErrorCode),
  ("lastErrorMessage", optionalText 1024 d.lastErrorMessage)]

end schemas

abbrev IngestEvents := Collection IngestEvent String String IngestEvent.id IngestEvent.eventId
abbrev DLQEvents := Collection DLQEvent String String DLQEvent.eventId DLQEvent.eventId

structure Db where
  events : IngestEvents
  dlq : DLQEvents
  records : IdempotencyRecords

def Db.empty : Db := ⟨.empty, .empty, .empty⟩

section updates

/-- The `$set` and `$unset` of an event; a field that is `none` is not written. -/
structure IngestEventUpdate where
  status : IngestEventStatus
  attempts : Option ℕ := none
  nextAttemptAt : Option Time := none
  lastErrorCode : Option (Option String) := none
  lastErrorAt : Option (Option Time) := none

def IngestEventUpdate.apply (u : IngestEventUpdate) (e : IngestEvent) : IngestEvent :=
  { e with
    status := u.status
    attempts := u.attempts.getD e.attempts
    nextAttemptAt := u.nextAttemptAt.or e.nextAttemptAt
    lastErrorCode := u.lastErrorCode.getD e.lastErrorCode
    lastErrorAt := u.lastErrorAt.getD e.lastErrorAt }

/-- `$set: { status: PROCESSING }, $inc: { attempts: 1 }`. -/
def IngestEvent.claimed (e : IngestEvent) : IngestEvent :=
  { e with status := .processing, attempts := e.attempts + 1 }

theorem IngestEventUpdate.keeps (u : IngestEventUpdate) :
    Collection.Keeps IngestEvent.id IngestEvent.eventId u.apply := fun _ => ⟨rfl, rfl⟩

theorem IngestEvent.claimed_keeps :
    Collection.Keeps IngestEvent.id IngestEvent.eventId IngestEvent.claimed := fun _ => ⟨rfl, rfl⟩

/-- What no update of an event changes, as an event that is new. -/
def IngestEvent.origin (e : IngestEvent) : IngestEvent :=
  { e with
    status := .queued
    attempts := 0
    lastErrorCode := none
    lastErrorAt := none
    nextAttemptAt := none }

@[simp] theorem IngestEvent.claimed_origin (e : IngestEvent) : e.claimed.origin = e.origin := rfl
@[simp] theorem IngestEventUpdate.apply_origin (u : IngestEventUpdate) (e : IngestEvent) :
    (u.apply e).origin = e.origin := rfl

theorem IngestEvent.id_of_origin {e e' : IngestEvent} (h : e.origin = e'.origin) : e.id = e'.id :=
  congrArg (·.id) h

theorem IngestEvent.eventId_of_origin {e e' : IngestEvent} (h : e.origin = e'.origin) :
    e.eventId = e'.eventId := congrArg (·.eventId) h

theorem IngestEvent.payload_of_origin {e e' : IngestEvent} (h : e.origin = e'.origin) :
    e.payloadSnapshot = e'.payloadSnapshot := congrArg (·.payloadSnapshot) h

end updates

section queries

/-- `processNextBatch`'s query: queued, or in processing and due for a retry. -/
def IngestEvent.eligible (now : Time) (e : IngestEvent) : Bool :=
  e.status = .queued || (e.status = .processing && e.nextAttemptAt.any (· ≤ now))

/-- The claim's `status: { $in: [QUEUED, PROCESSING] }`. -/
def IngestEvent.claimable (e : IngestEvent) : Bool := e.status = .queued || e.status = .processing

structure DLQQuery where
  eventId : Option String
  eventType : Option String
  startDate : Option Time
  endDate : Option Time

def DLQQuery.accepts (q : DLQQuery) (d : DLQEvent) : Bool :=
  q.eventId.all (· = d.eventId) && q.eventType.all (some · = d.eventType) &&
  q.startDate.all (· ≤ d.movedToDLQAt) && q.endDate.all (d.movedToDLQAt ≤ ·)

end queries

/-- The database calls of the worker and the replay controller, what they take from the
language, and the two halves of a handler's invocation. -/
inductive Cmd where
  | findEligible (now : Time) (limit : ℕ)
  | claim (id : String)
  | findById (id : String)
  | findByEventId (eventId : String)
  | updateEvent (id : String) (update : IngestEventUpdate)
  | createEvent (e : IngestEvent)
  | findDLQ (q : DLQQuery) (limit : Option ℕ)
  | createDLQ (d : DLQEvent)
  | findRecord (key eventScope : String)
  | createRecord (r : IdempotencyRecord)
  | objectId
  | now
  | invoke (handler : Handler) (context : EventProcessingContext)
  | respond (handler : Handler) (context : EventProcessingContext)

@[reducible] def Cmd.Reply : Cmd → Type
  | findEligible .. => List IngestEvent
  | claim _ => Option IngestEvent
  | findById _ => Option IngestEvent
  | findByEventId _ => Option IngestEvent
  | updateEvent .. => Unit
  | createEvent _ => Except QueueError IngestEvent
  | findDLQ .. => List DLQEvent
  | createDLQ _ => Except QueueError DLQEvent
  | findRecord .. => Option IdempotencyRecord
  | createRecord _ => Except QueueError IdempotencyRecord
  | objectId => String
  | now => Time
  | invoke .. => Unit
  | respond .. => Except QueueError ProcessingResponse

abbrev Queue : Interface := ⟨Cmd, Cmd.Reply⟩

/-- What a run leaves open at each step: the identifier and the time the language gives,
the order in which the database scans events, what a handler answers and the text of a
database error. -/
structure Oracle where
  objectId : String
  now : Time
  rank : String → ℕ
  outcome : Except (Option String) ProcessingResponse
  errorText : String

section exec

/-- A failed `create` carries the text of its error. -/
def described {α γ : Type} (text : String) (r : Except MongoError α × γ) : Except QueueError α × γ :=
  (r.1.mapError (.mongo · text), r.2)

/-- `find(query).limit(limit)`; without a sort, the documents come in any order. -/
def Db.eligible (db : Db) (rank : String → ℕ) (now : Time) (limit : ℕ) : List IngestEvent :=
  ((db.events.docs.filter (·.eligible now)).insertionSort fun a b => rank a.id ≤ rank b.id).take limit

/-- `findOneAndUpdate` of an event that is queued or in processing, returning it updated. -/
def Db.claim (db : Db) (id : String) : Option IngestEvent × Db :=
  match db.events.find id with
  | some e => if e.claimable then
      (some e.claimed, { db with events := db.events.modify id .claimed IngestEvent.claimed_keeps })
    else (none, db)
  | none => (none, db)

def Db.updateEvent (db : Db) (id : String) (u : IngestEventUpdate) : Db :=
  { db with events := db.events.modify id u.apply u.keeps }

/-- `find(query).sort({ movedToDLQAt: 1 })`, with a limit if there is one. -/
def Db.dlqEvents (db : Db) (q : DLQQuery) (limit : Option ℕ) : List DLQEvent :=
  let found := (db.dlq.docs.filter q.accepts).insertionSort fun a b => a.movedToDLQAt ≤ b.movedToDLQAt
  limit.elim found found.take

/-- One atomic command. -/
def exec (o : Oracle) (db : Db) : (c : Cmd) → c.Reply × Db
  | .findEligible now limit => (db.eligible o.rank now limit, db)
  | .claim id => db.claim id
  | .findById id => (db.events.find id, db)
  | .findByEventId eventId => (db.events.docs.find? (fun e => e.eventId = eventId), db)
  | .updateEvent id u => ((), db.updateEvent id u)
  | .createEvent e =>
    let (reply, events) := described o.errorText (create db.events e e.invalid ["eventId"])
    (reply, { db with events })
  | .findDLQ q limit => (db.dlqEvents q limit, db)
  | .createDLQ d =>
    let (reply, dlq) := described o.errorText (create db.dlq d d.invalid ["eventId"])
    (reply, { db with dlq })
  | .findRecord key eventScope => (db.records.find (key, eventScope), db)
  | .createRecord r =>
    let (reply, records) :=
      described o.errorText (create db.records r r.invalid ["pointsIdempotencyKey", "eventScope"])
    (reply, { db with records })
  | .objectId => (o.objectId, db)
  | .now => (o.now, db)
  | .invoke .. => ((), db)
  | .respond handler _ => (match handler with
    | .registered _ => o.outcome.mapError .thrown
    | .defaultHandler => .ok ⟨.success, none, none⟩, db)

end exec

/-- A program over the queue. -/
abbrev Job (α : Type) := Prog Queue QueueError α

def issue (c : Cmd) : Job c.Reply := Prog.ask (I := Queue) c

@[simp] theorem issue_bind {α : Type} (c : Cmd) (f : c.Reply → Job α) :
    issue c >>= f = Prog.call (I := Queue) c f := rfl

/-- The answer; a failed command throws its error. -/
def answered {α : Type} : Except QueueError α → Job α
  | .ok a => .ret a
  | .error e => .throw e

end RedRoomRewards.Ingest
