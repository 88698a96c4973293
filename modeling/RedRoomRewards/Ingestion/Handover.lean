import RedRoomRewards.Ingest.Events
import RedRoomRewards.Ingestion.Protocol
import RedRoomRewards.Process.Execution

/-! The controller and the workers keep their events in one collection. Whatever the workers have
done to it, what the controller does next is for them an event that arrives, or nothing. -/
namespace RedRoomRewards.Ingestion
open Process Store Ingest

section views
variable {db : Db} {d : Ingest.Db}

/-- What the workers see of the database: the events, and the records of their own scope. -/
structure Db.Shows (db : Db) (d : Ingest.Db) : Prop where
  events : d.events.docs = db.events.docs.map (·.toIngestEvent)
  records : ∀ key, d.records.find (key, ingestScope) = db.records.find (key, ingestScope)

theorem shows_empty : Db.empty.Shows .empty := ⟨rfl, fun _ => rfl⟩

/-- The event of a request, as its document is stored. -/
def PostEventRequest.posted (request : PostEventRequest) (eventId : String) : PostedEvent where
  eventId := trim eventId
  eventType := trim (text request.eventType)
  payload := fields request.payload
  replayable := match request.replayable with
    | .bool replayable => some replayable
    | _ => none

/-- What is stored is what the workers see arrive. -/
theorem stored_document (request : PostEventRequest) (id eventId : String) (correlationId : Json) (now : Time) :
    (request.document id eventId correlationId now).stored.toIngestEvent = (request.posted eventId).document id now := by
  unfold PostEventRequest.document PostEventRequest.posted PostedEvent.document ReceivedEvent.stored
  cases request.replayable <;> rfl

theorem Db.Shows.free (h : db.Shows d) {e : ReceivedEvent} (hfree : db.events.Free e) :
    d.events.Free e.toIngestEvent := by
  constructor
  · intro e' hmem
    rw [h.events] at hmem
    obtain ⟨e₀, hmem₀, rfl⟩ := List.mem_map.mp hmem
    exact hfree.1 e₀ hmem₀
  · intro e' hmem
    rw [h.events] at hmem
    obtain ⟨e₀, hmem₀, rfl⟩ := List.mem_map.mp hmem
    exact hfree.2 e₀ hmem₀

end views

section arrivals
variable {workers : ℕ → IngestWorker} {d : Ingest.Db} {q : Ingest.Run}

/-- An event that is valid and new can arrive at any time, and is stored. -/
theorem arrives (hq : (queue workers).Reaches Working (.start d) q) (event : PostedEvent) (id : String) (now : Time)
    (hvalid : (event.document id now).invalid = []) (hfree : q.db.events.Free (event.document id now)) :
    ∃ q', (queue workers).Reaches Working q q' ∧
      q'.db = { q.db with events := q.db.events.insert (event.document id now) } := by
  obtain ⟨t, ht⟩ := hq.exists_unspawned
  have hworking : ∀ q' : Ingest.Run, q'.spawns = (t, Ingest.Call.post event) :: q.spawns →
      ∀ o, Working q' (.run t o) := by
    intro q' hspawns o x hmem hthread
    rw [hspawns] at hmem
    rcases List.mem_cons.mp hmem with rfl | hold
    · intro worker hworker
      cases hworker
    · have hcall : q.calls t = some x.2 := hq.mem_spawns.mp (hthread ▸ hold)
      simp [State.calls, ht] at hcall
  let o : Ingest.Oracle := ⟨id, now, fun _ => 0, .error none, ""⟩
  have hcreated : Ingest.exec o q.db (.createEvent (event.document id now)) =
      (.ok (event.document id now), { q.db with events := q.db.events.insert (event.document id now) }) := by
    simp [Ingest.exec, described, create, hvalid, hfree, Except.mapError]
  have hspawn : Working q (.spawn t (.post event)) := fun worker hworker => by cases hworker
  have hreturns : ((queue workers).body (.post event)).Returns := Prog.returns_bind event.enqueue fun _ => ()
  obtain ⟨q', -, hreaches, hdb⟩ := Machine.exists_called (fun _ => o) hspawn (fun q' hspawns _ => hworking q' hspawns o)
    hreturns ht
  refine ⟨q', hreaches, hdb.trans ?_⟩
  -- two commands give the identifier and the time, and the third one stores the event
  show (Prog.solo Ingest.exec ((Ingest.answered (Ingest.exec o q.db (.createEvent (event.document id now))).1 >>=
    fun _ => (pure () : Ingest.Job Unit)) >>= fun _ => (pure (.done ()) : Ingest.Job (Next Ingest.Call Unit)))
    (fun _ => o) (Ingest.exec o q.db (.createEvent (event.document id now))).2).2 = _
  rw [hcreated]
  rfl

end arrivals

section requests
variable {workers : ℕ → IngestWorker} {d : Ingest.Db} {q : Ingest.Run} {db : Db}

/-- What a request may do next, the workers see as an event that arrives, or not at all. -/
theorem command_arrives (hq : (queue workers).Reaches Working (.start d) q) (hshows : db.Shows q.db)
    {request : PostEventRequest} {x : Stage} {c : Cmd} (hmay : request.may x c) (o : Oracle) :
    ∃ q', (queue workers).Reaches Working q q' ∧ (exec o db c).2.Shows q'.db := by
  have hsame : ∃ q', (queue workers).Reaches Working q q' ∧ db.Shows q'.db := ⟨q, .start, hshows⟩
  have hattempt : ∀ {α : Type} {outcome : Except MongoError α × Db},
      (∃ q', (queue workers).Reaches Working q q' ∧ outcome.2.Shows q'.db) →
        ∃ q', (queue workers).Reaches Working q q' ∧ (o.attempt db outcome).2.Shows q'.db :=
    attempt_keeps (P := fun db' => ∃ q', (queue workers).Reaches Working q q' ∧ db'.Shows q'.db) hsame
  cases c with
  | uuid => exact hsame
  | objectId => exact hsame
  | now => exact hsame
  | findRecord key eventScope => exact hattempt hsame
  | countQueuedBefore receivedAt => exact hattempt hsame
  | createRecord r =>
    obtain ⟨-, eventId, t, rfl⟩ := hmay
    refine hattempt ?_
    unfold Db.createRecord
    obtain ⟨error, herror⟩ | ⟨-, hfree, hok⟩ := create_cases db.records
      (storedRecord (ingestionRecord (text request.idempotencyKey) eventId t))
      (storedRecord (ingestionRecord (text request.idempotencyKey) eventId t)).invalid ["pointsIdempotencyKey", "eventScope"]
    · rw [herror]
      exact hsame
    · -- the record has the scope of the controller, at which no worker looks
      rw [hok]
      refine ⟨q, .start, hshows.events, fun key => (hshows.records key).trans ?_⟩
      refine (Collection.find_insert_ne hfree fun hkey => ?_).symm
      have hscope : ingestScope = trim ingestionScope := congrArg Prod.snd hkey
      exact absurd hscope (by decide +kernel)
  | createEvent e =>
    obtain ⟨id, eventId, correlationId, now, -, rfl⟩ := hmay
    refine hattempt ?_
    unfold Db.createEvent
    obtain ⟨error, herror⟩ | ⟨hvalid, hfree, hok⟩ := create_cases db.events
      (request.document id eventId correlationId now).stored
      (request.document id eventId correlationId now).stored.invalid ["eventId"]
    · rw [herror]
      exact hsame
    · rw [hok]
      have hdocument := stored_document request id eventId correlationId now
      have hnew := hshows.free hfree
      rw [hdocument] at hnew
      have hinvalid : ((request.posted eventId).document id now).invalid = [] := by
        rw [← hdocument]
        exact (List.append_eq_nil_iff.mp hvalid).1
      obtain ⟨q', hreaches, hdb⟩ := arrives hq (request.posted eventId) id now hinvalid hnew
      refine ⟨q', hreaches, ?_, fun key => ?_⟩
      · rw [hdb]
        show (q.db.events.insert _).docs = (db.events.insert _).docs.map _
        rw [Collection.docs_insert hnew, Collection.docs_insert hfree, List.map_append, hshows.events, List.map_singleton,
          hdocument]
      · rw [hdb]
        exact hshows.records key

/-- Whatever the workers have done so far, what a run of the controller does from there on is for
them a number of events that arrive. -/
theorem requests_arrive {A : Schedule} {s : Run} (h : intake.Reaches A (.start db) s)
    (hq : (queue workers).Reaches Working (.start d) q) (hshows : db.Shows q.db) :
    ∃ q', (queue workers).Reaches Working q q' ∧ s.db.Shows q'.db := by
  induction h using Machine.Reaches.by_steps with
  | start => exact ⟨q, .start, hshows⟩
  | spawn s t request _ _ _ ih => exact ih
  | act s t o request c k hs _ ht ih =>
    obtain ⟨q₁, hreaches, hshows₁⟩ := ih
    obtain ⟨q₂, hreaches', hshows₂⟩ := command_arrives (hq.trans hreaches) hshows₁ (posting_kept.may hs ht) o
    exact ⟨q₂, hreaches.trans hreaches', hshows₂⟩
  | restart s t o request request' _ _ _ ih => exact ih

/-- What the workers know of the events that arrive holds of those that are queued: each has an
identifier. -/
theorem queued_identified {A : Schedule} {s : Run} (h : intake.Reaches A (.start .empty) s) :
    ∀ e ∈ s.db.events.docs, requiredText 256 e.eventId = true := by
  intro e hmem
  have hstart : (queue fun _ => ⟨[], ({} : WorkerOptions).config⟩).Reaches Working (.start .empty) (.start .empty) := .start
  obtain ⟨q, hq, hshows⟩ := requests_arrive h hstart shows_empty
  have hidentified : q.db.Identified := identified (fun _ hnone => by cases hnone) hq
  apply hidentified e.toIngestEvent
  rw [hshows.events]
  exact List.mem_map_of_mem hmem

end requests
end RedRoomRewards.Ingestion
