import RedRoomRewards.Ingestion.Controller
import RedRoomRewards.Process.View

/-! What a request does to the records and the events, as a protocol: how far it has come,
the commands it may issue then, and what each does. -/
namespace RedRoomRewards.Ingestion
open Process Store Ingest

section stages

inductive Stage where
  | asking
  /-- The key has a record. -/
  | found (r : IdempotencyRecord)
  /-- The key had no record when it was looked up. -/
  | checked
  /-- The key has a record by now, and the event is still to be stored. -/
  | recorded (eventId : String)
  | stored (e : ReceivedEvent)
  /-- A database call has failed. -/
  | failed

namespace Stage

def afterLookup : Stage → Except MongoError (Option IdempotencyRecord) → Stage
  | asking, .ok (some r) => found r
  | asking, .ok none => checked
  | asking, .error _ => failed
  | x, _ => x

def afterRecord (eventId : String) : Stage → Except MongoError IdempotencyRecord → Stage
  | checked, .ok _ | checked, .error (.duplicateKey _) => recorded eventId
  | checked, .error _ => failed
  | x, _ => x

def afterEvent : Stage → Except MongoError ReceivedEvent → Stage
  | recorded _, .ok e => stored e
  | recorded _, .error _ => failed
  | x, _ => x

def afterCount : Stage → Except MongoError ℕ → Stage
  | stored _, .error _ => failed
  | x, _ => x

def next (x : Stage) : (c : Cmd) → c.Reply → Stage
  | .findRecord .., r => x.afterLookup r
  | .createRecord record, r => x.afterRecord record.resultHash r
  | .createEvent _, r => x.afterEvent r
  | .countQueuedBefore _, r => x.afterCount r
  | _, _ => x

end Stage

namespace PostEventRequest
variable (request : PostEventRequest)

/-- The `eventId` is the one that the request gives, if it gives one. -/
def Offers (eventId : String) : Prop := request.eventId.truthy = true → eventId = text request.eventId

def may (x : Stage) : Cmd → Prop
  | .uuid | .objectId | .now => True
  | .findRecord key eventScope => x = .asking ∧ key = text request.idempotencyKey ∧ eventScope = ingestionScope
  | .createRecord r => x = .checked ∧ ∃ eventId t, r = ingestionRecord (text request.idempotencyKey) eventId t
  | .createEvent e => ∃ id eventId correlationId now, x = .recorded eventId ∧
      e = request.document id eventId correlationId now
  | .countQueuedBefore _ => ∃ e, x = .stored e

def ends : Stage → Except PostError EventResponse → Prop
  | x, .ok response => match response.status with
    | .queued => ∃ e, x = .stored e
    | .duplicate => (∃ r, x = .found r) ∧ request.Offers response.eventId
  | x, .error _ => x = .asking ∨ x = .failed

end PostEventRequest

def posting : Contract Intake PostEventRequest EventResponse PostError Stage where
  start := fun _ => .asking
  next := fun _ => Stage.next
  may := PostEventRequest.may
  ends := PostEventRequest.ends
  resumes := fun request request' x => request' = request ∧ x = .asking

end stages

section rules
variable {request : PostEventRequest}

private abbrev Posts (request : PostEventRequest) (x : Stage) (p : Job EventResponse) : Prop :=
  Prog.Obeys (posting.rules intake request) request.ends x p

private theorem posts_orGenerate {x : Stage} (value : Json) (tag : String) {f : Json → Job EventResponse}
    (h : ∀ value', (value.truthy = true → value' = value) → Posts request x (f value')) :
    Posts request x (orGenerate value tag >>= f) := by
  unfold orGenerate
  by_cases htruthy : value.truthy = true
  · rw [if_pos htruthy]
    exact h value fun _ => rfl
  · rw [if_neg htruthy]
    exact ⟨trivial, fun uuid _ => h _ fun ht => absurd ht htruthy⟩

private theorem posts_queueEvent (eventId : String) (requestId correlationId : Json) :
    Posts request .checked (queueEvent request eventId requestId correlationId) := by
  have hqueue : Posts request (.recorded eventId) (do
      let id ← issue .objectId
      let receivedAt ← issue .now
      let ingestEvent ← issue (.createEvent (request.document id eventId correlationId receivedAt)) >>= answered
      let queuePosition ← issue (.countQueuedBefore ingestEvent.receivedAt) >>= answered
      pure ⟨eventId, .queued, "Event queued for processing", some (queuePosition + 1), requestId, correlationId⟩) := by
    refine ⟨trivial, fun id _ => ⟨trivial, fun now _ => ⟨⟨id, eventId, correlationId, now, rfl, rfl⟩, fun r _ => ?_⟩⟩⟩
    cases r with
    | error e => exact .inr rfl
    | ok e =>
      refine ⟨⟨e, rfl⟩, fun r _ => ?_⟩
      cases r with
      | error e => exact .inr rfl
      | ok n => exact ⟨e, rfl⟩
  refine ⟨trivial, fun t _ => ⟨⟨rfl, eventId, t, rfl⟩, fun r _ => ?_⟩⟩
  match r with
  | .ok _ => exact hqueue
  | .error (.duplicateKey _) => exact hqueue
  | .error (.validation _) => exact .inr rfl
  | .error (.unavailable _) => exact .inr rfl

private theorem posts_postEvent : Posts request .asking (postEvent request) := by
  refine posts_orGenerate _ _ fun correlationId _ => (Prog.obeys_throwIf_bind _ _ _ _).mpr ⟨fun _ => .inl rfl, fun _ => ?_⟩
  refine posts_orGenerate _ _ fun eventId hoffers => posts_orGenerate _ _ fun requestId _ => ?_
  refine ⟨⟨rfl, rfl, rfl⟩, fun r _ => ?_⟩
  match r with
  | .error e => exact .inr rfl
  | .ok (some r) => exact ⟨⟨r, rfl⟩, fun htruthy => congrArg text (hoffers htruthy)⟩
  | .ok none => exact posts_queueEvent (text eventId) requestId correlationId

end rules

/-- Every request keeps to the protocol. -/
theorem posting_kept : posting.Kept intake where
  starts := fun _ => ⟨rfl, rfl⟩
  body := by
    rintro request request' x ⟨rfl, rfl⟩
    refine (Prog.obeys_bind _ _ _).mpr (posts_postEvent.imp ?_)
    rintro x (error | response) hends
    · exact hends
    · exact hends

section effects

/-- What a step of a request does, from one stage to the next. A database call that fails
may have been done. -/
inductive Effect (request : PostEventRequest) (o : Oracle) (db : Db) :
    Stage → (c : Cmd) → c.Reply → Db → Stage → Prop where
  | idle (x : Stage) (c : Cmd) (r : c.Reply) (hrecords : ∀ record, c ≠ .createRecord record)
      (hevents : ∀ e, c ≠ .createEvent e) : Effect request o db x c r db x
  | failed (x : Stage) (c : Cmd) (r : c.Reply) (hrecords : ∀ record, c ≠ .createRecord record)
      (hevents : ∀ e, c ≠ .createEvent e) (hrecorded : ∀ eventId, x ≠ .recorded eventId) :
      Effect request o db x c r db .failed
  | found (r : IdempotencyRecord) (hfailure : o.failure = none)
      (hfind : db.records.find (trim (text request.idempotencyKey), trim ingestionScope) = some r) :
      Effect request o db .asking (.findRecord (text request.idempotencyKey) ingestionScope) (.ok (some r)) db (.found r)
  | fresh (hfind : db.records.find (trim (text request.idempotencyKey), trim ingestionScope) = none) :
      Effect request o db .asking (.findRecord (text request.idempotencyKey) ingestionScope) (.ok none) db .checked
  | recorded (r : IdempotencyRecord) (hkey : r.claim = (text request.idempotencyKey, ingestionScope))
      (hfree : db.records.Free (storedRecord r)) :
      Effect request o db .checked (.createRecord r) (.ok (storedRecord r))
        { db with records := db.records.insert (storedRecord r) } (.recorded r.resultHash)
  | duplicated (r r' : IdempotencyRecord) (hkey : r.claim = (text request.idempotencyKey, ingestionScope))
      (keyPattern : List String) (hfind : db.records.find (storedRecord r).claim = some r') :
      Effect request o db .checked (.createRecord r) (.error (.duplicateKey keyPattern)) db (.recorded r.resultHash)
  | unrecorded (r : IdempotencyRecord) (e : MongoError) : Effect request o db .checked (.createRecord r) (.error e) db .failed
  /-- The record is stored, but its request does not learn it. -/
  | recordLost (r : IdempotencyRecord) (hkey : r.claim = (text request.idempotencyKey, ingestionScope)) (message : String)
      (hfree : db.records.Free (storedRecord r)) (hdone : ∃ f ∈ o.failure, f.done = true) :
      Effect request o db .checked (.createRecord r) (.error (.unavailable message))
        { db with records := db.records.insert (storedRecord r) } .failed
  | stored (e : ReceivedEvent) (hkey : e.idempotencyKey = some (text request.idempotencyKey))
      (hfree : db.events.Free e.stored) :
      Effect request o db (.recorded e.eventId) (.createEvent e) (.ok e.stored)
        { db with events := db.events.insert e.stored } (.stored e.stored)
  /-- The event is stored, but its request does not learn it. -/
  | eventLost (e : ReceivedEvent) (hkey : e.idempotencyKey = some (text request.idempotencyKey)) (error : MongoError)
      (hfree : db.events.Free e.stored) :
      Effect request o db (.recorded e.eventId) (.createEvent e) (.error error)
        { db with events := db.events.insert e.stored } .failed
  | refused (e : ReceivedEvent) (error : MongoError)
      (hrefused : (∀ f ∈ o.failure, f.done = true) → e.stored.invalid = [] → ¬ db.events.Free e.stored) :
      Effect request o db (.recorded e.eventId) (.createEvent e) (.error error) db .failed

private theorem effect_of_createRecord {request : PostEventRequest} (o : Oracle) (db : Db) {r : IdempotencyRecord}
    (hkey : r.claim = (text request.idempotencyKey, ingestionScope)) :
    Effect request o db .checked (.createRecord r) (exec o db (.createRecord r)).1 (exec o db (.createRecord r)).2
      (Stage.checked.next (.createRecord r) (exec o db (.createRecord r)).1) := by
  have hcreated : (storedRecord r).invalid = [] ∧ db.records.Free (storedRecord r) ∧
        db.createRecord r = (.ok (storedRecord r), { db with records := db.records.insert (storedRecord r) }) ∨
      (∃ paths, db.createRecord r = (.error (.validation paths), db)) ∨
      (∃ r' keyPattern, db.records.find (storedRecord r).claim = some r' ∧
        db.createRecord r = (.error (.duplicateKey keyPattern), db)) := by
    unfold Db.createRecord create
    by_cases hinvalid : (storedRecord r).invalid = []
    · by_cases hfree : db.records.Free (storedRecord r)
      · exact .inl ⟨hinvalid, hfree, by simp [hinvalid, hfree]⟩
      · obtain ⟨r', hr'⟩ := Option.ne_none_iff_exists'.mp fun hnone => hfree (Collection.free_iff_find.mpr hnone)
        exact .inr (.inr ⟨r', ["pointsIdempotencyKey", "eventScope"], hr', by simp [hinvalid, hfree]⟩)
    · exact .inr (.inl ⟨(storedRecord r).invalid, by simp [hinvalid]⟩)
  show Effect request o db .checked (.createRecord r) (o.attempt db (db.createRecord r)).1 (o.attempt db (db.createRecord r)).2
    (Stage.checked.next (.createRecord r) (o.attempt db (db.createRecord r)).1)
  obtain ⟨-, hnone⟩ | ⟨failure, hfailure, hsome⟩ := attempt_cases o db (db.createRecord r)
  · rw [hnone]
    obtain ⟨-, hfree, hok⟩ | ⟨paths, herror⟩ | ⟨r', keyPattern, hfind, herror⟩ := hcreated
    · rw [hok]
      exact .recorded r hkey hfree
    · rw [herror]
      exact .unrecorded r _
    · rw [herror]
      exact .duplicated r r' hkey keyPattern hfind
  · rw [hsome]
    by_cases hdone : failure.done = true
    · rw [if_pos hdone]
      obtain ⟨-, hfree, hok⟩ | ⟨paths, herror⟩ | ⟨r', keyPattern, hfind, herror⟩ := hcreated
      · rw [hok]
        exact .recordLost r hkey _ hfree ⟨failure, hfailure, hdone⟩
      · rw [herror]
        exact .unrecorded r _
      · rw [herror]
        exact .unrecorded r _
    · rw [if_neg hdone]
      exact .unrecorded r _

private theorem effect_of_createEvent {request : PostEventRequest} (o : Oracle) (db : Db) {e : ReceivedEvent}
    (hkey : e.idempotencyKey = some (text request.idempotencyKey)) :
    Effect request o db (.recorded e.eventId) (.createEvent e) (exec o db (.createEvent e)).1
      (exec o db (.createEvent e)).2 ((Stage.recorded e.eventId).next (.createEvent e) (exec o db (.createEvent e)).1) := by
  have hcreated : e.stored.invalid = [] ∧ db.events.Free e.stored ∧
        db.createEvent e = (.ok e.stored, { db with events := db.events.insert e.stored }) ∨
      (e.stored.invalid = [] → ¬ db.events.Free e.stored) ∧ ∃ error, db.createEvent e = (.error error, db) := by
    unfold Db.createEvent create
    by_cases hinvalid : e.stored.invalid = []
    · by_cases hfree : db.events.Free e.stored
      · exact .inl ⟨hinvalid, hfree, by simp [hinvalid, hfree]⟩
      · exact .inr ⟨fun _ => hfree, .duplicateKey ["eventId"], by simp [hinvalid, hfree]⟩
    · exact .inr ⟨fun hvalid => absurd hvalid hinvalid, .validation e.stored.invalid, by simp [hinvalid]⟩
  show Effect request o db (.recorded e.eventId) (.createEvent e) (o.attempt db (db.createEvent e)).1 (o.attempt db (db.createEvent e)).2
    ((Stage.recorded e.eventId).next (.createEvent e) (o.attempt db (db.createEvent e)).1)
  obtain ⟨-, hnone⟩ | ⟨failure, hfailure, hsome⟩ := attempt_cases o db (db.createEvent e)
  · rw [hnone]
    obtain ⟨-, hfree, hok⟩ | ⟨hrefused, error, herror⟩ := hcreated
    · rw [hok]
      exact .stored e hkey hfree
    · rw [herror]
      exact .refused e error fun _ => hrefused
  · rw [hsome]
    by_cases hdone : failure.done = true
    · rw [if_pos hdone]
      obtain ⟨-, hfree, hok⟩ | ⟨hrefused, error, herror⟩ := hcreated
      · rw [hok]
        exact .eventLost e hkey _ hfree
      · rw [herror]
        exact .refused e _ fun _ => hrefused
    · rw [if_neg hdone]
      refine .refused e _ fun hall => absurd (hall failure hfailure) hdone

private theorem effect_of_findRecord {request : PostEventRequest} (o : Oracle) (db : Db) :
    Effect request o db .asking (.findRecord (text request.idempotencyKey) ingestionScope)
      (exec o db (.findRecord (text request.idempotencyKey) ingestionScope)).1
      (exec o db (.findRecord (text request.idempotencyKey) ingestionScope)).2
      (Stage.asking.next (.findRecord (text request.idempotencyKey) ingestionScope)
        (exec o db (.findRecord (text request.idempotencyKey) ingestionScope)).1) := by
  have hexec : exec o db (.findRecord (text request.idempotencyKey) ingestionScope) =
      o.attempt db (.ok (db.records.find (trim (text request.idempotencyKey), trim ingestionScope)), db) := rfl
  rw [hexec]
  obtain ⟨hfailure, hnone⟩ | ⟨failure, -, hsome⟩ :=
    attempt_cases o db (.ok (db.records.find (trim (text request.idempotencyKey), trim ingestionScope)), db)
  · rw [hnone]
    cases hfind : db.records.find (trim (text request.idempotencyKey), trim ingestionScope) with
    | none => exact .fresh hfind
    | some r => exact .found r hfailure hfind
  · rw [hsome, ite_self]
    exact .failed _ _ _ (fun _ heq => by cases heq) (fun _ heq => by cases heq) fun _ heq => by cases heq

theorem effect_of_may {request : PostEventRequest} (o : Oracle) (db : Db) {x : Stage} {c : Cmd}
    (h : request.may x c) :
    Effect request o db x c (exec o db c).1 (exec o db c).2 (x.next c (exec o db c).1) := by
  cases c with
  | uuid => exact .idle x _ _ (fun _ heq => by cases heq) fun _ heq => by cases heq
  | objectId => exact .idle x _ _ (fun _ heq => by cases heq) fun _ heq => by cases heq
  | now => exact .idle x _ _ (fun _ heq => by cases heq) fun _ heq => by cases heq
  | findRecord key eventScope =>
    obtain ⟨rfl, rfl, rfl⟩ := h
    exact effect_of_findRecord o db
  | createRecord r =>
    obtain ⟨rfl, eventId, t, rfl⟩ := h
    exact effect_of_createRecord o db rfl
  | createEvent e =>
    obtain ⟨id, eventId, correlationId, now, rfl, rfl⟩ := h
    have hkey : (request.document id eventId correlationId now).idempotencyKey = some (text request.idempotencyKey) := rfl
    exact effect_of_createEvent o db hkey
  | countQueuedBefore receivedAt =>
    obtain ⟨e, rfl⟩ := h
    unfold exec Oracle.attempt
    cases hfailure : o.failure with
    | some failure =>
      simp only [ite_self]
      exact .failed _ _ _ (fun _ heq => by cases heq) (fun _ heq => by cases heq) fun _ heq => by cases heq
    | none => exact .idle _ _ _ (fun _ heq => by cases heq) fun _ heq => by cases heq

end effects
end RedRoomRewards.Ingestion
