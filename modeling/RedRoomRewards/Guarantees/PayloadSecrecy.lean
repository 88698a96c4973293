import RedRoomRewards.Guarantees.EventReceipts
import RedRoomRewards.Process.Lockstep

/-! What the intake and its receipts show of the payloads: nothing but the merchant. Two runs
that differ in payloads only give the same answers and the same receipts. -/
namespace RedRoomRewards.Ingestion
open Process Store Ingest

section observer

/-- An event without its payload. -/
def ReceivedEvent.unpacked (e : ReceivedEvent) : ReceivedEvent := { e with payloadSnapshot := none }

/-- Payloads that are valid alike and name the same merchant. -/
structure SamePayload (payload payload' : Json) : Prop where
  valid : validatePayload payload = validatePayload payload'
  merchant : Metadata.get (fields payload) "merchantId" = Metadata.get (fields payload') "merchantId"

inductive SameRequest : PostEventRequest → PostEventRequest → Prop
  | of (request : PostEventRequest) (payload : Json) (h : SamePayload request.payload payload) :
      SameRequest request { request with payload := payload }

inductive SameCmd : Cmd → Cmd → Prop
  | same (c : Cmd) (hc : ∀ e, c ≠ .createEvent e) : SameCmd c c
  | event (e e' : ReceivedEvent) (h : e.unpacked = e'.unpacked) : SameCmd (.createEvent e) (.createEvent e')

inductive SameReply : (c c' : Cmd) → c.Reply → c'.Reply → Prop
  | same (c : Cmd) (r : c.Reply) (hc : ∀ e, c ≠ .createEvent e) : SameReply c c r r
  | event (e e' : ReceivedEvent) (r r' : Except MongoError ReceivedEvent)
      (h : r.map ReceivedEvent.unpacked = r'.map ReceivedEvent.unpacked) :
      SameReply (.createEvent e) (.createEvent e') r r'

structure SameDb (db db' : Db) : Prop where
  records : db.records = db'.records
  events : db.events.docs.map ReceivedEvent.unpacked = db'.events.docs.map ReceivedEvent.unpacked

/-- An observer that sees everything but the payloads. -/
def payloadBlind : Likeness Intake Db PostEventRequest EventResponse PostError where
  db := SameDb
  cmd := SameCmd
  reply := SameReply
  call := SameRequest
  response := Eq
  error := Eq

end observer

section commands
variable {o : Oracle} {db db' : Db} {e e' : ReceivedEvent}

private theorem SameDb.refl (db : Db) : SameDb db db := ⟨rfl, rfl⟩

/-- A call fails in both runs or in neither. -/
private theorem attempt_same {α : Type} {R : Except MongoError α → Except MongoError α → Prop}
    {outcome outcome' : Except MongoError α × Db} (h : SameDb db db')
    (hfails : ∀ message, R (.error (.unavailable message)) (.error (.unavailable message)))
    (hreply : R outcome.1 outcome'.1) (hdb : SameDb outcome.2 outcome'.2) :
    R (o.attempt db outcome).1 (o.attempt db' outcome').1 ∧ SameDb (o.attempt db outcome).2 (o.attempt db' outcome').2 := by
  unfold Oracle.attempt
  cases o.failure with
  | none => exact ⟨hreply, hdb⟩
  | some failure =>
    refine ⟨hfails _, ?_⟩
    by_cases hdone : failure.done = true
    · simpa [hdone] using hdb
    · simpa [hdone] using h

/-- What an observer that is blind for payloads asks of the events it can ask. -/
private theorem SameDb.all {p : ReceivedEvent → Prop} (h : SameDb db db') (hp : ∀ e, p e ↔ p e.unpacked) :
    (∀ e ∈ db.events.docs, p e) ↔ ∀ e ∈ db'.events.docs, p e := by
  have hmap : ∀ docs : List ReceivedEvent, (∀ e ∈ docs, p e) ↔ ∀ e ∈ docs.map ReceivedEvent.unpacked, p e := by
    intro docs
    rw [List.forall_mem_map]
    exact forall₂_congr fun e _ => hp e
  rw [hmap, h.events, ← hmap]

private theorem stored_unpacked (e : ReceivedEvent) : e.unpacked.stored = e.stored.unpacked := by
  simp only [ReceivedEvent.stored, ReceivedEvent.unpacked]

/-- The schema does not look at payloads. -/
private theorem invalid_unpacked (e : ReceivedEvent) : e.unpacked.invalid = e.invalid := by
  simp only [ReceivedEvent.invalid, IngestEvent.invalid, ReceivedEvent.unpacked]

private theorem createEvent_same (h : SameDb db db') (he : e.unpacked = e'.unpacked) :
    (db.createEvent e).1.map ReceivedEvent.unpacked = (db'.createEvent e').1.map ReceivedEvent.unpacked ∧
      SameDb (db.createEvent e).2 (db'.createEvent e').2 := by
  have hstored : e.stored.unpacked = e'.stored.unpacked := by
    rw [← stored_unpacked, he, stored_unpacked]
  have hid : e.stored.id = e'.stored.id := congrArg (fun e => e.id) hstored
  have heventId : e.stored.eventId = e'.stored.eventId := congrArg (fun e => e.eventId) hstored
  have hinvalid : e.stored.invalid = e'.stored.invalid := by
    rw [← invalid_unpacked e.stored, hstored, invalid_unpacked]
  have hfree : db.events.Free e.stored ↔ db'.events.Free e'.stored := by
    show (∀ d ∈ db.events.docs, d.id ≠ e.stored.id) ∧ (∀ d ∈ db.events.docs, d.eventId ≠ e.stored.eventId) ↔
      (∀ d ∈ db'.events.docs, d.id ≠ e'.stored.id) ∧ ∀ d ∈ db'.events.docs, d.eventId ≠ e'.stored.eventId
    rw [hid, heventId]
    exact and_congr (h.all fun _ => Iff.rfl) (h.all fun _ => Iff.rfl)
  unfold Db.createEvent create
  by_cases hvalid : e'.stored.invalid = []
  · rw [if_neg (not_not.mpr (hinvalid.trans hvalid)), if_neg (not_not.mpr hvalid)]
    by_cases hnew : db'.events.Free e'.stored
    · have hold := hfree.mpr hnew
      rw [if_pos hold, if_pos hnew]
      refine ⟨congrArg Except.ok hstored, h.records, ?_⟩
      show (db.events.insert e.stored).docs.map _ = (db'.events.insert e'.stored).docs.map _
      rw [Collection.docs_insert hold, Collection.docs_insert hnew, List.map_append, List.map_append, h.events]
      exact congrArg (List.map ReceivedEvent.unpacked db'.events.docs ++ [·]) hstored
    · rw [if_neg (mt hfree.mp hnew), if_neg hnew]
      exact ⟨rfl, h⟩
  · have hinvalid' : e.stored.invalid ≠ [] := fun hnil => hvalid (hinvalid.symm.trans hnil)
    rw [if_pos hinvalid', if_pos hvalid, hinvalid]
    exact ⟨rfl, h⟩

private theorem countP_same {p : ReceivedEvent → Bool} (h : SameDb db db') (hp : ∀ e, p e = p e.unpacked) :
    db.events.docs.countP p = db'.events.docs.countP p := by
  have hmap : ∀ docs : List ReceivedEvent, docs.countP p = (docs.map ReceivedEvent.unpacked).countP p := by
    intro docs
    rw [List.countP_map]
    exact congrArg (docs.countP ·) (funext hp)
  rw [hmap, h.events, ← hmap]

private theorem exec_same (h : SameDb db db') {c c' : Cmd} (hc : SameCmd c c') :
    SameReply c c' (exec o db c).1 (exec o db' c').1 ∧ SameDb (exec o db c).2 (exec o db' c').2 := by
  cases hc with
  | event e e' he =>
    obtain ⟨hreply, hdb⟩ := createEvent_same h he
    exact attempt_same (R := SameReply (.createEvent e) (.createEvent e')) h (fun _ => .event e e' _ _ rfl)
      (.event e e' _ _ hreply) hdb
  | same c hc =>
    cases c with
    | uuid => exact ⟨.same _ _ hc, h⟩
    | objectId => exact ⟨.same _ _ hc, h⟩
    | now => exact ⟨.same _ _ hc, h⟩
    | findRecord key eventScope =>
      refine attempt_same (R := SameReply (.findRecord key eventScope) (.findRecord key eventScope)) h
        (fun _ => .same _ _ hc) ?_ h
      rw [h.records]
      exact .same _ _ hc
    | createRecord r =>
      refine attempt_same (R := SameReply (.createRecord r) (.createRecord r)) h (fun _ => .same _ _ hc) ?_ ⟨?_, h.events⟩
      · have hreply : (db.createRecord r).1 = (db'.createRecord r).1 := by
          simp only [Db.createRecord, h.records]
        rw [hreply]
        exact .same _ _ hc
      · simp only [Db.createRecord, h.records]
    | createEvent e => exact absurd rfl (hc e)
    | countQueuedBefore receivedAt =>
      refine attempt_same (R := SameReply (.countQueuedBefore receivedAt) (.countQueuedBefore receivedAt)) h
        (fun _ => .same _ _ hc) ?_ h
      rw [countP_same h fun _ => rfl]
      exact .same _ _ hc

end commands

section programs
variable {request : PostEventRequest} {payload : Json}

private abbrev Same (p p' : Job EventResponse) : Prop := payloadBlind.Progs Eq p p'

private theorem same_call {c : Cmd} (hc : ∀ e, c ≠ .createEvent e) {k k' : c.Reply → Job EventResponse}
    (h : ∀ r, Same (k r) (k' r)) : Same (Prog.call (I := Intake) c k) (Prog.call (I := Intake) c k') := by
  refine .call (SameCmd.same c hc) fun r r' hr => ?_
  cases hr with
  | same => exact h r
  | event => exact absurd rfl (hc _)

private theorem SameReply.events {e e' : ReceivedEvent} {r r' : Except MongoError ReceivedEvent}
    (h : SameReply (.createEvent e) (.createEvent e') r r') :
    r.map ReceivedEvent.unpacked = r'.map ReceivedEvent.unpacked := by
  cases h with
  | same _ _ hc => exact absurd rfl (hc e)
  | event _ _ _ _ h => exact h

private theorem same_answered {α : Type} {r : Except MongoError α} {f f' : α → Job EventResponse}
    (h : ∀ a, Same (f a) (f' a)) : Same (answered r >>= f) (answered r >>= f') := by
  cases r with
  | error e => exact .throw rfl
  | ok a => exact h a

private theorem same_orGenerate (value : Json) (tag : String) {f f' : Json → Job EventResponse}
    (h : ∀ value', Same (f value') (f' value')) : Same (orGenerate value tag >>= f) (orGenerate value tag >>= f') := by
  unfold orGenerate
  by_cases htruthy : value.truthy = true
  · rw [if_pos htruthy]
    exact h value
  · rw [if_neg htruthy]
    exact same_call (fun _ heq => by cases heq) fun uuid => h _

private theorem same_queueEvent (h : SamePayload request.payload payload) (eventId : String) (requestId correlationId : Json) :
    Same (queueEvent request eventId requestId correlationId)
      (queueEvent { request with payload := payload } eventId requestId correlationId) := by
  have hqueue : ∀ id now, Same
      (issue (.createEvent (request.document id eventId correlationId now)) >>= answered >>= fun ingestEvent => do
        let queuePosition ← issue (.countQueuedBefore ingestEvent.receivedAt) >>= answered
        pure ⟨eventId, .queued, "Event queued for processing", some (queuePosition + 1), requestId, correlationId⟩)
      (issue (.createEvent (({ request with payload := payload } : PostEventRequest).document id eventId correlationId now)) >>=
          answered >>= fun ingestEvent => do
        let queuePosition ← issue (.countQueuedBefore ingestEvent.receivedAt) >>= answered
        pure ⟨eventId, .queued, "Event queued for processing", some (queuePosition + 1), requestId, correlationId⟩) := by
    intro id now
    have hdocument : (request.document id eventId correlationId now).unpacked =
        (({ request with payload := payload } : PostEventRequest).document id eventId correlationId now).unpacked := by
      simp only [PostEventRequest.document, ReceivedEvent.unpacked, h.merchant]
    refine .call (SameCmd.event _ _ hdocument) fun r r' hr => ?_
    have hevents := hr.events
    cases r with
    | error e =>
      cases r' with
      | error e' =>
        obtain rfl := Except.error.inj hevents
        exact .throw rfl
      | ok e' => cases hevents
    | ok e =>
      cases r' with
      | error e' => cases hevents
      | ok e' =>
        have hreceived : e.receivedAt = e'.receivedAt := congrArg (fun e => e.receivedAt) (Except.ok.inj hevents)
        show Same (issue (.countQueuedBefore e.receivedAt) >>= answered >>= _)
          (issue (.countQueuedBefore e'.receivedAt) >>= answered >>= _)
        rw [hreceived]
        exact same_call (fun _ heq => by cases heq) fun r => same_answered fun n => .ret rfl
  refine same_call (fun _ heq => by cases heq) fun t => ?_
  refine same_call (fun _ heq => by cases heq) fun r => ?_
  have hstored : Same (issue .objectId >>= fun id => issue .now >>= fun now => _) _ :=
    same_call (fun _ heq => by cases heq) fun id => same_call (fun _ heq => by cases heq) fun now => hqueue id now
  cases r with
  | ok r => exact hstored
  | error e =>
    cases e with
    | duplicateKey keyPattern => exact hstored
    | validation paths => exact .throw rfl
    | unavailable message => exact .throw rfl

theorem SamePayload.validationErrors (h : SamePayload request.payload payload) :
    validationErrors { request with payload := payload } = validationErrors request := by
  simp only [Ingestion.validationErrors, h.valid]

private theorem same_postEvent (h : SamePayload request.payload payload) :
    Same (postEvent request) (postEvent { request with payload := payload }) := by
  unfold postEvent
  refine same_orGenerate _ _ fun correlationId => ?_
  rw [h.validationErrors]
  refine (Likeness.progs_throwIf (L := payloadBlind) rfl).bind fun _ _ _ => ?_
  refine same_orGenerate _ _ fun eventId => same_orGenerate _ _ fun requestId => ?_
  refine same_call (fun _ heq => by cases heq) fun r => ?_
  cases r with
  | error e => exact .throw rfl
  | ok record =>
    cases record with
    | some record => exact .ret rfl
    | none => exact same_queueEvent h (text eventId) requestId correlationId

theorem payloadBlind_respected : payloadBlind.Respected intake where
  exec := fun o d d' c c' hdb hc => exec_same hdb hc
  body := by
    intro request request' h
    cases h with
    | of payload h => exact (same_postEvent h).bind fun response response' heq => .ret (.done heq)

end programs

section receipts
variable {cast : Json → Option String} {db db' : Db} {s s' : Run}

/-- Whoever asks for a receipt, what he gets shows nothing of a payload but its merchant. -/
private theorem SameDb.receipts (h : SameDb db db') (o : Oracle) (merchantId idempotencyKey : String) :
    getEventReceipt cast o db merchantId idempotencyKey = getEventReceipt cast o db' merchantId idempotencyKey := by
  have hfound : ∀ docs : List ReceivedEvent,
      (docs.find? (ReceivedEvent.answers cast merchantId idempotencyKey)).map (ReceivedEvent.receipt cast) =
        ((docs.map ReceivedEvent.unpacked).find? (ReceivedEvent.answers cast merchantId idempotencyKey)).map
          (ReceivedEvent.receipt cast) := by
    intro docs
    rw [List.find?_map, Option.map_map]
    rfl
  have hreply : ∀ (db : Db) (outcome : Except MongoError (Option EventReceiptResponse)),
      (o.attempt db (outcome, db)).1 = (o.attempt db' (outcome, db')).1 := by
    intro db outcome
    unfold Oracle.attempt
    cases o.failure <;> rfl
  unfold getEventReceipt
  rw [hfound, h.events, ← hfound, hreply]

/-- However two runs with like requests go on step by step, payloads show nowhere but in the
merchants they name: every request ends in both as in the other, every request for a receipt
is answered alike, and what one run can do next the other can too. -/
theorem payloads_hidden (h : intake.Lockstep payloadBlind (.start .empty) (.start .empty) s s') :
    (∀ t, s.result t = s'.result t) ∧
    (∀ cast verify config o req, handleReceiptRequest cast verify config o s.db req =
      handleReceiptRequest cast verify config o s'.db req) ∧
    ∀ l l', payloadBlind.Labels l l' → (intake.step s l).isSome = (intake.step s' l').isSome := by
  have hstart : payloadBlind.States (.start .empty : Run) (.start .empty) := ⟨.refl _, fun _ => .none⟩
  have hstates := h.states payloadBlind_respected hstart
  refine ⟨hstates.result (fun _ _ => id) fun _ _ => id, fun cast verify config o req => ?_, fun l l' hl => ?_⟩
  · simp only [handleReceiptRequest, SameDb.receipts hstates.db]
  · have hstep := hstates.step payloadBlind_respected hl
    generalize intake.step s l = next at hstep ⊢
    generalize intake.step s' l' = next' at hstep ⊢
    cases hstep <;> rfl

end receipts

section scenario

/-- The cards that the stored payloads name. -/
def cards (db : Db) : List String := db.events.docs.map fun e => text (Metadata.get (e.payloadSnapshot.getD []) "card")

private theorem purchaseRun_labels (card card' : String) :
    List.Forall₂ payloadBlind.Labels (purchaseRun card) (purchaseRun card') := by
  have hsame : SamePayload (purchase card).payload (purchase card').payload := ⟨rfl, rfl⟩
  refine .cons (.spawn 0 (SameRequest.of (purchase card) (purchase card').payload hsame)) ?_
  refine List.forall₂_same.mpr fun l hl => ?_
  rw [List.eq_of_mem_replicate hl]
  exact .run 0 _

theorem payloads_hidden_of_cards : ∃ s s', intake.Lockstep payloadBlind (.start .empty) (.start .empty) s s' ∧
    cards s.db = ["1111"] ∧ cards s'.db = ["2222"] ∧ (supportAnswer s.db).status = 200 ∧
    s.result 0 = s'.result 0 ∧ supportAnswer s.db = supportAnswer s'.db := by
  obtain ⟨s, s', hlockstep, hfacts⟩ := Machine.exists_lockstep intake (fun _ _ => True) (.start .empty)
    (.start .empty) (purchaseRun_labels "1111" "2222")
    (fun s s' => decide (cards s.db = ["1111"] ∧ cards s'.db = ["2222"] ∧ (supportAnswer s.db).status = 200))
    (a := true) (by decide +kernel)
  obtain ⟨hcards, hcards', hstatus⟩ := of_decide_eq_true hfacts
  obtain ⟨hresults, hreceipts, -⟩ := payloads_hidden hlockstep
  exact ⟨s, s', hlockstep, hcards, hcards', hstatus, hresults 0, hreceipts _ _ _ _ _⟩

end scenario
end RedRoomRewards.Ingestion
