import RedRoomRewards.Ingest.System

/-! What a call of `processEvent` does to its event, as a protocol: how far it has come,
and the commands it may issue then. -/
namespace RedRoomRewards.Ingest
open Process Store IngestWorker

section stages

/-- What a call knows of the event that it has claimed. -/
inductive Phase where
  | claimed
  /-- The event has an idempotency record. -/
  | known
  /-- The event had no idempotency record when it was looked up. -/
  | checked
  /-- The handler has been invoked. -/
  | handling
  | succeeded
  /-- The handler has answered with a failure. -/
  | failing
  /-- The record of the dead letter is stored. -/
  | buried
  /-- The attempt has thrown. -/
  | thrown
  /-- The event has been read again after the attempt had thrown. -/
  | caught
  deriving DecidableEq

inductive Stage where
  | waiting
  /-- The event is claimed, and nothing has been decided about it. -/
  | holding (e : IngestEvent) (phase : Phase)
  /-- The event is marked as processed, its idempotency record not yet stored. -/
  | marked (e : IngestEvent)
  | finished
  /-- The call has thrown and left the event as it was. -/
  | abandoned (e : IngestEvent)

namespace Stage

def afterPoll : Stage → Stage
  | waiting => finished
  | x => x

def afterClaim : Stage → Option IngestEvent → Stage
  | waiting, some e => holding e .claimed
  | waiting, none => finished
  | x, _ => x

def afterLookup (found : Bool) : Stage → Stage
  | holding e .claimed => holding e (if found then .known else .checked)
  | x => x

def afterInvocation : Stage → Stage
  | holding e .checked => holding e .handling
  | x => x

def afterResponse : Stage → Except QueueError ProcessingResponse → Stage
  | holding e .handling, .ok response =>
    holding e (if response.result = .success then .succeeded else .failing)
  | holding e .handling, .error _ => holding e .thrown
  | x, _ => x

def afterUpdate : Stage → Stage
  | holding e .succeeded => marked e
  | holding _ _ => finished
  | x => x

def afterBurial : Stage → Except QueueError DLQEvent → Stage
  | holding e _, .ok _ => holding e .buried
  | holding e .caught, .error _ => abandoned e
  | holding e _, .error _ => holding e .thrown
  | x, _ => x

def afterRecord : Stage → Except QueueError IdempotencyRecord → Stage
  | marked _, .ok _ | marked _, .error (.mongo (.duplicateKey _) _) => finished
  | marked e, .error _ => holding e .thrown
  | x, _ => x

def afterRereading : Stage → Option IngestEvent → Stage
  | holding _ .thrown, some e => holding e .caught
  | holding _ .thrown, none => finished
  | x, _ => x

def next (x : Stage) : (c : Cmd) → c.Reply → Stage
  | .findEligible .., _ => x.afterPoll
  | .claim _, r => x.afterClaim r
  | .findRecord .., r => x.afterLookup r.isSome
  | .invoke .., _ => x.afterInvocation
  | .respond .., r => x.afterResponse r
  | .updateEvent .., _ => x.afterUpdate
  | .createDLQ _, r => x.afterBurial r
  | .createRecord _, r => x.afterRecord r
  | .findById _, r => x.afterRereading r
  | _, _ => x

end Stage

/-- The update by which a call gives up the event. -/
def Phase.Allows (u : IngestEventUpdate) : Phase → Prop
  | known | succeeded => u.status = .processed
  | failing | caught => u.status = .queued ∧ u.nextAttemptAt.isSome = true
  | buried => u.status = .dlq
  | _ => False

/-- When a call may store the event as a dead letter. -/
def Phase.Buries (e : IngestEvent) : Phase → Prop
  | failing | caught => True
  | claimed => e.eventId = ""
  | _ => False

/-- The dead letter is the event's. -/
def DLQEvent.Of (d : DLQEvent) (e : IngestEvent) : Prop :=
  ∃ errorCode errorMessage t t', d = deadLetter e errorCode errorMessage t t'

/-- The commands by which `processEvent` may go on with the event `id`. -/
def Stage.MayWork (id : String) (x : Stage) : Cmd → Prop
  | .now => True
  | .claim i => x = .waiting ∧ i = id
  | .findRecord key eventScope => ∃ e, x = .holding e .claimed ∧ key = e.eventId ∧ eventScope = ingestScope
  | .invoke _ context => ∃ e, x = .holding e .checked ∧ context = contextOf e
  | .respond _ context => ∃ e, x = .holding e .handling ∧ context = contextOf e
  | .updateEvent i u => i = id ∧ ∃ e phase, x = .holding e phase ∧ phase.Allows u
  | .createDLQ d => ∃ e phase, x = .holding e phase ∧ phase.Buries e ∧ d.Of e
  | .createRecord r => ∃ e t, x = .marked e ∧ r = processedRecord e.eventId t
  | .findById i => i = id ∧ ∃ e, x = .holding e .thrown
  | _ => False

/-- The commands of the other calls; only a replay queues an event again. -/
def Call.MayFeed (call : Call) : Cmd → Prop
  | .now => True
  | .findEligible .. => call.isPoll = true
  | .createEvent e => e.origin = e
  | .updateEvent _ u => call.isReplay = true ∧ ∃ now, u = ReplayController.requeue now
  | .findDLQ .. | .findRecord .. | .findByEventId _ | .objectId => True
  | _ => False

def Call.may : Call → Stage → Cmd → Prop
  | .process _ _ id, x, c => x.MayWork id c
  | call, x, c => x = .waiting ∧ call.MayFeed c

/-- A poll that returns has found its batch, and a call of `processEvent` that returns is
done with its event. -/
def Call.ends : Call → Stage → Except QueueError Unit → Prop
  | .poll _, x, _ => x = .finished
  | .process .., x, .ok _ => x = .finished
  | .process .., x, .error _ => ∃ e, x = .abandoned e
  | _, x, _ => x = .waiting

def working : Contract Queue Call Unit QueueError Stage where
  start := fun _ => .waiting
  next := fun _ => Stage.next
  may := Call.may
  ends := Call.ends
  resumes := fun call call' x => call' = call ∧ x = .waiting

/-- A call leaves the count of attempts alone, and retries no event that has had them all. -/
def Stage.MayRetry (worker : IngestWorker) : Stage → Cmd → Prop
  | holding e _, .updateEvent _ u =>
    u.attempts = none ∧ (u.status = .queued → e.attempts < worker.config.maxRetryAttempts)
  | _, _ => True

def Call.MayRetry (workers : ℕ → IngestWorker) : Call → Stage → Cmd → Prop
  | .process w _ _, x, c => x.MayRetry (workers w) c
  | _, _, _ => True

/-- The protocol, with what it says of retries. -/
def retrying (workers : ℕ → IngestWorker) : Contract Queue Call Unit QueueError Stage :=
  { working with may := fun call x c => call.may x c ∧ call.MayRetry workers x c }

end stages

/-- What a claim that succeeds has found. -/
theorem claim_some {db : Db} {id : String} {e : IngestEvent} (h : (db.claim id).1 = some e) :
    ∃ e₀, db.events.find id = some e₀ ∧ e₀.claimed = e := by
  unfold Db.claim at h
  split at h
  · rename_i e₀ hfind
    split at h
    · exact ⟨e₀, hfind, Option.some.inj h⟩
    · cases h
  · cases h

section rules
variable {workers : ℕ → IngestWorker} {w poll : ℕ} {id : String} {e : IngestEvent} {phase : Phase}

/-- The program keeps to the protocol of `processEvent`. -/
private abbrev Works (workers : ℕ → IngestWorker) (w poll : ℕ) (id : String)
    (ends : Stage → Except QueueError Unit → Prop) (x : Stage) (p : Job Unit) : Prop :=
  Prog.Obeys ((retrying workers).rules (queue workers) (.process w poll id)) ends x p

/-- The program finishes with the event, or throws at the given stage. -/
private def Closes (y : Stage) : Stage → Except QueueError Unit → Prop
  | x, .ok _ => x = .finished
  | x, .error _ => x = y

/-- A call may look at the clock at any time. -/
private theorem works_now {ends : Stage → Except QueueError Unit → Prop} {x : Stage} {k : Time → Job Unit}
    (h : ∀ t, Works workers w poll id ends x (k t)) : Works workers w poll id ends x (.call .now k) :=
  ⟨⟨trivial, by cases x <;> trivial⟩, fun t _ => h t⟩

private theorem works_moveToDLQ {errorCode errorMessage : String} (hid : e.id = id) (hphase : phase.Buries e) :
    Works workers w poll id (Closes (if phase = .caught then .abandoned e else .holding e .thrown))
      (.holding e phase) (moveToDLQ e errorCode errorMessage) := by
  refine works_now fun t => works_now fun t' => ?_
  refine ⟨⟨⟨e, phase, rfl, hphase, errorCode, errorMessage, t, t', rfl⟩, trivial⟩, fun r _ => ?_⟩
  cases r with
  | ok d =>
    have hburied : (Stage.holding e phase).afterBurial (.ok d) = .holding e .buried := by
      cases phase <;> rfl
    refine works_now fun t'' => ⟨⟨⟨hid, e, .buried, hburied, rfl⟩, ?_⟩, fun _ _ => ?_⟩
    · show ((Stage.holding e phase).afterBurial (.ok d)).MayRetry (workers w) (.updateEvent e.id _)
      rw [hburied]
      exact ⟨rfl, fun hqueued => IngestEventStatus.noConfusion hqueued⟩
    · exact congrArg Stage.afterUpdate hburied
  | error error => cases phase <;> rfl

private theorem works_storeIdempotency :
    Works workers w poll id (Closes (.holding e .thrown)) (.marked e) (storeIdempotency e.eventId) := by
  refine works_now fun t => ⟨⟨⟨e, t, rfl, rfl⟩, trivial⟩, fun r _ => ?_⟩
  match r with
  | .ok _ => exact rfl
  | .error (.mongo (.duplicateKey _) _) => exact rfl
  | .error (.mongo (.validation _) _) => exact rfl
  | .error (.mongo (.unavailable _) _) => exact rfl
  | .error (.thrown _) => exact rfl

private theorem works_handleProcessingResult {response : ProcessingResponse}
    (hid : e.id = id) (hsuccess : response.result = .success → phase = .succeeded)
    (hfailure : response.result ≠ .success → phase = .failing ∨ phase = .caught) :
    Works workers w poll id (Closes (if phase = .caught then .abandoned e else .holding e .thrown))
      (.holding e phase) ((workers w).handleProcessingResult e response) := by
  have hburies : response.result ≠ .success → phase.Buries e := by
    intro hresult
    rcases hfailure hresult with rfl | rfl <;> trivial
  unfold handleProcessingResult
  cases hresult : response.result with
  | success =>
    obtain rfl := hsuccess hresult
    exact ⟨⟨⟨hid, e, .succeeded, rfl, rfl⟩, rfl, fun hqueued => IngestEventStatus.noConfusion hqueued⟩,
      fun _ _ => works_storeIdempotency⟩
  | retryableFailure =>
    have hnot : response.result ≠ .success := by simp [hresult]
    dsimp only
    by_cases hmax : (workers w).config.maxRetryAttempts ≤ e.attempts
    · rw [if_pos hmax]
      exact works_moveToDLQ hid (hburies hnot)
    · rw [if_neg hmax]
      refine works_now fun now => works_now fun t => ⟨⟨⟨hid, e, phase, rfl, ?_⟩, rfl, fun _ => ?_⟩, fun _ _ => ?_⟩
      · rcases hfailure hnot with rfl | rfl <;> exact ⟨rfl, rfl⟩
      · omega
      · rcases hfailure hnot with rfl | rfl <;> rfl
  | nonRetryableFailure => exact works_moveToDLQ hid (hburies (by simp [hresult]))

private theorem works_attempt (hid : e.id = id) :
    Works workers w poll id (Closes (.holding e .thrown)) (.holding e .claimed) ((workers w).attempt e) := by
  unfold attempt
  split
  · rename_i hempty
    exact works_moveToDLQ hid hempty
  · refine ⟨⟨⟨e, rfl, rfl, rfl⟩, trivial⟩, fun record _ => ?_⟩
    cases record with
    | some record =>
      exact ⟨⟨⟨hid, e, .known, rfl, rfl⟩, rfl, fun hqueued => IngestEventStatus.noConfusion hqueued⟩, fun _ _ => rfl⟩
    | none =>
      refine ⟨⟨⟨e, rfl, rfl⟩, trivial⟩, fun _ _ => ⟨⟨⟨e, rfl, rfl⟩, trivial⟩, fun r _ => ?_⟩⟩
      cases r with
      | error error => exact rfl
      | ok response =>
        show Works workers w poll id _ (.holding e (if response.result = .success then .succeeded else .failing)) _
        by_cases hresult : response.result = .success
        · rw [if_pos hresult]
          exact works_handleProcessingResult hid (fun _ => rfl) (absurd hresult)
        · rw [if_neg hresult]
          exact works_handleProcessingResult hid (fun h => absurd h hresult) (fun _ => .inl rfl)

private theorem works_recover {error : QueueError} :
    Works workers w poll id (Call.process w poll id).ends (.holding e .thrown) ((workers w).recover id error) := by
  refine ⟨⟨⟨rfl, e, rfl⟩, trivial⟩, fun found hfound => ?_⟩
  cases found with
  | none => exact rfl
  | some e' =>
    obtain ⟨o, d, hexec⟩ := hfound
    have hid : e'.id = id := Collection.key_of_find hexec
    show Works workers w poll id (Call.process w poll id).ends (.holding e' .caught)
      ((workers w).handleProcessingResult e' ⟨.retryableFailure, some "PROCESSING_ERROR", some error.message⟩)
    have hcaught : Phase.caught = .failing ∨ Phase.caught = .caught := .inr rfl
    refine (works_handleProcessingResult hid ?_ fun _ => hcaught).imp ?_
    · exact fun h => ProcessingResult.noConfusion h
    · rintro x (error | _) hclosed
      · exact ⟨e', hclosed⟩
      · exact hclosed

private theorem works_processEvent :
    Works workers w poll id (Call.process w poll id).ends .waiting ((workers w).processEvent id) := by
  refine (Prog.obeys_catching _ _ _).mpr ⟨⟨⟨rfl, rfl⟩, trivial⟩, fun claimed hclaimed => ?_⟩
  cases claimed with
  | none => exact rfl
  | some e =>
    have hid : e.id = id := by
      obtain ⟨o, db, hexec⟩ := hclaimed
      obtain ⟨e₀, hfind, rfl⟩ := claim_some hexec
      exact (Collection.key_of_find hfind : e₀.id = id)
    apply (works_attempt hid).imp
    rintro x (error | _) hclosed
    · rw [show x = .holding e .thrown from hclosed]
      exact works_recover
    · exact hclosed

/-- The program issues only such commands as feed the queue. -/
private abbrev Feeds (workers : ℕ → IngestWorker) (call : Call) {α : Type} (p : Job α) : Prop :=
  Prog.Obeys ((retrying workers).rules (queue workers) call) (fun x _ => x = .waiting) .waiting p

private theorem feeds_bind {call : Call} {α β : Type} {p : Job α} {f : α → Job β} (hp : Feeds workers call p)
    (hf : ∀ a, Feeds workers call (f a)) : Feeds workers call (p >>= f) := by
  refine (Prog.obeys_bind p f _).mpr (hp.imp ?_)
  rintro x (error | a) rfl
  · exact rfl
  · exact hf a

private theorem feeds_answered {call : Call} {α : Type} (r : Except QueueError α) :
    Feeds workers call (answered r) := by cases r <;> exact rfl

private theorem feeds_replayEvent {options : ReplayOptions} (d : DLQEvent) (result : ReplayResult) :
    Feeds workers (.replay options) (ReplayController.replayEvent d result) := by
  refine ⟨⟨⟨rfl, trivial⟩, trivial⟩, fun record _ => ?_⟩
  cases record with
  | some record => exact rfl
  | none =>
    refine ⟨⟨⟨rfl, trivial⟩, trivial⟩, fun found _ => ?_⟩
    cases found with
    | some existingEvent =>
      exact ⟨⟨⟨rfl, trivial⟩, trivial⟩, fun now _ => ⟨⟨⟨rfl, rfl, now, rfl⟩, trivial⟩, fun _ _ => rfl⟩⟩
    | none =>
      refine ⟨⟨⟨rfl, trivial⟩, trivial⟩, fun objectId _ => ⟨⟨⟨rfl, trivial⟩, trivial⟩, fun now _ => ?_⟩⟩
      exact ⟨⟨⟨rfl, rfl⟩, trivial⟩, fun r _ => feeds_bind (feeds_answered r) fun _ => rfl⟩

private theorem feeds_replayEach {options : ReplayOptions} (ds : List DLQEvent) (result : ReplayResult) :
    Feeds workers (.replay options) (ReplayController.replayEach ds result) := by
  induction ds generalizing result with
  | nil => exact rfl
  | cons d ds ih =>
    refine feeds_bind ((Prog.obeys_catching _ _ _).mpr ((feeds_replayEvent d result).imp ?_)) fun result => ih result
    rintro x (error | result) rfl
    · exact rfl
    · exact rfl

end rules

/-- Every call keeps to the protocol, retries included. -/
theorem retrying_kept (workers : ℕ → IngestWorker) : (retrying workers).Kept (queue workers) where
  starts := fun _ => ⟨rfl, rfl⟩
  body := by
    rintro call call' x ⟨rfl, rfl⟩
    cases call' with
    | poll w =>
      exact ⟨⟨⟨rfl, trivial⟩, trivial⟩, fun now _ => ⟨⟨⟨rfl, rfl⟩, trivial⟩, fun _ _ => rfl⟩⟩
    | process w poll id =>
      refine (Prog.obeys_bind _ _ _).mpr (works_processEvent.imp ?_)
      rintro y (error | _) hends
      · exact hends
      · exact hends
    | replay options =>
      apply (Prog.obeys_bind _ _ _).mpr
      have hreplay : Feeds workers (.replay options) (ReplayController.replay options) :=
        ⟨⟨⟨rfl, trivial⟩, trivial⟩, fun ds _ => feeds_replayEach ds {}⟩
      apply hreplay.imp
      rintro y (error | _) hends
      · exact hends
      · exact hends
    | post event =>
      refine ⟨⟨⟨rfl, trivial⟩, trivial⟩, fun objectId _ => ⟨⟨⟨rfl, trivial⟩, trivial⟩, fun now _ => ?_⟩⟩
      refine ⟨⟨⟨rfl, rfl⟩, trivial⟩, fun r _ => ?_⟩
      cases r <;> exact rfl
    | crash w => exact rfl

theorem working_kept (workers : ℕ → IngestWorker) : working.Kept (queue workers) :=
  (retrying_kept workers).loosen fun _ _ _ hmay => hmay.1

end RedRoomRewards.Ingest
