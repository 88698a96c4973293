import RedRoomRewards.Ingest.Events

/-! A replay as a protocol: which dead letters it has selected, and how far it has come
with the one it is at. -/
namespace RedRoomRewards.Ingest
open Process Store

/-- How far a replay has come. -/
inductive Replaying where
  | opening
  /-- The dead letters are read, and none of them is being replayed. -/
  | selected (ds : List DLQEvent)
  /-- The event had no idempotency record when it was looked up. -/
  | unprocessed (ds : List DLQEvent) (eventId : String)
  /-- The event is in the queue. -/
  | found (ds : List DLQEvent) (e : IngestEvent)
  /-- The event is not in the queue. -/
  | missing (ds : List DLQEvent) (eventId : String)

namespace Replaying

def afterReading : Replaying → String → Option IngestEvent → Replaying
  | unprocessed ds _, _, some e => found ds e
  | unprocessed ds _, eventId, none => missing ds eventId
  | x, _, _ => x

def afterLookup : Replaying → String → Option IdempotencyRecord → Replaying
  | selected ds, key, none => unprocessed ds key
  | x, _, _ => x

def afterUpdate : Replaying → Replaying
  | found ds _ => selected ds
  | x => x

def afterCreation : Replaying → Replaying
  | missing ds _ => selected ds
  | x => x

def next (x : Replaying) : (c : Cmd) → c.Reply → Replaying
  | .findDLQ .., ds => selected ds
  | .findRecord key _, r => x.afterLookup key r
  | .findByEventId eventId, r => x.afterReading eventId r
  | .updateEvent .., _ => x.afterUpdate
  | .createEvent _, _ => x.afterCreation
  | _, _ => x

/-- The commands by which a replay may go on. -/
def May (options : ReplayOptions) (x : Replaying) : Cmd → Prop
  | .now | .objectId => True
  | .findDLQ q _ => x = opening ∧ q = ReplayController.query options
  | .findRecord key eventScope => ∃ ds d, x = selected ds ∧ d ∈ ds ∧ key = d.eventId ∧ eventScope = ingestScope
  | .findByEventId eventId => ∃ ds, x = unprocessed ds eventId
  | .updateEvent id u => ∃ ds e now, x = found ds e ∧ id = e.id ∧ u = ReplayController.requeue now
  | .createEvent e => ∃ ds, x = missing ds e.eventId
  | _ => False

end Replaying

def replaying : Contract Queue Call Unit QueueError Replaying where
  start := fun _ => .opening
  next := fun _ => Replaying.next
  may := fun call x c => ∀ options, call = .replay options → x.May options c
  ends := fun _ _ _ => True
  resumes := fun call call' x => call' = call ∧ x = .opening

section rules
variable {workers : ℕ → IngestWorker} {options : ReplayOptions} {ds : List DLQEvent}

/-- The program keeps to the protocol, and is between two dead letters when it ends. -/
private abbrev Replays {α : Type} (workers : ℕ → IngestWorker) (options : ReplayOptions) (ds : List DLQEvent)
    (x : Replaying) (p : Job α) : Prop :=
  Prog.Obeys (replaying.rules (queue workers) (.replay options)) (fun y _ => y = .selected ds) x p

private theorem replays_call {α : Type} {x : Replaying} {c : Cmd} {k : c.Reply → Job α} (hmay : x.May options c)
    (hk : ∀ r, Replays workers options ds (x.next c r) (k r)) : Replays workers options ds x (.call c k) :=
  ⟨fun _ heq => Call.replay.inj heq ▸ hmay, fun r _ => hk r⟩

private theorem replays_bind {α β : Type} {x : Replaying} {p : Job α} {f : α → Job β}
    (hp : Replays workers options ds x p) (hf : ∀ a, Replays workers options ds (.selected ds) (f a)) :
    Replays workers options ds x (p >>= f) := by
  refine (Prog.obeys_bind p f _).mpr (hp.imp ?_)
  rintro y (error | a) rfl
  · exact rfl
  · exact hf a

private theorem replays_replayEvent {d : DLQEvent} (hd : d ∈ ds) (result : ReplayResult) :
    Replays workers options ds (.selected ds) (ReplayController.replayEvent d result) := by
  refine replays_call ⟨ds, d, rfl, hd, rfl, rfl⟩ fun record => ?_
  cases record with
  | some record => exact rfl
  | none =>
    refine replays_call ⟨ds, rfl⟩ fun existing => ?_
    cases existing with
    | some e =>
      exact replays_call trivial fun now => replays_call ⟨ds, e, now, rfl, rfl, rfl⟩ fun _ => rfl
    | none =>
      refine replays_call trivial fun id => replays_call trivial fun now => replays_call ⟨ds, rfl⟩ fun r => ?_
      cases r <;> exact rfl

private theorem replays_replayEach {rest : List DLQEvent} (hrest : ∀ d ∈ rest, d ∈ ds) (result : ReplayResult) :
    Replays workers options ds (.selected ds) (ReplayController.replayEach rest result) := by
  induction rest generalizing result with
  | nil => exact rfl
  | cons d rest ih =>
    refine replays_bind ((Prog.obeys_catching _ _ _).mpr ((replays_replayEvent (hrest d (.head _)) result).imp ?_))
      fun result => ih (fun d' hd' => hrest d' (.tail _ hd')) result
    rintro y (error | result) rfl
    · exact rfl
    · exact rfl

end rules

/-- Every replay keeps to the protocol. -/
theorem replaying_kept (workers : ℕ → IngestWorker) : replaying.Kept (queue workers) where
  starts := fun _ => ⟨rfl, rfl⟩
  body := by
    rintro call call' x ⟨rfl, rfl⟩
    cases call' with
    | replay options =>
      refine ⟨fun _ heq => Call.replay.inj heq ▸ ⟨rfl, rfl⟩, fun ds _ => ?_⟩
      have hreplays : Replays workers options ds (.selected ds) (ReplayController.replayEach ds {}) :=
        replays_replayEach (fun _ hd => hd) {}
      refine (Prog.obeys_bind _ _ _).mpr (hreplays.imp ?_)
      rintro y (error | result) -
      · trivial
      · trivial
    | crash w => trivial
    | _ =>
      -- the other calls have no part in it
      refine (Prog.obeys_bind _ _ _).mpr (Prog.obeys_stable (P := fun _ => True) _ trivial (fun _ _ _ _ => trivial) ?_ ?_)
      · exact fun _ _ _ _ heq => by cases heq
      · rintro y (error | a) -
        · trivial
        · trivial

end RedRoomRewards.Ingest
