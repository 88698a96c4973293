import RedRoomRewards.Events.Bus
import Mathlib.Algebra.Order.Group.Int

/-! Deduplication on the event bus: which events are dispatched, over any publications and
cleanup ticks in the order of the clock. -/
namespace RedRoomRewards
open Store

namespace EventBus

/-- What a publication comes to. -/
def occasion (event : RewardEvent) (now : Time) : Option (List EventSubscription) → Occasion RewardEvent Time
  | some _ => .admitted event now
  | none => .refused event now

/-- A bus from its creation on: publications, cleanup ticks and subscriptions, newest first. -/
inductive Run (config : EventBusConfig) : List (Occasion RewardEvent Time) → EventBus → Prop
  | start : Run config [] .empty
  | publish {log bus} (handlers : Handlers) (event : RewardEvent) (now : Time) (h : Run config log bus)
      (hclock : ∀ x ∈ log, x.time ≤ now) :
      Run config (occasion event now (bus.publish config handlers event now).2.1 :: log)
        (bus.publish config handlers event now).2.2
  | cleanup {log bus} (now : Time) (h : Run config log bus) (hclock : ∀ x ∈ log, x.time ≤ now) :
      Run config (.ticked now :: log) (bus.cleanup config now)
  | subscribe {log bus} (subscription : EventSubscription) (h : Run config log bus) :
      Run config log (bus.subscribe subscription)
  | unsubscribe {log bus} (subscriberId : String) (h : Run config log bus) :
      Run config log (bus.unsubscribe subscriberId)

end EventBus

/-- The latest tick of a log whose newest occasion comes first. -/
def latestTick (log : List (Occasion RewardEvent Time)) : Option Time := log.findSome? Occasion.tick

/-- The events have the same identifier, or the same idempotency key that is not empty. -/
def RewardEvent.SharesKey (e e' : RewardEvent) : Prop :=
  e.eventId = e'.eventId ∨ e.idempotencyKey ≠ "" ∧ e.idempotencyKey = e'.idempotencyKey

section keys
open EventBus

private theorem eventId_ne_idem (eventId key : String) : "eventId:" ++ eventId ≠ "idem:" ++ key := by
  intro h
  have hchars := congrArg String.toList h
  simp at hchars

/-- The prefixes keep the two kinds of keys apart. -/
theorem shared_key_iff (e e' : RewardEvent) :
    (∃ k ∈ dedupeKeys e, k ∈ dedupeKeys e') ↔ e.SharesKey e' := by
  have hmem : ∀ (e : RewardEvent) (k : String), k ∈ dedupeKeys e ↔
      k = "eventId:" ++ e.eventId ∨ e.idempotencyKey ≠ "" ∧ k = "idem:" ++ e.idempotencyKey := by
    intro e k
    unfold dedupeKeys
    split <;> simp [*]
  constructor
  · rintro ⟨k, hk, hk'⟩
    rcases (hmem e k).mp hk with rfl | ⟨hne, rfl⟩ <;> rcases (hmem e' _).mp hk' with heq | ⟨-, heq⟩
    · exact .inl ((String.append_right_inj _).mp heq)
    · exact absurd heq (eventId_ne_idem _ _)
    · exact absurd heq.symm (eventId_ne_idem _ _)
    · exact .inr ⟨hne, (String.append_right_inj _).mp heq⟩
  · rintro (heq | ⟨hne, heq⟩)
    · exact ⟨_, (hmem e _).mpr (.inl rfl), (hmem e' _).mpr (.inl (by rw [heq]))⟩
    · exact ⟨_, (hmem e _).mpr (.inr ⟨hne, rfl⟩), (hmem e' _).mpr (.inr ⟨heq ▸ hne, by rw [heq]⟩)⟩

end keys

section runs
open EventBus
variable {config : EventBusConfig} {log : List (Occasion RewardEvent Time)} {bus : EventBus}

private theorem isDuplicate_iff (bus : EventBus) (event : RewardEvent) :
    bus.isDuplicate event = true ↔ ∃ k ∈ dedupeKeys event, k ∈ bus.processedEvents := by
  simp [isDuplicate]

private theorem publish_duplicate (henabled : config.enableDeduplication = true) (handlers : Handlers)
    {event : RewardEvent} (hduplicate : bus.isDuplicate event = true) (now : Time) :
    bus.publish config handlers event now = (⟨event.eventId, true, 0, []⟩, none, bus) := by
  rw [EventBus.publish, henabled, hduplicate, Bool.and_self, if_pos rfl]

private theorem publish_new (henabled : config.enableDeduplication = true) (handlers : Handlers)
    {event : RewardEvent} (hnew : bus.isDuplicate event = false) (now : Time) :
    bus.publish config handlers event now = (resultOf config handlers event (bus.subscriptions event.eventType),
      some (bus.subscriptions event.eventType), bus.markProcessed event now) := by
  rw [EventBus.publish, henabled, hnew]
  rfl

/-- A bus remembers the keys of the events that it has dispatched. -/
theorem EventBus.Run.remembers (henabled : config.enableDeduplication = true) (h : EventBus.Run config log bus) :
    Remembers dedupeKeys (config.deduplicationTtlMs : Time) log bus.processedEvents := by
  induction h with
  | start => exact .start
  | @publish log bus handlers event now _ hclock ih =>
    by_cases hduplicate : bus.isDuplicate event = true
    · rw [publish_duplicate henabled handlers hduplicate]
      exact ih.refuse hclock ((isDuplicate_iff bus event).mp hduplicate)
    · rw [publish_new henabled handlers (Bool.not_eq_true _ ▸ hduplicate)]
      refine ih.taken hclock fun k hk hseen => hduplicate ((isDuplicate_iff bus event).mpr ⟨k, hk, hseen⟩)
  | cleanup now _ hclock ih => exact ih.tick hclock
  | subscribe _ _ ih => exact ih
  | unsubscribe _ _ ih => exact ih

/-- Two events that are dispatched and share a key are dispatched more than the TTL apart;
an event is dropped only if it shares a key with one that was dispatched no earlier than
the TTL before the latest tick. -/
theorem deduplication_exact (henabled : config.enableDeduplication = true) (h : EventBus.Run config log bus) :
    (∀ newer e' (t' : Time) older, log = newer ++ .admitted e' t' :: older →
      ∀ e (t : Time), .admitted e t ∈ older → e.SharesKey e' → config.deduplicationTtlMs < t' - t) ∧
    ∀ newer e' (t' : Time) older, log = newer ++ .refused e' t' :: older →
      ∃ e, ∃ t : Time, .admitted e t ∈ older ∧ e.SharesKey e' ∧
        ∀ c ∈ latestTick older, c - config.deduplicationTtlMs ≤ t := by
  have hremembers := h.remembers henabled
  constructor
  · rintro newer e' t' older rfl e t he hshares
    obtain ⟨k, hk, hk'⟩ := (shared_key_iff e e').mpr hshares
    exact hremembers.apart he hk hk'
  · rintro newer e' t' older rfl
    obtain ⟨_, hrefused⟩ := hremembers.of_suffix
    obtain ⟨e, t, he, hshared, hrecent⟩ := hrefused.admitted_of_refused (Int.natCast_nonneg _)
    refine ⟨e, t, he, (shared_key_iff e e').mp hshared, fun c hc => ?_⟩
    obtain ⟨x, hx, htick⟩ := List.exists_of_findSome?_eq_some hc
    cases x with
    | ticked c' =>
      obtain rfl : c' = c := Option.some.inj htick
      exact sub_le_comm.mp (hrecent c' hx)
    | admitted _ _ | refused _ _ => cases htick

end runs

section scenario
open EventBus

def shortMemory : EventBusConfig := { deduplicationTtlMs := 5 }

def silent : Handlers := fun _ _ _ => .ok ()

def entryEvent (eventId idempotencyKey : String) : RewardEvent := ⟨eventId, idempotencyKey, 0, .ledgerEntryCreated⟩

/-- An event is published again after a tick has forgotten it, and then another event with
its idempotency key, which is dropped. -/
theorem deduplication_exact_forgotten : ∃ log bus, EventBus.Run shortMemory log bus ∧
    log = [.refused (entryEvent "event-2" "key-1") 22, .admitted (entryEvent "event-1" "key-1") 21,
      .ticked 20, .admitted (entryEvent "event-1" "key-1") 10] ∧
    (shortMemory.deduplicationTtlMs : Time) < 21 - 10 ∧
    ∃ e, ∃ t : Time, .admitted e t ∈ log ∧ e.SharesKey (entryEvent "event-2" "key-1") := by
  have hfirst : EventBus.Run shortMemory [.admitted (entryEvent "event-1" "key-1") 10] _ :=
    EventBus.Run.start.publish silent (entryEvent "event-1" "key-1") 10 (by simp)
  have hticked : EventBus.Run shortMemory [.ticked 20, .admitted (entryEvent "event-1" "key-1") 10] _ :=
    hfirst.cleanup 20 (by simp [Occasion.time])
  have hagain : EventBus.Run shortMemory [.admitted (entryEvent "event-1" "key-1") 21, .ticked 20,
      .admitted (entryEvent "event-1" "key-1") 10] _ :=
    hticked.publish silent (entryEvent "event-1" "key-1") 21 (by simp [Occasion.time])
  have hrun : EventBus.Run shortMemory [.refused (entryEvent "event-2" "key-1") 22,
      .admitted (entryEvent "event-1" "key-1") 21, .ticked 20, .admitted (entryEvent "event-1" "key-1") 10] _ :=
    hagain.publish silent (entryEvent "event-2" "key-1") 22 (by simp [Occasion.time])
  obtain ⟨hapart, hdropped⟩ := deduplication_exact rfl hrun
  refine ⟨_, _, hrun, rfl, ?_, ?_⟩
  · exact hapart [_] _ _ _ rfl _ _ (.tail _ (.head _)) (.inl rfl)
  · obtain ⟨e, t, he, hshares, -⟩ := hdropped [] _ _ _ rfl
    exact ⟨e, t, .tail _ he, hshares⟩

end scenario
end RedRoomRewards
