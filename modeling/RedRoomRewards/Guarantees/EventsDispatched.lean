import RedRoomRewards.Alone.Events
import RedRoomRewards.Guarantees.Deduplication
import RedRoomRewards.Guarantees.EscrowProjection

/-! Which wallet events the bus dispatches. A wallet call is scoped by its key and its
operation, the memory of the bus by the key alone. -/
namespace RedRoomRewards
open Process Store

/-- Escrow calls made one after the other that all return, newest first, and the store
they lead to; the bus takes every event. -/
inductive EscrowCalls (config : Config) (d₀ : Db) : List Call → Db → Prop
  | start : EscrowCalls config d₀ [] d₀
  | call {calls d} {call : Call} {os : ℕ → Oracle} (h : EscrowCalls config d₀ calls d)
      (hescrow : call.isEscrowRequest = true) (hbus : ∀ n, (os n).busFault = none)
      (hreturns : ((call.body config).solo exec os d).1.isOk = true) :
      EscrowCalls config d₀ (call :: calls) ((call.body config).solo exec os d).2

section published
variable {config : Config} {d₀ d : Db} {calls : List Call}

/-- A call that returns has published one event, under its own key. -/
private theorem published_of_call {call : Call} {os : ℕ → Oracle} (hescrow : call.isEscrowRequest = true)
    (hbus : ∀ n, (os n).busFault = none) (hreturns : ((call.body config).solo exec os d).1.isOk = true) :
    ∃ e, ((call.body config).solo exec os d).2.published = e :: d.published ∧
      e.event.idempotencyKey = call.escrowKey := by
  have hcall : Alone (fun o => o.busFault = none) (Announces (call.About d) (call.Backed d) d) (call.body config) d :=
    alone_escrow_event (fun _ h => h) hescrow
  have hannounces := hcall.solo hbus
  cases hresult : ((call.body config).solo exec os d).1 with
  | error e =>
    rw [hresult] at hreturns
    cases hreturns
  | ok a =>
    rw [hresult] at hannounces
    obtain ⟨eventId, timestamp, event, hpublished, habout, -⟩ := hannounces
    exact ⟨_, hpublished, habout.key⟩

theorem EscrowCalls.keys (h : EscrowCalls config d₀ calls d) (hempty : d₀.published = []) :
    d.published.map (·.event.idempotencyKey) = calls.map Call.escrowKey := by
  induction h with
  | start => rw [hempty]; rfl
  | call _ hescrow hbus hreturns ih =>
    obtain ⟨e, hpublished, hkey⟩ := published_of_call hescrow hbus hreturns
    rw [hpublished, List.map_cons, hkey, ih, List.map_cons]

end published

section dispatch
variable {busConfig : EventBusConfig} {log : List (Occasion RewardEvent Time)} {bus : EventBus}

/-- Between two publications with the same key, a tick comes more than the TTL after the first. -/
def KeysSpaced (busConfig : EventBusConfig) (log : List (Occasion RewardEvent Time)) : Prop :=
  ∀ newer x older, log = newer ++ x :: older → ∀ e' ∈ x.offer, ∀ y ∈ older, ∀ e ∈ y.offer,
    e.idempotencyKey ≠ "" → e.idempotencyKey = e'.idempotencyKey →
      ∃ c : Time, .ticked c ∈ older ∧ busConfig.deduplicationTtlMs < c - y.time

/-- Without deduplication every event is dispatched. -/
private theorem none_refused (hdisabled : busConfig.enableDeduplication = false) (h : EventBus.Run busConfig log bus)
    (e : RewardEvent) (t : Time) : .refused e t ∉ log := by
  induction h with
  | start => rintro ⟨⟩
  | publish handlers event now _ _ ih =>
    rw [EventBus.publish, hdisabled, Bool.false_and]
    exact fun hmem => ih ((List.mem_cons.mp hmem).resolve_left (by rintro ⟨⟩))
  | cleanup now _ _ ih => exact fun hmem => ih ((List.mem_cons.mp hmem).resolve_left (by rintro ⟨⟩))
  | subscribe _ _ ih => exact ih
  | unsubscribe _ _ ih => exact ih

/-- Of events with different identifiers all are dispatched exactly if the keys are spaced. -/
theorem none_refused_iff (henabled : busConfig.enableDeduplication = true) (h : EventBus.Run busConfig log bus)
    (hids : ((log.filterMap Occasion.offer).map RewardEvent.eventId).Nodup) :
    (∀ e t, .refused e t ∉ log) ↔ KeysSpaced busConfig log := by
  rw [(h.remembers henabled).all_admitted_iff (Int.natCast_nonneg _)]
  constructor
  · intro hall newer x older hlog e' he' y hy e he hne hkey
    exact hall newer x older hlog e' he' y hy e he ((shared_key_iff e e').mpr (.inr ⟨hne, hkey⟩))
  · rintro hspaced newer x older rfl e' he' y hy e he hshared
    rcases (shared_key_iff e e').mp hshared with hid | ⟨hne, hkey⟩
    · rw [List.filterMap_append, List.filterMap_cons_some he', List.map_append, List.map_cons] at hids
      have hmem : e ∈ older.filterMap Occasion.offer := List.mem_filterMap.mpr ⟨y, hy, he⟩
      exact absurd (hid ▸ List.mem_map_of_mem hmem) (List.nodup_cons.mp hids.of_append_right).1
    · exact hspaced newer x older rfl e' he' y hy e he hne hkey

/-- Different keys need no ticks between them. -/
theorem keysSpaced_of_nodup (h : ((log.filterMap Occasion.offer).map RewardEvent.idempotencyKey).Nodup) :
    KeysSpaced busConfig log := by
  rintro newer x older rfl e' he' y hy e he - hkey
  rw [List.filterMap_append, List.filterMap_cons_some he', List.map_append, List.map_cons] at h
  have hmem : e ∈ older.filterMap Occasion.offer := List.mem_filterMap.mpr ⟨y, hy, he⟩
  exact absurd (hkey ▸ List.mem_map_of_mem hmem) (List.nodup_cons.mp h.of_append_right).1

variable {config : Config} {d₀ d : Db} {calls : List Call}

/-- Every call that returns publishes one event under its key, and all of them are dispatched
exactly if deduplication is off or no two calls share a key that the bus has not forgotten in
between. Amounts are exact and identifiers trimmed. -/
theorem events_dispatched_iff (hcalls : EscrowCalls config d₀ calls d) (hempty : d₀.published = [])
    (hids : (d.published.map PublishedEvent.eventId).Nodup) (hbus : EventBus.Run busConfig log bus)
    (hoffers : log.filterMap Occasion.offer = d.published.map PublishedEvent.rewardEvent) :
    (log.filterMap Occasion.offer).map RewardEvent.idempotencyKey = calls.map Call.escrowKey ∧
    ((∀ e t, .refused e t ∉ log) ↔
      (busConfig.enableDeduplication = true → KeysSpaced busConfig log)) := by
  constructor
  · rw [hoffers, List.map_map]
    exact hcalls.keys hempty
  · cases henabled : busConfig.enableDeduplication with
    | false => exact ⟨fun _ => nofun, fun _ => none_refused henabled hbus⟩
    | true =>
      have hdistinct : ((log.filterMap Occasion.offer).map RewardEvent.eventId).Nodup := by
        rw [hoffers, List.map_map]
        exact hids
      rw [none_refused_iff henabled hbus hdistinct]
      exact ⟨fun h _ => h, fun h => h rfl⟩

end dispatch

section scenario

/-- A new bus that is handed events at one time, newest first, and what they come to. -/
def EventBus.handed (config : EventBusConfig) (now : Time) (events : List RewardEvent) :
    List (Occasion RewardEvent Time) × EventBus :=
  events.foldr (fun event x =>
    (occasion event now (x.2.publish config silent event now).2.1 :: x.1, (x.2.publish config silent event now).2.2))
    ([], .empty)

private theorem time_handed (config : EventBusConfig) (now : Time) (events : List RewardEvent) :
    ∀ x ∈ (EventBus.handed config now events).1, x.time = now := by
  induction events with
  | nil => simp [EventBus.handed]
  | cons event older ih =>
    intro x hx
    rcases List.mem_cons.mp hx with rfl | hx
    · unfold EventBus.occasion
      split <;> rfl
    · exact ih x hx

private theorem run_handed (config : EventBusConfig) (now : Time) (events : List RewardEvent) :
    EventBus.Run config (EventBus.handed config now events).1 (EventBus.handed config now events).2 := by
  induction events with
  | nil => exact .start
  | cons event older ih => exact ih.publish silent event now fun x hx => (time_handed config now older x hx).le

private theorem offers_handed (config : EventBusConfig) (now : Time) (events : List RewardEvent) :
    (EventBus.handed config now events).1.filterMap Occasion.offer = events := by
  induction events with
  | nil => rfl
  | cons event older ih =>
    have hoffer : ∀ subscribers, (EventBus.occasion event now subscribers).offer = some event := fun subscribers => by
      cases subscribers <;> rfl
    rw [EventBus.handed, List.foldr_cons, ← EventBus.handed, List.filterMap_cons_some (hoffer _), ih]

/-- The settlement, under the key given, of the item that `sampleHold` creates. -/
def settleHoldAs (idempotencyKey : String) : Call :=
  .settle { sampleSettle with escrowId := "id-4", amount := 30, queueItemId := "queue-1", idempotencyKey }
    sampleAuthorization

/-- A hold, and the settlement of its item. -/
def heldAndSettled (idempotencyKey : String) : Db :=
  (fundedDb.afterCall (.hold sampleHold) tick).afterCall (settleHoldAs idempotencyKey) (later 100)

private theorem calls_heldAndSettled {idempotencyKey : String}
    (hreturns : (((settleHoldAs idempotencyKey).body (defaultConfig fun _ => none)).solo exec (later 100)
      (fundedDb.afterCall (.hold sampleHold) tick)).1.isOk = true) :
    EscrowCalls (defaultConfig fun _ => none) fundedDb [settleHoldAs idempotencyKey, .hold sampleHold]
      (heldAndSettled idempotencyKey) :=
  (EscrowCalls.start.call rfl (fun _ => rfl) (by decide +kernel)).call rfl (fun _ => rfl) hreturns

/-- What becomes of the events of `heldAndSettled` on a new bus with the default settings. -/
def heldAndSettledLog (idempotencyKey : String) : List (Occasion RewardEvent Time) :=
  (EventBus.handed {} 200 ((heldAndSettled idempotencyKey).published.map PublishedEvent.rewardEvent)).1

/-- Under keys of their own, both events are dispatched. -/
theorem events_dispatched_own_keys :
    (heldAndSettledLog "settle-1").length = 2 ∧ ∀ e t, .refused e t ∉ heldAndSettledLog "settle-1" := by
  have hcalls : EscrowCalls (defaultConfig fun _ => none) fundedDb [settleHoldAs "settle-1", .hold sampleHold]
      (heldAndSettled "settle-1") := calls_heldAndSettled (by decide +kernel)
  have hevents : ((heldAndSettled "settle-1").published.map PublishedEvent.eventId).Nodup ∧
      (heldAndSettledLog "settle-1").length = 2 := by decide +kernel
  obtain ⟨hkeys, hdispatched⟩ := events_dispatched_iff hcalls rfl hevents.1 (run_handed {} 200 _)
    (offers_handed {} 200 _)
  refine ⟨hevents.2, hdispatched.mpr fun _ => keysSpaced_of_nodup ?_⟩
  rw [hkeys]
  decide

/-- A settlement with the key of the hold returns, and its event is dropped. -/
theorem event_dropped_shared_key : ∃ calls d log bus,
    EscrowCalls (defaultConfig fun _ => none) fundedDb calls d ∧ calls.map Call.escrowKey = ["hold-1", "hold-1"] ∧
      EventBus.Run {} log bus ∧ log.filterMap Occasion.offer = d.published.map PublishedEvent.rewardEvent ∧
      (d.published.map PublishedEvent.eventId).Nodup ∧ ∃ e t, .refused e t ∈ log := by
  have hevents : ((heldAndSettled "hold-1").published.map PublishedEvent.eventId).Nodup ∧
      (heldAndSettledLog "hold-1").any fun
        | .refused .. => true
        | _ => false := by decide +kernel
  obtain ⟨x, hx, hrefused⟩ := List.any_eq_true.mp hevents.2
  cases x with
  | refused e t =>
    exact ⟨_, _, _, _, calls_heldAndSettled (by decide +kernel), rfl, run_handed {} 200 _, offers_handed {} 200 _,
      hevents.1, e, t, hx⟩
  | admitted _ _ | ticked _ => cases hrefused

end scenario
end RedRoomRewards
