import RedRoomRewards.Events.Publishing
import RedRoomRewards.Store.StableSort
import Mathlib.Data.List.Induction

/-! The order in which the handlers of an event are started, after any subscriptions and
removals. -/
namespace RedRoomRewards
open Store

/-- The priority a subscription asks for. -/
def EventSubscription.declaredPriority (s : EventSubscription) : ℚ := s.priority.getD 100

/-- What is asked of a bus. -/
inductive BusCall where
  | subscribe (subscription : EventSubscription)
  | unsubscribe (subscriberId : String)
  | publish (handlers : Handlers) (event : RewardEvent) (now : Time)
  | cleanup (now : Time)

/-- The subscriptions that have not been removed, in the order they were made. -/
def activeSubscriptions (calls : List BusCall) : List EventSubscription :=
  calls.foldl (fun active call => match call with
    | .subscribe s => active ++ [s]
    | .unsubscribe subscriberId => active.filter fun s => s.subscriberId ≠ subscriberId
    | _ => active) []

def matchingSubscriptions (calls : List BusCall) (eventType : WalletEventType) : List EventSubscription :=
  (activeSubscriptions calls).filter fun s => eventType ∈ s.eventTypes

namespace EventBus
variable (config : EventBusConfig)

def call (bus : EventBus) : BusCall → EventBus
  | .subscribe s => bus.subscribe s
  | .unsubscribe subscriberId => bus.unsubscribe subscriberId
  | .publish handlers event now => (bus.publish config handlers event now).2.2
  | .cleanup now => bus.cleanup config now

/-- A new bus after the given calls. -/
def after (calls : List BusCall) : EventBus := calls.foldl (call config) empty

/-- The subscriptions whose handlers a publication starts, in the order it starts them. -/
def startedFor (bus : EventBus) (handlers : Handlers) (event : RewardEvent) (now : Time) : List EventSubscription :=
  match (bus.publish config handlers event now).2.1 with
  | some subscribers => (Publication.start config subscribers).started
  | none => []

variable {config}

/-- A type that is not repeated gets the subscription once, in its place. -/
private theorem subscriptions_subscribe (bus : EventBus) {s : EventSubscription} (hdistinct : s.eventTypes.Nodup)
    (eventType : WalletEventType) :
    (bus.subscribe s).subscriptions eventType =
      if eventType ∈ s.eventTypes then
        (bus.subscriptions eventType ++ [s]).insertionSort fun a b => priorityOf a ≤ priorityOf b
      else bus.subscriptions eventType := by
  unfold subscribe
  dsimp only
  generalize bus.subscriptions = subscriptions
  generalize s.eventTypes = eventTypes at hdistinct
  induction eventTypes generalizing subscriptions with
  | nil => rfl
  | cons head eventTypes ih =>
    obtain ⟨hnot, hdistinct⟩ := List.nodup_cons.mp hdistinct
    rw [List.foldl_cons, ih _ hdistinct]
    by_cases hhead : eventType = head
    · subst hhead
      rw [if_neg hnot, if_pos List.mem_cons_self, Function.update_self]
    · rw [Function.update_of_ne hhead]
      simp only [List.mem_cons, hhead, false_or]

theorem subscriptions_publish (bus : EventBus) (handlers : Handlers) (event : RewardEvent) (now : Time) :
    (bus.publish config handlers event now).2.2.subscriptions = bus.subscriptions := by
  unfold publish
  split
  · rfl
  · dsimp only
    split <;> rfl

variable (config) in
/-- The subscribers of a type, sorted by the priority that the bus reads, are those that
match it. -/
theorem subscriptions_after {calls : List BusCall} (hdistinct : ∀ s, .subscribe s ∈ calls → s.eventTypes.Nodup)
    (eventType : WalletEventType) :
    StableSorted priorityOf ((after config calls).subscriptions eventType) (matchingSubscriptions calls eventType) := by
  induction calls using List.reverseRecOn with
  | nil => exact ⟨.refl _, .nil, fun _ => rfl⟩
  | append_singleton calls made ih =>
    have ih := ih fun s hmem => hdistinct s (List.mem_append_left _ hmem)
    unfold after matchingSubscriptions activeSubscriptions at ih ⊢
    rw [List.foldl_append, List.foldl_append]
    cases made with
    | subscribe s =>
      have hnodup := hdistinct s (List.mem_append_right _ List.mem_cons_self)
      dsimp only [List.foldl_cons, List.foldl_nil, call]
      rw [subscriptions_subscribe _ hnodup, List.filter_append]
      by_cases hmem : eventType ∈ s.eventTypes
      · have hone : [s].filter (fun s => eventType ∈ s.eventTypes) = [s] := by simpa using hmem
        rw [if_pos hmem, hone]
        exact ih.insert s
      · have hnone : [s].filter (fun s => eventType ∈ s.eventTypes) = [] := by simpa using hmem
        rw [if_neg hmem, hnone, List.append_nil]
        exact ih
    | unsubscribe subscriberId =>
      dsimp only [List.foldl_cons, List.foldl_nil, call, unsubscribe]
      rw [List.filter_comm]
      exact ih.filter _
    | publish handlers event now =>
      dsimp only [List.foldl_cons, List.foldl_nil, call]
      rw [subscriptions_publish]
      exact ih
    | cleanup now => exact ih

theorem publish_new {bus : EventBus} {event : RewardEvent}
    (hnew : (config.enableDeduplication && bus.isDuplicate event) = false) (handlers : Handlers) (now : Time) :
    (bus.publish config handlers event now).2.1 = some (bus.subscriptions event.eventType) := by
  unfold publish
  rw [hnew, if_neg Bool.false_ne_true]
  dsimp only
  split <;> rfl

theorem startedFor_new {bus : EventBus} {event : RewardEvent}
    (hnew : (config.enableDeduplication && bus.isDuplicate event) = false) (handlers : Handlers) (now : Time) :
    bus.startedFor config handlers event now =
      if 0 < config.maxRetryAttempts then bus.subscriptions event.eventType else [] := by
  rw [startedFor, publish_new hnew]
  exact Publication.started_start

end EventBus

section zero
variable {sorted subscriptions : List EventSubscription}

/-- No subscription of priority 0 meets one whose priority is positive and below the default,
or stands behind one of the default priority. -/
def ZeroInPlace (subscriptions : List EventSubscription) : Prop :=
  ∀ s ∈ subscriptions, s.declaredPriority = 0 → ∀ t ∈ subscriptions,
    ¬ (0 < t.declaredPriority ∧ t.declaredPriority < 100) ∧
    (t.declaredPriority = 100 → ¬ [t, s].Sublist subscriptions)

/-- `priority || 100` takes a priority of 0 for none. -/
private theorem priorityOf_eq (s : EventSubscription) :
    EventBus.priorityOf s = if s.declaredPriority = 0 then 100 else s.declaredPriority := by
  unfold EventBus.priorityOf EventSubscription.declaredPriority
  cases s.priority with
  | none => rfl
  | some priority => rfl

/-- Sorted by what the bus reads, subscriptions are in their declared order exactly if those
of priority 0 are in place. -/
private theorem declared_iff (h : StableSorted EventBus.priorityOf sorted subscriptions) :
    StableSorted EventSubscription.declaredPriority sorted subscriptions ↔ ZeroInPlace subscriptions := by
  have hread : StableSorted (fun s => if s.declaredPriority = 0 then (100 : ℚ) else s.declaredPriority) sorted subscriptions := by
    rwa [← funext priorityOf_eq]
  rw [hread.refine_iff (f := fun declared => if declared = 0 then 100 else declared)]
  constructor
  · intro hordered s hs hzero t ht
    constructor
    · rintro ⟨hpos, hlt⟩
      -- the bus reads 100 for `s`, so `t` stands before it
      have hle := hordered t s (hread.sublist_of_lt ht hs (by simp [hzero, hpos.ne', hlt]))
      rw [hzero] at hle
      exact absurd hle (not_le.mpr hpos)
    · intro hdefault hbefore
      have hle := hordered t s ((hread.sublist_iff (by simp [hzero, hdefault])).mpr hbefore)
      rw [hzero, hdefault] at hle
      exact absurd hle (by decide)
  · intro hplace a b hsub
    have ha : a ∈ subscriptions := h.perm.mem_iff.mp (hsub.subset List.mem_cons_self)
    have hb : b ∈ subscriptions := h.perm.mem_iff.mp (hsub.subset (List.mem_cons_of_mem _ List.mem_cons_self))
    have hle := List.pairwise_iff_forall_sublist.mp hread.ordered hsub
    by_cases hzero : b.declaredPriority = 0
    · by_cases hzero' : a.declaredPriority = 0
      · rw [hzero, hzero']
      · rw [if_pos hzero, if_neg hzero'] at hle
        obtain ⟨hbetween, hdefault⟩ := hplace b hb hzero a ha
        rw [hzero]
        by_contra hpos
        have hpos : 0 < a.declaredPriority := not_le.mp hpos
        have heq : a.declaredPriority = 100 := le_antisymm hle (not_lt.mp fun hlt => hbetween ⟨hpos, hlt⟩)
        exact hdefault heq ((hread.sublist_iff (by simp [hzero, heq])).mp hsub)
    · rw [if_neg hzero] at hle
      by_cases hzero' : a.declaredPriority = 0
      · rw [if_pos hzero'] at hle
        rw [hzero']
        exact le_trans (by decide) hle
      · rwa [if_neg hzero'] at hle

end zero

/-- The handlers of an event that is no duplicate are started in their declared order, every
subscription that matches it once, exactly if they get any attempt and the subscriptions of
priority 0 are in place. -/
theorem started_in_priority_order_iff (config : EventBusConfig) {calls : List BusCall}
    (hdistinct : ∀ s, .subscribe s ∈ calls → s.eventTypes.Nodup) {event : RewardEvent}
    (hnew : (config.enableDeduplication && (EventBus.after config calls).isDuplicate event) = false)
    (handlers : Handlers) (now : Time) :
    StableSorted EventSubscription.declaredPriority
      ((EventBus.after config calls).startedFor config handlers event now) (matchingSubscriptions calls event.eventType) ↔
    (0 < config.maxRetryAttempts ∨ matchingSubscriptions calls event.eventType = []) ∧
      ZeroInPlace (matchingSubscriptions calls event.eventType) := by
  have hsorted := EventBus.subscriptions_after config hdistinct event.eventType
  rw [EventBus.startedFor_new hnew]
  by_cases hattempts : 0 < config.maxRetryAttempts
  · rw [if_pos hattempts, declared_iff hsorted]
    simp [hattempts]
  · rw [if_neg hattempts]
    simp only [hattempts, false_or]
    constructor
    · intro h
      have hnone := List.nil_perm.mp h.perm
      rw [hnone]
      exact ⟨rfl, fun _ => nofun⟩
    · rintro ⟨hnone, -⟩
      rw [hnone]
      exact ⟨.refl _, .nil, fun _ => rfl⟩

section scenario

def subscriptionOf (subscriberId : String) (handler : ℕ) (priority : Option ℚ) : EventSubscription :=
  ⟨subscriberId, [.ledgerEntryCreated], handler, priority⟩

def entryCreated : RewardEvent := ⟨"event-1", "", 0, .ledgerEntryCreated⟩

def succeeding : Handlers := fun _ _ _ => .ok ()

/-- Six subscriptions, of which one is removed. -/
def mixedCalls : List BusCall :=
  [.subscribe (subscriptionOf "audit" 0 none), .subscribe (subscriptionOf "late" 1 (some 200)),
    .subscribe (subscriptionOf "gone" 2 (some 1)), .subscribe (subscriptionOf "early" 3 (some (-3))),
    .unsubscribe "gone", .subscribe (subscriptionOf "metrics" 4 (some 100)), .subscribe (subscriptionOf "early" 5 (some (-3)))]

theorem mixed_calls_in_order :
    StableSorted EventSubscription.declaredPriority
      ((EventBus.after {} mixedCalls).startedFor {} succeeding entryCreated 0)
      (matchingSubscriptions mixedCalls entryCreated.eventType) := by
  have hdistinct : ∀ s, .subscribe s ∈ mixedCalls → s.eventTypes.Nodup := by
    intro s hs
    simp only [mixedCalls, List.mem_cons, BusCall.subscribe.injEq, reduceCtorEq, false_or, List.not_mem_nil, or_false] at hs
    rcases hs with rfl | rfl | rfl | rfl | rfl | rfl <;> decide
  apply (started_in_priority_order_iff {} hdistinct (by decide +kernel) succeeding 0).mpr
  have hpriorities : ∀ s ∈ matchingSubscriptions mixedCalls entryCreated.eventType, s.declaredPriority ≠ 0 := by
    decide +kernel
  exact ⟨.inl (by decide), fun s hs hzero => absurd hzero (hpriorities s hs)⟩

def zeroCalls : List BusCall :=
  [.subscribe (subscriptionOf "first" 0 (some 0)), .subscribe (subscriptionOf "second" 1 (some 10))]

/-- A subscription of priority 0 is started after one of priority 10. -/
theorem zero_priority_started_last :
    (∀ s, .subscribe s ∈ zeroCalls → s.eventTypes.Nodup) ∧
    (EventBus.after {} zeroCalls).isDuplicate entryCreated = false ∧
    ((EventBus.after {} zeroCalls).startedFor {} succeeding entryCreated 0).map EventSubscription.subscriberId = ["second", "first"] ∧
    ¬ StableSorted EventSubscription.declaredPriority
      ((EventBus.after {} zeroCalls).startedFor {} succeeding entryCreated 0)
      (matchingSubscriptions zeroCalls entryCreated.eventType) := by
  refine ⟨?_, by decide +kernel, by decide +kernel, fun h => absurd h.ordered (by decide +kernel)⟩
  intro s hs
  simp only [zeroCalls, List.mem_cons, BusCall.subscribe.injEq, List.not_mem_nil, or_false] at hs
  rcases hs with rfl | rfl <;> decide

end scenario
end RedRoomRewards
