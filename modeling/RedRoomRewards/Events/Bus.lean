import RedRoomRewards.Service.Types
import RedRoomRewards.Store.Expiry
import Mathlib.Data.List.Sort
import Mathlib.Algebra.Order.Ring.Rat

/-! The event bus: subscriptions by type of event, and the keys of the events that it has
handed out. Delays between attempts issue nothing and are left out. -/
namespace RedRoomRewards
open Store

inductive WalletEventType where
  | balanceUpdated
  | escrowHeld
  | escrowSettled
  | escrowRefunded
  | escrowPartialSettled
  | ledgerEntryCreated
  deriving DecidableEq

/-- A wallet balance has changed. -/
structure BalanceUpdate where
  accountId : String
  accountType : AccountType
  balanceState : BalanceState
  balanceBefore : ℚ
  balanceAfter : ℚ
  reason : String
  transactionId : String
  ledgerEntryId : String

/-- What an event tells; no subscriber reads anything of a new ledger entry. -/
inductive EventBody where
  | balanceUpdated (update : BalanceUpdate)
  | wallet (event : WalletEvent)
  | ledgerEntryCreated

structure RewardEvent where
  eventId : String
  idempotencyKey : String
  timestamp : Time
  body : EventBody

def RewardEvent.eventType (event : RewardEvent) : WalletEventType :=
  match event.body with
  | .balanceUpdated _ => .balanceUpdated
  | .wallet (.escrowHeld ..) => .escrowHeld
  | .wallet (.escrowSettled ..) => .escrowSettled
  | .wallet (.escrowRefunded ..) => .escrowRefunded
  | .wallet (.escrowPartialSettled ..) => .escrowPartialSettled
  | .ledgerEntryCreated => .ledgerEntryCreated

def WalletEvent.idempotencyKey : WalletEvent → String
  | escrowHeld _ _ _ _ _ _ _ _ _ idempotencyKey _ => idempotencyKey
  | escrowSettled _ _ _ _ _ _ _ _ idempotencyKey _ => idempotencyKey
  | escrowRefunded _ _ _ _ _ _ _ _ idempotencyKey _ => idempotencyKey
  | escrowPartialSettled _ _ _ _ _ _ _ _ _ _ _ idempotencyKey _ => idempotencyKey

/-- The event a wallet call gives to the bus. -/
def PublishedEvent.rewardEvent (e : PublishedEvent) : RewardEvent :=
  ⟨e.eventId, e.event.idempotencyKey, e.timestamp, .wallet e.event⟩

structure EventBusConfig where
  enableDeduplication : Bool := true
  deduplicationTtlMs : ℕ := 3600000
  maxRetryAttempts : ℕ := 3
  asyncProcessing : Bool := true

structure EventSubscription where
  subscriberId : String
  eventTypes : List WalletEventType
  /-- Which function handles the events. -/
  handler : ℕ
  priority : Option ℚ

structure EventPublishResult where
  eventId : String
  success : Bool
  handlersNotified : ℕ
  errors : List (String × String)

/-- A type without subscriptions has the empty list. -/
structure EventBus where
  subscriptions : WalletEventType → List EventSubscription
  processedEvents : Seen String Time

/-- How the handler of a subscription ends on its `n`-th attempt. -/
abbrev Handlers := EventSubscription → RewardEvent → ℕ → Except String Unit

namespace EventBus

def empty : EventBus := ⟨fun _ => [], ∅⟩

/-- `priority || 100`. -/
def priorityOf (subscription : EventSubscription) : ℚ :=
  match subscription.priority with
  | some priority => if priority = 0 then 100 else priority
  | none => 100

def subscribe (bus : EventBus) (subscription : EventSubscription) : EventBus where
  subscriptions := subscription.eventTypes.foldl (fun subscriptions eventType =>
    Function.update subscriptions eventType
      ((subscriptions eventType ++ [subscription]).insertionSort fun a b => priorityOf a ≤ priorityOf b))
    bus.subscriptions
  processedEvents := bus.processedEvents

def unsubscribe (bus : EventBus) (subscriberId : String) : EventBus where
  subscriptions eventType := (bus.subscriptions eventType).filter fun s => s.subscriberId ≠ subscriberId
  processedEvents := bus.processedEvents

def dedupeKeys (event : RewardEvent) : List String :=
  if event.idempotencyKey = "" then ["eventId:" ++ event.eventId]
  else ["eventId:" ++ event.eventId, "idem:" ++ event.idempotencyKey]

def isDuplicate (bus : EventBus) (event : RewardEvent) : Bool :=
  (dedupeKeys event).any fun key => key ∈ bus.processedEvents

def markProcessed (bus : EventBus) (event : RewardEvent) (now : Time) : EventBus where
  subscriptions := bus.subscriptions
  processedEvents := bus.processedEvents.mark (dedupeKeys event) now

/-- The retry loop; its first argument is `maxRetryAttempts - attempts`. -/
def notifyAttempts (handler : ℕ → Except String Unit) : ℕ → ℕ → Option String → Except String Unit
  | 0, _, lastError => .error (lastError.getD "Handler failed after retries")
  | left + 1, attempts, _ =>
    match handler attempts with
    | .ok () => .ok ()
    | .error error => notifyAttempts handler left (attempts + 1) (some error)

def notifySubscriber (config : EventBusConfig) (handlers : Handlers) (subscription : EventSubscription)
    (event : RewardEvent) : Except String Unit :=
  notifyAttempts (handlers subscription event) config.maxRetryAttempts 0 none

/-- The result once the subscribers have been notified. If that is not awaited, nobody
has been when the result is made. -/
def resultOf (config : EventBusConfig) (handlers : Handlers) (event : RewardEvent)
    (subscribers : List EventSubscription) : EventPublishResult :=
  if config.asyncProcessing then ⟨event.eventId, true, 0, []⟩ else
    let outcomes := subscribers.map fun s => (s.subscriberId, notifySubscriber config handlers s event)
    let errors := outcomes.filterMap fun x => match x.2 with
      | .ok () => none
      | .error error => some (x.1, error)
    ⟨event.eventId, errors.isEmpty, outcomes.length - errors.length, errors⟩

/-- The result, the subscribers the event is dispatched to if it is, and the bus after. -/
def publish (config : EventBusConfig) (handlers : Handlers) (bus : EventBus) (event : RewardEvent) (now : Time) :
    EventPublishResult × Option (List EventSubscription) × EventBus :=
  if config.enableDeduplication && bus.isDuplicate event then (⟨event.eventId, true, 0, []⟩, none, bus) else
    let marked := if config.enableDeduplication then bus.markProcessed event now else bus
    let subscribers := marked.subscriptions event.eventType
    (resultOf config handlers event subscribers, some subscribers, marked)

/-- A tick of the cleanup interval. -/
def cleanup (config : EventBusConfig) (bus : EventBus) (now : Time) : EventBus where
  subscriptions := bus.subscriptions
  processedEvents := bus.processedEvents.forget config.deduplicationTtlMs now

end EventBus
end RedRoomRewards
