import RedRoomRewards.Events.Bus
import Mathlib.Data.Nat.Notation

/-! One publication step by step: the retry loops of its subscribers, which go on in any
order and at any time. -/
namespace RedRoomRewards

/-- Where the retry loop of a subscriber stands: before an attempt, at it, or ended, with an
error if all its attempts have failed. -/
inductive LoopPhase where
  | waiting
  | handling
  | ended (error : Option String)
  deriving DecidableEq

structure Notification where
  subscription : EventSubscription
  attempts : ℕ
  lastError : Option String
  phase : LoopPhase

namespace Notification
variable (config : EventBusConfig)

/-- The head of the retry loop. -/
def enterLoop (n : Notification) : Notification :=
  if n.attempts < config.maxRetryAttempts then { n with phase := .handling }
  else { n with phase := .ended (some (n.lastError.getD "Handler failed after retries")) }

/-- The handler has returned or thrown. -/
def handled (n : Notification) : Except String Unit → Notification
  | .ok () => { n with phase := .ended none }
  | .error error =>
    let n := { n with attempts := n.attempts + 1, lastError := some error }
    if n.attempts < config.maxRetryAttempts then { n with phase := .waiting } else n.enterLoop config

end Notification

/-- The loops in the order of the subscribers, what has been collected of them, and the
calls of handlers, newest first, each by the place of its subscriber. -/
structure Publication where
  notifications : List Notification
  notifiedCount : ℕ
  errors : List (String × String)
  invoked : List ℕ

namespace Publication
variable (config : EventBusConfig)

/-- The loop at the place `i` has come to `n`. -/
def note (p : Publication) (i : ℕ) (n : Notification) : Publication where
  notifications := p.notifications.set i n
  notifiedCount := if n.phase = .ended none then p.notifiedCount + 1 else p.notifiedCount
  errors := match n.phase with
    | .ended (some error) => p.errors ++ [(n.subscription.subscriberId, error)]
    | _ => p.errors
  invoked := if n.phase = .handling then i :: p.invoked else p.invoked

def enter (p : Publication) (i : ℕ) : Publication :=
  match p.notifications[i]? with
  | some n => p.note i (n.enterLoop config)
  | none => p

/-- Every loop runs up to the first call of its handler. -/
def start (subscribers : List EventSubscription) : Publication :=
  (List.range subscribers.length).foldl (enter config)
    ⟨subscribers.map fun s => ⟨s, 0, none, .waiting⟩, 0, [], []⟩

/-- The subscriptions whose handlers have been called, in the order of the calls. -/
def started (p : Publication) : List EventSubscription :=
  p.invoked.reverse.filterMap fun i => p.notifications[i]?.map Notification.subscription

/-- The result that is returned when every loop has ended. -/
def result (p : Publication) (event : RewardEvent) : EventPublishResult :=
  ⟨event.eventId, p.errors.isEmpty, p.notifiedCount, p.errors⟩

/-- A step of the loop at the place `i`: the handler at it ends, on its `k`-th attempt with
`outcomes i k`, or the delay before the next attempt is over. -/
inductive Step (outcomes : ℕ → ℕ → Except String Unit) (i : ℕ) : Publication → Publication → Prop
  | handled {p n} (hn : p.notifications[i]? = some n) (hphase : n.phase = .handling) :
      Step outcomes i p (p.note i (n.handled config (outcomes i n.attempts)))
  | woken {p n} (hn : p.notifications[i]? = some n) (hphase : n.phase = .waiting) :
      Step outcomes i p (p.note i (n.enterLoop config))

/-- What a publication comes to in a number of steps. -/
inductive Run (outcomes : ℕ → ℕ → Except String Unit) (subscribers : List EventSubscription) : ℕ → Publication → Prop
  | start : Run outcomes subscribers 0 (start config subscribers)
  | step {steps p i p'} (h : Run outcomes subscribers steps p) (hstep : Step config outcomes i p p') :
      Run outcomes subscribers (steps + 1) p'

variable {config} {subscribers : List EventSubscription}

/-- The first `k` loops have been entered. -/
private theorem entered (hattempts : 0 < config.maxRetryAttempts) {k : ℕ} (hk : k ≤ subscribers.length) :
    (List.range k).foldl (enter config) ⟨subscribers.map fun s => ⟨s, 0, none, .waiting⟩, 0, [], []⟩ =
      ⟨subscribers.mapIdx fun i s => ⟨s, 0, none, if i < k then .handling else .waiting⟩, 0, [], (List.range k).reverse⟩ := by
  induction k with
  | zero =>
    rw [List.range_zero, List.foldl_nil, List.reverse_nil, Publication.mk.injEq]
    refine ⟨?_, rfl, rfl, rfl⟩
    apply List.ext_getElem?
    intro i
    rw [List.getElem?_mapIdx, List.getElem?_map]
    rfl
  | succ k ih =>
    have hlt : k < subscribers.length := hk
    rw [List.range_succ, List.foldl_append, ih (Nat.le_of_succ_le hk)]
    simp only [List.foldl_cons, List.foldl_nil, enter, List.getElem?_mapIdx, List.getElem?_eq_getElem hlt,
      Option.map_some, lt_irrefl, if_false, note, Notification.enterLoop, if_pos hattempts, reduceCtorEq, if_true,
      List.reverse_append, List.reverse_singleton, List.singleton_append, Publication.mk.injEq, and_true]
    apply List.ext_getElem?
    intro i
    rw [List.getElem?_set, List.getElem?_mapIdx, List.getElem?_mapIdx, List.length_mapIdx]
    rcases Nat.lt_trichotomy i k with hi | rfl | hi
    · simp [hi, Nat.ne_of_gt hi, Nat.lt_succ_of_lt hi]
    · simp [hlt]
    · have hne : k ≠ i := Nat.ne_of_lt hi
      have hge : ¬ i < k + 1 := by omega
      simp [hne, hge, Nat.not_lt_of_gt hi]

theorem start_eq (hattempts : 0 < config.maxRetryAttempts) :
    start config subscribers =
      ⟨subscribers.map fun s => ⟨s, 0, none, .handling⟩, 0, [], (List.range subscribers.length).reverse⟩ := by
  rw [start, entered hattempts le_rfl]
  congr 1
  apply List.ext_getElem?
  intro i
  rw [List.getElem?_mapIdx, List.getElem?_map]
  by_cases hi : i < subscribers.length
  · rw [List.getElem?_eq_getElem hi, Option.map_some, Option.map_some, if_pos hi]
  · rw [List.getElem?_eq_none (Nat.not_lt.mp hi), Option.map_none, Option.map_none]

private theorem filterMap_range {α : Type} (l : List α) : (List.range l.length).filterMap (fun i => l[i]?) = l := by
  induction l with
  | nil => rfl
  | cons a l ih =>
    rw [List.length_cons, List.range_succ_eq_map, List.filterMap_cons, List.filterMap_map]
    exact congrArg (a :: ·) ih

/-- The handlers are started in the order of the subscribers, if they get any attempt. -/
theorem started_start :
    (start config subscribers).started = if 0 < config.maxRetryAttempts then subscribers else [] := by
  split
  case isTrue hattempts =>
    rw [start_eq hattempts, started, List.reverse_reverse]
    have hplace : ∀ i : ℕ, ((subscribers.map fun s => (⟨s, 0, none, .handling⟩ : Notification))[i]?).map Notification.subscription =
        subscribers[i]? := by
      intro i
      rw [List.getElem?_map, Option.map_map]
      exact Option.map_id'
    rw [funext hplace, filterMap_range]
  case isFalse hnone =>
    have hinvoked : ∀ (places : List ℕ) (p : Publication), (places.foldl (enter config) p).invoked = p.invoked := by
      intro places
      induction places with
      | nil => exact fun p => rfl
      | cons i places ih =>
        intro p
        rw [List.foldl_cons, ih, enter]
        cases p.notifications[i]? with
        | none => rfl
        | some n => simp [note, Notification.enterLoop, Nat.eq_zero_of_not_pos hnone]
    rw [started, start, hinvoked]
    rfl

end Publication
end RedRoomRewards
