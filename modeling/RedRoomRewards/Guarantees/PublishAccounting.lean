import RedRoomRewards.Guarantees.PriorityOrder
import Mathlib.Data.ENat.Lattice
import Mathlib.Data.List.Perm.Basic

/-! How often a publication calls each handler, and what its result counts, whatever the
handlers do and in whatever order their loops go on. -/
namespace RedRoomRewards
open EventBus

/-- The first attempt that succeeds, counted from 1. -/
noncomputable def firstSuccess (outcomes : ℕ → Except String Unit) : ℕ∞ :=
  ⨅ (k : ℕ) (_ : (outcomes k).isOk = true), ((k + 1 : ℕ) : ℕ∞)

section attempts
variable {outcomes : ℕ → Except String Unit} {attempts max : ℕ}

private theorem notifyAttempts_ok (h : attempts < max) (hok : outcomes attempts = .ok ()) (lastError : Option String) :
    notifyAttempts outcomes (max - attempts) attempts lastError = .ok () := by
  obtain ⟨left, rfl⟩ := Nat.exists_eq_add_of_lt h
  rw [show attempts + left + 1 - attempts = left + 1 by omega, notifyAttempts, hok]

private theorem notifyAttempts_error {error : String} (h : attempts < max) (herror : outcomes attempts = .error error)
    (lastError : Option String) :
    notifyAttempts outcomes (max - attempts) attempts lastError =
      notifyAttempts outcomes (max - (attempts + 1)) (attempts + 1) (some error) := by
  obtain ⟨left, rfl⟩ := Nat.exists_eq_add_of_lt h
  rw [show attempts + left + 1 - attempts = left + 1 by omega,
    show attempts + left + 1 - (attempts + 1) = left by omega, notifyAttempts, herror]

private theorem le_of_isOk {k : ℕ} (hfailed : ∀ k < attempts, (outcomes k).isOk = false) (hok : (outcomes k).isOk = true) :
    attempts ≤ k := by
  by_contra hlt
  rw [hfailed k (Nat.not_le.mp hlt)] at hok
  cases hok

private theorem firstSuccess_eq (hfailed : ∀ k < attempts, (outcomes k).isOk = false)
    (hok : (outcomes attempts).isOk = true) : firstSuccess outcomes = ((attempts + 1 : ℕ) : ℕ∞) := by
  apply le_antisymm
  · exact iInf₂_le attempts hok
  · apply le_iInf₂
    intro k hk
    exact_mod_cast Nat.succ_le_succ (le_of_isOk hfailed hk)

private theorem le_firstSuccess (hfailed : ∀ k < attempts, (outcomes k).isOk = false) :
    (attempts : ℕ∞) ≤ firstSuccess outcomes := by
  apply le_iInf₂
  intro k hk
  exact_mod_cast Nat.le_succ_of_le (le_of_isOk hfailed hk)

end attempts

namespace Notification

/-- The error that a loop has ended with, under the name of its subscriber. -/
def error (n : Notification) : Option (String × String) :=
  match n.phase with
  | .ended (some error) => some (n.subscription.subscriberId, error)
  | _ => none

def settled (n : Notification) : Bool :=
  match n.phase with
  | .ended _ => true
  | _ => false

/-- How many steps a loop may still take. -/
def remaining (max : ℕ) (n : Notification) : ℕ :=
  match n.phase with
  | .waiting => 2 * (max - n.attempts) + 1
  | .handling => 2 * (max - n.attempts)
  | .ended _ => 0

/-- A loop whose handler has been called so many times: what has failed so far, and that
what is left of the loop ends as the whole of it. -/
inductive Follows (outcomes : ℕ → Except String Unit) (max : ℕ) : ℕ → Notification → Prop
  | waiting {s attempts lastError} (hlt : attempts < max) (hfailed : ∀ k < attempts, (outcomes k).isOk = false)
      (hrest : notifyAttempts outcomes (max - attempts) attempts lastError = notifyAttempts outcomes max 0 none) :
      Follows outcomes max attempts ⟨s, attempts, lastError, .waiting⟩
  | handling {s attempts lastError} (hlt : attempts < max) (hfailed : ∀ k < attempts, (outcomes k).isOk = false)
      (hrest : notifyAttempts outcomes (max - attempts) attempts lastError = notifyAttempts outcomes max 0 none) :
      Follows outcomes max (attempts + 1) ⟨s, attempts, lastError, .handling⟩
  | succeeded {s attempts lastError} (hlt : attempts < max) (hfailed : ∀ k < attempts, (outcomes k).isOk = false)
      (hok : (outcomes attempts).isOk = true) (hwhole : notifyAttempts outcomes max 0 none = .ok ()) :
      Follows outcomes max (attempts + 1) ⟨s, attempts, lastError, .ended none⟩
  | failed {s lastError error} (hfailed : ∀ k < max, (outcomes k).isOk = false)
      (hwhole : notifyAttempts outcomes max 0 none = .error error) :
      Follows outcomes max max ⟨s, max, lastError, .ended (some error)⟩

variable {config : EventBusConfig} {outcomes : ℕ → Except String Unit} {calls : ℕ} {n : Notification}

theorem Follows.enterLoop (h : n.Follows outcomes config.maxRetryAttempts calls) (hphase : n.phase = .waiting) :
    (n.enterLoop config).phase = .handling ∧ (n.enterLoop config).Follows outcomes config.maxRetryAttempts (calls + 1) := by
  cases h with
  | waiting hlt hfailed hrest =>
    rw [Notification.enterLoop, if_pos hlt]
    exact ⟨rfl, .handling hlt hfailed hrest⟩
  | handling | succeeded | failed => cases hphase

theorem Follows.handled (h : n.Follows outcomes config.maxRetryAttempts calls) (hphase : n.phase = .handling) :
    (n.handled config (outcomes n.attempts)).phase ≠ .handling ∧
      (n.handled config (outcomes n.attempts)).Follows outcomes config.maxRetryAttempts calls := by
  cases h with
  | @handling s attempts lastError hlt hfailed hrest =>
    dsimp only
    cases houtcome : outcomes attempts with
    | ok =>
      rw [notifyAttempts_ok hlt houtcome] at hrest
      exact ⟨by rintro ⟨⟩, .succeeded hlt hfailed (by rw [houtcome]; rfl) hrest.symm⟩
    | error error =>
      have hfailed' : ∀ k < attempts + 1, (outcomes k).isOk = false := by
        intro k hk
        rcases Nat.lt_succ_iff_lt_or_eq.mp hk with hlt | rfl
        · exact hfailed k hlt
        · rw [houtcome]; rfl
      rw [notifyAttempts_error hlt houtcome] at hrest
      unfold Notification.handled
      dsimp only
      by_cases hagain : attempts + 1 < config.maxRetryAttempts
      · rw [if_pos hagain]
        exact ⟨by rintro ⟨⟩, .waiting hagain hfailed' hrest⟩
      · have hlast : config.maxRetryAttempts = attempts + 1 := by omega
        rw [if_neg hagain, Notification.enterLoop, if_neg hagain]
        rw [← hlast] at hfailed' hrest ⊢
        rw [Nat.sub_self] at hrest
        exact ⟨by rintro ⟨⟩, .failed hfailed' hrest.symm⟩
  | waiting | succeeded | failed => cases hphase

theorem Follows.remaining_enterLoop (h : n.Follows outcomes config.maxRetryAttempts calls) (hphase : n.phase = .waiting) :
    (n.enterLoop config).remaining config.maxRetryAttempts < n.remaining config.maxRetryAttempts := by
  cases h with
  | waiting hlt =>
    rw [Notification.enterLoop, if_pos hlt]
    exact Nat.lt_succ_self _
  | handling | succeeded | failed => cases hphase

theorem Follows.remaining_handled (h : n.Follows outcomes config.maxRetryAttempts calls) (hphase : n.phase = .handling)
    (outcome : Except String Unit) :
    (n.handled config outcome).remaining config.maxRetryAttempts < n.remaining config.maxRetryAttempts := by
  cases h with
  | @handling s attempts lastError hlt =>
    have hpos : 0 < 2 * (config.maxRetryAttempts - attempts) := by omega
    cases outcome with
    | ok => exact hpos
    | error error =>
      unfold Notification.handled
      dsimp only
      by_cases hagain : attempts + 1 < config.maxRetryAttempts
      · rw [if_pos hagain]
        dsimp only [remaining]
        omega
      · rw [if_neg hagain, Notification.enterLoop, if_neg hagain]
        exact hpos
  | waiting | succeeded | failed => cases hphase

@[simp] theorem subscription_enterLoop : (n.enterLoop config).subscription = n.subscription := by
  unfold enterLoop
  split <;> rfl

@[simp] theorem subscription_handled {outcome : Except String Unit} :
    (n.handled config outcome).subscription = n.subscription := by
  cases outcome with
  | ok => rfl
  | error error =>
    unfold handled
    dsimp only
    split
    · rfl
    · exact subscription_enterLoop

/-- A loop that has ended: how often it has called its handler, and how it has ended. -/
theorem Follows.settled {max : ℕ} (h : n.Follows outcomes max calls) (hsettled : n.settled = true) :
    (calls : ℕ∞) = min (firstSuccess outcomes) max ∧
    (n.phase = .ended none ↔ ∃ k < max, (outcomes k).isOk = true) ∧
    n.error = match notifyAttempts outcomes max 0 none with
      | .ok () => none
      | .error error => some (n.subscription.subscriberId, error) := by
  cases h with
  | waiting | handling => cases hsettled
  | succeeded hlt hfailed hok hwhole =>
    rw [firstSuccess_eq hfailed hok, hwhole]
    refine ⟨?_, ?_, rfl⟩
    · exact (min_eq_left (by exact_mod_cast hlt)).symm
    · exact ⟨fun _ => ⟨_, hlt, hok⟩, fun _ => rfl⟩
  | failed hfailed hwhole =>
    rw [hwhole]
    refine ⟨(min_eq_right (le_firstSuccess hfailed)).symm, ?_, rfl⟩
    constructor
    · exact nofun
    · rintro ⟨k, hk, hok⟩
      rw [hfailed k hk] at hok
      cases hok

end Notification

namespace Publication
variable (config : EventBusConfig) (outcomes : ℕ → ℕ → Except String Unit) (subscribers : List EventSubscription)

/-- `Promise.allSettled`. -/
def allSettled (p : Publication) : Bool := p.notifications.all Notification.settled

def remaining (p : Publication) : ℕ := (p.notifications.map (Notification.remaining config.maxRetryAttempts)).sum

/-- What has been collected is what the loops have come to. -/
structure Accounts (p : Publication) : Prop where
  subscriptions : p.notifications.map Notification.subscription = subscribers
  follows : ∀ (i : ℕ) (n : Notification), p.notifications[i]? = some n →
    n.Follows (outcomes i) config.maxRetryAttempts (p.invoked.count i)
  notified : p.notifiedCount = p.notifications.countP fun n => n.phase = .ended none
  errors : p.errors.Perm (p.notifications.filterMap Notification.error)

/-- What a publication to these subscribers comes to when every loop has ended: the calls of
each handler, and what the result counts. -/
structure Accounted (event : RewardEvent) (p : Publication) : Prop where
  invocations : ∀ i < subscribers.length,
    (p.invoked.count i : ℕ∞) = min (firstSuccess (outcomes i)) config.maxRetryAttempts
  counted : (p.result event).handlersNotified + (p.result event).errors.length = subscribers.length
  success : (p.result event).success = true ↔
    ∀ i < subscribers.length, ∃ k < config.maxRetryAttempts, (outcomes i k).isOk = true

variable {config outcomes subscribers} {p p' : Publication} {i : ℕ} {n n' : Notification}

/-- Apart from one place, a list is the same after a change there. -/
private theorem perm_set {α : Type} {l : List α} {a : α} (h : l[i]? = some a) :
    ∃ rest : List α, l.Perm (a :: rest) ∧ ∀ b, (l.set i b).Perm (b :: rest) := by
  obtain ⟨hlt, rfl⟩ := List.getElem?_eq_some_iff.mp h
  exact ⟨l.eraseIdx i, (List.getElem_cons_eraseIdx_perm hlt).symm, fun b => List.set_perm_cons_eraseIdx hlt b⟩

private theorem count_note (j : ℕ) :
    (p.note i n').invoked.count j = p.invoked.count j + if i = j ∧ n'.phase = .handling then 1 else 0 := by
  unfold note
  dsimp only
  by_cases hphase : n'.phase = .handling
  · simp [hphase, List.count_cons]
  · simp [hphase]

private theorem Accounts.subscriptions_note (h : Accounts config outcomes subscribers p) (hn : p.notifications[i]? = some n)
    (hsubscription : n'.subscription = n.subscription) :
    (p.note i n').notifications.map Notification.subscription = subscribers := by
  rw [← h.subscriptions]
  apply List.ext_getElem?
  intro j
  show ((p.notifications.set i n').map _)[j]? = _
  rw [List.getElem?_map, List.getElem?_map, List.getElem?_set]
  by_cases hj : i = j
  · subst hj
    have hlt := (List.getElem?_eq_some_iff.mp hn).1
    rw [if_pos rfl, if_pos hlt, hn, Option.map_some, Option.map_some, hsubscription]
  · rw [if_neg hj]

private theorem Accounts.follows_note (h : Accounts config outcomes subscribers p) (hn : p.notifications[i]? = some n)
    (hfollows : n'.Follows (outcomes i) config.maxRetryAttempts
      (p.invoked.count i + if n'.phase = .handling then 1 else 0)) (j : ℕ) (m : Notification)
    (hm : (p.note i n').notifications[j]? = some m) :
    m.Follows (outcomes j) config.maxRetryAttempts ((p.note i n').invoked.count j) := by
  have hset : (p.notifications.set i n')[j]? = some m := hm
  rw [List.getElem?_set] at hset
  rw [count_note]
  by_cases hj : i = j
  · subst hj
    rw [if_pos rfl, if_pos (List.getElem?_eq_some_iff.mp hn).1] at hset
    obtain rfl := Option.some.inj hset
    simpa using hfollows
  · rw [if_neg hj] at hset
    simpa [hj] using h.follows j m hset

private theorem Accounts.notified_note (h : Accounts config outcomes subscribers p) (hn : p.notifications[i]? = some n)
    (hopen : n.settled = false) :
    (p.note i n').notifiedCount = (p.note i n').notifications.countP fun n => n.phase = .ended none := by
  obtain ⟨rest, hbefore, hafter⟩ := perm_set hn
  have hnone : n.phase ≠ .ended none := by
    intro hphase
    rw [Notification.settled, hphase] at hopen
    cases hopen
  have hrest : p.notifications.countP (fun n => n.phase = .ended none) = rest.countP fun n => n.phase = .ended none := by
    rw [hbefore.countP_eq, List.countP_cons_of_neg (by simpa using hnone)]
  show (if n'.phase = .ended none then p.notifiedCount + 1 else p.notifiedCount) = (p.notifications.set i n').countP _
  rw [(hafter n').countP_eq, List.countP_cons, h.notified, hrest]
  by_cases hphase : n'.phase = .ended none
  · simp [hphase]
  · simp [hphase]

private theorem Accounts.errors_note (h : Accounts config outcomes subscribers p) (hn : p.notifications[i]? = some n)
    (hopen : n.settled = false) :
    (p.note i n').errors.Perm ((p.note i n').notifications.filterMap Notification.error) := by
  obtain ⟨rest, hbefore, hafter⟩ := perm_set hn
  have hnone : n.error = none := by
    unfold Notification.error
    split
    · next herror =>
      rw [Notification.settled, herror] at hopen
      cases hopen
    · rfl
  have hrest : p.errors.Perm (rest.filterMap Notification.error) := by
    have hfiltered := hbefore.filterMap Notification.error
    rw [List.filterMap_cons_none hnone] at hfiltered
    exact h.errors.trans hfiltered
  apply List.Perm.trans _ ((hafter n').filterMap Notification.error).symm
  rw [List.filterMap_cons]
  unfold Publication.note Notification.error
  cases n'.phase with
  | waiting | handling => exact hrest
  | ended error =>
    cases error with
    | none => exact hrest
    | some error => exact (hrest.append_right _).trans (List.perm_append_singleton _ _)

/-- A loop that had not ended comes to something: what has been collected stays accounted for. -/
theorem Accounts.note (h : Accounts config outcomes subscribers p) (hn : p.notifications[i]? = some n)
    (hopen : n.settled = false) (hsubscription : n'.subscription = n.subscription)
    (hfollows : n'.Follows (outcomes i) config.maxRetryAttempts
      (p.invoked.count i + if n'.phase = .handling then 1 else 0)) :
    Accounts config outcomes subscribers (p.note i n') where
  subscriptions := h.subscriptions_note hn hsubscription
  follows := h.follows_note hn hfollows
  notified := h.notified_note hn hopen
  errors := h.errors_note hn hopen

theorem Accounts.step (h : Accounts config outcomes subscribers p) (hstep : Step config outcomes i p p') :
    Accounts config outcomes subscribers p' := by
  cases hstep with
  | @handled n hn hphase =>
    obtain ⟨hnot, hfollows⟩ := (h.follows i n hn).handled hphase
    apply h.note hn (by rw [Notification.settled, hphase]) Notification.subscription_handled
    rwa [if_neg hnot]
  | @woken n hn hphase =>
    obtain ⟨hcalled, hfollows⟩ := (h.follows i n hn).enterLoop hphase
    apply h.note hn (by rw [Notification.settled, hphase]) Notification.subscription_enterLoop
    rwa [if_pos hcalled]

theorem Accounts.remaining_step (h : Accounts config outcomes subscribers p) (hstep : Step config outcomes i p p') :
    p'.remaining config < p.remaining config := by
  have hnote : ∀ {n n' : Notification}, p.notifications[i]? = some n →
      n'.remaining config.maxRetryAttempts < n.remaining config.maxRetryAttempts →
      (p.note i n').remaining config < p.remaining config := by
    intro n n' hn hlt
    obtain ⟨rest, hbefore, hafter⟩ := perm_set hn
    show ((p.notifications.set i n').map _).sum < (p.notifications.map _).sum
    rw [((hafter n').map _).sum_eq, (hbefore.map _).sum_eq, List.map_cons, List.sum_cons, List.map_cons, List.sum_cons]
    omega
  cases hstep with
  | @handled n hn hphase => exact hnote hn ((h.follows i n hn).remaining_handled hphase _)
  | @woken n hn hphase => exact hnote hn ((h.follows i n hn).remaining_enterLoop hphase)

theorem accounts_start (hattempts : 1 ≤ config.maxRetryAttempts) :
    Accounts config outcomes subscribers (start config subscribers) := by
  rw [start_eq hattempts]
  refine ⟨?_, ?_, ?_, ?_⟩
  · rw [List.map_map]
    exact List.map_id' _
  · intro i n hn
    rw [List.getElem?_map] at hn
    obtain ⟨s, hs, rfl⟩ := Option.map_eq_some_iff.mp hn
    have hlt : i < subscribers.length := (List.getElem?_eq_some_iff.mp hs).1
    have hcount : (List.range subscribers.length).reverse.count i = 1 := by
      rw [List.count_reverse]
      exact List.count_eq_one_of_mem List.nodup_range (List.mem_range.mpr hlt)
    rw [hcount]
    exact .handling hattempts nofun rfl
  · simp [Function.comp_def]
  · simp [Notification.error]

theorem Run.accounts (hattempts : 1 ≤ config.maxRetryAttempts) {steps : ℕ} (h : Run config outcomes subscribers steps p) :
    Accounts config outcomes subscribers p := by
  induction h with
  | start => exact accounts_start hattempts
  | step _ hstep ih => exact ih.step hstep

theorem Run.bounded (hattempts : 1 ≤ config.maxRetryAttempts) {steps : ℕ} (h : Run config outcomes subscribers steps p) :
    steps + p.remaining config ≤ 2 * config.maxRetryAttempts * subscribers.length := by
  induction h with
  | start =>
    rw [start_eq hattempts, remaining, List.map_map]
    simp [Notification.remaining, Function.comp_def, Nat.mul_comm]
  | step h hstep ih =>
    have hlt := (h.accounts hattempts).remaining_step hstep
    omega

/-- A loop that has not ended can go on, whatever the others do. -/
theorem exists_step (outcomes : ℕ → ℕ → Except String Unit) (hn : p.notifications[i]? = some n) (hopen : n.settled = false) :
    ∃ p', Step config outcomes i p p' := by
  cases hphase : n.phase with
  | waiting => exact ⟨_, .woken hn hphase⟩
  | handling => exact ⟨_, .handled hn hphase⟩
  | ended =>
    rw [Notification.settled, hphase] at hopen
    cases hopen

/-- The subscriber and the loop at a place. -/
private theorem Accounts.place (h : Accounts config outcomes subscribers p) (hi : i < subscribers.length) :
    ∃ n, p.notifications[i]? = some n ∧ subscribers[i]? = some n.subscription := by
  rw [← h.subscriptions, List.length_map] at hi
  refine ⟨p.notifications[i], List.getElem?_eq_getElem hi, ?_⟩
  rw [← h.subscriptions, List.getElem?_map, List.getElem?_eq_getElem hi, Option.map_some]

private theorem settled_at (hsettled : p.allSettled = true) (hn : p.notifications[i]? = some n) : n.settled = true :=
  List.all_eq_true.mp hsettled n (List.mem_of_getElem? hn)

private theorem Accounts.errors_length (h : Accounts config outcomes subscribers p) (hsettled : p.allSettled = true) :
    p.errors.length = p.notifications.countP fun n => ¬ n.phase = .ended none := by
  rw [h.errors.length_eq, List.length_filterMap_eq_countP]
  apply List.countP_congr
  intro n hn
  have hended : n.settled = true := List.all_eq_true.mp hsettled n hn
  unfold Notification.settled at hended
  unfold Notification.error
  cases hphase : n.phase with
  | waiting | handling =>
    rw [hphase] at hended
    cases hended
  | ended error => cases error <;> simp

private theorem Accounts.success_iff (h : Accounts config outcomes subscribers p) (hsettled : p.allSettled = true) :
    p.errors = [] ↔ ∀ i < subscribers.length, ∃ k < config.maxRetryAttempts, (outcomes i k).isOk = true := by
  have hsuccess : ∀ {i : ℕ} {n : Notification}, p.notifications[i]? = some n →
      (n.phase = .ended none ↔ ∃ k < config.maxRetryAttempts, (outcomes i k).isOk = true) := by
    intro i n hn
    exact ((h.follows i n hn).settled (settled_at hsettled hn)).2.1
  have hempty : p.errors = [] ↔ ∀ n ∈ p.notifications, n.phase = .ended none := by
    rw [← List.length_eq_zero_iff, h.errors_length hsettled, List.countP_eq_zero]
    simp
  rw [hempty]
  constructor
  · intro hended i hi
    obtain ⟨n, hn, -⟩ := h.place hi
    exact (hsuccess hn).mp (hended n (List.mem_of_getElem? hn))
  · intro hsucceeds n hmem
    obtain ⟨i, hn⟩ := List.mem_iff_getElem?.mp hmem
    have hi : i < subscribers.length := by
      rw [← h.subscriptions, List.length_map]
      exact (List.getElem?_eq_some_iff.mp hn).1
    exact (hsuccess hn).mpr (hsucceeds i hi)

theorem Accounts.accounted (h : Accounts config outcomes subscribers p) (hsettled : p.allSettled = true)
    (event : RewardEvent) : Accounted config outcomes subscribers event p where
  invocations i hi := by
    obtain ⟨n, hn, -⟩ := h.place hi
    exact ((h.follows i n hn).settled (settled_at hsettled hn)).1
  counted := by
    have hlength : subscribers.length = p.notifications.length := by rw [← h.subscriptions, List.length_map]
    have hsplit := List.length_eq_countP_add_countP (l := p.notifications) fun n => decide (n.phase = .ended none)
    show p.notifiedCount + p.errors.length = subscribers.length
    rw [h.notified, h.errors_length hsettled, hlength]
    simpa using hsplit.symm
  success := by
    rw [← h.success_iff hsettled]
    exact List.isEmpty_iff

/-- The results count the same; their errors may come in another order. -/
structure SameCounts (r r' : EventPublishResult) : Prop where
  eventId : r.eventId = r'.eventId
  success : r.success = r'.success
  handlersNotified : r.handlersNotified = r'.handlersNotified
  errors : r.errors.Perm r'.errors

/-- The error that the loop of a subscriber ends with when it runs alone. -/
private def failureOf (config : EventBusConfig) (handlers : Handlers) (event : RewardEvent) (s : EventSubscription) :
    Option (String × String) :=
  match notifySubscriber config handlers s event with
  | .ok () => none
  | .error error => some (s.subscriberId, error)

private theorem resultOf_sync (handlers : Handlers) (event : RewardEvent) (hsync : config.asyncProcessing = false) :
    resultOf config handlers event subscribers =
      ⟨event.eventId, (subscribers.filterMap (failureOf config handlers event)).isEmpty,
        subscribers.length - (subscribers.filterMap (failureOf config handlers event)).length,
        subscribers.filterMap (failureOf config handlers event)⟩ := by
  rw [resultOf, hsync, if_neg Bool.false_ne_true]
  dsimp only
  rw [List.filterMap_map, List.length_map]
  rfl

/-- When handlers end the same way whenever they are called, the loops come to what calling
one after the other comes to. -/
theorem Accounts.sameCounts {handlers : Handlers} {event : RewardEvent} (h : Accounts config outcomes subscribers p)
    (hsync : config.asyncProcessing = false) (hsettled : p.allSettled = true)
    (houtcomes : ∀ (i : ℕ) (s : EventSubscription), subscribers[i]? = some s → outcomes i = handlers s event) :
    SameCounts (p.result event) (resultOf config handlers event subscribers) := by
  have hone : ∀ n ∈ p.notifications, n.error = failureOf config handlers event n.subscription := by
    intro n hmem
    obtain ⟨i, hn⟩ := List.mem_iff_getElem?.mp hmem
    have hplace : subscribers[i]? = some n.subscription := by rw [← h.subscriptions, List.getElem?_map, hn, Option.map_some]
    have hend := ((h.follows i n hn).settled (settled_at hsettled hn)).2.2
    rwa [houtcomes i _ hplace] at hend
  have herrors : p.errors.Perm (subscribers.filterMap (failureOf config handlers event)) := by
    rw [← h.subscriptions, List.filterMap_map]
    exact h.errors.trans (.of_eq (List.filterMap_congr hone))
  have hcounted : p.notifiedCount + p.errors.length = subscribers.length := (h.accounted hsettled event).counted
  have hlength := herrors.length_eq
  rw [resultOf_sync handlers event hsync]
  refine ⟨rfl, ?_, ?_, herrors⟩
  · show p.errors.isEmpty = _
    rw [Bool.eq_iff_iff, List.isEmpty_iff, List.isEmpty_iff, ← List.length_eq_zero_iff, hlength, List.length_eq_zero_iff]
  · show p.notifiedCount = subscribers.length - (subscribers.filterMap (failureOf config handlers event)).length
    omega

end Publication

/-- In synchronous mode the loops of an event that is no duplicate end, each of them whatever
the others do, and then the handlers have been called and are counted as their outcomes
say, as in the result of `publish`. -/
theorem synchronous_publish {config : EventBusConfig} (hsync : config.asyncProcessing = false)
    (hattempts : 1 ≤ config.maxRetryAttempts) {bus : EventBus} {event : RewardEvent}
    (hnew : (config.enableDeduplication && bus.isDuplicate event) = false) (now : Time) (outcomes : ℕ → ℕ → Except String Unit)
    {steps : ℕ} {p : Publication} (h : p.Run config outcomes (bus.subscriptions event.eventType) steps) :
    steps ≤ 2 * config.maxRetryAttempts * (bus.subscriptions event.eventType).length ∧
    (∀ i n, p.notifications[i]? = some n → n.settled = false → ∃ p', p.Step config outcomes i p') ∧
    (p.allSettled = true → p.Accounted config outcomes (bus.subscriptions event.eventType) event) ∧
    ∀ handlers : Handlers,
      (∀ (i : ℕ) (s : EventSubscription), (bus.subscriptions event.eventType)[i]? = some s → outcomes i = handlers s event) →
      p.allSettled = true → Publication.SameCounts (p.result event) (bus.publish config handlers event now).1 := by
  have haccounts := h.accounts hattempts
  refine ⟨?_, ?_, ?_, ?_⟩
  · have hbounded := h.bounded hattempts
    omega
  · intro i n hn hopen
    exact Publication.exists_step outcomes hn hopen
  · intro hsettled
    exact haccounts.accounted hsettled event
  · intro handlers houtcomes hsettled
    have hresult : (bus.publish config handlers event now).1 =
        resultOf config handlers event (bus.subscriptions event.eventType) := by
      unfold publish
      rw [hnew, if_neg Bool.false_ne_true]
      dsimp only
      split <;> rfl
    rw [hresult]
    exact haccounts.sameCounts hsync hsettled houtcomes

section scenario

def twoAttempts : EventBusConfig := { maxRetryAttempts := 2, asyncProcessing := false }

def busOfTwo : EventBus := (EventBus.empty.subscribe (subscriptionOf "flaky" 0 none)).subscribe (subscriptionOf "broken" 1 none)

/-- The first handler fails once, the second one always. -/
def flakyAndBroken : ℕ → ℕ → Except String Unit
  | 0, 0 => .error "timeout"
  | 0, _ => .ok ()
  | _, _ => .error "down"

/-- The loops take turns. -/
theorem flaky_and_broken_accounted : ∃ p,
    Publication.Run twoAttempts flakyAndBroken (busOfTwo.subscriptions entryCreated.eventType) 6 p ∧
    p.allSettled = true ∧
    p.Accounted twoAttempts flakyAndBroken (busOfTwo.subscriptions entryCreated.eventType) entryCreated := by
  have hrun : Publication.Run twoAttempts flakyAndBroken (busOfTwo.subscriptions entryCreated.eventType) 0
      (Publication.start twoAttempts (busOfTwo.subscriptions entryCreated.eventType)) := .start
  have hrun := ((hrun.step (i := 1) (.handled rfl rfl)).step (i := 0) (.handled rfl rfl)).step (i := 0) (.woken rfl rfl)
  have hrun := ((hrun.step (i := 0) (.handled rfl rfl)).step (i := 1) (.woken rfl rfl)).step (i := 1) (.handled rfl rfl)
  have hnew : (twoAttempts.enableDeduplication && busOfTwo.isDuplicate entryCreated) = false := by decide +kernel
  refine ⟨_, hrun, by decide +kernel, ?_⟩
  exact (synchronous_publish rfl (by decide) hnew 0 flakyAndBroken hrun).2.2.1 (by decide +kernel)

end scenario
end RedRoomRewards
