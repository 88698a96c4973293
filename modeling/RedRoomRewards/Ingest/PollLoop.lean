import RedRoomRewards.Ingest.Types
import Mathlib.Data.List.Basic

/-! Starting and stopping a worker, and the poll loops that it has started. A loop looks at
`isRunning` only when it begins and when it wakes. -/
namespace RedRoomRewards.Ingest

/-- Where a poll loop is: it awaits `processNextBatch`, sleeps, or has come to its end. -/
inductive PollLoop where
  | processing
  | sleeping
  | ended
  deriving DecidableEq

/-- One worker, with its poll loops in the order in which they were started. -/
structure PollingWorker where
  isRunning : Bool
  loops : List PollLoop

/-- `while (this.isRunning)`: the loop goes on with a batch, or ends. -/
def pollLoop (isRunning : Bool) : PollLoop := if isRunning then .processing else .ended

/-- What can happen next: a call of `start` or `stop`, the end of a loop's batch, or of its sleep. -/
inductive PollAction where
  | start
  | stop
  | settle (i : ℕ) (result : Except QueueError Unit)
  | wake (i : ℕ)

namespace PollingWorker

def created : PollingWorker := ⟨false, []⟩

variable (s : PollingWorker)

/-- The loop is not awaited: it runs to the first `await` of its batch. -/
def start : PollingWorker :=
  if s.isRunning then s else { isRunning := true, loops := s.loops ++ [pollLoop true] }

def stop : PollingWorker := { s with isRunning := false }

/-- A batch that throws is logged; the loop sleeps then as well. -/
def settle (i : ℕ) : Option PollingWorker :=
  if s.loops[i]? = some .processing then some { s with loops := s.loops.set i .sleeping } else none

def wake (i : ℕ) : Option PollingWorker :=
  if s.loops[i]? = some .sleeping then some { s with loops := s.loops.set i (pollLoop s.isRunning) } else none

def step : PollAction → Option PollingWorker
  | .start => some s.start
  | .stop => some s.stop
  | .settle i _ => s.settle i
  | .wake i => s.wake i

def run : PollingWorker → List PollAction → Option PollingWorker
  | s, [] => some s
  | s, a :: rest => (s.step a).bind fun s' => run s' rest

/-- The loop can still run another batch. -/
def CanRun (i : ℕ) : Prop := i < s.loops.length ∧
  ∃ actions s₁ s₂, s.run actions = some s₁ ∧ s₁.wake i = some s₂ ∧ s₂.loops[i]? = some .processing

/-- The loop has not come to its end. -/
def Live (i : ℕ) : Prop := ∃ x, s.loops[i]? = some x ∧ x ≠ .ended

variable {s} {s' : PollingWorker} {a : PollAction} {i : ℕ}

theorem run_append (pre rest : List PollAction) : s.run (pre ++ rest) = (s.run pre).bind fun s' => s'.run rest := by
  induction pre generalizing s with
  | nil => rfl
  | cons a pre ih =>
    simp only [List.cons_append, run]
    cases s.step a with
    | none => rfl
    | some s' => exact ih

theorem run_concat (pre : List PollAction) (a : PollAction) : s.run (pre ++ [a]) = (s.run pre).bind fun s' => s'.step a := by
  rw [run_append]
  congr 1
  funext s'
  simp [run]

theorem start_running (h : s.isRunning = true) : s.start = s := if_pos h

theorem start_stopped (h : s.isRunning = false) : s.start = ⟨true, s.loops ++ [.processing]⟩ := by
  rw [start, if_neg (by simp [h])]
  rfl

theorem settle_some (h : s.settle i = some s') :
    s.loops[i]? = some .processing ∧ s' = { s with loops := s.loops.set i .sleeping } := by
  unfold settle at h
  split at h
  · exact ⟨‹_›, (Option.some.inj h).symm⟩
  · cases h

theorem wake_some (h : s.wake i = some s') :
    s.loops[i]? = some .sleeping ∧ s' = { s with loops := s.loops.set i (pollLoop s.isRunning) } := by
  unfold wake at h
  split at h
  · exact ⟨‹_›, (Option.some.inj h).symm⟩
  · cases h

/-- A loop that moves was live, and the others stay where they are. -/
private theorem live_of_set {x y : PollLoop} {j : ℕ} (hj : s.loops[j]? = some x) (hx : x ≠ .ended)
    (h : Live { s with loops := s.loops.set j y } i) : s.Live i := by
  obtain ⟨z, hz, hlive⟩ := h
  by_cases hij : j = i
  · subst hij
    exact ⟨x, hj, hx⟩
  · exact ⟨z, (List.getElem?_set_ne hij).symm.trans hz, hlive⟩

/-- A loop that is live after a step was so before, or the step has started it. -/
theorem live_of_step (hstep : s.step a = some s') (h : s'.Live i) :
    s.Live i ∨ a = .start ∧ s.isRunning = false ∧ i = s.loops.length := by
  cases a with
  | start =>
    obtain rfl : s.start = s' := Option.some.inj hstep
    rcases Bool.eq_false_or_eq_true s.isRunning with hrunning | hstopped
    · rw [start_running hrunning] at h
      exact .inl h
    · rw [start_stopped hstopped] at h
      obtain ⟨x, hx, hlive⟩ := h
      rcases lt_trichotomy i s.loops.length with hlt | heq | hgt
      · exact .inl ⟨x, (List.getElem?_append_left hlt).symm.trans hx, hlive⟩
      · exact .inr ⟨rfl, hstopped, heq⟩
      · have hnone : (s.loops ++ [PollLoop.processing])[i]? = none := by
          rw [List.getElem?_eq_none_iff, List.length_append, List.length_singleton]
          omega
        cases hnone.symm.trans hx
  | stop =>
    obtain rfl : s.stop = s' := Option.some.inj hstep
    exact .inl h
  | settle j result =>
    obtain ⟨hj, rfl⟩ := settle_some hstep
    exact .inl (live_of_set hj (by decide) h)
  | wake j =>
    obtain ⟨hj, rfl⟩ := wake_some hstep
    exact .inl (live_of_set hj (by decide) h)

theorem length_of_step (hstep : s.step a = some s') : s.loops.length ≤ s'.loops.length := by
  cases a with
  | start =>
    obtain rfl : s.start = s' := Option.some.inj hstep
    rcases Bool.eq_false_or_eq_true s.isRunning with hrunning | hstopped
    · rw [start_running hrunning]
    · rw [start_stopped hstopped, List.length_append]
      omega
  | stop =>
    obtain rfl : s.stop = s' := Option.some.inj hstep
    exact le_refl _
  | settle j result =>
    obtain ⟨-, rfl⟩ := settle_some hstep
    rw [List.length_set]
  | wake j =>
    obtain ⟨-, rfl⟩ := wake_some hstep
    rw [List.length_set]

/-- A loop that exists and is live later is live. -/
private theorem live_of_run (actions : List PollAction) (hi : i < s.loops.length) (hrun : s.run actions = some s')
    (h : s'.Live i) : s.Live i := by
  induction actions generalizing s with
  | nil =>
    obtain rfl : s = s' := Option.some.inj hrun
    exact h
  | cons a rest ih =>
    obtain ⟨s₁, hstep, hrest⟩ := Option.bind_eq_some_iff.mp hrun
    rcases live_of_step hstep (ih (hi.trans_le (length_of_step hstep)) hrest) with hlive | ⟨-, -, rfl⟩
    · exact hlive
    · exact absurd hi (lt_irrefl _)

/-- A sleeping loop runs another batch once the worker is started. -/
private theorem canRun_of_sleeping (h : s.loops[i]? = some .sleeping) : s.CanRun i := by
  have hi : i < s.loops.length := (List.getElem?_eq_some_iff.mp h).1
  have hrunning : s.start.isRunning = true ∧ s.start.loops[i]? = some .sleeping := by
    rcases Bool.eq_false_or_eq_true s.isRunning with hrunning | hstopped
    · rw [start_running hrunning]
      exact ⟨hrunning, h⟩
    · rw [start_stopped hstopped]
      exact ⟨rfl, (List.getElem?_append_left hi).trans h⟩
  refine ⟨hi, [.start], s.start, _, rfl, if_pos hrunning.2, ?_⟩
  have hlength : i < s.start.loops.length := (List.getElem?_eq_some_iff.mp hrunning.2).1
  rw [hrunning.1, List.getElem?_set_self hlength]
  rfl

/-- A loop can still run another batch exactly when it has not come to its end: a worker
that is stopped can be started before the loop wakes. -/
theorem canRun_iff_live : s.CanRun i ↔ s.Live i := by
  constructor
  · rintro ⟨hi, actions, s₁, s₂, hrun, hwake, -⟩
    exact live_of_run actions hi hrun ⟨.sleeping, (wake_some hwake).1, by decide⟩
  · rintro ⟨x, hx, hlive⟩
    have hi : i < s.loops.length := (List.getElem?_eq_some_iff.mp hx).1
    cases x with
    | ended => exact absurd rfl hlive
    | sleeping => exact canRun_of_sleeping hx
    | processing =>
      have hsettled : CanRun { s with loops := s.loops.set i .sleeping } i :=
        canRun_of_sleeping (List.getElem?_set_self hi)
      obtain ⟨-, actions, s₁, s₂, hrun, hwake, hprocessing⟩ := hsettled
      refine ⟨hi, .settle i (.ok ()) :: actions, s₁, s₂, ?_, hwake, hprocessing⟩
      have hstep : s.settle i = some { s with loops := s.loops.set i .sleeping } := if_pos hx
      show (s.settle i).bind _ = some s₁
      rw [hstep]
      exact hrun

end PollingWorker
end RedRoomRewards.Ingest
