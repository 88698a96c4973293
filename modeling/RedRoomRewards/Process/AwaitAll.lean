import Mathlib.Data.List.Basic
import Mathlib.Data.Nat.Notation

/-! A loop over the slices of a list that starts the items of a slice together and waits
until all of them have settled, in any order. -/
namespace RedRoomRewards.Process
variable {α β : Type}

/-- The place of the next slice, the items started so far, those that have not settled, and
what has been collected of the others. -/
structure AwaitAll (α β : Type) where
  next : ℕ
  started : List α
  pending : List α
  result : β

namespace AwaitAll

def start (initial : β) : AwaitAll α β := ⟨0, [], [], initial⟩

/-- The body of the loop up to its `await`. -/
def beginSlice (items : List α) (size : ℕ) (s : AwaitAll α β) : AwaitAll α β where
  next := s.next + size
  started := s.started ++ (items.drop s.next).take size
  pending := (items.drop s.next).take size
  result := s.result

def settle [DecidableEq α] (collect : β → α → β) (s : AwaitAll α β) (item : α) : AwaitAll α β where
  next := s.next
  started := s.started
  pending := s.pending.erase item
  result := collect s.result item

def finished (items : List α) (s : AwaitAll α β) : Bool := s.pending.isEmpty && decide (items.length ≤ s.next)

variable [DecidableEq α] (items : List α) (size : ℕ) (collect : β → α → β) (initial : β)

inductive Step : AwaitAll α β → AwaitAll α β → Prop
  | begin {s} (hawaited : s.pending = []) (hnext : s.next < items.length) : Step s (s.beginSlice items size)
  | settle {s} (item : α) (hpending : item ∈ s.pending) : Step s (s.settle collect item)

/-- What the loop comes to in a number of steps. -/
inductive Run : ℕ → AwaitAll α β → Prop
  | start : Run 0 (start initial)
  | step {steps s s'} (h : Run steps s) (hstep : Step items size collect s s') : Run (steps + 1) s'

variable {items} {size} {collect} {initial} {s s' : AwaitAll α β} {steps : ℕ}

/-- The items before the next slice are started, and the result is collected of those that
have settled. -/
structure Follows (items : List α) (collect : β → α → β) (initial : β) (s : AwaitAll α β) : Prop where
  started : s.started = items.take s.next
  collected : ∃ settled : List α, (settled ++ s.pending).Perm s.started ∧ s.result = settled.foldl collect initial

theorem Follows.step (h : Follows items collect initial s) (hstep : Step items size collect s s') :
    Follows items collect initial s' := by
  obtain ⟨settled, hperm, hresult⟩ := h.collected
  cases hstep with
  | begin hawaited =>
    constructor
    · show s.started ++ (items.drop s.next).take size = items.take (s.next + size)
      rw [h.started, List.take_add]
    · refine ⟨settled, ?_, hresult⟩
      rw [hawaited, List.append_nil] at hperm
      exact hperm.append_right _
  | settle item hpending =>
    refine ⟨h.started, settled ++ [item], ?_, ?_⟩
    · show (settled ++ [item] ++ s.pending.erase item).Perm s.started
      rw [List.append_assoc]
      exact ((List.perm_cons_erase hpending).symm.append_left settled).trans hperm
    · show collect s.result item = _
      rw [hresult, List.foldl_append]
      rfl

theorem Run.follows (h : Run items size collect initial steps s) : Follows items collect initial s := by
  induction h with
  | start => exact ⟨rfl, [], .refl _, rfl⟩
  | step _ hstep ih => exact ih.step hstep

/-- At its end the loop has started every item once and collected all of them, in some order. -/
theorem Run.collected (h : Run items size collect initial steps s) (hfinished : s.finished items = true) :
    s.started = items ∧ ∃ settled : List α, settled.Perm items ∧ s.result = settled.foldl collect initial := by
  obtain ⟨hempty, hlast⟩ := Bool.and_eq_true_iff.mp hfinished
  obtain ⟨settled, hperm, hresult⟩ := h.follows.collected
  have hstarted : s.started = items := by
    rw [h.follows.started]
    exact List.take_of_length_le (of_decide_eq_true hlast)
  rw [List.isEmpty_iff.mp hempty, List.append_nil, hstarted] at hperm
  exact ⟨hstarted, settled, hperm, hresult⟩

/-- A loop that has not ended can go on, with any of the items it waits for. -/
theorem exists_step (size : ℕ) (collect : β → α → β) (h : s.finished items = false) :
    ∃ s', Step items size collect s s' := by
  cases hpending : s.pending with
  | nil =>
    have hnext : s.next < items.length := by simpa [finished, hpending] using h
    exact ⟨_, .begin hpending hnext⟩
  | cons item rest =>
    have hmem : item ∈ s.pending := by
      rw [hpending]
      exact List.mem_cons_self
    exact ⟨_, .settle item hmem⟩

/-- Every slice has an item, and every item settles once. -/
theorem Run.bounded (hsize : 1 ≤ size) (h : Run items size collect initial steps s) :
    steps + s.pending.length + 2 * (items.length - s.next) ≤ 2 * items.length := by
  induction h with
  | start => simp [AwaitAll.start]
  | @step steps s s' _ hstep ih =>
    cases hstep with
    | begin hawaited hnext =>
      have hslice : ((items.drop s.next).take size).length = min size (items.length - s.next) := by
        rw [List.length_take, List.length_drop]
      rw [hawaited, List.length_nil] at ih
      dsimp only [beginSlice]
      omega
    | settle item hpending =>
      have herase := List.length_erase_of_mem hpending
      have hpos := List.length_pos_of_mem hpending
      dsimp only [AwaitAll.settle]
      omega

end AwaitAll
end RedRoomRewards.Process
