import RedRoomRewards.Process.Machine

/-! Runs in which every change of the store is an atomic operation of an abstract object:
the operations in the order of their events are a run of the object, and each call gets the
object's answers. -/
namespace RedRoomRewards.Process

/-- An abstract object: which operations a state admits, what they make of it, and what
they answer. -/
structure Object (S Ω R : Type) where
  admits : S → Ω → Prop
  result : S → Ω → S
  answer : S → Ω → R

/-- An operation that a thread has performed, with its answer. -/
structure Performed (Ω R : Type) where
  thread : ℕ
  operation : Ω
  answer : R

namespace Object
variable {S Ω R : Type} (X : Object S Ω R)

/-- The operations, newest first, lead from `x` to the state, each one where it is admitted. -/
inductive Performs (x : S) : List (Performed Ω R) → S → Prop where
  | start : Performs x [] x
  | perform {ps : List (Performed Ω R)} {y : S} (t : ℕ) (op : Ω) (h : Performs x ps y) (hadmits : X.admits y op) :
      Performs x (⟨t, op, X.answer y op⟩ :: ps) (X.result y op)

variable {I : Interface} {κ : Type} (point : Event I κ → Option Ω) (x : S)

/-- The state after the operations of a log. -/
def stateOf : List (Event I κ) → S
  | [] => x
  | ev :: log => (point ev).elim (stateOf log) (X.result (stateOf log))

/-- The operations of a log, each with the answer that the object gives it. -/
def historyOf : List (Event I κ) → List (Performed Ω R)
  | [] => []
  | ev :: log => ((point ev).map fun op => ⟨ev.thread, op, X.answer (X.stateOf point x log) op⟩).toList ++ historyOf log

/-- What a thread has performed. -/
def performedBy (t : ℕ) (ps : List (Performed Ω R)) : List (Ω × R) :=
  ps.filterMap fun p => if p.thread = t then some (p.operation, p.answer) else none

variable {X point x}

/-- What has been performed stays, and what follows comes later. -/
theorem historyOf_suffix {l l' : List (Event I κ)} (h : l <:+ l') : X.historyOf point x l <:+ X.historyOf point x l' := by
  obtain ⟨new, rfl⟩ := h
  induction new with
  | nil => exact List.suffix_refl _
  | cons ev new ih => exact ih.trans (List.suffix_append _ _)

/-- What is performed stands for an event of its thread. -/
theorem mem_historyOf {l : List (Event I κ)} {p : Performed Ω R} (h : p ∈ X.historyOf point x l) :
    ∃ ev ∈ l, ev.thread = p.thread := by
  induction l with
  | nil => cases h
  | cons ev l ih =>
    rcases List.mem_append.mp h with hnew | hold
    · obtain ⟨op, -, rfl⟩ := Option.map_eq_some_iff.mp (Option.mem_toList.mp hnew)
      exact ⟨ev, .head _, rfl⟩
    · obtain ⟨ev', hmem, hthread⟩ := ih hold
      exact ⟨ev', .tail _ hmem, hthread⟩

end Object

variable {I : Interface} {D O κ ρ ε σ S Ω R : Type} {M : Machine I D O κ ρ ε}
variable {A : State I D κ ρ ε → Label O κ → Prop} {d : D} {s : State I D κ ρ ε}

/-- What an event does to the abstract state: the operation it stands for, or nothing. -/
def Object.Takes (X : Object S Ω R) (x : S) (point : Option Ω) (x' : S) : Prop :=
  match point with
  | some op => X.admits x op ∧ x' = X.result x op
  | none => x' = x

/-- Where each step of a run takes the abstract state along, the run is one of the object. -/
theorem Machine.Reaches.performs (X : Object S Ω R) (point : Event I κ → Option Ω) (abs : D → S)
    (h : M.Reaches A (.start d) s)
    (takes : ∀ s t o call c k, M.Reaches A (.start d) s → A s (.run t o) → s.threads t = some ⟨call, .call c k⟩ →
      X.Takes (abs s.db) (point ⟨t, call, c, (M.exec o s.db c).1⟩) (abs (M.exec o s.db c).2)) :
    X.stateOf point (abs d) s.log = abs s.db ∧ X.Performs (abs d) (X.historyOf point (abs d) s.log) (abs s.db) := by
  induction h using Machine.Reaches.by_steps with
  | start => exact ⟨rfl, .start⟩
  | spawn s t c _ _ _ ih => exact ih
  | act s t o call c k hs hA ht ih =>
    obtain ⟨hstate, hperforms⟩ := ih
    have hstep := takes s t o call c k hs hA ht
    show X.stateOf point (abs d) (⟨t, call, c, (M.exec o s.db c).1⟩ :: s.log) = abs (M.exec o s.db c).2 ∧
      X.Performs (abs d) (X.historyOf point (abs d) (⟨t, call, c, (M.exec o s.db c).1⟩ :: s.log))
        (abs (M.exec o s.db c).2)
    unfold Object.Takes at hstep
    unfold Object.stateOf Object.historyOf
    cases hpoint : point ⟨t, call, c, (M.exec o s.db c).1⟩ with
    | none =>
      rw [hpoint] at hstep
      dsimp only at hstep
      rw [hstep]
      exact ⟨hstate, hperforms⟩
    | some op =>
      rw [hpoint] at hstep
      obtain ⟨hadmits, hresult⟩ := hstep
      rw [hresult, hstate]
      exact ⟨rfl, hperforms.perform t op hadmits⟩
  | restart s t o call c _ _ _ ih => exact ih

/-- Each call has performed what its record says, with the object's answers, where each
step records the operation it takes and the answer of the moment. -/
theorem Machine.Reaches.performedBy_eq {K : Contract I κ ρ ε σ} (X : Object S Ω R) (point : Event I κ → Option Ω)
    (abs : D → S) (recorded : κ → σ → List (Ω × R)) (h : M.Reaches A (.start d) s)
    (takes : ∀ s t o call c k, M.Reaches A (.start d) s → A s (.run t o) → s.threads t = some ⟨call, .call c k⟩ →
      X.Takes (abs s.db) (point ⟨t, call, c, (M.exec o s.db c).1⟩) (abs (M.exec o s.db c).2))
    (start : ∀ call, recorded call (K.start call) = [])
    (records : ∀ s t o call c k, M.Reaches A (.start d) s → A s (.run t o) → s.threads t = some ⟨call, .call c k⟩ →
      recorded call (K.next call (K.record call (s.history t)) c (M.exec o s.db c).1) =
        ((point ⟨t, call, c, (M.exec o s.db c).1⟩).map fun op => (op, X.answer (abs s.db) op)).toList ++
          recorded call (K.record call (s.history t))) :
    ∀ t call x, K.track s t = some (call, x) →
      Object.performedBy t (X.historyOf point (abs d) s.log) = recorded call x := by
  induction h using Machine.Reaches.by_steps with
  | start => simp
  | spawn s t c hs _ ht ih =>
    intro t' call x hx
    rw [Contract.track_spawned hs ht] at hx
    by_cases htt : t' = t
    · subst htt
      obtain ⟨rfl, rfl⟩ : c = call ∧ K.start c = x := by simpa using hx
      rw [start]
      apply List.filterMap_eq_nil_iff.mpr
      intro p hp
      obtain ⟨ev, hev, hthread⟩ := Object.mem_historyOf hp
      rw [if_neg]
      rintro rfl
      have hcalls := hs.calls_of_log ev hev
      rw [hthread] at hcalls
      simp [State.calls, ht] at hcalls
    · rw [Function.update_of_ne htt] at hx
      exact ih t' call x hx
  | act s t o call c k hs hA ht ih =>
    intro t' call' x hx
    rw [Contract.track_acted ht] at hx
    have hstate := (hs.performs X point abs takes).1
    have hlog : X.historyOf point (abs d) (M.acted s t o call c k).log =
        ((point ⟨t, call, c, (M.exec o s.db c).1⟩).map fun op => ⟨t, op, X.answer (abs s.db) op⟩).toList ++
          X.historyOf point (abs d) s.log := by rw [← hstate]; rfl
    rw [hlog, Object.performedBy, List.filterMap_append]
    by_cases htt : t' = t
    · subst htt
      rw [Function.update_self] at hx
      obtain ⟨rfl, rfl⟩ := Prod.mk.inj (Option.some.inj hx)
      rw [records s t' o call c k hs hA ht, ← ih t' call _ (Contract.track_of_thread ht)]
      congr 1
      cases point ⟨t', call, c, (M.exec o s.db c).1⟩ with
      | none => rfl
      | some op => simp
    · rw [Function.update_of_ne htt] at hx
      rw [← ih t' call' x hx]
      refine (congrArg (· ++ _) ?_).trans (List.nil_append _)
      cases point ⟨t, call, c, (M.exec o s.db c).1⟩ with
      | none => rfl
      | some op => simp [Ne.symm htt]
  | restart s t o call c _ _ ht ih =>
    rw [Contract.track_restarted ht]
    exact ih

end RedRoomRewards.Process
