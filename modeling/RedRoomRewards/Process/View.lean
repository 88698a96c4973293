import RedRoomRewards.Process.History

/-! What the invariants of a run speak of, and an induction over runs in these terms: the
store, how far each thread has come in its contract, and what has happened. -/
namespace RedRoomRewards.Process
variable {I : Interface} {D O κ ρ ε σ : Type}

structure View (I : Interface) (D κ σ : Type) where
  db : D
  stages : ℕ → Option (κ × σ)
  log : List (Event I κ)
  spawns : List (ℕ × κ)

namespace View

def start (d : D) : View I D κ σ := ⟨d, fun _ => none, [], []⟩

variable (v : View I D κ σ)

def spawned (t : ℕ) (call : κ) (x : σ) : View I D κ σ :=
  { v with stages := Function.update v.stages t (some (call, x)), spawns := (t, call) :: v.spawns }

/-- Thread `t` has executed the command `c` of its call. -/
def acted (t : ℕ) (call : κ) (c : I.Cmd) (r : I.Reply c) (db' : D) (x' : σ) : View I D κ σ where
  db := db'
  stages := Function.update v.stages t (some (call, x'))
  log := ⟨t, call, c, r⟩ :: v.log
  spawns := v.spawns

variable {v} {t t' : ℕ} {call call' : κ} {c : I.Cmd} {r : I.Reply c} {db' : D} {x x' y : σ}

theorem stages_spawned (h : (v.spawned t call x).stages t' = some (call', y)) :
    t' = t ∧ call' = call ∧ y = x ∨ t' ≠ t ∧ v.stages t' = some (call', y) := by
  by_cases htt : t' = t
  · subst htt
    obtain ⟨rfl, rfl⟩ : call = call' ∧ x = y := by simpa [spawned] using h
    exact .inl ⟨rfl, rfl, rfl⟩
  · exact .inr ⟨htt, (Function.update_of_ne htt _ _).symm.trans h⟩

/-- A thread that is spawned leaves the stages of the others. -/
theorem stages_spawned_old (hnone : v.stages t = none) (h : v.stages t' = some (call', y)) :
    (v.spawned t call x).stages t' = some (call', y) := by
  refine (Function.update_of_ne ?_ _ _).trans h
  rintro rfl
  rw [hnone] at h
  cases h

theorem stages_acted (h : (v.acted t call c r db' x').stages t' = some (call', y)) :
    t' = t ∧ call' = call ∧ y = x' ∨ t' ≠ t ∧ v.stages t' = some (call', y) := by
  by_cases htt : t' = t
  · subst htt
    obtain ⟨rfl, rfl⟩ : call = call' ∧ x' = y := by simpa [acted] using h
    exact .inl ⟨rfl, rfl, rfl⟩
  · exact .inr ⟨htt, (Function.update_of_ne htt _ _).symm.trans h⟩

@[simp] theorem stages_acted_self : (v.acted t call c r db' x').stages t = some (call, x') :=
  Function.update_self t _ _

theorem stages_acted_ne (htt : t' ≠ t) : (v.acted t call c r db' x').stages t' = v.stages t' :=
  Function.update_of_ne htt _ _

end View

namespace Contract
variable (K : Contract I κ ρ ε σ)

def view (s : State I D κ ρ ε) : View I D κ σ := ⟨s.db, K.track s, s.log, s.spawns⟩

variable {K} {M : Machine I D O κ ρ ε} {A : State I D κ ρ ε → Label O κ → Prop} {d : D} {s : State I D κ ρ ε}

/-- Induction over runs: a call starts, or a thread issues a command that its contract allows. -/
theorem Kept.view_invariant (hK : K.Kept M) {P : View I D κ σ → Prop} (h : M.Reaches A (.start d) s)
    (start : P (.start d))
    (spawn : ∀ s t call, M.Reaches A (.start d) s → A s (.spawn t call) → (K.view s).stages t = none →
      P (K.view s) → P ((K.view s).spawned t call (K.start call)))
    (act : ∀ s t o call x c, M.Reaches A (.start d) s → A s (.run t o) → s.pending t = some (call, c) →
      (K.view s).stages t = some (call, x) → K.may call x c → P (K.view s) →
      P ((K.view s).acted t call c (M.exec o s.db c).1 (M.exec o s.db c).2 (K.next call x c (M.exec o s.db c).1))) :
    P (K.view s) := by
  induction h using Machine.Reaches.by_steps with
  | start => exact start
  | spawn s t call hs hA ht ih =>
    have hview : K.view (M.spawned s t call) = (K.view s).spawned t call (K.start call) := by
      rw [view, track_spawned hs ht]
      rfl
    rw [hview]
    refine spawn s t call hs hA ?_ ih
    simp [view, track, State.calls, ht]
  | act s t o call c k hs hA ht ih =>
    have hview : K.view (M.acted s t o call c k) = (K.view s).acted t call c (M.exec o s.db c).1 (M.exec o s.db c).2
        (K.next call (K.record call (s.history t)) c (M.exec o s.db c).1) := by
      rw [view, track_acted ht]
      rfl
    rw [hview]
    exact act s t o call _ c hs hA (by simp [State.pending, ht]) (track_of_thread ht) (hK.may hs ht) ih
  | restart s t o call c hs hA ht ih =>
    have hview : K.view (M.restarted s t call c) = K.view s := by
      rw [view, track_restarted ht]
      rfl
    rw [hview]
    exact ih

/-- The stage of a thread whose call is known. -/
theorem stage_of_call {t : ℕ} {call : κ} (h : s.calls t = some call) : ∃ x, (K.view s).stages t = some (call, x) :=
  ⟨K.record call (s.history t), by simp [view, track, h]⟩

end Contract
end RedRoomRewards.Process
