import RedRoomRewards.Process.Machine
import RedRoomRewards.Process.Solo
import Mathlib.Data.Fintype.EquivFin

/-! Executing a given schedule, and running one program alone. -/
namespace RedRoomRewards.Process
variable {I : Interface} {D O κ ρ ε α : Type}

namespace Machine
variable (M : Machine I D O κ ρ ε) (A : State I D κ ρ ε → Label O κ → Prop)
  [∀ s l, Decidable (A s l)]

/-- The state after the given steps, if each can be taken and is allowed. -/
def executeIn : State I D κ ρ ε → List (Label O κ) → Option (State I D κ ρ ε)
  | s, [] => some s
  | s, l :: ls => if A s l then (M.step s l).bind (fun s' => executeIn s' ls) else none

variable {M} {A}

theorem reaches_of_executeIn {ls : List (Label O κ)} : ∀ {s s' : State I D κ ρ ε},
    M.executeIn A s ls = some s' → M.Reaches A s s' := by
  induction ls with
  | nil =>
    intro s s' h
    obtain rfl : s = s' := by simpa [executeIn] using h
    exact .start
  | cons l ls ih =>
    intro s s' h
    rw [executeIn] at h
    split at h
    · rename_i hA
      obtain ⟨s₁, hstep, hrest⟩ := Option.bind_eq_some_iff.mp h
      exact (Reaches.step .start hA hstep).trans (ih hrest)
    · cases h

variable (M) (A) in
/-- A run along a given schedule, with what it leads to. -/
theorem exists_reaches (s : State I D κ ρ ε) (ls : List (Label O κ)) (f : State I D κ ρ ε → α) {a : α}
    (h : (M.executeIn A s ls).map f = some a) : ∃ s', M.Reaches A s s' ∧ f s' = a := by
  obtain ⟨s', hs', ha⟩ := Option.map_eq_some_iff.mp h
  exact ⟨s', reaches_of_executeIn hs', ha⟩

private theorem spawned_of_executeIn {ls : List (Label O κ)} {t : ℕ} {c : κ} :
    ∀ {s s' : State I D κ ρ ε}, M.executeIn A s ls = some s' → .spawn t c ∈ ls → (t, c) ∈ s'.spawns := by
  induction ls with
  | nil => exact fun _ hmem => by cases hmem
  | cons l ls ih =>
    intro s s' h hmem
    rw [executeIn] at h
    split at h
    · obtain ⟨s₁, hstep, hrest⟩ := Option.bind_eq_some_iff.mp h
      rcases List.mem_cons.mp hmem with rfl | hlater
      · apply (reaches_of_executeIn hrest).spawns_suffix.subset
        obtain ⟨t', c', heq, -, rfl⟩ | ⟨t', o, call, c', k, heq, -⟩ | ⟨t', o, call, c', heq, -⟩ := step_cases hstep
        · obtain ⟨rfl, rfl⟩ := Label.spawn.inj heq
          exact .head _
        · cases heq
        · cases heq
      · exact ih hrest hlater
    · cases h

variable (M) (A) in
/-- Two given schedules one after the other, with what they lead to and the calls that
the first one spawns. -/
theorem exists_reaches_twice (d : D) (ls ls' : List (Label O κ))
    (f : State I D κ ρ ε → State I D κ ρ ε → α) {a : α}
    (h : ((M.executeIn A (.start d) ls).bind fun s₁ => (M.executeIn A s₁ ls').map (f s₁)) = some a) :
    ∃ s₁ s₂, M.Reaches A (.start d) s₁ ∧ M.Reaches A s₁ s₂ ∧ f s₁ s₂ = a ∧
      ∀ t c, .spawn t c ∈ ls → s₁.calls t = some c := by
  obtain ⟨s₁, hs₁, hrest⟩ := Option.bind_eq_some_iff.mp h
  obtain ⟨s₂, hs₂, ha⟩ := Option.map_eq_some_iff.mp hrest
  have hreach := reaches_of_executeIn hs₁
  exact ⟨s₁, s₂, hreach, reaches_of_executeIn hs₂, ha, fun t c hmem =>
    hreach.mem_spawns.mp (spawned_of_executeIn hs₁ hmem)⟩

end Machine

section returns

/-- The program ends without calling the code base again. -/
def Prog.Returns : Prog I ε (Next κ ρ) → Prop
  | .ret (.done _) | .throw _ => True
  | .ret (.again _) => False
  | .call _ k => ∀ r, (k r).Returns

theorem Prog.returns_bind (p : Prog I ε α) (f : α → ρ) :
    Prog.Returns (κ := κ) (p >>= fun a => pure (.done (f a))) := by
  induction p with
  | ret a => exact trivial
  | throw e => exact trivial
  | call c k ih => exact ih

variable {M : Machine I D O κ ρ ε} {A : State I D κ ρ ε → Label O κ → Prop} {s : State I D κ ρ ε} {t : ℕ}

/-- `s'` goes on from `s` with steps of thread `t` alone, until its call has returned. -/
structure Machine.Ran (M : Machine I D O κ ρ ε) (A : State I D κ ρ ε → Label O κ → Prop) (t : ℕ)
    (s s' : State I D κ ρ ε) : Prop where
  reaches : M.Reaches A s s'
  returned : (s'.result t).isSome = true
  spawns : s'.spawns = s.spawns
  others : ∀ t' ≠ t, s'.threads t' = s.threads t'

/-- A call in flight can be run to its end, and does to the store what its program does alone. -/
theorem Machine.exists_ran (os : ℕ → O) (hA : ∀ s', s'.spawns = s.spawns → ∀ n, A s' (.run t (os n))) {call : κ}
    {p : Prog I ε (Next κ ρ)} (hp : p.Returns) (ht : s.threads t = some ⟨call, p⟩) :
    ∃ s', M.Ran A t s s' ∧ s'.db = (p.solo M.exec os s.db).2 := by
  induction p generalizing s os with
  | ret x =>
    cases x with
    | done r => exact ⟨s, ⟨.start, by simp [State.result, ht], rfl, fun _ _ => rfl⟩, rfl⟩
    | again c => exact hp.elim
  | throw e => exact ⟨s, ⟨.start, by simp [State.result, ht], rfl, fun _ _ => rfl⟩, rfl⟩
  | call c k ih =>
    have hstep : M.step s (.run t (os 0)) = some (M.acted s t (os 0) call c k) := by simp [step, ht]
    obtain ⟨s', hran, hdb⟩ := ih (M.exec (os 0) s.db c).1 (s := M.acted s t (os 0) call c k) (fun n => os (n + 1))
      (fun s' hs' n => hA s' hs' (n + 1)) (hp _) (Function.update_self _ _ _)
    refine ⟨s', ⟨(Reaches.step .start (hA s rfl 0) hstep).trans hran.reaches, hran.returned, hran.spawns, fun t' hne => ?_⟩, hdb⟩
    exact (hran.others t' hne).trans (Function.update_of_ne hne _ _)

/-- A call can be made and run to its end. -/
theorem Machine.exists_called (os : ℕ → O) {call : κ} (hspawn : A s (.spawn t call))
    (hA : ∀ s', s'.spawns = (t, call) :: s.spawns → ∀ n, A s' (.run t (os n))) (hbody : (M.body call).Returns)
    (hnew : s.threads t = none) :
    ∃ s', M.Ran A t (M.spawned s t call) s' ∧ M.Reaches A s s' ∧ s'.db = ((M.body call).solo M.exec os s.db).2 := by
  have hstep : M.step s (.spawn t call) = some (M.spawned s t call) := by simp [step, hnew]
  obtain ⟨s', hran, hdb⟩ := exists_ran (M := M) os (s := M.spawned s t call) hA hbody (Function.update_self _ _ _)
  exact ⟨s', hran, (Reaches.step .start hspawn hstep).trans hran.reaches, hdb⟩

/-- There is always a thread that has not been spawned. -/
theorem Machine.Reaches.exists_unspawned {d : D} (h : M.Reaches A (.start d) s) : ∃ t, s.threads t = none := by
  obtain ⟨t, ht⟩ := Infinite.exists_notMem_finset (s.spawns.map Prod.fst).toFinset
  refine ⟨t, Option.eq_none_iff_forall_ne_some.mpr fun thread hthread => ht ?_⟩
  have hcall : s.calls t = some thread.call := by simp [State.calls, hthread]
  exact List.mem_toFinset.mpr (List.mem_map.mpr ⟨_, h.mem_spawns.mpr hcall, rfl⟩)

end returns
end RedRoomRewards.Process
