import RedRoomRewards.Process.Machine
import Mathlib.Algebra.BigOperators.Group.Finset.Piecewise

/-! What a thread is about to do, and sums over a log taken thread by thread. -/
namespace RedRoomRewards.Process
variable {I : Interface} {D O κ ρ ε : Type}

namespace State
variable (s : State I D κ ρ ε)

/-- The call of thread `t` and the command it issues next. -/
def pending (t : ℕ) : Option (κ × I.Cmd) :=
  match s.threads t with
  | some ⟨call, .call c _⟩ => some (call, c)
  | _ => none

/-- Runs in which every command satisfies `p` when it is issued. -/
def Issues (p : State I D κ ρ ε → O → κ → I.Cmd → Prop) : State I D κ ρ ε → Label O κ → Prop
  | _, .spawn _ _ => True
  | s, .run t o => ∀ x ∈ s.pending t, p s o x.1 x.2

instance (p : State I D κ ρ ε → O → κ → I.Cmd → Prop) [∀ s o call c, Decidable (p s o call c)]
    (l : Label O κ) : Decidable (Issues p s l) :=
  match l with
  | .spawn .. | .run .. => by dsimp only [Issues]; infer_instance

variable {s}

theorem Issues.command {p : State I D κ ρ ε → O → κ → I.Cmd → Prop} {t : ℕ} {o : O} {call : κ}
    {c : I.Cmd} {k : I.Reply c → Prog I ε (Next κ ρ)} (h : Issues p s (.run t o))
    (ht : s.threads t = some ⟨call, .call c k⟩) : p s o call c :=
  h (call, c) (by simp [pending, ht])

section sums
variable {A : Type} [AddCommMonoid A]

private theorem sum_threads (f : Event I κ → A) (T : Finset ℕ) (log : List (Event I κ))
    (hT : ∀ ev ∈ log, ev.thread ∈ T) :
    (log.map f).sum = ∑ t ∈ T, ((log.filter (fun ev => ev.thread = t)).map f).sum := by
  induction log with
  | nil => simp
  | cons ev log ih =>
    have hsplit : ∀ t, (((ev :: log).filter (fun ev => ev.thread = t)).map f).sum =
        (if ev.thread = t then f ev else 0) + ((log.filter (fun ev => ev.thread = t)).map f).sum := by
      intro t
      by_cases ht : ev.thread = t <;> simp [ht]
    rw [List.map_cons, List.sum_cons, ih fun ev' hev' => hT ev' (.tail _ hev')]
    rw [Finset.sum_congr rfl fun t _ => hsplit t, Finset.sum_add_distrib, Finset.sum_ite_eq,
      if_pos (hT ev (.head _))]

variable (s) in
/-- A log adds up to what the histories of its threads add up to. -/
theorem sum_log (f : Event I κ → A) : (s.log.map f).sum =
    ∑ t ∈ (s.log.map Event.thread).toFinset, ((s.history t).map f).sum :=
  sum_threads f _ _ fun _ hev => List.mem_toFinset.mpr (List.mem_map_of_mem hev)

end sums
end State

/-- A thread that is about to issue a command has a record. -/
theorem Contract.track_of_pending {σ : Type} {K : Contract I κ ρ ε σ} {s : State I D κ ρ ε} {t : ℕ} {call : κ}
    {c : I.Cmd} (hpending : s.pending t = some (call, c)) :
    K.track s t = some (call, K.record call (s.history t)) := by
  unfold State.pending at hpending
  split at hpending
  · rename_i ht
    obtain ⟨rfl, rfl⟩ := Prod.mk.inj (Option.some.inj hpending)
    exact track_of_thread ht
  · cases hpending

/-- What a thread is about to issue, its contract allows. -/
theorem Contract.Kept.may_pending {σ : Type} {K : Contract I κ ρ ε σ} {M : Machine I D O κ ρ ε}
    {A : State I D κ ρ ε → Label O κ → Prop} {d : D} {s : State I D κ ρ ε} (hK : K.Kept M)
    (h : M.Reaches A (.start d) s) {t : ℕ} {call call' : κ} {x : σ} {c : I.Cmd}
    (hx : K.track s t = some (call, x)) (hpending : s.pending t = some (call', c)) : K.may call x c := by
  unfold State.pending at hpending
  split at hpending
  · rename_i ht
    obtain ⟨rfl, rfl⟩ := Prod.mk.inj (Option.some.inj hpending)
    obtain ⟨rfl, rfl⟩ := Prod.mk.inj (Option.some.inj (hx.symm.trans (track_of_thread ht)))
    exact hK.may h ht
  · cases hpending

/-- A call in flight can take its next step. -/
theorem Machine.exists_step (M : Machine I D O κ ρ ε) {s : State I D κ ρ ε} {t : ℕ} {call : κ}
    (hcall : s.calls t = some call) (hrunning : s.result t = none) (o : O) : ∃ s', M.step s (.run t o) = some s' := by
  obtain ⟨⟨call', p⟩, ht, rfl⟩ := Option.map_eq_some_iff.mp hcall
  cases p with
  | call c k => exact ⟨M.acted s t o call' c k, by simp [step, ht]⟩
  | throw e => simp [State.result, ht] at hrunning
  | ret x =>
    cases x with
    | done r => simp [State.result, ht] at hrunning
    | again c => exact ⟨M.restarted s t call' c, by simp [step, ht]⟩

/-- Thread `t` steps from `s₁` to `s₂` in a run that goes on to `s`. -/
structure Machine.Steps (M : Machine I D O κ ρ ε) (A : State I D κ ρ ε → Label O κ → Prop) (d : D) (t : ℕ)
    (s₁ s₂ s : State I D κ ρ ε) : Prop where
  reaches : M.Reaches A (.start d) s₁
  step : ∃ o, A s₁ (.run t o) ∧ M.step s₁ (.run t o) = some s₂
  later : M.Reaches A s₂ s

/-- Every event of a run is the event of one of its steps. -/
theorem Machine.Reaches.step_of_event {M : Machine I D O κ ρ ε} {A : State I D κ ρ ε → Label O κ → Prop}
    {d : D} {s : State I D κ ρ ε} (h : M.Reaches A (.start d) s) {ev : Event I κ} (hev : ev ∈ s.log) :
    ∃ s₁ o k, s₁.threads ev.thread = some ⟨ev.call, .call ev.cmd k⟩ ∧
      (M.exec o s₁.db ev.cmd).1 = ev.reply ∧
      M.Steps A d ev.thread s₁ (M.acted s₁ ev.thread o ev.call ev.cmd k) s := by
  induction h using Machine.Reaches.by_steps with
  | start => cases hev
  | spawn s t c hs hA ht ih =>
    obtain ⟨s₁, o, k, hthread, hreply, hsteps⟩ := ih hev
    exact ⟨s₁, o, k, hthread, hreply, hsteps.reaches, hsteps.step, .step hsteps.later hA (by simp [Machine.step, ht])⟩
  | act s t o call c k hs hA ht ih =>
    have hstep : M.step s (.run t o) = some (M.acted s t o call c k) := by simp [Machine.step, ht]
    rcases List.mem_cons.mp hev with rfl | hold
    · exact ⟨s, o, k, ht, rfl, hs, ⟨o, hA, hstep⟩, .start⟩
    · obtain ⟨s₁, o₁, k₁, hthread, hreply, hsteps⟩ := ih hold
      exact ⟨s₁, o₁, k₁, hthread, hreply, hsteps.reaches, hsteps.step, .step hsteps.later hA hstep⟩
  | restart s t o call c hs hA ht ih =>
    obtain ⟨s₁, o₁, k, hthread, hreply, hsteps⟩ := ih hev
    exact ⟨s₁, o₁, k, hthread, hreply, hsteps.reaches, hsteps.step, .step hsteps.later hA (by simp [Machine.step, ht])⟩

theorem Machine.Reaches.quiescent_iff {M : Machine I D O κ ρ ε} {A : State I D κ ρ ε → Label O κ → Prop}
    {d : D} {s : State I D κ ρ ε} (h : M.Reaches A (.start d) s) :
    s.Quiescent ↔ ∀ x ∈ s.spawns, (s.result x.1).isSome := by
  have hsome : ∀ t, (s.threads t).isSome ↔ ∃ c, (t, c) ∈ s.spawns := by
    intro t
    simp only [h.mem_spawns, State.calls, Option.map_eq_some_iff, Option.isSome_iff_exists]
    constructor
    · rintro ⟨th, hth⟩
      exact ⟨_, th, hth, rfl⟩
    · rintro ⟨_, th, hth, _⟩
      exact ⟨th, hth⟩
  constructor
  · rintro hq ⟨t, c⟩ hmem
    exact hq t ((hsome t).mpr ⟨c, hmem⟩)
  · intro hall t ht
    obtain ⟨c, hmem⟩ := (hsome t).mp ht
    exact hall _ hmem

/-- Where every call has returned, the run is at rest and no call has thrown. -/
theorem Machine.Reaches.returned {M : Machine I D O κ ρ ε} {A : State I D κ ρ ε → Label O κ → Prop}
    {d : D} {s : State I D κ ρ ε} (h : M.Reaches A (.start d) s)
    (hall : s.spawns.all (fun x => (s.result x.1).any Except.isOk) = true) :
    s.Quiescent ∧ ∀ t e, s.result t ≠ some (.error e) := by
  rw [List.all_eq_true] at hall
  constructor
  · apply h.quiescent_iff.mpr
    intro x hx
    have hok := hall x hx
    cases hr : s.result x.1 with
    | none => simp [hr] at hok
    | some r => rfl
  · intro t e hr
    have hspawned : ∃ c, (t, c) ∈ s.spawns := by
      simp only [h.mem_spawns, State.calls]
      cases ht : s.threads t with
      | none => simp [State.result, ht] at hr
      | some th => exact ⟨th.call, rfl⟩
    obtain ⟨c, hc⟩ := hspawned
    have hok := hall _ hc
    simp [hr, Except.isOk, Except.toBool] at hok

section successes
variable {M : Machine I D O κ ρ ε} {A : State I D κ ρ ε → Label O κ → Prop} {d : D} {s : State I D κ ρ ε}
variable {G : Type} [AddCommMonoid G]

/-- What the calls that have returned a response add up to. -/
def State.successes (s : State I D κ ρ ε) (f : κ → G) : G :=
  (s.spawns.map fun x => if (s.result x.1).any Except.isOk = true then f x.2 else 0).sum

/-- No thread is spawned twice. -/
theorem Machine.Reaches.spawns_nodup (h : M.Reaches A (.start d) s) : (s.spawns.map Prod.fst).Nodup := by
  induction h using Machine.Reaches.by_steps with
  | start => exact List.nodup_nil
  | spawn s t c hs _ ht ih =>
    refine List.nodup_cons.mpr ⟨fun hmem => ?_, ih⟩
    obtain ⟨⟨t', c'⟩, hspawned, rfl⟩ := List.mem_map.mp hmem
    have hcalls := hs.mem_spawns.mp hspawned
    simp [State.calls, ht] at hcalls
  | act s t o call c k _ _ _ ih => exact ih
  | restart s t o call c _ _ _ ih => exact ih

private theorem sum_of_nodup {t : ℕ} {c : κ} {a : G} {g g' : ℕ × κ → G} (l : List (ℕ × κ))
    (hnodup : (l.map Prod.fst).Nodup) (hmem : (t, c) ∈ l) (hsame : ∀ x, x.1 ≠ t → g' x = g x) (hg : g (t, c) = 0)
    (hg' : g' (t, c) = a) : (l.map g').sum = (l.map g).sum + a := by
  induction l with
  | nil => cases hmem
  | cons x l ih =>
    obtain ⟨hnew, hnodup'⟩ := List.nodup_cons.mp hnodup
    rw [List.map_cons, List.map_cons, List.sum_cons, List.sum_cons]
    rcases List.mem_cons.mp hmem with rfl | hlater
    · have hrest : l.map g' = l.map g := List.map_congr_left fun y hy => hsame y fun heq =>
        hnew (List.mem_map.mpr ⟨y, hy, heq⟩)
      rw [hrest, hg, hg', zero_add, add_comm]
    · have hne : x.1 ≠ t := fun heq => hnew (heq ▸ List.mem_map_of_mem hlater)
      rw [ih hnodup' hlater, hsame x hne, add_assoc]

/-- A step of a thread in flight adds what its call counts for, if it returns. -/
theorem Machine.Reaches.successes_step (h : M.Reaches A (.start d) s) {s' : State I D κ ρ ε} {t : ℕ} {call : κ}
    (hcall : s.calls t = some call) (hrunning : s.result t = none)
    (hothers : ∀ t' ≠ t, s'.threads t' = s.threads t') (hspawns : s'.spawns = s.spawns) (f : κ → G) :
    s'.successes f = s.successes f + if (s'.result t).any Except.isOk = true then f call else 0 := by
  rw [State.successes, State.successes, hspawns]
  refine sum_of_nodup s.spawns h.spawns_nodup (h.mem_spawns.mpr hcall) (fun x hne => ?_) ?_ rfl
  · rw [State.result_congr (hothers x.1 hne)]
  · rw [hrunning]
    rfl

/-- A new thread that does not return at once adds nothing. -/
theorem Machine.Reaches.successes_spawned (h : M.Reaches A (.start d) s) {t : ℕ} {c : κ} (ht : s.threads t = none)
    (hnot : ((M.spawned s t c).result t).any Except.isOk = false) (f : κ → G) :
    (M.spawned s t c).successes f = s.successes f := by
  have hothers : ∀ x ∈ s.spawns, (M.spawned s t c).result x.1 = s.result x.1 := by
    rintro ⟨t', c'⟩ hmem
    refine State.result_congr (Function.update_of_ne ?_ _ _)
    rintro rfl
    have hcalls := h.mem_spawns.mp hmem
    simp [State.calls, ht] at hcalls
  rw [State.successes, State.successes]
  show (if ((M.spawned s t c).result t).any Except.isOk = true then f c else 0) + _ = _
  rw [hnot, if_neg Bool.false_ne_true, zero_add]
  congr 1
  apply List.map_congr_left
  intro x hx
  rw [hothers x hx]

end successes

end RedRoomRewards.Process
