import RedRoomRewards.Process.Execution

/-! Two runs of one machine in lockstep. An observer does not tell the runs apart if what it
takes for the same stays the same in every step: what a command does to stores that it takes
for the same, and what programs issue that get the same replies. -/
namespace RedRoomRewards.Process
variable {I : Interface} {D O κ ρ ε α β : Type}

/-- What an observer takes for the same. -/
structure Likeness (I : Interface) (D κ ρ ε : Type) where
  db : D → D → Prop
  cmd : I.Cmd → I.Cmd → Prop
  reply : (c c' : I.Cmd) → I.Reply c → I.Reply c' → Prop
  call : κ → κ → Prop
  response : ρ → ρ → Prop
  error : ε → ε → Prop

namespace Likeness
variable (L : Likeness I D κ ρ ε)

/-- Programs that issue like commands as long as they get like replies, and end alike. -/
inductive Progs (value : α → α → Prop) : Prog I ε α → Prog I ε α → Prop
  | ret {a a' : α} (h : value a a') : Progs value (.ret a) (.ret a')
  | throw {e e' : ε} (h : L.error e e') : Progs value (.throw e) (.throw e')
  | call {c c' : I.Cmd} {k : I.Reply c → Prog I ε α} {k' : I.Reply c' → Prog I ε α} (hc : L.cmd c c')
      (hk : ∀ r r', L.reply c c' r r' → Progs value (k r) (k' r')) : Progs value (.call c k) (.call c' k')

inductive Nexts : Next κ ρ → Next κ ρ → Prop
  | done {r r' : ρ} (h : L.response r r') : Nexts (.done r) (.done r')
  | again {c c' : κ} (h : L.call c c') : Nexts (.again c) (.again c')

structure Threads (th th' : Thread I κ ρ ε) : Prop where
  call : L.call th.call th'.call
  prog : L.Progs L.Nexts th.prog th'.prog

structure States (s s' : State I D κ ρ ε) : Prop where
  db : L.db s.db s'.db
  threads : ∀ t, Option.Rel L.Threads (s.threads t) (s'.threads t)

/-- The same step of two runs; what a store leaves open is the same in both. -/
inductive Labels : Label O κ → Label O κ → Prop
  | spawn (t : ℕ) {c c' : κ} (h : L.call c c') : Labels (.spawn t c) (.spawn t c')
  | run (t : ℕ) (o : O) : Labels (.run t o) (.run t o)

/-- The observer cannot tell apart what the machine makes of what it does not tell apart. -/
structure Respected (M : Machine I D O κ ρ ε) : Prop where
  exec : ∀ o d d' c c', L.db d d' → L.cmd c c' →
    L.reply c c' (M.exec o d c).1 (M.exec o d' c').1 ∧ L.db (M.exec o d c).2 (M.exec o d' c').2
  body : ∀ c c', L.call c c' → L.Progs L.Nexts (M.body c) (M.body c')

variable {L} {value : α → α → Prop} {value' : β → β → Prop}

theorem Progs.bind {p p' : Prog I ε α} {f f' : α → Prog I ε β} (hp : L.Progs value p p')
    (hf : ∀ a a', value a a' → L.Progs value' (f a) (f' a')) : L.Progs value' (p >>= f) (p' >>= f') := by
  induction hp with
  | ret h => exact hf _ _ h
  | throw h => exact .throw h
  | call hc _ ih => exact .call hc ih

theorem progs_throwIf {p : Prop} [Decidable p] {e : ε} (he : L.error e e) :
    L.Progs (fun _ _ => True) (Prog.throwIf p e : Prog I ε Unit) (Prog.throwIf p e) := by
  by_cases hp : p
  · rw [Prog.throwIf_pos hp]
    exact .throw he
  · rw [Prog.throwIf_neg hp]
    exact .ret trivial

variable {s s' r r' : State I D κ ρ ε}

/-- The results that the observer sees are alike. -/
theorem States.result (h : L.States s s') (hresponse : ∀ r r', L.response r r' → r = r')
    (herror : ∀ e e', L.error e e' → e = e') (t : ℕ) : s.result t = s'.result t := by
  have ht := h.threads t
  simp only [State.result]
  generalize s.threads t = th at ht ⊢
  generalize s'.threads t = th' at ht ⊢
  cases ht with
  | none => rfl
  | @some th th' hth =>
    obtain ⟨call, p⟩ := th
    obtain ⟨call', p'⟩ := th'
    have hp : L.Progs L.Nexts p p' := hth.prog
    cases hp with
    | ret hnext =>
      cases hnext with
      | done hr => rw [hresponse _ _ hr]
      | again => rfl
    | throw he => rw [herror _ _ he]
    | call => rfl

private theorem threads_update (h : ∀ t, Option.Rel L.Threads (s.threads t) (s'.threads t)) (t : ℕ)
    {th th' : Thread I κ ρ ε} (hth : L.Threads th th') (t' : ℕ) :
    Option.Rel L.Threads (Function.update s.threads t (some th) t') (Function.update s'.threads t (some th') t') := by
  by_cases htt : t' = t
  · rw [htt, Function.update_self, Function.update_self]
    exact .some hth
  · rw [Function.update_of_ne htt, Function.update_of_ne htt]
    exact h t'

variable {M : Machine I D O κ ρ ε} {l l' : Label O κ}

/-- A step that one run takes the other can take too, and they stay alike. -/
theorem States.step (h : L.States s s') (hM : L.Respected M) (hl : L.Labels l l') :
    Option.Rel L.States (M.step s l) (M.step s' l') := by
  cases hl with
  | spawn t hcall =>
    have ht := h.threads t
    simp only [Machine.step]
    generalize hth : s.threads t = th at ht
    generalize hth' : s'.threads t = th' at ht
    cases ht with
    | none => exact .some ⟨h.db, threads_update h.threads t ⟨hcall, hM.body _ _ hcall⟩⟩
    | some => exact .none
  | run t o =>
    have ht := h.threads t
    simp only [Machine.step]
    generalize hth : s.threads t = th at ht
    generalize hth' : s'.threads t = th' at ht
    cases ht with
    | none => exact .none
    | @some th th' halike =>
      obtain ⟨call, p⟩ := th
      obtain ⟨call', p'⟩ := th'
      obtain ⟨hcall, hp⟩ := halike
      cases hp with
      | ret hnext =>
        cases hnext with
        | done => exact .none
        | again hagain => exact .some ⟨h.db, threads_update h.threads t ⟨hcall, hM.body _ _ hagain⟩⟩
      | throw => exact .none
      | call hc hk =>
        obtain ⟨hreply, hdb⟩ := hM.exec o _ _ _ _ h.db hc
        exact .some ⟨hdb, threads_update h.threads t ⟨hcall, hk _ _ hreply⟩⟩

end Likeness

/-- Two runs that take the same steps. -/
inductive Machine.Lockstep (M : Machine I D O κ ρ ε) (L : Likeness I D κ ρ ε) (s₀ s₀' : State I D κ ρ ε) :
    State I D κ ρ ε → State I D κ ρ ε → Prop
  | start : M.Lockstep L s₀ s₀' s₀ s₀'
  | step {s s' r r' : State I D κ ρ ε} {l l' : Label O κ} (h : M.Lockstep L s₀ s₀' s s') (hl : L.Labels l l')
      (hr : M.step s l = some r) (hr' : M.step s' l' = some r') : M.Lockstep L s₀ s₀' r r'

namespace Machine
variable {M : Machine I D O κ ρ ε} {L : Likeness I D κ ρ ε} {s₀ s₀' s s' : State I D κ ρ ε}

/-- Runs in lockstep stay alike. -/
theorem Lockstep.states (h : M.Lockstep L s₀ s₀' s s') (hM : L.Respected M) (h₀ : L.States s₀ s₀') : L.States s s' := by
  induction h with
  | start => exact h₀
  | step _ hl hr hr' ih =>
    have hstep := ih.step hM hl
    rw [hr, hr'] at hstep
    cases hstep with
    | some hstates => exact hstates

section schedules
variable {A : State I D κ ρ ε → Label O κ → Prop} [∀ s l, Decidable (A s l)]

private theorem lockstep_of_executeIn {ls ls' : List (Label O κ)} (hls : List.Forall₂ L.Labels ls ls') {r r' : State I D κ ρ ε}
    (h : M.Lockstep L s₀ s₀' s s') (hr : M.executeIn A s ls = some r) (hr' : M.executeIn A s' ls' = some r') :
    M.Lockstep L s₀ s₀' r r' := by
  induction hls generalizing s s' with
  | nil =>
    obtain rfl : s = r := Option.some.inj hr
    obtain rfl : s' = r' := Option.some.inj hr'
    exact h
  | @cons l l' ls ls' hl _ ih =>
    rw [executeIn] at hr hr'
    by_cases hA : A s l
    · by_cases hA' : A s' l'
      · rw [if_pos hA] at hr
        rw [if_pos hA'] at hr'
        obtain ⟨_, hstep, hrest⟩ := Option.bind_eq_some_iff.mp hr
        obtain ⟨_, hstep', hrest'⟩ := Option.bind_eq_some_iff.mp hr'
        exact ih (h.step hl hstep hstep') hrest hrest'
      · rw [if_neg hA'] at hr'
        cases hr'
    · rw [if_neg hA] at hr
      cases hr

variable (M) (A) in
/-- Two given schedules of like steps, with what they lead to. -/
theorem exists_lockstep (s₀ s₀' : State I D κ ρ ε) {ls ls' : List (Label O κ)} (hls : List.Forall₂ L.Labels ls ls')
    (f : State I D κ ρ ε → State I D κ ρ ε → α) {a : α}
    (h : ((M.executeIn A s₀ ls).bind fun s => (M.executeIn A s₀' ls').map (f s)) = some a) :
    ∃ s s', M.Lockstep L s₀ s₀' s s' ∧ f s s' = a := by
  obtain ⟨s, hs, hrest⟩ := Option.bind_eq_some_iff.mp h
  obtain ⟨s', hs', ha⟩ := Option.map_eq_some_iff.mp hrest
  exact ⟨s, s', lockstep_of_executeIn hls .start hs hs', ha⟩

end schedules

end Machine
end RedRoomRewards.Process
