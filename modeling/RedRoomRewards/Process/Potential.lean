import RedRoomRewards.Process.Machine
import Mathlib.Algebra.BigOperators.Group.List.Basic
import Mathlib.Algebra.Order.Ring.Nat

/-! The potential method for runs: what events cost is paid by what other events bring in,
as long as each step pays for itself and for what the potential gains. -/
namespace RedRoomRewards.Process
variable {I : Interface} {D O κ ρ ε : Type}

namespace State
variable (s : State I D κ ρ ε)

/-- What the events so far add up to. -/
def total (f : Event I κ → ℕ) : ℕ := (s.log.map f).sum

@[simp] theorem total_start (d : D) (f : Event I κ → ℕ) : (start d : State I D κ ρ ε).total f = 0 := rfl

/-- A count of events as a sum over them. -/
theorem countP_log (p : Event I κ → Bool) : s.log.countP p = s.total fun ev => if p ev = true then 1 else 0 := by
  rw [total]
  induction s.log with
  | nil => rfl
  | cons ev log ih => rw [List.countP_cons, List.map_cons, List.sum_cons, ih, Nat.add_comm]

end State

variable {M : Machine I D O κ ρ ε} {A : State I D κ ρ ε → Label O κ → Prop} {d : D} {s : State I D κ ρ ε}

/-- Over a run the cost and the potential that is left are at most the income and the
potential at the start. -/
theorem Machine.Reaches.amortized (h : M.Reaches A (.start d) s) (potential : State I D κ ρ ε → ℕ)
    (cost income : Event I κ → ℕ)
    (spawn : ∀ s t c, M.Reaches A (.start d) s → A s (.spawn t c) → s.threads t = none →
      potential (M.spawned s t c) ≤ potential s)
    (act : ∀ s t o call c k, M.Reaches A (.start d) s → A s (.run t o) → s.threads t = some ⟨call, .call c k⟩ →
      cost ⟨t, call, c, (M.exec o s.db c).1⟩ + potential (M.acted s t o call c k) ≤
        income ⟨t, call, c, (M.exec o s.db c).1⟩ + potential s)
    (restart : ∀ s t call c, M.Reaches A (.start d) s → s.threads t = some ⟨call, .ret (.again c)⟩ →
      potential (M.restarted s t call c) ≤ potential s) :
    s.total cost + potential s ≤ s.total income + potential (.start d) := by
  induction h using Machine.Reaches.by_steps with
  | start => simp
  | spawn s t c hs hA ht ih => exact (Nat.add_le_add_left (spawn s t c hs hA ht) _).trans ih
  | act s t o call c k hs hA ht ih =>
    have hstep := act s t o call c k hs hA ht
    have hcost : (M.acted s t o call c k).total cost = cost ⟨t, call, c, (M.exec o s.db c).1⟩ + s.total cost := rfl
    have hincome : (M.acted s t o call c k).total income =
        income ⟨t, call, c, (M.exec o s.db c).1⟩ + s.total income := rfl
    omega
  | restart s t o call c hs hA ht ih => exact (Nat.add_le_add_left (restart s t call c hs ht) _).trans ih

/-- Each event that takes a debt away is paid for by one that brings the debt about. -/
theorem Machine.Reaches.charged (h : M.Reaches A (.start d) s) (owes : State I D κ ρ ε → Prop)
    (settles pays : Event I κ → Bool) (start : ¬ owes (.start d))
    (spawn : ∀ s t c, M.Reaches A (.start d) s → s.threads t = none → owes (M.spawned s t c) → owes s)
    (act : ∀ s t o call c k, M.Reaches A (.start d) s → A s (.run t o) → s.threads t = some ⟨call, .call c k⟩ →
      (settles ⟨t, call, c, (M.exec o s.db c).1⟩ = true → owes s ∧ ¬ owes (M.acted s t o call c k)) ∧
        (owes (M.acted s t o call c k) → owes s ∨ pays ⟨t, call, c, (M.exec o s.db c).1⟩ = true))
    (restart : ∀ s t call c, M.Reaches A (.start d) s → s.threads t = some ⟨call, .ret (.again c)⟩ →
      owes (M.restarted s t call c) → owes s) : s.log.countP settles ≤ s.log.countP pays := by
  classical
  have hmono : ∀ s s' : State I D κ ρ ε, (owes s' → owes s) → (if owes s' then 1 else 0) ≤ if owes s then 1 else 0 := by
    intro s s' himp
    by_cases hs' : owes s'
    · rw [if_pos hs', if_pos (himp hs')]
    · rw [if_neg hs']
      exact Nat.zero_le _
  have hpaid := h.amortized (fun s => if owes s then 1 else 0) (fun ev => if settles ev = true then 1 else 0)
    (fun ev => if pays ev = true then 1 else 0) (fun s t c hs _ ht => hmono _ _ (spawn s t c hs ht)) ?_
    (fun s t call c hs ht => hmono _ _ (restart s t call c hs ht))
  · rw [if_neg start] at hpaid
    rw [s.countP_log, s.countP_log]
    omega
  · intro s t o call c k hs hA ht
    obtain ⟨hsettles, howes⟩ := act s t o call c k hs hA ht
    generalize (⟨t, call, c, (M.exec o s.db c).1⟩ : Event I κ) = ev at hsettles howes ⊢
    by_cases hsettle : settles ev = true
    · obtain ⟨hbefore, hafter⟩ := hsettles hsettle
      rw [if_pos hsettle, if_pos hbefore, if_neg hafter]
      omega
    · rw [if_neg hsettle]
      by_cases hafter : owes (M.acted s t o call c k)
      · rcases howes hafter with hbefore | hpays
        · rw [if_pos hafter, if_pos hbefore]
          omega
        · rw [if_pos hafter, if_pos hpays]
          omega
      · rw [if_neg hafter]
        omega

end RedRoomRewards.Process
