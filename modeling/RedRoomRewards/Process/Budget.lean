import RedRoomRewards.Process.Machine
import Mathlib.Algebra.Order.Ring.Nat

/-! What programs spend: every command has its price, and some replies pay a price back.
The purse of a call bounds what its thread spends in any run. -/
namespace RedRoomRewards.Process
variable {I : Interface} {D O κ ρ ε α β : Type}

namespace Prog
variable (price : I.Cmd → ℕ) (refund : (c : I.Cmd) → I.Reply c → ℕ)

/-- Commands are paid for from a purse, into which refunds go. -/
def purse : Rules I ℕ where
  possible := fun _ _ => True
  next := fun n c r => n - price c + refund c r
  may := fun n c => price c ≤ n

/-- Whatever the replies, the program spends at most so much. -/
def Spends : ℕ → Prog I ε α → Prop
  | _, ret _ => True
  | _, throw _ => True
  | n, call c k => price c ≤ n ∧ ∀ r, Spends (n - price c) (k r)

variable {price} {refund} {m n : ℕ} {c : I.Cmd}

theorem Spends.mono {p : Prog I ε α} (h : Spends price m p) (hle : m ≤ n) : Spends price n p := by
  induction p generalizing m n with
  | ret a => trivial
  | throw e => trivial
  | call c k ih => exact ⟨Nat.le_trans h.1 hle, fun r => ih r (h.2 r) (by omega)⟩

theorem spends_bind {p : Prog I ε α} {f : α → Prog I ε β} (hp : Spends price m p)
    (hf : ∀ a, Spends price n (f a)) : Spends price (m + n) (p >>= f) := by
  induction p generalizing m with
  | ret a => exact (hf a).mono (by omega)
  | throw e => trivial
  | call c k ih =>
    refine ⟨Nat.le_trans hp.1 (by omega), fun r => (ih r (hp.2 r)).mono ?_⟩
    have := hp.1
    omega

theorem spends_ask {k : I.Reply c → Prog I ε α} (hk : ∀ r, Spends price n (k r)) :
    Spends price (price c + n) (ask c >>= k) := by
  refine ⟨by omega, fun r => (hk r).mono ?_⟩
  omega

theorem spends_throwIf {p : Prop} [Decidable p] {e : ε} {f : Unit → Prog I ε α}
    (hf : Spends price n (f ())) : Spends price n (throwIf p e >>= f) := by
  unfold throwIf
  split
  · trivial
  · exact hf

theorem spends_orThrow {e : ε} {a : Option α} {f : α → Prog I ε β} (hf : ∀ b, Spends price n (f b)) :
    Spends price n (orThrow e a >>= f) := by
  cases a with
  | none => trivial
  | some b => exact hf b

/-- Where a program throws, its handler spends on. -/
theorem spends_catching {p : Prog I ε α} {handler : ε → Prog I ε α} (hp : Spends price m p)
    (hhandler : ∀ e, Spends price n (handler e)) : Spends price (m + n) (p.catching handler) := by
  induction p generalizing m with
  | ret a => trivial
  | throw e => exact (hhandler e).mono (by omega)
  | call c k ih =>
    refine ⟨Nat.le_trans hp.1 (by omega), fun r => (ih r (hp.2 r)).mono ?_⟩
    have := hp.1
    omega

/-- What a program spends is paid from any purse that holds as much. -/
theorem Spends.obeys {p : Prog I ε α} {ends : ℕ → Except ε α → Prop} (hp : Spends price m p)
    (hends : ∀ n' r, n ≤ n' → ends n' r) : Obeys (purse price refund) ends (m + n) p := by
  have hpays : ∀ n', m + n ≤ n' → Obeys (purse price refund) ends n' p := by
    induction p generalizing m with
    | ret a => exact fun n' hle => hends n' _ (by omega)
    | throw e => exact fun n' hle => hends n' _ (by omega)
    | call c k ih =>
      refine fun n' hle => ⟨Nat.le_trans hp.1 (by omega), fun r _ => ih r (hp.2 r) _ ?_⟩
      have := hp.1
      show m - price c + n ≤ n' - price c + refund c r
      omega
  exact hpays _ (Nat.le_refl _)

/-- A program that can pay can pay from a fuller purse. -/
theorem obeys_fuller {p : Prog I ε α} {ends : ℕ → Except ε α → Prop} (hp : Obeys (purse price refund) ends m p)
    (hle : m ≤ n) (hends : ∀ m n r, m ≤ n → ends m r → ends n r) : Obeys (purse price refund) ends n p := by
  induction p generalizing m n with
  | ret a => exact hends m n _ hle hp
  | throw e => exact hends m n _ hle hp
  | call c k ih =>
    refine ⟨Nat.le_trans hp.1 hle, fun r hr => ih r (hp.2 r hr) ?_⟩
    show m - price c + refund c r ≤ n - price c + refund c r
    omega

end Prog

/-- What the events of a history have cost. -/
def spent (price : I.Cmd → ℕ) (h : List (Event I κ)) : ℕ := (h.map fun ev => price ev.cmd).sum

/-- What the events of a history have paid back. -/
def repaid (refund : (c : I.Cmd) → I.Reply c → ℕ) (h : List (Event I κ)) : ℕ :=
  (h.map fun ev => refund ev.cmd ev.reply).sum

/-- Every call pays from its own purse; before it calls itself again the purse has to be
full. Calls that are not `frugal` are not bound. -/
def spending (price : I.Cmd → ℕ) (frugal : κ → Prop) (full : κ → ℕ)
    (refund : κ → (c : I.Cmd) → I.Reply c → ℕ) : Contract I κ ρ ε ℕ where
  start := full
  next := fun call n c r => n - price c + refund call c r
  may := fun call n c => frugal call → price c ≤ n
  ends := fun _ _ _ => True
  resumes := fun call call' n => call' = call ∧ (frugal call → full call ≤ n)

section bodies
variable {price : I.Cmd → ℕ} {frugal : κ → Prop} {full : κ → ℕ}
  {refund : κ → (c : I.Cmd) → I.Reply c → ℕ} {M : Machine I D O κ ρ ε} {call : κ} {n : ℕ}

/-- A program that can pay keeps the contract, if its purse is full where it calls itself. -/
theorem obeys_spending {p : Prog I ε (Next κ ρ)} (ends : ℕ → Except ε (Next κ ρ) → Prop)
    (hp : Prog.Obeys (Prog.purse price (refund call)) ends n p)
    (hends : ∀ n' c', ends n' (.ok (.again c')) → c' = call ∧ full call ≤ n') :
    Prog.Obeys ((spending price frugal full refund).rules M call) ((spending price frugal full refund).settles call) n p := by
  induction p generalizing n with
  | ret x =>
    cases x with
    | done r => trivial
    | again c' => exact ⟨(hends n c' hp).1, fun _ => (hends n c' hp).2⟩
  | throw e => trivial
  | call c k ih => exact ⟨fun _ => hp.1, fun r _ => ih r (hp.2 r trivial)⟩

end bodies

section runs
variable {price : I.Cmd → ℕ} {frugal : κ → Prop} {full : κ → ℕ}
  {refund : κ → (c : I.Cmd) → I.Reply c → ℕ} {M : Machine I D O κ ρ ε}
  {A : State I D κ ρ ε → Label O κ → Prop} {d : D} {s : State I D κ ρ ε}

/-- In any run a thread has spent at most the purse of its call and what was paid back. -/
theorem spent_le (hK : (spending (ρ := ρ) (ε := ε) price frugal full refund).Kept M)
    (h : M.Reaches A (.start d) s) {t : ℕ} {call : κ} (hcall : s.calls t = some call)
    (hfrugal : frugal call) : spent price (s.history t) ≤ full call + repaid (refund call) (s.history t) := by
  have hpaid : ∀ t call n, (spending (ρ := ρ) (ε := ε) price frugal full refund).track s t = some (call, n) →
      frugal call → spent price (s.history t) + n = full call + repaid (refund call) (s.history t) := by
    refine hK.invariant (P := fun call hist n => frugal call →
      spent price hist + n = full call + repaid (refund call) hist) (fun call _ => ?_) ?_ h
    · simp [spent, repaid, spending]
    · intro call hist n t c r ih hmay _ hfrugal
      have hafford : price c ≤ n := hmay hfrugal
      have := ih hfrugal
      simp only [spent, repaid, List.map_cons, List.sum_cons, spending] at this ⊢
      omega
  have := hpaid t call _ (by rw [Contract.track, hcall, Option.map_some]) hfrugal
  omega

end runs
end RedRoomRewards.Process
