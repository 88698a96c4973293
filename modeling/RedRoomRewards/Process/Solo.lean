import RedRoomRewards.Process.Program
import Mathlib.Data.Nat.Notation

/-! One program that runs alone on a store, and what it leads to whatever the oracle
supplies. -/
namespace RedRoomRewards.Process.Prog
variable {I : Interface} {D O ε α β : Type} (exec : O → D → (c : I.Cmd) → I.Reply c × D)

/-- Run a program alone; each command takes the next answer of the oracle. -/
def solo : Prog I ε α → (ℕ → O) → D → Except ε α × D
  | ret a, _, d => (.ok a, d)
  | throw e, _, d => (.error e, d)
  | call c k, os, d => (k (exec (os 0) d c).1).solo (fun n => os (n + 1)) (exec (os 0) d c).2

/-- Run alone, the program ends as `post` says, whatever an oracle supplies that keeps
to `fair`. -/
def Yields (fair : O → Prop) (post : Except ε α → D → Prop) : Prog I ε α → D → Prop
  | ret a, d => post (.ok a) d
  | throw e, d => post (.error e) d
  | call c k, d => ∀ o, fair o → Yields fair post (k (exec o d c).1) (exec o d c).2

variable {exec} {fair : O → Prop} {post post' : Except ε α → D → Prop} {d : D}

/-- The condition on `p`'s result under which `p >>= f` yields `post`. -/
def onward (exec : O → D → (c : I.Cmd) → I.Reply c × D) (fair : O → Prop)
    (post : Except ε β → D → Prop) (f : α → Prog I ε β) : Except ε α → D → Prop
  | .ok a, d => Yields exec fair post (f a) d
  | .error e, d => post (.error e) d

@[simp] theorem yields_ret (a : α) : Yields exec fair post (ret a) d ↔ post (.ok a) d := Iff.rfl
@[simp] theorem yields_throw (e : ε) :
    Yields exec fair post (throw e : Prog I ε α) d ↔ post (.error e) d := Iff.rfl
@[simp] theorem yields_call (c : I.Cmd) (k : I.Reply c → Prog I ε α) :
    Yields exec fair post (call c k) d ↔
      ∀ o, fair o → Yields exec fair post (k (exec o d c).1) (exec o d c).2 := Iff.rfl

theorem yields_bind {post : Except ε β → D → Prop} (p : Prog I ε α) (f : α → Prog I ε β) :
    Yields exec fair post (p >>= f) d ↔ Yields exec fair (onward exec fair post f) p d := by
  induction p generalizing d with
  | ret a => rfl
  | throw e => rfl
  | call c k ih => simp only [call_bind, yields_call, ih]

theorem yields_throwIf_bind (p : Prop) [Decidable p] (e : ε) (f : Unit → Prog I ε α) :
    Yields exec fair post (throwIf p e >>= f) d ↔
      (p → post (.error e) d) ∧ (¬ p → Yields exec fair post (f ()) d) := by
  by_cases hp : p <;> simp [throwIf, hp]

theorem yields_orThrow_bind {post : Except ε β → D → Prop} (e : ε) (a : Option α) (f : α → Prog I ε β) :
    Yields exec fair post (orThrow e a >>= f) d ↔
      (a = none → post (.error e) d) ∧ ∀ b, a = some b → Yields exec fair post (f b) d := by
  cases a <;> simp [orThrow]

/-- The handler takes over where the guarded program throws. -/
theorem yields_catching (p : Prog I ε α) (handler : ε → Prog I ε α) :
    Yields exec fair post (p.catching handler) d ↔ Yields exec fair (fun r d => match r with
      | .ok a => post (.ok a) d
      | .error e => Yields exec fair post (handler e) d) p d := by
  induction p generalizing d with
  | ret a => rfl
  | throw e => rfl
  | call c k ih => simp only [catching, yields_call, ih]

theorem Yields.imp {p : Prog I ε α} (h : Yields exec fair post p d) (himp : ∀ r d, post r d → post' r d) :
    Yields exec fair post' p d := by
  induction p generalizing d with
  | ret a => exact himp _ _ h
  | throw e => exact himp _ _ h
  | call c k ih => exact fun o ho => ih _ (h o ho)

/-- What a program yields holds of each of its solo runs. -/
theorem Yields.solo {p : Prog I ε α} (h : Yields exec fair post p d) {os : ℕ → O} (hos : ∀ n, fair (os n)) :
    post (p.solo exec os d).1 (p.solo exec os d).2 := by
  induction p generalizing d os with
  | ret a => exact h
  | throw e => exact h
  | call c k ih => exact ih _ (h _ (hos 0)) fun n => hos (n + 1)

/-- What a program yields whatever the oracle supplies holds of every solo run. -/
theorem Yields.always {p : Prog I ε α} (h : Yields exec (fun _ => True) post p d) (os : ℕ → O) :
    post (p.solo exec os d).1 (p.solo exec os d).2 := h.solo fun _ => trivial

/-- What only makes another result of a result leaves the store as it is. -/
theorem solo_bind_ret {f : α → Prog I ε β} {g : α → β} (hf : ∀ a, f a = ret (g a)) (p : Prog I ε α) (os : ℕ → O) :
    ((p >>= f).solo exec os d).2 = (p.solo exec os d).2 := by
  induction p generalizing d os with
  | ret a =>
    rw [ret_bind, hf]
    rfl
  | throw e => rfl
  | call c k ih => exact ih _ _

/-- What every command keeps of the store, the program keeps. -/
theorem yields_of_obeys {σ : Type} {R : Rules I σ} {P : D → Prop} {x : σ} {p : Prog I ε α}
    {ends : σ → Except ε α → Prop} (hp : Obeys R ends x p)
    (hpossible : ∀ o d c, R.possible c (exec o d c).1)
    (hkeep : ∀ x o d c, R.may x c → P d → P (exec o d c).2) (hd : P d) :
    Yields exec fair (fun r d' => P d' ∧ ∃ x, ends x r) p d := by
  induction p generalizing x d with
  | ret a => exact ⟨hd, x, hp⟩
  | throw e => exact ⟨hd, x, hp⟩
  | call c k ih => exact fun o _ => ih _ (hp.2 _ (hpossible o d c)) (hkeep x o d c hp.1 hd)

/-- What every command keeps of the store, any program keeps. -/
theorem yields_invariant {P : D → Prop} (hkeep : ∀ o d c, P d → P (exec o d c).2) (p : Prog I ε α) (hd : P d) :
    Yields exec fair (fun _ d' => P d') p d := by
  induction p generalizing d with
  | ret a => exact hd
  | throw e => exact hd
  | call c k ih => exact fun o _ => ih _ (hkeep o d c hd)

section along
variable (exec)

/-- Each command of the solo run is `good` in the store that it comes to. -/
def Along (good : D → I.Cmd → Prop) : Prog I ε α → (ℕ → O) → D → Prop
  | ret _, _, _ => True
  | throw _, _, _ => True
  | call c k, os, d => good d c ∧ Along good (k (exec (os 0) d c).1) (fun n => os (n + 1)) (exec (os 0) d c).2

instance decidableAlong (good : D → I.Cmd → Prop) [∀ d c, Decidable (good d c)] :
    (p : Prog I ε α) → (os : ℕ → O) → (d : D) → Decidable (Along exec good p os d)
  | ret _, _, _ => isTrue trivial
  | throw _, _, _ => isTrue trivial
  | call c k, os, d => @instDecidableAnd _ _ _
      (decidableAlong good (k (exec (os 0) d c).1) (fun n => os (n + 1)) (exec (os 0) d c).2)

variable {exec} {good : D → I.Cmd → Prop} {p : Prog I ε α} {os : ℕ → O}

/-- Where good commands are executed alike, so is the solo run. -/
theorem Along.solo_eq {exec' : O → D → (c : I.Cmd) → I.Reply c × D} (h : Along exec good p os d)
    (hexec : ∀ o d c, good d c → exec' o d c = exec o d c) : p.solo exec' os d = p.solo exec os d := by
  induction p generalizing os d with
  | ret a => rfl
  | throw e => rfl
  | call c k ih =>
    simp only [solo, hexec _ _ _ h.1]
    exact ih _ h.2

theorem along_throwIf_bind {q : Prop} [Decidable q] {e : ε} {f : Unit → Prog I ε α}
    (hf : ¬ q → Along exec good (f ()) os d) : Along exec good (throwIf q e >>= f) os d := by
  by_cases hq : q
  · rw [throwIf_pos hq]
    trivial
  · rw [throwIf_neg hq]
    exact hf hq

theorem along_orThrow_bind {e : ε} {a : Option β} {f : β → Prog I ε α}
    (hf : ∀ b, a = some b → Along exec good (f b) os d) : Along exec good (orThrow e a >>= f) os d := by
  cases a with
  | none => trivial
  | some b => exact hf b rfl

/-- What follows on a program may come to any store. -/
theorem Along.bind {f : α → Prog I ε β} (hp : Along exec good p os d)
    (hf : ∀ a os d, Along exec good (f a) os d) : Along exec good (p >>= f) os d := by
  induction p generalizing os d with
  | ret a => exact hf a os d
  | throw e => trivial
  | call c k ih => exact ⟨hp.1, ih _ hp.2⟩

/-- A program whose rules allow good commands only issues no others. -/
theorem along_of_obeys {σ : Type} {R : Rules I σ} {x : σ} {ends : σ → Except ε α → Prop} (hp : Obeys R ends x p)
    (hpossible : ∀ o d c, R.possible c (exec o d c).1) (hgood : ∀ x d c, R.may x c → good d c) :
    Along exec good p os d := by
  induction p generalizing x os d with
  | ret a => trivial
  | throw e => trivial
  | call c k ih => exact ⟨hgood x d c hp.1, ih _ (hp.2 _ (hpossible _ d c))⟩

end along

section supplied
variable (exec)

/-- Run alone, the program ends as `post` says, whatever an oracle supplies that keeps to
`fair` in the store of the moment. -/
def Leads (fair : D → O → Prop) (post : Except ε α → D → Prop) : Prog I ε α → D → Prop
  | ret a, d => post (.ok a) d
  | throw e, d => post (.error e) d
  | call c k, d => ∀ o, fair d o → Leads fair post (k (exec o d c).1) (exec o d c).2

/-- At each step of the solo run the oracle keeps to `fair` in the store of the moment. -/
def Supplied (fair : D → O → Prop) : Prog I ε α → (ℕ → O) → D → Prop
  | ret _, _, _ => True
  | throw _, _, _ => True
  | call c k, os, d => fair d (os 0) ∧
      Supplied fair (k (exec (os 0) d c).1) (fun n => os (n + 1)) (exec (os 0) d c).2

instance decidableSupplied (fair : D → O → Prop) [∀ d o, Decidable (fair d o)] :
    (p : Prog I ε α) → (os : ℕ → O) → (d : D) → Decidable (Supplied exec fair p os d)
  | ret _, _, _ => isTrue trivial
  | throw _, _, _ => isTrue trivial
  | call c k, os, d => @instDecidableAnd _ _ _
      (decidableSupplied fair (k (exec (os 0) d c).1) (fun n => os (n + 1)) (exec (os 0) d c).2)

variable {exec} {fair : D → O → Prop}

/-- The condition on `p`'s result under which `p >>= f` leads to `post`. -/
def leadsOn (exec : O → D → (c : I.Cmd) → I.Reply c × D) (fair : D → O → Prop)
    (post : Except ε β → D → Prop) (f : α → Prog I ε β) : Except ε α → D → Prop
  | .ok a, d => Leads exec fair post (f a) d
  | .error e, d => post (.error e) d

theorem leads_bind {post : Except ε β → D → Prop} (p : Prog I ε α) (f : α → Prog I ε β) :
    Leads exec fair post (p >>= f) d ↔ Leads exec fair (leadsOn exec fair post f) p d := by
  induction p generalizing d with
  | ret a => rfl
  | throw e => rfl
  | call c k ih => exact forall_congr' fun o => imp_congr_right fun _ => ih _

theorem leads_throwIf_bind (p : Prop) [Decidable p] (e : ε) (f : Unit → Prog I ε α) :
    Leads exec fair post (throwIf p e >>= f) d ↔
      (p → post (.error e) d) ∧ (¬ p → Leads exec fair post (f ()) d) := by
  by_cases hp : p <;> simp [throwIf, hp, Leads]

/-- The handler takes over where the guarded program throws. -/
theorem leads_catching (p : Prog I ε α) (handler : ε → Prog I ε α) :
    Leads exec fair post (p.catching handler) d ↔ Leads exec fair (fun r d => match r with
      | .ok a => post (.ok a) d
      | .error e => Leads exec fair post (handler e) d) p d := by
  induction p generalizing d with
  | ret a => rfl
  | throw e => rfl
  | call c k ih => exact forall_congr' fun o => imp_congr_right fun _ => ih _

theorem Leads.imp {p : Prog I ε α} (h : Leads exec fair post p d) (himp : ∀ r d, post r d → post' r d) :
    Leads exec fair post' p d := by
  induction p generalizing d with
  | ret a => exact himp _ _ h
  | throw e => exact himp _ _ h
  | call c k ih => exact fun o ho => ih _ (h o ho)

theorem Leads.solo {p : Prog I ε α} {os : ℕ → O} (h : Leads exec fair post p d)
    (hos : Supplied exec fair p os d) : post (p.solo exec os d).1 (p.solo exec os d).2 := by
  induction p generalizing d os with
  | ret a => exact h
  | throw e => exact h
  | call c k ih => exact ih _ (h _ hos.1) hos.2

/-- What a program yields it leads to, if in every store it comes to the oracle is as fair. -/
theorem Yields.leads {fair₀ : O → Prop} {P : D → Prop} {p : Prog I ε α} (h : Yields exec fair₀ post p d)
    (hkeep : ∀ o d c, P d → P (exec o d c).2) (hfair : ∀ o d, P d → fair d o → fair₀ o) (hd : P d) :
    Leads exec fair post p d := by
  induction p generalizing d with
  | ret a => exact h
  | throw e => exact h
  | call c k ih => exact fun o ho => ih _ (h o (hfair o d hd ho)) (hkeep o d c hd)

/-- A fair oracle that does not look at the store is one for `Yields`. -/
theorem leads_iff_yields {fair₀ : O → Prop} (p : Prog I ε α) :
    Leads exec (fun _ => fair₀) post p d ↔ Yields exec fair₀ post p d := by
  induction p generalizing d with
  | ret a => rfl
  | throw e => rfl
  | call c k ih => exact forall_congr' fun o => imp_congr_right fun _ => ih _

end supplied

/-- The stores that calls lead to which are made one after the other, each when the one
before it has ended; `A` says which call may be made in a store, and what the oracle may
supply to it. -/
inductive Sequential {κ : Type} (exec : O → D → (c : I.Cmd) → I.Reply c × D) (body : κ → Prog I ε α)
    (A : D → κ → (ℕ → O) → Prop) (d₀ : D) : D → Prop
  | start : Sequential exec body A d₀ d₀
  | call {d : D} {c : κ} {os : ℕ → O} (hd : Sequential exec body A d₀ d) (hA : A d c os) :
      Sequential exec body A d₀ ((body c).solo exec os d).2

end RedRoomRewards.Process.Prog
