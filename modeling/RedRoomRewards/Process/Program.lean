import Mathlib.Logic.Basic

/-! Programs that issue atomic commands to a shared store and may throw.
Between two commands of one program any number of other programs can run. -/
namespace RedRoomRewards.Process

/-- The commands a store understands, each with the type of its reply. -/
structure Interface where
  Cmd : Type
  Reply : Cmd → Type

inductive Prog (I : Interface) (ε α : Type) where
  | ret (a : α)
  | throw (e : ε)
  | call (c : I.Cmd) (k : I.Reply c → Prog I ε α)

namespace Prog
variable {I : Interface} {ε α β : Type}

def bind : Prog I ε α → (α → Prog I ε β) → Prog I ε β
  | ret a, f => f a
  | throw e, _ => throw e
  | call c k, f => call c (fun r => (k r).bind f)

instance : Monad (Prog I ε) where
  pure := ret
  bind := bind

/-- Run `p`; where it throws, go on with the handler. -/
def catching : Prog I ε α → (ε → Prog I ε α) → Prog I ε α
  | ret a, _ => ret a
  | throw e, handler => handler e
  | call c k, handler => call c (fun r => (k r).catching handler)

/-- Issue one command and return its reply. -/
def ask (c : I.Cmd) : Prog I ε (I.Reply c) := call c ret

def throwIf (p : Prop) [Decidable p] (e : ε) : Prog I ε Unit := if p then throw e else ret ()

/-- The value, or an exception where there is none. -/
def orThrow (e : ε) : Option α → Prog I ε α
  | some a => ret a
  | none => throw e

theorem throwIf_pos {p : Prop} [Decidable p] (hp : p) (e : ε) :
    (throwIf p e : Prog I ε Unit) = throw e := if_pos hp

theorem throwIf_neg {p : Prop} [Decidable p] (hp : ¬ p) (e : ε) :
    (throwIf p e : Prog I ε Unit) = ret () := if_neg hp

@[simp] theorem pure_eq (a : α) : (pure a : Prog I ε α) = ret a := rfl
@[simp] theorem ret_bind (a : α) (f : α → Prog I ε β) : (ret a : Prog I ε α) >>= f = f a := rfl
@[simp] theorem throw_bind (e : ε) (f : α → Prog I ε β) : (throw e : Prog I ε α) >>= f = throw e := rfl
@[simp] theorem call_bind (c : I.Cmd) (k : I.Reply c → Prog I ε α) (f : α → Prog I ε β) :
    call c k >>= f = call c (fun r => k r >>= f) := rfl
@[simp] theorem ask_bind (c : I.Cmd) (f : I.Reply c → Prog I ε β) :
    (ask c : Prog I ε _) >>= f = call c f := rfl

theorem bind_assoc {γ : Type} (p : Prog I ε α) (f : α → Prog I ε β) (g : β → Prog I ε γ) :
    p >>= f >>= g = p >>= fun a => f a >>= g := by
  induction p with
  | ret a => rfl
  | throw e => rfl
  | call c k ih =>
    simp only [call_bind]
    congr 1
    funext r
    exact ih r

/-- What a program is judged by: the replies the store can give, what the
program's record becomes with each reply, and the commands it may issue while
its record reads so. -/
structure Rules (I : Interface) (σ : Type) where
  possible : (c : I.Cmd) → I.Reply c → Prop
  next : σ → (c : I.Cmd) → I.Reply c → σ
  may : σ → I.Cmd → Prop

variable {σ : Type}

/-- From record `x` on, `p` issues only commands the rules allow, whatever
possible replies it gets, and every result it can end with satisfies `ends`. -/
def Obeys (R : Rules I σ) (ends : σ → Except ε α → Prop) : σ → Prog I ε α → Prop
  | x, ret a => ends x (.ok a)
  | x, throw e => ends x (.error e)
  | x, call c k => R.may x c ∧ ∀ r, R.possible c r → Obeys R ends (R.next x c r) (k r)

variable {R : Rules I σ} {ends ends' : σ → Except ε α → Prop}

/-- The condition on `p`'s results under which `p >>= f` obeys the rules. -/
def andThen (R : Rules I σ) (ends : σ → Except ε β → Prop) (f : α → Prog I ε β) :
    σ → Except ε α → Prop
  | x, .ok a => Obeys R ends x (f a)
  | x, .error e => ends x (.error e)

@[simp] theorem andThen_ok (ends : σ → Except ε β → Prop) (f : α → Prog I ε β) (x : σ) (a : α) :
    andThen R ends f x (.ok a) = Obeys R ends x (f a) := rfl
@[simp] theorem andThen_error (ends : σ → Except ε β → Prop) (f : α → Prog I ε β) (x : σ) (e : ε) :
    andThen R ends f x (.error e) = ends x (.error e) := rfl

@[simp] theorem obeys_ret (x : σ) (a : α) : Obeys R ends x (ret a) ↔ ends x (.ok a) := Iff.rfl
@[simp] theorem obeys_throw (x : σ) (e : ε) :
    Obeys R ends x (throw e : Prog I ε α) ↔ ends x (.error e) := Iff.rfl
@[simp] theorem obeys_call (x : σ) (c : I.Cmd) (k : I.Reply c → Prog I ε α) :
    Obeys R ends x (call c k) ↔
      R.may x c ∧ ∀ r, R.possible c r → Obeys R ends (R.next x c r) (k r) := Iff.rfl

theorem obeys_bind {ends : σ → Except ε β → Prop} (p : Prog I ε α) (f : α → Prog I ε β) (x : σ) :
    Obeys R ends x (p >>= f) ↔ Obeys R (andThen R ends f) x p := by
  induction p generalizing x with
  | ret a => rfl
  | throw e => rfl
  | call c k ih => simp only [call_bind, obeys_call, ih]

theorem obeys_throwIf_bind (p : Prop) [Decidable p] (e : ε) (f : Unit → Prog I ε α) (x : σ) :
    Obeys R ends x (throwIf p e >>= f) ↔
      (p → ends x (.error e)) ∧ (¬ p → Obeys R ends x (f ())) := by
  by_cases hp : p <;> simp [throwIf, hp]

theorem obeys_orThrow_bind (e : ε) (a : Option α) (f : α → Prog I ε β)
    {ends : σ → Except ε β → Prop} (x : σ) : Obeys R ends x (orThrow e a >>= f) ↔
      (a = none → ends x (.error e)) ∧ ∀ b, a = some b → Obeys R ends x (f b) := by
  cases a <;> simp [orThrow]

/-- The handler takes over where the guarded program throws. -/
theorem obeys_catching (p : Prog I ε α) (handler : ε → Prog I ε α) (x : σ) :
    Obeys R ends x (p.catching handler) ↔ Obeys R (fun x r => match r with
      | .ok a => ends x (.ok a)
      | .error e => Obeys R ends x (handler e)) x p := by
  induction p generalizing x with
  | ret a => rfl
  | throw e => rfl
  | call c k ih => simp only [catching, obeys_call, ih]

theorem Obeys.imp {x : σ} {p : Prog I ε α} (hp : Obeys R ends x p)
    (himp : ∀ x r, ends x r → ends' x r) : Obeys R ends' x p := by
  induction p generalizing x with
  | ret a => exact himp _ _ hp
  | throw e => exact himp _ _ hp
  | call c k ih => exact ⟨hp.1, fun r hr => ih r (hp.2 r hr)⟩

/-- Rules that allow more are obeyed as well. -/
theorem Obeys.loosen {may : σ → I.Cmd → Prop} {x : σ} {p : Prog I ε α} (hp : Obeys R ends x p)
    (hmay : ∀ x c, R.may x c → may x c) : Obeys ⟨R.possible, R.next, may⟩ ends x p := by
  induction p generalizing x with
  | ret a => exact hp
  | throw e => exact hp
  | call c k ih => exact ⟨hmay _ _ hp.1, fun r hr => ih r (hp.2 r hr)⟩

/-- A program obeys rules under which its record stays one that allows every command
and every result. -/
theorem obeys_stable {P : σ → Prop} {x : σ} (p : Prog I ε α) (hx : P x)
    (hnext : ∀ x c r, P x → P (R.next x c r)) (hmay : ∀ x c, P x → R.may x c)
    (hends : ∀ x r, P x → ends x r) : Obeys R ends x p := by
  induction p generalizing x with
  | ret a => exact hends _ _ hx
  | throw e => exact hends _ _ hx
  | call c k ih => exact ⟨hmay _ _ hx, fun r _ => ih r (hnext _ _ _ hx)⟩

section commands
variable {P : I.Cmd → Prop}

/-- Every command of the program satisfies `P`. -/
def Issues (P : I.Cmd → Prop) : Prog I ε α → Prop
  | ret _ => True
  | throw _ => True
  | call c k => P c ∧ ∀ r, Issues P (k r)

theorem Issues.bind {p : Prog I ε α} {f : α → Prog I ε β} (hp : Issues P p) (hf : ∀ a, Issues P (f a)) :
    Issues P (p >>= f) := by
  induction p with
  | ret a => exact hf a
  | throw e => trivial
  | call c k ih => exact ⟨hp.1, fun r => ih r (hp.2 r)⟩

theorem Issues.catching {p : Prog I ε α} {handler : ε → Prog I ε α} (hp : Issues P p)
    (hhandler : ∀ e, Issues P (handler e)) : Issues P (p.catching handler) := by
  induction p with
  | ret a => trivial
  | throw e => exact hhandler e
  | call c k ih => exact ⟨hp.1, fun r => ih r (hp.2 r)⟩

theorem issues_throwIf (p : Prop) [Decidable p] (e : ε) : Issues P (throwIf p e : Prog I ε Unit) := by
  unfold throwIf
  split <;> trivial

theorem issues_orThrow (e : ε) (a : Option α) : Issues P (orThrow e a : Prog I ε α) := by
  cases a <;> trivial

end commands

end Prog
end RedRoomRewards.Process
