import RedRoomRewards.Process.Program
import Mathlib.Data.List.Basic
import Mathlib.Logic.Function.Basic

/-! Any number of calls of one code base over a shared store, interleaved in any
order at the granularity of single commands. -/
namespace RedRoomRewards.Process

/-- How a call's program ends when it does not throw: with a response, or by
calling the code base again in tail position. -/
inductive Next (κ ρ : Type) where
  | done (r : ρ)
  | again (c : κ)

/-- The store's semantics and the program each call runs. The oracle supplies
what the store and the language leave open (identifiers, clock, outages). -/
structure Machine (I : Interface) (D O κ ρ ε : Type) where
  exec : O → D → (c : I.Cmd) → I.Reply c × D
  body : κ → Prog I ε (Next κ ρ)

structure Thread (I : Interface) (κ ρ ε : Type) where
  call : κ
  prog : Prog I ε (Next κ ρ)

/-- A command that was executed, its reply, and the thread and call it was part of. -/
structure Event (I : Interface) (κ : Type) where
  thread : ℕ
  call : κ
  cmd : I.Cmd
  reply : I.Reply cmd

/-- `spawns` lists every thread made so far with its call, `log` every command
executed so far; both have the newest first. -/
structure State (I : Interface) (D κ ρ ε : Type) where
  db : D
  threads : ℕ → Option (Thread I κ ρ ε)
  spawns : List (ℕ × κ)
  log : List (Event I κ)

inductive Label (O κ : Type) where
  | spawn (t : ℕ) (c : κ)
  | run (t : ℕ) (o : O)

variable {I : Interface} {D O κ ρ ε : Type}

namespace State
variable (s : State I D κ ρ ε)

def start (d : D) : State I D κ ρ ε := ⟨d, fun _ => none, [], []⟩

/-- The events of thread `t`, newest first. -/
def history (t : ℕ) : List (Event I κ) := s.log.filter (fun e => e.thread = t)

/-- The call each thread was spawned with. -/
def calls (t : ℕ) : Option κ := (s.threads t).map (·.call)

/-- How a finished thread ended; `none` while it is in flight. -/
def result (t : ℕ) : Option (Except ε ρ) :=
  match s.threads t with
  | some ⟨_, .ret (.done r)⟩ => some (.ok r)
  | some ⟨_, .throw e⟩ => some (.error e)
  | _ => none

/-- No call is in flight. -/
def Quiescent : Prop := ∀ t, (s.threads t).isSome → (s.result t).isSome

@[simp] theorem history_start (d : D) (t : ℕ) :
    (start d : State I D κ ρ ε).history t = [] := rfl

theorem result_congr {s s' : State I D κ ρ ε} {t : ℕ} (h : s'.threads t = s.threads t) :
    s'.result t = s.result t := by rw [result, result, h]

theorem calls_of_thread {t : ℕ} {call : κ} {p : Prog I ε (Next κ ρ)} {s : State I D κ ρ ε}
    (ht : s.threads t = some ⟨call, p⟩) : s.calls t = some call := by rw [calls, ht, Option.map_some]

theorem mem_history {t : ℕ} {ev : Event I κ} : ev ∈ s.history t ↔ ev ∈ s.log ∧ ev.thread = t := by
  simp [history]

end State

namespace Machine
variable (M : Machine I D O κ ρ ε)

def spawned (s : State I D κ ρ ε) (t : ℕ) (c : κ) : State I D κ ρ ε :=
  { s with
    threads := Function.update s.threads t (some ⟨c, M.body c⟩)
    spawns := (t, c) :: s.spawns }

/-- Thread `t` executes its command `c` and goes on with `k`. -/
def acted (s : State I D κ ρ ε) (t : ℕ) (o : O) (call : κ) (c : I.Cmd)
    (k : I.Reply c → Prog I ε (Next κ ρ)) : State I D κ ρ ε where
  db := (M.exec o s.db c).2
  threads := Function.update s.threads t (some ⟨call, k (M.exec o s.db c).1⟩)
  spawns := s.spawns
  log := ⟨t, call, c, (M.exec o s.db c).1⟩ :: s.log

/-- Thread `t`'s tail call `c` replaces its finished program. -/
def restarted (s : State I D κ ρ ε) (t : ℕ) (call c : κ) : State I D κ ρ ε :=
  { s with threads := Function.update s.threads t (some ⟨call, M.body c⟩) }

def step (s : State I D κ ρ ε) : Label O κ → Option (State I D κ ρ ε)
  | .spawn t c => if (s.threads t).isNone then some (M.spawned s t c) else none
  | .run t o => match s.threads t with
    | some ⟨call, .call c k⟩ => some (M.acted s t o call c k)
    | some ⟨call, .ret (.again c)⟩ => some (M.restarted s t call c)
    | _ => none

/-- The states some interleaving reaches whose every step `A` allows. -/
inductive Reaches (A : State I D κ ρ ε → Label O κ → Prop) (s₀ : State I D κ ρ ε) :
    State I D κ ρ ε → Prop
  | start : Reaches A s₀ s₀
  | step {s s' : State I D κ ρ ε} {l : Label O κ} (hs : Reaches A s₀ s) (hA : A s l)
      (hstep : M.step s l = some s') : Reaches A s₀ s'

/-- The replies the store can give to a command. -/
def Possible (c : I.Cmd) (r : I.Reply c) : Prop := ∃ o d, (M.exec o d c).1 = r

variable {M} {A B : State I D κ ρ ε → Label O κ → Prop} {s₀ s s' : State I D κ ρ ε}

theorem step_cases {l : Label O κ} (h : M.step s l = some s') :
    (∃ t c, l = .spawn t c ∧ s.threads t = none ∧ s' = M.spawned s t c) ∨
    (∃ t o call c k, l = .run t o ∧ s.threads t = some ⟨call, .call c k⟩ ∧
      s' = M.acted s t o call c k) ∨
    (∃ t o call c, l = .run t o ∧ s.threads t = some ⟨call, .ret (.again c)⟩ ∧
      s' = M.restarted s t call c) := by
  cases l with
  | spawn t c =>
    simp only [step] at h
    split at h
    · rename_i hn
      exact .inl ⟨t, c, rfl, by simpa using hn, by simpa using h.symm⟩
    · cases h
  | run t o =>
    simp only [step] at h
    split at h
    · rename_i call c k ht
      exact .inr (.inl ⟨t, o, call, c, k, rfl, ht, by simpa using h.symm⟩)
    · rename_i call c ht
      exact .inr (.inr ⟨t, o, call, c, rfl, ht, by simpa using h.symm⟩)
    · cases h

/-- Induction over runs, one case for each kind of step. -/
@[elab_as_elim]
theorem Reaches.by_steps {P : (s : State I D κ ρ ε) → M.Reaches A s₀ s → Prop}
    (start : P s₀ .start)
    (spawn : ∀ s t c hs (hA : A s (.spawn t c)) (ht : s.threads t = none), P s hs →
      P (M.spawned s t c) (.step hs hA (by simp [Machine.step, ht])))
    (act : ∀ s t o call c k hs (hA : A s (.run t o)) (ht : s.threads t = some ⟨call, .call c k⟩),
      P s hs → P (M.acted s t o call c k) (.step hs hA (by simp [Machine.step, ht])))
    (restart : ∀ s t o call c hs (hA : A s (.run t o))
      (ht : s.threads t = some ⟨call, .ret (.again c)⟩), P s hs →
      P (M.restarted s t call c) (.step hs hA (by simp [Machine.step, ht])))
    {s : State I D κ ρ ε} (h : M.Reaches A s₀ s) : P s h := by
  induction h with
  | start => exact start
  | step hs hA hstep ih =>
    obtain ⟨t, c, rfl, ht, rfl⟩ | ⟨t, o, call, c, k, rfl, ht, rfl⟩ | ⟨t, o, call, c, rfl, ht, rfl⟩ :=
      step_cases hstep
    · exact spawn _ t c hs hA ht ih
    · exact act _ t o call c k hs hA ht ih
    · exact restart _ t o call c hs hA ht ih

theorem Reaches.mono (h : M.Reaches A s₀ s)
    (himp : ∀ s l, M.Reaches A s₀ s → A s l → B s l) : M.Reaches B s₀ s := by
  induction h with
  | start => exact .start
  | step hs hA hstep ih => exact .step ih (himp _ _ hs hA) hstep

theorem Reaches.trans (h : M.Reaches A s₀ s) (h' : M.Reaches A s s') : M.Reaches A s₀ s' := by
  induction h' with
  | start => exact h
  | step _ hA hstep ih => exact .step ih hA hstep

/-- A run of one machine is a run of another one that has the same programs and executes the
commands of the run alike. -/
theorem Reaches.transfer {N : Machine I D O κ ρ ε} (h : M.Reaches A s₀ s) (hbody : M.body = N.body)
    (hexec : ∀ s t o call c k, A s (.run t o) → s.threads t = some ⟨call, .call c k⟩ →
      M.exec o s.db c = N.exec o s.db c) : N.Reaches A s₀ s := by
  induction h using Reaches.by_steps with
  | start => exact .start
  | spawn s t c _ hA ht ih =>
    have hsame : M.spawned s t c = N.spawned s t c := by rw [spawned, spawned, hbody]
    rw [hsame]
    exact .step ih hA (by simp [Machine.step, ht])
  | act s t o call c k _ hA ht ih =>
    have hsame : M.acted s t o call c k = N.acted s t o call c k := by
      rw [acted, acted, hexec s t o call c k hA ht]
    rw [hsame]
    exact .step ih hA (by simp [Machine.step, ht])
  | restart s t o call c _ hA ht ih =>
    have hsame : M.restarted s t call c = N.restarted s t call c := by rw [restarted, restarted, hbody]
    rw [hsame]
    exact .step ih hA (by simp [Machine.step, ht])

@[simp] theorem spawned_db (t : ℕ) (c : κ) : (M.spawned s t c).db = s.db := rfl
@[simp] theorem spawned_log (t : ℕ) (c : κ) : (M.spawned s t c).log = s.log := rfl
@[simp] theorem spawned_history (t t' : ℕ) (c : κ) :
    (M.spawned s t c).history t' = s.history t' := rfl
@[simp] theorem restarted_db (t : ℕ) (call c : κ) : (M.restarted s t call c).db = s.db := rfl
@[simp] theorem restarted_log (t : ℕ) (call c : κ) : (M.restarted s t call c).log = s.log := rfl
@[simp] theorem restarted_history (t t' : ℕ) (call c : κ) :
    (M.restarted s t call c).history t' = s.history t' := rfl

section acted
variable (t : ℕ) (o : O) (call : κ) (c : I.Cmd) (k : I.Reply c → Prog I ε (Next κ ρ))

@[simp] theorem acted_db : (M.acted s t o call c k).db = (M.exec o s.db c).2 := rfl
@[simp] theorem acted_log :
    (M.acted s t o call c k).log = ⟨t, call, c, (M.exec o s.db c).1⟩ :: s.log := rfl
@[simp] theorem acted_history_self :
    (M.acted s t o call c k).history t = ⟨t, call, c, (M.exec o s.db c).1⟩ :: s.history t := by
  simp [State.history]

@[simp] theorem acted_history_ne {t' : ℕ} (h : t' ≠ t) :
    (M.acted s t o call c k).history t' = s.history t' := by simp [State.history, h.symm]

end acted

theorem spawned_calls (t : ℕ) (c : κ) : (M.spawned s t c).calls = Function.update s.calls t (some c) := by
  funext t'
  by_cases h : t' = t <;> simp [State.calls, spawned, h]

theorem acted_calls {t : ℕ} {call : κ} {p : Prog I ε (Next κ ρ)} (ht : s.threads t = some ⟨call, p⟩)
    (o : O) (c : I.Cmd) (k : I.Reply c → Prog I ε (Next κ ρ)) :
    (M.acted s t o call c k).calls = s.calls := by
  funext t'
  by_cases h : t' = t
  · subst h
    simp [State.calls, acted, ht]
  · simp [State.calls, acted, h]

theorem restarted_calls {t : ℕ} {call : κ} {p : Prog I ε (Next κ ρ)}
    (ht : s.threads t = some ⟨call, p⟩) (c : κ) : (M.restarted s t call c).calls = s.calls := by
  funext t'
  by_cases h : t' = t
  · subst h
    simp [State.calls, restarted, ht]
  · simp [State.calls, restarted, h]

/-- The calls of the threads are those that were spawned. -/
theorem Reaches.mem_spawns {d : D} (h : M.Reaches A (.start d) s) {t : ℕ} {c : κ} :
    (t, c) ∈ s.spawns ↔ s.calls t = some c := by
  induction h using Reaches.by_steps with
  | start => simp [State.start, State.calls]
  | spawn s t' c' _ _ ht ih =>
    rw [spawned_calls, spawned, List.mem_cons, ih, Function.update_apply]
    by_cases htt : t = t'
    · subst htt
      simp [State.calls, ht, eq_comm]
    · simp [htt]
  | act s t' o call c' k _ _ ht ih =>
    rw [acted_calls ht]
    exact ih
  | restart s t' o call c' _ _ ht ih =>
    rw [restarted_calls ht]
    exact ih

/-- Every event belongs to a spawned thread and carries its call. -/
theorem Reaches.calls_of_log {d : D} (h : M.Reaches A (.start d) s) :
    ∀ ev ∈ s.log, s.calls ev.thread = some ev.call := by
  induction h using Reaches.by_steps with
  | start => simp [State.start]
  | spawn s t c _ _ ht ih =>
    intro ev hmem
    rw [spawned_calls, Function.update_of_ne]
    · exact ih ev hmem
    · intro heq
      simpa [State.calls, heq, ht] using ih ev hmem
  | act s t o call c k _ _ ht ih =>
    intro ev hmem
    rw [acted_calls ht]
    rcases List.mem_cons.mp hmem with rfl | hmem
    · simp [State.calls, ht]
    · exact ih ev hmem
  | restart s t o call c _ _ ht ih =>
    intro ev hmem
    rw [restarted_calls ht]
    exact ih ev hmem

theorem Reaches.call_of_history {d : D} (h : M.Reaches A (.start d) s) {t : ℕ} {c : κ} {ev : Event I κ}
    (hev : ev ∈ s.history t) (hc : s.calls t = some c) : ev.call = c := by
  obtain ⟨hmem, rfl⟩ := (s.mem_history).mp hev
  exact Option.some.inj ((h.calls_of_log ev hmem).symm.trans hc)

/-- Whatever every spawned call satisfies holds of the call of each thread. -/
theorem Reaches.calls_satisfy {P : κ → Prop} {d : D} (h : M.Reaches A (.start d) s)
    (hP : ∀ s t c, A s (.spawn t c) → P c) {t : ℕ} {c : κ} (hc : s.calls t = some c) : P c := by
  induction h using Reaches.by_steps with
  | start => simp [State.calls, State.start] at hc
  | spawn s t' c' _ hA _ ih =>
    rw [spawned_calls, Function.update_apply] at hc
    split at hc
    · obtain rfl : c' = c := Option.some.inj hc
      exact hP _ _ _ hA
    · exact ih hc
  | act s t' o call c' k _ _ ht ih =>
    rw [acted_calls ht] at hc
    exact ih hc
  | restart s t' o call c' _ _ ht ih =>
    rw [restarted_calls ht] at hc
    exact ih hc

/-- Nothing is ever removed from the log. -/
theorem Reaches.log_suffix (h : M.Reaches A s s') : s.log <:+ s'.log := by
  induction h using Reaches.by_steps with
  | start => exact List.suffix_refl _
  | spawn s t c _ _ _ ih => exact ih
  | act s t o call c k _ _ _ ih => exact ih.trans (List.suffix_cons _ _)
  | restart s t o call c _ _ _ ih => exact ih

/-- A spawned thread stays on the list. -/
theorem Reaches.spawns_suffix {s s' : State I D κ ρ ε} (h : M.Reaches A s s') : s.spawns <:+ s'.spawns := by
  induction h using Reaches.by_steps with
  | start => exact List.suffix_refl _
  | spawn s t c _ _ _ ih => exact ih.trans (List.suffix_cons _ _)
  | act s t o call c k _ _ _ ih => exact ih
  | restart s t o call c _ _ _ ih => exact ih

/-- Every reply on record is one the store can give. -/
theorem Reaches.possible {d : D} (h : M.Reaches A (.start d) s) :
    ∀ ev ∈ s.log, M.Possible ev.cmd ev.reply := by
  induction h using Reaches.by_steps with
  | start => exact fun ev hev => by cases hev
  | spawn s t c _ _ _ ih => exact ih
  | act s t o call c k _ _ _ ih =>
    intro ev hev
    rcases List.mem_cons.mp hev with rfl | hold
    · exact ⟨o, s.db, rfl⟩
    · exact ih ev hold
  | restart s t o call c _ _ _ ih => exact ih

/-- A thread that has not been spawned has written nothing. -/
theorem Reaches.history_of_unspawned {d : D} (h : M.Reaches A (.start d) s) {t : ℕ}
    (ht : s.calls t = none) : s.history t = [] := by
  apply List.eq_nil_iff_forall_not_mem.mpr
  intro ev hev
  obtain ⟨hmem, rfl⟩ := (s.mem_history).mp hev
  simpa [ht] using h.calls_of_log ev hmem

end Machine

/-- What the calls of a code base promise: the record each keeps of its own
events, the commands it may issue while the record reads so, what holds when it
ends, and when it may make the tail call `c'`. -/
structure Contract (I : Interface) (κ ρ ε σ : Type) where
  start : κ → σ
  next : κ → σ → (c : I.Cmd) → I.Reply c → σ
  may : κ → σ → I.Cmd → Prop
  ends : κ → σ → Except ε ρ → Prop
  resumes : κ → κ → σ → Prop

namespace Contract
variable {σ : Type} (K : Contract I κ ρ ε σ) (M : Machine I D O κ ρ ε)

def rules (c : κ) : Prog.Rules I σ := ⟨M.Possible, K.next c, K.may c⟩

def settles (c : κ) : σ → Except ε (Next κ ρ) → Prop
  | x, .ok (.done r) => K.ends c x (.ok r)
  | x, .ok (.again c') => K.resumes c c' x
  | x, .error e => K.ends c x (.error e)

@[simp] theorem settles_done (c : κ) (x : σ) (r : ρ) :
    K.settles c x (.ok (.done r)) = K.ends c x (.ok r) := rfl
@[simp] theorem settles_again (c c' : κ) (x : σ) :
    K.settles c x (.ok (.again c')) = K.resumes c c' x := rfl
@[simp] theorem settles_error (c : κ) (x : σ) (e : ε) :
    K.settles c x (.error e) = K.ends c x (.error e) := rfl

/-- Every call keeps the contract, whatever the store replies. -/
structure Kept : Prop where
  starts : ∀ c, K.resumes c c (K.start c)
  body : ∀ c c' x, K.resumes c c' x → Prog.Obeys (K.rules M c) (K.settles c) x (M.body c')

/-- The record of call `c` after the given events of its thread. -/
def record (c : κ) (h : List (Event I κ)) : σ :=
  h.foldr (fun ev x => K.next c x ev.cmd ev.reply) (K.start c)

/-- Each spawned thread's call and record. -/
def track (s : State I D κ ρ ε) (t : ℕ) : Option (κ × σ) :=
  (s.calls t).map (fun c => (c, K.record c (s.history t)))

variable {K} {M} {A : State I D κ ρ ε → Label O κ → Prop} {d : D} {s : State I D κ ρ ε}

@[simp] theorem track_start : K.track (.start d : State I D κ ρ ε) = fun _ => none := rfl

theorem track_spawned (h : M.Reaches A (.start d) s) {t : ℕ} (ht : s.threads t = none) (c : κ) :
    K.track (M.spawned s t c) = Function.update (K.track s) t (some (c, K.start c)) := by
  funext t'
  rw [track, Machine.spawned_calls, Machine.spawned_history]
  by_cases htt : t' = t
  · subst htt
    rw [h.history_of_unspawned (by simp [State.calls, ht])]
    simp [record]
  · simp [htt, track]

theorem track_acted {t : ℕ} {call : κ} {c : I.Cmd} {k : I.Reply c → Prog I ε (Next κ ρ)}
    (ht : s.threads t = some ⟨call, .call c k⟩) (o : O) :
    K.track (M.acted s t o call c k) = Function.update (K.track s) t
      (some (call, K.next call (K.record call (s.history t)) c (M.exec o s.db c).1)) := by
  funext t'
  rw [track, Machine.acted_calls ht]
  by_cases htt : t' = t
  · subst htt
    simp [State.calls, ht, record]
  · simp [htt, track]

@[simp] theorem track_restarted {t : ℕ} {call : κ} {p : Prog I ε (Next κ ρ)}
    (ht : s.threads t = some ⟨call, p⟩) (c : κ) :
    K.track (M.restarted s t call c) = K.track s := by
  funext t'
  rw [track, track, Machine.restarted_calls ht, Machine.restarted_history]

theorem track_of_thread {t : ℕ} {call : κ} {p : Prog I ε (Next κ ρ)}
    (ht : s.threads t = some ⟨call, p⟩) :
    K.track s t = some (call, K.record call (s.history t)) := by
  rw [track, State.calls_of_thread ht, Option.map_some]

theorem calls_of_track {t : ℕ} {call : κ} {x : σ} (h : K.track s t = some (call, x)) :
    s.calls t = some call := by
  obtain ⟨c, hc, heq⟩ := Option.map_eq_some_iff.mp h
  obtain rfl : c = call := congrArg Prod.fst heq
  exact hc

/-- Induction over runs for what holds of each thread's record and the store: a step
has to establish it for the thread that acts and keep it for the others. -/
theorem tracks_invariant {P : D → ℕ → κ → σ → Prop} (h : M.Reaches A (.start d) s)
    (start : ∀ s t c, M.Reaches A (.start d) s → P s.db t c (K.start c))
    (act : ∀ s t o call c k, M.Reaches A (.start d) s → A s (.run t o) →
      s.threads t = some ⟨call, .call c k⟩ →
      (∀ t' call' x, K.track s t' = some (call', x) → P s.db t' call' x) →
      P (M.exec o s.db c).2 t call
        (K.next call (K.record call (s.history t)) c (M.exec o s.db c).1) ∧
      ∀ t' call' x, t' ≠ t → K.track s t' = some (call', x) → P (M.exec o s.db c).2 t' call' x) :
    ∀ t call x, K.track s t = some (call, x) → P s.db t call x := by
  induction h using Machine.Reaches.by_steps with
  | start => simp
  | spawn s t c hs _ ht ih =>
    intro t' call x hx
    rw [track_spawned hs ht] at hx
    by_cases htt : t' = t
    · subst htt
      obtain ⟨rfl, rfl⟩ : c = call ∧ K.start c = x := by simpa using hx
      exact start s t' c hs
    · rw [Function.update_of_ne htt] at hx
      exact ih t' call x hx
  | act s t o call c k hs hA ht ih =>
    intro t' call' x hx
    obtain ⟨hown, hothers⟩ := act s t o call c k hs hA ht ih
    rw [track_acted ht] at hx
    by_cases htt : t' = t
    · subst htt
      obtain ⟨rfl, rfl⟩ : call = call' ∧ K.next call _ c _ = x := by simpa using hx
      exact hown
    · rw [Function.update_of_ne htt] at hx
      exact hothers t' call' x htt hx
  | restart s t o call c _ _ ht ih =>
    rw [track_restarted ht]
    exact ih

/-- At every moment the rest of a thread's program keeps to its contract. -/
theorem Kept.obeys (hK : K.Kept M) (h : M.Reaches A (.start d) s) :
    ∀ t call p, s.threads t = some ⟨call, p⟩ →
      Prog.Obeys (K.rules M call) (K.settles call) (K.record call (s.history t)) p := by
  induction h using Machine.Reaches.by_steps with
  | start => simp [State.start]
  | spawn s t c hs _ ht ih =>
    intro t' call p hp
    by_cases htt : t' = t
    · subst htt
      simp only [Machine.spawned, Function.update_self, Option.some.injEq, Thread.mk.injEq] at hp
      obtain ⟨rfl, rfl⟩ := hp
      rw [Machine.spawned_history, hs.history_of_unspawned (by simp [State.calls, ht])]
      exact hK.body _ _ _ (hK.starts _)
    · simp only [Machine.spawned, Function.update_of_ne htt] at hp
      exact ih t' call p hp
  | act s t o call c k _ _ ht ih =>
    intro t' call' p hp
    by_cases htt : t' = t
    · subst htt
      simp only [Machine.acted, Function.update_self, Option.some.injEq, Thread.mk.injEq] at hp
      obtain ⟨rfl, rfl⟩ := hp
      rw [Machine.acted_history_self]
      exact (ih t' _ _ ht).2 _ ⟨o, s.db, rfl⟩
    · simp only [Machine.acted, Function.update_of_ne htt] at hp
      rw [Machine.acted_history_ne _ _ _ _ _ htt]
      exact ih t' call' p hp
  | restart s t o call c _ _ ht ih =>
    intro t' call' p hp
    by_cases htt : t' = t
    · subst htt
      simp only [Machine.restarted, Function.update_self, Option.some.injEq, Thread.mk.injEq] at hp
      obtain ⟨rfl, rfl⟩ := hp
      exact hK.body _ _ _ (ih t' _ _ ht)
    · simp only [Machine.restarted, Function.update_of_ne htt] at hp
      exact ih t' call' p hp

/-- A contract that allows more is kept as well. -/
theorem Kept.loosen (hK : K.Kept M) {may : κ → σ → I.Cmd → Prop} (hmay : ∀ c x cmd, K.may c x cmd → may c x cmd) :
    { K with may := may }.Kept M where
  starts := hK.starts
  body := fun c c' x hx => (hK.body c c' x hx).loosen (hmay c)

/-- A thread issues only the commands its contract allows. -/
theorem Kept.may (hK : K.Kept M) (h : M.Reaches A (.start d) s) {t : ℕ} {call : κ} {c : I.Cmd}
    {k : I.Reply c → Prog I ε (Next κ ρ)} (ht : s.threads t = some ⟨call, .call c k⟩) :
    K.may call (K.record call (s.history t)) c := (hK.obeys h t _ _ ht).1

/-- A finished thread has ended as its contract says. -/
theorem Kept.ends (hK : K.Kept M) (h : M.Reaches A (.start d) s) {t : ℕ} {call : κ} {x : σ}
    (hx : K.track s t = some (call, x)) {r : Except ε ρ} (hr : s.result t = some r) :
    K.ends call x r := by
  cases ht : s.threads t with
  | none => simp [track, State.calls, ht] at hx
  | some th =>
    obtain ⟨call', p⟩ := th
    rw [track_of_thread ht] at hx
    obtain ⟨rfl, rfl⟩ : call' = call ∧ K.record call' (s.history t) = x := by simpa using hx
    have hp := hK.obeys h t call' p ht
    simp only [State.result, ht] at hr
    match p, hr, hp with
    | .ret (.done r'), hr, hp =>
      cases hr
      exact hp
    | .throw e, hr, hp =>
      cases hr
      exact hp

/-- What each step of a thread keeps of its history and record holds at any time. -/
theorem Kept.invariant (hK : K.Kept M) {P : κ → List (Event I κ) → σ → Prop}
    (start : ∀ c, P c [] (K.start c))
    (next : ∀ c h x t cmd r, P c h x → K.may c x cmd → M.Possible cmd r →
      P c (⟨t, c, cmd, r⟩ :: h) (K.next c x cmd r))
    (h : M.Reaches A (.start d) s) :
    ∀ t c x, K.track s t = some (c, x) → P c (s.history t) x := by
  induction h using Machine.Reaches.by_steps with
  | start => simp
  | spawn s t c hs _ ht ih =>
    intro t' c' x hx
    rw [track_spawned hs ht] at hx
    by_cases htt : t' = t
    · subst htt
      obtain ⟨rfl, rfl⟩ : c = c' ∧ K.start c = x := by simpa using hx
      rw [Machine.spawned_history, hs.history_of_unspawned (by simp [State.calls, ht])]
      exact start c
    · rw [Function.update_of_ne htt] at hx
      exact ih t' c' x hx
  | act s t o call c k hs _ ht ih =>
    intro t' c' x hx
    rw [track_acted ht] at hx
    by_cases htt : t' = t
    · subst htt
      obtain ⟨rfl, rfl⟩ : call = c' ∧ K.next call _ c _ = x := by simpa using hx
      rw [Machine.acted_history_self]
      exact next _ _ _ _ _ _ (ih t' _ _ (track_of_thread ht)) (hK.may hs ht) ⟨o, s.db, rfl⟩
    · rw [Function.update_of_ne htt] at hx
      rw [Machine.acted_history_ne _ _ _ _ _ htt]
      exact ih t' c' x hx
  | restart s t o call c _ _ ht ih =>
    rw [track_restarted ht]
    exact ih

end Contract
end RedRoomRewards.Process
