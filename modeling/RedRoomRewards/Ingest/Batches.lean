import RedRoomRewards.Ingest.Events

/-! One poll loop: a batch is over before the next one is polled, so that at any time only
one call is at work on an event. -/
namespace RedRoomRewards.Ingest
open Process Store IngestWorker

/-- The steps with a single poll loop, which awaits each batch before it polls again. -/
def OneLoop (w : ℕ) : Schedule
  | s, .spawn t (.poll worker) => Working s (.spawn t (.poll worker)) ∧ worker = w ∧
      ∀ x ∈ s.spawns, x.2.isPoll = true → Settled s x.1
  | s, l => Working s l

instance (w : ℕ) (s : Run) (l : Label Oracle Call) : Decidable (OneLoop w s l) :=
  match l with
  | .spawn _ (.poll _) | .spawn _ (.process ..) | .spawn _ (.replay _) | .spawn _ (.post _) | .spawn _ (.crash _) | .run .. => by
    dsimp only [OneLoop]
    infer_instance

theorem OneLoop.working {w : ℕ} {s : Run} {l : Label Oracle Call} (h : OneLoop w s l) : Working s l := by
  cases l with
  | spawn t call =>
    cases call with
    | poll worker => exact h.1
    | _ => exact h
  | run t o => exact h

/-- The call has claimed the event and is not done with it. -/
def Stage.Knows (e : IngestEvent) : Stage → Prop
  | holding e' _ | marked e' => e' = e
  | _ => False

section batches
variable {v : View} {t t' : ℕ} {call : Call} {c : Cmd} {r : c.Reply} {db' : Db} {x x' : Stage}

/-- The call has come to its end. -/
def Stage.Ended : Stage → Prop
  | finished | abandoned _ => True
  | _ => False

namespace View

def batch (v : View) (t : ℕ) : List String :=
  (v.log.filter fun ev => ev.thread = t).flatMap fun ev => ev.cmd.found ev.reply

/-- The poll has returned, and each call that handles one of its events has ended. -/
def Over (v : View) (p : ℕ) : Prop := (∃ w, v.stages p = some (.poll w, .finished)) ∧
  ∀ id ∈ v.batch p, ∃ t w x, v.stages t = some (.process w p id, x) ∧ x.Ended

end View

/-- Each event of a batch is handled by one call, and all batches but one are over. -/
structure Batched (v : View) : Prop where
  once : ∀ t t' w w' p id, (t, Call.process w p id) ∈ v.spawns → (t', Call.process w' p id) ∈ v.spawns → t = t'
  found : ∀ t w p id, (t, Call.process w p id) ∈ v.spawns →
    id ∈ v.batch p ∧ ∃ w', (p, Call.poll w') ∈ v.spawns
  latest : ∀ p p' w w', (p, Call.poll w) ∈ v.spawns → (p', Call.poll w') ∈ v.spawns →
    p = p' ∨ v.Over p ∨ v.Over p'

theorem Stage.Knows.not_ended {e : IngestEvent} (h : x.Knows e) : ¬ x.Ended := by
  cases x with
  | holding e' phase => exact id
  | marked e' => exact id
  | _ => exact h.elim

theorem Stage.Knows.find {db : Db} {id : String} {e : IngestEvent} (h : x.Knows e) (htracks : x.Tracks db id) :
    ∃ e₀, db.events.find id = some e₀ ∧ e₀.origin = e.origin := by
  cases x with
  | holding e' phase | marked e' =>
    obtain rfl : e' = e := h
    exact htracks
  | _ => exact h.elim

theorem Work.ended {id : String} {db : Db} (h : Work id db x c r db' x') (hx : x.Ended) : x'.Ended := by
  cases h with
  | idle x t => exact hx
  | _ => exact hx.elim

theorem View.batch_acted (t : ℕ) (call : Call) (c : Cmd) (r : c.Reply) (db' : Db) (x' : Stage) (p : ℕ) :
    (v.acted t call c r db' x').batch p = (if t = p then c.found r else []) ++ v.batch p := by
  by_cases ht : t = p <;> simp [batch, acted, ht]

/-- What is over stays over. -/
private theorem View.Over.acted {p : ℕ} (h : v.Over p) (hx : v.stages t = some (call, x))
    (hended : x.Ended → x'.Ended) (hpoll : call.isPoll = true → x = .waiting) :
    (v.acted t call c r db' x').Over p := by
  obtain ⟨⟨w, hp⟩, hbatch⟩ := h
  have hne : p ≠ t := by
    rintro rfl
    obtain ⟨rfl, rfl⟩ := Prod.mk.inj (Option.some.inj (hp.symm.trans hx))
    cases hpoll rfl
  refine ⟨⟨w, (View.stages_acted_ne hne).trans hp⟩, fun id hmem => ?_⟩
  rw [View.batch_acted, if_neg hne.symm, List.nil_append] at hmem
  obtain ⟨t', w', y, hstage, hy⟩ := hbatch id hmem
  by_cases htt : t' = t
  · subst htt
    obtain ⟨rfl, rfl⟩ := Prod.mk.inj (Option.some.inj (hstage.symm.trans hx))
    exact ⟨t', w', x', View.stages_acted_self, hended hy⟩
  · exact ⟨t', w', y, (View.stages_acted_ne htt).trans hstage, hy⟩

private theorem Batched.acted (h : Batched v) (hx : v.stages t = some (call, x)) (hended : x.Ended → x'.Ended)
    (hpoll : call.isPoll = true → x = .waiting) : Batched (v.acted t call c r db' x') := by
  refine ⟨h.once, fun t' w p id hmem => ?_, fun p p' w w' hp hp' => ?_⟩
  · obtain ⟨hfound, hpolled⟩ := h.found t' w p id hmem
    rw [View.batch_acted]
    exact ⟨List.mem_append_right _ hfound, hpolled⟩
  · rcases h.latest p p' w w' hp hp' with heq | hover | hover
    · exact .inl heq
    · exact .inr (.inl (hover.acted hx hended hpoll))
    · exact .inr (.inr (hover.acted hx hended hpoll))

variable {workers : ℕ → IngestWorker} {A : Schedule} {d : Db} {s : Run} {w : ℕ}

private theorem View.Over.spawned {p : ℕ} (h : v.Over p) (hnone : v.stages t = none) (call : Call) :
    (v.spawned t call).Over p := by
  have hkept : ∀ t' y, v.stages t' = some y → (v.spawned t call).stages t' = some y := by
    intro t' y hy
    refine (Function.update_of_ne ?_ _ _).trans hy
    rintro rfl
    rw [hnone] at hy
    cases hy
  obtain ⟨⟨w, hp⟩, hbatch⟩ := h
  refine ⟨⟨w, hkept p _ hp⟩, fun id hmem => ?_⟩
  obtain ⟨t', w', y, hstage, hy⟩ := hbatch id hmem
  exact ⟨t', w', y, hkept t' _ hstage, hy⟩

/-- The stage of a spawned call. -/
theorem stage_of_spawned (h : (queue workers).Reaches A (.start d) s) (hmem : (t, call) ∈ s.spawns) :
    ∃ x, (view s).stages t = some (call, x) := by
  have hcall := h.mem_spawns.mp hmem
  exact ⟨working.record call (s.history t), by simp [view, Contract.track, hcall]⟩

theorem spawned_of_stage (h : (queue workers).Reaches A (.start d) s) (hx : (view s).stages t = some (call, x)) :
    (t, call) ∈ s.spawns := h.mem_spawns.mpr (Contract.calls_of_track hx)

/-- A call that has returned has come to its end. -/
theorem ended_of_result (h : (queue workers).Reaches A (.start d) s) {p : ℕ} {id : String}
    (hx : (view s).stages t = some (.process w p id, x)) (hresult : (s.result t).isSome = true) : x.Ended := by
  obtain ⟨r, hr⟩ := Option.isSome_iff_exists.mp hresult
  have hends : (Call.process w p id).ends x r := (working_kept workers).ends h hx hr
  cases r with
  | ok _ =>
    rw [show x = .finished from hends]
    trivial
  | error _ =>
    obtain ⟨e, rfl⟩ := hends
    trivial

theorem over_of_settled (h : (queue workers).Reaches A (.start d) s) {p : ℕ} (hp : (p, Call.poll w) ∈ s.spawns)
    (hsettled : Settled s p) : (view s).Over p := by
  obtain ⟨hreturned, hbatch⟩ := hsettled
  constructor
  · obtain ⟨x, hx⟩ := stage_of_spawned h hp
    obtain ⟨r, hr⟩ := Option.isSome_iff_exists.mp hreturned
    have hfinished : (Call.poll w).ends x r := (working_kept workers).ends h hx hr
    exact ⟨w, hx.trans (by rw [show x = .finished from hfinished])⟩
  · intro id hmem
    obtain ⟨⟨t, call⟩, hspawned, hhandles, hended⟩ := hbatch id hmem
    cases call with
    | process w' p' id' =>
      obtain ⟨rfl, rfl⟩ : p' = p ∧ id' = id := by simpa [Call.handles] using hhandles
      obtain ⟨x, hx⟩ := stage_of_spawned h hspawned
      exact ⟨t, w', x, hx, ended_of_result h hx hended⟩
    | _ => cases hhandles

/-- A call starts: a new one for an event of a batch, or a poll when all batches are over. -/
private theorem Batched.spawned (h : Batched v) (hnone : v.stages t = none)
    (hprocess : ∀ w p id, call = .process w p id → (∀ t' w', (t', Call.process w' p id) ∉ v.spawns) ∧
      id ∈ v.batch p ∧ ∃ w', (p, Call.poll w') ∈ v.spawns)
    (hpoll : ∀ w, call = .poll w → ∀ p w', (p, Call.poll w') ∈ v.spawns → v.Over p) :
    Batched (v.spawned t call) := by
  refine ⟨fun t₁ t₂ w₁ w₂ p id h₁ h₂ => ?_, fun t₁ w₁ p id h₁ => ?_, fun p p' w w' hp hp' => ?_⟩
  · rcases List.mem_cons.mp h₁ with heq₁ | hold₁
    · obtain ⟨rfl, hcall₁⟩ := Prod.mk.inj heq₁
      rcases List.mem_cons.mp h₂ with heq₂ | hold₂
      · exact (Prod.mk.inj heq₂).1.symm
      · exact absurd hold₂ ((hprocess w₁ p id hcall₁.symm).1 t₂ w₂)
    · rcases List.mem_cons.mp h₂ with heq₂ | hold₂
      · exact absurd hold₁ ((hprocess w₂ p id (Prod.mk.inj heq₂).2.symm).1 t₁ w₁)
      · exact h.once t₁ t₂ w₁ w₂ p id hold₁ hold₂
  · rcases List.mem_cons.mp h₁ with heq₁ | hold₁
    · obtain ⟨-, hfound, w', hmem⟩ := hprocess w₁ p id (Prod.mk.inj heq₁).2.symm
      exact ⟨hfound, w', .tail _ hmem⟩
    · obtain ⟨hfound, w', hmem⟩ := h.found t₁ w₁ p id hold₁
      exact ⟨hfound, w', .tail _ hmem⟩
  · rcases List.mem_cons.mp hp with heq | hold
    · rcases List.mem_cons.mp hp' with heq' | hold'
      · exact .inl ((Prod.mk.inj heq).1.trans (Prod.mk.inj heq').1.symm)
      · exact .inr (.inr ((hpoll w (Prod.mk.inj heq).2.symm p' w' hold').spawned hnone call))
    · rcases List.mem_cons.mp hp' with heq' | hold'
      · exact .inr (.inl ((hpoll w' (Prod.mk.inj heq').2.symm p w hold).spawned hnone call))
      · rcases h.latest p p' w w' hold hold' with heq | hover | hover
        · exact .inl heq
        · exact .inr (.inl (hover.spawned hnone call))
        · exact .inr (.inr (hover.spawned hnone call))

theorem batched (h : (queue workers).Reaches (OneLoop w) (.start d) s) : Batched (view s) := by
  refine reaches_invariant h ⟨?_, ?_, ?_⟩ ?_ ?_ ?_
  · intro t t' w w' p id hmem
    cases hmem
  · intro t w p id hmem
    cases hmem
  · intro p p' w w' hmem
    cases hmem
  · intro s t call hs hA hnone ih
    refine ih.spawned hnone ?_ ?_
    · rintro w' p id rfl
      obtain ⟨-, hfound, ⟨⟨q, polled⟩, hpolled, rfl, hpoll, -⟩, hnew⟩ := hA
      refine ⟨fun t' w'' hmem => ?_, hfound, ?_⟩
      · simpa [Call.handles] using hnew _ hmem
      · cases polled with
        | poll w₀ => exact ⟨w₀, hpolled⟩
        | _ => cases hpoll
    · rintro w' rfl p w'' hp
      exact over_of_settled hs hp (hA.2.2 _ hp rfl)
  · intro s t o w' p id x c r db' x' hs hA hpending hx hwork ih
    exact ih.acted hx hwork.ended fun hpoll => by cases hpoll
  · intro s t o call c r db' x' hs hA hpending hx hfeed ih
    exact ih.acted hx (fun hended => hended.elim) fun _ => rfl

/-- The calls of workers are those of the loop's worker. -/
theorem worker_of_loop (h : (queue workers).Reaches (OneLoop w) (.start d) s) :
    ∀ x ∈ s.spawns, ∀ w' ∈ x.2.worker, w' = w := by
  refine reaches_invariant (P := fun v => ∀ x ∈ v.spawns, ∀ w' ∈ x.2.worker, w' = w) h ?_ ?_ ?_ ?_
  · intro x hmem
    cases hmem
  · intro s t call hs hA hnone ih x hmem w' hw
    rcases List.mem_cons.mp hmem with rfl | hold
    · cases call with
      | poll worker =>
        obtain rfl : worker = w' := Option.some.inj hw
        exact hA.2.1
      | process worker p id =>
        obtain rfl : worker = w' := Option.some.inj hw
        obtain ⟨-, -, ⟨polled, hpolled, -, -, hworker⟩, -⟩ := hA
        exact ih polled hpolled worker hworker
      | _ => cases hw
    · exact ih x hold w' hw
  · exact fun s t o w₀ p id x c r db' x' _ _ _ _ _ ih => ih
  · exact fun s t o call c r db' x' _ _ _ _ _ ih => ih

/-- Two calls that handle one event and have not come to their end are the same. -/
theorem live_alone (h : (queue workers).Reaches (OneLoop w) (.start d) s) {t t' w₁ w₂ p₁ p₂ : ℕ} {id : String}
    (hx : (view s).stages t = some (.process w₁ p₁ id, x)) (hx' : (view s).stages t' = some (.process w₂ p₂ id, x'))
    (hlive : ¬ x.Ended) (hlive' : ¬ x'.Ended) : t = t' := by
  have hbatched := batched h
  have hspawned := spawned_of_stage h hx
  have hspawned' := spawned_of_stage h hx'
  obtain ⟨hfound, w, hp⟩ := hbatched.found t w₁ p₁ id hspawned
  obtain ⟨hfound', w', hp'⟩ := hbatched.found t' w₂ p₂ id hspawned'
  -- a batch that is over has no call at work
  have hopen : ∀ {t w p y}, (view s).stages t = some (.process w p id, y) → ¬ y.Ended → id ∈ (view s).batch p →
      ¬ (view s).Over p := by
    rintro t w p y hy hlive hmem ⟨-, hbatch⟩
    obtain ⟨t₀, w₀, y₀, hy₀, hended⟩ := hbatch id hmem
    obtain rfl := hbatched.once t t₀ w w₀ p id (spawned_of_stage h hy) (spawned_of_stage h hy₀)
    obtain ⟨-, rfl⟩ := Prod.mk.inj (Option.some.inj (hy.symm.trans hy₀))
    exact hlive hended
  rcases hbatched.latest p₁ p₂ w w' hp hp' with rfl | hover | hover
  · exact hbatched.once t t' w₁ w₂ p₁ id hspawned hspawned'
  · exact absurd hover (hopen hx hlive hfound)
  · exact absurd hover (hopen hx' hlive' hfound')

/-- Two calls at work on events of one identifier are the same. -/
theorem at_work_alone (h : (queue workers).Reaches (OneLoop w) (.start d) s) {t t' w₁ w₂ p₁ p₂ : ℕ} {id₁ id₂ : String}
    {e₁ e₂ : IngestEvent} (hx : (view s).stages t = some (.process w₁ p₁ id₁, x))
    (hx' : (view s).stages t' = some (.process w₂ p₂ id₂, x')) (hknown : x.Knows e₁) (hknown' : x'.Knows e₂)
    (hsame : e₁.eventId = e₂.eventId) : t = t' := by
  obtain ⟨d₁, hfind₁, horigin₁⟩ := hknown.find (tracked h t w₁ p₁ id₁ x hx)
  obtain ⟨d₂, hfind₂, horigin₂⟩ := hknown'.find (tracked h t' w₂ p₂ id₂ x' hx')
  have hid : id₁ = id₂ := by
    have hdoc : d₁ = d₂ := Collection.eq_of_index (Collection.mem_of_find hfind₁) (Collection.mem_of_find hfind₂) (by
      rw [IngestEvent.eventId_of_origin horigin₁, IngestEvent.eventId_of_origin horigin₂, hsame])
    rw [← Collection.key_of_find hfind₁, ← Collection.key_of_find hfind₂, hdoc]
  subst hid
  exact live_alone h hx hx' hknown.not_ended hknown'.not_ended

end batches
end RedRoomRewards.Ingest
