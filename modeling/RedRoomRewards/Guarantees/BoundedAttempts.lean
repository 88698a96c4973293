import RedRoomRewards.Guarantees.NoStuckEvent
import RedRoomRewards.Ingest.Batches

/-! With one poll loop, how often the handler of an event is invoked until ingestion or a
replay queues the event again, and when the limit of the worker bounds it. -/
namespace RedRoomRewards.Ingest
open Process Store IngestWorker

section condition

/-- How often the handler has been invoked for the event since it was last queued by
ingestion or a replay. -/
def invocations (log : List (Event Queue Call)) (e : IngestEvent) : ℕ :=
  (log.takeWhile fun ev => !ev.call.queues e.id ev.cmd ev.reply).countP fun ev => ev.cmd.invokes = some e.eventId

/-- Ingestion or a replay has queued the event. -/
def Queued (log : List (Event Queue Call)) (id : String) : Prop :=
  ∃ ev ∈ log, ev.call.queues id ev.cmd ev.reply = true

/-- After this command its call does not go on to invoke the handler. -/
def Cmd.decides : (c : Cmd) → c.Reply → Bool
  | .findRecord .., some _ => true
  | .invoke .., _ => true
  | _, _ => false

/-- The event that a command updates. -/
def Cmd.updates : Cmd → Option String
  | .updateEvent id _ => some id
  | _ => none

variable (s : Run)

/-- The call of thread `t` has claimed its event and may yet invoke the handler. -/
def Approaching (t : ℕ) : Prop := Busy s t ∧ ∀ ev ∈ s.history t, ev.cmd.decides ev.reply = false

/-- One poll loop. No replay queues an event whose handler is about to be invoked, and no
call that has thrown before fails to store the dead letter of an event in processing. -/
def Bounded (w : ℕ) : Schedule
  | s, .spawn t call => OneLoop w s (.spawn t call)
  | s, .run t o => OneLoop w s (.run t o) ∧ ∀ x ∈ s.pending t,
      (x.1.isReplay = true → ∀ id ∈ x.2.updates, ∀ y ∈ s.spawns, y.2.target = some id → ¬ Approaching s y.1) ∧
      ∀ d ∈ x.2.buries, (∃ ev ∈ s.history t, ev.cmd.rereads = true) → (d.invalid = [] ∧ s.db.dlq.Free d) ∨
        ∀ id ∈ x.1.target, ∀ e ∈ s.db.events.find id, e.status ≠ .processing

instance (log : List (Event Queue Call)) (id : String) : Decidable (Queued log id) :=
  inferInstanceAs (Decidable (∃ ev ∈ _, _))
instance (t : ℕ) : Decidable (Approaching s t) := inferInstanceAs (Decidable (_ ∧ _))

instance (w : ℕ) (l : Label Oracle Call) : Decidable (Bounded w s l) :=
  match l with
  | .spawn .. | .run .. => by dsimp only [Bounded]; infer_instance

theorem Bounded.loop {w : ℕ} {s : Run} {l : Label Oracle Call} (h : Bounded w s l) : OneLoop w s l := by
  cases l with
  | spawn t call => exact h
  | run t o => exact h.1

end condition

section counting
variable {log : List (Event Queue Call)} {ev : Event Queue Call} {e e' : IngestEvent} {id : String}

theorem invocations_of_origin (h : e.origin = e'.origin) : invocations log e = invocations log e' := by
  unfold invocations
  rw [IngestEvent.id_of_origin h, IngestEvent.eventId_of_origin h]

theorem invocations_queued (h : ev.call.queues e.id ev.cmd ev.reply = true) : invocations (ev :: log) e = 0 := by
  simp [invocations, h]

theorem invocations_cons (h : ev.call.queues e.id ev.cmd ev.reply = false) :
    invocations (ev :: log) e = invocations log e + if ev.cmd.invokes = some e.eventId then 1 else 0 := by
  simp [invocations, h, List.countP_cons]

theorem queued_cons (h : ev.call.queues id ev.cmd ev.reply = false) : Queued (ev :: log) id ↔ Queued log id := by
  simp [Queued, h]

end counting

section invariant
variable {max n : ℕ} {e e' : IngestEvent} {phase phase' : Phase} {x x' : Stage}

/-- The call has claimed its event and may yet invoke the handler. -/
def Phase.Early (phase : Phase) : Prop := phase = .claimed ∨ phase = .checked

/-- How a stored event, of which `n` invocations count, fits the stage of the only call
that is at work on it. -/
structure Fits (max n : ℕ) (e : IngestEvent) (x : Stage) : Prop where
  counted : n ≤ e.attempts
  limited : e.attempts ≤ max
  accepted : e.status ≠ .rejected
  left : e.status = .queued → e.attempts < max
  held : e.status = .processing → ∃ e' phase, x = .holding e' phase
  status : ∀ e' phase, x = .holding e' phase → e.status = .queued ∨ e.status = .processing ∧ e'.attempts = e.attempts
  early : ∀ e' phase, x = .holding e' phase → phase.Early → e.status = .processing ∧ n < e.attempts

/-- An event that has just been queued. -/
theorem Fits.fresh (hstatus : e.status = .queued) (hattempts : e.attempts = 0) (hmax : 0 < max)
    (hlate : ∀ e' phase, x = .holding e' phase → ¬ phase.Early) : Fits max 0 e x where
  counted := Nat.zero_le _
  limited := by omega
  accepted := by simp [hstatus]
  left := fun _ => by omega
  held := fun hprocessing => by simp [hstatus] at hprocessing
  status := fun _ _ _ => .inl hstatus
  early := fun e' phase hx hearly => absurd hearly (hlate e' phase hx)

/-- Only what is held is in processing. -/
theorem Fits.released (h : Fits max n e x) (hx' : ∀ e' phase, x' ≠ .holding e' phase)
    (hstatus : e.status ≠ .processing) : Fits max n e x' where
  counted := h.counted
  limited := h.limited
  accepted := h.accepted
  left := h.left
  held := fun hprocessing => absurd hprocessing hstatus
  status := fun e' phase heq => absurd heq (hx' e' phase)
  early := fun e' phase heq => absurd heq (hx' e' phase)

theorem Fits.processing (h : Fits max n e x) (hx : ∀ e' phase, x ≠ .holding e' phase) : e.status ≠ .processing := by
  intro hprocessing
  obtain ⟨e', phase, heq⟩ := h.held hprocessing
  exact hx e' phase heq

/-- The call goes on with the event. -/
theorem Fits.later (h : Fits max n e (.holding e' phase)) (hearly : phase'.Early → phase.Early) :
    Fits max n e (.holding e' phase') where
  counted := h.counted
  limited := h.limited
  accepted := h.accepted
  left := h.left
  held := fun _ => ⟨e', phase', rfl⟩
  status := by
    intro e₁ phase₁ heq
    obtain ⟨rfl, rfl⟩ := Stage.holding.inj heq
    exact h.status e' phase rfl
  early := by
    rintro e₁ phase₁ heq hphase
    obtain ⟨rfl, rfl⟩ := Stage.holding.inj heq
    exact h.early e' phase rfl (hearly hphase)

/-- The handler is invoked. -/
theorem Fits.invoked (h : Fits max n e (.holding e' .checked)) : Fits max (n + 1) e (.holding e' .handling) := by
  obtain ⟨hprocessing, hless⟩ := h.early e' .checked rfl (.inr rfl)
  have hlater : Fits max n e (.holding e' .handling) := h.later fun hearly => by rcases hearly with h | h <;> cases h
  refine { hlater with counted := hless, early := ?_ }
  rintro e₁ phase₁ heq hphase
  obtain ⟨rfl, rfl⟩ := Stage.holding.inj heq
  rcases hphase with hphase | hphase <;> cases hphase

/-- The event is claimed while nobody is at work on it. -/
theorem Fits.claimed (h : Fits max n e .waiting) (hclaimable : e.claimable = true) :
    Fits max n e.claimed (.holding e.claimed .claimed) := by
  have hqueued : e.status = .queued := by
    have hor : e.status = .queued ∨ e.status = .processing := by simpa [IngestEvent.claimable] using hclaimable
    exact hor.resolve_right (h.processing fun _ _ heq => by cases heq)
  have hleft := h.left hqueued
  have hcounted := h.counted
  refine ⟨Nat.le_succ_of_le hcounted, hleft, ?_, ?_, fun _ => ⟨_, _, rfl⟩, ?_, fun _ _ _ _ => ?_⟩
  · exact fun hrejected => IngestEventStatus.noConfusion hrejected
  · exact fun hqueued => IngestEventStatus.noConfusion hqueued
  · rintro e₁ phase₁ heq
    obtain ⟨rfl, rfl⟩ := Stage.holding.inj heq
    exact .inr ⟨rfl, rfl⟩
  · exact ⟨rfl, Nat.lt_succ_of_le hcounted⟩

/-- The call gives up the event by an update. -/
theorem Fits.updated {u : IngestEventUpdate} (h : Fits max n e (.holding e' phase)) (hallows : phase.Allows u)
    (hattempts : u.attempts = none) (hretry : u.status = .queued → e'.attempts < max)
    (hx' : ∀ e₁ phase₁, x' ≠ .holding e₁ phase₁) : Fits max n (u.apply e) x' := by
  have hsame : (u.apply e).attempts = e.attempts := by simp [IngestEventUpdate.apply, hattempts]
  have hnot : u.status ≠ .rejected := by
    cases phase with
    | known | succeeded | buried =>
      rw [show u.status = _ from hallows]
      decide
    | failing | caught =>
      rw [hallows.1]
      decide
    | _ => exact hallows.elim
  refine ⟨?_, ?_, hnot, fun hqueued => ?_, fun hprocessing => ?_, fun e₁ phase₁ heq => ?_, fun e₁ phase₁ heq => ?_⟩
  · rw [hsame]
    exact h.counted
  · rw [hsame]
    exact h.limited
  · rw [hsame]
    rcases h.status e' phase rfl with hstatus | ⟨-, heq⟩
    · exact h.left hstatus
    · exact heq ▸ hretry hqueued
  · exact absurd hprocessing hallows.lands
  · exact absurd heq (hx' e₁ phase₁)
  · exact absurd heq (hx' e₁ phase₁)

variable {v : View} {t w p : ℕ} {id : String} {call : Call} {c : Cmd} {r : c.Reply} {db db' : Db}

/-- A call's step with its event keeps the count. -/
private theorem Fits.work {worker : IngestWorker} (h : Fits worker.config.maxRetryAttempts n e x)
    (hfind : db.events.find id = some e) (hfind' : db'.events.find id = some e')
    (htracks : x.Tracks db id) (hvalid : db.Identified) (hretry : x.MayRetry worker c)
    (hburied : ∀ d e₁, c = .createDLQ d → x = .holding e₁ .caught →
      (d.invalid = [] ∧ db.dlq.Free d) ∨ e.status ≠ .processing)
    (hwork : Work id db x c r db' x') :
    Fits worker.config.maxRetryAttempts (n + if c.invokes = some e'.eventId then 1 else 0) e' x' := by
  have hquiet : db'.events = db.events → e' = e := by
    intro hevents
    rw [hevents, hfind] at hfind'
    exact (Option.some.inj hfind').symm
  cases hwork with
  | idle x t =>
    obtain rfl := hquiet rfl
    exact h
  | missed =>
    obtain rfl := hquiet rfl
    exact h.released (fun _ _ heq => by cases heq) (h.processing fun _ _ heq => by cases heq)
  | claimed e₁ hfind₁ hclaimable =>
    obtain rfl : e₁ = e := Option.some.inj (hfind₁.symm.trans hfind)
    rw [Collection.find_modify_self IngestEvent.claimed_keeps hfind] at hfind'
    obtain rfl := Option.some.inj hfind'
    exact h.claimed hclaimable
  | known e₁ r₁ hfind₁ | checked e₁ hfind₁ =>
    obtain rfl := hquiet rfl
    exact h.later fun _ => .inl rfl
  | invoked e₁ handler =>
    obtain rfl := hquiet rfl
    obtain ⟨e₀, hfind₀, horigin⟩ := htracks
    obtain rfl : e₀ = e' := Option.some.inj (hfind₀.symm.trans hfind)
    have hinvokes : (Cmd.invoke handler (contextOf e₁)).invokes = some e₀.eventId :=
      congrArg some (IngestEvent.eventId_of_origin horigin).symm
    rw [if_pos hinvokes]
    exact h.invoked
  | answered e₁ handler r₁ =>
    obtain rfl := hquiet rfl
    cases r₁ with
    | error error => exact h.later fun hearly => by rcases hearly with heq | heq <;> cases heq
    | ok response =>
      apply h.later
      intro hearly
      split at hearly <;> rcases hearly with heq | heq <;> cases heq
  | updated e₁ phase u hallows =>
    rw [show (db.updateEvent id u).events.find id = _ from Collection.find_modify_self u.keeps hfind] at hfind'
    obtain rfl := Option.some.inj hfind'
    apply h.updated hallows hretry.1 hretry.2
    cases phase <;> exact fun _ _ heq => by cases heq
  | buried e₁ phase d hphase hd hfree =>
    obtain rfl := hquiet rfl
    exact h.later fun hearly => by rcases hearly with heq | heq <;> cases heq
  | refused e₁ phase d error hphase hd hrefused =>
    obtain rfl := hquiet rfl
    by_cases hcaught : phase = .caught
    · subst hcaught
      rcases hburied d e₁ rfl rfl with ⟨hvalid, hfree⟩ | hstatus
      · exact absurd hfree (hrefused hvalid)
      · exact h.released (fun _ _ heq => by cases heq) hstatus
    · have hthrown : (Stage.holding e₁ phase).afterBurial (.error error) = .holding e₁ .thrown := by
        cases phase <;> first | rfl | exact absurd rfl hcaught
      rw [hthrown]
      exact h.later fun hearly => by rcases hearly with heq | heq <;> cases heq
  | recorded e₁ t hfree | duplicated e₁ t r₁ keyPattern text hfind₁ =>
    obtain rfl := hquiet rfl
    exact h.released (fun _ _ heq => by cases heq) (h.processing fun _ _ heq => by cases heq)
  | unrecorded e₁ t error hinvalid =>
    obtain ⟨e₀, hfind₀, horigin⟩ := htracks
    rw [← IngestEvent.eventId_of_origin horigin] at hinvalid
    exact absurd (processedRecord_valid (hvalid.find hfind₀) t) hinvalid
  | reread e₁ e₂ hfind₁ =>
    obtain rfl := hquiet rfl
    obtain rfl : e₂ = e' := Option.some.inj (hfind₁.symm.trans hfind)
    have hlater : Fits worker.config.maxRetryAttempts n e₂ (.holding e₁ .caught) :=
      h.later fun hearly => by rcases hearly with heq | heq <;> cases heq
    refine { hlater with held := fun _ => ⟨e₂, .caught, rfl⟩, status := ?_, early := ?_ }
    · rintro e₃ phase₃ heq
      obtain ⟨rfl, rfl⟩ := Stage.holding.inj heq
      rcases h.status e₁ .thrown rfl with hqueued | ⟨hprocessing, -⟩
      · exact .inl hqueued
      · exact .inr ⟨hprocessing, rfl⟩
    · rintro e₃ phase₃ heq hearly
      obtain ⟨rfl, rfl⟩ := Stage.holding.inj heq
      rcases hearly with heq | heq <;> cases heq
  | vanished e₁ hfind₁ =>
    rw [hfind₁] at hfind
    cases hfind

/-- What counts for a queued event fits the call that is at work on it. -/
def CountedAt (max : ℕ) (v : View) (id : String) : Prop := ∀ e, v.db.events.find id = some e → Queued v.log id →
  (∀ t w p x e', v.stages t = some (.process w p id, x) → x.Knows e' → Fits max (invocations v.log e) e x) ∧
    ((∀ t w p x e', v.stages t = some (.process w p id, x) → ¬ x.Knows e') →
      Fits max (invocations v.log e) e .finished)

/-- A step of a call that is not at work on the event. -/
private theorem CountedAt.foreign (h : CountedAt max v id) (hx : v.stages t = some (call, x))
    (hcall : ∀ w p e, call = .process w p id → ¬ x.Knows e ∧ ¬ x'.Knows e)
    (hfind : db'.events.find id = v.db.events.find id) (hqueues : call.queues id c r = false)
    (hinvokes : ∀ e, v.db.events.find id = some e → c.invokes ≠ some e.eventId) :
    CountedAt max (v.acted t call c r db' x') id := by
  have hthreads : ∀ t' w p y e, y.Knows e → ((v.acted t call c r db' x').stages t' = some (.process w p id, y) ↔
      v.stages t' = some (.process w p id, y)) := by
    intro t' w p y e hknows
    by_cases htt : t' = t
    · subst htt
      rw [View.stages_acted_self, hx]
      constructor
      · intro heq
        obtain ⟨rfl, rfl⟩ := Prod.mk.inj (Option.some.inj heq)
        exact absurd hknows (hcall w p e rfl).2
      · intro heq
        obtain ⟨rfl, rfl⟩ := Prod.mk.inj (Option.some.inj heq)
        exact absurd hknows (hcall w p e rfl).1
    · rw [View.stages_acted_ne htt]
  intro e hfind' hqueued
  have hold : v.db.events.find id = some e := hfind.symm.trans hfind'
  obtain rfl : e.id = id := Collection.key_of_find hold
  have hsame : invocations (v.acted t call c r db' x').log e = invocations v.log e := by
    apply (invocations_cons hqueues).trans
    rw [if_neg (hinvokes e hold), Nat.add_zero]
  obtain ⟨hknown, hrest⟩ := h e hold ((queued_cons hqueues).mp hqueued)
  rw [hsame]
  constructor
  · intro t' w p y e' hy hknows
    exact hknown t' w p y e' ((hthreads t' w p y e' hknows).mp hy) hknows
  · intro hnone
    apply hrest
    intro t' w p y e' hy hknows
    exact hnone t' w p y e' ((hthreads t' w p y e' hknows).mpr hy) hknows

/-- A look at the clock. -/
private theorem CountedAt.idle (h : CountedAt max v id) (hx : v.stages t = some (call, x)) (now : Time) :
    CountedAt max (v.acted t call .now now v.db x) id := by
  have hstages : (v.acted t call .now now v.db x).stages = v.stages := by
    funext t'
    by_cases htt : t' = t
    · subst htt
      rw [View.stages_acted_self, hx]
    · rw [View.stages_acted_ne htt]
  intro e hfind hqueued
  have hsame : invocations (v.acted t call .now now v.db x).log e = invocations v.log e :=
    (invocations_cons rfl).trans (Nat.add_zero _)
  rw [hsame, hstages]
  exact h e hfind ((queued_cons rfl).mp hqueued)

/-- The stage of the only call that is not at its end fits. -/
theorem CountedAt.own (h : CountedAt max v id) (hx : v.stages t = some (.process w p id, x)) (hlive : ¬ x.Ended)
    (halone : ∀ t' w' p' y, v.stages t' = some (.process w' p' id, y) → ¬ y.Ended → t' = t)
    (hfind : v.db.events.find id = some e) (hqueued : Queued v.log id) : Fits max (invocations v.log e) e x := by
  obtain ⟨hknown, hrest⟩ := h e hfind hqueued
  by_cases hknows : ∃ e', x.Knows e'
  · obtain ⟨e', hknows⟩ := hknows
    exact hknown t w p x e' hx hknows
  · have hfits : Fits max (invocations v.log e) e .finished := by
      apply hrest
      intro t' w' p' y e' hy hknows'
      obtain rfl := halone t' w' p' y hy hknows'.not_ended
      obtain ⟨-, rfl⟩ := Prod.mk.inj (Option.some.inj (hx.symm.trans hy))
      exact hknows ⟨e', hknows'⟩
    refine hfits.released ?_ (hfits.processing fun _ _ heq => by cases heq)
    rintro e' phase rfl
    exact hknows ⟨e', rfl⟩

/-- A step of the only call that is not at its end. -/
private theorem CountedAt.of_own (hfits : ∀ e, db'.events.find id = some e → Queued v.log id →
      Fits max (invocations v.log e + if c.invokes = some e.eventId then 1 else 0) e x')
    (halone : ∀ t' w' p' y, v.stages t' = some (.process w' p' id, y) → ¬ y.Ended → t' = t)
    (hqueues : (Call.process w p id).queues id c r = false) :
    CountedAt max (v.acted t (.process w p id) c r db' x') id := by
  intro e hfind hqueued
  obtain rfl : e.id = id := Collection.key_of_find hfind
  have hnew := hfits e hfind ((queued_cons hqueues).mp hqueued)
  have hsame : invocations (v.acted t (.process w p e.id) c r db' x').log e =
      invocations v.log e + if c.invokes = some e.eventId then 1 else 0 := invocations_cons hqueues
  rw [hsame]
  constructor
  · intro t' w' p' y e' hy hknows
    rcases View.stages_acted hy with ⟨-, -, rfl⟩ | ⟨hne, hold⟩
    · exact hnew
    · exact absurd (halone t' w' p' y hold hknows.not_ended) hne
  · intro hnone
    have hnot : ∀ e' phase, x' ≠ .holding e' phase := by
      rintro e' phase rfl
      exact hnone t w p _ e' View.stages_acted_self rfl
    exact hnew.released (fun _ _ heq => by cases heq) (hnew.processing hnot)

/-- The event has just been queued, and no call is about to invoke its handler. -/
private theorem CountedAt.of_fresh (hqueues : call.queues id c r = true) (hmax : 0 < max)
    (hfresh : ∀ e, db'.events.find id = some e → e.status = .queued ∧ e.attempts = 0)
    (hlate : ∀ t' w p e phase, (v.acted t call c r db' x').stages t' = some (.process w p id, .holding e phase) →
      ¬ phase.Early) : CountedAt max (v.acted t call c r db' x') id := by
  intro e hfind hqueued
  obtain rfl : e.id = id := Collection.key_of_find hfind
  obtain ⟨hstatus, hattempts⟩ := hfresh e hfind
  have hzero : invocations (v.acted t call c r db' x').log e = 0 := invocations_queued hqueues
  rw [hzero]
  constructor
  · rintro t' w p y e' hy -
    refine .fresh hstatus hattempts hmax ?_
    rintro e₁ phase rfl
    exact hlate t' w p e₁ phase hy
  · exact fun _ => .fresh hstatus hattempts hmax fun _ _ heq => by cases heq

/-- The call has not come to a decision about its event. -/
private def Stage.Undecided (x : Stage) : Prop := x = .waiting ∨ ∃ e phase, x = .holding e phase ∧ phase.Early

private theorem not_undecided (hlate : ¬ phase.Early) : ¬ (Stage.holding e phase).Undecided := by
  rintro (heq | ⟨e', phase', heq, hearly⟩)
  · cases heq
  · obtain ⟨rfl, rfl⟩ := Stage.holding.inj heq
    exact hlate hearly

private theorem not_early (hclaimed : phase ≠ .claimed) (hchecked : phase ≠ .checked) : ¬ phase.Early := by
  rintro (heq | heq)
  · exact hclaimed heq
  · exact hchecked heq

/-- A call that is undecided after a command was so before, and the command did not decide it. -/
private theorem undecided_before (h : x.MayWork id c) (hafter : (x.next c r).Undecided) :
    x.Undecided ∧ c.decides r = false := by
  have hended : ∀ y : Stage, y.Ended → ¬ y.Undecided := by
    rintro y hy (rfl | ⟨e, phase, rfl, -⟩)
    · exact hy
    · exact hy
  cases c with
  | now => exact ⟨hafter, rfl⟩
  | claim i => exact ⟨.inl h.1, rfl⟩
  | findRecord key eventScope =>
    obtain ⟨e, rfl, -, -⟩ := h
    cases r with
    | some record => exact absurd hafter (not_undecided (not_early nofun nofun))
    | none => exact ⟨.inr ⟨e, .claimed, rfl, .inl rfl⟩, rfl⟩
  | invoke handler context =>
    obtain ⟨e, rfl, -⟩ := h
    exact absurd hafter (not_undecided (not_early nofun nofun))
  | respond handler context =>
    obtain ⟨e, rfl, -⟩ := h
    apply absurd hafter
    cases r with
    | error error => exact not_undecided (not_early nofun nofun)
    | ok response =>
      apply not_undecided
      split <;> exact not_early nofun nofun
  | updateEvent i u =>
    obtain ⟨-, e, phase, rfl, -⟩ := h
    apply absurd hafter
    cases phase with
    | succeeded =>
      rintro (heq | ⟨e', phase', heq, -⟩) <;> cases heq
    | _ => exact hended _ trivial
  | createDLQ d =>
    obtain ⟨e, phase, rfl, -, -⟩ := h
    apply absurd hafter
    cases r with
    | ok d' =>
      have hburied : (Stage.holding e phase).next (.createDLQ d) (.ok d') = .holding e .buried := by cases phase <;> rfl
      rw [hburied]
      exact not_undecided (not_early nofun nofun)
    | error error =>
      cases phase with
      | caught => exact hended _ trivial
      | _ => exact not_undecided (not_early nofun nofun)
  | createRecord record =>
    obtain ⟨e, t, rfl, -⟩ := h
    apply absurd hafter
    match r with
    | .ok _ | .error (.mongo (.duplicateKey _) _) => exact hended _ trivial
    | .error (.mongo (.validation _) _) | .error (.mongo (.unavailable _) _) | .error (.thrown _) =>
      exact not_undecided (not_early nofun nofun)
  | findById i =>
    obtain ⟨-, e, rfl⟩ := h
    apply absurd hafter
    cases r with
    | none => exact hended _ trivial
    | some e' => exact not_undecided (not_early nofun nofun)
  | _ => exact h.elim

variable {workers : ℕ → IngestWorker} {A : Schedule} {d : Db} {s : Run}

private theorem approaching_of_early (h : (queue workers).Reaches A (.start d) s)
    (hx : (view s).stages t = some (.process w p id, .holding e phase)) (hearly : phase.Early) : Approaching s t := by
  refine ⟨busy_of_holding h hx, ?_⟩
  refine (working_kept workers).invariant (P := fun call history x => ∀ w p id, call = .process w p id →
    x.Undecided → ∀ ev ∈ history, ev.cmd.decides ev.reply = false) ?_ ?_ h t _ _ hx w p id rfl
    (.inr ⟨e, phase, rfl, hearly⟩)
  · intro call w p id _ _ ev hmem
    cases hmem
  · rintro call history x t c r hbefore hmay - w p id rfl hafter ev hmem
    obtain ⟨hundecided, hquiet⟩ := undecided_before hmay hafter
    rcases List.mem_cons.mp hmem with rfl | hold
    · exact hquiet
    · exact hbefore w p id rfl hundecided ev hold

/-- A call of `processEvent` queues nothing by itself. -/
private theorem Work.queues {i : String} (h : Work id db x c r db' x') : (Call.process w p id).queues i c r = false := by
  cases h <;> rfl

private theorem Work.invokes {eventId : String} (h : Work id db x c r db' x') (hinvokes : c.invokes = some eventId) :
    ∃ e, x = .holding e .checked ∧ e.eventId = eventId := by
  cases h with
  | invoked e handler => exact ⟨e, rfl, Option.some.inj hinvokes⟩
  | _ => cases hinvokes

private theorem counted_work (hs : (queue workers).Reaches (Bounded w) (.start d) s) (hd : d.Identified) {o : Oracle}
    (hA : Bounded w s (.run t o)) (hpending : s.pending t = some (.process w p id, c))
    (hx : (view s).stages t = some (.process w p id, x)) (hwork : Work id s.db x c r db' x')
    (h : ∀ i, CountedAt (workers w).config.maxRetryAttempts (view s) i) (i : String) :
    CountedAt (workers w).config.maxRetryAttempts ((view s).acted t (.process w p id) c r db' x') i := by
  have hloop : (queue workers).Reaches (OneLoop w) (.start d) s := hs.mono fun _ _ _ hA => hA.loop
  by_cases hi : i = id
  · subst hi
    by_cases hended : x.Ended
    · cases hwork with
      | idle x now => exact (h i).idle hx now
      | _ => exact hended.elim
    · have halone : ∀ t' w' p' y, (view s).stages t' = some (.process w' p' i, y) → ¬ y.Ended → t' = t :=
        fun t' w' p' y hy hlive => live_alone hloop hy hx hlive hended
      refine .of_own (fun e' hfind' hqueued => ?_) halone hwork.queues
      obtain ⟨e, hfind, horigin⟩ := hwork.find hfind'
      rw [← invocations_of_origin horigin]
      refine ((h i).own hx hended halone hfind hqueued).work hfind hfind' (tracked hs t w p i x hx) (identified hd hs)
        ((retrying_kept workers).may_pending hs hx hpending).2 ?_ hwork
      rintro dead e₁ rfl rfl
      rcases (hA.2 _ hpending).2 dead rfl (reread_of_caught hs hx) with hstored | hashore
      · exact .inl hstored
      · exact .inr (hashore i rfl e hfind)
  · refine (h i).foreign hx (fun w' p' e heq => ?_) (hwork.find_ne hi) hwork.queues fun e hfind hinvokes => hi ?_
    · exact absurd (Call.process.inj heq).2.2.symm hi
    · obtain ⟨e₁, rfl, hsame⟩ := hwork.invokes hinvokes
      obtain ⟨e₀, hfind₀, horigin⟩ := tracked hs t w p id _ hx
      have hdoc : e = e₀ := by
        apply Collection.eq_of_index (Collection.mem_of_find hfind) (Collection.mem_of_find hfind₀)
        rw [IngestEvent.eventId_of_origin horigin, hsame]
      rw [← Collection.key_of_find hfind, ← Collection.key_of_find hfind₀, hdoc]

private theorem counted_feed (hs : (queue workers).Reaches (Bounded w) (.start d) s) {o : Oracle}
    (hmax : 0 < (workers w).config.maxRetryAttempts) (hA : Bounded w s (.run t o))
    (hpending : s.pending t = some (call, c)) (hx : (view s).stages t = some (call, .waiting))
    (hfeed : Feed call s.db c r db' x') (h : ∀ i, CountedAt (workers w).config.maxRetryAttempts (view s) i)
    (i : String) : CountedAt (workers w).config.maxRetryAttempts ((view s).acted t call c r db' x') i := by
  cases hfeed with
  | idle c r hfound hinvokes hsucceeds hqueues =>
    apply (h i).foreign hx (fun _ _ _ _ => ⟨id, id⟩) rfl (hqueues i)
    intro e _
    simp [hinvokes]
  | polled now limit events hpoll => exact (h i).foreign hx (fun _ _ _ _ => ⟨id, id⟩) rfl rfl fun e _ heq => by cases heq
  | queued e hnew hvalid hfree =>
    by_cases hi : i = e.id
    · subst hi
      refine .of_fresh (decide_eq_true rfl) hmax (fun e' hfind => ?_) fun t' w' p e' phase hstage => ?_
      · have hself : (s.db.events.insert e).find e.id = some e := (Collection.find_insert hfree e.id).trans (if_pos rfl)
        obtain rfl : e = e' := Option.some.inj (hself.symm.trans hfind)
        exact ⟨(congrArg IngestEvent.status hnew).symm, (congrArg IngestEvent.attempts hnew).symm⟩
      · rcases View.stages_acted hstage with ⟨-, -, heq⟩ | ⟨-, hold⟩
        · cases heq
        · obtain ⟨e₀, hfind₀, -⟩ := tracked hs t' w' p e.id _ hold
          rw [hfree.find] at hfind₀
          cases hfind₀
    · refine (h i).foreign hx (fun _ _ _ _ => ⟨id, id⟩) (Collection.find_insert_ne hfree hi) ?_ fun e _ heq => by cases heq
      exact decide_eq_false fun heq => hi heq.symm
  | requeued i₀ now hreplay =>
    by_cases hi : i = i₀
    · subst hi
      refine .of_fresh ?_ hmax (fun e' hfind => ?_) fun t' w' p e' phase hstage hearly => ?_
      · simp [Call.queues, hreplay]
      · have hself : (s.db.updateEvent i (ReplayController.requeue now)).events.find i = _ :=
          (Collection.find_modify i i _ (ReplayController.requeue now).keeps).trans (if_pos rfl)
        obtain ⟨e₀, -, rfl⟩ := Option.map_eq_some_iff.mp (hself.symm.trans hfind)
        exact ⟨rfl, rfl⟩
      · rcases View.stages_acted hstage with ⟨-, -, heq⟩ | ⟨-, hold⟩
        · cases heq
        · exact (hA.2 _ hpending).1 hreplay i rfl _ (spawned_of_stage hs hold) rfl (approaching_of_early hs hold hearly)
    · refine (h i).foreign hx (fun _ _ _ _ => ⟨id, id⟩) (Collection.find_modify_ne hi _ (ReplayController.requeue now).keeps) ?_
        fun e _ heq => by cases heq
      have hne : i₀ ≠ i := fun heq => hi heq.symm
      simp [Call.queues, hne]

theorem counted (h : (queue workers).Reaches (Bounded w) (.start d) s) (hd : d.Identified)
    (hmax : 0 < (workers w).config.maxRetryAttempts) :
    ∀ id, CountedAt (workers w).config.maxRetryAttempts (view s) id := by
  refine reaches_invariant (P := fun v => ∀ id, CountedAt (workers w).config.maxRetryAttempts v id) h ?_ ?_ ?_ ?_
  · rintro id e - ⟨ev, hmem, -⟩
    cases hmem
  · intro s t call hs hA hnone ih id e hfind hqueued
    obtain ⟨hknown, hrest⟩ := ih id e hfind hqueued
    constructor
    · intro t' w' p x e' hx hknows
      rcases View.stages_spawned hx with ⟨-, -, rfl⟩ | ⟨-, hold⟩
      · exact hknows.elim
      · exact hknown t' w' p x e' hold hknows
    · intro hothers
      refine hrest fun t' w' p x e' hx => hothers t' w' p x e' ((Function.update_of_ne ?_ _ _).trans hx)
      rintro rfl
      rw [hnone] at hx
      cases hx
  · intro s t o w' p id x c r db' x' hs hA hpending hx hwork ih
    have hloop : (queue workers).Reaches (OneLoop w) (.start d) s := hs.mono fun _ _ _ hA => hA.loop
    obtain rfl : w' = w := worker_of_loop hloop _ (spawned_of_stage hs hx) w' rfl
    exact counted_work hs hd hA hpending hx hwork ih
  · intro s t o call c r db' x' hs hA hpending hx hfeed ih
    exact counted_feed hs hmax hA hpending hx hfeed ih

/-- Between two queueings of an event by ingestion or replay, its handler is invoked at most as
often as the worker's limit says; when it has been invoked that often and no call is at work on the
event, the event is processed or a dead letter. Event ids are trimmed. -/
theorem attempts_bounded (handlers : ℕ → List String) (options : ℕ → WorkerOptions)
    (h : (queue fun w => ⟨handlers w, (options w).config⟩).Reaches (Bounded w) (.start d) s) (hd : d.Identified) :
    ∀ e ∈ s.db.events.docs, Queued s.log e.id →
      invocations s.log e ≤ (options w).config.maxRetryAttempts ∧
        (invocations s.log e = (options w).config.maxRetryAttempts →
          (∀ x ∈ s.spawns, x.2.target = some e.id → ¬ Busy s x.1) → e.status = .dlq ∨ e.status = .processed) := by
  intro e hmem hqueued
  have hfind := Collection.find_of_mem hmem
  obtain ⟨hknown, hrest⟩ := counted h hd (options w).config_pos.1 e.id e hfind hqueued
  obtain ⟨x, hfits, hbusy⟩ : ∃ x, Fits (options w).config.maxRetryAttempts (invocations s.log e) e x ∧
      ∀ e' phase, x = .holding e' phase → ∃ t w p, (view s).stages t = some (.process w p e.id, x) := by
    by_cases hany : ∃ t w p x e', (view s).stages t = some (.process w p e.id, x) ∧ x.Knows e'
    · obtain ⟨t, w', p, x, e', hx, hknows⟩ := hany
      exact ⟨x, hknown t w' p x e' hx hknows, fun _ _ _ => ⟨t, w', p, hx⟩⟩
    · refine ⟨.finished, hrest fun t w p x e' hx hknows => hany ⟨t, w, p, x, e', hx, hknows⟩, ?_⟩
      exact fun _ _ heq => by cases heq
  refine ⟨hfits.counted.trans hfits.limited, fun hall hidle => ?_⟩
  have hcounted := hfits.counted
  cases hstatus : e.status with
  | queued =>
    have hleft := hfits.left hstatus
    omega
  | processing =>
    obtain ⟨e', phase, rfl⟩ := hfits.held hstatus
    obtain ⟨t, w', p, hx⟩ := hbusy e' phase rfl
    exact absurd (busy_of_holding h hx) (hidle _ (spawned_of_stage h hx) rfl)
  | processed => exact .inr rfl
  | rejected => exact absurd hstatus hfits.accepted
  | dlq => exact .inl rfl

end invariant

section scenario

/-- Workers that try each event once. -/
private def singleTry : ℕ → IngestWorker := fun _ => ⟨["purchase"], ({ maxRetryAttempts := some 1 } : WorkerOptions).config⟩

private def failing : List ℕ → List (Label Oracle Call) :=
  turnsWith { sampleOracle with outcome := .ok ⟨.nonRetryableFailure, none, none⟩ }

/-- An event arrives, and its handler fails for good. -/
private def deadLettered : List (Label Oracle Call) :=
  [.spawn 0 samplePost] ++ turns [0, 0, 0] ++ [.spawn 1 (.poll 0)] ++ turns [1, 1] ++
    [.spawn 2 (.process 0 1 "event-1")] ++ failing [2, 2, 2, 2, 2, 2, 2, 2, 2]

theorem attempts_bounded_once : ∃ s, (queue singleTry).Reaches (Bounded 0) (.start .empty) s ∧
    s.db.events.docs.map (fun e => (e.status, invocations s.log e, decide (Queued s.log e.id))) = [(.dlq, 1, true)] ∧
      ∀ e ∈ s.db.events.docs, Queued s.log e.id → invocations s.log e ≤ 1 := by
  obtain ⟨s, hs, hfacts⟩ := Machine.exists_reaches (queue singleTry) (Bounded 0) (.start .empty) deadLettered
    (fun s => s.db.events.docs.map fun e => (e.status, invocations s.log e, decide (Queued s.log e.id)))
    (a := [(.dlq, 1, true)]) (by decide +kernel)
  refine ⟨s, hs, hfacts, fun e hmem hqueued => ?_⟩
  exact (attempts_bounded (fun _ => ["purchase"]) (fun _ => { maxRetryAttempts := some 1 }) hs
    (fun e hmem => by cases hmem) e hmem hqueued).1

/-- The event is replayed and fails again: the dead letter is there already, so that the
event stays in processing. -/
private def failedAgain : List (Label Oracle Call) :=
  deadLettered ++ [.spawn 3 (.replay {})] ++ turns [3, 3, 3, 3, 3] ++ [.spawn 4 (.poll 0)] ++ turns [4, 4] ++
    [.spawn 5 (.process 0 4 "event-1")] ++ failing [5, 5, 5, 5, 5, 5, 5, 5, 5, 5, 5]

/-- The next poll finds the event, and its handler is invoked once more. -/
private def handledAgain : List (Label Oracle Call) :=
  failedAgain ++ [.spawn 6 (.poll 0)] ++ turns [6, 6] ++ [.spawn 7 (.process 0 6 "event-1")] ++ turns [7, 7, 7]

theorem attempts_unbounded :
    (∃ s, (queue singleTry).Reaches (OneLoop 0) (.start .empty) s ∧ ∃ e ∈ s.db.events.docs, Queued s.log e.id ∧
      invocations s.log e = 1 ∧ (∀ x ∈ s.spawns, ¬ Busy s x.1) ∧ e.status = .processing) ∧
    ∃ s, (queue singleTry).Reaches (OneLoop 0) (.start .empty) s ∧ ∃ e ∈ s.db.events.docs, Queued s.log e.id ∧
      (singleTry 0).config.maxRetryAttempts = 1 ∧ invocations s.log e = 2 := by
  constructor
  · obtain ⟨s, hs, hfacts⟩ := Machine.exists_reaches (queue singleTry) (OneLoop 0) (.start .empty) failedAgain
      (fun s => decide (∃ e ∈ s.db.events.docs, Queued s.log e.id ∧ invocations s.log e = 1 ∧
        (∀ x ∈ s.spawns, ¬ Busy s x.1) ∧ e.status = .processing)) (a := true) (by decide +kernel)
    exact ⟨s, hs, of_decide_eq_true hfacts⟩
  · obtain ⟨s, hs, hfacts⟩ := Machine.exists_reaches (queue singleTry) (OneLoop 0) (.start .empty) handledAgain
      (fun s => decide (∃ e ∈ s.db.events.docs, Queued s.log e.id ∧
        (singleTry 0).config.maxRetryAttempts = 1 ∧ invocations s.log e = 2)) (a := true) (by decide +kernel)
    exact ⟨s, hs, of_decide_eq_true hfacts⟩

end scenario
end RedRoomRewards.Ingest
