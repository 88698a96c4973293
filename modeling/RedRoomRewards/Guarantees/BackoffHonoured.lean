import RedRoomRewards.Guarantees.NoStuckEvent
import RedRoomRewards.Ingest.Batches

/-! When a retry waits for its instant. The query of a poll takes every queued event,
whatever its `nextAttemptAt`, and the claim does not look at the instant at all. -/
namespace RedRoomRewards.Ingest
open Process Store IngestWorker

section retries

/-- The instant that a command reads from the clock. -/
def Cmd.reads : (c : Cmd) → c.Reply → Option Time
  | .now, t => some t
  | _, _ => none

/-- The instant for which a command asks for events. -/
def Cmd.asksFor : Cmd → Option Time
  | .findEligible t _ => some t
  | _ => none

/-- The instant for which the command schedules a retry of the event. -/
def Call.schedules (call : Call) (id : String) : Cmd → Option Time
  | .updateEvent i u => if call.isReplay = false ∧ i = id ∧ u.status = .queued then u.nextAttemptAt else none
  | _ => none

/-- The command by which a replay queues the event. -/
def Call.replays (call : Call) (id : String) : Cmd → Bool
  | .updateEvent i _ => call.isReplay && i = id
  | _ => false

/-- The instants for which retries of the event have been scheduled since a replay has
queued it last. -/
def scheduled : List (Event Queue Call) → String → List Time
  | [], _ => []
  | ev :: log, id =>
    if ev.call.replays id ev.cmd then [] else (ev.call.schedules id ev.cmd).toList ++ scheduled log id

/-- A call takes up its event: it claims it, or invokes the handler for it. -/
def Cmd.takesUp : Cmd → Bool
  | .claim _ | .invoke .. => true
  | _ => false

end retries

section condition
variable (s : Run)

/-- The clock has not shown a later instant. -/
def Ticking (o : Oracle) : Prop := ∀ ev ∈ s.log, ∀ now ∈ ev.cmd.reads ev.reply, now ≤ o.now

/-- Runs with a clock that does not go back. -/
def Clocked : Schedule
  | s, .spawn t call => Working s (.spawn t call)
  | s, .run t o => Working s (.run t o) ∧ Ticking s o

/-- No call but that of thread `t` is still to do anything with the event: each has
returned, and each poll that has found the event has started its call, or the worker
has crashed. -/
def Released (t : ℕ) (id : String) : Prop :=
  (∀ x ∈ s.spawns, x.1 ≠ t → x.2.target = some id →
    (s.result x.1).isSome = true ∨ ∃ w ∈ x.2.worker, Crashed s w) ∧
  ∀ x ∈ s.spawns, id ∈ batch s x.1 →
    (∃ y ∈ s.spawns, y.2.handles x.1 id = true) ∨ ∃ w ∈ x.2.worker, Crashed s w

/-- A poll selects only queued events that are due, and a retry is scheduled only where
no other call is at the event. -/
def Patient (t : ℕ) (o : Oracle) (call : Call) : Cmd → Prop
  | .findEligible now limit => ∀ e ∈ s.db.eligible o.rank now limit, e.status = .queued →
      ∀ T ∈ e.nextAttemptAt, T ≤ now
  | .updateEvent id u => (call.schedules id (.updateEvent id u)).isSome = true → Released s t id
  | _ => True

def BackedOff : Schedule
  | s, .spawn t call => Clocked s (.spawn t call)
  | s, .run t o => Clocked s (.run t o) ∧ ∀ x ∈ s.pending t, Patient s t o x.1 x.2

instance (o : Oracle) : Decidable (Ticking s o) := inferInstanceAs (Decidable (∀ ev ∈ _, _))
instance (t : ℕ) (id : String) : Decidable (Released s t id) := inferInstanceAs (Decidable (_ ∧ _))

instance (t : ℕ) (o : Oracle) (call : Call) (c : Cmd) : Decidable (Patient s t o call c) := by
  unfold Patient
  split <;> infer_instance

instance (l : Label Oracle Call) : Decidable (Clocked s l) :=
  match l with
  | .spawn .. | .run .. => by dsimp only [Clocked]; infer_instance

instance (l : Label Oracle Call) : Decidable (BackedOff s l) :=
  match l with
  | .spawn .. | .run .. => by dsimp only [BackedOff]; infer_instance

end condition

section polls
variable {workers : ℕ → IngestWorker} {A : Schedule} {d : Db} {s : Run}

/-- A poll asks only for an instant that it has read from the clock. -/
private def polling : Contract Queue Call Unit QueueError (List Time) where
  start := fun _ => []
  next := fun _ readings c r => (c.reads r).toList ++ readings
  may := fun call readings c => call.isPoll = true → ∀ now ∈ c.asksFor, now ∈ readings
  ends := fun _ _ _ => True
  resumes := fun call call' _ => call.isPoll = true → call' = call

private theorem polling_kept (workers : ℕ → IngestWorker) : polling.Kept (queue workers) where
  starts := fun _ _ => rfl
  body := by
    intro call call' readings hresumes
    by_cases hpoll : call.isPoll = true
    · obtain rfl := hresumes hpoll
      cases call' with
      | poll w =>
        refine ⟨fun _ now hasks => ?_, fun now _ => ⟨fun _ now' hasks => ?_, fun _ _ => trivial⟩⟩
        · cases hasks
        · obtain rfl := Option.some.inj hasks
          exact .head _
      | _ => cases hpoll
    · refine Prog.obeys_stable (P := fun _ => True) _ trivial (fun _ _ _ _ => trivial)
        (fun _ _ _ hnot => absurd hnot hpoll) fun x r _ => ?_
      cases r with
      | error e => exact trivial
      | ok next =>
        cases next with
        | done u => exact trivial
        | again c => exact fun hnot => absurd hnot hpoll

private theorem read_of_record {call : Call} {now : Time} (history : List (Event Queue Call))
    (h : now ∈ polling.record call history) : ∃ ev ∈ history, now ∈ ev.cmd.reads ev.reply := by
  induction history with
  | nil => cases h
  | cons ev history ih =>
    rcases List.mem_append.mp h with hnew | hold
    · exact ⟨ev, .head _, Option.mem_toList.mp hnew⟩
    · obtain ⟨ev', hmem, hreads⟩ := ih hold
      exact ⟨ev', .tail _ hmem, hreads⟩

/-- The clock has shown the instant for which a poll asks. -/
private theorem asked_of_pending (h : (queue workers).Reaches A (.start d) s) {t : ℕ} {call : Call} {c : Cmd} {now : Time}
    (hpending : s.pending t = some (call, c)) (hpoll : call.isPoll = true) (hasks : now ∈ c.asksFor) :
    ∃ ev ∈ s.log, now ∈ ev.cmd.reads ev.reply := by
  have htrack := Contract.track_of_pending (K := polling) hpending
  obtain ⟨ev, hmem, hreads⟩ :=
    read_of_record _ ((polling_kept workers).may_pending h htrack hpending hpoll now hasks)
  exact ⟨ev, ((s.mem_history).mp hmem).1, hreads⟩

end polls

section invariant
variable {v : View} {t w p : ℕ} {id : String} {call : Call} {c : Cmd} {r : c.Reply} {db' : Db} {x x' : Stage} {T : Time}

/-- The clock has shown the instant. -/
def View.Elapsed (v : View) (T : Time) : Prop := ∃ ev ∈ v.log, ∃ now ∈ ev.cmd.reads ev.reply, T ≤ now

/-- No call will take up the event before another poll finds it. -/
structure View.Resting (v : View) (id : String) : Prop where
  ended : ∀ t w p x, v.stages t = some (.process w p id, x) → x.Ended ∨ v.Crashed w
  handed : ∀ p w, (p, Call.poll w) ∈ v.spawns → id ∈ v.batch p →
    (∃ t w', (t, Call.process w' p id) ∈ v.spawns) ∨ v.Crashed w

/-- An event whose retry is scheduled rests until its instant. -/
def Rested (v : View) : Prop := ∀ id, ∀ T ∈ scheduled v.log id, v.Elapsed T ∨
  v.Resting id ∧ ∃ e, v.db.events.find id = some e ∧ e.nextAttemptAt = some T

private theorem View.Elapsed.acted (h : v.Elapsed T) : (v.acted t call c r db' x').Elapsed T := by
  obtain ⟨ev, hmem, hreads⟩ := h
  exact ⟨ev, .tail _ hmem, hreads⟩

private theorem View.Resting.acted (h : v.Resting id) (hx : v.stages t = some (call, x)) (hended : x.Ended → x'.Ended)
    (hfound : id ∉ c.found r) : (v.acted t call c r db' x').Resting id where
  ended := by
    intro t' w p y hy
    rcases View.stages_acted hy with ⟨rfl, rfl, rfl⟩ | ⟨-, hold⟩
    · exact (h.ended t' w p x hx).imp_left hended
    · exact h.ended t' w p y hold
  handed := by
    intro p w hp hmem
    rw [View.batch_acted] at hmem
    rcases List.mem_append.mp hmem with hnew | hold
    · split at hnew
      · exact absurd hnew hfound
      · cases hnew
    · exact h.handed p w hp hold

/-- A call starts; a new one for the event, only where a poll has found it and has not
started its call. -/
private theorem View.Resting.spawned (h : v.Resting id) (hnone : v.stages t = none) (hbatch : v.batch t = [])
    (hprocess : ∀ w p, call ≠ .process w p id) : (v.spawned t call).Resting id where
  ended := by
    intro t' w p y hy
    rcases View.stages_spawned hy with ⟨-, rfl, -⟩ | ⟨-, hold⟩
    · exact absurd rfl (hprocess w p)
    · apply (h.ended t' w p y hold).imp_right
      rintro ⟨z, hz, hcrashes⟩
      exact ⟨z, .tail _ hz, hcrashes⟩
  handed := by
    intro p w hp hmem
    rcases List.mem_cons.mp hp with heq | hold
    · obtain ⟨rfl, -⟩ := Prod.mk.inj heq
      have hempty : (v.spawned p call).batch p = [] := hbatch
      rw [hempty] at hmem
      cases hmem
    · rcases h.handed p w hold hmem with ⟨t', w', hspawned⟩ | ⟨z, hz, hcrashes⟩
      · exact .inl ⟨t', w', .tail _ hspawned⟩
      · exact .inr ⟨z, .tail _ hz, hcrashes⟩

private theorem Rested.acted (h : Rested v) (hx : v.stages t = some (call, x)) (hended : x.Ended → x'.Ended)
    (hnew : ∀ id T, call.schedules id c = some T → (v.acted t call c r db' x').Resting id ∧
      ∃ e, db'.events.find id = some e ∧ e.nextAttemptAt = some T)
    (hold : ∀ id e T, v.Resting id → v.db.events.find id = some e → e.nextAttemptAt = some T →
      call.replays id c = false → v.Elapsed T ∨ id ∉ c.found r ∧
        ∃ e', db'.events.find id = some e' ∧ e'.nextAttemptAt = some T) :
    Rested (v.acted t call c r db' x') := by
  intro id T hT
  have hlog : scheduled (v.acted t call c r db' x').log id =
      if call.replays id c then [] else (call.schedules id c).toList ++ scheduled v.log id := rfl
  rw [hlog] at hT
  split at hT
  · cases hT
  · rename_i hreplays
    rcases List.mem_append.mp hT with hscheduled | hbefore
    · exact .inr (hnew id T (Option.mem_toList.mp hscheduled))
    · rcases h id T hbefore with helapsed | ⟨hresting, e, hfind, hnext⟩
      · exact .inl helapsed.acted
      · rcases hold id e T hresting hfind hnext (by simpa using hreplays) with helapsed | ⟨hfound, hevent⟩
        · exact .inl helapsed.acted
        · exact .inr ⟨hresting.acted hx hended hfound, hevent⟩

/-- A call that is done with its event leaves the store alone. -/
private theorem Work.over {db : Db} (h : Work id db x c r db' x') (hx : x.Ended) : db' = db := by
  cases h with
  | idle x t => rfl
  | _ => exact hx.elim

private theorem Work.finds_nothing {db : Db} (h : Work id db x c r db' x') : c.found r = [] := by
  cases h <;> rfl

/-- A call that schedules a retry is at its event before and has come to its end after. -/
private theorem Work.schedules {db : Db} {i : String} (h : Work id db x c r db' x') (htracks : x.Tracks db id)
    (hschedules : (Call.process w p id).schedules i c = some T) :
    i = id ∧ x'.Ended ∧ ∃ e, db'.events.find id = some e ∧ e.nextAttemptAt = some T := by
  cases h with
  | updated e phase u hallows =>
    simp only [Call.schedules] at hschedules
    split at hschedules
    · rename_i hqueued
      obtain ⟨e₀, hfind, -⟩ := htracks
      refine ⟨hqueued.2.1.symm, ?_, u.apply e₀, Collection.find_modify_self u.keeps hfind, ?_⟩
      · cases phase with
        | succeeded => cases (show u.status = .processed from hallows).symm.trans hqueued.2.2
        | _ => trivial
      · show u.nextAttemptAt.or e₀.nextAttemptAt = some T
        rw [hschedules, Option.some_or]
    · cases hschedules
  | _ => cases hschedules

private theorem Rested.work (h : Rested v) (hx : v.stages t = some (.process w p id, x)) (halive : ¬ v.Crashed w)
    (htracks : x.Tracks v.db id) (hwork : Work id v.db x c r db' x')
    (hreleased : ∀ T, (Call.process w p id).schedules id c = some T →
      (∀ t' w' p' x', t' ≠ t → v.stages t' = some (.process w' p' id, x') → x'.Ended ∨ v.Crashed w') ∧
      ∀ p w, (p, Call.poll w) ∈ v.spawns → id ∈ v.batch p →
        (∃ t w', (t, Call.process w' p id) ∈ v.spawns) ∨ v.Crashed w) :
    Rested (v.acted t (.process w p id) c r db' x') := by
  refine h.acted hx hwork.ended (fun i T hschedules => ?_) fun i e T hresting hfind hnext _ => .inr ⟨?_, ?_⟩
  · obtain ⟨rfl, hended, hevent⟩ := hwork.schedules htracks hschedules
    obtain ⟨hothers, hhanded⟩ := hreleased T hschedules
    refine ⟨⟨fun t' w' p' y hy => ?_, fun p' w' hp hmem => hhanded p' w' hp ?_⟩, hevent⟩
    · rcases View.stages_acted hy with ⟨-, -, rfl⟩ | ⟨hne, hold⟩
      · exact .inl hended
      · exact hothers t' w' p' y hne hold
    · rw [View.batch_acted, hwork.finds_nothing, ite_self, List.nil_append] at hmem
      exact hmem
  · rw [hwork.finds_nothing]
    exact List.not_mem_nil
  · by_cases hid : i = id
    · subst hid
      rcases hresting.ended t w p x hx with hended | hcrashed
      · rw [hwork.over hended]
        exact ⟨e, hfind, hnext⟩
      · exact absurd hcrashed halive
    · exact ⟨e, (hwork.find_ne hid).trans hfind, hnext⟩

private theorem Rested.feed (h : Rested v) (hx : v.stages t = some (call, .waiting)) (hfeed : Feed call v.db c r db' x')
    (hschedules : ∀ id, call.schedules id c = none)
    (hfound : ∀ id ∈ c.found r, ∀ e T, v.db.events.find id = some e → e.nextAttemptAt = some T → v.Elapsed T) :
    Rested (v.acted t call c r db' x') := by
  refine h.acted hx (fun hended => hended.elim) (fun i T hnew => ?_) fun i e T hresting hfind hnext hreplays => ?_
  · rw [hschedules i] at hnew
    cases hnew
  · by_cases hmem : i ∈ c.found r
    · exact .inl (hfound i hmem e T hfind hnext)
    · refine .inr ⟨hmem, ?_⟩
      cases hfeed with
      | queued e' hnew hvalid hfree => exact ⟨e, Collection.find_insert_of_find hfree hfind, hnext⟩
      | requeued j now hreplay =>
        have hne : i ≠ j := by
          rintro rfl
          simp [Call.replays, hreplay] at hreplays
        exact ⟨e, (Collection.find_modify_ne hne _ (ReplayController.requeue now).keeps).trans hfind, hnext⟩
      | _ => exact ⟨e, hfind, hnext⟩

/-- Only a call that handles an event schedules retries. -/
private theorem Call.MayFeed.schedules_nothing (h : call.MayFeed c) (id : String) : call.schedules id c = none := by
  cases c with
  | updateEvent i u =>
    apply if_neg
    intro hschedules
    rw [h.1] at hschedules
    cases hschedules.1
  | _ => rfl

variable {workers : ℕ → IngestWorker} {d : Db} {s : Run}

theorem BackedOff.working {l : Label Oracle Call} (h : BackedOff s l) : Working s l := by
  cases l with
  | spawn t call => exact h
  | run t o => exact h.1.1

/-- The worker of a thread that takes a step has not crashed. -/
private theorem alive_of_run (h : (queue workers).Reaches BackedOff (.start d) s) {o : Oracle}
    (hA : BackedOff s (.run t o)) (hpending : s.pending t = some (.process w p id, c)) : ¬ (view s).Crashed w :=
  hA.working _ (h.mem_spawns.mpr (Contract.calls_of_track (Contract.track_of_pending (K := working) hpending))) rfl w rfl

private theorem batch_of_new (h : (queue workers).Reaches BackedOff (.start d) s) (hnone : (view s).stages t = none) :
    (view s).batch t = [] := by
  have hcalls : s.calls t = none := by
    cases hcall : s.calls t with
    | none => rfl
    | some call =>
      obtain ⟨x, hx⟩ := stage_of_spawned h (h.mem_spawns.mpr hcall)
      rw [hx] at hnone
      cases hnone
  have hhistory : (s.log.filter fun ev => ev.thread = t) = [] := h.history_of_unspawned hcalls
  show (s.log.filter fun ev => ev.thread = t).flatMap _ = []
  rw [hhistory, List.flatMap_nil]

/-- What releases an event, in terms of the stages of its calls. -/
private theorem resting_of_released (h : (queue workers).Reaches BackedOff (.start d) s) (hreleased : Released s t id) :
    (∀ t' w' p' x', t' ≠ t → (view s).stages t' = some (.process w' p' id, x') → x'.Ended ∨ (view s).Crashed w') ∧
      ∀ p w, (p, Call.poll w) ∈ (view s).spawns → id ∈ (view s).batch p →
        (∃ t w', (t, Call.process w' p id) ∈ (view s).spawns) ∨ (view s).Crashed w := by
  obtain ⟨hothers, hhanded⟩ := hreleased
  constructor
  · intro t' w' p' x' hne hx
    rcases hothers _ (spawned_of_stage h hx) hne rfl with hresult | ⟨w, hworker, hcrashed⟩
    · exact .inl (ended_of_result h hx hresult)
    · obtain rfl : w' = w := Option.some.inj hworker
      exact .inr hcrashed
  · intro p w hp hmem
    rcases hhanded _ hp hmem with ⟨⟨t', call⟩, hspawned, hhandles⟩ | ⟨w', hworker, hcrashed⟩
    · cases call with
      | process w' p' id' =>
        obtain ⟨rfl, rfl⟩ : p' = p ∧ id' = id := by simpa [Call.handles] using hhandles
        exact .inl ⟨t', w', hspawned⟩
      | _ => cases hhandles
    · obtain rfl : w = w' := Option.some.inj hworker
      exact .inr hcrashed

/-- What a patient poll finds is due. -/
private theorem elapsed_of_found (h : (queue workers).Reaches BackedOff (.start d) s) {o : Oracle}
    (hpending : s.pending t = some (call, c)) (hpatient : Patient s t o call c)
    (hx : (view s).stages t = some (call, x)) (hmay : call.may x c) (hmem : id ∈ c.found (exec o s.db c).1) :
    ∀ e T, s.db.events.find id = some e → e.nextAttemptAt = some T → (view s).Elapsed T := by
  intro e T hfind hnext
  cases c with
  | findEligible now limit =>
    obtain ⟨e', hselected, rfl⟩ := List.mem_map.mp hmem
    have hfilter := (List.perm_insertionSort _ _).mem_iff.mp (List.mem_of_mem_take hselected)
    obtain ⟨hdoc, heligible⟩ := List.mem_filter.mp hfilter
    obtain rfl : e' = e := Option.some.inj ((Collection.find_of_mem hdoc).symm.trans hfind)
    have hdue : T ≤ now := by
      by_cases hqueued : e'.status = .queued
      · exact hpatient e' hselected hqueued T hnext
      · have hprocessing : e'.status = .processing ∧ e'.nextAttemptAt.any (· ≤ now) = true := by
          simpa [IngestEvent.eligible, hqueued] using heligible
        simpa [hnext] using hprocessing.2
    have hpoll : call.isPoll = true := by
      cases call with
      | process w p id => exact hmay.elim
      | _ => exact hmay.2
    obtain ⟨ev, hev, hreads⟩ := asked_of_pending h hpending hpoll rfl
    exact ⟨ev, hev, now, hreads, hdue⟩
  | _ => cases hmem

private theorem rested (h : (queue workers).Reaches BackedOff (.start d) s) : Rested (view s) := by
  refine reaches_effects h ?_ ?_ ?_
  · intro id T hT
    cases hT
  · intro s t call hs hA hnone ih id T hT
    rcases ih id T hT with helapsed | ⟨hresting, hevent⟩
    · exact .inl helapsed
    · refine .inr ⟨hresting.spawned hnone (batch_of_new hs hnone) ?_, hevent⟩
      rintro w p rfl
      obtain ⟨halive, hfound, ⟨⟨q, polled⟩, hpolled, rfl, hpoll, hworker⟩, hnew⟩ := hA
      cases polled with
      | poll w₀ =>
        obtain rfl : w₀ = w := Option.some.inj hworker
        rcases hresting.handed q w₀ hpolled hfound with ⟨t', w', hspawned⟩ | hcrashed
        · simpa [Call.handles] using hnew _ hspawned
        · exact halive hcrashed
      | _ => cases hpoll
  · intro s t o call x c hs hA hpending hx heffect ih
    have hpatient := hA.2 _ hpending
    have hmay : call.may x c := (working_kept workers).may_pending hs hx hpending
    have hfound := fun id (hmem : id ∈ c.found (exec o s.db c).1) =>
      elapsed_of_found hs hpending hpatient hx hmay hmem
    cases call with
    | process w p id =>
      apply ih.work hx (alive_of_run hs hA hpending) (tracked hs t w p id x hx) heffect
      intro T hschedules
      cases c with
      | updateEvent i u =>
        obtain ⟨rfl, -⟩ := hmay
        exact resting_of_released hs (hpatient (by rw [hschedules]; rfl))
      | _ => cases hschedules
    | _ =>
      obtain ⟨rfl, hfeed⟩ := heffect
      exact ih.feed hx hfeed hmay.2.schedules_nothing hfound

/-- A scheduled retry waits for its instant, as long as polls find only events that are due and a
retry is scheduled only where nothing else is at the event. Event ids are trimmed. -/
theorem backoff_honoured (h : (queue workers).Reaches BackedOff (.start d) s) {o : Oracle}
    (hA : BackedOff s (.run t o)) (hpending : s.pending t = some (.process w p id, c)) (htakes : c.takesUp = true) :
    ∀ T ∈ scheduled s.log id, T ≤ o.now := by
  intro T hT
  rcases rested h id T hT with ⟨ev, hmem, now, hreads, hle⟩ | ⟨hresting, -⟩
  · exact hle.trans (hA.1.2 ev hmem now hreads)
  · have hx := Contract.track_of_pending (K := working) hpending
    have hmay := (working_kept workers).may_pending h hx hpending
    rcases hresting.ended t w p _ hx with hended | hcrashed
    · generalize working.record (.process w p id) (s.history t) = x at hmay hended
      cases c with
      | claim i =>
        obtain ⟨rfl, -⟩ := hmay
        exact hended.elim
      | invoke handler context =>
        obtain ⟨e, rfl, -⟩ := hmay
        exact hended.elim
      | _ => cases htakes
    · exact absurd hcrashed (alive_of_run h hA hpending)

end invariant

section scenario

private def purchaseWorkers : ℕ → IngestWorker := fun _ => ⟨["purchase"], ({} : WorkerOptions).config⟩

/-- The oracle at the given instant, with a handler that fails and may be tried again. -/
private def failingAt (now : Time) : Oracle :=
  { sampleOracle with now := now, outcome := .ok ⟨.retryableFailure, none, none⟩ }

/-- An event fails at instant 1000, is polled again at the given one, and handled with
the given steps. -/
private def polledAgain (now : Time) (further : List ℕ) : List (Label Oracle Call) :=
  [.spawn 0 samplePost] ++ turns [0, 0, 0] ++ [.spawn 1 (.poll 0)] ++ turns [1, 1] ++
    [.spawn 2 (.process 0 1 "event-1")] ++ turnsWith (failingAt 1000) [2, 2, 2, 2, 2, 2, 2] ++
    [.spawn 3 (.poll 0)] ++ turnsWith (failingAt now) [3, 3] ++ [.spawn 4 (.process 0 3 "event-1")] ++
    turnsWith (failingAt now) further

/-- The next step of thread `t` is such a command for its event. -/
private def nextIs (q : Cmd → Bool) (s : Run) (t : ℕ) (id : String) : Bool :=
  match s.pending t with
  | some (.process _ _ i, c) => i = id && q c
  | _ => false

private theorem pending_of_next {q : Cmd → Bool} {s : Run} {t : ℕ} {id : String} (h : nextIs q s t id = true) :
    ∃ w p c, s.pending t = some (.process w p id, c) ∧ q c = true := by
  unfold nextIs at h
  split at h
  · rename_i w p i c hpending
    obtain ⟨hid, hc⟩ := Bool.and_eq_true_iff.mp h
    obtain rfl : i = id := of_decide_eq_true hid
    exact ⟨w, p, c, hpending, hc⟩
  · cases h

theorem backoff_honoured_retry : ∃ s w p c, (queue purchaseWorkers).Reaches BackedOff (.start .empty) s ∧
    s.pending 4 = some (.process w p "event-1", c) ∧ c.takesUp = true ∧ scheduled s.log "event-1" = [2000] ∧
    ∀ T ∈ scheduled s.log "event-1", T ≤ (failingAt 2000).now := by
  obtain ⟨s, hs, hfacts⟩ := Machine.exists_reaches (queue purchaseWorkers) BackedOff (.start .empty)
    (polledAgain 2000 [])
    (fun s => (nextIs Cmd.takesUp s 4 "event-1", scheduled s.log "event-1",
      decide (BackedOff s (.run 4 (failingAt 2000))))) (a := (true, [2000], true)) (by decide +kernel)
  obtain ⟨hnext, hrest⟩ := Prod.mk.inj hfacts
  obtain ⟨hscheduled, hallowed⟩ := Prod.mk.inj hrest
  obtain ⟨w, p, c, hpending, htakes⟩ := pending_of_next hnext
  exact ⟨s, w, p, c, hs, hpending, htakes, hscheduled,
    backoff_honoured hs (of_decide_eq_true hallowed) hpending htakes⟩

/-- At instant 1000, the call that handles the event is about to take such a step, and its
retry is scheduled for 2000. -/
private def Early (q : Cmd → Bool) (s : Run) : Prop :=
  (∃ w p c, s.pending 4 = some (.process w p "event-1", c) ∧ q c = true) ∧
    Clocked s (.run 4 (failingAt 1000)) ∧ 2000 ∈ scheduled s.log "event-1"

private theorem exists_early (q : Cmd → Bool) (further : List ℕ)
    (h : ((queue purchaseWorkers).executeIn Clocked (.start .empty) (polledAgain 1000 further)).map (fun s =>
      (nextIs q s 4 "event-1", decide (Clocked s (.run 4 (failingAt 1000)) ∧ 2000 ∈ scheduled s.log "event-1"))) =
      some (true, true)) : ∃ s, (queue purchaseWorkers).Reaches Clocked (.start .empty) s ∧ Early q s := by
  obtain ⟨s, hs, hfacts⟩ := Machine.exists_reaches (queue purchaseWorkers) Clocked (.start .empty) _ _ h
  obtain ⟨hnext, hallowed⟩ := Prod.mk.inj hfacts
  exact ⟨s, hs, pending_of_next hnext, of_decide_eq_true hallowed⟩

/-- An event is claimed before the instant of its retry, and its handler is invoked. -/
theorem backoff_ignored :
    (∃ s, (queue purchaseWorkers).Reaches Clocked (.start .empty) s ∧ Early (·.claims.isSome) s) ∧
      ∃ s, (queue purchaseWorkers).Reaches Clocked (.start .empty) s ∧ Early (·.invokes.isSome) s :=
  ⟨exists_early _ [] (by decide +kernel), exists_early _ [4, 4] (by decide +kernel)⟩

end scenario
end RedRoomRewards.Ingest
