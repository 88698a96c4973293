import RedRoomRewards.Guarantees.BoundedAttempts
import RedRoomRewards.Process.Potential

/-! With one poll loop the queue drains: no claim misses its event, each queueing pays for the
claims that it brings about, and a poll that finds nothing leaves nothing to be done. -/
namespace RedRoomRewards.Ingest
open Process Store IngestWorker

section statement

/-- A claim that finds no event to take. -/
def Cmd.misses : (c : Cmd) → c.Reply → Bool
  | .claim _, r => r.isNone
  | _, _ => false

/-- Ingestion or a replay queues an event. -/
def Call.feeds (call : Call) : (c : Cmd) → c.Reply → Bool
  | .createEvent _, .ok _ => true
  | .updateEvent .., _ => call.isReplay
  | _, _ => false

/-- Nothing more is done with the event. -/
def IngestEvent.Done (e : IngestEvent) : Prop := e.status = .processed ∨ e.status = .dlq

/-- The poll has found events, and its batch is over. -/
def Drawn (s : Run) (x : ℕ × Call) : Prop := x.2.isPoll = true ∧ batch s x.1 ≠ [] ∧ Settled s x.1

instance (e : IngestEvent) : Decidable e.Done := inferInstanceAs (Decidable (_ ∨ _))
instance (s : Run) (x : ℕ × Call) : Decidable (Drawn s x) := inferInstanceAs (Decidable (_ ∧ _))

end statement

section stages
variable {x : Stage} {c : Cmd} {r : c.Reply} {id : String} {db db' : Db} {x' : Stage}

private theorem Stage.waiting_before (h : x.next c r = .waiting) : x = .waiting ∧ c.found r = [] := by
  cases x with
  | waiting =>
    refine ⟨rfl, ?_⟩
    cases c with
    | findEligible now limit => cases h
    | _ => rfl
  | holding e phase =>
    cases c with
    | findRecord key eventScope => cases phase <;> cases h
    | invoke handler context => cases phase <;> cases h
    | respond handler context => cases phase <;> cases r <;> cases h
    | updateEvent i u => cases phase <;> cases h
    | createDLQ dead => cases phase <;> cases r <;> cases h
    | findById i => cases phase <;> cases r <;> cases h
    | _ => cases h
  | marked e =>
    cases c with
    | createRecord record =>
      match r with
      | .ok _ | .error (.mongo (.duplicateKey _) _) => cases h
      | .error (.mongo (.validation _) _) | .error (.mongo (.unavailable _) _) | .error (.thrown _) => cases h
    | _ => cases h
  | finished => cases c <;> cases h
  | abandoned e => cases c <;> cases h

/-- A call leaves its first stage by a claim. -/
private theorem Stage.claims_first (h : Stage.waiting.MayWork id c) (hnext : Stage.waiting.next c r ≠ .waiting) :
    c.claims.isSome = true := by
  cases c with
  | claim i => rfl
  | now => exact absurd rfl hnext
  | findRecord key eventScope =>
    obtain ⟨e, heq, -⟩ := h
    cases heq
  | invoke handler context =>
    obtain ⟨e, heq, -⟩ := h
    cases heq
  | respond handler context =>
    obtain ⟨e, heq, -⟩ := h
    cases heq
  | updateEvent i u =>
    obtain ⟨-, e, phase, heq, -⟩ := h
    cases heq
  | createDLQ dead =>
    obtain ⟨e, phase, heq, -⟩ := h
    cases heq
  | createRecord record =>
    obtain ⟨e, t, heq, -⟩ := h
    cases heq
  | findById i =>
    obtain ⟨-, e, heq⟩ := h
    cases heq
  | _ => exact h.elim

private theorem claims_of_mayFeed {call : Call} (h : call.MayFeed c) : c.claims = none := by
  cases c with
  | claim i => exact h.elim
  | _ => rfl

/-- What a poll finds is stored and eligible. -/
private theorem eligible_of_found {o : Oracle} (h : id ∈ c.found (exec o db c).1) :
    ∃ e now, db.events.find id = some e ∧ e.eligible now = true := by
  cases c with
  | findEligible now limit =>
    obtain ⟨e, hmem, rfl⟩ := List.mem_map.mp h
    have hsorted := List.mem_of_mem_take hmem
    obtain ⟨hdoc, heligible⟩ := List.mem_filter.mp ((List.perm_insertionSort _ _).mem_iff.mp hsorted)
    exact ⟨e, now, Collection.find_of_mem hdoc, heligible⟩
  | _ => cases h

end stages

section runs
variable {workers : ℕ → IngestWorker} {A : Schedule} {d : Db} {s : Run} {w p t : ℕ} {id : String} {call : Call}

/-- What has found nothing yet has an empty batch. -/
private theorem batch_of_waiting (h : (queue workers).Reaches A (.start d) s)
    (hx : (view s).stages p = some (call, .waiting)) : (view s).batch p = [] := by
  have hquiet := (working_kept workers).invariant (P := fun _ history x => x = .waiting →
    ∀ ev ∈ history, ev.cmd.found ev.reply = []) ?_ ?_ h p call .waiting hx rfl
  · exact List.flatMap_eq_nil_iff.mpr hquiet
  · intro call _ ev hmem
    cases hmem
  · intro call history x t c r ih _ _ hnext ev hmem
    obtain ⟨hx, hfound⟩ := Stage.waiting_before hnext
    rcases List.mem_cons.mp hmem with rfl | hold
    · exact hfound
    · exact ih hx ev hold

/-- A call that has left its first stage has claimed its event. -/
private theorem claimed_of_stage (h : (queue workers).Reaches A (.start d) s) {x : Stage}
    (hx : (view s).stages t = some (.process w p id, x)) (hleft : x ≠ .waiting) :
    ∃ ev ∈ s.log, ev.cmd.claims.isSome = true ∧ ev.call = .process w p id := by
  have hclaimed := (working_kept workers).invariant (P := fun call history x =>
    ∀ w p id, call = .process w p id → x ≠ .waiting →
      ∃ ev ∈ history, ev.cmd.claims.isSome = true ∧ ev.call = call) ?_ ?_ h t _ x hx w p id rfl hleft
  · obtain ⟨ev, hmem, hclaims, hcall⟩ := hclaimed
    exact ⟨ev, ((s.mem_history).mp hmem).1, hclaims, hcall⟩
  · intro call w p id _ hwaiting
    exact absurd rfl hwaiting
  · rintro call history x t c r ih hmay - w p id rfl hnext
    by_cases hx : x = .waiting
    · subst hx
      exact ⟨_, .head _, Stage.claims_first hmay hnext, rfl⟩
    · obtain ⟨ev, hmem, hclaims, hcall⟩ := ih w p id rfl hx
      exact ⟨ev, .tail _ hmem, hclaims, hcall⟩

/-- Each event of a queue that was empty has been queued. -/
private theorem all_queued (h : (queue workers).Reaches A (.start d) s) (hd : d.events.docs = []) :
    ∀ e ∈ s.db.events.docs, Queued s.log e.id := by
  have hgrown : ∀ {log : List (Event Queue Call)} (ev : Event Queue Call) {i : String},
      Queued log i → Queued (ev :: log) i := by
    rintro log ev i ⟨ev', hmem, hqueues⟩
    exact ⟨ev', .tail _ hmem, hqueues⟩
  refine reaches_invariant (P := fun v => ∀ e ∈ v.db.events.docs, Queued v.log e.id) h ?_ ?_ ?_ ?_
  · intro e hmem
    rw [show (View.start d).db.events.docs = [] from hd] at hmem
    cases hmem
  · exact fun s t call _ _ _ ih => ih
  · intro s t o w p id x c r db' x' _ _ _ _ hwork ih e hmem
    obtain ⟨e₀, hfind, horigin⟩ := hwork.find (Collection.find_of_mem hmem)
    rw [← IngestEvent.id_of_origin horigin]
    exact hgrown _ (ih e₀ (Collection.mem_of_find hfind))
  · intro s t o call c r db' x' _ _ _ _ hfeed ih e hmem
    cases hfeed with
    | queued e₁ hnew hvalid hfree =>
      rcases (Collection.mem_insert hfree).mp hmem with hold | heq
      · exact hgrown _ (ih e hold)
      · exact ⟨⟨t, call, .createEvent e₁, .ok e₁⟩, List.mem_cons_self,
          decide_eq_true (congrArg IngestEvent.id heq.symm)⟩
    | requeued i now hreplay =>
      have hmodified : e ∈ (s.db.events.modify i _ (ReplayController.requeue now).keeps).docs := hmem
      obtain ⟨e₁, hold, rfl⟩ := Collection.mem_modify.mp hmodified
      have hsame : (if e₁.id = i then (ReplayController.requeue now).apply e₁ else e₁).id = e₁.id := by split <;> rfl
      rw [hsame]
      exact hgrown _ (ih e₁ hold)
    | _ => exact hgrown _ (ih e hmem)

/-- A process that has not come to its end belongs to the only batch that is not over. -/
private theorem live_batch (h : (queue workers).Reaches (OneLoop w) (.start d) s) {w₁ w₂ : ℕ} {x : Stage}
    (hx : (view s).stages t = some (.process w₁ p id, x)) (hlive : ¬ x.Ended) {q : ℕ}
    (hq : (q, Call.poll w₂) ∈ s.spawns) : q = p ∨ (view s).Over q := by
  obtain ⟨hfound, w₃, hp⟩ := (batched h).found t w₁ p id (spawned_of_stage h hx)
  rcases (batched h).latest q p w₂ w₃ hq hp with heq | hover | ⟨-, hbatch⟩
  · exact .inl heq
  · exact .inr hover
  · obtain ⟨t', w', y, hy, hended⟩ := hbatch id hfound
    obtain rfl := (batched h).once t t' w₁ w' p id (spawned_of_stage h hx) (spawned_of_stage h hy)
    obtain ⟨-, rfl⟩ := Prod.mk.inj (Option.some.inj (hx.symm.trans hy))
    exact absurd hended hlive

variable {max : ℕ}

/-- While a poll has found nothing yet, every event is queued or done. -/
private theorem queued_or_done (h : (queue workers).Reaches (OneLoop w) (.start d) s) {w₁ : ℕ}
    (hx : (view s).stages p = some (.poll w₁, .waiting)) (hqueued : Queued s.log id) {e : IngestEvent}
    (hfind : s.db.events.find id = some e) (hcounted : CountedAt max (view s) id) : e.status = .queued ∨ e.Done := by
  obtain ⟨hknown, hrest⟩ := hcounted e hfind hqueued
  have hidle : ∀ t w p x e', (view s).stages t = some (.process w p id, x) → ¬ x.Knows e' := by
    intro t w₂ q x e' hstage hknows
    obtain ⟨hfound, -⟩ := (batched h).found t w₂ q id (spawned_of_stage h hstage)
    rcases live_batch h hstage hknows.not_ended (spawned_of_stage h hx) with rfl | ⟨⟨w₃, hover⟩, -⟩
    · rw [batch_of_waiting h hx] at hfound
      cases hfound
    · rw [hx] at hover
      cases hover
  have hfits := hrest hidle
  have hnot := hfits.processing fun _ _ heq => by cases heq
  cases hstatus : e.status with
  | queued => exact .inl rfl
  | processing => exact absurd hstatus hnot
  | processed => exact .inr (.inl hstatus)
  | rejected => exact absurd hstatus hfits.accepted
  | dlq => exact .inr (.inr hstatus)

/-- What a poll has found is claimed already, or still queued. -/
private def Waits (v : View) : Prop := ∀ q w id, (q, Call.poll w) ∈ v.spawns → id ∈ v.batch q →
  (∃ t w' x, v.stages t = some (.process w' q id, x) ∧ x ≠ .waiting) ∨
    ∃ e, v.db.events.find id = some e ∧ e.status = .queued

private theorem Work.left_waiting {db db' : Db} {c : Cmd} {r : c.Reply} {x x' : Stage}
    (h : Work id db x c r db' x') (hx : x ≠ .waiting) : x' ≠ .waiting := by
  intro hx'
  cases h with
  | idle x now => exact hx hx'
  | answered e handler r => cases r <;> cases hx'
  | updated e phase u hallows => cases phase <;> cases hx'
  | refused e phase dead error hphase hd hrefused => cases phase <;> cases hx'
  | missed | claimed => exact hx rfl
  | _ => cases hx'

/-- A call of `processEvent` goes on. -/
private theorem Waits.work (hs : (queue workers).Reaches (OneLoop w) (.start d) s) {w₁ : ℕ} {c : Cmd} {r : c.Reply}
    {db' : Db} {x x' : Stage} (hx : (view s).stages t = some (.process w₁ p id, x))
    (hwork : Work id s.db x c r db' x') (h : Waits (view s)) :
    Waits ((view s).acted t (.process w₁ p id) c r db' x') := by
  intro q w₂ i hq hfound
  have hbatch : i ∈ (view s).batch q := by
    rw [View.batch_acted] at hfound
    rcases List.mem_append.mp hfound with hnew | hold
    · split at hnew
      · cases hwork <;> cases hnew
      · cases hnew
    · exact hold
  rcases h q w₂ i hq hbatch with ⟨t', w', y, hy, hleft⟩ | ⟨e, hfind, hqueued⟩
  · by_cases htt : t' = t
    · subst htt
      obtain ⟨heq, rfl⟩ := Prod.mk.inj (Option.some.inj (hx.symm.trans hy))
      obtain ⟨rfl, rfl, rfl⟩ := Call.process.inj heq
      exact .inl ⟨t', w₁, x', View.stages_acted_self, hwork.left_waiting hleft⟩
    · exact .inl ⟨t', w', y, (View.stages_acted_ne htt).trans hy, hleft⟩
  · by_cases hi : i = id
    · subst hi
      by_cases hquiet : db'.events = s.db.events
      · exact .inr ⟨e, (congrArg (·.find i) hquiet).trans hfind, hqueued⟩
      · -- the call has changed its event, so that it has left its first stage and is not at its end
        have hended : ¬ x.Ended := by
          intro hended
          cases hwork with
          | idle x now => exact hquiet rfl
          | _ => exact hended
        have hleft : x' ≠ .waiting := by
          intro hwaiting
          cases hwork with
          | idle x now => exact hquiet rfl
          | claimed => cases hwaiting
          | updated e phase u hallows => cases phase <;> cases hwaiting
          | _ => exact hquiet rfl
        rcases live_batch hs hx hended hq with rfl | ⟨-, hover⟩
        · exact .inl ⟨t, w₁, x', View.stages_acted_self, hleft⟩
        · obtain ⟨t', w', y, hy, hyended⟩ := hover i hbatch
          by_cases htt : t' = t
          · subst htt
            obtain ⟨-, rfl⟩ := Prod.mk.inj (Option.some.inj (hx.symm.trans hy))
            exact absurd hyended hended
          · refine .inl ⟨t', w', y, (View.stages_acted_ne htt).trans hy, ?_⟩
            rintro rfl
            exact hyended
    · exact .inr ⟨e, (hwork.find_ne hi).trans hfind, hqueued⟩

/-- Another call goes on; what it finds is queued. -/
private theorem Waits.feed {call : Call} {c : Cmd} {r : c.Reply} {db' : Db} {x' : Stage}
    (hx : (view s).stages t = some (call, .waiting)) (hfeed : Feed call s.db c r db' x')
    (hfound : ∀ i ∈ c.found r, ∃ e, s.db.events.find i = some e ∧ e.status = .queued) (h : Waits (view s)) :
    Waits ((view s).acted t call c r db' x') := by
  have hkept : ∀ i, (∃ e, s.db.events.find i = some e ∧ e.status = .queued) →
      ∃ e, db'.events.find i = some e ∧ e.status = .queued := by
    rintro i ⟨e, hfind, hqueued⟩
    cases hfeed with
    | queued e₁ hnew hvalid hfree => exact ⟨e, Collection.find_insert_of_find hfree hfind, hqueued⟩
    | requeued i₁ now hreplay =>
      by_cases hi : i = i₁
      · subst hi
        exact ⟨_, Collection.find_modify_self (ReplayController.requeue now).keeps hfind, rfl⟩
      · exact ⟨e, (Collection.find_modify_ne hi _ (ReplayController.requeue now).keeps).trans hfind, hqueued⟩
    | _ => exact ⟨e, hfind, hqueued⟩
  intro q w₁ i hq hmem
  rw [View.batch_acted] at hmem
  rcases List.mem_append.mp hmem with hnew | hold
  · split at hnew
    · exact .inr (hkept i (hfound i hnew))
    · cases hnew
  · rcases h q w₁ i hq hold with ⟨t', w', y, hy, hleft⟩ | hqueued
    · refine .inl ⟨t', w', y, (View.stages_acted_ne ?_).trans hy, hleft⟩
      rintro rfl
      rw [hx] at hy
      obtain ⟨-, rfl⟩ := Prod.mk.inj (Option.some.inj hy)
      exact hleft rfl
    · exact .inr (hkept i hqueued)

private theorem poll_of_found {call : Call} {db db' : Db} {c : Cmd} {r : c.Reply} {x' : Stage}
    (hfeed : Feed call db c r db' x') (hmem : id ∈ c.found r) : ∃ w, call = .poll w := by
  cases hfeed with
  | idle c r hfound hinvokes hsucceeds hqueues =>
    rw [hfound] at hmem
    cases hmem
  | polled now limit events hpoll =>
    cases call with
    | poll w => exact ⟨w, rfl⟩
    | _ => cases hpoll
  | _ => cases hmem

section drained
theorem Bounded.reaches_loop (h : (queue workers).Reaches (Bounded w) (.start d) s) :
    (queue workers).Reaches (OneLoop w) (.start d) s := h.mono fun _ _ _ hA => hA.loop

private theorem identified_of_empty (hd : d.events.docs = []) : d.Identified := by
  intro e hmem
  rw [hd] at hmem
  cases hmem

private theorem found_queued (hmax : 0 < (workers w).config.maxRetryAttempts)
    (h : (queue workers).Reaches (Bounded w) (.start d) s) (hd : d.events.docs = []) {w₁ : ℕ}
    (hx : (view s).stages t = some (.poll w₁, .waiting)) {e : IngestEvent} (hfind : s.db.events.find id = some e) :
    e.status = .queued ∨ e.Done := by
  obtain rfl : e.id = id := Collection.key_of_find hfind
  have hqueued := all_queued h hd e (Collection.mem_of_find hfind)
  exact queued_or_done (Bounded.reaches_loop h) hx hqueued hfind (counted h (identified_of_empty hd) hmax e.id)

private theorem waits (hmax : 0 < (workers w).config.maxRetryAttempts)
    (h : (queue workers).Reaches (Bounded w) (.start d) s) (hd : d.events.docs = []) :
    Waits (view s) := by
  refine reaches_effects h ?_ ?_ ?_
  · intro q w₁ i hq
    cases hq
  · intro s t call hs hA hnone ih q w₁ i hq hfound
    rcases List.mem_cons.mp hq with heq | hold
    · -- a poll that has just started has found nothing
      obtain ⟨rfl, rfl⟩ := Prod.mk.inj heq
      have hcalls : s.calls q = none := by
        cases hcall : s.calls q with
        | none => rfl
        | some call =>
          obtain ⟨x, hx⟩ := stage_of_spawned hs (hs.mem_spawns.mpr hcall)
          rw [hnone] at hx
          cases hx
      have hempty : batch s q = [] := by rw [batch, hs.history_of_unspawned hcalls, List.flatMap_nil]
      rw [show ((view s).spawned q (.poll w₁)).batch q = batch s q from rfl, hempty] at hfound
      cases hfound
    · rcases ih q w₁ i hold hfound with ⟨t', w', y, hy, hleft⟩ | hqueued
      · refine .inl ⟨t', w', y, (Function.update_of_ne ?_ _ _).trans hy, hleft⟩
        rintro rfl
        rw [hnone] at hy
        cases hy
      · exact .inr hqueued
  · intro s t o call x c hs hA hpending hx heffect ih
    cases call with
    | process w₁ p id => exact ih.work (Bounded.reaches_loop hs) hx heffect
    | _ =>
      obtain ⟨rfl, hfeed⟩ := heffect
      refine ih.feed hx hfeed fun i hmem => ?_
      obtain ⟨w₁, heq⟩ := poll_of_found hfeed hmem
      obtain ⟨e, now, hfind, heligible⟩ := eligible_of_found hmem
      refine ⟨e, hfind, ?_⟩
      rcases found_queued hmax hs hd (heq ▸ hx) hfind with hqueued | hdone | hdone
      · exact hqueued
      · simp [IngestEvent.eligible, hdone] at heligible
      · simp [IngestEvent.eligible, hdone] at heligible

/-- A claim is about to find its event queued, with an attempt left. -/
private theorem claim_finds (hmax : 0 < (workers w).config.maxRetryAttempts)
    (h : (queue workers).Reaches (Bounded w) (.start d) s) (hd : d.events.docs = []) {w₁ : ℕ}
    {i : String} (hpending : s.pending t = some (.process w₁ p id, .claim i)) :
    i = id ∧ ∃ e, s.db.events.find id = some e ∧ e.status = .queued ∧
      e.attempts < (workers w).config.maxRetryAttempts := by
  have hloop := Bounded.reaches_loop h
  have hx : (view s).stages t = some (.process w₁ p id, working.record (.process w₁ p id) (s.history t)) :=
    Contract.track_of_pending hpending
  obtain ⟨hwaiting, rfl⟩ := (working_kept workers).may_pending h hx hpending
  rw [hwaiting] at hx
  obtain ⟨hfound, w₂, hp⟩ := (batched hloop).found t w₁ p i (spawned_of_stage h hx)
  obtain ⟨e, hfind, hqueued⟩ : ∃ e, s.db.events.find i = some e ∧ e.status = .queued := by
    rcases waits hmax h hd p w₂ i hp hfound with ⟨t', w', y, hy, hleft⟩ | hqueued
    · obtain rfl := (batched hloop).once t t' w₁ w' p i (spawned_of_stage h hx) (spawned_of_stage h hy)
      obtain ⟨-, rfl⟩ := Prod.mk.inj (Option.some.inj (hx.symm.trans hy))
      exact absurd rfl hleft
    · exact hqueued
  have hlogged : Queued s.log i := Collection.key_of_find hfind ▸ all_queued h hd e (Collection.mem_of_find hfind)
  have hfits := (counted h (identified_of_empty hd) hmax i).own hx id
    (fun t' w' p' y hy hlive => live_alone hloop hy hx hlive id) hfind hlogged
  exact ⟨rfl, e, hfind, hqueued, hfits.left hqueued⟩

private theorem none_misses (hmax : 0 < (workers w).config.maxRetryAttempts)
    (h : (queue workers).Reaches (Bounded w) (.start d) s) (hd : d.events.docs = []) :
    ∀ ev ∈ s.log, ev.cmd.misses ev.reply = false := by
  intro ev hev
  obtain ⟨s₁, o, k, hthread, hreply, hsteps⟩ := h.step_of_event hev
  obtain ⟨t, call, c, r⟩ := ev
  dsimp only at hthread hreply ⊢
  subst hreply
  cases c with
  | claim i =>
    have hpending : s₁.pending t = some (call, .claim i) := by simp [State.pending, hthread]
    cases call with
    | process w₁ p id =>
      obtain ⟨rfl, e, hfind, hqueued, -⟩ := claim_finds hmax hsteps.reaches hd hpending
      have hclaimable : e.claimable = true := by simp [IngestEvent.claimable, hqueued]
      simp [queue, exec, Db.claim, hfind, hclaimable, Cmd.misses]
    | _ =>
      have hmay := (working_kept workers).may hsteps.reaches hthread
      exact hmay.2.elim
  | _ => rfl

end drained

section potential

/-- How many attempts all events have left. -/
private def due (max : ℕ) (c : IngestEvents) : ℤ := c.total fun e => ((max - e.attempts : ℕ) : ℤ)

private theorem due_nonneg (max : ℕ) (c : IngestEvents) : 0 ≤ due max c :=
  Collection.total_nonneg fun _ _ => Int.natCast_nonneg _

private theorem due_modify {c : IngestEvents} {e : IngestEvent} {f : IngestEvent → IngestEvent}
    (hf : Collection.Keeps IngestEvent.id IngestEvent.eventId f) (hfind : c.find id = some e) (max : ℕ) :
    due max (c.modify id f hf) = due max c - ((max - e.attempts : ℕ) : ℤ) + ((max - (f e).attempts : ℕ) : ℤ) :=
  Collection.total_modify hfind _

variable {db db' : Db} {c : Cmd} {r : c.Reply} {x x' : Stage} (max)

/-- A claim uses up an attempt, and no other step of `processEvent` does. -/
private theorem Work.due (hwork : Work id db x c r db' x') (htracks : x.Tracks db id) (hmisses : c.misses r = false)
    (hclaim : ∀ i, c = .claim i → ∃ e, db.events.find id = some e ∧ e.attempts < max)
    (hupdate : ∀ i u, c = .updateEvent i u → u.attempts = none) :
    (if c.claims.isSome = true then 1 else 0) + Ingest.due max db'.events = Ingest.due max db.events := by
  cases hwork with
  | missed => cases hmisses
  | claimed e hfind hclaimable =>
    obtain ⟨e', hfind', hleft⟩ := hclaim id rfl
    obtain rfl : e = e' := Option.some.inj (hfind.symm.trans hfind')
    have hmodified : Ingest.due max (db.events.modify id IngestEvent.claimed IngestEvent.claimed_keeps) = _ :=
      due_modify IngestEvent.claimed_keeps hfind max
    have hone : (Cmd.claim id).claims.isSome = true := rfl
    rw [hmodified, if_pos hone]
    have hcast : ((max - e.attempts : ℕ) : ℤ) = ((max - e.claimed.attempts : ℕ) : ℤ) + 1 := by
      have hattempts : e.claimed.attempts = e.attempts + 1 := rfl
      omega
    omega
  | updated e phase u hallows =>
    obtain ⟨e₀, hfind, -⟩ := htracks
    have hsame : (u.apply e₀).attempts = e₀.attempts := by simp [IngestEventUpdate.apply, hupdate id u rfl]
    have hmodified : Ingest.due max (db.updateEvent id u).events = _ := due_modify u.keeps hfind max
    rw [hmodified, hsame, sub_add_cancel]
    exact zero_add _
  | _ => exact zero_add _

/-- Queueing an event gives it all its attempts. -/
private theorem Feed.due {call : Call} (hfeed : Feed call db c r db' x') :
    Ingest.due max db'.events ≤ (if call.feeds c r = true then max else 0 : ℕ) + Ingest.due max db.events := by
  cases hfeed with
  | queued e hnew hvalid hfree =>
    have hinserted : Ingest.due max (db.events.insert e) = _ := Collection.total_insert hfree _
    have hattempts : e.attempts = 0 := (congrArg IngestEvent.attempts hnew).symm
    have hfeeds : call.feeds (.createEvent e) (.ok e) = true := rfl
    rw [hinserted, if_pos hfeeds, hattempts, add_comm, Nat.sub_zero]
    exact le_refl _
  | requeued i now hreplay =>
    have hfeeds : call.feeds (.updateEvent i (ReplayController.requeue now)) () = true := hreplay
    rw [if_pos hfeeds]
    cases hfind : db.events.find i with
    | some e =>
      have hmodified : Ingest.due max (db.updateEvent i (ReplayController.requeue now)).events = _ :=
        due_modify (ReplayController.requeue now).keeps hfind max
      rw [hmodified]
      omega
    | none =>
      have hmissing : (db.updateEvent i (ReplayController.requeue now)).events.find i = none := by
        rw [show (db.updateEvent i (ReplayController.requeue now)).events.find i = _ from
          Collection.find_modify i i _ (ReplayController.requeue now).keeps, if_pos rfl, hfind]
        rfl
      have hsame : Ingest.due max (db.updateEvent i (ReplayController.requeue now)).events =
          Ingest.due max db.events - (db.events.find i).elim 0 (fun e => ((max - e.attempts : ℕ) : ℤ)) +
            ((db.updateEvent i (ReplayController.requeue now)).events.find i).elim 0
              (fun e => ((max - e.attempts : ℕ) : ℤ)) :=
        Collection.total_of_find i fun k hk => by rw [Db.updateEvent, Collection.find_modify_ne hk]
      rw [hsame, hfind, hmissing]
      show Ingest.due max db.events - 0 + 0 ≤ _
      omega
  | _ => omega

end potential

/-- The poll whose batch a call belongs to. -/
private def Call.drawnBy : Call → Option ℕ
  | .process _ p _ => some p
  | _ => none

/-- Each batch that is over has brought about a claim of its own. -/
private theorem drawn_le (h : (queue workers).Reaches (OneLoop w) (.start d) s) :
    s.spawns.countP (fun x => Drawn s x) ≤ s.log.countP fun ev => ev.cmd.claims.isSome := by
  have hnodup : (((s.spawns.filter fun x => Drawn s x).map Prod.fst).map some).Nodup :=
    (h.spawns_nodup.sublist (List.filter_sublist.map _)).map (Option.some_injective ℕ)
  have hsub : ((s.spawns.filter fun x => Drawn s x).map Prod.fst).map some ⊆
      (s.log.filter fun ev => ev.cmd.claims.isSome).map fun ev => ev.call.drawnBy := by
    intro q hq
    obtain ⟨p, hp, rfl⟩ := List.mem_map.mp hq
    obtain ⟨⟨p, call⟩, hmem, rfl⟩ := List.mem_map.mp hp
    obtain ⟨hspawned, hdrawn⟩ := List.mem_filter.mp hmem
    obtain ⟨hpoll, hsome, hsettled⟩ := of_decide_eq_true hdrawn
    cases call with
    | poll w' =>
      obtain ⟨-, hover⟩ := over_of_settled h hspawned hsettled
      obtain ⟨id, hid⟩ := List.exists_mem_of_ne_nil _ hsome
      obtain ⟨t, w₁, x, hx, hended⟩ := hover id hid
      have hleft : x ≠ .waiting := by
        rintro rfl
        exact hended
      obtain ⟨ev, hev, hclaims, hcall⟩ := claimed_of_stage h hx hleft
      exact List.mem_map.mpr ⟨ev, List.mem_filter.mpr ⟨hev, hclaims⟩, by rw [hcall]; rfl⟩
    | _ => cases hpoll
  have hlength := (List.subperm_of_subset hnodup hsub).length_le
  rwa [List.length_map, List.length_map, List.length_map, ← List.countP_eq_length_filter,
    ← List.countP_eq_length_filter] at hlength

/-- Each queueing pays for the claims of its event. -/
private theorem claims_le (hmax : 0 < (workers w).config.maxRetryAttempts)
    (h : (queue workers).Reaches (Bounded w) (.start d) s) (hd : d.events.docs = []) :
    s.log.countP (fun ev => ev.cmd.claims.isSome) ≤
      (workers w).config.maxRetryAttempts * s.log.countP (fun ev => ev.call.feeds ev.cmd ev.reply) := by
  have hpaid := h.amortized (fun s => (due (workers w).config.maxRetryAttempts s.db.events).toNat)
    (fun ev => if ev.cmd.claims.isSome = true then 1 else 0)
    (fun ev => if ev.call.feeds ev.cmd ev.reply = true then (workers w).config.maxRetryAttempts else 0)
    (fun s t c _ _ _ => le_refl _) ?_ (fun s t call c _ _ => le_refl _)
  · have hstart : due (workers w).config.maxRetryAttempts d.events = 0 := by rw [due, Collection.total, hd]; rfl
    have hincome : s.total (fun ev => if ev.call.feeds ev.cmd ev.reply = true then
        (workers w).config.maxRetryAttempts else 0) =
        (workers w).config.maxRetryAttempts * s.log.countP (fun ev => ev.call.feeds ev.cmd ev.reply) := by
      rw [State.total]
      induction s.log with
      | nil => rfl
      | cons ev log ih =>
        rw [List.map_cons, List.sum_cons, ih, List.countP_cons, Nat.mul_add, Nat.add_comm]
        split <;> simp
    rw [s.countP_log, ← hincome]
    have hzero : (due (workers w).config.maxRetryAttempts (State.start d : Run).db.events).toNat = 0 := by
      rw [show (State.start d : Run).db.events = d.events from rfl, hstart]
      rfl
    omega
  · intro s t o call c k hs hA ht
    have hpending : s.pending t = some (call, c) := by simp [State.pending, ht]
    have hx : (view s).stages t = some (call, working.record call (s.history t)) := Contract.track_of_thread ht
    have heffect := effect_of_may s.db o ((working_kept workers).may hs ht)
    have hbefore := due_nonneg (workers w).config.maxRetryAttempts s.db.events
    have hafter := due_nonneg (workers w).config.maxRetryAttempts (exec o s.db c).2.events
    show (if c.claims.isSome = true then 1 else 0) + (due _ (exec o s.db c).2.events).toNat ≤
      (if call.feeds c (exec o s.db c).1 = true then _ else 0) + (due _ s.db.events).toNat
    cases call with
    | process w₁ p id =>
      obtain rfl : w₁ = w := worker_of_loop (Bounded.reaches_loop hs) _ (spawned_of_stage hs hx) w₁ rfl
      have hstep := Work.due (workers w₁).config.maxRetryAttempts heffect (tracked hs t w₁ p id _ hx) ?_ ?_ ?_
      · by_cases hclaims : c.claims.isSome = true
        · rw [if_pos hclaims] at hstep ⊢
          omega
        · rw [if_neg hclaims] at hstep ⊢
          omega
      · have hstep : (queue workers).step s (.run t o) =
            some ((queue workers).acted s t o (.process w₁ p id) c k) := by simp [Machine.step, ht]
        exact none_misses hmax (.step hs hA hstep) hd _ (.head _)
      · rintro i rfl
        obtain ⟨-, e, hfind, -, hleft⟩ := claim_finds hmax hs hd hpending
        exact ⟨e, hfind, hleft⟩
      · rintro i u rfl
        obtain ⟨-, hretry⟩ := (retrying_kept workers).may_pending hs hx hpending
        obtain ⟨-, e, phase, hstage, -⟩ := (working_kept workers).may_pending hs hx hpending
        rw [hstage] at hretry
        exact hretry.1
    | _ =>
      obtain ⟨hwaiting, hmay⟩ := (working_kept workers).may hs ht
      obtain ⟨-, hfeed⟩ := heffect
      have hstep := Feed.due (workers w).config.maxRetryAttempts hfeed
      rw [if_neg (by simp [claims_of_mayFeed hmay])]
      omega

/-- A poll looks for as many events as its worker handles at a time. -/
private def limiting (workers : ℕ → IngestWorker) : Contract Queue Call Unit QueueError Unit where
  start := fun _ => ()
  next := fun _ _ _ _ => ()
  may := fun call _ c => ∀ w now limit, call = .poll w → c = .findEligible now limit →
    limit = (workers w).config.maxConcurrentJobs
  ends := fun _ _ _ => True
  resumes := fun call call' _ => call' = call

private theorem limiting_kept (workers : ℕ → IngestWorker) : (limiting workers).Kept (queue workers) where
  starts := fun _ => rfl
  body := by
    rintro call call' x rfl
    cases call' with
    | poll w =>
      refine ⟨fun _ _ _ _ heq => (by cases heq), fun now _ => ⟨?_, fun _ _ => trivial⟩⟩
      rintro w' now' limit heq hcommand
      obtain rfl := Call.poll.inj heq
      exact (Cmd.findEligible.inj hcommand).2.symm
    | crash w => trivial
    | _ =>
      refine (Prog.obeys_bind _ _ _).mpr (Prog.obeys_stable (P := fun _ => True) _ trivial (fun _ _ _ _ => trivial) ?_ ?_)
      · exact fun _ _ _ _ _ _ heq => by cases heq
      · rintro y (error | a) -
        · trivial
        · trivial

/-- A poll that may find an event finds none exactly when none is eligible. -/
private theorem eligible_eq_nil {db : Db} {rank : String → ℕ} {now : Time} {limit : ℕ} (hlimit : 0 < limit) :
    db.eligible rank now limit = [] ↔ ∀ e ∈ db.events.docs, e.eligible now = false := by
  have hsorted : ∀ {l : List IngestEvent}, l.insertionSort (fun a b => rank a.id ≤ rank b.id) = [] ↔ l = [] := by
    intro l
    rw [← List.length_eq_zero_iff, List.length_insertionSort, List.length_eq_zero_iff]
  rw [Db.eligible, List.take_eq_nil_iff, or_iff_right hlimit.ne', hsorted, List.filter_eq_nil_iff]
  simp

end runs

section scenario

private def retryingOptions : ℕ → WorkerOptions := fun _ => { maxRetryAttempts := some 2 }

/-- The handler fails at the first attempt, and the next poll finds the event again. -/
private def retriedOnce : List (Label Oracle Call) :=
  [.spawn 0 samplePost] ++ turns [0, 0, 0] ++ [.spawn 1 (.poll 0)] ++ turns [1, 1] ++
    [.spawn 2 (.process 0 1 "event-1")] ++
    turnsWith { sampleOracle with outcome := .ok ⟨.retryableFailure, none, none⟩ } [2, 2, 2, 2, 2, 2, 2] ++
    [.spawn 3 (.poll 0)] ++ turns [3, 3] ++ [.spawn 4 (.process 0 3 "event-1")] ++ turns [4, 4, 4, 4, 4, 4, 4]

end scenario
end RedRoomRewards.Ingest
