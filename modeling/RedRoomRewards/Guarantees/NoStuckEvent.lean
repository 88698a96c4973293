import RedRoomRewards.Guarantees.HandlersExclusive

/-! When no event gets stuck: it is settled, a call that lives is at work on it, or a
poll will find it. -/
namespace RedRoomRewards.Ingest
open Process Store IngestWorker

section condition

/-- Only the call that has claimed the event can bring it back to the queue. -/
def IngestEvent.Adrift (e : IngestEvent) : Prop := e.status = .processing ∧ e.nextAttemptAt = none

/-- The event that a call of `processEvent` handles. -/
def Call.target : Call → Option String
  | process _ _ id => some id
  | _ => none

def Cmd.rereads : Cmd → Bool
  | .findById _ => true
  | _ => false

/-- The dead letter that a command stores. -/
def Cmd.buries : Cmd → Option DLQEvent
  | .createDLQ d => some d
  | _ => none

variable (s : Run)

/-- The call of thread `t` has claimed its event and has not come to its end. -/
def Busy (t : ℕ) : Prop := (s.result t).isNone = true ∧ ∃ ev ∈ s.history t, ev.cmd.claims.isSome = true

/-- A call of a worker that has not crashed has claimed the event and is at work on it. -/
def Attended (id : String) : Prop := ∃ x ∈ s.spawns, x.2.target = some id ∧
  (∀ w ∈ x.2.worker, ¬ Crashed s w) ∧ Busy s x.1

/-- No worker crashes while it is at work on an event that is adrift, and no call that
has thrown before fails to store the dead letter of such an event. -/
def Sheltered : Schedule
  | s, .spawn t call => Working s (.spawn t call) ∧ ∀ x ∈ s.spawns, (∃ w ∈ x.2.worker, call.crashes w = true) →
      Busy s x.1 → ∀ id ∈ x.2.target, ∀ e ∈ s.db.events.find id, ¬ e.Adrift
  | s, .run t o => Working s (.run t o) ∧ ∀ x ∈ s.pending t, ∀ d ∈ x.2.buries,
      (∃ ev ∈ s.history t, ev.cmd.rereads = true) → (d.invalid = [] ∧ s.db.dlq.Free d) ∨
        ∀ id ∈ x.1.target, ∀ e ∈ s.db.events.find id, ¬ e.Adrift

instance (e : IngestEvent) : Decidable e.Adrift := inferInstanceAs (Decidable (_ ∧ _))
instance (t : ℕ) : Decidable (Busy s t) := inferInstanceAs (Decidable (_ ∧ _))
instance (id : String) : Decidable (Attended s id) := inferInstanceAs (Decidable (∃ x ∈ _, _))

instance (l : Label Oracle Call) : Decidable (Sheltered s l) :=
  match l with
  | .spawn .. | .run .. => by dsimp only [Sheltered]; infer_instance

end condition

section invariant
variable {v : View} {t w p : ℕ} {id : String} {call : Call} {c : Cmd} {r : c.Reply} {db' : Db} {x x' : Stage}

def View.Crashed (v : View) (w : ℕ) : Prop := ∃ x ∈ v.spawns, x.2.crashes w = true

/-- What is adrift is held by a call of a worker that has not crashed. -/
def Moored (v : View) : Prop := ∀ id e, v.db.events.find id = some e → e.Adrift →
  ∃ t w p e' phase, v.stages t = some (.process w p id, .holding e' phase) ∧ ¬ v.Crashed w

/-- A step after which only what was adrift before is so, and its thread holds its event
as before. -/
private theorem Moored.acted (h : Moored v) (hx : v.stages t = some (call, x))
    (hevents : ∀ id e, db'.events.find id = some e → e.Adrift → (∃ e₀, v.db.events.find id = some e₀ ∧ e₀.Adrift) ∨
      ∃ w p e' phase, call = .process w p id ∧ x' = .holding e' phase ∧ ¬ v.Crashed w)
    (hholding : ∀ w p id e phase, call = .process w p id → x = .holding e phase →
      (∃ e' phase', x' = .holding e' phase') ∨ ∀ e ∈ db'.events.find id, ¬ e.Adrift) :
    Moored (v.acted t call c r db' x') := by
  intro id e hfind hadrift
  rcases hevents id e hfind hadrift with ⟨e₀, hfind₀, hadrift₀⟩ | ⟨w, p, e', phase, rfl, rfl, halive⟩
  · obtain ⟨t', w, p, e', phase, hstage, halive⟩ := h id e₀ hfind₀ hadrift₀
    by_cases htt : t' = t
    · subst htt
      obtain ⟨rfl, rfl⟩ := Prod.mk.inj (Option.some.inj (hx.symm.trans hstage))
      rcases hholding w p id e' phase rfl rfl with ⟨e₁, phase₁, rfl⟩ | hashore
      · exact ⟨t', w, p, e₁, phase₁, View.stages_acted_self, halive⟩
      · exact absurd hadrift (hashore e hfind)
    · exact ⟨t', w, p, e', phase, (View.stages_acted_ne htt).trans hstage, halive⟩
  · exact ⟨t, w, p, e', phase, View.stages_acted_self, halive⟩

/-- A step that changes no event. -/
private theorem Moored.quiet (h : Moored v) (hx : v.stages t = some (call, x)) (hevents : db'.events = v.db.events)
    (hholding : ∀ w p id e phase, call = .process w p id → x = .holding e phase →
      (∃ e' phase', x' = .holding e' phase') ∨ ∀ e ∈ v.db.events.find id, ¬ e.Adrift) :
    Moored (v.acted t call c r db' x') := by
  refine h.acted hx (fun id e hfind hadrift => .inl ⟨e, ?_, hadrift⟩) ?_
  · rw [← hevents]
    exact hfind
  · rw [hevents]
    exact hholding

theorem Phase.Allows.lands {phase : Phase} {u : IngestEventUpdate} (h : phase.Allows u) : u.status ≠ .processing := by
  cases phase with
  | known | succeeded | buried =>
    rw [show u.status = _ from h]
    decide
  | failing | caught =>
    rw [h.1]
    decide
  | _ => exact h.elim

/-- An update that takes an event out of processing leaves only others adrift. -/
private theorem adrift_of_modified {c : IngestEvents} {u : IngestEventUpdate} {i : String} {e : IngestEvent}
    (hlands : u.status ≠ .processing) (hfind : (c.modify id u.apply u.keeps).find i = some e) (hadrift : e.Adrift) :
    c.find i = some e := by
  rw [Collection.find_modify] at hfind
  split at hfind
  · obtain ⟨e₀, -, rfl⟩ := Option.map_eq_some_iff.mp hfind
    exact absurd hadrift.1 hlands
  · exact hfind

private theorem Moored.work (h : Moored v) (hx : v.stages t = some (.process w p id, x))
    (htracks : x.Tracks v.db id) (halive : ¬ v.Crashed w)
    (hburied : ∀ d e, c = .createDLQ d → x = .holding e .caught → (d.invalid = [] ∧ v.db.dlq.Free d) ∨
      ∀ e ∈ v.db.events.find id, ¬ e.Adrift)
    (hwork : Work id v.db x c r db' x') : Moored (v.acted t (.process w p id) c r db' x') := by
  cases hwork with
  | idle x t₁ => exact h.quiet hx rfl fun _ _ _ e phase _ heq => .inl ⟨e, phase, heq⟩
  | claimed e hfind hclaimable =>
    refine h.acted hx (fun i e' hfind' hadrift => ?_) fun _ _ _ e phase _ heq => by cases heq
    by_cases hi : i = id
    · subst hi
      exact .inr ⟨w, p, e.claimed, .claimed, rfl, rfl, halive⟩
    · exact .inl ⟨e', (Collection.find_modify_ne hi _ IngestEvent.claimed_keeps).symm.trans hfind', hadrift⟩
  | updated e phase u hallows =>
    refine h.acted hx (fun i e' hfind' hadrift => .inl ⟨e', ?_, hadrift⟩) ?_
    · exact adrift_of_modified hallows.lands hfind' hadrift
    · rintro w' p' id' e₁ phase₁ hcall -
      obtain ⟨-, -, rfl⟩ := Call.process.inj hcall
      refine .inr fun e' hfind' hadrift => ?_
      have hself : (v.db.updateEvent id u).events.find id = (v.db.events.find id).map u.apply :=
        (Collection.find_modify id id u.apply u.keeps).trans (if_pos rfl)
      obtain ⟨e₀, -, rfl⟩ := Option.map_eq_some_iff.mp (hself.symm.trans hfind')
      exact hallows.lands hadrift.1
  | answered e handler r =>
    refine h.quiet hx rfl fun _ _ _ _ _ _ _ => .inl ?_
    cases r with
    | error error => exact ⟨e, .thrown, rfl⟩
    | ok response => exact ⟨e, _, rfl⟩
  | refused e phase d error hphase hd hrefused =>
    apply h.quiet hx rfl
    intro w' p' id' _ _ hcall _
    obtain ⟨-, -, rfl⟩ := Call.process.inj hcall
    by_cases hcaught : phase = .caught
    · subst hcaught
      rcases hburied d e rfl rfl with ⟨hvalid, hfree⟩ | hashore
      · exact absurd hfree (hrefused hvalid)
      · exact .inr hashore
    · refine .inl ⟨e, .thrown, ?_⟩
      cases phase <;> first | rfl | exact absurd rfl hcaught
  | vanished e hfind =>
    obtain ⟨e₀, hfind₀, -⟩ := htracks
    rw [hfind] at hfind₀
    cases hfind₀
  | missed => exact h.quiet hx rfl fun _ _ _ _ _ _ heq => by cases heq
  | recorded e t₁ hfree => exact h.quiet hx rfl fun _ _ _ _ _ _ heq => by cases heq
  | duplicated e t₁ r keyPattern text hfind => exact h.quiet hx rfl fun _ _ _ _ _ _ heq => by cases heq
  | _ => exact h.quiet hx rfl fun _ _ _ _ _ _ _ => .inl ⟨_, _, rfl⟩

private theorem Moored.feed (h : Moored v) (hx : v.stages t = some (call, .waiting))
    (hfeed : Feed call v.db c r db' x') : Moored (v.acted t call c r db' x') := by
  cases hfeed with
  | queued e hnew hvalid hfree =>
    refine h.acted hx (fun i e' hfind hadrift => .inl ⟨e', ?_, hadrift⟩) fun _ _ _ _ _ _ heq => by cases heq
    simp only [Collection.find_insert hfree] at hfind
    split at hfind
    · obtain rfl := Option.some.inj hfind
      have hstatus : e.status = .queued := (congrArg IngestEvent.status hnew).symm
      exact absurd (hstatus.symm.trans hadrift.1) (by decide)
    · exact hfind
  | requeued i now hreplay =>
    refine h.acted hx (fun i' e' hfind hadrift => .inl ⟨e', ?_, hadrift⟩) fun _ _ _ _ _ _ heq => by cases heq
    exact adrift_of_modified (fun hstatus => IngestEventStatus.noConfusion hstatus) hfind hadrift
  | _ => exact h.quiet hx rfl fun _ _ _ _ _ _ heq => by cases heq

variable {workers : ℕ → IngestWorker} {A : Schedule} {d : Db} {s : Run}

/-- Thread `t` has issued such a command. -/
private def Issued (log : List (Event Queue Call)) (t : ℕ) (q : Cmd → Bool) : Prop :=
  ∃ ev ∈ log, ev.thread = t ∧ q ev.cmd = true

/-- A call that holds an event has claimed it, and has read it again where it has thrown. -/
private def Stage.Logged (log : List (Event Queue Call)) (t : ℕ) : Stage → Prop
  | holding _ phase => Issued log t (·.claims.isSome) ∧ (phase = .caught → Issued log t Cmd.rereads)
  | marked _ => Issued log t (·.claims.isSome)
  | _ => True

private theorem Issued.cons {log : List (Event Queue Call)} {q : Cmd → Bool} (h : Issued log t q) (ev : Event Queue Call) :
    Issued (ev :: log) t q := by
  obtain ⟨ev', hmem, hthread, hq⟩ := h
  exact ⟨ev', .tail _ hmem, hthread, hq⟩

private theorem Stage.Logged.cons {log : List (Event Queue Call)} (h : x.Logged log t) (ev : Event Queue Call) :
    x.Logged (ev :: log) t := by
  cases x with
  | holding e phase => exact ⟨h.1.cons ev, fun hcaught => (h.2 hcaught).cons ev⟩
  | marked e =>
    have hissued : Issued log t (·.claims.isSome) := h
    exact hissued.cons ev
  | _ => trivial

private theorem Work.logged {db : Db} {log : List (Event Queue Call)} (h : Work id db x c r db' x')
    (hx : x.Logged log t) : x'.Logged (⟨t, .process w p id, c, r⟩ :: log) t := by
  have hcarried := hx.cons ⟨t, .process w p id, c, r⟩
  cases h with
  | idle x t₁ => exact hcarried
  | claimed e hfind hclaimable => exact ⟨⟨_, .head _, rfl, rfl⟩, fun hcaught => by cases hcaught⟩
  | answered e handler r =>
    cases r with
    | error error => exact ⟨hcarried.1, fun hcaught => by cases hcaught⟩
    | ok response =>
      refine ⟨hcarried.1, fun hcaught => ?_⟩
      split at hcaught <;> cases hcaught
  | updated e phase u hallows =>
    cases phase with
    | succeeded => exact hcarried.1
    | _ => trivial
  | refused e phase d error hphase hd hrefused =>
    cases phase with
    | caught => trivial
    | _ => exact ⟨hcarried.1, fun hcaught => by cases hcaught⟩
  | unrecorded e t₁ error hinvalid => exact ⟨hcarried, fun hcaught => by cases hcaught⟩
  | reread e e' hfind => exact ⟨hcarried.1, fun _ => ⟨_, .head _, rfl, rfl⟩⟩
  | known | checked | invoked | buried => exact ⟨hcarried.1, fun hcaught => by cases hcaught⟩
  | missed | recorded | duplicated | vanished => trivial

private theorem logged (h : (queue workers).Reaches A (.start d) s) :
    ∀ t w p id x, (view s).stages t = some (.process w p id, x) → x.Logged s.log t := by
  refine reaches_invariant (P := fun v => ∀ t w p id x, v.stages t = some (.process w p id, x) → x.Logged v.log t)
    h (by simp [View.start]) ?_ ?_ ?_
  · intro s t call _ _ _ ih t' w p id x hx
    rcases View.stages_spawned hx with ⟨-, -, rfl⟩ | ⟨-, hold⟩
    · trivial
    · exact ih t' w p id x hold
  · intro s t o w p id x c r db' x' _ _ _ hx hwork ih t' w' p' id' y hy
    rcases View.stages_acted hy with ⟨rfl, hcall, rfl⟩ | ⟨-, hold⟩
    · exact hwork.logged (ih t' w p id x hx)
    · exact (ih t' w' p' id' y hold).cons _
  · intro s t o call c r db' x' _ _ _ _ hfeed ih t' w p id y hy
    rcases View.stages_acted hy with ⟨-, -, rfl⟩ | ⟨-, hold⟩
    · cases hfeed <;> trivial
    · exact (ih t' w p id y hold).cons _

private theorem mem_history_of_issued {q : Cmd → Bool} (h : Issued s.log t q) : ∃ ev ∈ s.history t, q ev.cmd = true := by
  obtain ⟨ev, hmem, hthread, hq⟩ := h
  exact ⟨ev, (s.mem_history).mpr ⟨hmem, hthread⟩, hq⟩

/-- A call that holds an event is at work on it. -/
theorem busy_of_holding (h : (queue workers).Reaches A (.start d) s) {e : IngestEvent} {phase : Phase}
    (hx : (view s).stages t = some (.process w p id, .holding e phase)) : Busy s t := by
  refine ⟨?_, mem_history_of_issued (logged h t w p id _ hx).1⟩
  cases hr : s.result t with
  | none => rfl
  | some r =>
    have hends : (Call.process w p id).ends (.holding e phase) r := (working_kept workers).ends h hx hr
    cases r with
    | ok _ => cases hends
    | error _ =>
      obtain ⟨e', heq⟩ := hends
      cases heq

/-- A call that has thrown has read its event again. -/
theorem reread_of_caught (h : (queue workers).Reaches A (.start d) s) {e : IngestEvent}
    (hx : (view s).stages t = some (.process w p id, .holding e .caught)) :
    ∃ ev ∈ s.history t, ev.cmd.rereads = true := mem_history_of_issued ((logged h t w p id _ hx).2 rfl)

theorem Sheltered.working {l : Label Oracle Call} (h : Sheltered s l) : Working s l := by
  cases l with
  | spawn t call => exact h.1
  | run t o => exact h.1

private theorem moored (hd : ∀ e ∈ d.events.docs, ¬ e.Adrift)
    (h : (queue workers).Reaches Sheltered (.start d) s) : Moored (view s) := by
  refine reaches_invariant h ?_ ?_ ?_ ?_
  · exact fun id e hfind hadrift => absurd hadrift (hd e (Collection.mem_of_find hfind))
  · intro s t call hs hA hnone ih id e hfind hadrift
    obtain ⟨t', w, p, e', phase, hstage, halive⟩ := ih id e hfind hadrift
    refine ⟨t', w, p, e', phase, (Function.update_of_ne ?_ _ _).trans hstage, ?_⟩
    · rintro rfl
      rw [hnone] at hstage
      cases hstage
    · rintro ⟨⟨t₀, call₀⟩, hmem, hcrash⟩
      rcases List.mem_cons.mp hmem with heq | hold
      · obtain ⟨rfl, rfl⟩ := Prod.mk.inj heq
        have hspawned := hs.mem_spawns.mpr (Contract.calls_of_track hstage)
        exact hA.2 _ hspawned ⟨w, rfl, hcrash⟩ (busy_of_holding hs hstage) id rfl e hfind hadrift
      · exact halive ⟨_, hold, hcrash⟩
  · intro s t o w p id x c r db' x' hs hA hpending hx hwork ih
    have hspawned := hs.mem_spawns.mpr (Contract.calls_of_track hx)
    refine ih.work hx (tracked hs t w p id x hx) ?_ ?_ hwork
    · exact hA.working _ hspawned rfl w rfl
    · rintro d e rfl rfl
      rcases hA.2 _ hpending d rfl (reread_of_caught hs hx) with hstored | hashore
      · exact .inl hstored
      · exact .inr (hashore id rfl)
  · intro s t o call c r db' x' hs hA hpending hx hfeed ih
    exact ih.feed hx hfeed

/-- Every event is settled, attended by a call that lives, or found by each poll from some instant
on, as long as nothing that is adrift loses its call. Event ids are trimmed. -/
theorem no_stuck_event (h : (queue workers).Reaches Sheltered (.start d) s) (hd : ∀ e ∈ d.events.docs, ¬ e.Adrift) :
    ∀ e ∈ s.db.events.docs, e.status = .processed ∨ e.status = .dlq ∨ e.status = .rejected ∨
      Attended s e.id ∨ ∃ due, ∀ now, due ≤ now → e.eligible now = true := by
  intro e hmem
  cases hstatus : e.status with
  | processed => exact .inl rfl
  | dlq => exact .inr (.inl rfl)
  | rejected => exact .inr (.inr (.inl rfl))
  | queued => exact .inr (.inr (.inr (.inr ⟨0, fun now _ => by simp [IngestEvent.eligible, hstatus]⟩)))
  | processing =>
    cases hnext : e.nextAttemptAt with
    | some due =>
      refine .inr (.inr (.inr (.inr ⟨due, fun now hnow => ?_⟩)))
      simp [IngestEvent.eligible, hstatus, hnext, hnow]
    | none =>
      obtain ⟨t, w, p, e', phase, hstage, halive⟩ := moored hd h e.id e (Collection.find_of_mem hmem) ⟨hstatus, hnext⟩
      have hspawned := h.mem_spawns.mpr (Contract.calls_of_track hstage)
      refine .inr (.inr (.inr (.inl ⟨(t, .process w p e.id), hspawned, rfl, ?_, busy_of_holding h hstage⟩)))
      intro w' hw
      obtain rfl : w = w' := Option.some.inj hw
      exact halive

end invariant

section scenario

/-- A worker claims the event that has just arrived. -/
private def claimed : List (Label Oracle Call) :=
  [.spawn 0 samplePost] ++ turns [0, 0, 0] ++ [.spawn 1 (.poll 0)] ++ turns [1, 1] ++
    [.spawn 2 (.process 0 1 "event-1"), .run 2 sampleOracle]

/-- The first attempt throws, and the worker crashes in the second one: the event is
still found, since it has been scheduled for a retry. -/
private def crashedLater : List (Label Oracle Call) :=
  claimed ++ turns [2, 2] ++ turnsWith { sampleOracle with outcome := .error none } [2, 2, 2, 2, 2] ++
    [.spawn 3 (.poll 0)] ++ turns [3, 3] ++ [.spawn 4 (.process 0 3 "event-1"), .run 4 sampleOracle, .spawn 5 (.crash 0)]

theorem no_stuck_event_retried : ∃ s,
    (queue fun _ => ⟨["purchase"], ({} : WorkerOptions).config⟩).Reaches Sheltered (.start .empty) s ∧
      s.db.events.docs.map (fun e => (e.status, e.nextAttemptAt)) = [(.processing, some 2000)] ∧
      ∀ e ∈ s.db.events.docs, e.status = .processed ∨ e.status = .dlq ∨ e.status = .rejected ∨
        Attended s e.id ∨ ∃ due, ∀ now, due ≤ now → e.eligible now = true := by
  obtain ⟨s, hs, hfacts⟩ := Machine.exists_reaches (queue fun _ => ⟨["purchase"], ({} : WorkerOptions).config⟩)
    Sheltered (.start .empty) crashedLater (fun s => s.db.events.docs.map fun e => (e.status, e.nextAttemptAt))
    (a := [(.processing, some 2000)]) (by decide +kernel)
  exact ⟨s, hs, hfacts, no_stuck_event hs (fun e hmem => by cases hmem)⟩

/-- The worker crashes right after its first claim: no call is left and no poll will find
the event. -/
theorem event_stuck : ∃ s, (queue plainWorkers).Reaches Working (.start .empty) s ∧ ∃ e ∈ s.db.events.docs,
    e.status = .processing ∧ ¬ Attended s e.id ∧ ∀ now, e.eligible now = false := by
  obtain ⟨s, hs, hfacts⟩ := Machine.exists_reaches (queue plainWorkers) Working (.start .empty)
    (claimed ++ [.spawn 3 (.crash 0)])
    (fun s => s.db.events.docs.map fun e => (e.status, e.nextAttemptAt, decide (Attended s e.id)))
    (a := [(.processing, none, false)]) (by decide +kernel)
  obtain ⟨e, rest, hdocs⟩ : ∃ e rest, s.db.events.docs = e :: rest := by
    cases hdocs : s.db.events.docs with
    | nil => simp [hdocs] at hfacts
    | cons e rest => exact ⟨e, rest, rfl⟩
  rw [hdocs] at hfacts
  simp only [List.map_cons, List.cons.injEq, Prod.mk.injEq, decide_eq_false_iff_not] at hfacts
  obtain ⟨⟨hstatus, hnext, hunattended⟩, -⟩ := hfacts
  refine ⟨s, hs, e, by simp [hdocs], hstatus, hunattended, fun now => ?_⟩
  simp [IngestEvent.eligible, hstatus, hnext]

end scenario
end RedRoomRewards.Ingest
