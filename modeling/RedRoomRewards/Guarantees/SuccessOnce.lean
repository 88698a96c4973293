import RedRoomRewards.Guarantees.NothingLost
import RedRoomRewards.Ingest.Batches

/-! With one poll loop, an event that has been handled with success is never handled
again, however many replays queue it. -/
namespace RedRoomRewards.Ingest
open Process Store IngestWorker

section invariant

/-- The call tries an event that had no idempotency record when it was looked up. -/
def Stage.Tries (e : IngestEvent) : Stage → Prop
  | holding e' .checked | holding e' .handling => e' = e
  | _ => False

/-- The call has yet to store the idempotency record of its event. -/
def Stage.Owes (e : IngestEvent) : Stage → Prop
  | holding e' .succeeded | marked e' => e' = e
  | _ => False

def Db.Recorded (db : Db) (eventId : String) : Prop := ∃ r, db.records.find (eventId, ingestScope) = some r

/-- After a success for an event, neither an invocation of its handler nor a success. -/
def Silent (later earlier : Event Queue Call) : Prop := ∀ eventId,
  earlier.cmd.succeeds earlier.reply = some eventId →
    later.cmd.invokes ≠ some eventId ∧ later.cmd.succeeds later.reply ≠ some eventId

/-- What has succeeded has its record or is about to get it, and is not tried. -/
structure Settling (v : View) : Prop where
  recorded : ∀ eventId, Succeeded v.log eventId → v.db.Recorded eventId ∨
    ∃ t w p id x e, v.stages t = some (.process w p id, x) ∧ x.Owes e ∧ e.eventId = eventId
  untried : ∀ t w p id x e, v.stages t = some (.process w p id, x) → x.Tries e → ¬ Succeeded v.log e.eventId
  silent : v.log.Pairwise Silent

variable {v : View} {t w p : ℕ} {id : String} {call : Call} {c : Cmd} {r : c.Reply} {db db' : Db} {x x' : Stage}
variable {e : IngestEvent}

theorem Stage.Tries.knows (h : x.Tries e) : x.Knows e := by
  cases x with
  | holding e' phase =>
    cases phase with
    | checked | handling => exact h
    | _ => exact h.elim
  | _ => exact h.elim

theorem Stage.Owes.knows (h : x.Owes e) : x.Knows e := by
  cases x with
  | holding e' phase =>
    cases phase with
    | succeeded => exact h
    | _ => exact h.elim
  | marked e' => exact h
  | _ => exact h.elim

theorem succeeded_cons {ev : Event Queue Call} {log : List (Event Queue Call)} {eventId : String} :
    Succeeded (ev :: log) eventId ↔ ev.cmd.succeeds ev.reply = some eventId ∨ Succeeded log eventId := by
  simp [Succeeded]

private theorem Db.Recorded.grows {eventId : String} (h : db.Recorded eventId) (hgrows : db.Grows db') :
    db'.Recorded eventId := by
  obtain ⟨r, hfind⟩ := h
  exact ⟨r, hgrows.records _ r hfind⟩

/-- A step that is no success: an invocation only of what has not succeeded, an attempt
only at what has not, and a debt that is kept or paid. -/
private theorem Settling.quiet (h : Settling v) (hx : v.stages t = some (call, x)) (hgrows : v.db.Grows db')
    (hsucceeds : c.succeeds r = none) (hinvokes : ∀ eventId, c.invokes = some eventId → ¬ Succeeded v.log eventId)
    (htries : ∀ e, x'.Tries e → ¬ Succeeded v.log e.eventId)
    (howes : ∀ e, x.Owes e → x'.Owes e ∨ db'.Recorded e.eventId) : Settling (v.acted t call c r db' x') := by
  have hsame : ∀ eventId, Succeeded (v.acted t call c r db' x').log eventId ↔ Succeeded v.log eventId := by
    intro eventId
    refine succeeded_cons.trans ⟨fun hor => hor.resolve_left ?_, .inr⟩
    simp [hsucceeds]
  refine ⟨fun eventId hsucceeded => ?_, fun t' w p id y e hy htry => ?_, ?_⟩
  · rcases h.recorded eventId ((hsame eventId).mp hsucceeded) with hrecord | ⟨t', w, p, id, y, e, hy, howe, rfl⟩
    · exact .inl (hrecord.grows hgrows)
    · by_cases htt : t' = t
      · subst htt
        obtain ⟨rfl, rfl⟩ := Prod.mk.inj (Option.some.inj (hx.symm.trans hy))
        rcases howes e howe with hkept | hpaid
        · exact .inr ⟨t', w, p, id, x', e, View.stages_acted_self, hkept, rfl⟩
        · exact .inl hpaid
      · exact .inr ⟨t', w, p, id, y, e, (View.stages_acted_ne htt).trans hy, howe, rfl⟩
  · rw [hsame]
    rcases View.stages_acted hy with ⟨-, -, rfl⟩ | ⟨-, hold⟩
    · exact htries e htry
    · exact h.untried t' w p id y e hold htry
  · refine List.pairwise_cons.mpr ⟨fun ev hmem eventId hsucceeded => ⟨fun hinvoke => ?_, ?_⟩, h.silent⟩
    · exact hinvokes eventId hinvoke ⟨ev, hmem, hsucceeded⟩
    · simp [hsucceeds]

/-- A handler succeeds for an event that no other call is at work on. -/
private theorem Settling.succeeded {handler : Handler} {response : ProcessingResponse} (h : Settling v)
    (hx : v.stages t = some (.process w p id, .holding e .handling))
    (halone : ∀ t' w' p' id' y e', v.stages t' = some (.process w' p' id', y) → y.Knows e' →
      e'.eventId = e.eventId → t' = t) (hsuccess : response.result = .success) :
    Settling (v.acted t (.process w p id) (.respond handler (contextOf e)) (.ok response) v.db
      (.holding e .succeeded)) := by
  have hbefore := h.untried t w p id _ e hx rfl
  have hnew : Cmd.succeeds (.respond handler (contextOf e)) (.ok response) = some e.eventId := if_pos hsuccess
  have hself : (v.acted t (.process w p id) (.respond handler (contextOf e)) (.ok response) v.db
      (.holding e .succeeded)).stages t = some (.process w p id, .holding e .succeeded) := View.stages_acted_self
  refine ⟨fun eventId hsucceeded => ?_, fun t' w' p' id' y e' hy htry => ?_, ?_⟩
  · rcases succeeded_cons.mp hsucceeded with hthis | hearlier
    · obtain rfl : e.eventId = eventId := Option.some.inj (hnew.symm.trans hthis)
      exact .inr ⟨t, w, p, id, _, e, hself, rfl, rfl⟩
    · rcases h.recorded eventId hearlier with hrecord | ⟨t', w', p', id', y, e', hy, howe, heq⟩
      · exact .inl hrecord
      · refine .inr ⟨t', w', p', id', y, e', (View.stages_acted_ne ?_).trans hy, howe, heq⟩
        rintro rfl
        rw [hx] at hy
        cases hy
        exact howe.elim
  · rcases View.stages_acted hy with ⟨-, -, rfl⟩ | ⟨hne, hold⟩
    · exact htry.elim
    · intro hsucceeded
      rcases succeeded_cons.mp hsucceeded with hthis | hearlier
      · have hsame : e.eventId = e'.eventId := Option.some.inj (hnew.symm.trans hthis)
        exact hne (halone t' w' p' id' y e' hold htry.knows hsame.symm)
      · exact h.untried t' w' p' id' y e' hold htry hearlier
  · refine List.pairwise_cons.mpr ⟨fun ev hmem eventId hsucceeded => ⟨?_, fun hthis => ?_⟩, h.silent⟩
    · simp [Cmd.invokes]
    · obtain rfl : e.eventId = eventId := Option.some.inj (hnew.symm.trans hthis)
      exact hbefore ⟨ev, hmem, hsucceeded⟩

private theorem Settling.work (h : Settling v) (hx : v.stages t = some (.process w p id, x))
    (htracks : x.Tracks v.db id) (hids : v.db.Identified)
    (halone : ∀ e, x.Knows e → ∀ t' w' p' id' y e', v.stages t' = some (.process w' p' id', y) → y.Knows e' →
      e'.eventId = e.eventId → t' = t) (hwork : Work id v.db x c r db' x') :
    Settling (v.acted t (.process w p id) c r db' x') := by
  have hgrows := hwork.grows
  cases hwork with
  | idle x t₁ =>
    refine h.quiet hx hgrows rfl (fun _ heq => by cases heq) (fun e htry => ?_) fun e howe => .inl howe
    exact h.untried t w p id x e hx htry
  | checked e hfind =>
    refine h.quiet hx hgrows rfl (fun _ heq => by cases heq) ?_ fun _ howe => howe.elim
    rintro _ rfl hsucceeded
    rcases h.recorded e.eventId hsucceeded with ⟨r, hrecord⟩ | ⟨t', w', p', id', y, e', hy, howe, hsame⟩
    · rw [hfind] at hrecord
      cases hrecord
    · obtain rfl := halone e rfl t' w' p' id' y e' hy howe.knows hsame
      rw [hx] at hy
      cases hy
      exact howe.elim
  | invoked e handler =>
    have hbefore := h.untried t w p id _ e hx rfl
    refine h.quiet hx hgrows rfl ?_ ?_ fun _ howe => howe.elim
    · intro eventId heq
      exact (Option.some.inj heq : e.eventId = eventId) ▸ hbefore
    · rintro _ rfl
      exact hbefore
  | answered e handler r =>
    cases r with
    | error error => exact h.quiet hx hgrows rfl (fun _ heq => by cases heq) (fun _ htry => htry.elim) fun _ howe => howe.elim
    | ok response =>
      rw [Stage.afterResponse]
      by_cases hsuccess : response.result = .success
      · rw [if_pos hsuccess]
        exact h.succeeded hx (halone e rfl) hsuccess
      · rw [if_neg hsuccess]
        refine h.quiet hx hgrows (if_neg hsuccess) (fun _ heq => by cases heq) (fun _ htry => htry.elim) ?_
        exact fun _ howe => howe.elim
  | updated e phase u hallows =>
    refine h.quiet hx hgrows rfl (fun _ heq => by cases heq) ?_ ?_
    · intro e' htry
      cases phase <;> exact htry.elim
    · intro e' howe
      cases phase with
      | succeeded => exact .inl howe
      | _ => exact howe.elim
  | buried e phase d hphase hd hfree =>
    refine h.quiet hx hgrows rfl (fun _ heq => by cases heq) (fun _ htry => htry.elim) fun e' howe => ?_
    cases phase with
    | succeeded => exact hphase.elim
    | _ => exact howe.elim
  | refused e phase d error hphase hd hrefused =>
    refine h.quiet hx hgrows rfl (fun _ heq => by cases heq) ?_ ?_
    · intro e' htry
      cases phase <;> exact htry.elim
    · intro e' howe
      cases phase with
      | succeeded => exact hphase.elim
      | _ => exact howe.elim
  | recorded e t₁ hfree =>
    refine h.quiet hx hgrows rfl (fun _ heq => by cases heq) (fun _ htry => htry.elim) ?_
    rintro _ rfl
    exact .inr ⟨_, Collection.find_of_mem ((Collection.mem_insert hfree).mpr (.inr rfl))⟩
  | duplicated e t₁ r keyPattern text hfind =>
    refine h.quiet hx hgrows rfl (fun _ heq => by cases heq) (fun _ htry => htry.elim) ?_
    rintro _ rfl
    exact .inr ⟨r, hfind⟩
  | unrecorded e t₁ error hinvalid =>
    obtain ⟨e₀, hfind, horigin⟩ := htracks
    refine absurd (processedRecord_valid ?_ t₁) hinvalid
    rw [← IngestEvent.eventId_of_origin horigin]
    exact hids.find hfind
  | _ =>
    exact h.quiet hx hgrows rfl (fun _ heq => by cases heq) (fun _ htry => htry.elim) fun _ howe => howe.elim

private theorem Settling.feed (h : Settling v) (hx : v.stages t = some (call, .waiting))
    (hfeed : Feed call v.db c r db' x') : Settling (v.acted t call c r db' x') := by
  have hgrows := hfeed.grows
  cases hfeed with
  | idle c r hfound hinvokes hsucceeds hqueues =>
    refine h.quiet hx hgrows hsucceeds (fun _ heq => ?_) (fun _ htry => htry.elim) fun _ howe => howe.elim
    rw [hinvokes] at heq
    cases heq
  | _ =>
    exact h.quiet hx hgrows rfl (fun _ heq => by cases heq) (fun _ htry => htry.elim) fun _ howe => howe.elim

variable {workers : ℕ → IngestWorker} {d : Db} {s : Run}

private theorem settling (hd : d.Identified) (h : (queue workers).Reaches (OneLoop w) (.start d) s) :
    Settling (view s) := by
  refine reaches_invariant h ⟨?_, ?_, .nil⟩ ?_ ?_ ?_
  · rintro eventId ⟨ev, hmem, -⟩
    cases hmem
  · intro t w p id x e hstage
    cases hstage
  · intro s t call hs hA hnone ih
    refine ⟨fun eventId hsucceeded => ?_, fun t' w p id y e hy htry => ?_, ih.silent⟩
    · rcases ih.recorded eventId hsucceeded with hrecord | ⟨t', w, p, id, y, e, hy, howe, heq⟩
      · exact .inl hrecord
      · refine .inr ⟨t', w, p, id, y, e, (Function.update_of_ne ?_ _ _).trans hy, howe, heq⟩
        rintro rfl
        rw [hnone] at hy
        cases hy
    · rcases View.stages_spawned hy with ⟨-, -, rfl⟩ | ⟨-, hold⟩
      · exact htry.elim
      · exact ih.untried t' w p id y e hold htry
  · intro s t o w' p id x c r db' x' hs hA hpending hx hwork ih
    refine ih.work hx (tracked hs t w' p id x hx) (identified hd hs) ?_ hwork
    intro e hknown t' w₂ p₂ id₂ y e' hy hknown' hsame
    exact at_work_alone hs hy hx hknown' hknown hsame
  · intro s t o call c r db' x' hs hA hpending hx hfeed ih
    exact ih.feed hx hfeed

private theorem countP_le_one {α : Type} {R : α → α → Prop} {q : α → Bool} {l : List α} (h : l.Pairwise R)
    (hR : ∀ a b, R a b → q b = true → q a = false) : l.countP q ≤ 1 := by
  induction l with
  | nil => exact Nat.zero_le 1
  | cons a l ih =>
    obtain ⟨hhead, htail⟩ := List.pairwise_cons.mp h
    rw [List.countP_cons]
    by_cases hq : q a = true
    · have hnone : l.countP q = 0 := by
        apply List.countP_eq_zero.mpr
        intro b hmem hqb
        rw [hR a b (hhead b hmem) hqb] at hq
        cases hq
      rw [hnone, if_pos hq]
    · rw [if_neg hq]
      exact ih htail

/-- With one poll loop and any replays, a handler succeeds for an event at most once and is never
invoked for it afterwards. The log has the newest first. Event ids are trimmed. -/
theorem success_once (h : (queue workers).Reaches (OneLoop w) (.start d) s) (hd : d.Identified) :
    (∀ eventId, successes s eventId ≤ 1) ∧ s.log.Pairwise fun later earlier => ∀ eventId,
      earlier.cmd.succeeds earlier.reply = some eventId → later.cmd.invokes ≠ some eventId := by
  have hsettling := settling hd h
  constructor
  · intro eventId
    apply countP_le_one hsettling.silent
    intro later earlier hsilent hearlier
    simpa using (hsilent eventId (by simpa using hearlier)).2
  · exact hsettling.silent.imp fun hsilent eventId hsucceeded => (hsilent eventId hsucceeded).1

end invariant

section scenario

/-- The first attempt fails for good, and two replays find the dead letter. One of them queues the
event, which is handled with success then; the other one queues it once more. -/
private def queuedTwice : List (Label Oracle Call) :=
  [.spawn 0 samplePost] ++ turns [0, 0, 0] ++ [.spawn 1 (.poll 0)] ++ turns [1, 1] ++
    [.spawn 2 (.process 0 1 "event-1")] ++
    turnsWith { sampleOracle with outcome := .ok ⟨.nonRetryableFailure, none, none⟩ } [2, 2, 2, 2, 2, 2, 2, 2, 2] ++
    [.spawn 3 (.replay {}), .spawn 4 (.replay {})] ++ turns [3, 3, 3, 3, 4, 4, 4, 4, 3] ++
    [.spawn 5 (.poll 0)] ++ turns [5, 5] ++ [.spawn 6 (.process 0 5 "event-1")] ++ turns [6, 6, 6, 6, 6, 6, 6] ++
    turns [4]

/-- The event is claimed a third time, and its record is found. -/
private def retried : List (Label Oracle Call) :=
  queuedTwice ++ [.spawn 7 (.poll 0)] ++ turns [7, 7] ++ [.spawn 8 (.process 0 7 "event-1")] ++ turns [8, 8, 8]

theorem success_once_retried : ∃ s,
    (queue fun _ => ⟨["purchase"], ({} : WorkerOptions).config⟩).Reaches (OneLoop 0) (.start .empty) s ∧
      ((queue fun _ => ⟨["purchase"], ({} : WorkerOptions).config⟩).executeIn (OneLoop 0) (.start .empty)
        queuedTwice).map (fun s => (successes s "evt-1", s.db.events.docs.map (·.status))) = some (1, [.queued]) ∧
      successes s "evt-1" = 1 ∧ (∀ eventId, successes s eventId ≤ 1) ∧
      s.log.Pairwise fun later earlier => ∀ eventId,
        earlier.cmd.succeeds earlier.reply = some eventId → later.cmd.invokes ≠ some eventId := by
  obtain ⟨s, hs, hone⟩ := Machine.exists_reaches (queue fun _ => ⟨["purchase"], ({} : WorkerOptions).config⟩)
    (OneLoop 0) (.start .empty) retried (fun s => successes s "evt-1") (a := 1) (by decide +kernel)
  exact ⟨s, hs, by decide +kernel, hone, success_once hs (fun e hmem => by cases hmem)⟩

end scenario
end RedRoomRewards.Ingest
