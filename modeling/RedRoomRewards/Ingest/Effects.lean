import RedRoomRewards.Ingest.Protocol
import RedRoomRewards.Process.History

/-! What one command of a call does to the store and to the stage of its call, and an
induction over runs whose steps say just that. -/
namespace RedRoomRewards.Ingest
open Process Store IngestWorker

section effects

/-- A step of `processEvent` for the event `id`, from one stage to the next. -/
inductive Work (id : String) (db : Db) : Stage → (c : Cmd) → c.Reply → Db → Stage → Prop where
  | idle (x : Stage) (t : Time) : Work id db x .now t db x
  | missed : Work id db .waiting (.claim id) none db .finished
  | claimed (e : IngestEvent) (hfind : db.events.find id = some e) (hclaimable : e.claimable = true) :
      Work id db .waiting (.claim id) (some e.claimed)
        { db with events := db.events.modify id .claimed IngestEvent.claimed_keeps }
        (.holding e.claimed .claimed)
  | known (e : IngestEvent) (r : IdempotencyRecord)
      (hfind : db.records.find (e.eventId, ingestScope) = some r) :
      Work id db (.holding e .claimed) (.findRecord e.eventId ingestScope) (some r) db (.holding e .known)
  | checked (e : IngestEvent) (hfind : db.records.find (e.eventId, ingestScope) = none) :
      Work id db (.holding e .claimed) (.findRecord e.eventId ingestScope) none db (.holding e .checked)
  | invoked (e : IngestEvent) (handler : Handler) :
      Work id db (.holding e .checked) (.invoke handler (contextOf e)) () db (.holding e .handling)
  | answered (e : IngestEvent) (handler : Handler) (r : Except QueueError ProcessingResponse) :
      Work id db (.holding e .handling) (.respond handler (contextOf e)) r db
        ((Stage.holding e .handling).afterResponse r)
  | updated (e : IngestEvent) (phase : Phase) (u : IngestEventUpdate) (hallows : phase.Allows u) :
      Work id db (.holding e phase) (.updateEvent id u) () (db.updateEvent id u)
        (Stage.holding e phase).afterUpdate
  | buried (e : IngestEvent) (phase : Phase) (d : DLQEvent) (hphase : phase.Buries e) (hd : d.Of e)
      (hfree : db.dlq.Free d) :
      Work id db (.holding e phase) (.createDLQ d) (.ok d) { db with dlq := db.dlq.insert d }
        (.holding e .buried)
  | refused (e : IngestEvent) (phase : Phase) (d : DLQEvent) (error : QueueError)
      (hphase : phase.Buries e) (hd : d.Of e) (hrefused : d.invalid = [] → ¬ db.dlq.Free d) :
      Work id db (.holding e phase) (.createDLQ d) (.error error) db
        ((Stage.holding e phase).afterBurial (.error error))
  | recorded (e : IngestEvent) (t : Time) (hfree : db.records.Free (processedRecord e.eventId t)) :
      Work id db (.marked e) (.createRecord (processedRecord e.eventId t)) (.ok (processedRecord e.eventId t))
        { db with records := db.records.insert (processedRecord e.eventId t) } .finished
  | duplicated (e : IngestEvent) (t : Time) (r : IdempotencyRecord) (keyPattern : List String) (text : String)
      (hfind : db.records.find (e.eventId, ingestScope) = some r) :
      Work id db (.marked e) (.createRecord (processedRecord e.eventId t))
        (.error (.mongo (.duplicateKey keyPattern) text)) db .finished
  | unrecorded (e : IngestEvent) (t : Time) (error : QueueError)
      (hinvalid : (processedRecord e.eventId t).invalid ≠ []) :
      Work id db (.marked e) (.createRecord (processedRecord e.eventId t)) (.error error) db
        (.holding e .thrown)
  | reread (e e' : IngestEvent) (hfind : db.events.find id = some e') :
      Work id db (.holding e .thrown) (.findById id) (some e') db (.holding e' .caught)
  | vanished (e : IngestEvent) (hfind : db.events.find id = none) :
      Work id db (.holding e .thrown) (.findById id) none db .finished

/-- A step of a call that does not handle an event. -/
inductive Feed (call : Call) (db : Db) : (c : Cmd) → c.Reply → Db → Stage → Prop where
  | idle (c : Cmd) (r : c.Reply) (hfound : c.found r = []) (hinvokes : c.invokes = none)
      (hsucceeds : c.succeeds r = none) (hqueues : ∀ id, call.queues id c r = false) : Feed call db c r db .waiting
  | polled (now : Time) (limit : ℕ) (events : List IngestEvent) (hpoll : call.isPoll = true) :
      Feed call db (.findEligible now limit) events db .finished
  | queued (e : IngestEvent) (hnew : e.origin = e) (hvalid : e.invalid = []) (hfree : db.events.Free e) :
      Feed call db (.createEvent e) (.ok e) { db with events := db.events.insert e } .waiting
  | requeued (i : String) (now : Time) (hreplay : call.isReplay = true) :
      Feed call db (.updateEvent i (ReplayController.requeue now)) ()
        (db.updateEvent i (ReplayController.requeue now)) .waiting

/-- What a step of the given call does, from one stage to the next. -/
def Effect (call : Call) (db : Db) (x : Stage) (c : Cmd) (r : c.Reply) (db' : Db) (x' : Stage) : Prop :=
  match call with
  | .process _ _ id => Work id db x c r db' x'
  | call => x = .waiting ∧ Feed call db c r db' x'

private theorem described_cases {δ κ ι : Type} {key : δ → κ} {index : δ → ι} [DecidableEq κ] [DecidableEq ι]
    (text : String) (c : Collection δ κ ι key index) (d : δ) (invalid keyPattern : List String) :
    (invalid = [] ∧ c.Free d ∧ described text (create c d invalid keyPattern) = (.ok d, c.insert d)) ∨
    (invalid ≠ [] ∧ described text (create c d invalid keyPattern) = (.error (.mongo (.validation invalid) text), c)) ∨
    (¬ c.Free d ∧ described text (create c d invalid keyPattern) = (.error (.mongo (.duplicateKey keyPattern) text), c)) := by
  unfold described create
  by_cases hinvalid : invalid = []
  · by_cases hfree : c.Free d
    · exact .inl ⟨hinvalid, hfree, by simp [hinvalid, hfree, Except.mapError]⟩
    · exact .inr (.inr ⟨hfree, by simp [hinvalid, hfree, Except.mapError]⟩)
  · exact .inr (.inl ⟨hinvalid, by simp [hinvalid, Except.mapError]⟩)

private theorem work_of_may {id : String} {db : Db} {x : Stage} {c : Cmd} (o : Oracle) (h : x.MayWork id c) :
    Work id db x c (exec o db c).1 (exec o db c).2 (x.next c (exec o db c).1) := by
  cases c with
  | now => exact .idle x o.now
  | claim i =>
    obtain ⟨rfl, rfl⟩ := h
    simp only [exec, Db.claim]
    cases hfind : db.events.find i with
    | none => exact .missed
    | some e =>
      by_cases hclaimable : e.claimable = true
      · simp only [hclaimable, if_true]
        exact .claimed e hfind hclaimable
      · simp only [hclaimable]
        exact .missed
  | findRecord key eventScope =>
    obtain ⟨e, rfl, rfl, rfl⟩ := h
    simp only [exec]
    cases hfind : db.records.find (e.eventId, ingestScope) with
    | none => exact .checked e hfind
    | some r => exact .known e r hfind
  | invoke handler context =>
    obtain ⟨e, rfl, rfl⟩ := h
    exact .invoked e handler
  | respond handler context =>
    obtain ⟨e, rfl, rfl⟩ := h
    exact .answered e handler _
  | updateEvent i u =>
    obtain ⟨rfl, e, phase, rfl, hallows⟩ := h
    exact .updated e phase u hallows
  | createDLQ d =>
    obtain ⟨e, phase, rfl, hphase, hd⟩ := h
    simp only [exec]
    obtain ⟨hvalid, hfree, hok⟩ | ⟨hinvalid, herror⟩ | ⟨hnot, herror⟩ :=
      described_cases o.errorText db.dlq d d.invalid ["eventId"]
    · rw [hok]
      exact .buried e phase d hphase hd hfree
    · rw [herror]
      exact .refused e phase d _ hphase hd fun hvalid => absurd hvalid hinvalid
    · rw [herror]
      exact .refused e phase d _ hphase hd fun _ => hnot
  | createRecord r =>
    obtain ⟨e, t, rfl, rfl⟩ := h
    simp only [exec]
    obtain ⟨hvalid, hfree, hok⟩ | ⟨hinvalid, herror⟩ | ⟨hnot, herror⟩ :=
      described_cases o.errorText db.records (processedRecord e.eventId t) (processedRecord e.eventId t).invalid
        ["pointsIdempotencyKey", "eventScope"]
    · rw [hok]
      exact .recorded e t hfree
    · rw [herror]
      exact .unrecorded e t _ hinvalid
    · rw [herror]
      obtain ⟨r, hr⟩ := Option.ne_none_iff_exists'.mp fun hnone => hnot (Collection.free_iff_find.mpr hnone)
      exact .duplicated e t r _ _ hr
  | findById i =>
    obtain ⟨rfl, e, rfl⟩ := h
    simp only [exec]
    cases hfind : db.events.find i with
    | none => exact .vanished e hfind
    | some e' => exact .reread e e' hfind
  | _ => exact h.elim

private theorem feed_of_may {call : Call} {db : Db} {c : Cmd} (o : Oracle) (h : call.MayFeed c) :
    Feed call db c (exec o db c).1 (exec o db c).2 (Stage.waiting.next c (exec o db c).1) := by
  cases c with
  | findEligible now limit => exact .polled now limit _ h
  | createEvent e =>
    simp only [exec]
    obtain ⟨hvalid, hfree, hok⟩ | ⟨hinvalid, herror⟩ | ⟨hnot, herror⟩ :=
      described_cases o.errorText db.events e e.invalid ["eventId"]
    · rw [hok]
      exact .queued e h hvalid hfree
    · rw [herror]
      exact .idle _ _ rfl rfl rfl fun _ => rfl
    · rw [herror]
      exact .idle _ _ rfl rfl rfl fun _ => rfl
  | updateEvent i u =>
    obtain ⟨hreplay, now, rfl⟩ := h
    exact .requeued i now hreplay
  | now => exact .idle _ _ rfl rfl rfl fun _ => rfl
  | findDLQ q limit => exact .idle _ _ rfl rfl rfl fun _ => rfl
  | findRecord key eventScope => exact .idle _ _ rfl rfl rfl fun _ => rfl
  | findByEventId eventId => exact .idle _ _ rfl rfl rfl fun _ => rfl
  | objectId => exact .idle _ _ rfl rfl rfl fun _ => rfl
  | _ => exact h.elim

theorem effect_of_may {call : Call} (db : Db) {x : Stage} {c : Cmd} (o : Oracle) (h : call.may x c) :
    Effect call db x c (exec o db c).1 (exec o db c).2 (x.next c (exec o db c).1) := by
  cases call with
  | process w p id => exact work_of_may o h
  | _ =>
    obtain ⟨rfl, hmay⟩ := h
    exact ⟨rfl, feed_of_may o hmay⟩

end effects

section views

/-- What the invariants of a run are about: the store, how far each call has come, and
what has happened. -/
structure View where
  db : Db
  stages : ℕ → Option (Call × Stage)
  log : List (Event Queue Call)
  spawns : List (ℕ × Call)

def view (s : Run) : View := ⟨s.db, working.track s, s.log, s.spawns⟩

namespace View
variable (v : View)

def start (d : Db) : View := ⟨d, fun _ => none, [], []⟩

def spawned (t : ℕ) (call : Call) : View :=
  { v with stages := Function.update v.stages t (some (call, .waiting)), spawns := (t, call) :: v.spawns }

/-- Thread `t` has executed the command `c` of its call. -/
def acted (t : ℕ) (call : Call) (c : Cmd) (r : c.Reply) (db' : Db) (x' : Stage) : View where
  db := db'
  stages := Function.update v.stages t (some (call, x'))
  log := ⟨t, call, c, r⟩ :: v.log
  spawns := v.spawns

/-- How often a handler has returned `SUCCESS` for the event. -/
def successes (eventId : String) : ℕ := v.log.countP fun ev => ev.cmd.succeeds ev.reply = some eventId

variable {v}

theorem stages_spawned {t t' : ℕ} {call call' : Call} {x : Stage}
    (h : (v.spawned t call).stages t' = some (call', x)) :
    t' = t ∧ call' = call ∧ x = .waiting ∨ t' ≠ t ∧ v.stages t' = some (call', x) := by
  by_cases htt : t' = t
  · subst htt
    obtain ⟨rfl, rfl⟩ : call = call' ∧ Stage.waiting = x := by simpa [spawned] using h
    exact .inl ⟨rfl, rfl, rfl⟩
  · exact .inr ⟨htt, (Function.update_of_ne htt _ _).symm.trans h⟩

variable {t t' : ℕ} {call call' : Call} {c : Cmd} {r : c.Reply} {db' : Db} {x' y : Stage}

theorem stages_acted (h : (v.acted t call c r db' x').stages t' = some (call', y)) :
    t' = t ∧ call' = call ∧ y = x' ∨ t' ≠ t ∧ v.stages t' = some (call', y) := by
  by_cases htt : t' = t
  · subst htt
    obtain ⟨rfl, rfl⟩ : call = call' ∧ x' = y := by simpa [acted] using h
    exact .inl ⟨rfl, rfl, rfl⟩
  · exact .inr ⟨htt, (Function.update_of_ne htt _ _).symm.trans h⟩

@[simp] theorem stages_acted_self : (v.acted t call c r db' x').stages t = some (call, x') :=
  Function.update_self t _ _

theorem stages_acted_ne (htt : t' ≠ t) : (v.acted t call c r db' x').stages t' = v.stages t' :=
  Function.update_of_ne htt _ _

end View

variable {workers : ℕ → IngestWorker} {A : Schedule} {d : Db} {s : Run}

/-- Induction over runs: a call starts, or one goes on as its protocol lets it. -/
theorem reaches_effects {P : View → Prop} (h : (queue workers).Reaches A (.start d) s)
    (start : P (.start d))
    (spawn : ∀ s t call, (queue workers).Reaches A (.start d) s → A s (.spawn t call) →
      (view s).stages t = none → P (view s) → P ((view s).spawned t call))
    (act : ∀ s t o call x c, (queue workers).Reaches A (.start d) s → A s (.run t o) →
      s.pending t = some (call, c) → (view s).stages t = some (call, x) →
      Effect call s.db x c (exec o s.db c).1 (exec o s.db c).2 (x.next c (exec o s.db c).1) → P (view s) →
      P ((view s).acted t call c (exec o s.db c).1 (exec o s.db c).2 (x.next c (exec o s.db c).1))) :
    P (view s) := by
  induction h using Machine.Reaches.by_steps with
  | start => exact start
  | spawn s t call hs hA ht ih =>
    have hview : view ((queue workers).spawned s t call) = (view s).spawned t call := by
      rw [view, Contract.track_spawned hs ht]
      rfl
    rw [hview]
    refine spawn s t call hs hA ?_ ih
    simp [view, Contract.track, State.calls, ht]
  | act s t o call c k hs hA ht ih =>
    have hview : view ((queue workers).acted s t o call c k) =
        (view s).acted t call c (exec o s.db c).1 (exec o s.db c).2
          ((working.record call (s.history t)).next c (exec o s.db c).1) := by
      rw [view, Contract.track_acted ht]
      rfl
    have hpending : s.pending t = some (call, c) := by simp [State.pending, ht]
    rw [hview]
    exact act s t o call _ c hs hA hpending (Contract.track_of_thread ht)
      (effect_of_may s.db o ((working_kept workers).may hs ht)) ih
  | restart s t o call c hs hA ht ih =>
    have hview : view ((queue workers).restarted s t call c) = view s := by
      rw [view, Contract.track_restarted ht]
      rfl
    rw [hview]
    exact ih

/-- Induction over runs: a call starts, `processEvent` goes on, or another call does. -/
theorem reaches_invariant {P : View → Prop} (h : (queue workers).Reaches A (.start d) s)
    (start : P (.start d))
    (spawn : ∀ s t call, (queue workers).Reaches A (.start d) s → A s (.spawn t call) →
      (view s).stages t = none → P (view s) → P ((view s).spawned t call))
    (work : ∀ s t o w p id x c r db' x', (queue workers).Reaches A (.start d) s → A s (.run t o) →
      s.pending t = some (.process w p id, c) → (view s).stages t = some (.process w p id, x) →
      Work id s.db x c r db' x' → P (view s) → P ((view s).acted t (.process w p id) c r db' x'))
    (feed : ∀ s t o call c r db' x', (queue workers).Reaches A (.start d) s → A s (.run t o) →
      s.pending t = some (call, c) → (view s).stages t = some (call, .waiting) →
      Feed call s.db c r db' x' → P (view s) → P ((view s).acted t call c r db' x')) : P (view s) := by
  apply reaches_effects h start spawn
  intro s t o call x c hs hA hpending hstage heffect ih
  cases call with
  | process w p id => exact work s t o w p id x c _ _ _ hs hA hpending hstage heffect ih
  | _ =>
    obtain ⟨rfl, hfeed⟩ := heffect
    exact feed s t o _ c _ _ _ hs hA hpending hstage hfeed ih

end views
end RedRoomRewards.Ingest
