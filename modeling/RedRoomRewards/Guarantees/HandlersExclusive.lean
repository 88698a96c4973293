import RedRoomRewards.Ingest.Events
import RedRoomRewards.Process.Execution

/-! When two handlers never run for one event, and none succeeds twice. -/
namespace RedRoomRewards.Ingest
open Process Store IngestWorker

section condition

/-- The event that a command claims. -/
def Cmd.claims : Cmd → Option String
  | .claim id => some id
  | _ => none

/-- Workers and arriving events; nothing is replayed. -/
def Unreplayed : Schedule
  | s, .spawn t call => Working s (.spawn t call) ∧ call.isReplay = false
  | s, .run t o => Working s (.run t o)

/-- No claim finds its event in processing. -/
def ClaimsQueued : Schedule
  | s, .spawn t call => Unreplayed s (.spawn t call)
  | s, .run t o => Unreplayed s (.run t o) ∧ ∀ x ∈ s.pending t, ∀ id ∈ x.2.claims, ∀ e ∈ s.db.events.find id,
      e.status ≠ .processing

instance (s : Run) (l : Label Oracle Call) : Decidable (Unreplayed s l) :=
  match l with
  | .spawn .. | .run .. => by dsimp only [Unreplayed]; infer_instance

instance (s : Run) (l : Label Oracle Call) : Decidable (ClaimsQueued s l) :=
  match l with
  | .spawn .. | .run .. => by dsimp only [ClaimsQueued]; infer_instance

end condition

section invariant
variable {v : View} {t t' w p : ℕ} {id : String} {phase phase' : Phase}

/-- Thread `t` has claimed the event, and nothing has been decided about it. -/
def View.Holds (v : View) (t : ℕ) (id : String) (phase : Phase) : Prop :=
  ∃ w p e, v.stages t = some (.process w p id, .holding e phase)

/-- An event is in processing while it is held, and only one call holds it; a handler has
succeeded for it at most once, after which it is processed or about to be. -/
structure Exclusive (v : View) : Prop where
  held : ∀ t id phase, v.Holds t id phase → ∃ e, v.db.events.find id = some e ∧ e.status = .processing
  single : ∀ t t' id phase phase', v.Holds t id phase → v.Holds t' id phase' → t = t'
  counted : ∀ id e, v.db.events.find id = some e → v.successes e.eventId = 0 ∨
    v.successes e.eventId = 1 ∧ (e.status = .processed ∨ ∃ t, v.Holds t id .succeeded)
  foreign : ∀ eventId, (∀ e ∈ v.db.events.docs, e.eventId ≠ eventId) → v.successes eventId = 0

theorem View.successes_acted (v : View) (t : ℕ) (call : Call) (c : Cmd) (r : c.Reply) (db' : Db) (x' : Stage)
    (eventId : String) : (v.acted t call c r db' x').successes eventId =
      v.successes eventId + if c.succeeds r = some eventId then 1 else 0 := by
  simp [successes, acted, List.countP_cons]

variable {call : Call} {c : Cmd} {r : c.Reply} {db' : Db} {x x' : Stage}

private theorem holds_acted (h : (v.acted t call c r db' x').Holds t' id phase) :
    (t' = t ∧ ∃ w p e, call = .process w p id ∧ x' = .holding e phase) ∨ (t' ≠ t ∧ v.Holds t' id phase) := by
  obtain ⟨w, p, e, hstage⟩ := h
  rcases View.stages_acted hstage with ⟨rfl, rfl, rfl⟩ | ⟨hne, hold⟩
  · exact .inl ⟨rfl, w, p, e, rfl, rfl⟩
  · exact .inr ⟨hne, w, p, e, hold⟩

private theorem holds_acted_ne (hne : t' ≠ t) (h : v.Holds t' id phase) :
    (v.acted t call c r db' x').Holds t' id phase := by
  obtain ⟨w, p, e, hstage⟩ := h
  exact ⟨w, p, e, (View.stages_acted_ne hne).trans hstage⟩

/-- A call holds the event that it processes, in the phase its stage says. -/
private theorem holds_stage (hx : v.stages t = some (call, x)) (h : v.Holds t id phase) :
    ∃ w p e, call = .process w p id ∧ x = .holding e phase := by
  obtain ⟨w, p, e, hstage⟩ := h
  obtain ⟨hcall, hstage⟩ := Prod.mk.inj (Option.some.inj (hx.symm.trans hstage))
  exact ⟨w, p, e, hcall, hstage⟩

/-- The success counted for an event is kept by a step of another thread than the one that has made it. -/
private theorem Exclusive.counted_kept {e : IngestEvent} (h : Exclusive v) (hfind : v.db.events.find id = some e)
    (hself : ¬ v.Holds t id .succeeded) :
    v.successes e.eventId = 0 ∨ v.successes e.eventId = 1 ∧
      (e.status = .processed ∨ ∃ t', (v.acted t call c r db' x').Holds t' id .succeeded) := by
  rcases h.counted id e hfind with hzero | ⟨hone, hdone | ⟨t', hholds⟩⟩
  · exact .inl hzero
  · exact .inr ⟨hone, .inl hdone⟩
  · have hne : t' ≠ t := fun heq => hself (heq ▸ hholds)
    exact .inr ⟨hone, .inr ⟨t', holds_acted_ne hne hholds⟩⟩

/-- A step that changes no event and counts no success, by a thread that holds an event
afterwards only if it has held it before. -/
private theorem Exclusive.quiet (h : Exclusive v) (hx : v.stages t = some (call, x))
    (hevents : db'.events = v.db.events) (hsucceeds : c.succeeds r = none)
    (hholding : ∀ e' phase', x' = .holding e' phase' → ∃ e phase, x = .holding e phase)
    (hsucceeded : ∀ e, x = .holding e .succeeded → ∃ e', x' = .holding e' .succeeded) :
    Exclusive (v.acted t call c r db' x') := by
  have hbefore : ∀ t' id phase', (v.acted t call c r db' x').Holds t' id phase' → ∃ phase, v.Holds t' id phase := by
    intro t' id phase' hholds
    rcases holds_acted hholds with ⟨rfl, w, p, e', rfl, rfl⟩ | ⟨-, hold⟩
    · obtain ⟨e, phase, rfl⟩ := hholding e' phase' rfl
      exact ⟨phase, w, p, e, hx⟩
    · exact ⟨phase', hold⟩
  have hsuccesses : ∀ eventId, (v.acted t call c r db' x').successes eventId = v.successes eventId := by
    intro eventId
    rw [View.successes_acted, hsucceeds, if_neg (by simp), Nat.add_zero]
  refine ⟨fun t' id phase' hholds => ?_, fun t₁ t₂ id phase₁ phase₂ h₁ h₂ => ?_, fun id e hfind => ?_, fun eventId hnone => ?_⟩
  · obtain ⟨phase, hold⟩ := hbefore t' id phase' hholds
    obtain ⟨e, hfind, hstatus⟩ := h.held t' id phase hold
    exact ⟨e, (congrArg (·.find id) hevents).trans hfind, hstatus⟩
  · obtain ⟨phase₁', hold₁⟩ := hbefore t₁ id phase₁ h₁
    obtain ⟨phase₂', hold₂⟩ := hbefore t₂ id phase₂ h₂
    exact h.single t₁ t₂ id phase₁' phase₂' hold₁ hold₂
  · rw [hsuccesses]
    have hfind' : v.db.events.find id = some e := (congrArg (·.find id) hevents).symm.trans hfind
    rcases h.counted id e hfind' with hzero | ⟨hone, hdone | ⟨t', hholds⟩⟩
    · exact .inl hzero
    · exact .inr ⟨hone, .inl hdone⟩
    · refine .inr ⟨hone, .inr ⟨t', ?_⟩⟩
      by_cases htt : t' = t
      · subst htt
        obtain ⟨w, p, e, rfl, rfl⟩ := holds_stage hx hholds
        obtain ⟨e', rfl⟩ := hsucceeded e rfl
        exact ⟨w, p, e', View.stages_acted_self⟩
      · exact holds_acted_ne htt hholds
  · rw [hsuccesses]
    exact h.foreign eventId fun e he => hnone e (hevents ▸ he)

/-- Nobody holds the event that a claim finds out of processing. -/
private theorem Exclusive.claimed {e : IngestEvent} (h : Exclusive v)
    (hx : v.stages t = some (.process w p id, .waiting)) (hfind : v.db.events.find id = some e)
    (hstatus : e.status = .queued) :
    Exclusive (v.acted t (.process w p id) (.claim id) (some e.claimed)
      { v.db with events := v.db.events.modify id .claimed IngestEvent.claimed_keeps }
      (.holding e.claimed .claimed)) := by
  have hfree : ∀ t' phase, ¬ v.Holds t' id phase := by
    intro t' phase hholds
    obtain ⟨e₀, hfind₀, hprocessing⟩ := h.held t' id phase hholds
    obtain rfl := Option.some.inj (hfind₀.symm.trans hfind)
    rw [hstatus] at hprocessing
    cases hprocessing
  have hbefore : ∀ t' id' phase', (v.acted t (.process w p id) (.claim id) (some e.claimed)
      { v.db with events := v.db.events.modify id .claimed IngestEvent.claimed_keeps }
      (.holding e.claimed .claimed)).Holds t' id' phase' → t' = t ∧ id' = id ∨ id' ≠ id ∧ v.Holds t' id' phase' := by
    intro t' id' phase' hholds
    rcases holds_acted hholds with ⟨rfl, w', p', e', hcall, -⟩ | ⟨-, hold⟩
    · exact .inl ⟨rfl, (Call.process.inj hcall).2.2.symm⟩
    · exact .inr ⟨fun hid => hfree t' phase' (hid ▸ hold), hold⟩
  have hsuccesses : ∀ eventId, (v.acted t (.process w p id) (.claim id) (some e.claimed)
      { v.db with events := v.db.events.modify id .claimed IngestEvent.claimed_keeps }
      (.holding e.claimed .claimed)).successes eventId = v.successes eventId := fun eventId =>
    View.successes_acted v t _ (.claim id) _ _ _ eventId
  refine ⟨fun t' id' phase' hholds => ?_, fun t₁ t₂ id' phase₁ phase₂ h₁ h₂ => ?_, fun id' e' hfind' => ?_,
    fun eventId hnone => ?_⟩
  · rcases hbefore t' id' phase' hholds with ⟨rfl, rfl⟩ | ⟨hid, hold⟩
    · exact ⟨e.claimed, Collection.find_modify_self IngestEvent.claimed_keeps hfind, rfl⟩
    · obtain ⟨e₀, hfind₀, hprocessing⟩ := h.held t' id' phase' hold
      exact ⟨e₀, (Collection.find_modify_ne hid _ IngestEvent.claimed_keeps).trans hfind₀, hprocessing⟩
  · rcases hbefore t₁ id' phase₁ h₁ with ⟨rfl, rfl⟩ | ⟨hid₁, hold₁⟩
    · rcases hbefore t₂ id' phase₂ h₂ with ⟨rfl, -⟩ | ⟨hid₂, -⟩
      · rfl
      · exact absurd rfl hid₂
    · rcases hbefore t₂ id' phase₂ h₂ with ⟨-, rfl⟩ | ⟨-, hold₂⟩
      · exact absurd rfl hid₁
      · exact h.single t₁ t₂ id' phase₁ phase₂ hold₁ hold₂
  · rw [hsuccesses]
    by_cases hid : id' = id
    · subst hid
      obtain rfl := Option.some.inj ((Collection.find_modify_self IngestEvent.claimed_keeps hfind).symm.trans hfind')
      rcases h.counted id' e hfind with hzero | ⟨-, hdone | ⟨t', hholds⟩⟩
      · exact .inl hzero
      · rw [hstatus] at hdone
        cases hdone
      · exact absurd hholds (hfree t' _)
    · have hold := (Collection.find_modify_ne hid _ IngestEvent.claimed_keeps).symm.trans hfind'
      apply h.counted_kept hold
      intro hholds
      obtain ⟨_, _, _, -, hstage⟩ := holds_stage hx hholds
      cases hstage
  · rw [hsuccesses]
    exact h.foreign eventId ((Db.Grows.modified v.db IngestEvent.claimed_keeps IngestEvent.claimed_origin).foreign hnone)

/-- The call that holds an event gives it up; where its handler has succeeded, the event
is processed from now on. -/
private theorem Exclusive.updated {e : IngestEvent} {u : IngestEventUpdate} (h : Exclusive v)
    (hx : v.stages t = some (.process w p id, .holding e phase)) (hallows : phase.Allows u) :
    Exclusive (v.acted t (.process w p id) (.updateEvent id u) () (v.db.updateEvent id u)
      (Stage.holding e phase).afterUpdate) := by
  have hself : v.Holds t id phase := ⟨w, p, e, hx⟩
  obtain ⟨e₀, hfind₀, hprocessing⟩ := h.held t id phase hself
  have hbefore : ∀ t' id' phase', (v.acted t (.process w p id) (.updateEvent id u) () (v.db.updateEvent id u)
      (Stage.holding e phase).afterUpdate).Holds t' id' phase' → t' ≠ t ∧ id' ≠ id ∧ v.Holds t' id' phase' := by
    intro t' id' phase' hholds
    rcases holds_acted hholds with ⟨-, w', p', e', -, hnot⟩ | ⟨hne, hold⟩
    · cases phase <;> cases hnot
    · refine ⟨hne, ?_, hold⟩
      rintro rfl
      exact hne (h.single t' t id' phase' phase hold hself)
  have hsuccesses : ∀ eventId, (v.acted t (.process w p id) (.updateEvent id u) () (v.db.updateEvent id u)
      (Stage.holding e phase).afterUpdate).successes eventId = v.successes eventId := fun eventId =>
    View.successes_acted v t _ (.updateEvent id u) _ _ _ eventId
  refine ⟨fun t' id' phase' hholds => ?_, fun t₁ t₂ id' phase₁ phase₂ h₁ h₂ => ?_, fun id' e' hfind' => ?_,
    fun eventId hnone => ?_⟩
  · obtain ⟨-, hid, hold⟩ := hbefore t' id' phase' hholds
    obtain ⟨e₁, hfind₁, hprocessing₁⟩ := h.held t' id' phase' hold
    exact ⟨e₁, (Collection.find_modify_ne hid _ u.keeps).trans hfind₁, hprocessing₁⟩
  · exact h.single t₁ t₂ id' phase₁ phase₂ (hbefore t₁ id' phase₁ h₁).2.2 (hbefore t₂ id' phase₂ h₂).2.2
  · rw [hsuccesses]
    by_cases hid : id' = id
    · subst hid
      obtain rfl := Option.some.inj ((Collection.find_modify_self u.keeps hfind₀).symm.trans hfind')
      rcases h.counted id' e₀ hfind₀ with hzero | ⟨hone, hdone | ⟨t', hholds⟩⟩
      · exact .inl hzero
      · rw [hprocessing] at hdone
        cases hdone
      · obtain rfl := h.single t' t id' _ _ hholds hself
        obtain ⟨_, _, _, -, hstage⟩ := holds_stage hx hholds
        cases hstage
        exact .inr ⟨hone, .inl hallows⟩
    · have hold := (Collection.find_modify_ne hid _ u.keeps).symm.trans hfind'
      apply h.counted_kept hold
      intro hholds
      obtain ⟨_, _, _, hcall, -⟩ := holds_stage hx hholds
      exact hid (Call.process.inj hcall).2.2.symm
  · rw [hsuccesses]
    exact h.foreign eventId ((Db.Grows.modified v.db u.keeps u.apply_origin).foreign hnone)

/-- A handler succeeds for the first time. -/
private theorem Exclusive.succeeded {e : IngestEvent} {handler : Handler} {response : ProcessingResponse}
    (h : Exclusive v) (hx : v.stages t = some (.process w p id, .holding e .handling))
    (htracks : (Stage.holding e .handling).Tracks v.db id) (hsuccess : response.result = .success) :
    Exclusive (v.acted t (.process w p id) (.respond handler (contextOf e)) (.ok response) v.db
      (.holding e .succeeded)) := by
  have hself : v.Holds t id .handling := ⟨w, p, e, hx⟩
  obtain ⟨e₀, hfind₀, hprocessing⟩ := h.held t id _ hself
  have hsame : e₀.eventId = e.eventId := by
    obtain ⟨e₁, hfind₁, horigin⟩ := htracks
    obtain rfl := Option.some.inj (hfind₀.symm.trans hfind₁)
    exact IngestEvent.eventId_of_origin horigin
  have hzero : v.successes e.eventId = 0 := by
    rw [← hsame]
    rcases h.counted id e₀ hfind₀ with hzero | ⟨-, hdone | ⟨t', hholds⟩⟩
    · exact hzero
    · rw [hprocessing] at hdone
      cases hdone
    · obtain rfl := h.single t' t id _ _ hholds hself
      obtain ⟨_, _, _, -, hstage⟩ := holds_stage hx hholds
      cases hstage
  have hbefore : ∀ t' id' phase', (v.acted t (.process w p id) (.respond handler (contextOf e)) (.ok response) v.db
      (.holding e .succeeded)).Holds t' id' phase' → ∃ phase, v.Holds t' id' phase := by
    intro t' id' phase' hholds
    rcases holds_acted hholds with ⟨rfl, w', p', e', hcall, -⟩ | ⟨-, hold⟩
    · exact ⟨.handling, (Call.process.inj hcall).2.2 ▸ hself⟩
    · exact ⟨phase', hold⟩
  have hsuccesses : ∀ eventId, (v.acted t (.process w p id) (.respond handler (contextOf e)) (.ok response) v.db
      (.holding e .succeeded)).successes eventId = v.successes eventId + if e.eventId = eventId then 1 else 0 := by
    intro eventId
    rw [View.successes_acted]
    simp only [Cmd.succeeds, hsuccess, if_true, Option.some.injEq]
    rfl
  refine ⟨fun t' id' phase' hholds => ?_, fun t₁ t₂ id' phase₁ phase₂ h₁ h₂ => ?_, fun id' e' hfind' => ?_,
    fun eventId hnone => ?_⟩
  · obtain ⟨phase, hold⟩ := hbefore t' id' phase' hholds
    exact h.held t' id' phase hold
  · obtain ⟨phase₁', hold₁⟩ := hbefore t₁ id' phase₁ h₁
    obtain ⟨phase₂', hold₂⟩ := hbefore t₂ id' phase₂ h₂
    exact h.single t₁ t₂ id' phase₁' phase₂' hold₁ hold₂
  · rw [hsuccesses]
    by_cases hid : id' = id
    · subst hid
      obtain rfl := Option.some.inj (hfind₀.symm.trans hfind')
      rw [hsame, hzero, if_pos rfl]
      exact .inr ⟨rfl, .inr ⟨t, w, p, e, View.stages_acted_self⟩⟩
    · have hne : e.eventId ≠ e'.eventId := by
        intro heq
        have hdoc : e₀ = e' := Collection.eq_of_index (Collection.mem_of_find hfind₀)
          (Collection.mem_of_find hfind') (hsame.trans heq)
        have hkeys : e₀.id = id ∧ e'.id = id' := ⟨Collection.key_of_find hfind₀, Collection.key_of_find hfind'⟩
        exact hid (by rw [← hkeys.1, ← hkeys.2, hdoc])
      rw [if_neg hne, Nat.add_zero]
      apply h.counted_kept hfind'
      intro hholds
      obtain ⟨_, _, _, -, hstage⟩ := holds_stage hx hholds
      cases hstage
  · have hne : e.eventId ≠ eventId := hsame ▸ hnone e₀ (Collection.mem_of_find hfind₀)
    rw [hsuccesses, if_neg hne, h.foreign eventId hnone]

private theorem Exclusive.work (h : Exclusive v) (hx : v.stages t = some (.process w p id, x))
    (htracks : x.Tracks v.db id) (hids : v.db.Identified)
    (hqueued : ∀ id ∈ c.claims, ∀ e ∈ v.db.events.find id, e.status ≠ .processing)
    (hwork : Work id v.db x c r db' x') : Exclusive (v.acted t (.process w p id) c r db' x') := by
  have hsame : ∀ e' phase', x = .holding e' phase' → ∃ e phase, x = .holding e phase :=
    fun e' phase' heq => ⟨e', phase', heq⟩
  cases hwork with
  | idle x t => exact h.quiet hx rfl rfl hsame fun e he => ⟨e, he⟩
  | missed => exact h.quiet hx rfl rfl (fun _ _ heq => by cases heq) fun _ heq => by cases heq
  | claimed e hfind hclaimable =>
    apply h.claimed hx hfind
    have hnot := hqueued id rfl e hfind
    simpa [IngestEvent.claimable, hnot] using hclaimable
  | known e r hfind => exact h.quiet hx rfl rfl (fun _ _ _ => ⟨e, .claimed, rfl⟩) fun _ heq => by cases heq
  | checked e hfind => exact h.quiet hx rfl rfl (fun _ _ _ => ⟨e, .claimed, rfl⟩) fun _ heq => by cases heq
  | invoked e handler => exact h.quiet hx rfl rfl (fun _ _ _ => ⟨e, .checked, rfl⟩) fun _ heq => by cases heq
  | answered e handler r =>
    cases r with
    | error error => exact h.quiet hx rfl rfl (fun _ _ _ => ⟨e, .handling, rfl⟩) fun _ heq => by cases heq
    | ok response =>
      rw [Stage.afterResponse]
      by_cases hsuccess : response.result = .success
      · rw [if_pos hsuccess]
        exact h.succeeded hx htracks hsuccess
      · rw [if_neg hsuccess]
        refine h.quiet hx rfl ?_ (fun _ _ _ => ⟨e, .handling, rfl⟩) fun _ heq => by cases heq
        exact if_neg hsuccess
  | updated e phase u hallows => exact h.updated hx hallows
  | buried e phase d hphase hd hfree =>
    refine h.quiet hx rfl rfl (fun _ _ _ => ⟨e, phase, rfl⟩) fun _ heq => ?_
    cases heq
    exact hphase.elim
  | refused e phase d error hphase hd hrefused =>
    apply h.quiet hx rfl rfl (fun _ _ _ => ⟨e, phase, rfl⟩)
    intro _ heq
    cases heq
    exact hphase.elim
  | recorded e t hfree => exact h.quiet hx rfl rfl (fun _ _ heq => by cases heq) fun _ heq => by cases heq
  | duplicated e t r keyPattern text hfind =>
    exact h.quiet hx rfl rfl (fun _ _ heq => by cases heq) fun _ heq => by cases heq
  | unrecorded e t error hinvalid =>
    obtain ⟨e₀, hfind, horigin⟩ := htracks
    refine absurd (processedRecord_valid ?_ t) hinvalid
    rw [← IngestEvent.eventId_of_origin horigin]
    exact hids.find hfind
  | reread e e' hfind => exact h.quiet hx rfl rfl (fun _ _ _ => ⟨e, .thrown, rfl⟩) fun _ heq => by cases heq
  | vanished e hfind => exact h.quiet hx rfl rfl (fun _ _ heq => by cases heq) fun _ heq => by cases heq

private theorem Exclusive.feed (h : Exclusive v) (hx : v.stages t = some (call, .waiting))
    (hreplay : call.isReplay = false) (hfeed : Feed call v.db c r db' x') :
    Exclusive (v.acted t call c r db' x') := by
  cases hfeed with
  | idle c r hfound hinvokes hsucceeds hqueues =>
    exact h.quiet hx rfl hsucceeds (fun _ _ heq => by cases heq) fun _ heq => by cases heq
  | polled now limit events hpoll =>
    exact h.quiet hx rfl rfl (fun _ _ heq => by cases heq) fun _ heq => by cases heq
  | requeued i now hrequeue =>
    rw [hreplay] at hrequeue
    cases hrequeue
  | queued e hnew hvalid hfree =>
    have hbefore : ∀ t' id' phase', (v.acted t call (.createEvent e) (.ok e)
        { v.db with events := v.db.events.insert e } .waiting).Holds t' id' phase' → v.Holds t' id' phase' := by
      intro t' id' phase' hholds
      rcases holds_acted hholds with ⟨-, _, _, _, -, hnot⟩ | ⟨-, hold⟩
      · cases hnot
      · exact hold
    have hsuccesses : ∀ eventId, (v.acted t call (.createEvent e) (.ok e)
        { v.db with events := v.db.events.insert e } .waiting).successes eventId = v.successes eventId :=
      fun eventId => View.successes_acted v t call (.createEvent e) _ _ _ eventId
    have hfed : Feed call v.db _ _ _ _ := .queued e hnew hvalid hfree
    have hgrows := hfed.grows
    refine ⟨fun t' id' phase' hholds => ?_, fun t₁ t₂ id' phase₁ phase₂ h₁ h₂ => ?_, fun id' e' hfind' => ?_,
      fun eventId hnone => ?_⟩
    · obtain ⟨e₀, hfind₀, hprocessing⟩ := h.held t' id' phase' (hbefore t' id' phase' hholds)
      have hother : id' ≠ e.id := by
        rintro rfl
        rw [hfree.find] at hfind₀
        cases hfind₀
      exact ⟨e₀, (Collection.find_insert_ne hfree hother).trans hfind₀, hprocessing⟩
    · exact h.single t₁ t₂ id' phase₁ phase₂ (hbefore t₁ id' phase₁ h₁) (hbefore t₂ id' phase₂ h₂)
    · rw [hsuccesses]
      by_cases hid : id' = e.id
      · obtain rfl : e = e' := by simpa [View.acted, Collection.find_insert hfree, hid] using hfind'
        exact .inl (h.foreign e.eventId hfree.2)
      · have hold : v.db.events.find id' = some e' := (Collection.find_insert_ne hfree hid).symm.trans hfind'
        apply h.counted_kept hold
        intro hholds
        obtain ⟨_, _, _, -, hstage⟩ := holds_stage hx hholds
        cases hstage
    · rw [hsuccesses]
      exact h.foreign eventId (hgrows.foreign hnone)

variable {workers : ℕ → IngestWorker} {d : Db} {s : Run}

private theorem isReplay_of_unreplayed (h : (queue workers).Reaches ClaimsQueued (.start d) s)
    (hx : (view s).stages t = some (call, x)) : call.isReplay = false :=
  h.calls_satisfy (P := fun call => call.isReplay = false) (fun _ _ _ hA => hA.2) (Contract.calls_of_track hx)

private theorem exclusive (hd : d.Identified) (h : (queue workers).Reaches ClaimsQueued (.start d) s) :
    Exclusive (view s) := by
  refine reaches_invariant h ⟨?_, ?_, ?_, ?_⟩ ?_ ?_ ?_
  · rintro t id phase ⟨w, p, e, hstage⟩
    cases hstage
  · rintro t t' id phase phase' ⟨w, p, e, hstage⟩
    cases hstage
  · exact fun id e hfind => .inl rfl
  · exact fun eventId hnone => rfl
  · intro s t call hs hA hnone ih
    have hholds : ∀ t' id phase, ((view s).spawned t call).Holds t' id phase ↔ (view s).Holds t' id phase := by
      intro t' id phase
      constructor
      · rintro ⟨w, p, e, hstage⟩
        rcases View.stages_spawned hstage with ⟨-, -, hnot⟩ | ⟨-, hold⟩
        · cases hnot
        · exact ⟨w, p, e, hold⟩
      · rintro ⟨w, p, e, hstage⟩
        refine ⟨w, p, e, (Function.update_of_ne ?_ _ _).trans hstage⟩
        rintro rfl
        rw [hnone] at hstage
        cases hstage
    refine ⟨fun t' id phase h' => ?_, fun t₁ t₂ id phase₁ phase₂ h₁ h₂ => ?_, fun id e hfind => ?_, ih.foreign⟩
    · exact ih.held t' id phase ((hholds t' id phase).mp h')
    · exact ih.single t₁ t₂ id phase₁ phase₂ ((hholds t₁ id phase₁).mp h₁) ((hholds t₂ id phase₂).mp h₂)
    · rcases ih.counted id e hfind with hzero | ⟨hone, hdone | ⟨t', h'⟩⟩
      · exact .inl hzero
      · exact .inr ⟨hone, .inl hdone⟩
      · exact .inr ⟨hone, .inr ⟨t', (hholds t' id _).mpr h'⟩⟩
  · intro s t o w p id x c r db' x' hs hA hpending hx hwork ih
    refine ih.work hx (tracked hs t w p id x hx) (identified hd hs) ?_ hwork
    exact hA.2 _ hpending
  · intro s t o call c r db' x' hs hA hpending hx hfeed ih
    exact ih.feed hx (isReplay_of_unreplayed hs hx) hfeed

/-- Workers never run two handlers for one event at a time, and no event is handled with success
twice, as long as no claim finds its event in processing. Event ids are trimmed. -/
theorem handlers_exclusive (h : (queue workers).Reaches ClaimsQueued (.start d) s) (hd : d.Identified) :
    (∀ t t' eventId, Handling s t eventId → Handling s t' eventId → t = t') ∧
      ∀ eventId, successes s eventId ≤ 1 := by
  have hexclusive := exclusive hd h
  constructor
  · intro t t' eventId ht ht'
    obtain ⟨w, p, id, e, hx, rfl⟩ := handling_stage h ht
    obtain ⟨w', p', id', e', hx', hsame⟩ := handling_stage h ht'
    obtain ⟨e₀, hfind, horigin⟩ := tracked h t w p id _ hx
    obtain ⟨e₁, hfind', horigin'⟩ := tracked h t' w' p' id' _ hx'
    have hdoc : e₀ = e₁ := by
      apply Collection.eq_of_index (Collection.mem_of_find hfind) (Collection.mem_of_find hfind')
      rw [IngestEvent.eventId_of_origin horigin, IngestEvent.eventId_of_origin horigin', hsame]
    have hid : id = id' := by
      rw [← Collection.key_of_find hfind, ← Collection.key_of_find hfind', hdoc]
    subst hid
    exact hexclusive.single t t' id _ _ ⟨w, p, e, hx⟩ ⟨w', p', e', hx'⟩
  · intro eventId
    show (view s).successes eventId ≤ 1
    by_cases hsome : ∃ e ∈ s.db.events.docs, e.eventId = eventId
    · obtain ⟨e, hmem, rfl⟩ := hsome
      rcases hexclusive.counted e.id e (Collection.find_of_mem hmem) with hzero | ⟨hone, -⟩
      · exact hzero.trans_le (Nat.zero_le 1)
      · exact hone.le
    · have hnone : ∀ e ∈ s.db.events.docs, e.eventId ≠ eventId := fun e hmem heq => hsome ⟨e, hmem, heq⟩
      exact (hexclusive.foreign eventId hnone).trans_le (Nat.zero_le 1)

end invariant

section scenario

def sampleOracle : Oracle where
  objectId := "event-1"
  now := 1000
  rank := fun _ => 0
  outcome := .ok ⟨.success, none, none⟩
  errorText := "E11000 duplicate key error"

/-- Steps of the given threads. -/
def turnsWith (o : Oracle) (threads : List ℕ) : List (Label Oracle Call) := threads.map fun t => .run t o

/-- Steps in which every handler succeeds. -/
def turns : List ℕ → List (Label Oracle Call) := turnsWith sampleOracle

/-- Workers with the defaults and no handler of their own. -/
def plainWorkers : ℕ → IngestWorker := fun _ => ⟨[], ({} : WorkerOptions).config⟩

def samplePost : Call := .post ⟨"evt-1", "purchase", [], none⟩

/-- Worker 0 finds the event and handles it. -/
private def alone : List (Label Oracle Call) :=
  [.spawn 0 samplePost] ++ turns [0, 0, 0] ++ [.spawn 1 (.poll 0)] ++ turns [1, 1] ++
    [.spawn 2 (.process 0 1 "event-1")] ++ turns [2, 2, 2, 2, 2, 2, 2]

theorem handlers_exclusive_alone : ∃ s, (queue plainWorkers).Reaches ClaimsQueued (.start .empty) s ∧
    successes s "evt-1" = 1 ∧ ∀ eventId, successes s eventId ≤ 1 := by
  obtain ⟨s, hs, hone⟩ := Machine.exists_reaches (queue plainWorkers) ClaimsQueued (.start .empty) alone
    (fun s => successes s "evt-1") (a := 1) (by decide +kernel)
  exact ⟨s, hs, hone, (handlers_exclusive hs (fun e hmem => by cases hmem)).2⟩

/-- Two workers find the event while it is queued; the second claim finds it in processing. -/
private def overlapping : List (Label Oracle Call) :=
  [.spawn 0 samplePost] ++ turns [0, 0, 0] ++ [.spawn 1 (.poll 0), .spawn 2 (.poll 1)] ++ turns [1, 1, 2, 2] ++
    [.spawn 3 (.process 0 1 "event-1"), .spawn 4 (.process 1 2 "event-1")] ++ turns [3, 4, 3, 4, 3, 4]

theorem handlers_overlap :
    (∃ s, (queue plainWorkers).Reaches Unreplayed (.start .empty) s ∧ Handling s 3 "evt-1" ∧ Handling s 4 "evt-1") ∧
      ∃ s, (queue plainWorkers).Reaches Unreplayed (.start .empty) s ∧ successes s "evt-1" = 2 := by
  constructor
  · obtain ⟨s, hs, hfacts⟩ := Machine.exists_reaches (queue plainWorkers) Unreplayed (.start .empty) overlapping
      (fun s => (decide (Handling s 3 "evt-1"), decide (Handling s 4 "evt-1"))) (a := (true, true)) (by decide +kernel)
    simp only [Prod.mk.injEq, decide_eq_true_eq] at hfacts
    exact ⟨s, hs, hfacts⟩
  · exact Machine.exists_reaches (queue plainWorkers) Unreplayed (.start .empty) (overlapping ++ turns [3, 4])
      (fun s => successes s "evt-1") (a := 2) (by decide +kernel)

end scenario
end RedRoomRewards.Ingest
