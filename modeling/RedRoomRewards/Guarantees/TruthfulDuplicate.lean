import RedRoomRewards.Guarantees.OneEventPerKey

/-! When the answer that a request is a duplicate is true: an earlier request with its key
has stored the event that the answer names. -/
namespace RedRoomRewards.Ingestion
open Process Store Ingest

section condition

/-- Requests one after the other. -/
def Sequential : Schedule
  | s, .spawn _ _ => ∀ x ∈ s.spawns, (s.result x.1).isSome = true
  | _, .run _ _ => True

/-- The key and the `eventId` of the record that a command has stored. -/
def Cmd.recorded : (c : Cmd) → c.Reply → Option (String × String)
  | .createRecord r, .ok _ => some (trim r.pointsIdempotencyKey, trim r.resultHash)
  | _, _ => none

/-- A request that uses a key again gives the `eventId` of the first one, and no request
fails between its record and its event. -/
def Consistent : Schedule
  | s, .spawn t request => Sequential s (.spawn t request)
  | s, .run t o => ∀ x ∈ s.pending t, match x.2 with
    | .findRecord key _ => o.failure.isNone = true → ∀ ev ∈ s.log, ∀ y ∈ ev.cmd.recorded ev.reply, y.1 = trim key →
        text ev.call.idempotencyKey = text x.1.idempotencyKey ∧ x.1.eventId.truthy = true ∧ text x.1.eventId = y.2
    | .createRecord _ => ∀ f ∈ o.failure, f.done = false
    | .createEvent e => (∀ f ∈ o.failure, f.done = true) ∧ e.stored.invalid = [] ∧ s.db.events.Free e.stored
    | _ => True

/-- The request of thread `t'` came before that of thread `t`. -/
def Earlier (spawns : List (ℕ × PostEventRequest)) (t' t : ℕ) (request' request : PostEventRequest) : Prop :=
  [(t, request), (t', request')].Sublist spawns

/-- Thread `t` has inserted an event with this key and `eventId`, and it is stored. -/
def StoredBy (db : Db) (log : List (Event Intake PostEventRequest)) (t : ℕ) (key eventId : String) : Prop :=
  ∃ e ∈ db.events.docs, e.eventId = eventId ∧ e.idempotencyKey = some key ∧
    ∃ ev ∈ log, ev.thread = t ∧ ∃ e₀, ev.cmd = .createEvent e₀ ∧ e₀.stored = e

instance (s : Run) (l : Label Oracle PostEventRequest) : Decidable (Sequential s l) :=
  match l with
  | .spawn .. | .run .. => by dsimp only [Sequential]; infer_instance

instance (s : Run) (l : Label Oracle PostEventRequest) : Decidable (Consistent s l) :=
  match l with
  | .spawn .. => by dsimp only [Consistent]; infer_instance
  | .run t o => by
    have (x : PostEventRequest × Cmd) : Decidable (match x.2 with
        | .findRecord key _ => o.failure.isNone = true → ∀ ev ∈ s.log, ∀ y ∈ ev.cmd.recorded ev.reply, y.1 = trim key →
            text ev.call.idempotencyKey = text x.1.idempotencyKey ∧ x.1.eventId.truthy = true ∧ text x.1.eventId = y.2
        | .createRecord _ => ∀ f ∈ o.failure, f.done = false
        | .createEvent e => (∀ f ∈ o.failure, f.done = true) ∧ e.stored.invalid = [] ∧ s.db.events.Free e.stored
        | _ => True) := by
      split <;> infer_instance
    dsimp only [Consistent]
    infer_instance

theorem Consistent.sequential {s : Run} {l : Label Oracle PostEventRequest} (h : Consistent s l) : Sequential s l := by
  cases l with
  | spawn t request => exact h
  | run t o => trivial

end condition

section order
variable {A : Schedule} {s : Run}

/-- In a sequence, only the last request has not ended. -/
theorem front_of_running (h : intake.Reaches Sequential (.start .empty) s) {t : ℕ} {request : PostEventRequest}
    (hcall : s.calls t = some request) (hresult : s.result t = none) : ∃ rest, s.spawns = (t, request) :: rest := by
  induction h using Machine.Reaches.by_steps generalizing t request with
  | start => cases hcall
  | spawn s t' request' hs hA ht ih =>
    by_cases htt : t = t'
    · subst htt
      rw [Machine.spawned_calls, Function.update_self] at hcall
      exact ⟨s.spawns, by rw [← Option.some.inj hcall]; rfl⟩
    · rw [Machine.spawned_calls, Function.update_of_ne htt] at hcall
      rw [State.result_congr (s := s) (Function.update_of_ne htt _ _)] at hresult
      have hended := hA _ (hs.mem_spawns.mpr hcall)
      rw [hresult] at hended
      cases hended
  | act s t' o request' c k hs hA ht ih =>
    rw [Machine.acted_calls ht] at hcall
    by_cases htt : t = t'
    · subst htt
      exact ih hcall (by simp [State.result, ht])
    · exact ih hcall ((State.result_congr (Function.update_of_ne htt _ _)).symm.trans hresult)
  | restart s t' o request' c hs hA ht ih =>
    rw [Machine.restarted_calls ht] at hcall
    by_cases htt : t = t'
    · subst htt
      exact ih hcall (by simp [State.result, ht])
    · exact ih hcall ((State.result_congr (Function.update_of_ne htt _ _)).symm.trans hresult)

/-- A thread that is about to issue a command has not ended. -/
theorem running_of_pending {t : ℕ} {request : PostEventRequest} {c : Cmd} (h : s.pending t = some (request, c)) :
    s.calls t = some request ∧ s.result t = none := by
  unfold State.pending at h
  split at h
  · rename_i ht
    obtain ⟨rfl, rfl⟩ := Prod.mk.inj (Option.some.inj h)
    exact ⟨State.calls_of_thread ht, by simp [State.result, ht]⟩
  · cases h

/-- A request whose event is still to be stored has not ended. -/
theorem running_of_recorded (h : intake.Reaches A (.start .empty) s) {t : ℕ} {request : PostEventRequest}
    {eventId : String} (hx : (posting.view s).stages t = some (request, .recorded eventId)) : s.result t = none := by
  cases hresult : s.result t with
  | none => rfl
  | some result =>
    have hends : request.ends (.recorded eventId) result := posting_kept.ends h hx hresult
    cases result with
    | error error => rcases hends with heq | heq <;> cases heq
    | ok response =>
      cases hstatus : response.status with
      | queued =>
        simp only [PostEventRequest.ends, hstatus] at hends
        obtain ⟨e, heq⟩ := hends
        cases heq
      | duplicate =>
        simp only [PostEventRequest.ends, hstatus] at hends
        obtain ⟨⟨r, heq⟩, -⟩ := hends
        cases heq

/-- A request that has not looked its key up has stored no record. -/
theorem unrecorded_of_asking (h : intake.Reaches A (.start .empty) s) {t : ℕ} {request : PostEventRequest}
    (hx : (posting.view s).stages t = some (request, .asking)) : ∀ ev ∈ s.history t, ev.cmd.recorded ev.reply = none := by
  refine posting_kept.invariant (P := fun _ history x => x = .asking → ∀ ev ∈ history, ev.cmd.recorded ev.reply = none)
    ?_ ?_ h t request _ hx rfl
  · intro request _ ev hmem
    cases hmem
  · intro request history x t c r ih hmay _ hasking ev hmem
    have hbefore : x = .asking ∧ c.recorded r = none := by
      cases c with
      | uuid => exact ⟨hasking, rfl⟩
      | objectId => exact ⟨hasking, rfl⟩
      | now => exact ⟨hasking, rfl⟩
      | findRecord key eventScope =>
        obtain ⟨rfl, -, -⟩ := hmay
        exact ⟨rfl, rfl⟩
      | createRecord record =>
        obtain ⟨rfl, -⟩ := hmay
        match r, hasking with
        | .ok _, hasking => cases hasking
        | .error (.duplicateKey _), hasking => cases hasking
        | .error (.validation _), hasking => cases hasking
        | .error (.unavailable _), hasking => cases hasking
      | createEvent e =>
        obtain ⟨id, eventId, correlationId, now, rfl, rfl⟩ := hmay
        cases r <;> cases hasking
      | countQueuedBefore receivedAt =>
        obtain ⟨e, rfl⟩ := hmay
        cases r <;> cases hasking
    rcases List.mem_cons.mp hmem with rfl | hold
    · exact hbefore.2
    · exact ih hbefore.1 ev hold

end order

section invariant

/-- What an answer that names the event of an earlier request rests on. -/
def Answerable (v : View Intake Db PostEventRequest Stage) (t : ℕ) (request : PostEventRequest) : Prop :=
  request.eventId.truthy = true ∧ ∃ t' request', Earlier v.spawns t' t request' request ∧
    text request'.idempotencyKey = text request.idempotencyKey ∧
    StoredBy v.db v.log t' (trim (text request.idempotencyKey)) (text request.eventId)

/-- Each record has its event, or a request that is about to store it. -/
structure Honest (v : View Intake Db PostEventRequest Stage) : Prop where
  checked : ∀ t request rest, v.spawns = (t, request) :: rest → v.stages t = some (request, .checked) →
    v.db.records.find (trim (text request.idempotencyKey), trim ingestionScope) = none
  logged : ∀ key r, v.db.records.find (key, trim ingestionScope) = some r →
    ∃ ev ∈ v.log, ∃ eventId, ev.cmd.recorded ev.reply = some (key, eventId)
  backed : ∀ ev ∈ v.log, ∀ key eventId, ev.cmd.recorded ev.reply = some (key, eventId) →
    StoredBy v.db v.log ev.thread key eventId ∨ ∃ eventId', v.stages ev.thread = some (ev.call, .recorded eventId') ∧
      trim eventId' = eventId ∧ trim (text ev.call.idempotencyKey) = key
  found : ∀ t request r, v.stages t = some (request, .found r) → Answerable v t request

variable {v : View Intake Db PostEventRequest Stage} {t : ℕ} {request : PostEventRequest} {c : Cmd} {r : c.Reply}
variable {db db' : Db} {x x' : Stage} {log : List (Event Intake PostEventRequest)}

theorem StoredBy.later {key eventId : String} (h : StoredBy db log t key eventId)
    (hevents : ∀ e ∈ db.events.docs, e ∈ db'.events.docs) (ev : Event Intake PostEventRequest) :
    StoredBy db' (ev :: log) t key eventId := by
  obtain ⟨e, hmem, hid, hkey, ev', hmem', hinserted⟩ := h
  exact ⟨e, hevents e hmem, hid, hkey, ev', .tail _ hmem', hinserted⟩

/-- A step: the records it stores are logged, and what they promise is kept. -/
private theorem Honest.acted (h : Honest v) (hx : v.stages t = some (request, x))
    (hevents : ∀ e ∈ v.db.events.docs, e ∈ db'.events.docs)
    (hrecords : ∀ key r', db'.records.find (key, trim ingestionScope) = some r' →
      v.db.records.find (key, trim ingestionScope) = some r' ∨ ∃ eventId, c.recorded r = some (key, eventId))
    (hnew : ∀ key eventId, c.recorded r = some (key, eventId) → ∃ eventId', x' = .recorded eventId' ∧
      trim eventId' = eventId ∧ trim (text request.idempotencyKey) = key)
    (hchecked : x' = .checked → db'.records.find (trim (text request.idempotencyKey), trim ingestionScope) = none)
    (hkept : ∀ eventId, x = .recorded eventId → x' = .recorded eventId ∨
      StoredBy db' (⟨t, request, c, r⟩ :: v.log) t (trim (text request.idempotencyKey)) (trim eventId))
    (hfront : ∃ rest, v.spawns = (t, request) :: rest)
    (hfound : ∀ r', x' = .found r' → x = .found r' ∨ Answerable v t request) :
    Honest (v.acted t request c r db' x') := by
  have hanswer : ∀ t₁ request₁, Answerable v t₁ request₁ → Answerable (v.acted t request c r db' x') t₁ request₁ := by
    rintro t₁ request₁ ⟨htruthy, t₂, request₂, hearlier, hkey, hstored⟩
    exact ⟨htruthy, t₂, request₂, hearlier, hkey, hstored.later hevents _⟩
  obtain ⟨rest, hfront⟩ := hfront
  constructor
  · intro t₁ request₁ rest₁ hspawns hstage
    obtain ⟨heq, -⟩ := List.cons.inj (hspawns.symm.trans hfront)
    obtain ⟨rfl, rfl⟩ := Prod.mk.inj heq
    rw [Process.View.stages_acted_self] at hstage
    exact hchecked (Prod.mk.inj (Option.some.inj hstage)).2
  · intro key r' hfind
    rcases hrecords key r' hfind with hold | ⟨eventId, hrecorded⟩
    · obtain ⟨ev, hmem, eventId, hrecorded⟩ := h.logged key r' hold
      exact ⟨ev, .tail _ hmem, eventId, hrecorded⟩
    · exact ⟨_, .head _, eventId, hrecorded⟩
  · intro ev hmem key eventId hrecorded
    rcases List.mem_cons.mp hmem with rfl | hold
    · obtain ⟨eventId', rfl, hid, hkey⟩ := hnew key eventId hrecorded
      exact .inr ⟨eventId', View.stages_acted_self, hid, hkey⟩
    · rcases h.backed ev hold key eventId hrecorded with hstored | ⟨eventId', hstage, hid, hkey⟩
      · exact .inl (hstored.later hevents _)
      · by_cases htt : ev.thread = t
        · rw [htt] at hstage
          obtain ⟨hcall, rfl⟩ := Prod.mk.inj (Option.some.inj (hx.symm.trans hstage))
          rcases hkept eventId' rfl with rfl | hstored
          · refine .inr ⟨eventId', ?_, hid, hkey⟩
            rw [htt, Process.View.stages_acted_self, hcall]
          · rw [← hcall] at hkey
            rw [hid, hkey] at hstored
            rw [htt]
            exact .inl hstored
        · exact .inr ⟨eventId', (Process.View.stages_acted_ne htt).trans hstage, hid, hkey⟩
  · intro t₁ request₁ r' hstage
    rcases View.stages_acted hstage with ⟨rfl, rfl, heq⟩ | ⟨-, hold⟩
    · rcases hfound r' heq.symm with rfl | hanswerable
      · exact hanswer t₁ request₁ (h.found t₁ request₁ r' hx)
      · exact hanswer t₁ request₁ hanswerable
    · exact hanswer t₁ request₁ (h.found t₁ request₁ r' hold)

/-- A command that stores neither a record nor an event. -/
private theorem Honest.quiet (h : Honest v) (hx : v.stages t = some (request, x)) (hrecorded : c.recorded r = none)
    (hkept : ∀ eventId, x = .recorded eventId → x' = .recorded eventId)
    (hchecked : x' = .checked → v.db.records.find (trim (text request.idempotencyKey), trim ingestionScope) = none)
    (hfront : ∃ rest, v.spawns = (t, request) :: rest)
    (hfound : ∀ r', x' = .found r' → x = .found r' ∨ Answerable v t request) :
    Honest (v.acted t request c r v.db x') := by
  refine h.acted hx (fun e hmem => hmem) (fun _ _ hfind => .inl hfind) (fun key eventId heq => ?_) hchecked
    (fun eventId heq => .inl (hkept eventId heq)) hfront hfound
  rw [hrecorded] at heq
  cases heq

/-- The event of a recorded request is stored. -/
private theorem Honest.event (h : Honest v) {e : ReceivedEvent} (hx : v.stages t = some (request, .recorded e.eventId))
    (hkey : e.idempotencyKey = some (text request.idempotencyKey)) (hfree : v.db.events.Free e.stored)
    {r : Except MongoError ReceivedEvent} (hchecked : x' ≠ .checked) (hfound : ∀ r', x' ≠ .found r')
    (hfront : ∃ rest, v.spawns = (t, request) :: rest) :
    Honest (v.acted t request (.createEvent e) r { v.db with events := v.db.events.insert e.stored } x') := by
  have hmem : ∀ e', e' ∈ (v.db.events.insert e.stored).docs ↔ e' ∈ v.db.events.docs ∨ e' = e.stored :=
    fun e' => Collection.mem_insert hfree
  refine h.acted hx (fun e' hold => (hmem e').mpr (.inl hold)) (fun _ _ hfind => .inl hfind) (fun _ _ heq => by cases heq)
    (fun heq => absurd heq hchecked) (fun eventId heq => .inr ?_) hfront (fun r' heq => absurd heq (hfound r'))
  obtain rfl := Stage.recorded.inj heq
  refine ⟨e.stored, (hmem _).mpr (.inr rfl), rfl, congrArg (Option.map trim) hkey, _, .head _, rfl, e, rfl, rfl⟩

variable {s : Run}

/-- The record of a key that is looked up is that of an earlier request, which has stored its event. -/
private theorem answerable_of_found (hs : intake.Reaches Consistent (.start .empty) s)
    (h : Honest (posting.view s)) (hx : (posting.view s).stages t = some (request, .asking))
    (hfront : ∃ rest, s.spawns = (t, request) :: rest) {record : IdempotencyRecord}
    (hfind : s.db.records.find (trim (text request.idempotencyKey), trim ingestionScope) = some record)
    (hgiven : ∀ ev ∈ s.log, ∀ y ∈ ev.cmd.recorded ev.reply, y.1 = trim (text request.idempotencyKey) →
      text ev.call.idempotencyKey = text request.idempotencyKey ∧ request.eventId.truthy = true ∧
        text request.eventId = y.2) : Answerable (posting.view s) t request := by
  have hsequential : intake.Reaches Sequential (.start .empty) s := hs.mono fun _ _ _ hA => hA.sequential
  obtain ⟨rest, hfront⟩ := hfront
  obtain ⟨ev, hmem, eventId, hrecorded⟩ := h.logged _ record hfind
  obtain ⟨hkey, htruthy, rfl⟩ := hgiven ev hmem _ hrecorded rfl
  have hne : ev.thread ≠ t := by
    intro heq
    have hnone := unrecorded_of_asking hs hx ev ((s.mem_history).mpr ⟨hmem, heq⟩)
    rw [hrecorded] at hnone
    cases hnone
  have hspawned : (ev.thread, ev.call) ∈ s.spawns := hs.mem_spawns.mpr (hs.calls_of_log ev hmem)
  rcases h.backed ev hmem _ _ hrecorded with hstored | ⟨eventId', hstage, -, -⟩
  · refine ⟨htruthy, ev.thread, ev.call, ?_, hkey, hstored⟩
    show List.Sublist [(t, request), (ev.thread, ev.call)] s.spawns
    rw [hfront] at hspawned ⊢
    rcases List.mem_cons.mp hspawned with heq | hrest
    · exact absurd (Prod.mk.inj heq).1 hne
    · exact (List.singleton_sublist.mpr hrest).cons_cons _
  · obtain ⟨rest', hfront'⟩ := front_of_running hsequential (Contract.calls_of_track hstage) (running_of_recorded hs hstage)
    obtain ⟨heq, -⟩ := List.cons.inj (hfront'.symm.trans hfront)
    exact absurd (Prod.mk.inj heq).1 hne

private theorem honest_act (hs : intake.Reaches Consistent (.start .empty) s) {o : Oracle}
    (hA : Consistent s (.run t o)) (hpending : s.pending t = some (request, c))
    (hx : (posting.view s).stages t = some (request, x)) (h : Honest (posting.view s))
    (heffect : Effect request o s.db x c r db' x') : Honest ((posting.view s).acted t request c r db' x') := by
  have hsequential : intake.Reaches Sequential (.start .empty) s := hs.mono fun _ _ _ hA => hA.sequential
  obtain ⟨hcall, hresult⟩ := running_of_pending hpending
  have hfront : ∃ rest, (posting.view s).spawns = (t, request) :: rest := front_of_running hsequential hcall hresult
  have hstep := hA _ hpending
  cases heffect with
  | idle x c r hrecords hevents =>
    have hnone : c.recorded r = none := by
      cases c with
      | createRecord record => exact absurd rfl (hrecords record)
      | _ => rfl
    refine h.quiet hx hnone (fun _ heq => heq) (fun heq => ?_) hfront fun r' heq => .inl heq
    obtain ⟨rest, hspawns⟩ := hfront
    exact h.checked t request rest hspawns (heq ▸ hx)
  | failed x c r hrecords hevents hrecorded =>
    have hnone : c.recorded r = none := by
      cases c with
      | createRecord record => exact absurd rfl (hrecords record)
      | _ => rfl
    exact h.quiet hx hnone (fun eventId heq => absurd heq (hrecorded eventId)) (fun heq => by cases heq) hfront
      fun _ heq => by cases heq
  | found record hfailure hfind =>
    refine h.quiet hx rfl (fun _ heq => by cases heq) (fun heq => by cases heq) hfront fun r' heq => .inr ?_
    exact answerable_of_found hs h hx hfront hfind (hstep (by rw [hfailure]; rfl))
  | fresh hfind =>
    exact h.quiet hx rfl (fun _ heq => by cases heq) (fun _ => hfind) hfront fun _ heq => by cases heq
  | recorded record hkey hfree =>
    obtain ⟨hkey, hscope⟩ := Prod.mk.inj hkey
    refine h.acted hx (fun e hmem => hmem) (fun key r' hfind => ?_) (fun key eventId heq => ?_) (fun heq => by cases heq)
      (fun _ heq => by cases heq) hfront fun _ heq => by cases heq
    · simp only [Collection.find_insert hfree] at hfind
      split at hfind
      · rename_i hclaim
        exact .inr ⟨trim record.resultHash, by rw [(Prod.mk.inj hclaim).1]; rfl⟩
      · exact .inl hfind
    · obtain ⟨rfl, rfl⟩ := Prod.mk.inj (Option.some.inj heq)
      exact ⟨record.resultHash, rfl, rfl, by rw [hkey]⟩
  | duplicated record r' hkey keyPattern hfind =>
    obtain ⟨hkey, hscope⟩ := Prod.mk.inj hkey
    obtain ⟨rest, hspawns⟩ := hfront
    have hnone := h.checked t request rest hspawns hx
    rw [← hkey, ← hscope] at hnone
    rw [show (posting.view s).db.records.find (trim record.pointsIdempotencyKey, trim record.eventScope) = some r' from hfind]
      at hnone
    cases hnone
  | unrecorded record e =>
    exact h.quiet hx rfl (fun _ heq => by cases heq) (fun heq => by cases heq) hfront fun _ heq => by cases heq
  | recordLost record hkey message hfree hdone =>
    obtain ⟨f, hf, hdone⟩ := hdone
    have hnot := hstep f hf
    rw [hdone] at hnot
    cases hnot
  | stored e hkey hfree =>
    exact h.event hx hkey hfree (fun heq => by cases heq) (fun _ heq => by cases heq) hfront
  | eventLost e hkey error hfree =>
    exact h.event hx hkey hfree (fun heq => by cases heq) (fun _ heq => by cases heq) hfront
  | refused e error hrefused =>
    obtain ⟨hdone, hvalid, hfree⟩ := hstep
    exact absurd hfree (hrefused hdone hvalid)

private theorem honest (h : intake.Reaches Consistent (.start .empty) s) : Honest (posting.view s) := by
  refine posting_kept.view_invariant h ⟨?_, ?_, ?_, ?_⟩ ?_ ?_
  · simp [Process.View.start]
  · intro key r hfind
    cases hfind
  · intro ev hmem
    cases hmem
  · simp [Process.View.start]
  · intro s t request hs hA hnone ih
    constructor
    · intro t₁ request₁ rest hspawns hstage
      obtain ⟨heq, -⟩ := List.cons.inj hspawns
      obtain ⟨rfl, rfl⟩ := Prod.mk.inj heq
      rcases View.stages_spawned hstage with ⟨-, -, heq⟩ | ⟨hne, -⟩
      · cases heq
      · exact absurd rfl hne
    · exact ih.logged
    · intro ev hmem key eventId hrecorded
      rcases ih.backed ev hmem key eventId hrecorded with hstored | ⟨eventId', hstage, hrest⟩
      · exact .inl hstored
      · exact .inr ⟨eventId', View.stages_spawned_old hnone hstage, hrest⟩
    · intro t₁ request₁ r hstage
      rcases View.stages_spawned hstage with ⟨-, -, heq⟩ | ⟨-, hold⟩
      · cases heq
      · obtain ⟨htruthy, t₂, request₂, hearlier, hrest⟩ := ih.found t₁ request₁ r hold
        exact ⟨htruthy, t₂, request₂, hearlier.cons _, hrest⟩
  · intro s t o request x c hs hA hpending hx hmay ih
    exact honest_act hs hA hpending hx ih (effect_of_may o s.db hmay)

/-- In every sequence of requests that is consistent, an answer that a request is a
duplicate names the event that an earlier request with the same key has stored. -/
theorem duplicate_truthful (h : intake.Reaches Consistent (.start .empty) s) {response : EventResponse}
    (hcall : s.calls t = some request) (hresult : s.result t = some (.ok response))
    (hduplicate : response.status = .duplicate) : ∃ t' request', Earlier s.spawns t' t request' request ∧
      text request'.idempotencyKey = text request.idempotencyKey ∧
      StoredBy s.db s.log t' (trim (text request.idempotencyKey)) response.eventId := by
  obtain ⟨x, hx⟩ := Contract.stage_of_call (K := posting) hcall
  have hends : request.ends x (.ok response) := posting_kept.ends h hx hresult
  simp only [PostEventRequest.ends, hduplicate] at hends
  obtain ⟨⟨r, rfl⟩, hoffers⟩ := hends
  obtain ⟨htruthy, t', request', hearlier, hkey, hstored⟩ := (honest h).found t request r hx
  refine ⟨t', request', hearlier, hkey, ?_⟩
  rw [hoffers htruthy]
  exact hstored

end invariant

section scenario

/-- The `eventId` of an answer that the request is a duplicate. -/
private def duplicateOf : Except PostError EventResponse → Option String
  | .ok response => if response.status = .duplicate then some response.eventId else none
  | .error _ => none

private theorem duplicateOf_some {result : Except PostError EventResponse} {eventId : String}
    (h : duplicateOf result = some eventId) :
    ∃ response, result = .ok response ∧ response.status = .duplicate ∧ response.eventId = eventId := by
  cases result with
  | error error => cases h
  | ok response =>
    by_cases hduplicate : response.status = .duplicate
    · rw [duplicateOf, if_pos hduplicate] at h
      exact ⟨response, rfl, hduplicate, Option.some.inj h⟩
    · rw [duplicateOf, if_neg hduplicate] at h
      cases h

/-- A client that gives its own `eventId` sends its request twice. -/
private def sampleRetry : PostEventRequest := { sampleRequest with eventId := .str "evt-1" }

private def sentTwice (request : PostEventRequest) (first : Oracle) (n : ℕ) (second : Oracle) (m : ℕ) :
    List (Label Oracle PostEventRequest) :=
  [.spawn 0 request] ++ stepsOf first 0 n ++ [.spawn 1 request] ++ stepsOf second 1 m

theorem duplicate_truthful_retried : ∃ s response, intake.Reaches Consistent (.start .empty) s ∧
    s.result 1 = some (.ok response) ∧ response.status = .duplicate ∧
    ∃ t' request', Earlier s.spawns t' 1 request' sampleRetry ∧
      text request'.idempotencyKey = text sampleRetry.idempotencyKey ∧
      StoredBy s.db s.log t' (trim (text sampleRetry.idempotencyKey)) response.eventId := by
  obtain ⟨s, -, hs, -, hanswer, hcalls⟩ := Machine.exists_reaches_twice intake Consistent .empty
    (sentTwice sampleRetry (sampleOracle "a" "event-1") 9 (sampleOracle "b" "event-2") 3) []
    (fun s _ => (s.result 1).bind duplicateOf) (a := some "evt-1") (by decide +kernel)
  obtain ⟨result, hresult, hduplicate⟩ := Option.bind_eq_some_iff.mp hanswer
  obtain ⟨response, rfl, hstatus, -⟩ := duplicateOf_some hduplicate
  have hcall : s.calls 1 = some sampleRetry := hcalls 1 sampleRetry (by simp [sentTwice])
  exact ⟨s, response, hs, hresult, hstatus, duplicate_truthful hs hcall hresult hstatus⟩

/-- The first request generates an `eventId`, and so does the second. -/
theorem duplicate_untruthful :
    (∃ s response, intake.Reaches Sequential (.start .empty) s ∧ s.result 1 = some (.ok response) ∧
      response.status = .duplicate ∧ ∀ e ∈ s.db.events.docs, e.eventId ≠ response.eventId) ∧
    ∃ s response, intake.Reaches Sequential (.start .empty) s ∧ s.result 1 = some (.ok response) ∧
      response.status = .duplicate ∧ s.db.events.docs.length = 0 := by
  constructor
  · obtain ⟨s, hs, hfacts⟩ := Machine.exists_reaches intake Sequential (.start .empty)
      (sentTwice sampleRequest (sampleOracle "a" "event-1") 10 (sampleOracle "b" "event-2") 4)
      (fun s => ((s.result 1).bind duplicateOf, s.db.events.docs.map (·.eventId))) (a := (some "evt_b", ["evt_a"]))
      (by decide +kernel)
    obtain ⟨hanswer, hevents⟩ := Prod.mk.inj hfacts
    obtain ⟨result, hresult, hduplicate⟩ := Option.bind_eq_some_iff.mp hanswer
    obtain ⟨response, rfl, hstatus, hid⟩ := duplicateOf_some hduplicate
    refine ⟨s, response, hs, hresult, hstatus, fun e hmem heq => ?_⟩
    have hmem' : e.eventId ∈ s.db.events.docs.map (·.eventId) := List.mem_map_of_mem hmem
    rw [hevents, heq, hid] at hmem'
    revert hmem'
    decide
  · obtain ⟨s, hs, hfacts⟩ := Machine.exists_reaches intake Sequential (.start .empty)
      ([.spawn 0 sampleRequest] ++ stepsOf (sampleOracle "a" "event-1") 0 8 ++
        stepsOf { sampleOracle "a" "event-1" with failure := some ⟨false, "connection closed"⟩ } 0 1 ++
        [.spawn 1 sampleRequest] ++ stepsOf (sampleOracle "b" "event-2") 1 4)
      (fun s => ((s.result 1).bind duplicateOf, s.db.events.docs.length)) (a := (some "evt_b", 0)) (by decide +kernel)
    obtain ⟨hanswer, hevents⟩ := Prod.mk.inj hfacts
    obtain ⟨result, hresult, hduplicate⟩ := Option.bind_eq_some_iff.mp hanswer
    obtain ⟨response, rfl, hstatus, -⟩ := duplicateOf_some hduplicate
    exact ⟨s, response, hs, hresult, hstatus, hevents⟩

end scenario
end RedRoomRewards.Ingestion
