import RedRoomRewards.Ingestion.Protocol
import RedRoomRewards.Process.Execution

/-! When concurrent requests with one idempotency key queue one event between them. -/
namespace RedRoomRewards.Ingestion
open Process Store Ingest

section condition

/-- The record that a command inserts. -/
def Cmd.records : Cmd → Option IdempotencyRecord
  | .createRecord r => some r
  | _ => none

/-- No request has its record refused for that of another request, unless both give the
same `eventId`. -/
def Unraced : Schedule
  | _, .spawn _ _ => True
  | s, .run t _ => ∀ x ∈ s.pending t, ∀ record ∈ x.2.records, ∀ r ∈ s.db.records.find (storedRecord record).claim,
      trim r.resultHash = trim record.resultHash

instance (s : Run) (l : Label Oracle PostEventRequest) : Decidable (Unraced s l) :=
  match l with
  | .spawn .. | .run .. => by dsimp only [Unraced]; infer_instance

/-- The events that are stored for a key. -/
def eventsOf (db : Db) (key : String) : List ReceivedEvent :=
  db.events.docs.filter fun e => e.idempotencyKey = some (trim key)

def answersQueued : Except PostError EventResponse → Bool
  | .ok response => response.status = .queued
  | .error _ => false

/-- The request of thread `t` has this key, and is answered that its event is queued. -/
def AnsweredQueued (s : Run) (t : ℕ) (key : String) : Prop :=
  (∃ request ∈ s.calls t, text request.idempotencyKey = key) ∧ ∃ result ∈ s.result t, answersQueued result = true

instance (s : Run) (t : ℕ) (key : String) : Decidable (AnsweredQueued s t key) := inferInstanceAs (Decidable (_ ∧ _))

end condition

section invariant

/-- The key has a record with this `eventId`. -/
def Claims (db : Db) (key eventId : String) : Prop :=
  ∃ r, db.records.find (key, trim ingestionScope) = some r ∧ trim r.resultHash = eventId

/-- The record of a key says which event is its, be it stored or still to be stored. -/
structure OneEach (v : View Intake Db PostEventRequest Stage) : Prop where
  events : ∀ e ∈ v.db.events.docs, ∀ key, e.idempotencyKey = some key → Claims v.db key e.eventId
  recorded : ∀ t request eventId, v.stages t = some (request, .recorded eventId) →
    Claims v.db (trim (text request.idempotencyKey)) (trim eventId)
  stored : ∀ t request e, v.stages t = some (request, .stored e) →
    e ∈ v.db.events.docs ∧ e.idempotencyKey = some (trim (text request.idempotencyKey))
  distinct : ∀ t t' request request' e, v.stages t = some (request, .stored e) →
    v.stages t' = some (request', .stored e) → t = t'

variable {v : View Intake Db PostEventRequest Stage} {t : ℕ} {request : PostEventRequest} {c : Cmd} {r : c.Reply}
variable {db db' : Db} {x x' : Stage}

theorem Claims.unique {key eventId eventId' : String} (h : Claims db key eventId) (h' : Claims db key eventId') :
    eventId = eventId' := by
  obtain ⟨r, hfind, rfl⟩ := h
  obtain ⟨r', hfind', rfl⟩ := h'
  rw [Option.some.inj (hfind.symm.trans hfind')]

/-- All events of a key are the same. -/
theorem OneEach.event_unique (h : OneEach v) {e e' : ReceivedEvent} {key : String} (he : e ∈ v.db.events.docs)
    (he' : e' ∈ v.db.events.docs) (hkey : e.idempotencyKey = some key) (hkey' : e'.idempotencyKey = some key) : e = e' :=
  Collection.eq_of_index he he' ((h.events e he key hkey).unique (h.events e' he' key hkey'))

/-- A step that stores no event. -/
private theorem OneEach.quiet (h : OneEach v) (hevents : db'.events = v.db.events)
    (hclaims : ∀ key eventId, Claims v.db key eventId → Claims db' key eventId)
    (hrecorded : ∀ eventId, x' = .recorded eventId → Claims db' (trim (text request.idempotencyKey)) (trim eventId))
    (hstored : ∀ e, x' = .stored e → v.stages t = some (request, .stored e)) : OneEach (v.acted t request c r db' x') := by
  have hold : ∀ t' request' e, (v.acted t request c r db' x').stages t' = some (request', .stored e) →
      v.stages t' = some (request', .stored e) := by
    intro t' request' e hstage
    rcases View.stages_acted hstage with ⟨rfl, rfl, heq⟩ | ⟨-, hold⟩
    · exact hstored e heq.symm
    · exact hold
  constructor
  · intro e hmem key hkey
    rw [show (v.acted t request c r db' x').db.events = v.db.events from hevents] at hmem
    exact hclaims key e.eventId (h.events e hmem key hkey)
  · intro t' request' eventId hstage
    rcases View.stages_acted hstage with ⟨-, rfl, heq⟩ | ⟨-, hstage⟩
    · exact hrecorded eventId heq.symm
    · exact hclaims _ _ (h.recorded t' request' eventId hstage)
  · intro t' request' e hstage
    rw [show (v.acted t request c r db' x').db.events = v.db.events from hevents]
    exact h.stored t' request' e (hold t' request' e hstage)
  · intro t₁ t₂ request₁ request₂ e hstage₁ hstage₂
    exact h.distinct t₁ t₂ request₁ request₂ e (hold t₁ request₁ e hstage₁) (hold t₂ request₂ e hstage₂)

/-- A record more. -/
private theorem Claims.inserted {record : IdempotencyRecord} (hfree : db.records.Free record) {key eventId : String}
    (h : Claims db key eventId) : Claims { db with records := db.records.insert record } key eventId := by
  obtain ⟨r, hfind, hhash⟩ := h
  exact ⟨r, Collection.find_insert_of_find hfree hfind, hhash⟩

private theorem claims_recorded {record : IdempotencyRecord} (hfree : db.records.Free (storedRecord record))
    (hkey : record.claim = (text request.idempotencyKey, ingestionScope)) :
    Claims { db with records := db.records.insert (storedRecord record) } (trim (text request.idempotencyKey))
      (trim record.resultHash) := by
  obtain ⟨hkey, hscope⟩ := Prod.mk.inj hkey
  refine ⟨storedRecord record, ?_, rfl⟩
  have hclaim : (storedRecord record).claim = (trim (text request.idempotencyKey), trim ingestionScope) := by
    rw [← hkey, ← hscope]
    rfl
  rw [← hclaim]
  exact (Collection.find_insert hfree _).trans (if_pos rfl)

/-- The event of a recorded request is stored. -/
private theorem OneEach.event (h : OneEach v) {e : ReceivedEvent} (hfree : v.db.events.Free e.stored)
    (hkey : e.idempotencyKey = some (text request.idempotencyKey))
    (hclaims : Claims v.db (trim (text request.idempotencyKey)) (trim e.eventId))
    (hx' : ∀ e', x' = .stored e' → e' = e.stored) (hrecorded : ∀ eventId, x' ≠ .recorded eventId) :
    OneEach (v.acted t request c r { v.db with events := v.db.events.insert e.stored } x') := by
  have hkey' : e.stored.idempotencyKey = some (trim (text request.idempotencyKey)) := congrArg (Option.map trim) hkey
  have hmem : ∀ e', e' ∈ (v.db.events.insert e.stored).docs ↔ e' ∈ v.db.events.docs ∨ e' = e.stored :=
    fun e' => Collection.mem_insert hfree
  have hnew : e.stored ∉ v.db.events.docs := fun hmem => hfree.1 _ hmem rfl
  constructor
  · intro e' he' key hkey₁
    rcases (hmem e').mp he' with hold | rfl
    · exact h.events e' hold key hkey₁
    · obtain rfl := Option.some.inj (hkey'.symm.trans hkey₁)
      exact hclaims
  · intro t' request' eventId hstage
    rcases View.stages_acted hstage with ⟨-, -, heq⟩ | ⟨-, hold⟩
    · exact absurd heq.symm (hrecorded eventId)
    · exact h.recorded t' request' eventId hold
  · intro t' request' e' hstage
    rcases View.stages_acted hstage with ⟨-, rfl, heq⟩ | ⟨-, hold⟩
    · obtain rfl := hx' e' heq.symm
      exact ⟨(hmem _).mpr (.inr rfl), hkey'⟩
    · obtain ⟨hold, hkey₁⟩ := h.stored t' request' e' hold
      exact ⟨(hmem e').mpr (.inl hold), hkey₁⟩
  · intro t₁ t₂ request₁ request₂ e' hstage₁ hstage₂
    rcases View.stages_acted hstage₁ with ⟨rfl, -, heq₁⟩ | ⟨-, hold₁⟩
    · rcases View.stages_acted hstage₂ with ⟨rfl, -, -⟩ | ⟨-, hold₂⟩
      · rfl
      · obtain rfl := hx' e' heq₁.symm
        exact absurd (h.stored t₂ request₂ _ hold₂).1 hnew
    · rcases View.stages_acted hstage₂ with ⟨rfl, -, heq₂⟩ | ⟨-, hold₂⟩
      · obtain rfl := hx' e' heq₂.symm
        exact absurd (h.stored t₁ request₁ _ hold₁).1 hnew
      · exact h.distinct t₁ t₂ request₁ request₂ e' hold₁ hold₂

private theorem OneEach.effect (h : OneEach v) {o : Oracle} (hx : v.stages t = some (request, x))
    (hunraced : ∀ record ∈ c.records, ∀ r ∈ v.db.records.find (storedRecord record).claim,
      trim r.resultHash = trim record.resultHash)
    (heffect : Effect request o v.db x c r db' x') : OneEach (v.acted t request c r db' x') := by
  cases heffect with
  | idle x c r hrecords hevents =>
    refine h.quiet rfl (fun _ _ hclaims => hclaims) (fun eventId heq => ?_) (fun e heq => ?_)
    · exact h.recorded t request eventId (heq ▸ hx)
    · exact heq ▸ hx
  | recorded record hkey hfree =>
    refine h.quiet rfl (fun _ _ hclaims => hclaims.inserted hfree) (fun eventId heq => ?_) (fun e heq => by cases heq)
    obtain rfl := Stage.recorded.inj heq
    exact claims_recorded hfree hkey
  | duplicated record r' hkey keyPattern hfind =>
    refine h.quiet rfl (fun _ _ hclaims => hclaims) (fun eventId heq => ?_) (fun e heq => by cases heq)
    obtain rfl := Stage.recorded.inj heq
    refine ⟨r', ?_, hunraced record rfl r' hfind⟩
    obtain ⟨hkey, hscope⟩ := Prod.mk.inj hkey
    rw [← hkey, ← hscope]
    exact hfind
  | recordLost record hkey message hfree hdone =>
    exact h.quiet rfl (fun _ _ hclaims => hclaims.inserted hfree) (fun _ heq => by cases heq) fun _ heq => by cases heq
  | stored e hkey hfree =>
    refine h.event hfree hkey (h.recorded t request e.eventId hx) (fun e' heq => ?_) fun _ heq => by cases heq
    exact (Stage.stored.inj heq).symm
  | eventLost e hkey error hfree =>
    exact h.event hfree hkey (h.recorded t request e.eventId hx) (fun _ heq => by cases heq) fun _ heq => by cases heq
  | _ => exact h.quiet rfl (fun _ _ hclaims => hclaims) (fun _ heq => by cases heq) fun _ heq => by cases heq

variable {s : Run}

private theorem oneEach (h : intake.Reaches Unraced (.start .empty) s) : OneEach (posting.view s) := by
  refine posting_kept.view_invariant h ⟨?_, ?_, ?_, ?_⟩ ?_ ?_
  · intro e hmem
    cases hmem
  · simp [Process.View.start]
  · simp [Process.View.start]
  · simp [Process.View.start]
  · intro s t request hs hA hnone ih
    constructor
    · exact ih.events
    · intro t' request' eventId hstage
      rcases View.stages_spawned hstage with ⟨-, -, heq⟩ | ⟨-, hold⟩
      · cases heq
      · exact ih.recorded t' request' eventId hold
    · intro t' request' e hstage
      rcases View.stages_spawned hstage with ⟨-, -, heq⟩ | ⟨-, hold⟩
      · cases heq
      · exact ih.stored t' request' e hold
    · intro t₁ t₂ request₁ request₂ e hstage₁ hstage₂
      rcases View.stages_spawned hstage₁ with ⟨-, -, heq⟩ | ⟨-, hold₁⟩
      · cases heq
      · rcases View.stages_spawned hstage₂ with ⟨-, -, heq⟩ | ⟨-, hold₂⟩
        · cases heq
        · exact ih.distinct t₁ t₂ request₁ request₂ e hold₁ hold₂
  · intro s t o request x c hs hA hpending hx hmay ih
    exact ih.effect hx (hA _ hpending) (effect_of_may o s.db hmay)

/-- A request that is answered as queued has stored an event of its key. -/
private theorem stored_of_answered (h : intake.Reaches Unraced (.start .empty) s) {key : String}
    (hanswered : AnsweredQueued s t key) : ∃ request e, (posting.view s).stages t = some (request, .stored e) ∧
      text request.idempotencyKey = key := by
  obtain ⟨⟨request, hcall, hkey⟩, result, hresult, hqueued⟩ := hanswered
  obtain ⟨x, hx⟩ := Contract.stage_of_call (K := posting) hcall
  have hends : request.ends x result := posting_kept.ends h hx hresult
  cases result with
  | error error => cases hqueued
  | ok response =>
    have hstatus : response.status = .queued := of_decide_eq_true hqueued
    simp only [PostEventRequest.ends, hstatus] at hends
    obtain ⟨e, rfl⟩ := hends
    exact ⟨request, e, hx, hkey⟩

/-- However requests interleave, at most one event is stored for a key and at most one
request is answered that it is queued, as long as no request has its record refused for
one with another `eventId`. -/
theorem one_event_per_key (h : intake.Reaches Unraced (.start .empty) s) (key : String) :
    (eventsOf s.db key).length ≤ 1 ∧ ∀ t t', AnsweredQueued s t key → AnsweredQueued s t' key → t = t' := by
  have hone := oneEach h
  constructor
  · have hnodup : (eventsOf s.db key).Nodup := s.db.events.key_nodup.of_map.filter _
    have hsame : ∀ e ∈ eventsOf s.db key, ∀ e' ∈ eventsOf s.db key, e = e' := by
      intro e he e' he'
      obtain ⟨hmem, hkey⟩ := List.mem_filter.mp he
      obtain ⟨hmem', hkey'⟩ := List.mem_filter.mp he'
      exact hone.event_unique hmem hmem' (of_decide_eq_true hkey) (of_decide_eq_true hkey')
    match hevents : eventsOf s.db key, hnodup, hsame with
    | [], _, _ => exact Nat.zero_le 1
    | [_], _, _ => exact Nat.le_refl 1
    | e :: e' :: _, hnodup, hsame =>
      have heq : e = e' := hsame e (.head _) e' (.tail _ (.head _))
      exact absurd (heq ▸ List.mem_cons_self) (List.nodup_cons.mp hnodup).1
  · intro t t' ht ht'
    obtain ⟨request, e, hstage, hkey⟩ := stored_of_answered h ht
    obtain ⟨request', e', hstage', hkey'⟩ := stored_of_answered h ht'
    obtain ⟨hmem, hevent⟩ := hone.stored t request e hstage
    obtain ⟨hmem', hevent'⟩ := hone.stored t' request' e' hstage'
    rw [hkey] at hevent
    rw [hkey'] at hevent'
    obtain rfl := hone.event_unique hmem hmem' hevent hevent'
    exact hone.distinct t t' request request' e hstage hstage'

end invariant

section scenario

def sampleOracle (uuid objectId : String) : Oracle := ⟨uuid, objectId, 1000, none⟩

/-- Steps of one thread with the same oracle. -/
def stepsOf (o : Oracle) (t n : ℕ) : List (Label Oracle PostEventRequest) := List.replicate n (.run t o)

def sampleRequest : PostEventRequest where
  eventType := .str "purchase"
  payload := .obj []
  idempotencyKey := .str "key-1"

/-- A request is queued, and one that comes later with the same key is not. -/
private def oneAfterTheOther : List (Label Oracle PostEventRequest) :=
  [.spawn 0 sampleRequest] ++ stepsOf (sampleOracle "a" "event-1") 0 10 ++ [.spawn 1 sampleRequest] ++
    stepsOf (sampleOracle "b" "event-2") 1 4

theorem one_event_per_key_twice : ∃ s, intake.Reaches Unraced (.start .empty) s ∧ AnsweredQueued s 0 "key-1" ∧
    ¬ AnsweredQueued s 1 "key-1" ∧ (eventsOf s.db "key-1").length ≤ 1 := by
  obtain ⟨s, hs, hfacts⟩ := Machine.exists_reaches intake Unraced (.start .empty) oneAfterTheOther
    (fun s => decide (AnsweredQueued s 0 "key-1" ∧ ¬ AnsweredQueued s 1 "key-1")) (a := true) (by decide +kernel)
  obtain ⟨hqueued, hnot⟩ := of_decide_eq_true hfacts
  exact ⟨s, hs, hqueued, hnot, (one_event_per_key hs "key-1").1⟩

/-- Both requests look the key up before either has stored its record. -/
private def overlapping : List (Label Oracle PostEventRequest) :=
  [.spawn 0 sampleRequest, .spawn 1 sampleRequest] ++ stepsOf (sampleOracle "a" "event-1") 0 4 ++
    stepsOf (sampleOracle "b" "event-2") 1 4 ++ stepsOf (sampleOracle "a" "event-1") 0 6 ++
    stepsOf (sampleOracle "b" "event-2") 1 6

theorem events_of_key_overlap : ∃ s, intake.Reaches (fun _ _ => True) (.start .empty) s ∧
    (eventsOf s.db "key-1").length = 2 ∧ AnsweredQueued s 0 "key-1" ∧ AnsweredQueued s 1 "key-1" := by
  obtain ⟨s, hs, hfacts⟩ := Machine.exists_reaches intake (fun _ _ => True) (.start .empty) overlapping
    (fun s => decide ((eventsOf s.db "key-1").length = 2 ∧ AnsweredQueued s 0 "key-1" ∧ AnsweredQueued s 1 "key-1"))
    (a := true) (by decide +kernel)
  exact ⟨s, hs, of_decide_eq_true hfacts⟩

end scenario
end RedRoomRewards.Ingestion
