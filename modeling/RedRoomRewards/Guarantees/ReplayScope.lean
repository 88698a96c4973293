import RedRoomRewards.Guarantees.HandlersExclusive
import RedRoomRewards.Ingest.Replaying

/-! Which events a replay queues again. It selects dead letters whatever their `replayable`
says, looks the event up once, and then queues it whatever its status has become. -/
namespace RedRoomRewards.Ingest
open Process Store

section scope

/-- The event may be queued by a replay: it is dead or missing, has no idempotency record,
and the filter matches a dead letter of it that can be replayed. -/
structure InScope (options : ReplayOptions) (db : Db) (id eventId : String) : Prop where
  letter : ∃ d ∈ db.dlq.docs, d.eventId = eventId ∧ d.replayable = true ∧
    (ReplayController.query options).accepts d = true
  dead : ∀ e, db.events.find id = some e → e.status = .dlq
  unprocessed : db.records.find (eventId, ingestScope) = none

end scope

section condition

/-- The event that the replay of thread `t` has read and is about to queue again. -/
def rereading (s : Run) (t : ℕ) : Option IngestEvent :=
  match replaying.track s t with
  | some (.replay _, .found _ e) => some e
  | _ => none

/-- The event that the replay of thread `t` has found without a record. -/
def underReplay (s : Run) (t : ℕ) : Option String :=
  match replaying.track s t with
  | some (.replay _, .unprocessed _ eventId) | some (.replay _, .missing _ eventId) => some eventId
  | some (.replay _, .found _ e) => some e.eventId
  | _ => none

/-- A replay goes on only with dead letters that can be replayed and reads only dead events;
and while it is at an event, no other call takes it out of its status or stores its record. -/
def Undisturbed (s : Run) (t : ℕ) (call : Call) : Cmd → Prop
  | .findRecord key eventScope => call.isReplay = true → s.db.records.find (key, eventScope) = none →
      ∀ d ∈ s.db.dlq.docs, d.eventId = key → d.replayable = true
  | .findByEventId eventId => ∀ e ∈ s.db.events.docs, e.eventId = eventId → e.status = .dlq
  | .updateEvent id u => u.status ≠ .dlq → ∀ x ∈ s.spawns, x.1 ≠ t → ∀ e ∈ rereading s x.1, e.id ≠ id
  | .createRecord r => ∀ x ∈ s.spawns, ∀ eventId ∈ underReplay s x.1, r.claim ≠ (eventId, ingestScope)
  | _ => True

instance (s : Run) (t : ℕ) (call : Call) (c : Cmd) : Decidable (Undisturbed s t call c) := by
  apply Cmd.casesOn (motive := fun c => Decidable (Undisturbed s t call c)) c <;> intros <;> dsimp only [Undisturbed] <;>
    infer_instance

/-- Runs whose replays are undisturbed. -/
def replaysApart : Schedule
  | _, .spawn _ _ => True
  | s, .run t _ => ∀ x ∈ s.pending t, Undisturbed s t x.1 x.2

instance (s : Run) (l : Label Oracle Call) : Decidable (replaysApart s l) :=
  match l with
  | .spawn .. | .run .. => by dsimp only [replaysApart]; infer_instance

end condition

section store
variable {db : Db} {c : Cmd} {o : Oracle}

private theorem create_grows {δ κ ι : Type} {key : δ → κ} {index : δ → ι} [DecidableEq κ] [DecidableEq ι]
    (text : String) (col : Collection δ κ ι key index) (d : δ) (invalid keyPattern : List String) {k : κ} {d' : δ}
    (hfind : col.find k = some d') : (described text (create col d invalid keyPattern)).2.find k = some d' := by
  rcases create_cases col d invalid keyPattern with ⟨e, he⟩ | ⟨-, hfree, hok⟩
  · rw [described, he]
    exact hfind
  · rw [described, hok]
    exact Collection.find_insert_of_find hfree hfind

/-- Dead letters are never taken away. -/
theorem dlq_kept {d : DLQEvent} (h : d ∈ db.dlq.docs) : d ∈ (exec o db c).2.dlq.docs := by
  have hfind := Collection.find_of_mem h
  cases c with
  | createDLQ d' => exact Collection.mem_of_find (create_grows o.errorText db.dlq d' _ _ hfind)
  | claim id =>
    simp only [exec, Db.claim]
    split
    · split <;> exact h
    · exact h
  | _ => exact h

/-- Only the command that stores the record of an event makes it known as processed. -/
theorem unrecorded_kept {key : String × String} (h : db.records.find key = none)
    (hother : ∀ r, c = .createRecord r → r.claim ≠ key) : (exec o db c).2.records.find key = none := by
  cases c with
  | createRecord r =>
    simp only [exec]
    rcases create_cases db.records r r.invalid ["pointsIdempotencyKey", "eventScope"] with ⟨e, he⟩ | ⟨-, hfree, hok⟩
    · rw [described, he]
      exact h
    · rw [described, hok]
      exact (Collection.find_insert_ne hfree (hother r rfl).symm).trans h
  | claim id =>
    simp only [exec, Db.claim]
    split
    · split <;> exact h
    · exact h
  | _ => exact h

/-- A dead event stays dead as long as no update gives it another status; a claim does not. -/
theorem dead_kept {id : String} {e : IngestEvent} (hfind : db.events.find id = some e) (hdead : e.status = .dlq)
    (hother : ∀ id' u, c = .updateEvent id' u → u.status ≠ .dlq → id ≠ id') :
    ∃ e', (exec o db c).2.events.find id = some e' ∧ e'.status = .dlq ∧ e'.eventId = e.eventId := by
  cases c with
  | createEvent new => exact ⟨e, create_grows o.errorText db.events new _ _ hfind, hdead, rfl⟩
  | claim id' =>
    simp only [exec, Db.claim]
    cases hclaimed : db.events.find id' with
    | none => exact ⟨e, hfind, hdead, rfl⟩
    | some e₀ =>
      by_cases hclaimable : e₀.claimable = true
      · have hne : id ≠ id' := by
          rintro rfl
          obtain rfl := Option.some.inj (hfind.symm.trans hclaimed)
          simp [IngestEvent.claimable, hdead] at hclaimable
        simp only [hclaimable, if_true]
        exact ⟨e, (Collection.find_modify_ne hne _ IngestEvent.claimed_keeps).trans hfind, hdead, rfl⟩
      · simp only [hclaimable]
        exact ⟨e, hfind, hdead, rfl⟩
  | updateEvent id' u =>
    by_cases hsame : id = id'
    · subst hsame
      have hstatus : u.status = .dlq := by
        by_contra hne
        exact hother id u rfl hne rfl
      exact ⟨u.apply e, Collection.find_modify_self u.keeps hfind, hstatus, rfl⟩
    · exact ⟨e, (Collection.find_modify_ne hsame _ u.keeps).trans hfind, hdead, rfl⟩
  | _ => exact ⟨e, hfind, hdead, rfl⟩

end store

section invariant
variable {workers : ℕ → IngestWorker} {d : Db} {s : Run} {options : ReplayOptions} {db : Db}

/-- The dead letters are those the filter matches. -/
def Selected (options : ReplayOptions) (db : Db) (ds : List DLQEvent) : Prop :=
  ∀ d ∈ ds, d ∈ db.dlq.docs ∧ (ReplayController.query options).accepts d = true

/-- One of them is the event's and can be replayed, and the event has no record. -/
def Due (db : Db) (ds : List DLQEvent) (eventId : String) : Prop :=
  (∃ d ∈ ds, d.eventId = eventId ∧ d.replayable = true) ∧ db.records.find (eventId, ingestScope) = none

/-- What an undisturbed replay knows is true. -/
def Replaying.Sound (options : ReplayOptions) (db : Db) : Replaying → Prop
  | opening => True
  | selected ds => Selected options db ds
  | unprocessed ds eventId | missing ds eventId => Selected options db ds ∧ Due db ds eventId
  | found ds e => Selected options db ds ∧ Due db ds e.eventId ∧
      ∃ e', db.events.find e.id = some e' ∧ e'.status = .dlq ∧ e'.eventId = e.eventId

private theorem Selected.kept {ds : List DLQEvent} (h : Selected options db ds) (o : Oracle) (c : Cmd) :
    Selected options (exec o db c).2 ds := fun d hd => ⟨dlq_kept (h d hd).1, (h d hd).2⟩

private theorem Due.kept {ds : List DLQEvent} {eventId : String} (h : Due db ds eventId) {o : Oracle} {c : Cmd}
    (hother : ∀ r, c = .createRecord r → r.claim ≠ (eventId, ingestScope)) : Due (exec o db c).2 ds eventId :=
  ⟨h.1, unrecorded_kept h.2 hother⟩

/-- What the replay of another thread knows stays true. -/
private theorem sound_other {t t' : ℕ} {call : Call} {c : Cmd} {o : Oracle} {x : Replaying}
    (hs : (queue workers).Reaches replaysApart (.start d) s) (hstep : Undisturbed s t call c) (hne : t' ≠ t)
    (hx : replaying.track s t' = some (.replay options, x)) (h : x.Sound options s.db) :
    x.Sound options (exec o s.db c).2 := by
  have hspawned : (t', Call.replay options) ∈ s.spawns := hs.mem_spawns.mpr (Contract.calls_of_track hx)
  have hrecord : ∀ eventId, underReplay s t' = some eventId → ∀ r, c = .createRecord r →
      r.claim ≠ (eventId, ingestScope) := by
    rintro eventId hunder r rfl
    exact hstep _ hspawned eventId hunder
  cases x with
  | opening => trivial
  | selected ds => exact Selected.kept h o c
  | unprocessed ds eventId | missing ds eventId =>
    exact ⟨h.1.kept o c, h.2.kept (hrecord eventId (by rw [underReplay, hx]))⟩
  | found ds e =>
    obtain ⟨hselected, hdue, e', hfind, hdead, heventId⟩ := h
    have hkept := dead_kept (o := o) (c := c) hfind hdead fun id' u heq hstatus => by
      subst heq
      exact hstep hstatus _ hspawned hne e (by rw [rereading, hx]; rfl)
    obtain ⟨e'', hfind', hdead', heventId'⟩ := hkept
    exact ⟨hselected.kept o c, hdue.kept (hrecord e.eventId (by rw [underReplay, hx])), e'', hfind', hdead',
      heventId'.trans heventId⟩

/-- What a replay has read is true when it has read it. -/
private theorem sound_own {t : ℕ} {c : Cmd} {o : Oracle} {x : Replaying}
    (hstep : Undisturbed s t (.replay options) c) (hmay : x.May options c) (h : x.Sound options s.db) :
    (x.next c (exec o s.db c).1).Sound options (exec o s.db c).2 := by
  cases c with
  | findDLQ q limit =>
    obtain ⟨rfl, rfl⟩ := hmay
    intro dl hdl
    have hfound : dl ∈ (s.db.dlq.docs.filter (ReplayController.query options).accepts).insertionSort
        fun a b => a.movedToDLQAt ≤ b.movedToDLQAt := by
      cases limit with
      | none => exact hdl
      | some n => exact List.mem_of_mem_take hdl
    exact List.mem_filter.mp ((List.perm_insertionSort _ _).mem_iff.mp hfound)
  | findRecord key eventScope =>
    obtain ⟨ds, dl, rfl, hmem, rfl, rfl⟩ := hmay
    cases hfind : s.db.records.find (dl.eventId, ingestScope) with
    | none =>
      simp only [exec, hfind]
      exact ⟨h, ⟨dl, hmem, rfl, hstep rfl hfind dl (h dl hmem).1 rfl⟩, hfind⟩
    | some r =>
      simp only [exec, hfind]
      exact h
  | findByEventId eventId =>
    obtain ⟨ds, rfl⟩ := hmay
    cases hfind : s.db.events.docs.find? fun e => e.eventId = eventId with
    | none =>
      simp only [exec, hfind]
      exact h
    | some e =>
      have hmem := List.mem_of_find?_eq_some hfind
      have heventId : e.eventId = eventId := by simpa using List.find?_some hfind
      simp only [exec, hfind]
      refine ⟨h.1, heventId ▸ h.2, e, Collection.find_of_mem hmem, hstep e hmem heventId, rfl⟩
  | updateEvent id u =>
    obtain ⟨ds, e, now, rfl, rfl, rfl⟩ := hmay
    exact h.1
  | createEvent e =>
    obtain ⟨ds, rfl⟩ := hmay
    exact h.1
  | now | objectId => exact h
  | _ => exact hmay.elim

/-- Whatever the interleaving, what an undisturbed replay knows is true. -/
theorem replays_sound (h : (queue workers).Reaches replaysApart (.start d) s) :
    ∀ t options x, replaying.track s t = some (.replay options, x) → x.Sound options s.db := by
  have hall := Contract.tracks_invariant (K := replaying) (P := fun db (_ : ℕ) call x =>
    ∀ options, call = .replay options → x.Sound options db) h (fun _ _ _ _ _ _ => trivial) ?_
  · exact fun t options x hx => hall t _ x hx options rfl
  · intro s t o call c k hs hA ht ih
    have hstep : Undisturbed s t call c := hA (call, c) (by simp [State.pending, ht])
    refine ⟨fun options hcall => ?_, fun t' call' x hne hx options hcall => ?_⟩
    · subst hcall
      exact sound_own hstep ((replaying_kept workers).may hs ht options rfl)
        (ih t _ _ (Contract.track_of_thread ht) options rfl)
    · subst hcall
      exact sound_other hs hstep hne hx (ih t' _ x hx options rfl)

/-- A replay that nothing disturbs changes only events in its scope, whatever else runs. Event ids
are trimmed. -/
theorem replay_within_scope (h : (queue workers).Reaches replaysApart (.start d) s) {t : ℕ} {c : Cmd}
    (hpending : s.pending t = some (.replay options, c)) (o : Oracle) {id : String}
    (hchanges : (exec o s.db c).2.events.find id ≠ s.db.events.find id) :
    ∃ e, (exec o s.db c).2.events.find id = some e ∧ InScope options s.db id e.eventId := by
  have hx := Contract.track_of_pending (K := replaying) hpending
  have hsound := replays_sound h t options _ hx
  have hmay := (replaying_kept workers).may_pending h hx hpending options rfl
  generalize replaying.record (.replay options) (s.history t) = x at hsound hmay
  have hscope : ∀ ds eventId, Selected options s.db ds → Due s.db ds eventId →
      (∀ e, s.db.events.find id = some e → e.status = .dlq) → InScope options s.db id eventId := by
    rintro ds eventId hselected ⟨⟨dl, hdl, heventId, hreplayable⟩, hnone⟩ hdead
    exact ⟨⟨dl, (hselected dl hdl).1, heventId, hreplayable, (hselected dl hdl).2⟩, hdead, hnone⟩
  cases c with
  | updateEvent id' u =>
    obtain ⟨ds, e, now, rfl, rfl, rfl⟩ := hmay
    obtain ⟨hselected, hdue, e', hfind, hdead, heventId⟩ := hsound
    have hid : id = e.id := by
      by_contra hne
      exact hchanges (Collection.find_modify_ne hne _ (ReplayController.requeue now).keeps)
    subst hid
    refine ⟨_, Collection.find_modify_self (ReplayController.requeue now).keeps hfind, hscope ds _ hselected ?_ ?_⟩
    · exact heventId ▸ hdue
    · intro e₀ hfind₀
      rwa [← Option.some.inj (hfind.symm.trans hfind₀)]
  | createEvent e =>
    obtain ⟨ds, rfl⟩ := hmay
    simp only [exec] at hchanges ⊢
    rcases create_cases s.db.events e e.invalid ["eventId"] with ⟨error, herror⟩ | ⟨-, hfree, hok⟩
    · rw [described, herror] at hchanges
      exact absurd rfl hchanges
    · rw [described, hok] at hchanges ⊢
      have hid : id = e.id := by
        by_contra hne
        exact hchanges (Collection.find_insert_ne hfree hne)
      subst hid
      refine ⟨e, (Collection.find_insert hfree e.id).trans (if_pos rfl), hscope ds _ hsound.1 hsound.2 ?_⟩
      intro e₀ hfind₀
      cases hfree.find.symm.trans hfind₀
  | claim id' => exact hmay.elim
  | _ => exact absurd rfl hchanges

end invariant

section scenario

private def refundWorkers : ℕ → IngestWorker := fun _ => ⟨["purchase"], ({} : WorkerOptions).config⟩

/-- An event arrives and fails for good; a replay has come to the update that queues it. -/
private def replayedOnce (replayable : Option Bool) : List (Label Oracle Call) :=
  [.spawn 0 (.post ⟨"evt-1", "purchase", [], replayable⟩)] ++ turns [0, 0, 0] ++ [.spawn 1 (.poll 0)] ++
    turns [1, 1] ++ [.spawn 2 (.process 0 1 "event-1")] ++
    turnsWith { sampleOracle with outcome := .ok ⟨.nonRetryableFailure, none, none⟩ } [2, 2, 2, 2, 2, 2, 2, 2, 2] ++
    [.spawn 3 (.replay {})] ++ turns [3, 3, 3, 3]

/-- The replay of thread `t` queues the event with its next step. -/
private def requeues (s : Run) (t : ℕ) (id : String) : Bool :=
  match s.pending t with
  | some (.replay _, .updateEvent i u) => i = id && u.status = .queued
  | _ => false

private theorem changes_of_requeues {s : Run} {t : ℕ} {id : String} (h : requeues s t id = true) {status : IngestEventStatus}
    (hstatus : (s.db.events.find id).map (·.status) = some status) (hne : status ≠ .queued) :
    ∃ options c, s.pending t = some (.replay options, c) ∧
      (exec sampleOracle s.db c).2.events.find id ≠ s.db.events.find id := by
  unfold requeues at h
  split at h
  · rename_i options i u hpending
    obtain ⟨hid, hqueued⟩ := Bool.and_eq_true_iff.mp h
    obtain rfl : i = id := of_decide_eq_true hid
    refine ⟨options, _, hpending, fun hsame => hne ?_⟩
    obtain ⟨e, hfind, rfl⟩ := Option.map_eq_some_iff.mp hstatus
    have hupdated := (Collection.find_modify_self u.keeps hfind).symm.trans (hsame.trans hfind)
    exact (congrArg (·.status) (Option.some.inj hupdated)).symm.trans (of_decide_eq_true hqueued)
  · cases h

theorem replay_within_scope_dead : ∃ s options c, (queue refundWorkers).Reaches replaysApart (.start .empty) s ∧
    s.pending 3 = some (.replay options, c) ∧
    ∃ e, (exec sampleOracle s.db c).2.events.find "event-1" = some e ∧ InScope options s.db "event-1" e.eventId := by
  obtain ⟨s, hs, hfacts⟩ := Machine.exists_reaches (queue refundWorkers) replaysApart (.start .empty)
    (replayedOnce none) (fun s => (requeues s 3 "event-1", (s.db.events.find "event-1").map (·.status)))
    (a := (true, some .dlq)) (by decide +kernel)
  obtain ⟨hrequeues, hstatus⟩ := Prod.mk.inj hfacts
  obtain ⟨options, c, hpending, hchanges⟩ := changes_of_requeues hrequeues hstatus (by decide)
  exact ⟨s, options, c, hs, hpending, replay_within_scope hs hpending sampleOracle hchanges⟩

/-- The event that cannot be replayed is queued, a worker claims it, and a second replay
of the same dead letter comes to the same update. -/
private def replayedTwice : List (Label Oracle Call) :=
  replayedOnce (some false) ++ turns [3] ++ [.spawn 4 (.poll 0)] ++ turns [4, 4] ++
    [.spawn 5 (.process 0 4 "event-1")] ++ turns [5] ++ [.spawn 6 (.replay {})] ++ turns [6, 6, 6, 6]

/-- A replay queues an event again that a worker is processing, by a dead letter that is
not marked as replayable. -/
theorem replay_out_of_scope : ∃ s options c, (queue refundWorkers).Reaches Working (.start .empty) s ∧
    s.pending 6 = some (.replay options, c) ∧
    (exec sampleOracle s.db c).2.events.find "event-1" ≠ s.db.events.find "event-1" ∧
    (s.db.events.find "event-1").map (·.status) = some .processing ∧
    (∀ dl ∈ s.db.dlq.docs, dl.replayable = false) ∧ ∀ eventId, ¬ InScope options s.db "event-1" eventId := by
  obtain ⟨s, hs, hfacts⟩ := Machine.exists_reaches (queue refundWorkers) Working (.start .empty) replayedTwice
    (fun s => (requeues s 6 "event-1", (s.db.events.find "event-1").map (·.status),
      decide (∀ dl ∈ s.db.dlq.docs, dl.replayable = false)))
    (a := (true, some .processing, true)) (by decide +kernel)
  obtain ⟨hrequeues, hrest⟩ := Prod.mk.inj hfacts
  obtain ⟨hstatus, hletters⟩ := Prod.mk.inj hrest
  obtain ⟨options, c, hpending, hchanges⟩ := changes_of_requeues hrequeues hstatus (by decide)
  refine ⟨s, options, c, hs, hpending, hchanges, hstatus, of_decide_eq_true hletters, fun eventId hscope => ?_⟩
  obtain ⟨e, hfind, hprocessing⟩ := Option.map_eq_some_iff.mp hstatus
  cases hprocessing.symm.trans (hscope.dead e hfind)

end scenario
end RedRoomRewards.Ingest
