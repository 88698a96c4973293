import RedRoomRewards.Guarantees.HandlersExclusive

/-! Every dead event has its dead letter, and every processed event a handler that has
succeeded for it, wherever a worker crashes. -/
namespace RedRoomRewards.Ingest
open Process Store IngestWorker

section invariant

/-- A handler has returned `SUCCESS` for the event. -/
def Succeeded (log : List (Event Queue Call)) (eventId : String) : Prop :=
  ∃ ev ∈ log, ev.cmd.succeeds ev.reply = some eventId

/-- There is a dead letter with the identifier and the payload of the event. -/
def Db.Lettered (db : Db) (e : IngestEvent) : Prop :=
  ∃ dl, db.dlq.find e.eventId = some dl ∧ dl.payloadSnapshot = e.payloadSnapshot

/-- What the status of an event stands for. -/
def Accounts (db : Db) (log : List (Event Queue Call)) (e : IngestEvent) : Prop :=
  (e.status = .dlq → db.Lettered e) ∧ (e.status = .processed → Succeeded log e.eventId)

/-- What a call has seen or done is so. -/
def Stage.Vouched (db : Db) (log : List (Event Queue Call)) : Stage → Prop
  | holding e .known | holding e .succeeded | marked e => Succeeded log e.eventId
  | holding e .buried => db.Lettered e
  | _ => True

structure Accounted (v : View) : Prop where
  events : ∀ id e, v.db.events.find id = some e → Accounts v.db v.log e
  records : ∀ key r, v.db.records.find (key, ingestScope) = some r → Succeeded v.log key
  stages : ∀ t w p id x, v.stages t = some (.process w p id, x) → x.Vouched v.db v.log

variable {v : View} {t w p : ℕ} {id : String} {call : Call} {c : Cmd} {r : c.Reply} {db db' : Db} {x x' : Stage}
variable {log : List (Event Queue Call)} {ev : Event Queue Call} {e e' : IngestEvent}

theorem Succeeded.cons {eventId : String} (h : Succeeded log eventId) (ev : Event Queue Call) :
    Succeeded (ev :: log) eventId := by
  obtain ⟨ev', hmem, hsucceeds⟩ := h
  exact ⟨ev', .tail _ hmem, hsucceeds⟩

theorem Db.Lettered.grows (h : db.Lettered e) (hgrows : db.Grows db') : db'.Lettered e := by
  obtain ⟨dl, hfind, hpayload⟩ := h
  exact ⟨dl, hgrows.dlq _ _ hfind, hpayload⟩

theorem Db.Lettered.of_origin (h : db.Lettered e) (horigin : e'.origin = e.origin) : db.Lettered e' := by
  obtain ⟨dl, hfind, hpayload⟩ := h
  refine ⟨dl, ?_, hpayload.trans (IngestEvent.payload_of_origin horigin).symm⟩
  rw [IngestEvent.eventId_of_origin horigin]
  exact hfind

private theorem Stage.Vouched.grows (h : x.Vouched db log) (hgrows : db.Grows db') (ev : Event Queue Call) :
    x.Vouched db' (ev :: log) := by
  cases x with
  | holding e phase =>
    cases phase with
    | known | succeeded => exact Succeeded.cons h ev
    | buried => exact Db.Lettered.grows h hgrows
    | _ => trivial
  | marked e => exact Succeeded.cons h ev
  | _ => trivial

/-- A step that loses nothing keeps the account, if what it adds is accounted for. -/
private theorem Accounted.acted (h : Accounted v) (hgrows : v.db.Grows db')
    (hevents : ∀ id e, db'.events.find id = some e → v.db.events.find id = some e ∨
      Accounts db' (⟨t, call, c, r⟩ :: v.log) e)
    (hrecords : ∀ key r', db'.records.find (key, ingestScope) = some r' →
      v.db.records.find (key, ingestScope) = some r' ∨ Succeeded (⟨t, call, c, r⟩ :: v.log) key)
    (hstage : x'.Vouched db' (⟨t, call, c, r⟩ :: v.log)) : Accounted (v.acted t call c r db' x') := by
  refine ⟨fun id e hfind => ?_, fun key r' hfind => ?_, fun t' w p id y hy => ?_⟩
  · rcases hevents id e hfind with hold | hnew
    · obtain ⟨hdead, hdone⟩ := h.events id e hold
      exact ⟨fun hstatus => (hdead hstatus).grows hgrows, fun hstatus => (hdone hstatus).cons _⟩
    · exact hnew
  · rcases hrecords key r' hfind with hold | hnew
    · exact (h.records key r' hold).cons _
    · exact hnew
  · rcases View.stages_acted hy with ⟨-, -, rfl⟩ | ⟨-, hold⟩
    · exact hstage
    · exact (h.stages t' w p id y hold).grows hgrows _

private theorem accounts_of_open (hdead : e.status ≠ .dlq) (hdone : e.status ≠ .processed) : Accounts db log e :=
  ⟨fun hstatus => absurd hstatus hdead, fun hstatus => absurd hstatus hdone⟩

/-- An update accounts for the event if it does for what it changes. -/
private theorem modified_accounts {f : IngestEvent → IngestEvent}
    (hf : Collection.Keeps IngestEvent.id IngestEvent.eventId f)
    (haccounts : ∀ e, db.events.find id = some e → Accounts { db with events := db.events.modify id f hf } log (f e)) :
    ∀ i e, (db.events.modify id f hf).find i = some e → db.events.find i = some e ∨
      Accounts { db with events := db.events.modify id f hf } log e := by
  intro i e hfind
  rw [Collection.find_modify] at hfind
  split at hfind
  · obtain ⟨e₀, hfind₀, rfl⟩ := Option.map_eq_some_iff.mp hfind
    exact .inr (haccounts e₀ hfind₀)
  · exact .inl hfind

private theorem Accounted.updated {phase : Phase} {u : IngestEventUpdate} (h : Accounted v)
    (hx : v.stages t = some (.process w p id, .holding e phase)) (htracks : (Stage.holding e phase).Tracks v.db id)
    (hallows : phase.Allows u) :
    Accounted (v.acted t (.process w p id) (.updateEvent id u) () (v.db.updateEvent id u)
      (Stage.holding e phase).afterUpdate) := by
  have hgrows : v.db.Grows (v.db.updateEvent id u) := .modified v.db u.keeps u.apply_origin
  have hvouched := h.stages t w p id _ hx
  obtain ⟨e₀, hfind₀, horigin⟩ := htracks
  refine h.acted hgrows (modified_accounts u.keeps fun e₁ hfind₁ => ?_) (fun _ _ hfind => .inl hfind) ?_
  · obtain rfl := Option.some.inj (hfind₀.symm.trans hfind₁)
    have hsame : (u.apply e₀).origin = e.origin := horigin
    have hstatus : (u.apply e₀).status = u.status := rfl
    refine ⟨fun hdead => ?_, fun hdone => ?_⟩
    · rw [hstatus] at hdead
      cases phase with
      | buried => exact (Db.Lettered.of_origin hvouched hsame).grows hgrows
      | known | succeeded => exact absurd (hallows.symm.trans hdead) (by decide)
      | failing | caught => exact absurd (hallows.1.symm.trans hdead) (by decide)
      | _ => exact hallows.elim
    · rw [hstatus] at hdone
      rw [IngestEvent.eventId_of_origin hsame]
      cases phase with
      | known | succeeded => exact Succeeded.cons hvouched _
      | buried => exact absurd (hallows.symm.trans hdone) (by decide)
      | failing | caught => exact absurd (hallows.1.symm.trans hdone) (by decide)
      | _ => exact hallows.elim
  · cases phase with
    | succeeded => exact Succeeded.cons hvouched _
    | _ => trivial

private theorem Accounted.work (h : Accounted v) (hx : v.stages t = some (.process w p id, x))
    (htracks : x.Tracks v.db id) (hwork : Work id v.db x c r db' x') :
    Accounted (v.acted t (.process w p id) c r db' x') := by
  have hgrows := hwork.grows
  have hvouched := h.stages t w p id x hx
  have hcarried := hvouched.grows hgrows ⟨t, .process w p id, c, r⟩
  cases hwork with
  | idle x t => exact h.acted hgrows (fun _ _ hfind => .inl hfind) (fun _ _ hfind => .inl hfind) hcarried
  | claimed e hfind hclaimable =>
    refine h.acted hgrows (modified_accounts IngestEvent.claimed_keeps fun e₁ _ => ?_) (fun _ _ hfind => .inl hfind)
      trivial
    exact accounts_of_open nofun nofun
  | known e r hfind =>
    apply h.acted hgrows (fun _ _ hfind => .inl hfind) (fun _ _ hfind => .inl hfind)
    exact (h.records e.eventId r hfind).cons _
  | answered e handler r =>
    apply h.acted hgrows (fun _ _ hfind => .inl hfind) (fun _ _ hfind => .inl hfind)
    cases r with
    | error error => trivial
    | ok response =>
      rw [Stage.afterResponse]
      by_cases hsuccess : response.result = .success
      · rw [if_pos hsuccess]
        exact ⟨_, .head _, if_pos hsuccess⟩
      · rw [if_neg hsuccess]
        trivial
  | updated e phase u hallows => exact h.updated hx htracks hallows
  | buried e phase d hphase hd hfree =>
    apply h.acted hgrows (fun _ _ hfind => .inl hfind) (fun _ _ hfind => .inl hfind)
    obtain ⟨errorCode, errorMessage, t₁, t₂, rfl⟩ := hd
    exact ⟨_, Collection.find_of_mem ((Collection.mem_insert hfree).mpr (.inr rfl)), rfl⟩
  | refused e phase d error hphase hd hrefused =>
    apply h.acted hgrows (fun _ _ hfind => .inl hfind) (fun _ _ hfind => .inl hfind)
    cases phase <;> trivial
  | recorded e t₁ hfree =>
    refine h.acted hgrows (fun _ _ hfind => .inl hfind) (fun key r' hfind => ?_) trivial
    simp only [Collection.find_insert hfree] at hfind
    split at hfind
    · rename_i hkey
      obtain rfl : key = e.eventId := congrArg Prod.fst hkey
      exact .inr (Succeeded.cons hvouched _)
    · exact .inl hfind
  | _ => exact h.acted hgrows (fun _ _ hfind => .inl hfind) (fun _ _ hfind => .inl hfind) trivial

private theorem Accounted.feed (h : Accounted v) (hfeed : Feed call v.db c r db' x') :
    Accounted (v.acted t call c r db' x') := by
  have hgrows := hfeed.grows
  cases hfeed with
  | queued e hnew hvalid hfree =>
    refine h.acted hgrows (fun id e' hfind => ?_) (fun _ _ hfind => .inl hfind) trivial
    simp only [Collection.find_insert hfree] at hfind
    split at hfind
    · obtain rfl := Option.some.inj hfind
      have hstatus : e.status = .queued := (congrArg IngestEvent.status hnew).symm
      refine .inr (accounts_of_open ?_ ?_)
      · rw [hstatus]
        decide
      · rw [hstatus]
        decide
    · exact .inl hfind
  | requeued i now hreplay =>
    refine h.acted hgrows (modified_accounts (ReplayController.requeue now).keeps fun e₁ _ => ?_)
      (fun _ _ hfind => .inl hfind) trivial
    exact accounts_of_open (by rintro ⟨⟩) (by rintro ⟨⟩)
  | _ => exact h.acted hgrows (fun _ _ hfind => .inl hfind) (fun _ _ hfind => .inl hfind) trivial

/-- A queue in which nothing has been processed: dead events have their letters. -/
structure Db.Unprocessed (db : Db) : Prop where
  dead : ∀ e ∈ db.events.docs, e.status = .dlq →
    ∃ dl ∈ db.dlq.docs, dl.eventId = e.eventId ∧ dl.payloadSnapshot = e.payloadSnapshot
  events : ∀ e ∈ db.events.docs, e.status ≠ .processed
  records : ∀ r ∈ db.records.docs, r.eventScope ≠ ingestScope

variable {workers : ℕ → IngestWorker} {A : Schedule} {d : Db} {s : Run}

private theorem accounted (hd : d.Unprocessed) (h : (queue workers).Reaches A (.start d) s) : Accounted (view s) := by
  refine reaches_invariant h ⟨?_, ?_, ?_⟩ ?_ ?_ ?_
  · intro id e hfind
    have hmem := Collection.mem_of_find hfind
    refine ⟨fun hdead => ?_, fun hdone => absurd hdone (hd.events e hmem)⟩
    obtain ⟨dl, hletter, hsame, hpayload⟩ := hd.dead e hmem hdead
    exact ⟨dl, Collection.find_eq_some.mpr ⟨hletter, hsame⟩, hpayload⟩
  · intro key r hfind
    have hkey : r.claim = (key, ingestScope) := Collection.key_of_find hfind
    exact absurd (congrArg Prod.snd hkey) (hd.records r (Collection.mem_of_find hfind))
  · intro t w p id x hstage
    cases hstage
  · intro s t call hs hA hnone ih
    refine ⟨ih.events, ih.records, fun t' w p id x hstage => ?_⟩
    rcases View.stages_spawned hstage with ⟨-, -, rfl⟩ | ⟨-, hold⟩
    · trivial
    · exact ih.stages t' w p id x hold
  · intro s t o w p id x c r db' x' hs hA hpending hx hwork ih
    exact ih.work hx (tracked hs t w p id x hx) hwork
  · intro s t o call c r db' x' hs hA hpending hx hfeed ih
    exact ih.feed hfeed

/-- Whatever workers, replays and crashes do, a dead event has a dead letter with its payload, and a
processed event has been handled with success. Event ids are trimmed. -/
theorem nothing_lost (h : (queue workers).Reaches Working (.start d) s) (hd : d.Unprocessed) :
    (∀ e ∈ s.db.events.docs, e.status = .dlq →
      ∃ dl ∈ s.db.dlq.docs, dl.eventId = e.eventId ∧ dl.payloadSnapshot = e.payloadSnapshot) ∧
    ∀ e ∈ s.db.events.docs, e.status = .processed → ∃ ev ∈ s.log, ev.cmd.succeeds ev.reply = some e.eventId := by
  have haccounted := accounted hd h
  constructor
  · intro e hmem hdead
    obtain ⟨dl, hfind, hpayload⟩ := (haccounted.events e.id e (Collection.find_of_mem hmem)).1 hdead
    exact ⟨dl, Collection.mem_of_find hfind, Collection.key_of_find hfind, hpayload⟩
  · intro e hmem hdone
    exact (haccounted.events e.id e (Collection.find_of_mem hmem)).2 hdone

end invariant

section scenario

/-- The first event is handled with success, the second one with a failure for good. -/
private def settled : List (Label Oracle Call) :=
  [.spawn 0 samplePost, .spawn 1 (.post ⟨"evt-2", "refund", [], none⟩)] ++ turns [0, 0, 0] ++
    turnsWith { sampleOracle with objectId := "event-2" } [1, 1, 1] ++
    [.spawn 2 (.poll 0)] ++ turns [2, 2] ++
    [.spawn 3 (.process 0 2 "event-1"), .spawn 4 (.process 0 2 "event-2")] ++ turns [3, 4, 3, 4, 3, 4, 3] ++
    turnsWith { sampleOracle with outcome := .ok ⟨.nonRetryableFailure, none, none⟩ } [4, 4, 4, 4, 4, 4] ++
    turns [3, 3, 3] ++ [.spawn 5 (.crash 0)]

theorem nothing_lost_sample : ∃ s, (queue fun _ => ⟨["refund"], ({} : WorkerOptions).config⟩).Reaches Working
    (.start .empty) s ∧ s.db.events.docs.map (·.status) = [.processed, .dlq] ∧
      (∀ e ∈ s.db.events.docs, e.status = .dlq →
        ∃ dl ∈ s.db.dlq.docs, dl.eventId = e.eventId ∧ dl.payloadSnapshot = e.payloadSnapshot) ∧
      ∀ e ∈ s.db.events.docs, e.status = .processed → ∃ ev ∈ s.log, ev.cmd.succeeds ev.reply = some e.eventId := by
  obtain ⟨s, hs, hstatus⟩ := Machine.exists_reaches (queue fun _ => ⟨["refund"], ({} : WorkerOptions).config⟩) Working
    (.start .empty) settled (fun s => s.db.events.docs.map (·.status)) (a := [.processed, .dlq]) (by decide +kernel)
  have hempty : Db.empty.Unprocessed := by constructor <;> simp [Db.empty, Collection.empty]
  exact ⟨s, hs, hstatus, nothing_lost hs hempty⟩

end scenario
end RedRoomRewards.Ingest
