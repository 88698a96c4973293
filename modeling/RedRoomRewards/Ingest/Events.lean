import RedRoomRewards.Ingest.Effects

/-! What every run keeps: nothing that is stored is lost, and a call knows the event that
it has claimed. -/
namespace RedRoomRewards.Ingest
open Process Store IngestWorker

section growth
variable {db db' : Db} {id : String}

/-- Every event, dead letter and record is still there, and of the events what never changes. -/
structure Db.Grows (db db' : Db) : Prop where
  events : ∀ id e, db.events.find id = some e → ∃ e', db'.events.find id = some e' ∧ e'.origin = e.origin
  dlq : ∀ key dl, db.dlq.find key = some dl → db'.dlq.find key = some dl
  records : ∀ key r, db.records.find key = some r → db'.records.find key = some r

theorem Db.Grows.refl (db : Db) : db.Grows db :=
  ⟨fun _ e h => ⟨e, h, rfl⟩, fun _ _ h => h, fun _ _ h => h⟩

theorem Db.Grows.modified (db : Db) {f : IngestEvent → IngestEvent}
    (hf : Collection.Keeps IngestEvent.id IngestEvent.eventId f) (horigin : ∀ e, (f e).origin = e.origin) :
    db.Grows { db with events := db.events.modify id f hf } := by
  refine ⟨fun i e hfind => ?_, fun _ _ h => h, fun _ _ h => h⟩
  by_cases hi : i = id
  · subst hi
    exact ⟨f e, Collection.find_modify_self hf hfind, horigin e⟩
  · exact ⟨e, (Collection.find_modify_ne hi f hf).trans hfind, rfl⟩

/-- An identifier that no event has later, none has had before. -/
theorem Db.Grows.foreign (h : db.Grows db') {eventId : String} (hnone : ∀ e ∈ db'.events.docs, e.eventId ≠ eventId) :
    ∀ e ∈ db.events.docs, e.eventId ≠ eventId := by
  intro e hmem
  obtain ⟨e', hfind, horigin⟩ := h.events e.id e (Collection.find_of_mem hmem)
  rw [← IngestEvent.eventId_of_origin horigin]
  exact hnone e' (Collection.mem_of_find hfind)

theorem Work.grows {x x' : Stage} {c : Cmd} {r : c.Reply} (h : Work id db x c r db' x') : db.Grows db' := by
  cases h with
  | claimed e hfind hclaimable => exact .modified db _ IngestEvent.claimed_origin
  | updated e phase u hallows => exact .modified db _ u.apply_origin
  | buried e phase dl hphase hdl hfree =>
    exact ⟨fun _ e h => ⟨e, h, rfl⟩, fun _ _ h => Collection.find_insert_of_find hfree h, fun _ _ h => h⟩
  | recorded e t hfree => exact ⟨fun _ e h => ⟨e, h, rfl⟩, fun _ _ h => h, fun _ _ h => Collection.find_insert_of_find hfree h⟩
  | _ => exact .refl db

theorem Feed.grows {call : Call} {x' : Stage} {c : Cmd} {r : c.Reply} (h : Feed call db c r db' x') :
    db.Grows db' := by
  cases h with
  | queued e hnew hvalid hfree =>
    exact ⟨fun _ e h => ⟨e, Collection.find_insert_of_find hfree h, rfl⟩, fun _ _ h => h, fun _ _ h => h⟩
  | requeued i now hreplay => exact .modified db _ (ReplayController.requeue now).apply_origin
  | _ => exact .refl db

/-- Updates make no event. -/
private theorem find_of_modified {c : IngestEvents} {f : IngestEvent → IngestEvent}
    (hf : Collection.Keeps IngestEvent.id IngestEvent.eventId f) {i : String} {e' : IngestEvent}
    (horigin : ∀ e, (f e).origin = e.origin) (hfind : (c.modify id f hf).find i = some e') :
    ∃ e, c.find i = some e ∧ e.origin = e'.origin := by
  rw [Collection.find_modify] at hfind
  split at hfind
  · rename_i hi
    obtain ⟨e, he, rfl⟩ := Option.map_eq_some_iff.mp hfind
    exact ⟨e, hi ▸ he, (horigin e).symm⟩
  · exact ⟨e', hfind, rfl⟩

/-- An event that `processEvent` leaves was there before. -/
theorem Work.find {x x' : Stage} {c : Cmd} {r : c.Reply} {i : String} {e' : IngestEvent}
    (h : Work id db x c r db' x') (hfind : db'.events.find i = some e') :
    ∃ e, db.events.find i = some e ∧ e.origin = e'.origin := by
  cases h with
  | claimed e hfind₀ hclaimable => exact find_of_modified IngestEvent.claimed_keeps IngestEvent.claimed_origin hfind
  | updated e phase u hallows => exact find_of_modified u.keeps u.apply_origin hfind
  | _ => exact ⟨e', hfind, rfl⟩

/-- `processEvent` touches no event but its own. -/
theorem Work.find_ne {x x' : Stage} {c : Cmd} {r : c.Reply} {i : String} (h : Work id db x c r db' x')
    (hi : i ≠ id) : db'.events.find i = db.events.find i := by
  cases h with
  | claimed e hfind hclaimable => exact Collection.find_modify_ne hi _ IngestEvent.claimed_keeps
  | updated e phase u hallows => exact Collection.find_modify_ne hi _ u.keeps
  | _ => rfl

/-- An event that another call leaves was there before, or is queued anew. -/
theorem Feed.find {call : Call} {x' : Stage} {c : Cmd} {r : c.Reply} {i : String} {e' : IngestEvent}
    (h : Feed call db c r db' x') (hfind : db'.events.find i = some e') :
    (∃ e, db.events.find i = some e ∧ e.origin = e'.origin) ∨
      e'.origin = e' ∧ e'.invalid = [] ∧ db.events.Free e' := by
  cases h with
  | queued e hnew hvalid hfree =>
    simp only [Collection.find_insert hfree] at hfind
    split at hfind
    · obtain rfl := Option.some.inj hfind
      exact .inr ⟨hnew, hvalid, hfree⟩
    · exact .inl ⟨e', hfind, rfl⟩
  | requeued id now hreplay => exact .inl (find_of_modified (ReplayController.requeue now).keeps (ReplayController.requeue now).apply_origin hfind)
  | _ => exact .inl ⟨e', hfind, rfl⟩

end growth

section runs
variable {workers : ℕ → IngestWorker} {A : Schedule} {d : Db} {s : Run}

/-- The event that a call knows is stored, as far as it never changes. -/
def Stage.Tracks (db : Db) (id : String) : Stage → Prop
  | holding e _ | marked e => ∃ e₀, db.events.find id = some e₀ ∧ e₀.origin = e.origin
  | _ => True

theorem Stage.Tracks.grows {db db' : Db} {id : String} {x : Stage} (h : x.Tracks db id) (hgrows : db.Grows db') :
    x.Tracks db' id := by
  cases x with
  | holding e _ | marked e =>
    obtain ⟨e₀, hfind, horigin⟩ := h
    obtain ⟨e₁, hfind₁, horigin₁⟩ := hgrows.events id e₀ hfind
    exact ⟨e₁, hfind₁, horigin₁.trans horigin⟩
  | _ => trivial

private theorem Work.tracks {db db' : Db} {id : String} {x x' : Stage} {c : Cmd} {r : c.Reply}
    (h : Work id db x c r db' x') (hx : x.Tracks db id) : x'.Tracks db' id := by
  have hx' := hx.grows h.grows
  cases h with
  | claimed e hfind hclaimable => exact ⟨e.claimed, Collection.find_modify_self IngestEvent.claimed_keeps hfind, rfl⟩
  | answered e handler r =>
    rw [Stage.afterResponse.eq_def]
    cases r <;> exact hx'
  | updated e phase u hallows => cases phase <;> first | exact hx' | trivial
  | refused e phase dl error hphase hdl hrefused => cases phase <;> first | exact hx' | trivial
  | reread e e' hfind => exact ⟨e', hfind, rfl⟩
  | _ => first | exact hx' | trivial

theorem tracked (h : (queue workers).Reaches A (.start d) s) :
    ∀ t w p id x, (view s).stages t = some (.process w p id, x) → x.Tracks s.db id := by
  refine reaches_invariant (P := fun v => ∀ t w p id x, v.stages t = some (.process w p id, x) → x.Tracks v.db id)
    h (by simp [View.start]) ?_ ?_ ?_
  · intro s t call _ _ _ ih t' w p id x hx
    rcases View.stages_spawned hx with ⟨-, -, rfl⟩ | ⟨-, hold⟩
    · trivial
    · exact ih t' w p id x hold
  · intro s t o w p id x c r db' x' _ _ _ hx hwork ih t' w' p' id' y hy
    rcases View.stages_acted hy with ⟨-, hcall, rfl⟩ | ⟨-, hold⟩
    · obtain ⟨rfl, rfl, rfl⟩ := Call.process.inj hcall
      exact hwork.tracks (ih t w' p' id' x hx)
    · exact (ih t' w' p' id' y hold).grows hwork.grows
  · intro s t o call c r db' x' _ _ _ _ hfeed ih t' w p id y hy
    rcases View.stages_acted hy with ⟨-, -, rfl⟩ | ⟨-, hold⟩
    · cases hfeed <;> trivial
    · exact (ih t' w p id y hold).grows hfeed.grows

/-- The events have identifiers as their schema wants them. -/
def Db.Identified (db : Db) : Prop := ∀ e ∈ db.events.docs, requiredText 256 e.eventId = true

theorem IngestEvent.identified {e : IngestEvent} (h : e.invalid = []) : requiredText 256 e.eventId = true := by
  simp only [IngestEvent.invalid, invalidPaths, List.map_eq_nil_iff, List.filter_eq_nil_iff] at h
  simpa using h ("eventId", requiredText 256 e.eventId) (.head _)

theorem Db.Identified.find {db : Db} (h : db.Identified) {id : String} {e : IngestEvent}
    (hfind : db.events.find id = some e) : requiredText 256 e.eventId = true := h e (Collection.mem_of_find hfind)

theorem identified (hd : d.Identified) (h : (queue workers).Reaches A (.start d) s) : s.db.Identified := by
  refine reaches_invariant (P := fun v => v.db.Identified) h hd (fun _ _ _ _ _ _ ih => ih) ?_ ?_
  · intro s t o w p id x c r db' x' _ _ _ _ hwork ih e' hmem
    obtain ⟨e, hfind, horigin⟩ := hwork.find (Collection.find_of_mem hmem)
    rw [← IngestEvent.eventId_of_origin horigin]
    exact ih.find hfind
  · intro s t o call c r db' x' _ _ _ _ hfeed ih e' hmem
    rcases hfeed.find (Collection.find_of_mem hmem) with ⟨e, hfind, horigin⟩ | ⟨-, hvalid, -⟩
    · rw [← IngestEvent.eventId_of_origin horigin]
      exact ih.find hfind
    · exact IngestEvent.identified hvalid

/-- The record of an event with a proper identifier is accepted by its schema. -/
theorem processedRecord_valid {eventId : String} (h : requiredText 256 eventId = true) (t : Time) :
    (processedRecord eventId t).invalid = [] := by
  have hscope : requiredText 128 ingestScope = true := by decide
  have hhash : requiredText 512 "processed" = true := by decide
  simp [IdempotencyRecord.invalid, invalidPaths, processedRecord, optionalText, h, hscope, hhash]

/-- A thread whose handler has not returned is at that stage. -/
theorem handling_stage (h : (queue workers).Reaches A (.start d) s) {t : ℕ} {eventId : String}
    (hhandling : Handling s t eventId) : ∃ w p id e,
      (view s).stages t = some (.process w p id, .holding e .handling) ∧ e.eventId = eventId := by
  have hinvariant := (working_kept workers).invariant (P := fun call history x =>
    history.head?.bind (fun ev => ev.cmd.invokes) = some eventId →
      ∃ w p id e, call = .process w p id ∧ x = .holding e .handling ∧ e.eventId = eventId) ?_ ?_ h
  · have hcall : ∃ call, s.calls t = some call := by
      cases hnone : s.calls t with
      | some call => exact ⟨call, rfl⟩
      | none => simp [Handling, h.history_of_unspawned hnone] at hhandling
    obtain ⟨call, hcall⟩ := hcall
    have htrack : working.track s t = some (call, working.record call (s.history t)) := by
      rw [Contract.track, hcall, Option.map_some]
    obtain ⟨w, p, id, e, rfl, hx, he⟩ := hinvariant t call _ htrack hhandling
    exact ⟨w, p, id, e, htrack.trans (by rw [hx]), he⟩
  · simp
  · intro call history x t c r _ hmay _ hinvokes
    replace hinvokes : c.invokes = some eventId := hinvokes
    cases c with
    | invoke handler context =>
      cases call with
      | process w p id =>
        obtain ⟨e, rfl, rfl⟩ := hmay
        exact ⟨w, p, id, e, rfl, rfl, Option.some.inj hinvokes⟩
      | _ => exact hmay.2.elim
    | _ => cases hinvokes

end runs
end RedRoomRewards.Ingest
