import RedRoomRewards.Guarantees.Conservation
import RedRoomRewards.Protocol.Secrecy

/-! The life of an escrow item: the status in between marks the one call that has
locked it, and a final status stays. -/
namespace RedRoomRewards
open Process Store

/-- The status of an item that some call is closing. -/
def EscrowStatus.Locked : EscrowStatus → Prop
  | settling | refunding | partialSettling => True
  | _ => False

/-- The status of an item that has been closed. -/
def EscrowStatus.Final : EscrowStatus → Prop
  | settled | refunded => True
  | _ => False

theorem Operation.finalStatus_final (op : Operation) : op.finalStatus.Final := by
  cases op <;> trivial

theorem Operation.lockStatus_locked (op : Operation) : op.lockStatus.Locked := by
  cases op <;> trivial

theorem EscrowStatus.Locked.not_final {status : EscrowStatus} (h : status.Locked) : ¬ status.Final := by
  cases status <;> first | exact h.elim | exact id

/-- Thread `t` has locked the item and has not given up the lock. -/
def Claims (s : Run) (t : ℕ) (id : String) : Prop :=
  (∃ ev ∈ s.history t, ∃ i, ev.cmd.locked ev.reply = some i ∧ i.escrowId = id) ∧
    ∀ ev ∈ s.history t, ¬ ev.cmd.Unlocks

/-- Escrow operations that learn of an item only once it is paid for. -/
def Confidential : Schedule := fun s l => only Call.isEscrow s l ∧ Discreet s l

instance (s : Run) (l : Label Oracle Call) : Decidable (Confidential s l) :=
  inferInstanceAs (Decidable (_ ∧ _))

section stages
variable {op : Operation} {stage : Stage} {i : EscrowItem}

/-- The call has given up the lock on its item. -/
def Stage.Released : Stage → Prop
  | reopened .. | closed _ => True
  | _ => False

/-- The two stages agree on whether an item is locked and on whether it was released. -/
structure Stage.SameLock (stage stage' : Stage) : Prop where
  locks : ∀ i, stage'.Locks i ↔ stage.Locks i
  released : stage'.Released ↔ stage.Released

theorem Stage.SameLock.refl (stage : Stage) : stage.SameLock stage := ⟨fun _ => .rfl, .rfl⟩

theorem Stage.sameLock_userPaid (op : Operation) (stage : Stage) :
    stage.SameLock (stage.userPaid op) := by
  cases stage with
  | locked i =>
    rw [Stage.userPaid]
    split <;> exact ⟨fun _ => .rfl, .rfl⟩
  | _ => exact ⟨fun _ => .rfl, .rfl⟩

theorem Stage.sameLock_userMissed (stage : Stage) : stage.SameLock stage.userMissed := by
  cases stage <;> exact ⟨fun _ => .rfl, .rfl⟩

theorem Stage.sameLock_modelPaid (stage : Stage) : stage.SameLock stage.modelPaid := by
  cases stage <;> exact ⟨fun _ => .rfl, .rfl⟩

theorem Stage.sameLock_modelMissed (stage : Stage) : stage.SameLock stage.modelMissed := by
  cases stage <;> exact ⟨fun _ => .rfl, .rfl⟩

theorem Stage.Locks.not_released (h : stage.Locks i) : ¬ stage.Released := by
  cases stage <;> first | exact h.elim | exact id

end stages

section effect
variable {op : Operation} {tr : Track} {items items' : EscrowItems} {c : Cmd} {r : c.Reply}
  {i : EscrowItem}

/-- What a command does to the lock of its call: nothing, taking it, or giving it up. -/
theorem ItemEffect.lock (h : ItemEffect op tr items c r items') :
    (tr.stage.SameLock (tr.after op c r).stage ∧ c.locked r = none ∧ ¬ c.Unlocks) ∨
    (tr.stage = .ready ∧ ¬ c.Unlocks ∧ ∃ i, c.locked r = some i ∧ (tr.after op c r).stage = .locked i) ∨
    (c.Unlocks ∧ c.locked r = none ∧ (tr.after op c r).stage.Released) := by
  cases h with
  | silent hstage _ _ hlocked hunlocks => exact .inl ⟨hstage ▸ .refl _, hlocked, hunlocks⟩
  | claimed record hstage => exact .inl ⟨hstage ▸ ⟨fun _ => .rfl, .rfl⟩, rfl, id⟩
  | paid => exact .inl ⟨Stage.sameLock_userPaid op _, rfl, id⟩
  | missed => exact .inl ⟨Stage.sameLock_userMissed _, rfl, id⟩
  | credited => exact .inl ⟨Stage.sameLock_modelPaid _, rfl, id⟩
  | uncredited => exact .inl ⟨Stage.sameLock_modelMissed _, rfl, id⟩
  | created i hcreate =>
    cases op with
    | hold request => exact .inl ⟨hcreate.1 ▸ ⟨fun _ => .rfl, .rfl⟩, rfl, id⟩
    | _ => exact hcreate.elim
  | locked i t hstage => exact .inr (.inl ⟨hstage, id, i, rfl, rfl⟩)
  | unlocked escrowId u hunlock =>
    refine .inr (.inr ⟨trivial, rfl, ?_⟩)
    obtain ⟨-, ⟨i, halfway, hstage, -⟩ | ⟨i, hstage, -⟩⟩ := hunlock
    · rw [Track.after, hstage]
      trivial
    · rw [Track.after, hstage]
      trivial
  | deleted i hstage => exact .inl ⟨hstage ▸ ⟨fun _ => .rfl, .rfl⟩, rfl, id⟩

/-- A locked item is locked by this call, or it was so before and by nobody's leave. -/
theorem ItemEffect.locked_item (h : ItemEffect op tr items c r items') {id : String} {j : EscrowItem}
    (hj : items'.find id = some j) (hlocked : j.status.Locked) :
    (∃ i, (tr.after op c r).stage.Locks i ∧ i.escrowId = id) ∨
      (items.find id = some j ∧ ∀ i, tr.stage.Locks i → i.escrowId ≠ id) := by
  -- where the items and the lock stay as they are
  have hsame : tr.stage.SameLock (tr.after op c r).stage → items.find id = some j →
      (∃ i, (tr.after op c r).stage.Locks i ∧ i.escrowId = id) ∨
        (items.find id = some j ∧ ∀ i, tr.stage.Locks i → i.escrowId ≠ id) := by
    intro hlock hfind
    by_cases hex : ∃ i, tr.stage.Locks i ∧ i.escrowId = id
    · obtain ⟨i, hi, hid⟩ := hex
      exact .inl ⟨i, (hlock.locks i).mpr hi, hid⟩
    · exact .inr ⟨hfind, fun i hi hid => hex ⟨i, hi, hid⟩⟩
  cases h with
  | silent hstage => exact hsame (hstage ▸ .refl _) hj
  | claimed record hstage => exact hsame (hstage ▸ ⟨fun _ => .rfl, .rfl⟩) hj
  | paid => exact hsame (Stage.sameLock_userPaid op _) hj
  | missed => exact hsame (Stage.sameLock_userMissed _) hj
  | credited => exact hsame (Stage.sameLock_modelPaid _) hj
  | uncredited => exact hsame (Stage.sameLock_modelMissed _) hj
  | created i hcreate hfree =>
    cases op with
    | hold request =>
      rw [Collection.find_insert hfree] at hj
      split at hj
      · obtain rfl : i = j := Option.some.inj hj
        rw [hcreate.2.2.2.2.1] at hlocked
        exact hlocked.elim
      · exact hsame (hcreate.1 ▸ ⟨fun _ => .rfl, .rfl⟩) hj
    | _ => exact hcreate.elim
  | locked i t hstage =>
    rw [Collection.find_modify] at hj
    split at hj
    · rename_i hid
      exact .inl ⟨i, rfl, hid.symm⟩
    · exact .inr ⟨hj, fun i hi => (hstage ▸ hi : Stage.ready.Locks i).elim⟩
  | unlocked escrowId u hunlock =>
    rw [Collection.find_modify] at hj
    split at hj
    · obtain ⟨j', -, rfl⟩ := Option.map_eq_some_iff.mp hj
      obtain ⟨-, ⟨i, halfway, hstage, hid, hu⟩ | ⟨i, hstage, hid, hu⟩⟩ := hunlock
      · exact (show EscrowStatus.held.Locked from hu ▸ hlocked).elim
      · exact absurd (op.finalStatus_final) (EscrowStatus.Locked.not_final (hu ▸ hlocked))
    · rename_i hid
      refine .inr ⟨hj, fun i hi heq => hid ?_⟩
      obtain ⟨-, ⟨i', halfway, hstage, hid', -⟩ | ⟨i', hstage, hid', -⟩⟩ := hunlock
      · obtain rfl : i' = i := (hstage ▸ hi : (Stage.beaten i' halfway).Locks i)
        exact heq.symm.trans hid'
      · obtain rfl : i' = i := (hstage ▸ hi : (Stage.paid i').Locks i)
        exact heq.symm.trans hid'
  | deleted i hstage =>
    rw [Collection.find_erase] at hj
    split at hj
    · cases hj
    · exact hsame (hstage ▸ ⟨fun _ => .rfl, .rfl⟩) hj

/-- The history of a call tells which item it has locked and whether it still is. -/
structure LockTold (hist : List (Event Mongo Call)) (stage : Stage) : Prop where
  took : ∀ i, stage.Locks i → ∃ ev ∈ hist, ev.cmd.locked ev.reply = some i
  kept : ¬ stage.Released → ∀ ev ∈ hist, ¬ ev.cmd.Unlocks
  told : ∀ ev ∈ hist, ∀ i, ev.cmd.locked ev.reply = some i →
    stage.Locks i ∨ ∃ ev ∈ hist, ev.cmd.Unlocks

theorem ItemEffect.lockTold {hist : List (Event Mongo Call)} {t : ℕ} {call : Call}
    (h : ItemEffect op tr items c r items') (htold : LockTold hist tr.stage) :
    LockTold (⟨t, call, c, r⟩ :: hist) (tr.after op c r).stage := by
  obtain ⟨htook, hkept, htold⟩ := htold
  rcases h.lock with ⟨hsame, hlocked, hunlocks⟩ | ⟨hready, hunlocks, i, hlocked, hafter⟩ |
    ⟨hunlocks, hlocked, hreleased⟩
  · refine ⟨fun i hi => ?_, fun hnot => ?_, fun ev hev i hi => ?_⟩
    · obtain ⟨ev, hev, hlock⟩ := htook i ((hsame.locks i).mp hi)
      exact ⟨ev, .tail _ hev, hlock⟩
    · rintro ev (_ | ⟨_, hev⟩)
      · exact hunlocks
      · exact hkept (fun h => hnot (hsame.released.mpr h)) ev hev
    · rcases List.mem_cons.mp hev with rfl | hev
      · rw [hlocked] at hi
        cases hi
      · rcases htold ev hev i hi with hold | ⟨ev', hev', hun⟩
        · exact .inl ((hsame.locks i).mpr hold)
        · exact .inr ⟨ev', .tail _ hev', hun⟩
  · rw [hready] at hkept htold
    rw [hafter]
    refine ⟨fun j hj => ?_, fun _ => ?_, fun ev hev j hj => ?_⟩
    · obtain rfl : i = j := hj
      exact ⟨_, .head _, hlocked⟩
    · rintro ev (_ | ⟨_, hev⟩)
      · exact hunlocks
      · exact hkept id ev hev
    · rcases List.mem_cons.mp hev with rfl | hev
      · exact .inl (Option.some.inj (hlocked.symm.trans hj))
      · rcases htold ev hev j hj with hold | ⟨ev', hev', hun⟩
        · exact hold.elim
        · exact .inr ⟨ev', .tail _ hev', hun⟩
  · refine ⟨fun i hi => absurd hreleased hi.not_released, fun hnot => absurd hreleased hnot, ?_⟩
    exact fun ev hev i hi => .inr ⟨_, .head _, hunlocks⟩

end effect

section runs
variable {config : Config} {A : Schedule} {d : Db} {s s' : Run}

theorem lock_told (h : (system config).Reaches A (.start d) s) {t : ℕ} {call : Call} {tr : Track}
    (htr : protocol.track s t = some (call, tr)) (hne : call.operation ≠ .other) :
    LockTold (s.history t) tr.stage := by
  refine (protocol_kept config).invariant (P := fun call hist tr => call.operation ≠ .other →
    LockTold hist tr.stage) (fun call _ => ?_) ?_ h t call tr htr hne
  · exact ⟨fun i hi => hi.elim, by simp, by simp⟩
  · rintro call hist tr t c r ih hmay ⟨o, db, rfl⟩ hne
    have heffect : ItemEffect _ _ db.escrowItems c _ _ := item_effect o (hmay.resolve_left hne)
    exact heffect.lockTold (ih hne)

/-- A thread claims the item its stage says it has locked. -/
theorem claims_iff (h : (system config).Reaches A (.start d) s) {t : ℕ} {call : Call} {tr : Track}
    (htr : protocol.track s t = some (call, tr)) (hne : call.operation ≠ .other) {id : String} :
    Claims s t id ↔ ∃ i, tr.stage.Locks i ∧ i.escrowId = id := by
  have htold := lock_told h htr hne
  constructor
  · rintro ⟨⟨ev, hev, i, hi, hid⟩, hnone⟩
    rcases htold.told ev hev i hi with hlocks | ⟨ev', hev', hun⟩
    · exact ⟨i, hlocks, hid⟩
    · exact absurd hun (hnone ev' hev')
  · rintro ⟨i, hi, hid⟩
    obtain ⟨ev, hev, hlock⟩ := htold.took i hi
    exact ⟨⟨ev, hev, i, hlock, hid⟩, htold.kept hi.not_released⟩

/-- A thread that claims an item was spawned. -/
theorem Claims.track (h : (system config).Reaches A (.start d) s) {t : ℕ} {id : String}
    (hc : Claims s t id) : ∃ call tr, protocol.track s t = some (call, tr) := by
  obtain ⟨⟨ev, hev, -⟩, -⟩ := hc
  obtain ⟨hmem, rfl⟩ := s.mem_history.mp hev
  exact ⟨_, _, by rw [Contract.track, h.calls_of_log ev hmem, Option.map_some]⟩

/-- An item with a status in between is claimed, or it has been so from the start. -/
private theorem locked_claimed (hA : Serves A) (h : (system config).Reaches A (.start d) s) {id : String}
    {j : EscrowItem} (hj : s.db.escrowItems.find id = some j) (hlocked : j.status.Locked) :
    (∃ t call tr i, protocol.track s t = some (call, tr) ∧ tr.stage.Locks i ∧ i.escrowId = id) ∨
      d.escrowItems.find id = some j := by
  induction h using Machine.Reaches.by_steps with
  | start => exact .inr hj
  | spawn s t c hs _ ht ih =>
    rcases ih hj with ⟨t', call, tr, i, htr, hi, hid⟩ | hstart
    · have hne : t' ≠ t := by
        rintro rfl
        simp [Contract.track, State.calls, ht] at htr
      refine .inl ⟨t', call, tr, i, ?_, hi, hid⟩
      rw [Contract.track_spawned hs ht, Function.update_of_ne hne]
      exact htr
    · exact .inr hstart
  | act s t o call c k hs _ ht ih =>
    rw [Contract.track_acted ht]
    rcases (acted_items hA hs ht o).locked_item hj hlocked with ⟨i, hi, hid⟩ | ⟨hold, hnot⟩
    · exact .inl ⟨t, call, _, i, Function.update_self .., hi, hid⟩
    · rcases ih hold with ⟨t', call', tr, i, htr, hi, hid⟩ | hstart
      · have hne : t' ≠ t := by
          rintro rfl
          rw [Contract.track_of_thread ht] at htr
          obtain ⟨rfl, rfl⟩ := Prod.mk.inj (Option.some.inj htr)
          exact hnot i hi hid
        exact .inl ⟨t', call', tr, i, by rwa [Function.update_of_ne hne], hi, hid⟩
      · exact .inr hstart
  | restart s t o call c _ _ ht ih =>
    rw [Contract.track_restarted ht]
    exact ih hj

/-- An item in between is changed only by a call that claims it; a closed item by none. -/
private theorem changed_by (hA : Serves A) (h : (system config).Reaches A (.start d) s)
    (howned : Owned s.db.escrowItems (protocol.track s)) {t : ℕ} {call : Call} {c : Cmd}
    {k : c.Reply → Service (Next Call Response)} (o : Oracle)
    (ht : s.threads t = some ⟨call, .call (I := Mongo) c k⟩) {id : String} {j : EscrowItem}
    (hj : s.db.escrowItems.find id = some j) (hne : (exec o s.db c).2.escrowItems.find id ≠ some j) :
    (j.status = .held ∨ Claims s t id) ∧ ¬ j.status.Final := by
  have htrack := Contract.track_of_thread (K := protocol) ht
  have howns := howned.owns t _ htrack
  rcases (acted_items hA h ht o).change hj with hsame | ⟨-, hheld, -⟩ | ⟨i, u, hi, hid, -⟩ |
    ⟨i, hi, hid, -⟩
  · exact absurd hsame hne
  · exact ⟨.inl hheld, by simp [hheld, EscrowStatus.Final]⟩
  · refine ⟨.inr ((claims_iff h htrack (operation_ne_other hA h (State.calls_of_thread ht))).mpr
      ⟨i, hi, hid⟩), ?_⟩
    obtain ⟨j', hj', -, hstatus⟩ := howns i (.inr hi.closes)
    rw [hid, hj] at hj'
    obtain rfl : j = j' := Option.some.inj hj'
    rw [hstatus _ (hi.statusAt _)]
    exact call.operation.lockStatus_locked.not_final
  · obtain ⟨j', hj', -, hstatus⟩ := howns i (.inl (by rw [hi]; rfl))
    rw [hid, hj] at hj'
    obtain rfl : j = j' := Option.some.inj hj'
    have hheld : j.status = .held := hstatus .held (by rw [hi]; rfl)
    exact ⟨.inl hheld, by simp [hheld, EscrowStatus.Final]⟩

/-- A closed item stays as it is in every later state. -/
private theorem final_stays (hA : Serves A)
    (howned : ∀ s, (system config).Reaches A (.start d) s → Owned s.db.escrowItems (protocol.track s))
    (h : (system config).Reaches A (.start d) s) (h' : (system config).Reaches A s s') {id : String}
    {j : EscrowItem} (hj : s.db.escrowItems.find id = some j) (hfinal : j.status.Final) :
    s'.db.escrowItems.find id = some j := by
  induction h' with
  | start => exact hj
  | step hs hAs hstep ih =>
    have hreach := h.trans hs
    obtain ⟨t, c, -, -, rfl⟩ | ⟨t, o, call, c, k, -, ht, rfl⟩ | ⟨t, o, call, c, -, -, rfl⟩ :=
      Machine.step_cases hstep
    · exact ih
    · by_contra hne
      exact (changed_by hA hreach (howned _ hreach) o ht ih hne).2 hfinal
    · exact ih

/-- A closing call that has returned has closed its item. -/
private theorem returned_closes (hA : Serves A) (h : (system config).Reaches A (.start d) s) {t : ℕ}
    {call : Call} {tr : Track} {r : Response} {id : String} (htr : protocol.track s t = some (call, tr))
    (htarget : call.operation.target = some id) (hr : s.result t = some (.ok r)) :
    ∃ i, tr.stage = .closed i ∧ i.escrowId = id := by
  have hne := operation_ne_other hA h (Contract.calls_of_track htr)
  have hsuits := suits hA h t _ htr
  obtain ⟨hdone, -⟩ | ⟨-, userId, hop⟩ := ended h htr hne hr
  · cases hst : tr.stage with
    | closed i =>
      refine ⟨i, rfl, ?_⟩
      have htarget' := hsuits.closes (i := i) (by rw [hst]; rfl)
      exact Option.some.inj (htarget'.symm.trans htarget)
    | charged i =>
      rw [hst] at hsuits
      obtain ⟨request, hop, -⟩ := hsuits
      rw [hop] at htarget
      cases htarget
    | posted =>
      rw [hst] at hsuits
      rw [Operation.target_of_claim hsuits] at htarget
      cases htarget
    | _ =>
      rw [hst] at hdone
      exact hdone.elim
  · rw [hop] at htarget
    cases htarget

theorem serves_confidential : Serves Confidential := fun s t c hA => serves_isEscrow s t c hA.1

theorem confidential_owned (h : (system config).Reaches Confidential (.start d) s) :
    Owned s.db.escrowItems (protocol.track s) :=
  owned serves_confidential (fun _ hs => hidden serves_confidential (fun _ _ hA => hA.2) hs) h

/-- A claim is a lock the call holds at its present stage. -/
private theorem Claims.locks (hA : Serves A) (h : (system config).Reaches A (.start d) s) {t : ℕ}
    {id : String} (hc : Claims s t id) :
    ∃ call tr i, protocol.track s t = some (call, tr) ∧ tr.stage.Locks i ∧ i.escrowId = id := by
  obtain ⟨call, tr, htr⟩ := hc.track h
  have hne := operation_ne_other hA h (Contract.calls_of_track htr)
  obtain ⟨i, hi, hid⟩ := (claims_iff h htr hne).mp hc
  exact ⟨call, tr, i, htr, hi, hid⟩

/-- A call that claims an item has not returned. -/
private theorem Claims.not_returned (hA : Serves A) (h : (system config).Reaches A (.start d) s) {t : ℕ}
    {id : String} (hc : Claims s t id) (r : Response) : s.result t ≠ some (.ok r) := by
  intro hr
  obtain ⟨call, tr, i, htr, hi, -⟩ := hc.locks hA h
  have hne := operation_ne_other hA h (Contract.calls_of_track htr)
  obtain ⟨hdone, -⟩ | ⟨hstage, -⟩ := ended h htr hne hr
  · cases hst : tr.stage <;> simp_all [Stage.Locks, Stage.Done]
  · rw [hstage] at hi
    exact hi

/-- The life cycle of an escrow item. A status in between marks an item that exactly one call, in
flight or failed, has locked (or that was left so by an earlier run and that no call can lock); only
that call changes it; a final status is never left; and at most one closing call returns.
Identifiers are trimmed. -/
theorem escrow_life_cycle (h : (system config).Reaches Confidential (.start d) s) :
    (∀ id j, s.db.escrowItems.find id = some j → j.status.Locked →
      (∃! t, Claims s t id) ∨ (d.escrowItems.find id = some j ∧ ∀ t, ¬ Claims s t id)) ∧
    (∀ t id r, Claims s t id → s.result t ≠ some (.ok r)) ∧
    (∀ l s' id j, (system config).step s l = some s' → s.db.escrowItems.find id = some j →
      j.status.Locked → s'.db.escrowItems.find id ≠ some j → ∃ t o, l = .run t o ∧ Claims s t id) ∧
    (∀ s' id j, (system config).Reaches Confidential s s' → s.db.escrowItems.find id = some j →
      j.status.Final → s'.db.escrowItems.find id = some j) ∧
    (∀ t t' call call' id r r', s.calls t = some call → s.calls t' = some call' →
      call.operation.target = some id → call'.operation.target = some id →
      s.result t = some (.ok r) → s.result t' = some (.ok r') → t = t') := by
  have hA := serves_confidential
  have howned := confidential_owned h
  refine ⟨fun id j hj hlocked => ?_, fun t id r hc => hc.not_returned hA h r,
    fun l s' id j hstep hj hlocked hne => ?_, fun s' id j h' => ?_, ?_⟩
  · by_cases hclaimed : ∃ t, Claims s t id
    · left
      obtain ⟨t, hc⟩ := hclaimed
      refine ⟨t, hc, fun t' hc' => ?_⟩
      obtain ⟨call, tr, i, htr, hi, hid⟩ := hc.locks hA h
      obtain ⟨call', tr', i', htr', hi', hid'⟩ := hc'.locks hA h
      exact howned.closers t' t _ _ i' i htr' htr hi'.closes hi.closes (hid'.trans hid.symm)
    · right
      have hnone : ∀ t, ¬ Claims s t id := fun t hc => hclaimed ⟨t, hc⟩
      refine ⟨?_, hnone⟩
      rcases locked_claimed hA h hj hlocked with ⟨t, call, tr, i, htr, hi, hid⟩ | hstart
      · have hne := operation_ne_other hA h (Contract.calls_of_track htr)
        exact absurd ((claims_iff h htr hne).mpr ⟨i, hi, hid⟩) (hnone t)
      · exact hstart
  · obtain ⟨t, c, rfl, ht, rfl⟩ | ⟨t, o, call, c, k, rfl, ht, rfl⟩ | ⟨t, o, call, c, rfl, ht, rfl⟩ :=
      Machine.step_cases hstep
    · exact absurd hj hne
    · refine ⟨t, o, rfl, ((changed_by hA h howned o ht hj hne).1).resolve_left ?_⟩
      intro hheld
      rw [hheld] at hlocked
      exact hlocked
    · exact absurd hj hne
  · exact final_stays hA (fun _ hs => confidential_owned hs) h h'
  · intro t t' call call' id r r' hcall hcall' htarget htarget' hr hr'
    have htrack : protocol.track s t = some (call, protocol.record call (s.history t)) := by
      rw [Contract.track, hcall, Option.map_some]
    have htrack' : protocol.track s t' = some (call', protocol.record call' (s.history t')) := by
      rw [Contract.track, hcall', Option.map_some]
    obtain ⟨i, hi, hid⟩ := returned_closes hA h htrack htarget hr
    obtain ⟨i', hi', hid'⟩ := returned_closes hA h htrack' htarget' hr'
    exact howned.closers t t' _ _ i i' htrack htrack' (by rw [hi]; rfl) (by rw [hi']; rfl)
      (hid.trans hid'.symm)

/-- A settlement that has locked its item, while a hold ran to its end. -/
theorem escrow_life_cycle_of_settlement : ∃ s, (system (defaultConfig fun _ => none)).Reaches
    Confidential (.start escrowedDb) s ∧
      (s.db.escrowItems.find "escrow-1").map EscrowItem.status = some .settling ∧
      ∃! t, Claims s t "escrow-1" := by
  obtain ⟨s, hs, hfacts⟩ := Machine.exists_reaches (system (defaultConfig fun _ => none))
    Confidential (.start escrowedDb)
    ([.spawn 0 (.settle sampleSettle sampleAuthorization), .spawn 1 (.hold sampleHold)] ++
      interleaving (List.replicate 6 0 ++ List.replicate 19 1))
    (fun s => (s.db.escrowItems.find "escrow-1").map EscrowItem.status)
    (a := some .settling) (by decide +kernel)
  refine ⟨s, hs, hfacts, ?_⟩
  obtain ⟨j, hj, hstatus⟩ := Option.map_eq_some_iff.mp hfacts
  have hlocked : j.status.Locked := by
    rw [hstatus]
    trivial
  apply ((escrow_life_cycle hs).1 _ j hj hlocked).resolve_right
  rintro ⟨hstart, -⟩
  have hheld : (escrowedDb.escrowItems.find "escrow-1").map EscrowItem.status = some .held := by
    decide +kernel
  rw [hstart, Option.map_some, hstatus] at hheld
  cases hheld

end runs
end RedRoomRewards
