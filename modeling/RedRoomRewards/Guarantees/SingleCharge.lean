import RedRoomRewards.Guarantees.BalanceLaw
import RedRoomRewards.Protocol.Secrecy

/-! A queue item is charged at most once, however many holds and redemptions race
for it. -/
namespace RedRoomRewards
open Process Store

/-- Holds and redemptions only. -/
def Call.isHold : Call → Bool
  | .hold _ | .redeem _ => true
  | _ => false

theorem Call.operation_of_isHold {call : Call} (h : call.isHold = true) :
    ∃ request, call.operation = .hold request := by
  cases call with
  | hold request => exact ⟨request, rfl⟩
  | redeem request => exact ⟨_, rfl⟩
  | _ => cases h

/-- The queue item a hold is for. -/
def Operation.queueItem : Operation → Option String
  | hold request => some request.queueItemId
  | _ => none

/-- The event is a committed wallet debit for the queue item. -/
def Charges (queueItemId : String) (ev : Event Mongo Call) : Bool :=
  ev.call.operation.queueItem = some queueItemId && (ev.cmd.walletCommit ev.reply).isSome

section runs
variable {config : Config} {d : Db} {s s' : Run} {q : String} {ev : Event Mongo Call}

private theorem serves_isHold : Serves (only Call.isHold) :=
  serves_only fun c hc => by
    obtain ⟨request, hop⟩ := c.operation_of_isHold hc
    simp [hop]

private theorem hold_owned (h : (system config).Reaches (only Call.isHold) (.start d) s) :
    Owned s.db.escrowItems (protocol.track s) := by
  refine owned serves_isHold (fun s hs => hidden_of_no_target hs fun s t c hc => ?_) h
  obtain ⟨request, hop⟩ := Call.operation_of_isHold hc
  simp [hop, Operation.target]

/-- A thread that has charged a queue item has an item of its own stored for it. -/
private theorem charged_item (h : (system config).Reaches (only Call.isHold) (.start d) s)
    (hev : ev ∈ s.log) (hcharges : Charges q ev = true) :
    ∃ request tr i j, ev.call.operation = .hold request ∧
      protocol.track s ev.thread = some (ev.call, tr) ∧ tr.stage = .charged i ∧
      s.db.escrowItems.find i.escrowId = some j ∧ j.queueItemId = q ∧ j.userId = request.userId ∧
      j.amount = request.amount := by
  have htr : protocol.track s ev.thread =
      some (ev.call, protocol.record ev.call (s.history ev.thread)) := by
    rw [Contract.track, h.calls_of_log ev hev, Option.map_some]
  obtain ⟨request, hop⟩ := Call.operation_of_isHold
    (h.calls_satisfy (fun s t c hA => hA) (h.calls_of_log ev hev))
  obtain ⟨hqueue, hcommit⟩ : request.queueItemId = q ∧ (ev.cmd.walletCommit ev.reply).isSome = true := by
    simpa [Charges, hop, Operation.queueItem] using hcharges
  obtain ⟨hfit, hcounts⟩ := recorded h _ _ _ htr (by simp [hop])
  -- the record has the update that the event committed
  have hmem : _ ∈ (s.history ev.thread).filterMap (fun ev => ev.cmd.walletCommit ev.reply) :=
    List.mem_filterMap.mpr ⟨ev, s.mem_history.mpr ⟨hev, rfl⟩, (Option.some_get hcommit).symm⟩
  rw [hcounts.wallets, Option.mem_toList] at hmem
  have hmoved := hfit.moved
  rw [hmem, hop, Option.isSome_some] at hmoved
  have hsuits := hfit.stage
  rw [hop] at hsuits
  obtain ⟨i, hi⟩ := hsuits.charged hmoved.symm
  obtain ⟨request', heq, huser, hamount, hqueue', -⟩ := hsuits.makes (i := i) (by rw [hi]; rfl)
  obtain rfl : request = request' := Operation.hold.inj heq
  obtain ⟨j, hfind, hsame, -⟩ := (hold_owned h).owns _ _ htr i (.inl (by rw [hi]; rfl))
  exact ⟨request, _, i, j, hop, htr, hi, hfind, hsame.queueItemId.trans (hqueue'.trans hqueue),
    hsame.userId.trans huser, hsame.amount.trans hamount⟩

/-- Only one thread charges a queue item. -/
private theorem charging_thread (h : (system config).Reaches (only Call.isHold) (.start d) s)
    {ev' : Event Mongo Call} (hev : ev ∈ s.log) (hcharges : Charges q ev = true) (hev' : ev' ∈ s.log)
    (hcharges' : Charges q ev' = true) : ev.thread = ev'.thread := by
  obtain ⟨_, tr, i, j, -, htr, hi, hfind, hq, -⟩ := charged_item h hev hcharges
  obtain ⟨_, tr', i', j', -, htr', hi', hfind', hq', -⟩ := charged_item h hev' hcharges'
  have hj : j = j' := Collection.eq_of_index (Collection.mem_of_find hfind)
    (Collection.mem_of_find hfind') (hq.trans hq'.symm)
  apply (hold_owned h).makers _ _ _ _ i i' htr htr' (by rw [hi]; rfl) (by rw [hi']; rfl)
  rw [← Collection.key_of_find hfind, ← Collection.key_of_find hfind', hj]

private theorem charges_le_one (h : (system config).Reaches (only Call.isHold) (.start d) s)
    (q : String) : s.log.countP (Charges q) ≤ 1 := by
  by_cases hex : ∃ ev ∈ s.log, Charges q ev = true
  · obtain ⟨ev, hev, hcharges⟩ := hex
    have hcall := h.calls_of_log ev hev
    have htr : protocol.track s ev.thread =
        some (ev.call, protocol.record ev.call (s.history ev.thread)) := by
      rw [Contract.track, hcall, Option.map_some]
    have hcounts := (recorded h _ _ _ htr (operation_ne_other serves_isHold h hcall)).2
    calc s.log.countP (Charges q)
        = (s.history ev.thread).countP (Charges q) := by
          rw [State.history, List.countP_filter]
          apply List.countP_congr
          intro ev' hev'
          have hthread := fun hc => charging_thread h hev' hc hev hcharges
          simpa using hthread
      _ ≤ (s.history ev.thread).countP (fun ev => (ev.cmd.walletCommit ev.reply).isSome) := by
          apply List.countP_mono_left
          intro ev' _ hc
          simp only [Charges, Bool.and_eq_true] at hc
          exact hc.2
      _ = ((s.history ev.thread).filterMap (fun ev => ev.cmd.walletCommit ev.reply)).length :=
          List.length_filterMap_eq_countP.symm
      _ ≤ 1 := by
          rw [hcounts.wallets]
          cases (protocol.record ev.call (s.history ev.thread)).committed <;> simp
  · rw [List.countP_eq_zero.mpr fun ev hev hc => hex ⟨ev, hev, hc⟩]
    exact Nat.zero_le 1

/-- The item of a charged queue item is neither changed nor deleted. -/
private theorem charged_stays (h : (system config).Reaches (only Call.isHold) (.start d) s)
    (h' : (system config).Reaches (only Call.isHold) s s') (hev : ev ∈ s.log)
    (hcharges : Charges q ev = true) {j : EscrowItem} (hj : s.db.escrowItems.find j.escrowId = some j)
    (hq : j.queueItemId = q) : s'.db.escrowItems.find j.escrowId = some j := by
  induction h' using Machine.Reaches.by_steps with
  | start => exact hj
  | spawn s₁ t c _ _ _ ih => exact ih
  | act s₁ t o call c k hs _ ht ih =>
    have hreach := h.trans hs
    have howned := hold_owned hreach
    have htrack := Contract.track_of_thread (K := protocol) ht
    have hsuits := suits serves_isHold hreach t _ htrack
    obtain ⟨request, hop⟩ := Call.operation_of_isHold
      (hreach.calls_satisfy (fun s t c hA => hA) (State.calls_of_thread ht))
    rcases (acted_items serves_isHold hreach ht o).change ih with hsame | ⟨htarget, -⟩ |
      ⟨i, u, hi, -⟩ | ⟨i, hi, hid, -⟩
    · exact hsame
    · rw [hop] at htarget
      cases htarget
    · have htarget := hsuits.closes hi.closes
      rw [hop] at htarget
      cases htarget
    · -- the call that deletes the item made it and has not charged for it
      obtain ⟨_, tr, i', j', -, htr, hi', hfind, hq', -⟩ :=
        charged_item hreach (hs.log_suffix.subset hev) hcharges
      obtain rfl : j = j' := Collection.eq_of_index (Collection.mem_of_find ih)
        (Collection.mem_of_find hfind) (hq.trans hq'.symm)
      have hthread := howned.makers _ _ _ _ i i' htrack htr (by rw [hi]; rfl) (by rw [hi']; rfl)
        (hid.trans (Collection.key_of_find hfind))
      subst hthread
      obtain ⟨-, rfl⟩ := Prod.mk.inj (Option.some.inj (htrack.symm.trans htr))
      rw [hi] at hi'
      cases hi'
  | restart s₁ t o call c _ _ _ ih => exact ih

/-- For each queue item there is at most one escrow item and at most one committed debit, and the
item of a committed debit stays for ever. Identifiers are trimmed. -/
theorem queue_item_charged_once (h : (system config).Reaches (only Call.isHold) (.start d) s)
    (q : String) :
    (∀ i ∈ s.db.escrowItems.docs, ∀ i' ∈ s.db.escrowItems.docs, i.queueItemId = q →
      i'.queueItemId = q → i = i') ∧
    s.log.countP (Charges q) ≤ 1 ∧
    ∀ ev ∈ s.log, Charges q ev = true → ∃ request i, ev.call.operation = .hold request ∧
      i.queueItemId = q ∧ i.userId = request.userId ∧ i.amount = request.amount ∧
      ∀ s', (system config).Reaches (only Call.isHold) s s' →
        s'.db.escrowItems.find i.escrowId = some i := by
  refine ⟨fun i hi i' hi' hq hq' => Collection.eq_of_index hi hi' (hq.trans hq'.symm),
    charges_le_one h q, fun ev hev hcharges => ?_⟩
  obtain ⟨request, tr, i, j, hop, -, -, hfind, hq, huser, hamount⟩ := charged_item h hev hcharges
  refine ⟨request, j, hop, hq, huser, hamount, fun s' h' => ?_⟩
  have hid := Collection.key_of_find hfind
  exact charged_stays h h' hev hcharges (hid ▸ hfind) hq

end runs

section scenario

def sampleRedemption : RedeemPointsRequest where
  userId := "user-1"
  amount := 10
  featureType := "spin_wheel"
  modelId := none
  queueItemId := "queue-1"
  reason := .spinWheelPlay
  requestId := "request-4"
  metadata := none

/-- A second hold beats the first to the wallet; before the first tries again, a
redemption takes its queue item. -/
theorem queue_item_charged_once_by_redemption :
    ∃ s, (system (defaultConfig fun _ => none)).Reaches (only Call.isHold) (.start fundedDb) s ∧
      s.log.countP (Charges "queue-1") = 1 ∧ s.log.countP (Charges "queue-2") = 1 ∧
      s.db.balances "user-1" = (60, 40) ∧ s.log.countP (Charges "queue-1") ≤ 1 := by
  obtain ⟨s, hs, hfacts⟩ := Machine.exists_reaches (system (defaultConfig fun _ => none))
    (only Call.isHold) (.start fundedDb)
    ([.spawn 0 (.hold sampleHold), .spawn 1 (.redeem sampleRedemption),
      .spawn 2 (.hold { sampleHold with queueItemId := "queue-2", idempotencyKey := "hold-2" })] ++
      interleaving (List.replicate 7 0 ++ List.replicate 19 2 ++ [0, 0] ++ List.replicate 20 1 ++
        [0, 0, 0, 0]))
    (fun s => (s.log.countP (Charges "queue-1"), s.log.countP (Charges "queue-2"), s.db.balances "user-1"))
    (a := (1, 1, 60, 40)) (by decide +kernel)
  obtain ⟨hfirst, hrest⟩ := Prod.mk.inj hfacts
  obtain ⟨hsecond, hbalances⟩ := Prod.mk.inj hrest
  exact ⟨s, hs, hfirst, hsecond, hbalances, (queue_item_charged_once hs "queue-1").2.1⟩

end scenario
end RedRoomRewards
