import RedRoomRewards.Guarantees.BalanceLaw
import RedRoomRewards.Protocol.Holds

/-! A hold under contention: however often others win the race for the wallet, it leaves
nothing behind when it throws, and one item and one debit when it returns. -/
namespace RedRoomRewards
open Process Store

/-- No balance differs between the two databases. -/
structure Db.SameBalances (db db' : Db) : Prop where
  users : ∀ userId, db'.balances userId = db.balances userId
  models : ∀ modelId, db'.earnedBalance modelId = db.earnedBalance modelId

/-- The amount goes from available to escrow, and no other balance changes. -/
structure EscrowHoldRequest.Moves (request : EscrowHoldRequest) (db db' : Db) : Prop where
  moved : db'.balances request.userId = db.balances request.userId + (-request.amount, request.amount)
  others : ∀ userId, userId ≠ request.userId → db'.balances userId = db.balances userId
  models : ∀ modelId, db'.earnedBalance modelId = db.earnedBalance modelId

section steps
variable {config : Config} {A : Schedule} {d : Db} {s s₁ s₂ : Run} {t : ℕ} {request : EscrowHoldRequest}

/-- A thread that steps has the call it has later. -/
private theorem hold_of_step (hstep : (system config).Steps A d t s₁ s₂ s) (hcall : s.calls t = some (.hold request)) :
    s₁.calls t = some (.hold request) ∧ s₂.calls t = some (.hold request) := by
  obtain ⟨hs₁, ⟨o, hA, hs₂⟩, hlater⟩ := hstep
  have hreach := hs₁.step hA hs₂
  have hsame : s₂.calls = s₁.calls ∧ (s₁.calls t).isSome = true := by
    obtain ⟨t', c, heq, -⟩ | ⟨t', o, call, c, k, heq, ht, rfl⟩ | ⟨t', o, call, c, heq, ht, rfl⟩ :=
      Machine.step_cases hs₂
    · cases heq
    · obtain ⟨rfl, rfl⟩ := Label.run.inj heq
      exact ⟨Machine.acted_calls ht _ _ _, by simp [State.calls, ht]⟩
    · obtain ⟨rfl, rfl⟩ := Label.run.inj heq
      exact ⟨Machine.restarted_calls ht _, by simp [State.calls, ht]⟩
  obtain ⟨call, hold⟩ := Option.isSome_iff_exists.mp hsame.2
  have hend := (hreach.trans hlater).mem_spawns.mp (hlater.spawns_suffix.subset
    (hreach.mem_spawns.mpr (hsame.1 ▸ hold)))
  obtain rfl := Option.some.inj (hend.symm.trans hcall)
  exact ⟨hold, hsame.1 ▸ hold⟩

/-- A hold earns no model anything. -/
private theorem hold_earns_nothing (modelId : String) (c : Cmd) (r : c.Reply) :
    ((Operation.hold request).modelChange modelId c r).getD 0 = 0 := by
  unfold Operation.modelChange
  split
  · split <;> rfl
  · rfl

/-- A step of a hold commits its debit or changes no balance. -/
private theorem hold_step (hserves : Serves A) (hstep : (system config).Steps A d t s₁ s₂ s)
    (hcall : s.calls t = some (.hold request)) :
    s₁.db.SameBalances s₂.db ∨ ∃ ev, s₂.history t = ev :: s₁.history t ∧
      (ev.cmd.walletCommit ev.reply).isSome = true := by
  have hnow := (hold_of_step hstep hcall).1
  obtain ⟨hs₁, ⟨o, hA, hs₂⟩, -⟩ := hstep
  obtain ⟨t', c, heq, -⟩ | ⟨t', o', call, c, k, heq, ht, rfl⟩ | ⟨t', o', call, c, heq, -, rfl⟩ := Machine.step_cases hs₂
  · cases heq
  · obtain ⟨rfl, rfl⟩ := Label.run.inj heq
    obtain rfl := Option.some.inj ((State.calls_of_thread ht).symm.trans hnow)
    cases hcommit : c.walletCommit (exec o s₁.db c).1 with
    | some x => exact .inr ⟨_, Machine.acted_history_self _ _ _ _ _, by simp [hcommit]⟩
    | none =>
      refine .inl ⟨fun userId => ?_, fun modelId => ?_⟩
      · have hbalances := ((acted_wallets hserves hs₁ ht o).balances userId).1
        rwa [Operation.walletChange, hcommit, Option.getD_none, add_zero] at hbalances
      · have hearned := ((acted_modelWallets hserves hs₁ ht o).earned modelId).1
        rwa [Call.operation, hold_earns_nothing, add_zero] at hearned
  · exact .inl ⟨fun _ => rfl, fun _ => rfl⟩

/-- The committed debit moves the amount, to the balances that its update sets. -/
private theorem debit_moves (hserves : Serves A) (h : (system config).Reaches A (.start d) s) {c : Cmd}
    {k : c.Reply → Service (Next Call Response)} {o : Oracle} {f : WalletFilter} {u : WalletUpdate}
    (ht : s.threads t = some ⟨.hold request, .call (I := Mongo) c k⟩)
    (hcommit : c.walletCommit (exec o s.db c).1 = some (f, u)) :
    request.Moves s.db (exec o s.db c).2 ∧ ∀ available escrow version, u = .set available escrow version →
      (exec o s.db c).2.balances request.userId = (available, escrow) := by
  have heffect := acted_wallets hserves h ht o
  obtain ⟨w, hfind, happly, -, huser, -⟩ := heffect.committed hcommit
  have hid : f.userId = request.userId := (Collection.key_of_find hfind).symm.trans huser
  have hmoved := fun userId => (heffect.balances userId).1
  simp only [Operation.walletChange, hcommit, hid] at hmoved
  have hself := hmoved request.userId
  rw [if_pos rfl] at hself
  refine ⟨⟨hself, fun userId hne => ?_, fun modelId => ?_⟩, ?_⟩
  · have hother := hmoved userId
    rwa [if_neg hne.symm, Option.getD_none, add_zero] at hother
  · have hearned := ((acted_modelWallets hserves h ht o).earned modelId).1
    rwa [Call.operation, hold_earns_nothing, add_zero] at hearned
  · rintro available escrow version rfl
    have hset : available = w.availableBalance + -request.amount ∧ escrow = w.escrowBalance + request.amount :=
      ⟨congrArg Wallet.availableBalance happly, congrArg Wallet.escrowBalance happly⟩
    have hread : s.db.balances request.userId = (w.availableBalance, w.escrowBalance) := by
      rw [Db.balances, ← hid, hfind]
      rfl
    rw [hself, hread, hset.1, hset.2]
    rfl

/-- Where only one update was committed, it was committed at one point of the history. -/
private theorem point_unique {hist h h' : List (Event Mongo Call)} {ev ev' : Event Mongo Call}
    (hh : ev :: h <:+ hist) (hh' : ev' :: h' <:+ hist) (hc : (ev.cmd.walletCommit ev.reply).isSome = true)
    (hc' : (ev'.cmd.walletCommit ev'.reply).isSome = true) (hone : (walletCommits hist).length ≤ 1) : h = h' := by
  -- a commit before another one would be a second
  have hbefore : ∀ {h h' ev ev'}, ev' :: h' <:+ hist → (ev.cmd.walletCommit ev.reply).isSome = true →
      (ev'.cmd.walletCommit ev'.reply).isSome = true → ev :: h <:+ ev' :: h' → h = h' := by
    intro h h' ev ev' hlast hc hc' hsuffix
    rcases List.suffix_cons_iff.mp hsuffix with heq | hearlier
    · exact (List.cons.inj heq).2
    · have htwo : (walletCommits (ev' :: ev :: h)).length ≤ (walletCommits hist).length :=
        ((hearlier.sublist.cons_cons ev').trans hlast.sublist).filterMap _ |>.length_le
      obtain ⟨x, hx⟩ := Option.isSome_iff_exists.mp hc
      obtain ⟨x', hx'⟩ := Option.isSome_iff_exists.mp hc'
      simp only [walletCommits, List.filterMap_cons, hx, hx', List.length_cons] at htwo hone
      omega
  rcases List.suffix_or_suffix_of_suffix hh hh' with hle | hle
  · exact hbefore hh' hc hc' hle
  · exact (hbefore hh hc' hc hle).symm

end steps

section ends
variable {config : Config} {A : Schedule} {d : Db} {s : Run} {t : ℕ} {request : EscrowHoldRequest}

private theorem hold_recorded (h : (system config).Reaches A (.start d) s) (hcall : s.calls t = some (.hold request)) :
    ∃ tr, protocol.track s t = some (.hold request, tr) ∧ tr = protocol.record (.hold request) (s.history t) ∧
      (Operation.hold request).Fits tr ∧ walletCommits (s.history t) = tr.committed.toList := by
  have htr : protocol.track s t = some (.hold request, protocol.record (.hold request) (s.history t)) := by
    rw [Contract.track, hcall, Option.map_some]
  obtain ⟨hfit, hcounts⟩ := recorded h t _ _ htr (fun hother => by cases hother)
  exact ⟨_, htr, rfl, hfit, hcounts.wallets⟩

/-- A hold that has thrown, though no ledger write failed, has stored nothing and committed
nothing that it has not given up. -/
private theorem thrown_hold (hleaves : ∀ s l, A s l → LeavesItems t s l) (h : (system config).Reaches A (.start d) s)
    (hcall : s.calls t = some (.hold request)) {e : ServiceError} (he : s.result t = some (.error e))
    (hledger : ¬ e.OfLedger) : itemsOf s t = [] ∧ walletCommits (s.history t) = [] := by
  obtain ⟨tr, htr, hrecord, hfit, hcommits⟩ := hold_recorded h hcall
  have hthrows : tr.Throws e := ended h htr (fun hother => by cases hother) he
  have hstage : (∀ i, ¬ tr.stage.Makes i) ∧ tr.stage.userMoved (.hold request) = false := by
    have hsuits := hfit.stage
    cases hst : tr.stage <;> rw [hst] at hsuits <;> simp only [Track.Throws, hst] at hthrows
    case charged i => exact absurd hthrows hledger
    case closed i => cases hsuits
    case posted => cases hsuits
    all_goals exact ⟨fun _ => id, by simp [Stage.userMoved, Operation.isPartial]⟩
  constructor
  · apply List.eq_nil_iff_forall_not_mem.mpr
    intro i hi
    rw [itemsOf_hold hleaves h hcall, ← hrecord] at hi
    exact hstage.1 i hi
  · have hmoved := hfit.moved
    rw [hstage.2, Option.isSome_eq_false_iff, Option.isNone_iff_eq_none] at hmoved
    rw [hcommits, hmoved, Option.toList_none]

/-- A hold that has returned has one item, still held, and has committed one debit; its
response tells of both. -/
private theorem returned_hold (hleaves : ∀ s l, A s l → LeavesItems t s l) (h : (system config).Reaches A (.start d) s)
    (hcall : s.calls t = some (.hold request)) {r : Response} (hr : s.result t = some (.ok r)) :
    ∃ response i version, r = .hold response ∧ itemsOf s t = [i] ∧ i.escrowId = response.escrowId ∧
      i.userId = request.userId ∧ i.queueItemId = request.queueItemId ∧ i.amount = request.amount ∧
      i.status = .held ∧ walletCommits (s.history t) = [(⟨request.userId, version, none⟩,
        .set response.newAvailableBalance response.escrowBalance (version + 1))] := by
  obtain ⟨tr, htr, hrecord, hfit, hcommits⟩ := hold_recorded h hcall
  have hreturns : (Operation.hold request).Returns tr := ended h htr (fun hother => by cases hother) hr
  have hmoved : tr.stage.userMoved (.hold request) = true := by
    obtain ⟨hdone, -⟩ | ⟨-, userId, hexpire⟩ := hreturns
    · cases hst : tr.stage <;> rw [hst] at hdone <;> first | rfl | exact hdone.elim
    · cases hexpire
  obtain ⟨i, hstage⟩ := hfit.stage.charged hmoved
  have hmakes : tr.stage.Makes i := by
    rw [hstage]
    rfl
  obtain ⟨request', heq, huser, hamount, hqueue, hheld, -⟩ := hfit.stage.makes hmakes
  obtain rfl := Operation.hold.inj heq
  obtain ⟨response, hresponse, ⟨version, hcommit⟩, i', hlast, hid⟩ := hold_answers h hcall hr
  obtain rfl : i = i' := Option.some.inj ((last_made h htr hmakes).symm.trans hlast)
  refine ⟨response, i, version, hresponse, ?_, hid, huser, hqueue, hamount, hheld, ?_⟩
  · have hnodup : (itemsOf s t).Nodup := (List.Nodup.of_map _ s.db.escrowItems.key_nodup).filter _
    refine List.perm_singleton.mp ((List.perm_ext_iff_of_nodup hnodup (List.nodup_singleton i)).mpr fun j => ?_)
    rw [itemsOf_hold hleaves h hcall, ← hrecord, hstage, List.mem_singleton]
    exact eq_comm
  · rw [hcommits] at hcommit ⊢
    cases hcommitted : tr.committed with
    | none =>
      rw [hcommitted] at hcommit
      cases hcommit
    | some x =>
      rw [hcommitted] at hcommit
      rw [Option.toList_some, Option.some.inj hcommit]

end ends

section runs
variable {config : Config} {A : Schedule} {d : Db} {s : Run} {t : ℕ} {request : EscrowHoldRequest}

end runs

section scenario

/-- Service calls that leave the items of thread 0 alone. -/
private def Beside : Schedule := fun s l => only Call.isService s l ∧ LeavesItems 0 s l

private instance (s : Run) (l : Label Oracle Call) : Decidable (Beside s l) :=
  inferInstanceAs (Decidable (only Call.isService s l ∧ LeavesItems 0 s l))

private theorem serves_beside : Serves Beside := fun s t c hc =>
  serves_only (p := Call.isService) (fun c hc => by cases c <;> simp_all [Call.isService, Call.operation])
    s t c hc.1

end scenario
end RedRoomRewards
