import RedRoomRewards.Protocol.Follows
import Mathlib.Tactic.Linarith

/-! The escrow operations follow the protocol. -/
namespace RedRoomRewards
open WalletService LedgerService

variable {config : WalletService.Config} {tr : Track}

section hold
variable {request : EscrowHoldRequest}

/-- What the retry loop relies on: after a lock conflict nothing is left behind. -/
private def HoldEnds (request : EscrowHoldRequest) (tr : Track) :
    Except ServiceError EscrowHoldResponse → Prop
  | .ok _ => (Operation.hold request).Returns tr
  | .error e => tr.Throws e ∧
      ∀ type id, e = .optimisticLock type id → tr.stage = .ready ∧ tr.entries = []

private theorem follows_recordHold {i : EscrowItem} {wallet : Wallet} {f : WalletFilter}
    {u : WalletUpdate} {escrowId : String} (hstage : tr.stage = .charged i) (hentries : tr.entries = [])
    (hw : wallet ∈ tr.wallets) (hcommitted : tr.committed = some (f, u)) (hreads : f.Reads wallet)
    (huser : wallet.userId = request.userId) :
    Follows (.hold request) (HoldEnds request) tr
      (recordHold config request wallet escrowId) := by
  have hdone : tr.stage.Done := by simp [hstage, Stage.Done]
  have hthrow : ∀ (tr' : Track) e, tr'.stage = tr.stage → tr'.Throws (.ledger e) := by
    intro tr' e htr'
    simp [Track.Throws, htr', hstage, ServiceError.OfLedger]
  refine follows_uuidv4 fun transactionId => follows_now fun timestamp => ?_
  refine follows_bind (follows_createEntry hdone ?_ (fun tr' e h => ⟨hthrow tr' e h, nofun⟩) fun tr₁ e₁ h₁ => ?_)
  · refine fun _ => ⟨by simp [hentries], wallet, hw, f, u, hcommitted, hreads, ?_, rfl, rfl, ?_⟩
    · exact huser.symm
    · exact sub_eq_add_neg _ _
  refine follows_bind (follows_createEntry (h₁.stage ▸ hdone) ?_
    (fun tr' e h => ⟨hthrow tr' e (h.trans h₁.stage), nofun⟩) fun tr₂ e₂ h₂ => ?_)
  · rintro ⟨-, hstate⟩
    cases hstate
  refine follows_bind (follows_publish fun ids => .inl ⟨?_, ?_⟩)
  · exact (h₂.stage.trans h₁.stage) ▸ hdone
  · rcases h₁.wrote with hdup | ⟨e, he, haccount, hstate⟩
    · exact .inl (h₂.duplicated hdup)
    · exact .inr ⟨e, h₂.entries he, haccount, hstate⟩

private theorem follows_executeHoldInEscrow (hstage : tr.stage = .ready) (hentries : tr.entries = []) :
    Follows (.hold request) (HoldEnds request) tr (executeHoldInEscrow config request) := by
  have hready : ∀ (tr' : Track) e, tr'.stage = .ready → tr'.Throws e := by
    intro tr' e htr'
    simp [Track.Throws, htr']
  refine follows_bind (follows_getOrCreateWallet hstage
    (fun e => ⟨hready _ _ hstage, by simp [hentries, hstage]⟩) fun missing wallet huser => ?_)
  apply follows_throwIf (fun _ => ⟨hready _ _ hstage, by simp⟩)
  intro henough
  refine follows_uuidv4 fun escrowId => follows_now fun createdAt => ?_
  refine follows_issue ⟨hstage, rfl, rfl, rfl, rfl, .head _⟩ fun reply hreply => ?_
  cases reply with
  | error e => exact ⟨hready _ _ hstage, by simp⟩
  | ok i =>
    obtain ⟨rfl, -⟩ := Possible.createEscrowItem hreply
    refine follows_updateWallet ⟨wallet, .head _, ⟨huser.symm, rfl⟩, ?_, ⟨_, rfl⟩, huser, ?_⟩ ?_ ?_
    · simp [WalletUpdate.apply, Wallet.post, Operation.delta, sub_eq_add_neg]
    · exact not_lt.mp henough
    · refine follows_issue ⟨_, rfl, rfl⟩ fun _ _ => ⟨hready _ _ rfl, fun _ _ _ => ⟨rfl, hentries⟩⟩
    · exact fun w => follows_recordHold rfl hentries (.head _) rfl ⟨huser.symm, rfl⟩ huser

private theorem follows_holdAttempts (left : ℕ) : ∀ tr : Track, tr.stage = .ready → tr.entries = [] →
    Follows (.hold request) (fun tr r => (Operation.hold request).Ends tr r) tr
      (holdAttempts config request left) := by
  induction left with
  | zero =>
    intro tr hstage _
    simp [holdAttempts, Operation.Ends, Track.Throws, hstage]
  | succ left ih =>
    intro tr hstage hentries
    apply (Process.Prog.obeys_catching _ _ _).mpr
    apply (follows_executeHoldInEscrow hstage hentries).imp
    rintro tr' (e | response) h
    · obtain ⟨hthrow, hretry⟩ := h
      match e, hthrow, hretry with
      | .optimisticLock type id, hthrow, hretry =>
        obtain ⟨hstage', hentries'⟩ := hretry type id rfl
        exact follows_ite (fun _ => ih tr' hstage' hentries') fun _ => hthrow
      | .error _, hthrow, _ | .badRequest _, hthrow, _ | .insufficientBalance .., hthrow, _
      | .escrowNotFound _, hthrow, _ | .escrowAlreadyProcessed .., hthrow, _ | .mongo _, hthrow, _
      | .ledger _, hthrow, _ => exact hthrow
    · exact h

theorem follows_holdInEscrow (hstage : tr.stage = .opening) (hentries : tr.entries = []) :
    Follows (.hold request) (fun tr r => (Operation.hold request).Ends tr r) tr
      (holdInEscrow config request) := by
  refine follows_bind (follows_claim hstage rfl (fun e => ?_) ?_)
  · simp [Track.Throws, Operation.Ends, hstage]
  · exact follows_holdAttempts _ _ rfl hentries

end hold

section closing

/-- Throwing in a final stage is left to the ledger. -/
private theorem throws_ledger {i : EscrowItem} (h : tr.stage = .closed i) (tr' : Track)
    (e : LedgerError) (htr' : tr'.stage = tr.stage) : tr'.Throws (.ledger e) := by
  simp [Track.Throws, htr', h, ServiceError.OfLedger]

/-- Reopening an item after a lost race leaves nothing pending. -/
private theorem follows_reopen {α : Type} {op : Operation} {i : EscrowItem} {halfway : Bool}
    {escrowId : String} {e : ServiceError} (hstage : tr.stage = .beaten i halfway)
    (hid : i.escrowId = escrowId) (htarget : op.target = some escrowId) :
    Follows (α := α) op (fun tr r => op.Ends tr r) tr
      (issue (.updateEscrowItem escrowId reopening) >>= fun _ => Process.Prog.throw e) := by
  refine follows_issue ⟨htarget, .inl ⟨i, halfway, hstage, hid, rfl⟩⟩ fun _ _ => ?_
  simp [Operation.Ends, Track.Throws, Track.after, hstage, Stage.unlocked]

end closing

section settle
variable {request : EscrowSettleRequest}

private theorem follows_recordSettle {i : EscrowItem} {modelWallet : ModelWallet}
    (hstage : tr.stage = .closed i) :
    Follows (.settle request) (fun tr r => (Operation.settle request).Ends tr r) tr
      (recordSettle config request i modelWallet) := by
  have hdone : tr.stage.Done := by simp [hstage, Stage.Done]
  apply follows_uuidv4
  intro transactionId
  refine follows_bind (follows_createEntry hdone ?_ (throws_ledger hstage) fun tr₁ e₁ h₁ => ?_)
  · rintro ⟨haccount, -⟩
    cases haccount
  refine follows_now fun timestamp => follows_bind (follows_publish fun ids => .inl ⟨?_, trivial⟩)
  exact h₁.stage ▸ hdone

theorem follows_settleEscrow {authorization : Option QueueSettlementAuthorization}
    (hstage : tr.stage = .opening) :
    Follows (.settle request) (fun tr r => (Operation.settle request).Ends tr r) tr
      (settleEscrow config request authorization) := by
  have hopening : ∀ e, tr.Throws e := by simp [Track.Throws, hstage]
  apply follows_throwIf (fun _ => hopening _)
  intro _
  refine follows_bind (follows_claim hstage rfl hopening ?_)
  refine follows_bind (follows_lockEscrow rfl rfl rfl (fun _ => trivial) fun i hid hheld => ?_)
  refine follows_bind (follows_getOrCreateModelWallet ⟨i, rfl⟩ (fun _ => trivial) fun m hm => ?_)
  refine follows_updateModelWallet ⟨m, .head _, ⟨hm.symm, rfl⟩, rfl, ⟨i, rfl⟩, hm⟩ ?_ fun _ => ?_
  · exact follows_throwIf (fun _ => trivial) fun h => absurd rfl h
  apply follows_throwIf (fun h => nomatch h)
  intro _
  apply follows_findWallet (follows_orThrow (fun _ => rfl) nofun)
  intro w hw
  apply follows_orThrow nofun
  intro w' hw'
  obtain rfl : w = w' := Option.some.inj hw'
  refine follows_updateWallet ⟨w, .head _, ⟨hw.symm, rfl⟩, ?_, i, rfl, hw⟩ ?_ fun _ => ?_
  · simp [WalletUpdate.apply, Wallet.post, Operation.delta]
  · exact follows_reopen rfl hid rfl
  · refine follows_issue ⟨rfl, .inr ⟨i, rfl, hid, rfl⟩⟩ fun _ _ => ?_
    exact follows_recordSettle rfl

end settle

section refund
variable {request : EscrowRefundRequest}

private theorem follows_recordRefund {i : EscrowItem} {wallet updatedWallet : Wallet} {f : WalletFilter}
    {u : WalletUpdate} (hstage : tr.stage = .closed i) (hentries : tr.entries = [])
    (hw : wallet ∈ tr.wallets) (hcommitted : tr.committed = some (f, u)) (hreads : f.Reads wallet)
    (huser : wallet.userId = request.userId) :
    Follows (.refund request) (fun tr r => (Operation.refund request).Ends tr r) tr
      (recordRefund config request wallet updatedWallet) := by
  have hdone : tr.stage.Done := by simp [hstage, Stage.Done]
  apply follows_uuidv4
  intro transactionId
  refine follows_bind (follows_createEntry hdone ?_ (throws_ledger hstage) fun tr₁ e₁ h₁ => ?_)
  · exact fun _ => ⟨by simp [hentries], wallet, hw, f, u, hcommitted, hreads, huser.symm, rfl, rfl, rfl⟩
  refine follows_now fun timestamp => follows_bind (follows_publish fun ids => .inl ⟨?_, ?_⟩)
  · exact h₁.stage ▸ hdone
  · rcases h₁.wrote with hdup | ⟨e, he, haccount, hstate⟩
    · exact .inl hdup
    · exact .inr ⟨e, he, haccount, hstate⟩

theorem follows_refundEscrow {authorization : Option QueueRefundAuthorization}
    (hstage : tr.stage = .opening) (hentries : tr.entries = []) :
    Follows (.refund request) (fun tr r => (Operation.refund request).Ends tr r) tr
      (refundEscrow config request authorization) := by
  have hopening : ∀ e, tr.Throws e := by simp [Track.Throws, hstage]
  apply follows_throwIf (fun _ => hopening _)
  intro _
  refine follows_bind (follows_claim hstage rfl hopening ?_)
  refine follows_bind (follows_lockEscrow rfl rfl rfl (fun _ => trivial) fun i hid hheld => ?_)
  apply follows_findWallet (follows_orThrow (fun _ => trivial) nofun)
  intro w hw
  apply follows_orThrow nofun
  intro w' hw'
  obtain rfl : w = w' := Option.some.inj hw'
  refine follows_updateWallet ⟨w, .head _, ⟨hw.symm, rfl⟩, rfl, ⟨i, rfl⟩, hw⟩ ?_ fun _ => ?_
  · exact follows_reopen rfl hid rfl
  · refine follows_issue ⟨rfl, .inr ⟨i, rfl, hid, rfl⟩⟩ fun _ _ => ?_
    exact follows_recordRefund rfl hentries (.head _) rfl ⟨hw.symm, rfl⟩ hw

end refund

section partialSettle
variable {request : EscrowPartialSettleRequest}

/-- A ledger write of a partial settlement, made or left out. -/
private theorem follows_createEntryIf {amount : ℚ} {entry : CreateLedgerEntryRequest} {i : EscrowItem}
    {ends : Track → Except ServiceError Unit → Prop} (hstage : tr.stage = .closed i)
    (hmay : (Operation.partialSettle request).MayRequest tr entry)
    (hthrow : ∀ tr' e, tr'.stage = tr.stage → ends tr' (.error (.ledger e)))
    (hok : ∀ tr', tr'.stage = tr.stage → ends tr' (.ok ())) :
    Follows (.partialSettle request) ends tr (createEntryIf config amount entry) := by
  have hdone : tr.stage.Done := by simp [hstage, Stage.Done]
  refine follows_ite (fun _ => ?_) fun _ => hok tr rfl
  exact follows_bind (follows_createEntry hdone hmay hthrow fun tr' _ h => hok tr' h.stage)

private theorem follows_recordPartialSettle {i : EscrowItem} {wallet updatedWallet : Wallet}
    {modelWallet : ModelWallet} {f : WalletFilter} {u : WalletUpdate} (hstage : tr.stage = .closed i)
    (hentries : tr.entries = []) (hw : wallet ∈ tr.wallets) (hcommitted : tr.committed = some (f, u))
    (hreads : f.Reads wallet) (huser : wallet.userId = request.userId) :
    Follows (.partialSettle request) (fun tr r => (Operation.partialSettle request).Ends tr r) tr
      (recordPartialSettle config request wallet updatedWallet modelWallet) := by
  have hthrow := throws_ledger hstage
  apply follows_uuidv4
  intro transactionId
  refine follows_bind (follows_createEntryIf hstage ?_ hthrow fun tr₁ h₁ => ?_)
  · exact fun _ => ⟨by simp [hentries], wallet, hw, f, u, hcommitted, hreads, huser.symm, rfl, rfl, rfl⟩
  refine follows_bind (follows_createEntryIf (h₁.trans hstage) ?_
    (fun tr' e h => hthrow tr' e (h.trans h₁)) fun tr₂ h₂ => ?_)
  · rintro ⟨haccount, -⟩
    cases haccount
  refine follows_now fun timestamp => follows_bind (follows_publish fun ids => .inl ⟨?_, trivial⟩)
  simp [h₂, h₁, hstage, Stage.Done]

theorem follows_partialSettleEscrow {authorization : Option QueuePartialSettlementAuthorization}
    (hstage : tr.stage = .opening) (hentries : tr.entries = []) :
    Follows (.partialSettle request) (fun tr r => (Operation.partialSettle request).Ends tr r) tr
      (partialSettleEscrow config request authorization) := by
  have hopening : ∀ e, tr.Throws e := by simp [Track.Throws, hstage]
  apply follows_throwIf (fun _ => hopening _)
  intro _
  refine follows_bind (follows_claim hstage rfl hopening ?_)
  refine follows_bind (follows_lockEscrow rfl rfl rfl (fun _ => trivial) fun i hid hheld => ?_)
  apply follows_throwIf (fun _ => trivial)
  intro hsum
  apply follows_findWallet (follows_orThrow (fun _ => trivial) nofun)
  intro w hw
  apply follows_orThrow nofun
  intro w' hw'
  obtain rfl : w = w' := Option.some.inj hw'
  refine follows_bind (follows_getOrCreateModelWallet ⟨i, rfl⟩ (fun _ => trivial) fun m hm => ?_)
  refine follows_updateWallet ⟨w, .head _, ⟨hw.symm, rfl⟩, rfl, i, rfl, hw, ?_, rfl⟩ ?_ fun _ => ?_
  · exact not_lt.mp hsum
  · exact follows_reopen rfl hid rfl
  refine follows_updateModelWallet ⟨m, .head _, ⟨hm.symm, rfl⟩, rfl, ⟨i, rfl⟩, hm⟩ ?_ fun _ => ?_
  · exact follows_reopen rfl hid rfl
  · refine follows_issue ⟨rfl, .inr ⟨i, rfl, hid, rfl⟩⟩ fun _ _ => ?_
    exact follows_recordPartialSettle rfl hentries (.head _) rfl ⟨hw.symm, rfl⟩ hw

end partialSettle
end RedRoomRewards
