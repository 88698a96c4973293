import RedRoomRewards.Alone.Points
import RedRoomRewards.Alone.Snapshot
import RedRoomRewards.Protocol.Entries

/-! The escrow operations run alone: what a hold adds to the wallet and the ledger, and
what a closing operation leaves alone. -/
namespace RedRoomRewards
open Process Store WalletService

section hold
variable {fair : Oracle → Prop} {db db' : Db} {config : WalletService.Config} {request : EscrowHoldRequest}

/-- An entry of a user's escrow bucket. -/
def LedgerEntry.OfEscrow (e : LedgerEntry) : Prop := e.accountType = .user ∧ e.balanceState = .escrow

instance (e : LedgerEntry) : Decidable e.OfEscrow := inferInstanceAs (Decidable (_ ∧ _))

/-- What a hold has done when it returns. -/
structure HoldDone (request : EscrowHoldRequest) (db db' : Db) : Prop where
  balances : db'.balances request.userId = db.balances request.userId + (-request.amount, request.amount)
  others : ∀ userId ≠ request.userId, db'.balances userId = db.balances userId
  entries : ∃ debit credit, db'.ledger.docs = db.ledger.docs ++ [debit, credit] ∧ ¬ debit.OfEscrow ∧
    credit.OfEscrow ∧ credit.accountId = request.userId ∧ credit.amount = request.amount ∧
    credit.balanceAfter = (db.balances request.userId).2 + request.amount

/-- The keys of the entries of a hold are not in the ledger. -/
def FreshKeys (request : EscrowHoldRequest) (db : Db) : Prop :=
  ∀ e ∈ db.ledger.docs, e.idempotencyKey ≠ trim (request.idempotencyKey ++ "_debit") ∧
    e.idempotencyKey ≠ trim (request.idempotencyKey ++ "_credit")

/-- The call returns with `Q`, or throws anything but a conflict. -/
private def HoldLeaves (Q : Db → Prop) : Except ServiceError EscrowHoldResponse → Db → Prop
  | .ok _, db => Q db
  | .error (.optimisticLock ..), _ => False
  | .error _, _ => True

private theorem HoldLeaves.imp {Q Q' : Db → Prop} {r : Except ServiceError EscrowHoldResponse}
    (h : HoldLeaves Q r db) (himp : Q db → Q' db) : HoldLeaves Q' r db := by
  rcases r with e | a
  · cases e <;> exact h
  · exact himp h

private theorem alone_recordHold {wallet : Wallet} {escrowId : String} (hfresh : FreshKeys request db) :
    Alone fair (HoldLeaves fun db' => db'.wallets = db.wallets ∧
        ∃ debit credit, db'.ledger.docs = db.ledger.docs ++ [debit, credit] ∧ ¬ debit.OfEscrow ∧
          credit.OfEscrow ∧ credit.accountId = request.userId ∧ credit.amount = request.amount ∧
          credit.balanceAfter = wallet.escrowBalance + request.amount)
      (recordHold config request wallet escrowId) db := by
  refine alone_uuidv4 fun transactionId => alone_now fun timestamp => alone_bind ?_
  refine alone_createEntry (fun debit hdebit hfree => ?_) (fun e he hkey => absurd hkey (hfresh e he).1)
    fun error => trivial
  have hnot : ¬ debit.OfEscrow ∧ debit.idempotencyKey = trim (request.idempotencyKey ++ "_debit") := by
    obtain ⟨_, _, _, _, _, rfl⟩ := hdebit
    exact ⟨fun h => (nomatch h.2), rfl⟩
  refine alone_bind (alone_createEntry (fun credit hcredit hfree' => ?_) (fun e he hkey => ?_)
    fun error => trivial)
  · have hescrow : credit.OfEscrow ∧ credit.accountId = request.userId ∧ credit.amount = request.amount ∧
        credit.balanceAfter = wallet.escrowBalance + request.amount := by
      obtain ⟨_, _, _, _, _, rfl⟩ := hcredit
      exact ⟨⟨rfl, rfl⟩, rfl, rfl, rfl⟩
    refine alone_bind (alone_publish fun published => ⟨rfl, debit, credit, ?_, hnot.1, hescrow⟩)
    rw [Collection.docs_insert hfree', Collection.docs_insert hfree, List.append_assoc]
    rfl
  · rcases (Collection.mem_insert hfree).mp he with hold | rfl
    · exact absurd hkey (hfresh e hold).2
    · rw [hnot.2] at hkey
      exact absurd ((trim_append_inj (by decide) (by decide) _).mp hkey) (by decide)

/-- Opening a wallet changes nobody's balances. -/
private theorem alone_executeHold (hfresh : FreshKeys request db) :
    Alone fair (HoldLeaves (HoldDone request db)) (executeHoldInEscrow config request) db := by
  refine alone_bind (alone_getOrCreateWallet (fun _ w wallets hopened => ?_) fun _ e => trivial)
  refine alone_throwIf (fun _ => trivial) fun _ => alone_uuidv4 fun escrowId => alone_now fun createdAt =>
    alone_issue fun o _ => ?_
  simp only [exec]
  generalize create db.escrowItems _ _ _ = result
  obtain ⟨reply, items⟩ := result
  cases reply with
  | error e => trivial
  | ok item =>
    apply alone_updateWallet hopened.find (by simp [WalletFilter.accepts])
    refine Prog.Yields.imp (alone_recordHold hfresh) fun r db' hends => hends.imp ?_
    rintro ⟨hwallets, debit, credit, hdocs, hdebit, hcredit, haccount, hamount, hafter⟩
    obtain ⟨hbalances, hbefore, hothers⟩ := hopened.updated hwallets
    refine ⟨?_, hothers, debit, credit, hdocs, hdebit, hcredit, haccount, hamount, ?_⟩
    · rw [hbalances, ← hbefore]
      exact Prod.ext (sub_eq_add_neg _ _) rfl
    · rw [hafter, ← hbefore]

/-- What a hold does that runs alone and returns. -/
theorem alone_holdInEscrow (hfresh : FreshKeys request db) :
    Alone fair (fun r db' => ∀ a, r = .ok a → HoldDone request db db') (holdInEscrow config request) db := by
  refine alone_bind (alone_claim (fun _ records => ?_) fun _ e => nofun)
  have hattempts : ∀ left, Alone fair (fun r db' => ∀ a, r = .ok a → HoldDone request db db')
      (holdAttempts config request left) { db with records } := by
    intro left
    cases left with
    | zero => exact nofun
    | succ left =>
      have hexecuted : Alone fair (HoldLeaves (HoldDone request { db with records }))
          (executeHoldInEscrow config request) { db with records } := alone_executeHold hfresh
      refine (Prog.yields_catching _ _).mpr (hexecuted.imp ?_)
      rintro (e | a) db' hends
      · cases e <;> first | exact (hends : False).elim | exact nofun
      · exact fun _ _ => ⟨hends.balances, hends.others, hends.entries⟩
  exact hattempts config.maxRetryAttempts

end hold

section records
variable {config : WalletService.Config} {may : Cmd → Prop}

theorem within_recordSettle {request : EscrowSettleRequest} {escrow : EscrowItem} {modelWallet : ModelWallet}
    (hread : ∀ c, c.touches = none → may c) (hpublish : ∀ e, may (.publish e))
    (hwrite : ∀ id e, (settleEntry config request modelWallet id).Describes config.ledger e →
      may (.createLedgerEntry e)) : Within may (recordSettle config request escrow modelWallet) :=
  within_issue (hread _ rfl) fun _ => within_bind (within_createEntry hread (hwrite _)) fun _ =>
    within_issue (hread _ rfl) fun _ => within_bind (within_publish hread hpublish) fun _ => trivial

theorem within_recordRefund {request : EscrowRefundRequest} {wallet updated : Wallet}
    (hread : ∀ c, c.touches = none → may c) (hpublish : ∀ e, may (.publish e))
    (hwrite : ∀ id e, (refundEntry config request wallet id).Describes config.ledger e →
      may (.createLedgerEntry e)) : Within may (recordRefund config request wallet updated) :=
  within_issue (hread _ rfl) fun _ => within_bind (within_createEntry hread (hwrite _)) fun _ =>
    within_issue (hread _ rfl) fun _ => within_bind (within_publish hread hpublish) fun _ => trivial

private theorem within_createEntryIf {amount : ℚ} {entry : LedgerService.CreateLedgerEntryRequest}
    (hread : ∀ c, c.touches = none → may c)
    (hwrite : ∀ e, entry.Describes config.ledger e → may (.createLedgerEntry e)) :
    Within may (createEntryIf config amount entry) := by
  unfold createEntryIf
  split
  · exact within_bind (within_createEntry hread hwrite) fun _ => trivial
  · trivial

theorem within_recordPartialSettle {request : EscrowPartialSettleRequest} {wallet updated : Wallet}
    {modelWallet : ModelWallet} (hread : ∀ c, c.touches = none → may c) (hpublish : ∀ e, may (.publish e))
    (hrefund : ∀ id e, (partialRefundEntry config request wallet id).Describes config.ledger e →
      may (.createLedgerEntry e))
    (hsettle : ∀ id e, (partialSettleEntry config request modelWallet id).Describes config.ledger e →
      may (.createLedgerEntry e)) :
    Within may (recordPartialSettle config request wallet updated modelWallet) :=
  within_issue (hread _ rfl) fun _ => within_bind (within_createEntryIf hread (hrefund _)) fun _ =>
    within_bind (within_createEntryIf hread (hsettle _)) fun _ => within_issue (hread _ rfl) fun _ =>
      within_bind (within_publish hread hpublish) fun _ => trivial

end records

section closing
variable {fair : Oracle → Prop} {db db' db'' : Db} {config : WalletService.Config}

/-- Neither an escrow balance nor an escrow entry is changed. -/
structure SameEscrow (db db' : Db) : Prop where
  balances : ∀ userId, (db'.balances userId).2 = (db.balances userId).2
  entries : ∀ userId, db'.entriesOf userId .user .escrow = db.entriesOf userId .user .escrow

/-- The command leaves the escrow balances and entries as they are. -/
def KeepsEscrow : Cmd → Prop
  | .createWallet _ => False
  | .updateWallet _ u => ∃ a v, u = .inc a 0 v
  | .createLedgerEntry e => ¬ e.OfEscrow
  | _ => True

theorem SameEscrow.trans (h : SameEscrow db db') (h' : SameEscrow db' db'') : SameEscrow db db'' :=
  ⟨fun userId => (h'.balances userId).trans (h.balances userId),
    fun userId => (h'.entries userId).trans (h.entries userId)⟩

private theorem sameEscrow_of_parts (hwallets : db'.wallets = db.wallets) (hledger : db'.ledger = db.ledger) :
    SameEscrow db db' :=
  ⟨fun userId => by rw [Db.balances, hwallets, Db.balances], fun userId => by
    rw [Db.entriesOf, hledger, Db.entriesOf]⟩

theorem exec_keepsEscrow (o : Oracle) (db : Db) {c : Cmd} (hc : KeepsEscrow c) :
    SameEscrow db (exec o db c).2 := by
  cases c with
  | createWallet w => exact hc.elim
  | updateWallet f u =>
    obtain ⟨a, v, rfl⟩ := hc
    refine ⟨fun userId => ?_, fun userId => ?_⟩
    · by_cases h : ∃ w, db.wallets.find f.userId = some w ∧ f.accepts w = true
      · obtain ⟨w, hfind, haccepts⟩ := h
        rw [exec_updateWallet hfind haccepts, Db.balances, Collection.find_modify]
        by_cases hid : userId = f.userId
        · rw [if_pos hid, hfind, hid, Db.balances, hfind]
          exact add_zero _
        · rw [if_neg hid, Db.balances]
      · rw [exec_updateWallet_missed fun w hfind haccepts => h ⟨w, hfind, haccepts⟩]
    · rw [Db.entriesOf, (exec_frame o db _).ledger (by simp [Cmd.touches])]
      rfl
  | createLedgerEntry e =>
    refine ⟨fun userId => ?_, fun userId => ?_⟩
    · rw [Db.balances, (exec_frame o db _).wallets (by simp [Cmd.touches])]
      rfl
    · have hpossible : Possible (.createLedgerEntry e) (exec o db (.createLedgerEntry e)).1 := ⟨o, db, rfl⟩
      rw [Db.entriesOf, exec_ledger, List.filter_append, Db.entriesOf, List.append_right_eq_self,
        List.filter_eq_nil_iff]
      intro e' he'
      obtain rfl := Cmd.createLedgerEntry.inj (hpossible.entry (Option.mem_toList.mp he'))
      simpa using fun _ hty hstate => hc ⟨hty, hstate⟩
  | _ =>
    refine sameEscrow_of_parts ((exec_frame o db _).wallets ?_) ((exec_frame o db _).ledger ?_) <;>
      simp [Cmd.touches]

private theorem keepsEscrow_reads (c : Cmd) (hc : c.touches = none) : KeepsEscrow c := by
  cases c with
  | createWallet w | updateWallet f u | createLedgerEntry e => cases hc
  | _ => trivial

private theorem sameEscrow_of_within {α : Type} {p : Service α} (hsame : SameEscrow db db')
    (hp : Within KeepsEscrow p) : Alone fair (fun _ db'' => SameEscrow db db'') p db' :=
  alone_of_within hp (fun o _ _ hc h => h.trans (exec_keepsEscrow o _ hc)) hsame

/-- A settlement of nothing leaves the escrow balances and entries as they are. -/
theorem alone_settle_nothing {request : EscrowSettleRequest} (hzero : request.amount = 0)
    (authorization : Option QueueSettlementAuthorization) :
    Alone fair (fun _ db' => SameEscrow db db') (settleEscrow config request authorization) db := by
  have hrefl : SameEscrow db db := ⟨fun _ => rfl, fun _ => rfl⟩
  refine alone_throwIf (fun _ => hrefl) fun _ => alone_bind (alone_claim (fun _ records => ?_) fun _ _ => hrefl)
  refine alone_bind (alone_lockEscrow (fun i t _ => ?_) fun _ _ => ⟨fun _ => rfl, fun _ => rfl⟩)
  refine alone_bind (alone_getOrCreateModelWallet (fun _ m ms _ => ?_) fun _ _ => ⟨fun _ => rfl, fun _ => rfl⟩)
  refine sameEscrow_of_within ⟨fun _ => rfl, fun _ => rfl⟩ (within_issue trivial fun _ => within_throwIf
    (within_issue trivial fun w => within_orThrow fun w => within_issue ⟨0, 1, by rw [hzero, neg_zero]⟩ fun updated => ?_))
  cases updated with
  | none => exact within_issue trivial fun _ => trivial
  | some _ =>
    refine within_issue trivial fun _ => within_recordSettle keepsEscrow_reads (fun _ => trivial) ?_
    rintro id e ⟨_, _, _, _, _, rfl⟩ hescrow
    cases hescrow.1

/-- A refund of nothing leaves the escrow balances and entries as they are. -/
theorem alone_refund_nothing {request : EscrowRefundRequest} (hzero : request.amount = 0)
    (authorization : Option QueueRefundAuthorization) :
    Alone fair (fun _ db' => SameEscrow db db') (refundEscrow config request authorization) db := by
  have hrefl : SameEscrow db db := ⟨fun _ => rfl, fun _ => rfl⟩
  refine alone_throwIf (fun _ => hrefl) fun _ => alone_bind (alone_claim (fun _ records => ?_) fun _ _ => hrefl)
  refine alone_bind (alone_lockEscrow (fun i t _ => ?_) fun _ _ => ⟨fun _ => rfl, fun _ => rfl⟩)
  refine sameEscrow_of_within ⟨fun _ => rfl, fun _ => rfl⟩ (within_issue trivial fun w => within_orThrow fun w =>
    within_issue ⟨request.amount, 1, by rw [hzero, neg_zero]⟩ fun updated => ?_)
  cases updated with
  | none => exact within_issue trivial fun _ => trivial
  | some _ =>
    refine within_issue trivial fun _ => within_recordRefund keepsEscrow_reads (fun _ => trivial) ?_
    rintro id e ⟨_, _, _, _, _, rfl⟩ hescrow
    cases hescrow.2

/-- A partial settlement of an item of amount 0 leaves the escrow balances and entries
as they are. -/
theorem alone_partialSettle_nothing {request : EscrowPartialSettleRequest}
    (hzero : ∀ i, db.escrowItems.find request.escrowId = some i → i.amount = 0)
    (authorization : Option QueuePartialSettlementAuthorization) :
    Alone fair (fun _ db' => SameEscrow db db') (partialSettleEscrow config request authorization) db := by
  have hrefl : SameEscrow db db := ⟨fun _ => rfl, fun _ => rfl⟩
  refine alone_throwIf (fun _ => hrefl) fun _ => alone_bind (alone_claim (fun _ records => ?_) fun _ _ => hrefl)
  refine alone_bind (alone_lockEscrow (fun i t hheld => ?_) fun _ _ => ⟨fun _ => rfl, fun _ => rfl⟩)
  refine sameEscrow_of_within ⟨fun _ => rfl, fun _ => rfl⟩ (within_throwIf (within_issue trivial fun w =>
    within_orThrow fun w => within_bind ?_ fun m => within_issue ⟨request.refundAmount, 1, by
      rw [hzero i hheld.1, neg_zero]⟩ fun updated => ?_))
  · exact within_getOrCreateModelWallet keepsEscrow_reads fun _ => trivial
  cases updated with
  | none => exact within_issue trivial fun _ => trivial
  | some _ =>
    apply within_issue trivial
    intro updatedModel
    cases updatedModel with
    | none => exact within_issue trivial fun _ => trivial
    | some _ =>
      refine within_issue trivial fun _ => within_recordPartialSettle keepsEscrow_reads (fun _ => trivial) ?_ ?_
      · rintro id e ⟨_, _, _, _, _, rfl⟩ hescrow
        cases hescrow.2
      · rintro id e ⟨_, _, _, _, _, rfl⟩ hescrow
        cases hescrow.1

end closing
end RedRoomRewards
