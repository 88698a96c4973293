import RedRoomRewards.Process.Program
import RedRoomRewards.Protocol.Entries
import RedRoomRewards.Service.Calls

/-! The keys under which the programs of the services submit ledger entries. -/
namespace RedRoomRewards
open Process Prog LedgerService

variable {α β : Type} {P : String → Prop}

/-- Every ledger entry that the program submits has a key that satisfies `P`, trimmed as it is. -/
abbrev Submits (P : String → Prop) (p : Service α) : Prop :=
  p.Issues fun c : Cmd => ∀ key, c.ledgerKey = some key → P key

private theorem submits_issue (c : Cmd) (hc : c.ledgerKey = none) : Submits P (issue c) := by
  refine ⟨fun key hkey => ?_, fun _ => trivial⟩
  rw [hc] at hkey
  cases hkey

private theorem submits_insertEntry {e : LedgerEntry} (hkey : P e.idempotencyKey) : Submits P (insertEntry e) := by
  refine ⟨?_, fun reply => ?_⟩
  · rintro key ⟨⟩
    exact hkey
  · cases reply with
    | ok created => trivial
    | error error =>
      show Submits P (if error = .duplicateKey ["idempotencyKey"] then _ else _)
      split
      · exact (submits_issue _ rfl).bind fun _ => issues_orThrow _ _
      · trivial

theorem submits_createEntry {config : LedgerService.Config} {request : CreateLedgerEntryRequest}
    (hkey : P (trim request.idempotencyKey)) : Submits P (createEntry config request) := by
  unfold createEntry
  refine (issues_throwIf _ _).bind fun _ => (issues_throwIf _ _).bind fun _ => ?_
  cases request.metadata.bind piiIn with
  | some message => trivial
  | none =>
    have hgiven : Submits P (givenOrFresh request.transactionId) := by
      unfold givenOrFresh
      split
      · split
        · exact submits_issue _ rfl
        · trivial
      · exact submits_issue _ rfl
    refine (submits_issue _ rfl).bind fun entryId => hgiven.bind fun transactionId => ?_
    refine (submits_issue _ rfl).bind fun timestamp => (issues_throwIf _ _).bind fun _ => ?_
    exact (issues_orThrow _ _).bind fun reason => submits_insertEntry hkey

private theorem submits_created (reply : Except MongoError α) : Submits P (created reply) := by
  cases reply <;> trivial

private theorem submits_getOrCreateWallet {currency userId : String} :
    Submits P (WalletService.getOrCreateWallet currency userId) := by
  refine (submits_issue _ rfl).bind fun wallet => ?_
  cases wallet with
  | some wallet => trivial
  | none => exact (submits_issue _ rfl).bind fun _ => submits_created _

section accrual
open PointAccrualService
variable {config : PointAccrualService.Config} {request : AwardPointsRequest}

private theorem submits_checkFirst {first : Prop} [Decidable first] {operationType : String} :
    Submits P (checkFirst first request operationType) := by
  unfold checkFirst
  split
  · refine Issues.bind ?_ fun _ => issues_throwIf _ _
    exact (submits_issue _ rfl).bind fun _ => trivial
  · trivial

theorem submits_awardPoints (hkey : P (trim request.idempotencyKey)) : Submits P (awardPoints config request) := by
  unfold awardPoints
  induction config.maxRetryAttempts with
  | zero => trivial
  | succ left ih =>
    have hamount : Submits P (PointAccrualService.validateAmount config request.amount) :=
      (issues_throwIf _ _).bind fun _ => (issues_throwIf _ _).bind fun _ => issues_throwIf _ _
    refine hamount.bind fun _ => (issues_throwIf _ _).bind fun _ => submits_checkFirst.bind fun _ => ?_
    refine submits_getOrCreateWallet.bind fun wallet => (submits_issue _ rfl).bind fun updated => ?_
    cases updated with
    | none => exact ih
    | some _ =>
      refine (submits_issue _ rfl).bind fun transactionId => (submits_issue _ rfl).bind fun timestamp => ?_
      exact (submits_createEntry hkey).bind fun _ => trivial

end accrual

theorem submits_processUserExpiration {config : PointExpirationService.Config} {userId requestId : String}
    (hkey : ∀ timestamp : Time, P (trim ("expiration-" ++ userId ++ "-" ++ timestamp.isoDate))) :
    Submits P (PointExpirationService.processUserExpiration config userId requestId) := by
  have hquery : Submits P (queryEntries (PointExpirationService.creditFilter userId)) :=
    (submits_issue _ rfl).bind fun _ => (submits_issue _ rfl).bind fun _ => trivial
  refine hquery.bind fun ledgerResult => (submits_issue _ rfl).bind fun now => ?_
  dsimp only
  split
  · trivial
  · refine (submits_issue _ rfl).bind fun wallet => (issues_orThrow _ _).bind fun wallet => ?_
    split
    · trivial
    · refine (submits_issue _ rfl).bind fun updated => ?_
      cases updated with
      | none => trivial
      | some _ =>
        refine (submits_issue _ rfl).bind fun transactionId => (submits_issue _ rfl).bind fun timestamp => ?_
        exact (submits_createEntry (hkey timestamp)).bind fun _ => trivial

theorem submits_manualAdjustment {config : AdminOpsService.Config} {request : ManualAdjustmentRequest}
    (hkey : P (trim ("admin-adjustment-" ++ request.admin.adminId ++ "-" ++ request.userId ++ "-" ++
      request.requestId))) :
    Submits P (AdminOpsService.manualAdjustment config request) := by
  have hauth : Submits P (AdminOpsService.validateAdminAuth request.admin) :=
    (issues_throwIf _ _).bind fun _ => issues_throwIf _ _
  refine hauth.bind fun _ => (issues_throwIf _ _).bind fun _ => (issues_throwIf _ _).bind fun _ => ?_
  refine (issues_throwIf _ _).bind fun _ => (submits_issue _ rfl).bind fun wallet => ?_
  refine (issues_orThrow _ _).bind fun wallet => (issues_throwIf _ _).bind fun _ => ?_
  refine (submits_issue _ rfl).bind fun updated => ?_
  cases updated with
  | none => trivial
  | some _ =>
    refine (submits_issue _ rfl).bind fun transactionId => (submits_issue _ rfl).bind fun timestamp => ?_
    exact (submits_createEntry hkey).bind fun _ => trivial

section redemption
variable {config : WalletService.Config} {request : EscrowHoldRequest}

private theorem submits_executeHold (hdebit : P (trim (request.idempotencyKey ++ "_debit")))
    (hcredit : P (trim (request.idempotencyKey ++ "_credit"))) : Submits P (WalletService.executeHoldInEscrow config request) := by
  have hpublish : ∀ event, Submits P (WalletService.publish event) := fun event =>
    (submits_issue _ rfl).bind fun _ => (submits_issue _ rfl).bind fun _ => (submits_issue _ rfl).bind fun _ => trivial
  refine submits_getOrCreateWallet.bind fun wallet => (issues_throwIf _ _).bind fun _ => ?_
  refine (submits_issue _ rfl).bind fun escrowId => (submits_issue _ rfl).bind fun createdAt => ?_
  refine (submits_issue _ rfl).bind fun reply => (submits_created reply).bind fun _ => ?_
  refine (submits_issue _ rfl).bind fun updated => ?_
  cases updated with
  | none => exact (submits_issue _ rfl).bind fun _ => trivial
  | some _ =>
    refine (submits_issue _ rfl).bind fun transactionId => (submits_issue _ rfl).bind fun timestamp => ?_
    refine (submits_createEntry hdebit).bind fun _ => (submits_createEntry hcredit).bind fun _ => ?_
    exact (hpublish _).bind fun _ => trivial

theorem submits_holdInEscrow (hdebit : P (trim (request.idempotencyKey ++ "_debit")))
    (hcredit : P (trim (request.idempotencyKey ++ "_credit"))) : Submits P (WalletService.holdInEscrow config request) := by
  have hclaim : Submits P (WalletService.claim request.idempotencyKey "hold_escrow") := by
    refine Issues.bind ?_ fun _ => issues_throwIf _ _
    refine (submits_issue _ rfl).bind fun expiresAt => (submits_issue _ rfl).bind fun retentionUntil => ?_
    refine (submits_issue _ rfl).bind fun reply => ?_
    split <;> trivial
  refine hclaim.bind fun _ => ?_
  induction config.maxRetryAttempts with
  | zero => trivial
  | succ left ih =>
    refine (submits_executeHold hdebit hcredit).catching fun error => ?_
    split
    · split
      · exact ih
      · trivial
    · trivial

theorem submits_redeemPoints {redemption : PointRedemptionService.Config} {request : RedeemPointsRequest}
    (hdebit : P (trim ("redemption-" ++ request.userId ++ "-" ++ request.queueItemId ++ "_debit")))
    (hcredit : P (trim ("redemption-" ++ request.userId ++ "-" ++ request.queueItemId ++ "_credit"))) :
    Submits P (PointRedemptionService.redeemPoints redemption config request) := by
  have hamount : Submits P (PointRedemptionService.validateAmount redemption request.amount) :=
    (issues_throwIf _ _).bind fun _ => (issues_throwIf _ _).bind fun _ => issues_throwIf _ _
  have hbalance : Submits P (PointRedemptionService.checkBalance redemption request) := by
    unfold PointRedemptionService.checkBalance
    split
    · refine Issues.bind ?_ fun _ => issues_throwIf _ _
      refine (submits_issue _ rfl).bind fun wallet => ?_
      cases wallet <;> trivial
    · trivial
  refine hamount.bind fun _ => (issues_throwIf _ _).bind fun _ => (issues_throwIf _ _).bind fun _ => ?_
  exact hbalance.bind fun _ => (submits_holdInEscrow hdebit hcredit).bind fun _ => trivial

end redemption
end RedRoomRewards
