import RedRoomRewards.Alone.Bookings
import RedRoomRewards.Alone.Escrow

/-! When a wallet and the ledger change together: what a call leaves behind whose entry the
ledger does not take. -/
namespace RedRoomRewards
open Process Store

section condition

def Db.bucket (db : Db) (userId : String) : BalanceState → ℚ
  | .available => (db.balances userId).1
  | .escrow => (db.balances userId).2
  | .earned => 0

/-- A call that throws has changed no balance and no escrow item; one that returns has
written a new entry for each bucket it has changed. -/
structure Together {α : Type} (db : Db) (r : Except ServiceError α) (db' : Db) : Prop where
  thrown : r.isOk = false →
    (∀ userId, db'.balances userId = db.balances userId) ∧ db'.escrowItems = db.escrowItems
  booked : r.isOk = true → ∀ userId bucket, db'.bucket userId bucket ≠ db.bucket userId bucket →
    ∃ e ∈ db'.ledger.docs, e ∉ db.ledger.docs ∧ e.accountId = userId ∧ e.accountType = .user ∧
      e.balanceState = bucket

/-- New identifiers, and a ledger that can be reached throughout or fails throughout. -/
def Unused (fault : Option String) (db : Db) (o : Oracle) : Prop :=
  o.ledgerFault = fault ∧ ValidId o.uuid ∧ db.ledger.find o.uuid = none ∧ db.escrowItems.find o.uuid = none

instance (fault : Option String) (db : Db) (o : Oracle) : Decidable (Unused fault db o) :=
  inferInstanceAs (Decidable (_ ∧ _ ∧ _ ∧ _))

/-- The hold gets as far as its wallet update. -/
structure HoldGoes (config : WalletService.Config) (request : EscrowHoldRequest) (db : Db) : Prop where
  key : db.Claimable request.idempotencyKey "hold_escrow"
  attempts : 0 < config.maxRetryAttempts
  wallet : ¬ db.Unopenable config.defaultCurrency request.userId
  funds : request.amount ≤ (db.balances request.userId).1
  item : ∀ escrowId createdAt, ValidId escrowId → (WalletService.heldItem request escrowId createdAt).invalid = []
  queueItem : ∀ i ∈ db.escrowItems.docs, i.queueItemId ≠ request.queueItemId

/-- The operations that book what they do to one user's wallet; the `expiresAt` of an award
may be an Invalid Date. -/
inductive Booking where
  | hold (request : EscrowHoldRequest)
  | award (request : AwardPointsRequest)
  | undatedAward (request : AwardPointsRequest)
  | deduct (request : AwardPointsRequest)
  | adjust (request : ManualAdjustmentRequest)

namespace Booking
variable (config : Config) (db : Db)

def body : Booking → Service (Next Call Response)
  | hold request => (Call.hold request).body config
  | award request => (Call.award request).body config
  | undatedAward request => returning .award (PointAccrualService.awardPointsUndated config.accrual request)
  | deduct request => (Call.deduct request).body config
  | adjust request => (Call.adjust request).body config

/-- The call gets as far as its wallet update. -/
def Updates : Booking → Prop
  | hold request => HoldGoes config.wallet request db
  | award request | undatedAward request => AwardGoes config.accrual request db
  | deduct request => DeductGoes config.accrual request db
  | adjust request => AdjustGoes config.adminOps request db

/-- The ledger has nothing against the entries of the call, and takes each of them as a new
one if it has an amount. -/
def Bookable : Booking → Prop
  | hold request => (∀ w escrowId id, ValidId escrowId → ValidId id →
      (WalletService.holdDebit config.wallet request w escrowId id).Sound config.wallet.ledger ∧
        (WalletService.holdCredit config.wallet request w escrowId id).Sound config.wallet.ledger) ∧
      (request.amount ≠ 0 → FreshKeys request db)
  | award request => ∀ w id, ValidId id →
      (PointAccrualService.awardEntry config.accrual request w id).Sound config.accrual.ledger ∧
        (PointAccrualService.awardEntry config.accrual request w id).New db
  | undatedAward _ => False
  | deduct request => ∀ w id, ValidId id →
      (PointAccrualService.deductEntry config.accrual request w id).Sound config.accrual.ledger ∧
        (PointAccrualService.deductEntry config.accrual request w id).New db
  | adjust request => ∀ w id, ValidId id →
      (AdminOpsService.adjustmentEntry config.adminOps request w id).Sound config.adminOps.ledger ∧
        (AdminOpsService.adjustmentEntry config.adminOps request w id).New db

end Booking
end condition

section together
variable {α : Type} {db db' : Db} {fault : Option String} {config : LedgerService.Config}

theorem together_of_unchanged {e : ServiceError} (hbalances : ∀ userId, db'.balances userId = db.balances userId)
    (hitems : db'.escrowItems = db.escrowItems) : Together db (.error e : Except ServiceError α) db' :=
  ⟨fun _ => ⟨hbalances, hitems⟩, fun h => by cases h⟩

theorem bucket_of_balances {userId : String} (h : db'.balances userId = db.balances userId) (bucket : BalanceState) :
    db'.bucket userId bucket = db.bucket userId bucket := by
  cases bucket with
  | available => exact congrArg Prod.fst h
  | escrow => exact congrArg Prod.snd h
  | earned => rfl

/-- What an operation on one wallet does once its update has committed. -/
private theorem leads_booked {entry : String → Time → LedgerService.CreateLedgerEntryRequest}
    {response : String → Time → α} {currency userId : String} {w : Wallet} {wallets : Wallets} {change : ℚ}
    {fair : Db → Oracle → Prop} {C : Prop} (hchange : change ≠ 0)
    (hopened : Opened currency userId db.wallets w wallets)
    (hfair : ∀ o, fair (db.posting wallets userId change) o →
      o.ledgerFault = fault ∧ ValidId o.uuid ∧ db.ledger.find o.uuid = none)
    (hbuilt : ∀ id t, (entry id t).Built id)
    (hentry : ∀ id t, (entry id t).accountId = userId ∧ (entry id t).balanceState = .available)
    (hC : ∀ id t, ValidId id → (C ↔ fault = none ∧ (entry id t).Sound config ∧ (entry id t).New db)) :
    Prog.Leads exec fair (fun r db' => Together db r db' ↔ C) (booking config entry response)
      (db.posting wallets userId change) := by
  have hmoved : ∀ db' : Db, db'.wallets = (db.posting wallets userId change).wallets →
      (db'.balances userId).1 = (db.balances userId).1 + change ∧
        (db'.balances userId).2 = (db.balances userId).2 ∧
        ∀ userId' ≠ userId, db'.balances userId' = db.balances userId' := by
    intro db' hdb'
    obtain ⟨hbalances, hbefore, hothers⟩ := hopened.updated hdb'
    rw [hbalances, ← hbefore]
    exact ⟨rfl, add_zero _, hothers⟩
  have hne : ∀ db' : Db, db'.wallets = (db.posting wallets userId change).wallets →
      (db'.balances userId).1 ≠ (db.balances userId).1 := by
    intro db' hdb' heq
    rw [(hmoved db' hdb').1] at heq
    exact hchange (by simpa using heq)
  refine leads_uuidv4 fun o ho => leads_now fun t => leads_then ?_
  have hid : ValidId o.uuid := (hfair o ho).2.1
  refine leads_createEntry (hbuilt _ t) hid hfair (fun hup hsound hnew e he hfree => ?_)
    (fun hup hsound e he hkey => ?_) fun hnot error => ?_
  · refine iff_of_true ⟨fun h => (by cases h), fun _ userId' bucket hbucket => ?_⟩ ((hC _ t hid).mpr ⟨hup, hsound, hnew⟩)
    obtain ⟨-, hescrow, hothers⟩ := hmoved { db.posting wallets userId change with ledger := _ } rfl
    by_cases huser : userId' = userId
    · subst huser
      obtain ⟨haccount, hstate⟩ := hentry o.uuid t
      have htype := (hbuilt o.uuid t).state.1
      obtain ⟨_, _, _, _, _, rfl⟩ := he
      cases bucket with
      | available =>
        exact ⟨_, (Collection.mem_insert hfree).mpr (.inr rfl), fun hold => hfree.1 _ hold rfl, haccount, htype, hstate⟩
      | escrow => exact absurd hescrow hbucket
      | earned => exact absurd rfl hbucket
    · exact absurd (bucket_of_balances (hothers userId' huser) bucket) hbucket
  · refine iff_of_false (fun h => ?_) fun h => ((hC _ t hid).mp h).2.2 e he hkey
    obtain ⟨e', hmem, hnot, -⟩ := h.booked rfl userId .available (hne _ rfl)
    exact hnot hmem
  · refine iff_of_false (fun h => ?_) fun h => hnot ⟨((hC _ t hid).mp h).1, ((hC _ t hid).mp h).2.1⟩
    exact hne _ rfl (congrArg Prod.fst ((h.thrown rfl).1 userId))

/-- The identifiers a store has go on being taken. -/
private theorem unused_at_first {fair : Db → Oracle → Prop} {post : Except ServiceError α → Db → Prop} {p : Service α}
    (h : Alone (fun o => o.ledgerFault = fault ∧ ValidId o.uuid ∧ db.ledger.find o.uuid = none) post p db)
    (hfair : ∀ db o, fair db o → Unused fault db o) : Prog.Leads exec fair post p db := by
  refine h.leads (P := fun db' => ∀ e ∈ db.ledger.docs, e ∈ db'.ledger.docs) (fun o db' c hkeep e he => ?_)
    (fun o db' hkeep ho => ?_) fun e he => he
  · rw [exec_ledger]
    exact List.mem_append_left _ (hkeep e he)
  · obtain ⟨hfault, hid, hnew, -⟩ := hfair db' o ho
    exact ⟨hfault, hid, Collection.find_eq_none.mpr fun e he => Collection.find_eq_none.mp hnew e (hkeep e he)⟩

end together

section points
variable {db : Db} {fault : Option String}

/-- What the ledger says to one entry of a call that updates the wallet, it says to all. -/
private theorem bookable_iff {Goes : Prop} {config : LedgerService.Config}
    {entry : Wallet → String → LedgerService.CreateLedgerEntryRequest} (hgoes : Goes)
    (hsound : ∀ w id w' id', (entry w id).Sound config → (entry w' id').Sound config)
    (hnew : ∀ w id w' id', (entry w id).New db → (entry w' id').New db) (w : Wallet) {id : String} (hid : ValidId id) :
    (¬ Goes ∨ fault = none ∧ ∀ w id, ValidId id → (entry w id).Sound config ∧ (entry w id).New db) ↔
      fault = none ∧ (entry w id).Sound config ∧ (entry w id).New db := by
  constructor
  · rintro (hnot | ⟨hup, hall⟩)
    · exact absurd hgoes hnot
    · exact ⟨hup, hall w id hid⟩
  · rintro ⟨hup, hs, hn⟩
    exact .inr ⟨hup, fun w' id' _ => ⟨hsound w id w' id' hs, hnew w id w' id' hn⟩⟩

private theorem award_together {config : PointAccrualService.Config} {request : AwardPointsRequest} :
    Alone (fun o => o.ledgerFault = fault ∧ ValidId o.uuid ∧ db.ledger.find o.uuid = none)
      (fun r db' => Together db r db' ↔ ¬ AwardGoes config request db ∨ fault = none ∧ ∀ w id, ValidId id →
        (PointAccrualService.awardEntry config request w id).Sound config.ledger ∧
          (PointAccrualService.awardEntry config request w id).New db)
      (PointAccrualService.awardPoints config request) db := by
  refine alone_awardPoints (fun hnot e => ?_) fun hgoes w wallets hopened => (Prog.leads_iff_yields _).mp ?_
  · exact iff_of_true (together_of_unchanged (fun _ => rfl) rfl) (.inl hnot)
  · refine leads_booked hgoes.amount.2.2.ne' hopened (fun o ho => ho) (fun id t => ?_) (fun id t => ⟨rfl, rfl⟩)
      fun id t hid => bookable_iff hgoes (fun w id w' id' h => ?_) (fun w id w' id' h => ?_) w hid
    · exact ⟨⟨rfl, fun h => (by cases h)⟩, rfl, fun c hc => (by cases hc), rfl⟩
    · exact h.congr rfl rfl rfl rfl rfl rfl rfl rfl rfl
    · exact h

private theorem undated_together {config : PointAccrualService.Config} {request : AwardPointsRequest} :
    Alone (fun o => o.ledgerFault = fault ∧ ValidId o.uuid ∧ db.ledger.find o.uuid = none)
      (fun r db' => Together db r db' ↔ ¬ AwardGoes config request db ∨ fault = none ∧ False)
      (PointAccrualService.awardPointsUndated config request) db := by
  refine alone_awardPointsUndated (fun hnot e => ?_) fun hgoes w wallets hopened e => ?_
  · exact iff_of_true (together_of_unchanged (fun _ => rfl) rfl) (.inl hnot)
  · refine iff_of_false (fun h => ?_) fun h => h.elim (absurd hgoes) And.right
    -- the amount has been added
    obtain ⟨hself, hbefore, -⟩ := hopened.updated
      (rfl : (db.posting wallets request.userId request.amount).wallets = _)
    have hmoved := (h.thrown rfl).1 request.userId
    rw [hself, ← hbefore] at hmoved
    exact hgoes.amount.2.2.ne' (by simpa [WalletUpdate.apply] using congrArg Prod.fst hmoved)

private theorem deduct_together {config : PointAccrualService.Config} {request : AwardPointsRequest} :
    Alone (fun o => o.ledgerFault = fault ∧ ValidId o.uuid ∧ db.ledger.find o.uuid = none)
      (fun r db' => Together db r db' ↔ ¬ DeductGoes config request db ∨ fault = none ∧ ∀ w id, ValidId id →
        (PointAccrualService.deductEntry config request w id).Sound config.ledger ∧
          (PointAccrualService.deductEntry config request w id).New db)
      (PointAccrualService.deductFromAvailable config request) db := by
  refine alone_deductFromAvailable (fun hnot e => ?_) fun hgoes w hw => (Prog.leads_iff_yields _).mp ?_
  · exact iff_of_true (together_of_unchanged (fun _ => rfl) rfl) (.inl hnot)
  · refine leads_booked (neg_ne_zero.mpr hgoes.amount.2.2.ne')
      (.found hw : Opened config.defaultCurrency request.userId db.wallets w db.wallets)
      (fun o ho => ho) (fun id t => ?_) (fun id t => ⟨rfl, rfl⟩)
      fun id t hid => bookable_iff hgoes (fun w id w' id' h => ?_) (fun w id w' id' h => ?_) w hid
    · exact ⟨⟨rfl, fun h => (by cases h)⟩, rfl, fun c hc => Option.mem_some.mp hc ▸ rfl, rfl⟩
    · exact h.congr rfl rfl rfl rfl rfl rfl rfl rfl rfl
    · exact h

private theorem adjust_together {config : AdminOpsService.Config} {request : ManualAdjustmentRequest} :
    Alone (fun o => o.ledgerFault = fault ∧ ValidId o.uuid ∧ db.ledger.find o.uuid = none)
      (fun r db' => Together db r db' ↔ ¬ AdjustGoes config request db ∨ fault = none ∧ ∀ w id, ValidId id →
        (AdminOpsService.adjustmentEntry config request w id).Sound config.ledger ∧
          (AdminOpsService.adjustmentEntry config request w id).New db)
      (AdminOpsService.manualAdjustment config request) db := by
  refine alone_manualAdjustment (fun hnot e => ?_) fun hgoes w hw => (Prog.leads_iff_yields _).mp ?_
  · exact iff_of_true (together_of_unchanged (fun _ => rfl) rfl) (.inl hnot)
  · refine leads_booked hgoes.amount.2 (.found hw : Opened config.defaultCurrency request.userId db.wallets w db.wallets)
      (fun o ho => ho) (fun id t => ?_) (fun id t => ⟨rfl, rfl⟩)
      fun id t hid => bookable_iff hgoes (fun w id w' id' h => ?_) (fun w id w' id' h => ?_) w hid
    · exact ⟨⟨rfl, fun h => (by cases h)⟩, rfl, fun c hc => (by cases hc), rfl⟩
    · exact h.congr rfl rfl rfl rfl rfl rfl rfl rfl rfl
    · exact h

end points
section hold
variable {db db' : Db} {fault : Option String} {config : WalletService.Config} {request : EscrowHoldRequest}
open WalletService

/-- The ledger has nothing against the entries of the hold. -/
private def HoldSound (config : WalletService.Config) (request : EscrowHoldRequest) : Prop :=
  ∀ w escrowId id, ValidId escrowId → ValidId id →
    (holdDebit config request w escrowId id).Sound config.ledger ∧
      (holdCredit config request w escrowId id).Sound config.ledger

private def HoldTogether (fault : Option String) (config : WalletService.Config) (request : EscrowHoldRequest)
    (db : Db) (r : Except ServiceError EscrowHoldResponse) (db' : Db) : Prop :=
  (∀ resource id, r ≠ .error (.optimisticLock resource id)) ∧
    (Together db r db' ↔ ¬ HoldGoes config request db ∨ fault = none ∧ HoldSound config request ∧
      (request.amount ≠ 0 → FreshKeys request db))

/-- The wallet has been debited and the item stored. -/
private structure HoldDebited (request : EscrowHoldRequest) (db db' : Db) : Prop where
  balances : db'.balances request.userId = db.balances request.userId + (-request.amount, request.amount)
  others : ∀ userId ≠ request.userId, db'.balances userId = db.balances userId
  items : db'.escrowItems ≠ db.escrowItems

/-- A hold that has charged the wallet and throws has changed the items. -/
private theorem HoldDebited.not_thrown {e : ServiceError} (h : HoldDebited request db db') :
    ¬ Together db (.error e : Except ServiceError EscrowHoldResponse) db' := fun htogether =>
  h.items (htogether.thrown rfl).2

/-- Where a hold changes a bucket, its amount is not zero. -/
private theorem HoldDebited.bucket (h : HoldDebited request db db') {userId : String} {bucket : BalanceState}
    (hne : db'.bucket userId bucket ≠ db.bucket userId bucket) :
    userId = request.userId ∧ request.amount ≠ 0 ∧ (bucket = .available ∨ bucket = .escrow) := by
  by_cases huser : userId = request.userId
  · subst huser
    refine ⟨rfl, fun hzero => hne (bucket_of_balances ?_ bucket), ?_⟩
    · rw [h.balances, hzero, neg_zero]
      exact add_zero _
    · cases bucket with
      | available => exact .inl rfl
      | escrow => exact .inr rfl
      | earned => exact absurd rfl hne
  · exact absurd (bucket_of_balances (h.others userId huser) bucket) hne

private theorem HoldDebited.moved (h : HoldDebited request db db') (hamount : request.amount ≠ 0) :
    db'.bucket request.userId .available ≠ db.bucket request.userId .available ∧
      db'.bucket request.userId .escrow ≠ db.bucket request.userId .escrow := by
  constructor
  · show (db'.balances _).1 ≠ (db.balances _).1
    rw [h.balances]
    simpa using hamount
  · show (db'.balances _).2 ≠ (db.balances _).2
    rw [h.balances]
    simpa using hamount

/-- A hold that returns with entries as `FreshKeys` tells. -/
private theorem holdTogether_of_returned {a : EscrowHoldResponse} (hcharged : HoldDebited request db db')
    (hup : fault = none) (hsound : HoldSound config request) (hgoes : HoldGoes config request db)
    (hentry : FreshKeys request db → ∀ bucket, bucket = .available ∨ bucket = .escrow →
      ∃ e ∈ db'.ledger.docs, e ∉ db.ledger.docs ∧ e.accountId = request.userId ∧ e.accountType = .user ∧
        e.balanceState = bucket)
    (hmissing : ¬ FreshKeys request db → ∃ bucket, (bucket = .available ∨ bucket = .escrow) ∧
      ∀ e ∈ db'.ledger.docs, e ∉ db.ledger.docs → e.balanceState ≠ bucket) :
    HoldTogether fault config request db (.ok a) db' := by
  refine ⟨fun _ _ h => (by cases h), fun h => .inr ⟨hup, hsound, fun hamount => ?_⟩, fun h => ?_⟩
  · by_contra hnot
    obtain ⟨bucket, hbucket, hnone⟩ := hmissing hnot
    have hmoved := hcharged.moved hamount
    obtain ⟨e, he, hnew, -, -, hstate⟩ := h.booked rfl request.userId bucket (by
      rcases hbucket with rfl | rfl
      · exact hmoved.1
      · exact hmoved.2)
    exact hnone e he hnew hstate
  · obtain hnot | ⟨-, -, hkeys⟩ := h
    · exact absurd hgoes hnot
    · refine ⟨fun hthrown => (by cases hthrown), fun _ userId bucket hne => ?_⟩
      obtain ⟨rfl, hamount, hbucket⟩ := hcharged.bucket hne
      exact hentry (hkeys hamount) bucket hbucket

private theorem holdTogether_of_rejected {error : LedgerError} (hcharged : HoldDebited request db db')
    (hgoes : HoldGoes config request db) (hnot : ¬ (fault = none ∧ HoldSound config request)) :
    HoldTogether fault config request db (.error (.ledger error)) db' := by
  refine ⟨fun _ _ h => (by cases h), iff_of_false hcharged.not_thrown fun h => ?_⟩
  obtain hno | ⟨hup, hsound, -⟩ := h
  · exact hno hgoes
  · exact hnot ⟨hup, hsound⟩

private theorem HoldDebited.of_eq (h : HoldDebited request db db') {db'' : Db} (hwallets : db''.wallets = db'.wallets)
    (hitems : db''.escrowItems = db'.escrowItems) : HoldDebited request db db'' where
  balances := by rw [Db.balances, hwallets, ← Db.balances, h.balances]
  others := fun userId huser => by rw [Db.balances, hwallets, ← Db.balances, h.others userId huser]
  items := hitems ▸ h.items

private theorem leads_recordHold {wallet : Wallet} {escrowId : String} (hescrow : ValidId escrowId)
    (hcharged : HoldDebited request db db') (hledger : db'.ledger = db.ledger) (hgoes : HoldGoes config request db) :
    Prog.Leads exec (Unused fault) (HoldTogether fault config request db)
      (recordHold config request wallet escrowId) db' := by
  refine leads_uuidv4 fun o ho => leads_now fun t => leads_then ?_
  have hid : ValidId o.uuid := ho.2.1
  have hsound : (holdDebit config request wallet escrowId o.uuid).Sound config.ledger →
      (holdCredit config request wallet escrowId o.uuid).Sound config.ledger → HoldSound config request := by
    intro hdebit hcredit w escrowId' id hescrow' _
    have htext : optionalText 128 (some escrowId) = optionalText 128 (some escrowId') := by
      rw [optionalText_of_valid hescrow, optionalText_of_valid hescrow']
    exact ⟨hdebit.congr rfl rfl rfl rfl rfl rfl rfl rfl htext, hcredit.congr rfl rfl rfl rfl rfl rfl rfl rfl htext⟩
  have hpublish : ∀ {event : WalletEvent} {response : EscrowHoldResponse} {db₃ : Db},
      (∀ published, HoldTogether fault config request db (.ok response) { db₃ with published }) →
      Prog.Leads exec (Unused fault) (HoldTogether fault config request db)
        (publish event >>= fun _ => pure response) db₃ :=
    fun hall => leads_then (leads_of_alone (alone_publish hall))
  refine leads_createEntry ⟨⟨rfl, fun h => (by cases h)⟩, rfl, fun c hc => (by cases hc), rfl⟩ hid
    (fun o ho => ⟨ho.1, ho.2.1, ho.2.2.1⟩) (fun hup hdebit hnew e he hfree => ?_) (fun hup hdebit e he hkey => ?_)
    fun hnot error => ?_
  · -- the debit is new
    have hmem : ∀ e', e' ∈ (db'.ledger.insert e).docs ↔ e' ∈ db.ledger.docs ∨ e' = e := by
      intro e'
      rw [Collection.mem_insert hfree, hledger]
    have hnotold : e ∉ db.ledger.docs := fun hold => hfree.1 e (hledger ▸ hold) rfl
    have hdebitOf : e.accountId = request.userId ∧ e.accountType = .user ∧ e.balanceState = .available ∧
        e.idempotencyKey = trim (request.idempotencyKey ++ "_debit") := by
      obtain ⟨_, _, _, _, _, rfl⟩ := he
      exact ⟨rfl, rfl, rfl, rfl⟩
    refine leads_then (leads_createEntry ⟨⟨rfl, fun h => (by cases h)⟩, rfl, fun c hc => (by cases hc), rfl⟩ hid
      (fun o ho => ⟨ho.1, ho.2.1, ho.2.2.1⟩) (fun _ hcredit hnew' e₂ he₂ hfree₂ => ?_)
      (fun _ hcredit e₂ he₂ hkey₂ => ?_) fun hnot error => ?_)
    · refine hpublish fun published => holdTogether_of_returned (hcharged.of_eq rfl rfl) hup (hsound hdebit hcredit)
        hgoes (fun _ bucket hbucket => ?_) fun hstale => absurd (fun e' he' => ⟨?_, ?_⟩) hstale
      · have hcreditOf : e₂.accountId = request.userId ∧ e₂.accountType = .user ∧ e₂.balanceState = .escrow := by
          obtain ⟨_, _, _, _, _, rfl⟩ := he₂
          exact ⟨rfl, rfl, rfl⟩
        rcases hbucket with rfl | rfl
        · exact ⟨e, (Collection.mem_insert hfree₂).mpr (.inl ((hmem e).mpr (.inr rfl))), hnotold, hdebitOf.1,
            hdebitOf.2.1, hdebitOf.2.2.1⟩
        · refine ⟨e₂, (Collection.mem_insert hfree₂).mpr (.inr rfl), fun hold => ?_, hcreditOf⟩
          exact hfree₂.1 e₂ ((hmem e₂).mpr (.inl hold)) rfl
      · exact hnew e' (hledger ▸ he')
      · exact hnew' e' ((hmem e').mpr (.inl he'))
    · refine hpublish fun published => holdTogether_of_returned (hcharged.of_eq rfl rfl) hup (hsound hdebit hcredit)
        hgoes (fun hfresh => ?_) fun _ => ⟨.escrow, .inr rfl, fun e' he' hnew' hstate => ?_⟩
      · rcases (hmem e₂).mp he₂ with hold | rfl
        · exact absurd hkey₂ (hfresh e₂ hold).2
        · rw [hdebitOf.2.2.2] at hkey₂
          exact absurd ((trim_append_inj (by decide) (by decide) _).mp hkey₂) (by decide)
      · rcases (hmem e').mp he' with hold | rfl
        · exact hnew' hold
        · cases hdebitOf.2.2.1.symm.trans hstate
    · exact holdTogether_of_rejected (hcharged.of_eq rfl rfl) hgoes fun h =>
        hnot ⟨h.1, (h.2 _ _ _ hescrow hid).2⟩
  · -- the key of the debit is taken
    have hstale : ¬ FreshKeys request db := fun hfresh => (hfresh e (hledger ▸ he)).1 hkey
    refine leads_then (leads_createEntry ⟨⟨rfl, fun h => (by cases h)⟩, rfl, fun c hc => (by cases hc), rfl⟩ hid
      (fun o ho => ⟨ho.1, ho.2.1, ho.2.2.1⟩) (fun _ hcredit hnew' e₂ he₂ hfree₂ => ?_)
      (fun _ hcredit e₂ he₂ hkey₂ => ?_) fun hnot error => ?_)
    · refine hpublish fun published => holdTogether_of_returned (hcharged.of_eq rfl rfl) hup (hsound hdebit hcredit)
        hgoes (fun hfresh => absurd hfresh hstale) fun _ => ⟨.available, .inl rfl, fun e' he' hnew' hstate => ?_⟩
      rcases (Collection.mem_insert hfree₂).mp he' with hold | rfl
      · exact hnew' (hledger ▸ hold)
      · obtain ⟨_, _, _, _, _, rfl⟩ := he₂
        cases hstate
    · refine hpublish fun published => holdTogether_of_returned (hcharged.of_eq rfl rfl) hup (hsound hdebit hcredit)
        hgoes (fun hfresh => absurd hfresh hstale) fun _ => ⟨.available, .inl rfl, fun e' he' hnew' _ => ?_⟩
      exact hnew' (hledger ▸ he')
    · exact holdTogether_of_rejected hcharged hgoes fun h => hnot ⟨h.1, (h.2 _ _ _ hescrow hid).2⟩
  · exact holdTogether_of_rejected hcharged hgoes fun h => hnot ⟨h.1, (h.2 _ _ _ hescrow hid).1⟩

private theorem holdTogether_of_stopped {e : ServiceError} (hno : ∀ resource id, e ≠ .optimisticLock resource id)
    (hnot : ¬ HoldGoes config request db) (hbalances : ∀ userId, db'.balances userId = db.balances userId)
    (hitems : db'.escrowItems = db.escrowItems) : HoldTogether fault config request db (.error e) db' :=
  ⟨fun resource id h => hno resource id (by injection h), iff_of_true (together_of_unchanged hbalances hitems) (.inl hnot)⟩

private theorem heldItem_invalid {escrowId escrowId' : String} {t t' : Time} (h : ValidId escrowId)
    (h' : ValidId escrowId') (hvalid : (heldItem request escrowId t).invalid = []) :
    (heldItem request escrowId' t').invalid = [] := by
  simp only [EscrowItem.invalid, invalidPaths_eq_nil, heldItem, List.forall_mem_cons, h.1, h'.1] at hvalid ⊢
  exact hvalid

private theorem charged_of_debit {currency : String} {wallets : Wallets} {w : Wallet} {i : EscrowItem} {version : ℕ}
    (hopened : Opened currency request.userId db.wallets w wallets)
    (hwallets : db'.wallets = wallets.modify request.userId (WalletUpdate.set (w.availableBalance - request.amount)
      (w.escrowBalance + request.amount) version).apply (WalletUpdate.keeps _))
    (hitems : db'.escrowItems = db.escrowItems.insert i) (hfree : db.escrowItems.Free i) : HoldDebited request db db' := by
  obtain ⟨hbalances, hbefore, hothers⟩ := hopened.updated hwallets
  refine ⟨?_, hothers, fun hsame => ?_⟩
  · rw [hbalances, ← hbefore]
    exact Prod.ext (sub_eq_add_neg _ _) rfl
  · have hmem := (Collection.mem_insert hfree).mpr (.inr rfl)
    rw [← hitems, hsame] at hmem
    exact hfree.1 _ hmem rfl

private theorem leads_executeHold (records : IdempotencyRecords)
    (hkey : db.Claimable request.idempotencyKey "hold_escrow") (hattempts : 0 < config.maxRetryAttempts) :
    Prog.Leads exec (Unused fault) (HoldTogether fault config request db) (executeHoldInEscrow config request)
      { db with records } := by
  refine leads_then (leads_of_alone (alone_getOrCreateWallet (fun hopenable w wallets hopened => ?_) fun hnot e => ?_))
  · have hopened : Opened config.defaultCurrency request.userId db.wallets w wallets := hopened
    have hsame : ∀ db' : Db, db'.wallets = wallets → ∀ userId, db'.balances userId = db.balances userId := by
      intro db' hdb' userId
      rw [← hopened.balances userId, Db.balances, hdb']
    have hfunds : (db.balances request.userId).1 = w.availableBalance := by
      rw [← hopened.balances request.userId, hopened.find]
      rfl
    refine leads_throwIf (fun hless => ?_) fun hless => leads_uuidv4 fun o ho => leads_now fun createdAt =>
      leads_issue fun o' _ => ?_
    · refine holdTogether_of_stopped (fun _ _ h => (by cases h)) (fun hgoes => ?_) (hsame _ rfl) rfl
      exact not_le_of_gt hless (hfunds ▸ hgoes.funds)
    · simp only [exec]
      have hfree : ∀ hqueue : (∀ i ∈ db.escrowItems.docs, i.queueItemId ≠ request.queueItemId),
          db.escrowItems.Free (heldItem request o.uuid createdAt) := fun hqueue =>
        ⟨Collection.find_eq_none.mp ho.2.2.2, hqueue⟩
      rcases create_cases db.escrowItems (heldItem request o.uuid createdAt)
        (heldItem request o.uuid createdAt).invalid ["escrowId", "queueItemId"] with ⟨e, he⟩ | ⟨hvalid, hfree', hok⟩
      · rw [he]
        refine holdTogether_of_stopped (fun _ _ h => (by cases h)) (fun hgoes => ?_) (hsame _ rfl) rfl
        rw [create_of_free (hgoes.item _ _ ho.2.1) (hfree hgoes.queueItem)] at he
        cases he
      · rw [hok]
        have hgoes : HoldGoes config request db := by
          refine ⟨hkey, hattempts, hopenable, hfunds ▸ not_lt.mp hless, fun id t hid => ?_, hfree'.2⟩
          exact heldItem_invalid ho.2.1 hid hvalid
        apply leads_issue
        intro o'' _
        rw [exec_updateWallet hopened.find (by simp [WalletFilter.accepts])]
        exact leads_recordHold ho.2.1 (charged_of_debit hopened rfl rfl hfree') rfl hgoes
  · exact holdTogether_of_stopped (fun _ _ h => (by cases h)) (fun hgoes => hgoes.wallet hnot) (fun _ => rfl) rfl

private theorem hold_together : Prog.Leads exec (Unused fault)
    (fun r db' => Together db r db' ↔ ¬ HoldGoes config request db ∨ fault = none ∧ HoldSound config request ∧
      (request.amount ≠ 0 → FreshKeys request db)) (holdInEscrow config request) db := by
  refine leads_then (leads_of_alone (alone_claim (fun hkey records => ?_) fun hnot e => ?_))
  · show Prog.Leads exec (Unused fault) _ (holdAttempts config request config.maxRetryAttempts) _
    cases hattempts : config.maxRetryAttempts with
    | zero =>
      refine iff_of_true (together_of_unchanged (fun _ => rfl) rfl) (.inl fun hgoes => ?_)
      exact absurd hgoes.attempts (by omega)
    | succ left =>
      refine (Prog.leads_catching _ _).mpr ((leads_executeHold records hkey (by omega)).imp ?_)
      rintro (e | a) db' hends
      · cases e with
        | optimisticLock resource id => exact absurd rfl (hends.1 resource id)
        | _ => exact hends.2
      · exact hends.2
  · exact iff_of_true (together_of_unchanged (fun _ => rfl) rfl) (.inl fun hgoes => hnot hgoes.key)

end hold
section calls
variable {α β : Type} {fair : Db → Oracle → Prop} {db db₀ : Db} {C : Prop} {config : Config} {call : Booking}
  {fault : Option String}

private theorem Together.congr {r : Except ServiceError α} {r' : Except ServiceError β} {db' : Db}
    (hok : r.isOk = r'.isOk) (h : Together db r db') : Together db r' db' :=
  ⟨fun h' => h.thrown (hok.trans h'), fun h' => h.booked (hok.trans h')⟩

private theorem leads_mapped {f : α → β} {p : Service α} {k : α → Service β}
    (hp : Prog.Leads exec fair (fun r db' => Together db r db' ↔ C) p db₀) (hk : ∀ a, k a = Prog.ret (f a)) :
    Prog.Leads exec fair (fun r db' => Together db r db' ↔ C) (p >>= k) db₀ := by
  refine leads_then (hp.imp fun r db' h => ?_)
  cases r with
  | error e => exact (⟨Together.congr rfl, Together.congr rfl⟩ : Together db (.error e : Except _ β) db' ↔
      Together db (.error e : Except _ α) db').trans h
  | ok a =>
    show Prog.Leads exec fair _ (k a) db'
    rw [hk a]
    exact (⟨Together.congr rfl, Together.congr rfl⟩ : Together db (.ok (f a)) db' ↔ Together db (.ok a) db').trans h

/-- The wallet and the ledger change together exactly in the calls that stop before their
wallet update and in those whose entries the ledger takes as new ones. Amounts are exact and
identifiers but keys trimmed. -/
theorem changes_together_iff {os : ℕ → Oracle}
    (hos : Prog.Supplied exec (Unused fault) (call.body config) os db) :
    Together db ((call.body config).solo exec os db).1 ((call.body config).solo exec os db).2 ↔
      ¬ call.Updates config db ∨ fault = none ∧ call.Bookable config db := by
  have hunused : ∀ db o, Unused fault db o → Unused fault db o := fun _ _ h => h
  suffices hleads : Prog.Leads exec (Unused fault) (fun r db' => Together db r db' ↔
      ¬ call.Updates config db ∨ fault = none ∧ call.Bookable config db) (call.body config) db from hleads.solo hos
  cases call with
  | hold request => exact leads_mapped hold_together fun _ => rfl
  | award request => exact leads_mapped (unused_at_first award_together hunused) fun _ => rfl
  | undatedAward request => exact leads_mapped (unused_at_first undated_together hunused) fun _ => rfl
  | deduct request => exact leads_mapped (unused_at_first deduct_together hunused) fun _ => rfl
  | adjust request =>
    refine leads_mapped (f := fun next => match next with
      | .done a => .done (.adjust a)
      | .again () => .again (.adjust request)) (unused_at_first adjust_together hunused) fun next => ?_
    cases next <;> rfl

/-- An award is booked with the change of its wallet. -/
theorem changes_together_award : Together fundedDb
    (((Booking.award sampleAward).body (defaultConfig fun _ => none)).solo exec tick fundedDb).1
    (((Booking.award sampleAward).body (defaultConfig fun _ => none)).solo exec tick fundedDb).2 := by
  have hos : Prog.Supplied exec (Unused none) ((Booking.award sampleAward).body (defaultConfig fun _ => none)) tick
      fundedDb := by decide +kernel
  have hvalid : ((PointAccrualService.awardEntry PointAccrualService.defaultConfig sampleAward
      ⟨"user-1", 100, 0, "points", 0⟩ "id-1").entryDoc LedgerService.defaultConfig "id-0" "id-1" "id-1"
      .promotionalAward 0).invalid = [] := by decide +kernel
  have hsound := sound_of_one (by decide +kernel) (by decide +kernel) (by decide +kernel) hvalid
  refine (changes_together_iff hos).mpr (.inr ⟨rfl, fun w id _ => ⟨?_, fun e he => (by cases he)⟩⟩)
  exact hsound.congr rfl rfl rfl rfl rfl rfl rfl rfl rfl

/-- The metadata of an award that the ledger does not take. -/
def privateAward : Booking := .award { sampleAward with metadata := some [("email", .str "user@example.org")] }

/-- The award throws, and the wallet keeps the points. -/
theorem changed_without_entry : ¬ Together fundedDb
    ((privateAward.body (defaultConfig fun _ => none)).solo exec tick fundedDb).1
    ((privateAward.body (defaultConfig fun _ => none)).solo exec tick fundedDb).2 := by
  intro h
  have hthrown : ((privateAward.body (defaultConfig fun _ => none)).solo exec tick fundedDb).1.isOk = false := by
    decide +kernel
  have hbalance : (((privateAward.body (defaultConfig fun _ => none)).solo exec tick fundedDb).2.balances "user-1",
      fundedDb.balances "user-1") = ((120, 0), (100, 0)) := by decide +kernel
  have hsame := (h.thrown hthrown).1 "user-1"
  rw [(Prod.mk.inj hbalance).1, (Prod.mk.inj hbalance).2] at hsame
  exact absurd hsame (by decide +kernel)

end calls
end RedRoomRewards
