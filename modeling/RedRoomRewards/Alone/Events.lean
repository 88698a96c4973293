import RedRoomRewards.Alone.Points
import RedRoomRewards.Events.Bus
import RedRoomRewards.Guarantees.Retry

/-! The event of an escrow operation that runs alone and returns, and what it tells of the
balances that the operation has changed. -/
namespace RedRoomRewards
open Process Store WalletService

section told
variable {db db' db'' : Db}

/-- The users' balances after a call with this event; a settlement takes its amount out of
escrow without telling the balances. -/
def WalletEvent.userBalances (before : String → ℚ × ℚ) : WalletEvent → String → ℚ × ℚ
  | escrowHeld userId _ _ _ _ _ _ available escrow _ _ => Function.update before userId (available, escrow)
  | escrowSettled userId _ _ amount _ _ _ _ _ _ =>
    Function.update before userId (before userId + (0, -amount))
  | escrowRefunded userId _ _ _ _ _ available escrow _ _ => Function.update before userId (available, escrow)
  | escrowPartialSettled userId _ _ _ _ _ _ _ available escrow _ _ _ =>
    Function.update before userId (available, escrow)

def WalletEvent.modelBalances (before : String → ℚ) : WalletEvent → String → ℚ
  | escrowSettled _ modelId _ _ _ _ _ earned _ _ => Function.update before modelId earned
  | escrowPartialSettled _ modelId _ _ _ _ _ _ _ _ earned _ _ => Function.update before modelId earned
  | _ => before

/-- The balances have changed as the event says. -/
structure Told (event : WalletEvent) (db db' : Db) : Prop where
  users : db'.balances = event.userBalances db.balances
  models : db'.earnedBalance = event.modelBalances db.earnedBalance

/-- No balance has changed and no event been published. -/
structure Quiet (db db' : Db) : Prop where
  published : db'.published = db.published
  users : db'.balances = db.balances
  models : db'.earnedBalance = db.earnedBalance

theorem Quiet.refl (db : Db) : Quiet db db := ⟨rfl, rfl, rfl⟩

theorem Quiet.trans (h : Quiet db db') (h' : Quiet db' db'') : Quiet db db'' :=
  ⟨h'.published.trans h.published, h'.users.trans h.users, h'.models.trans h.models⟩

theorem quiet_of_parts (hwallets : db'.wallets = db.wallets) (hmodels : db'.modelWallets = db.modelWallets)
    (hpublished : db'.published = db.published) : Quiet db db' :=
  ⟨hpublished, funext fun _ => by rw [Db.balances, hwallets, Db.balances],
    funext fun _ => by rw [Db.earnedBalance, hmodels, Db.earnedBalance]⟩

/-- A call that returns has published one event, which is `about` it and tells what has
changed; one that throws has changed no balance, unless the ledger refused an entry or
the call is not `clean`. -/
def Announces {α : Type} (about : WalletEvent → Prop) (clean : Prop) (db : Db) : Except ServiceError α → Db → Prop
  | .ok _, db' => ∃ eventId timestamp event, db'.published = ⟨eventId, timestamp, event⟩ :: db.published ∧
      about event ∧ Told event db db'
  | .error (.ledger _), _ => True
  | .error _, db' => clean → Quiet db db'

variable {α : Type} {about : WalletEvent → Prop} {clean : Prop}

theorem Quiet.announces (h : Quiet db db') (e : ServiceError) :
    Announces about clean db (.error e : Except ServiceError α) db' := by
  cases e <;> first | exact fun _ => h | trivial

/-- What has been quiet so far may be left out. -/
theorem Quiet.before {r : Except ServiceError α} (h : Quiet db db') (hr : Announces about clean db' r db'') :
    Announces about clean db r db'' := by
  rcases r with e | a
  · cases e with
    | ledger e => trivial
    | _ => exact fun hclean => h.trans (hr hclean)
  · obtain ⟨eventId, timestamp, event, hpublished, habout, htold⟩ := hr
    exact ⟨eventId, timestamp, event, by rw [hpublished, h.published], habout,
      by rw [htold.users, h.users], by rw [htold.models, h.models]⟩

end told

section wallets
variable {db db' : Db}

/-- A committed update of an opened wallet is the only change of the balances. -/
theorem Opened.balances_updated {currency userId : String} {ws : Wallets} {w : Wallet} {u : WalletUpdate}
    (h : Opened currency userId db.wallets w ws) (hdb' : db'.wallets = ws.modify userId u.apply u.keeps) :
    db'.balances = Function.update db.balances userId
      ((u.apply w).availableBalance, (u.apply w).escrowBalance) := by
  obtain ⟨hself, -, hothers⟩ := h.updated hdb'
  funext userId'
  by_cases hid : userId' = userId
  · rw [hid, hself, Function.update_self]
  · rw [hothers userId' hid, Function.update_of_ne hid]

theorem ModelOpened.earned {currency modelId : String} {ms : ModelWallets} {m : ModelWallet}
    (h : ModelOpened currency modelId db.modelWallets m ms) (modelId' : String) :
    (ms.find modelId').elim 0 ModelWallet.earnedBalance = db.earnedBalance modelId' := by
  cases h with
  | found h => rfl
  | created hfree =>
    rw [Collection.find_insert hfree, Db.earnedBalance]
    split
    · rename_i heq
      rw [heq, hfree.find]
      rfl
    · rfl

theorem ModelOpened.earned_updated {currency modelId : String} {ms : ModelWallets} {m : ModelWallet}
    {u : ModelWalletUpdate} (h : ModelOpened currency modelId db.modelWallets m ms)
    (hdb' : db'.modelWallets = ms.modify modelId u.apply u.keeps) :
    db'.earnedBalance = Function.update db.earnedBalance modelId (u.apply m).earnedBalance := by
  funext modelId'
  by_cases hid : modelId' = modelId
  · rw [hid, Function.update_self, Db.earnedBalance, hdb', Collection.find_modify_self _ h.find]
    rfl
  · rw [Function.update_of_ne hid, Db.earnedBalance, hdb', Collection.find_modify_ne hid, ← h.earned modelId']

end wallets

section records
variable {α : Type} {fair : Oracle → Prop} {db : Db} {config : WalletService.Config}

/-- What follows the wallet updates of a call: it returns with one more event, one of
`event`, and no other change of balances, or the ledger refuses an entry. -/
def Records (event : String → WalletEvent) (db : Db) : Except ServiceError α → Db → Prop
  | .ok _, db' => db'.wallets = db.wallets ∧ db'.modelWallets = db.modelWallets ∧
      ∃ eventId timestamp transactionId,
        db'.published = ⟨eventId, timestamp, event transactionId⟩ :: db.published
  | .error (.ledger _), _ => True
  | .error _, _ => False

private theorem alone_entry {request : LedgerService.CreateLedgerEntryRequest} {ledger : LedgerService.Config}
    {k : LedgerEntry → Service α} {post : Except ServiceError α → Db → Prop}
    (hk : ∀ e ledger, Alone fair post (k e) { db with ledger }) (herror : ∀ error db', post (.error (.ledger error)) db') :
    Alone fair post (LedgerService.createEntry ledger request >>= k) db :=
  alone_bind (alone_createEntry (fun e _ _ => hk e _) (fun e _ _ => hk e db.ledger) fun error => herror error db)

private theorem alone_publish_delivered {event : WalletEvent} {k : Unit → Service α}
    {post : Except ServiceError α → Db → Prop} (hbus : ∀ o, fair o → o.busFault = none)
    (hk : ∀ eventId timestamp, Alone fair post (k ())
      { db with published := ⟨eventId, timestamp, event⟩ :: db.published }) :
    Alone fair post (publish event >>= k) db := by
  refine alone_bind (alone_uuidv4 fun eventId => alone_now fun timestamp => alone_issue fun o ho => ?_)
  simp only [exec, hbus o ho]
  exact hk eventId timestamp

theorem alone_recordHold_event (hbus : ∀ o, fair o → o.busFault = none) (request : EscrowHoldRequest)
    (wallet : Wallet) (escrowId : String) :
    Alone fair (Records (fun transactionId => .escrowHeld request.userId escrowId request.amount request.reason
        request.queueItemId request.featureType transactionId (wallet.availableBalance - request.amount)
        (wallet.escrowBalance + request.amount) request.idempotencyKey request.metadata) db)
      (recordHold config request wallet escrowId) db :=
  alone_uuidv4 fun transactionId => alone_now fun _ => alone_entry (fun _ _ => alone_entry (fun _ _ =>
    alone_publish_delivered hbus fun eventId timestamp => ⟨rfl, rfl, eventId, timestamp, transactionId, rfl⟩)
    fun _ _ => trivial) fun _ _ => trivial

theorem alone_recordSettle_event (hbus : ∀ o, fair o → o.busFault = none) (request : EscrowSettleRequest)
    (escrow : EscrowItem) (modelWallet : ModelWallet) :
    Alone fair (Records (fun transactionId => .escrowSettled escrow.userId request.modelId request.escrowId
        request.amount request.reason request.queueItemId transactionId
        (modelWallet.earnedBalance + request.amount) request.idempotencyKey request.metadata) db)
      (recordSettle config request escrow modelWallet) db :=
  alone_uuidv4 fun transactionId => alone_entry (fun _ _ => alone_now fun _ =>
    alone_publish_delivered hbus fun eventId timestamp => ⟨rfl, rfl, eventId, timestamp, transactionId, rfl⟩)
    fun _ _ => trivial

theorem alone_recordRefund_event (hbus : ∀ o, fair o → o.busFault = none) (request : EscrowRefundRequest)
    (wallet updatedWallet : Wallet) :
    Alone fair (Records (fun transactionId => .escrowRefunded request.userId request.escrowId request.amount
        request.reason request.queueItemId transactionId (wallet.availableBalance + request.amount)
        updatedWallet.escrowBalance request.idempotencyKey request.metadata) db)
      (recordRefund config request wallet updatedWallet) db :=
  alone_uuidv4 fun transactionId => alone_entry (fun _ _ => alone_now fun _ =>
    alone_publish_delivered hbus fun eventId timestamp => ⟨rfl, rfl, eventId, timestamp, transactionId, rfl⟩)
    fun _ _ => trivial

private theorem alone_entryIf {amount : ℚ} {entry : LedgerService.CreateLedgerEntryRequest}
    {k : Unit → Service α} {post : Except ServiceError α → Db → Prop}
    (hk : ∀ ledger, Alone fair post (k ()) { db with ledger }) (herror : ∀ error db', post (.error (.ledger error)) db') :
    Alone fair post (createEntryIf config amount entry >>= k) db := by
  unfold createEntryIf
  split
  · exact alone_bind (alone_entry (fun _ _ => hk _) herror)
  · exact hk db.ledger

theorem alone_recordPartialSettle_event (hbus : ∀ o, fair o → o.busFault = none)
    (request : EscrowPartialSettleRequest) (userWallet updatedUserWallet : Wallet) (modelWallet : ModelWallet) :
    Alone fair (Records (fun transactionId => .escrowPartialSettled request.userId request.modelId
        request.escrowId request.refundAmount request.settleAmount request.reason request.queueItemId
        transactionId (userWallet.availableBalance + request.refundAmount) updatedUserWallet.escrowBalance
        (modelWallet.earnedBalance + request.settleAmount) request.idempotencyKey request.metadata) db)
      (recordPartialSettle config request userWallet updatedUserWallet modelWallet) db :=
  alone_uuidv4 fun transactionId => alone_entryIf (fun _ => alone_entryIf (fun _ => alone_now fun _ =>
    alone_publish_delivered hbus fun eventId timestamp => ⟨rfl, rfl, eventId, timestamp, transactionId, rfl⟩)
    fun _ _ => trivial) fun _ _ => trivial

theorem Records.announces {db' db'' : Db} {about : WalletEvent → Prop} {event : String → WalletEvent}
    {clean : Prop} {r : Except ServiceError α} (h : Records event db' r db'') (hpublished : db'.published = db.published)
    (habout : ∀ id, about (event id)) (htold : ∀ id, Told (event id) db db') :
    Announces about clean db r db'' := by
  rcases r with e | a
  · cases e with
    | ledger e => trivial
    | _ => exact h.elim
  · obtain ⟨hwallets, hmodels, eventId, timestamp, transactionId, hnew⟩ := h
    have hquiet : Quiet { db' with published := db''.published } db'' := quiet_of_parts hwallets hmodels rfl
    exact ⟨eventId, timestamp, _, by rw [hnew, hpublished], habout transactionId,
      ⟨hquiet.users.trans (htold transactionId).users, hquiet.models.trans (htold transactionId).models⟩⟩

end records

section operations

/-- The idempotency key of an escrow request. -/
def Call.escrowKey : Call → String
  | .hold request => request.idempotencyKey
  | .settle request _ => request.idempotencyKey
  | .refund request _ => request.idempotencyKey
  | .partialSettle request _ => request.idempotencyKey
  | _ => ""

/-- The user whose escrow the call of the event has reduced without telling, and by how much. -/
def WalletEvent.untold : WalletEvent → Option (String × ℚ)
  | escrowSettled userId _ _ amount _ _ _ _ _ _ => some (userId, amount)
  | _ => none

/-- A settlement takes its amount out of the escrow of the item's user. -/
def Call.Untold (db : Db) (userId : String) (amount : ℚ) : Call → Prop
  | .settle request _ => request.amount = amount ∧ ∃ i, db.Held request.escrowId i ∧ i.userId = userId
  | _ => False

/-- The event has the key of the call, and leaves untold what the call does. -/
structure Call.About (db : Db) (call : Call) (event : WalletEvent) : Prop where
  key : event.idempotencyKey = call.escrowKey
  untold : ∀ userId amount, event.untold = some (userId, amount) → call.Untold db userId amount

variable {fair : Oracle → Prop} {db : Db} {config : WalletService.Config}

/-- An attempt of a hold that runs alone meets no conflict. -/
private theorem alone_executeHold_event (hbus : ∀ o, fair o → o.busFault = none) (request : EscrowHoldRequest)
    (db₀ : Db) : Alone fair (fun r db' => Announces ((Call.hold request).About db₀) True db r db' ∧
        ∀ resource id, r ≠ .error (.optimisticLock resource id)) (executeHoldInEscrow config request) db := by
  refine alone_bind (alone_getOrCreateWallet (fun _ w wallets hopened => ?_) fun _ e => ⟨fun _ => .refl db, by rintro _ _ ⟨⟩⟩)
  have hquiet : ∀ items, Quiet db { db with wallets, escrowItems := items } := fun items =>
    ⟨rfl, funext hopened.balances, rfl⟩
  refine alone_throwIf (fun _ => ⟨fun _ => hquiet db.escrowItems, by rintro _ _ ⟨⟩⟩) fun _ => alone_uuidv4 fun escrowId =>
    alone_now fun createdAt => alone_issue fun o _ => ?_
  simp only [exec]
  generalize create db.escrowItems _ _ _ = result
  obtain ⟨reply, items⟩ := result
  cases reply with
  | error e => exact ⟨fun _ => hquiet items, by rintro _ _ ⟨⟩⟩
  | ok item =>
    apply alone_updateWallet hopened.find (by simp [WalletFilter.accepts])
    refine Prog.Yields.imp (alone_recordHold_event hbus request w escrowId) fun r db' hrecords => ⟨?_, ?_⟩
    · exact hrecords.announces rfl (fun _ => ⟨rfl, by rintro _ _ ⟨⟩⟩) fun _ => ⟨(hopened.balances_updated rfl).trans rfl, rfl⟩
    · rintro resource id rfl
      exact hrecords

/-- What a hold announces that runs alone. -/
theorem alone_hold_event (hbus : ∀ o, fair o → o.busFault = none) (request : EscrowHoldRequest) :
    Alone fair (Announces ((Call.hold request).About db) True db) (holdInEscrow config request) db := by
  refine alone_bind (alone_claim (fun _ records => ?_) fun _ e => (Quiet.refl db).announces e)
  have hclaimed : Quiet db { db with records } := ⟨rfl, rfl, rfl⟩
  have hattempts : ∀ left, Alone fair (Announces ((Call.hold request).About db) True db)
      (holdAttempts config request left) { db with records } := by
    intro left
    cases left with
    | zero => exact hclaimed.announces _
    | succ left =>
      have hexecuted : Alone fair (fun r db' => Announces ((Call.hold request).About db) True { db with records } r db' ∧
          ∀ resource id, r ≠ .error (.optimisticLock resource id)) (executeHoldInEscrow config request)
          { db with records } := alone_executeHold_event hbus request db
      refine (Prog.yields_catching _ _).mpr (hexecuted.imp ?_)
      rintro (e | a) db' ⟨hannounces, hno⟩
      · cases e with
        | optimisticLock resource id => exact absurd rfl (hno resource id)
        | _ => exact hclaimed.before hannounces
      · exact hclaimed.before hannounces
  exact hattempts config.maxRetryAttempts

/-- The user of the item that a settlement closes has a wallet. -/
def Db.Backed (db : Db) (escrowId : String) : Prop :=
  ∀ i, db.Held escrowId i → db.wallets.find i.userId ≠ none

/-- What a settlement announces that runs alone. Without a wallet of the item's user it
throws when it has credited the model. -/
theorem alone_settle_event (hbus : ∀ o, fair o → o.busFault = none) (request : EscrowSettleRequest)
    (authorization : Option QueueSettlementAuthorization) :
    Alone fair (Announces ((Call.settle request authorization).About db) (db.Backed request.escrowId) db) (settleEscrow config request authorization) db := by
  have hquiet : ∀ records items, Quiet db { db with records, escrowItems := items } := fun _ _ => ⟨rfl, rfl, rfl⟩
  refine alone_throwIf (fun _ => (Quiet.refl db).announces _) fun _ =>
    alone_bind (alone_claim (fun _ records => ?_) fun _ e => (Quiet.refl db).announces e)
  refine alone_bind (alone_lockEscrow (fun i t hheld => ?_) fun _ e => (hquiet records _).announces e)
  refine alone_bind (alone_getOrCreateModelWallet (fun _ m ms hopened => ?_) fun _ _ _ => hquiet records _)
  refine alone_updateModelWallet hopened.find rfl (alone_throwIf (fun hnone => nomatch hnone) fun _ => ?_)
  refine alone_findWallet (alone_orThrow (fun hnone hbacked => absurd hnone (hbacked i hheld)) fun w hfind => ?_)
  refine alone_updateWallet hfind (by simp [WalletFilter.accepts]) (alone_issue fun o _ => ?_)
  refine Prog.Yields.imp (alone_recordSettle_event hbus request i m) fun r db' hrecords =>
    hrecords.announces rfl (fun _ => ⟨rfl, fun _ _ heq => by
      obtain ⟨rfl, rfl⟩ := Prod.mk.inj (Option.some.inj heq)
      exact ⟨rfl, i, hheld, rfl⟩⟩) fun _ => ⟨?_, (hopened.earned_updated rfl).trans rfl⟩
  have hstored : db.wallets.find i.userId = some w := hfind
  have hbefore : db.balances i.userId = (w.availableBalance, w.escrowBalance) := by
    rw [Db.balances, hstored]
    rfl
  have hfound : Opened config.defaultCurrency i.userId db.wallets w db.wallets := .found hstored
  apply (hfound.balances_updated rfl).trans
  rw [WalletEvent.userBalances, hbefore]
  rfl

/-- What a refund announces that runs alone. -/
theorem alone_refund_event (hbus : ∀ o, fair o → o.busFault = none) (request : EscrowRefundRequest)
    (authorization : Option QueueRefundAuthorization) :
    Alone fair (Announces ((Call.refund request authorization).About db) True db) (refundEscrow config request authorization) db := by
  have hquiet : ∀ records items, Quiet db { db with records, escrowItems := items } := fun _ _ => ⟨rfl, rfl, rfl⟩
  refine alone_throwIf (fun _ => (Quiet.refl db).announces _) fun _ =>
    alone_bind (alone_claim (fun _ records => ?_) fun _ e => (Quiet.refl db).announces e)
  refine alone_bind (alone_lockEscrow (fun i t hheld => ?_) fun _ e => (hquiet records _).announces e)
  refine alone_findWallet (alone_orThrow (fun _ => (hquiet records _).announces _) fun w hfind => ?_)
  refine alone_updateWallet hfind (by simp [WalletFilter.accepts]) (alone_issue fun o _ => ?_)
  refine Prog.Yields.imp (alone_recordRefund_event hbus request w _) fun r db' hrecords =>
    hrecords.announces rfl (fun _ => ⟨rfl, by rintro _ _ ⟨⟩⟩) fun _ => ⟨?_, rfl⟩
  have hfound : Opened config.defaultCurrency request.userId db.wallets w db.wallets := .found hfind
  exact (hfound.balances_updated rfl).trans rfl

/-- What a partial settlement announces that runs alone. -/
theorem alone_partialSettle_event (hbus : ∀ o, fair o → o.busFault = none) (request : EscrowPartialSettleRequest)
    (authorization : Option QueuePartialSettlementAuthorization) :
    Alone fair (Announces ((Call.partialSettle request authorization).About db) True db) (partialSettleEscrow config request authorization) db := by
  have hquiet : ∀ records items, Quiet db { db with records, escrowItems := items } := fun _ _ => ⟨rfl, rfl, rfl⟩
  refine alone_throwIf (fun _ => (Quiet.refl db).announces _) fun _ =>
    alone_bind (alone_claim (fun _ records => ?_) fun _ e => (Quiet.refl db).announces e)
  refine alone_bind (alone_lockEscrow (fun i t hheld => ?_) fun _ e => (hquiet records _).announces e)
  apply alone_throwIf (fun _ => (hquiet records _).announces _)
  intro _
  refine alone_findWallet (alone_orThrow (fun _ => (hquiet records _).announces _) fun w hfind => ?_)
  refine alone_bind (alone_getOrCreateModelWallet (fun _ m ms hopened => ?_) fun _ _ _ => hquiet records _)
  apply alone_updateWallet hfind (by simp [WalletFilter.accepts])
  refine alone_updateModelWallet hopened.find rfl (alone_issue fun o _ => ?_)
  refine Prog.Yields.imp (alone_recordPartialSettle_event hbus request w _ m) fun r db' hrecords =>
    hrecords.announces rfl (fun _ => ⟨rfl, by rintro _ _ ⟨⟩⟩) fun _ => ⟨?_, (hopened.earned_updated rfl).trans rfl⟩
  have hfound : Opened config.defaultCurrency request.userId db.wallets w db.wallets := .found hfind
  exact (hfound.balances_updated rfl).trans rfl

/-- A settlement closes an item whose user has a wallet. -/
def Call.Backed (db : Db) : Call → Prop
  | .settle request _ => db.Backed request.escrowId
  | _ => True

private theorem alone_returning_event {α : Type} {about : WalletEvent → Prop} {clean : Prop} {response : α → Response}
    {p : Service α} (h : Alone fair (Announces about clean db) p db) :
    Alone fair (Announces about clean db) (returning response p) db := by
  refine alone_bind (h.imp ?_)
  rintro (e | a) db' hr
  · cases e <;> exact hr
  · exact hr

theorem alone_escrow_event {config : Config} (hbus : ∀ o, fair o → o.busFault = none) {call : Call}
    (hescrow : call.isEscrowRequest = true) :
    Alone fair (Announces (call.About db) (call.Backed db) db) (call.body config) db := by
  cases call with
  | hold request => exact alone_returning_event (alone_hold_event hbus request)
  | settle request authorization => exact alone_returning_event (alone_settle_event hbus request authorization)
  | refund request authorization => exact alone_returning_event (alone_refund_event hbus request authorization)
  | partialSettle request authorization =>
    exact alone_returning_event (alone_partialSettle_event hbus request authorization)
  | award _ | deduct _ | expire _ _ | adjust _ | redeem _ | other _ => cases hescrow

end operations
end RedRoomRewards
