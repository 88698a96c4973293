import RedRoomRewards.Alone.Escrow
import RedRoomRewards.Guarantees.Conservation
import RedRoomRewards.Service.Auth

/-! When a settlement or refund moves a balance, and when it does so only with a
request, an authorization and an escrow item that agree. -/
namespace RedRoomRewards
open Process Store WalletService

/-- A wallet or a model wallet is another one than before. -/
def Moved (db db' : Db) : Prop := db'.wallets ≠ db.wallets ∨ db'.modelWallets ≠ db.modelWallets

section agreement
variable (jwt : AuthService.Jwt) (auth : AuthService.Config) (now : Time) (db : Db)

/-- Item, settlement request and authorization agree, and the authorization is valid. -/
def SettleAgrees (request : EscrowSettleRequest) (authorization : Option QueueSettlementAuthorization) :
    Prop :=
  ∃ i a, db.escrowItems.find request.escrowId = some i ∧ authorization = some a ∧
    request.queueItemId = i.queueItemId ∧ request.amount = i.amount ∧
    a.escrowId = request.escrowId ∧ a.queueItemId = request.queueItemId ∧ a.amount = request.amount ∧
    a.modelId = request.modelId ∧ AuthService.validateSettlementAuthorization jwt auth now a
      request.queueItemId request.escrowId = .ok ()

def RefundAgrees (request : EscrowRefundRequest) (authorization : Option QueueRefundAuthorization) : Prop :=
  ∃ i a, db.escrowItems.find request.escrowId = some i ∧ authorization = some a ∧
    request.queueItemId = i.queueItemId ∧ request.userId = i.userId ∧ request.amount = i.amount ∧
    a.escrowId = request.escrowId ∧ a.queueItemId = request.queueItemId ∧ a.amount = request.amount ∧
    a.userId = request.userId ∧ AuthService.validateRefundAuthorization jwt auth now a
      request.queueItemId request.escrowId = .ok ()

def PartialSettleAgrees (request : EscrowPartialSettleRequest)
    (authorization : Option QueuePartialSettlementAuthorization) : Prop :=
  ∃ i a, db.escrowItems.find request.escrowId = some i ∧ authorization = some a ∧
    request.queueItemId = i.queueItemId ∧ request.userId = i.userId ∧
    request.refundAmount + request.settleAmount = i.amount ∧
    a.escrowId = request.escrowId ∧ a.queueItemId = request.queueItemId ∧
    a.refundAmount = request.refundAmount ∧ a.settleAmount = request.settleAmount ∧
    a.userId = request.userId ∧ a.modelId = request.modelId ∧
    AuthService.validatePartialSettlementAuthorization jwt auth now a request.queueItemId request.escrowId = .ok ()

end agreement

section stops
variable (config : WalletService.Config) (db : Db)

/-- There is no held item with this id. -/
def Db.Unheld (escrowId : String) : Prop := ∀ i, ¬ db.Held escrowId i

/-- What stops a settlement before it moves a balance. -/
def SettleStops (request : EscrowSettleRequest) (authorization : Option QueueSettlementAuthorization) : Prop :=
  authorization.all (·.token = "") = true ∨ ¬ db.Claimable request.idempotencyKey "settle_escrow" ∨
    db.Unheld request.escrowId ∨ db.Uncreditable config.defaultCurrency request.modelId

def RefundStops (request : EscrowRefundRequest) (authorization : Option QueueRefundAuthorization) : Prop :=
  authorization.all (·.token = "") = true ∨ ¬ db.Claimable request.idempotencyKey "refund_escrow" ∨
    db.Unheld request.escrowId ∨ db.wallets.find request.userId = none

def PartialSettleStops (request : EscrowPartialSettleRequest)
    (authorization : Option QueuePartialSettlementAuthorization) : Prop :=
  authorization.all (·.token = "") = true ∨
    ¬ db.Claimable request.idempotencyKey "partial_settle_escrow" ∨ db.Unheld request.escrowId ∨
    (∃ i, db.Held request.escrowId i ∧ Arithmetic.double (1 / 100) < missedBy request.refundAmount request.settleAmount i.amount) ∨
    db.wallets.find request.userId = none ∨ db.Uncreditable config.defaultCurrency request.modelId

end stops

section alone
variable {config : WalletService.Config} {db db' : Db} {stops : Prop}

private theorem stopped (hwallets : db'.wallets = db.wallets) (hmodels : db'.modelWallets = db.modelWallets)
    (hstops : stops) : Moved db db' ↔ ¬ stops :=
  iff_of_false (not_or.mpr ⟨not_not.mpr hwallets, not_not.mpr hmodels⟩) (not_not.mpr hstops)

private theorem model_moved {currency modelId : String} {m m' : ModelWallet} {ms : ModelWallets}
    (hopened : ModelOpened currency modelId db.modelWallets m ms) (hversion : m'.version = m.version + 1)
    (hgoes : ¬ stops) (hafter : db'.modelWallets.find modelId = some m') : Moved db db' ↔ ¬ stops := by
  refine iff_of_true (.inr fun heq => ?_) hgoes
  rw [heq] at hafter
  cases hopened with
  | found h =>
    have hsame := congrArg ModelWallet.version (Option.some.inj (h.symm.trans hafter))
    omega
  | created h => cases h.find.symm.trans hafter

private theorem user_moved {userId : String} {w w' : Wallet} (hbefore : db.wallets.find userId = some w)
    (hversion : w'.version = w.version + 1) (hgoes : ¬ stops)
    (hafter : db'.wallets.find userId = some w') : Moved db db' ↔ ¬ stops := by
  refine iff_of_true (.inl fun heq => ?_) hgoes
  rw [heq] at hafter
  have hsame := congrArg Wallet.version (Option.some.inj (hbefore.symm.trans hafter))
  omega

/-- A settlement that is not stopped credits the model's wallet, and does not touch it again. -/
private theorem alone_settle (request : EscrowSettleRequest)
    (authorization : Option QueueSettlementAuthorization) :
    Alone (fun _ => True) (fun _ db' => Moved db db' ↔ ¬ SettleStops config db request authorization)
      (settleEscrow config request authorization) db := by
  apply alone_throwIf (fun htoken => stopped rfl rfl (.inl htoken))
  intro htoken
  refine alone_bind (alone_claim (fun hclaim records => ?_) fun hclaim e => stopped rfl rfl (.inr (.inl hclaim)))
  refine alone_bind (alone_lockEscrow (fun i t hheld => ?_) fun hheld e => stopped rfl rfl (.inr (.inr (.inl hheld))))
  refine alone_bind (alone_getOrCreateModelWallet (fun hcredit m ms hopened => ?_) fun hcredit e =>
    stopped rfl rfl (.inr (.inr (.inr hcredit))))
  have hgoes : ¬ SettleStops config db request authorization := by
    rintro (h | h | h | h)
    · exact htoken h
    · exact h hclaim
    · exact h i hheld
    · exact hcredit h
  apply alone_updateModelWallet hopened.find rfl
  refine Prog.Yields.imp (Avoids.modelWallets ?_) fun _ db' hsame => model_moved hopened rfl hgoes
    ((congrArg (·.find request.modelId) hsame).trans (Collection.find_modify_self (ModelWalletUpdate.keeps _) hopened.find))
  refine within_throwIf (within_issue (by nofun) fun userWallet => within_orThrow fun userWallet =>
    within_issue (by nofun) fun updated => ?_)
  cases updated with
  | none => exact within_issue (by nofun) fun _ => trivial
  | some _ => exact within_issue (by nofun) fun _ =>
      within_recordSettle (spares_reads _) (spares_event (by nofun)) fun _ e _ => spares_entry (by nofun) e

private theorem alone_refund (request : EscrowRefundRequest) (authorization : Option QueueRefundAuthorization) :
    Alone (fun _ => True) (fun _ db' => Moved db db' ↔ ¬ RefundStops db request authorization)
      (refundEscrow config request authorization) db := by
  apply alone_throwIf (fun htoken => stopped rfl rfl (.inl htoken))
  intro htoken
  refine alone_bind (alone_claim (fun hclaim records => ?_) fun hclaim e => stopped rfl rfl (.inr (.inl hclaim)))
  refine alone_bind (alone_lockEscrow (fun i t hheld => ?_) fun hheld e => stopped rfl rfl (.inr (.inr (.inl hheld))))
  refine alone_findWallet (alone_orThrow (fun hnone => stopped rfl rfl (.inr (.inr (.inr hnone)))) fun w hw => ?_)
  have hgoes : ¬ RefundStops db request authorization := by
    rintro (h | h | h | h)
    · exact htoken h
    · exact h hclaim
    · exact h i hheld
    · cases h.symm.trans hw
  apply alone_updateWallet hw (by simp [WalletFilter.accepts])
  refine Prog.Yields.imp (Avoids.wallets ?_) fun _ db' hsame => user_moved hw rfl hgoes
    ((congrArg (·.find request.userId) hsame).trans (Collection.find_modify_self (WalletUpdate.keeps _) hw))
  exact within_issue (by rintro ⟨⟩) fun _ =>
    within_recordRefund (spares_reads _) (spares_event (by rintro ⟨⟩)) fun _ e _ => spares_entry (by rintro ⟨⟩) e

private theorem alone_partialSettle (request : EscrowPartialSettleRequest)
    (authorization : Option QueuePartialSettlementAuthorization) :
    Alone (fun _ => True) (fun _ db' => Moved db db' ↔ ¬ PartialSettleStops config db request authorization)
      (partialSettleEscrow config request authorization) db := by
  apply alone_throwIf (fun htoken => stopped rfl rfl (.inl htoken))
  intro htoken
  refine alone_bind (alone_claim (fun hclaim records => ?_) fun hclaim e => stopped rfl rfl (.inr (.inl hclaim)))
  refine alone_bind (alone_lockEscrow (fun i t hheld => ?_) fun hheld e => stopped rfl rfl (.inr (.inr (.inl hheld))))
  apply alone_throwIf (fun hsum => stopped rfl rfl (.inr (.inr (.inr (.inl ⟨i, hheld, hsum⟩)))))
  intro hsum
  refine alone_findWallet (alone_orThrow (fun hnone =>
    stopped rfl rfl (.inr (.inr (.inr (.inr (.inl hnone)))))) fun w hw => ?_)
  refine alone_bind (alone_getOrCreateModelWallet (fun hcredit m ms hopened => ?_) fun hcredit e =>
    stopped rfl rfl (.inr (.inr (.inr (.inr (.inr hcredit))))))
  have hgoes : ¬ PartialSettleStops config db request authorization := by
    rintro (h | h | h | ⟨j, hj, h⟩ | h | h)
    · exact htoken h
    · exact h hclaim
    · exact h i hheld
    · obtain rfl : i = j := Option.some.inj (hheld.1.symm.trans hj.1)
      exact hsum h
    · cases h.symm.trans hw
    · exact hcredit h
  apply alone_updateWallet hw (by simp [WalletFilter.accepts])
  refine Prog.Yields.imp (Avoids.wallets ?_) fun _ db' hsame => user_moved hw rfl hgoes
    ((congrArg (·.find request.userId) hsame).trans (Collection.find_modify_self (WalletUpdate.keeps _) hw))
  apply within_issue (by rintro ⟨⟩)
  intro updated
  cases updated with
  | none => exact within_issue (by rintro ⟨⟩) fun _ => trivial
  | some _ =>
    exact within_issue (by rintro ⟨⟩) fun _ =>
      within_recordPartialSettle (spares_reads _) (spares_event (by rintro ⟨⟩))
        (fun _ e _ => spares_entry (by rintro ⟨⟩) e) fun _ e _ => spares_entry (by rintro ⟨⟩) e

private theorem agreed_iff {moved stops agrees : Prop} (h : moved ↔ ¬ stops) :
    (moved → agrees) ↔ stops ∨ agrees := by
  rw [h, imp_iff_not_or, not_not]

/-- Whatever the store, the request and the authorization: a settlement, refund or partial
settlement moves a balance only where item, request and authorization agree, if and only if one of
its own few checks stops it or they do agree. Identifiers are trimmed, and amounts exact but for the
sum that is checked. -/
theorem moves_only_agreed_iff (config : WalletService.Config) (jwt : AuthService.Jwt) (auth : AuthService.Config)
    (now : Time) (db : Db) (os : ℕ → Oracle) :
    (∀ request authorization,
      (Moved db ((settleEscrow config request authorization).solo exec os db).2 →
        SettleAgrees jwt auth now db request authorization) ↔
      SettleStops config db request authorization ∨ SettleAgrees jwt auth now db request authorization) ∧
    (∀ request authorization,
      (Moved db ((refundEscrow config request authorization).solo exec os db).2 →
        RefundAgrees jwt auth now db request authorization) ↔
      RefundStops db request authorization ∨ RefundAgrees jwt auth now db request authorization) ∧
    ∀ request authorization,
      (Moved db ((partialSettleEscrow config request authorization).solo exec os db).2 →
        PartialSettleAgrees jwt auth now db request authorization) ↔
      PartialSettleStops config db request authorization ∨
        PartialSettleAgrees jwt auth now db request authorization := by
  have hfair : ∀ n, (fun _ => True) (os n) := fun _ => trivial
  exact ⟨fun request authorization => agreed_iff ((alone_settle request authorization).solo hfair),
    fun request authorization => agreed_iff ((alone_refund request authorization).solo hfair),
    fun request authorization => agreed_iff ((alone_partialSettle request authorization).solo hfair)⟩

end alone

section scenario

/-- A token library that refuses the token it is shown. -/
def refusingJwt : AuthService.Jwt := ⟨fun _ _ _ => "token", fun _ _ _ _ => .error .jsonWebToken⟩

/-- A settlement of 50 points for an item of 5, with a token that is not valid. -/
theorem moves_without_agreement :
    ¬ (Moved escrowedDb ((settleEscrow WalletService.defaultConfig { sampleSettle with amount := 50 }
        (some sampleAuthorization)).solo exec tick escrowedDb).2 →
      SettleAgrees refusingJwt ⟨"secret", 300, .hs256⟩ 0 escrowedDb { sampleSettle with amount := 50 }
        (some sampleAuthorization)) := by
  intro hclaim
  obtain ⟨i, a, hfind, -, -, hamount, -⟩ := hclaim <| .inr fun heq => by
    have hversion : ((settleEscrow WalletService.defaultConfig { sampleSettle with amount := 50 }
        (some sampleAuthorization)).solo exec tick escrowedDb).2.modelVersion "model-1" = 1 := by decide +kernel
    rw [Db.modelVersion, heq] at hversion
    cases hversion
  have hitem : escrowedDb.escrowItems.find "escrow-1" = some sampleItem := by
    exact (Collection.find_insert (by simp [Collection.Free, Collection.empty]) _).trans (if_pos rfl)
  obtain rfl : sampleItem = i := Option.some.inj (hitem.symm.trans hfind)
  exact absurd hamount (by decide +kernel)

end scenario
end RedRoomRewards
