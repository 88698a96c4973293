import RedRoomRewards.Alone.Entries
import RedRoomRewards.Guarantees.BalanceLaw

/-! Awards, deductions, adjustments and expirations run alone: when each of them gets as
far as its wallet update, and what it has left to do then. -/
namespace RedRoomRewards
open Process Store LedgerService

section wallets
variable {db db' : Db}

theorem Opened.balances {currency userId : String} {ws : Wallets} {w : Wallet}
    (h : Opened currency userId db.wallets w ws) (userId' : String) :
    (ws.find userId').elim 0 (fun w => (w.availableBalance, w.escrowBalance)) = db.balances userId' := by
  cases h with
  | found h => rfl
  | created hfree =>
    rw [Collection.find_insert hfree, Db.balances]
    split
    · rename_i heq
      rw [heq, hfree.find]
      rfl
    · rfl

/-- A committed update of an opened wallet is the only change of the balances. -/
theorem Opened.updated {currency userId : String} {ws : Wallets} {w : Wallet} {u : WalletUpdate}
    (h : Opened currency userId db.wallets w ws) (hdb' : db'.wallets = ws.modify userId u.apply u.keeps) :
    db'.balances userId = ((u.apply w).availableBalance, (u.apply w).escrowBalance) ∧
      (w.availableBalance, w.escrowBalance) = db.balances userId ∧
      ∀ userId' ≠ userId, db'.balances userId' = db.balances userId' := by
  refine ⟨?_, ?_, fun userId' hne => ?_⟩
  · rw [Db.balances, hdb', Collection.find_modify_self _ h.find]
    rfl
  · rw [← h.balances userId, h.find]
    rfl
  · rw [Db.balances, hdb', Collection.find_modify_ne hne, ← h.balances userId']

end wallets

section posting
variable (db : Db) (wallets : Wallets) (userId : String) (change : ℚ)

/-- The store when an update of one wallet's available balance has committed. -/
def Db.posting : Db :=
  { db with wallets := wallets.modify userId (WalletUpdate.inc change 0 1).apply (WalletUpdate.keeps _) }

variable {db} {wallets} {userId} {w : Wallet}

theorem Db.posting_find (hw : wallets.find userId = some w) : (db.posting wallets userId change).wallets.find userId =
    some { w with availableBalance := w.availableBalance + change, escrowBalance := w.escrowBalance + 0,
                  version := w.version + 1 } := Collection.find_modify_self (WalletUpdate.keeps _) hw

end posting

section booking
variable {α : Type} (config : LedgerService.Config) (entry : String → Time → CreateLedgerEntryRequest)
  (response : String → Time → α)

/-- What an operation on one wallet does once its update has committed. -/
def booking : Service α := do
  let transactionId : String ← issue .uuidv4
  let timestamp : Time ← issue .now
  let _ ← createEntry config (entry transactionId timestamp)
  pure (response transactionId timestamp)

variable {config} {entry} {response} {fair : Oracle → Prop} {post : Except ServiceError α → Db → Prop} {db : Db}

theorem alone_booking
    (hok : ∀ id t e, (entry id t).Describes config e → db.ledger.Free e →
      post (.ok (response id t)) { db with ledger := db.ledger.insert e })
    (htaken : ∀ id t, ∀ e ∈ db.ledger.docs, e.idempotencyKey = trim (entry id t).idempotencyKey →
      post (.ok (response id t)) db)
    (herror : ∀ error, post (.error (.ledger error)) db) :
    Alone fair post (booking config entry response) db := by
  refine alone_uuidv4 fun id => alone_now fun t => alone_bind ?_
  exact alone_createEntry (hok id t) (htaken id t) herror

/-- The entry is written if the ledger can take it. -/
theorem alone_booking_storable (hrequest : ∀ id t, ValidId id → (entry id t).Storable config id db)
    (hfair : ∀ o, fair o → Supplies db o)
    (hok : ∀ id t e, (entry id t).Describes config e → db.ledger.Free e →
      post (.ok (response id t)) { db with ledger := db.ledger.insert e }) :
    Alone fair post (booking config entry response) db := by
  refine alone_issue fun o ho => alone_now fun t => alone_bind ?_
  have hid : ValidId o.uuid := (hfair o ho).2.1
  exact alone_createEntry_storable (hrequest _ t hid) hid hfair (hok _ t)

/-- The store after a booking: the ledger has at most one more entry. -/
structure BookingDone (config : LedgerService.Config) (entry : String → Time → CreateLedgerEntryRequest)
    (db db' : Db) : Prop where
  wallets : db'.wallets = db.wallets
  records : db'.records = db.records
  ledger : db'.ledger.docs = db.ledger.docs ∨
    ∃ id t e, (entry id t).Describes config e ∧ db'.ledger.docs = db.ledger.docs ++ [e]

theorem alone_booking_done (hok : ∀ id t db', BookingDone config entry db db' → post (.ok (response id t)) db')
    (herror : ∀ error, post (.error error) db) : Alone fair post (booking config entry response) db := by
  refine alone_booking (fun id t e he hfree => hok id t _ ⟨rfl, rfl, .inr ⟨id, t, e, he, ?_⟩⟩)
    (fun id t _ _ _ => hok id t _ ⟨rfl, rfl, .inl rfl⟩) fun _ => herror _
  exact Collection.docs_insert hfree

end booking

section award
variable (config : PointAccrualService.Config) (request : AwardPointsRequest) (db : Db)

/-- The tenant has the key on record in this scope. -/
def Db.Used (tenantId key scope : String) : Prop :=
  ∃ r, db.records.find (key, scope) = some r ∧ r.tenantId = some tenantId

/-- The amount is one that can be awarded or deducted. -/
def PointAccrualService.Config.Accepts (amount : ℚ) : Prop :=
  config.minAwardAmount ≤ amount ∧ amount ≤ config.maxAwardAmount ∧ 0 < amount

/-- The award gets as far as its wallet update. -/
structure AwardGoes : Prop where
  attempts : 0 < config.maxRetryAttempts
  amount : config.Accepts request.amount
  reason : request.reason ∈ PointAccrualService.earningReasons
  unused : ¬ db.Used request.tenantId request.idempotencyKey "award_points"
  wallet : ¬ db.Unopenable config.defaultCurrency request.userId

/-- The deduction gets as far as its wallet update. -/
structure DeductGoes : Prop where
  attempts : 0 < config.maxRetryAttempts
  amount : config.Accepts request.amount
  reason : request.reason ∈ PointAccrualService.debitReasons
  unused : ¬ db.Used request.tenantId request.idempotencyKey "deduct_points"
  wallet : ∃ w, db.wallets.find request.userId = some w ∧ request.amount ≤ w.availableBalance

variable {config} {request} {db}
variable {fair : Oracle → Prop} {post : Except ServiceError AwardPointsResponse → Db → Prop}

private theorem alone_validateAmount {post : Except ServiceError Unit → Db → Prop} {amount : ℚ}
    (hok : config.Accepts amount → post (.ok ()) db) (herror : ¬ config.Accepts amount → ∀ e, post (.error e) db) :
    Alone fair post (PointAccrualService.validateAmount config amount) db := by
  apply alone_throwIf (fun h => herror (fun ha => not_le_of_gt h ha.1) _)
  intro hmin
  apply alone_throwIf (fun h => herror (fun ha => not_le_of_gt h ha.2.1) _)
  intro hmax
  by_cases hpos : amount ≤ 0
  · rw [Prog.throwIf_pos hpos]
    exact herror (fun ha => not_lt_of_ge hpos ha.2.2) _
  · rw [Prog.throwIf_neg hpos]
    exact hok ⟨not_lt.mp hmin, not_lt.mp hmax, not_le.mp hpos⟩

private theorem alone_checkFirst {post : Except ServiceError Unit → Db → Prop} {scope : String} {first : Prop}
    [Decidable first] (hfirst : first)
    (hok : ¬ db.Used request.tenantId request.idempotencyKey scope → post (.ok ()) db)
    (herror : db.Used request.tenantId request.idempotencyKey scope → ∀ e, post (.error e) db) :
    Alone fair post (PointAccrualService.checkFirst first request scope) db := by
  rw [PointAccrualService.checkFirst, if_pos hfirst]
  refine alone_bind (alone_issue fun o _ => ?_)
  have hreply : ∀ found : Option IdempotencyRecord,
      (found.isSome = true ↔ db.Used request.tenantId request.idempotencyKey scope) →
        Onward fair post (fun used : Bool => Prog.throwIf (used = true) (.error ["Idempotency key already used"]))
          (.ok found.isSome) db := by
    intro found hused
    by_cases hfound : found.isSome = true
    · show Alone fair post (Prog.throwIf _ _) db
      rw [Prog.throwIf_pos hfound]
      exact herror (hused.mp hfound) _
    · show Alone fair post (Prog.throwIf _ _) db
      rw [Prog.throwIf_neg hfound]
      exact hok (mt hused.mpr hfound)
  apply hreply _
  simp only [exec, Db.Used]
  cases db.records.find (request.idempotencyKey, scope) with
  | none => simp
  | some r => by_cases htenant : r.tenantId = some request.tenantId <;> simp [htenant]

private theorem alone_awardAttemptsThen {record : Wallet → Service AwardPointsResponse}
    (hstop : ¬ AwardGoes config request db → ∀ e, post (.error e) db)
    (hgo : AwardGoes config request db → ∀ w wallets, Opened config.defaultCurrency request.userId db.wallets w wallets →
      Alone fair post (record w) (db.posting wallets request.userId request.amount)) :
    Alone fair post (PointAccrualService.awardAttemptsThen config request record config.maxRetryAttempts) db := by
  cases hattempts : config.maxRetryAttempts with
  | zero => exact hstop (fun h => by simpa [hattempts] using h.attempts) _
  | succ left =>
    refine alone_bind (alone_validateAmount (fun hamount => ?_) fun hamount => hstop fun h => hamount h.amount)
    apply alone_throwIf (fun hreason => hstop (fun h => hreason h.reason) _)
    intro hreason
    refine alone_bind (alone_checkFirst hattempts.symm (fun hunused => ?_) fun hused => hstop fun h => h.unused hused)
    refine alone_bind (alone_getOrCreateWallet (fun hwallet w wallets hopened => ?_) fun hwallet e =>
      hstop (fun h => h.wallet hwallet) _)
    exact alone_updateWallet (w := w) hopened.find (by simp [WalletFilter.accepts])
      (hgo ⟨by omega, hamount, not_not.mp hreason, hunused, hwallet⟩ w wallets hopened)

/-- An award alone either stops with the store as it was, or opens the wallet, adds its
amount and goes on to book it. -/
theorem alone_awardPoints
    (hstop : ¬ AwardGoes config request db → ∀ e, post (.error e) db)
    (hgo : AwardGoes config request db → ∀ w wallets, Opened config.defaultCurrency request.userId db.wallets w wallets →
      Alone fair post (booking config.ledger (fun id _ => PointAccrualService.awardEntry config request w id)
          fun id t => ⟨id, request.amount, w.availableBalance + request.amount, t⟩)
        (db.posting wallets request.userId request.amount)) :
    Alone fair post (PointAccrualService.awardPoints config request) db := alone_awardAttemptsThen hstop hgo

/-- An award with an invalid date stops with the store as it was, or adds its amount and throws. -/
theorem alone_awardPointsUndated
    (hstop : ¬ AwardGoes config request db → ∀ e, post (.error e) db)
    (hgo : AwardGoes config request db → ∀ w wallets, Opened config.defaultCurrency request.userId db.wallets w wallets →
      ∀ e, post (.error e) (db.posting wallets request.userId request.amount)) :
    Alone fair post (PointAccrualService.awardPointsUndated config request) db :=
  alone_awardAttemptsThen hstop fun hgoes w wallets hopened =>
    alone_uuidv4 fun _ => alone_now fun _ => hgo hgoes w wallets hopened _

theorem alone_deductFromAvailable
    (hstop : ¬ DeductGoes config request db → ∀ e, post (.error e) db)
    (hgo : DeductGoes config request db → ∀ w, db.wallets.find request.userId = some w →
      Alone fair post (booking config.ledger (fun id _ => PointAccrualService.deductEntry config request w id)
          fun id t => ⟨id, request.amount, w.availableBalance - request.amount, t⟩)
        (db.posting db.wallets request.userId (-request.amount))) :
    Alone fair post (PointAccrualService.deductFromAvailable config request) db := by
  unfold PointAccrualService.deductFromAvailable
  cases hattempts : config.maxRetryAttempts with
  | zero => exact hstop (fun h => by simpa [hattempts] using h.attempts) _
  | succ left =>
    refine alone_bind (alone_validateAmount (fun hamount => ?_) fun hamount => hstop fun h => hamount h.amount)
    apply alone_throwIf (fun hreason => hstop (fun h => hreason h.reason) _)
    intro hreason
    refine alone_bind (alone_checkFirst hattempts.symm (fun hunused => ?_) fun hused => hstop fun h => h.unused hused)
    refine alone_findWallet (alone_orThrow (fun hnone => hstop (fun h => ?_) _) fun w hw => ?_)
    · obtain ⟨w, hw, -⟩ := h.wallet
      cases hnone.symm.trans hw
    refine alone_throwIf (fun hless => hstop (fun h => ?_) _) fun hless => ?_
    · obtain ⟨w', hw', henough⟩ := h.wallet
      cases hw.symm.trans hw'
      exact not_le_of_gt hless henough
    exact alone_updateWallet (w := w) hw (by simpa [WalletFilter.accepts] using not_lt.mp hless)
      (hgo ⟨by omega, hamount, not_not.mp hreason, hunused, w, hw, not_lt.mp hless⟩ w hw)

end award

section adjustment
variable (config : AdminOpsService.Config) (request : ManualAdjustmentRequest) (db : Db)

/-- The administrator may adjust balances. -/
def AdminContext.Authorized (admin : AdminContext) : Prop :=
  admin.adminId ≠ "" ∧ ("admin" ∈ admin.roles ∨ "super_admin" ∈ admin.roles ∨ "finance_admin" ∈ admin.roles)

/-- An adjustment may leave this balance. -/
def ManualAdjustmentRequest.MayLeave (balance : ℚ) : Prop :=
  0 ≤ balance ∨ AdminOpsService.allowNegative request = true

/-- The adjustment gets as far as its wallet update. -/
structure AdjustGoes : Prop where
  admin : request.admin.Authorized
  reason : config.requireReason = true → request.reason ≠ ""
  amount : |request.amount| ≤ config.maxAdjustmentAmount ∧ request.amount ≠ 0
  wallet : ∃ w, db.wallets.find request.userId = some w ∧ request.MayLeave (w.availableBalance + request.amount)

variable {config} {request} {db}
variable {fair : Oracle → Prop} {post : Except ServiceError (Next Unit ManualAdjustmentResponse) → Db → Prop}

theorem alone_validateAdminAuth {post : Except ServiceError Unit → Db → Prop} {admin : AdminContext}
    (hok : admin.Authorized → post (.ok ()) db) (herror : ¬ admin.Authorized → ∀ e, post (.error e) db) :
    Alone fair post (AdminOpsService.validateAdminAuth admin) db := by
  refine alone_throwIf (fun h => herror (fun ha => ?_) _) fun hcontext => ?_
  · rcases h with h | h
    · exact ha.1 h
    · simpa [h] using ha.2
  · by_cases hroles : ¬ ("admin" ∈ admin.roles ∨ "super_admin" ∈ admin.roles ∨ "finance_admin" ∈ admin.roles)
    · rw [Prog.throwIf_pos hroles]
      exact herror (fun ha => hroles ha.2) _
    · rw [Prog.throwIf_neg hroles]
      exact hok ⟨fun h => hcontext (.inl h), not_not.mp hroles⟩

theorem alone_manualAdjustment
    (hstop : ¬ AdjustGoes config request db → ∀ e, post (.error e) db)
    (hgo : AdjustGoes config request db → ∀ w, db.wallets.find request.userId = some w →
      Alone fair post (booking config.ledger (fun id _ => AdminOpsService.adjustmentEntry config request w id)
          fun id t => .done ⟨id, request.amount, w.availableBalance, w.availableBalance + request.amount, t⟩)
        (db.posting db.wallets request.userId request.amount)) :
    Alone fair post (AdminOpsService.manualAdjustment config request) db := by
  refine alone_bind (alone_validateAdminAuth (fun hadmin => ?_) fun hadmin => hstop fun h => hadmin h.admin)
  apply alone_throwIf (fun h => hstop (fun hg => hg.reason h.1 h.2) _)
  intro hreason
  apply alone_throwIf (fun h => hstop (fun hg => not_le_of_gt h hg.amount.1) _)
  intro hmax
  apply alone_throwIf (fun h => hstop (fun hg => hg.amount.2 h) _)
  intro hzero
  refine alone_findWallet (alone_orThrow (fun hnone => hstop (fun h => ?_) _) fun w hw => ?_)
  · obtain ⟨w, hw, -⟩ := h.wallet
    cases hnone.symm.trans hw
  refine alone_throwIf (fun hnegative => hstop (fun h => ?_) _) fun hnegative => ?_
  · obtain ⟨w', hw', hmay⟩ := h.wallet
    cases hw.symm.trans hw'
    rcases hmay with hmay | hmay
    · exact not_le_of_gt hnegative.1 hmay
    · exact Bool.false_ne_true (hnegative.2.symm.trans hmay)
  have hmay : request.MayLeave (w.availableBalance + request.amount) := by
    by_cases hbalance : 0 ≤ w.availableBalance + request.amount
    · exact .inl hbalance
    · exact .inr (Bool.not_eq_false _ ▸ fun h => hnegative ⟨not_le.mp hbalance, h⟩)
  exact alone_updateWallet (w := w) hw (by simp [WalletFilter.accepts])
    (hgo ⟨hadmin, fun hrequired hempty => hreason ⟨hrequired, hempty⟩, ⟨not_lt.mp hmax, hzero⟩, w, hw, hmay⟩ w hw)

end adjustment

section expiration
variable (config : PointExpirationService.Config) (userId requestId : String) (db : Db)

/-- The entries an expiration looks at. -/
def Db.creditPage : List LedgerEntry :=
  ((sortedEntries (PointExpirationService.creditFilter userId).query ⟨.timestamp, false⟩ db.ledger.docs).drop 0).take
    (PointExpirationService.creditFilter userId).pageSize

/-- The points in the ledger that have expired at `now`. -/
def Db.expiredAt (now : Time) : ℚ := PointExpirationService.totalExpired config
  (now - config.gracePeriodDays * 24 * 60 * 60 * 1000) (db.creditPage userId)

/-- An expiration from its reading of the clock on; `total` is what has expired. -/
def expireTotal (total : ℚ) : Service (Next Unit (Option UserExpirationDetails)) :=
  if total = 0 then pure (.done none)
  else do
    let wallet : Option Wallet ← issue (.findWallet userId)
    let wallet ← Prog.orThrow (.error ["Wallet not found for user: ", userId]) wallet
    let amountToExpire := min total wallet.availableBalance
    if amountToExpire ≤ 0 then pure (.done none)
    else do
      let updated : Option Wallet ←
        issue (.updateWallet ⟨userId, wallet.version, none⟩ (.inc (-amountToExpire) 0 1))
      match updated with
      | none => pure (.again ())
      | some _ =>
        booking config.ledger
          (PointExpirationService.expirationEntry config userId requestId wallet amountToExpire)
          fun id t => .done (some ⟨userId, amountToExpire, id, t⟩)

variable {config} {userId} {requestId} {db}

theorem solo_processUserExpiration (os : ℕ → Oracle) :
    (PointExpirationService.processUserExpiration config userId requestId).solo exec os db =
      (expireTotal config userId requestId (db.expiredAt config userId (os 2).now)).solo exec
        (fun n => os (n + 3)) db := rfl

variable {fair : Oracle → Prop}
variable {post : Except ServiceError (Next Unit (Option UserExpirationDetails)) → Db → Prop} {total : ℚ}

theorem alone_expireTotal
    (hstop : (∀ w, db.wallets.find userId = some w → ¬ (0 < total ∧ 0 < w.availableBalance)) →
      post (.ok (.done none)) db ∧ ∀ e, post (.error e) db)
    (hgo : ∀ w, db.wallets.find userId = some w → 0 < total → 0 < w.availableBalance →
      Alone fair post (booking config.ledger
          (PointExpirationService.expirationEntry config userId requestId w (min total w.availableBalance))
          fun id t => .done (some ⟨userId, min total w.availableBalance, id, t⟩))
        (db.posting db.wallets userId (-min total w.availableBalance))) :
    Alone fair post (expireTotal config userId requestId total) db := by
  unfold expireTotal
  split
  · rename_i hzero
    exact (hstop fun w _ h => absurd hzero h.1.ne').1
  · refine alone_findWallet (alone_orThrow (fun hnone => (hstop fun w hw => ?_).2 _) fun w hw => ?_)
    · cases hnone.symm.trans hw
    · show Alone fair post (if _ then _ else _) db
      split
      · rename_i hmin
        refine (hstop fun w' hw' h => ?_).1
        cases hw.symm.trans hw'
        exact not_lt_of_ge hmin (lt_min h.1 h.2)
      · rename_i hmin
        have hboth := lt_min_iff.mp (not_le.mp hmin)
        exact alone_updateWallet (w := w) hw (by simp [WalletFilter.accepts]) (hgo w hw hboth.1 hboth.2)

end expiration
end RedRoomRewards
