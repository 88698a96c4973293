import RedRoomRewards.Process.Budget
import RedRoomRewards.Guarantees.Conservation

/-! How many guarded wallet updates one call issues, and how many commands at all. -/
namespace RedRoomRewards
open Process Store Prog

/-- An update of a user wallet costs `a`, any other command `b`. -/
def Cmd.price (a b : ℕ) : Cmd → ℕ
  | .updateWallet .. => a
  | _ => b

/-- A guarded update that has found another version than the call has read. -/
def Cmd.missed : (c : Cmd) → c.Reply → Bool
  | .updateWallet .., none => true
  | _, _ => false

section programs
variable {a b n : ℕ} {α β : Type}

private theorem spends_issue {c : Cmd} {k : c.Reply → Service α} (hc : c.price a b = b)
    (hk : ∀ r, Spends (I := Mongo) (Cmd.price a b) n (k r)) :
    Spends (I := Mongo) (Cmd.price a b) (b + n) (issue c >>= k) := by
  have h : Spends (I := Mongo) (Cmd.price a b) (c.price a b + n) (issue c >>= k) := spends_ask hk
  rwa [hc] at h

private theorem spends_update {f : WalletFilter} {u : WalletUpdate} {k : Option Wallet → Service α}
    (hk : ∀ r, Spends (I := Mongo) (Cmd.price a b) n (k r)) :
    Spends (I := Mongo) (Cmd.price a b) (a + n) (issue (.updateWallet f u) >>= k) :=
  spends_ask (I := Mongo) (c := .updateWallet f u) hk

private theorem spends_created {r : Except MongoError α} : Spends (I := Mongo) (Cmd.price a b) 0 (created r) := by
  cases r <;> trivial

private theorem spends_check {p : Prop} [Decidable p] {e : ServiceError} :
    Spends (I := Mongo) (Cmd.price a b) 0 (throwIf p e : Service Unit) := by
  unfold throwIf
  split <;> trivial

theorem spends_claim {key scope : String} :
    Spends (I := Mongo) (Cmd.price a b) (3 * b) (WalletService.claim key scope) := by
  have hclaim : Spends (I := Mongo) (Cmd.price a b) (b + (b + (b + 0)))
      (LedgerService.claimIdempotency key scope none) :=
    spends_issue rfl fun _ => spends_issue rfl fun _ => spends_issue rfl fun r => by
      rcases r with (e | e | e) | r <;> trivial
  have hall : Spends (I := Mongo) (Cmd.price a b) (b + (b + (b + 0)) + 0) (WalletService.claim key scope) :=
    spends_bind hclaim fun claimed => spends_check
  exact hall.mono (by omega)

theorem spends_createEntry {config : LedgerService.Config} {request : LedgerService.CreateLedgerEntryRequest} :
    Spends (I := Mongo) (Cmd.price a b) (5 * b) (LedgerService.createEntry config request) := by
  refine spends_throwIf (spends_throwIf ?_)
  cases request.metadata.bind LedgerService.piiIn with
  | some message => trivial
  | none =>
    have hinsert : ∀ e, Spends (I := Mongo) (Cmd.price a b) (b + (b + 0)) (LedgerService.insertEntry e) := by
      refine fun e => spends_issue rfl fun r => ?_
      cases r with
      | ok e => trivial
      | error e =>
        show Spends _ _ (if _ then _ else _)
        split
        · exact spends_issue rfl fun r => by cases r <;> trivial
        · trivial
    have hid : Spends (I := Mongo) (Cmd.price a b) (b + 0) (LedgerService.givenOrFresh request.transactionId) := by
      unfold LedgerService.givenOrFresh
      split
      · split
        · exact spends_issue (c := .uuidv4) (k := Prog.ret) rfl fun _ => trivial
        · trivial
      · exact spends_issue (c := .uuidv4) (k := Prog.ret) rfl fun _ => trivial
    refine Spends.mono (m := b + (b + 0 + (b + (b + (b + 0))))) ?_ (by omega)
    exact spends_issue rfl fun _ => spends_bind hid fun transactionId =>
      spends_issue rfl fun timestamp => spends_throwIf (spends_orThrow fun reason => hinsert _)

theorem spends_publish {event : WalletEvent} :
    Spends (I := Mongo) (Cmd.price a b) (3 * b) (WalletService.publish event) := by
  refine Spends.mono (m := b + (b + (b + 0))) ?_ (by omega)
  exact spends_issue rfl fun _ => spends_issue rfl fun _ => spends_issue rfl fun _ => trivial

theorem spends_getOrCreateWallet {currency userId : String} :
    Spends (I := Mongo) (Cmd.price a b) (2 * b) (WalletService.getOrCreateWallet currency userId) := by
  refine Spends.mono (m := b + (b + 0)) ?_ (by omega)
  apply spends_issue rfl
  intro w
  cases w with
  | some w => trivial
  | none => exact spends_issue rfl fun r => spends_created

private theorem spends_recordHold {config : WalletService.Config} {request : EscrowHoldRequest} {wallet : Wallet}
    {escrowId : String} :
    Spends (I := Mongo) (Cmd.price a b) (15 * b) (WalletService.recordHold config request wallet escrowId) := by
  refine Spends.mono (m := b + (b + (5 * b + (5 * b + (3 * b + 0))))) ?_ (by omega)
  exact spends_issue rfl fun transactionId => spends_issue rfl fun timestamp =>
    spends_bind spends_createEntry fun _ => spends_bind spends_createEntry fun _ =>
      spends_bind spends_publish fun _ => trivial

private theorem spends_executeHold {config : WalletService.Config} {request : EscrowHoldRequest} :
    Spends (I := Mongo) (Cmd.price a b) (a + 20 * b) (WalletService.executeHoldInEscrow config request) := by
  refine Spends.mono (m := 2 * b + (b + (b + (b + (0 + (a + 15 * b)))))) ?_ (by omega)
  refine spends_bind spends_getOrCreateWallet fun w => spends_throwIf (spends_issue rfl fun escrowId =>
    spends_issue rfl fun createdAt => spends_issue rfl fun reply => spends_bind spends_created fun _ =>
      spends_update fun updated => ?_)
  cases updated with
  | none => exact Spends.mono (m := b + 0) (spends_issue rfl fun _ => trivial) (by omega)
  | some w => exact spends_recordHold

/-- Each attempt of a hold pays for itself, and so does the handler for the next ones. -/
private theorem spends_holdAttempts {config : WalletService.Config} {request : EscrowHoldRequest} (left : ℕ) :
    Spends (I := Mongo) (Cmd.price a b) (left * (a + 20 * b)) (WalletService.holdAttempts config request left) := by
  induction left with
  | zero => trivial
  | succ left ih =>
    rw [Nat.succ_mul, Nat.add_comm]
    apply spends_catching spends_executeHold
    intro e
    cases e with
    | optimisticLock _ _ =>
      show Spends _ _ (if _ then _ else _)
      split
      · exact ih
      · trivial
    | _ => trivial

theorem spends_holdInEscrow {config : WalletService.Config} {request : EscrowHoldRequest} :
    Spends (I := Mongo) (Cmd.price a b) (3 * b + config.maxRetryAttempts * (a + 20 * b))
      (WalletService.holdInEscrow config request) :=
  spends_bind spends_claim fun _ => spends_holdAttempts _

private theorem spends_checkBalance {config : PointRedemptionService.Config} {request : RedeemPointsRequest} :
    Spends (I := Mongo) (Cmd.price a b) b (PointRedemptionService.checkBalance config request) := by
  unfold PointRedemptionService.checkBalance
  split
  · have hbalance : Spends (I := Mongo) (Cmd.price a b) (b + 0) (WalletService.getUserBalance request.userId) :=
      spends_issue rfl fun w => by cases w <;> trivial
    exact (spends_bind hbalance fun balance => spends_check).mono (by omega)
  · trivial

theorem spends_redeemPoints {config : PointRedemptionService.Config} {wallet : WalletService.Config}
    {request : RedeemPointsRequest} :
    Spends (I := Mongo) (Cmd.price a b) (4 * b + wallet.maxRetryAttempts * (a + 20 * b))
      (PointRedemptionService.redeemPoints config wallet request) := by
  refine Spends.mono (m := 0 + (0 + (0 + (b + (3 * b + wallet.maxRetryAttempts * (a + 20 * b) + 0))))) ?_ (by omega)
  exact spends_bind (spends_throwIf (spends_throwIf spends_check)) fun _ => spends_bind spends_check fun _ =>
    spends_bind spends_check fun _ => spends_bind spends_checkBalance fun _ =>
      spends_bind spends_holdInEscrow fun _ => trivial

section points
variable {config : PointAccrualService.Config} {request : AwardPointsRequest}

private theorem spends_validateAmount {amount : ℚ} :
    Spends (I := Mongo) (Cmd.price a b) 0 (PointAccrualService.validateAmount config amount) := by
  exact spends_throwIf (spends_throwIf spends_check)

private theorem spends_checkFirst {first : Prop} [Decidable first] {operationType : String} :
    Spends (I := Mongo) (Cmd.price a b) b (PointAccrualService.checkFirst first request operationType) := by
  unfold PointAccrualService.checkFirst
  split
  · refine Spends.mono (m := b + 0 + 0) ?_ (by omega)
    exact spends_bind (spends_issue rfl fun _ => trivial) fun used => spends_check
  · trivial

/-- What an operation on one wallet spends after its update. -/
private theorem spends_book {config : LedgerService.Config} {entry : String → Time → LedgerService.CreateLedgerEntryRequest}
    {response : String → Time → α} : Spends (I := Mongo) (Cmd.price a b) (7 * b) (do
      let transactionId : String ← issue .uuidv4
      let timestamp : Time ← issue .now
      let _ ← LedgerService.createEntry config (entry transactionId timestamp)
      pure (response transactionId timestamp)) := by
  refine Spends.mono (m := b + (b + (5 * b + 0))) ?_ (by omega)
  exact spends_issue rfl fun id => spends_issue rfl fun t => spends_bind spends_createEntry fun _ => trivial

private theorem spends_awardAttempts (left : ℕ) : Spends (I := Mongo) (Cmd.price a b) (left * (a + 10 * b))
    (PointAccrualService.awardAttempts config request left) := by
  induction left with
  | zero => trivial
  | succ left ih =>
    rw [Nat.succ_mul]
    refine Spends.mono (m := 0 + (b + (2 * b + (a + (7 * b + left * (a + 10 * b)))))) ?_ (by omega)
    refine spends_bind spends_validateAmount fun _ => spends_throwIf (spends_bind spends_checkFirst fun _ =>
      spends_bind spends_getOrCreateWallet fun w => spends_update fun updated => ?_)
    cases updated with
    | none => exact ih.mono (by omega)
    | some w => exact Spends.mono spends_book (by omega)

private theorem spends_deductAttempts (left : ℕ) : Spends (I := Mongo) (Cmd.price a b) (left * (a + 9 * b))
    (PointAccrualService.deductAttempts config request left) := by
  induction left with
  | zero => trivial
  | succ left ih =>
    rw [Nat.succ_mul]
    refine Spends.mono (m := 0 + (b + (b + (a + (7 * b + left * (a + 9 * b)))))) ?_ (by omega)
    refine spends_bind spends_validateAmount fun _ => spends_throwIf (spends_bind spends_checkFirst fun _ =>
      spends_issue rfl fun w => spends_orThrow fun w => spends_throwIf (spends_update fun updated => ?_))
    cases updated with
    | none => exact ih.mono (by omega)
    | some w => exact Spends.mono spends_book (by omega)

end points

section recursive
variable {full : ℕ}

/-- A miss fills the purse again. -/
def refilled (full : ℕ) (c : Cmd) (r : c.Reply) : ℕ := if c.missed r = true then full else 0

/-- A call may call itself again once its purse is full. -/
private def Ready (full n : ℕ) : Except ServiceError (Next Unit α) → Prop
  | .ok (.again _) => full ≤ n
  | _ => True

private abbrev Affords (a b full n : ℕ) (p : Service (Next Unit α)) : Prop :=
  Obeys (purse (I := Mongo) (Cmd.price a b) (refilled full)) (Ready full) n p

/-- A program that does not end with a call of itself. -/
private theorem affords_done {p : Service α} {f : α → β} (hp : Spends (I := Mongo) (Cmd.price a b) n p) :
    Affords a b full n (p >>= fun x => pure (.done (f x))) := by
  refine (obeys_bind p _ n).mpr (Spends.obeys (m := n) (n := 0) hp fun n' r _ => ?_)
  cases r <;> trivial

private theorem affords_throwIf {p : Prop} [Decidable p] {e : ServiceError} {f : Unit → Service (Next Unit α)}
    (hf : Affords a b full n (f ())) : Affords a b full n (throwIf p e >>= f) :=
  (obeys_throwIf_bind _ _ _ _).mpr ⟨fun _ => trivial, fun _ => hf⟩

private theorem affords_orThrow {e : ServiceError} {x : Option β} {f : β → Service (Next Unit α)}
    (hf : ∀ y, Affords a b full n (f y)) : Affords a b full n (orThrow e x >>= f) :=
  (obeys_orThrow_bind _ _ _ _).mpr ⟨fun _ => trivial, fun y _ => hf y⟩

private theorem affords_issue {c : Cmd} {k : c.Reply → Service (Next Unit α)} (hc : c.price a b = b)
    (hmissed : ∀ r, c.missed r = false) (hk : ∀ r, Affords a b full n (k r)) :
    Affords a b full (b + n) (issue c >>= k) := by
  refine ⟨by show c.price a b ≤ _; omega, fun r _ => ?_⟩
  have hnext : (purse (I := Mongo) (Cmd.price a b) (refilled full)).next (b + n) c r = n := by
    show b + n - c.price a b + refilled full c r = n
    rw [hc, refilled, hmissed r, if_neg Bool.false_ne_true]
    omega
  rw [hnext]
  exact hk r

/-- The update that all retries are about. -/
private theorem affords_update {f : WalletFilter} {u : WalletUpdate} {k : Option Wallet → Service (Next Unit α)}
    (hmissed : k none = pure (.again ())) (hk : ∀ w, Affords a b full n (k (some w))) :
    Affords a b full (a + n) (issue (.updateWallet f u) >>= k) := by
  refine ⟨Nat.le_add_right a n, fun r _ => ?_⟩
  cases r with
  | none =>
    show Obeys _ _ _ (k none)
    rw [hmissed]
    show full ≤ a + n - a + full
    omega
  | some w =>
    have hnext : (purse (I := Mongo) (Cmd.price a b) (refilled full)).next (a + n) (.updateWallet f u) (some w) = n :=
      show a + n - a + 0 = n by omega
    rw [hnext]
    exact hk w

private theorem affords_queryEntries {filter : LedgerService.LedgerQueryFilter}
    {f : LedgerService.LedgerQueryResult → Service (Next Unit α)} (hf : ∀ x, Affords a b full n (f x)) :
    Affords a b full (b + (b + n)) (LedgerService.queryEntries filter >>= f) :=
  affords_issue rfl (fun _ => rfl) fun _ => affords_issue rfl (fun _ => rfl) fun _ => hf _

private theorem affords_book {config : LedgerService.Config} {f : String → Time → α}
    {entry : String → Time → LedgerService.CreateLedgerEntryRequest} : Affords a b full (7 * b) (do
      let transactionId : String ← issue .uuidv4
      let timestamp : Time ← issue .now
      let _ ← LedgerService.createEntry config (entry transactionId timestamp)
      pure (.done (f transactionId timestamp))) := by
  rw [show 7 * b = b + (b + 5 * b) by omega]
  exact affords_issue rfl (fun _ => rfl) fun id => affords_issue rfl (fun _ => rfl) fun t =>
    affords_done (f := fun _ => f id t) spends_createEntry

private theorem affords_processUserExpiration {config : PointExpirationService.Config} {userId requestId : String} :
    Affords a b full (a + 11 * b) (PointExpirationService.processUserExpiration config userId requestId) := by
  rw [show a + 11 * b = b + (b + (b + (b + (a + 7 * b)))) by omega]
  refine affords_queryEntries fun ledgerResult => affords_issue rfl (fun _ => rfl) fun now => ?_
  show Affords a b full (b + (a + 7 * b)) (if _ then _ else _)
  split
  · trivial
  · refine affords_issue rfl (fun _ => rfl) fun w => affords_orThrow fun w => ?_
    show Affords a b full (a + 7 * b) (if _ then _ else _)
    split
    · trivial
    · exact affords_update rfl fun _ => affords_book

private theorem affords_manualAdjustment {config : AdminOpsService.Config} {request : ManualAdjustmentRequest} :
    Affords a b full (a + 8 * b) (AdminOpsService.manualAdjustment config request) := by
  rw [show a + 8 * b = b + (a + 7 * b) by omega]
  unfold AdminOpsService.manualAdjustment AdminOpsService.validateAdminAuth
  rw [Prog.bind_assoc]
  refine affords_throwIf (affords_throwIf (affords_throwIf (affords_throwIf (affords_throwIf ?_))))
  refine affords_issue rfl (fun _ => rfl) fun w => affords_orThrow fun w => affords_throwIf ?_
  exact affords_update rfl fun _ => affords_book

end recursive

end programs

section purses

/-- The operations that try again after a conflict. -/
def Call.retries : Call → Bool
  | .hold _ | .award _ | .deduct _ | .expire .. | .adjust _ | .redeem _ => true
  | _ => false

/-- The operations that count their attempts. -/
def Call.counted : Call → Bool
  | .hold _ | .award _ | .deduct _ | .redeem _ => true
  | _ => false

/-- How many guarded updates a call may issue. -/
def Call.attempts (config : Config) : Call → ℕ
  | .hold _ | .redeem _ => config.wallet.maxRetryAttempts
  | .award _ | .deduct _ => config.accrual.maxRetryAttempts
  | _ => 2

/-- What a call spends until it returns, throws or calls itself again. -/
def Call.purse (config : Config) (a b : ℕ) : Call → ℕ
  | .hold _ => 3 * b + config.wallet.maxRetryAttempts * (a + 20 * b)
  | .redeem _ => 4 * b + config.wallet.maxRetryAttempts * (a + 20 * b)
  | .award _ => config.accrual.maxRetryAttempts * (a + 10 * b)
  | .deduct _ => config.accrual.maxRetryAttempts * (a + 9 * b)
  | .expire .. => a + 11 * b
  | .adjust _ => a + 8 * b
  | _ => 0

/-- A miss of an operation that does not count its attempts gives it a full purse again. -/
def Call.payback (config : Config) (a b : ℕ) (call : Call) : (c : Cmd) → c.Reply → ℕ :=
  refilled (if call.counted = true then 0 else call.purse config a b)

/-- What the calls of the services spend on updates and on other commands. -/
def retryBudget (config : Config) (a b : ℕ) : Contract Mongo Call Response ServiceError ℕ :=
  spending (Cmd.price a b) (fun call => call.retries = true) (Call.purse config a b) (Call.payback config a b)

variable {config : Config} {a b : ℕ}

private theorem obeys_returning {α : Type} {call : Call} {response : α → Response} {p : Service α} {n : ℕ}
    (hp : Spends (I := Mongo) (Cmd.price a b) (call.purse config a b) p) (hn : call.purse config a b ≤ n) :
    Obeys ((retryBudget config a b).rules (system config) call) ((retryBudget config a b).settles call) n
      (returning response p) := by
  refine obeys_spending (fun _ r => ∀ c', r ≠ .ok (.again c')) ((obeys_bind p _ n).mpr ?_)
    fun n' c' h => absurd rfl (h c')
  apply Spends.obeys (n := 0) (hp.mono hn)
  intro n' r _
  rcases r with e | x
  · exact fun c' h => by cases h
  · exact fun c' h => by cases h

private theorem obeys_retrying {α : Type} {call : Call} {response : α → Response} {p : Service (Next Unit α)}
    {n : ℕ} (hcounted : call.counted = false) (hn : call.purse config a b ≤ n)
    (hp : Affords a b (call.purse config a b) (call.purse config a b) p) :
    Obeys ((retryBudget config a b).rules (system config) call) ((retryBudget config a b).settles call) n
      (retrying call response p) := by
  have hpay : call.payback config a b = refilled (call.purse config a b) := by
    rw [Call.payback, hcounted, if_neg Bool.false_ne_true]
  refine obeys_spending (fun n' r => ∀ c', r = .ok (.again c') → c' = call ∧ call.purse config a b ≤ n') ?_
    fun n' c' h => h c' rfl
  rw [hpay]
  have hready : Affords a b (call.purse config a b) n p := by
    apply obeys_fuller hp hn
    intro m m' r hle hr
    rcases r with e | x | x
    · trivial
    · trivial
    · exact Nat.le_trans hr hle
  refine (obeys_bind p _ n).mpr (hready.imp ?_)
  rintro n' (e | x | x) hready c' heq
  · cases heq
  · cases heq
  · obtain rfl : call = c' := by simpa using heq
    exact ⟨rfl, hready⟩

private theorem obeys_unbound {α : Type} {call : Call} {response : α → Response} {n : ℕ}
    (hcall : call.retries = false) (p : Service α) :
    Obeys ((retryBudget config a b).rules (system config) call) ((retryBudget config a b).settles call) n
      (returning response p) := by
  have hnot : ¬ call.retries = true := by simp [hcall]
  refine (obeys_bind p _ n).mpr (obeys_stable (P := fun _ => True) p trivial (fun _ _ _ _ => trivial)
    (fun _ _ _ h => absurd h hnot) ?_)
  rintro n' (e | x) -
  · trivial
  · trivial

theorem retryBudget_kept (config : Config) (a b : ℕ) : (retryBudget config a b).Kept (system config) where
  starts := fun call => ⟨rfl, fun _ => Nat.le_refl _⟩
  body := by
    rintro _ call n ⟨rfl, hfull⟩
    cases call with
    | hold request => exact obeys_returning spends_holdInEscrow (hfull rfl)
    | redeem request => exact obeys_returning spends_redeemPoints (hfull rfl)
    | award request => exact obeys_returning (spends_awardAttempts _) (hfull rfl)
    | deduct request => exact obeys_returning (spends_deductAttempts _) (hfull rfl)
    | expire userId requestId => exact obeys_retrying rfl (hfull rfl) affords_processUserExpiration
    | adjust request => exact obeys_retrying rfl (hfull rfl) affords_manualAdjustment
    | settle request authorization => exact obeys_unbound rfl _
    | refund request authorization => exact obeys_unbound rfl _
    | partialSettle request authorization => exact obeys_unbound rfl _
    | other program => exact obeys_unbound rfl _

end purses

section runs

/-- A guarded update of a user wallet. -/
def Cmd.guarded : Cmd → Bool
  | .updateWallet .. => true
  | _ => false

/-- The guarded updates among the events of a call. -/
def guardedUpdates (hist : List (Event Mongo Call)) : ℕ := hist.countP fun ev => ev.cmd.guarded

/-- A guarded update would find the version that the call has read. -/
def Cmd.finds (db : Db) : Cmd → Bool
  | .updateWallet f _ => (db.wallets.find f.userId).any f.accepts
  | _ => true

/-- Where an expiration or an adjustment updates the wallet once more, no other call has
updated it in between. -/
def RetryFinds : Schedule
  | _, .spawn _ _ => True
  | s, .run t _ => ∀ x ∈ s.pending t, x.1.counted = false → guardedUpdates (s.history t) ≠ 0 →
      x.2.finds s.db = true

instance (s : Run) (l : Label Oracle Call) : Decidable (RetryFinds s l) :=
  match l with
  | .spawn .. | .run .. => by dsimp only [RetryFinds]; infer_instance

variable {config : Config} {A : Schedule} {d : Db} {s : Run} {t : ℕ} {call : Call}

private theorem Cmd.guarded_of_missed {c : Cmd} {r : c.Reply} (h : c.missed r = true) : c.guarded = true := by
  cases c with
  | updateWallet f u => rfl
  | _ => cases h

private theorem exec_missed {o : Oracle} {db : Db} {c : Cmd} (h : c.missed (exec o db c).1 = true) :
    c.finds db = false := by
  cases c with
  | updateWallet f u =>
    apply exec_updateWallet_none (o := o) (u := u)
    cases hreply : (exec o db (.updateWallet f u)).1 with
    | none => rfl
    | some w =>
      rw [hreply] at h
      cases h
  | _ => cases h

private theorem spent_updates (hist : List (Event Mongo Call)) :
    spent (I := Mongo) (Cmd.price 1 0) hist = guardedUpdates hist := by
  induction hist with
  | nil => rfl
  | cons ev hist ih =>
    have hcons : spent (I := Mongo) (Cmd.price 1 0) (ev :: hist) =
        ev.cmd.price 1 0 + spent (I := Mongo) (Cmd.price 1 0) hist := rfl
    have hprice : ev.cmd.price 1 0 = if ev.cmd.guarded = true then 1 else 0 := by
      cases ev.cmd <;> rfl
    rw [hcons, hprice, ih, guardedUpdates, guardedUpdates, List.countP_cons, Nat.add_comm]

theorem spent_commands (hist : List (Event Mongo Call)) :
    spent (I := Mongo) (Cmd.price 1 1) hist = hist.length := by
  induction hist with
  | nil => rfl
  | cons ev hist ih =>
    have hcons : spent (I := Mongo) (Cmd.price 1 1) (ev :: hist) =
        ev.cmd.price 1 1 + spent (I := Mongo) (Cmd.price 1 1) hist := rfl
    have hprice : ev.cmd.price 1 1 = 1 := by cases ev.cmd <;> rfl
    rw [hcons, hprice, ih, List.length_cons, Nat.add_comm]

/-- What misses give back. -/
theorem repaid_misses {full : ℕ} (hist : List (Event Mongo Call)) :
    repaid (I := Mongo) (refilled full) hist = hist.countP (fun ev => ev.cmd.missed ev.reply) * full := by
  induction hist with
  | nil => simp [repaid]
  | cons ev hist ih =>
    have hcons : repaid (I := Mongo) (refilled full) (ev :: hist) =
        refilled full ev.cmd ev.reply + repaid (I := Mongo) (refilled full) hist := rfl
    rw [hcons, ih, List.countP_cons, refilled, Nat.add_mul]
    split <;> omega

/-- At most one guarded update of a call misses. -/
private theorem missed_once (h : (system config).Reaches A (.start d) s) (hA : ∀ s l, A s l → RetryFinds s l)
    (hcall : s.calls t = some call) (hcounted : call.counted = false) :
    (s.history t).countP (fun ev => ev.cmd.missed ev.reply) ≤ 1 := by
  induction h using Machine.Reaches.by_steps with
  | start => simp
  | spawn s t' c hs _ ht ih =>
    rw [Machine.spawned_history]
    by_cases htt : t = t'
    · subst htt
      rw [hs.history_of_unspawned (by simp [State.calls, ht])]
      exact Nat.zero_le _
    · rw [Machine.spawned_calls, Function.update_of_ne htt] at hcall
      exact ih hcall
  | act s t' o call' c k hs hstep ht ih =>
    rw [Machine.acted_calls ht] at hcall
    by_cases htt : t = t'
    · subst htt
      obtain rfl : call' = call := Option.some.inj ((State.calls_of_thread ht).symm.trans hcall)
      rw [Machine.acted_history_self, List.countP_cons]
      have hold := ih hcall
      show _ + (if c.missed (exec o s.db c).1 = true then 1 else 0) ≤ 1
      by_cases hmissed : c.missed (exec o s.db c).1 = true
      · have hfirst : guardedUpdates (s.history t) = 0 := by
          by_contra hne
          have hfinds := hA _ _ hstep (call', c) (by simp [State.pending, ht]) hcounted hne
          rw [exec_missed hmissed] at hfinds
          cases hfinds
        have hnone : (s.history t).countP (fun ev => ev.cmd.missed ev.reply) ≤ guardedUpdates (s.history t) :=
          List.countP_mono_left fun ev _ => Cmd.guarded_of_missed
        rw [hfirst] at hnone
        rw [if_pos hmissed]
        omega
      · rw [if_neg hmissed]
        exact hold
    · rw [Machine.acted_history_ne _ _ _ _ _ htt]
      exact ih hcall
  | restart s t' o call' c _ _ ht ih =>
    rw [Machine.restarted_calls ht] at hcall
    exact ih hcall

/-- Whatever the other calls do, an operation that counts its attempts issues at most so many
guarded updates; one that calls itself again issues at most two if its second update finds the
wallet as it was read. The call has then only so many commands left, and can always go on until it
ends. Amounts are exact, identifiers trimmed and dates valid. -/
theorem retries_bounded (h : (system config).Reaches A (.start d) s) (hcall : s.calls t = some call)
    (hretries : call.retries = true) :
    (call.counted = true → guardedUpdates (s.history t) ≤ call.attempts config ∧
      (s.history t).length ≤ call.purse config 1 1) ∧
    (call.counted = false → (∀ s l, A s l → RetryFinds s l) →
      guardedUpdates (s.history t) ≤ call.attempts config ∧
        (s.history t).length ≤ 2 * call.purse config 1 1) ∧
    (s.result t = none → ∀ o, ∃ s', (system config).step s (.run t o) = some s') := by
  have hupdates := spent_le (retryBudget_kept config 1 0) h hcall hretries
  have hcommands := spent_le (retryBudget_kept config 1 1) h hcall hretries
  rw [spent_updates, Call.payback, repaid_misses] at hupdates
  rw [spent_commands, Call.payback, repaid_misses] at hcommands
  refine ⟨fun hcounted => ?_, fun hcounted hA => ?_, fun hrunning o => ?_⟩
  · rw [if_pos hcounted, Nat.mul_zero] at hupdates hcommands
    refine ⟨Nat.le_trans hupdates ?_, hcommands⟩
    cases call with
    | hold request | redeem request | award request | deduct request => simp [Call.purse, Call.attempts]
    | _ => cases hcounted
  · have honce := missed_once h hA hcall hcounted
    rw [if_neg (by simp [hcounted])] at hupdates hcommands
    have hdouble : ∀ full, (s.history t).countP (fun ev => ev.cmd.missed ev.reply) * full ≤ full := by
      intro full
      simpa using Nat.mul_le_mul_right full honce
    have hlength := hdouble (call.purse config 1 1)
    have hcount := hdouble (call.purse config 1 0)
    refine ⟨?_, by omega⟩
    cases call with
    | expire userId requestId | adjust request =>
      simp only [Call.purse, Call.attempts] at hupdates hcount ⊢
      omega
    | hold request | redeem request | award request | deduct request => cases hcounted
    | _ => cases hretries
  · exact (system config).exists_step hcall hrunning o

section scenario

def sampleAdjustment : ManualAdjustmentRequest where
  userId := "user-1"
  amount := 5
  reason := "goodwill"
  admin := ⟨"admin-1", "alice", ["admin"], none⟩
  requestId := "request-9"
  metadata := none

/-- Calls that race with an adjustment. -/
private def sampleRivals : List (Label Oracle Call) := (List.range 3).map fun n =>
  .spawn (n + 1) (.award { sampleAward with idempotencyKey := "award-" ++ toString n })

/-- An adjustment loses its first race and wins the second. -/
theorem retries_bounded_after_conflict : ∃ s, (system (defaultConfig fun _ => none)).Reaches RetryFinds
    (.start fundedDb) s ∧ guardedUpdates (s.history 0) = 2 ∧ guardedUpdates (s.history 0) ≤ 2 := by
  obtain ⟨s, -, hs, -, hfacts, hcalls⟩ := Machine.exists_reaches_twice (system (defaultConfig fun _ => none))
    RetryFinds fundedDb (.spawn 0 (.adjust sampleAdjustment) :: sampleRivals ++
      interleaving ([0, 1, 1, 1, 0, 0] ++ List.replicate 7 0)) []
    (fun s _ => (guardedUpdates (s.history 0), (s.result 0).any Except.isOk)) (a := (2, true)) (by decide +kernel)
  have hcall : s.calls 0 = some (.adjust sampleAdjustment) := hcalls 0 _ (.head _)
  exact ⟨s, hs, congrArg Prod.fst hfacts, ((retries_bounded hs hcall rfl).2.1 rfl fun _ _ h => h).1⟩

/-- An adjustment that loses three races issues three guarded updates and goes on. -/
theorem retries_unbounded : ∃ s, (system (defaultConfig fun _ => none)).Reaches (only Call.isService)
    (.start fundedDb) s ∧ s.calls 0 = some (.adjust sampleAdjustment) ∧ guardedUpdates (s.history 0) = 3 ∧
      s.result 0 = none := by
  obtain ⟨s, -, hs, -, hfacts, hcalls⟩ := Machine.exists_reaches_twice (system (defaultConfig fun _ => none))
    (only Call.isService) fundedDb (.spawn 0 (.adjust sampleAdjustment) :: sampleRivals ++
      interleaving [0, 1, 1, 1, 0, 0, 0, 2, 2, 2, 0, 0, 0, 3, 3, 3, 0, 0]) []
    (fun s _ => (guardedUpdates (s.history 0), (s.result 0).isNone)) (a := (3, true)) (by decide +kernel)
  have hcall : s.calls 0 = some (.adjust sampleAdjustment) := hcalls 0 _ (.head _)
  exact ⟨s, hs, hcall, congrArg Prod.fst hfacts, Option.isNone_iff_eq_none.mp (congrArg Prod.snd hfacts)⟩

end scenario
end runs
end RedRoomRewards
