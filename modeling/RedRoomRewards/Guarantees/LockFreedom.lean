import RedRoomRewards.Process.Potential
import RedRoomRewards.Protocol.Readings
import RedRoomRewards.Guarantees.BoundedRetry
import RedRoomRewards.Guarantees.UndoneClosing

/-! A lost race is another call's success: the guarded updates that a call loses are paid
for by those that others have committed to the same wallet since it was read. -/
namespace RedRoomRewards
open Process Store Prog

section contention

/-- The wallet over which a call throws for contention, and how many updates of it the
call has lost by then. -/
def Call.contended (config : Config) : Call → ServiceError → Option (Account × ℕ)
  | .hold _, .optimisticLock _ userId | .redeem _, .optimisticLock _ userId =>
    some (.user userId, config.wallet.maxRetryAttempts)
  | .settle .., .optimisticLock type id | .refund .., .optimisticLock type id
  | .partialSettle .., .optimisticLock type id => some (if type = "wallet" then .user id else .model id, 1)
  | .award request, e | .deduct request, e =>
    if e = PointAccrualService.conflict config.accrual request then
      some (.user request.userId, config.accrual.maxRetryAttempts)
    else none
  | _, _ => none

/-- Where the call throws for contention, it has lost as many updates as that takes. -/
def Call.Concedes {α : Type} (config : Config) (call : Call) (x : Readings) (r : Except ServiceError α) : Prop :=
  ∀ e account n, r = .error e → call.contended config e = some (account, n) → n ≤ x.lost.count account

/-- Guarded updates rest on what has just been read; other programs are not bound. -/
def guarding (config : Config) : Contract Mongo Call Response ServiceError Readings where
  start := fun _ => {}
  next := fun _ x c r => x.after c r
  may := fun call x c => call.operation = .other ∨ x.Allows c
  ends := fun call x r => call.operation = .other ∨ call.Concedes config x r
  resumes := fun call call' _ => call' = call

variable {config : Config} {call : Call} {x : Readings}

theorem Call.contended_contention {e : ServiceError} {account : Account} {n : ℕ}
    (h : call.contended config e = some (account, n)) : e.Contention := by
  cases call with
  | award request | deduct request =>
    by_cases he : e = PointAccrualService.conflict config.accrual request
    · rw [he]
      rfl
    · simp [Call.contended, he] at h
  | hold request | redeem request | settle request authorization | refund request authorization
  | partialSettle request authorization =>
    cases e with
    | optimisticLock type id => trivial
    | _ => cases h
  | _ => cases h

theorem Call.concedes_ok {α : Type} (a : α) : call.Concedes config x (.ok a) := fun e _ _ h => by cases h

theorem Call.concedes_calm {α : Type} {e : ServiceError} (he : ¬ e.Contention) :
    call.Concedes config x (.error e : Except ServiceError α) := by
  rintro e' account n heq hcontended
  cases heq
  exact absurd (contended_contention hcontended) he

end contention

section programs
variable {config : Config} {call : Call} {x : Readings} {α β : Type}

private theorem rests_done {ends : Readings → Except ServiceError β → Prop} {p : Service α} {f : α → β}
    (hp : Calm p) (hthrow : ∀ e, ¬ e.Contention → ends x (.error e)) (hok : ∀ a, ends x (.ok (f a))) :
    Rests ends x (p >>= fun a => pure (f a)) := rests_calm hp hthrow fun a => hok a

/-- Where the program throws for contention, it has lost `n` updates of the user's wallet. -/
private def Conflicted (userId : String) (n : ℕ) (x : Readings) : Except ServiceError α → Prop
  | .error (.optimisticLock _ id) => id = userId ∧ n ≤ x.lost.count (.user userId)
  | _ => True

private theorem conflicted_calm {userId : String} {n : ℕ} {e : ServiceError} (he : ¬ e.Contention) :
    Conflicted userId n x (.error e : Except ServiceError α) := by
  cases e with
  | optimisticLock type id => exact absurd trivial he
  | _ => trivial

private theorem rests_executeHold {config : WalletService.Config} {request : EscrowHoldRequest} {n : ℕ}
    (hn : n ≤ x.lost.count (.user request.userId)) :
    Rests (Conflicted request.userId (n + 1)) x (WalletService.executeHoldInEscrow config request) := by
  apply rests_getOrCreateWallet (fun e => trivial)
  intro w huser
  refine rests_throwIf (fun _ => trivial) fun _ => rests_issue trivial fun escrowId _ =>
    rests_issue trivial fun createdAt _ => rests_issue trivial fun reply _ => ?_
  refine rests_calm calm_created (fun e he => conflicted_calm he) fun _ => ?_
  apply rests_updateWallet rfl huser (by simp [WalletFilter.accepts])
  · refine rests_issue trivial fun _ _ => ⟨rfl, ?_⟩
    rw [List.count_cons_self]
    exact Nat.succ_le_succ hn
  · intro w'
    refine rests_issue trivial fun _ _ => rests_issue trivial fun _ _ => ?_
    refine rests_calm calm_createEntry (fun e he => conflicted_calm he) fun _ =>
      rests_calm calm_createEntry (fun e he => conflicted_calm he) fun _ => ?_
    exact rests_done calm_publish (fun e he => conflicted_calm he) fun _ => trivial

private theorem rests_holdAttempts (config : WalletService.Config) (request : EscrowHoldRequest) (left : ℕ) :
    ∀ n x, n ≤ x.lost.count (.user request.userId) →
      Rests (Conflicted request.userId (n + left)) x (WalletService.holdAttempts config request left) := by
  induction left with
  | zero => exact fun n x hn => ⟨rfl, hn⟩
  | succ left ih =>
    intro n x hn
    refine (obeys_catching _ _ _).mpr ((rests_executeHold hn).imp ?_)
    rintro x' (e | response) hconflicted
    · cases e with
      | optimisticLock type id =>
        obtain ⟨rfl, hlost⟩ := hconflicted
        show Rests _ x' (if _ then _ else _)
        split
        · have hrest := ih (n + 1) x' hlost
          rwa [Nat.add_right_comm] at hrest
        · exact ⟨rfl, by omega⟩
      | _ => trivial
    · trivial

private theorem rests_holdInEscrow {config : WalletService.Config} {request : EscrowHoldRequest} :
    Rests (Conflicted request.userId config.maxRetryAttempts) x (WalletService.holdInEscrow config request) := by
  refine rests_calm calm_claim (fun e he => conflicted_calm he) fun _ => ?_
  have hattempts := rests_holdAttempts config request config.maxRetryAttempts 0 x (Nat.zero_le _)
  rwa [Nat.zero_add] at hattempts

private theorem Conflicted.concedes {userId : String} {r : Except ServiceError α}
    (h : Conflicted userId config.wallet.maxRetryAttempts x r)
    (hcall : (∃ request, call = .hold request) ∨ ∃ request, call = .redeem request) : call.Concedes config x r := by
  rintro e account n rfl hcontended
  cases e with
  | optimisticLock type id =>
    obtain ⟨rfl, hlost⟩ := h
    rcases hcall with ⟨request, rfl⟩ | ⟨request, rfl⟩
    · obtain ⟨rfl, rfl⟩ := Prod.mk.inj (Option.some.inj hcontended)
      exact hlost
    · obtain ⟨rfl, rfl⟩ := Prod.mk.inj (Option.some.inj hcontended)
      exact hlost
  | _ => rcases hcall with ⟨request, rfl⟩ | ⟨request, rfl⟩ <;> cases hcontended

private theorem rests_settle {config' : WalletService.Config} {request : EscrowSettleRequest}
    {authorization : Option QueueSettlementAuthorization} :
    Rests ((Call.settle request authorization).Concedes config) x
      (WalletService.settleEscrow config' request authorization) := by
  have hcalm : ∀ (x : Readings) (e : ServiceError), ¬ e.Contention →
      (Call.settle request authorization).Concedes config x (.error e : Except ServiceError EscrowSettleResponse) :=
    fun x e he => Call.concedes_calm he
  refine rests_throwIf (fun _ => hcalm x _ (by simp [ServiceError.Contention])) fun _ =>
    rests_calm calm_claim (hcalm x) fun _ => rests_calm calm_lockEscrow (hcalm x) fun escrow => ?_
  apply rests_getOrCreateModelWallet (fun e => hcalm _ _ id)
  intro m hmodel
  apply rests_updateModelWallet rfl hmodel rfl
  · refine rests_throwIf (fun _ => ?_) fun hne => absurd rfl hne
    rintro e account n heq hcontended
    cases heq
    obtain ⟨rfl, rfl⟩ := Prod.mk.inj (Option.some.inj hcontended)
    simp
  · intro m'
    refine rests_throwIf (fun heq => by cases heq) fun _ => rests_findWallet fun found hfound => ?_
    refine rests_orThrow (hcalm _ _ (by simp [ServiceError.Contention])) fun w hw => ?_
    subst hw
    apply rests_updateWallet rfl (hfound w rfl) (by simp [WalletFilter.accepts])
    · refine rests_issue trivial fun _ _ => ?_
      rintro e account n heq hcontended
      cases heq
      obtain ⟨rfl, rfl⟩ := Prod.mk.inj (Option.some.inj hcontended)
      simp
    · refine fun w' => rests_issue trivial fun _ _ => rests_issue trivial fun _ _ => ?_
      refine rests_calm calm_createEntry (hcalm _) fun _ => rests_issue trivial fun _ _ => ?_
      exact rests_done calm_publish (hcalm _) fun _ => Call.concedes_ok _

private theorem rests_refund {config' : WalletService.Config} {request : EscrowRefundRequest}
    {authorization : Option QueueRefundAuthorization} :
    Rests ((Call.refund request authorization).Concedes config) x
      (WalletService.refundEscrow config' request authorization) := by
  have hcalm : ∀ (x : Readings) (e : ServiceError), ¬ e.Contention →
      (Call.refund request authorization).Concedes config x (.error e : Except ServiceError EscrowRefundResponse) :=
    fun x e he => Call.concedes_calm he
  refine rests_throwIf (fun _ => hcalm x _ (by simp [ServiceError.Contention])) fun _ =>
    rests_calm calm_claim (hcalm x) fun _ => rests_calm calm_lockEscrow (hcalm x) fun escrow => ?_
  refine rests_findWallet fun found hfound => rests_orThrow (hcalm _ _ (by simp [ServiceError.Contention])) fun w hw => ?_
  subst hw
  apply rests_updateWallet rfl (hfound w rfl) (by simp [WalletFilter.accepts])
  · refine rests_issue trivial fun _ _ => ?_
    rintro e account n heq hcontended
    cases heq
    obtain ⟨rfl, rfl⟩ := Prod.mk.inj (Option.some.inj hcontended)
    simp
  · refine fun w' => rests_issue trivial fun _ _ => rests_issue trivial fun _ _ => ?_
    refine rests_calm calm_createEntry (hcalm _) fun _ => rests_issue trivial fun _ _ => ?_
    exact rests_done calm_publish (hcalm _) fun _ => Call.concedes_ok _

private theorem rests_partialSettle {config' : WalletService.Config} {request : EscrowPartialSettleRequest}
    {authorization : Option QueuePartialSettlementAuthorization} :
    Rests ((Call.partialSettle request authorization).Concedes config) x
      (WalletService.partialSettleEscrow config' request authorization) := by
  have hcalm : ∀ (x : Readings) (e : ServiceError), ¬ e.Contention →
      (Call.partialSettle request authorization).Concedes config x
        (.error e : Except ServiceError EscrowPartialSettleResponse) :=
    fun x e he => Call.concedes_calm he
  refine rests_throwIf (fun _ => hcalm x _ (by simp [ServiceError.Contention])) fun _ =>
    rests_calm calm_claim (hcalm x) fun _ => rests_calm calm_lockEscrow (hcalm x) fun escrow => ?_
  refine rests_throwIf (fun _ => hcalm x _ (by simp [ServiceError.Contention])) fun _ => ?_
  refine rests_findWallet fun found hfound => rests_orThrow (hcalm _ _ (by simp [ServiceError.Contention])) fun w hw => ?_
  subst hw
  apply rests_getOrCreateModelWallet (fun e => hcalm _ _ id)
  intro m hmodel
  apply rests_updateWallet rfl (hfound w rfl) (by simp [WalletFilter.accepts])
  · refine rests_issue trivial fun _ _ => ?_
    rintro e account n heq hcontended
    cases heq
    obtain ⟨rfl, rfl⟩ := Prod.mk.inj (Option.some.inj hcontended)
    simp
  · intro w'
    apply rests_updateModelWallet rfl hmodel rfl
    · refine rests_issue trivial fun _ _ => ?_
      rintro e account n heq hcontended
      cases heq
      obtain ⟨rfl, rfl⟩ := Prod.mk.inj (Option.some.inj hcontended)
      simp
    · refine fun m' => rests_issue trivial fun _ _ => rests_issue trivial fun _ _ => ?_
      refine rests_calm calm_createEntryIf (hcalm _) fun _ => rests_calm calm_createEntryIf (hcalm _) fun _ =>
        rests_issue trivial fun _ _ => ?_
      exact rests_done calm_publish (hcalm _) fun _ => Call.concedes_ok _

/-- How the retries of an award or a deduction end. -/
private def Posted (config : PointAccrualService.Config) (request : AwardPointsRequest) (n : ℕ) (x : Readings)
    (r : Except ServiceError AwardPointsResponse) : Prop :=
  r = .error (PointAccrualService.conflict config request) → n ≤ x.lost.count (.user request.userId)

section points
variable {config : PointAccrualService.Config} {request : AwardPointsRequest} {n : ℕ}

private theorem posted_ok (a : AwardPointsResponse) : Posted config request n x (.ok a) := fun h => by cases h

private theorem posted_calm {e : ServiceError} (he : ¬ e.Contention) : Posted config request n x (.error e) := by
  intro h
  cases h
  exact absurd rfl he

private theorem rests_awardAttempts (left : ℕ) : ∀ n x, n ≤ x.lost.count (.user request.userId) →
    Rests (Posted config request (n + left)) x (PointAccrualService.awardAttempts config request left) := by
  induction left with
  | zero => exact fun n x hn _ => hn
  | succ left ih =>
    intro n x hn
    refine rests_calm calm_validateAmount (fun e he => posted_calm he) fun _ =>
      rests_calm (calm_throwIf (by simp [ServiceError.Contention])) (fun e he => posted_calm he) fun _ =>
        rests_calm calm_checkFirst (fun e he => posted_calm he) fun _ => ?_
    apply rests_getOrCreateWallet (fun e => posted_calm id)
    intro w huser
    apply rests_updateWallet rfl huser (by simp [WalletFilter.accepts])
    · have hrest := ih (n + 1) { x with wallet := none, lost := .user request.userId :: x.lost } (by
        rw [List.count_cons_self]
        exact Nat.succ_le_succ hn)
      rwa [Nat.add_right_comm] at hrest
    · exact fun w' => rests_booking (fun e he => posted_calm he) fun _ _ => posted_ok _

private theorem rests_deductAttempts (left : ℕ) : ∀ n x, n ≤ x.lost.count (.user request.userId) →
    Rests (Posted config request (n + left)) x (PointAccrualService.deductAttempts config request left) := by
  induction left with
  | zero => exact fun n x hn _ => hn
  | succ left ih =>
    intro n x hn
    refine rests_calm calm_validateAmount (fun e he => posted_calm he) fun _ =>
      rests_calm (calm_throwIf (by simp [ServiceError.Contention])) (fun e he => posted_calm he) fun _ =>
        rests_calm calm_checkFirst (fun e he => posted_calm he) fun _ => ?_
    apply rests_findWallet
    intro found hfound
    refine rests_orThrow (posted_calm (by simp [ServiceError.Contention])) fun w hw => ?_
    subst hw
    refine rests_throwIf (fun _ => posted_calm (by simp [ServiceError.Contention])) fun hcovered => ?_
    apply rests_updateWallet rfl (hfound w rfl) (by simpa [WalletFilter.accepts] using hcovered)
    · have hrest := ih (n + 1) { x with wallet := none, lost := .user request.userId :: x.lost } (by
        rw [List.count_cons_self]
        exact Nat.succ_le_succ hn)
      rwa [Nat.add_right_comm] at hrest
    · exact fun w' => rests_booking (fun e he => posted_calm he) fun _ _ => posted_ok _

end points

private theorem Posted.concedes {config : Config} {request : AwardPointsRequest}
    {r : Except ServiceError AwardPointsResponse}
    (h : Posted config.accrual request config.accrual.maxRetryAttempts x r)
    (hcall : call = .award request ∨ call = .deduct request) : call.Concedes config x r := by
  rintro e account n rfl hcontended
  have hconflict : e = PointAccrualService.conflict config.accrual request ∧
      (Account.user request.userId, config.accrual.maxRetryAttempts) = (account, n) := by
    rcases hcall with rfl | rfl
    · simpa [Call.contended] using hcontended
    · simpa [Call.contended] using hcontended
  obtain ⟨rfl, rfl⟩ := Prod.mk.inj hconflict.2
  exact h (congrArg Except.error hconflict.1)

section recursive

private theorem rests_expiration {config : PointExpirationService.Config} {userId requestId : String} :
    Rests (fun _ r => ∀ e, r = .error e → ¬ e.Contention) x
      (PointExpirationService.processUserExpiration config userId requestId) := by
  have hcalm : ∀ e : ServiceError, ¬ e.Contention → ∀ e', (.error e : Except ServiceError
      (Next Unit (Option UserExpirationDetails))) = .error e' → ¬ e'.Contention := by
    rintro e he _ ⟨rfl⟩
    exact he
  refine rests_calm calm_queryEntries hcalm fun ledgerResult => rests_issue trivial fun now _ => ?_
  show Rests _ x (if _ then _ else _)
  split
  · exact fun e h => by cases h
  · refine rests_findWallet fun found hfound => rests_orThrow (hcalm _ (by simp [ServiceError.Contention])) fun w hw => ?_
    subst hw
    show Rests _ _ (if _ then _ else _)
    split
    · exact fun e h => by cases h
    · apply rests_updateWallet rfl (hfound w rfl) (by simp [WalletFilter.accepts])
      · exact fun e h => by cases h
      · exact fun w' => rests_booking hcalm fun _ _ e h => by cases h

private theorem rests_adjustment {config : AdminOpsService.Config} {request : ManualAdjustmentRequest} :
    Rests (fun _ r => ∀ e, r = .error e → ¬ e.Contention) x (AdminOpsService.manualAdjustment config request) := by
  have hcalm : ∀ e : ServiceError, ¬ e.Contention → ∀ e', (.error e : Except ServiceError
      (Next Unit ManualAdjustmentResponse)) = .error e' → ¬ e'.Contention := by
    rintro e he _ ⟨rfl⟩
    exact he
  refine rests_calm calm_validateAdminAuth hcalm fun _ =>
    rests_throwIf (fun _ => hcalm _ (by simp [ServiceError.Contention])) fun _ =>
      rests_throwIf (fun _ => hcalm _ (by simp [ServiceError.Contention])) fun _ =>
        rests_throwIf (fun _ => hcalm _ (by simp [ServiceError.Contention])) fun _ => ?_
  refine rests_findWallet fun found hfound => rests_orThrow (hcalm _ (by simp [ServiceError.Contention])) fun w hw => ?_
  subst hw
  refine rests_throwIf (fun _ => hcalm _ (by simp [ServiceError.Contention])) fun _ => ?_
  apply rests_updateWallet rfl (hfound w rfl) (by simp [WalletFilter.accepts])
  · exact fun e h => by cases h
  · exact fun w' => rests_booking hcalm fun _ _ e h => by cases h

end recursive

private theorem rests_redeem {config : PointRedemptionService.Config} {wallet : WalletService.Config}
    {request : RedeemPointsRequest} :
    Rests (Conflicted request.userId wallet.maxRetryAttempts) x
      (PointRedemptionService.redeemPoints config wallet request) := by
  refine rests_calm calm_redemptionAmount (fun e he => conflicted_calm he) fun _ =>
    rests_calm (calm_throwIf (by simp [ServiceError.Contention])) (fun e he => conflicted_calm he) fun _ =>
      rests_calm (calm_throwIf (by simp [ServiceError.Contention])) (fun e he => conflicted_calm he) fun _ => ?_
  have hheld : ∀ x, Rests (Conflicted request.userId wallet.maxRetryAttempts) x (do
      let escrowResponse ← WalletService.holdInEscrow wallet (PointRedemptionService.escrowRequest request)
      pure (RedeemPointsResponse.mk escrowResponse.transactionId escrowResponse.escrowId request.amount
        escrowResponse.newAvailableBalance escrowResponse.escrowBalance request.queueItemId
        escrowResponse.timestamp)) := by
    refine fun x => rests_bind (rests_holdInEscrow.imp ?_)
    rintro x' (e | response) hconflicted
    · cases e with
      | optimisticLock type id => exact hconflicted
      | _ => trivial
    · trivial
  exact rests_checkBalance trivial fun found => hheld _

end programs

section kept
variable {config : Config} {call : Call} {x : Readings} {α : Type}

private theorem Rests.obeys {ends : Readings → Except ServiceError (Next Call Response) → Prop}
    {p : Service (Next Call Response)} (h : Rests ends x p) :
    Obeys ((guarding config).rules (system config) call) ends x p :=
  h.loosen fun _ _ hallows => .inr hallows

private theorem obeys_returning_of {response : α → Response} {p : Service α}
    {ends : Readings → Except ServiceError α → Prop} (hp : Rests ends x p) (hends : ∀ x r, ends x r → call.Concedes config x r) :
    Obeys ((guarding config).rules (system config) call) ((guarding config).settles call) x (returning response p) := by
  refine Rests.obeys (rests_bind (hp.imp ?_))
  rintro x' (e | a) hr
  · exact .inr fun e' account n heq => hends x' _ hr e' account n (by cases heq; rfl)
  · exact .inr (Call.concedes_ok _)

private theorem obeys_retrying_of {response : α → Response} {p : Service (Next Unit α)}
    (hp : Rests (fun _ r => ∀ e, r = .error e → ¬ e.Contention) x p) :
    Obeys ((guarding config).rules (system config) call) ((guarding config).settles call) x (retrying call response p) := by
  refine Rests.obeys (rests_bind (hp.imp ?_))
  rintro x' (e | a | _) hr
  · exact .inr (Call.concedes_calm (hr e rfl))
  · exact .inr (Call.concedes_ok _)
  · exact (rfl : call = call)

theorem guarding_kept (config : Config) : (guarding config).Kept (system config) where
  starts := fun _ => rfl
  body := by
    rintro _ call x rfl
    cases call with
    | hold request => exact obeys_returning_of rests_holdInEscrow fun x r h => h.concedes (.inl ⟨request, rfl⟩)
    | settle request authorization => exact obeys_returning_of rests_settle fun x r h => h
    | refund request authorization => exact obeys_returning_of rests_refund fun x r h => h
    | partialSettle request authorization => exact obeys_returning_of rests_partialSettle fun x r h => h
    | award request =>
      apply obeys_returning_of (rests_awardAttempts config.accrual.maxRetryAttempts 0 x (Nat.zero_le _))
      rw [Nat.zero_add]
      exact fun x r hposted => hposted.concedes (.inl rfl)
    | deduct request =>
      apply obeys_returning_of (rests_deductAttempts config.accrual.maxRetryAttempts 0 x (Nat.zero_le _))
      rw [Nat.zero_add]
      exact fun x r hposted => hposted.concedes (.inr rfl)
    | expire userId requestId => exact obeys_retrying_of rests_expiration
    | adjust request => exact obeys_retrying_of rests_adjustment
    | redeem request => exact obeys_returning_of rests_redeem fun x r h => h.concedes (.inr ⟨request, rfl⟩)
    | other program =>
      refine (obeys_bind _ _ _).mpr (obeys_stable (P := fun _ => True) program trivial
        (fun _ _ _ _ => trivial) (fun _ _ _ => .inl rfl) ?_)
      rintro x' (e | a) -
      · exact .inl rfl
      · exact .inl rfl

end kept

section behind
variable {config : Config} {A : Schedule} {d db : Db} {s : Run} {x : Readings} {account : Account} {c : Cmd}

/-- The wallet that the call has read is no longer the current one. -/
def Readings.Behind (x : Readings) (db : Db) : Account → Prop
  | .user userId => ∃ w w', x.wallet = some w ∧ w.userId = userId ∧ db.wallets.find userId = some w' ∧
      w'.version ≠ w.version
  | .model modelId => ∃ m m', x.model = some m ∧ m.modelId = modelId ∧ db.modelWallets.find modelId = some m' ∧
      m'.version ≠ m.version

/-- A guarded update that rests on what has been read is lost only where that is no
longer current. -/
private theorem Readings.Seen.behind_of_lost {o : Oracle} (h : x.Seen db) (hallows : x.Allows c)
    (hlost : c.loses (exec o db c).1 = some account) : x.Behind db account := by
  cases c with
  | updateWallet f u =>
    obtain ⟨w, hw, huser, haccepts⟩ := hallows
    obtain ⟨w', hfind, -, hcurrent⟩ := h.wallet w hw
    rw [huser] at hfind
    have hbehind : w'.version ≠ w.version := by
      intro heq
      obtain rfl := hcurrent heq.symm
      rw [exec_updateWallet hfind haccepts] at hlost
      cases hlost
    have haccount : account = .user f.userId := by
      cases hreply : (exec o db (.updateWallet f u)).1 with
      | none =>
        rw [hreply] at hlost
        exact (Option.some.inj hlost).symm
      | some w'' =>
        rw [hreply] at hlost
        cases hlost
    subst haccount
    exact ⟨w, w', hw, huser, hfind, hbehind⟩
  | updateModelWallet f u =>
    obtain ⟨m, hm, hmodel, hversion⟩ := hallows
    obtain ⟨m', hfind, -, hcurrent⟩ := h.model m hm
    rw [hmodel] at hfind
    have hbehind : m'.version ≠ m.version := by
      intro heq
      obtain rfl := hcurrent heq.symm
      have hreply : (exec o db (.updateModelWallet f u)).1 = some (u.apply m') := by
        simp only [exec, Db.updateModelWallet, hfind, if_pos hversion]
      rw [hreply] at hlost
      cases hlost
    have haccount : account = .model f.modelId := by
      cases hreply : (exec o db (.updateModelWallet f u)).1 with
      | none =>
        rw [hreply] at hlost
        exact (Option.some.inj hlost).symm
      | some m'' =>
        rw [hreply] at hlost
        cases hlost
    subst haccount
    exact ⟨m, m', hm, hmodel, hfind, hbehind⟩
  | _ => cases hlost

/-- After an update the call has read nothing of the account. -/
private theorem Readings.not_behind_of_lost {r : c.Reply} {db' : Db} (hlost : c.loses r = some account) :
    ¬ (x.after c r).Behind db' account := by
  cases c with
  | updateWallet f u =>
    cases r with
    | none =>
      obtain rfl := Option.some.inj hlost
      rintro ⟨w, w', hw, -⟩
      cases hw
    | some w => cases hlost
  | updateModelWallet f u =>
    cases r with
    | none =>
      obtain rfl := Option.some.inj hlost
      rintro ⟨m, m', hm, -⟩
      cases hm
    | some m => cases hlost
  | _ => cases hlost

/-- By its own commands a call does not fall behind. -/
private theorem Readings.behind_before {o : Oracle}
    (h : (x.after c (exec o db c).1).Behind (exec o db c).2 account) : x.Behind db account := by
  cases account with
  | user userId =>
    obtain ⟨w, w', hw, huser, hfind, hne⟩ := h
    cases c with
    | findWallet id =>
      have hread : db.wallets.find id = some w := hw
      have hfind' : db.wallets.find userId = some w' := hfind
      obtain rfl : id = userId := (Collection.key_of_find hread).symm.trans huser
      rw [hread] at hfind'
      obtain rfl := Option.some.inj hfind'
      exact absurd rfl hne
    | createWallet new =>
      simp only [exec, Readings.after] at hw hfind
      rcases create_cases db.wallets new new.invalid ["userId"] with ⟨e, he⟩ | ⟨-, hfree, hok⟩
      · rw [he] at hw
        cases hw
      · rw [hok] at hw hfind
        obtain rfl : new = w := Option.some.inj hw
        rw [← huser, Collection.find_insert hfree, if_pos rfl] at hfind
        obtain rfl := Option.some.inj hfind
        exact absurd rfl hne
    | updateWallet f u => cases hw
    | _ =>
      rw [(exec_frame o db _).wallets (by simp [Cmd.touches])] at hfind
      exact ⟨w, w', hw, huser, hfind, hne⟩
  | model modelId =>
    obtain ⟨m, m', hm, hmodel, hfind, hne⟩ := h
    cases c with
    | findModelWallet id =>
      have hread : db.modelWallets.find id = some m := hm
      have hfind' : db.modelWallets.find modelId = some m' := hfind
      obtain rfl : id = modelId := (Collection.key_of_find hread).symm.trans hmodel
      rw [hread] at hfind'
      obtain rfl := Option.some.inj hfind'
      exact absurd rfl hne
    | createModelWallet new =>
      simp only [exec, Readings.after] at hm hfind
      rcases create_cases db.modelWallets new new.invalid ["modelId"] with ⟨e, he⟩ | ⟨-, hfree, hok⟩
      · rw [he] at hm
        cases hm
      · rw [hok] at hm hfind
        obtain rfl : new = m := Option.some.inj hm
        rw [← hmodel, Collection.find_insert hfree, if_pos rfl] at hfind
        obtain rfl := Option.some.inj hfind
        exact absurd rfl hne
    | updateModelWallet f u => cases hm
    | _ =>
      rw [(exec_frame o db _).modelWallets (by simp [Cmd.touches])] at hfind
      exact ⟨m, m', hm, hmodel, hfind, hne⟩

theorem Cmd.gains_of_walletCommit {r : c.Reply} {f : WalletFilter} {u : WalletUpdate}
    (h : c.walletCommit r = some (f, u)) : c.gains r = some (.user f.userId) := by
  cases c with
  | updateWallet f' u' =>
    cases r with
    | none => cases h
    | some w =>
      obtain ⟨rfl, rfl⟩ := Prod.mk.inj (Option.some.inj h)
      rfl
  | _ => cases h

theorem Cmd.gains_of_modelCommit {r : c.Reply} {f : ModelWalletFilter} {u : ModelWalletUpdate}
    (h : c.modelCommit r = some (f, u)) : c.gains r = some (.model f.modelId) := by
  cases c with
  | updateModelWallet f' u' =>
    cases r with
    | none => cases h
    | some m =>
      obtain ⟨rfl, rfl⟩ := Prod.mk.inj (Option.some.inj h)
      rfl
  | _ => cases h

/-- A call falls behind only by an update that another call commits to the account. -/
private theorem Readings.Seen.behind_before {db' : Db} {op : Operation} {tr : Track} {r : c.Reply} (h : x.Seen db)
    (hwallets : WalletEffect op tr db.wallets c r db'.wallets)
    (hmodels : ModelEffect op tr db.modelWallets c r db'.modelWallets) (hbehind : x.Behind db' account) :
    x.Behind db account ∨ c.gains r = some account := by
  cases account with
  | user userId =>
    obtain ⟨w, w', hw, rfl, hfind, hne⟩ := hbehind
    obtain ⟨w₀, hfind₀, -⟩ := h.wallet w hw
    generalize db'.wallets = ws at hwallets hfind
    cases hwallets with
    | kept => exact .inl ⟨w, w', hw, rfl, hfind, hne⟩
    | opened currency id hcommit hfree =>
      rw [Collection.find_insert_of_find hfree hfind₀] at hfind
      obtain rfl := Option.some.inj hfind
      exact .inl ⟨w, w₀, hw, rfl, hfind₀, hne⟩
    | posted f u w₁ hu hcommit =>
      by_cases huser : w.userId = f.userId
      · exact .inr (huser ▸ Cmd.gains_of_walletCommit hcommit)
      · rw [Collection.find_modify_ne huser] at hfind
        exact .inl ⟨w, w', hw, rfl, hfind, hne⟩
  | model modelId =>
    obtain ⟨m, m', hm, rfl, hfind, hne⟩ := hbehind
    obtain ⟨m₀, hfind₀, -⟩ := h.model m hm
    generalize db'.modelWallets = ms at hmodels hfind
    cases hmodels with
    | kept => exact .inl ⟨m, m', hm, rfl, hfind, hne⟩
    | opened currency id hcommit hfree =>
      rw [Collection.find_insert_of_find hfree hfind₀] at hfind
      obtain rfl := Option.some.inj hfind
      exact .inl ⟨m, m₀, hm, rfl, hfind₀, hne⟩
    | posted f u m₁ hu hcommit =>
      by_cases hmodel : m.modelId = f.modelId
      · exact .inr (hmodel ▸ Cmd.gains_of_modelCommit hcommit)
      · rw [Collection.find_modify_ne hmodel] at hfind
        exact .inl ⟨m, m', hm, rfl, hfind, hne⟩

private theorem tracked_seen (hA : Serves A) (h : (system config).Reaches A (.start d) s) {t : ℕ} {call : Call}
    (hx : (guarding config).track s t = some (call, x)) : x.Seen s.db := by
  have hcall := Contract.calls_of_track hx
  obtain rfl : (guarding config).record call (s.history t) = x := by
    simpa [Contract.track, hcall] using hx
  exact readings_seen hA h hcall

/-- The record of what a call has lost is that of its history. -/
private theorem lost_of_record (call : Call) (hist : List (Event Mongo Call)) (account : Account) :
    ((guarding config).record call hist).lost.count account =
      hist.countP fun ev => ev.cmd.loses ev.reply = some account := by
  induction hist with
  | nil => rfl
  | cons ev hist ih =>
    obtain ⟨t, call', c, r⟩ := ev
    have hlost : (((guarding config).record call hist).after c r).lost =
        (c.loses r).toList ++ ((guarding config).record call hist).lost := by cases c <;> rfl
    have hrecord : (guarding config).record call (⟨t, call', c, r⟩ :: hist) =
        ((guarding config).record call hist).after c r := rfl
    rw [hrecord, hlost, List.count_append, ih, List.countP_cons, Nat.add_comm]
    congr 1
    cases hloses : c.loses r with
    | none => simp
    | some account' => by_cases heq : account' = account <;> simp [heq]

end behind

section runs
variable {config : Config} {A : Schedule} {d : Db} {s : Run}

/-- How many guarded updates of the account's wallet thread `t` has lost. -/
def lostBy (s : Run) (t : ℕ) (account : Account) : ℕ :=
  s.log.countP fun ev => ev.thread = t && ev.cmd.loses ev.reply = some account

/-- How many updates of the account's wallet the other threads have committed. -/
def gainedBesides (s : Run) (t : ℕ) (account : Account) : ℕ :=
  s.log.countP fun ev => ev.thread ≠ t && ev.cmd.gains ev.reply = some account

/-- The wallet that thread `t` has read is no longer the current one. -/
private def Outdated (config : Config) (s : Run) (t : ℕ) (account : Account) : Prop :=
  ∃ call x, (guarding config).track s t = some (call, x) ∧ x.Behind s.db account

private theorem lost_le_gained (hA : Serves A) (h : (system config).Reaches A (.start d) s) (t : ℕ) (account : Account) :
    lostBy s t account ≤ gainedBesides s t account := by
  apply h.charged (fun s => Outdated config s t account)
  · rintro ⟨call, x, hx, -⟩
    cases hx
  · rintro s t' c hs ht ⟨call, x, hx, hbehind⟩
    rw [Contract.track_spawned hs ht] at hx
    by_cases htt : t = t'
    · subst htt
      obtain ⟨rfl, rfl⟩ : c = call ∧ (guarding config).start c = x := by simpa using hx
      cases account with
      | user userId =>
        obtain ⟨w, w', hw, -⟩ := hbehind
        cases hw
      | model modelId =>
        obtain ⟨m, m', hm, -⟩ := hbehind
        cases hm
    · rw [Function.update_of_ne htt] at hx
      exact ⟨call, x, hx, hbehind⟩
  · intro s t' o call c k hs hAct ht
    have hx := Contract.track_of_thread (K := guarding config) ht
    have hallows : ((guarding config).record call (s.history t')).Allows c :=
      ((guarding_kept config).may hs ht).resolve_left (operation_ne_other hA hs (State.calls_of_thread ht))
    have htrack := Contract.track_acted (K := guarding config) (M := system config) ht o
    by_cases htt : t = t'
    · subst htt
      constructor
      · intro hsettles
        have hlost : c.loses (exec o s.db c).1 = some account := of_decide_eq_true (Bool.and_elim_right hsettles)
        refine ⟨⟨call, _, hx, (tracked_seen hA hs hx).behind_of_lost hallows hlost⟩, ?_⟩
        rintro ⟨call', x', hx', hbehind⟩
        rw [htrack, Function.update_self] at hx'
        obtain ⟨rfl, rfl⟩ := Prod.mk.inj (Option.some.inj hx')
        exact Readings.not_behind_of_lost hlost hbehind
      · rintro ⟨call', x', hx', hbehind⟩
        rw [htrack, Function.update_self] at hx'
        obtain ⟨rfl, rfl⟩ := Prod.mk.inj (Option.some.inj hx')
        exact .inl ⟨call, _, hx, Readings.behind_before hbehind⟩
    · constructor
      · intro hsettles
        simp [Ne.symm htt] at hsettles
      · rintro ⟨call', x', hx', hbehind⟩
        rw [htrack, Function.update_of_ne htt] at hx'
        rcases (tracked_seen hA hs hx').behind_before (acted_wallets hA hs ht o) (acted_modelWallets hA hs ht o) hbehind
          with hbefore | hgains
        · exact .inl ⟨call', x', hx', hbefore⟩
        · exact .inr (Bool.and_eq_true_iff.mpr ⟨decide_eq_true (Ne.symm htt), decide_eq_true hgains⟩)
  · rintro s t' call c hs ht ⟨call', x, hx, hbehind⟩
    rw [Contract.track_restarted ht] at hx
    exact ⟨call', x, hx, hbehind⟩

/-- In any interleaving a call loses no more guarded updates of a wallet than the other calls have
committed to it, so that a call throws for contention only where the others have committed as many
as it has tried. Amounts are exact, identifiers trimmed and dates valid. -/
theorem lost_races_paid (hA : Serves A) (h : (system config).Reaches A (.start d) s) (t : ℕ) :
    (∀ account, lostBy s t account ≤ gainedBesides s t account) ∧
      ∀ call e account n, s.calls t = some call → s.result t = some (.error e) →
        call.contended config e = some (account, n) → n ≤ gainedBesides s t account := by
  refine ⟨lost_le_gained hA h t, fun call e account n hcall hresult hcontended => ?_⟩
  have hx : (guarding config).track s t = some (call, (guarding config).record call (s.history t)) := by
    simp [Contract.track, hcall]
  have hconcedes : call.Concedes config _ _ :=
    ((guarding_kept config).ends h hx hresult).resolve_left (operation_ne_other hA h hcall)
  have hlost := hconcedes e account n rfl hcontended
  rw [lost_of_record, State.history, List.countP_filter] at hlost
  calc
    n ≤ lostBy s t account := by
      refine hlost.trans (le_of_eq (List.countP_congr fun ev _ => ?_))
      simp [and_comm]
    _ ≤ gainedBesides s t account := lost_le_gained hA h t account

/-- The user whose wallet the call tries again for without counting its attempts. -/
def Call.recurs : Call → Option String
  | .expire userId _ => some userId
  | .adjust request => some request.userId
  | _ => none

/-- Such a call updates no wallet but that user's. -/
private theorem updates_own {config : Config} {A : Schedule} {d : Db} {s : Run} (hA : Serves A)
    (h : (system config).Reaches A (.start d) s) {ev : Event Mongo Call} (hev : ev ∈ s.log) {userId : String}
    (hrecurs : ev.call.recurs = some userId) (hmissed : ev.cmd.missed ev.reply = true) :
    ev.cmd.loses ev.reply = some (.user userId) := by
  obtain ⟨s₁, o, k, hthread, -, hbefore, -⟩ := h.step_of_event hev
  have hpermitted := permitted hA hbefore hthread
  obtain ⟨t, call, c, r⟩ := ev
  cases c with
  | updateWallet f u =>
    cases r with
    | some w => cases hmissed
    | none =>
      obtain ⟨w, -, ⟨huser, -⟩, -, hpay⟩ := hpermitted
      have hown : w.userId = userId := by
        cases call with
        | expire userId' requestId => exact hpay.2.1.trans (Option.some.inj hrecurs)
        | adjust request => exact hpay.2.1.trans (Option.some.inj hrecurs)
        | _ => cases hrecurs
      show some (Account.user f.userId) = _
      rw [huser, hown]
  | _ => cases hmissed

/-- An expiration or an adjustment, which tries again as often as it takes, has issued only as many
commands as its first try takes and as many again for each update that others have committed to its
user's wallet; and until it ends it can go on. Amounts are exact, identifiers trimmed and dates
valid. -/
theorem recursive_calls_progress (hA : Serves A) (h : (system config).Reaches A (.start d) s) {t : ℕ} {call : Call}
    {userId : String} (hcall : s.calls t = some call) (hrecurs : call.recurs = some userId) :
    (s.history t).length ≤ (1 + gainedBesides s t (.user userId)) * call.purse config 1 1 ∧
      (s.result t = none → ∀ o, ∃ s', (system config).step s (.run t o) = some s') := by
  have hretries : call.retries = true ∧ call.counted = false := by
    cases call with
    | expire userId requestId => exact ⟨rfl, rfl⟩
    | adjust request => exact ⟨rfl, rfl⟩
    | _ => cases hrecurs
  have hspent := spent_le (retryBudget_kept config 1 1) h hcall hretries.1
  rw [spent_commands, Call.payback, repaid_misses, if_neg (by simp [hretries.2])] at hspent
  have hmisses : (s.history t).countP (fun ev => ev.cmd.missed ev.reply) ≤ lostBy s t (.user userId) := by
    rw [State.history, List.countP_filter]
    apply List.countP_mono_left
    intro ev hev hmissed
    obtain ⟨hmissed, hthread⟩ := Bool.and_eq_true_iff.mp hmissed
    have heq : ev.call = call := Option.some.inj ((h.calls_of_log ev hev).symm.trans (of_decide_eq_true hthread ▸ hcall))
    have hloses := updates_own hA h hev (heq ▸ hrecurs) hmissed
    exact Bool.and_eq_true_iff.mpr ⟨hthread, decide_eq_true hloses⟩
  refine ⟨?_, fun hrunning o => (system config).exists_step hcall hrunning o⟩
  calc
    (s.history t).length ≤ call.purse config 1 1 +
        (s.history t).countP (fun ev => ev.cmd.missed ev.reply) * call.purse config 1 1 := hspent
    _ ≤ call.purse config 1 1 + gainedBesides s t (.user userId) * call.purse config 1 1 :=
      Nat.add_le_add_left (Nat.mul_le_mul_right _ (hmisses.trans (lost_le_gained hA h t _))) _
    _ = (1 + gainedBesides s t (.user userId)) * call.purse config 1 1 := by rw [Nat.add_mul, Nat.one_mul]

section scenario

/-- Awards that are tried only once. -/
private def impatient : Config :=
  let config := defaultConfig fun _ => none
  { config with accrual := { config.accrual with maxRetryAttempts := 1 } }

/-- Two awards read the same wallet; the second one loses its update and throws. -/
theorem lost_races_paid_by_rival : ∃ s, (system impatient).Reaches (only Call.isService) (.start fundedDb) s ∧
    s.result 1 = some (.error (PointAccrualService.conflict impatient.accrual sampleAward)) ∧
      lostBy s 1 (.user "user-1") = 1 ∧ 1 ≤ gainedBesides s 1 (.user "user-1") := by
  obtain ⟨s, -, hs, -, hfacts, hcalls⟩ := Machine.exists_reaches_twice (system impatient) (only Call.isService) fundedDb
    ([.spawn 0 (.award { sampleAward with idempotencyKey := "award-2" }), .spawn 1 (.award sampleAward)] ++
      interleaving [0, 1, 0, 1, 0, 1]) []
    (fun s _ => (lostBy s 1 (.user "user-1"), thrown (s.result 1)))
    (a := (1, some (PointAccrualService.conflict impatient.accrual sampleAward))) (by decide +kernel)
  obtain ⟨hlost, hresult⟩ := Prod.mk.inj hfacts
  have hthrown := result_of_thrown hresult
  have hserves : Serves (only Call.isService) :=
    serves_only fun c hc => by cases c <;> simp_all [Call.isService, Call.operation]
  exact ⟨s, hs, hthrown, hlost, (lost_races_paid hserves hs 1).2 _ _ _ _ (hcalls 1 _ (.tail _ (.head _))) hthrown rfl⟩

/-- An adjustment that has lost to an award tries once more. -/
theorem recursive_calls_progress_after_loss : ∃ s, (system (defaultConfig fun _ => none)).Reaches
    (only Call.isService) (.start fundedDb) s ∧ (s.result 0).any Except.isOk = true ∧
      gainedBesides s 0 (.user "user-1") = 1 ∧
      (s.history 0).length ≤ 2 * (Call.adjust sampleAdjustment).purse (defaultConfig fun _ => none) 1 1 := by
  obtain ⟨s, -, hs, -, hfacts, hcalls⟩ := Machine.exists_reaches_twice (system (defaultConfig fun _ => none))
    (only Call.isService) fundedDb ([.spawn 0 (.adjust sampleAdjustment), .spawn 1 (.award sampleAward)] ++
      interleaving ([0, 1, 1, 1, 0, 0] ++ List.replicate 7 0)) []
    (fun s _ => ((s.result 0).any Except.isOk, gainedBesides s 0 (.user "user-1"))) (a := (true, 1)) (by decide +kernel)
  obtain ⟨hok, hgained⟩ := Prod.mk.inj hfacts
  have hserves : Serves (only Call.isService) :=
    serves_only fun c hc => by cases c <;> simp_all [Call.isService, Call.operation]
  have hlength := (recursive_calls_progress hserves hs (hcalls 0 _ (.head _)) rfl).1
  rw [show Account.user sampleAdjustment.userId = .user "user-1" from rfl, hgained] at hlength
  exact ⟨s, hs, hok, hgained, hlength⟩

end scenario
end runs
end RedRoomRewards
