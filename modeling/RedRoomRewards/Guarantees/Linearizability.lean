import RedRoomRewards.Protocol.Bank
import RedRoomRewards.Guarantees.BalanceLaw

/-! The point accounts are linearizable: whatever calls run side by side, the committed
updates are postings made one after the other, and each call that returns tells the balances
that the bank has answered to its own. -/
namespace RedRoomRewards
open Process Store

section agreement

/-- What a response tells of balances is what the bank has answered to the postings of its
call, which are these and no others; the newest posting comes first. -/
def Call.Agrees : Call → Response → List ((Account × Posting) × Statement) → Prop
  | .hold request, .hold response, ps => ∃ a, ps = [((.user request.userId, .hold request.amount), a)] ∧
      a.before.1 = response.previousBalance ∧ a.after = (response.newAvailableBalance, response.escrowBalance)
  | .redeem request, .redeem response, ps => ∃ a, ps = [((.user request.userId, .hold request.amount), a)] ∧
      a.after = (response.newAvailableBalance, response.escrowBalance)
  | .settle request _, .settle response, ps => ∃ userId a b, ps =
      [((.user userId, .spend request.amount), a), ((.model request.modelId, .earn request.amount), b)] ∧
      b.after.1 = response.modelEarnedBalance
  | .refund request _, .refund response, ps => ∃ a, ps =
      [((.user request.userId, .release request.amount), a)] ∧ a.after.1 = response.userAvailableBalance
  | .partialSettle request _, .partialSettle response, ps => ∃ total a b, ps =
      [((.model request.modelId, .earn request.settleAmount), b),
        ((.user request.userId, .split request.refundAmount total), a)] ∧
      a.after.1 = response.userAvailableBalance ∧ b.after.1 = response.modelEarnedBalance
  | .award request, .award response, ps => ∃ a, ps =
      [((.user request.userId, .credit request.amount), a)] ∧ a.after.1 = response.newBalance
  | .deduct request, .deduct response, ps => ∃ a, ps =
      [((.user request.userId, .debit request.amount), a)] ∧ a.after.1 = response.newBalance
  | .expire _ _, .expire none, ps => ps = []
  | .expire userId _, .expire (some details), ps => ∃ a, ps = [((.user userId, .debit details.amountExpired), a)]
  | .adjust request, .adjust response, ps => ∃ a, ps =
      [((.user request.userId, .adjust request.amount (AdminOpsService.allowNegative request)), a)] ∧
      a.before.1 = response.previousBalance ∧ a.after.1 = response.newBalance
  | _, _, _ => False

/-- What the call has posted, from the documents that it has read. -/
def Readings.postings (x : Readings) (op : Operation) : List ((Account × Posting) × Statement) :=
  x.commits.map (Commit.posting op)

/-- A call that returns agrees with what it has committed; other programs are not bound. -/
def telling : Contract Mongo Call Response ServiceError Readings where
  start := fun _ => {}
  next := fun _ x c r => x.after c r
  may := fun call x c => call.operation = .other ∨ x.Allows c
  ends := fun call x r => call.operation = .other ∨ ∀ response, r = .ok response →
    call.Agrees response (x.postings call.operation)
  resumes := fun call call' x => call' = call ∧ x.commits = []

end agreement

section programs
variable {config : Config} {call : Call} {x : Readings} {α β : Type}

/-- What is returned agrees with what has been committed. -/
private def ToldDone (call : Call) (respond : α → Response) (x : Readings) : Except ServiceError α → Prop
  | .ok a => call.Agrees (respond a) (x.postings call.operation)
  | .error _ => True

/-- The calls that try again do so only as long as nothing is committed. -/
private def ToldNext (call : Call) (respond : α → Response) (x : Readings) : Except ServiceError (Next Unit α) → Prop
  | .ok (.done a) => call.Agrees (respond a) (x.postings call.operation)
  | .ok (.again ()) => x.commits = []
  | .error _ => True

private def Held (request : EscrowHoldRequest) (x : Readings) : Except ServiceError EscrowHoldResponse → Prop
  | .ok response => ∃ a, x.postings (.hold request) = [((.user request.userId, .hold request.amount), a)] ∧
      a.before.1 = response.previousBalance ∧ a.after = (response.newAvailableBalance, response.escrowBalance)
  | .error (.optimisticLock ..) => x.commits = []
  | .error _ => True

private theorem held_calm {request : EscrowHoldRequest} {e : ServiceError} (he : ¬ e.Contention) :
    Held request x (.error e) := by
  cases e with
  | optimisticLock type id => exact absurd trivial he
  | _ => trivial

private theorem tells_executeHold {config : WalletService.Config} {request : EscrowHoldRequest} (hx : x.commits = []) :
    Rests (Held request) x (WalletService.executeHoldInEscrow config request) := by
  apply rests_getOrCreateWallet (fun _ => trivial)
  intro w huser
  refine rests_throwIf (fun _ => trivial) fun _ => rests_issue trivial fun escrowId _ =>
    rests_issue trivial fun createdAt _ => rests_issue trivial fun reply _ => ?_
  refine rests_calm calm_created (fun e he => held_calm he) fun _ => ?_
  apply rests_updateWallet rfl huser (by simp [WalletFilter.accepts])
  · exact rests_issue trivial fun _ _ => hx
  · intro w'
    refine rests_issue trivial fun _ _ => rests_issue trivial fun _ _ => ?_
    refine rests_calm calm_createEntry (fun e he => held_calm he) fun _ =>
      rests_calm calm_createEntry (fun e he => held_calm he) fun _ => ?_
    refine rests_calm calm_publish (fun e he => held_calm he) fun _ => ?_
    refine ⟨(Posting.hold request.amount).statement w.balances, ?_, rfl, ?_⟩
    · simp [Readings.postings, hx, Commit.posting, Operation.posting]
    · simp [Posting.statement, Posting.delta, Wallet.balances, sub_eq_add_neg]

private theorem tells_holdAttempts (config : WalletService.Config) (request : EscrowHoldRequest) (left : ℕ) :
    ∀ x : Readings, x.commits = [] → Rests (Held request) x (WalletService.holdAttempts config request left) := by
  induction left with
  | zero => exact fun x hx => hx
  | succ left ih =>
    intro x hx
    refine (Prog.obeys_catching _ _ _).mpr ((tells_executeHold hx).imp ?_)
    rintro x' (e | response) hheld
    · cases e with
      | optimisticLock type id =>
        show Rests _ x' (if _ then _ else _)
        split
        · exact ih x' hheld
        · exact hheld
      | _ => trivial
    · exact hheld

private theorem tells_holdInEscrow {config : WalletService.Config} {request : EscrowHoldRequest} (hx : x.commits = []) :
    Rests (Held request) x (WalletService.holdInEscrow config request) :=
  rests_calm calm_claim (fun _ he => held_calm he) fun _ => tells_holdAttempts config request _ x hx

private theorem tells_settle {config : WalletService.Config} {request : EscrowSettleRequest}
    {authorization : Option QueueSettlementAuthorization} (hx : x.commits = []) :
    Rests (ToldDone (.settle request authorization) .settle) x (WalletService.settleEscrow config request authorization) := by
  refine rests_throwIf (fun _ => trivial) fun _ => rests_calm calm_claim (fun _ _ => trivial) fun _ =>
    rests_calm calm_lockEscrow (fun _ _ => trivial) fun escrow => ?_
  apply rests_getOrCreateModelWallet (fun e => trivial)
  intro m hmodel
  apply rests_updateModelWallet rfl hmodel rfl
  · exact rests_throwIf (fun _ => trivial) fun hne => absurd rfl hne
  · intro m'
    refine rests_throwIf (fun heq => by cases heq) fun _ => rests_findWallet fun found hfound => ?_
    refine rests_orThrow trivial fun w hw => ?_
    subst hw
    apply rests_updateWallet rfl (hfound w rfl) (by simp [WalletFilter.accepts])
    · exact rests_issue trivial fun _ _ => trivial
    · refine fun w' => rests_issue trivial fun _ _ => rests_issue trivial fun _ _ => ?_
      refine rests_calm calm_createEntry (fun _ _ => trivial) fun _ => rests_issue trivial fun _ _ => ?_
      refine rests_calm calm_publish (fun _ _ => trivial) fun _ => ?_
      refine ⟨escrow.userId, (Posting.spend request.amount).statement w.balances,
        (Posting.earn request.amount).statement m.balances, ?_, rfl⟩
      simp [Readings.postings, hx, Commit.posting, Call.operation, Operation.posting, Operation.earned]

private theorem tells_refund {config : WalletService.Config} {request : EscrowRefundRequest}
    {authorization : Option QueueRefundAuthorization} (hx : x.commits = []) :
    Rests (ToldDone (.refund request authorization) .refund) x (WalletService.refundEscrow config request authorization) := by
  refine rests_throwIf (fun _ => trivial) fun _ => rests_calm calm_claim (fun _ _ => trivial) fun _ =>
    rests_calm calm_lockEscrow (fun _ _ => trivial) fun escrow => ?_
  refine rests_findWallet fun found hfound => rests_orThrow trivial fun w hw => ?_
  subst hw
  apply rests_updateWallet rfl (hfound w rfl) (by simp [WalletFilter.accepts])
  · exact rests_issue trivial fun _ _ => trivial
  · refine fun w' => rests_issue trivial fun _ _ => rests_issue trivial fun _ _ => ?_
    refine rests_calm calm_createEntry (fun _ _ => trivial) fun _ => rests_issue trivial fun _ _ => ?_
    refine rests_calm calm_publish (fun _ _ => trivial) fun _ => ?_
    refine ⟨(Posting.release request.amount).statement w.balances, ?_, rfl⟩
    simp [Readings.postings, hx, Commit.posting, Call.operation, Operation.posting]

private theorem tells_partialSettle {config : WalletService.Config} {request : EscrowPartialSettleRequest}
    {authorization : Option QueuePartialSettlementAuthorization} (hx : x.commits = []) :
    Rests (ToldDone (.partialSettle request authorization) .partialSettle) x
      (WalletService.partialSettleEscrow config request authorization) := by
  refine rests_throwIf (fun _ => trivial) fun _ => rests_calm calm_claim (fun _ _ => trivial) fun _ =>
    rests_calm calm_lockEscrow (fun _ _ => trivial) fun escrow => rests_throwIf (fun _ => trivial) fun _ => ?_
  refine rests_findWallet fun found hfound => rests_orThrow trivial fun w hw => ?_
  subst hw
  apply rests_getOrCreateModelWallet (fun e => trivial)
  intro m hmodel
  apply rests_updateWallet rfl (hfound w rfl) (by simp [WalletFilter.accepts])
  · exact rests_issue trivial fun _ _ => trivial
  · intro w'
    apply rests_updateModelWallet rfl hmodel rfl
    · exact rests_issue trivial fun _ _ => trivial
    · refine fun m' => rests_issue trivial fun _ _ => rests_issue trivial fun _ _ => ?_
      refine rests_calm calm_createEntryIf (fun _ _ => trivial) fun _ => rests_calm calm_createEntryIf (fun _ _ => trivial) fun _ =>
        rests_issue trivial fun _ _ => ?_
      refine rests_calm calm_publish (fun _ _ => trivial) fun _ => ?_
      refine ⟨escrow.amount, (Posting.split request.refundAmount escrow.amount).statement w.balances,
        (Posting.earn request.settleAmount).statement m.balances, ?_, rfl, rfl⟩
      simp [Readings.postings, hx, Commit.posting, Call.operation, Operation.posting, Operation.earned,
        WalletUpdate.escrowChange]

section points
variable {config : PointAccrualService.Config} {request : AwardPointsRequest}

private theorem tells_awardAttempts (left : ℕ) : ∀ x : Readings, x.commits = [] →
    Rests (ToldDone (.award request) .award) x (PointAccrualService.awardAttempts config request left) := by
  induction left with
  | zero => exact fun x hx => trivial
  | succ left ih =>
    intro x hx
    refine rests_calm calm_validateAmount (fun _ _ => trivial) fun _ =>
      rests_calm (calm_throwIf (by simp [ServiceError.Contention])) (fun _ _ => trivial) fun _ =>
        rests_calm calm_checkFirst (fun _ _ => trivial) fun _ => ?_
    apply rests_getOrCreateWallet (fun e => trivial)
    intro w huser
    apply rests_updateWallet rfl huser (by simp [WalletFilter.accepts])
    · exact ih _ hx
    · refine fun w' => rests_booking (fun _ _ => trivial) fun transactionId timestamp => ?_
      refine ⟨(Posting.credit request.amount).statement w.balances, ?_, rfl⟩
      simp [Readings.postings, hx, Commit.posting, Call.operation, Operation.posting]

private theorem tells_deductAttempts (left : ℕ) : ∀ x : Readings, x.commits = [] →
    Rests (ToldDone (.deduct request) .deduct) x (PointAccrualService.deductAttempts config request left) := by
  induction left with
  | zero => exact fun x hx => trivial
  | succ left ih =>
    intro x hx
    refine rests_calm calm_validateAmount (fun _ _ => trivial) fun _ =>
      rests_calm (calm_throwIf (by simp [ServiceError.Contention])) (fun _ _ => trivial) fun _ =>
        rests_calm calm_checkFirst (fun _ _ => trivial) fun _ => ?_
    apply rests_findWallet
    intro found hfound
    refine rests_orThrow trivial fun w hw => ?_
    subst hw
    refine rests_throwIf (fun _ => trivial) fun hcovered => ?_
    apply rests_updateWallet rfl (hfound w rfl) (by simpa [WalletFilter.accepts] using hcovered)
    · exact ih _ hx
    · refine fun w' => rests_booking (fun _ _ => trivial) fun transactionId timestamp => ?_
      refine ⟨(Posting.debit request.amount).statement w.balances, ?_, ?_⟩
      · simp [Readings.postings, hx, Commit.posting, Call.operation, Operation.posting]
      · exact (sub_eq_add_neg _ _).symm

end points

private theorem tells_expiration {config : PointExpirationService.Config} {userId requestId : String}
    (hx : x.commits = []) : Rests (ToldNext (.expire userId requestId) .expire) x
      (PointExpirationService.processUserExpiration config userId requestId) := by
  have hnothing : ∀ x : Readings, x.commits = [] →
      (Call.expire userId requestId).Agrees (.expire none) (x.postings (Call.expire userId requestId).operation) :=
    fun x hx => by simp [Call.Agrees, Readings.postings, hx]
  refine rests_calm calm_queryEntries (fun _ _ => trivial) fun ledgerResult => rests_issue trivial fun now _ => ?_
  dsimp only
  generalize PointExpirationService.totalExpired config (now - config.gracePeriodDays * 24 * 60 * 60 * 1000)
    ledgerResult.entries = total
  split
  · exact hnothing x hx
  · refine rests_findWallet fun found hfound => rests_orThrow trivial fun w hw => ?_
    subst hw
    show Rests _ _ (if _ then _ else _)
    split
    · exact hnothing _ hx
    · apply rests_updateWallet rfl (hfound w rfl) (by simp [WalletFilter.accepts])
      · exact hx
      · refine fun w' => rests_booking (fun _ _ => trivial) fun transactionId timestamp =>
          ⟨(Posting.debit (min total w.availableBalance)).statement w.balances, ?_⟩
        simp [Readings.postings, hx, Commit.posting, Call.operation, Operation.posting, WalletUpdate.availableChange]

private theorem tells_adjustment {config : AdminOpsService.Config} {request : ManualAdjustmentRequest}
    (hx : x.commits = []) :
    Rests (ToldNext (.adjust request) .adjust) x (AdminOpsService.manualAdjustment config request) := by
  refine rests_calm calm_validateAdminAuth (fun _ _ => trivial) fun _ => rests_throwIf (fun _ => trivial) fun _ =>
    rests_throwIf (fun _ => trivial) fun _ => rests_throwIf (fun _ => trivial) fun _ => ?_
  refine rests_findWallet fun found hfound => rests_orThrow trivial fun w hw => ?_
  subst hw
  refine rests_throwIf (fun _ => trivial) fun _ => ?_
  apply rests_updateWallet rfl (hfound w rfl) (by simp [WalletFilter.accepts])
  · exact hx
  · refine fun w' => rests_booking (fun _ _ => trivial) fun transactionId timestamp => ?_
    refine ⟨(Posting.adjust request.amount (AdminOpsService.allowNegative request)).statement w.balances, ?_, rfl, rfl⟩
    simp [Readings.postings, hx, Commit.posting, Call.operation, Operation.posting]

private theorem tells_redeem {config : PointRedemptionService.Config} {wallet : WalletService.Config}
    {request : RedeemPointsRequest} (hx : x.commits = []) :
    Rests (ToldDone (.redeem request) .redeem) x (PointRedemptionService.redeemPoints config wallet request) := by
  refine rests_calm calm_redemptionAmount (fun _ _ => trivial) fun _ =>
    rests_calm (calm_throwIf (by simp [ServiceError.Contention])) (fun _ _ => trivial) fun _ =>
      rests_calm (calm_throwIf (by simp [ServiceError.Contention])) (fun _ _ => trivial) fun _ => ?_
  have hheld : ∀ x : Readings, x.commits = [] → Rests (ToldDone (.redeem request) .redeem) x (do
      let escrowResponse ← WalletService.holdInEscrow wallet (PointRedemptionService.escrowRequest request)
      pure (RedeemPointsResponse.mk escrowResponse.transactionId escrowResponse.escrowId request.amount
        escrowResponse.newAvailableBalance escrowResponse.escrowBalance request.queueItemId
        escrowResponse.timestamp)) := by
    intro x hx
    refine rests_bind ((tells_holdInEscrow hx).imp ?_)
    rintro x' (e | response) hheld
    · trivial
    · obtain ⟨a, hpostings, -, hafter⟩ := hheld
      exact ⟨a, hpostings, hafter⟩
  exact rests_checkBalance trivial fun found => hheld _ hx

end programs

section kept
variable {config : Config} {call : Call} {x : Readings} {α : Type}

private theorem tells_returning {response : α → Response} {p : Service α} (hp : Rests (ToldDone call response) x p) :
    Prog.Obeys (telling.rules (system config) call) (telling.settles call) x (returning response p) := by
  refine Prog.Obeys.loosen (rests_bind (hp.imp ?_)) fun _ _ hallows => .inr hallows
  rintro x' (e | a) htold
  · exact .inr fun response heq => by cases heq
  · refine .inr fun response' heq => ?_
    cases heq
    exact htold

private theorem tells_retrying {response : α → Response} {p : Service (Next Unit α)}
    (hp : Rests (ToldNext call response) x p) :
    Prog.Obeys (telling.rules (system config) call) (telling.settles call) x (retrying call response p) := by
  refine Prog.Obeys.loosen (rests_bind (hp.imp ?_)) fun _ _ hallows => .inr hallows
  rintro x' (e | a | _) htold
  · exact .inr fun response heq => by cases heq
  · refine .inr fun response' heq => ?_
    cases heq
    exact htold
  · exact ⟨rfl, htold⟩

theorem telling_kept (config : Config) : telling.Kept (system config) where
  starts := fun _ => ⟨rfl, rfl⟩
  body := by
    rintro _ call x ⟨rfl, hx⟩
    cases call with
    | hold request =>
      refine tells_returning ((tells_holdInEscrow hx).imp ?_)
      rintro x' (e | response) hheld
      · trivial
      · exact hheld
    | settle request authorization => exact tells_returning (tells_settle hx)
    | refund request authorization => exact tells_returning (tells_refund hx)
    | partialSettle request authorization => exact tells_returning (tells_partialSettle hx)
    | award request => exact tells_returning (tells_awardAttempts _ x hx)
    | deduct request => exact tells_returning (tells_deductAttempts _ x hx)
    | expire userId requestId => exact tells_retrying (tells_expiration hx)
    | adjust request => exact tells_retrying (tells_adjustment hx)
    | redeem request => exact tells_returning (tells_redeem hx)
    | other program =>
      refine (Prog.obeys_bind _ _ _).mpr (Prog.obeys_stable (P := fun _ => True) program trivial
        (fun _ _ _ _ => trivial) (fun _ _ _ => .inl rfl) ?_)
      rintro x' (e | a) -
      · exact .inl rfl
      · exact .inl rfl

end kept

section runs
variable {config : Config} {A : Schedule} {d : Db} {s s' : Run} {op : Operation} {tr : Track} {c : Cmd} {r : c.Reply}
  {db db' : Db} {x : Readings}

/-- The book that the wallets keep; who has no wallet has nothing. -/
def Db.book (db : Db) : Book
  | .user userId => db.balances userId
  | .model modelId => (db.earnedBalance modelId, 0)

/-- What a command does to the wallets is one posting in the book, or nothing. -/
private theorem takes (hwallets : WalletEffect op tr db.wallets c r db'.wallets)
    (hmodels : ModelEffect op tr db.modelWallets c r db'.modelWallets) :
    bank.Takes db.book (op.performs c r) db'.book := by
  have husers : ∀ userId, db'.book (.user userId) =
      db.book (.user userId) + (op.walletChange userId c r).getD 0 := fun userId => (hwallets.balances userId).1
  have hearned : ∀ modelId, db'.book (.model modelId) =
      db.book (.model modelId) + ((op.modelChange modelId c r).getD 0, 0) := by
    intro modelId
    simp [Db.book, (hmodels.earned modelId).1]
  unfold Operation.performs
  cases hwallet : c.walletCommit r with
  | some p =>
    obtain ⟨f, u⟩ := p
    obtain ⟨w, hfind, -, hpay⟩ := hwallets.committed hwallet
    have hbook : db.book (.user f.userId) = w.balances := by simp [Db.book, Db.balances, hfind, Wallet.balances]
    refine ⟨(congrArg (Posting.Admitted · _) hbook).mpr hpay.admitted, funext fun account => ?_⟩
    cases account with
    | user userId =>
      rw [husers, Operation.walletChange, hwallet]
      by_cases heq : f.userId = userId
      · simp [bank, heq, Operation.posting_delta]
      · simp [bank, heq, Ne.symm heq]
    | model modelId =>
      have hnone : c.modelCommit r = none := by
        cases c with
        | updateWallet f u => rfl
        | _ => cases hwallet
      rw [hearned, Operation.modelChange, hnone]
      simp [bank]
  | none =>
    cases hmodel : c.modelCommit r with
    | none =>
      funext account
      cases account with
      | user userId => simp [husers, Operation.walletChange, hwallet]
      | model modelId => simp [hearned, Operation.modelChange, hmodel]
    | some p =>
      obtain ⟨f, u⟩ := p
      refine ⟨trivial, funext fun account => ?_⟩
      cases account with
      | user userId => simp [husers, Operation.walletChange, hwallet, bank]
      | model modelId =>
        rw [hearned, Operation.modelChange, hmodel]
        by_cases heq : f.modelId = modelId
        · simp [bank, heq, Posting.delta]
        · simp [bank, heq, Ne.symm heq]

/-- A guarded update of a user's wallet finds the document that was read. -/
private theorem Readings.Seen.find_of_won {f : WalletFilter} {u : WalletUpdate} {w w' : Wallet} {o : Oracle}
    (h : x.Seen db) (hread : x.wallet = some w) (huser : w.userId = f.userId) (haccepts : f.accepts w = true)
    (hwon : (exec o db (.updateWallet f u)).1 = some w') : db.wallets.find f.userId = some w := by
  obtain ⟨w₀, hfind, -, hcurrent⟩ := h.wallet w hread
  rw [huser] at hfind
  have haccepted : f.accepts w₀ = true := by
    by_contra hnot
    rw [exec_updateWallet_missed (by simpa [hfind] using hnot)] at hwon
    cases hwon
  have hversion : w.version = w₀.version := by
    simp only [WalletFilter.accepts, Bool.and_eq_true, decide_eq_true_eq] at haccepts haccepted
    rw [haccepts.1, haccepted.1]
  rw [hfind, ← hcurrent hversion]

/-- A guarded update of a model's wallet finds the document that was read. -/
private theorem Readings.Seen.find_of_earned {f : ModelWalletFilter} {u : ModelWalletUpdate} {m m' : ModelWallet}
    {o : Oracle} (h : x.Seen db) (hread : x.model = some m) (hmodel : m.modelId = f.modelId)
    (hversion : m.version = f.version) (hwon : (exec o db (.updateModelWallet f u)).1 = some m') :
    db.modelWallets.find f.modelId = some m := by
  obtain ⟨m₀, hfind, -, hcurrent⟩ := h.model m hread
  rw [hmodel] at hfind
  by_cases hsame : m₀.version = f.version
  · rw [hfind, ← hcurrent (hversion.trans hsame.symm)]
  · simp only [exec, Db.updateModelWallet, hfind, if_neg hsame] at hwon
    cases hwon

/-- A step records the posting that it makes, with the bank's answer of the moment. -/
private theorem records (hseen : x.Seen db) {o : Oracle} (hallows : x.Allows c) :
    (x.after c (exec o db c).1).postings op =
      ((op.performs c (exec o db c).1).map fun p => (p, bank.answer db.book p)).toList ++ x.postings op := by
  cases c with
  | updateWallet f u =>
    obtain ⟨w, hread, huser, haccepts⟩ := hallows
    cases hreply : (exec o db (.updateWallet f u)).1 with
    | none => rfl
    | some w' =>
      have hfind := hseen.find_of_won hread huser haccepts hreply
      have hbook : db.book (.user f.userId) = w.balances := by simp [Db.book, Db.balances, hfind, Wallet.balances]
      simp [Readings.after, Readings.postings, Readings.commit, hread, Operation.performs, Cmd.walletCommit,
        Commit.posting, bank, hbook]
  | updateModelWallet f u =>
    obtain ⟨m, hread, hmodel, hversion⟩ := hallows
    cases hreply : (exec o db (.updateModelWallet f u)).1 with
    | none => rfl
    | some m' =>
      have hfind := hseen.find_of_earned hread hmodel hversion hreply
      have hbook : db.book (.model f.modelId) = m.balances := by
        simp [Db.book, Db.earnedBalance, hfind, ModelWallet.balances]
      simp [Readings.after, Readings.postings, Readings.commit, hread, Operation.performs, Cmd.walletCommit,
        Cmd.modelCommit, Commit.posting, bank, hbook]
  | _ => rfl

/-- The posting that an event stands for. -/
def posting (ev : Event Mongo Call) : Option (Account × Posting) := ev.call.operation.performs ev.cmd ev.reply

/-- The postings of a run, newest first, with what the bank answers to each. -/
def postings (d : Db) (s : Run) : List (Performed (Account × Posting) Statement) :=
  bank.historyOf posting d.book s.log

private theorem run_takes (hA : Serves A) (s : Run) (t : ℕ) (o : Oracle) (call : Call) (c : Cmd)
    (k : c.Reply → Prog Mongo ServiceError (Next Call Response)) (hs : (system config).Reaches A (.start d) s)
    (_ : A s (.run t o)) (ht : s.threads t = some ⟨call, .call c k⟩) :
    bank.Takes s.db.book (posting ⟨t, call, c, (exec o s.db c).1⟩) (exec o s.db c).2.book :=
  takes (acted_wallets hA hs ht o) (acted_modelWallets hA hs ht o)

/-- The committed updates of a run, in the order of their steps, are postings that the bank admits
one after the other and that make its book the one that the wallets keep; the balances in a response
are those that the bank has answered to the postings of its call; and postings stay where they are
when the run goes on, so that a call that has returned comes before one that has not begun. Amounts
are exact, identifiers trimmed and dates valid. -/
theorem accounts_linearizable (hA : Serves A) (h : (system config).Reaches A (.start d) s) :
    bank.Performs d.book (postings d s) s.db.book ∧
      (∀ t call response, s.calls t = some call → s.result t = some (.ok response) →
        call.Agrees response (Object.performedBy t (postings d s))) ∧
      ∀ s', (system config).Reaches A s s' → postings d s <:+ postings d s' := by
  refine ⟨(h.performs bank posting Db.book (run_takes hA)).2, ?_, fun s' h' => Object.historyOf_suffix h'.log_suffix⟩
  intro t call response hcall hresult
  have hx : telling.track s t = some (call, telling.record call (s.history t)) := by simp [Contract.track, hcall]
  have hagrees := ((telling_kept config).ends h hx hresult).resolve_left (operation_ne_other hA h hcall) response rfl
  have hperformed := h.performedBy_eq (K := telling) bank posting Db.book (fun call x => x.postings call.operation)
    (run_takes hA) (fun _ => rfl) ?_ t call _ hx
  · rw [postings, hperformed]
    exact hagrees
  · intro s t o call c k hs hAct ht
    exact records (readings_seen hA hs (State.calls_of_thread ht))
      (((telling_kept config).may hs ht).resolve_left (operation_ne_other hA hs (State.calls_of_thread ht)))

section scenario

/-- An award gets ahead of a hold that has read the wallet already: the hold tries again
and tells the balance after the award. -/
theorem accounts_linearizable_after_retry : ∃ s response,
    (system (defaultConfig fun _ => none)).Reaches (only Call.isService) (.start fundedDb) s ∧
      s.result 0 = some (.ok (.hold response)) ∧ response.previousBalance = 120 ∧ response.newAvailableBalance = 90 := by
  obtain ⟨s, -, hs, -, hfacts, hcalls⟩ := Machine.exists_reaches_twice (system (defaultConfig fun _ => none))
    (only Call.isService) fundedDb ([.spawn 0 (.hold sampleHold), .spawn 1 (.award sampleAward)] ++
      interleaving ([0, 0, 0, 0, 1, 1, 1] ++ List.replicate 21 0)) []
    (fun s _ => ((s.result 0).any Except.isOk, Object.performedBy 0 (postings fundedDb s)))
    (a := (true, [((.user "user-1", .hold 30), ⟨(120, 0), (90, 30)⟩)])) (by decide +kernel)
  obtain ⟨hok, hperformed⟩ := Prod.mk.inj hfacts
  have hserves : Serves (only Call.isService) :=
    serves_only fun c hc => by cases c <;> simp_all [Call.isService, Call.operation]
  obtain ⟨response, hresult⟩ : ∃ response, s.result 0 = some (.ok response) := by
    cases hr : s.result 0 with
    | none => simp [hr] at hok
    | some r =>
      cases r with
      | error e => simp [hr, Except.isOk, Except.toBool] at hok
      | ok response => exact ⟨response, rfl⟩
  have hagrees := (accounts_linearizable hserves hs).2.1 0 _ response (hcalls 0 _ (.head _)) hresult
  rw [hperformed] at hagrees
  cases response with
  | hold response =>
    obtain ⟨a, hpostings, hbefore, hafter⟩ := hagrees
    obtain ⟨-, rfl⟩ := Prod.mk.inj (List.cons.inj hpostings).1
    obtain ⟨hnew, -⟩ := Prod.mk.inj hafter
    exact ⟨s, response, hs, hresult, hbefore.symm, hnew.symm⟩
  | _ => exact hagrees.elim

end scenario
end runs
end RedRoomRewards
