import RedRoomRewards.Protocol.Escrow

/-! The single-wallet operations and the redemption follow the protocol. -/
namespace RedRoomRewards
open Process LedgerService

variable {tr : Track}

/-- An error before anything is committed. -/
private theorem throws_opening (h : tr.stage = .opening) (e : ServiceError) : tr.Throws e := by
  simp [Track.Throws, h]

/-- After a commit only the ledger may fail. -/
private theorem throws_posted (h : tr.stage = .posted) (tr' : Track) (e : LedgerError)
    (htr' : tr'.stage = tr.stage) : tr'.Throws (.ledger e) := by
  simp [Track.Throws, htr', h, ServiceError.OfLedger]

/-- What follows a committed update: one entry of the available bucket. -/
private theorem follows_book {α : Type} {op : Operation}
    {ends : Track → Except ServiceError α → Prop} {ledger : LedgerService.Config}
    {entry : CreateLedgerEntryRequest} {k : LedgerEntry → Service α} {w : Wallet} {f : WalletFilter}
    {u : WalletUpdate} (hstage : tr.stage = .posted) (hentries : tr.entries = [])
    (hw : w ∈ tr.wallets) (hcommitted : tr.committed = some (f, u)) (hreads : f.Reads w)
    (haccount : entry.accountId = w.userId) (hbefore : entry.balanceBefore = w.availableBalance)
    (hamount : entry.amount = (op.delta u).1)
    (hafter : entry.balanceAfter = w.availableBalance + (op.delta u).1)
    (hthrow : ∀ tr' e, tr'.stage = tr.stage → ends tr' (.error (.ledger e)))
    (hk : ∀ tr' e, tr'.stage = .posted → tr.Wrote entry tr' → Follows op ends tr' (k e)) :
    Follows op ends tr (createEntry ledger entry >>= k) := by
  have hdone : tr.stage.Done := by simp [hstage, Stage.Done]
  refine follows_bind (follows_createEntry hdone ?_ hthrow fun tr' e h => ?_)
  · exact fun _ => ⟨by simp [hentries], w, hw, f, u, hcommitted, hreads, haccount, hbefore, hamount, hafter⟩
  · exact hk tr' e (h.stage.trans hstage) h

/-- The attempt was booked, if it was for the available bucket. -/
private theorem Track.Wrote.booked {entry : CreateLedgerEntryRequest} {tr' : Track}
    (h : tr.Wrote entry tr') (haccount : entry.accountType = .user)
    (hstate : entry.balanceState = .available) :
    tr'.duplicated = true ∨ ∃ e ∈ tr'.entries, e.OfAvailable := by
  rcases h.wrote with hdup | ⟨e, he, haccount', hstate'⟩
  · exact .inl hdup
  · exact .inr ⟨e, he, haccount'.trans haccount, hstate'.trans hstate⟩

section accrual
open PointAccrualService
variable {config : PointAccrualService.Config} {request : AwardPointsRequest}

/-- The checks before each attempt end with nothing changed. -/
private theorem follows_validateAmount {op : Operation}
    {ends : Track → Except ServiceError Unit → Prop} {amount : ℚ} (hthrow : ∀ e, ends tr (.error e))
    (hok : 0 < amount → ends tr (.ok ())) : Follows op ends tr (validateAmount config amount) := by
  refine follows_throwIf (fun _ => hthrow _) fun _ => follows_throwIf (fun _ => hthrow _) fun _ => ?_
  exact follows_ite (fun _ => hthrow _) fun hpos => hok (not_le.mp hpos)

private theorem follows_check {op : Operation} {ends : Track → Except ServiceError Unit → Prop}
    {p : Prop} [Decidable p] {e : ServiceError} (hthrow : ends tr (.error e)) (hok : ends tr (.ok ())) :
    Follows op ends tr (Prog.throwIf p e) := follows_ite (fun _ => hthrow) fun _ => hok

private theorem follows_checkFirst {op : Operation} {ends : Track → Except ServiceError Unit → Prop}
    {first : Prop} [Decidable first] {scope : String} (hthrow : ∀ e, ends tr (.error e))
    (hok : ends tr (.ok ())) : Follows op ends tr (checkFirst first request scope) := by
  unfold checkFirst
  split
  · refine follows_bind (follows_read trivial (fun _ => rfl) fun r => ?_)
    exact follows_check (hthrow _) hok
  · exact hok

private theorem follows_awardAttempts (left : ℕ) : ∀ tr : Track, tr.stage = .opening → tr.entries = [] →
    Follows (.award request) (fun tr r => (Operation.award request).Ends tr r) tr
      (awardAttempts config request left) := by
  induction left with
  | zero =>
    intro tr hstage _
    exact throws_opening hstage _
  | succ left ih =>
    intro tr hstage hentries
    refine follows_bind (follows_validateAmount (throws_opening hstage) fun hpos => ?_)
    refine follows_bind (follows_check (throws_opening hstage _) ?_)
    refine follows_bind (follows_checkFirst (throws_opening hstage) ?_)
    refine follows_bind (follows_getOrCreateWallet hstage (throws_opening hstage) fun _ w hw => ?_)
    refine follows_updateWallet ⟨w, .head _, ⟨hw.symm, rfl⟩, ?_, hstage, hw, hpos⟩ ?_ fun _ => ?_
    · simp [WalletUpdate.apply, Wallet.post, Operation.delta]
    · exact ih _ (by simp [hstage, Stage.userMissed]) hentries
    · refine follows_uuidv4 fun transactionId => follows_now fun timestamp => ?_
      have hposted : tr.stage.userPaid (.award request) = .posted := by simp [hstage, Stage.userPaid]
      refine follows_book hposted hentries (.head _) rfl ⟨hw.symm, rfl⟩ hw.symm rfl rfl rfl
        (throws_posted hposted) fun tr' e hstage' h => .inl ⟨?_, h.booked rfl rfl⟩
      simp [hstage', Stage.Done]

theorem follows_awardPoints (hstage : tr.stage = .opening) (hentries : tr.entries = []) :
    Follows (.award request) (fun tr r => (Operation.award request).Ends tr r) tr
      (awardPoints config request) := follows_awardAttempts _ tr hstage hentries

private theorem follows_deductAttempts (left : ℕ) : ∀ tr : Track, tr.stage = .opening →
    tr.entries = [] → Follows (.deduct request) (fun tr r => (Operation.deduct request).Ends tr r) tr
      (deductAttempts config request left) := by
  induction left with
  | zero =>
    intro tr hstage _
    exact throws_opening hstage _
  | succ left ih =>
    intro tr hstage hentries
    refine follows_bind (follows_validateAmount (throws_opening hstage) fun hpos => ?_)
    refine follows_bind (follows_check (throws_opening hstage _) ?_)
    refine follows_bind (follows_checkFirst (throws_opening hstage) ?_)
    apply follows_findWallet (follows_orThrow (fun _ => throws_opening (by exact hstage) _) nofun)
    intro w hw
    apply follows_orThrow nofun
    intro w' hw'
    obtain rfl : w = w' := Option.some.inj hw'
    apply follows_throwIf (fun _ => throws_opening hstage _)
    intro henough
    refine follows_updateWallet ⟨w, .head _, ⟨hw.symm, rfl⟩, ?_, hstage, hw, hpos, not_lt.mp henough⟩ ?_
      fun _ => ?_
    · simp [WalletUpdate.apply, Wallet.post, Operation.delta]
    · exact ih _ (by simp [hstage, Stage.userMissed]) hentries
    · refine follows_uuidv4 fun transactionId => follows_now fun timestamp => ?_
      have hposted : tr.stage.userPaid (.deduct request) = .posted := by simp [hstage, Stage.userPaid]
      refine follows_book hposted hentries (.head _) rfl ⟨hw.symm, rfl⟩ hw.symm rfl rfl
        (sub_eq_add_neg _ _) (throws_posted hposted) fun tr' e hstage' h => .inl ⟨?_, h.booked rfl rfl⟩
      simp [hstage', Stage.Done]

theorem follows_deductFromAvailable (hstage : tr.stage = .opening) (hentries : tr.entries = []) :
    Follows (.deduct request) (fun tr r => (Operation.deduct request).Ends tr r) tr
      (deductFromAvailable config request) := follows_deductAttempts _ tr hstage hentries

end accrual

/-- How an operation that may call itself again ends. -/
def Operation.EndsOrAgain {α : Type} (op : Operation) (tr : Track) :
    Except ServiceError (Next Unit α) → Prop
  | .ok (.done _) => op.Returns tr
  | .ok (.again _) => tr.stage = .opening ∧ tr.entries = []
  | .error e => tr.Throws e

section expiration
open PointExpirationService
variable {config : PointExpirationService.Config} {userId requestId : String}

theorem follows_processUserExpiration (hstage : tr.stage = .opening) (hentries : tr.entries = []) :
    Follows (.expire userId) (fun tr r => (Operation.expire userId).EndsOrAgain tr r) tr
      (processUserExpiration config userId requestId) := by
  have hnone : (Operation.expire userId).Returns tr := .inr ⟨hstage, userId, rfl⟩
  refine follows_bind (follows_read trivial (fun _ => rfl) fun _ => ?_)
  refine follows_read trivial (fun _ => rfl) fun _ => follows_now fun now => ?_
  refine follows_ite (fun _ => hnone) fun _ => ?_
  apply follows_findWallet (follows_orThrow (fun _ => throws_opening (by exact hstage) _) nofun)
  intro w hw
  apply follows_orThrow nofun
  intro w' hw'
  obtain rfl : w = w' := Option.some.inj hw'
  refine follows_ite (fun _ => .inr ⟨hstage, userId, rfl⟩) fun hsome => ?_
  refine follows_updateWallet ⟨w, .head _, ⟨hw.symm, rfl⟩, ?_, hstage, hw, ?_, ?_⟩ ?_ fun _ => ?_
  · simp [WalletUpdate.apply, Wallet.post, Operation.delta, WalletUpdate.availableChange]
  · simpa [WalletUpdate.availableChange] using hsome
  · simp [WalletUpdate.availableChange]
  · exact ⟨by simp [hstage, Stage.userMissed], hentries⟩
  · refine follows_uuidv4 fun transactionId => follows_now fun timestamp => ?_
    have hposted : tr.stage.userPaid (.expire userId) = .posted := by simp [hstage, Stage.userPaid]
    refine follows_book hposted hentries (.head _) rfl ⟨hw.symm, rfl⟩ hw.symm rfl ?_ ?_
      (throws_posted hposted) fun tr' e hstage' h => .inl ⟨?_, h.booked rfl rfl⟩
    · rfl
    · simp only [expirationEntry, Operation.delta, WalletUpdate.availableChange, sub_eq_add_neg]
    · simp [hstage', Stage.Done]

end expiration

section adminOps
open AdminOpsService
variable {config : AdminOpsService.Config} {request : ManualAdjustmentRequest}

theorem follows_manualAdjustment (hstage : tr.stage = .opening) (hentries : tr.entries = []) :
    Follows (.adjust request) (fun tr r => (Operation.adjust request).EndsOrAgain tr r) tr
      (manualAdjustment config request) := by
  have hthrow := throws_opening hstage
  refine follows_bind (follows_throwIf (fun _ => hthrow _) fun _ => follows_check (hthrow _) ?_)
  refine follows_throwIf (fun _ => hthrow _) fun _ => follows_throwIf (fun _ => hthrow _) fun _ => ?_
  apply follows_throwIf (fun _ => hthrow _)
  intro hnonzero
  apply follows_findWallet (follows_orThrow (fun _ => throws_opening (by exact hstage) _) nofun)
  intro w hw
  apply follows_orThrow nofun
  intro w' hw'
  obtain rfl : w = w' := Option.some.inj hw'
  apply follows_throwIf (fun _ => throws_opening hstage _)
  intro hallowed
  refine follows_updateWallet ⟨w, .head _, ⟨hw.symm, rfl⟩, ?_, hstage, hw, ?_⟩ ?_ fun _ => ?_
  · simp [WalletUpdate.apply, Wallet.post, Operation.delta]
  · rw [not_and_or, not_lt, Bool.not_eq_false] at hallowed
    exact hallowed
  · exact ⟨by simp [hstage, Stage.userMissed], hentries⟩
  · refine follows_uuidv4 fun transactionId => follows_now fun timestamp => ?_
    have hposted : tr.stage.userPaid (.adjust request) = .posted := by simp [hstage, Stage.userPaid]
    refine follows_book hposted hentries (.head _) rfl ⟨hw.symm, rfl⟩ hw.symm rfl rfl rfl
      (throws_posted hposted) fun tr' e hstage' h => .inl ⟨?_, h.booked rfl rfl⟩
    simp [hstage', Stage.Done]

end adminOps

section redemption
open PointRedemptionService
variable {config : PointRedemptionService.Config} {wallet : WalletService.Config}
  {request : RedeemPointsRequest}

private theorem follows_checkBalance {op : Operation} {ends : Track → Except ServiceError Unit → Prop}
    (hthrow : ∀ tr' e, tr'.stage = tr.stage → ends tr' (.error e))
    (hok : ∀ tr', tr'.stage = tr.stage → tr'.entries = tr.entries → ends tr' (.ok ())) :
    Follows op ends tr (checkBalance config request) := by
  refine follows_ite (fun _ => ?_) fun _ => hok _ rfl rfl
  refine follows_bind (follows_findWallet ?_ fun w hw => ?_)
  · exact follows_check (hthrow _ _ rfl) (hok _ rfl rfl)
  · exact follows_check (hthrow _ _ rfl) (hok _ rfl rfl)

theorem follows_redeemPoints (hstage : tr.stage = .opening) (hentries : tr.entries = []) :
    Follows (.hold (escrowRequest request))
      (fun tr r => (Operation.hold (escrowRequest request)).Ends tr r) tr
      (redeemPoints config wallet request) := by
  have hthrow := throws_opening hstage
  refine follows_bind (follows_throwIf (fun _ => hthrow _) fun _ =>
    follows_throwIf (fun _ => hthrow _) fun _ => follows_check (hthrow _) ?_)
  refine follows_bind (follows_check (hthrow _) (follows_bind (follows_check (hthrow _) ?_)))
  refine follows_bind (follows_checkBalance (fun tr' e h => throws_opening (h.trans hstage) e)
    fun tr' hstage' hentries' => ?_)
  refine follows_bind ((follows_holdInEscrow (hstage'.trans hstage)
    (hentries'.trans hentries)).imp ?_)
  rintro tr'' (e | response) h
  · exact h
  · exact h

end redemption
end RedRoomRewards
