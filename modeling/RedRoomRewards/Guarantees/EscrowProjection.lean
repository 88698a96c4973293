import RedRoomRewards.Alone.Escrow
import RedRoomRewards.Guarantees.Retry

/-! The escrow bucket of the ledger beside the escrow balance of the wallet, over calls
made one after the other. -/
namespace RedRoomRewards
open Process Store

section condition
variable (config : Config) (db : Db)

/-- The idempotency keys of the ledger entries of an escrow operation. -/
def Call.entryKeys : Call → List String
  | .hold request => [trim (request.idempotencyKey ++ "_debit"), trim (request.idempotencyKey ++ "_credit")]
  | .settle request _ => [trim request.idempotencyKey]
  | .refund request _ => [trim request.idempotencyKey]
  | .partialSettle request _ =>
    [trim (request.idempotencyKey ++ "_refund"), trim (request.idempotencyKey ++ "_settle")]
  | _ => []

/-- The request names the user and the amount of the item it closes. -/
def Call.MatchesItem : Call → Prop
  | .hold _ => True
  | .settle request _ => ∃ i, db.escrowItems.find request.escrowId = some i ∧ request.amount = i.amount
  | .refund request _ => ∃ i, db.escrowItems.find request.escrowId = some i ∧
      request.userId = i.userId ∧ request.amount = i.amount
  | .partialSettle request _ => ∃ i, db.escrowItems.find request.escrowId = some i ∧
      request.userId = i.userId ∧ request.refundAmount + request.settleAmount = i.amount
  | _ => False

/-- A call that returns, of an escrow operation that matches its item and whose keys are
new; its entries are stamped later than all before. -/
structure Proper (call : Call) (os : ℕ → Oracle) : Prop where
  escrow : call.isEscrowRequest = true
  matching : call.MatchesItem db
  fresh : ∀ e ∈ db.ledger.docs, e.idempotencyKey ∉ call.entryKeys
  returns : ((call.body config).solo exec os db).1.isOk = true
  stamped : Stamped ((call.body config).solo exec os db).2.ledger.docs

/-- The call takes nothing out of escrow: it is a hold, or closes an item of amount 0. -/
def Call.TakesNothing (call : Call) : Prop :=
  ∀ escrowId, call.operation.target = some escrowId →
    ∀ i, db.escrowItems.find escrowId = some i → i.amount = 0

/-- The proper calls that take nothing out of escrow. -/
def Filling (call : Call) (os : ℕ → Oracle) : Prop := Proper config db call os ∧ call.TakesNothing db

end condition

section projection

/-- The sum of the entries of a user's escrow bucket. -/
def Db.bookedEscrow (db : Db) (userId : String) : ℚ :=
  ((db.entriesOf userId .user .escrow).map LedgerEntry.amount).sum

/-- The escrow balance in a user's snapshot. -/
def Db.snapshotEscrow (db : Db) (config : LedgerService.Config) (os : ℕ → Oracle) (userId : String) : Option ℚ :=
  ((LedgerService.getBalanceSnapshot config userId .user none none).solo exec os db).1.toOption.bind
    (·.escrowBalance)

/-- The ledger and the wallet agree on a user's escrow balance, and on what has been added
to it since `d`. -/
structure EscrowProjected (d db : Db) (userId : String) : Prop where
  snapshot : ∀ config os, db.snapshotEscrow config os userId = some (db.balances userId).2
  entries : db.bookedEscrow userId - d.bookedEscrow userId = (db.balances userId).2 - (d.balances userId).2

variable {d db db' : Db} {userId : String}

private theorem snapshotEscrow_eq (hstamped : Stamped db.ledger.docs) (config : LedgerService.Config)
    (os : ℕ → Oracle) : db.snapshotEscrow config os userId =
      some (lastBalance (db.entriesOf userId .user .escrow)) := by
  have hlast := snapshotEntries_of (.refl (db.entriesOf userId .user .escrow))
    (hstamped.sublist List.filter_sublist)
  exact congrArg some hlast

/-- With entries stamped in the order of the ledger, the snapshot is the last entry's. -/
theorem escrowProjected_iff (hstamped : Stamped db.ledger.docs) : EscrowProjected d db userId ↔
    lastBalance (db.entriesOf userId .user .escrow) = (db.balances userId).2 ∧
      db.bookedEscrow userId - d.bookedEscrow userId = (db.balances userId).2 - (d.balances userId).2 := by
  constructor
  · intro h
    have hsnapshot := h.snapshot LedgerService.defaultConfig tick
    rw [snapshotEscrow_eq hstamped] at hsnapshot
    exact ⟨Option.some.inj hsnapshot, h.entries⟩
  · rintro ⟨hlast, hentries⟩
    exact ⟨fun config os => by rw [snapshotEscrow_eq hstamped, hlast], hentries⟩

/-- A hold books what it adds to escrow. -/
private theorem projected_of_hold {request : EscrowHoldRequest} (hstamped : Stamped db'.ledger.docs)
    (h : EscrowProjected d db userId) (hdone : HoldDone request db db') : EscrowProjected d db' userId := by
  obtain ⟨debit, credit, hdocs, hdebit, ⟨htype, hstate⟩, haccount, hamount, hafter⟩ := hdone.entries
  have hbefore : Stamped db.ledger.docs := hstamped.sublist (hdocs ▸ List.sublist_append_left _ _)
  obtain ⟨hlast, hbooked⟩ := (escrowProjected_iff hbefore).mp h
  have hnot : ¬ (debit.accountType = .user ∧ debit.balanceState = .escrow) := hdebit
  apply (escrowProjected_iff hstamped).mpr
  by_cases hid : userId = request.userId
  · subst hid
    have hentries : db'.entriesOf request.userId .user .escrow =
        db.entriesOf request.userId .user .escrow ++ [credit] := by
      simp [Db.entriesOf, hdocs, hnot, htype, hstate, haccount]
    rw [Db.bookedEscrow, hentries, hdone.balances]
    refine ⟨?_, ?_⟩
    · simp [lastBalance, hafter]
    · rw [List.map_append, List.sum_append, List.map_singleton, List.sum_singleton, hamount, Prod.snd_add,
        add_sub_right_comm]
      rw [Db.bookedEscrow] at hbooked
      rw [hbooked]
      abel
  · have hentries : db'.entriesOf userId .user .escrow = db.entriesOf userId .user .escrow := by
      simp [Db.entriesOf, hdocs, hnot, htype, hstate, haccount, Ne.symm hid]
    rw [Db.bookedEscrow, hentries, hdone.others userId hid]
    exact ⟨hlast, hbooked⟩

/-- What leaves the escrow bucket as it is keeps the two views equal. -/
private theorem projected_of_same (hstamped : Stamped db'.ledger.docs) (hbefore : Stamped db.ledger.docs)
    (h : EscrowProjected d db userId) (hsame : SameEscrow db db') : EscrowProjected d db' userId := by
  obtain ⟨hlast, hbooked⟩ := (escrowProjected_iff hbefore).mp h
  apply (escrowProjected_iff hstamped).mpr
  rw [Db.bookedEscrow, hsame.entries, hsame.balances]
  exact ⟨hlast, hbooked⟩

end projection

section runs
variable {config : Config} {d db : Db}

/-- One call after the other, each proper and taking nothing out of escrow. -/
abbrev EscrowRun (config : Config) (A : Db → Call → (ℕ → Oracle) → Prop) (d db : Db) : Prop :=
  Prog.Sequential exec (Call.body config) A d db

private theorem alone_returning {α : Type} {fair : Oracle → Prop} {Q : Db → Prop} {response : α → Response}
    {p : Service α} (h : Alone fair (fun r db' => ∀ a, r = .ok a → Q db') p db) :
    Alone fair (fun r db' => r.isOk = true → Q db') (returning response p) db := by
  refine alone_bind (h.imp ?_)
  rintro (e | a) db' hr
  · exact nofun
  · exact fun _ => hr a rfl

/-- A call that takes nothing out of escrow keeps the ledger's escrow bucket equal to the
wallets'. -/
private theorem projected_of_call {call : Call} {os : ℕ → Oracle} (hproper : Proper config db call os)
    (hnothing : call.TakesNothing db) (hbefore : Stamped db.ledger.docs)
    (h : ∀ userId, EscrowProjected d db userId) (userId : String) :
    EscrowProjected d ((call.body config).solo exec os db).2 userId := by
  have hsolo : ∀ {Q : Db → Prop}, Alone (fun _ => True) (fun r db' => r.isOk = true → Q db')
      (call.body config) db → Q ((call.body config).solo exec os db).2 :=
    fun hQ => hQ.always os hproper.returns
  have hclosing : ∀ {α : Type} {response : α → Response} {p : Service α},
      call.body config = returning response p → Alone (fun _ => True) (fun _ db' => SameEscrow db db') p db →
        EscrowProjected d ((call.body config).solo exec os db).2 userId := by
    intro α response p hbody hp
    refine projected_of_same hproper.stamped hbefore (h userId) (hsolo ?_)
    rw [hbody]
    exact alone_returning (hp.imp fun _ _ hsame _ _ => hsame)
  cases call with
  | hold request =>
    have hfresh : FreshKeys request db := fun e he => by
      simpa [Call.entryKeys] using hproper.fresh e he
    exact projected_of_hold hproper.stamped (h userId)
      (hsolo (alone_returning (alone_holdInEscrow hfresh)))
  | settle request authorization =>
    obtain ⟨i, hi, hamount⟩ := hproper.matching
    exact hclosing rfl (alone_settle_nothing (hamount.trans (hnothing _ rfl i hi)) authorization)
  | refund request authorization =>
    obtain ⟨i, hi, -, hamount⟩ := hproper.matching
    exact hclosing rfl (alone_refund_nothing (hamount.trans (hnothing _ rfl i hi)) authorization)
  | partialSettle request authorization =>
    exact hclosing rfl (alone_partialSettle_nothing (hnothing _ rfl) authorization)
  | award _ | deduct _ | expire _ _ | adjust _ | redeem _ | other _ => cases hproper.escrow

end runs

section scenario

/-- The store after a call made alone. -/
def Db.afterCall (db : Db) (call : Call) (os : ℕ → Oracle) : Db :=
  ((call.body (defaultConfig fun _ => none)).solo exec os db).2

def emptyItem : EscrowItem := { sampleItem with amount := 0 }

def emptyItemDb : Db := { fundedDb with escrowItems := Collection.empty.insert emptyItem }

def emptySettle : Call := .settle { sampleSettle with amount := 0 } sampleAuthorization

/-- The settlement of the item that `sampleHold` creates. -/
def settleHold : Call :=
  .settle { sampleSettle with escrowId := "id-4", amount := 30, queueItemId := "queue-1" } sampleAuthorization

/-- What is to be checked of a call once it has been made. -/
private theorem proper_of_call {config : Config} {db : Db} {call : Call} {os : ℕ → Oracle}
    (hescrow : call.isEscrowRequest = true) (hmatching : call.MatchesItem db)
    (hmade : (∀ e ∈ db.ledger.docs, e.idempotencyKey ∉ call.entryKeys) ∧
      ((call.body config).solo exec os db).1.isOk = true ∧ Stamped ((call.body config).solo exec os db).2.ledger.docs) :
    Proper config db call os :=
  ⟨hescrow, hmatching, hmade.1, hmade.2.1, hmade.2.2⟩

private theorem projected_at_first (userId : String) (items : EscrowItems) :
    EscrowProjected { fundedDb with escrowItems := items } { fundedDb with escrowItems := items } userId := by
  have hstamped : Stamped (Db.ledger { fundedDb with escrowItems := items }).docs := .nil
  refine (escrowProjected_iff hstamped).mpr ⟨?_, by rw [sub_self, sub_self]⟩
  have hescrow : ∀ w ∈ fundedDb.wallets.docs, w.escrowBalance = 0 := by decide +kernel
  show (0 : ℚ) = ((fundedDb.wallets.find userId).elim 0 fun w => (w.availableBalance, w.escrowBalance)).2
  cases hfind : fundedDb.wallets.find userId with
  | none => rfl
  | some w => exact (hescrow w (Collection.mem_of_find hfind)).symm

end scenario
end RedRoomRewards
