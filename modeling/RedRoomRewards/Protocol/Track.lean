import RedRoomRewards.Service.Calls

/-! The protocol every call follows towards the shared documents: how far it has
got, and which command it may issue there. -/
namespace RedRoomRewards
open Process

/-- What a call does to balances and escrow items; a redemption is a hold. -/
inductive Operation where
  | hold (request : EscrowHoldRequest)
  | settle (request : EscrowSettleRequest)
  | refund (request : EscrowRefundRequest)
  | partialSettle (request : EscrowPartialSettleRequest)
  | award (request : AwardPointsRequest)
  | deduct (request : AwardPointsRequest)
  | expire (userId : String)
  | adjust (request : ManualAdjustmentRequest)
  | other

def Call.operation : Call → Operation
  | .hold request => .hold request
  | .settle request _ => .settle request
  | .refund request _ => .refund request
  | .partialSettle request _ => .partialSettle request
  | .award request => .award request
  | .deduct request => .deduct request
  | .expire userId _ => .expire userId
  | .adjust request => .adjust request
  | .redeem request => .hold (PointRedemptionService.escrowRequest request)
  | .other _ => .other

section deltas

def WalletUpdate.availableChange : WalletUpdate → ℚ
  | .inc a _ _ => a
  | .set .. => 0

def WalletUpdate.escrowChange : WalletUpdate → ℚ
  | .inc _ e _ => e
  | .set .. => 0

/-- By how much a committed wallet update moves `(availableBalance, escrowBalance)`.
The amount to expire and the escrow item's amount are those in its `$inc`. -/
def Operation.delta : Operation → WalletUpdate → ℚ × ℚ
  | hold request, _ => (-request.amount, request.amount)
  | settle request, _ => (0, -request.amount)
  | refund request, _ => (request.amount, -request.amount)
  | partialSettle request, u => (request.refundAmount, u.escrowChange)
  | award request, _ => (request.amount, 0)
  | deduct request, _ => (-request.amount, 0)
  | expire _, u => (u.availableChange, 0)
  | adjust request, _ => (request.amount, 0)
  | other, _ => 0

/-- By how much a committed model wallet update moves `earnedBalance`. -/
def Operation.earned : Operation → ℚ
  | settle request => request.amount
  | partialSettle request => request.settleAmount
  | _ => 0

/-- The wallet after an update that moves its balances by `d`. -/
def Wallet.post (w : Wallet) (d : ℚ × ℚ) : Wallet :=
  { w with
    availableBalance := w.availableBalance + d.1
    escrowBalance := w.escrowBalance + d.2
    version := w.version + 1 }

def ModelWallet.post (m : ModelWallet) (x : ℚ) : ModelWallet :=
  { m with earnedBalance := m.earnedBalance + x, version := m.version + 1 }

end deltas

section roles

/-- The idempotency key an escrow operation claims, with its scope. -/
def Operation.claim : Operation → Option (String × String)
  | hold request => some (request.idempotencyKey, "hold_escrow")
  | settle request => some (request.idempotencyKey, "settle_escrow")
  | refund request => some (request.idempotencyKey, "refund_escrow")
  | partialSettle request => some (request.idempotencyKey, "partial_settle_escrow")
  | _ => none

/-- The escrow item an operation closes. -/
def Operation.target : Operation → Option String
  | settle request => some request.escrowId
  | refund request => some request.escrowId
  | partialSettle request => some request.escrowId
  | _ => none

/-- The status that marks an item as being closed by the operation. -/
def Operation.lockStatus : Operation → EscrowStatus
  | refund _ => .refunding
  | partialSettle _ => .partialSettling
  | _ => .settling

/-- The status in which the operation leaves a closed item. -/
def Operation.finalStatus : Operation → EscrowStatus
  | refund _ => .refunded
  | _ => .settled

def Operation.isPartial : Operation → Bool
  | partialSettle _ => true
  | _ => false

end roles

/-- How far a call has got. `halfway` says that one of two balances has moved. -/
inductive Stage where
  /-- No key claimed, nothing changed. -/
  | opening
  /-- The key is claimed. -/
  | ready
  /-- A hold has stored its item; the wallet is not debited yet. -/
  | created (item : EscrowItem)
  /-- The debit of a hold lost the race; its item is still stored. -/
  | conflicted (item : EscrowItem)
  /-- A hold has debited the wallet. -/
  | charged (item : EscrowItem)
  /-- The item is locked; no balance has moved. -/
  | locked (item : EscrowItem)
  /-- A settlement has credited the model, not yet debited the user. -/
  | credited (item : EscrowItem)
  /-- A partial settlement has updated the user's wallet, not yet the model's. -/
  | debited (item : EscrowItem)
  /-- Every balance has moved; the item is still locked. -/
  | paid (item : EscrowItem)
  /-- A guarded update lost the race; the item is about to be reopened. -/
  | beaten (item : EscrowItem) (halfway : Bool)
  | reopened (item : EscrowItem) (halfway : Bool)
  | closed (item : EscrowItem)
  /-- An award, deduction, expiration or adjustment is committed. -/
  | posted

namespace Stage

/-- After a user wallet update that committed. -/
def userPaid (op : Operation) : Stage → Stage
  | created i => charged i
  | locked i => if op.isPartial then debited i else paid i
  | credited i => paid i
  | opening => posted
  | s => s

/-- After a user wallet update that found another version. -/
def userMissed : Stage → Stage
  | created i => conflicted i
  | locked i => beaten i false
  | credited i => beaten i true
  | s => s

def modelPaid : Stage → Stage
  | locked i => credited i
  | debited i => paid i
  | s => s

def modelMissed : Stage → Stage
  | debited i => beaten i true
  | s => s

/-- After the update that gives up a lock. -/
def unlocked : Stage → Stage
  | beaten i halfway => reopened i halfway
  | paid i => closed i
  | s => s

/-- The balances have moved and the item, if any, is in its final status. -/
def Done : Stage → Prop
  | charged _ | closed _ | posted => True
  | _ => False

end Stage

/-- What a call has seen and done so far; lists have the newest first. -/
structure Track where
  ids : List String := []
  wallets : List Wallet := []
  models : List ModelWallet := []
  /-- Some user has no wallet. -/
  missing : Bool := false
  stage : Stage := .opening
  committed : Option (WalletFilter × WalletUpdate) := none
  entries : List LedgerEntry := []
  duplicated : Bool := false

namespace Track
variable (op : Operation) (tr : Track)

def sawWallet (r : Option Wallet) : Track := { tr with wallets := r.toList ++ tr.wallets }

def sawModel (r : Option ModelWallet) : Track := { tr with models := r.toList ++ tr.models }

def updatedWallet (f : WalletFilter) (u : WalletUpdate) (r : Option Wallet) : Track :=
  { tr with
    stage := match r with
      | some _ => tr.stage.userPaid op
      | none => tr.stage.userMissed
    committed := match r with
      | some _ => some (f, u)
      | none => tr.committed }

def updatedModel (r : Option ModelWallet) : Track :=
  { tr with stage := match r with
    | some _ => tr.stage.modelPaid
    | none => tr.stage.modelMissed }

def wroteEntry (r : Except MongoError LedgerEntry) : Track :=
  { tr with
    entries := r.toOption.toList ++ tr.entries
    duplicated := match r with
      | .ok _ => tr.duplicated
      | .error e => tr.duplicated || e = .duplicateKey ["idempotencyKey"] }

def claimed (r : Except MongoError IdempotencyRecord) : Track :=
  { tr with stage := match r with
    | .ok _ => .ready
    | .error _ => tr.stage }

def createdItem (r : Except MongoError EscrowItem) : Track :=
  { tr with stage := match r with
    | .ok i => .created i
    | .error _ => tr.stage }

def lockedItem (r : Option EscrowItem) : Track :=
  { tr with stage := match r with
    | some i => .locked i
    | none => tr.stage }

/-- What one command and its reply add. -/
def after : (c : Cmd) → c.Reply → Track
  | .createIdempotencyRecord _, r => tr.claimed r
  | .findWallet _, r => { tr.sawWallet r with missing := r.isNone || tr.missing }
  | .createWallet _, r => tr.sawWallet (Except.toOption r)
  | .updateWallet f u, r => tr.updatedWallet op f u r
  | .findModelWallet _, r => tr.sawModel r
  | .createModelWallet _, r => tr.sawModel (Except.toOption r)
  | .updateModelWallet _ _, r => tr.updatedModel r
  | .createEscrowItem _, r => tr.createdItem r
  | .lockEscrowItem .., r => tr.lockedItem r
  | .updateEscrowItem .., _ => { tr with stage := tr.stage.unlocked }
  | .deleteEscrowItem _, _ => { tr with stage := .ready }
  | .createLedgerEntry _, r => tr.wroteEntry r
  | .uuidv4, r => { tr with ids := r :: tr.ids }
  | .findIdempotencyRecord .., _ | .findIdempotencyResult .., _ | .findEscrowItem _, _
  | .findLedgerEntry _, _ | .findLedgerEntries .., _ | .countLedgerEntries _, _
  | .listLedgerEntries .., _ | .now, _ | .publish _, _ => tr

end Track

section permits

def WalletFilter.Reads (f : WalletFilter) (w : Wallet) : Prop :=
  f.userId = w.userId ∧ f.version = w.version

def ModelWalletFilter.Reads (f : ModelWalletFilter) (m : ModelWallet) : Prop :=
  f.modelId = m.modelId ∧ f.version = m.version

/-- An entry of a user's available bucket. -/
def LedgerEntry.OfAvailable (e : LedgerEntry) : Prop :=
  e.accountType = .user ∧ e.balanceState = .available

/-- The entry says that the available balance of `w` moved by `x`. -/
def LedgerEntry.Books (e : LedgerEntry) (w : Wallet) (x : ℚ) : Prop :=
  e.accountId = w.userId ∧ e.balanceBefore = w.availableBalance ∧ e.amount = x ∧
    e.balanceAfter = w.availableBalance + x

variable (tr : Track)

/-- When an operation may update the user wallet it has read as `w`. -/
def Operation.MayPay (w : Wallet) (u : WalletUpdate) : Operation → Prop
  | hold request => (∃ i, tr.stage = .created i) ∧ w.userId = request.userId ∧
      request.amount ≤ w.availableBalance
  | settle _ => ∃ i, tr.stage = .credited i ∧ w.userId = i.userId
  | refund request => (∃ i, tr.stage = .locked i) ∧ w.userId = request.userId
  | partialSettle request => ∃ i, tr.stage = .locked i ∧ w.userId = request.userId ∧
      WalletService.missedBy request.refundAmount request.settleAmount i.amount ≤ Arithmetic.double (1 / 100) ∧ u.escrowChange = -i.amount
  | award request => tr.stage = .opening ∧ w.userId = request.userId ∧ 0 < request.amount
  | deduct request => tr.stage = .opening ∧ w.userId = request.userId ∧ 0 < request.amount ∧
      request.amount ≤ w.availableBalance
  | expire userId => tr.stage = .opening ∧ w.userId = userId ∧ u.availableChange < 0 ∧
      -u.availableChange ≤ w.availableBalance
  | adjust request => tr.stage = .opening ∧ w.userId = request.userId ∧
      (0 ≤ w.availableBalance + request.amount ∨ AdminOpsService.allowNegative request = true)
  | other => False

/-- When an operation may update a model wallet. -/
def Operation.MayCredit (m : ModelWallet) : Operation → Prop
  | settle request => (∃ i, tr.stage = .locked i) ∧ m.modelId = request.modelId
  | partialSettle request => (∃ i, tr.stage = .debited i) ∧ m.modelId = request.modelId
  | _ => False

/-- When an operation may create a user wallet. -/
def Operation.MayOpen : Operation → Prop
  | hold _ => tr.stage = .ready
  | award _ => tr.stage = .opening
  | _ => False

def Operation.MayCreate (i : EscrowItem) : Operation → Prop
  | hold request => tr.stage = .ready ∧ i.userId = request.userId ∧ i.amount = request.amount ∧
      i.queueItemId = request.queueItemId ∧ i.status = .held ∧ i.escrowId ∈ tr.ids
  | _ => False

/-- When an operation may give up its lock on an item. -/
def Operation.MayUnlock (op : Operation) (escrowId : String) (u : EscrowItemUpdate) : Prop :=
  op.target = some escrowId ∧
    ((∃ i halfway, tr.stage = .beaten i halfway ∧ i.escrowId = escrowId ∧ u.status = .held) ∨
      ∃ i, tr.stage = .paid i ∧ i.escrowId = escrowId ∧ u.status = op.finalStatus)

/-- When an operation may write a ledger entry. -/
def Operation.MayBook (op : Operation) (e : LedgerEntry) : Prop :=
  tr.stage.Done ∧ (e.OfAvailable → (∀ e' ∈ tr.entries, ¬ e'.OfAvailable) ∧
    ∃ w ∈ tr.wallets, ∃ f u, tr.committed = some (f, u) ∧ f.Reads w ∧ e.Books w (op.delta u).1)

/-- The commands an operation may issue; reads are always allowed. -/
def Operation.Permits (op : Operation) : Cmd → Prop
  | .createIdempotencyRecord r => tr.stage = .opening ∧ op.claim = some r.claim
  | .createWallet w => op.MayOpen tr ∧ ∃ currency userId, w = WalletService.newWallet currency userId
  | .updateWallet f u =>
    ∃ w ∈ tr.wallets, f.Reads w ∧ u.apply w = w.post (op.delta u) ∧ op.MayPay tr w u
  | .createModelWallet m => (∃ i, tr.stage = .locked i) ∧
      ∃ currency modelId, m = WalletService.newModelWallet currency modelId
  | .updateModelWallet f u =>
    ∃ m ∈ tr.models, f.Reads m ∧ u.apply m = m.post op.earned ∧ op.MayCredit tr m
  | .createEscrowItem i => op.MayCreate tr i
  | .lockEscrowItem escrowId status _ =>
    tr.stage = .ready ∧ op.target = some escrowId ∧ status = op.lockStatus
  | .updateEscrowItem escrowId u => op.MayUnlock tr escrowId u
  | .deleteEscrowItem escrowId => ∃ i, tr.stage = .conflicted i ∧ i.escrowId = escrowId
  | .createLedgerEntry e => op.MayBook tr e
  | _ => True

/-- The call has written the available entry it owes, or its key was taken. -/
def Operation.Booked (op : Operation) : Prop :=
  match op with
  | settle _ | partialSettle _ | other => True
  | _ => tr.duplicated = true ∨ ∃ e ∈ tr.entries, e.OfAvailable

def ServiceError.OfLedger : ServiceError → Prop
  | ledger _ => True
  | _ => False

/-- What holds when an operation returns. -/
def Operation.Returns (op : Operation) : Prop :=
  (tr.stage.Done ∧ op.Booked tr) ∨ (tr.stage = .opening ∧ ∃ userId, op = .expire userId)

/-- What holds when an operation throws. -/
def Track.Throws (e : ServiceError) : Prop :=
  match tr.stage with
  | .opening | .ready | .locked _ | .reopened .. => True
  | .credited _ => tr.missing = true
  | .charged _ | .closed _ | .posted => e.OfLedger
  | .created _ | .conflicted _ | .debited _ | .paid _ | .beaten .. => False

end permits
end RedRoomRewards
