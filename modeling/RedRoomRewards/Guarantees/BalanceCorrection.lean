import RedRoomRewards.Alone.Points
import RedRoomRewards.Alone.Snapshot
import Mathlib.Tactic.Linarith

/-! The correction of a wallet that does not agree with the ledger: it changes the ledger
as well, by the same amount. -/
namespace RedRoomRewards
open Process Store LedgerService AdminOpsService

section correction
variable {config : AdminOpsService.Config} {request : BalanceCorrectionRequest} {db db' : Db}

/-- The wallet has what the ledger has. -/
def Db.WalletAgrees (db : Db) (userId : String) : Prop :=
  (db.balances userId).1 = db.bookedIn userId .user .available

/-- The key of the entry of a correction, as the ledger stores it. -/
def AdminOpsService.BalanceCorrectionRequest.key (request : BalanceCorrectionRequest) : String :=
  trim ("admin-adjustment-" ++ request.admin.adminId ++ "-" ++ request.userId ++ "-" ++ request.requestId)

/-- The request states the balances as they are: the wallet's, and what the ledger has. -/
structure AdminOpsService.BalanceCorrectionRequest.States (request : BalanceCorrectionRequest) (db : Db) : Prop where
  expected : request.expectedBalance = db.bookedIn request.userId .user .available
  actual : request.actualBalance = (db.balances request.userId).1

/-- What a correction has done: the wallet has the expected balance, and the ledger an entry
of the correction, unless it had one under its key. -/
private structure Corrected (request : BalanceCorrectionRequest) (db db' : Db) : Prop where
  differs : request.expectedBalance ≠ request.actualBalance
  wallet : (db'.balances request.userId).1 =
    (db.balances request.userId).1 + (request.expectedBalance - request.actualBalance)
  ledger : (∃ e ∈ db.ledger.docs, e.idempotencyKey = request.key) ∧ db'.ledger = db.ledger ∨
    (∀ e ∈ db.ledger.docs, e.idempotencyKey ≠ request.key) ∧
      db'.bookedIn request.userId .user .available =
        db.bookedIn request.userId .user .available + (request.expectedBalance - request.actualBalance)

private theorem alone_correctBalance {fair : Oracle → Prop} :
    Alone fair (fun r db' => ∀ a, r = .ok (.done a) → Corrected request db db') (correctBalance config request) db := by
  refine alone_bind (alone_validateAdminAuth (fun _ => ?_) fun _ _ _ h => by cases h)
  refine alone_throwIf (fun _ _ h => by cases h) fun hdiffers => alone_bind ?_
  apply alone_manualAdjustment (fun _ _ _ h => by cases h)
  intro _ w hfind
  have hw : db.wallets.find request.userId = some w := hfind
  have hwallet : ∀ db' : Db,
      db'.wallets = (db.posting db.wallets request.userId request.adjustment.amount).wallets →
        (db'.balances request.userId).1 =
          (db.balances request.userId).1 + (request.expectedBalance - request.actualBalance) := by
    intro db' hwallets
    rw [Db.balances, hwallets, Db.posting_find _ hw, Db.balances, hw]
    rfl
  refine alone_booking (fun id t e he hfree => ?_) (fun id t e he hkey => ?_) fun _ _ h => by cases h
  · have hdocs : { db.posting db.wallets request.userId request.adjustment.amount with
        ledger := db.ledger.insert e }.ledger.docs = db.ledger.docs ++ [e] := Collection.docs_insert hfree
    have hnew : ∀ e ∈ db.ledger.docs, e.idempotencyKey ≠ request.key := by
      obtain ⟨_, _, _, _, _, rfl⟩ := he
      exact hfree.2
    have hbooked := bookedIn_append hdocs request.userId .user .available
    obtain ⟨_, _, _, _, _, rfl⟩ := he
    rw [if_pos ⟨rfl, rfl, rfl⟩] at hbooked
    exact fun a _ => ⟨fun h => hdiffers (sub_eq_zero.mpr h), hwallet _ rfl, .inr ⟨hnew, hbooked⟩⟩
  · exact fun a _ => ⟨fun h => hdiffers (sub_eq_zero.mpr h), hwallet _ rfl, .inl ⟨⟨e, he, hkey⟩, rfl⟩⟩

end correction

section scenario

def sampleCorrection (expectedBalance actualBalance : ℚ) : BalanceCorrectionRequest where
  userId := "user-1"
  expectedBalance := expectedBalance
  actualBalance := actualBalance
  reason := "wallet drift"
  admin := ⟨"admin-1", "admin", ["admin"], none⟩
  requestId := "request-1"

/-- The balance in the response to a correction, if there is one. -/
def correctedBalance : Except ServiceError (Next Unit BalanceCorrectionResponse) → Option ℚ
  | .ok (.done a) => some a.newBalance
  | _ => none

/-- The ledger has one entry of 40 points, of a correction; the wallet has 100. -/
def correctedDb : Db :=
  { fundedDb with
    ledger := Collection.empty.insert
      ((adjustmentEntry AdminOpsService.defaultConfig (sampleCorrection 40 0).adjustment
        ⟨"user-1", 0, 0, "points", 0⟩ "id-1").entryDoc LedgerService.defaultConfig "id-0" "id-1" "id-1" .adminCredit 0) }

end scenario
end RedRoomRewards
