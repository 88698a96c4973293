import RedRoomRewards.Alone.Snapshot
import RedRoomRewards.Guarantees.BalanceLaw
import RedRoomRewards.Service.BurnCatalog
import Mathlib.Algebra.Order.Ring.Rat

/-! What a catalog redemption does to the member's ledger balance. The burn reaches
`creditPoints` as an award of a negative amount, which its own guard refuses. -/
namespace RedRoomRewards
open Process Store LedgerService BurnCatalogService

section balance

/-- The available balance that the ledger has for a user. -/
def Db.ledgerBalance (db : Db) (userId : String) : ℚ :=
  ((db.snapshotEntries userId .user).foldl StateBalances.assign {}).available

end balance

section redemption
variable (ledger : LedgerService.Config) (thresholds : WelfareGuardianScoreService.Thresholds)
variable (redemption : BurnRedemption) (os : ℕ → Oracle) (db : Db)

/-- A redemption the member can pay completes and takes exactly its price; another one
fails and leaves the ledger as it is. -/
def BurnsExactly : Prop :=
  let outcome := (redeemPoints ledger thresholds redemption).solo exec os db
  if redemption.pointsSpent ≤ db.ledgerBalance redemption.memberId then
    outcome.1.isOk = true ∧ outcome.2.ledgerBalance redemption.memberId =
      db.ledgerBalance redemption.memberId - redemption.pointsSpent
  else outcome.1.isOk = false ∧ outcome.2.ledger = db.ledger

/-- What the services throw at a redemption: the catalog's own complaints, or the guard of
the credit. -/
def BurnCatalogService.BurnRedemption.refusal : Message :=
  if redemption.memberId = "" then ["memberId is required for redemption"]
  else if isInteger redemption.pointsSpent = false ∨ redemption.pointsSpent ≤ 0 then
    ["pointsSpent must be a positive integer"]
  else if redemption.itemId = "" then ["itemId is required for redemption"]
  else ["creditPoints: amount must be positive, got ", (-redemption.pointsSpent : ℚ)]

/-- An award that is not positive gets past both checks and is refused as a credit. -/
private theorem award_refused {points : ℚ} (hpoints : points ≤ 0) (guestId reason : String) :
    (RedRoomLedgerService.awardPointsWithCompliance ledger thresholds guestId points reason).solo exec os db =
      (.error (.error ["creditPoints: amount must be positive, got ", points]), db) := by
  have hunscored : ¬ 1000 < points := not_lt.mpr (hpoints.trans (by decide))
  have hscore : RedRoomLedgerService.scoreAward thresholds guestId points reason = .ret () := if_neg hunscored
  have hcredit : creditPoints ledger ⟨guestId, points, "REDROOM_REWARDS", reason, none⟩ =
      .throw (.error ["creditPoints: amount must be positive, got ", points]) := by
    rw [creditPoints, Prog.throwIf_pos hpoints, Prog.throw_bind]
  rw [RedRoomLedgerService.awardPointsWithCompliance, hscore, hcredit]
  rfl

/-- No redemption completes, and none changes the store. -/
theorem redeemPoints_refused : (redeemPoints ledger thresholds redemption).solo exec os db =
    (.error (.error redemption.refusal), db) := by
  unfold redeemPoints BurnRedemption.refusal
  by_cases hmember : redemption.memberId = ""
  · rw [if_pos hmember, Prog.throwIf_pos hmember]
    rfl
  rw [if_neg hmember, Prog.throwIf_neg hmember, Prog.ret_bind]
  by_cases hprice : isInteger redemption.pointsSpent = false ∨ redemption.pointsSpent ≤ 0
  · rw [if_pos hprice, Prog.throwIf_pos hprice]
    rfl
  rw [if_neg hprice, Prog.throwIf_neg hprice, Prog.ret_bind]
  by_cases hitem : redemption.itemId = ""
  · rw [if_pos hitem, Prog.throwIf_pos hitem]
    rfl
  rw [if_neg hitem, Prog.throwIf_neg hitem, Prog.ret_bind]
  have hpositive : 0 < redemption.pointsSpent := not_le.mp fun h => hprice (.inr h)
  exact award_refused ledger thresholds os db (Left.neg_nonpos_iff.mpr hpositive.le) _ _

/-- A redemption does what it should exactly if the member cannot pay its price. Amounts are exact
and identifiers trimmed. -/
theorem burns_exactly_iff : BurnsExactly ledger thresholds redemption os db ↔
    db.ledgerBalance redemption.memberId < redemption.pointsSpent := by
  rw [BurnsExactly, redeemPoints_refused, ← not_le]
  by_cases hpays : redemption.pointsSpent ≤ db.ledgerBalance redemption.memberId
  · rw [if_pos hpays]
    exact ⟨fun h => absurd h.1 Bool.false_ne_true, fun h => absurd hpays h⟩
  · rw [if_neg hpays]
    exact ⟨fun _ => hpays, fun _ => ⟨rfl, rfl⟩⟩

end redemption

section scenario

def sampleBurn : BurnRedemption := ⟨"member-1", "item-42", 500, "PROMO"⟩

/-- The ledger of a member who has been credited 1000 points. -/
def creditedDb : Db :=
  ((creditPoints LedgerService.defaultConfig ⟨"member-1", 1000, "REDROOM_REWARDS", "signup", none⟩).solo exec
    (later 1) .empty).2

/-- A member with 1000 points cannot redeem an item for 500, with nothing out of order. -/
theorem redemption_refused : creditedDb.ledgerBalance "member-1" = 1000 ∧
    (redeemPoints LedgerService.defaultConfig WelfareGuardianScoreService.defaultThresholds sampleBurn).solo
      exec (later 100) creditedDb =
        (.error (.error ["creditPoints: amount must be positive, got ", (-500 : ℚ)]), creditedDb) ∧
    ¬ BurnsExactly LedgerService.defaultConfig WelfareGuardianScoreService.defaultThresholds sampleBurn
      (later 100) creditedDb := by
  have hbalance : creditedDb.ledgerBalance "member-1" = 1000 := by decide +kernel
  refine ⟨hbalance, redeemPoints_refused _ _ sampleBurn _ _, fun hburns => ?_⟩
  rw [BurnsExactly, redeemPoints_refused] at hburns
  have hpays : sampleBurn.pointsSpent ≤ creditedDb.ledgerBalance sampleBurn.memberId := by
    rw [show creditedDb.ledgerBalance sampleBurn.memberId = 1000 from hbalance]
    decide
  rw [if_pos hpays] at hburns
  exact absurd hburns.1 Bool.false_ne_true

end scenario
end RedRoomRewards
