import RedRoomRewards.Service.Ledger

/-! Burns against the catalog: the age and welfare checks, and the credit they guard. -/
namespace RedRoomRewards
open Process Prog

namespace GateGuardAVService

structure GateGuardAVResult where
  verified : Bool
  verifiedAt : Time
  method : String
  confidenceScore : ℕ

/-- The source's stub: it verifies every account. -/
def verifyAccount (_guestId : String) : Service GateGuardAVResult := do
  let verifiedAt : Time ← issue .now
  pure ⟨true, verifiedAt, "GATEGUARD", 98⟩

end GateGuardAVService

namespace WelfareGuardianScoreService

inductive WgsAction where
  | pass
  | review
  | softDecline
  | hardDecline
  deriving DecidableEq

inductive WgsWelfareTier where
  | low
  | medium
  | high
  | critical
  deriving DecidableEq

structure WgsScoreRequest where
  transactionId : String
  guestId : String
  amountCzt : ℚ
  context : Metadata

structure WgsScoreResponse where
  fraudRisk : ℕ
  welfareRisk : ℕ
  welfareTier : WgsWelfareTier
  action : WgsAction
  deriving DecidableEq

/-- The environment can override the three upper ones of the rule table. -/
structure Thresholds where
  medium : ℚ
  high : ℚ
  critical : ℚ

def defaultThresholds : Thresholds := ⟨5000, 10000, 25000⟩

def scoreTransaction (thresholds : Thresholds) (req : WgsScoreRequest) : WgsScoreResponse :=
  let amount := req.amountCzt
  if thresholds.critical ≤ amount then ⟨80, 90, .critical, .hardDecline⟩
  else if thresholds.high ≤ amount then ⟨55, 65, .high, .softDecline⟩
  else if thresholds.medium ≤ amount then ⟨30, 40, .medium, .review⟩
  else if 1000 ≤ amount then ⟨15, 22, .low, .pass⟩
  else ⟨5, 10, .low, .pass⟩

end WelfareGuardianScoreService

namespace RedRoomLedgerService
open WelfareGuardianScoreService

variable (ledger : LedgerService.Config) (thresholds : Thresholds)

/-- Only an award of more than 1000 points is scored. -/
def scoreAward (guestId : String) (points : ℚ) (reason : String) : Service Unit :=
  if 1000 < points then do
    let now : Time ← issue .now
    let wgsResult := scoreTransaction thresholds {
      transactionId := "rr-" ++ toString now
      guestId := guestId
      amountCzt := points
      context := [("reason", .str reason), ("source", .str "RedRoomRewards")] }
    throwIf (wgsResult.action = .hardDecline) (.error ["Transaction blocked by Welfare Guardian Score"])
  else pure ()

def awardPointsWithCompliance (guestId : String) (points : ℚ) (reason : String) : Service Bool := do
  let avResult ← GateGuardAVService.verifyAccount guestId
  throwIf (avResult.verified = false) (.error ["18+ verification required - blocked"])
  scoreAward thresholds guestId points reason
  LedgerService.creditPoints ledger ⟨guestId, points, "REDROOM_REWARDS", reason, none⟩

end RedRoomLedgerService

namespace BurnCatalogService
open WelfareGuardianScoreService

structure BurnRedemption where
  memberId : String
  itemId : String
  pointsSpent : ℚ
  reason : String

/-- `Number.isInteger(n)`. -/
def isInteger (n : ℚ) : Bool := n.den = 1

/-- A burn is an award of a negative number of points. -/
def redeemPoints (ledger : LedgerService.Config) (thresholds : Thresholds) (redemption : BurnRedemption) :
    Service Bool := do
  throwIf (redemption.memberId = "") (.error ["memberId is required for redemption"])
  throwIf (isInteger redemption.pointsSpent = false ∨ redemption.pointsSpent ≤ 0)
    (.error ["pointsSpent must be a positive integer"])
  throwIf (redemption.itemId = "") (.error ["itemId is required for redemption"])
  RedRoomLedgerService.awardPointsWithCompliance ledger thresholds redemption.memberId (-redemption.pointsSpent)
    ("BURN_" ++ redemption.itemId ++ "_" ++ redemption.reason)

end BurnCatalogService
end RedRoomRewards
