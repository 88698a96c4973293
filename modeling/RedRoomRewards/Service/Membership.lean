import RedRoomRewards.Service.BurnCatalog
import RedRoomRewards.Text.RegExp

/-! What members and merchants start from: the tiers, the signup with its welcome bonus, and
the upload of a merchant's awards. -/
namespace RedRoomRewards
open Process Prog

namespace TierEngineService

inductive RedRoomTier where
  | redDesire
  | redPassion
  | redObsession
  | redReign
  deriving DecidableEq

structure TierProgress where
  currentTier : RedRoomTier
  pointsToNextTier : ℚ
  vibeDescription : String

def tierThresholds : RedRoomTier → ℚ
  | .redDesire => 0
  | .redPassion => 5000
  | .redObsession => 25000
  | .redReign => 100000

def vibeDescriptions : RedRoomTier → String
  | .redDesire => "Heartbeat — alive in the program"
  | .redPassion => "Emotionally invested"
  | .redObsession => "Deep craving, committed"
  | .redReign => "All-in — the most devoted members"

/-- From the lowest threshold to the highest. -/
def orderedTiers : List RedRoomTier := [.redDesire, .redPassion, .redObsession, .redReign]

/-- The loop over the tiers, which stops at the first one that is not reached; the tier that
follows a tier is the head of what is left of the list. -/
def tierLoop (effective : ℚ) : List RedRoomTier → RedRoomTier × ℚ → RedRoomTier × ℚ
  | [], found => found
  | tier :: rest, found =>
    if tierThresholds tier ≤ effective then
      tierLoop effective rest (tier, rest.head?.elim 0 fun nextTier => tierThresholds nextTier - effective)
    else found

def calculateTier (totalPoints : ℚ) : TierProgress :=
  let effective := max 0 totalPoints
  let (currentTier, pointsToNextTier) := tierLoop effective orderedTiers (.redDesire, 0)
  ⟨currentTier, pointsToNextTier, vibeDescriptions currentTier⟩

end TierEngineService

namespace LedgerService

/-- The days until expiry are not looked at. -/
def awardPromotionalPoints (config : Config) (creatorId : String) (points : ℚ) (source reason : String)
    (_expiryDays : Option ℚ) : Service Bool := creditPoints config ⟨creatorId, points, source, reason, none⟩

end LedgerService

namespace AwardingWalletService

structure AwardingWalletUploadRow where
  creatorId : String
  points : ℚ
  reason : String
  expiryDays : Option ℚ

/-- The number of a row and the error whose message is reported for it. -/
structure UploadError where
  row : ℕ
  error : ServiceError
  deriving DecidableEq

structure AwardingWalletUploadResult where
  successCount : ℕ
  failedCount : ℕ
  errors : List UploadError
  deriving DecidableEq

variable (ledger : LedgerService.Config) (merchantId : String)

/-- One iteration of the loop, with what it catches. -/
def uploadRow (row : AwardingWalletUploadRow) (i : ℕ) (result : AwardingWalletUploadResult) :
    Service AwardingWalletUploadResult :=
  Prog.catching (do
    let _ ← LedgerService.awardPromotionalPoints ledger row.creatorId row.points ("MERCHANT_AWARD_" ++ merchantId)
      row.reason row.expiryDays
    pure { result with successCount := result.successCount + 1 }) fun e =>
      pure { result with failedCount := result.failedCount + 1, errors := result.errors ++ [⟨i + 1, e⟩] }

/-- The loop from the index `i` on. -/
def uploadRows : List AwardingWalletUploadRow → ℕ → AwardingWalletUploadResult → Service AwardingWalletUploadResult
  | [], _, result => pure result
  | row :: rows, i, result => do
    let result ← uploadRow ledger merchantId row i result
    uploadRows rows (i + 1) result

def uploadCSV (rows : List AwardingWalletUploadRow) : Service AwardingWalletUploadResult :=
  uploadRows ledger merchantId rows 0 ⟨0, 0, []⟩

end AwardingWalletService

namespace MerchantService

def uploadAwardingWallet (ledger : LedgerService.Config) (rows : List AwardingWalletService.AwardingWalletUploadRow)
    (merchantId : String) : Service AwardingWalletService.AwardingWalletUploadResult :=
  AwardingWalletService.uploadCSV ledger merchantId rows

end MerchantService

namespace MemberService
open TierEngineService

/-- The billing address is passed to the age check, which does not look at it, and the
password is not looked at here. -/
structure MemberSignupRequest where
  email : String

structure MemberProfile where
  memberId : String
  tier : RedRoomTier
  totalPoints : ℚ
  promotionalBalance : ℚ
  verifiedAt : Time
  deriving DecidableEq

def welcomeBonusPoints : ℚ := 1000

/-- `[^\s@]`. -/
def emailChar (c : Char) : Bool := !jsSpace c && c ≠ '@'

/-- `/^[^\s@]+@[^\s@]+\.[^\s@]+$/`. -/
def emailPattern : Text.RegExp Char := .seqs [
  .first, .some1 emailChar, .text ['@'], .some1 emailChar, .text ['.'], .some1 emailChar, .last]

def signup (ledger : LedgerService.Config) (thresholds : WelfareGuardianScoreService.Thresholds)
    (request : MemberSignupRequest) : Service MemberProfile := do
  throwIf (request.email = "" ∨ emailPattern.test request.email.toList = false) (.error ["Valid email is required for signup"])
  let avResult ← GateGuardAVService.verifyAccount request.email
  throwIf (avResult.verified = false) (.error ["18+ verification required - account creation blocked"])
  let id : String ← issue .uuidv4
  let memberId := "rr-" ++ id
  let _ ← RedRoomLedgerService.awardPointsWithCompliance ledger thresholds memberId welcomeBonusPoints "WELCOME_BONUS"
  let tier := calculateTier welcomeBonusPoints
  pure ⟨memberId, tier.currentTier, welcomeBonusPoints, welcomeBonusPoints, avResult.verifiedAt⟩

end MemberService

section machine

/-- A call of these services, or any other program over the database. -/
inductive FrontCall where
  | upload (rows : List AwardingWalletService.AwardingWalletUploadRow) (merchantId : String)
  | signup (request : MemberService.MemberSignupRequest)
  | other (program : Service Unit)

inductive FrontResponse where
  | upload (result : AwardingWalletService.AwardingWalletUploadResult)
  | signup (profile : MemberService.MemberProfile)
  | other

def FrontCall.body (ledger : LedgerService.Config) (thresholds : WelfareGuardianScoreService.Thresholds) :
    FrontCall → Service (Next FrontCall FrontResponse)
  | upload rows merchantId =>
    MerchantService.uploadAwardingWallet ledger rows merchantId >>= fun result => pure (.done (.upload result))
  | signup request => MemberService.signup ledger thresholds request >>= fun profile => pure (.done (.signup profile))
  | other program => program >>= fun _ => pure (.done .other)

/-- Any number of uploads, signups and other programs over one database. -/
def frontOffice (ledger : LedgerService.Config) (thresholds : WelfareGuardianScoreService.Thresholds) :
    Machine Mongo Db Oracle FrontCall FrontResponse ServiceError where
  exec := exec
  body := FrontCall.body ledger thresholds

end machine
end RedRoomRewards
