import RedRoomRewards.Service.AdminOps
import RedRoomRewards.Service.PointAccrual
import RedRoomRewards.Service.PointExpiration
import RedRoomRewards.Service.PointRedemption

/-! The calls that run concurrently over the database, and the machine that
interleaves them. -/
namespace RedRoomRewards
open Process

/-- A call of a service operation; `other` is any other program of the commands. -/
inductive Call where
  | hold (request : EscrowHoldRequest)
  | settle (request : EscrowSettleRequest) (authorization : Option QueueSettlementAuthorization)
  | refund (request : EscrowRefundRequest) (authorization : Option QueueRefundAuthorization)
  | partialSettle (request : EscrowPartialSettleRequest)
      (authorization : Option QueuePartialSettlementAuthorization)
  | award (request : AwardPointsRequest)
  | deduct (request : AwardPointsRequest)
  | expire (userId requestId : String)
  | adjust (request : ManualAdjustmentRequest)
  | redeem (request : RedeemPointsRequest)
  | other (program : Service Unit)

inductive Response where
  | hold (response : EscrowHoldResponse)
  | settle (response : EscrowSettleResponse)
  | refund (response : EscrowRefundResponse)
  | partialSettle (response : EscrowPartialSettleResponse)
  | award (response : AwardPointsResponse)
  | deduct (response : AwardPointsResponse)
  | expire (details : Option UserExpirationDetails)
  | adjust (response : ManualAdjustmentResponse)
  | redeem (response : RedeemPointsResponse)
  | other

structure Config where
  wallet : WalletService.Config
  accrual : PointAccrualService.Config
  expiration : PointExpirationService.Config
  adminOps : AdminOpsService.Config
  redemption : PointRedemptionService.Config

def defaultConfig (dateOf : Json → Option Time) : Config where
  wallet := WalletService.defaultConfig
  accrual := PointAccrualService.defaultConfig
  expiration := PointExpirationService.defaultConfig dateOf
  adminOps := AdminOpsService.defaultConfig
  redemption := PointRedemptionService.defaultConfig

/-- The services with exact amounts. -/
def Config.exact (config : Config) : Config := { config with expiration := { config.expiration with round := id } }

/-- The services with amounts in doubles. -/
def Config.inDoubles (config : Config) : Config := { config with expiration := config.expiration.inDoubles }

/-- The operations of the services. -/
def Call.isService : Call → Bool
  | .other _ => false
  | _ => true

/-- The program of a call that returns its response. -/
def returning {α : Type} (response : α → Response) (p : Service α) : Service (Next Call Response) :=
  p >>= fun a => pure (.done (response a))

/-- The program of a call that may have to be made once more. -/
def retrying {α : Type} (call : Call) (response : α → Response) (p : Service (Next Unit α)) :
    Service (Next Call Response) :=
  p >>= fun next => match next with
    | .done a => pure (.done (response a))
    | .again () => pure (.again call)

def Call.body (config : Config) : Call → Service (Next Call Response)
  | .hold request => returning .hold (WalletService.holdInEscrow config.wallet request)
  | .settle request authorization =>
    returning .settle (WalletService.settleEscrow config.wallet request authorization)
  | .refund request authorization =>
    returning .refund (WalletService.refundEscrow config.wallet request authorization)
  | .partialSettle request authorization =>
    returning .partialSettle (WalletService.partialSettleEscrow config.wallet request authorization)
  | .award request => returning .award (PointAccrualService.awardPoints config.accrual request)
  | .deduct request => returning .deduct (PointAccrualService.deductFromAvailable config.accrual request)
  | .expire userId requestId => retrying (.expire userId requestId) .expire
      (PointExpirationService.processUserExpiration config.expiration userId requestId)
  | .adjust request =>
    retrying (.adjust request) .adjust (AdminOpsService.manualAdjustment config.adminOps request)
  | .redeem request => returning .redeem
      (PointRedemptionService.redeemPoints config.redemption config.wallet request)
  | .other program => returning (fun _ => .other) program

/-- Any number of calls, interleaved at the granularity of single commands. -/
def system (config : Config) : Machine Mongo Db Oracle Call Response ServiceError where
  exec := exec
  body := Call.body config

@[simp] theorem system_exec (config : Config) : (system config).exec = exec := rfl

/-- A state of the running services. -/
abbrev Run := State Mongo Db Call Response ServiceError

/-- What steps a run may take. -/
abbrev Schedule := Run → Label Oracle Call → Prop

end RedRoomRewards
