import RedRoomRewards.Service.Ledger
import Mathlib.Algebra.Order.Ring.Rat

/-! The reconciliation report of an account, and the verdict that rests on it. The results of
the sums are rounded as `round` says. -/
namespace RedRoomRewards
open Process

namespace LedgerService

structure DateRange where
  start : Time
  stop : Time

structure ReconciliationReport where
  accountId : String
  accountType : AccountType
  startingBalance : ℚ
  totalCredits : ℚ
  totalDebits : ℚ
  calculatedBalance : ℚ
  actualBalance : ℚ
  difference : ℚ
  reconciled : Bool
  reportedAt : Time
  dateRange : DateRange

/-- Available, escrow and earned balance together; `balance || 0` for the two optional ones. -/
def BalanceSnapshot.total (round : ℚ → ℚ) (snapshot : BalanceSnapshot) : ℚ :=
  round (round (snapshot.availableBalance + snapshot.escrowBalance.getD 0) + snapshot.earnedBalance.getD 0)

/-- The loop variables of the report. -/
structure Totals where
  credits : ℚ := 0
  debits : ℚ := 0

def Totals.add (round : ℚ → ℚ) (totals : Totals) (entry : LedgerEntry) : Totals :=
  if entry.type = .credit then { totals with credits := round (totals.credits + entry.amount) }
  else { totals with debits := round (totals.debits + |entry.amount|) }

/-- The entries that a report adds up; the totals do not depend on their order. -/
def reportQuery (accountId : String) (accountType : AccountType) (dateRange : DateRange) (tenantId : String) :
    LedgerQuery where
  accountId := accountId
  accountType := accountType
  type := none
  reason := none
  balanceState := none
  escrowId := none
  queueItemId := none
  featureType := none
  startDate := dateRange.start
  endDate := dateRange.stop
  tenantId := tenantId

variable (round : ℚ → ℚ) (config : Config)

def generateReconciliationReport (accountId : String) (accountType : AccountType) (dateRange : DateRange)
    (tenantId : String) : Service ReconciliationReport := do
  let startSnapshot ← getBalanceSnapshot config accountId accountType (some dateRange.start) none
  let entries : List LedgerEntry ←
    issue (.listLedgerEntries (reportQuery accountId accountType dateRange tenantId) ⟨.timestamp, true⟩)
  let totals := entries.foldl (Totals.add round) {}
  let endSnapshot ← getBalanceSnapshot config accountId accountType (some dateRange.stop) none
  let startingBalance := startSnapshot.total round
  let calculatedBalance := round (round (startingBalance + totals.credits) - totals.debits)
  let actualBalance := endSnapshot.total round
  let difference := round (actualBalance - calculatedBalance)
  let reportedAt : Time ← issue .now
  pure {
    accountId := accountId
    accountType := accountType
    startingBalance := startingBalance
    totalCredits := totals.credits
    totalDebits := totals.debits
    calculatedBalance := calculatedBalance
    actualBalance := actualBalance
    difference := difference
    reconciled := |difference| < round (1 / 100)
    reportedAt := reportedAt
    dateRange := dateRange }

end LedgerService

namespace ReconciliationService
open LedgerService

structure ReconciliationResult where
  balanced : Bool
  details : ReconciliationReport

variable (round : ℚ → ℚ) (config : LedgerService.Config)

/-- The report covers everything from the epoch to now. -/
def reconcileAccount (accountId : String) (accountType : AccountType) (tenantId : String) :
    Service ReconciliationResult := do
  let now : Time ← issue .now
  let report ← generateReconciliationReport round config accountId accountType ⟨0, now⟩ tenantId
  pure ⟨report.reconciled, report⟩

def reconcileUser (userId tenantId : String) : Service ReconciliationResult :=
  reconcileAccount round config userId .user tenantId

def reconcileModel (modelId tenantId : String) : Service ReconciliationResult :=
  reconcileAccount round config modelId .model tenantId

end ReconciliationService
end RedRoomRewards
