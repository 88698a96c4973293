import RedRoomRewards.Service.PointExpiration
import Mathlib.Algebra.BigOperators.Group.List.Basic

/-! What the expiration of many users in batches counts, in whatever order the calls of a
batch end. -/
namespace RedRoomRewards
open Process PointExpirationService

namespace PointExpirationService.ExpirationOutcome

def amount : ExpirationOutcome → ℚ
  | .ok (some expiration) => expiration.amountExpired
  | _ => 0

def expired : ExpirationOutcome → Bool
  | .ok (some _) => true
  | _ => false

/-- The entry of a failed call in the list of errors. -/
def failure (userId : String) : ExpirationOutcome → Option (String × String)
  | .ok _ => none
  | .error message => some (userId, message.getD "Unknown error")

end PointExpirationService.ExpirationOutcome

/-- What the result of the batches says of the outcome of each call. -/
structure BatchAccounted (users : List String) (outcomes : ℕ → ExpirationOutcome) (result : ExpirationBatchResult) : Prop where
  counted : result.usersProcessed + result.failureCount = users.length
  total : result.totalPointsExpired = (users.zipIdx.map fun user => (outcomes user.2).amount).sum
  succeeded : result.successCount = users.zipIdx.countP fun user => (outcomes user.2).expired
  errors : result.errors.Perm (users.zipIdx.filterMap fun user => (outcomes user.2).failure user.1)

section record
variable {users : List String} {outcomes : ℕ → ExpirationOutcome}

variable (outcomes) in
/-- What the calls of a list add to a result, one after the other. -/
private theorem foldl_record (settled : List (String × ℕ)) (r : ExpirationBatchResult) :
    let r' := settled.foldl (fun result user => result.record user.1 (outcomes user.2)) r
    r'.usersProcessed + r'.failureCount = r.usersProcessed + r.failureCount + settled.length ∧
    r'.totalPointsExpired = r.totalPointsExpired + (settled.map fun user => (outcomes user.2).amount).sum ∧
    r'.successCount = r.successCount + settled.countP (fun user => (outcomes user.2).expired) ∧
    r'.errors = r.errors ++ settled.filterMap fun user => (outcomes user.2).failure user.1 := by
  induction settled generalizing r with
  | nil => simp
  | cons user settled ih =>
    obtain ⟨hcounted, htotal, hsucceeded, herrors⟩ := ih (r.record user.1 (outcomes user.2))
    dsimp only at hcounted htotal hsucceeded herrors ⊢
    rw [List.foldl_cons, hcounted, htotal, hsucceeded, herrors, List.length_cons, List.map_cons, List.sum_cons,
      List.countP_cons, List.filterMap_cons]
    cases houtcome : outcomes user.2 with
    | ok expiration =>
      cases expiration with
      | none =>
        refine ⟨?_, ?_, rfl, rfl⟩
        · dsimp only [ExpirationBatchResult.record]
          omega
        · exact congrArg (r.totalPointsExpired + ·) (zero_add _).symm
      | some expiration =>
        refine ⟨?_, ?_, ?_, rfl⟩
        · dsimp only [ExpirationBatchResult.record]
          omega
        · exact add_assoc ..
        · show r.successCount + 1 + _ = r.successCount + (_ + 1)
          omega
    | error message =>
      refine ⟨?_, ?_, rfl, ?_⟩
      · dsimp only [ExpirationBatchResult.record]
        omega
      · exact congrArg (r.totalPointsExpired + ·) (zero_add _).symm
      · exact List.append_assoc ..

/-- The order of the calls does not matter. -/
private theorem accounted_of_perm {settled : List (String × ℕ)} (hperm : settled.Perm users.zipIdx) (timestamp : Time) :
    BatchAccounted users outcomes
      (settled.foldl (fun result user => result.record user.1 (outcomes user.2)) ⟨0, 0, 0, 0, timestamp, []⟩) := by
  obtain ⟨hcounted, htotal, hsucceeded, herrors⟩ := foldl_record outcomes settled ⟨0, 0, 0, 0, timestamp, []⟩
  refine ⟨?_, ?_, ?_, ?_⟩
  · rw [hcounted, hperm.length_eq, List.length_zipIdx]
    exact Nat.zero_add _
  · rw [htotal, (hperm.map _).sum_eq, zero_add]
  · rw [hsucceeded, hperm.countP_eq, Nat.zero_add]
  · rw [herrors, List.nil_append]
    exact hperm.filterMap _

end record

section scenario

/-- Of three calls the second one fails, and the last one has nothing to expire. -/
def mixedOutcomes : ℕ → ExpirationOutcome
  | 0 => .ok (some ⟨"user-1", 5, "transaction-1", 0⟩)
  | 1 => .error (some "Wallet not found for user: user-2")
  | _ => .ok none

end scenario
end RedRoomRewards
