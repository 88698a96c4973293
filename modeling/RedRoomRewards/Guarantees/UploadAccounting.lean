import RedRoomRewards.Guarantees.BalanceLaw
import RedRoomRewards.Protocol.Credits

/-! The answer to an upload of awards accounts for every row, and for every entry that the
upload has written to the ledger. -/
namespace RedRoomRewards
open Process LedgerService

namespace AwardingWalletService

/-- The credit that a row asks for. -/
def AwardingWalletUploadRow.request (row : AwardingWalletUploadRow) (merchantId : String) : PromotionalRequest :=
  ⟨row.creatorId, row.points, "MERCHANT_AWARD_" ++ merchantId, row.reason, none⟩

/-- The answer that the results of the rows make, the first of which has the number `n`. -/
def report : ℕ → List (Except ServiceError Unit) → AwardingWalletUploadResult
  | _, [] => ⟨0, 0, []⟩
  | n, .ok _ :: results =>
    let later := report (n + 1) results
    { later with successCount := later.successCount + 1 }
  | n, .error e :: results =>
    let later := report (n + 1) results
    { later with failedCount := later.failedCount + 1, errors := ⟨n, e⟩ :: later.errors }

theorem report_total (n : ℕ) (results : List (Except ServiceError Unit)) :
    (report n results).successCount + (report n results).failedCount = results.length := by
  induction results generalizing n with
  | nil => rfl
  | cons result results ih =>
    have hlater := ih (n + 1)
    cases result with
    | ok a =>
      simp only [report, List.length_cons]
      omega
    | error e =>
      simp only [report, List.length_cons]
      omega

theorem report_successes (n : ℕ) (results : List (Except ServiceError Unit)) :
    (report n results).successCount = results.countP Except.isOk := by
  induction results generalizing n with
  | nil => rfl
  | cons result results ih =>
    cases result with
    | ok a =>
      rw [List.countP_cons_of_pos rfl, ← ih (n + 1)]
      rfl
    | error e =>
      rw [List.countP_cons_of_neg (by exact Bool.false_ne_true), ← ih (n + 1)]
      rfl

theorem report_errors (n : ℕ) (results : List (Except ServiceError Unit)) (row : ℕ) (e : ServiceError) :
    ⟨row, e⟩ ∈ (report n results).errors ↔ ∃ i, row = n + i ∧ results[i]? = some (.error e) := by
  induction results generalizing n with
  | nil => simp [report]
  | cons result results ih =>
    have hshift : (∃ i, row = n + 1 + i ∧ results[i]? = some (.error e)) ↔
        ∃ i, row = n + (i + 1) ∧ (result :: results)[i + 1]? = some (.error e) := by
      simp only [List.getElem?_cons_succ, Nat.add_assoc, Nat.add_comm 1]
    have hsplit : (∃ i, row = n + i ∧ (result :: results)[i]? = some (.error e)) ↔
        (row = n ∧ result = .error e) ∨ ∃ i, row = n + (i + 1) ∧ (result :: results)[i + 1]? = some (.error e) := by
      constructor
      · rintro ⟨i, hrow, hi⟩
        cases i with
        | zero => exact .inl ⟨hrow, Option.some.inj hi⟩
        | succ i => exact .inr ⟨i, hrow, hi⟩
      · rintro (⟨rfl, rfl⟩ | ⟨i, hrow, hi⟩)
        · exact ⟨0, rfl, rfl⟩
        · exact ⟨i + 1, hrow, hi⟩
    rw [hsplit, ← hshift, ← ih (n + 1)]
    cases result with
    | ok a => simp [report]
    | error e' => simp [report, eq_comm]

theorem report_ordered (n : ℕ) (results : List (Except ServiceError Unit)) :
    ((report n results).errors.map UploadError.row).Pairwise (· < ·) := by
  induction results generalizing n with
  | nil => exact List.Pairwise.nil
  | cons result results ih =>
    cases result with
    | ok a => exact ih (n + 1)
    | error e =>
      rw [report, List.map_cons, List.pairwise_cons]
      refine ⟨?_, ih (n + 1)⟩
      intro row hrow
      obtain ⟨error, herror, rfl⟩ := List.mem_map.mp hrow
      obtain ⟨i, hi, -⟩ := (report_errors (n + 1) results error.row error.error).mp herror
      show n < error.row
      omega

/-- The answer so far, with what later rows add. -/
private def AwardingWalletUploadResult.add (x y : AwardingWalletUploadResult) : AwardingWalletUploadResult :=
  ⟨x.successCount + y.successCount, x.failedCount + y.failedCount, x.errors ++ y.errors⟩

private theorem report_cons (x : AwardingWalletUploadResult) (n : ℕ) (result : Except ServiceError Unit)
    (results : List (Except ServiceError Unit)) :
    (x.add (report n [result])).add (report (n + 1) results) = x.add (report n (result :: results)) := by
  cases result with
  | ok a => simp [AwardingWalletUploadResult.add, report, Nat.add_assoc, Nat.add_comm 1]
  | error e => simp [AwardingWalletUploadResult.add, report, Nat.add_assoc, Nat.add_comm 1]

/-- What the rows do: the attempts and the result of each. -/
def Accounts (merchantId : String) (rows : List AwardingWalletUploadRow)
    (outcomes : List (List Attempt × Except ServiceError Unit)) : Prop :=
  List.Forall₂ (fun row outcome => Credited (row.request merchantId) outcome.1 outcome.2) rows outcomes

section rules
variable {ledger : LedgerService.Config} {merchantId : String} {made : List Attempt}

private theorem source_not_blank (merchantId : String) : blank ("MERCHANT_AWARD_" ++ merchantId) = false := by
  rw [blank, String.toList_append, List.all_append]
  rfl

private theorem attempts_uploadRow (row : AwardingWalletUploadRow) (i : ℕ) (result : AwardingWalletUploadResult) :
    Attempts (fun made' r => ∃ now outcome, made' = made ++ now ∧ Credited (row.request merchantId) now outcome ∧
      r = .ok (result.add (report (i + 1) [outcome]))) made (uploadRow ledger merchantId row i result) := by
  refine (Prog.obeys_catching _ _ _).mpr (attempts_bind ?_)
  refine (attempts_creditPoints (row.request merchantId) (source_not_blank merchantId)).imp ?_
  rintro made' (e | done) ⟨now, rfl, hcredited⟩
  · exact ⟨now, .error e, rfl, hcredited, by simp [AwardingWalletUploadResult.add, report]⟩
  · exact ⟨now, .ok (), rfl, hcredited, by simp [AwardingWalletUploadResult.add, report]⟩

/-- The loop never throws, and what it adds to the answer is the report on its rows. -/
private theorem attempts_uploadRows (rows : List AwardingWalletUploadRow) (i : ℕ) (result : AwardingWalletUploadResult) :
    Attempts (fun made' r => ∃ outcomes, made' = made ++ (outcomes.map Prod.fst).flatten ∧
      Accounts merchantId rows outcomes ∧ r = .ok (result.add (report (i + 1) (outcomes.map Prod.snd)))) made
      (uploadRows ledger merchantId rows i result) := by
  induction rows generalizing i result made with
  | nil => exact ⟨[], (List.append_nil made).symm, .nil, by simp [AwardingWalletUploadResult.add, report]⟩
  | cons row rows ih =>
    refine attempts_bind ((attempts_uploadRow row i result).imp ?_)
    rintro made' r ⟨now, outcome, rfl, hcredited, rfl⟩
    refine (ih (i + 1) _).imp ?_
    rintro made' r ⟨outcomes, rfl, haccounts, rfl⟩
    refine ⟨(now, outcome) :: outcomes, ?_, .cons hcredited haccounts, ?_⟩
    · rw [List.map_cons, List.flatten_cons, List.append_assoc]
    · rw [report_cons]
      rfl

end rules

section runs
variable {ledger : LedgerService.Config} {thresholds : WelfareGuardianScoreService.Thresholds}
variable {A : State Mongo Db FrontCall FrontResponse ServiceError → Label Oracle FrontCall → Prop}
variable {d : Db} {s : State Mongo Db FrontCall FrontResponse ServiceError}

/-- How an upload ends. -/
private def Uploaded : FrontCall → List Attempt → Except ServiceError FrontResponse → Prop
  | .upload rows merchantId, made, r => ∃ outcomes, made = (outcomes.map Prod.fst).flatten ∧
      Accounts merchantId rows outcomes ∧ r = .ok (.upload (report 1 (outcomes.map Prod.snd)))
  | _, _, _ => True

private theorem attempts_body (call : FrontCall) :
    Attempts ((endingAs Uploaded).settles call) [] (call.body ledger thresholds) := by
  cases call with
  | upload rows merchantId =>
    refine attempts_bind ((attempts_uploadRows rows 0 ⟨0, 0, []⟩).imp ?_)
    rintro made r ⟨outcomes, rfl, haccounts, rfl⟩
    exact ⟨outcomes, rfl, haccounts, by simp [AwardingWalletUploadResult.add]⟩
  | signup request => exact attempts_bind (attempts_any fun made r => by cases r <;> trivial)
  | other program => exact attempts_bind (attempts_any fun made r => by cases r <;> trivial)

end runs

section scenario

private def sampleRows : List AwardingWalletUploadRow := [⟨"creator-1", 10, "launch", none⟩, ⟨"creator-2", 0, "launch", some 30⟩]

/-- The answer that a thread has given to an upload. -/
private def answer : Option (Except ServiceError FrontResponse) → Option AwardingWalletUploadResult
  | some (.ok (.upload result)) => some result
  | _ => none

private theorem result_of_answer {r : Option (Except ServiceError FrontResponse)} {result : AwardingWalletUploadResult}
    (h : answer r = some result) : r = some (.ok (.upload result)) := by
  rcases r with _ | (e | (result' | profile | _))
  · cases h
  · cases h
  · rw [show result' = result from Option.some.inj h]
  · cases h
  · cases h

end scenario
end AwardingWalletService
end RedRoomRewards
