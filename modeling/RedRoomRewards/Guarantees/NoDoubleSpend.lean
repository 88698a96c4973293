import RedRoomRewards.Guarantees.BalanceLaw
import RedRoomRewards.Service.Doubles
import Mathlib.Tactic.Ring

/-! No double spend: what is taken from a user's available points is covered by
what was there at first and what has been credited. -/
namespace RedRoomRewards
open Process Store Arithmetic

/-- Calls that spend or credit available points and may not overdraw them. -/
def Call.isCovered : Call → Bool
  | .hold _ | .redeem _ | .award _ | .deduct _ | .expire .. => true
  | .adjust request => !AdminOpsService.allowNegative request
  | _ => false

section amounts

/-- What a committed wallet update takes from the available balance. -/
def Operation.taken : Operation → WalletUpdate → ℚ
  | hold request, _ => request.amount
  | deduct request, _ => request.amount
  | expire _, u => -u.availableChange
  | adjust request, _ => if request.amount < 0 then -request.amount else 0
  | _, _ => 0

/-- What a committed wallet update credits to the available balance. -/
def Operation.credited : Operation → WalletUpdate → ℚ
  | award request, _ => request.amount
  | adjust request, _ => if request.amount < 0 then 0 else request.amount
  | _, _ => 0

/-- The amounts of the updates committed on a user's wallet. -/
def amountsOn (amount : Operation → WalletUpdate → ℚ) (userId : String)
    (log : List (Event Mongo Call)) : List ℚ :=
  log.filterMap fun ev => match ev.cmd.walletCommit ev.reply with
    | some (f, u) => if f.userId = userId then some (amount ev.call.operation u) else none
    | none => none

def totalTaken (userId : String) (log : List (Event Mongo Call)) : ℚ :=
  (amountsOn Operation.taken userId log).sum

def totalCredited (userId : String) (log : List (Event Mongo Call)) : ℚ :=
  (amountsOn Operation.credited userId log).sum

end amounts

section step
variable {call : Call} {tr : Track} {w : Wallet} {u : WalletUpdate}

theorem Call.delta_of_isCovered (h : call.isCovered = true) (u : WalletUpdate) :
    (call.operation.delta u).1 = call.operation.credited u - call.operation.taken u := by
  cases call with
  | adjust request =>
    simp only [Call.operation, Operation.delta, Operation.credited, Operation.taken]
    split <;> ring
  | settle | refund | partialSettle | other => cases h
  | _ => simp [Call.operation, Operation.delta, Operation.credited, Operation.taken]

/-- A covered call leaves no wallet overdrawn that was not so before. -/
theorem Operation.MayPay.solvent (hpay : call.operation.MayPay tr w u) (h : call.isCovered = true)
    (hw : 0 ≤ w.availableBalance) : 0 ≤ w.availableBalance + (call.operation.delta u).1 := by
  cases call with
  | hold request =>
    have henough : request.amount ≤ w.availableBalance := hpay.2.2
    simp only [Call.operation, Operation.delta]
    linarith
  | redeem request =>
    have henough : request.amount ≤ w.availableBalance := hpay.2.2
    simp only [Call.operation, Operation.delta, PointRedemptionService.escrowRequest]
    linarith
  | award request =>
    have hpos : 0 < request.amount := hpay.2.2
    simp only [Call.operation, Operation.delta]
    linarith
  | deduct request =>
    have henough : request.amount ≤ w.availableBalance := hpay.2.2.2
    simp only [Call.operation, Operation.delta]
    linarith
  | expire userId requestId =>
    have henough : -u.availableChange ≤ w.availableBalance := hpay.2.2.2
    simp only [Call.operation, Operation.delta]
    linarith
  | adjust request =>
    rcases hpay.2.2 with hallowed | hnegative
    · exact hallowed
    · rw [Call.isCovered, hnegative] at h
      cases h
  | _ => cases h

/-- Amounts taken and credited are never negative. -/
theorem Operation.MayPay.amounts_nonneg (hpay : call.operation.MayPay tr w u)
    (hsuits : call.operation.Suits tr.ids tr.stage) :
    0 ≤ call.operation.taken u ∧ 0 ≤ call.operation.credited u := by
  generalize call.operation = op at *
  cases op with
  | hold request =>
    obtain ⟨⟨i, hstage⟩, -⟩ := hpay
    obtain ⟨request', heq, -, hamount, -, -, -, hpos⟩ := hsuits.makes (i := i) (by rw [hstage]; rfl)
    obtain rfl : request = request' := Operation.hold.inj heq
    rw [hamount] at hpos
    exact ⟨hpos, le_rfl⟩
  | award request => exact ⟨le_rfl, hpay.2.2.le⟩
  | deduct request => exact ⟨hpay.2.2.1.le, le_rfl⟩
  | expire userId =>
    have hneg : u.availableChange < 0 := hpay.2.2.1
    exact ⟨by simp only [Operation.taken]; linarith, le_rfl⟩
  | adjust request =>
    by_cases hneg : request.amount < 0
    · simp only [Operation.taken, Operation.credited, if_pos hneg]
      exact ⟨by linarith, le_rfl⟩
    · simp only [Operation.taken, Operation.credited, if_neg hneg]
      exact ⟨le_rfl, not_lt.mp hneg⟩
  | _ => exact ⟨le_rfl, le_rfl⟩

theorem WalletEffect.solvent {ws ws' : Wallets} {c : Cmd} {r : c.Reply}
    (h : WalletEffect call.operation tr ws c r ws') (hcall : call.isCovered = true)
    (hws : ∀ w ∈ ws.docs, 0 ≤ w.availableBalance) : ∀ w ∈ ws'.docs, 0 ≤ w.availableBalance := by
  cases h with
  | kept => exact hws
  | opened currency userId _ hfree =>
    intro w hw
    rcases (Collection.mem_insert hfree).mp hw with hold | rfl
    · exact hws w hold
    · exact le_rfl
  | posted f u w₀ hu _ hfind happly hpay =>
    intro w hw
    obtain ⟨w₁, hmem, rfl⟩ := Collection.mem_modify.mp hw
    split
    · rename_i hkey
      have hsame : w₀ = w₁ :=
        Option.some.inj (hfind.symm.trans (Collection.find_eq_some.mpr ⟨hmem, hkey⟩))
      subst hsame
      rw [happly]
      exact hpay.solvent hcall (hws w₀ hmem)
    · exact hws w₁ hmem

end step

section runs
variable {config : Config} {d : Db} {s : Run}

private theorem serves_isCovered : Serves (only Call.isCovered) :=
  serves_only fun c hc => by cases c <;> simp_all [Call.isCovered, Call.operation]

private theorem covered_calls (h : (system config).Reaches (only Call.isCovered) (.start d) s) :
    ∀ ev ∈ s.log, ev.call.isCovered = true := fun ev hev =>
  h.calls_satisfy (fun _ _ _ hA => hA) (h.calls_of_log ev hev)

private theorem available_nonneg (h : (system config).Reaches (only Call.isCovered) (.start d) s)
    (hd : ∀ w ∈ d.wallets.docs, 0 ≤ w.availableBalance) :
    ∀ w ∈ s.db.wallets.docs, 0 ≤ w.availableBalance := by
  induction h using Machine.Reaches.by_steps with
  | start => exact hd
  | spawn s t c _ _ _ ih => exact ih
  | act s t o call c k hs _ ht ih =>
    have hcall : call.isCovered = true :=
      hs.calls_satisfy (fun _ _ _ hA => hA) (State.calls_of_thread ht)
    exact (acted_wallets serves_isCovered hs ht o).solvent hcall ih
  | restart s t o call c _ _ _ ih => exact ih

private theorem committed_amounts (h : (system config).Reaches (only Call.isCovered) (.start d) s) :
    ∀ ev ∈ s.log, ∀ f u, ev.cmd.walletCommit ev.reply = some (f, u) →
      0 ≤ ev.call.operation.taken u ∧ 0 ≤ ev.call.operation.credited u := by
  induction h using Machine.Reaches.by_steps with
  | start => exact fun ev hev => by cases hev
  | spawn s t c _ _ _ ih => exact ih
  | act s t o call c k hs _ ht ih =>
    intro ev hev f u hcommit
    rcases List.mem_cons.mp hev with rfl | hold
    · have hsuits := (recorded hs t call _ (Contract.track_of_thread ht)
        (operation_ne_other serves_isCovered hs (State.calls_of_thread ht))).1.stage
      obtain ⟨w, -, -, hpay⟩ := (acted_wallets serves_isCovered hs ht o).committed hcommit
      exact hpay.amounts_nonneg hsuits
    · exact ih ev hold f u hcommit
  | restart s t o call c _ _ _ ih => exact ih

/-- What is credited and not taken is the change of the available balance. -/
private theorem change_of_amounts {log : List (Event Mongo Call)}
    (hlog : ∀ ev ∈ log, ev.call.isCovered = true) (userId : String) :
    (walletChanges userId log).sum.1 = totalCredited userId log - totalTaken userId log := by
  induction log with
  | nil => simp [walletChanges, totalCredited, totalTaken, amountsOn]
  | cons ev log ih =>
    have hev := ev.call.delta_of_isCovered (hlog ev (.head _))
    have hrest := ih fun ev' hev' => hlog ev' (.tail _ hev')
    simp only [walletChanges, totalCredited, totalTaken, amountsOn, List.filterMap_cons,
      Operation.walletChange] at hrest ⊢
    cases ev.cmd.walletCommit ev.reply with
    | none => exact hrest
    | some x =>
      by_cases huser : x.1.userId = userId
      · simp only [huser, if_true, List.sum_cons, Prod.fst_add, hev, hrest]
        ring
      · simp only [huser, if_false, hrest]

/-- With exact amounts no wallet is ever overdrawn, and what has been taken from it does not
exceed what it held at first and what has been credited to it. -/
theorem spending_covered (h : (system config).Reaches (only Call.isCovered) (.start d) s)
    (hd : ∀ w ∈ d.wallets.docs, 0 ≤ w.availableBalance) :
    (∀ w ∈ s.db.wallets.docs, 0 ≤ w.availableBalance) ∧
    (∀ userId, totalTaken userId s.log ≤ (d.balances userId).1 + totalCredited userId s.log) ∧
    ∀ ev ∈ s.log, ∀ f u, ev.cmd.walletCommit ev.reply = some (f, u) →
      0 ≤ ev.call.operation.taken u ∧ 0 ≤ ev.call.operation.credited u := by
  have hnonneg := available_nonneg h hd
  refine ⟨hnonneg, fun userId => ?_, committed_amounts h⟩
  have hlaw := congrArg Prod.fst (wallets_follow_changes serves_isCovered h userId).1
  rw [Prod.fst_add, change_of_amounts (covered_calls h)] at hlaw
  have hbalance : 0 ≤ (s.db.balances userId).1 := by
    rw [Db.balances]
    cases hfind : s.db.wallets.find userId with
    | none => exact le_rfl
    | some w => exact hnonneg w (Collection.mem_of_find hfind)
  linarith

/-- No double spend: as long as no amount has to be rounded, no wallet is ever overdrawn, and what
has been taken from it does not exceed what it held at first and what has been credited to it.
Identifiers are trimmed and dates valid. -/
theorem available_never_overspent
    (h : (doubles config).Reaches (fun s l => only Call.isCovered s l ∧ Exactly s l) (.start d) s)
    (hd : ∀ w ∈ d.wallets.docs, 0 ≤ w.availableBalance) :
    (∀ w ∈ s.db.wallets.docs, 0 ≤ w.availableBalance) ∧
    (∀ userId, totalTaken userId s.log ≤ (d.balances userId).1 + totalCredited userId s.log) ∧
    ∀ ev ∈ s.log, ∀ f u, ev.cmd.walletCommit ev.reply = some (f, u) →
      0 ≤ ev.call.operation.taken u ∧ 0 ≤ ev.call.operation.credited u :=
  spending_covered (exact_run h) hd

end runs

section scenario

def sampleDeduction : AwardPointsRequest :=
  { sampleAward with amount := 80, reason := .adminDebit, idempotencyKey := "deduction-1" }

/-- A hold and a deduction read the same balance, which covers only one of them. -/
theorem available_never_overspent_by_race :
    ∃ s, (doubles (defaultConfig fun _ => none)).Reaches (fun s l => only Call.isCovered s l ∧ Exactly s l)
        (.start fundedDb) s ∧
      (s.result 0).isSome ∧ (s.result 1).isSome ∧ totalTaken "user-1" s.log = 30 ∧
      totalTaken "user-1" s.log ≤ 100 + totalCredited "user-1" s.log := by
  obtain ⟨s, hs, hfacts⟩ := Machine.exists_reaches (doubles (defaultConfig fun _ => none))
    (fun s l => only Call.isCovered s l ∧ Exactly s l) (.start fundedDb)
    ([.spawn 0 (.hold sampleHold), .spawn 1 (.deduct sampleDeduction)] ++
      interleaving ([1, 1] ++ List.replicate 19 0 ++ [1, 1]))
    (fun s => ((s.result 0).isSome, (s.result 1).isSome, totalTaken "user-1" s.log))
    (a := (true, true, 30)) (by decide +kernel)
  obtain ⟨hheld, hrest⟩ := Prod.mk.inj hfacts
  obtain ⟨hdeducted, htaken⟩ := Prod.mk.inj hrest
  have hd : ∀ w ∈ fundedDb.wallets.docs, 0 ≤ w.availableBalance := by decide +kernel
  exact ⟨s, hs, hheld, hdeducted, htaken, (available_never_overspent hs hd).2.1 "user-1"⟩

/-- A user with 2.77 points. -/
def centsDb : Db :=
  { Db.empty with wallets := Collection.empty.insert ⟨"user-1", double (277 / 100), 0, "points", 0⟩ }

/-- Holds of 1.31 and 4.82 points take more than the 2.77 points and an award of 3.36: the balance
between them is rounded up. -/
theorem available_overspent_by_rounding :
    ∃ s, (doubles (defaultConfig fun _ => none)).Reaches (only Call.isCovered) (.start centsDb) s ∧
      (∀ w ∈ centsDb.wallets.docs, 0 ≤ w.availableBalance) ∧
      ¬ ∀ userId, totalTaken userId s.log ≤ (centsDb.balances userId).1 + totalCredited userId s.log := by
  obtain ⟨s, hs, hfacts⟩ := Machine.exists_reaches (doubles (defaultConfig fun _ => none))
    (only Call.isCovered) (.start centsDb)
    ([.spawn 0 (.hold { sampleHold with amount := double (131 / 100) }),
      .spawn 1 (.award { sampleAward with amount := double (336 / 100) }),
      .spawn 2 (.hold
        { sampleHold with amount := double (482 / 100), idempotencyKey := "hold-2", queueItemId := "queue-2" })] ++
      interleaving (List.replicate 19 0 ++ List.replicate 8 1 ++ List.replicate 19 2))
    (fun s => decide ((centsDb.balances "user-1").1 + totalCredited "user-1" s.log < totalTaken "user-1" s.log))
    (a := true) (by decide +kernel)
  exact ⟨s, hs, by decide +kernel, fun h => absurd (h "user-1") (not_le.mpr (of_decide_eq_true hfacts))⟩

end scenario
end RedRoomRewards
