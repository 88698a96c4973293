import RedRoomRewards.Protocol.Stages
import RedRoomRewards.Process.Execution
import Mathlib.Algebra.BigOperators.Group.List.Basic
import Mathlib.Algebra.Group.Prod

/-! No update of a balance is lost: at any time every wallet holds its initial
balances plus the changes of the updates that committed on it. -/
namespace RedRoomRewards
open Process Store

section changes

/-- By how much a command and its reply change the balances of one user. -/
def Operation.walletChange (op : Operation) (userId : String) (c : Cmd) (r : c.Reply) :
    Option (ℚ × ℚ) :=
  match c.walletCommit r with
  | some (f, u) => if f.userId = userId then some (op.delta u) else none
  | none => none

/-- By how much a command and its reply change the earned balance of one model. -/
def Operation.modelChange (op : Operation) (modelId : String) (c : Cmd) (r : c.Reply) : Option ℚ :=
  match c.modelCommit r with
  | some (f, _) => if f.modelId = modelId then some op.earned else none
  | none => none

/-- The changes committed on a user's wallet, newest first. -/
def walletChanges (userId : String) (log : List (Event Mongo Call)) : List (ℚ × ℚ) :=
  log.filterMap fun ev => ev.call.operation.walletChange userId ev.cmd ev.reply

def modelChanges (modelId : String) (log : List (Event Mongo Call)) : List ℚ :=
  log.filterMap fun ev => ev.call.operation.modelChange modelId ev.cmd ev.reply

/-- `(availableBalance, escrowBalance)`; both are 0 as long as there is no wallet. -/
def Db.balances (db : Db) (userId : String) : ℚ × ℚ :=
  (db.wallets.find userId).elim 0 fun w => (w.availableBalance, w.escrowBalance)

def Db.version (db : Db) (userId : String) : ℕ := (db.wallets.find userId).elim 0 Wallet.version

def Db.earnedBalance (db : Db) (modelId : String) : ℚ :=
  (db.modelWallets.find modelId).elim 0 ModelWallet.earnedBalance

def Db.modelVersion (db : Db) (modelId : String) : ℕ :=
  (db.modelWallets.find modelId).elim 0 ModelWallet.version

end changes

section changed
variable {op : Operation} {c : Cmd} {r : c.Reply} {userId modelId : String}

theorem Operation.walletChange_eq_some {x : ℚ × ℚ} : op.walletChange userId c r = some x ↔
    ∃ f u, c.walletCommit r = some (f, u) ∧ f.userId = userId ∧ op.delta u = x := by
  unfold walletChange
  split
  · rename_i f u hcommit
    simp [hcommit]
  · rename_i hcommit
    simp [hcommit]

theorem Operation.modelChange_eq_some {x : ℚ} : op.modelChange modelId c r = some x ↔
    ∃ f u, c.modelCommit r = some (f, u) ∧ f.modelId = modelId ∧ op.earned = x := by
  unfold modelChange
  split
  · rename_i f u hcommit
    simp [hcommit]
  · rename_i hcommit
    simp [hcommit]

end changed

section step
variable {op : Operation} {tr : Track} {db db' : Db} {c : Cmd} {r : c.Reply}

theorem WalletEffect.balances (h : WalletEffect op tr db.wallets c r db'.wallets) (userId : String) :
    db'.balances userId = db.balances userId + (op.walletChange userId c r).getD 0 ∧
      db'.version userId = db.version userId + (op.walletChange userId c r).toList.length := by
  simp only [Db.balances, Db.version, Operation.walletChange]
  generalize db'.wallets = ws' at h
  cases h with
  | kept hcommit => simp [hcommit]
  | opened currency id hcommit hfree =>
    rw [hcommit, Collection.find_insert hfree]
    by_cases hid : userId = id
    · subst hid
      have hnone : db.wallets.find userId = none := hfree.find
      simp [hnone, WalletService.newWallet]
    · simp [WalletService.newWallet, hid]
  | posted f u w hu hcommit hfind happly =>
    rw [hcommit, Collection.find_modify]
    by_cases hid : userId = f.userId
    · subst hid
      simp [hfind, happly, Wallet.post, Prod.ext_iff]
    · simp [hid, Ne.symm hid]

theorem ModelEffect.earned (h : ModelEffect op tr db.modelWallets c r db'.modelWallets)
    (modelId : String) :
    db'.earnedBalance modelId = db.earnedBalance modelId + (op.modelChange modelId c r).getD 0 ∧
      db'.modelVersion modelId =
        db.modelVersion modelId + (op.modelChange modelId c r).toList.length := by
  simp only [Db.earnedBalance, Db.modelVersion, Operation.modelChange]
  generalize db'.modelWallets = ms' at h
  cases h with
  | kept hcommit => simp [hcommit]
  | opened currency id hcommit hfree =>
    rw [hcommit, Collection.find_insert hfree]
    by_cases hid : modelId = id
    · subst hid
      have hnone : db.modelWallets.find modelId = none := hfree.find
      simp [hnone, WalletService.newModelWallet]
    · simp [WalletService.newModelWallet, hid]
  | posted f u m hu hcommit hfind happly =>
    rw [hcommit, Collection.find_modify]
    by_cases hid : modelId = f.modelId
    · subst hid
      simp [hfind, happly, ModelWallet.post]
    · simp [hid, Ne.symm hid]

/-- The escrow change of a partial settlement's update is the amount of the item
the same call has locked. -/
def TakesLocked (call : Call) (h : List (Event Mongo Call)) (ev : Event Mongo Call) : Prop :=
  ∀ request f u, call.operation = .partialSettle request → ev.cmd.walletCommit ev.reply = some (f, u) →
    ∃ lock ∈ h, ∃ i, lock.cmd.locked lock.reply = some i ∧ i.escrowId = request.escrowId ∧
      u.escrowChange = -i.amount

/-- The item a partial settlement has locked is on record, as are those its
committed updates took. -/
structure LockRecorded (call : Call) (h : List (Event Mongo Call)) (tr : Track) : Prop where
  locked : ∀ request i, call.operation = .partialSettle request → tr.stage.item = some i →
    ∃ lock ∈ h, lock.cmd.locked lock.reply = some i ∧ i.escrowId = request.escrowId
  takes : ∀ ev ∈ h, TakesLocked call h ev

end step

section runs
variable {config : Config} {A : Schedule} {d : Db} {s : Run}

theorem wallets_follow_changes (hA : Serves A) (h : (system config).Reaches A (.start d) s)
    (userId : String) :
    s.db.balances userId = d.balances userId + (walletChanges userId s.log).sum ∧
      s.db.version userId = d.version userId + (walletChanges userId s.log).length := by
  induction h using Machine.Reaches.by_steps with
  | start => simp [State.start, walletChanges]
  | spawn s t c _ _ _ ih => exact ih
  | act s t o call c k hs _ ht ih =>
    obtain ⟨hbalances, hversion⟩ := (acted_wallets hA hs ht o).balances userId
    simp only [Machine.acted_db, Machine.acted_log, system_exec, walletChanges, List.filterMap_cons]
      at ih ⊢
    rw [hbalances, hversion, ih.1, ih.2]
    cases call.operation.walletChange userId c (exec o s.db c).1 with
    | none => simp
    | some x =>
      constructor
      · simp only [Option.getD_some, List.sum_cons]
        abel
      · simp [add_assoc]
  | restart s t o call c _ _ _ ih => exact ih

theorem models_follow_changes (hA : Serves A) (h : (system config).Reaches A (.start d) s)
    (modelId : String) :
    s.db.earnedBalance modelId = d.earnedBalance modelId + (modelChanges modelId s.log).sum ∧
      s.db.modelVersion modelId = d.modelVersion modelId + (modelChanges modelId s.log).length := by
  induction h using Machine.Reaches.by_steps with
  | start => simp [State.start, modelChanges]
  | spawn s t c _ _ _ ih => exact ih
  | act s t o call c k hs _ ht ih =>
    obtain ⟨hearned, hversion⟩ := (acted_modelWallets hA hs ht o).earned modelId
    simp only [Machine.acted_db, Machine.acted_log, system_exec, modelChanges, List.filterMap_cons]
      at ih ⊢
    rw [hearned, hversion, ih.1, ih.2]
    cases call.operation.modelChange modelId c (exec o s.db c).1 with
    | none => simp
    | some x =>
      constructor
      · simp only [Option.getD_some, List.sum_cons]
        abel
      · simp [add_assoc]
  | restart s t o call c _ _ _ ih => exact ih

private theorem takes_locked_step {call : Call} {hist : List (Event Mongo Call)} {tr : Track} {t : ℕ}
    {c : Cmd} {r : c.Reply} (hmay : call.operation = .other ∨ call.operation.Permits tr c)
    (hr : Possible c r) (h : LockRecorded call hist tr) :
    LockRecorded call (⟨t, call, c, r⟩ :: hist) (tr.after call.operation c r) := by
  obtain ⟨hlocked, htakes⟩ := h
  constructor
  · intro request i hop hi
    have hpermits := hmay.resolve_left (by simp [hop])
    obtain ⟨o, db, rfl⟩ := hr
    have heffect : ItemEffect _ _ db.escrowItems c _ _ := item_effect o hpermits
    rcases heffect.item hi with hbefore | ⟨hnow, -, htarget⟩ | ⟨_, hhold⟩
    · obtain ⟨lock, hmem, hlock⟩ := hlocked request i hop hbefore
      exact ⟨lock, .tail _ hmem, hlock⟩
    · rw [hop] at htarget
      exact ⟨_, .head _, hnow, (Option.some.inj htarget).symm⟩
    · rw [hop] at hhold
      cases hhold
  · intro ev hev request f u hop hcommit
    rcases List.mem_cons.mp hev with rfl | hmem
    · have hpermits := hmay.resolve_left (by simp [hop])
      cases c with
      | updateWallet f' u' =>
        obtain ⟨rfl, rfl⟩ : f' = f ∧ u' = u := by
          simp only [Cmd.walletCommit] at hcommit
          split at hcommit
          · simpa using hcommit
          · cases hcommit
        obtain ⟨w, -, -, -, hpay⟩ := hpermits
        rw [hop] at hpay
        obtain ⟨i, hstage, -, -, hchange⟩ := hpay
        obtain ⟨lock, hmem, hlock, hid⟩ := hlocked request i hop (by rw [hstage, Stage.item])
        exact ⟨lock, .tail _ hmem, i, hlock, hid, hchange⟩
      | _ => cases hcommit
    · obtain ⟨lock, hlock, i, hi⟩ := htakes ev hmem request f u hop hcommit
      exact ⟨lock, .tail _ hlock, i, hi⟩

private theorem locks_recorded (h : (system config).Reaches A (.start d) s) :
    ∀ t call tr, protocol.track s t = some (call, tr) → LockRecorded call (s.history t) tr :=
  (protocol_kept config).invariant
    (fun _ => ⟨by simp [Stage.item], by simp⟩)
    (fun _ _ _ _ _ _ ih hmay hr => takes_locked_step hmay hr ih) h

theorem partial_settlements_take_locked (h : (system config).Reaches A (.start d) s) :
    ∀ ev ∈ s.log, TakesLocked ev.call (s.history ev.thread) ev := by
  intro ev hev
  have htrack : protocol.track s ev.thread =
      some (ev.call, protocol.record ev.call (s.history ev.thread)) := by
    rw [Contract.track, h.calls_of_log ev hev, Option.map_some]
  exact (locks_recorded h _ _ _ htrack).takes ev (s.mem_history.mpr ⟨hev, rfl⟩)

/-- No lost update: under any interleaving of service calls every wallet holds what it held at first
plus the changes committed on it, at a version that counts them. Amounts are exact, identifiers
trimmed and dates valid. -/
theorem balances_follow_commits
    (h : (system config).Reaches (only Call.isService) (.start d) s) :
    (∀ userId, s.db.balances userId = d.balances userId + (walletChanges userId s.log).sum ∧
      s.db.version userId = d.version userId + (walletChanges userId s.log).length) ∧
    (∀ modelId, s.db.earnedBalance modelId = d.earnedBalance modelId + (modelChanges modelId s.log).sum ∧
      s.db.modelVersion modelId = d.modelVersion modelId + (modelChanges modelId s.log).length) ∧
    ∀ ev ∈ s.log, TakesLocked ev.call (s.history ev.thread) ev := by
  have hserves : Serves (only Call.isService) := by
    apply serves_only
    intro c hc
    cases c <;> simp_all [Call.isService, Call.operation]
  exact ⟨wallets_follow_changes hserves h, models_follow_changes hserves h,
    partial_settlements_take_locked h⟩

end runs

section scenario

def tick (n : ℕ) : Oracle := ⟨"id-" ++ toString n, n, none, none⟩

/-- The clock goes on where another call has ended. -/
def later (start n : ℕ) : Oracle := tick (start + n)

/-- The steps of the given threads, one clock tick apart. -/
def interleaving (threads : List ℕ) : List (Label Oracle Call) :=
  threads.zipIdx.map fun x => .run x.1 (tick x.2)

def sampleHold : EscrowHoldRequest where
  userId := "user-1"
  amount := 30
  reason := .spinWheelPlay
  queueItemId := "queue-1"
  featureType := "spin_wheel"
  idempotencyKey := "hold-1"
  requestId := "request-1"
  metadata := none

def sampleAward : AwardPointsRequest where
  userId := "user-1"
  amount := 20
  reason := .promotionalAward
  idempotencyKey := "award-1"
  requestId := "request-2"
  tenantId := "tenant-1"
  metadata := none
  expiresAt := none

def fundedDb : Db :=
  { Db.empty with wallets := Collection.empty.insert ⟨"user-1", 100, 0, "points", 0⟩ }

/-- A user with a single point. -/
def pointDb : Db :=
  { Db.empty with wallets := Collection.empty.insert ⟨"user-1", 1, 0, "points", 0⟩ }

/-- The award commits between the hold's read and its update, so the hold makes a
second attempt. -/
theorem balances_follow_commits_after_retry :
    ∃ s, (system (defaultConfig fun _ => none)).Reaches (only Call.isService) (.start fundedDb) s ∧
      (s.db.balances "user-1", walletChanges "user-1" s.log) = ((90, 30), [(-30, 30), (20, 0)]) ∧
      s.db.balances "user-1" = fundedDb.balances "user-1" + (walletChanges "user-1" s.log).sum := by
  obtain ⟨s, hs, hfacts⟩ := Machine.exists_reaches (system (defaultConfig fun _ => none))
    (only Call.isService) (.start fundedDb) ([.spawn 0 (.hold sampleHold), .spawn 1 (.award sampleAward)] ++
      interleaving ([0, 0, 0, 0, 1, 1, 1] ++ List.replicate 21 0))
    (fun s => (s.db.balances "user-1", walletChanges "user-1" s.log))
    (a := ((90, 30), [(-30, 30), (20, 0)])) (by decide +kernel)
  exact ⟨s, hs, hfacts, ((balances_follow_commits hs).1 "user-1").1⟩

end scenario
end RedRoomRewards
