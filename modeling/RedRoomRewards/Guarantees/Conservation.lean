import RedRoomRewards.Guarantees.BalanceLaw
import RedRoomRewards.Process.History
import Mathlib.Tactic.Ring

/-! Holds, settlements and refunds move points between wallets and create or
destroy none, unless a settlement loses a race half-way. -/
namespace RedRoomRewards
open Process Store

/-- Escrow operations only: holds, settlements, refunds and partial settlements. -/
def Call.isEscrow : Call → Bool
  | .hold _ | .redeem _ | .settle .. | .refund .. | .partialSettle .. => true
  | _ => false

theorem serves_isEscrow : Serves (only Call.isEscrow) :=
  serves_only fun c hc => by cases c <;> simp_all [Call.isEscrow, Call.operation]

/-- All points in the wallets of users and models. -/
def Db.points (db : Db) : ℚ :=
  db.wallets.total (fun w => w.availableBalance + w.escrowBalance) +
    db.modelWallets.total ModelWallet.earnedBalance

section step
variable (op : Operation)

/-- The points a user wallet update adds or takes. -/
def Operation.gain (u : WalletUpdate) : ℚ := (op.delta u).1 + (op.delta u).2

/-- The points a command and its reply add or take. -/
def Operation.net (c : Cmd) (r : c.Reply) : ℚ :=
  (c.walletCommit r).elim 0 (fun x => op.gain x.2) + (c.modelCommit r).elim 0 (fun _ => op.earned)

variable {op} {tr : Track} {db db' : Db} {c : Cmd} {r : c.Reply}

theorem WalletEffect.total (h : WalletEffect op tr db.wallets c r db'.wallets) :
    db'.wallets.total (fun w => w.availableBalance + w.escrowBalance) =
      db.wallets.total (fun w => w.availableBalance + w.escrowBalance) +
        (c.walletCommit r).elim 0 (fun x => op.gain x.2) := by
  generalize db'.wallets = ws' at h
  cases h with
  | kept hcommit => simp [hcommit]
  | opened currency id hcommit hfree =>
    rw [Collection.total_insert hfree, hcommit]
    simp [WalletService.newWallet]
  | posted f u w hu hcommit hfind happly =>
    rw [Collection.total_modify hfind, hcommit, happly]
    simp only [Wallet.post, Operation.gain, Option.elim_some]
    ring

theorem ModelEffect.total (h : ModelEffect op tr db.modelWallets c r db'.modelWallets) :
    db'.modelWallets.total ModelWallet.earnedBalance =
      db.modelWallets.total ModelWallet.earnedBalance +
        (c.modelCommit r).elim 0 (fun _ => op.earned) := by
  generalize db'.modelWallets = ms' at h
  cases h with
  | kept hcommit => simp [hcommit]
  | opened currency id hcommit hfree =>
    rw [Collection.total_insert hfree, hcommit]
    simp [WalletService.newModelWallet]
  | posted f u m hu hcommit hfind happly =>
    rw [Collection.total_modify hfind, hcommit, happly]
    simp only [ModelWallet.post, Option.elim_some]
    ring

end step

section threads
variable {op : Operation} {tr : Track} {i : EscrowItem}

/-- What a call with this record has added or taken. -/
def Operation.balance (op : Operation) (tr : Track) : ℚ :=
  tr.committed.elim 0 (fun x => op.gain x.2) + if tr.stage.modelMoved op then op.earned else 0

theorem Operation.Counts.net {hist : List (Event Mongo Call)} (h : op.Counts hist tr) :
    (hist.map (fun ev => op.net ev.cmd ev.reply)).sum = op.balance tr := by
  have hsum : ∀ hist : List (Event Mongo Call), (hist.map (fun ev => op.net ev.cmd ev.reply)).sum =
      ((hist.filterMap (fun ev => ev.cmd.walletCommit ev.reply)).map (fun x => op.gain x.2)).sum +
        hist.countP (fun ev => (ev.cmd.modelCommit ev.reply).isSome) * op.earned := by
    intro hist
    induction hist with
    | nil => simp
    | cons ev hist ih =>
      rw [List.map_cons, List.sum_cons, ih, Operation.net, List.filterMap_cons, List.countP_cons]
      cases ev.cmd.walletCommit ev.reply <;> cases ev.cmd.modelCommit ev.reply <;> simp <;> ring
  rw [hsum, h.wallets, h.models, Operation.balance]
  cases tr.committed <;> cases tr.stage.modelMoved op <;> simp

/-- The request names the user and the amount of the item. -/
def Operation.Agrees (op : Operation) (i : EscrowItem) : Prop :=
  match op with
  | settle request => request.amount = i.amount
  | refund request => request.userId = i.userId ∧ request.amount = i.amount
  | partialSettle request =>
    request.userId = i.userId ∧ request.refundAmount + request.settleAmount = i.amount
  | _ => True

instance (op : Operation) (i : EscrowItem) : Decidable (op.Agrees i) :=
  match op with
  | .settle _ => inferInstanceAs (Decidable (_ = _))
  | .refund _ | .partialSettle _ => inferInstanceAs (Decidable (_ ∧ _))
  | .hold _ | .award _ | .deduct _ | .expire _ | .adjust _ | .other => inferInstanceAs (Decidable True)

/-- The call was stopped after moving one of the two wallets of a settlement. -/
def Stage.stopped : Stage → Bool
  | beaten _ halfway | reopened _ halfway => halfway
  | _ => false

theorem Stage.stopped_userPaid (op : Operation) (s : Stage) : (s.userPaid op).stopped = s.stopped := by
  cases s with
  | locked i => cases h : op.isPartial <;> simp [userPaid, h, stopped]
  | _ => rfl

theorem Stage.stopped_modelPaid (s : Stage) : s.modelPaid.stopped = s.stopped := by cases s <;> rfl

theorem Stage.stopped_unlocked (s : Stage) : s.unlocked.stopped = s.stopped := by cases s <;> rfl

/-- One of the two wallets of a settlement has moved and the other has not. -/
def Stage.Halfway : Stage → Prop
  | credited _ | debited _ => True
  | s => s.stopped = true

/-- A settlement, whole or partial. -/
def Operation.Settles (op : Operation) : Prop :=
  (∃ request, op = .settle request) ∨ ∃ request, op = .partialSettle request

private theorem Operation.Settles.moved {ids : List String} {stage : Stage} (hop : op.Settles)
    (hsuits : op.Suits ids stage) (hhalf : ¬ stage.Halfway) :
    stage.userMoved op = stage.modelMoved op := by
  cases stage with
  | charged i =>
    obtain ⟨request, rfl, -⟩ := hsuits
    obtain ⟨_, h⟩ | ⟨_, h⟩ := hop <;> cases h
  | credited i | debited i => exact absurd trivial hhalf
  | paid i | closed i => obtain ⟨_, rfl⟩ | ⟨_, rfl⟩ := hop <;> rfl
  | beaten i halfway | reopened i halfway =>
    cases halfway with
    | true => exact absurd rfl hhalf
    | false => rfl
  | posted =>
    obtain ⟨_, rfl⟩ | ⟨_, rfl⟩ := hop <;> cases hsuits
  | _ => rfl

private theorem Operation.Fits.taken (hfit : op.Fits tr)
    (hagrees : ∀ i, tr.stage.item = some i → op.Agrees i) (hop : op.Settles) :
    tr.committed.elim 0 (fun x => op.gain x.2) = if tr.stage.userMoved op then -op.earned else 0 := by
  rw [← hfit.moved]
  cases hcommitted : tr.committed with
  | none => simp
  | some x =>
    obtain ⟨request, rfl⟩ | ⟨request, rfl⟩ := hop
    · simp [Operation.gain, Operation.delta, Operation.earned]
    · have hmoved := hfit.moved
      rw [hcommitted] at hmoved
      obtain ⟨i, hi⟩ := hfit.stage.item_of_moved rfl hmoved.symm
      have htook := hfit.took x.1 x.2 i rfl hcommitted hi
      have hsum := (hagrees i hi).2
      simp only [Option.elim_some, Operation.gain, Operation.delta, htook, ← hsum, Option.isSome_some,
        if_true, Operation.earned]
      ring

/-- A call that is not half-way, or that settles nothing, has added and taken nothing. -/
theorem Operation.Fits.balance_eq_zero (hfit : op.Fits tr)
    (hagrees : ∀ i, tr.stage.item = some i → op.Agrees i)
    (hop : op.Settles ∨ ∀ u, op.gain u = 0 ∧ op.earned = 0)
    (h : op.earned = 0 ∨ ¬ tr.stage.Halfway) : op.balance tr = 0 := by
  rw [Operation.balance]
  rcases hop with hop | hzero
  · rw [hfit.taken hagrees hop]
    rcases h with hearned | hhalf
    · simp [hearned]
    · rw [hop.moved hfit.stage hhalf]
      cases tr.stage.modelMoved op <;> simp
  · have hgain : tr.committed.elim 0 (fun x => op.gain x.2) = 0 := by
      cases tr.committed with
      | none => rfl
      | some x => exact (hzero x.2).1
    rw [hgain, (hzero (.inc 0 0 0)).2]
    simp

end threads

section replies
variable {o : Oracle} {db : Db}

theorem exec_updateWallet_none {f : WalletFilter} {u : WalletUpdate}
    (h : (exec o db (.updateWallet f u)).1 = none) : (db.wallets.find f.userId).any f.accepts = false := by
  simp only [exec, Db.updateWallet] at h
  cases hfind : db.wallets.find f.userId with
  | none => rfl
  | some w =>
    rw [hfind] at h
    by_cases haccepts : f.accepts w = true
    · simp [haccepts] at h
    · simpa using haccepts

theorem exec_updateModelWallet_none {f : ModelWalletFilter} {u : ModelWalletUpdate}
    (h : (exec o db (.updateModelWallet f u)).1 = none) :
    (db.modelWallets.find f.modelId).any (fun m => m.version = f.version) = false := by
  simp only [exec, Db.updateModelWallet] at h
  cases hfind : db.modelWallets.find f.modelId with
  | none => rfl
  | some m =>
    rw [hfind] at h
    by_cases hversion : m.version = f.version
    · simp [hversion] at h
    · simpa using hversion

theorem after_missing {op : Operation} {tr : Track} {c : Cmd}
    (h : (tr.after op c (exec o db c).1).missing = true) :
    tr.missing = true ∨ ∃ id, c = .findWallet id ∧ db.wallets.find id = none := by
  cases c with
  | findWallet id =>
    cases hfind : db.wallets.find id with
    | none => exact .inr ⟨id, rfl, hfind⟩
    | some w =>
      left
      simpa [Track.after, exec, hfind] using h
  | _ => exact .inl h

end replies

section schedules

/-- Whoever is about to lock an item names its user and its amount. -/
def NamesItem (s : Run) (_ : Oracle) (call : Call) : Cmd → Prop
  | .lockEscrowItem id _ _ => ∀ i ∈ s.db.escrowItems.find id, call.operation.Agrees i
  | _ => True

/-- The second half of a settlement goes through: when it reads and updates the
user's wallet, or a partial settlement the model's, that wallet is there and
unchanged since it was read. Settling nothing cannot go wrong. -/
def GoesThrough (s : Run) (_ : Oracle) (call : Call) (c : Cmd) : Prop :=
  match call.operation, c with
  | .settle request, .findWallet id => request.amount ≠ 0 → (s.db.wallets.find id).isSome
  | .settle request, .updateWallet f _ =>
    request.amount ≠ 0 → (s.db.wallets.find f.userId).any f.accepts
  | .partialSettle request, .updateModelWallet f _ =>
    request.settleAmount ≠ 0 → (s.db.modelWallets.find f.modelId).any (fun m => m.version = f.version)
  | _, _ => True

instance (s : Run) (o : Oracle) (call : Call) (c : Cmd) : Decidable (NamesItem s o call c) := by
  unfold NamesItem
  split <;> infer_instance

instance (s : Run) (o : Oracle) (call : Call) (c : Cmd) : Decidable (GoesThrough s o call c) := by
  unfold GoesThrough
  split <;> infer_instance

/-- Escrow operations whose requests agree with the items they close. -/
def Honest : Schedule := fun s l => only Call.isEscrow s l ∧ State.Issues NamesItem s l

/-- Honest runs in which no settlement is stopped half-way. -/
def Undisturbed : Schedule := fun s l => Honest s l ∧ State.Issues GoesThrough s l

instance (s : Run) (l : Label Oracle Call) : Decidable (Honest s l) :=
  inferInstanceAs (Decidable (_ ∧ _))

instance (s : Run) (l : Label Oracle Call) : Decidable (Undisturbed s l) :=
  inferInstanceAs (Decidable (_ ∧ _))

end schedules

section runs
variable {config : Config} {A : Schedule} {d : Db} {s : Run}

theorem points_follow_log (hA : Serves A) (h : (system config).Reaches A (.start d) s) :
    s.db.points = d.points + (s.log.map (fun ev => ev.call.operation.net ev.cmd ev.reply)).sum := by
  induction h using Machine.Reaches.by_steps with
  | start => simp [State.start]
  | spawn s t c _ _ _ ih => exact ih
  | act s t o call c k hs _ ht ih =>
    have hwallets := (acted_wallets hA hs ht o).total
    have hmodels := (acted_modelWallets hA hs ht o).total
    simp only [Machine.acted_db, Machine.acted_log, system_exec, List.map_cons, List.sum_cons]
    rw [Db.points, hwallets, hmodels, Operation.net]
    rw [Db.points] at ih
    linarith
  | restart s t o call c _ _ _ ih => exact ih

/-- In an honest run every call agrees with the item it has locked. -/
theorem agreed (hA : Serves A) (hnames : ∀ s l, A s l → State.Issues NamesItem s l)
    (h : (system config).Reaches A (.start d) s) : ∀ t call tr,
      protocol.track s t = some (call, tr) → ∀ i, tr.stage.item = some i → call.operation.Agrees i := by
  refine Contract.tracks_invariant (K := protocol) (P := fun _ _ call tr => ∀ i, tr.stage.item = some i →
    call.operation.Agrees i) h (by simp [Stage.item]) ?_
  intro s t o call c k hs hAs ht ih
  refine ⟨fun i hi => ?_, fun t' call' tr _ htr => ih t' call' tr htr⟩
  rcases (acted_items hA hs ht o).item hi with hbefore | ⟨hnow, -⟩ | ⟨_, hhold⟩
  · exact ih t _ _ (Contract.track_of_thread ht) i hbefore
  · cases c with
    | lockEscrowItem id status at' =>
      exact (hnames s _ hAs).command ht i (exec_lockEscrowItem hnow).1
    | _ => cases hnow
  · simp [hhold, Operation.Agrees]

/-- The call has not been stopped half-way, unless it settles nothing. -/
structure Operation.Whole (op : Operation) (tr : Track) : Prop where
  stage : op.earned ≠ 0 → tr.stage.stopped = false
  found : ∀ request, op = .settle request → op.earned ≠ 0 → tr.missing = false

theorem ItemEffect.whole {tr : Track} {s : Run} {o : Oracle} {call : Call} {c : Cmd}
    {items : EscrowItems}
    (h : ItemEffect call.operation tr s.db.escrowItems c (exec o s.db c).1 items)
    (hfit : call.operation.Fits tr) (hgo : GoesThrough s o call c) (hwhole : call.operation.Whole tr) :
    call.operation.Whole (tr.after call.operation c (exec o s.db c).1) := by
  obtain ⟨hstage, hfound⟩ := hwhole
  refine ⟨fun hearned => ?_, fun request hop hearned => ?_⟩
  · generalize hr : (exec o s.db c).1 = r at h ⊢
    cases h with
    | silent hsame => exact hsame ▸ hstage hearned
    | claimed | created | locked | deleted => rfl
    | paid => exact (Stage.stopped_userPaid _ _).trans (hstage hearned)
    | missed f u w hpay =>
      show tr.stage.userMissed.stopped = false
      have hsuits := hfit.stage
      have hpaying := hpay.paying
      generalize tr.stage = st at hsuits hpaying
      cases hpaying with
      | hold i | close i | post => rfl
      | settle i =>
        obtain ⟨⟨request, hop⟩, -⟩ := hsuits
        simp only [GoesThrough, hop] at hgo
        have haccepts := hgo (by simpa [hop, Operation.earned] using hearned)
        rw [exec_updateWallet_none hr] at haccepts
        cases haccepts
    | credited => exact (Stage.stopped_modelPaid _).trans (hstage hearned)
    | uncredited f u m hcredit =>
      show tr.stage.modelMissed.stopped = false
      have hcrediting := hcredit.crediting
      generalize tr.stage = st at hcrediting
      cases hcrediting with
      | settle i request hop => rfl
      | partialSettle i request hop =>
        simp only [GoesThrough, hop] at hgo
        have haccepts := hgo (by simpa [hop, Operation.earned] using hearned)
        rw [exec_updateModelWallet_none hr] at haccepts
        cases haccepts
    | unlocked => exact (Stage.stopped_unlocked _).trans (hstage hearned)
  · rw [Bool.eq_false_iff]
    intro hmissing
    rcases after_missing hmissing with hbefore | ⟨id, rfl, hnone⟩
    · rw [hfound request hop hearned] at hbefore
      cases hbefore
    · simp only [GoesThrough, hop] at hgo
      have hsome := hgo (by simpa [hop, Operation.earned] using hearned)
      simp [hnone] at hsome

theorem whole (hA : Serves A) (hgoes : ∀ s l, A s l → State.Issues GoesThrough s l)
    (h : (system config).Reaches A (.start d) s) : ∀ t call tr,
      protocol.track s t = some (call, tr) → call.operation.Whole tr := by
  refine Contract.tracks_invariant (K := protocol) (P := fun _ _ call tr => call.operation.Whole tr) h
    (fun _ _ _ _ => ⟨fun _ => rfl, fun _ _ _ => rfl⟩) ?_
  intro s t o call c k hs hAs ht ih
  have htrack := Contract.track_of_thread (K := protocol) ht
  have hne := operation_ne_other hA hs (State.calls_of_thread ht)
  refine ⟨?_, fun t' call' tr _ htr => ih t' call' tr htr⟩
  exact (acted_items hA hs ht o).whole (recorded hs t call _ htrack hne).1
    ((hgoes s _ hAs).command ht) (ih t _ _ htrack)

/-- A call that has ended in an undisturbed run has added and taken nothing. -/
private theorem ended_balance {op : Operation} {tr : Track} {r : Except ServiceError Response}
    (hop : op.Settles ∨ ∀ u, op.gain u = 0 ∧ op.earned = 0) (hfit : op.Fits tr) (hwhole : op.Whole tr)
    (hagrees : ∀ i, tr.stage.item = some i → op.Agrees i) (hends : op.Ends tr r) : op.balance tr = 0 := by
  apply hfit.balance_eq_zero hagrees hop
  by_cases hearned : op.earned = 0
  · exact .inl hearned
  · right
    have hstopped := hwhole.stage hearned
    intro hhalf
    cases hst : tr.stage with
    | credited i =>
      have hsuits := hfit.stage
      rw [hst] at hsuits
      obtain ⟨⟨request, rfl⟩, -⟩ := hsuits
      have hfound := hwhole.found request rfl hearned
      rw [hends.missing hst] at hfound
      cases hfound
    | debited i => exact hends.not_owing (by rw [hst, Stage.Owing]; trivial)
    | _ =>
      rw [hst] at hhalf hstopped
      exact Bool.noConfusion (hstopped.symm.trans hhalf)

theorem isEscrow_settles {call : Call} (h : call.isEscrow = true) :
    call.operation.Settles ∨ ∀ u, call.operation.gain u = 0 ∧ call.operation.earned = 0 := by
  cases call with
  | settle request _ => exact .inl (.inl ⟨request, rfl⟩)
  | partialSettle request _ => exact .inl (.inr ⟨request, rfl⟩)
  | hold | refund | redeem =>
    right
    intro u
    simp [Call.operation, Operation.gain, Operation.delta, Operation.earned]
  | _ => cases h

/-- Conservation of points, as long as no settlement is stopped half-way. Amounts are exact,
identifiers trimmed and dates valid. -/
theorem points_conserved (h : (system config).Reaches Undisturbed (.start d) s) (hq : s.Quiescent) :
    s.db.points = d.points := by
  have hserves : Serves Undisturbed := fun s t c hA => serves_isEscrow s t c hA.1.1
  rw [points_follow_log hserves h, State.sum_log]
  rw [Finset.sum_eq_zero, add_zero]
  intro t _
  cases hcall : s.calls t with
  | none => simp [h.history_of_unspawned hcall]
  | some call =>
    have htrack : protocol.track s t = some (call, protocol.record call (s.history t)) := by
      rw [Contract.track, hcall, Option.map_some]
    have hne : call.operation ≠ .other := operation_ne_other hserves h hcall
    have hescrow : call.isEscrow = true := h.calls_satisfy (fun s t c hA => hA.1.1) hcall
    have hagrees := agreed hserves (fun s l hA => hA.1.2) h t call _ htrack
    have hwhole := whole hserves (fun s l hA => hA.2) h t call _ htrack
    obtain ⟨hfit, hcounts⟩ := recorded h t call _ htrack hne
    obtain ⟨r, hr⟩ : ∃ r, s.result t = some r :=
      Option.isSome_iff_exists.mp (hq t (by simpa [State.calls] using congrArg Option.isSome hcall))
    rw [← ended_balance (isEscrow_settles hescrow) hfit hwhole hagrees (ended h htrack hne hr),
      ← hcounts.net]
    exact congrArg List.sum (List.map_congr_left fun ev hev => by rw [h.call_of_history hev hcall])

end runs

section scenario

def sampleItem : EscrowItem where
  escrowId := "escrow-1"
  userId := "user-1"
  amount := 5
  status := .held
  queueItemId := "queue-0"
  featureType := "spin_wheel"
  reason := .spinWheelPlay
  metadata := none
  createdAt := 0
  processedAt := none
  modelId := none

def sampleSettle : EscrowSettleRequest where
  escrowId := "escrow-1"
  modelId := "model-1"
  amount := 5
  queueItemId := "queue-0"
  reason := .performanceCompleted
  idempotencyKey := "settle-1"
  requestId := "request-3"
  metadata := none

def sampleAuthorization : QueueSettlementAuthorization where
  queueItemId := "queue-0"
  token := "token"
  escrowId := "escrow-1"
  modelId := "model-1"
  amount := 5
  reason := .performanceCompleted
  issuedAt := 0
  expiresAt := 300000

/-- One user with one held item. -/
def escrowedDb : Db :=
  { Db.empty with
    wallets := Collection.empty.insert ⟨"user-1", 100, 5, "points", 0⟩
    escrowItems := Collection.empty.insert sampleItem }

/-- A settlement and a hold one after the other conserve the points. -/
theorem points_conserved_one_by_one : ∃ s, (system (defaultConfig fun _ => none)).Reaches Undisturbed
    (.start escrowedDb) s ∧ s.Quiescent ∧ s.log.length = 38 ∧ s.db.points = escrowedDb.points := by
  obtain ⟨s, hs, hfacts⟩ := Machine.exists_reaches (system (defaultConfig fun _ => none))
    Undisturbed (.start escrowedDb)
    ([.spawn 0 (.settle sampleSettle sampleAuthorization), .spawn 1 (.hold sampleHold)] ++
      interleaving (List.replicate 19 0 ++ List.replicate 19 1))
    (fun s => (s.log.length, s.spawns.all fun x => (s.result x.1).isSome))
    (a := (38, true)) (by decide +kernel)
  obtain ⟨hlength, hended⟩ := Prod.mk.inj hfacts
  have hq : s.Quiescent := hs.quiescent_iff.mpr (by simpa using hended)
  exact ⟨s, hs, hq, hlength, points_conserved hs hq⟩

/-- A hold commits between a settlement's read of the user's wallet and its
update: the settlement fails after the model has been credited. -/
theorem points_not_conserved : ∃ s, (system (defaultConfig fun _ => none)).Reaches Honest
    (.start escrowedDb) s ∧ s.Quiescent ∧ escrowedDb.points = 105 ∧ s.db.points = 110 := by
  obtain ⟨s, hs, hfacts⟩ := Machine.exists_reaches (system (defaultConfig fun _ => none))
    Honest (.start escrowedDb)
    ([.spawn 0 (.settle sampleSettle sampleAuthorization), .spawn 1 (.hold sampleHold)] ++
      interleaving (List.replicate 9 0 ++ List.replicate 19 1 ++ [0, 0]))
    (fun s => (s.spawns.all fun x => (s.result x.1).isSome, s.db.points))
    (a := (true, 110)) (by decide +kernel)
  obtain ⟨hended, hpoints⟩ := Prod.mk.inj hfacts
  exact ⟨s, hs, hs.quiescent_iff.mpr (by simpa using hended), by decide +kernel, hpoints⟩

end scenario
end RedRoomRewards
