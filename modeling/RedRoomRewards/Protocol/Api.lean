import RedRoomRewards.Alone.Commands
import RedRoomRewards.Service.WalletController

/-! A request to a wallet endpoint as a protocol: it looks its key up first, changes the
wallet at most once and then records its result. -/
namespace RedRoomRewards
open Process Store IdempotencyService

section protocol

/-- How far a request has come: it has found a result on record, or none; then it has
changed the wallet, and recorded its own result. -/
inductive ApiStage where
  | fresh
  | answered (result : Json)
  | working
  | charged
  | stored (result : Json)

/-- The commands that change neither a wallet nor the idempotency records. -/
def Cmd.incidental : Cmd → Prop
  | createLedgerEntry _ => True
  | c => c.touches = none

def ApiStage.next : (x : ApiStage) → (c : Cmd) → c.Reply → ApiStage
  | .fresh, .findIdempotencyResult .., record => (storedResult record).elim .working .answered
  | .working, .updateWallet .., some _ => .charged
  | .charged, .createIdempotencyRecord r, .ok _ => .stored r.storedResult
  | x, _, _ => x

/-- A request that succeeds returns the result it has found or recorded. -/
def ApiStage.ends (x : ApiStage) : Except ServiceError Json → Prop
  | .ok result => x = .answered result ∨ x = .stored result
  | .error _ => True

/-- The commands a request may issue. -/
def ApiCall.may (call : ApiCall) (x : ApiStage) : Cmd → Prop
  | .findIdempotencyResult key scope => x = .fresh → key = call.request.idempotencyKey ∧ scope = call.scope
  | .createWallet w => x = .working ∧ ∃ currency, w = WalletService.newWallet currency call.userId
  | .updateWallet f u => x = .working ∧ f.userId = call.userId ∧ u = .inc call.change 0 1
  | .createIdempotencyRecord r => x = .charged ∧ r.claim = (call.request.idempotencyKey, call.scope) ∧
      ∃ fields, r.storedResult = .obj fields
  | c => x ≠ .fresh ∧ c.incidental

/-- Any number of requests with the same body, interleaved at the granularity of single
commands. -/
def requests (config : WalletController.Config) (call : ApiCall) :
    Machine Mongo Db Oracle Unit Json ServiceError where
  exec := exec
  body := fun () => call.body config >>= fun result => pure (.done result)

@[simp] theorem requests_exec (config : WalletController.Config) (call : ApiCall) :
    (requests config call).exec = exec := rfl

def answering (call : ApiCall) : Contract Mongo Unit Json ServiceError ApiStage where
  start := fun () => .fresh
  next := fun () => ApiStage.next
  may := fun () => call.may
  ends := fun () => ApiStage.ends
  resumes := fun () () x => x = .fresh

end protocol

section rules
variable {config : WalletController.Config} {call : ApiCall} {x : ApiStage} {α β : Type}
variable {ends : ApiStage → Except ServiceError α → Prop}

/-- The program keeps to the protocol of the request. -/
abbrev Answers (config : WalletController.Config) (call : ApiCall)
    (ends : ApiStage → Except ServiceError α → Prop) (x : ApiStage) (p : Service α) : Prop :=
  Prog.Obeys ((answering call).rules (requests config call) ()) ends x p

private theorem answers_bind {ends : ApiStage → Except ServiceError β → Prop} {p : Service α} {f : α → Service β}
    (h : Answers config call (Prog.andThen ((answering call).rules (requests config call) ()) ends f) x p) :
    Answers config call ends x (p >>= f) := (Prog.obeys_bind p f x).mpr h

private theorem answers_throwIf {p : Prop} [Decidable p] {e : ServiceError} {f : Unit → Service α}
    (hthrow : ends x (.error e)) (hf : ¬ p → Answers config call ends x (f ())) :
    Answers config call ends x (Prog.throwIf p e >>= f) :=
  (Prog.obeys_throwIf_bind _ _ _ _).mpr ⟨fun _ => hthrow, hf⟩

theorem ApiStage.next_incidental {c : Cmd} (hx : x ≠ .fresh) (hc : c.incidental) (r : c.Reply) : x.next c r = x := by
  cases c with
  | findIdempotencyResult _ _ => cases x <;> first | rfl | exact absurd rfl hx
  | createIdempotencyRecord _ | createWallet _ | updateWallet _ _ => cases hc
  | _ => cases x <;> rfl

private theorem may_incidental {c : Cmd} (hx : x ≠ .fresh) (hc : c.incidental) : call.may x c := by
  cases c with
  | findIdempotencyResult _ _ => exact fun h => absurd h hx
  | createIdempotencyRecord _ | createWallet _ | updateWallet _ _ => cases hc
  | _ => exact ⟨hx, hc⟩

/-- Incidental commands leave the stage as it is. -/
private theorem answers_incidental {p : Service α} (hp : Within Cmd.incidental p) (hx : x ≠ .fresh)
    (hends : ∀ r, ends x r) : Answers config call ends x p := by
  induction p with
  | ret a => exact hends _
  | throw e => exact hends _
  | call c k ih =>
    obtain ⟨hc, hk⟩ := hp
    refine ⟨may_incidental hx hc, fun r _ => ?_⟩
    have hrest : Answers config call ends x (k r) := ih r (hk r trivial)
    rwa [← ApiStage.next_incidental hx hc r] at hrest

/-- The same for a program that goes on. -/
private theorem answers_after {p : Service β} {f : β → Service α} (hp : Within Cmd.incidental p) (hx : x ≠ .fresh)
    (herror : ∀ e, ends x (.error e)) (hf : ∀ b, Answers config call ends x (f b)) :
    Answers config call ends x (p >>= f) := by
  refine answers_bind (answers_incidental hp hx ?_)
  rintro (e | b)
  · exact herror e
  · exact hf b

private theorem incidental_reads (c : Cmd) (hc : c.touches = none) : c.incidental := by
  cases c <;> first | exact hc | trivial

private theorem within_check {p : Prop} [Decidable p] {e : ServiceError} :
    Within Cmd.incidental (Prog.throwIf p e) := by
  unfold Prog.throwIf
  split <;> trivial

private theorem within_found {e : ServiceError} (a : Option β) : Within Cmd.incidental (Prog.orThrow e a) := by
  cases a <;> trivial

private theorem within_validateAmount (config : PointAccrualService.Config) (amount : ℚ) :
    Within Cmd.incidental (PointAccrualService.validateAmount config amount) :=
  within_throwIf (within_throwIf within_check)

private theorem within_checkFirst {first : Prop} [Decidable first] {request : AwardPointsRequest} {scope : String} :
    Within Cmd.incidental (PointAccrualService.checkFirst first request scope) := by
  unfold PointAccrualService.checkFirst
  split
  · exact within_bind (within_issue rfl fun _ => trivial) fun _ => within_check
  · trivial

private theorem within_getUserBalance (userId : String) :
    Within Cmd.incidental (WalletService.getUserBalance userId) :=
  within_issue rfl fun w => by cases w <;> trivial

private theorem within_getWallet (userId : String) : Within Cmd.incidental (WalletController.getWallet userId) :=
  within_bind (within_getUserBalance userId) fun _ => within_issue rfl fun _ => within_issue rfl fun _ => trivial

/-- The wallet has been changed if the attempts succeed. -/
private def Charged : ApiStage → Except ServiceError AwardPointsResponse → Prop
  | x, .ok _ => x = .charged
  | _, .error _ => True

/-- What is left to do when the wallet has been changed. -/
private theorem answers_booking {ledger : LedgerService.Config}
    {entry : String → LedgerService.CreateLedgerEntryRequest} {response : String → Time → AwardPointsResponse} :
    Answers config call Charged .charged (do
      let transactionId : String ← issue .uuidv4
      let timestamp : Time ← issue .now
      let _ ← LedgerService.createEntry ledger (entry transactionId)
      pure (response transactionId timestamp)) := by
  have hwithin : Within Cmd.incidental (do
      let transactionId : String ← issue .uuidv4
      let timestamp : Time ← issue .now
      let _ ← LedgerService.createEntry ledger (entry transactionId)
      pure (response transactionId timestamp)) :=
    within_issue rfl fun _ => within_issue rfl fun _ =>
      within_bind (within_createEntry incidental_reads fun _ _ => trivial) fun _ => trivial
  refine answers_incidental hwithin nofun ?_
  rintro (e | a)
  · trivial
  · rfl

private theorem answers_updateWallet {f : WalletFilter} {k : Option Wallet → Service AwardPointsResponse}
    {change : ℚ} (hf : f.userId = call.userId) (hchange : change = call.change)
    (hmissed : Answers config call Charged .working (k none))
    (hcharged : ∀ w, Answers config call Charged .charged (k (some w))) :
    Answers config call Charged .working (issue (.updateWallet f (.inc change 0 1)) >>= k) := by
  refine ⟨⟨rfl, hf, by rw [hchange]⟩, fun r _ => ?_⟩
  cases r with
  | none => exact hmissed
  | some w => exact hcharged w

variable {accrual : PointAccrualService.Config} {request : AwardPointsRequest}

private theorem answers_getOrCreateWallet {currency : String} {f : Wallet → Service AwardPointsResponse}
    (hf : ∀ w, Answers config call Charged .working (f w)) :
    Answers config call Charged .working (WalletService.getOrCreateWallet currency call.userId >>= f) := by
  refine answers_bind ⟨⟨nofun, rfl⟩, fun w _ => ?_⟩
  cases w with
  | some w => exact hf w
  | none =>
    refine ⟨⟨rfl, currency, rfl⟩, fun r _ => ?_⟩
    cases r with
    | error e => trivial
    | ok w => exact hf w

private theorem answers_awardAttempts (huser : request.userId = call.userId) (hamount : request.amount = call.change)
    (left : ℕ) : Answers config call Charged .working (PointAccrualService.awardAttempts accrual request left) := by
  induction left with
  | zero => trivial
  | succ left ih =>
    refine answers_after (within_validateAmount _ _) nofun (fun _ => trivial) fun _ => ?_
    refine answers_after within_check nofun (fun _ => trivial) fun _ => ?_
    refine answers_after within_checkFirst nofun (fun _ => trivial) fun _ => ?_
    rw [huser]
    exact answers_getOrCreateWallet fun w => answers_updateWallet rfl hamount ih fun _ => answers_booking

private theorem answers_deductAttempts (huser : request.userId = call.userId) (hamount : -request.amount = call.change)
    (left : ℕ) : Answers config call Charged .working (PointAccrualService.deductAttempts accrual request left) := by
  induction left with
  | zero => trivial
  | succ left ih =>
    refine answers_after (within_validateAmount _ _) nofun (fun _ => trivial) fun _ => ?_
    refine answers_after within_check nofun (fun _ => trivial) fun _ => ?_
    refine answers_after within_checkFirst nofun (fun _ => trivial) fun _ => ?_
    refine answers_after (within_issue rfl fun _ => trivial) nofun (fun _ => trivial) fun w => ?_
    refine answers_after (within_found w) nofun (fun _ => trivial) fun w => ?_
    refine answers_after within_check nofun (fun _ => trivial) fun _ => ?_
    exact answers_updateWallet huser hamount ih fun _ => answers_booking

private theorem answers_recordKey {operation : String} {result : Json} {fields : List (String × Json)}
    (hscope : buildScope call.userId operation = call.scope) (hstored : result.stored = result)
    (hresult : result = .obj fields) :
    Answers config call ApiStage.ends .charged (do
      recordKey config.hashResult call.request.idempotencyKey call.userId operation result
      pure result) := by
  refine answers_bind ⟨⟨rfl, ?_, fields, hstored.trans hresult⟩, fun r _ => ?_⟩
  · rw [← hscope]
    rfl
  · cases r with
    | error e => trivial
    | ok record => exact .inr (congrArg ApiStage.stored hstored)

private theorem answers_transact {operation : String} {type : TransactionType} {amount : ℚ}
    {perform : Service AwardPointsResponse} (hscope : buildScope call.userId operation = call.scope)
    (hperform : Answers config call Charged .working perform) :
    Answers config call ApiStage.ends .fresh
      (WalletController.transact config call.userId call.request operation type amount perform) := by
  refine answers_throwIf trivial fun _ => answers_throwIf trivial fun _ => ?_
  refine answers_bind ⟨fun _ => ⟨rfl, hscope⟩, fun record _ => ?_⟩
  show Answers config call _ ((storedResult record).elim .working .answered) (.ret (storedResult record))
  cases storedResult record with
  | some result => exact .inl rfl
  | none =>
    refine answers_after (within_getUserBalance _) nofun (fun _ => trivial) fun previous => answers_bind ?_
    apply hperform.imp
    rintro x (e | award) hcharged
    · trivial
    · obtain rfl : x = .charged := hcharged
      refine answers_after (within_getWallet _) nofun (fun _ => trivial) fun wallet => ?_
      exact answers_recordKey hscope rfl rfl

end rules

/-- Every request keeps to the protocol. -/
theorem answering_kept (config : WalletController.Config) (call : ApiCall) :
    (answering call).Kept (requests config call) where
  starts := fun _ => rfl
  body := by
    rintro _ _ x rfl
    have hbody : Answers config call ApiStage.ends .fresh (call.body config) := by
      cases call with
      | credit userId request => exact answers_transact rfl (answers_awardAttempts rfl rfl _)
      | deduct userId request => exact answers_transact rfl (answers_deductAttempts rfl rfl _)
    refine (Prog.obeys_bind _ _ _).mpr (hbody.imp ?_)
    rintro x (e | result) hends
    · exact hends
    · exact hends

end RedRoomRewards
