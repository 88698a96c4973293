import RedRoomRewards.Alone.Snapshot

/-! Credits and deductions that the ledger service books on its own, as a protocol: each
reads the snapshot of its account and then writes one entry. -/
namespace RedRoomRewards
open Process Store LedgerService

section protocol

/-- A call of the ledger service's `creditPoints` or `deductPoints`. -/
inductive Promotion where
  | credit (request : PromotionalRequest)
  | deduct (request : PromotionalRequest)

namespace Promotion

def request : Promotion → PromotionalRequest
  | credit request | deduct request => request

/-- What a credit adds. -/
def credited : Promotion → ℚ
  | credit request => request.amount
  | deduct _ => 0

/-- What a deduction takes. -/
def deducted : Promotion → ℚ
  | credit _ => 0
  | deduct request => request.amount

def body (config : LedgerService.Config) : Promotion → Service (Next Promotion Bool)
  | credit request => creditPoints config request >>= fun done => pure (.done done)
  | deduct request => deductPoints config request >>= fun done => pure (.done done)

end Promotion

/-- Any number of calls, interleaved at the granularity of single commands. -/
def promotions (config : LedgerService.Config) : Machine Mongo Db Oracle Promotion Bool ServiceError where
  exec := exec
  body := Promotion.body config

@[simp] theorem promotions_exec (config : LedgerService.Config) : (promotions config).exec = exec := rfl

/-- How far a call has come: it has read the balance, and then written its entry or met
an entry with its key. -/
inductive PromotionStage where
  | fresh
  | read (balance : ℚ)
  | written
  | duplicated

def PromotionStage.next : (x : PromotionStage) → (c : Cmd) → c.Reply → PromotionStage
  | .fresh, .listLedgerEntries .., entries => .read (entries.foldl StateBalances.assign {}).available
  | .read _, .createLedgerEntry _, .ok _ => .written
  | .read balance, .createLedgerEntry _, .error e =>
    if e = .duplicateKey ["idempotencyKey"] then .duplicated else .read balance
  | x, _, _ => x

/-- The command lists the entries of an account. -/
def Cmd.lists : Cmd → Bool
  | listLedgerEntries .. => true
  | _ => false

theorem PromotionStage.next_read {x : PromotionStage} {c : Cmd} (hc : c.touches = none)
    (hlist : c.lists = false) (r : c.Reply) : x.next c r = x := by
  cases c with
  | listLedgerEntries q sort => cases hlist
  | createLedgerEntry e => cases hc
  | _ => cases x <;> rfl

/-- The entry a call writes when it has read this balance. -/
structure Promotion.Writes (call : Promotion) (balance : ℚ) (e : LedgerEntry) : Prop where
  account : e.accountId = call.request.accountId ∧ e.accountType = .user ∧ e.balanceState = .available
  amount : e.amount = call.credited - call.deducted
  after : e.balanceAfter = balance + (call.credited - call.deducted)
  covered : 0 ≤ balance → 0 ≤ balance + (call.credited - call.deducted)

/-- The commands a call may issue. -/
def Promotion.may (call : Promotion) (x : PromotionStage) : Cmd → Prop
  | .listLedgerEntries q sort =>
    x = .fresh ∧ q = snapshotQuery call.request.accountId .user none none ∧ sort = ⟨.timestamp, true⟩
  | .createLedgerEntry e => ∃ balance, x = .read balance ∧ call.Writes balance e
  | c => x ≠ .written ∧ c.touches = none

/-- A call that returns has written its entry, or met one with its key. -/
def PromotionStage.ends (x : PromotionStage) : Except ServiceError Bool → Prop
  | .ok _ => x = .written ∨ x = .duplicated
  | .error _ => x ≠ .written

def promoting : Contract Mongo Promotion Bool ServiceError PromotionStage where
  start := fun _ => .fresh
  next := fun _ => PromotionStage.next
  may := Promotion.may
  ends := fun _ => PromotionStage.ends
  resumes := fun call call' x => call' = call ∧ x = .fresh

end protocol

section rules
variable {config : LedgerService.Config} {call : Promotion} {x : PromotionStage} {α β : Type}

/-- The program keeps to the protocol of the call. -/
abbrev Promotes (config : LedgerService.Config) (call : Promotion)
    (ends : PromotionStage → Except ServiceError α → Prop) (x : PromotionStage) (p : Service α) : Prop :=
  Prog.Obeys (promoting.rules (promotions config) call) ends x p

variable {ends : PromotionStage → Except ServiceError α → Prop}

private theorem promotes_bind {ends : PromotionStage → Except ServiceError β → Prop} {p : Service α}
    {f : α → Service β} (h : Promotes config call (Prog.andThen (promoting.rules (promotions config) call) ends f) x p) :
    Promotes config call ends x (p >>= f) := (Prog.obeys_bind p f x).mpr h

private theorem promotes_throwIf {p : Prop} [Decidable p] {e : ServiceError} {f : Unit → Service α}
    (hthrow : ends x (.error e)) (hf : ¬ p → Promotes config call ends x (f ())) :
    Promotes config call ends x (Prog.throwIf p e >>= f) :=
  (Prog.obeys_throwIf_bind _ _ _ _).mpr ⟨fun _ => hthrow, hf⟩

private theorem promotes_uuidv4 {k : String → Service α} (hx : x ≠ .written)
    (hk : ∀ id, Promotes config call ends x (k id)) : Promotes config call ends x (issue .uuidv4 >>= k) := by
  refine ⟨⟨hx, rfl⟩, fun id _ => ?_⟩
  cases x <;> exact hk id

private theorem promotes_now {k : Time → Service α} (hx : x ≠ .written)
    (hk : ∀ t, Promotes config call ends x (k t)) : Promotes config call ends x (issue .now >>= k) := by
  refine ⟨⟨hx, rfl⟩, fun t _ => ?_⟩
  cases x <;> exact hk t

private theorem promotes_givenOrFresh {id : Option String} {k : String → Service α} (hx : x ≠ .written)
    (hk : ∀ id, Promotes config call ends x (k id)) : Promotes config call ends x (givenOrFresh id >>= k) := by
  unfold givenOrFresh
  split
  · split
    · exact promotes_uuidv4 hx hk
    · exact hk _
  · exact promotes_uuidv4 hx hk

private theorem promotes_orThrow {ends : PromotionStage → Except ServiceError β → Prop} {e : ServiceError}
    {a : Option α} {f : α → Service β} (hthrow : ends x (.error e)) (hf : ∀ b, Promotes config call ends x (f b)) :
    Promotes config call ends x (Prog.orThrow e a >>= f) :=
  (Prog.obeys_orThrow_bind _ _ _ _).mpr ⟨fun _ => hthrow, fun b _ => hf b⟩

/-- How the writing of an entry ends. -/
private def Written : PromotionStage → Except ServiceError LedgerEntry → Prop
  | x, .ok _ => x = .written ∨ x = .duplicated
  | x, .error _ => x ≠ .written

private theorem promotes_insertEntry {balance : ℚ} {e : LedgerEntry} (he : call.Writes balance e) :
    Promotes config call Written (.read balance) (insertEntry e) := by
  refine ⟨⟨balance, rfl, he⟩, fun r _ => ?_⟩
  cases r with
  | ok e => exact .inl rfl
  | error error =>
    show Promotes config call Written (if error = .duplicateKey ["idempotencyKey"] then .duplicated else .read balance)
      (if error = .duplicateKey ["idempotencyKey"] then _ else _)
    split
    · refine ⟨⟨nofun, rfl⟩, fun found _ => ?_⟩
      cases found with
      | none => exact nofun
      | some e => exact .inr rfl
    · exact nofun

private theorem promotes_createEntry {balance : ℚ} {request : CreateLedgerEntryRequest}
    (he : ∀ e, request.Describes config e → call.Writes balance e) :
    Promotes config call Written (.read balance) (createEntry config request) := by
  refine promotes_throwIf nofun fun _ => promotes_throwIf nofun fun _ => ?_
  cases request.metadata.bind piiIn with
  | some message => exact nofun
  | none =>
    refine promotes_uuidv4 nofun fun entryId => promotes_givenOrFresh nofun fun transactionId =>
      promotes_now nofun fun timestamp => promotes_throwIf nofun fun _ => promotes_orThrow nofun fun reason => ?_
    exact promotes_insertEntry (he _ ⟨_, _, _, _, _, rfl⟩)

private theorem promotes_getBalanceSnapshot {f : BalanceSnapshot → Service α} {ends : PromotionStage → Except ServiceError α → Prop}
    (hf : ∀ snapshot, Promotes config call ends (.read snapshot.availableBalance) (f snapshot)) :
    Promotes config call ends .fresh (getBalanceSnapshot config call.request.accountId .user none none >>= f) := by
  refine ⟨⟨rfl, rfl, rfl⟩, fun entries _ => ?_⟩
  refine ⟨⟨nofun, rfl⟩, fun t _ => ?_⟩
  exact hf (snapshotOf config call.request.accountId .user entries t)

private theorem promotes_keyOr {kind : String} {request : PromotionalRequest} {k : String → Service α}
    (hx : x ≠ .written) (hk : ∀ key, Promotes config call ends x (k key)) :
    Promotes config call ends x (keyOr request kind >>= k) := by
  unfold keyOr
  cases request.idempotencyKey with
  | some key => exact hk key
  | none => exact promotes_uuidv4 hx fun id => hk _

/-- The call returns when its entry has been written. -/
private theorem promotes_entry {balance : ℚ} {request : CreateLedgerEntryRequest}
    (he : ∀ e, request.Describes config e → call.Writes balance e) :
    Promotes config call PromotionStage.ends (.read balance) (do
      let _ ← createEntry config request
      pure true) := by
  refine promotes_bind ((promotes_createEntry he).imp ?_)
  rintro y (e | entry) hwritten
  · exact hwritten
  · exact hwritten

variable {request : PromotionalRequest}

private theorem promotes_creditPoints :
    Promotes config (.credit request) PromotionStage.ends .fresh (creditPoints config request) := by
  apply promotes_throwIf nofun
  intro hpositive
  refine promotes_getBalanceSnapshot fun snapshot => promotes_keyOr nofun fun key => promotes_uuidv4 nofun fun id => ?_
  apply promotes_entry
  rintro _ ⟨_, _, _, _, _, rfl⟩
  refine ⟨⟨rfl, rfl, rfl⟩, (sub_zero _).symm, ?_, fun hbalance => ?_⟩
  · exact congrArg (snapshot.availableBalance + ·) (sub_zero request.amount).symm
  · exact add_nonneg hbalance ((not_le.mp hpositive).le.trans_eq (sub_zero _).symm)

private theorem promotes_deductPoints :
    Promotes config (.deduct request) PromotionStage.ends .fresh (deductPoints config request) := by
  apply promotes_throwIf nofun
  intro hpositive
  refine promotes_getBalanceSnapshot fun snapshot => promotes_throwIf nofun fun henough => ?_
  refine promotes_keyOr nofun fun key => promotes_uuidv4 nofun fun id => promotes_entry ?_
  rintro _ ⟨_, _, _, _, _, rfl⟩
  refine ⟨⟨rfl, rfl, rfl⟩, (zero_sub _).symm, ?_, fun _ => ?_⟩
  · exact congrArg (snapshot.availableBalance + ·) (zero_sub request.amount).symm
  · show 0 ≤ snapshot.availableBalance + (0 - request.amount)
    rw [zero_sub, ← sub_eq_add_neg]
    exact sub_nonneg.mpr (not_lt.mp henough)

end rules

/-- Every call keeps to the protocol. -/
theorem promoting_kept (config : LedgerService.Config) : promoting.Kept (promotions config) where
  starts := fun _ => ⟨rfl, rfl⟩
  body := by
    rintro call call' x ⟨rfl, rfl⟩
    have hdone : ∀ {p : Service Bool}, Promotes config call' PromotionStage.ends .fresh p →
        Prog.Obeys (promoting.rules (promotions config) call') (promoting.settles call') .fresh
          (p >>= fun done => pure (.done done)) := by
      intro p hp
      refine (Prog.obeys_bind _ _ _).mpr (hp.imp ?_)
      rintro y (e | done) hends
      · exact hends
      · exact hends
    cases call' with
    | credit request => exact hdone promotes_creditPoints
    | deduct request => exact hdone promotes_deductPoints

end RedRoomRewards
