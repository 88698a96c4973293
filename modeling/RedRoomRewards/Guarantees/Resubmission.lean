import RedRoomRewards.Alone.Points
import RedRoomRewards.Service.Calls

/-! The same request of an operation on one wallet, submitted again and again: when the
later submissions have no effect. -/
namespace RedRoomRewards
open Process Store

section submissions
variable (config : Config)

/-- A request that is submitted several times; each expiration of a user's points can
have a request identifier of its own. -/
inductive Submission where
  | award (request : AwardPointsRequest)
  | deduct (request : AwardPointsRequest)
  | adjust (request : ManualAdjustmentRequest)
  | expire (userId : String) (requestId : ℕ → String)

namespace Submission

def userId : Submission → String
  | award request | deduct request => request.userId
  | adjust request => request.userId
  | expire userId _ => userId

def call : Submission → ℕ → Call
  | award request, _ => .award request
  | deduct request, _ => .deduct request
  | adjust request, _ => .adjust request
  | expire userId requestId, i => .expire userId (requestId i)

/-- How submission `i` ends where the store is `db`. -/
def outcome (submission : Submission) (os : ℕ → ℕ → Oracle) (i : ℕ) (db : Db) :
    Except ServiceError (Next Call Response) × Db := ((submission.call i).body config).solo exec (os i) db

/-- The store after the first `n` submissions. -/
def after (submission : Submission) (os : ℕ → ℕ → Oracle) (db : Db) : ℕ → Db
  | 0 => db
  | n + 1 => (submission.outcome config os n (after submission os db n)).2

/-- Submission `i` gets as far as its wallet update where the store is `db`. -/
def Acts (os : ℕ → ℕ → Oracle) (i : ℕ) (db : Db) : Submission → Prop
  | award request => AwardGoes config.accrual request db
  | deduct request => DeductGoes config.accrual request db
  | adjust request => AdjustGoes config.adminOps request db
  | expire userId _ => ∃ w, db.wallets.find userId = some w ∧
      0 < db.expiredAt config.expiration userId (os i 2).now ∧ 0 < w.availableBalance

/-- By how much submission `i` then changes the balance of wallet `w`. -/
def change (os : ℕ → ℕ → Oracle) (i : ℕ) (db : Db) (w : Wallet) : Submission → ℚ
  | award request => request.amount
  | deduct request => -request.amount
  | adjust request => request.amount
  | expire userId _ => -min (db.expiredAt config.expiration userId (os i 2).now) w.availableBalance

end Submission

/-- The wallet of the user and the ledger are the same in both stores. -/
structure SameEffect (userId : String) (db db' : Db) : Prop where
  balances : db'.balances userId = db.balances userId
  version : db'.version userId = db.version userId
  ledger : db'.ledger.docs = db.ledger.docs

end submissions

section outcomes
variable {config : Config} {db db' : Db} {fair : Oracle → Prop}

/-- A submission that acts changes the user's wallet, which it may have opened, and
neither the idempotency records nor what a later expiration looks at. -/
structure Acted (submission : Submission) (change : Wallet → ℚ) (db db' : Db) : Prop where
  wallet : ∃ currency w ws, Opened currency submission.userId db.wallets w ws ∧
    db'.wallets = (db.posting ws submission.userId (change w)).wallets
  records : db'.records = db.records
  credits : ∀ userId requestId, submission = .expire userId requestId → db'.creditPage userId = db.creditPage userId

/-- The program ends, without a tail call, in a store of which `Q` holds. -/
private def Ended {α κ : Type} (Q : Db → Prop) : Except ServiceError (Next κ α) → Db → Prop
  | .ok (.again _), _ => False
  | _, db => Q db

private theorem ended_returning {α : Type} {response : α → Response} {p : Service α} {Q : Db → Prop}
    (h : Alone fair (fun _ db' => Q db') p db) : Alone fair (Ended Q) (returning response p) db := by
  refine alone_bind (h.imp ?_)
  rintro (e | a) db' hdb'
  · exact hdb'
  · exact hdb'

private theorem ended_retrying {α : Type} {call : Call} {response : α → Response} {p : Service (Next Unit α)}
    {Q : Db → Prop} (h : Alone fair (Ended Q) p db) : Alone fair (Ended Q) (retrying call response p) db := by
  refine alone_bind (h.imp ?_)
  rintro (e | a | u) db' hdb'
  · exact hdb'
  · exact hdb'
  · exact hdb'

/-- What a submission leads to. -/
private def Effect (config : Config) (submission : Submission) (os : ℕ → ℕ → Oracle) (i : ℕ) (db db' : Db) : Prop :=
  (¬ submission.Acts config os i db ∧ db' = db) ∨
    (submission.Acts config os i db ∧ Acted submission (fun w => submission.change config os i db w) db db')

/-- The entry of an expiration is no credit, so the next expiration does not see it. -/
private theorem creditPage_append {userId : String} {e : LedgerEntry} (he : e.type = .debit)
    (hdocs : db'.ledger.docs = db.ledger.docs ++ [e]) : db'.creditPage userId = db.creditPage userId := by
  have hskipped : (PointExpirationService.creditFilter userId).query.accepts e = false := by
    simp [LedgerQuery.accepts, LedgerService.LedgerQueryFilter.query, PointExpirationService.creditFilter, he]
  rw [Db.creditPage, Db.creditPage, sortedEntries, sortedEntries, hdocs, List.filter_append]
  simp [hskipped]

private theorem effect (config : Config) (submission : Submission) (os : ℕ → ℕ → Oracle) (i : ℕ) (db : Db) :
    Ended (Effect config submission os i db) (submission.outcome config os i db).1
      (submission.outcome config os i db).2 := by
  cases submission with
  | award request =>
    have halone : Alone (fun _ => True) (Ended (Effect config (.award request) os i db))
        ((Call.award request).body config) db :=
      ended_returning (alone_awardPoints (fun hstop _ => .inl ⟨hstop, rfl⟩) fun hgo w ws hopened =>
        alone_booking_done (fun _ _ _ h => .inr ⟨hgo, ⟨_, w, ws, hopened, h.wallets⟩, h.records, nofun⟩)
          fun _ => .inr ⟨hgo, ⟨_, w, ws, hopened, rfl⟩, rfl, nofun⟩)
    exact halone.always _
  | deduct request =>
    have halone : Alone (fun _ => True) (Ended (Effect config (.deduct request) os i db))
        ((Call.deduct request).body config) db :=
      ended_returning (alone_deductFromAvailable (fun hstop _ => .inl ⟨hstop, rfl⟩) fun hgo w hw =>
        alone_booking_done (fun _ _ _ h => .inr ⟨hgo, ⟨"", w, _, .found hw, h.wallets⟩, h.records, nofun⟩)
          fun _ => .inr ⟨hgo, ⟨"", w, _, .found hw, rfl⟩, rfl, nofun⟩)
    exact halone.always _
  | adjust request =>
    have halone : Alone (fun _ => True) (Ended (Effect config (.adjust request) os i db))
        ((Call.adjust request).body config) db :=
      ended_retrying (alone_manualAdjustment (fun hstop _ => .inl ⟨hstop, rfl⟩) fun hgo w hw =>
        alone_booking_done (fun _ _ _ h => .inr ⟨hgo, ⟨"", w, _, .found hw, h.wallets⟩, h.records, nofun⟩)
          fun _ => .inr ⟨hgo, ⟨"", w, _, .found hw, rfl⟩, rfl, nofun⟩)
    exact halone.always _
  | expire userId requestId =>
    have halone : Alone (fun _ => True) (Ended (Effect config (.expire userId requestId) os i db))
        (retrying (.expire userId (requestId i)) .expire (expireTotal config.expiration userId (requestId i)
          (db.expiredAt config.expiration userId (os i 2).now))) db := by
      refine ended_retrying (alone_expireTotal (fun hstop => ?_) fun w hw htotal havailable => ?_)
      · have hnot : ¬ (Submission.expire userId requestId).Acts config os i db := fun ⟨w, hw, h⟩ => hstop w hw h
        exact ⟨.inl ⟨hnot, rfl⟩, fun _ => .inl ⟨hnot, rfl⟩⟩
      · have hgo : (Submission.expire userId requestId).Acts config os i db := ⟨w, hw, htotal, havailable⟩
        refine alone_booking_done (fun _ _ _ h => .inr ⟨hgo, ⟨"", w, _, .found hw, h.wallets⟩, h.records, ?_⟩)
          fun _ => .inr ⟨hgo, ⟨"", w, _, .found hw, rfl⟩, rfl, ?_⟩
        · rintro _ _ ⟨⟩
          rcases h.ledger with hdocs | ⟨id, t, e, ⟨_, _, _, _, _, rfl⟩, hdocs⟩
          · simp only [Db.creditPage, hdocs, Db.posting]
          · exact creditPage_append rfl hdocs
        · rintro _ _ ⟨⟩
          rfl
    exact halone.always _

/-- Alone, no submission has to be made once more: its update does not miss. -/
theorem submission_ends (submission : Submission) (os : ℕ → ℕ → Oracle) (i : ℕ) (db : Db) (call : Call) :
    (submission.outcome config os i db).1 ≠ .ok (.again call) := by
  intro hagain
  have hended := effect config submission os i db
  rw [hagain] at hended
  exact hended

private theorem effect_outcome (config : Config) (submission : Submission) (os : ℕ → ℕ → Oracle) (i : ℕ) (db : Db) :
    Effect config submission os i db (submission.outcome config os i db).2 := by
  have hended := effect config submission os i db
  cases hresult : (submission.outcome config os i db).1 with
  | error e =>
    rw [hresult] at hended
    exact hended
  | ok next =>
    cases next with
    | done a =>
      rw [hresult] at hended
      exact hended
    | again call => exact absurd hresult (submission_ends submission os i db call)

end outcomes

section acted
variable {submission : Submission} {change : Wallet → ℚ} {db db' : Db} {w : Wallet}

private theorem Opened.version {currency userId : String} {ws : Wallets}
    (h : Opened currency userId db.wallets w ws) : db.version userId = w.version := by
  cases h with
  | found hw => simp [Db.version, hw]
  | created hfree =>
    have hnone : db.wallets.find userId = none := hfree.find
    simp [Db.version, hnone, WalletService.newWallet]

private theorem Acted.version (h : Acted submission change db db') :
    db'.version submission.userId = db.version submission.userId + 1 := by
  obtain ⟨currency, w, ws, hopened, hwallets⟩ := h.wallet
  rw [Db.version, hwallets, Db.posting_find _ hopened.find, hopened.version]
  rfl

/-- There is a wallet once a submission has acted. -/
private theorem Acted.exists_wallet (h : Acted submission change db db') :
    ∃ w, db'.wallets.find submission.userId = some w := by
  obtain ⟨currency, w, ws, hopened, hwallets⟩ := h.wallet
  rw [hwallets]
  exact ⟨_, Db.posting_find _ hopened.find⟩

private theorem Acted.found (h : Acted submission change db db') (hw : db.wallets.find submission.userId = some w) :
    ∃ w', db'.wallets.find submission.userId = some w' ∧
      w'.availableBalance = w.availableBalance + change w := by
  obtain ⟨currency, w', ws, hopened, hwallets⟩ := h.wallet
  cases hopened with
  | found hw' =>
    cases hw.symm.trans hw'
    rw [hwallets]
    exact ⟨_, Db.posting_find _ hw, rfl⟩
  | created hfree =>
    have hnone : db.wallets.find submission.userId = none := hfree.find
    cases hw.symm.trans hnone

end acted

section repeated
variable {config : Config} {submission : Submission} {os : ℕ → ℕ → Oracle} {db : Db}

private theorem SameEffect.refl (userId : String) (db : Db) : SameEffect userId db db := ⟨rfl, rfl, rfl⟩

private theorem after_succ_of_not (submission : Submission) {n : ℕ} (h : ¬ submission.Acts config os n (submission.after config os db n)) :
    submission.after config os db (n + 1) = submission.after config os db n := by
  obtain ⟨-, hsame⟩ | ⟨hacts, -⟩ := effect_outcome config submission os n (submission.after config os db n)
  · exact hsame
  · exact absurd hacts h

variable (config) (os) in
private theorem acted_of_acts (submission : Submission) {n : ℕ} (h : submission.Acts config os n (submission.after config os db n)) :
    Acted submission (fun w => submission.change config os n (submission.after config os db n) w)
      (submission.after config os db n) (submission.after config os db (n + 1)) := by
  obtain ⟨hnot, -⟩ | ⟨-, hacted⟩ := effect_outcome config submission os n (submission.after config os db n)
  · exact absurd h hnot
  · exact hacted

/-- The later submissions have no effect exactly if none of them acts on what the first
one leaves. -/
private theorem sameEffect_iff :
    (∀ n ≥ 1, SameEffect submission.userId (submission.after config os db 1) (submission.after config os db n)) ↔
      ∀ i ≥ 1, ¬ submission.Acts config os i (submission.after config os db 1) := by
  have hsame : (∀ i ≥ 1, ¬ submission.Acts config os i (submission.after config os db 1)) → ∀ n ≥ 1,
      submission.after config os db n = submission.after config os db 1 := by
    intro hstops n hn
    induction n, hn using Nat.le_induction with
    | base => rfl
    | succ n hn ih =>
      have hnot := hstops n hn
      rw [← ih] at hnot
      exact (after_succ_of_not _ hnot).trans ih
  constructor
  · intro heffect i hi
    -- by strong induction no submission before `i` acts, so `i` meets the store of the first
    induction i using Nat.strong_induction_on with
    | _ i ih =>
      intro hacts
      have hstart : submission.after config os db i = submission.after config os db 1 := by
        clear hacts
        induction i, hi using Nat.le_induction with
        | base => rfl
        | succ n hn hbefore =>
          have hn' := hbefore fun m hm => ih m (by omega)
          have hnot := ih n (by omega) hn
          rw [← hn'] at hnot
          exact (after_succ_of_not _ hnot).trans hn'
      rw [← hstart] at hacts
      have hversion := (acted_of_acts _ _ _ hacts).version
      rw [(heffect (i + 1) (by omega)).version, hstart] at hversion
      omega
  · intro hstops n hn
    rw [hsame hstops n hn]
    exact .refl _ _

/-- What an expiration of `total` leaves of a balance. -/
def leftAfter (total balance : ℚ) : ℚ := balance - min (max 0 total) balance

private theorem leftAfter_of_not {total balance : ℚ} (h : ¬ (0 < total ∧ 0 < balance)) :
    0 < leftAfter total balance ↔ 0 < balance := by
  unfold leftAfter
  by_cases hbalance : 0 < balance
  · have htotal : total ≤ 0 := not_lt.mp fun ht => h ⟨ht, hbalance⟩
    rw [max_eq_left htotal, min_eq_left hbalance.le, sub_zero]
  · have hle : balance ≤ max 0 total := (not_lt.mp hbalance).trans (le_max_left _ _)
    rw [min_eq_right hle, sub_self]
    exact ⟨fun h => absurd h (lt_irrefl 0), fun h => absurd h hbalance⟩

variable (config) (os) (db) in
/-- The later submissions of the request have nothing to act on. -/
def Submission.Once : Submission → Prop
  | .award request => ¬ AwardGoes config.accrual request db
  | .deduct request => DeductGoes config.accrual request db → ∀ w, db.wallets.find request.userId = some w →
      w.availableBalance - request.amount < request.amount
  | .adjust request => AdjustGoes config.adminOps request db → ∀ w, db.wallets.find request.userId = some w →
      ¬ request.MayLeave (w.availableBalance + request.amount + request.amount)
  | .expire userId _ => ∀ w, db.wallets.find userId = some w → ∀ i ≥ 1,
      ¬ (0 < db.expiredAt config.expiration userId (os i 2).now ∧
        0 < leftAfter (db.expiredAt config.expiration userId (os 0 2).now) w.availableBalance)

private theorem award_once (request : AwardPointsRequest) :
    (∀ i ≥ 1, ¬ AwardGoes config.accrual request (Submission.after config (.award request) os db 1)) ↔
      ¬ AwardGoes config.accrual request db := by
  constructor
  · intro hstops hgo
    have hacted := acted_of_acts config os (.award request) (n := 0) hgo
    refine hstops 1 le_rfl ⟨hgo.attempts, hgo.amount, hgo.reason, fun hused => hgo.unused ?_, fun hnone => ?_⟩
    · rwa [Db.Used, hacted.records] at hused
    · obtain ⟨w, hw⟩ := hacted.exists_wallet
      cases hnone.1.symm.trans hw
  · intro hnot i _
    rw [after_succ_of_not (.award request) (n := 0) hnot]
    exact hnot

private theorem deduct_once (request : AwardPointsRequest) :
    (∀ i ≥ 1, ¬ DeductGoes config.accrual request (Submission.after config (.deduct request) os db 1)) ↔
      Submission.Once config os db (.deduct request) := by
  constructor
  · intro hstops hgo w hw
    have hacted := acted_of_acts config os (.deduct request) (n := 0) hgo
    obtain ⟨w', hw', hbalance⟩ := hacted.found hw
    refine not_le.mp fun henough => hstops 1 le_rfl
      ⟨hgo.attempts, hgo.amount, hgo.reason, fun hused => hgo.unused ?_, w', hw', ?_⟩
    · rwa [Db.Used, hacted.records] at hused
    · rw [hbalance]
      exact henough.trans_eq (sub_eq_add_neg _ _)
  · intro honce i _ hagain
    by_cases hgo : DeductGoes config.accrual request db
    · have hacted := acted_of_acts config os (.deduct request) (n := 0) hgo
      obtain ⟨w, hw, -⟩ := hgo.wallet
      obtain ⟨w', hw', hbalance⟩ := hacted.found hw
      obtain ⟨w'', hw'', henough⟩ := hagain.wallet
      cases hw'.symm.trans hw''
      rw [hbalance] at henough
      exact not_le_of_gt (honce hgo w hw) (henough.trans_eq (sub_eq_add_neg _ _).symm)
    · rw [after_succ_of_not (.deduct request) (n := 0) hgo] at hagain
      exact hgo hagain

private theorem adjust_once (request : ManualAdjustmentRequest) :
    (∀ i ≥ 1, ¬ AdjustGoes config.adminOps request (Submission.after config (.adjust request) os db 1)) ↔
      Submission.Once config os db (.adjust request) := by
  constructor
  · intro hstops hgo w hw hmay
    have hacted := acted_of_acts config os (.adjust request) (n := 0) hgo
    obtain ⟨w', hw', hbalance⟩ := hacted.found hw
    refine hstops 1 le_rfl ⟨hgo.admin, hgo.reason, hgo.amount, w', hw', ?_⟩
    rw [hbalance]
    exact hmay
  · intro honce i _ hagain
    by_cases hgo : AdjustGoes config.adminOps request db
    · have hacted := acted_of_acts config os (.adjust request) (n := 0) hgo
      obtain ⟨w, hw, -⟩ := hgo.wallet
      obtain ⟨w', hw', hbalance⟩ := hacted.found hw
      obtain ⟨w'', hw'', hmay⟩ := hagain.wallet
      cases hw'.symm.trans hw''
      rw [hbalance] at hmay
      exact honce hgo w hw hmay
    · rw [after_succ_of_not (.adjust request) (n := 0) hgo] at hagain
      exact hgo hagain

private theorem expire_once (userId : String) (requestId : ℕ → String) :
    (∀ i ≥ 1, ¬ (Submission.expire userId requestId).Acts config os i
      (Submission.after config (.expire userId requestId) os db 1)) ↔
        Submission.Once config os db (.expire userId requestId) := by
  by_cases hgo : (Submission.expire userId requestId).Acts config os 0 db
  · have hacted := acted_of_acts config os (.expire userId requestId) (n := 0) hgo
    obtain ⟨w, hw, htotal, hpositive⟩ := hgo
    obtain ⟨w', hw', hbalance⟩ := hacted.found hw
    have hexpired : ∀ t, (Submission.after config (.expire userId requestId) os db 1).expiredAt config.expiration
        userId t = db.expiredAt config.expiration userId t := by
      intro t
      rw [Db.expiredAt, hacted.credits userId requestId rfl]
      rfl
    have hleft : w'.availableBalance =
        leftAfter (db.expiredAt config.expiration userId (os 0 2).now) w.availableBalance := by
      rw [hbalance, leftAfter, max_eq_right htotal.le, sub_eq_add_neg]
      rfl
    constructor
    · intro hstops w₀ hw₀ i hi hboth
      cases hw.symm.trans hw₀
      rw [← hleft, ← hexpired] at hboth
      exact hstops i hi ⟨w', hw', hboth⟩
    · rintro honce i hi ⟨w₀, hw₀, hboth⟩
      cases hw'.symm.trans hw₀
      rw [hleft, hexpired] at hboth
      exact honce w hw i hi hboth
  · rw [after_succ_of_not (.expire userId requestId) (n := 0) hgo]
    constructor
    · rintro hstops w hw i hi ⟨htotal, hleft⟩
      have hnot : ¬ (0 < db.expiredAt config.expiration userId (os 0 2).now ∧ 0 < w.availableBalance) :=
        fun h => hgo ⟨w, hw, h⟩
      exact hstops i hi ⟨w, hw, htotal, (leftAfter_of_not hnot).mp hleft⟩
    · rintro honce i hi ⟨w, hw, htotal, hpositive⟩
      have hnot : ¬ (0 < db.expiredAt config.expiration userId (os 0 2).now ∧ 0 < w.availableBalance) :=
        fun h => hgo ⟨w, hw, h⟩
      exact honce w hw i hi ⟨htotal, (leftAfter_of_not hnot).mpr hpositive⟩

/-- Any number of submissions of a request have the effect of one exactly if the first leaves
nothing for the others to act on: no record of the request stops them. Amounts are exact,
identifiers trimmed and dates valid. -/
theorem resubmissions_as_one (config : Config) (submission : Submission) (os : ℕ → ℕ → Oracle) (db : Db) :
    (∀ n ≥ 1, SameEffect submission.userId (submission.after config os db 1) (submission.after config os db n)) ↔
      submission.Once config os db := by
  rw [sameEffect_iff]
  cases submission with
  | award request => exact award_once request
  | deduct request => exact deduct_once request
  | adjust request => exact adjust_once request
  | expire userId requestId => exact expire_once userId requestId

end repeated

section scenario

/-- `new Date(value)` for the one date in the scenario. -/
private def sampleDate : Json → Option Time
  | .str s => if s = "1970-01-01T00:00:00.000Z" then some 0 else none
  | _ => none

/-- 30 of the 100 points of user-1 have expired. -/
def expiredDb : Db :=
  { fundedDb with ledger := Collection.empty.insert {
      entryId := "id-0"
      transactionId := "id-0"
      accountId := "user-1"
      accountType := .user
      amount := 30
      type := .credit
      balanceState := .available
      stateTransition := "none→available"
      reason := .promotionalAward
      idempotencyKey := "award-0"
      requestId := "request-0"
      balanceBefore := 70
      balanceAfter := 100
      timestamp := 0
      currency := "points"
      metadata := some [("expiresAt", .str "1970-01-01T00:00:00.000Z")]
      escrowId := none
      queueItemId := none
      featureType := none
      correlationId := "id-0"
      tenantId := none } }

/-- Points that are awarded, deducted, adjusted or expire, each on the same day. -/
def sampleSubmissions : List Submission := [
  .award sampleAward,
  .deduct { sampleAward with reason := .adminDebit },
  .adjust {
    userId := "user-1"
    amount := 10
    reason := "goodwill"
    admin := ⟨"admin-1", "admin", ["admin"], none⟩
    requestId := "request-1"
    metadata := none },
  .expire "user-1" fun _ => "request-1"]

/-- Each of the operations changes the wallet again when its request is submitted again. -/
theorem resubmissions_not_as_one : ¬ ∃ submission ∈ sampleSubmissions, ∀ n ≥ 1,
    SameEffect submission.userId
      (submission.after (defaultConfig sampleDate) (fun i n => tick (100 + 20 * i + n)) expiredDb 1)
      (submission.after (defaultConfig sampleDate) (fun i n => tick (100 + 20 * i + n)) expiredDb n) := by
  have hversions : ∀ submission ∈ sampleSubmissions, Db.version
      (submission.after (defaultConfig sampleDate) (fun i n => tick (100 + 20 * i + n)) expiredDb 2) submission.userId ≠
        Db.version (submission.after (defaultConfig sampleDate) (fun i n => tick (100 + 20 * i + n)) expiredDb 1)
          submission.userId := by
    decide +kernel
  rintro ⟨submission, hmem, hsame⟩
  exact hversions submission hmem (hsame 2 (by omega)).version

end scenario
end RedRoomRewards
