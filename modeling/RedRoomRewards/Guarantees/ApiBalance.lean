import RedRoomRewards.Alone.Rounding
import RedRoomRewards.Alone.Snapshot
import RedRoomRewards.Service.WalletController

/-! Credits and deductions at the endpoints, one after the other: when the wallets move
as the entries in the ledger say. -/
namespace RedRoomRewards
open Process Store Arithmetic LedgerService WalletController

section views

/-- The sum of the entries of a user's available balance. -/
def Db.bookedAvailable (db : Db) (userId : String) : ℚ :=
  ((db.entriesOf userId .user .available).map LedgerEntry.amount).sum

/-- Since `d`, the available balance of every user has changed by what the ledger says. -/
def Agrees (d db : Db) : Prop := ∀ userId,
  (db.balances userId).1 = (d.balances userId).1 + (db.bookedAvailable userId - d.bookedAvailable userId)

theorem bookedAvailable_append {db db' : Db} {e : LedgerEntry} (hdocs : db'.ledger.docs = db.ledger.docs ++ [e])
    (userId : String) : db'.bookedAvailable userId = db.bookedAvailable userId +
      if e.accountId = userId ∧ e.accountType = .user ∧ e.balanceState = .available then e.amount else 0 :=
  bookedIn_append hdocs userId .user .available

end views

section condition
variable (config : WalletController.Config) (db : Db)

/-- The result on record for a key, if there is one. -/
def Db.cached (key scope : String) : Option Json := IdempotencyService.storedResult (db.records.find (key, scope))

/-- What the accrual service is asked for. -/
def ApiCall.award : ApiCall → AwardPointsRequest
  | .credit userId request => awardRequest userId request (coerceCreditReason request.reason)
  | .deduct userId request => awardRequest userId request (coerceDebitReason request.reason)

/-- The request gets as far as its wallet update. -/
structure ApiCall.Goes (call : ApiCall) : Prop where
  key : ¬ blank call.request.idempotencyKey = true
  uncached : db.cached call.request.idempotencyKey call.scope = none
  accrual : match call with
    | .credit .. => AwardGoes config.accrual call.award db
    | .deduct .. => DeductGoes config.accrual call.award db

/-- The metadata of the entry. -/
def ApiCall.metadata : ApiCall → Metadata
  | .credit _ request => (request.metadata.getD []).set "expiresAt" .undefined
  | .deduct _ request => request.metadata.getD []

/-- The currency of the entry. -/
def WalletController.Config.currency : String :=
  if config.accrual.defaultCurrency = "" then config.accrual.ledger.defaultCurrency
  else config.accrual.defaultCurrency

/-- The ledger takes the entry of the request as it is: its texts fit, its metadata is harmless, its
key, trimmed, is new and nothing is rounded; and the steps have what they need to write it. -/
structure ApiCall.Booked (call : ApiCall) (os : ℕ → Oracle) : Prop where
  user : requiredText 128 call.userId = true
  key : requiredText 256 (trim call.request.idempotencyKey) = true
  request : requiredText 128 call.request.requestId = true
  currency : requiredText 16 config.currency = true
  metadata : piiIn call.metadata = none
  fresh : ∀ e ∈ db.ledger.docs, e.idempotencyKey ≠ trim call.request.idempotencyKey
  exact : db.Representable call.userId call.change
  supplied : ∀ n, Supplies db (os n)

/-- The requests that either leave the wallet as it is or have their entry written. -/
def Bookable (call : ApiCall) (os : ℕ → Oracle) : Prop := call.Goes config db → call.Booked config db os

end condition

section calls
variable {config : WalletController.Config} {db : Db} {fair : Oracle → Prop} {P : Db → Prop}

private theorem alone_checkKey {key tenantId operation : String} {post : Except ServiceError (Option Json) → Db → Prop}
    (h : post (.ok (db.cached key (IdempotencyService.buildScope tenantId operation))) db) :
    Alone fair post (IdempotencyService.checkKey key tenantId operation) db := fun _ _ => h

private theorem alone_getUserBalance {userId : String} {post : Except ServiceError WalletService.UserBalance → Db → Prop}
    (h : ∀ balance, post (.ok balance) db) : Alone fair post (WalletService.getUserBalance userId) db := by
  apply alone_findWallet
  cases db.wallets.find userId <;> exact h _

/-- What an endpoint does beside the call of the accrual service leaves the wallets and
the ledger as they are. -/
private theorem alone_transact {userId operation : String} {request : TransactionRequest} {type : TransactionType}
    {amount : ℚ} {perform : Service AwardPointsResponse} (hP : ∀ db records, P db → P { db with records })
    (hdb : P db) (hperform : ¬ blank request.idempotencyKey = true →
      db.cached request.idempotencyKey (IdempotencyService.buildScope userId operation) = none →
        Alone fair (fun _ db' => P db') perform db) :
    Alone fair (fun _ db' => P db') (transact config userId request operation type amount perform) db := by
  refine alone_throwIf (fun _ => hdb) fun hkey => alone_throwIf (fun _ => hdb) fun _ => ?_
  refine alone_bind (alone_checkKey ?_)
  cases hcached : db.cached request.idempotencyKey (IdempotencyService.buildScope userId operation) with
  | some result => exact hdb
  | none =>
    refine alone_bind (alone_getUserBalance fun previous => ?_)
    refine alone_bind ((hperform hkey hcached).imp ?_)
    rintro (e | award) db' hdb'
    · exact hdb'
    · refine alone_bind (alone_bind (alone_getUserBalance fun balance => alone_now fun _ => alone_now fun _ => ?_))
      refine alone_bind (alone_issue fun o _ => ?_)
      simp only [exec]
      cases (create db'.records _ _ ["pointsIdempotencyKey", "eventScope"]).1 <;> exact hP _ _ hdb'

variable {userId : String} {request : TransactionRequest} {w : Wallet} {id : String} {os : ℕ → Oracle}
variable {wallets : Wallets} {change : ℚ}

private theorem award_storable (h : (ApiCall.credit userId request).Booked config db os) (hid : ValidId id) :
    (PointAccrualService.awardEntry config.accrual (ApiCall.credit userId request).award w id).Storable
      config.accrual.ledger id (db.posting wallets userId change) where
  state := ⟨rfl, nofun⟩
  metadata := h.metadata
  transaction := rfl
  correlation := by rintro c ⟨⟩
  fresh := h.fresh
  reason := rfl
  valid := fun _ _ _ hentry => entry_valid hentry.1 hid.1 h.user (show requiredText 128 "none→available" = true by
    decide +kernel) h.key h.request h.currency rfl ⟨rfl, rfl, rfl, rfl⟩

private theorem deduct_storable (h : (ApiCall.deduct userId request).Booked config db os) (hid : ValidId id) :
    (PointAccrualService.deductEntry config.accrual (ApiCall.deduct userId request).award w id).Storable
      config.accrual.ledger id (db.posting wallets userId change) where
  state := ⟨rfl, nofun⟩
  metadata := h.metadata
  transaction := rfl
  correlation := by
    rintro c ⟨⟩
    rfl
  fresh := h.fresh
  reason := rfl
  valid := fun _ _ _ hentry => entry_valid hentry.1 hid.1 h.user (show requiredText 128 "available→debit" = true by
    decide +kernel) h.key h.request h.currency rfl ⟨rfl, rfl, rfl, rfl⟩

/-- A wallet update and the entry of the same change keep the two views equal. -/
private theorem agrees_of_booked {d db' : Db} {currency : String} {e : LedgerEntry}
    (h : Agrees d db) (hopened : Opened currency userId db.wallets w wallets)
    (hwallets : db'.wallets = (db.posting wallets userId change).wallets)
    (hdocs : db'.ledger.docs = db.ledger.docs ++ [e])
    (he : e.accountId = userId ∧ e.accountType = .user ∧ e.balanceState = .available) (hamount : e.amount = change) :
    Agrees d db' := by
  intro userId'
  obtain ⟨hself, hbefore, hothers⟩ := hopened.updated hwallets
  rw [bookedAvailable_append hdocs]
  by_cases hid : userId' = userId
  · subst hid
    have hold : w.availableBalance = _ := (congrArg Prod.fst hbefore).trans (h userId')
    rw [if_pos he, hamount, hself]
    show w.availableBalance + change = _
    rw [hold]
    abel
  · rw [if_neg fun h => hid (h.1.symm.trans he.1), add_zero, hothers userId' hid]
    exact h userId'

private theorem unrounded_checkKey {α : Type} {key tenantId operation : String} {f : Option Json → Service α}
    (hf : ∀ os, Unrounded (f (db.cached key (IdempotencyService.buildScope tenantId operation))) os db) :
    Unrounded (IdempotencyService.checkKey key tenantId operation >>= f) os db := ⟨trivial, hf _⟩

private theorem unrounded_getUserBalance {α : Type} {userId : String} {f : WalletService.UserBalance → Service α}
    (hf : ∀ balance os, Unrounded (f balance) os db) : Unrounded (WalletService.getUserBalance userId >>= f) os db := by
  refine ⟨trivial, ?_⟩
  rw [exec]
  cases db.wallets.find userId <;> exact hf _ _

private theorem unrounded_transact {userId operation : String} {request : TransactionRequest} {type : TransactionType}
    {amount : ℚ} {perform : Service AwardPointsResponse} (hperform : ¬ blank request.idempotencyKey = true →
      db.cached request.idempotencyKey (IdempotencyService.buildScope userId operation) = none →
        ∀ os, Unrounded perform os db) :
    Unrounded (transact config userId request operation type amount perform) os db := by
  refine Prog.along_throwIf_bind fun hkey => Prog.along_throwIf_bind fun _ => unrounded_checkKey fun os => ?_
  cases hcached : db.cached request.idempotencyKey (IdempotencyService.buildScope userId operation) with
  | some result => trivial
  | none =>
    refine unrounded_getUserBalance fun previous os => (hperform hkey hcached os).bind fun award os db => ?_
    refine Prog.Along.bind (unrounded_getUserBalance fun balance os => ⟨trivial, trivial, trivial⟩) fun wallet os db => ?_
    refine Prog.Along.bind ⟨trivial, ?_⟩ fun _ _ _ => trivial
    cases (exec _ db (.createIdempotencyRecord _)).1 <;> trivial

/-- A request whose entry is written rounds nothing. -/
private theorem unrounded_body {call : ApiCall} (hbook : Bookable config db call os) (os : ℕ → Oracle) :
    Unrounded (call.body config) os db := by
  cases call with
  | credit userId request =>
    exact unrounded_transact fun hkey hcached os => unrounded_awardPoints fun hgo => (hbook ⟨hkey, hcached, hgo⟩).exact
  | deduct userId request =>
    exact unrounded_transact fun hkey hcached os =>
      unrounded_deductFromAvailable fun hgo => (hbook ⟨hkey, hcached, hgo⟩).exact

private theorem agrees_of_call {d : Db} {call : ApiCall} (hbook : Bookable config db call os) (h : Agrees d db) :
    Agrees d ((call.body config).solo (execWith double) os db).2 := by
  rw [(unrounded_body hbook os).solo_eq]
  have hP : ∀ db records, Agrees d db → Agrees d { db with records } := fun _ _ h => h
  have hsolo : Alone (fun o => ∃ n, os n = o) (fun _ db' => Agrees d db') (call.body config) db := by
    cases call with
    | credit userId request =>
      refine alone_transact hP h fun hkey hcached => alone_awardPoints (fun _ _ => h) fun hgo w ws hopened => ?_
      have hbooked := hbook ⟨hkey, hcached, hgo⟩
      refine alone_booking_storable (fun id t hid => award_storable hbooked hid) ?_ fun id t e he hfree => ?_
      · rintro _ ⟨n, rfl⟩
        exact hbooked.supplied n
      · obtain ⟨_, _, _, _, _, rfl⟩ := he
        exact agrees_of_booked h hopened rfl (Collection.docs_insert hfree) ⟨rfl, rfl, rfl⟩ rfl
    | deduct userId request =>
      refine alone_transact hP h fun hkey hcached => alone_deductFromAvailable (fun _ _ => h) fun hgo w hw => ?_
      have hbooked := hbook ⟨hkey, hcached, hgo⟩
      refine alone_booking_storable (fun id t hid => deduct_storable hbooked hid) ?_ fun id t e he hfree => ?_
      · rintro _ ⟨n, rfl⟩
        exact hbooked.supplied n
      · obtain ⟨_, _, _, _, _, rfl⟩ := he
        exact agrees_of_booked h (Opened.found hw : Opened "" _ _ w _) rfl (Collection.docs_insert hfree)
          ⟨rfl, rfl, rfl⟩ rfl
  exact hsolo.solo fun n => ⟨n, rfl⟩

end calls

section runs
variable {config : WalletController.Config} {d db : Db}

/-- Requests to the endpoints, one after the other. -/
abbrev ApiRun (config : WalletController.Config) (A : Db → ApiCall → (ℕ → Oracle) → Prop) (d db : Db) : Prop :=
  Prog.Sequential (execWith double) (ApiCall.body config) A d db

/-- Over any requests made one after the other, every available balance changes as the ledger says,
as long as each request that moves a wallet has its entry written. Identifiers of users and tenants
are trimmed. -/
theorem api_agrees (h : ApiRun config (Bookable config) d db) : Agrees d db := by
  induction h with
  | start =>
    intro userId
    rw [sub_self, add_zero]
  | call _ hA ih => exact agrees_of_call hA ih

end runs

section scenario

def apiConfig : WalletController.Config where
  accrual := PointAccrualService.defaultConfig
  hashResult := fun _ => "e3b0c44298fc1c149afbf4c8996fb92427ae41e4649b934ca495991b7852b855"

def sampleTransaction : TransactionRequest where
  amount := 20
  reason := "promotional_award"
  metadata := none
  idempotencyKey := "key-1"
  requestId := "request-1"
  tenantId := "tenant-1"

/-- A clock that stands still when the call has long ended. -/
def steady (start n : ℕ) : Oracle := tick (start + min n 15)

private theorem steady_supplies {db : Db} {start : ℕ} (h : ∀ m < 16, Supplies db (tick (start + m))) (n : ℕ) :
    Supplies db (steady start n) := h (min n 15) (by omega)

/-- The store after a request made alone. -/
def Db.afterRequest (db : Db) (call : ApiCall) (os : ℕ → Oracle) : Db := ((call.body apiConfig).solo (execWith double) os db).2

/-- A credit, and the deduction of the same amount under another key. -/
theorem api_agrees_credit_deduct : ∃ db, ApiRun apiConfig (Bookable apiConfig) fundedDb db ∧
    db.ledger.docs.map LedgerEntry.amount = [20, -20] ∧ Agrees fundedDb db := by
  have hcredit : Bookable apiConfig fundedDb (.credit "user-1" sampleTransaction) (steady 0) := fun _ =>
    ⟨by decide +kernel, by decide +kernel, by decide +kernel, by decide +kernel, by decide +kernel,
      by decide +kernel, ⟨by decide +kernel, by decide +kernel, by decide +kernel, by decide +kernel⟩,
      steady_supplies (by decide +kernel)⟩
  have hdeduct : Bookable apiConfig (fundedDb.afterRequest (.credit "user-1" sampleTransaction) (steady 0))
      (.deduct "user-1" { sampleTransaction with idempotencyKey := "key-2" }) (steady 100) := fun _ =>
    ⟨by decide +kernel, by decide +kernel, by decide +kernel, by decide +kernel, by decide +kernel,
      by decide +kernel, ⟨by decide +kernel, by decide +kernel, by decide +kernel, by decide +kernel⟩,
      steady_supplies (by decide +kernel)⟩
  have hrun := (Prog.Sequential.start.call hcredit).call hdeduct
  exact ⟨_, hrun, by decide +kernel, api_agrees hrun⟩

/-- A second user takes the key of the first: the wallet is credited, and the entry of the
first user stands for that of the second. -/
theorem api_disagrees_shared_key : ∃ db,
    ApiRun apiConfig (fun db _ os => ∀ n, Supplies db (os n)) fundedDb db ∧ ¬ Agrees fundedDb db := by
  have hfirst : ApiRun apiConfig (fun db _ os => ∀ n, Supplies db (os n)) fundedDb
      (fundedDb.afterRequest (.credit "user-1" sampleTransaction) (steady 0)) :=
    .call .start (steady_supplies (by decide +kernel))
  have hsecond : ApiRun apiConfig (fun db _ os => ∀ n, Supplies db (os n)) fundedDb
      ((fundedDb.afterRequest (.credit "user-1" sampleTransaction) (steady 0)).afterRequest
        (.credit "user-2" sampleTransaction) (steady 100)) :=
    .call hfirst (steady_supplies (by decide +kernel))
  exact ⟨_, hsecond, fun h => absurd (h "user-2") (by decide +kernel)⟩

end scenario
end RedRoomRewards
