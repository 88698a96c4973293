import RedRoomRewards.Alone.Bookings
import RedRoomRewards.Alone.Escrow
import RedRoomRewards.Alone.Events
import RedRoomRewards.Guarantees.Conservation
import Mathlib.Tactic.Linarith

/-! What a partial settlement does with the points of its item, and when its two parts are an
exact split of them. -/
namespace RedRoomRewards
open Process Store WalletService

section split

/-- An accepted partial settlement has divided its item: the parts are not negative and add
up to its amount, what the user loses the model earns, and the ledger shows every change. -/
structure ExactSplit (request : EscrowPartialSettleRequest) (item : EscrowItem) (db db' : Db) : Prop where
  refund : 0 ≤ request.refundAmount
  settle : 0 ≤ request.settleAmount
  sum : request.refundAmount + request.settleAmount = item.amount
  total : (db.balances request.userId).1 + (db.balances request.userId).2 -
      ((db'.balances request.userId).1 + (db'.balances request.userId).2) =
    db'.earnedBalance request.modelId - db.earnedBalance request.modelId
  available : ∀ userId, db'.bookedIn userId .user .available - db.bookedIn userId .user .available =
    (db'.balances userId).1 - (db.balances userId).1
  earned : ∀ modelId, db'.bookedIn modelId .model .earned - db.bookedIn modelId .model .earned =
    db'.earnedBalance modelId - db.earnedBalance modelId

/-- The key is new wherever there is an amount to book under it. -/
def Db.Books (db : Db) (amount : ℚ) (key : String) : Prop :=
  amount ≠ 0 → ∀ e ∈ db.ledger.docs, e.idempotencyKey ≠ key

end split

section entered
variable {config : WalletService.Config} {fair : Oracle → Prop} {db db' : Db}
variable {entry : LedgerService.CreateLedgerEntryRequest} {amount : ℚ}

/-- What a conditional entry does to the store: it is written if there is an amount and its
key is new. -/
private structure Entered (entry : LedgerService.CreateLedgerEntryRequest) (amount : ℚ) (db db' : Db) : Prop where
  wallets : db'.wallets = db.wallets
  modelWallets : db'.modelWallets = db.modelWallets
  ledger : (0 < amount ∧ entry.New db ∧ ∃ e : LedgerEntry, e.accountId = entry.accountId ∧
      e.accountType = entry.accountType ∧ e.balanceState = entry.balanceState ∧ e.amount = entry.amount ∧
      e.idempotencyKey = trim entry.idempotencyKey ∧ db'.ledger.docs = db.ledger.docs ++ [e]) ∨
    ¬ (0 < amount ∧ entry.New db) ∧ db'.ledger.docs = db.ledger.docs

private theorem alone_createEntryIf {post : Except ServiceError Unit → Db → Prop}
    (hok : ∀ db', Entered entry amount db db' → post (.ok ()) db') (herror : ∀ e db', post (.error e) db') :
    Alone fair post (createEntryIf config amount entry) db := by
  unfold createEntryIf
  split
  · rename_i hpos
    refine alone_bind (alone_createEntry (fun e he hfree => hok _ ⟨rfl, rfl, .inl ⟨hpos, ?_, e, ?_⟩⟩)
      (fun e he hkey => hok _ ⟨rfl, rfl, .inr ⟨fun h => h.2 e he hkey, rfl⟩⟩) fun error => herror _ _)
    · obtain ⟨_, _, _, _, _, rfl⟩ := he
      exact hfree.2
    · have hdocs := Collection.docs_insert hfree
      obtain ⟨_, _, _, _, _, rfl⟩ := he
      exact ⟨rfl, rfl, rfl, rfl, rfl, hdocs⟩
  · rename_i hpos
    exact hok _ ⟨rfl, rfl, .inr ⟨fun h => hpos h.1, rfl⟩⟩

/-- The other buckets are left alone. -/
private theorem Entered.elsewhere (h : Entered entry amount db db') {accountId : String}
    {accountType : AccountType} {state : BalanceState}
    (hne : ¬ (entry.accountId = accountId ∧ entry.accountType = accountType ∧ entry.balanceState = state)) :
    db'.bookedIn accountId accountType state = db.bookedIn accountId accountType state := by
  rcases h.ledger with ⟨-, -, e, haccount, htype, hstate, -, -, hdocs⟩ | ⟨-, hdocs⟩
  · rw [bookedIn_append hdocs, haccount, htype, hstate, if_neg hne, add_zero]
  · rw [Db.bookedIn, Db.entriesOf, hdocs]
    rfl

/-- The bucket of the entry shows the amount exactly if the amount is 0, or positive under a
new key. -/
private theorem Entered.booked_iff (h : Entered entry amount db db') (hamount : entry.amount = amount) :
    db'.bookedIn entry.accountId entry.accountType entry.balanceState -
        db.bookedIn entry.accountId entry.accountType entry.balanceState = amount ↔
      amount = 0 ∨ 0 < amount ∧ entry.New db := by
  rcases h.ledger with ⟨hpos, hnew, e, haccount, htype, hstate, he, -, hdocs⟩ | ⟨hnot, hdocs⟩
  · have hshown := bookedIn_append hdocs entry.accountId entry.accountType entry.balanceState
    rw [if_pos ⟨haccount, htype, hstate⟩, he, hamount] at hshown
    rw [hshown, add_sub_cancel_left]
    exact iff_of_true rfl (.inr ⟨hpos, hnew⟩)
  · have hsame : db'.bookedIn entry.accountId entry.accountType entry.balanceState =
        db.bookedIn entry.accountId entry.accountType entry.balanceState := by
      rw [Db.bookedIn, Db.entriesOf, hdocs]
      rfl
    rw [hsame, sub_self, or_iff_left hnot]
    exact eq_comm

/-- An entry under another key leaves a key as new as it is. -/
private theorem Entered.new_iff (h : Entered entry amount db db')
    {entry' : LedgerService.CreateLedgerEntryRequest} (hne : trim entry.idempotencyKey ≠ trim entry'.idempotencyKey) :
    entry'.New db' ↔ entry'.New db := by
  rcases h.ledger with ⟨-, -, e, -, -, -, -, hkey, hdocs⟩ | ⟨-, hdocs⟩
  · simp only [LedgerService.CreateLedgerEntryRequest.New, hdocs, List.forall_mem_append, List.forall_mem_singleton,
      hkey]
    exact and_iff_left hne
  · rw [LedgerService.CreateLedgerEntryRequest.New, hdocs]
    rfl

end entered

section settled
variable {config : WalletService.Config} {fair : Oracle → Prop} {db db' : Db}
variable {request : EscrowPartialSettleRequest} {item : EscrowItem}

/-- What an accepted partial settlement has done. -/
private structure Parted (request : EscrowPartialSettleRequest) (item : EscrowItem) (db db' : Db) : Prop where
  user : db'.balances = Function.update db.balances request.userId
    (db.balances request.userId + (request.refundAmount, -item.amount))
  model : db'.earnedBalance = Function.update db.earnedBalance request.modelId
    (db.earnedBalance request.modelId + request.settleAmount)
  entries : ∃ (config : WalletService.Config) (w : Wallet) (m : ModelWallet) (id : String) (db₁ db₂ : Db),
    db₁.ledger = db.ledger ∧ Entered (partialRefundEntry config request w id) request.refundAmount db₁ db₂ ∧
      Entered (partialSettleEntry config request m id) request.settleAmount db₂ db'

private theorem alone_recordPartialSettle {w updated : Wallet} {m : ModelWallet}
    {post : Except ServiceError EscrowPartialSettleResponse → Db → Prop}
    (hok : ∀ a id db₁ db', Entered (partialRefundEntry config request w id) request.refundAmount db db₁ →
      Entered (partialSettleEntry config request m id) request.settleAmount db₁ db' → post (.ok a) db')
    (herror : ∀ e db', post (.error e) db') :
    Alone fair post (recordPartialSettle config request w updated m) db := by
  refine alone_uuidv4 fun id => alone_bind (alone_createEntryIf (fun db₁ hrefund => ?_) fun e db' => herror e db')
  refine alone_bind (alone_createEntryIf (fun db₂ hsettle => ?_) fun e db' => herror e db')
  refine alone_now fun timestamp => alone_bind (alone_publish fun published => ?_)
  exact hok _ id db₁ _ hrefund ⟨hsettle.wallets, hsettle.modelWallets, hsettle.ledger⟩

/-- A partial settlement alone that returns has divided an item that was held. -/
private theorem alone_split (hheld : db.Held request.escrowId item)
    (authorization : Option QueuePartialSettlementAuthorization) :
    Alone fair (fun r db' => ∀ a, r = .ok a → Parted request item db db')
      (partialSettleEscrow config request authorization) db := by
  refine alone_throwIf (fun _ a h => by cases h) fun _ => alone_bind (alone_claim (fun _ records => ?_)
    fun _ _ a h => by cases h)
  refine alone_bind (alone_lockEscrow (fun i t hi => ?_) fun _ _ a h => by cases h)
  obtain rfl : item = i := Option.some.inj (hheld.1.symm.trans hi.1)
  refine alone_throwIf (fun _ a h => by cases h) fun _ => alone_findWallet (alone_orThrow (fun _ a h => by cases h)
    fun w hw => ?_)
  refine alone_bind (alone_getOrCreateModelWallet (fun _ m ms hopened => ?_) fun _ _ a h => by cases h)
  refine alone_updateWallet hw (by simp [WalletFilter.accepts]) (alone_updateModelWallet hopened.find rfl ?_)
  refine alone_issue fun o _ => alone_recordPartialSettle (fun a id db₁ db' hrefund hsettle => ?_) fun _ _ a h => by
    cases h
  rintro _ -
  have hwallets := hsettle.wallets.trans hrefund.wallets
  have hmodelWallets := hsettle.modelWallets.trans hrefund.modelWallets
  have hfound : Opened config.defaultCurrency request.userId db.wallets w db.wallets := .found hw
  have hbefore := (hfound.updated hwallets).2.1
  have hcredited : ModelOpened config.defaultCurrency request.modelId db.modelWallets m ms := hopened
  have hearned : m.earnedBalance = db.earnedBalance request.modelId := by
    rw [← hcredited.earned request.modelId, hopened.find]
    rfl
  refine ⟨?_, ?_, config, w, m, id, _, db₁, ?_, hrefund, hsettle⟩
  · rw [hfound.balances_updated hwallets, ← hbefore]
    rfl
  · rw [hcredited.earned_updated hmodelWallets, ← hearned]
    rfl
  · rfl

private theorem alone_parted (hheld : db.Held request.escrowId item)
    (authorization : Option QueuePartialSettlementAuthorization) (os : ℕ → Oracle) {a : EscrowPartialSettleResponse}
    (hreturned : ((partialSettleEscrow config request authorization).solo exec os db).1 = .ok a) :
    Parted request item db ((partialSettleEscrow config request authorization).solo exec os db).2 := by
  have hyields : Alone (fun _ => True) (fun r db' => ∀ a, r = .ok a → Parted request item db db')
      (partialSettleEscrow config request authorization) db := alone_split hheld authorization
  exact hyields.always os a hreturned

private theorem Parted.total_iff (h : Parted request item db db') :
    (db.balances request.userId).1 + (db.balances request.userId).2 -
        ((db'.balances request.userId).1 + (db'.balances request.userId).2) =
      db'.earnedBalance request.modelId - db.earnedBalance request.modelId ↔
    request.refundAmount + request.settleAmount = item.amount := by
  rw [h.user, h.model, Function.update_self, Function.update_self]
  simp only [Prod.fst_add, Prod.snd_add]
  constructor <;> intro hsum <;> linarith

private theorem booked_of_nonneg {amount : ℚ} {key : String} (hamount : 0 ≤ amount) :
    amount = 0 ∨ 0 < amount ∧ (∀ e ∈ db.ledger.docs, e.idempotencyKey ≠ key) ↔ db.Books amount key := by
  rw [Db.Books, hamount.lt_iff_ne', or_iff_not_imp_left]
  exact forall_congr' fun hne => and_iff_right hne

/-- Every bucket shows its change exactly if the two that have changed do. -/
private theorem Parted.shown_iff (h₀ : Parted request item db db') (hrefund : 0 ≤ request.refundAmount)
    (hsettle : 0 ≤ request.settleAmount) :
    (∀ userId, db'.bookedIn userId .user .available - db.bookedIn userId .user .available =
        (db'.balances userId).1 - (db.balances userId).1) ∧
      (∀ modelId, db'.bookedIn modelId .model .earned - db.bookedIn modelId .model .earned =
        db'.earnedBalance modelId - db.earnedBalance modelId) ↔
    db.Books request.refundAmount (trim (request.idempotencyKey ++ "_refund")) ∧
      db.Books request.settleAmount (trim (request.idempotencyKey ++ "_settle")) := by
  obtain ⟨config, w, m, id, db₁, db₂, hledger, hrefunded, hsettled⟩ := h₀.entries
  have hstart : ∀ accountId accountType state,
      db₁.bookedIn accountId accountType state = db.bookedIn accountId accountType state := by
    intro accountId accountType state
    rw [Db.bookedIn, Db.entriesOf, hledger]
    rfl
  have hnew : (partialRefundEntry config request w id).New db₁ ↔
      ∀ e ∈ db.ledger.docs, e.idempotencyKey ≠ trim (request.idempotencyKey ++ "_refund") := by
    rw [LedgerService.CreateLedgerEntryRequest.New, hledger]
    rfl
  have hnew' : (partialSettleEntry config request m id).New db₂ ↔
      ∀ e ∈ db.ledger.docs, e.idempotencyKey ≠ trim (request.idempotencyKey ++ "_settle") := by
    have hkeys : trim (partialRefundEntry config request w id).idempotencyKey ≠
        trim (partialSettleEntry config request m id).idempotencyKey := fun hkey =>
      absurd ((trim_append_inj (by decide) (by decide) request.idempotencyKey).mp hkey) (by decide)
    apply (hrefunded.new_iff hkeys).trans
    rw [LedgerService.CreateLedgerEntryRequest.New, hledger]
    rfl
  have havailable : ∀ userId, db'.bookedIn userId .user .available = db₂.bookedIn userId .user .available :=
    fun userId => hsettled.elsewhere fun h => by cases h.2.1
  have hearned : ∀ modelId, db₂.bookedIn modelId .model .earned = db.bookedIn modelId .model .earned :=
    fun modelId => (hrefunded.elsewhere fun h => by cases h.2.1).trans (hstart _ _ _)
  have hrefund_iff := (hrefunded.booked_iff rfl).trans (or_congr_right (and_congr_right fun _ => hnew))
  have hsettle_iff := (hsettled.booked_iff rfl).trans (or_congr_right (and_congr_right fun _ => hnew'))
  refine and_congr (Iff.trans ⟨fun h => ?_, fun h userId => ?_⟩ (hrefund_iff.trans (booked_of_nonneg hrefund)))
    (Iff.trans ⟨fun h => ?_, fun h modelId => ?_⟩ (hsettle_iff.trans (booked_of_nonneg hsettle)))
  · have hself := h request.userId
    rw [havailable, ← hstart, h₀.user, Function.update_self, Prod.fst_add, add_sub_cancel_left] at hself
    exact hself
  · rw [havailable, h₀.user]
    by_cases hid : userId = request.userId
    · rw [hid, Function.update_self, Prod.fst_add, add_sub_cancel_left, ← hstart]
      exact h
    · rw [Function.update_of_ne hid, sub_self, hrefunded.elsewhere fun h => hid h.1.symm, hstart, sub_self]
  · have hself := h request.modelId
    rw [← hearned, h₀.model, Function.update_self, add_sub_cancel_left] at hself
    exact hself
  · rw [← hearned, h₀.model]
    by_cases hid : modelId = request.modelId
    · rw [hid, Function.update_self, add_sub_cancel_left]
      exact h
    · rw [Function.update_of_ne hid, sub_self, hsettled.elsewhere fun h => hid h.1.symm, sub_self]

/-- A partial settlement that returns is an exact split of its item exactly if its parts are not
negative and add up to the amount of the item, and no entry it would write is already in the ledger.
Identifiers but keys are trimmed, and amounts exact but for the sum that is checked. -/
theorem exact_split_iff (hheld : db.Held request.escrowId item)
    (authorization : Option QueuePartialSettlementAuthorization) (os : ℕ → Oracle) {a : EscrowPartialSettleResponse}
    (hreturned : ((partialSettleEscrow config request authorization).solo exec os db).1 = .ok a) :
    ExactSplit request item db ((partialSettleEscrow config request authorization).solo exec os db).2 ↔
      0 ≤ request.refundAmount ∧ 0 ≤ request.settleAmount ∧
        request.refundAmount + request.settleAmount = item.amount ∧
        db.Books request.refundAmount (trim (request.idempotencyKey ++ "_refund")) ∧
        db.Books request.settleAmount (trim (request.idempotencyKey ++ "_settle")) := by
  have hparted := alone_parted hheld authorization os hreturned
  constructor
  · intro h
    have hshown := (hparted.shown_iff h.refund h.settle).mp ⟨h.available, h.earned⟩
    exact ⟨h.refund, h.settle, h.sum, hshown⟩
  · rintro ⟨hrefund, hsettle, hsum, hbooks⟩
    obtain ⟨havailable, hearned⟩ := (hparted.shown_iff hrefund hsettle).mpr hbooks
    exact ⟨hrefund, hsettle, hsum, hparted.total_iff.mpr hsum, havailable, hearned⟩

end settled

section scenario

def samplePartialSettle (refundAmount settleAmount : ℚ) : EscrowPartialSettleRequest where
  escrowId := "escrow-1"
  userId := "user-1"
  modelId := "model-1"
  refundAmount := refundAmount
  settleAmount := settleAmount
  queueItemId := "queue-0"
  reason := .partialPerformance
  idempotencyKey := "partial-1"
  requestId := "request-4"
  metadata := none

def samplePartialAuthorization : QueuePartialSettlementAuthorization where
  queueItemId := "queue-0"
  token := "token"
  escrowId := "escrow-1"
  userId := "user-1"
  modelId := "model-1"
  refundAmount := 2
  settleAmount := 3
  reason := .partialPerformance
  issuedAt := 0
  expiresAt := 300000

/-- The store after a partial settlement of the 5 points of the held item, alone. -/
def partedDb (refundAmount settleAmount : ℚ) : Db :=
  ((partialSettleEscrow WalletService.defaultConfig (samplePartialSettle refundAmount settleAmount)
    (some samplePartialAuthorization)).solo exec tick escrowedDb).2

private theorem escrowed_held : escrowedDb.Held "escrow-1" sampleItem := by
  have hfind : escrowedDb.escrowItems.find "escrow-1" = some sampleItem := by
    exact (Collection.find_insert (by simp [Collection.Free, Collection.empty]) _).trans (if_pos rfl)
  exact ⟨hfind, rfl⟩

/-- Of 5 points the user gets back 2 and the model earns 3. -/
theorem exact_split_five : ExactSplit (samplePartialSettle 2 3) sampleItem escrowedDb (partedDb 2 3) := by
  have hok : ((partialSettleEscrow WalletService.defaultConfig (samplePartialSettle 2 3)
      (some samplePartialAuthorization)).solo exec tick escrowedDb).1.isOk = true := by decide +kernel
  rcases hreturned : ((partialSettleEscrow WalletService.defaultConfig (samplePartialSettle 2 3)
      (some samplePartialAuthorization)).solo exec tick escrowedDb).1 with e | a
  · rw [hreturned] at hok
    cases hok
  · have hheld : escrowedDb.Held (samplePartialSettle 2 3).escrowId sampleItem := escrowed_held
    exact (exact_split_iff hheld _ tick hreturned).mpr
      ⟨by decide, by decide, by decide +kernel, fun _ e he => (by cases he), fun _ e he => (by cases he)⟩

/-- Parts that add up to half a hundredth of a point more than the item are accepted: the
model earns more than the user loses. -/
theorem split_not_exact : escrowedDb.Held "escrow-1" sampleItem ∧ ((partialSettleEscrow WalletService.defaultConfig (samplePartialSettle 2 (601 / 200))
      (some samplePartialAuthorization)).solo exec tick escrowedDb).1.isOk = true ∧
    ¬ ExactSplit (samplePartialSettle 2 (601 / 200)) sampleItem escrowedDb (partedDb 2 (601 / 200)) := by
  refine ⟨escrowed_held, by decide +kernel, fun h => ?_⟩
  exact absurd h.sum (by decide +kernel)

end scenario
end RedRoomRewards
