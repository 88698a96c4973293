import RedRoomRewards.Alone.Escrow
import RedRoomRewards.Guarantees.ExpiredCredits
import Mathlib.Tactic.Ring

/-! What expirations debit over a whole history of calls that run one after the other. -/
namespace RedRoomRewards
open Process Store LedgerService

section history
variable (config : Config) (userId : String)

/-- A call that runs alone, and what the oracle supplies to it. -/
abbrev SoloCall := Call × (ℕ → Oracle)

/-- The store after a call, with exact amounts. -/
def Db.perform (db : Db) (x : SoloCall) : Db := ((x.1.body config.exact).solo exec x.2 db).2

/-- The store after calls that are made one after the other. -/
def Db.performAll (db : Db) (xs : List SoloCall) : Db := xs.foldl (Db.perform config) db

/-- The awards, deductions, holds and expirations of one user. -/
def Call.movesAvailable : Call → Prop
  | .award request => request.userId = userId
  | .deduct request => request.userId = userId
  | .hold request => request.userId = userId
  | .expire userId' _ => userId' = userId
  | _ => False

def Call.isExpiration : Call → Bool
  | .expire .. => true
  | _ => false

/-- The instant that an expiration compares the dates of the credits with. -/
def SoloCall.instant (x : SoloCall) : Time := (x.2 2).now

/-- The entry adds points to what the user has available. -/
def LedgerEntry.CreditOf (e : LedgerEntry) : Prop :=
  e.accountId = userId ∧ e.accountType = .user ∧ e.type = .credit ∧ e.balanceState = .available

instance (e : LedgerEntry) : Decidable (e.CreditOf userId) := inferInstanceAs (Decidable (_ ∧ _))

/-- The user's credits that have come into the ledger from `db` to `db'`. -/
def newCredits (db db' : Db) : List LedgerEntry :=
  (db'.ledger.docs.drop db.ledger.docs.length).filter fun e => e.CreditOf userId

/-- What a call has debited, if it is an expiration. -/
def expirationDebit (db : Db) (x : SoloCall) : ℚ :=
  if x.1.isExpiration = true then (db.balances userId).1 - ((db.perform config x).balances userId).1 else 0

/-- What the expirations among the calls have debited. -/
def expirationDebits : Db → List SoloCall → ℚ
  | _, [] => 0
  | db, x :: xs => expirationDebit config userId db x + expirationDebits (db.perform config x) xs

/-- The entry has expired when the call is made. -/
def expiredAtCall (x : SoloCall) (e : LedgerEntry) : Bool :=
  PointExpirationService.expired config.expiration (config.expiration.expiredUntil x.instant) e

/-- The open credits after a call: those that were awarded since the balance was last 0, and
had not expired at any expiration since then. -/
def openAfter (db : Db) (opened : List LedgerEntry) (x : SoloCall) : List LedgerEntry :=
  if ((db.perform config x).balances userId).1 = 0 then []
  else (if x.1.isExpiration = true then opened.filter fun e => !expiredAtCall config x e else opened) ++
    newCredits userId db (db.perform config x)

/-- An expiration looks at no expired credit but open ones, or the balance is not more than
the open ones that have expired. -/
def CountsOpen (db : Db) (opened : List LedgerEntry) (x : SoloCall) : Prop :=
  x.1.isExpiration = true →
    (∀ e ∈ db.creditPage userId, expiredAtCall config x e = true → ∃ e' ∈ opened, e'.entryId = e.entryId) ∨
    (db.balances userId).1 ≤ amountWhere (expiredAtCall config x) opened

/-- Each expiration among the calls counts open credits. -/
def AllCountOpen : Db → List LedgerEntry → List SoloCall → Prop
  | _, _, [] => True
  | db, opened, x :: xs => CountsOpen config userId db opened x ∧
      AllCountOpen (db.perform config x) (openAfter config userId db opened x) xs

instance (db : Db) (opened : List LedgerEntry) (x : SoloCall) : Decidable (CountsOpen config userId db opened x) :=
  inferInstanceAs (Decidable (_ → _ ∨ _))

instance decidableAllCountOpen : (db : Db) → (opened : List LedgerEntry) → (xs : List SoloCall) →
    Decidable (AllCountOpen config userId db opened xs)
  | _, _, [] => isTrue trivial
  | db, opened, x :: xs => @instDecidableAnd _ _ _
      (decidableAllCountOpen (db.perform config x) (openAfter config userId db opened x) xs)

end history

section growth
variable {config : Config} {userId : String} {db db' db'' : Db}

/-- The ledger has got new entries, and the new credits of the user have positive amounts. -/
def Db.Grows (userId : String) (db db' : Db) : Prop :=
  ∃ es, db'.ledger.docs = db.ledger.docs ++ es ∧ ∀ e ∈ es, e.CreditOf userId → 0 < e.amount

theorem Db.Grows.refl (userId : String) (db : Db) : db.Grows userId db := ⟨[], (List.append_nil _).symm, by simp⟩

theorem Db.Grows.trans (h : db.Grows userId db') (h' : db'.Grows userId db'') : db.Grows userId db'' := by
  obtain ⟨es, hes, hpos⟩ := h
  obtain ⟨es', hes', hpos'⟩ := h'
  refine ⟨es ++ es', by rw [hes', hes, List.append_assoc], fun e he => ?_⟩
  rcases List.mem_append.mp he with hmem | hmem
  · exact hpos e hmem
  · exact hpos' e hmem

theorem newCredits_of_grows {es : List LedgerEntry} (h : db'.ledger.docs = db.ledger.docs ++ es) :
    newCredits userId db db' = es.filter fun e => e.CreditOf userId := by
  rw [newCredits, h, List.drop_left]

/-- The credits from `db` to `db''` come up to `db'` or after it. -/
theorem newCredits_append (h : db.Grows userId db') (h' : db'.Grows userId db'') :
    newCredits userId db db'' = newCredits userId db db' ++ newCredits userId db' db'' := by
  obtain ⟨es, hes, -⟩ := h
  obtain ⟨es', hes', -⟩ := h'
  rw [newCredits_of_grows hes, newCredits_of_grows hes', ← List.filter_append]
  exact newCredits_of_grows (by rw [hes', hes, List.append_assoc])

theorem newCredits_spec (h : db.Grows userId db') :
    ∀ e ∈ newCredits userId db db', e ∈ db'.ledger.docs ∧ 0 < e.amount := by
  obtain ⟨es, hes, hpos⟩ := h
  intro e he
  rw [newCredits_of_grows hes] at he
  obtain ⟨hmem, hcredit⟩ := List.mem_filter.mp he
  exact ⟨hes ▸ List.mem_append_right _ hmem, hpos e hmem (of_decide_eq_true hcredit)⟩

/-- A booking that is no credit of the user, or a positive one, lets the ledger grow. -/
private theorem grows_of_booking {config : LedgerService.Config} {entry : String → Time → CreateLedgerEntryRequest}
    {wallets : Wallets} {change : ℚ} (hdone : BookingDone config entry (db.posting wallets userId change) db')
    (hentry : ∀ id t e, (entry id t).Describes config e → e.CreditOf userId → 0 < e.amount) :
    db.Grows userId db' := by
  rcases hdone.ledger with hsame | ⟨id, t, e, he, hdocs⟩
  · exact ⟨[], hsame.trans (List.append_nil _).symm, by simp⟩
  · exact ⟨[e], hdocs, by simpa using hentry id t e he⟩

/-- A command that writes no credit of the user lets the ledger grow. -/
private theorem grows_exec {c : Cmd} (hc : ∀ e, c = .createLedgerEntry e → ¬ e.CreditOf userId) (o : Oracle)
    (h : db.Grows userId db') : db.Grows userId (exec o db' c).2 := by
  refine h.trans ⟨_, exec_ledger, fun e he hcredit => ?_⟩
  cases c with
  | createLedgerEntry e' =>
    cases hreply : (exec o db' (.createLedgerEntry e')).1 with
    | error error =>
      rw [hreply] at he
      cases he
    | ok e'' =>
      rw [hreply] at he
      obtain rfl : e = e'' := List.mem_singleton.mp he
      obtain rfl : e = e' := Possible.createLedgerEntry ⟨o, db', hreply⟩
      exact absurd hcredit (hc e rfl)
  | _ => cases he

end growth

section calls
variable {config : Config} {userId : String} {db : Db}

/-- The commands that write no credit of the user. -/
private abbrev NoCredit (userId : String) (c : Cmd) : Prop := ∀ e, c = .createLedgerEntry e → ¬ e.CreditOf userId

private theorem noCredit_createEntry {config : LedgerService.Config} {entry : CreateLedgerEntryRequest}
    (hentry : ∀ e, entry.Describes config e → ¬ e.CreditOf userId) :
    Within (NoCredit userId) (createEntry config entry) :=
  within_createEntry_of (fun _ h => by cases h) (fun _ h => by cases h) (fun _ _ h => by cases h)
    fun e he e' heq => Cmd.createLedgerEntry.inj heq ▸ hentry e he

private theorem noCredit_recordHold {config : WalletService.Config} {request : EscrowHoldRequest} {wallet : Wallet}
    {escrowId : String} : Within (NoCredit userId) (WalletService.recordHold config request wallet escrowId) := by
  refine within_issue (fun _ h => by cases h) fun transactionId => within_issue (fun _ h => by cases h) fun timestamp => ?_
  refine within_bind (noCredit_createEntry ?_) fun _ => within_bind (noCredit_createEntry ?_) fun _ => ?_
  · rintro _ ⟨_, _, _, _, _, rfl⟩ ⟨-, -, htype, -⟩
    cases htype
  · rintro _ ⟨_, _, _, _, _, rfl⟩ ⟨-, -, -, hstate⟩
    cases hstate
  · refine within_bind (within_issue (fun _ h => by cases h) fun _ => within_issue (fun _ h => by cases h) fun _ =>
      within_issue (fun _ h => by cases h) fun _ => trivial) fun _ => trivial

private theorem noCredit_executeHold {config : WalletService.Config} {request : EscrowHoldRequest} :
    Within (NoCredit userId) (WalletService.executeHoldInEscrow config request) := by
  refine within_bind (within_issue (fun _ h => by cases h) fun found => ?_) fun wallet => within_throwIf ?_
  · cases found with
    | some w => trivial
    | none => exact within_issue (fun _ h => by cases h) fun reply => by cases reply <;> trivial
  · refine within_issue (fun _ h => by cases h) fun escrowId => within_issue (fun _ h => by cases h) fun createdAt =>
      within_issue (fun _ h => by cases h) fun reply => within_bind (by cases reply <;> trivial) fun _ =>
        within_issue (fun _ h => by cases h) fun updated => ?_
    cases updated with
    | none => exact within_issue (fun _ h => by cases h) fun _ => trivial
    | some w => exact noCredit_recordHold

private theorem noCredit_holdInEscrow {config : WalletService.Config} {request : EscrowHoldRequest} :
    Within (NoCredit userId) (WalletService.holdInEscrow config request) := by
  have hclaim : Within (NoCredit userId) (WalletService.claim request.idempotencyKey "hold_escrow") := by
    refine within_bind (within_issue (fun _ h => by cases h) fun _ => within_issue (fun _ h => by cases h) fun _ =>
      within_issue (fun _ h => by cases h) fun r => ?_) fun claimed => ?_
    · rcases r with (e | e | e) | r <;> trivial
    · unfold Prog.throwIf
      split <;> trivial
  apply within_bind hclaim
  intro _
  generalize config.maxRetryAttempts = left
  induction left with
  | zero => trivial
  | succ left ih =>
    refine (Prog.obeys_catching _ _ _).mpr (noCredit_executeHold.imp ?_)
    rintro ⟨⟩ (e | response) -
    · cases e with
      | optimisticLock type id =>
        show Within (NoCredit userId) (if _ then _ else _)
        split
        · exact ih
        · trivial
      | _ => trivial
    · trivial

/-- What an expiration does to the balance and the ledger; `total` is what it has counted. -/
private structure Expires (userId : String) (total : ℚ) (db db' : Db) : Prop where
  debit : (db.balances userId).1 - (db'.balances userId).1 = 0 ∨
    (db.balances userId).1 - (db'.balances userId).1 = min total (db.balances userId).1
  grows : db.Grows userId db'

private theorem alone_expires {config : PointExpirationService.Config} {requestId : String} {total : ℚ} :
    Alone (fun _ => True) (fun _ db' => Expires userId total db db')
      (expireTotal config userId requestId total) db := by
  refine alone_expireTotal (fun _ => ?_) fun w hw _ _ => ?_
  · have hstop : Expires userId total db db := ⟨.inl (sub_self _), .refl userId db⟩
    exact ⟨hstop, fun _ => hstop⟩
  · have hposted : ∀ db', BookingDone config.ledger (PointExpirationService.expirationEntry config userId requestId w
        (min total w.availableBalance)) (db.posting db.wallets userId (-min total w.availableBalance)) db' →
        Expires userId total db db' := by
      intro db' hdone
      have hbefore : (db.balances userId).1 = w.availableBalance := by
        rw [Db.balances, hw]
        rfl
      have hafter : (db'.balances userId).1 = w.availableBalance + -min total w.availableBalance := by
        rw [Db.balances, hdone.wallets, Db.posting_find _ hw]
        rfl
      refine ⟨.inr ?_, grows_of_booking hdone ?_⟩
      · rw [hbefore, hafter]
        ring
      · rintro id t _ ⟨_, _, _, _, _, rfl⟩ ⟨-, -, htype, -⟩
        cases htype
    exact alone_booking_done (fun _ _ db' => hposted db') fun _ => hposted _ ⟨rfl, rfl, .inl rfl⟩

private theorem alone_award_grows {config : PointAccrualService.Config} {request : AwardPointsRequest}
    (huser : request.userId = userId) :
    Alone (fun _ => True) (fun _ db' => db.Grows userId db') (PointAccrualService.awardPoints config request) db := by
  subst huser
  apply alone_awardPoints (fun _ _ => .refl _ db)
  intro hgoes w wallets _
  have hentry : ∀ id (_ : Time) e, (PointAccrualService.awardEntry config request w id).Describes config.ledger e →
      e.CreditOf request.userId → 0 < e.amount := by
    rintro id t _ ⟨_, _, _, _, _, rfl⟩ -
    exact hgoes.amount.2.2
  exact alone_booking_done (fun _ _ db' hdone => grows_of_booking hdone hentry) fun _ =>
    ⟨[], (List.append_nil _).symm, by simp⟩

private theorem alone_deduct_grows {config : PointAccrualService.Config} {request : AwardPointsRequest}
    (huser : request.userId = userId) :
    Alone (fun _ => True) (fun _ db' => db.Grows userId db')
      (PointAccrualService.deductFromAvailable config request) db := by
  subst huser
  apply alone_deductFromAvailable (fun _ _ => .refl _ db)
  intro _ w _
  have hentry : ∀ id (_ : Time) e, (PointAccrualService.deductEntry config request w id).Describes config.ledger e →
      e.CreditOf request.userId → 0 < e.amount := by
    rintro id t _ ⟨_, _, _, _, _, rfl⟩ ⟨-, -, htype, -⟩
    cases htype
  exact alone_booking_done (fun _ _ db' hdone => grows_of_booking hdone hentry) fun _ =>
    ⟨[], (List.append_nil _).symm, by simp⟩

private theorem alone_hold_grows {config : WalletService.Config} {request : EscrowHoldRequest} :
    Alone (fun _ => True) (fun _ db' => db.Grows userId db') (WalletService.holdInEscrow config request) db :=
  alone_of_within noCredit_holdInEscrow (fun o _ _ hc h => grows_exec hc o h) (.refl userId db)

variable {x : SoloCall}

private theorem perform_returning {α : Type} {response : α → Response} {p : Service α} {call : Call} {os : ℕ → Oracle}
    (hbody : call.body config.exact = returning response p) : db.perform config (call, os) = (p.solo exec os db).2 := by
  rw [Db.perform, hbody]
  exact Prog.solo_bind_ret (f := fun a => Prog.ret (Next.done (response a))) (g := fun a => Next.done (response a))
    (fun _ => rfl) p os

private theorem perform_expire {requestId : String} {os : ℕ → Oracle} :
    Expires userId (db.expiredAt config.exact.expiration userId (os 2).now) db
      (db.perform config (.expire userId requestId, os)) := by
  have hsolo : db.perform config (.expire userId requestId, os) =
      ((PointExpirationService.processUserExpiration config.exact.expiration userId requestId).solo exec os db).2 :=
    Prog.solo_bind_ret (g := fun next => match next with
      | .done a => .done (Response.expire a)
      | .again () => .again (Call.expire userId requestId))
      (fun next => by cases next <;> rfl) _ os
  rw [hsolo, solo_processUserExpiration]
  exact alone_expires.always _

/-- No call takes anything out of the ledger, and only credits with positive amounts come in. -/
theorem perform_grows (hcall : x.1.movesAvailable userId) : db.Grows userId (db.perform config x) := by
  obtain ⟨call, os⟩ := x
  cases call with
  | award request =>
    rw [perform_returning rfl]
    exact (alone_award_grows hcall).always os
  | deduct request =>
    rw [perform_returning rfl]
    exact (alone_deduct_grows hcall).always os
  | hold request =>
    rw [perform_returning rfl]
    exact alone_hold_grows.always os
  | expire userId' requestId =>
    obtain rfl : userId' = userId := hcall
    exact perform_expire.grows
  | _ => exact hcall.elim

end calls
section counting
variable {config : Config} {userId : String} {db : Db} {opened : List LedgerEntry} {x : SoloCall}
  {p q : LedgerEntry → Bool} {es es' : List LedgerEntry}

/-- What is found among positive amounts adds up to no more than they do. -/
private theorem amountWhere_le_of_subset (hnodup : es.Nodup) (hsubset : ∀ e ∈ es, p e = true → e ∈ es')
    (hes' : ∀ e ∈ es', 0 < e.amount) : amountWhere p es ≤ amountWhere p es' := by
  have hsub : (es.filter p).Subperm (es'.filter p) := by
    apply List.subperm_of_subset (hnodup.filter _)
    intro e he
    obtain ⟨hmem, hp⟩ := List.mem_filter.mp he
    exact List.mem_filter.mpr ⟨hsubset e hmem hp, hp⟩
  obtain ⟨l, hperm, hsublist⟩ := hsub
  rw [amountWhere, amountWhere, ← ((hperm.map LedgerEntry.amount).sum_eq)]
  apply (hsublist.map LedgerEntry.amount).sum_le_sum
  intro a ha
  obtain ⟨e, he, rfl⟩ := List.mem_map.mp ha
  exact (hes' e (List.mem_filter.mp he).1).le

/-- What meets the weaker condition meets the stronger one, or is left when that is taken out. -/
private theorem amountWhere_split (hpq : ∀ e, p e = true → q e = true) (es : List LedgerEntry) :
    amountWhere p es + amountWhere q (es.filter fun e => !p e) = amountWhere q es := by
  have hp : (es.filter q).filter p = es.filter p := by
    rw [List.filter_filter]
    apply List.filter_congr
    intro e _
    cases he : p e with
    | false => rfl
    | true => rw [hpq e he, Bool.true_and]
  have hsplit := amountWhere_add_not p (es.filter q)
  rw [amountWhere, amountWhere, hp, List.filter_comm] at hsplit
  exact hsplit

private theorem creditPage_nodup : (db.creditPage userId).Nodup := by
  have hdocs : db.ledger.docs.Nodup := List.Nodup.of_map _ db.ledger.key_nodup
  apply List.Nodup.sublist ((List.take_sublist _ _).trans (List.drop_sublist _ _))
  exact (sortedEntries_perm _ _ _).nodup_iff.mpr (hdocs.filter _)

private theorem mem_ledger_of_page {e : LedgerEntry} (he : e ∈ db.creditPage userId) : e ∈ db.ledger.docs := by
  have hsorted := ((List.take_sublist _ _).trans (List.drop_sublist _ _)).subset he
  exact (List.mem_filter.mp ((sortedEntries_perm _ _ _).mem_iff.mp hsorted)).1

/-- An expiration that counts open credits debits no more than those that have expired. -/
private theorem debit_le (hcall : x.1.movesAvailable userId)
    (hopened : ∀ e ∈ opened, e ∈ db.ledger.docs ∧ 0 < e.amount) (hcounts : CountsOpen config userId db opened x) :
    expirationDebit config userId db x ≤
      if x.1.isExpiration = true then amountWhere (expiredAtCall config x) opened else 0 := by
  unfold expirationDebit
  split
  · rename_i hexpire
    have hpositive : ∀ e ∈ opened, 0 < e.amount := fun e he => (hopened e he).2
    have hcounted := hcounts hexpire
    obtain ⟨call, os⟩ := x
    cases call with
    | expire userId' requestId =>
      obtain rfl : userId' = userId := hcall
      have hexpires : Expires userId' (db.expiredAt config.exact.expiration userId' (os 2).now) db
        (db.perform config (.expire userId' requestId, os)) := perform_expire
      rcases hexpires.debit with hzero | hdebit
      · exact hzero.trans_le (amountWhere_nonneg _ hpositive)
      · rw [hdebit]
        rcases hcounted with hpage | hbalance
        · have htotal : db.expiredAt config.exact.expiration userId' (os 2).now =
              amountWhere (expiredAtCall config (.expire userId' requestId, os)) (db.creditPage userId') :=
            @totalExpired_eq config.exact.expiration _ rfl _
          refine (min_le_left _ _).trans (htotal.trans_le (amountWhere_le_of_subset creditPage_nodup ?_ hpositive))
          intro e he hexpired
          obtain ⟨e', he', hid⟩ := hpage e he hexpired
          have hsame : e' = e := List.inj_on_of_nodup_map db.ledger.key_nodup (hopened e' he').1
            (mem_ledger_of_page he) hid
          exact hsame ▸ he'
        · exact (min_le_right _ _).trans hbalance
    | _ => cases hexpire
  · exact le_rfl

/-- The open credits stay entries of the ledger with positive amounts. -/
private theorem openAfter_spec (hcall : x.1.movesAvailable userId)
    (hopened : ∀ e ∈ opened, e ∈ db.ledger.docs ∧ 0 < e.amount) :
    ∀ e ∈ openAfter config userId db opened x, e ∈ (db.perform config x).ledger.docs ∧ 0 < e.amount := by
  have hgrows : db.Grows userId (db.perform config x) := perform_grows hcall
  have hkept : ∀ e ∈ opened, e ∈ (db.perform config x).ledger.docs ∧ 0 < e.amount := by
    obtain ⟨es, hes, -⟩ := hgrows
    exact fun e he => ⟨hes ▸ List.mem_append_left _ (hopened e he).1, (hopened e he).2⟩
  intro e he
  unfold openAfter at he
  split at he
  · cases he
  · rcases List.mem_append.mp he with hold | hnew
    · split at hold
      · exact hkept e (List.mem_filter.mp hold).1
      · exact hkept e hold
    · exact newCredits_spec hgrows e hnew

/-- What a call debits as an expiration comes off the open credits that expire until later. -/
private theorem openAfter_pays (hcall : x.1.movesAvailable userId)
    (hopened : ∀ e ∈ opened, e ∈ db.ledger.docs ∧ 0 < e.amount) (hcounts : CountsOpen config userId db opened x)
    (hq : x.1.isExpiration = true → ∀ e, expiredAtCall config x e = true → q e = true) :
    expirationDebit config userId db x + amountWhere q (openAfter config userId db opened x) ≤
      amountWhere q opened + amountWhere q (newCredits userId db (db.perform config x)) := by
  have hdebit := debit_le hcall hopened hcounts
  have hnew : 0 ≤ amountWhere q (newCredits userId db (db.perform config x)) :=
    amountWhere_nonneg _ fun e he => (newCredits_spec (perform_grows hcall) e he).2
  have hold : 0 ≤ amountWhere q opened := amountWhere_nonneg _ fun e he => (hopened e he).2
  by_cases hexpire : x.1.isExpiration = true
  · rw [if_pos hexpire] at hdebit
    have hsplit := amountWhere_split (hq hexpire) opened
    have hrest : 0 ≤ amountWhere q (opened.filter fun e => !expiredAtCall config x e) :=
      amountWhere_nonneg _ fun e he => (hopened e (List.mem_filter.mp he).1).2
    unfold openAfter
    rw [if_pos hexpire]
    split
    · have hnil : amountWhere q ([] : List LedgerEntry) = 0 := rfl
      linarith
    · rw [amountWhere_append]
      linarith
  · rw [if_neg hexpire] at hdebit
    unfold openAfter
    rw [if_neg hexpire]
    split
    · have hnil : amountWhere q ([] : List LedgerEntry) = 0 := rfl
      linarith
    · rw [amountWhere_append]
      linarith

/-- What expirations debit comes off the credits that are open first, and the new ones. -/
private theorem debits_le (xs : List SoloCall) : ∀ db opened, (∀ x ∈ xs, x.1.movesAvailable userId) →
    (∀ e ∈ opened, e ∈ db.ledger.docs ∧ 0 < e.amount) → AllCountOpen config userId db opened xs →
    (∀ x ∈ xs, x.1.isExpiration = true → ∀ e, expiredAtCall config x e = true → q e = true) →
    db.Grows userId (db.performAll config xs) ∧ expirationDebits config userId db xs ≤
      amountWhere q opened + amountWhere q (newCredits userId db (db.performAll config xs)) := by
  induction xs with
  | nil =>
    intro db opened _ hopened _ _
    have hnone : newCredits userId db db = [] := (newCredits_of_grows (List.append_nil _).symm).trans rfl
    refine ⟨.refl userId db, ?_⟩
    show 0 ≤ amountWhere q opened + amountWhere q (newCredits userId db db)
    rw [hnone]
    exact add_nonneg (amountWhere_nonneg _ fun e he => (hopened e he).2) le_rfl
  | cons x xs ih =>
    intro db opened hcalls hopened hcounts hq
    have hcall := hcalls x (.head _)
    have hfirst : db.Grows userId (db.perform config x) := perform_grows hcall
    obtain ⟨hrest, hdebits⟩ := ih (db.perform config x) (openAfter config userId db opened x)
      (fun y hy => hcalls y (.tail _ hy)) (openAfter_spec hcall hopened) hcounts.2 fun y hy => hq y (.tail _ hy)
    have hpays := openAfter_pays hcall hopened hcounts.1 (hq x (.head _))
    refine ⟨hfirst.trans hrest, ?_⟩
    show expirationDebit config userId db x + expirationDebits config userId (db.perform config x) xs ≤
      amountWhere q opened + amountWhere q (newCredits userId db ((db.perform config x).performAll config xs))
    rw [newCredits_append hfirst hrest, amountWhere_append]
    linarith

end counting
section runs
variable {config : Config} {userId : String} {d : Db} {xs ys : List SoloCall} {now : Time}

/-- Where the balance is 0 no credit is open. -/
private theorem counts_from_zero (xs : List SoloCall) : ∀ db opened,
    AllCountOpen config userId db opened (xs ++ ys) → (xs = [] → opened = []) →
    ((db.performAll config xs).balances userId).1 = 0 → AllCountOpen config userId (db.performAll config xs) [] ys := by
  induction xs with
  | nil =>
    intro db opened hcounts hnone _
    rw [hnone rfl] at hcounts
    exact hcounts
  | cons x xs ih =>
    intro db opened hcounts _ hzero
    refine ih (db.perform config x) _ hcounts.2 (fun hlast => ?_) hzero
    subst hlast
    exact if_pos hzero

end runs

section scenario

/-- 100 points that have expired as soon as an expiration looks at them. -/
def expiringAward : AwardPointsRequest := { sampleAward with amount := 100, expiresAt := some 1 }

/-- 50 points that do not expire. -/
def lastingAward : AwardPointsRequest := { sampleAward with amount := 50, idempotencyKey := "award-2" }

private def firstDay : List SoloCall :=
  [(.award expiringAward, later 0), (.expire "user-1" "request-3", later 100)]

private def secondDay : List SoloCall :=
  [(.award lastingAward, later 200), (.expire "user-1" "request-4", later 86400000)]

end scenario
end RedRoomRewards
