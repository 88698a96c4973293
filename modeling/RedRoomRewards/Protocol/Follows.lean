import RedRoomRewards.Protocol.Track

/-! What it takes for a service program to follow the protocol, one rule for each
command and each helper of the services. -/
namespace RedRoomRewards
open Process

/-- The replies some database can give. -/
def Possible (c : Cmd) (r : c.Reply) : Prop := ∃ o db, (exec o db c).1 = r

def Operation.rules (op : Operation) : Prog.Rules Mongo Track where
  possible := Possible
  next := fun tr c r => tr.after op c r
  may := fun tr c => op.Permits tr c

def Operation.Ends {α : Type} (op : Operation) (tr : Track) : Except ServiceError α → Prop
  | .ok _ => op.Returns tr
  | .error e => tr.Throws e

/-- From track `tr` on, the program keeps to the protocol of the operation. -/
abbrev Follows {α : Type} (op : Operation) (ends : Track → Except ServiceError α → Prop) (tr : Track)
    (p : Service α) : Prop := Prog.Obeys op.rules ends tr p

section possible

theorem Possible.findWallet {userId : String} {w : Wallet} (h : Possible (.findWallet userId) (some w)) :
    w.userId = userId := by
  obtain ⟨o, db, h⟩ := h
  exact Store.Collection.key_of_find h

theorem Possible.findModelWallet {modelId : String} {m : ModelWallet}
    (h : Possible (.findModelWallet modelId) (some m)) : m.modelId = modelId := by
  obtain ⟨o, db, h⟩ := h
  exact Store.Collection.key_of_find h

theorem create_ok {δ κ ι : Type} {key : δ → κ} {index : δ → ι} [DecidableEq κ] [DecidableEq ι]
    {c : Store.Collection δ κ ι key index} {d d' : δ} {invalid keyPattern : List String}
    (h : (create c d invalid keyPattern).1 = .ok d') :
    d' = d ∧ invalid = [] ∧ c.Free d ∧ (create c d invalid keyPattern).2 = c.insert d := by
  rcases create_cases c d invalid keyPattern with ⟨e, he⟩ | ⟨hvalid, hfree, hcreate⟩
  · rw [he] at h
    cases h
  · rw [hcreate] at h ⊢
    exact ⟨(Except.ok.inj h).symm, hvalid, hfree, rfl⟩

theorem Possible.createWallet {w w' : Wallet} (h : Possible (.createWallet w) (.ok w')) : w' = w := by
  obtain ⟨o, db, h⟩ := h
  exact (create_ok h).1

theorem Possible.createModelWallet {m m' : ModelWallet}
    (h : Possible (.createModelWallet m) (.ok m')) : m' = m := by
  obtain ⟨o, db, h⟩ := h
  exact (create_ok h).1

theorem Possible.createEscrowItem {i i' : EscrowItem}
    (h : Possible (.createEscrowItem i) (.ok i')) : i' = i ∧ 0 ≤ i.amount := by
  obtain ⟨o, db, h⟩ := h
  obtain ⟨heq, hvalid, -⟩ := create_ok h
  refine ⟨heq, ?_⟩
  by_contra hneg
  simp [EscrowItem.invalid, invalidPaths, hneg] at hvalid

theorem Possible.createLedgerEntry {e e' : LedgerEntry}
    (h : Possible (.createLedgerEntry e) (.ok e')) : e' = e := by
  obtain ⟨o, db, h⟩ := h
  simp only [exec] at h
  split at h
  · cases h
  · exact (create_ok h).1

theorem exec_lockEscrowItem {o : Oracle} {db : Db} {escrowId : String} {status : EscrowStatus}
    {at' : Time} {i : EscrowItem} (h : (exec o db (.lockEscrowItem escrowId status at')).1 = some i) :
    db.escrowItems.find escrowId = some i ∧ i.status = .held := by
  simp only [exec, Db.lockEscrowItem] at h
  split at h
  · rename_i j hj
    split at h
    · rename_i hheld
      obtain rfl : j = i := Option.some.inj h
      exact ⟨hj, hheld⟩
    · cases h
  · cases h

theorem Possible.lockEscrowItem {escrowId : String} {status : EscrowStatus} {at' : Time}
    {i : EscrowItem} (h : Possible (.lockEscrowItem escrowId status at') (some i)) :
    i.escrowId = escrowId ∧ i.status = .held := by
  obtain ⟨o, db, h⟩ := h
  obtain ⟨hfind, hheld⟩ := exec_lockEscrowItem h
  exact ⟨Store.Collection.key_of_find hfind, hheld⟩

end possible

section commands
variable {α : Type} {op : Operation} {ends : Track → Except ServiceError α → Prop} {tr : Track}

theorem follows_issue {c : Cmd} {k : c.Reply → Service α} (hmay : op.Permits tr c)
    (hk : ∀ r, Possible c r → Follows op ends (tr.after op c r) (k r)) :
    Follows op ends tr (issue c >>= k) := ⟨hmay, hk⟩

/-- A command the protocol allows anywhere and keeps no track of. -/
theorem follows_read {c : Cmd} {k : c.Reply → Service α} (hmay : op.Permits tr c)
    (hsame : ∀ r, tr.after op c r = tr) (hk : ∀ r, Follows op ends tr (k r)) :
    Follows op ends tr (issue c >>= k) := by
  apply follows_issue hmay
  intro r _
  rw [hsame]
  exact hk r

theorem follows_now {k : Time → Service α} (hk : ∀ t, Follows op ends tr (k t)) :
    Follows op ends tr (issue .now >>= k) := follows_read trivial (fun _ => rfl) hk

theorem follows_uuidv4 {k : String → Service α}
    (hk : ∀ id, Follows op ends { tr with ids := id :: tr.ids } (k id)) :
    Follows op ends tr (issue .uuidv4 >>= k) := follows_issue trivial fun id _ => hk id

theorem follows_findWallet {userId : String} {k : Option Wallet → Service α}
    (hnone : Follows op ends { tr with missing := true } (k none))
    (hsome : ∀ w, w.userId = userId →
      Follows op ends { tr with wallets := w :: tr.wallets } (k (some w))) :
    Follows op ends tr (issue (.findWallet userId) >>= k) := by
  refine follows_issue trivial fun r hr => ?_
  cases r with
  | none => exact hnone
  | some w => exact hsome w (Possible.findWallet hr)

theorem follows_updateWallet {f : WalletFilter} {u : WalletUpdate} {k : Option Wallet → Service α}
    (hmay : op.Permits tr (.updateWallet f u))
    (hnone : Follows op ends { tr with stage := tr.stage.userMissed } (k none))
    (hsome : ∀ w, Follows op ends { tr with stage := tr.stage.userPaid op, committed := some (f, u) }
      (k (some w))) :
    Follows op ends tr (issue (.updateWallet f u) >>= k) := by
  apply follows_issue hmay
  intro r _
  cases r with
  | none => exact hnone
  | some w => exact hsome w

theorem follows_updateModelWallet {f : ModelWalletFilter} {u : ModelWalletUpdate}
    {k : Option ModelWallet → Service α} (hmay : op.Permits tr (.updateModelWallet f u))
    (hnone : Follows op ends { tr with stage := tr.stage.modelMissed } (k none))
    (hsome : ∀ m, Follows op ends { tr with stage := tr.stage.modelPaid } (k (some m))) :
    Follows op ends tr (issue (.updateModelWallet f u) >>= k) := by
  apply follows_issue hmay
  intro r _
  cases r with
  | none => exact hnone
  | some m => exact hsome m

end commands

section helpers
variable {α β : Type} {op : Operation} {ends : Track → Except ServiceError α → Prop} {tr : Track}

open WalletService LedgerService

theorem follows_bind {ends : Track → Except ServiceError β → Prop} {p : Service α}
    {f : α → Service β} (h : Follows op (Prog.andThen op.rules ends f) tr p) :
    Follows op ends tr (p >>= f) := (Prog.obeys_bind _ _ _).mpr h

theorem follows_ite {c : Prop} [Decidable c] {p q : Service α} (hthen : c → Follows op ends tr p)
    (helse : ¬ c → Follows op ends tr q) : Follows op ends tr (if c then p else q) := by
  by_cases hc : c
  · rw [if_pos hc]
    exact hthen hc
  · rw [if_neg hc]
    exact helse hc

theorem follows_throwIf {p : Prop} [Decidable p] {e : ServiceError} {f : Unit → Service α}
    (hthrow : p → ends tr (.error e)) (hk : ¬ p → Follows op ends tr (f ())) :
    Follows op ends tr (Prog.throwIf p e >>= f) := (Prog.obeys_throwIf_bind _ _ _ _).mpr ⟨hthrow, hk⟩

theorem follows_orThrow {e : ServiceError} {a : Option β} {f : β → Service α}
    (hthrow : a = none → ends tr (.error e)) (hk : ∀ b, a = some b → Follows op ends tr (f b)) :
    Follows op ends tr (Prog.orThrow e a >>= f) := (Prog.obeys_orThrow_bind _ _ _ _).mpr ⟨hthrow, hk⟩

theorem follows_claim {key scope : String} {ends : Track → Except ServiceError Unit → Prop}
    (hstage : tr.stage = .opening) (hclaim : op.claim = some (key, scope))
    (hthrow : ∀ e, ends tr (.error e)) (hok : ends { tr with stage := .ready } (.ok ())) :
    Follows op ends tr (claim key scope) := by
  refine follows_bind (follows_now fun _ => follows_now fun _ => ?_)
  refine follows_issue ⟨hstage, hclaim⟩ fun r _ => ?_
  rcases r with (_ | _ | _) | _
  · exact hthrow _
  · exact hthrow _
  · exact hthrow _
  · exact hok

theorem follows_getOrCreateWallet {currency userId : String}
    {ends : Track → Except ServiceError Wallet → Prop} (hopen : op.MayOpen tr)
    (hthrow : ∀ e, ends { tr with missing := true } (.error e))
    (hok : ∀ missing w, w.userId = userId →
      ends { tr with wallets := w :: tr.wallets, missing } (.ok w)) :
    Follows op ends tr (getOrCreateWallet currency userId) := by
  refine follows_findWallet (follows_issue ⟨hopen, currency, userId, rfl⟩ fun r hr => ?_) (hok _)
  cases r with
  | error e => exact hthrow _
  | ok w =>
    obtain rfl := Possible.createWallet hr
    exact hok _ _ rfl

theorem follows_getOrCreateModelWallet {currency modelId : String}
    {ends : Track → Except ServiceError ModelWallet → Prop} (hlocked : ∃ i, tr.stage = .locked i)
    (hthrow : ∀ e, ends tr (.error e))
    (hok : ∀ m, m.modelId = modelId → ends { tr with models := m :: tr.models } (.ok m)) :
    Follows op ends tr (getOrCreateModelWallet currency modelId) := by
  refine follows_issue trivial fun r hr => ?_
  cases r with
  | some m => exact hok m (Possible.findModelWallet hr)
  | none =>
    refine follows_issue ⟨hlocked, currency, modelId, rfl⟩ fun r hr => ?_
    cases r with
    | error e => exact hthrow _
    | ok m =>
      obtain rfl := Possible.createModelWallet hr
      exact hok _ rfl

theorem follows_lockEscrow {escrowId : String} {status : EscrowStatus}
    {ends : Track → Except ServiceError EscrowItem → Prop} (hstage : tr.stage = .ready)
    (htarget : op.target = some escrowId) (hstatus : status = op.lockStatus)
    (hthrow : ∀ e, ends tr (.error e))
    (hok : ∀ i, i.escrowId = escrowId → i.status = .held → ends { tr with stage := .locked i } (.ok i)) :
    Follows op ends tr (lockEscrow escrowId status) := by
  refine follows_now fun t => follows_issue ⟨hstage, htarget, hstatus⟩ fun r hr => ?_
  cases r with
  | some i =>
    obtain ⟨hid, hheld⟩ := Possible.lockEscrowItem hr
    exact hok i hid hheld
  | none =>
    refine follows_read trivial (fun _ => rfl) fun r => ?_
    cases r with
    | none => exact hthrow _
    | some i => exact hthrow _

theorem follows_publish {event : WalletEvent} {ends : Track → Except ServiceError Unit → Prop}
    (hok : ∀ ids, ends { tr with ids := ids } (.ok ())) : Follows op ends tr (publish event) :=
  follows_uuidv4 fun _ => follows_now fun _ => follows_read trivial (fun _ => rfl) fun _ => hok _

/-- `tr'` is `tr` after storing an entry for the request, or finding its key taken. -/
structure Track.Wrote (tr : Track) (request : CreateLedgerEntryRequest) (tr' : Track) : Prop where
  stage : tr'.stage = tr.stage
  duplicated : tr.duplicated = true → tr'.duplicated = true
  entries : tr.entries ⊆ tr'.entries
  wrote : tr'.duplicated = true ∨ ∃ e ∈ tr'.entries, e.accountType = request.accountType ∧
    e.balanceState = request.balanceState

/-- What `createEntry` needs of a request for the available bucket. -/
def Operation.MayRequest (op : Operation) (tr : Track) (request : CreateLedgerEntryRequest) : Prop :=
  request.accountType = .user ∧ request.balanceState = .available →
    (∀ e ∈ tr.entries, ¬ e.OfAvailable) ∧
      ∃ w ∈ tr.wallets, ∃ f u, tr.committed = some (f, u) ∧ f.Reads w ∧
        request.accountId = w.userId ∧ request.balanceBefore = w.availableBalance ∧
        request.amount = (op.delta u).1 ∧
        request.balanceAfter = w.availableBalance + (op.delta u).1

section createEntry
variable {ends : Track → Except ServiceError LedgerEntry → Prop}

private theorem follows_insertEntry {e : LedgerEntry} (hmay : op.MayBook tr e)
    (hthrow : ∀ tr' e, tr'.stage = tr.stage → ends tr' (.error (.ledger e)))
    (hok : ends { tr with entries := e :: tr.entries } (.ok e))
    (hdup : ∀ e', ends { tr with duplicated := true } (.ok e')) :
    Follows op ends tr (insertEntry e) := by
  refine follows_issue hmay fun r hr => ?_
  cases r with
  | ok e' =>
    obtain rfl := Possible.createLedgerEntry hr
    exact hok
  | error err =>
    by_cases hdupl : err = .duplicateKey ["idempotencyKey"]
    · subst hdupl
      have htrack : tr.after op (.createLedgerEntry e) (.error (.duplicateKey ["idempotencyKey"])) =
          { tr with duplicated := true } := by simp [Track.after, Track.wroteEntry, Except.toOption]
      rw [htrack]
      refine follows_read trivial (fun _ => rfl) fun r => ?_
      cases r with
      | none => exact hthrow _ _ rfl
      | some e' => exact hdup e'
    · show Follows op ends _ (if _ then _ else _)
      rw [if_neg hdupl]
      exact hthrow _ _ rfl

private theorem follows_givenOrFresh {id : Option String}
    {ends : Track → Except ServiceError String → Prop}
    (hok : ∀ ids id, ends { tr with ids := ids } (.ok id)) : Follows op ends tr (givenOrFresh id) := by
  have hfresh : Follows op ends tr (issue .uuidv4) := ⟨trivial, fun id _ => hok _ id⟩
  cases id with
  | none => exact hfresh
  | some id =>
    by_cases hid : id = ""
    · rw [givenOrFresh, if_pos hid]
      exact hfresh
    · rw [givenOrFresh, if_neg hid]
      exact hok tr.ids id

theorem follows_createEntry {config : LedgerService.Config} {request : CreateLedgerEntryRequest}
    (hdone : tr.stage.Done) (hmay : op.MayRequest tr request)
    (hthrow : ∀ tr' e, tr'.stage = tr.stage → ends tr' (.error (.ledger e)))
    (hok : ∀ tr' e, tr.Wrote request tr' → ends tr' (.ok e)) :
    Follows op ends tr (createEntry config request) := by
  apply follows_throwIf (fun _ => hthrow _ _ rfl)
  intro _
  apply follows_throwIf (fun _ => hthrow _ _ rfl)
  intro _
  cases request.metadata.bind piiIn with
  | some message => exact hthrow _ _ rfl
  | none =>
    refine follows_uuidv4 fun entryId => follows_bind (follows_givenOrFresh fun ids transactionId => ?_)
    refine follows_now fun timestamp => follows_throwIf (fun _ => hthrow _ _ rfl) fun _ => ?_
    refine follows_orThrow (fun _ => hthrow _ _ rfl) fun reason _ => follows_insertEntry ⟨hdone, hmay⟩ ?_ ?_ ?_
    · exact fun tr' e htr' => hthrow tr' e htr'
    · exact hok _ _ ⟨rfl, id, fun _ he => .tail _ he, .inr ⟨_, .head _, rfl, rfl⟩⟩
    · exact fun e' => hok _ _ ⟨rfl, fun _ => rfl, fun _ he => he, .inl rfl⟩

end createEntry
end helpers
end RedRoomRewards
