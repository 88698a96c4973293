import RedRoomRewards.Alone.Commands
import RedRoomRewards.Protocol.Accounts

/-! What a guarded update rests on: the document that the call has read last, and has not
tried to update since. -/
namespace RedRoomRewards
open Process Store

section readings

/-- A user's or a model's wallet. -/
inductive Account where
  | user (userId : String)
  | model (modelId : String)
  deriving DecidableEq

/-- A guarded update that has been committed, with the document it was computed from. -/
inductive Commit where
  | wallet (f : WalletFilter) (u : WalletUpdate) (w : Wallet)
  | model (f : ModelWalletFilter) (u : ModelWalletUpdate) (m : ModelWallet)

/-- The wallets a call has read and not tried to update since, the accounts whose guarded
update it has lost, and the guarded updates it has committed; lists have the newest first. -/
structure Readings where
  wallet : Option Wallet := none
  model : Option ModelWallet := none
  lost : List Account := []
  commits : List Commit := []

/-- The account whose guarded update has found another version. -/
def Cmd.loses : (c : Cmd) → c.Reply → Option Account
  | .updateWallet f _, none => some (.user f.userId)
  | .updateModelWallet f _, none => some (.model f.modelId)
  | _, _ => none

/-- The account whose guarded update has been committed. -/
def Cmd.gains : (c : Cmd) → c.Reply → Option Account
  | .updateWallet f _, some _ => some (.user f.userId)
  | .updateModelWallet f _, some _ => some (.model f.modelId)
  | _, _ => none

/-- The guarded update that a command has committed. -/
def Readings.commit (x : Readings) : (c : Cmd) → c.Reply → Option Commit
  | .updateWallet f u, some _ => x.wallet.map (.wallet f u)
  | .updateModelWallet f u, some _ => x.model.map (.model f u)
  | _, _ => none

def Readings.after (x : Readings) : (c : Cmd) → c.Reply → Readings
  | .findWallet _, r => { x with wallet := r }
  | .createWallet _, r => { x with wallet := Except.toOption r }
  | .updateWallet f u, r => { x with
      wallet := none
      lost := ((Cmd.updateWallet f u).loses r).toList ++ x.lost
      commits := (x.commit (.updateWallet f u) r).toList ++ x.commits }
  | .findModelWallet _, r => { x with model := r }
  | .createModelWallet _, r => { x with model := Except.toOption r }
  | .updateModelWallet f u, r => { x with
      model := none
      lost := ((Cmd.updateModelWallet f u).loses r).toList ++ x.lost
      commits := (x.commit (.updateModelWallet f u) r).toList ++ x.commits }
  | _, _ => x

/-- A guarded update rests on what has just been read: the document passes its filter. -/
def Readings.Allows (x : Readings) : Cmd → Prop
  | .updateWallet f _ => ∃ w, x.wallet = some w ∧ w.userId = f.userId ∧ f.accepts w = true
  | .updateModelWallet f _ => ∃ m, x.model = some m ∧ m.modelId = f.modelId ∧ m.version = f.version
  | _ => True

/-- The command concerns neither kind of wallet. -/
def Cmd.OffWallets : Cmd → Prop
  | .findWallet _ | .createWallet _ | .updateWallet .. | .findModelWallet _ | .createModelWallet _
  | .updateModelWallet .. => False
  | _ => True

/-- A call throws this because of guarded updates that it has lost. -/
def ServiceError.Contention : ServiceError → Prop
  | .optimisticLock .. => True
  | .error message => message.head? = some "Optimistic lock conflict after "
  | _ => False

theorem Readings.after_offWallets {c : Cmd} (hc : c.OffWallets) (x : Readings) (r : c.Reply) : x.after c r = x := by
  cases c <;> first | rfl | exact hc.elim

theorem Readings.allows_offWallets {c : Cmd} (hc : c.OffWallets) (x : Readings) : x.Allows c := by
  cases c with
  | updateWallet f u | updateModelWallet f u => exact hc.elim
  | _ => trivial

end readings

section calm
variable {α β : Type}

/-- The program leaves the wallets alone, and what it throws is not about a lost race. -/
abbrev Calm (p : Service α) : Prop :=
  Prog.Obeys (within Cmd.OffWallets) (fun _ r => ∀ e, r = .error e → ¬ e.Contention) () p

theorem calm_ret (a : α) : Calm (.ret a) := fun e h => by cases h

theorem calm_throw {e : ServiceError} (he : ¬ e.Contention) : Calm (.throw e : Service α) := by
  intro e' h
  cases h
  exact he

theorem calm_bind {p : Service α} {f : α → Service β} (hp : Calm p) (hf : ∀ a, Calm (f a)) : Calm (p >>= f) := by
  refine (Prog.obeys_bind p f ()).mpr (hp.imp ?_)
  rintro ⟨⟩ (e | a) hends
  · exact calm_throw (hends e rfl)
  · exact hf a

theorem calm_issue {c : Cmd} {k : c.Reply → Service α} (hc : c.OffWallets) (hk : ∀ r, Calm (k r)) :
    Calm (issue c >>= k) := ⟨hc, fun r _ => hk r⟩

theorem calm_ask {c : Cmd} (hc : c.OffWallets) : Calm (issue c) := ⟨hc, fun r _ => calm_ret r⟩

theorem calm_throwIf {p : Prop} [Decidable p] {e : ServiceError} (he : ¬ e.Contention) :
    Calm (Prog.throwIf p e : Service Unit) := by
  unfold Prog.throwIf
  split
  · exact calm_throw he
  · exact calm_ret ()

theorem calm_orThrow {e : ServiceError} (he : ¬ e.Contention) (a : Option α) : Calm (Prog.orThrow e a) := by
  cases a with
  | none => exact calm_throw he
  | some a => exact calm_ret a

theorem calm_ite {p : Prop} [Decidable p] {q q' : Service α} (hq : Calm q) (hq' : Calm q') :
    Calm (if p then q else q') := by
  split
  · exact hq
  · exact hq'

theorem calm_created {r : Except MongoError α} : Calm (created r) := by
  cases r with
  | error e => exact calm_throw id
  | ok a => exact calm_ret a

theorem calm_createEntry {config : LedgerService.Config} {request : LedgerService.CreateLedgerEntryRequest} :
    Calm (LedgerService.createEntry config request) := by
  refine calm_bind (calm_throwIf id) fun _ => calm_bind (calm_throwIf id) fun _ => ?_
  cases request.metadata.bind LedgerService.piiIn with
  | some message => exact calm_throw id
  | none =>
    refine calm_issue trivial fun entryId => calm_bind ?_ fun transactionId => calm_issue trivial fun timestamp =>
      calm_bind (calm_throwIf id) fun _ => calm_bind (calm_orThrow id _) fun reason => calm_issue trivial fun r => ?_
    · unfold LedgerService.givenOrFresh
      split
      · exact calm_ite (calm_ask trivial) (calm_ret _)
      · exact calm_ask trivial
    · cases r with
      | ok e => exact calm_ret e
      | error e => exact calm_ite (calm_issue trivial fun existing => calm_orThrow id _) (calm_throw id)

theorem calm_publish {event : WalletEvent} : Calm (WalletService.publish event) :=
  calm_issue trivial fun _ => calm_issue trivial fun _ => calm_issue trivial fun _ => calm_ret ()

theorem calm_claim {key scope : String} : Calm (WalletService.claim key scope) := by
  refine calm_bind (calm_issue trivial fun _ => calm_issue trivial fun _ => calm_issue trivial fun r => ?_) fun claimed =>
    calm_throwIf (by simp [ServiceError.Contention])
  rcases r with (e | e | e) | r
  · exact calm_throw id
  · exact calm_ret _
  · exact calm_throw id
  · exact calm_ret _

theorem calm_lockEscrow {escrowId : String} {status : EscrowStatus} : Calm (WalletService.lockEscrow escrowId status) := by
  refine calm_issue trivial fun _ => calm_issue trivial fun locked => ?_
  cases locked with
  | some i => exact calm_ret i
  | none =>
    refine calm_issue trivial fun existing => ?_
    cases existing with
    | none => exact calm_throw id
    | some i => exact calm_throw id

theorem calm_createEntryIf {config : WalletService.Config} {amount : ℚ}
    {entry : LedgerService.CreateLedgerEntryRequest} : Calm (WalletService.createEntryIf config amount entry) :=
  calm_ite (calm_bind calm_createEntry fun _ => calm_ret ()) (calm_ret ())

theorem calm_validateAmount {config : PointAccrualService.Config} {amount : ℚ} :
    Calm (PointAccrualService.validateAmount config amount) :=
  calm_bind (calm_throwIf (by simp [ServiceError.Contention])) fun _ =>
    calm_bind (calm_throwIf (by simp [ServiceError.Contention])) fun _ =>
      calm_throwIf (by simp [ServiceError.Contention])

theorem calm_checkFirst {first : Prop} [Decidable first] {request : AwardPointsRequest} {operationType : String} :
    Calm (PointAccrualService.checkFirst first request operationType) := by
  refine calm_ite (calm_bind ?_ fun used => calm_throwIf (by simp [ServiceError.Contention])) (calm_ret ())
  exact calm_issue trivial fun _ => calm_ret _

theorem calm_validateAdminAuth {admin : AdminContext} : Calm (AdminOpsService.validateAdminAuth admin) :=
  calm_bind (calm_throwIf (by simp [ServiceError.Contention])) fun _ => calm_throwIf (by simp [ServiceError.Contention])

theorem calm_redemptionAmount {config : PointRedemptionService.Config} {amount : ℚ} :
    Calm (PointRedemptionService.validateAmount config amount) :=
  calm_bind (calm_throwIf (by simp [ServiceError.Contention])) fun _ =>
    calm_bind (calm_throwIf (by simp [ServiceError.Contention])) fun _ =>
      calm_throwIf (by simp [ServiceError.Contention])

theorem calm_queryEntries {filter : LedgerService.LedgerQueryFilter} : Calm (LedgerService.queryEntries filter) :=
  calm_issue trivial fun _ => calm_issue trivial fun _ => calm_ret _

end calm

section rests
variable {α β : Type} {x : Readings} {ends : Readings → Except ServiceError α → Prop}

/-- The rules for guarded updates. -/
def resting : Prog.Rules Mongo Readings where
  possible := Possible
  next := Readings.after
  may := Readings.Allows

/-- Each guarded update of the program rests on what it has just read. -/
abbrev Rests (ends : Readings → Except ServiceError α → Prop) (x : Readings) (p : Service α) : Prop :=
  Prog.Obeys resting ends x p

theorem rests_bind {ends : Readings → Except ServiceError β → Prop} {p : Service α} {f : α → Service β}
    (h : Rests (Prog.andThen resting ends f) x p) : Rests ends x (p >>= f) := (Prog.obeys_bind _ _ _).mpr h

theorem rests_calm {ends : Readings → Except ServiceError β → Prop} {p : Service α} {f : α → Service β}
    (hp : Calm p) (hthrow : ∀ e, ¬ e.Contention → ends x (.error e)) (hf : ∀ a, Rests ends x (f a)) :
    Rests ends x (p >>= f) := by
  induction p with
  | ret a => exact hf a
  | throw e => exact hthrow e (hp e rfl)
  | call c k ih =>
    obtain ⟨hc, hk⟩ := hp
    refine ⟨?_, fun r _ => ?_⟩
    · exact x.allows_offWallets hc
    · have hrest := ih r (hk r trivial)
      rwa [← Readings.after_offWallets hc x r] at hrest

theorem rests_issue {c : Cmd} {k : c.Reply → Service α} (hc : c.OffWallets)
    (hk : ∀ r, Possible c r → Rests ends x (k r)) : Rests ends x (issue c >>= k) := by
  refine ⟨?_, fun r hr => ?_⟩
  · exact x.allows_offWallets hc
  · have hrest := hk r hr
    rwa [← Readings.after_offWallets hc x r] at hrest

theorem rests_throwIf {p : Prop} [Decidable p] {e : ServiceError} {f : Unit → Service α}
    (hthrow : p → ends x (.error e)) (hf : ¬ p → Rests ends x (f ())) : Rests ends x (Prog.throwIf p e >>= f) :=
  (Prog.obeys_throwIf_bind _ _ _ _).mpr ⟨hthrow, hf⟩

theorem rests_orThrow {e : ServiceError} {a : Option β} {f : β → Service α} (hthrow : ends x (.error e))
    (hf : ∀ b, a = some b → Rests ends x (f b)) : Rests ends x (Prog.orThrow e a >>= f) :=
  (Prog.obeys_orThrow_bind _ _ _ _).mpr ⟨fun _ => hthrow, hf⟩

theorem rests_findWallet {userId : String} {k : Option Wallet → Service α}
    (hk : ∀ r, (∀ w ∈ r, w.userId = userId) → Rests ends { x with wallet := r } (k r)) :
    Rests ends x (issue (.findWallet userId) >>= k) := by
  refine ⟨trivial, fun r hr => hk r ?_⟩
  rintro w ⟨rfl⟩
  exact Possible.findWallet hr

theorem rests_getOrCreateWallet {currency userId : String} {f : Wallet → Service α}
    (hthrow : ∀ e, ends { x with wallet := none } (.error (.mongo e)))
    (hf : ∀ w, w.userId = userId → Rests ends { x with wallet := some w } (f w)) :
    Rests ends x (WalletService.getOrCreateWallet currency userId >>= f) := by
  refine rests_bind (rests_findWallet fun r hr => ?_)
  cases r with
  | some w => exact hf w (hr w rfl)
  | none =>
    refine ⟨trivial, fun r hr => ?_⟩
    cases r with
    | error e => exact hthrow e
    | ok w =>
      obtain rfl := Possible.createWallet hr
      exact hf _ rfl

theorem rests_getOrCreateModelWallet {currency modelId : String} {f : ModelWallet → Service α}
    (hthrow : ∀ e, ends { x with model := none } (.error (.mongo e)))
    (hf : ∀ m, m.modelId = modelId → Rests ends { x with model := some m } (f m)) :
    Rests ends x (WalletService.getOrCreateModelWallet currency modelId >>= f) := by
  refine rests_bind ⟨trivial, fun r hr => ?_⟩
  cases r with
  | some m => exact hf m (Possible.findModelWallet hr)
  | none =>
    refine ⟨trivial, fun r hr => ?_⟩
    cases r with
    | error e => exact hthrow e
    | ok m =>
      obtain rfl := Possible.createModelWallet hr
      exact hf _ rfl

theorem rests_updateWallet {f : WalletFilter} {u : WalletUpdate} {w : Wallet} {k : Option Wallet → Service α}
    (hread : x.wallet = some w) (huser : w.userId = f.userId) (haccepts : f.accepts w = true)
    (hlost : Rests ends { x with wallet := none, lost := .user f.userId :: x.lost } (k none))
    (hwon : ∀ w', Rests ends { x with wallet := none, commits := .wallet f u w :: x.commits } (k (some w'))) :
    Rests ends x (issue (.updateWallet f u) >>= k) := by
  refine ⟨⟨w, hread, huser, haccepts⟩, fun r _ => ?_⟩
  cases r with
  | none => exact hlost
  | some w' =>
    have hcommit : x.commit (.updateWallet f u) (some w') = some (.wallet f u w) := by simp [Readings.commit, hread]
    show Rests ends { x with
      wallet := none
      lost := x.lost
      commits := (x.commit (.updateWallet f u) (some w')).toList ++ x.commits } (k (some w'))
    rw [hcommit]
    exact hwon w'

theorem rests_updateModelWallet {f : ModelWalletFilter} {u : ModelWalletUpdate} {m : ModelWallet}
    {k : Option ModelWallet → Service α} (hread : x.model = some m) (hmodel : m.modelId = f.modelId)
    (hversion : m.version = f.version)
    (hlost : Rests ends { x with model := none, lost := .model f.modelId :: x.lost } (k none))
    (hwon : ∀ m', Rests ends { x with model := none, commits := .model f u m :: x.commits } (k (some m'))) :
    Rests ends x (issue (.updateModelWallet f u) >>= k) := by
  refine ⟨⟨m, hread, hmodel, hversion⟩, fun r _ => ?_⟩
  cases r with
  | none => exact hlost
  | some m' =>
    have hcommit : x.commit (.updateModelWallet f u) (some m') = some (.model f u m) := by simp [Readings.commit, hread]
    show Rests ends { x with
      model := none
      lost := x.lost
      commits := (x.commit (.updateModelWallet f u) (some m')).toList ++ x.commits } (k (some m'))
    rw [hcommit]
    exact hwon m'

/-- What follows the guarded update of an award, a deduction, an expiration or an adjustment. -/
theorem rests_booking {entry : String → Time → LedgerService.CreateLedgerEntryRequest}
    {response : String → Time → α} {ledger : LedgerService.Config}
    (hthrow : ∀ e, ¬ e.Contention → ends x (.error e)) (hok : ∀ id timestamp, ends x (.ok (response id timestamp))) :
    Rests ends x (do
      let transactionId : String ← issue .uuidv4
      let timestamp : Time ← issue .now
      let _ ← LedgerService.createEntry ledger (entry transactionId timestamp)
      pure (response transactionId timestamp)) :=
  rests_issue trivial fun _ _ => rests_issue trivial fun _ _ => rests_calm calm_createEntry hthrow fun _ => hok _ _

/-- The balance check of a redemption reads the wallet once more. -/
theorem rests_checkBalance {config : PointRedemptionService.Config} {request : RedeemPointsRequest}
    {f : Unit → Service α} (hthrow : ∀ {x available}, ends x (.error (.error
      ["Insufficient balance. Required: ", request.amount, ", Available: ", (available : ℚ)])))
    (hf : ∀ found, Rests ends { x with wallet := found } (f ())) :
    Rests ends x (PointRedemptionService.checkBalance config request >>= f) := by
  unfold PointRedemptionService.checkBalance WalletService.getUserBalance
  split
  · rw [Prog.bind_assoc, Prog.bind_assoc]
    apply rests_findWallet
    intro found _
    cases found with
    | none => exact rests_throwIf (fun _ => hthrow) fun _ => hf _
    | some w => exact rests_throwIf (fun _ => hthrow) fun _ => hf _
  · exact hf x.wallet

end rests

section seen
variable {config : Config} {A : Schedule} {d : Db} {s : Run} {t : ℕ} {call : Call}

/-- What the call of these events has read, lost and committed. -/
def Readings.ofHistory (hist : List (Event Mongo Call)) : Readings := hist.foldr (fun ev x => x.after ev.cmd ev.reply) {}

/-- What the call has read was in the database at some time. -/
structure Readings.Seen (x : Readings) (db : Db) : Prop where
  wallet : ∀ w ∈ x.wallet, db.wallets.Snapshot Wallet.version w
  model : ∀ m ∈ x.model, db.modelWallets.Snapshot ModelWallet.version m

/-- What the record of the readings has, the record of the protocol has. -/
private theorem readings_of_protocol (call : Call) (hist : List (Event Mongo Call)) :
    (∀ w ∈ (Readings.ofHistory hist).wallet, w ∈ (protocol.record call hist).wallets) ∧
      ∀ m ∈ (Readings.ofHistory hist).model, m ∈ (protocol.record call hist).models := by
  induction hist with
  | nil =>
    constructor
    · rintro w ⟨⟩
    · rintro m ⟨⟩
  | cons ev hist ih =>
    obtain ⟨t, call', c, r⟩ := ev
    obtain ⟨hwallets, hmodels⟩ := ih
    have hrecord : Readings.ofHistory (⟨t, call', c, r⟩ :: hist) = (Readings.ofHistory hist).after c r := rfl
    have hprotocol : protocol.record call (⟨t, call', c, r⟩ :: hist) =
        (protocol.record call hist).after call.operation c r := rfl
    rw [hrecord, hprotocol]
    generalize Readings.ofHistory hist = x at hwallets hmodels
    generalize protocol.record call hist = tr at hwallets hmodels
    cases c with
    | findWallet id => exact ⟨fun w hw => List.mem_append_left _ (Option.mem_toList.mpr hw), hmodels⟩
    | createWallet new => exact ⟨fun w hw => List.mem_append_left _ (Option.mem_toList.mpr hw), hmodels⟩
    | findModelWallet id => exact ⟨hwallets, fun m hm => List.mem_append_left _ (Option.mem_toList.mpr hm)⟩
    | createModelWallet new => exact ⟨hwallets, fun m hm => List.mem_append_left _ (Option.mem_toList.mpr hm)⟩
    | updateWallet f u => exact ⟨fun w hw => (by cases hw), hmodels⟩
    | updateModelWallet f u => exact ⟨hwallets, fun m hm => by cases hm⟩
    | _ => exact ⟨hwallets, hmodels⟩

theorem readings_seen (hA : Serves A) (h : (system config).Reaches A (.start d) s) (hcall : s.calls t = some call) :
    (Readings.ofHistory (s.history t)).Seen s.db := by
  obtain ⟨hw, hm⟩ := readings_of_protocol call (s.history t)
  obtain ⟨hwallets, hmodels⟩ :=
    snapshots hA h t call (protocol.record call (s.history t)) (by simp [Contract.track, hcall])
  exact ⟨fun w hmem => hwallets w (hw w hmem), fun m hmem => hmodels m (hm m hmem)⟩

end seen
end RedRoomRewards
