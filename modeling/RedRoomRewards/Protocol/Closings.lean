import RedRoomRewards.Protocol.Entries

/-! Settlements and refunds that throw: the replies they cannot make up for, and where
a call stands that has thrown without having got one. -/
namespace RedRoomRewards
open Process Store

section moves

/-- The stored item a command gives another status, with that status. -/
def Cmd.moves : (c : Cmd) → c.Reply → Option (String × EscrowStatus)
  | .lockEscrowItem escrowId status _, r => if Option.isSome r then some (escrowId, status) else none
  | .updateEscrowItem escrowId u, _ => some (escrowId, u.status)
  | _, _ => none

/-- The statuses given to stored items in these events, newest first. -/
def statusMoves (hist : List (Event Mongo Call)) : List (String × EscrowStatus) :=
  hist.filterMap fun ev => ev.cmd.moves ev.reply

/-- The statuses a call has given to its item when it has got so far. -/
def Operation.moved (op : Operation) : Stage → List (String × EscrowStatus)
  | .locked i | .credited i | .debited i | .paid i | .beaten i _ => [(i.escrowId, op.lockStatus)]
  | .reopened i _ => [(i.escrowId, .held), (i.escrowId, op.lockStatus)]
  | .closed i => [(i.escrowId, op.finalStatus), (i.escrowId, op.lockStatus)]
  | _ => []

variable {op : Operation} {tr : Track} {items items' : EscrowItems} {c : Cmd} {r : c.Reply}

private theorem moved_userPaid (stage : Stage) : op.moved (stage.userPaid op) = op.moved stage := by
  cases stage with
  | locked i =>
    rw [Stage.userPaid]
    split <;> rfl
  | _ => rfl

private theorem moved_userMissed (stage : Stage) : op.moved stage.userMissed = op.moved stage := by
  cases stage <;> rfl

private theorem moved_modelPaid (stage : Stage) : op.moved stage.modelPaid = op.moved stage := by
  cases stage <;> rfl

private theorem moved_modelMissed (stage : Stage) : op.moved stage.modelMissed = op.moved stage := by
  cases stage <;> rfl

private theorem moves_of_silent (hlocked : c.locked r = none) (hunlocks : ¬ c.Unlocks) : c.moves r = none := by
  cases c with
  | lockEscrowItem escrowId status t =>
    obtain rfl : r = none := hlocked
    rfl
  | updateEscrowItem escrowId u => exact absurd trivial hunlocks
  | _ => rfl

/-- The stage of a call tells the statuses it has given. -/
theorem ItemEffect.moves (h : ItemEffect op tr items c r items') :
    op.moved (tr.after op c r).stage = (c.moves r).toList ++ op.moved tr.stage := by
  cases h with
  | silent hstage _ _ hlocked hunlocks =>
    rw [hstage, moves_of_silent hlocked hunlocks]
    rfl
  | claimed record hstage =>
    rw [hstage]
    rfl
  | paid => exact moved_userPaid _
  | missed => exact moved_userMissed _
  | credited => exact moved_modelPaid _
  | uncredited => exact moved_modelMissed _
  | created i hcreate =>
    cases op with
    | hold request =>
      rw [hcreate.1]
      rfl
    | _ => exact hcreate.elim
  | locked i t hstage =>
    rw [hstage]
    rfl
  | unlocked escrowId u hunlock =>
    obtain ⟨-, ⟨i, halfway, hstage, rfl, hu⟩ | ⟨i, hstage, rfl, hu⟩⟩ := hunlock
    · rw [Track.after, hstage, Cmd.moves, hu]
      rfl
    · rw [Track.after, hstage, Cmd.moves, hu]
      rfl
  | deleted i hstage =>
    rw [hstage]
    rfl

private theorem status_of_modify {id : String} {u : EscrowItemUpdate} {j : EscrowItem}
    (h : (items.modify id u.apply u.keeps).find id = some j) : j.status = u.status := by
  rw [Collection.find_modify, if_pos rfl] at h
  obtain ⟨i, -, rfl⟩ := Option.map_eq_some_iff.mp h
  rfl

/-- A stored item has the status that a command has given it. -/
theorem exec_moves {o : Oracle} {db : Db} {id : String} {status : EscrowStatus} {j : EscrowItem}
    (h : c.moves (exec o db c).1 = some (id, status)) (hj : (exec o db c).2.escrowItems.find id = some j) :
    j.status = status := by
  cases c with
  | lockEscrowItem escrowId status' t =>
    obtain ⟨hsome, heq⟩ := Option.ite_none_right_eq_some.mp h
    obtain ⟨rfl, rfl⟩ := Prod.mk.inj (Option.some.inj heq)
    obtain ⟨i, hi⟩ := Option.isSome_iff_exists.mp hsome
    obtain ⟨hfind, hheld⟩ := exec_lockEscrowItem hi
    simp only [exec, Db.lockEscrowItem, hfind, hheld, if_true] at hj
    exact status_of_modify hj
  | updateEscrowItem escrowId u =>
    obtain ⟨rfl, rfl⟩ := Prod.mk.inj (Option.some.inj h)
    exact status_of_modify hj
  | _ => cases h

/-- The statuses a call has given are those its stage tells. -/
theorem statusMoves_eq {config : Config} {A : Schedule} {d : Db} {s : Run}
    (h : (system config).Reaches A (.start d) s) : ∀ t call tr, protocol.track s t = some (call, tr) →
      call.operation ≠ .other → statusMoves (s.history t) = call.operation.moved tr.stage := by
  refine (protocol_kept config).invariant (P := fun call hist tr => call.operation ≠ .other →
    statusMoves hist = call.operation.moved tr.stage) (fun _ _ => rfl) ?_ h
  rintro call hist tr t c r ih hmay ⟨o, db, rfl⟩ hne
  have heffect : ItemEffect _ _ db.escrowItems c _ _ := item_effect o (hmay.resolve_left hne)
  show _ = call.operation.moved (tr.after call.operation c (exec o db c).1).stage
  rw [heffect.moves, ← ih hne, statusMoves, statusMoves, List.filterMap_cons, system_exec]
  cases c.moves (exec o db c).1 <;> rfl

end moves

section record

/-- The amounts of a partial settlement add up to that of the item. -/
def Operation.Splits : Operation → EscrowItem → Prop
  | partialSettle request, i => WalletService.missedBy request.refundAmount request.settleAmount i.amount ≤ Arithmetic.double (1 / 100)
  | _, _ => True

/-- The first of the two updates a call makes moves nothing. -/
def Operation.Idle : Operation → EscrowItem → Prop
  | settle request, _ => request.amount = 0
  | partialSettle request, i => request.refundAmount = 0 ∧ i.amount = 0
  | _, _ => True

/-- The metadata of the ledger entries a closing call writes. -/
def Operation.noted : Operation → Option Metadata
  | settle request => request.metadata
  | refund request => request.metadata
  | partialSettle request =>
    if 0 < request.refundAmount ∨ 0 < request.settleAmount then request.metadata else none
  | _ => none

/-- The replies after which a closing call leaves something behind: it throws with the item
locked or closed, or after an update that is not taken back. -/
def Operation.Upsets (op : Operation) (stage : Stage) : (c : Cmd) → c.Reply → Prop
  | .lockEscrowItem .., r => ∃ i, r = some i ∧ ¬ op.Splits i
  | .findWallet _, r => r = none
  | .createModelWallet _, r => ∃ e, r = .error e
  | .updateWallet .., r => r = none ∧ ∃ i, stage = .credited i ∧ ¬ op.Idle i
  | .updateModelWallet .., r => r = none ∧ ∀ i, stage = .debited i → ¬ op.Idle i
  | .updateEscrowItem _ u, _ => u.status ≠ .held ∧ op.noted.bind LedgerService.piiIn ≠ none
  | .uuidv4, r => LedgerService.blank r = true
  | .createLedgerEntry _, r => ∃ e, r = .error e ∧ e ≠ .duplicateKey ["idempotencyKey"]
  | .findLedgerEntry _, r => r = none
  | _, _ => False

/-- The stage a command and its reply lead to. -/
def Stage.after (op : Operation) (stage : Stage) (c : Cmd) (r : c.Reply) : Stage :=
  (({ stage := stage } : Track).after op c r).stage

theorem Track.after_stage (op : Operation) (tr : Track) (c : Cmd) (r : c.Reply) :
    (tr.after op c r).stage = tr.stage.after op c r := by cases c <;> rfl

/-- What a closing call has been told. -/
structure Closing where
  stage : Stage := .opening
  upset : Prop := False
  /-- The keys that the ledger has reported as taken. -/
  taken : List String := []

def Closing.after (rec : Closing) (op : Operation) (c : Cmd) (r : c.Reply) : Closing where
  stage := rec.stage.after op c r
  upset := rec.upset ∨ op.Upsets rec.stage c r
  taken := if c.duplicates r = true then c.ledgerKey.toList ++ rec.taken else rec.taken

/-- The call has nothing left to undo, or it got a reply that it cannot make up for. -/
def Closing.Undone (op : Operation) (rec : Closing) : Prop :=
  rec.upset ∨ rec.stage = .opening ∨ rec.stage = .ready ∨
    ∃ i halfway, rec.stage = .reopened i halfway ∧ (halfway = true → op.Idle i)

/-- A closing call throws only where it has nothing to undo, and looks only for entries
that the ledger has told of. -/
def closings : Contract Mongo Call Response ServiceError Closing where
  start := fun _ => {}
  next := fun call rec c r => rec.after call.operation c r
  may := fun call rec c => call.operation.target.isSome → ∀ key, c = .findLedgerEntry key →
    rec.upset ∨ key ∈ rec.taken
  ends := fun call rec r => call.operation.target.isSome → ∀ e, r = .error e → rec.Undone call.operation
  resumes := fun call call' rec => call.operation.target.isSome → call' = call ∧ rec = {}

/-- The record after a command, but for the keys. -/
structure Closing.Next (op : Operation) (rec : Closing) (c : Cmd) (r : c.Reply) (rec' : Closing) : Prop where
  stage : rec'.stage = rec.stage.after op c r
  upset : rec.upset → rec'.upset
  upsets : op.Upsets rec.stage c r → rec'.upset

end record

section closes
variable {config : Config} {call : Call} {rec : Closing} {α β : Type}

/-- The program of a closing call keeps to the rules. -/
private abbrev Closes (config : Config) (call : Call) (ends : Closing → Except ServiceError α → Prop) (rec : Closing)
    (p : Service α) : Prop := Prog.Obeys (closings.rules (system config) call) ends rec p

/-- Once the call cannot make up for a reply, any end will do. -/
private def Lenient (ends : Closing → Except ServiceError α → Prop) : Prop := ∀ rec r, rec.upset → ends rec r

/-- How a part of a closing call ends that nothing follows. -/
private def Ends (op : Operation) (rec : Closing) (r : Except ServiceError α) : Prop :=
  ∀ e, r = .error e → rec.Undone op

variable {ends : Closing → Except ServiceError α → Prop}

private theorem closes_upset (hends : Lenient ends) (hupset : rec.upset) (p : Service α) :
    Closes config call ends rec p := by
  refine Prog.obeys_stable (P := fun rec => rec.upset) p hupset (fun _ _ _ h => .inl h) ?_
    fun rec r h => hends rec r h
  exact fun _ _ h _ _ _ => .inl h

private theorem lenient_ends (op : Operation) : Lenient (α := α) (Ends op) := fun _ _ h _ _ => .inl h

private theorem lenient_andThen {ends : Closing → Except ServiceError β → Prop} (hends : Lenient ends)
    (f : α → Service β) : Lenient (Prog.andThen (closings.rules (system config) call) ends f) := by
  rintro rec (e | a) h
  · exact hends rec _ h
  · exact closes_upset hends h _

private theorem closes_bind {ends : Closing → Except ServiceError β → Prop} {p : Service α} {f : α → Service β}
    (h : Closes config call (Prog.andThen (closings.rules (system config) call) ends f) rec p) :
    Closes config call ends rec (p >>= f) := (Prog.obeys_bind _ _ _).mpr h

private theorem closes_issue {c : Cmd} {k : c.Reply → Service α} (hc : ∀ key, c ≠ .findLedgerEntry key)
    (hk : ∀ r rec', Possible c r → rec.Next call.operation c r rec' → Closes config call ends rec' (k r)) :
    Closes config call ends rec (issue c >>= k) :=
  ⟨fun _ key h => absurd h (hc key), fun r hr => hk r _ hr ⟨rfl, .inl, .inr⟩⟩

private theorem closes_throwIf {p : Prop} [Decidable p] {e : ServiceError} {f : Unit → Service α}
    (hthrow : p → ends rec (.error e)) (hk : ¬ p → Closes config call ends rec (f ())) :
    Closes config call ends rec (Prog.throwIf p e >>= f) :=
  (Prog.obeys_throwIf_bind _ _ _ _).mpr ⟨hthrow, hk⟩

/-- The record goes on from `rec` without leaving its stage. -/
private structure Stays (rec rec' : Closing) : Prop where
  stage : rec'.stage = rec.stage
  upset : rec.upset → rec'.upset

private theorem Stays.refl (rec : Closing) : Stays rec rec := ⟨rfl, id⟩

private theorem Stays.trans {rec' rec'' : Closing} (h : Stays rec rec') (h' : Stays rec' rec'') : Stays rec rec'' :=
  ⟨h'.stage.trans h.stage, h'.upset ∘ h.upset⟩

private theorem stays_of_next {op : Operation} {c : Cmd} {r : c.Reply} {rec' : Closing} (h : rec.Next op c r rec')
    (hstage : rec.stage.after op c r = rec.stage) : Stays rec rec' := ⟨h.stage.trans hstage, h.upset⟩

private theorem closes_now {k : Time → Service α} (hk : ∀ t rec', Stays rec rec' → Closes config call ends rec' (k t)) :
    Closes config call ends rec (issue .now >>= k) :=
  closes_issue (fun _ h => by cases h) fun t rec' _ h => hk t rec' (stays_of_next h rfl)

private theorem closes_uuidv4 {k : String → Service α} (hk : ∀ id rec', Stays rec rec' →
    (LedgerService.blank id = true → rec'.upset) → Closes config call ends rec' (k id)) :
    Closes config call ends rec (issue .uuidv4 >>= k) :=
  closes_issue (fun _ h => by cases h) fun id rec' _ h => hk id rec' (stays_of_next h rfl) h.upsets

private theorem closes_claim {key scope : String} {ends : Closing → Except ServiceError Unit → Prop}
    (hthrow : ∀ rec' e, rec'.stage = rec.stage → ends rec' (.error e))
    (hok : ∀ rec', rec'.stage = .ready → ends rec' (.ok ())) :
    Closes config call ends rec (WalletService.claim key scope) := by
  refine closes_bind (closes_now fun _ rec₁ h₁ => closes_now fun _ rec₂ h₂ => ?_)
  apply closes_issue (fun _ h => by cases h)
  intro r rec₃ _ h₃
  rcases r with (e | e | e) | record
  · exact hthrow rec₃ _ (h₃.stage.trans (h₁.trans h₂).stage)
  · exact hthrow rec₃ _ (h₃.stage.trans (h₁.trans h₂).stage)
  · exact hthrow rec₃ _ (h₃.stage.trans (h₁.trans h₂).stage)
  · exact hok rec₃ h₃.stage

private theorem closes_lockEscrow {escrowId : String} {status : EscrowStatus}
    {ends : Closing → Except ServiceError EscrowItem → Prop}
    (hthrow : ∀ rec' e, rec'.stage = rec.stage → ends rec' (.error e))
    (hok : ∀ rec' i, rec'.stage = .locked i → (¬ call.operation.Splits i → rec'.upset) → ends rec' (.ok i)) :
    Closes config call ends rec (WalletService.lockEscrow escrowId status) := by
  refine closes_now fun t rec₁ h₁ => closes_issue (fun _ h => by cases h) fun r rec₂ _ h₂ => ?_
  cases r with
  | some i => exact hok rec₂ i h₂.stage fun h => h₂.upsets ⟨i, rfl, h⟩
  | none =>
    apply closes_issue (fun _ h => by cases h)
    intro r rec₃ _ h₃
    have hstage : rec₃.stage = rec.stage := h₃.stage.trans (h₂.stage.trans h₁.stage)
    cases r with
    | none => exact hthrow rec₃ _ hstage
    | some i => exact hthrow rec₃ _ hstage

private theorem closes_getOrCreateModelWallet {currency modelId : String}
    {ends : Closing → Except ServiceError ModelWallet → Prop} (hends : Lenient ends)
    (hok : ∀ rec' m, Stays rec rec' → ends rec' (.ok m)) :
    Closes config call ends rec (WalletService.getOrCreateModelWallet currency modelId) := by
  apply closes_issue (fun _ h => by cases h)
  intro r rec₁ _ h₁
  have hstays := stays_of_next h₁ rfl
  cases r with
  | some m => exact hok rec₁ m hstays
  | none =>
    apply closes_issue (fun _ h => by cases h)
    intro r rec₂ _ h₂
    cases r with
    | error e => exact hends rec₂ _ (h₂.upsets ⟨e, rfl⟩)
    | ok m => exact hok rec₂ m (hstays.trans (stays_of_next h₂ rfl))

private theorem closes_findWallet {userId : String} {e : ServiceError} {k : Wallet → Service α} (hends : Lenient ends)
    (hk : ∀ rec' w, Stays rec rec' → Closes config call ends rec' (k w)) :
    Closes config call ends rec (issue (.findWallet userId) >>= fun r => Prog.orThrow e r >>= k) := by
  apply closes_issue (fun _ h => by cases h)
  intro r rec' _ h
  cases r with
  | none => exact hends rec' _ (h.upsets rfl)
  | some w => exact hk rec' w (stays_of_next h rfl)

private theorem closes_publish {event : WalletEvent} {ends : Closing → Except ServiceError Unit → Prop}
    (hok : ∀ rec', ends rec' (.ok ())) : Closes config call ends rec (WalletService.publish event) := by
  refine closes_uuidv4 fun _ _ _ _ => closes_now fun _ _ _ => closes_issue (fun _ h => by cases h) fun _ rec' _ _ => ?_
  exact hok rec'

/-- An entry whose key is taken is looked for in the ledger. -/
private theorem closes_insertEntry {e : LedgerEntry} {ends : Closing → Except ServiceError LedgerEntry → Prop}
    (hends : Lenient ends) (hok : ∀ rec' e, Stays rec rec' → ends rec' (.ok e)) :
    Closes config call ends rec (LedgerService.insertEntry e) := by
  refine ⟨fun _ key h => (by cases h), fun r hr => ?_⟩
  have hnext : rec.Next call.operation (.createLedgerEntry e) r (rec.after call.operation (.createLedgerEntry e) r) :=
    ⟨rfl, .inl, .inr⟩
  have hstays := stays_of_next hnext rfl
  cases r with
  | ok e' => exact hok _ e' hstays
  | error err =>
    by_cases hdup : err = .duplicateKey ["idempotencyKey"]
    · subst hdup
      refine ⟨fun _ key h => ?_, fun found _ => ?_⟩
      · obtain rfl := Cmd.findLedgerEntry.inj h
        exact .inr (.head _)
      · cases found with
        | none => exact hends _ _ (.inr rfl)
        | some e' => exact hok _ e' (hstays.trans ⟨rfl, .inl⟩)
    · show Closes config call ends _ (if _ then _ else _)
      rw [if_neg hdup]
      exact hends _ _ (hnext.upsets ⟨err, rfl, hdup⟩)

/-- What a closing call writes to the ledger is refused only after a reply it cannot make up for. -/
private structure Recordable (rec : Closing) (request : LedgerService.CreateLedgerEntryRequest) : Prop where
  user : ¬ (request.accountType = .user ∧ request.balanceState = .earned)
  model : ¬ (request.accountType = .model ∧ request.balanceState = .escrow)
  metadata : request.metadata.bind LedgerService.piiIn ≠ none → rec.upset
  reason : request.reason ≠ none
  ids : request.correlationId = none ∧ ∃ id, request.transactionId = some id ∧
    (LedgerService.blank id = true → rec.upset)

private theorem Recordable.stays {rec' : Closing} {request : LedgerService.CreateLedgerEntryRequest}
    (h : Recordable rec request) (hstays : Stays rec rec') : Recordable rec' request := by
  obtain ⟨id, hid, hblank⟩ := h.ids.2
  exact ⟨h.user, h.model, hstays.upset ∘ h.metadata, h.reason, h.ids.1, id, hid, hstays.upset ∘ hblank⟩

private theorem closes_createEntry {config' : LedgerService.Config} {request : LedgerService.CreateLedgerEntryRequest}
    {ends : Closing → Except ServiceError LedgerEntry → Prop} (hends : Lenient ends) (hbook : Recordable rec request)
    (hok : ∀ rec' e, Stays rec rec' → ends rec' (.ok e)) :
    Closes config call ends rec (LedgerService.createEntry config' request) := by
  refine closes_throwIf (fun h => absurd h hbook.user) fun _ => closes_throwIf (fun h => absurd h hbook.model) fun _ => ?_
  obtain ⟨hcorrelation, id, hid, hblank⟩ := hbook.ids
  cases hpii : request.metadata.bind LedgerService.piiIn with
  | some message => exact hends rec _ (hbook.metadata (by simp [hpii]))
  | none =>
    apply closes_uuidv4
    intro entryId rec₁ h₁ _
    by_cases hb : LedgerService.blank id = true
    · exact closes_upset hends (h₁.upset (hblank hb)) _
    have hne : id ≠ "" := by
      rintro rfl
      exact hb rfl
    rw [hid, LedgerService.givenOrFresh, if_neg hne]
    apply closes_now
    intro timestamp rec₂ h₂
    rw [hcorrelation]
    refine closes_throwIf (fun h => absurd h hb) fun _ => (Prog.obeys_orThrow_bind _ _ _ _).mpr ⟨fun h => ?_, ?_⟩
    · exact absurd h hbook.reason
    · exact fun reason _ => closes_insertEntry hends fun rec' e h => hok rec' e ((h₁.trans h₂).trans h)

/-- Reopening the item leaves nothing to undo where no update was worth anything. -/
private theorem closes_reopen (i : EscrowItem) (halfway : Bool) {escrowId : String} {e : ServiceError}
    (hstage : rec.stage = .beaten i halfway) (hidle : halfway = true → ¬ call.operation.Idle i → rec.upset) :
    Closes (α := α) config call (Ends call.operation) rec
      (issue (.updateEscrowItem escrowId WalletService.reopening) >>= fun _ => Prog.throw e) := by
  apply closes_issue (fun _ h => by cases h)
  intro _ rec' _ h
  rintro e' -
  have hstage' : rec'.stage = .reopened i halfway := by
    rw [h.stage, hstage]
    rfl
  by_cases hupset : rec.upset
  · exact .inl (h.upset hupset)
  · refine .inr (.inr (.inr ⟨i, halfway, hstage', fun hhalfway => ?_⟩))
    by_contra hnot
    exact hupset (hidle hhalfway hnot)

end closes

section operations
variable {config : Config} {rec : Closing}

private theorem closes_settleEscrow {request : EscrowSettleRequest}
    {authorization : Option QueueSettlementAuthorization} :
    Closes config (.settle request authorization) (Ends (.settle request)) {}
      (WalletService.settleEscrow config.wallet request authorization) := by
  have hends : ∀ {α : Type}, Lenient (α := α) (Ends (.settle request)) := lenient_ends _
  apply closes_throwIf (fun _ _ _ => .inr (.inl rfl))
  intro _
  refine closes_bind (closes_claim (fun rec₁ e h₁ _ _ => .inr (.inl h₁)) fun rec₁ h₁ => ?_)
  refine closes_bind (closes_lockEscrow (fun rec₂ e h₂ _ _ => .inr (.inr (.inl (h₂.trans h₁)))) fun rec₂ i h₂ _ => ?_)
  refine closes_bind (closes_getOrCreateModelWallet (lenient_andThen hends _) fun rec₃ m h₃ => ?_)
  have hlocked : rec₃.stage = .locked i := h₃.stage.trans h₂
  apply closes_issue (fun _ h => by cases h)
  intro updated rec₄ _ h₄
  cases updated with
  | none =>
    refine closes_upset hends (h₄.upsets ⟨rfl, fun j hj => ?_⟩) _
    rw [hlocked] at hj
    cases hj
  | some m' =>
    refine closes_throwIf (fun h => nomatch h) fun _ => closes_findWallet hends fun rec₅ w h₅ => ?_
    have hcredited : rec₅.stage = .credited i := by
      rw [h₅.stage, h₄.stage, hlocked]
      rfl
    apply closes_issue (fun _ h => by cases h)
    intro updated rec₆ _ h₆
    cases updated with
    | none =>
      refine closes_reopen i true ?_ fun _ hidle => h₆.upsets ⟨rfl, i, hcredited, hidle⟩
      rw [h₆.stage, hcredited]
      rfl
    | some w' =>
      refine closes_issue (fun _ h => by cases h) fun _ rec₇ _ h₇ => closes_uuidv4 fun id rec₈ h₈ hblank => ?_
      refine closes_bind (closes_createEntry (lenient_andThen hends _) ⟨?_, ?_, fun hpii => ?_, ?_, rfl, id, rfl, hblank⟩
        fun rec₉ e h₉ => ?_)
      · simp [WalletService.settleEntry]
      · simp [WalletService.settleEntry]
      · exact h₈.upset (h₇.upsets ⟨by simp, hpii⟩)
      · simp [WalletService.settleEntry]
      · exact closes_now fun _ _ _ => closes_bind (closes_publish fun _ _ h => by cases h)

private theorem closes_refundEscrow {request : EscrowRefundRequest}
    {authorization : Option QueueRefundAuthorization} :
    Closes config (.refund request authorization) (Ends (.refund request)) {}
      (WalletService.refundEscrow config.wallet request authorization) := by
  have hends : ∀ {α : Type}, Lenient (α := α) (Ends (.refund request)) := lenient_ends _
  apply closes_throwIf (fun _ _ _ => .inr (.inl rfl))
  intro _
  refine closes_bind (closes_claim (fun rec₁ e h₁ _ _ => .inr (.inl h₁)) fun rec₁ h₁ => ?_)
  refine closes_bind (closes_lockEscrow (fun rec₂ e h₂ _ _ => .inr (.inr (.inl (h₂.trans h₁)))) fun rec₂ i h₂ _ => ?_)
  apply closes_findWallet hends
  intro rec₃ w h₃
  apply closes_issue (fun _ h => by cases h)
  intro updated rec₄ _ h₄
  cases updated with
  | none =>
    refine closes_reopen i false ?_ fun h => by cases h
    rw [h₄.stage, h₃.stage, h₂]
    rfl
  | some w' =>
    refine closes_issue (fun _ h => by cases h) fun _ rec₅ _ h₅ => closes_uuidv4 fun id rec₆ h₆ hblank => ?_
    refine closes_bind (closes_createEntry (lenient_andThen hends _) ⟨?_, ?_, fun hpii => ?_, ?_, rfl, id, rfl, hblank⟩
      fun rec₇ e h₇ => ?_)
    · simp [WalletService.refundEntry]
    · simp [WalletService.refundEntry]
    · exact h₆.upset (h₅.upsets ⟨by simp, hpii⟩)
    · simp [WalletService.refundEntry]
    · exact closes_now fun _ _ _ => closes_bind (closes_publish fun _ _ h => by cases h)

private theorem closes_createEntryIf {call : Call} {amount : ℚ} {entry : LedgerService.CreateLedgerEntryRequest}
    {ends : Closing → Except ServiceError Unit → Prop} (hends : Lenient ends) (hbook : 0 < amount → Recordable rec entry)
    (hok : ∀ rec', Stays rec rec' → ends rec' (.ok ())) :
    Closes config call ends rec (WalletService.createEntryIf config.wallet amount entry) := by
  unfold WalletService.createEntryIf
  split
  · rename_i hpos
    exact closes_bind (closes_createEntry (lenient_andThen hends _) (hbook hpos) fun rec' _ h => hok rec' h)
  · exact hok rec (.refl rec)

private theorem closes_recordPartialSettle {request : EscrowPartialSettleRequest}
    {authorization : Option QueuePartialSettlementAuthorization} {userWallet updatedUserWallet : Wallet}
    {modelWallet : ModelWallet}
    (hpii : (Operation.partialSettle request).noted.bind LedgerService.piiIn ≠ none → rec.upset) :
    Closes config (.partialSettle request authorization) (Ends (.partialSettle request)) rec
      (WalletService.recordPartialSettle config.wallet request userWallet updatedUserWallet modelWallet) := by
  have hends : ∀ {α : Type}, Lenient (α := α) (Ends (.partialSettle request)) := lenient_ends _
  have hnoted : 0 < request.refundAmount ∨ 0 < request.settleAmount →
      request.metadata.bind LedgerService.piiIn ≠ none → rec.upset := by
    intro hpos
    rwa [Operation.noted, if_pos hpos] at hpii
  apply closes_uuidv4
  intro id rec₁ h₁ hblank
  refine closes_bind (closes_createEntryIf (lenient_andThen hends _)
    (fun hpos => ⟨?_, ?_, h₁.upset ∘ hnoted (.inl hpos), ?_, rfl, id, rfl, hblank⟩) fun rec₂ h₂ => ?_)
  · simp [WalletService.partialRefundEntry]
  · simp [WalletService.partialRefundEntry]
  · simp [WalletService.partialRefundEntry]
  have hlater := h₁.trans h₂
  refine closes_bind (closes_createEntryIf (lenient_andThen hends _)
    (fun hpos => ⟨?_, ?_, hlater.upset ∘ hnoted (.inr hpos), ?_, rfl, id, rfl, h₂.upset ∘ hblank⟩) fun rec₃ h₃ => ?_)
  · simp [WalletService.partialSettleEntry]
  · simp [WalletService.partialSettleEntry]
  · simp [WalletService.partialSettleEntry]
  · exact closes_now fun _ _ _ => closes_bind (closes_publish fun _ _ h => by cases h)

private theorem closes_partialSettleEscrow {request : EscrowPartialSettleRequest}
    {authorization : Option QueuePartialSettlementAuthorization} :
    Closes config (.partialSettle request authorization) (Ends (.partialSettle request)) {}
      (WalletService.partialSettleEscrow config.wallet request authorization) := by
  have hends : ∀ {α : Type}, Lenient (α := α) (Ends (.partialSettle request)) := lenient_ends _
  apply closes_throwIf (fun _ _ _ => .inr (.inl rfl))
  intro _
  refine closes_bind (closes_claim (fun rec₁ e h₁ _ _ => .inr (.inl h₁)) fun rec₁ h₁ => ?_)
  refine closes_bind (closes_lockEscrow (fun rec₂ e h₂ _ _ => .inr (.inr (.inl (h₂.trans h₁)))) fun rec₂ i h₂ hsum => ?_)
  apply closes_throwIf (fun h _ _ => .inl (hsum (not_le.mpr h)))
  intro _
  apply closes_findWallet hends
  intro rec₃ w h₃
  refine closes_bind (closes_getOrCreateModelWallet (lenient_andThen hends _) fun rec₄ m h₄ => ?_)
  have hlocked : rec₄.stage = .locked i := h₄.stage.trans (h₃.stage.trans h₂)
  apply closes_issue (fun _ h => by cases h)
  intro updated rec₅ _ h₅
  cases updated with
  | none =>
    refine closes_reopen i false ?_ fun h => by cases h
    rw [h₅.stage, hlocked]
    rfl
  | some w' =>
    have hdebited : rec₅.stage = .debited i := by
      rw [h₅.stage, hlocked]
      rfl
    apply closes_issue (fun _ h => by cases h)
    intro updated rec₆ _ h₆
    cases updated with
    | none =>
      refine closes_reopen i true ?_ fun _ hidle => h₆.upsets ⟨rfl, fun j hj => ?_⟩
      · rw [h₆.stage, hdebited]
        rfl
      · rw [hdebited] at hj
        obtain rfl := Stage.debited.inj hj
        exact hidle
    | some m' =>
      apply closes_issue (fun _ h => by cases h)
      intro _ rec₇ _ h₇
      exact closes_recordPartialSettle fun hpii => h₇.upsets ⟨by simp, hpii⟩

private theorem closes_returning {α : Type} {call : Call} {response : α → Response} {p : Service α}
    (h : Closes config call (Ends call.operation) rec p) :
    Prog.Obeys (closings.rules (system config) call) (closings.settles call) rec (returning response p) := by
  refine closes_bind (h.imp ?_)
  rintro rec' (e | a) hends
  · rintro - e' heq
    obtain rfl := Except.error.inj heq
    exact hends e rfl
  · exact fun _ _ h => by cases h

theorem closings_kept (config : Config) : closings.Kept (system config) where
  starts := fun _ _ => ⟨rfl, rfl⟩
  body := by
    intro call call' rec hresumes
    by_cases htarget : call.operation.target.isSome
    · obtain ⟨rfl, rfl⟩ := hresumes htarget
      cases call' with
      | settle request authorization => exact closes_returning closes_settleEscrow
      | refund request authorization => exact closes_returning closes_refundEscrow
      | partialSettle request authorization => exact closes_returning closes_partialSettleEscrow
      | _ => cases htarget
    · refine Prog.obeys_stable (P := fun _ => True) _ trivial (fun _ _ _ _ => trivial)
        (fun _ _ _ h => absurd h htarget) ?_
      rintro rec' (e | response | call'') -
      · exact fun h => absurd h htarget
      · exact fun h => absurd h htarget
      · exact fun h => absurd h htarget

end operations

section runs
variable {config : Config} {A : Schedule} {d : Db} {s : Run}

/-- The stage of a closing call is the one the protocol knows. -/
theorem closings_stage (call : Call) (hist : List (Event Mongo Call)) :
    (closings.record call hist).stage = (protocol.record call hist).stage := by
  induction hist with
  | nil => rfl
  | cons ev hist ih =>
    show ((closings.record call hist).stage.after call.operation ev.cmd ev.reply) =
      ((protocol.record call hist).after call.operation ev.cmd ev.reply).stage
    rw [ih, Track.after_stage]

/-- A key that was reported as taken is in the ledger. -/
theorem taken_in_ledger (h : (system config).Reaches A (.start d) s) :
    ∀ t call rec, closings.track s t = some (call, rec) →
      ∀ key ∈ rec.taken, ∃ e ∈ s.db.ledger.docs, e.idempotencyKey = key := by
  refine Contract.tracks_invariant (K := closings) (P := fun (db : Db) _ _ (rec : Closing) => ∀ key ∈ rec.taken,
    ∃ e ∈ db.ledger.docs, e.idempotencyKey = key) h (fun _ _ _ _ key hkey => by cases hkey) ?_
  intro s t o call c k _ _ ht ih
  have hgrows : ∀ e ∈ s.db.ledger.docs, e ∈ (exec o s.db c).2.ledger.docs := fun e he => by
    rw [exec_ledger]
    exact List.mem_append_left _ he
  have hkept : ∀ t' call' rec, closings.track s t' = some (call', rec) → ∀ key ∈ rec.taken,
      ∃ e ∈ (exec o s.db c).2.ledger.docs, e.idempotencyKey = key := by
    intro t' call' rec hrec key hkey
    obtain ⟨e, he, heq⟩ := ih t' call' rec hrec key hkey
    exact ⟨e, hgrows e he, heq⟩
  refine ⟨fun key hkey => ?_, fun t' call' rec _ => hkept t' call' rec⟩
  have hown := hkept t call _ (Contract.track_of_thread ht)
  by_cases hdup : c.duplicates (exec o s.db c).1 = true
  · obtain ⟨e, rfl, e', he', heq⟩ := exec_duplicates hdup
    have hcons : key ∈ e.idempotencyKey :: (closings.record call (s.history t)).taken := by
      simpa [closings, Closing.after, hdup, Cmd.ledgerKey] using hkey
    rcases List.mem_cons.mp hcons with rfl | hold
    · exact ⟨e', hgrows e' he', heq⟩
    · exact hown key hold
  · apply hown key
    simpa [closings, Closing.after, hdup] using hkey

end runs
end RedRoomRewards
