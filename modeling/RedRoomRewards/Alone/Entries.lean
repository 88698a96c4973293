import RedRoomRewards.Alone.Commands

/-! Ledger entries and events written by a call that runs alone. -/
namespace RedRoomRewards
open Process Store LedgerService

section createEntry
variable {fair : Oracle → Prop} {db : Db} {config : LedgerService.Config}
variable {request : CreateLedgerEntryRequest}

private theorem alone_insertEntry {e : LedgerEntry} {post : Except ServiceError LedgerEntry → Db → Prop}
    (hok : db.ledger.Free e → post (.ok e) { db with ledger := db.ledger.insert e })
    (htaken : ∀ e' ∈ db.ledger.docs, e'.idempotencyKey = e.idempotencyKey → post (.ok e') db)
    (herror : ∀ error, post (.error (.ledger error)) db) : Alone fair post (insertEntry e) db := by
  have hthrown : ∀ error, Alone fair post
      (if error = .duplicateKey ["idempotencyKey"] then do
        let existing : Option LedgerEntry ← issue (.findLedgerEntry e.idempotencyKey)
        Prog.orThrow (.ledger (.mongo error)) existing
      else Prog.throw (.ledger (.mongo error))) db := by
    intro error
    split
    · apply alone_issue
      intro o _
      simp only [exec]
      cases hfind : db.ledger.docs.find? fun e' => e'.idempotencyKey = e.idempotencyKey with
      | none => exact herror _
      | some e' =>
        exact htaken e' (List.mem_of_find?_eq_some hfind) (by simpa using List.find?_some hfind)
    · exact herror _
  apply alone_issue
  intro o _
  simp only [exec]
  cases o.ledgerFault with
  | some message => exact hthrown _
  | none =>
    simp only [Db.createLedgerEntry]
    rcases create_cases db.ledger e e.invalid
      (if (db.ledger.find e.entryId).isSome then ["entryId"] else ["idempotencyKey"])
      with ⟨error, he⟩ | ⟨-, hfree, he⟩
    · rw [he]
      exact hthrown error
    · rw [he]
      exact hok hfree

private theorem alone_givenOrFresh {α : Type} {post : Except ServiceError α → Db → Prop} {id : Option String}
    {k : String → Service α} (hk : ∀ id, Alone fair post (k id) db) :
    Alone fair post (givenOrFresh id >>= k) db := by
  unfold givenOrFresh
  split
  · split
    · exact fun o _ => hk o.uuid
    · exact hk _
  · exact fun o _ => hk o.uuid

/-- An entry is written if it can be, with the time of one of the steps; if its key is
taken, the entry that has the key is returned in its place. -/
theorem alone_createEntry_stamped {post : Except ServiceError LedgerEntry → Db → Prop}
    (hok : ∀ e, request.Describes config e → (∃ o, fair o ∧ e.timestamp = o.now) → db.ledger.Free e →
      post (.ok e) { db with ledger := db.ledger.insert e })
    (htaken : ∀ e ∈ db.ledger.docs, e.idempotencyKey = trim request.idempotencyKey → post (.ok e) db)
    (herror : ∀ error, post (.error (.ledger error)) db) :
    Alone fair post (createEntry config request) db := by
  refine alone_throwIf (fun _ => herror _) fun _ => alone_throwIf (fun _ => herror _) fun _ => ?_
  cases request.metadata.bind piiIn with
  | some message => exact herror _
  | none =>
    refine alone_uuidv4 fun entryId => alone_givenOrFresh fun transactionId => alone_issue fun o ho =>
      alone_throwIf (fun _ => herror _) fun _ => alone_orThrow (fun _ => herror _) fun reason _ => ?_
    exact alone_insertEntry (hok _ ⟨_, _, _, _, _, rfl⟩ ⟨o, ho, rfl⟩) htaken herror

/-- An entry is written if it can be; if its key is taken, the entry that has the key is
returned in its place. -/
theorem alone_createEntry {post : Except ServiceError LedgerEntry → Db → Prop}
    (hok : ∀ e, request.Describes config e → db.ledger.Free e →
      post (.ok e) { db with ledger := db.ledger.insert e })
    (htaken : ∀ e ∈ db.ledger.docs, e.idempotencyKey = trim request.idempotencyKey → post (.ok e) db)
    (herror : ∀ error, post (.error (.ledger error)) db) :
    Alone fair post (createEntry config request) db :=
  alone_createEntry_stamped (fun e hdescribes _ => hok e hdescribes) htaken herror

/-- A text that can stand as an identifier in a document. -/
def ValidId (id : String) : Prop := requiredText 128 id = true ∧ blank id = false

instance (id : String) : Decidable (ValidId id) := inferInstanceAs (Decidable (_ ∧ _))

/-- What a step needs to write an entry: no outage of the ledger, and a new identifier. -/
def Supplies (db : Db) (o : Oracle) : Prop :=
  o.ledgerFault = none ∧ ValidId o.uuid ∧ db.ledger.find o.uuid = none

instance (db : Db) (o : Oracle) : Decidable (Supplies db o) := inferInstanceAs (Decidable (_ ∧ _ ∧ _))

/-- The ledger can take an entry of the request under transaction `id`. -/
structure LedgerService.CreateLedgerEntryRequest.Storable (config : LedgerService.Config)
    (request : CreateLedgerEntryRequest) (id : String) (db : Db) : Prop where
  state : request.accountType = .user ∧ request.balanceState ≠ .earned
  metadata : request.metadata.bind piiIn = none
  transaction : request.transactionId = some id
  correlation : ∀ c ∈ request.correlationId, c = id
  fresh : ∀ e ∈ db.ledger.docs, e.idempotencyKey ≠ trim request.idempotencyKey
  reason : request.reason.isSome = true
  valid : ∀ entryId reason timestamp, ValidId entryId →
    (request.entryDoc config entryId id id reason timestamp).invalid = []

/-- An entry whose correlation is its transaction passes the schema if its texts fit. -/
theorem entry_valid {e : LedgerEntry} (hentry : requiredText 128 e.entryId = true)
    (htransaction : requiredText 128 e.transactionId = true) (haccount : requiredText 128 e.accountId = true)
    (hstate : requiredText 128 e.stateTransition = true) (hkey : requiredText 256 e.idempotencyKey = true)
    (hrequest : requiredText 128 e.requestId = true) (hcurrency : requiredText 16 e.currency = true)
    (hcorrelation : e.correlationId = some e.transactionId)
    (hnone : e.escrowId = none ∧ e.queueItemId = none ∧ e.featureType = none ∧ e.tenantId = none) :
    e.invalid = [] := by
  have hreason : requiredText 128 e.reason.code = true := by cases e.reason <;> decide +kernel
  have hlength : jsLength e.transactionId ≤ 128 := by
    rw [requiredText, Bool.and_eq_true] at htransaction
    exact of_decide_eq_true htransaction.2
  obtain ⟨hescrow, hqueue, hfeature, htenant⟩ := hnone
  rw [LedgerEntry.invalid, invalidPaths_eq_nil]
  simp [hentry, htransaction, haccount, hstate, hreason, hkey, hrequest, hcurrency, hescrow, hqueue, hfeature,
    hcorrelation, htenant, optionalText, hlength]

/-- An entry that the ledger can take is written. -/
theorem alone_createEntry_storable {post : Except ServiceError LedgerEntry → Db → Prop} {id : String}
    (hrequest : request.Storable config id db) (hid : ValidId id) (hfair : ∀ o, fair o → Supplies db o)
    (hok : ∀ e, request.Describes config e → db.ledger.Free e →
      post (.ok e) { db with ledger := db.ledger.insert e }) :
    Alone fair post (createEntry config request) db := by
  refine alone_throwIf (fun h => absurd h.2 hrequest.state.2) fun _ => alone_throwIf (fun h => ?_) fun _ => ?_
  · cases hrequest.state.1.symm.trans h.1
  rw [hrequest.metadata]
  apply alone_issue
  intro o ho
  obtain ⟨-, huuid, hnew⟩ := hfair o ho
  have hnonempty : id ≠ "" := fun h => by simp [ValidId, requiredText, h] at hid
  have hgiven : givenOrFresh request.transactionId = Prog.ret id := by
    rw [hrequest.transaction, givenOrFresh, if_neg hnonempty]
    rfl
  have hinsert : ∀ timestamp reason, Alone fair post
      (insertEntry (request.entryDoc config o.uuid id id reason timestamp)) db := by
    intro timestamp reason
    apply alone_issue
    intro o' ho'
    have hfree : db.ledger.Free (request.entryDoc config o.uuid id id reason timestamp) :=
      ⟨Collection.find_eq_none.mp hnew, hrequest.fresh⟩
    simp only [exec, (hfair o' ho').1, Db.createLedgerEntry]
    rw [create_of_free (hrequest.valid _ _ _ huuid) hfree]
    exact hok _ ⟨_, _, _, _, _, rfl⟩ hfree
  obtain ⟨reason, hreason⟩ := Option.isSome_iff_exists.mp hrequest.reason
  rw [hgiven, hreason]
  apply alone_now
  intro timestamp
  have hcorrelation := hrequest.correlation
  generalize request.correlationId = correlationId at hcorrelation
  have hblank : ¬ blank id = true := by simp [hid.2]
  cases correlationId with
  | none => exact alone_throwIf (fun h => absurd h hblank) fun _ => hinsert timestamp reason
  | some c =>
    rw [hcorrelation c rfl]
    simp only [ite_self]
    exact alone_throwIf (fun h => absurd h hblank) fun _ => hinsert timestamp reason

theorem alone_publish {event : WalletEvent} {post : Except ServiceError Unit → Db → Prop}
    (hk : ∀ published, post (.ok ()) { db with published }) :
    Alone fair post (WalletService.publish event) db := by
  refine alone_uuidv4 fun eventId => alone_now fun timestamp => alone_issue fun o _ => ?_
  simp only [exec]
  cases o.busFault with
  | some message => exact hk db.published
  | none => exact hk _

end createEntry
end RedRoomRewards
