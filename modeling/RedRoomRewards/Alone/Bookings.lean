import RedRoomRewards.Alone.Points

/-! What `createEntry` does with an entry that one of the services builds: it writes it,
finds its key taken, or rejects it. -/
namespace RedRoomRewards
open Process Store LedgerService

section rules
variable {α β : Type} {fair : Db → Oracle → Prop} {post : Except ServiceError α → Db → Prop} {db : Db}

theorem leads_then {post : Except ServiceError β → Db → Prop} {p : Service α} {f : α → Service β}
    (h : Prog.Leads exec fair (Prog.leadsOn exec fair post f) p db) : Prog.Leads exec fair post (p >>= f) db :=
  (Prog.leads_bind p f).mpr h

theorem leads_issue {c : Cmd} {k : c.Reply → Service α}
    (hk : ∀ o, fair db o → Prog.Leads exec fair post (k (exec o db c).1) (exec o db c).2) :
    Prog.Leads exec fair post (issue c >>= k) db := hk

theorem leads_uuidv4 {k : String → Service α} (hk : ∀ o, fair db o → Prog.Leads exec fair post (k o.uuid) db) :
    Prog.Leads exec fair post (issue .uuidv4 >>= k) db := hk

theorem leads_now {k : Time → Service α} (hk : ∀ t, Prog.Leads exec fair post (k t) db) :
    Prog.Leads exec fair post (issue .now >>= k) db := fun o _ => hk o.now

theorem leads_throwIf {p : Prop} [Decidable p] {e : ServiceError} {f : Unit → Service α}
    (hthrow : p → post (.error e) db) (hk : ¬ p → Prog.Leads exec fair post (f ()) db) :
    Prog.Leads exec fair post (Prog.throwIf p e >>= f) db := (Prog.leads_throwIf_bind p e f).mpr ⟨hthrow, hk⟩

/-- What holds whatever the oracle supplies holds with a fair one. -/
theorem leads_of_alone {p : Service α} (h : Alone (fun _ => True) post p db) :
    Prog.Leads exec fair post p db :=
  h.leads (P := fun _ => True) (fun _ _ _ _ => trivial) (fun _ _ _ _ => trivial) trivial

end rules

section sound
variable (config : LedgerService.Config) (request : CreateLedgerEntryRequest)

/-- `createEntry` has nothing against the metadata and the texts of the request. -/
structure LedgerService.CreateLedgerEntryRequest.Sound : Prop where
  metadata : request.metadata.bind piiIn = none
  valid : ∀ entryId id reason timestamp, ValidId entryId → ValidId id →
    (request.entryDoc config entryId id id reason timestamp).invalid = []

/-- What the entries of the services have in common: one transaction `id`, a reason, and a
bucket that a user has. -/
structure LedgerService.CreateLedgerEntryRequest.Built (id : String) : Prop where
  state : request.accountType = .user ∧ request.balanceState ≠ .earned
  transaction : request.transactionId = some id
  correlation : ∀ c ∈ request.correlationId, c = id
  reason : request.reason.isSome = true

/-- The key of the request is not in the ledger. -/
def LedgerService.CreateLedgerEntryRequest.New (db : Db) : Prop :=
  ∀ e ∈ db.ledger.docs, e.idempotencyKey ≠ trim request.idempotencyKey

variable {config} {request}

/-- A text that is required may also be left out. -/
theorem optionalText_of_valid {id : String} (h : ValidId id) : optionalText 128 (some id) = true := by
  have hboth := h.1
  simp only [requiredText, Bool.and_eq_true] at hboth
  simpa [optionalText] using hboth.2

/-- The validators see neither the identifiers nor the time nor the balances. -/
theorem entryDoc_invalid_iff {request' : CreateLedgerEntryRequest} {entryId id entryId' id' : String}
    {reason reason' : TransactionReason} {timestamp timestamp' : Time}
    (haccount : request.accountId = request'.accountId)
    (htransition : request.stateTransition = request'.stateTransition)
    (hkey : request.idempotencyKey = request'.idempotencyKey) (hrequest : request.requestId = request'.requestId)
    (hcurrency : request.currency = request'.currency) (hqueue : request.queueItemId = request'.queueItemId)
    (hfeature : request.featureType = request'.featureType)
    (hescrow : optionalText 128 request.escrowId = optionalText 128 request'.escrowId)
    (hentry : ValidId entryId) (hid : ValidId id) (hentry' : ValidId entryId') (hid' : ValidId id') :
    (request.entryDoc config entryId id id reason timestamp).invalid = [] ↔
      (request'.entryDoc config entryId' id' id' reason' timestamp').invalid = [] := by
  have hreason : ∀ reason : TransactionReason, requiredText 128 reason.code = true := by
    intro reason
    cases reason <;> decide +kernel
  simp only [LedgerEntry.invalid, invalidPaths_eq_nil, CreateLedgerEntryRequest.entryDoc, List.forall_mem_cons,
    hreason, hentry.1, hentry'.1, hid.1, hid'.1, optionalText_of_valid hid, optionalText_of_valid hid',
    haccount, htransition, hkey, hrequest, hcurrency, hqueue, hfeature, hescrow]

/-- Soundness is seen on any identifiers. -/
theorem sound_of_one {entryId id : String} {reason : TransactionReason} {timestamp : Time}
    (hmetadata : request.metadata.bind piiIn = none) (hentry : ValidId entryId) (hid : ValidId id)
    (hvalid : (request.entryDoc config entryId id id reason timestamp).invalid = []) : request.Sound config :=
  ⟨hmetadata, fun _ _ _ _ hentry' hid' =>
    (entryDoc_invalid_iff rfl rfl rfl rfl rfl rfl rfl rfl hentry hid hentry' hid').mp hvalid⟩

/-- Requests that agree in metadata and texts are sound alike. -/
theorem LedgerService.CreateLedgerEntryRequest.Sound.congr {request' : CreateLedgerEntryRequest}
    (h : request.Sound config) (hmetadata : request.metadata = request'.metadata)
    (haccount : request.accountId = request'.accountId)
    (htransition : request.stateTransition = request'.stateTransition)
    (hkey : request.idempotencyKey = request'.idempotencyKey) (hrequest : request.requestId = request'.requestId)
    (hcurrency : request.currency = request'.currency) (hqueue : request.queueItemId = request'.queueItemId)
    (hfeature : request.featureType = request'.featureType)
    (hescrow : optionalText 128 request.escrowId = optionalText 128 request'.escrowId) : request'.Sound config where
  metadata := hmetadata ▸ h.metadata
  valid := fun entryId id reason timestamp hentry hid =>
    (entryDoc_invalid_iff haccount htransition hkey hrequest hcurrency hqueue hfeature hescrow hentry hid hentry
      hid).mp (h.valid entryId id reason timestamp hentry hid)

private theorem leads_insertEntry {fair : Db → Oracle → Prop} {post : Except ServiceError LedgerEntry → Db → Prop}
    {db : Db} {e : LedgerEntry} {fault : Option String} (hnew : db.ledger.find e.entryId = none)
    (hfault : ∀ o, fair db o → o.ledgerFault = fault)
    (hwritten : fault = none → e.invalid = [] → (∀ e' ∈ db.ledger.docs, e'.idempotencyKey ≠ e.idempotencyKey) →
      post (.ok e) { db with ledger := db.ledger.insert e })
    (htaken : fault = none → e.invalid = [] → ∀ e' ∈ db.ledger.docs, e'.idempotencyKey = e.idempotencyKey →
      post (.ok e') db)
    (hrejected : ¬ (fault = none ∧ e.invalid = []) → ∀ error, post (.error (.ledger error)) db) :
    Prog.Leads exec fair post (insertEntry e) db := by
  apply leads_issue
  intro o ho
  simp only [exec, hfault o ho]
  cases fault with
  | some message =>
    -- an outage is no duplicate key
    exact hrejected (fun h => by cases h.1) _
  | none =>
    simp only [Db.createLedgerEntry, hnew, Option.isSome_none, Bool.false_eq_true, if_false]
    by_cases hvalid : e.invalid = []
    · by_cases hfresh : ∀ e' ∈ db.ledger.docs, e'.idempotencyKey ≠ e.idempotencyKey
      · rw [create_of_free hvalid ⟨Collection.find_eq_none.mp hnew, hfresh⟩]
        exact hwritten rfl hvalid hfresh
      · have hnot : ¬ db.ledger.Free e := fun h => hfresh h.2
        rw [create, if_neg (not_not.mpr hvalid), if_neg hnot]
        apply leads_issue
        intro o' _
        simp only [exec]
        cases hfind : db.ledger.docs.find? fun e' => e'.idempotencyKey = e.idempotencyKey with
        | none =>
          refine absurd (fun e' he' => ?_) hfresh
          simpa using List.find?_eq_none.mp hfind e' he'
        | some e' =>
          exact htaken rfl hvalid e' (List.mem_of_find?_eq_some hfind) (by simpa using List.find?_some hfind)
    · rw [create, if_pos hvalid]
      exact hrejected (fun h => hvalid h.2) _

/-- What `createEntry` does with a request that a service has built, where the ledger is
reached or fails as `fault` says. -/
theorem leads_createEntry {fair : Db → Oracle → Prop} {post : Except ServiceError LedgerEntry → Db → Prop} {db : Db}
    {id : String} {fault : Option String} (hbuilt : request.Built id) (hid : ValidId id)
    (hfair : ∀ o, fair db o → o.ledgerFault = fault ∧ ValidId o.uuid ∧ db.ledger.find o.uuid = none)
    (hwritten : fault = none → request.Sound config → request.New db → ∀ e, request.Describes config e →
      db.ledger.Free e → post (.ok e) { db with ledger := db.ledger.insert e })
    (htaken : fault = none → request.Sound config → ∀ e ∈ db.ledger.docs,
      e.idempotencyKey = trim request.idempotencyKey → post (.ok e) db)
    (hrejected : ¬ (fault = none ∧ request.Sound config) → ∀ error, post (.error (.ledger error)) db) :
    Prog.Leads exec fair post (createEntry config request) db := by
  refine leads_throwIf (fun h => absurd h.2 hbuilt.state.2) fun _ => leads_throwIf (fun h => ?_) fun _ => ?_
  · cases hbuilt.state.1.symm.trans h.1
  cases hpii : request.metadata.bind piiIn with
  | some message =>
    refine hrejected (fun h => ?_) _
    rw [h.2.metadata] at hpii
    cases hpii
  | none =>
    apply leads_uuidv4
    intro o ho
    obtain ⟨-, hentry, hnew⟩ := hfair o ho
    have hnonempty : id ≠ "" := fun h => by simp [ValidId, requiredText, h] at hid
    have hgiven : givenOrFresh request.transactionId = Prog.ret id := by
      rw [hbuilt.transaction, givenOrFresh, if_neg hnonempty]
      rfl
    have hblank : ¬ blank id = true := by simp [hid.2]
    obtain ⟨reason, hreason⟩ := Option.isSome_iff_exists.mp hbuilt.reason
    have hinsert : ∀ timestamp, Prog.Leads exec fair post
        (insertEntry (request.entryDoc config o.uuid id id reason timestamp)) db := by
      intro timestamp
      refine leads_insertEntry hnew (fun o' ho' => (hfair o' ho').1) (fun hup hvalid hfresh => ?_)
        (fun hup hvalid e he hkey => ?_) fun h error => ?_
      · exact hwritten hup (sound_of_one hpii hentry hid hvalid) hfresh _ ⟨_, _, _, _, _, rfl⟩
          ⟨Collection.find_eq_none.mp hnew, hfresh⟩
      · exact htaken hup (sound_of_one hpii hentry hid hvalid) e he hkey
      · exact hrejected (fun hok => h ⟨hok.1, hok.2.valid _ _ _ _ hentry hid⟩) error
    have hcorrelation := hbuilt.correlation
    rw [hgiven, hreason]
    apply leads_now
    intro timestamp
    generalize request.correlationId = correlationId at hcorrelation
    cases correlationId with
    | none => exact leads_throwIf (fun h => absurd h hblank) fun _ => hinsert timestamp
    | some c =>
      rw [hcorrelation c rfl]
      simp only [ite_self]
      exact leads_throwIf (fun h => absurd h hblank) fun _ => hinsert timestamp

end sound
end RedRoomRewards
