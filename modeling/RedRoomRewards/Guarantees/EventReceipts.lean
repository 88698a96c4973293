import RedRoomRewards.Guarantees.OneEventPerKey
import RedRoomRewards.Ingestion.Receipts
import RedRoomRewards.Text.Joined

/-! What a receipt tells: it is of an event that a valid request has posted, it does not
change, and a request that is told its event is queued has one. -/
namespace RedRoomRewards.Ingestion
open Process Store Ingest Text

section guard
variable {verify : Verify} {config : AuthGuardConfig}

/-- The header is the word `Bearer`, a space and one more word. -/
theorem splitSpaces_bearer {header token : String} :
    splitSpaces header = ["Bearer", token] ↔ header = "Bearer " ++ token ∧ ' ' ∉ token.toList := by
  constructor
  · intro h
    rcases splitOn_cases ' ' header.toList with ⟨-, hone⟩ | ⟨first, rest, -, hheader, hsplit⟩
    · simp [splitSpaces, hone] at h
    · rcases splitOn_cases ' ' rest with ⟨hrest, htwo⟩ | ⟨second, more, -, -, hthree⟩
      · rw [splitSpaces, hsplit, htwo] at h
        obtain ⟨hfirst, rfl⟩ : String.ofList first = "Bearer" ∧ String.ofList rest = token := by simpa using h
        refine ⟨String.toList_injective ?_, by simpa using hrest⟩
        rw [String.toList_append, String.toList_ofList (l := rest), hheader, ← String.toList_ofList (l := first), hfirst]
        rfl
      · have hlength := congrArg List.length h
        have hmore : more.splitOn ' ' ≠ [] := List.splitOn_ne_nil _ _
        have hpositive := List.length_pos_of_ne_nil hmore
        simp only [splitSpaces, hsplit, hthree, List.map_cons, List.length_cons, List.length_map, List.length_nil] at hlength
        omega
  · rintro ⟨rfl, htoken⟩
    have hheader : ("Bearer " ++ token).toList = "Bearer".toList ++ ' ' :: token.toList := by simp
    rw [splitSpaces, hheader, List.splitOn_append_cons_self, List.splitOn_eq_singleton (by decide),
      List.splitOn_eq_singleton htoken]
    simp

theorem hasRequiredRole_iff {payload : Json} : hasRequiredRole payload = true ↔
    Metadata.get (fields payload) "role" = .str UserRole.admin.code ∨
      Metadata.get (fields payload) "role" = .str UserRole.system.code := by
  unfold hasRequiredRole
  cases Metadata.get (fields payload) "role" <;> simp

theorem checkToken_authorized {token : String} : (checkToken verify config token).authorized = true ↔
    ∃ payload, verify token config.jwtSecret (config.algorithm.getD .hs256) = .ok payload ∧
      hasRequiredRole payload = true := by
  unfold checkToken
  cases verify token config.jwtSecret (config.algorithm.getD .hs256) with
  | error message => simp
  | ok payload => by_cases hrole : hasRequiredRole payload = true <;> simp [hrole]

/-- A request is authorized exactly if its header is `Bearer` with a token that is verified and
whose payload names the role of an administrator or of the system. -/
theorem checkAdminSupportAuth_authorized {header : Option String} :
    (checkAdminSupportAuth verify config header).authorized = true ↔
      ∃ token payload, header = some ("Bearer " ++ token) ∧ ' ' ∉ token.toList ∧
        verify token config.jwtSecret (config.algorithm.getD .hs256) = .ok payload ∧
        (Metadata.get (fields payload) "role" = .str UserRole.admin.code ∨
          Metadata.get (fields payload) "role" = .str UserRole.system.code) := by
  simp only [← hasRequiredRole_iff]
  constructor
  · intro h
    unfold checkAdminSupportAuth at h
    split at h
    · cases h
    · rename_i header' hheader
      split at h
      · rename_i token hsplit
        obtain ⟨payload, hpayload⟩ := checkToken_authorized.mp h
        obtain ⟨rfl, htoken⟩ := splitSpaces_bearer.mp hsplit
        exact ⟨token, payload, (Option.filter_eq_some_iff.mp hheader).1, htoken, hpayload⟩
      · cases h
  · rintro ⟨token, payload, rfl, htoken, hpayload⟩
    have hheader : (some ("Bearer " ++ token)).filter (· ≠ "") = some ("Bearer " ++ token) := by
      simp [Option.filter]
    unfold checkAdminSupportAuth
    rw [hheader]
    dsimp only
    rw [splitSpaces_bearer.mpr ⟨rfl, htoken⟩]
    exact checkToken_authorized.mpr ⟨payload, hpayload⟩

end guard

section contract

/-- The request is valid and has this event to store. -/
structure PostEventRequest.Posts (request : PostEventRequest) (e : ReceivedEvent) : Prop where
  valid : validationErrors request = []
  document : ∃ id eventId correlationId now, e = (request.document id eventId correlationId now).stored

/-- The event that a request has stored, if it knows of one. -/
abbrev Posted := Option ReceivedEvent

def Posted.next (x : Posted) : (c : Cmd) → c.Reply → Posted
  | .createEvent _, .ok e => some e
  | _, _ => x

def PostEventRequest.mayPost (request : PostEventRequest) (_ : Posted) : Cmd → Prop
  | .createEvent e => request.Posts e.stored
  | _ => True

/-- A request that is told its event is queued has stored the event it is told of. -/
def PostEventRequest.told (request : PostEventRequest) (x : Posted) : Except PostError EventResponse → Prop
  | .ok response => response.status = .queued → ∃ e, x = some e ∧ request.Posts e ∧
      e.eventId = trim response.eventId ∧ e.correlationId = response.correlationId
  | .error _ => True

def tracing : Contract Intake PostEventRequest EventResponse PostError Posted where
  start := fun _ => none
  next := fun _ => Posted.next
  may := PostEventRequest.mayPost
  ends := PostEventRequest.told
  resumes := fun request request' x => request' = request ∧ x = none

end contract

section rules
variable {request : PostEventRequest} {x : Posted}

private abbrev Traces (request : PostEventRequest) (x : Posted) (p : Job EventResponse) : Prop :=
  Prog.Obeys (tracing.rules intake request) request.told x p

private theorem traces_orGenerate (value : Json) (tag : String) {f : Json → Job EventResponse}
    (h : ∀ value', Traces request x (f value')) : Traces request x (orGenerate value tag >>= f) := by
  unfold orGenerate
  by_cases htruthy : value.truthy = true
  · rw [if_pos htruthy]
    exact h value
  · rw [if_neg htruthy]
    exact ⟨trivial, fun uuid _ => h _⟩

/-- What is answered is what has been stored. -/
private theorem createEvent_ok {o : Oracle} {db : Db} {e e' : ReceivedEvent}
    (h : (exec o db (.createEvent e)).1 = .ok e') :
    e' = e.stored ∧ (exec o db (.createEvent e)).2.events.docs = db.events.docs ++ [e.stored] := by
  have hexec : exec o db (.createEvent e) = o.attempt db (db.createEvent e) := rfl
  rw [hexec] at h ⊢
  obtain ⟨-, hnone⟩ | ⟨failure, -, hsome⟩ := attempt_cases o db (db.createEvent e)
  · rw [hnone] at h ⊢
    unfold Db.createEvent at h ⊢
    obtain ⟨error, herror⟩ | ⟨-, hfree, hok⟩ := create_cases db.events e.stored e.stored.invalid ["eventId"]
    · rw [herror] at h
      cases h
    · rw [hok] at h ⊢
      exact ⟨(Except.ok.inj h).symm, Collection.docs_insert hfree⟩
  · rw [hsome] at h
    cases h

private theorem traces_queueEvent (hvalid : validationErrors request = []) (eventId : String) (requestId correlationId : Json) :
    Traces request none (queueEvent request eventId requestId correlationId) := by
  have hqueue : Traces request none (do
      let id ← issue .objectId
      let receivedAt ← issue .now
      let ingestEvent ← issue (.createEvent (request.document id eventId correlationId receivedAt)) >>= answered
      let queuePosition ← issue (.countQueuedBefore ingestEvent.receivedAt) >>= answered
      pure ⟨eventId, .queued, "Event queued for processing", some (queuePosition + 1), requestId, correlationId⟩) := by
    refine ⟨trivial, fun id _ => ⟨trivial, fun now _ => ?_⟩⟩
    have hposts : request.Posts (request.document id eventId correlationId now).stored :=
      ⟨hvalid, id, eventId, correlationId, now, rfl⟩
    refine ⟨hposts, fun r hr => ?_⟩
    cases r with
    | error e => trivial
    | ok e =>
      obtain ⟨o, db, hreply⟩ := hr
      obtain ⟨rfl, -⟩ := createEvent_ok hreply
      refine ⟨trivial, fun r _ => ?_⟩
      cases r with
      | error e => trivial
      | ok n => exact fun _ => ⟨_, rfl, hposts, rfl, rfl⟩
  refine ⟨trivial, fun t _ => ⟨trivial, fun r _ => ?_⟩⟩
  cases r with
  | ok r => exact hqueue
  | error e =>
    cases e with
    | duplicateKey keyPattern => exact hqueue
    | validation paths => trivial
    | unavailable message => trivial

private theorem traces_postEvent : Traces request none (postEvent request) := by
  refine traces_orGenerate _ _ fun correlationId => (Prog.obeys_throwIf_bind _ _ _ _).mpr ⟨fun _ => trivial, fun hvalid => ?_⟩
  refine traces_orGenerate _ _ fun eventId => traces_orGenerate _ _ fun requestId => ?_
  refine ⟨trivial, fun r _ => ?_⟩
  cases r with
  | error e => trivial
  | ok record =>
    cases record with
    | some r => exact fun hqueued => by cases hqueued
    | none => exact traces_queueEvent (not_not.mp hvalid) (text eventId) requestId correlationId

theorem tracing_kept : tracing.Kept intake where
  starts := fun _ => ⟨rfl, rfl⟩
  body := by
    rintro request request' x ⟨rfl, rfl⟩
    refine (Prog.obeys_bind _ _ _).mpr (traces_postEvent.imp ?_)
    rintro x (error | response) hends
    · exact hends
    · exact hends

end rules

section events
variable {db : Db} {s s' : Run}

/-- A command leaves the events, or stores the one it brings behind them. -/
private def Stacked (c : Cmd) (db db' : Db) : Prop :=
  db'.events.docs = db.events.docs ∨ ∃ e, c = .createEvent e ∧ db'.events.docs = db.events.docs ++ [e.stored]

private theorem exec_events (o : Oracle) (db : Db) (c : Cmd) : Stacked c db (exec o db c).2 := by
  cases c with
  | uuid => exact .inl rfl
  | objectId => exact .inl rfl
  | now => exact .inl rfl
  | findRecord key eventScope => exact attempt_keeps (P := Stacked (.findRecord key eventScope) db) (.inl rfl) (.inl rfl)
  | countQueuedBefore receivedAt =>
    exact attempt_keeps (P := Stacked (.countQueuedBefore receivedAt) db) (.inl rfl) (.inl rfl)
  | createRecord r => exact attempt_keeps (P := Stacked (.createRecord r) db) (.inl rfl) (.inl rfl)
  | createEvent e =>
    refine attempt_keeps (P := Stacked (.createEvent e) db) (.inl rfl) ?_
    unfold Db.createEvent
    obtain ⟨error, herror⟩ | ⟨-, hfree, hok⟩ := create_cases db.events e.stored e.stored.invalid ["eventId"]
    · rw [herror]
      exact .inl rfl
    · rw [hok]
      exact .inr ⟨e, rfl, Collection.docs_insert hfree⟩

/-- Events are stored behind those that are there. -/
private theorem events_prefix {A : Schedule} (h : intake.Reaches A s s') : s.db.events.docs <+: s'.db.events.docs := by
  induction h using Machine.Reaches.by_steps with
  | start => exact List.prefix_refl _
  | spawn s t c _ _ _ ih => exact ih
  | act s t o call c k _ _ _ ih =>
    obtain hsame | ⟨e, -, hmore⟩ := exec_events o s.db c
    · rw [Machine.acted_db, intake_exec, hsame]
      exact ih
    · rw [Machine.acted_db, intake_exec, hmore]
      exact ih.trans (List.prefix_append _ _)
  | restart s t o call c _ _ _ ih => exact ih

/-- Every event is one that a request of the run has posted, and what a request has stored
is there. -/
structure Traced (v : View Intake Db PostEventRequest Posted) : Prop where
  events : ∀ e ∈ v.db.events.docs, ∃ t request, (t, request) ∈ v.spawns ∧ request.Posts e
  stored : ∀ t request e, v.stages t = some (request, some e) → e ∈ v.db.events.docs

private theorem traced {A : Schedule} (h : intake.Reaches A (.start .empty) s) : Traced (tracing.view s) := by
  refine tracing_kept.view_invariant h ⟨?_, ?_⟩ ?_ ?_
  · intro e hmem
    cases hmem
  · simp [Process.View.start]
  · intro s t request hs hA hnone ih
    constructor
    · intro e hmem
      obtain ⟨t', request', hspawned, hposts⟩ := ih.events e hmem
      exact ⟨t', request', .tail _ hspawned, hposts⟩
    · intro t' request' e hstage
      rcases View.stages_spawned hstage with ⟨-, -, heq⟩ | ⟨-, hold⟩
      · cases heq
      · exact ih.stored t' request' e hold
  · intro s t o request x c hs hA hpending hx hmay ih
    have hspawned : (t, request) ∈ s.spawns := hs.mem_spawns.mpr (Contract.calls_of_track hx)
    have hgrows : ∀ e ∈ s.db.events.docs, e ∈ (exec o s.db c).2.events.docs := by
      intro e hmem
      obtain hsame | ⟨e', -, hmore⟩ := exec_events o s.db c
      · rw [hsame]
        exact hmem
      · rw [hmore]
        exact List.mem_append_left _ hmem
    constructor
    · intro e hmem
      obtain hsame | ⟨e', rfl, hmore⟩ := exec_events o s.db c
      · exact ih.events e (hsame ▸ hmem)
      · rcases List.mem_append.mp (hmore ▸ hmem) with hold | hnew
        · exact ih.events e hold
        · obtain rfl := List.mem_singleton.mp hnew
          exact ⟨t, request, hspawned, hmay⟩
    · intro t' request' e hstage
      rcases View.stages_acted hstage with ⟨rfl, rfl, heq⟩ | ⟨-, hold⟩
      · cases c with
        | createEvent e' =>
          have hnext : Posted.next x (.createEvent e') (exec o s.db (.createEvent e')).1 = some e := heq.symm
          cases hreply : (exec o s.db (.createEvent e')).1 with
          | error error =>
            rw [hreply] at hnext
            obtain rfl : x = some e := hnext
            exact hgrows e (ih.stored _ _ e hx)
          | ok e'' =>
            rw [hreply] at hnext
            obtain rfl := Option.some.inj hnext
            obtain ⟨rfl, hmore⟩ := createEvent_ok hreply
            have hmem : e'.stored ∈ (exec o s.db (.createEvent e')).2.events.docs := by
              rw [hmore]
              exact List.mem_append_right _ (List.mem_singleton_self _)
            exact hmem
        | _ => exact hgrows e (ih.stored _ _ e (hx.trans (congrArg (fun x => some (_, x)) heq.symm)))
      · exact hgrows e (ih.stored t' request' e hold)

end events

section receipts
variable {cast : Json → Option String} {verify : Verify} {config : AuthGuardConfig} {o : Oracle} {req : HTTPRequest}
variable {receipt : EventReceiptResponse} {s s' : Run}

/-- The receipt says of which request it is, and that the event is queued. -/
structure EventReceiptResponse.Of (cast : Json → Option String) (receipt : EventReceiptResponse)
    (request : PostEventRequest) : Prop where
  merchantId : receipt.merchantId = storedText cast (Metadata.get (fields request.payload) "merchantId")
  idempotencyKey : receipt.idempotencyKey = some (trim (text request.idempotencyKey))
  queued : receipt.status = .queued ∧ receipt.accepted = some true ∧ receipt.replayed = false ∧
    receipt.postedTransactions = 0 ∧ receipt.errorCode = none

/-- The receipt is what was asked for. -/
def HTTPRequest.Asks (req : HTTPRequest) (receipt : EventReceiptResponse) : Prop :=
  receipt.merchantId = req.merchantId.map trim ∧ receipt.idempotencyKey = req.idempotencyKey.map trim

theorem PostEventRequest.Posts.of_request {request : PostEventRequest} {e : ReceivedEvent} (h : request.Posts e) :
    (e.receipt cast).Of cast request := by
  obtain ⟨id, eventId, correlationId, now, rfl⟩ := h.document
  exact ⟨rfl, rfl, rfl, rfl, rfl, rfl, rfl⟩

/-- The key of a valid request is a text that is not empty. -/
private theorem text_ne_empty {request : PostEventRequest} (h : validationErrors request = []) :
    text request.idempotencyKey ≠ "" := by
  simp only [validationErrors, List.append_eq_nil_iff] at h
  obtain ⟨⟨⟨⟨hkey, -⟩, -⟩, -⟩, -⟩ := h
  unfold validateIdempotencyKey at hkey
  by_cases htruthy : request.idempotencyKey.truthy = false
  · rw [if_pos htruthy] at hkey
    cases hkey
  · rw [if_neg htruthy] at hkey
    generalize request.idempotencyKey = value at htruthy hkey
    cases value with
    | str s =>
      intro hempty
      exact htruthy (by simpa [Json.truthy, text] using hempty)
    | _ => cases hkey

/-- A receipt is given for the first event that answers, and only to a checked role. -/
private theorem handled_iff : handleReceiptRequest cast verify config o s.db req = ⟨200, .receipt receipt⟩ ↔
    (checkAdminSupportAuth verify config req.authorization).authorized = true ∧ o.failure = none ∧
      ∃ merchantId idempotencyKey e, req.merchantId = some merchantId ∧ merchantId ≠ "" ∧
        req.idempotencyKey = some idempotencyKey ∧ idempotencyKey ≠ "" ∧
        s.db.events.docs.find? (ReceivedEvent.answers cast merchantId idempotencyKey) = some e ∧
        receipt = e.receipt cast := by
  have hstatus : ∀ response : HTTPResponse, response.status ≠ 200 → response ≠ ⟨200, .receipt receipt⟩ := by
    rintro response hne rfl
    exact hne rfl
  unfold handleReceiptRequest
  constructor
  · intro h
    cases hmerchant : req.merchantId.filter (· ≠ "") with
    | none =>
      rw [hmerchant] at h
      exact absurd h (hstatus badRequest (by decide))
    | some merchantId =>
      cases hkey : req.idempotencyKey.filter (· ≠ "") with
      | none =>
        rw [hmerchant, hkey] at h
        exact absurd h (hstatus badRequest (by decide))
      | some idempotencyKey =>
        rw [hmerchant, hkey] at h
        dsimp only at h
        by_cases hauth : (checkAdminSupportAuth verify config req.authorization).authorized = false
        · rw [if_pos hauth] at h
          exact absurd h (hstatus (unauthorized _) (by simp [unauthorized]))
        · rw [if_neg hauth] at h
          unfold getEventReceipt Oracle.attempt at h
          cases hfailure : o.failure with
          | some failure =>
            rw [hfailure] at h
            exact absurd h (hstatus lookupFailed (by decide))
          | none =>
            rw [hfailure] at h
            cases hfind : s.db.events.docs.find? (ReceivedEvent.answers cast merchantId idempotencyKey) with
            | none =>
              rw [hfind] at h
              exact absurd h (hstatus notFound (by decide))
            | some e =>
              rw [hfind] at h
              obtain ⟨hmerchant, hmerchant'⟩ := Option.filter_eq_some_iff.mp hmerchant
              obtain ⟨hkey, hkey'⟩ := Option.filter_eq_some_iff.mp hkey
              refine ⟨Bool.not_eq_false _ ▸ hauth, rfl, merchantId, idempotencyKey, e, hmerchant, of_decide_eq_true hmerchant',
                hkey, of_decide_eq_true hkey', hfind, ?_⟩
              exact (HTTPBody.receipt.inj (congrArg HTTPResponse.body h)).symm
  · rintro ⟨hauth, hfailure, merchantId, idempotencyKey, e, hmerchant, hmerchant', hkey, hkey', hfind, rfl⟩
    simp [hmerchant, hmerchant', hkey, hkey', hauth, getEventReceipt, Oracle.attempt, hfailure, hfind, receiptResponse,
      Option.filter]

end receipts

section scenario

/-- A purchase of the merchant `merchant-1`. -/
def purchase (card : String) : PostEventRequest where
  eventType := .str "purchase"
  payload := .obj [("merchantId", .str "merchant-1"), ("card", .str card)]
  idempotencyKey := .str "key-1"

/-- The purchase is posted and queued. -/
def purchaseRun (card : String) : List (Label Oracle PostEventRequest) :=
  .spawn 0 (purchase card) :: stepsOf (sampleOracle "a" "event-1") 0 10

def supportRequest : HTTPRequest := ⟨some "Bearer token", some "merchant-1", some "key-1"⟩

/-- Every token is one of an administrator. -/
def adminTokens : Verify := fun _ _ _ => .ok (.obj [("role", .str "admin")])

def supportConfig : AuthGuardConfig := { jwtSecret := "secret" }

def supportAnswer (db : Db) : HTTPResponse :=
  handleReceiptRequest (fun _ => none) adminTokens supportConfig (sampleOracle "a" "event-1") db supportRequest

def purchaseReceipt : EventReceiptResponse where
  correlationId := some "a"
  merchantId := some "merchant-1"
  eventId := "evt_a"
  idempotencyKey := some "key-1"
  status := .queued
  accepted := some true
  replayed := false
  postedTransactions := 0
  errorCode := none

end scenario

section queued
variable {cast : Json → Option String} {verify : Verify} {config : AuthGuardConfig} {o : Oracle} {req : HTTPRequest}
variable {s : Run}

/-- A request that is told its event is queued has a receipt from then on, for whoever may
see it and asks for its merchant and its key. -/
theorem queued_has_receipt {A : Schedule} (h : intake.Reaches A (.start .empty) s) {t : ℕ} {request : PostEventRequest}
    {response : EventResponse} (hcall : s.calls t = some request) (hresult : s.result t = some (.ok response))
    (hqueued : response.status = .queued)
    (hauthorized : (checkAdminSupportAuth verify config req.authorization).authorized = true)
    {merchantId : String} (hmerchant : req.merchantId = some merchantId) (hmerchant' : merchantId ≠ "")
    (hstored : storedText cast (Metadata.get (fields request.payload) "merchantId") = some (trim merchantId))
    (hkey : req.idempotencyKey = some (text request.idempotencyKey)) (hdone : o.failure = none) :
    ∃ receipt, handleReceiptRequest cast verify config o s.db req = ⟨200, .receipt receipt⟩ := by
  obtain ⟨x, hx⟩ := Contract.stage_of_call (K := tracing) hcall
  have hends : request.told x (.ok response) := tracing_kept.ends h hx hresult
  obtain ⟨e, rfl, hposts, -⟩ := hends hqueued
  have hmem : e ∈ s.db.events.docs := (traced h).stored t request e hx
  obtain ⟨id, eventId, correlationId, now, hdocument⟩ := hposts.document
  have hanswers : e.answers cast merchantId (text request.idempotencyKey) = true := by
    rw [hdocument]
    exact decide_eq_true ⟨hstored, rfl⟩
  have hsome := List.find?_isSome.mpr ⟨e, hmem, hanswers⟩
  obtain ⟨e', hfind⟩ := Option.isSome_iff_exists.mp hsome
  refine ⟨e'.receipt cast, handled_iff.mpr ⟨hauthorized, hdone, merchantId, text request.idempotencyKey, e', hmerchant,
    hmerchant', hkey, ?_, hfind, rfl⟩⟩
  exact text_ne_empty hposts.valid

theorem queued_has_receipt_of_purchase : ∃ s receipt, intake.Reaches (fun _ _ => True) (.start .empty) s ∧
    (∃ result ∈ s.result 0, answersQueued result = true) ∧ supportAnswer s.db = ⟨200, .receipt receipt⟩ := by
  obtain ⟨s, -, hs, -, hfacts, hcalls⟩ := Machine.exists_reaches_twice intake (fun _ _ => True) .empty (purchaseRun "1111")
    [] (fun s _ => decide (∃ result ∈ s.result 0, answersQueued result = true)) (a := true) (by decide +kernel)
  have hanswered := of_decide_eq_true hfacts
  obtain ⟨result, hresult, hqueued⟩ := hanswered
  cases result with
  | error error => cases hqueued
  | ok response =>
    have hcall : s.calls 0 = some (purchase "1111") := hcalls 0 _ (.head _)
    obtain ⟨receipt, hreceipt⟩ : ∃ receipt, supportAnswer s.db = ⟨200, .receipt receipt⟩ := by
      refine queued_has_receipt hs hcall hresult (of_decide_eq_true hqueued) ?_ rfl ?_ rfl rfl rfl
      · decide +kernel
      · decide
    exact ⟨s, receipt, hs, ⟨_, hresult, hqueued⟩, hreceipt⟩

end queued
end RedRoomRewards.Ingestion
