import RedRoomRewards.Process.Execution
import RedRoomRewards.Process.View
import RedRoomRewards.Service.Webhooks
import RedRoomRewards.Text.JsonScan

/-! Deliveries of webhooks: a signature stands for one payload at one time, and an event is accepted once however
often and however concurrently it is delivered. -/
namespace RedRoomRewards.WebhookReceiveService
open Process Store

section signatures
variable {config : Config} {secret : String} {delivery delivery' : Delivery}

/-- The signed text tells the time and the payload. -/
theorem body_eq_iff : delivery'.body config = delivery.body config ↔
    delivery'.timestampText = delivery.timestampText ∧
      IdempotencyService.jsonFields config.print delivery'.payload = IdempotencyService.jsonFields config.print delivery.payload := by
  rw [Delivery.body, Delivery.body, Delivery.payloadText, Delivery.payloadText, IdempotencyService.jsonValue,
    IdempotencyService.jsonValue]
  constructor
  · intro h
    obtain ⟨htime, hfields⟩ := Text.stopped_object_injective (String.ofList_injective h)
    exact ⟨String.toList_injective htime, hfields⟩
  · rintro ⟨htime, hfields⟩
    rw [htime, hfields]

/-- A signature passes with another delivery exactly if that has the same payload and the same time, or if the two
signed texts differ and are a collision of the HMAC. -/
theorem signature_binds (hsecret : config.secret = some secret) (hset : secret ≠ "")
    (hsigned : delivery.signature = some (config.hmac secret (delivery.body config)))
    (hreused : delivery'.signature = delivery.signature) :
    verifySignature config delivery' = true ↔
      (delivery'.timestampText = delivery.timestampText ∧
        IdempotencyService.jsonFields config.print delivery'.payload =
          IdempotencyService.jsonFields config.print delivery.payload) ∨
      delivery'.body config ≠ delivery.body config ∧
        config.hmac secret (delivery'.body config) = config.hmac secret (delivery.body config) := by
  have hverify : verifySignature config delivery' = true ↔
      config.hmac secret (delivery.body config) = config.hmac secret (delivery'.body config) := by
    rw [verifySignature, hsecret, hreused, hsigned]
    simp [hset]
  rw [hverify, ← body_eq_iff]
  by_cases hbody : delivery'.body config = delivery.body config
  · rw [hbody]
    simp
  · simp [hbody, eq_comm]

private def paidAt (timestamp : String) : Delivery where
  payload := [("eventId", .str "evt-1")]
  signature := some "366f23d9c33544e4b2ff1afe0edeab33af715a563557e4f0717a4d01e7dd3c55"
  timestamp := some timestamp

/-- HMAC-SHA256 under one secret, on the texts of two deliveries. -/
private def sampleHmac (_secret body : String) : String :=
  if body = "1700000000.\x7b\"eventId\":\"evt-1\"\x7d" then
    "366f23d9c33544e4b2ff1afe0edeab33af715a563557e4f0717a4d01e7dd3c55"
  else if body = "1700003600.\x7b\"eventId\":\"evt-1\"\x7d" then
    "5871894dc8f6412f7d4f15a45163df2e6e2097737eac6f0d33f63a52aed9254a"
  else ""

private def sampleConfig : Config where
  secret := some "whsec-1"
  hmac := sampleHmac
  print := fun _ => ⟨['0'], List.cons_ne_nil _ _, fun _ hc => List.mem_singleton.mp hc ▸ .head _⟩
  hashResult := fun _ => "366f23d9c33544e4"
  findOne := fun _ => pure none
  cast := fun _ => .error (.validation ["pointsIdempotencyKey"])

/-- The signature does not pass an hour later. -/
theorem signature_binds_time : verifySignature sampleConfig (paidAt "1700000000") = true ∧
    verifySignature sampleConfig (paidAt "1700003600") = false := by
  constructor
  · exact (@signature_binds sampleConfig "whsec-1" (paidAt "1700000000") (paidAt "1700000000") rfl (by decide)
      (by decide +kernel) rfl).mpr (.inl ⟨rfl, rfl⟩)
  · apply Bool.eq_false_iff.mpr
    intro hlate
    rcases (@signature_binds sampleConfig "whsec-1" (paidAt "1700000000") (paidAt "1700003600") rfl (by decide)
      (by decide +kernel) rfl).mp hlate with ⟨htime, -⟩ | ⟨-, hcollision⟩
    · exact absurd htime (by decide)
    · exact absurd hcollision (by decide +kernel)

end signatures

section protocol

/-- The answer that a record has. -/
def answerIn (record : Option IdempotencyRecord) : Option Json :=
  (IdempotencyService.storedResult record).filter Json.truthy

/-- How far a delivery has come: it has found an answer on record, or none; then it has recorded its
own, or was refused. -/
inductive Stage where
  | fresh
  | found (answer : Json)
  | absent
  | recorded
  | refused

def Stage.next : (x : Stage) → (c : Cmd) → c.Reply → Stage
  | .fresh, .findIdempotencyResult .., record => (answerIn record).elim .absent .found
  | .absent, .createIdempotencyRecord _, .ok _ => .recorded
  | .absent, .createIdempotencyRecord _, .error _ => .refused
  | x, _, _ => x

variable (config : Config)

/-- The delivery passes its checks, and its event id is a text that is stored as this key. -/
structure Delivery.Names (delivery : Delivery) (key : String) : Prop where
  genuine : verifySignature config delivery = true
  named : ∃ s, eventIdOf delivery.payload = .str s ∧ s ≠ "" ∧ trim s = key

/-- The answer of a delivery that is the first of its event. -/
def Delivery.answer (delivery : Delivery) : Json := accepted (eventIdOf delivery.payload)

def Delivery.record (delivery : Delivery) (key : String) : IdempotencyRecord :=
  IdempotencyService.resultRecord config.hashResult key webhookTenantScope webhookReceiveOp delivery.answer

/-- A delivery with a text for its event id looks for an answer and records its own where it has
found none. -/
def Delivery.may (delivery : Delivery) (x : Stage) : Cmd → Prop
  | .findIdempotencyResult key scope => x = .fresh ∧ delivery.Names config key ∧ scope = webhookScope
  | .createIdempotencyRecord r => x = .absent ∧ ∃ key, delivery.Names config key ∧ r = delivery.record config key
  | _ => False

def Delivery.ends (delivery : Delivery) (x : Stage) : Except ServiceError Json → Prop
  | .ok answer => x = .found answer ∨ x = .recorded ∧ answer = delivery.answer
  | .error _ => x = .refused

/-- A forged delivery does nothing and throws; of one whose event id is not a text nothing is said. -/
def receiving : Contract Mongo Call Json ServiceError Stage where
  start := fun _ => .fresh
  next := fun _ => Stage.next
  may
    | .deliver delivery, x, c => verifySignature config delivery = true ∧
        ((∃ key, delivery.Names config key) → delivery.may config x c)
    | .other _, _, _ => True
  ends
    | .deliver delivery, x, r =>
      (verifySignature config delivery = false → r = .error (.error ["Invalid webhook signature"])) ∧
        ((∃ key, delivery.Names config key) → delivery.ends x r)
    | .other _, _, _ => True
  resumes := fun call call' x => call' = call ∧ x = .fresh

variable {config} {delivery : Delivery} {key key' : String}

theorem Delivery.Names.eq (h : delivery.Names config key) (h' : delivery.Names config key') : key = key' := by
  obtain ⟨-, s, hs, -, rfl⟩ := h
  obtain ⟨-, s', hs', -, rfl⟩ := h'
  rw [Json.str.inj (hs.symm.trans hs')]

private theorem receives_recordKey (h : delivery.Names config key) :
    Prog.Obeys ((receiving config).rules (webhooks config) (.deliver delivery)) delivery.ends .absent (do
      IdempotencyService.recordKey config.hashResult key webhookTenantScope webhookReceiveOp delivery.answer
      pure delivery.answer) := by
  refine (Prog.obeys_bind _ _ _).mpr ⟨⟨h.genuine, fun _ => ⟨rfl, key, h, rfl⟩⟩, fun reply _ => ?_⟩
  cases reply with
  | error e => rfl
  | ok record => exact .inr ⟨rfl, rfl⟩

private theorem receives_checkKey (h : delivery.Names config key) {f : Option Json → Service Json}
    (hf : ∀ record, Prog.Obeys ((receiving config).rules (webhooks config) (.deliver delivery)) delivery.ends
      ((answerIn record).elim .absent .found) (f (IdempotencyService.storedResult record))) :
    Prog.Obeys ((receiving config).rules (webhooks config) (.deliver delivery)) delivery.ends .fresh
      (IdempotencyService.checkKey key webhookTenantScope webhookReceiveOp >>= f) :=
  ⟨⟨h.genuine, fun _ => ⟨rfl, h, rfl⟩⟩, fun record _ => hf record⟩

private theorem receives_named (h : delivery.Names config key) :
    Prog.Obeys ((receiving config).rules (webhooks config) (.deliver delivery)) delivery.ends .fresh
      (handleIncoming config delivery) := by
  obtain ⟨hgenuine, s, hs, hne, rfl⟩ := id h
  have htruthy : (eventIdOf delivery.payload).truthy = true := by simp [hs, Json.truthy, hne]
  refine (Prog.obeys_throwIf_bind _ _ _ _).mpr ⟨fun hforged => ?_, fun _ => ?_⟩
  · cases hgenuine.symm.trans hforged
  · refine (Prog.obeys_throwIf_bind _ _ _ _).mpr ⟨fun hmissing => ?_, fun _ => ?_⟩
    · cases htruthy.symm.trans hmissing
    · rw [hs]
      refine receives_checkKey h fun record => ?_
      have hanswer : accepted (.str s) = delivery.answer := by rw [Delivery.answer, hs]
      rw [hanswer, answerIn]
      cases (IdempotencyService.storedResult record).filter Json.truthy with
      | some answer => exact .inl rfl
      | none => exact receives_recordKey h

private theorem receives_handleIncoming (delivery : Delivery) :
    Prog.Obeys ((receiving config).rules (webhooks config) (.deliver delivery))
      (fun x r => (receiving config).ends (.deliver delivery) x r) .fresh (handleIncoming config delivery) := by
  by_cases hgenuine : verifySignature config delivery = true
  · have hforged : verifySignature config delivery ≠ false := by rw [hgenuine]; nofun
    by_cases hnames : ∃ key, delivery.Names config key
    · obtain ⟨key, hnames⟩ := hnames
      exact (receives_named hnames).imp fun x r hends => ⟨fun h => absurd h hforged, fun _ => hends⟩
    · exact Prog.obeys_stable (P := fun _ => True) _ trivial (fun _ _ _ _ => trivial)
        (fun _ _ _ => ⟨hgenuine, fun h => absurd h hnames⟩)
        fun _ _ _ => ⟨fun h => absurd h hforged, fun h => absurd h hnames⟩
  · have hforged : verifySignature config delivery = false := by simpa using hgenuine
    rw [handleIncoming, Prog.throwIf_pos hforged]
    exact ⟨fun _ => rfl, fun ⟨key, hnames⟩ => absurd hnames.genuine hgenuine⟩

theorem receiving_kept (config : Config) : (receiving config).Kept (webhooks config) where
  starts := fun _ => ⟨rfl, rfl⟩
  body := by
    rintro call call' x ⟨rfl, rfl⟩
    cases call' with
    | deliver delivery =>
      refine (Prog.obeys_bind _ _ _).mpr ((receives_handleIncoming delivery).imp ?_)
      rintro x (e | answer) hends
      · exact hends
      · exact hends
    | other program =>
      refine (Prog.obeys_bind _ _ _).mpr ?_
      apply Prog.obeys_stable (P := fun _ => True) program trivial (fun _ _ _ _ => trivial) (fun _ _ _ => trivial)
      rintro x (e | done) -
      · trivial
      · trivial

end protocol

section records
variable {key : String} {k : String × String} {record : IdempotencyRecord} {o : Oracle} {db : Db}

/-- The command has made the record of the event. -/
def accepts (key : String) : (c : Cmd) → c.Reply → Bool
  | .createIdempotencyRecord _, .ok record => record.claim = (key, webhookScope)
  | _, _ => false

/-- A record stays as it is. -/
theorem record_stays (h : db.records.find k = some record) (c : Cmd) : (exec o db c).2.records.find k = some record := by
  cases c with
  | createIdempotencyRecord r =>
    simp only [exec]
    rcases create_cases db.records r r.invalid ["pointsIdempotencyKey", "eventScope"] with ⟨e, he⟩ | ⟨-, hfree, hok⟩
    · rw [he]
      exact h
    · rw [hok]
      exact Collection.find_insert_of_find hfree h
  | _ =>
    rw [(exec_frame o db _).records]
    · exact h
    · simp [Cmd.touches]

/-- The record of an event is there after a command if it was before, or if the command has made it. -/
private theorem accepts_exec (o : Oracle) (db : Db) (key : String) (c : Cmd) :
    ((exec o db c).2.records.find (key, webhookScope)).isSome =
        ((db.records.find (key, webhookScope)).isSome || accepts key c (exec o db c).1) ∧
      (accepts key c (exec o db c).1 = true → db.records.find (key, webhookScope) = none) := by
  cases c with
  | createIdempotencyRecord r =>
    simp only [exec]
    rcases create_cases db.records r r.invalid ["pointsIdempotencyKey", "eventScope"] with ⟨e, he⟩ | ⟨-, hfree, hok⟩
    · rw [he]
      simp [accepts]
    · rw [hok]
      by_cases hclaim : r.claim = (key, webhookScope)
      · have hnone : db.records.find (key, webhookScope) = none := hclaim ▸ hfree.find
        simp [accepts, hclaim, hnone, Collection.find_insert hfree]
      · simp [accepts, hclaim, Collection.find_insert_ne hfree (Ne.symm hclaim)]
  | _ =>
    rw [(exec_frame o db _).records]
    · simp [accepts]
    · simp [Cmd.touches]

end records

section runs
variable {config : Config} {A : Schedule} {d : Db} {s s' : Run} {key : String} {delivery : Delivery} {t : ℕ}

/-- The answer to an event id that is a text is stored as it is. -/
private theorem Delivery.Names.answerIn_record (h : delivery.Names config key) :
    answerIn (some (delivery.record config key)) = some delivery.answer := by
  obtain ⟨-, s, hs, -, rfl⟩ := h
  rw [Delivery.record, Delivery.answer, hs]
  rfl

/-- The record of an event has been made once if it is there. -/
private theorem accepted_once (hnew : d.records.find (key, webhookScope) = none)
    (h : (webhooks config).Reaches A (.start d) s) : s.log.countP (fun ev => accepts key ev.cmd ev.reply) =
      if (s.db.records.find (key, webhookScope)).isSome then 1 else 0 := by
  induction h using Machine.Reaches.by_steps with
  | start => simp [State.start, hnew]
  | spawn s t call _ _ _ ih => exact ih
  | act s t o call c k _ _ _ ih =>
    obtain ⟨hafter, hbefore⟩ := accepts_exec o s.db key c
    rw [Machine.acted_log, List.countP_cons, ih, Machine.acted_db, webhooks_exec, hafter]
    cases haccepts : accepts key c (exec o s.db c).1 with
    | false => simp
    | true => simp [hbefore haccepts]
  | restart s t o call c _ _ _ ih => exact ih

/-- What the delivery answers with at this stage is on record. -/
private def OnRecord (delivery : Delivery) (key : String) (db : Db) (x : Stage) : Prop :=
  ∀ answer, x = .found answer ∨ x = .recorded ∧ answer = delivery.answer →
    ∃ record, db.records.find (key, webhookScope) = some record ∧ answerIn (some record) = some answer

private theorem onRecord_next {x : Stage} {c : Cmd} (hmay : delivery.may config x c) (hnames : delivery.Names config key)
    (o : Oracle) (db : Db) : OnRecord delivery key (exec o db c).2 (x.next c (exec o db c).1) := by
  cases c with
  | findIdempotencyResult key' scope =>
    obtain ⟨rfl, hnames', rfl⟩ := hmay
    obtain rfl := hnames.eq hnames'
    simp only [exec, Stage.next]
    cases hrecord : db.records.find (key, webhookScope) with
    | none => rintro answer (hfound | ⟨hrecorded, -⟩) <;> contradiction
    | some record =>
      cases hstored : answerIn (some record) with
      | none => rintro answer (hfound | ⟨hrecorded, -⟩) <;> contradiction
      | some stored =>
        rintro answer (hfound | ⟨hrecorded, -⟩)
        · obtain rfl := Stage.found.inj hfound
          exact ⟨record, hrecord, hstored⟩
        · cases hrecorded
  | createIdempotencyRecord r =>
    obtain ⟨rfl, key', hnames', rfl⟩ := hmay
    obtain rfl := hnames.eq hnames'
    simp only [exec]
    rcases create_cases db.records (delivery.record config key) (delivery.record config key).invalid
      ["pointsIdempotencyKey", "eventScope"] with ⟨e, he⟩ | ⟨-, hfree, hok⟩
    · rw [he]
      rintro answer (hfound | ⟨hrecorded, -⟩) <;> contradiction
    · rw [hok]
      rintro answer (hfound | ⟨-, rfl⟩)
      · cases hfound
      · exact ⟨delivery.record config key, (Collection.find_insert hfree _).trans (if_pos rfl),
          hnames.answerIn_record⟩
  | _ => exact hmay.elim

private theorem answer_on_record (h : (webhooks config).Reaches A (.start d) s) : ∀ t call x,
    (receiving config).track s t = some (call, x) → ∀ delivery key, call = .deliver delivery →
      delivery.Names config key → OnRecord delivery key s.db x := by
  refine Contract.tracks_invariant (P := fun db _ call x => ∀ delivery key, call = .deliver delivery →
    delivery.Names config key → OnRecord delivery key db x) h ?_ ?_
  · rintro s t call - delivery key - - answer (hfound | ⟨hrecorded, -⟩) <;> contradiction
  · intro s t o call c k hs _ ht ih
    constructor
    · rintro delivery key rfl hnames
      exact onRecord_next (((receiving_kept config).may hs ht).2 ⟨key, hnames⟩) hnames o s.db
    · intro t' call' x _ hx delivery key hcall hnames answer hstage
      obtain ⟨record, hrecord, hstored⟩ := ih t' call' x hx delivery key hcall hnames answer hstage
      exact ⟨record, record_stays hrecord c, hstored⟩

/-- A delivery that has issued a command is genuine. -/
private theorem genuine_of_history (h : (webhooks config).Reaches A (.start d) s) : ∀ t call x,
    (receiving config).track s t = some (call, x) → ∀ delivery, call = .deliver delivery →
      s.history t = [] ∨ verifySignature config delivery = true := by
  refine (receiving_kept config).invariant (P := fun call history _ => ∀ delivery, call = .deliver delivery →
    history = [] ∨ verifySignature config delivery = true) (fun _ _ _ => .inl rfl) ?_ h
  rintro call history x t c r - hmay - delivery rfl
  exact .inr hmay.1

/-- A delivery that has tried to make a record has been told of it. -/
private theorem quiet_history (h : (webhooks config).Reaches A (.start d) s) : ∀ t call x,
    (receiving config).track s t = some (call, x) → ∀ delivery key, call = .deliver delivery →
      delivery.Names config key → x ≠ .recorded → x ≠ .refused → ∀ ev ∈ s.history t, ev.cmd.touches = none := by
  refine (receiving_kept config).invariant (P := fun call history x => ∀ delivery key, call = .deliver delivery →
    delivery.Names config key → x ≠ .recorded → x ≠ .refused → ∀ ev ∈ history, ev.cmd.touches = none)
    (fun _ _ _ _ _ _ _ ev hev => by cases hev) ?_ h
  rintro call history x t c r ih hmay - delivery key rfl hnames hrecorded hrefused ev hev
  have hmay : delivery.may config x c := hmay.2 ⟨key, hnames⟩
  cases c with
  | findIdempotencyResult key' scope =>
    obtain ⟨rfl, -, -⟩ := hmay
    rcases List.mem_cons.mp hev with rfl | hold
    · rfl
    · exact ih delivery key rfl hnames nofun nofun ev hold
  | createIdempotencyRecord record =>
    obtain ⟨rfl, -⟩ := hmay
    cases r with
    | ok made => exact absurd rfl hrecorded
    | error e => exact absurd rfl hrefused
  | _ => exact hmay.elim

/-- A delivery that begins when the answer is on record can only find it. -/
private theorem found_later (h : (webhooks config).Reaches A (.start d) s) (h' : (webhooks config).Reaches A s s')
    {record : IdempotencyRecord} {answer : Json} (hrecord : s.db.records.find (key, webhookScope) = some record)
    (hstored : answerIn (some record) = some answer) (hunspawned : s.calls t = none) :
    s'.db.records.find (key, webhookScope) = some record ∧ ∀ delivery x, delivery.Names config key →
      (receiving config).track s' t = some (.deliver delivery, x) → x = .fresh ∨ x = .found answer := by
  induction h' using Machine.Reaches.by_steps with
  | start =>
    refine ⟨hrecord, fun delivery x _ hx => ?_⟩
    cases hunspawned.symm.trans (Contract.calls_of_track hx)
  | spawn s₁ t' call hs₁ _ ht ih =>
    obtain ⟨hrecord₁, hstage⟩ := ih
    refine ⟨hrecord₁, fun delivery x hnames hx => ?_⟩
    rw [Contract.track_spawned (h.trans hs₁) ht, Function.update_apply] at hx
    split at hx
    · exact .inl (Prod.mk.inj (Option.some.inj hx)).2.symm
    · exact hstage delivery x hnames hx
  | act s₁ t' o call c k hs₁ _ ht ih =>
    obtain ⟨hrecord₁, hstage⟩ := ih
    refine ⟨record_stays hrecord₁ c, fun delivery x hnames hx => ?_⟩
    rw [Contract.track_acted ht, Function.update_apply] at hx
    split at hx
    · next heq =>
      subst heq
      obtain ⟨rfl, rfl⟩ := Prod.mk.inj (Option.some.inj hx)
      have hmay : delivery.may config _ c := ((receiving_kept config).may (h.trans hs₁) ht).2 ⟨key, hnames⟩
      have hbefore := hstage delivery _ hnames (Contract.track_of_thread ht)
      cases c with
      | findIdempotencyResult key' scope =>
        obtain ⟨hfresh, hnames', rfl⟩ := hmay
        obtain rfl := hnames.eq hnames'
        right
        show Stage.next _ (.findIdempotencyResult key webhookScope) (s₁.db.records.find (key, webhookScope)) = _
        rw [hfresh, hrecord₁, Stage.next, hstored]
        rfl
      | createIdempotencyRecord r =>
        rw [hmay.1] at hbefore
        rcases hbefore with hfresh | hfound <;> contradiction
      | _ => exact hmay.elim
    · exact hstage delivery x hnames hx
  | restart s₁ t' o call c hs₁ _ ht ih =>
    rw [Contract.track_restarted ht]
    exact ih

/-- In every run an event is accepted once; every answer of a delivery whose event id is a text is
the one on record; a forged delivery does nothing; and a delivery of such an event that begins
when the answer is on record gives it and writes nothing. -/
theorem delivered_once (h : (webhooks config).Reaches A (.start d) s) :
    (∀ key, d.records.find (key, webhookScope) = none → s.log.countP (fun ev => accepts key ev.cmd ev.reply) =
      if (s.db.records.find (key, webhookScope)).isSome then 1 else 0) ∧
    (∀ t delivery key answer, s.calls t = some (.deliver delivery) → delivery.Names config key →
      s.result t = some (.ok answer) →
      ∃ record, s.db.records.find (key, webhookScope) = some record ∧ answerIn (some record) = some answer) ∧
    (∀ t delivery, s.calls t = some (.deliver delivery) → verifySignature config delivery = false →
      s.history t = [] ∧ ∀ r, s.result t = some r → r = .error (.error ["Invalid webhook signature"])) ∧
    ∀ s' t delivery key record answer, (webhooks config).Reaches A s s' →
      s.db.records.find (key, webhookScope) = some record → answerIn (some record) = some answer →
      s.calls t = none → s'.calls t = some (.deliver delivery) → delivery.Names config key →
      (∀ r, s'.result t = some r → r = .ok answer) ∧ ∀ ev ∈ s'.history t, ev.cmd.touches = none := by
  refine ⟨fun key hnew => accepted_once hnew h, ?_, ?_, ?_⟩
  · intro t delivery key answer hcall hnames hresult
    obtain ⟨x, hx⟩ := Contract.stage_of_call (K := receiving config) hcall
    have hends : delivery.ends x (.ok answer) := ((receiving_kept config).ends h hx hresult).2 ⟨key, hnames⟩
    exact answer_on_record h t _ x hx delivery key rfl hnames answer hends
  · intro t delivery hcall hforged
    obtain ⟨x, hx⟩ := Contract.stage_of_call (K := receiving config) hcall
    refine ⟨(genuine_of_history h t _ x hx delivery rfl).resolve_right fun hgenuine => ?_, fun r hr => ?_⟩
    · cases hforged.symm.trans hgenuine
    · exact ((receiving_kept config).ends h hx hr).1 hforged
  · intro s' t delivery key record answer h' hrecord hstored hunspawned hcall hnames
    obtain ⟨x, hx⟩ := Contract.stage_of_call (K := receiving config) hcall
    have hstage := (found_later h h' hrecord hstored hunspawned).2 delivery x hnames hx
    constructor
    · intro r hr
      have hends : delivery.ends x r := ((receiving_kept config).ends (h.trans h') hx hr).2 ⟨key, hnames⟩
      cases r with
      | ok given =>
        rcases hends with rfl | ⟨rfl, -⟩
        · rcases hstage with hfresh | hfound
          · cases hfresh
          · rw [Stage.found.inj hfound]
        · rcases hstage with hfresh | hfound <;> contradiction
      | error e =>
        obtain rfl : x = .refused := hends
        rcases hstage with hfresh | hfound <;> contradiction
    · apply quiet_history (h.trans h') t _ x hx delivery key rfl hnames
      · rintro rfl
        rcases hstage with hfresh | hfound <;> contradiction
      · rintro rfl
        rcases hstage with hfresh | hfound <;> contradiction

private def turns (threads : List ℕ) : List (Label Oracle Call) :=
  threads.map fun t => .run t ⟨"uuid-1", 1700000000000, none, none⟩

/-- An event is delivered twice at once, then forged, then delivered once more. -/
private def deliveries : List (Label Oracle Call) :=
  [.spawn 0 (.deliver (paidAt "1700000000")), .spawn 1 (.deliver (paidAt "1700000000"))] ++ turns [0, 1, 1, 0] ++
    [.spawn 2 (.deliver (paidAt "1700003600")), .spawn 3 (.deliver (paidAt "1700000000"))] ++ turns [3]

theorem delivered_once_in_race : ∃ s, (webhooks sampleConfig).Reaches (fun _ _ => True) (.start .empty) s ∧
    s.log.countP (fun ev => accepts "evt-1" ev.cmd ev.reply) = 1 ∧ s.log.length = 5 := by
  obtain ⟨s, hs, hfacts⟩ := Machine.exists_reaches (webhooks sampleConfig) (fun _ _ => True) (.start .empty) deliveries
    (fun s => ((s.db.records.find ("evt-1", webhookScope)).isSome, s.log.length)) (a := (true, 5)) (by decide +kernel)
  obtain ⟨hrecord, hlength⟩ := Prod.mk.inj hfacts
  exact ⟨s, hs, ((delivered_once hs).1 "evt-1" rfl).trans (if_pos hrecord), hlength⟩

end runs
end RedRoomRewards.WebhookReceiveService
