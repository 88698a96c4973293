import RedRoomRewards.Service.Auth

/-! What an accepted queue authorization says about the token that came with it. -/
namespace RedRoomRewards
open AuthService

section validator
variable {jwt : Jwt} {config : AuthService.Config} {now : Time}

/-- `signed` is what was signed for the token, if anything was, and `jwt.verify` returns
just that, until it expires. -/
structure AuthService.Jwt.Honours (jwt : Jwt) (config : AuthService.Config) (token : String)
    (signed : Option QueueAuthorizationPayload) : Prop where
  signs : ∀ payload, signed = some payload → jwt.sign payload config.jwtSecret config.algorithm = token
  verifies : ∀ now payload, jwt.verify token config.jwtSecret config.algorithm now = .ok payload ↔
    signed = some payload ∧ now / 1000 < payload.exp

/-- What a validator compares: the payload's kind, role and ids and the object's ids, with
what it expects. -/
structure AuthService.QueueAuthorizationPayload.Passes (payload : QueueAuthorizationPayload)
    (type queueItemId escrowId expectedQueueItemId expectedEscrowId : String) : Prop where
  type_eq : payload.type = type
  role_eq : payload.role = "queue_service"
  payload_queueItemId : payload.queueItemId = expectedQueueItemId
  payload_escrowId : payload.escrowId = expectedEscrowId
  queueItemId_eq : queueItemId = expectedQueueItemId
  escrowId_eq : escrowId = expectedEscrowId

private theorem refuses_if {p : Prop} [Decidable p] {e : Message} {rest : Except Message Unit} :
    (if p then .error e else rest) = .ok () ↔ ¬ p ∧ rest = .ok () := by
  by_cases hp : p
  · simp [hp]
  · simp [hp]

/-- A validator accepts what it can verify and what passes its comparisons. -/
theorem validateAuthorization_ok_iff {type token queueItemId escrowId expectedQueueItemId expectedEscrowId : String} :
    validateAuthorization jwt config now type token queueItemId escrowId expectedQueueItemId expectedEscrowId = .ok () ↔
      ∃ payload, jwt.verify token config.jwtSecret config.algorithm now = .ok payload ∧
        payload.Passes type queueItemId escrowId expectedQueueItemId expectedEscrowId := by
  unfold validateAuthorization verifyAuthorizationToken
  cases hverify : jwt.verify token config.jwtSecret config.algorithm now with
  | error e => cases e <;> simp [bind, Except.bind]
  | ok payload =>
    simp only [bind, Except.bind, refuses_if, not_not]
    constructor
    · rintro ⟨htype, hrole, hitem, hescrow, hitem', hescrow', -⟩
      exact ⟨payload, rfl, htype, hrole, hitem, hescrow, hitem', hescrow'⟩
    · rintro ⟨_, ⟨⟩, h⟩
      exact ⟨h.type_eq, h.role_eq, h.payload_queueItemId, h.payload_escrowId, h.queueItemId_eq, h.escrowId_eq, rfl⟩

/-- With a token library that honours the token, a validator accepts what was signed, has
not expired and passes. -/
theorem AuthService.Jwt.Honours.accepts_iff {token : String} {signed : Option QueueAuthorizationPayload}
    (h : jwt.Honours config token signed) {type queueItemId escrowId expectedQueueItemId expectedEscrowId : String} :
    validateAuthorization jwt config now type token queueItemId escrowId expectedQueueItemId expectedEscrowId = .ok () ↔
      ∃ payload, signed = some payload ∧ now / 1000 < payload.exp ∧
        payload.Passes type queueItemId escrowId expectedQueueItemId expectedEscrowId := by
  simp only [validateAuthorization_ok_iff, h.verifies, and_assoc]

end validator

section bound
variable {jwt : Jwt} {config : AuthService.Config} {now : Time}

/-- The fields of a settlement authorization that say who gets how much for what are
those of the payload. -/
def QueueSettlementAuthorization.Repeats (a : QueueSettlementAuthorization) (payload : QueueAuthorizationPayload) :
    Prop :=
  payload.queueItemId = a.queueItemId ∧ payload.escrowId = a.escrowId ∧ payload.modelId = some a.modelId ∧
    payload.amount = a.amount

def QueueRefundAuthorization.Repeats (a : QueueRefundAuthorization) (payload : QueueAuthorizationPayload) : Prop :=
  payload.queueItemId = a.queueItemId ∧ payload.escrowId = a.escrowId ∧ payload.userId = some a.userId ∧
    payload.amount = a.amount

def QueuePartialSettlementAuthorization.Repeats (a : QueuePartialSettlementAuthorization)
    (payload : QueueAuthorizationPayload) : Prop :=
  payload.queueItemId = a.queueItemId ∧ payload.escrowId = a.escrowId ∧ payload.userId = some a.userId ∧
    payload.modelId = some a.modelId ∧ payload.refundAmount = some a.refundAmount ∧
    payload.settleAmount = some a.settleAmount

/-- An accepted object repeats its payload if and only if the fields that are not compared do. -/
private theorem accepted_iff {token type queueItemId escrowId expectedQueueItemId expectedEscrowId : String}
    {signed : Option QueueAuthorizationPayload} (h : jwt.Honours config token signed)
    {rest : QueueAuthorizationPayload → Prop} :
    (validateAuthorization jwt config now type token queueItemId escrowId expectedQueueItemId expectedEscrowId =
        .ok () →
      ∃ payload, signed = some payload ∧ payload.queueItemId = queueItemId ∧ payload.escrowId = escrowId ∧
        rest payload) ↔
    ∀ payload, signed = some payload → now / 1000 < payload.exp →
      payload.Passes type queueItemId escrowId expectedQueueItemId expectedEscrowId → rest payload := by
  rw [h.accepts_iff]
  constructor
  · intro hrepeats payload hsigned hunexpired hpasses
    obtain ⟨payload', hsigned', -, -, hrest⟩ := hrepeats ⟨payload, hsigned, hunexpired, hpasses⟩
    obtain rfl := Option.some.inj (hsigned.symm.trans hsigned')
    exact hrest
  · rintro hrest ⟨payload, hsigned, hunexpired, hpasses⟩
    have hitem := hpasses.payload_queueItemId.trans hpasses.queueItemId_eq.symm
    have hescrow := hpasses.payload_escrowId.trans hpasses.escrowId_eq.symm
    exact ⟨payload, hsigned, hitem, hescrow, hrest payload hsigned hunexpired hpasses⟩

end bound

/-- Whatever the objects: an accepted authorization repeats what was signed for its token if
and only if the token was not signed, has expired or does not pass, or the parties and
amounts are the signed ones, which no validator compares. -/
theorem accepted_repeats_iff (jwt : Jwt) (config : AuthService.Config) (now : Time)
    (expectedQueueItemId expectedEscrowId : String) (signed : Option QueueAuthorizationPayload) :
    (∀ a : QueueSettlementAuthorization, jwt.Honours config a.token signed →
      ((validateSettlementAuthorization jwt config now a expectedQueueItemId expectedEscrowId = .ok () →
          ∃ payload, signed = some payload ∧ a.Repeats payload) ↔
        ∀ payload, signed = some payload → now / 1000 < payload.exp →
          payload.Passes "queue_settlement" a.queueItemId a.escrowId expectedQueueItemId expectedEscrowId →
          payload.modelId = some a.modelId ∧ payload.amount = a.amount)) ∧
    (∀ a : QueueRefundAuthorization, jwt.Honours config a.token signed →
      ((validateRefundAuthorization jwt config now a expectedQueueItemId expectedEscrowId = .ok () →
          ∃ payload, signed = some payload ∧ a.Repeats payload) ↔
        ∀ payload, signed = some payload → now / 1000 < payload.exp →
          payload.Passes "queue_refund" a.queueItemId a.escrowId expectedQueueItemId expectedEscrowId →
          payload.userId = some a.userId ∧ payload.amount = a.amount)) ∧
    ∀ a : QueuePartialSettlementAuthorization, jwt.Honours config a.token signed →
      ((validatePartialSettlementAuthorization jwt config now a expectedQueueItemId expectedEscrowId = .ok () →
          ∃ payload, signed = some payload ∧ a.Repeats payload) ↔
        ∀ payload, signed = some payload → now / 1000 < payload.exp →
          payload.Passes "queue_partial_settlement" a.queueItemId a.escrowId expectedQueueItemId expectedEscrowId →
          payload.userId = some a.userId ∧ payload.modelId = some a.modelId ∧
            payload.refundAmount = some a.refundAmount ∧ payload.settleAmount = some a.settleAmount) :=
  ⟨fun _ h => accepted_iff h, fun _ h => accepted_iff h, fun _ h => accepted_iff h⟩

section tampered

private def fiveMinutes : AuthService.Config := ⟨"secret", 300, .hs256⟩

private def noon : Time := 1700000000000

/-- What is signed for a settlement of 5 points to `model-1`. -/
private def settlementPayload : QueueAuthorizationPayload :=
  queuePayload fiveMinutes noon "queue_settlement" "queue-1" "escrow-1" none (some "model-1") 5 none none
    .performanceCompleted

private def settlementToken : String :=
  "eyJhbGciOiJIUzI1NiIsInR5cCI6IkpXVCJ9." ++
  "eyJzdWIiOiJxdWV1ZV9zZXJ2aWNlIiwicm9sZSI6InF1ZXVlX3NlcnZpY2UiLCJpYXQiOjE3MDAwMDAwMDAsImV4cCI6MTcwMDAwMDMwMCwi" ++
  "dHlwZSI6InF1ZXVlX3NldHRsZW1lbnQiLCJxdWV1ZUl0ZW1JZCI6InF1ZXVlLTEiLCJlc2Nyb3dJZCI6ImVzY3Jvdy0xIiwibW9kZWxJZCI6" ++
  "Im1vZGVsLTEiLCJhbW91bnQiOjUsInJlYXNvbiI6InBlcmZvcm1hbmNlX2NvbXBsZXRlZCJ9." ++
  "Hf6sRQTmyn_IhBaA8s_GSadyVixkILHr-W-Kjwe5yp4"

/-- `jsonwebtoken` where one token has been signed. -/
private def settlementJwt : Jwt where
  sign := fun _ _ _ => settlementToken
  verify := fun token _ _ now =>
    if token ≠ settlementToken then .error .jsonWebToken
    else if now / 1000 < settlementPayload.exp then .ok settlementPayload
    else .error .tokenExpired

private theorem settlementJwt_honours :
    settlementJwt.Honours fiveMinutes settlementToken (some settlementPayload) := by
  constructor
  · intro payload _
    rfl
  · intro now payload
    by_cases hexpired : now / 1000 < settlementPayload.exp
    · simp only [settlementJwt, ne_eq, not_true_eq_false, if_false, hexpired, if_true]
      constructor
      · rintro ⟨⟩
        exact ⟨rfl, hexpired⟩
      · rintro ⟨⟨⟩, -⟩
        rfl
    · simp only [settlementJwt, ne_eq, not_true_eq_false, if_false, hexpired]
      constructor
      · rintro ⟨⟩
      · rintro ⟨⟨⟩, hunexpired⟩
        exact absurd hunexpired hexpired

/-- The authorization that comes with the token, for the amount that is written in. -/
private def settlementOf (amount : ℚ) : QueueSettlementAuthorization :=
  { generateSettlementAuthorization settlementJwt fiveMinutes noon "queue-1" "escrow-1" "model-1" 5
      .performanceCompleted with amount }

theorem accepted_repeats_iff_own_amount :
    validateSettlementAuthorization settlementJwt fiveMinutes noon (settlementOf 5) "queue-1" "escrow-1" = .ok () →
      ∃ payload, some settlementPayload = some payload ∧ (settlementOf 5).Repeats payload := by
  refine ((accepted_repeats_iff settlementJwt fiveMinutes noon "queue-1" "escrow-1" (some settlementPayload)).1
    (settlementOf 5) settlementJwt_honours).mpr ?_
  rintro _ ⟨⟩ - -
  exact ⟨rfl, rfl⟩

/-- The token was signed for 5 points; the object that carries it says 5000. -/
theorem accepted_other_amount :
    settlementJwt.Honours fiveMinutes (settlementOf 5000).token (some settlementPayload) ∧
    ¬ (validateSettlementAuthorization settlementJwt fiveMinutes noon (settlementOf 5000) "queue-1" "escrow-1" =
        .ok () →
      ∃ payload, some settlementPayload = some payload ∧ (settlementOf 5000).Repeats payload) := by
  refine ⟨settlementJwt_honours, fun hclaim => ?_⟩
  obtain ⟨_, ⟨⟩, -, -, -, hamount⟩ := hclaim (by decide +kernel)
  exact absurd hamount (by decide)

end tampered
section kinds

/-- An authorization object of one of the three kinds. -/
inductive QueueAuthorization where
  | settlement (a : QueueSettlementAuthorization)
  | refund (a : QueueRefundAuthorization)
  | partialSettlement (a : QueuePartialSettlementAuthorization)

inductive QueueAuthorizationKind where
  | settlement
  | refund
  | partialSettlement

/-- The `type` of a kind's tokens. -/
def QueueAuthorizationKind.type : QueueAuthorizationKind → String
  | settlement => "queue_settlement"
  | refund => "queue_refund"
  | partialSettlement => "queue_partial_settlement"

theorem QueueAuthorizationKind.type_inj {kind kind' : QueueAuthorizationKind} :
    kind.type = kind'.type ↔ kind = kind' := by
  cases kind <;> cases kind' <;> simp [type]

namespace QueueAuthorization

def kind : QueueAuthorization → QueueAuthorizationKind
  | settlement _ => .settlement
  | refund _ => .refund
  | partialSettlement _ => .partialSettlement

def token : QueueAuthorization → String
  | settlement a => a.token
  | refund a => a.token
  | partialSettlement a => a.token

def queueItemId : QueueAuthorization → String
  | settlement a => a.queueItemId
  | refund a => a.queueItemId
  | partialSettlement a => a.queueItemId

def escrowId : QueueAuthorization → String
  | settlement a => a.escrowId
  | refund a => a.escrowId
  | partialSettlement a => a.escrowId

/-- The validator for objects of this kind. -/
def validate (jwt : Jwt) (config : AuthService.Config) (now : Time)
    (expectedQueueItemId expectedEscrowId : String) : QueueAuthorization → Except Message Unit
  | settlement a => validateSettlementAuthorization jwt config now a expectedQueueItemId expectedEscrowId
  | refund a => validateRefundAuthorization jwt config now a expectedQueueItemId expectedEscrowId
  | partialSettlement a => validatePartialSettlementAuthorization jwt config now a expectedQueueItemId expectedEscrowId

/-- One object is the other as its validator sees it: the token and the ids are the same. -/
def Shows (shown generated : QueueAuthorization) : Prop :=
  shown.token = generated.token ∧ shown.queueItemId = generated.queueItemId ∧ shown.escrowId = generated.escrowId

theorem validate_eq (jwt : Jwt) (config : AuthService.Config) (now : Time)
    (expectedQueueItemId expectedEscrowId : String) (a : QueueAuthorization) :
    a.validate jwt config now expectedQueueItemId expectedEscrowId =
      validateAuthorization jwt config now a.kind.type a.token a.queueItemId a.escrowId expectedQueueItemId
        expectedEscrowId := by
  cases a <;> rfl

end QueueAuthorization

/-- What a generator is given besides the ids and the reason. -/
inductive QueueGeneration where
  | settlement (modelId : String) (amount : ℚ)
  | refund (userId : String) (amount : ℚ)
  | partialSettlement (userId modelId : String) (refundAmount settleAmount : ℚ)

namespace QueueGeneration

def kind : QueueGeneration → QueueAuthorizationKind
  | settlement .. => .settlement
  | refund .. => .refund
  | partialSettlement .. => .partialSettlement

/-- The authorization that the generator of the kind returns. -/
def authorization (jwt : Jwt) (config : AuthService.Config) (issuedAt : Time) (queueItemId escrowId : String)
    (reason : TransactionReason) : QueueGeneration → QueueAuthorization
  | settlement modelId amount =>
    .settlement (generateSettlementAuthorization jwt config issuedAt queueItemId escrowId modelId amount reason)
  | refund userId amount =>
    .refund (generateRefundAuthorization jwt config issuedAt queueItemId escrowId userId amount reason)
  | partialSettlement userId modelId refundAmount settleAmount =>
    .partialSettlement (generatePartialSettlementAuthorization jwt config issuedAt queueItemId escrowId userId
      modelId refundAmount settleAmount reason)

/-- The payload that it signs. -/
def payload (config : AuthService.Config) (issuedAt : Time) (queueItemId escrowId : String)
    (reason : TransactionReason) : QueueGeneration → QueueAuthorizationPayload
  | settlement modelId amount =>
    queuePayload config issuedAt "queue_settlement" queueItemId escrowId none modelId amount none none reason
  | refund userId amount =>
    queuePayload config issuedAt "queue_refund" queueItemId escrowId userId none amount none none reason
  | partialSettlement userId modelId refundAmount settleAmount =>
    queuePayload config issuedAt "queue_partial_settlement" queueItemId escrowId userId modelId
      (refundAmount + settleAmount) refundAmount settleAmount reason

variable {jwt : Jwt} {config : AuthService.Config} {issuedAt : Time} {queueItemId escrowId : String}
variable {reason : TransactionReason} (g : QueueGeneration)

theorem authorization_token : (g.authorization jwt config issuedAt queueItemId escrowId reason).token =
    jwt.sign (g.payload config issuedAt queueItemId escrowId reason) config.jwtSecret config.algorithm := by
  cases g <;> rfl

theorem authorization_queueItemId :
    (g.authorization jwt config issuedAt queueItemId escrowId reason).queueItemId = queueItemId := by
  cases g <;> rfl

theorem authorization_escrowId :
    (g.authorization jwt config issuedAt queueItemId escrowId reason).escrowId = escrowId := by
  cases g <;> rfl

/-- What each kind signs passes for that kind and those ids and for no other. -/
theorem payload_passes_iff {kind : QueueAuthorizationKind} {expectedQueueItemId expectedEscrowId : String} :
    (g.payload config issuedAt queueItemId escrowId reason).Passes kind.type queueItemId escrowId
        expectedQueueItemId expectedEscrowId ↔
      kind = g.kind ∧ expectedQueueItemId = queueItemId ∧ expectedEscrowId = escrowId := by
  have htype : (g.payload config issuedAt queueItemId escrowId reason).type = g.kind.type := by cases g <;> rfl
  have hrole : (g.payload config issuedAt queueItemId escrowId reason).role = "queue_service" := by cases g <;> rfl
  have hitem : (g.payload config issuedAt queueItemId escrowId reason).queueItemId = queueItemId := by cases g <;> rfl
  have hescrow : (g.payload config issuedAt queueItemId escrowId reason).escrowId = escrowId := by cases g <;> rfl
  constructor
  · intro h
    have hkind := QueueAuthorizationKind.type_inj.mp (htype.symm.trans h.type_eq)
    exact ⟨hkind.symm, h.queueItemId_eq.symm, h.escrowId_eq.symm⟩
  · rintro ⟨rfl, rfl, rfl⟩
    exact ⟨htype, hrole, hitem, hescrow, rfl, rfl⟩

theorem payload_exp :
    (g.payload config issuedAt queueItemId escrowId reason).exp = expiry config issuedAt / 1000 := by
  cases g <;> rfl

end QueueGeneration

/-- Each validator accepts what a generator made if and only if it is the validator of that
kind, it expects the ids that the generator was given, and the token has not expired. -/
theorem generated_accepted_iff (jwt : Jwt) (config : AuthService.Config) (g : QueueGeneration)
    (queueItemId escrowId : String) (reason : TransactionReason) (issuedAt now : Time)
    (expectedQueueItemId expectedEscrowId : String) (shown : QueueAuthorization)
    (hjwt : jwt.Honours config
      (jwt.sign (g.payload config issuedAt queueItemId escrowId reason) config.jwtSecret config.algorithm)
      (some (g.payload config issuedAt queueItemId escrowId reason)))
    (hshown : shown.Shows (g.authorization jwt config issuedAt queueItemId escrowId reason)) :
    shown.validate jwt config now expectedQueueItemId expectedEscrowId = .ok () ↔
      shown.kind = g.kind ∧ expectedQueueItemId = queueItemId ∧ expectedEscrowId = escrowId ∧
        now / 1000 < expiry config issuedAt / 1000 := by
  obtain ⟨htoken, hitem, hescrow⟩ := hshown
  rw [shown.validate_eq, htoken, hitem, hescrow, g.authorization_token, g.authorization_queueItemId,
    g.authorization_escrowId, hjwt.accepts_iff]
  constructor
  · rintro ⟨_, ⟨⟩, hunexpired, hpasses⟩
    obtain ⟨hkind, hitem', hescrow'⟩ := g.payload_passes_iff.mp hpasses
    exact ⟨hkind, hitem', hescrow', by rwa [g.payload_exp] at hunexpired⟩
  · rintro ⟨hkind, hitem', hescrow', hunexpired⟩
    refine ⟨_, rfl, ?_, g.payload_passes_iff.mpr ⟨hkind, hitem', hescrow'⟩⟩
    rwa [g.payload_exp]

/-- The token for `model-1` settles its item until five minutes are over, and refunds nothing. -/
theorem generated_accepted_iff_five_minutes :
    (QueueAuthorization.settlement (settlementOf 5)).validate settlementJwt fiveMinutes (noon + 299999) "queue-1"
        "escrow-1" = .ok () ∧
    (QueueAuthorization.settlement (settlementOf 5)).validate settlementJwt fiveMinutes (noon + 300000) "queue-1"
        "escrow-1" ≠ .ok () ∧
    (QueueAuthorization.refund ⟨"queue-1", settlementToken, "escrow-1", "user-1", 5, .adminRefund, noon, noon⟩).validate
        settlementJwt fiveMinutes noon "queue-1" "escrow-1" ≠ .ok () := by
  have haccepted := fun now shown => generated_accepted_iff settlementJwt fiveMinutes (.settlement "model-1" 5)
    "queue-1" "escrow-1" .performanceCompleted noon now "queue-1" "escrow-1" shown settlementJwt_honours
  have hsettlement : (QueueAuthorization.settlement (settlementOf 5)).Shows
      ((QueueGeneration.settlement "model-1" 5).authorization settlementJwt fiveMinutes noon "queue-1" "escrow-1"
        .performanceCompleted) := ⟨rfl, rfl, rfl⟩
  have hrefund : (QueueAuthorization.refund ⟨"queue-1", settlementToken, "escrow-1", "user-1", 5, .adminRefund, noon,
      noon⟩).Shows ((QueueGeneration.settlement "model-1" 5).authorization settlementJwt fiveMinutes noon "queue-1"
        "escrow-1" .performanceCompleted) := ⟨rfl, rfl, rfl⟩
  have hunexpired : (noon + 299999) / 1000 < expiry fiveMinutes noon / 1000 := by decide
  have hexpired : ¬ (noon + 300000) / 1000 < expiry fiveMinutes noon / 1000 := by decide
  refine ⟨(haccepted _ _ hsettlement).mpr ⟨rfl, rfl, rfl, hunexpired⟩, fun h => ?_, fun h => ?_⟩
  · exact hexpired ((haccepted _ _ hsettlement).mp h).2.2.2
  · cases ((haccepted _ _ hrefund).mp h).1

end kinds
end RedRoomRewards
