import RedRoomRewards.Text.Hex
import RedRoomRewards.Service.Types
import Mathlib.Algebra.Order.Ring.Rat

/-! The balance range circuit, which simulates a zero-knowledge proof by a keyed hash, and the
service around it with its audit log. -/
namespace RedRoomRewards.ZkOracle
open Text

section numbers

/-- A number of the language. -/
inductive Number where
  | nan
  | finite (n : ℚ)
  | infinity
  | minusInfinity
  deriving DecidableEq

instance (n : ℕ) : OfNat Number n := ⟨.finite n⟩

namespace Number

/-- `x < y`: comparisons with `NaN` are false. -/
def less : Number → Number → Bool
  | finite x, finite y => x < y
  | finite _, infinity | minusInfinity, finite _ | minusInfinity, infinity => true
  | _, _ => false

/-- `x === y`: `NaN` is not equal to itself. -/
def same (x y : Number) : Bool := x ≠ nan && x = y

/-- What a template literal prints of a number. -/
def fragment : Number → Fragment
  | nan => "NaN"
  | finite n => n
  | infinity => "Infinity"
  | minusInfinity => "-Infinity"

/-- The balance is at least the threshold. -/
def Reaches (balance threshold : Number) : Prop := balance ≠ nan ∧ threshold ≠ nan ∧ balance.less threshold = false

instance (balance threshold : Number) : Decidable (Reaches balance threshold) := inferInstanceAs (Decidable (_ ∧ _ ∧ _))

theorem less_of_less {x y z : Number} (hy : y ≠ nan) (h : x.less z = true) : x.less y = true ∨ y.less z = true := by
  have hfinite : ∀ n m k : ℚ, (finite n).less (finite k) = true →
      (finite n).less (finite m) = true ∨ (finite m).less (finite k) = true := by
    intro n m k hless
    rcases lt_or_ge n m with hlow | hhigh
    · exact .inl (decide_eq_true hlow)
    · exact .inr (decide_eq_true (hhigh.trans_lt (of_decide_eq_true hless)))
  cases x <;> cases y <;> cases z <;> first | exact hfinite _ _ _ h | contradiction | exact .inl rfl | exact .inr rfl

end Number
end numbers

/-- What the circuit takes from the platform: the hash and the keyed hash, the encoding of
texts, and numbers as texts. -/
structure Platform where
  sha256 : List UInt8 → List UInt8
  hmac : List UInt8 → List UInt8 → List UInt8
  utf8 : List CodeUnit → List UInt8
  print : Number → List CodeUnit
  number : List CodeUnit → Number

section types

inductive ZkCircuitId where
  | balanceRange
  | tierMembership
  | wgsPassGate
  deriving DecidableEq

def ZkCircuitId.code : ZkCircuitId → String
  | balanceRange => "balance_range_v1"
  | tierMembership => "tier_membership_v1"
  | wgsPassGate => "wgs_pass_gate_v1"

inductive ZkAlgorithm where
  | sha256
  | poseidon
  deriving DecidableEq

structure ZkCommitment where
  value : List CodeUnit
  nonce : List CodeUnit
  algorithm : ZkAlgorithm

structure ZkRangeProof where
  commitment : ZkCommitment
  threshold : Number
  proof : List CodeUnit
  circuitId : ZkCircuitId
  proofId : String
  generatedAt : Time

structure ZkVerifyResult where
  valid : Bool
  circuitId : ZkCircuitId
  claimedThreshold : Number
  verifiedAt : Time
  error : Option Message

structure ZkProofAuditRecord where
  proofId : String
  circuitId : ZkCircuitId
  threshold : Number
  commitment : List CodeUnit
  generatedAt : Time
  correlationId : Option String

end types

section circuit

def colon : CodeUnit := 58

/-- A text without characters outside ASCII. -/
def units (s : String) : List CodeUnit := s.toList.map fun c => .ofNat c.toNat

def circuitId : ZkCircuitId := .balanceRange

def circuitVersion : String := "1"

variable (p : Platform)

def generateCommitment (value : Number) (random : List UInt8) : ZkCommitment :=
  let nonce := hex random
  ⟨hex (p.sha256 (p.utf8 (p.print value) ++ fromHex nonce)), nonce, .sha256⟩

/-- The key of the attestation, which the published commitment determines. -/
def hmacKey (commitment : ZkCommitment) : List UInt8 := p.sha256 (fromHex commitment.value ++ fromHex commitment.nonce)

def message (threshold : Number) : List CodeUnit :=
  units circuitId.code ++ colon :: units circuitVersion ++ colon :: p.print threshold

/-- The keyed hash that prover and verifier both compute. -/
def attestation (commitment : ZkCommitment) (threshold : Number) : List CodeUnit :=
  hex (p.hmac (hmacKey p commitment) (p.utf8 (message p threshold)))

def generateRangeAttestation (commitment : ZkCommitment) (privateValue threshold : Number) :
    Except ServiceError (List CodeUnit) :=
  if privateValue.less threshold then
    .error (.error ["ZK circuit constraint violated: value (", privateValue.fragment, ") < threshold (",
      threshold.fragment, ")"])
  else if privateValue.less 0 then .error (.error ["ZK circuit constraint violated: value must be non-negative"])
  else .ok (attestation p commitment threshold ++ colon :: p.print threshold)

/-- The loop that compares two texts of one length without stopping at a difference. -/
def mismatch (expected mac : List CodeUnit) : CodeUnit :=
  (expected.zip mac).foldl (fun mismatch x => mismatch ||| (x.1 ^^^ x.2)) 0

def verifyRangeAttestation (commitment : ZkCommitment) (proof : List CodeUnit) (threshold : Number) : Bool :=
  match proof.splitOn colon with
  | mac :: proofThreshold :: _ =>
    if mac = [] then false
    else if (p.number proofThreshold).same threshold = false then false
    else
      let expected := attestation p commitment threshold
      if expected.length ≠ mac.length then false else mismatch expected mac = 0
  | _ => false

def proveBalanceRange (privateBalance threshold : Number) (proofId : String) (random : List UInt8) (now : Time) :
    Except ServiceError ZkRangeProof := do
  let commitment := generateCommitment p privateBalance random
  let proof ← generateRangeAttestation p commitment privateBalance threshold
  pure ⟨commitment, threshold, proof, circuitId, proofId, now⟩

def verifyBalanceRange (rangeProof : ZkRangeProof) (now : Time) : ZkVerifyResult :=
  if rangeProof.circuitId ≠ circuitId then
    ⟨false, rangeProof.circuitId, rangeProof.threshold, now,
      some ["Circuit mismatch: expected ", circuitId.code, ", got ", rangeProof.circuitId.code]⟩
  else if verifyRangeAttestation p rangeProof.commitment rangeProof.proof rangeProof.threshold = false then
    ⟨false, rangeProof.circuitId, rangeProof.threshold, now, some ["Proof verification failed"]⟩
  else ⟨true, rangeProof.circuitId, rangeProof.threshold, now, none⟩

end circuit

section service

/-- What a call of the service takes from its surroundings. -/
structure Fresh where
  proofId : String
  random : List UInt8
  now : Time

inductive Request where
  | generateBalanceProof (privateBalance threshold : Number) (correlationId : Option String)
  | verifyBalanceProof (rangeProof : ZkRangeProof)
  | getAuditRecords (proofId : Option String)

inductive Answer where
  | proof (result : Except ServiceError ZkRangeProof)
  | verified (result : ZkVerifyResult)
  | records (records : List ZkProofAuditRecord)

/-- The record of a proof; an empty correlation id is left out. -/
def ZkRangeProof.audit (rangeProof : ZkRangeProof) (correlationId : Option String) : ZkProofAuditRecord where
  proofId := rangeProof.proofId
  circuitId := ZkOracle.circuitId
  threshold := rangeProof.threshold
  commitment := rangeProof.commitment.value
  generatedAt := rangeProof.generatedAt
  correlationId := correlationId.filter (· ≠ "")

variable (p : Platform)

def generateBalanceProof (fresh : Fresh) (auditLog : List ZkProofAuditRecord) (privateBalance threshold : Number)
    (correlationId : Option String) : Except ServiceError ZkRangeProof × List ZkProofAuditRecord :=
  if threshold.less 0 then (.error (.error ["Threshold must be non-negative"]), auditLog)
  else match proveBalanceRange p privateBalance threshold fresh.proofId fresh.random fresh.now with
    | .error e => (.error e, auditLog)
    | .ok rangeProof => (.ok rangeProof, auditLog ++ [rangeProof.audit correlationId])

/-- An empty id asks for all records. -/
def getAuditRecords (auditLog : List ZkProofAuditRecord) (proofId : Option String) : List ZkProofAuditRecord :=
  match proofId.filter (· ≠ "") with
  | some proofId => auditLog.filter (·.proofId = proofId)
  | none => auditLog

/-- One call of the service; nothing that the verification calls throws. -/
def handle (fresh : Fresh) (auditLog : List ZkProofAuditRecord) : Request → Answer × List ZkProofAuditRecord
  | .generateBalanceProof privateBalance threshold correlationId =>
    let (result, auditLog) := generateBalanceProof p fresh auditLog privateBalance threshold correlationId
    (.proof result, auditLog)
  | .verifyBalanceProof rangeProof => (.verified (verifyBalanceRange p rangeProof fresh.now), auditLog)
  | .getAuditRecords proofId => (.records (getAuditRecords auditLog proofId), auditLog)

/-- The calls of a run, each with its answer, and the log after them. -/
def serve : List (Fresh × Request) → List ZkProofAuditRecord → List (Request × Answer) × List ZkProofAuditRecord
  | [], auditLog => ([], auditLog)
  | (fresh, request) :: calls, auditLog =>
    let (answer, auditLog) := handle p fresh auditLog request
    let (rest, auditLog) := serve calls auditLog
    ((request, answer) :: rest, auditLog)

end service
end RedRoomRewards.ZkOracle
