import RedRoomRewards.Service.ZkOracle
import RedRoomRewards.Text.Joined

/-! What a range proof shows: a proof that the service has made is accepted for its own
threshold and commitment and, but for a collision of the keyed hash, for no others; yet
whoever has a commitment can make a proof for any threshold. -/
namespace RedRoomRewards.ZkOracle
open Text

section comparison
variable {xs ys : List CodeUnit}

private theorem accumulated (pairs : List (CodeUnit × CodeUnit)) : ∀ start : CodeUnit,
    pairs.foldl (fun mismatch x => mismatch ||| (x.1 ^^^ x.2)) start = 0 ↔ start = 0 ∧ ∀ x ∈ pairs, x.1 = x.2 := by
  induction pairs with
  | nil => simp
  | cons x pairs ih =>
    intro start
    rw [List.foldl_cons, ih, UInt16.or_eq_zero_iff, UInt16.xor_eq_zero_iff, List.forall_mem_cons, and_assoc]

private theorem pairs_eq_iff (h : xs.length = ys.length) : (∀ x ∈ xs.zip ys, x.1 = x.2) ↔ xs = ys := by
  induction xs generalizing ys with
  | nil =>
    cases ys with
    | nil => simp
    | cons y ys => cases h
  | cons x xs ih =>
    cases ys with
    | nil => cases h
    | cons y ys => rw [List.zip_cons_cons, List.forall_mem_cons, List.cons.injEq, ih (Nat.succ.inj h)]

/-- The comparison that does not stop early finds no difference exactly in equal texts. -/
theorem mismatch_eq_zero_iff (h : xs.length = ys.length) : mismatch xs ys = 0 ↔ xs = ys := by
  rw [mismatch, accumulated, pairs_eq_iff h, eq_self_iff_true, true_and]

end comparison

section numbers
variable {x y : Number}

theorem Number.eq_of_same (h : x.same y = true) : x = y := by simp_all [Number.same]

theorem Number.ne_nan_of_same (h : x.same y = true) : y ≠ .nan := by
  rintro rfl
  simp_all [Number.same]

end numbers

section acceptance
variable {p : Platform} {commitment : ZkCommitment} {proof : List CodeUnit} {threshold : Number}

/-- The number is one that is equal to itself, and is printed as a text that reads back as the
number and has no colon. -/
def Platform.Prints (p : Platform) (n : Number) : Prop := (p.number (p.print n)).same n = true ∧ colon ∉ p.print n

theorem Platform.Prints.ne_nan (h : p.Prints threshold) : threshold ≠ .nan := Number.ne_nan_of_same h.1

/-- The text is the keyed hash that the commitment gives for the threshold, then the
threshold, and perhaps more after another colon. -/
def Attests (p : Platform) (commitment : ZkCommitment) (threshold : Number) (proof : List CodeUnit) : Prop :=
  ∃ field rest, proof = attestation p commitment threshold ++ colon :: (field ++ rest) ∧ colon ∉ field ∧
    (p.number field).same threshold = true ∧ (rest = [] ∨ ∃ more, rest = colon :: more)

private theorem colon_not_mem_hex (bytes : List UInt8) : colon ∉ hex bytes := by
  intro h
  obtain ⟨n, hn, heq⟩ := mem_hex h
  have hvalue := congrArg UInt16.toNat heq
  rw [hexDigit_toNat hn] at hvalue
  have hcolon : colon.toNat = 58 := rfl
  split at hvalue <;> omega

private theorem hex_ne_nil {bytes : List UInt8} (h : bytes ≠ []) : hex bytes ≠ [] := by
  intro hnil
  exact h (hex_injective hnil)

/-- The first two pieces of an attesting text. -/
private theorem splitOn_attests (mac l : List CodeUnit) (P : List CodeUnit → Prop) (hmac : colon ∉ mac) :
    (∃ field more, l.splitOn colon = mac :: field :: more ∧ P field) ↔
      ∃ field rest, l = mac ++ colon :: (field ++ rest) ∧ colon ∉ field ∧ P field ∧
        (rest = [] ∨ ∃ more, rest = colon :: more) := by
  have hpiece : ∀ after : List CodeUnit, (∃ field more, after.splitOn colon = field :: more ∧ P field) ↔
      ∃ field rest, after = field ++ rest ∧ colon ∉ field ∧ P field ∧ (rest = [] ∨ ∃ more, rest = colon :: more) := by
    intro after
    constructor
    · rintro ⟨field, more, hsplit, hP⟩
      rcases splitOn_cases colon after with ⟨hcolon, hwhole⟩ | ⟨first, rest, hcolon, rfl, hfirst⟩
      · obtain ⟨rfl, -⟩ := List.cons.inj (hwhole.symm.trans hsplit)
        exact ⟨after, [], (List.append_nil _).symm, hcolon, hP, .inl rfl⟩
      · obtain ⟨rfl, -⟩ := List.cons.inj (hfirst.symm.trans hsplit)
        exact ⟨first, colon :: rest, rfl, hcolon, hP, .inr ⟨rest, rfl⟩⟩
    · rintro ⟨field, rest, rfl, hcolon, hP, rfl | ⟨more, rfl⟩⟩
      · rw [List.append_nil]
        exact ⟨field, [], List.splitOn_eq_singleton hcolon, hP⟩
      · rw [List.splitOn_append_cons_self, List.splitOn_eq_singleton hcolon]
        exact ⟨field, _, rfl, hP⟩
  constructor
  · rintro ⟨field, more, hsplit, hP⟩
    rcases splitOn_cases colon l with ⟨-, hwhole⟩ | ⟨first, after, -, rfl, hfirst⟩
    · cases hwhole.symm.trans hsplit
    · obtain ⟨rfl, hafter⟩ := List.cons.inj (hfirst.symm.trans hsplit)
      obtain ⟨field', rest, rfl, hrest⟩ := (hpiece after).mp ⟨field, more, hafter, hP⟩
      exact ⟨field', rest, rfl, hrest⟩
  · rintro ⟨field, rest, rfl, hrest⟩
    obtain ⟨field', more, hsplit, hP⟩ := (hpiece (field ++ rest)).mpr ⟨field, rest, rfl, hrest⟩
    refine ⟨field', more, ?_, hP⟩
    rw [List.splitOn_append_cons_self, List.splitOn_eq_singleton hmac, hsplit, List.singleton_append]

theorem verifyRangeAttestation_iff (hmac : ∀ key message, p.hmac key message ≠ []) :
    verifyRangeAttestation p commitment proof threshold = true ↔ Attests p commitment threshold proof := by
  have hne : attestation p commitment threshold ≠ [] := hex_ne_nil (hmac _ _)
  rw [Attests, ← splitOn_attests (attestation p commitment threshold) proof (fun field => (p.number field).same threshold = true) (colon_not_mem_hex _)]
  unfold verifyRangeAttestation
  constructor
  · intro hverified
    split at hverified
    · rename_i mac field more hsplit
      split at hverified
      · cases hverified
      · split at hverified
        · cases hverified
        · rename_i hnumber
          dsimp only at hverified
          split at hverified
          · cases hverified
          · rename_i hlength
            have heq := (mismatch_eq_zero_iff (not_not.mp hlength)).mp (of_decide_eq_true hverified)
            exact ⟨field, more, heq ▸ hsplit, by simpa using hnumber⟩
    · cases hverified
  · rintro ⟨field, more, hsplit, hnumber⟩
    rw [hsplit]
    dsimp only
    rw [if_neg hne, if_neg (by simp [hnumber]), if_neg (not_not.mpr rfl)]
    exact decide_eq_true ((mismatch_eq_zero_iff rfl).mpr rfl)

private theorem valid_iff (hmac : ∀ key message, p.hmac key message ≠ []) (rangeProof : ZkRangeProof) (now : Time) :
    (verifyBalanceRange p rangeProof now).valid = true ↔ rangeProof.circuitId = circuitId ∧
      Attests p rangeProof.commitment rangeProof.threshold rangeProof.proof := by
  rw [← verifyRangeAttestation_iff hmac]
  unfold verifyBalanceRange
  split
  · simp_all
  · split
    · simp_all
    · simp_all

private theorem attests_own {p : Platform} {threshold : Number} (hprint : p.Prints threshold) (commitment : ZkCommitment) :
    Attests p commitment threshold (attestation p commitment threshold ++ colon :: p.print threshold) :=
  ⟨p.print threshold, [], by rw [List.append_nil], hprint.2, hprint.1, .inl rfl⟩

/-- Where the first mark stands is the same in both readings of a text. -/
private theorem first_mark {mac mac' field rest : List CodeUnit} (hmac : colon ∉ mac) (hmac' : colon ∉ mac')
    (h : mac ++ colon :: field = mac' ++ colon :: rest) : mac = mac' ∧ field = rest := by
  have hsplit := congrArg (List.splitOn colon) h
  rw [List.splitOn_append_cons_self, List.splitOn_append_cons_self, List.splitOn_eq_singleton hmac,
    List.splitOn_eq_singleton hmac'] at hsplit
  obtain ⟨rfl, -⟩ := List.cons.inj hsplit
  exact ⟨rfl, (List.cons.inj (List.append_cancel_left h)).2⟩

/-- The text that is made for one threshold attests no other one. -/
private theorem attests_iff {commitment' : ZkCommitment} {threshold' : Number} (hprint : p.Prints threshold) :
    Attests p commitment' threshold' (attestation p commitment threshold ++ colon :: p.print threshold) ↔
      threshold' = threshold ∧ attestation p commitment' threshold = attestation p commitment threshold := by
  constructor
  · rintro ⟨field, rest, heq, -, hnumber, hrest⟩
    obtain ⟨hmac, hfield⟩ := first_mark (colon_not_mem_hex _) (colon_not_mem_hex _) heq
    rcases hrest with rfl | ⟨more, rfl⟩
    · rw [List.append_nil] at hfield
      rw [← hfield] at hnumber
      obtain rfl : threshold' = threshold :=
        (Number.eq_of_same hnumber).symm.trans (Number.eq_of_same hprint.1)
      exact ⟨rfl, hmac.symm⟩
    · exact absurd (hfield ▸ List.mem_append_right field List.mem_cons_self) hprint.2
  · rintro ⟨rfl, heq⟩
    rw [← heq]
    exact attests_own hprint commitment'

end acceptance

section proofs
variable {p : Platform} {balance threshold : Number} {proofId : String} {random : List UInt8} {now : Time}
  {rangeProof : ZkRangeProof}

private theorem proved_iff : proveBalanceRange p balance threshold proofId random now = .ok rangeProof ↔
    balance.less threshold = false ∧ balance.less 0 = false ∧
      rangeProof = ⟨generateCommitment p balance random, threshold,
        attestation p (generateCommitment p balance random) threshold ++ colon :: p.print threshold, circuitId,
        proofId, now⟩ := by
  unfold proveBalanceRange generateRangeAttestation
  cases hbelow : balance.less threshold with
  | true => simp [bind, Except.bind]
  | false =>
    cases hnegative : balance.less 0 with
    | true => simp [bind, Except.bind]
    | false => simp [bind, Except.bind, pure, Except.pure, eq_comm]

/-- The keyed hash of a commitment is computed from the balance and the nonce. -/
private theorem hmacKey_commitment (p : Platform) (balance : Number) (random : List UInt8) :
    hmacKey p (generateCommitment p balance random) =
      p.sha256 (p.sha256 (p.utf8 (p.print balance) ++ random) ++ random) := by
  simp [hmacKey, generateCommitment, fromHex_hex]

/-- A proof is made for a balance that reaches the threshold, or is `NaN`, and is accepted; put to
another threshold it is refused, and put to another commitment it is accepted only where the
keyed hash of the threshold collides. -/
theorem range_proof_binds (hmac : ∀ key message, p.hmac key message ≠ []) (hprint : p.Prints threshold)
    (h : proveBalanceRange p balance threshold proofId random now = .ok rangeProof) :
    (balance = .nan ∨ balance.Reaches threshold) ∧ ∀ commitment' threshold' now',
      (verifyBalanceRange p { rangeProof with commitment := commitment', threshold := threshold' } now').valid = true ↔
        threshold' = threshold ∧ p.hmac (hmacKey p commitment') (p.utf8 (message p threshold)) =
          p.hmac (p.sha256 (p.sha256 (p.utf8 (p.print balance) ++ random) ++ random))
            (p.utf8 (message p threshold)) := by
  obtain ⟨hreached, -, rfl⟩ := proved_iff.mp h
  refine ⟨or_iff_not_imp_left.mpr fun hnan => ⟨hnan, hprint.ne_nan, hreached⟩, fun commitment' threshold' now' => ?_⟩
  rw [valid_iff hmac, ← hmacKey_commitment]
  refine (and_iff_right rfl).trans ((attests_iff hprint).trans (and_congr_right fun _ => ?_))
  exact ⟨fun heq => hex_injective heq, fun heq => congrArg hex heq⟩

/-- A submitted proof is accepted exactly if its text attests its threshold under its own
commitment, which does not mention the balance: the circuit makes no proof for a balance below
the threshold, but from the commitment to it, as published, anyone makes one that is accepted. -/
theorem range_proof_forgeable (hmac : ∀ key message, p.hmac key message ≠ []) :
    (∀ rangeProof now, (verifyBalanceRange p rangeProof now).valid = true ↔
      rangeProof.circuitId = circuitId ∧ Attests p rangeProof.commitment rangeProof.threshold rangeProof.proof) ∧
    ∃ forge : ZkCommitment → Number → ZkRangeProof,
      (∀ commitment threshold, (forge commitment threshold).commitment = commitment ∧
        (forge commitment threshold).threshold = threshold) ∧
      ∀ balance threshold random, balance.less threshold = true → p.Prints threshold →
        (∀ proofId now, ∃ e, proveBalanceRange p balance threshold proofId random now = .error e) ∧
        ∀ now, (verifyBalanceRange p (forge (generateCommitment p balance random) threshold) now).valid = true := by
  refine ⟨valid_iff hmac, fun commitment threshold => ⟨commitment, threshold,
    attestation p commitment threshold ++ colon :: p.print threshold, circuitId, "", 0⟩, fun _ _ => ⟨rfl, rfl⟩, ?_⟩
  intro balance threshold random hbelow hprint
  constructor
  · intro proofId now
    cases hproved : proveBalanceRange p balance threshold proofId random now with
    | error e => exact ⟨e, rfl⟩
    | ok rangeProof => cases hbelow.symm.trans (proved_iff.mp hproved).1
  · exact fun now => (valid_iff hmac _ now).mpr ⟨rfl, attests_own hprint _⟩

end proofs

section audit
variable {p : Platform}

/-- The record that an answered call leaves. -/
def audited : Request × Answer → Option ZkProofAuditRecord
  | (.generateBalanceProof _ _ correlationId, .proof (.ok rangeProof)) => some (rangeProof.audit correlationId)
  | _ => none

/-- The service refuses a proof: the threshold is negative, the balance is below it, or the
threshold is `NaN` and the balance negative. -/
def Refuses (balance threshold : Number) : Prop :=
  threshold.less 0 = true ∨ balance.less threshold = true ∨ threshold = .nan ∧ balance.less 0 = true

/-- What the service may answer: it refuses a proof, or makes one that is accepted unless its
threshold is `NaN`. -/
def Sound (p : Platform) : Request × Answer → Prop
  | (.generateBalanceProof privateBalance threshold _, .proof (.ok rangeProof)) =>
    ¬ Refuses privateBalance threshold ∧ rangeProof.threshold = threshold ∧
      ∀ now, (verifyBalanceRange p rangeProof now).valid = true ↔ threshold ≠ .nan
  | (.generateBalanceProof privateBalance threshold _, .proof (.error _)) => Refuses privateBalance threshold
  | (.generateBalanceProof .., _) => False
  | _ => True

private theorem generated (hmac : ∀ key message, p.hmac key message ≠ []) {balance threshold : Number}
    (hprint : threshold = .nan ∨ p.Prints threshold) (fresh : Fresh) (log : List ZkProofAuditRecord)
    (correlationId : Option String) :
    (∃ e, generateBalanceProof p fresh log balance threshold correlationId = (.error e, log) ∧
      Refuses balance threshold) ∨
    ∃ rangeProof, generateBalanceProof p fresh log balance threshold correlationId =
        (.ok rangeProof, log ++ [rangeProof.audit correlationId]) ∧
      ¬ Refuses balance threshold ∧ rangeProof.threshold = threshold ∧
        ∀ now, (verifyBalanceRange p rangeProof now).valid = true ↔ threshold ≠ .nan := by
  unfold generateBalanceProof
  split
  · rename_i hnegative
    exact .inl ⟨_, rfl, .inl hnegative⟩
  · rename_i hpositive
    cases hproved : proveBalanceRange p balance threshold fresh.proofId fresh.random fresh.now with
    | error e =>
      refine .inl ⟨e, rfl, ?_⟩
      by_cases hbelow : balance.less threshold = true
      · exact .inr (.inl hbelow)
      · have hnegative : balance.less 0 = true := by
          by_contra hnegative
          rw [proved_iff.mpr ⟨by simpa using hbelow, by simpa using hnegative, rfl⟩] at hproved
          cases hproved
        by_cases hnan : threshold = .nan
        · exact .inr (.inr ⟨hnan, hnegative⟩)
        · exact (Number.less_of_less hnan hnegative).elim (fun h => .inr (.inl h)) .inl
    | ok rangeProof =>
      obtain ⟨hreached, hnonneg, rfl⟩ := proved_iff.mp hproved
      refine .inr ⟨_, rfl, ?_, rfl, fun now => (valid_iff hmac _ now).trans ⟨?_, fun hnan => ?_⟩⟩
      · rintro (hnegative | hbelow | ⟨-, hnegative⟩)
        · exact hpositive hnegative
        · cases hreached.symm.trans hbelow
        · cases hnonneg.symm.trans hnegative
      · rintro ⟨-, field, rest, -, -, hsame, -⟩
        exact Number.ne_nan_of_same hsame
      · exact ⟨rfl, attests_own (hprint.resolve_left hnan) _⟩

/-- One call answers soundly and logs what it has proved. -/
private theorem handled (hmac : ∀ key message, p.hmac key message ≠ []) (fresh : Fresh) (log : List ZkProofAuditRecord)
    (request : Request) (hprint : ∀ balance threshold correlationId,
      request = .generateBalanceProof balance threshold correlationId → threshold = .nan ∨ p.Prints threshold) :
    Sound p (request, (handle p fresh log request).1) ∧
      (handle p fresh log request).2 = log ++ (audited (request, (handle p fresh log request).1)).toList := by
  cases request with
  | verifyBalanceProof rangeProof => exact ⟨trivial, (List.append_nil _).symm⟩
  | getAuditRecords proofId => exact ⟨trivial, (List.append_nil _).symm⟩
  | generateBalanceProof balance threshold correlationId =>
    have hhandle : handle p fresh log (.generateBalanceProof balance threshold correlationId) =
        (.proof (generateBalanceProof p fresh log balance threshold correlationId).1,
          (generateBalanceProof p fresh log balance threshold correlationId).2) := rfl
    rw [hhandle]
    rcases generated hmac (hprint balance threshold correlationId rfl) fresh log correlationId
      with ⟨e, hrefused, hwhy⟩ | ⟨rangeProof, hmade, hsound⟩
    · rw [hrefused]
      exact ⟨hwhy, (List.append_nil _).symm⟩
    · rw [hmade]
      exact ⟨hsound, rfl⟩

/-- In any run of calls the log grows by one record for each proof that is made, in their
order, and by nothing else; every proof that is made for a threshold other than `NaN` is
accepted, and is found under its id; and a proof is refused exactly for a negative threshold, for
a balance below the threshold, and for a negative balance where the threshold is `NaN`. -/
theorem proofs_audited (hmac : ∀ key message, p.hmac key message ≠ []) (calls : List (Fresh × Request))
    (hprint : ∀ call ∈ calls, ∀ balance threshold correlationId,
      call.2 = .generateBalanceProof balance threshold correlationId → threshold = .nan ∨ p.Prints threshold)
    (log : List ZkProofAuditRecord) :
    (serve p calls log).2 = log ++ (serve p calls log).1.filterMap audited ∧
      (∀ answered ∈ (serve p calls log).1, Sound p answered) ∧
      ∀ answered ∈ (serve p calls log).1, ∀ record, audited answered = some record → record.proofId ≠ "" →
        record ∈ getAuditRecords (serve p calls log).2 (some record.proofId) := by
  have hrun : (serve p calls log).2 = log ++ (serve p calls log).1.filterMap audited ∧
      ∀ answered ∈ (serve p calls log).1, Sound p answered := by
    induction calls generalizing log with
    | nil => exact ⟨(List.append_nil log).symm, fun answered h => by cases h⟩
    | cons call calls ih =>
      obtain ⟨fresh, request⟩ := call
      obtain ⟨hsound, hlog⟩ := handled hmac fresh log request (hprint _ (.head _))
      obtain ⟨hlogs, hsounds⟩ := ih (fun call hcall => hprint call (.tail _ hcall)) (handle p fresh log request).2
      refine ⟨?_, List.forall_mem_cons.mpr ⟨hsound, hsounds⟩⟩
      show (serve p calls (handle p fresh log request).2).2 = log ++
        ((request, (handle p fresh log request).1) :: (serve p calls (handle p fresh log request).2).1).filterMap audited
      rw [hlogs, hlog, List.filterMap_cons, List.append_assoc]
      cases audited (request, (handle p fresh log request).1) with
      | none => rfl
      | some record => rfl
  refine ⟨hrun.1, hrun.2, fun answered hanswered record hrecord hid => ?_⟩
  have hsome : (some record.proofId).filter (· ≠ "") = some record.proofId := by simp [Option.filter, hid]
  rw [getAuditRecords, hsome]
  dsimp only
  rw [hrun.1]
  refine List.mem_filter.mpr ⟨List.mem_append_right _ ?_, decide_eq_true rfl⟩
  exact List.mem_filterMap.mpr ⟨answered, hanswered, hrecord⟩

end audit

section scenario

/-- Hashes of 32 bytes, and whole numbers in decimal digits. -/
private def samplePlatform : Platform where
  sha256 := fun bytes => List.replicate 31 0 ++ [bytes.foldl (fun sum b => 31 * sum + b) 7]
  hmac := fun key message => List.replicate 31 0 ++ [(key ++ message).foldl (fun sum b => 31 * sum + b) 11]
  utf8 := List.map UInt16.toUInt8
  print := fun n => match n with
    | .finite n => (Nat.toDigits 10 n.num.toNat).map fun c => .ofNat c.toNat
    | .nan => units "NaN"
    | .infinity => units "Infinity"
    | .minusInfinity => units "-Infinity"
  number := fun text => if text.all (fun ch => (digitValue ch).any (· < 10)) then
    .finite (text.foldl (fun n ch => 10 * n + (digitValue ch).getD 0) 0 : ℕ) else .nan

private theorem sample_hmac (key message : List UInt8) : samplePlatform.hmac key message ≠ [] :=
  List.append_ne_nil_of_right_ne_nil _ (List.cons_ne_nil _ _)

private theorem sample_prints : samplePlatform.Prints 100 := ⟨by decide +kernel, by decide +kernel⟩

/-- A proof for a balance of 150 shows that it reaches 100, not that it reaches 50. -/
theorem range_proof_binds_to_100 : ∃ rangeProof,
    proveBalanceRange samplePlatform 150 100 "proof-1" [1, 2, 3] 0 = .ok rangeProof ∧
      (verifyBalanceRange samplePlatform rangeProof 1).valid = true ∧
      (verifyBalanceRange samplePlatform { rangeProof with threshold := 50 } 1).valid ≠ true := by
  obtain ⟨rangeProof, h⟩ : ∃ rangeProof,
      proveBalanceRange samplePlatform 150 100 "proof-1" [1, 2, 3] 0 = .ok rangeProof :=
    ⟨_, proved_iff.mpr ⟨by decide +kernel, by decide +kernel, rfl⟩⟩
  obtain ⟨-, hbinds⟩ := range_proof_binds sample_hmac sample_prints h
  have hown : rangeProof.threshold = 100 ∧ rangeProof.commitment = generateCommitment samplePlatform 150 [1, 2, 3] := by
    obtain ⟨-, -, rfl⟩ := proved_iff.mp h
    exact ⟨rfl, rfl⟩
  refine ⟨rangeProof, h, (hbinds rangeProof.commitment rangeProof.threshold 1).mpr ⟨hown.1, ?_⟩, fun hvalid => ?_⟩
  · rw [hown.2, hmacKey_commitment]
  · exact absurd ((hbinds rangeProof.commitment 50 1).mp hvalid).1 (by decide +kernel)

/-- A balance of 20 is committed to, and is shown to reach 100. -/
theorem range_proof_forgeable_for_20 : ∃ rangeProof,
    rangeProof.commitment = generateCommitment samplePlatform 20 [1, 2, 3] ∧ rangeProof.threshold = 100 ∧
      (verifyBalanceRange samplePlatform rangeProof 1).valid = true := by
  obtain ⟨-, forge, hforge, haccepted⟩ := range_proof_forgeable sample_hmac
  exact ⟨_, (hforge _ 100).1, (hforge _ 100).2, (haccepted 20 100 [1, 2, 3] (by decide +kernel) sample_prints).2 1⟩

/-- Of two requests for a proof one is refused, and the log has the other one. -/
theorem proofs_audited_one_of_two : ((serve samplePlatform
    [(⟨"proof-1", [1, 2, 3], 0⟩, .generateBalanceProof 150 100 none),
      (⟨"proof-2", [4, 5, 6], 1⟩, .generateBalanceProof 50 100 none)] []).2.map (·.proofId)) = ["proof-1"] := by
  have hlog := (proofs_audited sample_hmac [(⟨"proof-1", [1, 2, 3], 0⟩, .generateBalanceProof 150 100 none),
    (⟨"proof-2", [4, 5, 6], 1⟩, .generateBalanceProof 50 100 none)] (by
      rintro call hcall balance threshold correlationId heq
      rcases List.mem_pair.mp hcall with rfl | rfl
      · cases heq
        exact .inr sample_prints
      · cases heq
        exact .inr sample_prints) []).1
  rw [hlog]
  decide +kernel

end scenario
end RedRoomRewards.ZkOracle
