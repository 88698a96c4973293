import RedRoomRewards.Service.Ledger
import RedRoomRewards.Process.View
import RedRoomRewards.Process.Execution
import RedRoomRewards.Process.Solo

/-! The ledger's protocol of claiming a key, storing the result under it and checking it.
The result is stored as a new record, for which the claim has taken the place. -/
namespace RedRoomRewards.ClaimThenStore
open Process Store LedgerService

section protocol

/-- What the calls of one protocol agree on. -/
structure Subject where
  key : String
  operationType : String
  tenantId : String

/-- The place of the subject in the unique index. -/
def Subject.claim (k : Subject) : String × String := (k.key, k.operationType)

inductive Call where
  | claim
  | store (result : Json) (ttlSeconds : ℤ)
  | check (tenantId : String)

def Call.isClaim : Call → Bool
  | claim => true
  | _ => false

def Call.isStore : Call → Bool
  | store .. => true
  | _ => false

inductive Response where
  | claimed (won : Bool)
  | stored
  | checked (found : Bool)

def Call.body (stringify : Json → String) (k : Subject) : Call → Service (Next Call Response)
  | claim => claimIdempotency k.key k.operationType (some k.tenantId) >>= fun won => pure (.done (.claimed won))
  | store result ttlSeconds =>
    storeIdempotencyResult stringify k.key k.operationType result ttlSeconds >>= fun _ => pure (.done .stored)
  | check tenantId => checkIdempotency k.key k.operationType tenantId >>= fun b => pure (.done (.checked b))

def protocol (stringify : Json → String) (k : Subject) : Machine Mongo Db Oracle Call Response ServiceError where
  exec := exec
  body := Call.body stringify k

abbrev Run := State Mongo Db Call Response ServiceError

variable (k : Subject) (s : Run)

/-- The claim of thread `t` has returned true. -/
def Wins (t : ℕ) : Prop := s.result t = some (.ok (.claimed true))

instance (t : ℕ) : Decidable (Wins s t) :=
  match h : s.result t with
  | some (.ok (.claimed true)) => .isTrue h
  | some (.ok (.claimed false)) | some (.ok .stored) | some (.ok (.checked _)) | some (.error _) | none =>
    .isFalse (by simp [Wins, h])

/-- A result is stored after a claim has won; claims and checks come at any time. -/
def Documented : Run → Label Oracle Call → Prop
  | s, .spawn _ (.store ..) => ∃ x ∈ s.spawns, Wins s x.1
  | _, _ => True

instance (s : Run) (l : Label Oracle Call) : Decidable (Documented s l) :=
  match l with
  | .spawn _ .claim | .spawn _ (.store ..) | .spawn _ (.check ..) | .run .. => by dsimp only [Documented]; infer_instance

/-- Some claims have been made, all calls have returned, and if a claim has won, its result
has been stored, or the attempt made. -/
structure Over : Prop where
  claimed : ∃ x ∈ s.spawns, x.2.isClaim = true
  returned : ∀ x ∈ s.spawns, (s.result x.1).isSome = true
  stored : (∃ x ∈ s.spawns, Wins s x.1) → ∃ x ∈ s.spawns, x.2.isStore = true

/-- What the interface promises of a protocol that is over: one claim has won, its result
is stored, and the key is found for its tenant and for no other. -/
structure Works : Prop where
  once : ∃! t, Wins s t
  stored : ∀ x ∈ s.spawns, x.2.isStore = true → s.result x.1 = some (.ok .stored)
  found : ∀ tenantId os, ((checkIdempotency k.key k.operationType tenantId).solo exec os s.db).1 =
    .ok (decide (tenantId = k.tenantId))
  foreign : ∀ x ∈ s.spawns, ∀ tenantId, x.2 = .check tenantId → tenantId ≠ k.tenantId →
    s.result x.1 = some (.ok (.checked false))

end protocol

section outcome
variable {stringify : Json → String} {k : Subject}

/-- A text that the schema accepts in each field of the subject. -/
def Subject.Valid (k : Subject) : Prop := requiredText 256 k.key = true ∧
  requiredText 128 k.operationType = true ∧ optionalText 128 (some k.tenantId) = true

/-- The record that a claim creates. -/
structure Subject.Claims (k : Subject) (r : IdempotencyRecord) : Prop where
  claim : r.claim = k.claim
  tenant : r.tenantId = some k.tenantId
  pending : r.resultHash = "pending"

/-- The commands of a call, before its record is created or refused. -/
def Call.May (k : Subject) : Call → Option Bool → Cmd → Prop
  | _, _, .now => True
  | .claim, x, .createIdempotencyRecord r => x = none ∧ k.Claims r
  | .store .., x, .createIdempotencyRecord r => x = none ∧ r.claim = k.claim
  | .check _, _, .findIdempotencyRecord .. => True
  | _, _, _ => False

def Call.Ends : Call → Option Bool → Except ServiceError Response → Prop
  | .claim, x, .ok (.claimed won) => x = some won
  | .store .., x, .ok .stored => x = some true
  | .check _, x, .ok (.checked _) => x = none
  | _, x, .error _ => x = some false
  | _, _, _ => False

/-- Whether a call has created its record, if it has tried. -/
def outcome (k : Subject) : Contract Mongo Call Response ServiceError (Option Bool) where
  start := fun _ => none
  next := fun _ x c r => match c, r with
    | .createIdempotencyRecord _, reply => some (Except.isOk reply)
    | _, _ => x
  may := Call.May k
  ends := Call.Ends
  resumes := fun call call' x => call' = call ∧ x = none

theorem outcome_kept (stringify : Json → String) (k : Subject) : (outcome k).Kept (protocol stringify k) where
  starts := fun _ => ⟨rfl, rfl⟩
  body := by
    rintro call call' x ⟨rfl, rfl⟩
    cases call' with
    | claim =>
      refine ⟨trivial, fun _ _ => ⟨trivial, fun _ _ => ⟨⟨rfl, rfl, rfl, rfl⟩, fun reply _ => ?_⟩⟩⟩
      match reply with
      | .ok _ => exact rfl
      | .error (.duplicateKey _) => exact rfl
      | .error (.validation _) => exact rfl
      | .error (.unavailable _) => exact rfl
    | store result ttlSeconds =>
      refine ⟨trivial, fun _ _ => ⟨trivial, fun _ _ => ⟨⟨rfl, rfl⟩, fun reply _ => ?_⟩⟩⟩
      cases reply <;> exact rfl
    | check tenantId => exact ⟨trivial, fun _ _ => rfl⟩

end outcome

section invariant
variable {stringify : Json → String} {k : Subject} {d : Db} {s : Run} {v : View Mongo Db Call (Option Bool)}
  {t : ℕ} {call : Call} {c : Cmd} {r : c.Reply} {db' : Db} {x : Option Bool}

/-- The subject has a record. -/
def Subject.Recorded (k : Subject) (db : Db) : Prop := ∃ r, db.records.find k.claim = some r

/-- The record of the subject is that of the one claim that has won. -/
structure Sound (k : Subject) (v : View Mongo Db Call (Option Bool)) : Prop where
  winner : ∀ t call, v.stages t = some (call, some true) → call = .claim ∧ k.Recorded v.db
  single : ∀ t t' call call', v.stages t = some (call, some true) → v.stages t' = some (call', some true) → t = t'
  record : ∀ r, v.db.records.find k.claim = some r →
    r.tenantId = some k.tenantId ∧ ∃ t, v.stages t = some (.claim, some true)
  stores : ∀ t result ttlSeconds x, v.stages t = some (.store result ttlSeconds, x) → k.Recorded v.db
  losers : k.Valid → ∀ t, v.stages t = some (.claim, some false) → k.Recorded v.db

/-- A step that creates no record. -/
private theorem Sound.quiet (h : Sound k v) (hx : v.stages t = some (call, x)) (hrecords : db'.records = v.db.records) :
    Sound k (v.acted t call c r db' x) := by
  have hstages : (v.acted t call c r db' x).stages = v.stages := by
    funext t'
    by_cases htt : t' = t
    · subst htt
      exact View.stages_acted_self.trans hx.symm
    · exact View.stages_acted_ne htt
  have hrecorded : k.Recorded db' ↔ k.Recorded v.db := by rw [Subject.Recorded, hrecords, Subject.Recorded]
  refine ⟨fun t' call' hx' => ?_, fun t₁ t₂ call₁ call₂ h₁ h₂ => ?_, fun record hfind => ?_, fun t' result ttl x' hx' => ?_,
    fun hvalid t' hx' => ?_⟩
  · obtain ⟨hcall, hrec⟩ := h.winner t' call' (hstages ▸ hx')
    exact ⟨hcall, hrecorded.mpr hrec⟩
  · exact h.single t₁ t₂ call₁ call₂ (hstages ▸ h₁) (hstages ▸ h₂)
  · have hfind' : db'.records.find k.claim = some record := hfind
    rw [hrecords] at hfind'
    rw [hstages]
    exact h.record record hfind'
  · exact hrecorded.mpr (h.stores t' result ttl x' (hstages ▸ hx'))
  · exact hrecorded.mpr (h.losers hvalid t' (hstages ▸ hx'))

/-- A record is refused: the subject has one, or this one is not valid. -/
private theorem Sound.refused (h : Sound k v) (hx : v.stages t = some (call, none)) {e : MongoError} {record : IdempotencyRecord}
    (hrefused : k.Valid → call = .claim → k.Recorded v.db) :
    Sound k (v.acted t call (.createIdempotencyRecord record) (.error e) v.db (some false)) := by
  refine ⟨fun t' call' hx' => ?_, fun t₁ t₂ call₁ call₂ h₁ h₂ => ?_, fun record hfind => ?_, fun t' result ttl x' hx' => ?_,
    fun hvalid t' hx' => ?_⟩
  · rcases View.stages_acted hx' with ⟨-, -, hno⟩ | ⟨-, hold⟩
    · cases hno
    · exact h.winner t' call' hold
  · rcases View.stages_acted h₁ with ⟨-, -, hno⟩ | ⟨-, hold₁⟩
    · cases hno
    · rcases View.stages_acted h₂ with ⟨-, -, hno⟩ | ⟨-, hold₂⟩
      · cases hno
      · exact h.single t₁ t₂ call₁ call₂ hold₁ hold₂
  · obtain ⟨htenant, t', hx'⟩ := h.record record hfind
    refine ⟨htenant, t', (View.stages_acted_ne ?_).trans hx'⟩
    rintro rfl
    rw [hx] at hx'
    cases hx'
  · rcases View.stages_acted hx' with ⟨-, rfl, -⟩ | ⟨-, hold⟩
    · exact h.stores t result ttl none hx
    · exact h.stores t' result ttl x' hold
  · rcases View.stages_acted hx' with ⟨-, rfl, -⟩ | ⟨-, hold⟩
    · exact hrefused hvalid rfl
    · exact h.losers hvalid t' hold

/-- The first claim creates the record. -/
private theorem Sound.won (h : Sound k v) {record : IdempotencyRecord} (hclaims : k.Claims record)
    (hfree : v.db.records.Free record) : Sound k (v.acted t .claim (.createIdempotencyRecord record) (.ok record)
      { v.db with records := v.db.records.insert record } (some true)) := by
  have hnone : ¬ k.Recorded v.db := by
    rintro ⟨r, hfind⟩
    rw [← hclaims.claim, hfree.find] at hfind
    cases hfind
  have hfind : (v.db.records.insert record).find k.claim = some record :=
    (Collection.find_insert hfree k.claim).trans (if_pos hclaims.claim.symm)
  have hbefore : ∀ t' call', v.stages t' ≠ some (call', some true) := fun t' call' hx' => hnone (h.winner t' call' hx').2
  refine ⟨fun t' call' hx' => ?_, fun t₁ t₂ call₁ call₂ h₁ h₂ => ?_, fun r hr => ?_, fun _ _ _ _ _ => ⟨record, hfind⟩,
    fun _ _ _ => ⟨record, hfind⟩⟩
  · rcases View.stages_acted hx' with ⟨-, rfl, -⟩ | ⟨-, hold⟩
    · exact ⟨rfl, record, hfind⟩
    · exact absurd hold (hbefore t' call')
  · rcases View.stages_acted h₁ with ⟨rfl, -, -⟩ | ⟨-, hold₁⟩
    · rcases View.stages_acted h₂ with ⟨rfl, -, -⟩ | ⟨-, hold₂⟩
      · rfl
      · exact absurd hold₂ (hbefore t₂ call₂)
    · exact absurd hold₁ (hbefore t₁ call₁)
  · obtain rfl : record = r := Option.some.inj (hfind.symm.trans hr)
    exact ⟨hclaims.tenant, t, View.stages_acted_self⟩

/-- A call starts; one that stores, where the subject has a record. -/
private theorem Sound.spawned (h : Sound k v) (hnew : v.stages t = none)
    (hstore : ∀ result ttlSeconds, call = .store result ttlSeconds → k.Recorded v.db) :
    Sound k (v.spawned t call none) := by
  refine ⟨fun t' call' hx' => ?_, fun t₁ t₂ call₁ call₂ h₁ h₂ => ?_, fun record hfind => ?_, fun t' result ttl x' hx' => ?_,
    fun hvalid t' hx' => ?_⟩
  · rcases View.stages_spawned hx' with ⟨-, -, hno⟩ | ⟨-, hold⟩
    · cases hno
    · exact h.winner t' call' hold
  · rcases View.stages_spawned h₁ with ⟨-, -, hno⟩ | ⟨-, hold₁⟩
    · cases hno
    · rcases View.stages_spawned h₂ with ⟨-, -, hno⟩ | ⟨-, hold₂⟩
      · cases hno
      · exact h.single t₁ t₂ call₁ call₂ hold₁ hold₂
  · obtain ⟨htenant, t', hx'⟩ := h.record record hfind
    exact ⟨htenant, t', View.stages_spawned_old hnew hx'⟩
  · rcases View.stages_spawned hx' with ⟨-, hcall, -⟩ | ⟨-, hold⟩
    · exact hstore result ttl hcall.symm
    · exact h.stores t' result ttl x' hold
  · rcases View.stages_spawned hx' with ⟨-, -, hno⟩ | ⟨-, hold⟩
    · cases hno
    · exact h.losers hvalid t' hold

/-- What a valid subject claims is a valid record. -/
private theorem Subject.Claims.valid {record : IdempotencyRecord} (h : k.Claims record) (hvalid : k.Valid) :
    record.invalid = [] := by
  obtain ⟨hkey, hscope, htenant⟩ := hvalid
  have hclaim : record.pointsIdempotencyKey = k.key ∧ record.eventScope = k.operationType := Prod.mk.inj h.claim
  have hhash : requiredText 512 "pending" = true := by decide
  simp [IdempotencyRecord.invalid, invalidPaths, hclaim.1, hclaim.2, h.pending, h.tenant, hkey, hscope, htenant, hhash]

/-- The winner of a claim, by how far its call has come. -/
private theorem stage_of_wins (h : (protocol stringify k).Reaches Documented (.start d) s) (hwins : Wins s t) :
    (outcome k).track s t = some (.claim, some true) := by
  obtain ⟨call, hcall⟩ : ∃ call, s.calls t = some call := by
    cases hthread : s.threads t with
    | none => simp [Wins, State.result, hthread] at hwins
    | some thread => exact ⟨thread.call, by simp [State.calls, hthread]⟩
  have htrack : (outcome k).track s t = some (call, (outcome k).record call (s.history t)) := by
    rw [Contract.track, hcall, Option.map_some]
  have hends := (outcome_kept stringify k).ends h htrack hwins
  rw [htrack]
  cases call with
  | claim => rw [show (outcome k).record .claim (s.history t) = some true from hends]
  | _ => exact hends.elim

private theorem sound (h : (protocol stringify k).Reaches Documented (.start d) s) (hnone : d.records.find k.claim = none) :
    Sound k ((outcome k).view s) := by
  refine (outcome_kept stringify k).view_invariant h ?_ ?_ ?_
  · refine ⟨fun _ _ hx => ?_, fun _ _ _ _ hx _ => ?_, fun r hfind => ?_, fun _ _ _ _ hx => ?_, fun _ _ hx => ?_⟩
    · cases hx
    · cases hx
    · cases hnone.symm.trans hfind
    · cases hx
    · cases hx
  · intro s t call hs hA hnew ih
    apply ih.spawned hnew
    rintro result ttlSeconds rfl
    obtain ⟨x, -, hwins⟩ := hA
    exact (ih.winner x.1 _ (stage_of_wins hs hwins)).2
  · intro s t o call x c hs hA hpending hx hmay ih
    cases c with
    | now => exact ih.quiet hx rfl
    | findIdempotencyRecord tenantId key eventScope => exact ih.quiet hx rfl
    | createIdempotencyRecord record =>
      have hexec : exec o s.db (.createIdempotencyRecord record) =
          ((create s.db.records record record.invalid ["pointsIdempotencyKey", "eventScope"]).1, { s.db with
            records := (create s.db.records record record.invalid ["pointsIdempotencyKey", "eventScope"]).2 }) := rfl
      have hx' : x = none ∧ record.claim = k.claim := by
        cases call with
        | claim => exact ⟨hmay.1, hmay.2.claim⟩
        | store result ttlSeconds => exact hmay
        | check tenantId => exact hmay.elim
      obtain ⟨rfl, hclaim⟩ := hx'
      show Sound k (((outcome k).view s).acted t call _ (exec o s.db _).1 (exec o s.db _).2
        (some (Except.isOk (exec o s.db (.createIdempotencyRecord record)).1)))
      rw [hexec]
      rcases create_cases s.db.records record record.invalid ["pointsIdempotencyKey", "eventScope"] with
        ⟨e, he⟩ | ⟨-, hfree, hok⟩
      · rw [he]
        apply ih.refused hx
        intro hvalid hcall
        subst hcall
        by_contra hnew
        have hfree : s.db.records.Free record := by
          apply Collection.free_iff_find.mpr
          rw [hclaim]
          exact Option.eq_none_iff_forall_not_mem.mpr fun r hr => hnew ⟨r, hr⟩
        rw [create, if_neg (not_not.mpr (hmay.2.valid hvalid)), if_pos hfree] at he
        cases he
      · rw [hok]
        cases call with
        | claim => exact ih.won hmay.2 hfree
        | store result ttlSeconds =>
          obtain ⟨r, hfind⟩ := ih.stores t result ttlSeconds none hx
          rw [← hclaim] at hfind
          cases hfree.find.symm.trans hfind
        | check tenantId => exact hmay.elim
    | _ => cases call <;> exact hmay.elim

private theorem track_of_spawned (h : (protocol stringify k).Reaches Documented (.start d) s) (hmem : (t, call) ∈ s.spawns) :
    (outcome k).track s t = some (call, (outcome k).record call (s.history t)) := by
  rw [Contract.track, h.mem_spawns.mp hmem, Option.map_some]

/-- Once a claim has returned, the subject has its record. -/
private theorem recorded_of_returned (h : (protocol stringify k).Reaches Documented (.start d) s)
    (hnone : d.records.find k.claim = none) (hvalid : k.Valid) (hclaimed : ∃ x ∈ s.spawns, x.2.isClaim = true)
    (hreturned : ∀ x ∈ s.spawns, (s.result x.1).isSome = true) : k.Recorded s.db := by
  obtain ⟨⟨t, call⟩, hmem, hclaim⟩ := hclaimed
  obtain ⟨r, hr⟩ := Option.isSome_iff_exists.mp (hreturned _ hmem)
  have htrack := track_of_spawned h hmem
  have hends := (outcome_kept stringify k).ends h htrack hr
  have htried : ∃ won, (outcome k).record call (s.history t) = some won := by
    cases call with
    | claim =>
      cases r with
      | error e => exact ⟨false, hends⟩
      | ok response =>
        cases response with
        | claimed won => exact ⟨won, hends⟩
        | _ => exact hends.elim
    | _ => cases hclaim
  obtain ⟨won, hwon⟩ := htried
  rw [hwon] at htrack
  cases won with
  | true => exact ((sound h hnone).winner t call htrack).2
  | false =>
    cases call with
    | claim => exact (sound h hnone).losers hvalid t htrack
    | _ => cases hclaim

/-- Of claims that have all returned, exactly one has won, and the key is found for its
tenant and for no other. -/
theorem claimed_once (h : (protocol stringify k).Reaches Documented (.start d) s) (hnone : d.records.find k.claim = none)
    (hvalid : k.Valid) (hclaimed : ∃ x ∈ s.spawns, x.2.isClaim = true)
    (hreturned : ∀ x ∈ s.spawns, (s.result x.1).isSome = true) : (∃! t, Wins s t) ∧
      ∀ tenantId os, ((checkIdempotency k.key k.operationType tenantId).solo exec os s.db).1 =
        .ok (decide (tenantId = k.tenantId)) := by
  obtain ⟨record, hfind⟩ := recorded_of_returned h hnone hvalid hclaimed hreturned
  obtain ⟨htenant, t, hx⟩ := (sound h hnone).record record hfind
  constructor
  · have hmem := h.mem_spawns.mpr (Contract.calls_of_track hx)
    obtain ⟨r, hr⟩ := Option.isSome_iff_exists.mp (hreturned _ hmem)
    have hends : Call.Ends .claim (some true) r := (outcome_kept stringify k).ends h hx hr
    refine ⟨t, ?_, fun t' hwins => (sound h hnone).single t' t _ _ (stage_of_wins h hwins) hx⟩
    cases r with
    | error e => cases hends
    | ok response =>
      cases response with
      | claimed won =>
        obtain rfl : true = won := Option.some.inj hends
        exact hr
      | _ => exact hends.elim
  · intro tenantId os
    have hrecord : s.db.records.find (k.key, k.operationType) = some record := hfind
    show Except.ok (exec (os 0) s.db (.findIdempotencyRecord tenantId k.key k.operationType)).1.isSome = _
    rw [exec, hrecord]
    by_cases htenants : tenantId = k.tenantId
    · simp [htenant, htenants]
    · simp [htenant, htenants, Ne.symm htenants]

/-- A result that is to be stored under a key that a claim has won never is. -/
theorem store_refused (h : (protocol stringify k).Reaches Documented (.start d) s) (hnone : d.records.find k.claim = none)
    {result : Json} {ttlSeconds : ℤ} (hspawned : (t, Call.store result ttlSeconds) ∈ s.spawns) :
    s.result t ≠ some (.ok .stored) := by
  intro hstored
  have htrack := track_of_spawned h hspawned
  have hends := (outcome_kept stringify k).ends h htrack hstored
  rw [show (outcome k).record (.store result ttlSeconds) (s.history t) = some true from hends] at htrack
  cases ((sound h hnone).winner t _ htrack).1

/-- The protocol has not worked where it is over. -/
private theorem not_works (h : (protocol stringify k).Reaches Documented (.start d) s)
    (hnone : d.records.find k.claim = none) (hover : Over s) : ¬ Works k s := by
  intro hworks
  obtain ⟨t, hwins, -⟩ := hworks.once
  have hspawned := h.mem_spawns.mpr (Contract.calls_of_track (stage_of_wins h hwins))
  obtain ⟨⟨t', call⟩, hmem, hstore⟩ := hover.stored ⟨_, hspawned, hwins⟩
  cases call with
  | store result ttlSeconds => exact store_refused h hnone hmem (hworks.stored _ hmem rfl)
  | _ => cases hstore

end invariant

section runs
variable {stringify : Json → String} {k : Subject} {d : Db} {s s' : Run} {t : ℕ} {call : Call}

/-- How many claims have been made. -/
def claims (s : Run) : ℕ := s.spawns.countP fun x => x.2.isClaim

private def someOracle : Oracle := ⟨"", 0, none, none⟩

private theorem body_returns (call : Call) : (call.body stringify k).Returns := by
  cases call with
  | claim => exact Prog.returns_bind _ Response.claimed
  | store result ttlSeconds => exact Prog.returns_bind _ fun _ => Response.stored
  | check tenantId => exact Prog.returns_bind _ Response.checked

/-- All calls have returned, and threads from `n` on are unused. -/
private structure Rests (s : Run) (n : ℕ) : Prop where
  returned : ∀ x ∈ s.spawns, x.1 < n ∧ (s.result x.1).isSome = true
  unused : ∀ t, n ≤ t → s.threads t = none

/-- A further call is made by the next thread, and returns. -/
private theorem exists_next (stringify : Json → String) (k : Subject) (call : Call) {n : ℕ} (h : Rests s n)
    (hspawn : Documented s (.spawn n call)) :
    ∃ s', (protocol stringify k).Reaches Documented s s' ∧ Rests s' (n + 1) ∧ s'.spawns = (n, call) :: s.spawns := by
  obtain ⟨s', hran, hreaches, -⟩ := Machine.exists_called (M := protocol stringify k) (fun _ => someOracle) hspawn
    (fun _ _ _ => trivial) (body_returns call) (h.unused n (le_refl n))
  have hothers : ∀ t ≠ n, s'.threads t = s.threads t := fun t hne =>
    (hran.others t hne).trans (Function.update_of_ne hne _ _)
  refine ⟨s', hreaches, ⟨fun x hx => ?_, fun t ht => ?_⟩, hran.spawns⟩
  · rw [hran.spawns] at hx
    rcases List.mem_cons.mp hx with rfl | hold
    · exact ⟨Nat.lt_succ_self n, hran.returned⟩
    · obtain ⟨hlt, hreturned⟩ := h.returned x hold
      refine ⟨hlt.trans (Nat.lt_succ_self n), ?_⟩
      rw [State.result_congr (hothers x.1 hlt.ne)]
      exact hreturned
  · exact (hothers t (Nat.lt_of_succ_le ht).ne').trans (h.unused t (Nat.le_of_succ_le ht))

/-- Any number of claims can be made one after the other. -/
private theorem exists_claims (stringify : Json → String) (k : Subject) (d : Db) (n : ℕ) :
    ∃ s, (protocol stringify k).Reaches Documented (.start d) s ∧ Rests s n ∧ claims s = n := by
  induction n with
  | zero =>
    refine ⟨.start d, .start, ⟨fun x hx => ?_, fun _ _ => rfl⟩, rfl⟩
    cases hx
  | succ n ih =>
    obtain ⟨s, hs, hrests, hclaims⟩ := ih
    obtain ⟨s', hreaches, hrests', hspawns⟩ := exists_next stringify k .claim hrests trivial
    refine ⟨s', hs.trans hreaches, hrests', ?_⟩
    rw [claims, hspawns, List.countP_cons_of_pos rfl]
    exact congrArg (· + 1) hclaims

private theorem exists_claim_of_pos (hpos : 0 < claims s) : ∃ x ∈ s.spawns, x.2.isClaim = true :=
  List.countP_pos_iff.mp hpos

/-- The protocol with `n` claims can come to its end. -/
private theorem exists_completed (stringify : Json → String) (k : Subject) (d : Db) {n : ℕ} (hpos : 0 < n) :
    ∃ s, (protocol stringify k).Reaches Documented (.start d) s ∧ Over s ∧ claims s = n := by
  obtain ⟨s, hs, hrests, hclaims⟩ := exists_claims stringify k d n
  have hclaimed := exists_claim_of_pos (hclaims.symm ▸ hpos)
  by_cases hwon : ∃ x ∈ s.spawns, Wins s x.1
  · obtain ⟨s', hreaches, hrests', hspawns⟩ := exists_next stringify k (.store .null 0) hrests hwon
    refine ⟨s', hs.trans hreaches, ⟨?_, fun x hx => (hrests'.returned x hx).2, fun _ => ⟨(n, .store .null 0), ?_, rfl⟩⟩, ?_⟩
    · obtain ⟨x, hx, hclaim⟩ := hclaimed
      rw [hspawns]
      exact ⟨x, .tail _ hx, hclaim⟩
    · rw [hspawns]
      exact .head _
    · rw [claims, hspawns, List.countP_cons_of_neg Bool.false_ne_true]
      exact hclaims
  · exact ⟨s, hs, ⟨hclaimed, fun x hx => (hrests.returned x hx).2, fun h => absurd h hwon⟩, hclaims⟩

/-- Whatever the key, the operation, the tenant and the number of claims, the protocol comes to its
end, and whatever the interleaving it has not worked then. Keys are trimmed. -/
theorem never_works (stringify : Json → String) (k : Subject) {d : Db} (hnone : d.records.find k.claim = none) {n : ℕ}
    (hpos : 0 < n) : (∃ s, (protocol stringify k).Reaches Documented (.start d) s ∧ Over s ∧ claims s = n) ∧
      ∀ s, (protocol stringify k).Reaches Documented (.start d) s → Over s → ¬ Works k s :=
  ⟨exists_completed stringify k d hpos, fun _ h hover => not_works h hnone hover⟩

end runs

section scenario

private def sampleSubject : Subject := ⟨"key-1", "escrow_hold", "tenant-a"⟩

private def claimTurns (threads : List ℕ) : List (Label Oracle Call) :=
  threads.map fun t => .run t ⟨"uuid-1", 1000, none, none⟩

/-- Two claims race, the second wins, and its result is to be stored. -/
private def claimedAndStored : List (Label Oracle Call) :=
  [.spawn 0 .claim, .spawn 1 .claim] ++ claimTurns [0, 1, 0, 1, 1, 0] ++ [.spawn 2 (.store (.obj []) 86400)] ++
    claimTurns [2, 2, 2]

private def refusedAsDuplicate (s : Run) (t : ℕ) : Bool :=
  match s.result t with
  | some (.error (.mongo (.duplicateKey _))) => true
  | _ => false

private theorem exists_over : ∃ s, (protocol (fun _ => "{}") sampleSubject).Reaches Documented (.start .empty) s ∧ Over s ∧
    Wins s 1 ∧ (∃ x ∈ s.spawns, x.1 = 2 ∧ x.2.isStore = true) ∧ refusedAsDuplicate s 2 = true := by
  obtain ⟨s, hs, hfacts⟩ := Machine.exists_reaches (protocol (fun _ => "{}") sampleSubject) Documented (.start .empty)
    claimedAndStored (fun s => (decide (∃ x ∈ s.spawns, x.2.isClaim = true),
      decide (∀ x ∈ s.spawns, (s.result x.1).isSome = true), decide (Wins s 1),
      decide (∃ x ∈ s.spawns, x.1 = 2 ∧ x.2.isStore = true), refusedAsDuplicate s 2))
    (a := (true, true, true, true, true)) (by decide +kernel)
  simp only [Prod.mk.injEq, decide_eq_true_eq] at hfacts
  obtain ⟨hclaimed, hreturned, hwins, ⟨x, hmem, hthread, hstore⟩, hrefused⟩ := hfacts
  exact ⟨s, hs, ⟨hclaimed, hreturned, fun _ => ⟨x, hmem, hstore⟩⟩, hwins, ⟨x, hmem, hthread, hstore⟩, hrefused⟩

theorem never_works_race : ∃ s, (protocol (fun _ => "{}") sampleSubject).Reaches Documented (.start .empty) s ∧ Over s ∧
    claims s = 2 ∧ ¬ Works sampleSubject s := by
  obtain ⟨⟨s, hs, hover, hclaims⟩, hnever⟩ := never_works (fun _ => "{}") sampleSubject (d := .empty) rfl Nat.two_pos
  exact ⟨s, hs, hover, hclaims, hnever s hs hover⟩

/-- The winner of a race is refused when it stores its result: its own claim is the duplicate. -/
theorem winner_refused : ∃ s keyPattern, (protocol (fun _ => "{}") sampleSubject).Reaches Documented (.start .empty) s ∧
    Over s ∧ Wins s 1 ∧ s.result 2 = some (.error (.mongo (.duplicateKey keyPattern))) ∧ ¬ Works sampleSubject s := by
  obtain ⟨s, hs, hover, hwins, ⟨x, hmem, hthread, hstore⟩, hrefused⟩ := exists_over
  unfold refusedAsDuplicate at hrefused
  split at hrefused
  · rename_i keyPattern hresult
    refine ⟨s, keyPattern, hs, hover, hwins, hresult, fun hworks => ?_⟩
    have hstored := hworks.stored x hmem hstore
    rw [hthread, hresult] at hstored
    cases hstored
  · cases hrefused

end scenario
end RedRoomRewards.ClaimThenStore
