import RedRoomRewards.Alone.Commands
import RedRoomRewards.Ingest.Worker
import RedRoomRewards.Ingestion.Controller
import RedRoomRewards.Service.WalletController

/-! The writers of the idempotency records. They share one collection and its index on key
and scope; the scopes keep them apart. A result that keeps nothing is stored as none. -/
namespace RedRoomRewards
open Process Store

section writes

/-- What stands for the SHA-256 of a result and for `JSON.stringify`. -/
structure Serializers where
  hashResult : Json → String
  stringify : Json → String

/-- A write to the collection, with what the run supplies to it. -/
inductive Write where
  | recordKey (key tenantId operation : String) (result : Json) (os : ℕ → Oracle)
  | claimIdempotency (key operationType : String) (tenantId : Option String) (os : ℕ → Oracle)
  | storeIdempotencyResult (key operationType : String) (result : Json) (ttlSeconds : ℤ) (os : ℕ → Oracle)
  | ingestEvent (eventId : String) (os : ℕ → Ingest.Oracle)
  | eventIngestion (idempotencyKey eventId : String) (os : ℕ → Ingestion.Oracle)

variable (serializers : Serializers)

/-- The records after the write. -/
def Write.perform (records : IdempotencyRecords) : Write → IdempotencyRecords
  | recordKey key tenantId operation result os =>
    ((IdempotencyService.recordKey serializers.hashResult key tenantId operation result).solo exec os
      { Db.empty with records }).2.records
  | claimIdempotency key operationType tenantId os =>
    ((LedgerService.claimIdempotency key operationType tenantId).solo exec os { Db.empty with records }).2.records
  | storeIdempotencyResult key operationType result ttlSeconds os =>
    ((LedgerService.storeIdempotencyResult serializers.stringify key operationType result ttlSeconds).solo exec os
      { Db.empty with records }).2.records
  | ingestEvent eventId os =>
    ((Ingest.IngestWorker.storeIdempotency eventId).solo Ingest.exec os { Ingest.Db.empty with records }).2.records
  | eventIngestion idempotencyKey eventId os =>
    ((Ingestion.storeIdempotency idempotencyKey eventId).solo Ingestion.exec os
      { Ingestion.Db.empty with records }).2.records

/-- The records after writes to an empty collection, newest write first. -/
def performed (writes : List Write) : IdempotencyRecords :=
  writes.foldr (fun w records => w.perform serializers records) .empty

@[simp] theorem performed_cons (w : Write) (writes : List Write) :
    performed serializers (w :: writes) = w.perform serializers (performed serializers writes) := rfl

/-- What `checkKey` answers. -/
def checkKeyIn (records : IdempotencyRecords) (key tenantId operation : String) (os : ℕ → Oracle) :
    Except ServiceError (Option Json) :=
  ((IdempotencyService.checkKey key tenantId operation).solo exec os { Db.empty with records }).1

/-- What `recordKey` answers. -/
def recordKeyIn (records : IdempotencyRecords) (key tenantId operation : String) (result : Json) (os : ℕ → Oracle) :
    Except ServiceError Unit :=
  ((IdempotencyService.recordKey serializers.hashResult key tenantId operation result).solo exec os
    { Db.empty with records }).1

/-- The key and scope a write stores its record under. -/
def Write.claim : Write → String × String
  | recordKey key tenantId operation _ _ => (key, IdempotencyService.buildScope tenantId operation)
  | claimIdempotency key operationType _ _ => (key, operationType)
  | storeIdempotencyResult key operationType _ _ _ => (key, operationType)
  | ingestEvent eventId _ => (eventId, Ingest.ingestScope)
  | eventIngestion idempotencyKey _ _ => (trim idempotencyKey, trim Ingestion.ingestionScope)

/-- The result that the write stores for the triple, if it is a `recordKey` for it. -/
def Write.resultFor (key tenantId operation : String) : Write → Option Json
  | recordKey key' tenantId' operation' result _ =>
    if key' = key ∧ tenantId' = tenantId ∧ operation' = operation then some result else none
  | _ => none

/-- The result of the first `recordKey` for the triple. -/
def firstResult (key tenantId operation : String) (writes : List Write) : Option Json :=
  writes.foldr (fun w earlier => earlier.or (w.resultFor key tenantId operation)) none

end writes

section texts

/-- A text that the schema stores as it is. -/
def StoredAsIs (max : ℕ) (s : String) : Prop := requiredText max s = true ∧ trim s = s

instance (max : ℕ) (s : String) : Decidable (StoredAsIs max s) := inferInstanceAs (Decidable (_ ∧ _))

/-- A key, tenant and operation that `recordKey` and `checkKey` may be called with. -/
structure ProperTriple (key tenantId operation : String) : Prop where
  keyStored : StoredAsIs 256 key
  tenantStored : tenantId ≠ "" ∧ trim tenantId = tenantId
  operationStored : operation ≠ "" ∧ trim operation = operation
  scopeStored : requiredText 128 (IdempotencyService.buildScope tenantId operation) = true
  plain : ':' ∉ operation.toList

/-- A result that is an object with fields. -/
def HasFields (result : Json) : Prop := ∃ field fields, result = .obj (field :: fields)

/-- A write whose texts the schema stores as they are and whose result is not empty; its
operation has no colon, its tenant may have. -/
def Write.Proper : Write → Prop
  | recordKey key tenantId operation result _ => ProperTriple key tenantId operation ∧ HasFields result
  | claimIdempotency key operationType tenantId _ =>
    StoredAsIs 256 key ∧ StoredAsIs 128 operationType ∧ ':' ∉ operationType.toList ∧ ∀ t ∈ tenantId, StoredAsIs 128 t
  | storeIdempotencyResult key operationType result _ _ =>
    StoredAsIs 256 key ∧ StoredAsIs 128 operationType ∧ ':' ∉ operationType.toList ∧ HasFields result
  | ingestEvent eventId _ => StoredAsIs 256 eventId
  | eventIngestion idempotencyKey eventId _ => StoredAsIs 256 idempotencyKey ∧ StoredAsIs 512 eventId

/-- A separator that the second part does not contain splits a text in one way only. -/
theorem append_separator_inj {α : Type} {c : α} {xs xs' ys ys' : List α} (hys : c ∉ ys) (hys' : c ∉ ys') :
    xs ++ c :: ys = xs' ++ c :: ys' ↔ xs = xs' ∧ ys = ys' := by
  constructor
  · intro h
    induction xs generalizing xs' with
    | nil =>
      cases xs' with
      | nil => simpa using h
      | cons x xs' =>
        obtain ⟨-, rfl⟩ := List.cons.inj h
        exact absurd (by simp) hys
    | cons x xs ih =>
      cases xs' with
      | nil =>
        obtain ⟨-, rfl⟩ := List.cons.inj h
        exact absurd (by simp) hys'
      | cons x' xs' =>
        obtain ⟨rfl, htail⟩ := List.cons.inj h
        obtain ⟨rfl, rfl⟩ := ih htail
        exact ⟨rfl, rfl⟩
  · rintro ⟨rfl, rfl⟩
    rfl

theorem buildScope_toList (tenantId operation : String) :
    (IdempotencyService.buildScope tenantId operation).toList = tenantId.toList ++ ':' :: operation.toList := by
  simp [IdempotencyService.buildScope]

/-- The scope determines the tenant, whatever colons it has, and the operation. -/
theorem buildScope_inj {tenantId tenantId' operation operation' : String} (h : ':' ∉ operation.toList)
    (h' : ':' ∉ operation'.toList) :
    IdempotencyService.buildScope tenantId operation = IdempotencyService.buildScope tenantId' operation' ↔
      tenantId = tenantId' ∧ operation = operation' := by
  rw [← String.toList_inj, buildScope_toList, buildScope_toList, append_separator_inj h h', String.toList_inj,
    String.toList_inj]

/-- A scope without a colon is no tenant's. -/
theorem ne_buildScope {scope : String} (h : ':' ∉ scope.toList) (tenantId operation : String) :
    scope ≠ IdempotencyService.buildScope tenantId operation := by
  rintro rfl
  rw [buildScope_toList] at h
  exact h (by simp)

/-- Only `recordKey` for the same triple stores under the triple's key and scope. -/
theorem Write.Proper.claim_eq {w : Write} (hw : w.Proper) {key tenantId operation : String}
    (h : ProperTriple key tenantId operation)
    (hclaim : w.claim = (key, IdempotencyService.buildScope tenantId operation)) :
    ∃ result os, w = .recordKey key tenantId operation result os := by
  cases w with
  | recordKey key' tenantId' operation' result os =>
    obtain ⟨rfl, hscope⟩ := Prod.mk.inj hclaim
    obtain ⟨rfl, rfl⟩ := (buildScope_inj hw.1.plain h.plain).mp hscope
    exact ⟨result, os, rfl⟩
  | claimIdempotency key' operationType tenantId' os =>
    exact absurd (Prod.mk.inj hclaim).2 (ne_buildScope hw.2.2.1 _ _)
  | storeIdempotencyResult key' operationType result ttlSeconds os =>
    exact absurd (Prod.mk.inj hclaim).2 (ne_buildScope hw.2.2.1 _ _)
  | ingestEvent eventId os =>
    have hscope : ':' ∉ Ingest.ingestScope.toList := by decide
    exact absurd (Prod.mk.inj hclaim).2 (ne_buildScope hscope tenantId operation)
  | eventIngestion idempotencyKey eventId os =>
    have hscope : ':' ∉ (trim Ingestion.ingestionScope).toList := by decide +kernel
    exact absurd (Prod.mk.inj hclaim).2 (ne_buildScope hscope tenantId operation)

end texts

section effects
variable {serializers : Serializers} {records : IdempotencyRecords}

/-- The records afterwards: at most one is added, under that key and scope. -/
def Stores (claim : String × String) (records records' : IdempotencyRecords) : Prop :=
  records' = records ∨ ∃ r, r.claim = claim ∧ records.Free r ∧ records' = records.insert r

theorem stores_create (r : IdempotencyRecord) (invalid keyPattern : List String) :
    Stores r.claim records (create records r invalid keyPattern).2 := by
  rcases create_cases records r invalid keyPattern with ⟨e, h⟩ | ⟨-, hfree, h⟩
  · exact .inl (by rw [h])
  · exact .inr ⟨r, rfl, hfree, by rw [h]⟩

private theorem alone_createRecord {α : Type} {fair : Oracle → Prop} {post : Except ServiceError α → Db → Prop}
    {db : Db} {r : IdempotencyRecord} {k : Except MongoError IdempotencyRecord → Service α}
    (hk : ∀ reply db', Stores r.claim db.records db'.records → Alone fair post (k reply) db') :
    Alone fair post (issue (.createIdempotencyRecord r) >>= k) db :=
  alone_issue fun _ _ => hk _ _ (stores_create r _ _)

private theorem yields_createRecord {α : Type} {fair : Ingest.Oracle → Prop}
    {post : Except Ingest.QueueError α → Ingest.Db → Prop} {db : Ingest.Db} {r : IdempotencyRecord}
    {k : Except Ingest.QueueError IdempotencyRecord → Ingest.Job α}
    (hk : ∀ reply db', Stores r.claim db.records db'.records → Prog.Yields Ingest.exec fair post (k reply) db') :
    Prog.Yields Ingest.exec fair post (Ingest.issue (.createRecord r) >>= k) db :=
  fun _ _ => hk _ _ (stores_create r _ _)

private theorem stores_attempt (o : Ingestion.Oracle) (db : Ingestion.Db) (r : IdempotencyRecord) :
    Stores (Ingestion.storedRecord r).claim db.records (o.attempt db (db.createRecord r)).2.records := by
  have hs : Stores (Ingestion.storedRecord r).claim db.records (db.createRecord r).2.records := by
    simp only [Ingestion.Db.createRecord]
    exact stores_create _ _ _
  exact Ingestion.attempt_keeps (P := fun db' => Stores (Ingestion.storedRecord r).claim db.records db'.records) (.inl rfl) hs

private theorem intake_createRecord {α : Type} {fair : Ingestion.Oracle → Prop}
    {post : Except Ingestion.PostError α → Ingestion.Db → Prop} {db : Ingestion.Db} {r : IdempotencyRecord}
    {k : Except MongoError IdempotencyRecord → Ingestion.Job α}
    (hk : ∀ reply db', Stores (Ingestion.storedRecord r).claim db.records db'.records →
      Prog.Yields Ingestion.exec fair post (k reply) db') :
    Prog.Yields Ingestion.exec fair post (Ingestion.issue (.createRecord r) >>= k) db :=
  fun o _ => hk _ _ (stores_attempt o db r)

private theorem stores_recordKey (hashResult : Json → String) (key tenantId operation : String) (result : Json)
    (os : ℕ → Oracle) (db : Db) :
    Stores (key, IdempotencyService.buildScope tenantId operation) db.records
      ((IdempotencyService.recordKey hashResult key tenantId operation result).solo exec os db).2.records := by
  have h : Alone (fun _ => True)
      (fun _ db' => Stores (key, IdempotencyService.buildScope tenantId operation) db.records db'.records)
      (IdempotencyService.recordKey hashResult key tenantId operation result) db :=
    alone_createRecord fun reply db' hs => by
      cases reply with
      | ok r => exact hs
      | error e => exact hs
  exact h.always os

private theorem stores_claimIdempotency (key operationType : String) (tenantId : Option String)
    (os : ℕ → Oracle) (db : Db) :
    Stores (key, operationType) db.records
      ((LedgerService.claimIdempotency key operationType tenantId).solo exec os db).2.records := by
  have h : Alone (fun _ => True) (fun _ db' => Stores (key, operationType) db.records db'.records)
      (LedgerService.claimIdempotency key operationType tenantId) db :=
    alone_issue fun _ _ => alone_issue fun _ _ => alone_createRecord fun reply db' hs => by
      cases reply with
      | ok r => exact hs
      | error e => cases e <;> exact hs
  exact h.always os

private theorem stores_storeIdempotencyResult (stringify : Json → String) (key operationType : String)
    (result : Json) (ttlSeconds : ℤ) (os : ℕ → Oracle) (db : Db) :
    Stores (key, operationType) db.records
      ((LedgerService.storeIdempotencyResult stringify key operationType result ttlSeconds).solo exec os
        db).2.records := by
  have h : Alone (fun _ => True) (fun _ db' => Stores (key, operationType) db.records db'.records)
      (LedgerService.storeIdempotencyResult stringify key operationType result ttlSeconds) db :=
    alone_issue fun _ _ => alone_issue fun _ _ => alone_createRecord fun reply db' hs => by
      cases reply with
      | ok r => exact hs
      | error e => exact hs
  exact h.always os

private theorem stores_ingestEvent (eventId : String) (os : ℕ → Ingest.Oracle) (db : Ingest.Db) :
    Stores (eventId, Ingest.ingestScope) db.records
      ((Ingest.IngestWorker.storeIdempotency eventId).solo Ingest.exec os db).2.records := by
  have h : Prog.Yields Ingest.exec (fun _ => True)
      (fun _ db' => Stores (eventId, Ingest.ingestScope) db.records db'.records)
      (Ingest.IngestWorker.storeIdempotency eventId) db :=
    fun _ _ => yields_createRecord fun reply db' hs => by
      rcases reply with (e | e) | r
      · exact hs
      · cases e <;> exact hs
      · exact hs
  exact h.always os

private theorem stores_eventIngestion (idempotencyKey eventId : String) (os : ℕ → Ingestion.Oracle)
    (db : Ingestion.Db) :
    Stores (trim idempotencyKey, trim Ingestion.ingestionScope) db.records
      ((Ingestion.storeIdempotency idempotencyKey eventId).solo Ingestion.exec os db).2.records := by
  have h : Prog.Yields Ingestion.exec (fun _ => True)
      (fun _ db' => Stores (trim idempotencyKey, trim Ingestion.ingestionScope) db.records
        db'.records) (Ingestion.storeIdempotency idempotencyKey eventId) db :=
    fun _ _ => intake_createRecord fun reply db' hs => by
      cases reply with
      | ok r => exact hs
      | error e => cases e <;> exact hs
  exact h.always os

/-- A write stores one record under its key and scope or none. -/
theorem Write.stores (serializers : Serializers) (records : IdempotencyRecords) (w : Write) :
    Stores w.claim records (w.perform serializers records) := by
  cases w with
  | recordKey key tenantId operation result os => exact stores_recordKey _ _ _ _ _ _ _
  | claimIdempotency key operationType tenantId os => exact stores_claimIdempotency _ _ _ _ _
  | storeIdempotencyResult key operationType result ttlSeconds os =>
    exact stores_storeIdempotencyResult _ _ _ _ _ _ _
  | ingestEvent eventId os => exact stores_ingestEvent _ _ _
  | eventIngestion idempotencyKey eventId os => exact stores_eventIngestion _ _ _ _

/-- A write leaves what is stored under other keys and scopes. -/
theorem Write.find_perform_ne (w : Write) {k : String × String} (hk : w.claim ≠ k) :
    (w.perform serializers records).find k = records.find k := by
  rcases w.stores serializers records with h | ⟨r, hr, hfree, h⟩
  · rw [h]
  · rw [h]
    exact Collection.find_insert_ne hfree fun hkey => hk (hr.symm.trans hkey.symm)

/-- `checkKey` answers with the result of the record under its key and scope. -/
theorem checkKeyIn_eq (key tenantId operation : String) (os : ℕ → Oracle) :
    checkKeyIn records key tenantId operation os =
      .ok (IdempotencyService.storedResult (records.find (key, IdempotencyService.buildScope tenantId operation))) := rfl

section triple
variable {key tenantId operation : String} {result : Json}

/-- The record of a proper triple is accepted by the schema. -/
theorem resultRecord_valid (hhash : ∀ r, requiredText 512 (serializers.hashResult r) = true)
    (h : ProperTriple key tenantId operation) :
    (IdempotencyService.resultRecord serializers.hashResult key tenantId operation result).invalid = [] := by
  simp [IdempotencyRecord.invalid, invalidPaths, IdempotencyService.resultRecord, optionalText, hhash,
    h.keyStored.1, h.scopeStored]

private theorem solo_recordKey (hhash : ∀ r, requiredText 512 (serializers.hashResult r) = true)
    (h : ProperTriple key tenantId operation) (os : ℕ → Oracle) (db : Db) :
    (IdempotencyService.recordKey serializers.hashResult key tenantId operation result).solo exec os db =
      if db.records.find (key, IdempotencyService.buildScope tenantId operation) = none then
        (.ok (), { db with
          records := db.records.insert
            (IdempotencyService.resultRecord serializers.hashResult key tenantId operation result) })
      else (.error (.mongo (.duplicateKey ["pointsIdempotencyKey", "eventScope"])), db) := by
  have hyields : Alone (fun _ => True) (fun reply db' => (reply, db') =
      if db.records.find (key, IdempotencyService.buildScope tenantId operation) = none then
        (.ok (), { db with
          records := db.records.insert
            (IdempotencyService.resultRecord serializers.hashResult key tenantId operation result) })
      else (.error (.mongo (.duplicateKey ["pointsIdempotencyKey", "eventScope"])), db))
      (IdempotencyService.recordKey serializers.hashResult key tenantId operation result) db := by
    apply alone_issue
    intro o _
    have hfree : db.records.Free
        (IdempotencyService.resultRecord serializers.hashResult key tenantId operation result) ↔
        db.records.find (key, IdempotencyService.buildScope tenantId operation) = none := Collection.free_iff_find
    simp only [exec, create, resultRecord_valid hhash h, hfree]
    split
    · rfl
    · rfl
  exact hyields.always os

/-- `recordKey` collides if and only if there is a record under its key and scope. -/
theorem recordKeyIn_collides (hhash : ∀ r, requiredText 512 (serializers.hashResult r) = true)
    (h : ProperTriple key tenantId operation) (os : ℕ → Oracle) :
    (∃ keyPattern, recordKeyIn serializers records key tenantId operation result os =
        .error (.mongo (.duplicateKey keyPattern))) ↔
      records.find (key, IdempotencyService.buildScope tenantId operation) ≠ none := by
  rw [recordKeyIn, solo_recordKey hhash h]
  split
  · rename_i hnone
    simp [hnone]
  · rename_i hfound
    exact ⟨fun _ => hfound, fun _ => ⟨_, rfl⟩⟩

/-- After `recordKey` there is a record under its key and scope: the one before, or its own. -/
theorem find_recordKey (hhash : ∀ r, requiredText 512 (serializers.hashResult r) = true)
    (h : ProperTriple key tenantId operation) (os : ℕ → Oracle) :
    ((Write.recordKey key tenantId operation result os).perform serializers records).find
        (key, IdempotencyService.buildScope tenantId operation) =
      (records.find (key, IdempotencyService.buildScope tenantId operation)).or
        (IdempotencyService.resultRecord serializers.hashResult key tenantId operation result) := by
  rw [Write.perform, solo_recordKey hhash h]
  split
  · rename_i hnone
    replace hnone : records.find (key, IdempotencyService.buildScope tenantId operation) = none := hnone
    rw [hnone, Option.none_or]
    exact (Collection.find_insert (Collection.free_iff_find.mpr hnone) _).trans (if_pos rfl)
  · rename_i hfound
    obtain ⟨r, hr⟩ := Option.ne_none_iff_exists'.mp hfound
    replace hr : records.find (key, IdempotencyService.buildScope tenantId operation) = some r := hr
    rw [hr, Option.some_or]

/-- Only `recordKey` for the triple changes what is stored under its key and scope. -/
theorem find_perform_of_ne {w : Write} (hw : w.Proper) (h : ProperTriple key tenantId operation)
    (hne : ∀ result os, w ≠ .recordKey key tenantId operation result os) :
    (w.perform serializers records).find (key, IdempotencyService.buildScope tenantId operation) =
      records.find (key, IdempotencyService.buildScope tenantId operation) := by
  apply w.find_perform_ne
  intro hclaim
  obtain ⟨result, os, rfl⟩ := hw.claim_eq h hclaim
  exact hne result os rfl

/-- What is stored under the triple's key and scope is what the first of its `recordKey`s keeps. -/
theorem find_performed (hhash : ∀ r, requiredText 512 (serializers.hashResult r) = true)
    (h : ProperTriple key tenantId operation) {writes : List Write} (hwrites : ∀ w ∈ writes, w.Proper) :
    ((performed serializers writes).find (key, IdempotencyService.buildScope tenantId operation)).map
        IdempotencyRecord.storedResult = (firstResult key tenantId operation writes).map Json.stored := by
  induction writes with
  | nil => rfl
  | cons w writes ih =>
    have hrest := ih fun w' hw' => hwrites w' (.tail _ hw')
    rw [performed_cons]
    show _ = ((firstResult key tenantId operation writes).or _).map Json.stored
    by_cases hw : ∃ result os, w = .recordKey key tenantId operation result os
    · obtain ⟨result, os, rfl⟩ := hw
      rw [find_recordKey hhash h os, Option.map_or, hrest, Write.resultFor, if_pos ⟨rfl, rfl, rfl⟩, Option.map_or]
      rfl
    · have hnone : w.resultFor key tenantId operation = none := by
        cases w with
        | recordKey key' tenantId' operation' result os =>
          exact if_neg fun ⟨hkey, htenant, hoperation⟩ =>
            hw ⟨result, os, by rw [hkey, htenant, hoperation]⟩
        | _ => rfl
      rw [find_perform_of_ne (hwrites w (.head _)) h fun result os hw' => hw ⟨result, os, hw'⟩, hnone, Option.or_none]
      exact hrest

/-- The first result is that of a `recordKey` for the triple, and there is one if there is such a write. -/
theorem firstResult_cases (key tenantId operation : String) (writes : List Write) :
    (firstResult key tenantId operation writes = none ∧
      ∀ result os, .recordKey key tenantId operation result os ∉ writes) ∨
    ∃ result os, firstResult key tenantId operation writes = some result ∧
      .recordKey key tenantId operation result os ∈ writes := by
  induction writes with
  | nil => exact .inl ⟨rfl, nofun⟩
  | cons w writes ih =>
    rcases ih with ⟨hnone, hnot⟩ | ⟨result, os, hsome, hmem⟩
    · have hfirst : firstResult key tenantId operation (w :: writes) = w.resultFor key tenantId operation := by
        show (firstResult key tenantId operation writes).or _ = _
        rw [hnone, Option.none_or]
      by_cases hw : ∃ result os, w = .recordKey key tenantId operation result os
      · obtain ⟨result, os, rfl⟩ := hw
        exact .inr ⟨result, os, hfirst.trans (if_pos ⟨rfl, rfl, rfl⟩), .head _⟩
      · refine .inl ⟨hfirst.trans ?_, fun result os hmem => ?_⟩
        · cases w with
          | recordKey key' tenantId' operation' result os =>
            exact if_neg fun ⟨hkey, htenant, hoperation⟩ => hw ⟨result, os, by rw [hkey, htenant, hoperation]⟩
          | _ => rfl
        · rcases List.mem_cons.mp hmem with rfl | htail
          · exact hw ⟨result, os, rfl⟩
          · exact hnot result os htail
    · refine .inr ⟨result, os, ?_, .tail _ hmem⟩
      show (firstResult key tenantId operation writes).or _ = _
      rw [hsome, Option.some_or]

/-- What an object keeps is an object or nothing. -/
theorem HasFields.stored {result : Json} (h : HasFields result) :
    result.stored = .undefined ∨ ∃ fields, result.stored = .obj fields := by
  obtain ⟨field, fields, rfl⟩ := h
  unfold Json.stored Json.minimize
  split
  · exact .inl rfl
  · exact .inr ⟨_, rfl⟩

end triple
end effects

/-- After any writes, `checkKey` finds a record if and only if `recordKey` stored one for its key,
tenant and operation exactly if the first such `recordKey`, if there was one, had a result that
keeps anything; and no other write to the collection changes its answer or makes that `recordKey`
collide. -/
theorem records_do_not_interfere_iff (serializers : Serializers)
    (hhash : ∀ r, requiredText 512 (serializers.hashResult r) = true) (key tenantId operation : String)
    (h : ProperTriple key tenantId operation) :
    (∀ writes : List Write, (∀ w ∈ writes, w.Proper) → ∀ os,
      ((∃ result, checkKeyIn (performed serializers writes) key tenantId operation os = .ok (some result)) ↔
        ∃ result os', .recordKey key tenantId operation result os' ∈ writes) ↔
      ∀ result ∈ firstResult key tenantId operation writes, result.stored ≠ .undefined) ∧
    ∀ (records : IdempotencyRecords) (w : Write), w.Proper →
      (∀ result os, w ≠ .recordKey key tenantId operation result os) →
      (∀ os, checkKeyIn (w.perform serializers records) key tenantId operation os =
        checkKeyIn records key tenantId operation os) ∧
      ∀ result os,
        (∃ keyPattern, recordKeyIn serializers (w.perform serializers records) key tenantId operation result os =
          .error (.mongo (.duplicateKey keyPattern))) ↔
        ∃ keyPattern, recordKeyIn serializers records key tenantId operation result os =
          .error (.mongo (.duplicateKey keyPattern)) := by
  constructor
  · intro writes hwrites os
    have hfind := find_performed hhash h hwrites
    rw [checkKeyIn_eq]
    rcases firstResult_cases key tenantId operation writes with ⟨hnone, hnot⟩ | ⟨result, os', hfirst, hmem⟩
    · -- nothing was stored, and nothing is found
      rw [hnone, Option.map_none, Option.map_eq_none_iff] at hfind
      rw [hfind, hnone]
      refine iff_of_true (iff_of_false ?_ ?_) nofun
      · rintro ⟨_, hfound⟩
        cases hfound
      · rintro ⟨result, os', hmem⟩
        exact hnot result os' hmem
    · rw [hfirst, Option.map_some] at hfind
      obtain ⟨r, hr, hstored⟩ := Option.map_eq_some_iff.mp hfind
      rw [hr, hfirst, IdempotencyService.storedResult, hstored]
      have hfields : HasFields result := (hwrites _ hmem).2
      rcases hfields.stored with hlost | ⟨fields, hkept⟩
      · rw [hlost]
        refine iff_of_false (fun hiff => ?_) fun hkeeps => hkeeps result rfl hlost
        obtain ⟨_, hfound⟩ := hiff.mpr ⟨result, os', hmem⟩
        cases hfound
      · rw [hkept]
        refine iff_of_true (iff_of_true ⟨_, rfl⟩ ⟨result, os', hmem⟩) ?_
        rintro _ ⟨⟩ hlost
        cases hkept.symm.trans hlost
  · intro records w hw hne
    have hsame : (w.perform serializers records).find _ = records.find _ := find_perform_of_ne hw h hne
    constructor
    · intro os
      rw [checkKeyIn_eq, checkKeyIn_eq, hsame]
    · intro result os
      rw [recordKeyIn_collides hhash h, recordKeyIn_collides hhash h, hsame]

section witness

private def balanceResult : Json := .obj [("newBalance", .num 120)]

/-- The SHA-256 and the text of the one result that is written. -/
private def balanceSerializers : Serializers where
  hashResult := fun _ => "692aa3c155bb6dff6733eefaf6f485a8379a8b61d86e19f0f7df6a2720c116f3"
  stringify := fun _ => "\x7b\"newBalance\":120\x7d"

private def noonOracle : Oracle := ⟨"uuid-1", 1700000000000, none, none⟩

/-- Writes of all five writers under one key, with a colon in the tenant. -/
private def sharedKeyWrites : List Write := [
  .eventIngestion "pay-1" "evt_1" (fun _ => ⟨"uuid-1", "id-1", 1700000000000, none⟩),
  .storeIdempotencyResult "pay-1" "wallet_credit" balanceResult 3600 (fun _ => noonOracle),
  .recordKey "pay-1" "studio:eu" "wallet_credit" balanceResult (fun _ => noonOracle),
  .ingestEvent "pay-1" (fun _ => ⟨"id-2", 1700000000000, fun _ => 0, .error none, ""⟩),
  .claimIdempotency "pay-1" "wallet_credit" (some "studio:eu") (fun _ => noonOracle)]

private theorem sharedKeyWrites_proper : ∀ w ∈ sharedKeyWrites, w.Proper := by
  have hkey : StoredAsIs 256 "pay-1" := by decide +kernel
  have hoperation : StoredAsIs 128 "wallet_credit" := by decide +kernel
  have hresult : HasFields balanceResult := ⟨_, _, rfl⟩
  intro w hw
  simp only [sharedKeyWrites, List.mem_cons, List.not_mem_nil, or_false] at hw
  rcases hw with rfl | rfl | rfl | rfl | rfl
  · exact ⟨hkey, by decide +kernel⟩
  · exact ⟨hkey, hoperation, by decide, hresult⟩
  · exact ⟨⟨hkey, by decide +kernel, by decide +kernel, by decide +kernel, by decide +kernel⟩, hresult⟩
  · exact hkey
  · refine ⟨hkey, hoperation, by decide, ?_⟩
    rintro t ⟨⟩
    decide +kernel

private theorem balanceSerializers_hash (r : Json) : requiredText 512 (balanceSerializers.hashResult r) = true := by
  show requiredText 512 "692aa3c155bb6dff6733eefaf6f485a8379a8b61d86e19f0f7df6a2720c116f3" = true
  decide

theorem records_do_not_interfere_shared_key :
    (∃ result, checkKeyIn (performed balanceSerializers sharedKeyWrites) "pay-1" "studio:eu" "wallet_credit"
      (fun _ => noonOracle) = .ok (some result)) ∧
    ¬ ∃ result, checkKeyIn (performed balanceSerializers sharedKeyWrites) "pay-1" "studio" "wallet_credit"
      (fun _ => noonOracle) = .ok (some result) := by
  have heu := (records_do_not_interfere_iff balanceSerializers balanceSerializers_hash "pay-1" "studio:eu"
    "wallet_credit" ⟨by decide +kernel, by decide +kernel, by decide +kernel, by decide +kernel, by decide +kernel⟩).1 _
    sharedKeyWrites_proper fun _ => noonOracle
  have hstudio := (records_do_not_interfere_iff balanceSerializers balanceSerializers_hash "pay-1" "studio"
    "wallet_credit" ⟨by decide +kernel, by decide +kernel, by decide +kernel, by decide +kernel, by decide +kernel⟩).1 _
    sharedKeyWrites_proper fun _ => noonOracle
  constructor
  · refine (heu.mpr ?_).mpr ⟨balanceResult, fun _ => noonOracle, .tail _ (.tail _ (.head _))⟩
    rintro _ ⟨⟩ hlost
    cases hlost
  · rw [hstudio.mpr (by rintro _ ⟨⟩)]
    rintro ⟨result, os, hmem⟩
    simp [sharedKeyWrites] at hmem

/-- The result has a field, but keeps nothing of it: the record is stored, and `checkKey` does not
find its result. -/
theorem empty_object_not_found :
    (∀ w ∈ [Write.recordKey "pay-1" "studio:eu" "wallet_credit" (.obj [("details", .obj [])]) fun _ => noonOracle],
      w.Proper) ∧
    ¬ ((∃ result, checkKeyIn (performed balanceSerializers [.recordKey "pay-1" "studio:eu" "wallet_credit"
          (.obj [("details", .obj [])]) fun _ => noonOracle]) "pay-1" "studio:eu" "wallet_credit"
          (fun _ => noonOracle) = .ok (some result)) ↔
        ∃ result os', Write.recordKey "pay-1" "studio:eu" "wallet_credit" result os' ∈
          [Write.recordKey "pay-1" "studio:eu" "wallet_credit" (.obj [("details", .obj [])]) fun _ => noonOracle]) := by
  have htriple : ProperTriple "pay-1" "studio:eu" "wallet_credit" :=
    ⟨by decide +kernel, by decide +kernel, by decide +kernel, by decide +kernel, by decide +kernel⟩
  constructor
  · intro w hw
    obtain rfl := List.mem_singleton.mp hw
    exact ⟨htriple, _, _, rfl⟩
  · intro hiff
    obtain ⟨result, hfound⟩ := hiff.mpr ⟨_, _, List.mem_singleton_self _⟩
    have hmissing : (checkKeyIn (performed balanceSerializers [.recordKey "pay-1" "studio:eu" "wallet_credit"
        (.obj [("details", .obj [])]) fun _ => noonOracle]) "pay-1" "studio:eu" "wallet_credit"
        (fun _ => noonOracle)).toOption.join.isSome = false := by decide +kernel
    rw [hfound] at hmissing
    cases hmissing

end witness
end RedRoomRewards
