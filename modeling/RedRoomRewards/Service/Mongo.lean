import RedRoomRewards.Process.Machine
import RedRoomRewards.Service.Types
import RedRoomRewards.Store.Collection
import Mathlib.Data.List.Sort

/-! The collections the services share and the commands they issue to them, each
one atomic. The unique indexes are part of a collection; schema validation
happens where a document is created. -/
namespace RedRoomRewards
open Process Store

section schemas

/-- The code points `trim()` removes. -/
def jsSpace (c : Char) : Bool :=
  c.toNat ∈ [9, 10, 11, 12, 13, 32, 0xA0, 0x1680, 0x2028, 0x2029, 0x202F, 0x205F, 0x3000, 0xFEFF] ||
    0x2000 ≤ c.toNat && c.toNat ≤ 0x200A

/-- `trim()`. -/
@[irreducible] def trim (s : String) : String :=
  String.ofList ((s.toList.dropWhile jsSpace).reverse.dropWhile jsSpace).reverse

/-- A text that neither begins nor ends with a space. -/
def Solid (s : String) : Prop := s.toList.head?.any (!jsSpace ·) = true ∧ s.toList.getLast?.any (!jsSpace ·) = true

instance (s : String) : Decidable (Solid s) := inferInstanceAs (Decidable (_ ∧ _))

/-- Behind a solid text there is nothing to trim. -/
theorem trim_append {t : String} (ht : Solid t) (k : String) :
    trim (k ++ t) = String.ofList (k.toList.dropWhile jsSpace ++ t.toList) := by
  have hfront : (k.toList ++ t.toList).dropWhile jsSpace = k.toList.dropWhile jsSpace ++ t.toList := by
    obtain ⟨a, l, hl⟩ : ∃ a l, t.toList = a :: l := List.exists_cons_of_ne_nil fun h => by simp [Solid, h] at ht
    have ha : jsSpace a = false := by simpa [Solid, hl] using ht.1
    induction k.toList with
    | nil => simp [hl, ha]
    | cons c k ih =>
      cases hc : jsSpace c <;> simp [hc, ih]
  have hback : t.toList.reverse.dropWhile jsSpace = t.toList.reverse := by
    obtain ⟨a, l, hl⟩ : ∃ a l, t.toList.reverse = a :: l :=
      List.exists_cons_of_ne_nil fun h => by simp [Solid, List.reverse_eq_nil_iff.mp h] at ht
    have ha : jsSpace a = false := by
      have hlast := ht.2
      rw [← List.head?_reverse, hl] at hlast
      simpa using hlast
    rw [hl, List.dropWhile_cons_of_neg (by simp [ha])]
  have hne : t.toList.reverse ≠ [] := fun h => by simp [Solid, List.reverse_eq_nil_iff.mp h] at ht
  unfold trim
  rw [String.toList_append, hfront, List.reverse_append, List.dropWhile_append, hback,
    if_neg (by simpa using hne), List.reverse_append, List.reverse_reverse, List.reverse_reverse]

theorem trim_append_inj {s t : String} (hs : Solid s) (ht : Solid t) (k : String) :
    trim (k ++ s) = trim (k ++ t) ↔ s = t := by
  rw [trim_append hs, trim_append ht, String.ofList_inj, List.append_cancel_left_eq, String.toList_inj]

mutual

/-- What a `Mixed` path stores of a value: an object without the fields that keep nothing. One
that keeps none is left out itself, unless it is an item of an array. -/
def Json.minimize (isArrayChild : Bool) : Json → Json
  | .obj fields =>
    match Json.minimizeFields fields, isArrayChild with
    | [], false => .undefined
    | kept, _ => .obj kept
  | .arr items => .arr (Json.minimizeItems items)
  | .undefined => .undefined
  | .null => .null
  | .bool b => .bool b
  | .num n => .num n
  | .str s => .str s
  | .date t => .date t

def Json.minimizeFields : List (String × Json) → List (String × Json)
  | [] => []
  | (key, v) :: rest =>
    match v.minimize false with
    | .undefined => Json.minimizeFields rest
    | kept => (key, kept) :: Json.minimizeFields rest

def Json.minimizeItems : List Json → List Json
  | [] => []
  | v :: rest => v.minimize true :: Json.minimizeItems rest

end

/-- A `storedResult` as it is stored. -/
def Json.stored (result : Json) : Json := result.minimize false

/-- `value.length`: the number of UTF-16 code units. -/
def jsLength (s : String) : ℕ := (s.toList.map (fun c => if c.toNat < 0x10000 then 1 else 2)).sum

/-- `type: String, required: true, maxlength: max`. -/
def requiredText (max : ℕ) (s : String) : Bool := s ≠ "" && jsLength s ≤ max

/-- `type: String, required: false, maxlength: max`. -/
def optionalText (max : ℕ) (s : Option String) : Bool := s.all (jsLength · ≤ max)

/-- The paths whose validators fail. -/
def invalidPaths (checks : List (String × Bool)) : List String :=
  (checks.filter (fun c => !c.2)).map (·.1)

def Wallet.invalid (w : Wallet) : List String := invalidPaths [
  ("userId", requiredText 128 w.userId),
  ("availableBalance", 0 ≤ w.availableBalance),
  ("escrowBalance", 0 ≤ w.escrowBalance),
  ("currency", requiredText 16 w.currency)]

def ModelWallet.invalid (m : ModelWallet) : List String := invalidPaths [
  ("modelId", requiredText 128 m.modelId),
  ("earnedBalance", 0 ≤ m.earnedBalance),
  ("currency", requiredText 16 m.currency)]

def EscrowItem.invalid (i : EscrowItem) : List String := invalidPaths [
  ("escrowId", requiredText 128 i.escrowId),
  ("userId", requiredText 128 i.userId),
  ("amount", 0 ≤ i.amount),
  ("queueItemId", requiredText 128 i.queueItemId),
  ("featureType", requiredText 64 i.featureType),
  ("reason", requiredText 128 i.reason.code),
  ("modelId", optionalText 128 i.modelId)]

def LedgerEntry.invalid (e : LedgerEntry) : List String := invalidPaths [
  ("entryId", requiredText 128 e.entryId),
  ("transactionId", requiredText 128 e.transactionId),
  ("accountId", requiredText 128 e.accountId),
  ("stateTransition", requiredText 128 e.stateTransition),
  ("reason", requiredText 128 e.reason.code),
  ("idempotencyKey", requiredText 256 e.idempotencyKey),
  ("requestId", requiredText 128 e.requestId),
  ("currency", requiredText 16 e.currency),
  ("escrowId", optionalText 128 e.escrowId),
  ("queueItemId", optionalText 128 e.queueItemId),
  ("featureType", optionalText 64 e.featureType),
  ("correlationId", optionalText 128 e.correlationId),
  ("tenant_id", optionalText 128 e.tenantId)]

def IdempotencyRecord.invalid (r : IdempotencyRecord) : List String := invalidPaths [
  ("pointsIdempotencyKey", requiredText 256 r.pointsIdempotencyKey),
  ("eventScope", requiredText 128 r.eventScope),
  ("resultHash", requiredText 512 r.resultHash),
  ("tenant_id", optionalText 128 r.tenantId)]

end schemas

/-- The unique index on `(pointsIdempotencyKey, eventScope)`. -/
def IdempotencyRecord.claim (r : IdempotencyRecord) : String × String :=
  (r.pointsIdempotencyKey, r.eventScope)

abbrev Wallets := Collection Wallet String String Wallet.userId Wallet.userId
abbrev ModelWallets := Collection ModelWallet String String ModelWallet.modelId ModelWallet.modelId
abbrev EscrowItems := Collection EscrowItem String String EscrowItem.escrowId EscrowItem.queueItemId
abbrev Ledger := Collection LedgerEntry String String LedgerEntry.entryId LedgerEntry.idempotencyKey
abbrev IdempotencyRecords := Collection IdempotencyRecord (String × String) (String × String)
  IdempotencyRecord.claim IdempotencyRecord.claim

/-- The database, and the events handed to the bus, newest first. -/
structure Db where
  records : IdempotencyRecords
  wallets : Wallets
  modelWallets : ModelWallets
  escrowItems : EscrowItems
  ledger : Ledger
  published : List PublishedEvent

def Db.empty : Db := ⟨.empty, .empty, .empty, .empty, .empty, []⟩

section updates

/-- The filter of a guarded wallet update; `availableBalance` is its `$gte` bound. -/
structure WalletFilter where
  userId : String
  version : ℕ
  availableBalance : Option ℚ

inductive WalletUpdate where
  | set (availableBalance escrowBalance : ℚ) (version : ℕ)
  | inc (availableBalance escrowBalance : ℚ) (version : ℕ)

def WalletFilter.accepts (f : WalletFilter) (w : Wallet) : Bool :=
  w.version = f.version && f.availableBalance.all (· ≤ w.availableBalance)

def WalletUpdate.apply : WalletUpdate → Wallet → Wallet
  | .set a e v, w => { w with availableBalance := a, escrowBalance := e, version := v }
  | .inc a e v, w => { w with
      availableBalance := w.availableBalance + a
      escrowBalance := w.escrowBalance + e
      version := w.version + v }

structure ModelWalletFilter where
  modelId : String
  version : ℕ

/-- `$set: { earnedBalance }, $inc: { version }`. -/
structure ModelWalletUpdate where
  earnedBalance : ℚ
  version : ℕ

def ModelWalletUpdate.apply (u : ModelWalletUpdate) (m : ModelWallet) : ModelWallet :=
  { m with earnedBalance := u.earnedBalance, version := m.version + u.version }

/-- The `$set` of an escrow item; a field that is `none` is not written. -/
structure EscrowItemUpdate where
  status : EscrowStatus
  processedAt : Option (Option Time)
  modelId : Option String

def EscrowItemUpdate.apply (u : EscrowItemUpdate) (i : EscrowItem) : EscrowItem :=
  { i with
    status := u.status
    processedAt := u.processedAt.getD i.processedAt
    modelId := u.modelId.or i.modelId }

@[simp] theorem WalletUpdate.apply_userId (u : WalletUpdate) (w : Wallet) :
    (u.apply w).userId = w.userId := by cases u <;> rfl

end updates

section queries

structure LedgerQuery where
  accountId : Option String
  accountType : Option AccountType
  type : Option TransactionType
  reason : Option TransactionReason
  balanceState : Option BalanceState
  escrowId : Option String
  queueItemId : Option String
  featureType : Option String
  startDate : Option Time
  endDate : Option Time
  tenantId : Option String

def LedgerQuery.accepts (q : LedgerQuery) (e : LedgerEntry) : Bool :=
  q.accountId.all (· = e.accountId) && q.accountType.all (· = e.accountType) &&
  q.type.all (· = e.type) && q.reason.all (· = e.reason) &&
  q.balanceState.all (· = e.balanceState) && q.escrowId.all (some · = e.escrowId) &&
  q.queueItemId.all (some · = e.queueItemId) && q.featureType.all (some · = e.featureType) &&
  q.startDate.all (· ≤ e.timestamp) && q.endDate.all (e.timestamp ≤ ·) &&
  q.tenantId.all (some · = e.tenantId)

inductive SortField where
  | timestamp
  | amount

structure LedgerSort where
  field : SortField
  ascending : Bool

def SortField.key : SortField → LedgerEntry → ℚ
  | timestamp, e => e.timestamp
  | amount, e => e.amount

/-- `find(query).sort(sort)`; entries with equal keys come in insertion order. -/
def sortedEntries (q : LedgerQuery) (sort : LedgerSort) (docs : List LedgerEntry) : List LedgerEntry :=
  (docs.filter q.accepts).insertionSort fun a b =>
    if sort.ascending then sort.field.key a ≤ sort.field.key b
    else sort.field.key b ≤ sort.field.key a

end queries

/-- The database calls of the services, and the two things they take from the
language: fresh identifiers and the clock. -/
inductive Cmd where
  | findIdempotencyRecord (tenantId key eventScope : String)
  | findIdempotencyResult (key eventScope : String)
  | createIdempotencyRecord (r : IdempotencyRecord)
  | findWallet (userId : String)
  | createWallet (w : Wallet)
  | updateWallet (filter : WalletFilter) (update : WalletUpdate)
  | findModelWallet (modelId : String)
  | createModelWallet (m : ModelWallet)
  | updateModelWallet (filter : ModelWalletFilter) (update : ModelWalletUpdate)
  | findEscrowItem (escrowId : String)
  | createEscrowItem (i : EscrowItem)
  | lockEscrowItem (escrowId : String) (status : EscrowStatus) (processedAt : Time)
  | updateEscrowItem (escrowId : String) (update : EscrowItemUpdate)
  | deleteEscrowItem (escrowId : String)
  | createLedgerEntry (e : LedgerEntry)
  | findLedgerEntry (idempotencyKey : String)
  | findLedgerEntries (q : LedgerQuery) (sort : LedgerSort) (skip limit : ℕ)
  | countLedgerEntries (q : LedgerQuery)
  | listLedgerEntries (q : LedgerQuery) (sort : LedgerSort)
  | uuidv4
  | now
  | publish (e : PublishedEvent)

@[reducible] def Cmd.Reply : Cmd → Type
  | findIdempotencyRecord .. => Option IdempotencyRecord
  | findIdempotencyResult .. => Option IdempotencyRecord
  | createIdempotencyRecord _ => Except MongoError IdempotencyRecord
  | findWallet _ => Option Wallet
  | createWallet _ => Except MongoError Wallet
  | updateWallet .. => Option Wallet
  | findModelWallet _ => Option ModelWallet
  | createModelWallet _ => Except MongoError ModelWallet
  | updateModelWallet .. => Option ModelWallet
  | findEscrowItem _ => Option EscrowItem
  | createEscrowItem _ => Except MongoError EscrowItem
  | lockEscrowItem .. => Option EscrowItem
  | updateEscrowItem .. => Unit
  | deleteEscrowItem _ => Unit
  | createLedgerEntry _ => Except MongoError LedgerEntry
  | findLedgerEntry _ => Option LedgerEntry
  | findLedgerEntries .. => List LedgerEntry
  | countLedgerEntries _ => ℕ
  | listLedgerEntries .. => List LedgerEntry
  | uuidv4 => String
  | now => Time
  | publish _ => Except String Unit

abbrev Mongo : Interface := ⟨Cmd, Cmd.Reply⟩

/-- What a run leaves open at each step: the identifier and the time the
language gives, and whether a ledger write or the event bus fails. -/
structure Oracle where
  uuid : String
  now : Time
  ledgerFault : Option String
  busFault : Option String

section exec
variable {δ κ ι : Type} {key : δ → κ} {index : δ → ι} [DecidableEq κ] [DecidableEq ι]

/-- `Model.create(d)`: validation first, then the unique indexes. -/
def create (c : Collection δ κ ι key index) (d : δ) (invalid : List String)
    (keyPattern : List String) : Except MongoError δ × Collection δ κ ι key index :=
  if invalid ≠ [] then (.error (.validation invalid), c)
  else if c.Free d then (.ok d, c.insert d)
  else (.error (.duplicateKey keyPattern), c)

theorem create_cases (c : Collection δ κ ι key index) (d : δ) (invalid keyPattern : List String) :
    (∃ e, create c d invalid keyPattern = (.error e, c)) ∨
      invalid = [] ∧ c.Free d ∧ create c d invalid keyPattern = (.ok d, c.insert d) := by
  unfold create
  split
  · exact .inl ⟨_, rfl⟩
  · rename_i hvalid
    split
    · rename_i hfree
      exact .inr ⟨by simpa using hvalid, hfree, rfl⟩
    · exact .inl ⟨_, rfl⟩

end exec

namespace Db
variable (db : Db)

/-- `findOneAndUpdate` on a user wallet, returning the updated document. -/
def updateWallet (f : WalletFilter) (u : WalletUpdate) : Option Wallet × Db :=
  match db.wallets.find f.userId with
  | some w => if f.accepts w then
      (some (u.apply w), { db with
        wallets := db.wallets.modify f.userId u.apply (fun w => ⟨u.apply_userId w, u.apply_userId w⟩) })
    else (none, db)
  | none => (none, db)

def updateModelWallet (f : ModelWalletFilter) (u : ModelWalletUpdate) : Option ModelWallet × Db :=
  match db.modelWallets.find f.modelId with
  | some m => if m.version = f.version then
      (some (u.apply m), { db with
        modelWallets := db.modelWallets.modify f.modelId u.apply (fun _ => ⟨rfl, rfl⟩) })
    else (none, db)
  | none => (none, db)

/-- `updateOne` on the escrow item with this id, if there is one. -/
def updateEscrowItem (escrowId : String) (u : EscrowItemUpdate) : Db :=
  { db with escrowItems := db.escrowItems.modify escrowId u.apply (fun _ => ⟨rfl, rfl⟩) }

/-- `findOneAndUpdate` of a held escrow item, returning the document from before. -/
def lockEscrowItem (escrowId : String) (status : EscrowStatus) (processedAt : Time) :
    Option EscrowItem × Db :=
  match db.escrowItems.find escrowId with
  | some i => if i.status = .held then
      (some i, db.updateEscrowItem escrowId ⟨status, some (some processedAt), none⟩)
    else (none, db)
  | none => (none, db)

/-- Mongo names the violated index; the one on `entryId` is the older. -/
def createLedgerEntry (e : LedgerEntry) : Except MongoError LedgerEntry × Db :=
  let keyPattern := if (db.ledger.find e.entryId).isSome then ["entryId"] else ["idempotencyKey"]
  let (reply, ledger) := create db.ledger e e.invalid keyPattern
  (reply, { db with ledger })

end Db

/-- One atomic command. -/
def exec (o : Oracle) (db : Db) : (c : Cmd) → c.Reply × Db
  | .findIdempotencyRecord tenantId key eventScope =>
    (match db.records.find (key, eventScope) with
      | some r => if r.tenantId = some tenantId then some r else none
      | none => none, db)
  | .findIdempotencyResult key eventScope => (db.records.find (key, eventScope), db)
  | .createIdempotencyRecord r =>
    let (reply, records) := create db.records r r.invalid ["pointsIdempotencyKey", "eventScope"]
    (reply, { db with records })
  | .findWallet userId => (db.wallets.find userId, db)
  | .createWallet w =>
    let (reply, wallets) := create db.wallets w w.invalid ["userId"]
    (reply, { db with wallets })
  | .updateWallet f u => db.updateWallet f u
  | .findModelWallet modelId => (db.modelWallets.find modelId, db)
  | .createModelWallet m =>
    let (reply, modelWallets) := create db.modelWallets m m.invalid ["modelId"]
    (reply, { db with modelWallets })
  | .updateModelWallet f u => db.updateModelWallet f u
  | .findEscrowItem escrowId => (db.escrowItems.find escrowId, db)
  | .createEscrowItem i =>
    let (reply, escrowItems) := create db.escrowItems i i.invalid ["escrowId", "queueItemId"]
    (reply, { db with escrowItems })
  | .lockEscrowItem escrowId status processedAt => db.lockEscrowItem escrowId status processedAt
  | .updateEscrowItem escrowId u => ((), db.updateEscrowItem escrowId u)
  | .deleteEscrowItem escrowId => ((), { db with escrowItems := db.escrowItems.erase escrowId })
  | .createLedgerEntry e =>
    match o.ledgerFault with
    | some message => (.error (.unavailable message), db)
    | none => db.createLedgerEntry e
  | .findLedgerEntry key => (db.ledger.docs.find? (fun e => e.idempotencyKey = key), db)
  | .findLedgerEntries q sort skip limit =>
    (((sortedEntries q sort db.ledger.docs).drop skip).take limit, db)
  | .countLedgerEntries q => (db.ledger.docs.countP q.accepts, db)
  | .listLedgerEntries q sort => (sortedEntries q sort db.ledger.docs, db)
  | .uuidv4 => (o.uuid, db)
  | .now => (o.now, db)
  | .publish e =>
    match o.busFault with
    | some message => (.error message, db)
    | none => (.ok (), { db with published := e :: db.published })

section frame

/-- The parts of the database. -/
inductive Part where
  | records
  | wallets
  | modelWallets
  | escrowItems
  | ledger
  | published

/-- The part a command can change. -/
def Cmd.touches : Cmd → Option Part
  | createIdempotencyRecord _ => some .records
  | createWallet _ | updateWallet .. => some .wallets
  | createModelWallet _ | updateModelWallet .. => some .modelWallets
  | createEscrowItem _ | lockEscrowItem .. | updateEscrowItem .. | deleteEscrowItem _ =>
    some .escrowItems
  | createLedgerEntry _ => some .ledger
  | publish _ => some .published
  | _ => none

/-- `db'` differs from `db` at most in one part. -/
structure Frame (part : Option Part) (db db' : Db) : Prop where
  records : part ≠ some .records → db'.records = db.records
  wallets : part ≠ some .wallets → db'.wallets = db.wallets
  modelWallets : part ≠ some .modelWallets → db'.modelWallets = db.modelWallets
  escrowItems : part ≠ some .escrowItems → db'.escrowItems = db.escrowItems
  ledger : part ≠ some .ledger → db'.ledger = db.ledger

theorem Frame.refl (part : Option Part) (db : Db) : Frame part db db :=
  ⟨fun _ => rfl, fun _ => rfl, fun _ => rfl, fun _ => rfl, fun _ => rfl⟩

private theorem frame_updateWallet (db : Db) (f : WalletFilter) (u : WalletUpdate) :
    Frame (some .wallets) db (db.updateWallet f u).2 := by
  unfold Db.updateWallet
  split
  · split
    · exact ⟨fun _ => rfl, fun h => absurd rfl h, fun _ => rfl, fun _ => rfl, fun _ => rfl⟩
    · exact .refl _ db
  · exact .refl _ db

private theorem frame_updateModelWallet (db : Db) (f : ModelWalletFilter) (u : ModelWalletUpdate) :
    Frame (some .modelWallets) db (db.updateModelWallet f u).2 := by
  unfold Db.updateModelWallet
  split
  · split
    · exact ⟨fun _ => rfl, fun _ => rfl, fun h => absurd rfl h, fun _ => rfl, fun _ => rfl⟩
    · exact .refl _ db
  · exact .refl _ db

private theorem frame_lockEscrowItem (db : Db) (escrowId : String) (status : EscrowStatus)
    (processedAt : Time) :
    Frame (some .escrowItems) db (db.lockEscrowItem escrowId status processedAt).2 := by
  unfold Db.lockEscrowItem
  split
  · split
    · exact ⟨fun _ => rfl, fun _ => rfl, fun _ => rfl, fun h => absurd rfl h, fun _ => rfl⟩
    · exact .refl _ db
  · exact .refl _ db

/-- A command changes only the part it touches. -/
theorem exec_frame (o : Oracle) (db : Db) (c : Cmd) : Frame c.touches db (exec o db c).2 := by
  cases c with
  | createIdempotencyRecord r =>
    exact ⟨fun h => absurd rfl h, fun _ => rfl, fun _ => rfl, fun _ => rfl, fun _ => rfl⟩
  | createWallet w =>
    exact ⟨fun _ => rfl, fun h => absurd rfl h, fun _ => rfl, fun _ => rfl, fun _ => rfl⟩
  | updateWallet f u => exact frame_updateWallet db f u
  | createModelWallet m =>
    exact ⟨fun _ => rfl, fun _ => rfl, fun h => absurd rfl h, fun _ => rfl, fun _ => rfl⟩
  | updateModelWallet f u => exact frame_updateModelWallet db f u
  | createEscrowItem i =>
    exact ⟨fun _ => rfl, fun _ => rfl, fun _ => rfl, fun h => absurd rfl h, fun _ => rfl⟩
  | lockEscrowItem escrowId status processedAt =>
    exact frame_lockEscrowItem db escrowId status processedAt
  | updateEscrowItem escrowId u =>
    exact ⟨fun _ => rfl, fun _ => rfl, fun _ => rfl, fun h => absurd rfl h, fun _ => rfl⟩
  | deleteEscrowItem escrowId =>
    exact ⟨fun _ => rfl, fun _ => rfl, fun _ => rfl, fun h => absurd rfl h, fun _ => rfl⟩
  | createLedgerEntry e =>
    simp only [exec]
    split
    · exact .refl _ db
    · exact ⟨fun _ => rfl, fun _ => rfl, fun _ => rfl, fun _ => rfl, fun h => absurd rfl h⟩
  | publish e =>
    simp only [exec]
    split
    · exact .refl _ db
    · exact ⟨fun _ => rfl, fun _ => rfl, fun _ => rfl, fun _ => rfl, fun _ => rfl⟩
  | _ => exact .refl _ db

end frame

/-- A program of the services. -/
abbrev Service (α : Type) := Prog Mongo ServiceError α

def issue (c : Cmd) : Service c.Reply := Prog.ask (I := Mongo) c

@[simp] theorem issue_bind {α : Type} (c : Cmd) (f : c.Reply → Service α) :
    issue c >>= f = Prog.call (I := Mongo) c f := rfl

/-- The created document; a failed `create` throws. -/
def created {α : Type} : Except MongoError α → Service α
  | .ok a => .ret a
  | .error e => .throw (.mongo e)

end RedRoomRewards
