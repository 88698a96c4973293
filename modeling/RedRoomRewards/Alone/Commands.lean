import RedRoomRewards.Process.Solo
import RedRoomRewards.Service.Wallet

/-! The helpers of the services, run alone: what each leads to, and which parts of the
database it leaves as they are. -/
namespace RedRoomRewards
open Process Store

/-- Run alone in `db`, the program ends as `post` says. -/
abbrev Alone {α : Type} (fair : Oracle → Prop) (post : Except ServiceError α → Db → Prop) (p : Service α)
    (db : Db) : Prop := Prog.Yields exec fair post p db

/-- The document that `createEntry` makes of a request. -/
def LedgerService.CreateLedgerEntryRequest.Describes (config : LedgerService.Config)
    (request : LedgerService.CreateLedgerEntryRequest) (e : LedgerEntry) : Prop :=
  ∃ entryId transactionId correlationId reason timestamp,
    e = request.entryDoc config entryId transactionId correlationId reason timestamp

section within
variable {α β : Type} {may : Cmd → Prop}

/-- Only commands that satisfy `may` may be issued. -/
def within (may : Cmd → Prop) : Prog.Rules Mongo Unit where
  possible := fun _ _ => True
  next := fun _ _ _ => ()
  may := fun _ c => may c

/-- The program issues only commands that satisfy `may`. -/
abbrev Within (may : Cmd → Prop) (p : Service α) : Prop := Prog.Obeys (within may) (fun _ _ => True) () p

theorem within_bind {p : Service α} {f : α → Service β} (hp : Within may p) (hf : ∀ a, Within may (f a)) :
    Within may (p >>= f) := by
  refine (Prog.obeys_bind p f ()).mpr (hp.imp ?_)
  rintro ⟨⟩ (e | a) -
  · trivial
  · exact hf a

theorem within_issue {c : Cmd} {k : c.Reply → Service α} (hc : may c) (hk : ∀ r, Within may (k r)) :
    Within may (issue c >>= k) := ⟨hc, fun r _ => hk r⟩

theorem within_throwIf {p : Prop} [Decidable p] {e : ServiceError} {f : Unit → Service α}
    (hf : Within may (f ())) : Within may (Prog.throwIf p e >>= f) :=
  (Prog.obeys_throwIf_bind _ _ _ _).mpr ⟨fun _ => trivial, fun _ => hf⟩

theorem within_orThrow {e : ServiceError} {a : Option β} {f : β → Service α} (hf : ∀ b, Within may (f b)) :
    Within may (Prog.orThrow e a >>= f) :=
  (Prog.obeys_orThrow_bind _ _ _ _).mpr ⟨fun _ => trivial, fun b _ => hf b⟩

theorem within_createEntry_of {config : LedgerService.Config} {request : LedgerService.CreateLedgerEntryRequest}
    (hid : may .uuidv4) (hnow : may .now) (hfind : ∀ key, may (.findLedgerEntry key))
    (hwrite : ∀ e, request.Describes config e → may (.createLedgerEntry e)) :
    Within may (LedgerService.createEntry config request) := by
  refine within_throwIf (within_throwIf ?_)
  cases request.metadata.bind LedgerService.piiIn with
  | some message => trivial
  | none =>
    refine within_issue hid fun entryId => within_bind ?_ fun transactionId =>
      within_issue hnow fun timestamp => within_throwIf (within_orThrow fun reason =>
        within_issue (hwrite _ ⟨_, _, _, _, _, rfl⟩) fun r => ?_)
    · unfold LedgerService.givenOrFresh
      split
      · split
        · exact ⟨hid, fun _ _ => trivial⟩
        · trivial
      · exact ⟨hid, fun _ _ => trivial⟩
    · cases r with
      | ok e => trivial
      | error e =>
        show Within may (if _ then _ else _)
        split
        · exact within_issue (hfind _) fun r => by cases r <;> trivial
        · trivial

theorem within_createEntry {config : LedgerService.Config} {request : LedgerService.CreateLedgerEntryRequest}
    (hread : ∀ c, c.touches = none → may c)
    (hwrite : ∀ e, request.Describes config e → may (.createLedgerEntry e)) :
    Within may (LedgerService.createEntry config request) :=
  within_createEntry_of (hread _ rfl) (hread _ rfl) (fun _ => hread _ rfl) hwrite

theorem within_publish {event : WalletEvent} (hread : ∀ c, c.touches = none → may c)
    (hpublish : ∀ e, may (.publish e)) : Within may (WalletService.publish event) :=
  within_issue (hread _ rfl) fun _ => within_issue (hread _ rfl) fun _ => within_issue (hpublish _) fun _ => trivial

theorem within_getOrCreateModelWallet {currency modelId : String} (hread : ∀ c, c.touches = none → may c)
    (hcreate : ∀ m, may (.createModelWallet m)) :
    Within may (WalletService.getOrCreateModelWallet currency modelId) :=
  within_issue (hread _ rfl) fun m => match m with
    | some m => trivial
    | none => within_issue (hcreate _) fun r => by cases r <;> trivial

/-- What every command that may be issued keeps, the program keeps. -/
theorem alone_of_within {fair : Oracle → Prop} {P : Db → Prop} {p : Service α} {db : Db} (hp : Within may p)
    (hkeep : ∀ o db c, may c → P db → P (exec o db c).2) (hdb : P db) :
    Alone fair (fun _ db' => P db') p db :=
  (Prog.yields_of_obeys hp (fun _ _ _ => trivial) (fun _ => hkeep) hdb).imp fun _ _ h => h.1

/-- Where every command that may be issued is good in any store, those of the program are. -/
theorem along_of_within {good : Db → Cmd → Prop} {p : Service α} (hp : Within may p)
    (hgood : ∀ db c, may c → good db c) (os : ℕ → Oracle) (db : Db) : Prog.Along exec good p os db :=
  Prog.along_of_obeys hp (fun _ _ _ => trivial) fun _ => hgood

end within

section avoids
variable {α : Type} {part : Part} {fair : Oracle → Prop} {db : Db}

/-- The command leaves the part as it is. -/
def Spares (part : Part) (c : Cmd) : Prop := c.touches ≠ some part

/-- The program leaves the part as it is. -/
abbrev Avoids (part : Part) (p : Service α) : Prop := Within (Spares part) p

theorem spares_entry (hpart : part ≠ .ledger) (e : LedgerEntry) : Spares part (.createLedgerEntry e) :=
  fun h => hpart (Option.some.inj h).symm

theorem spares_event (hpart : part ≠ .published) (e : PublishedEvent) : Spares part (.publish e) :=
  fun h => hpart (Option.some.inj h).symm

theorem spares_reads (part : Part) (c : Cmd) (hc : c.touches = none) : Spares part c := by
  rw [Spares, hc]
  exact nofun

theorem Avoids.wallets {p : Service α} (hp : Avoids .wallets p) :
    Alone fair (fun _ db' => db'.wallets = db.wallets) p db :=
  alone_of_within (P := fun db' => db'.wallets = db.wallets) hp
    (fun o db c hc h => ((exec_frame o db c).wallets hc).trans h) rfl

theorem Avoids.modelWallets {p : Service α} (hp : Avoids .modelWallets p) :
    Alone fair (fun _ db' => db'.modelWallets = db.modelWallets) p db :=
  alone_of_within (P := fun db' => db'.modelWallets = db.modelWallets) hp
    (fun o db c hc h => ((exec_frame o db c).modelWallets hc).trans h) rfl

end avoids

section rules
variable {α β : Type} {fair : Oracle → Prop} {post : Except ServiceError α → Db → Prop} {db : Db}

/-- The condition on `p`'s result under which `p >>= f` ends as `post` says. -/
abbrev Onward (fair : Oracle → Prop) (post : Except ServiceError β → Db → Prop) (f : α → Service β) :
    Except ServiceError α → Db → Prop := Prog.onward exec fair post f

theorem alone_bind {post : Except ServiceError β → Db → Prop} {p : Service α} {f : α → Service β}
    (h : Alone fair (Onward fair post f) p db) : Alone fair post (p >>= f) db := (Prog.yields_bind p f).mpr h

theorem alone_issue {c : Cmd} {k : c.Reply → Service α}
    (hk : ∀ o, fair o → Alone fair post (k (exec o db c).1) (exec o db c).2) :
    Alone fair post (issue c >>= k) db := hk

theorem alone_now {k : Time → Service α} (hk : ∀ t, Alone fair post (k t) db) :
    Alone fair post (issue .now >>= k) db := fun o _ => hk o.now

theorem alone_uuidv4 {k : String → Service α} (hk : ∀ id, Alone fair post (k id) db) :
    Alone fair post (issue .uuidv4 >>= k) db := fun o _ => hk o.uuid

theorem alone_findWallet {userId : String} {k : Option Wallet → Service α}
    (hk : Alone fair post (k (db.wallets.find userId)) db) :
    Alone fair post (issue (.findWallet userId) >>= k) db := fun _ _ => hk

theorem alone_throwIf {p : Prop} [Decidable p] {e : ServiceError} {f : Unit → Service α}
    (hthrow : p → post (.error e) db) (hk : ¬ p → Alone fair post (f ()) db) :
    Alone fair post (Prog.throwIf p e >>= f) db := (Prog.yields_throwIf_bind p e f).mpr ⟨hthrow, hk⟩

theorem alone_orThrow {post : Except ServiceError β → Db → Prop} {e : ServiceError} {a : Option α}
    {f : α → Service β} (hthrow : a = none → post (.error e) db) (hk : ∀ b, a = some b → Alone fair post (f b) db) :
    Alone fair post (Prog.orThrow e a >>= f) db := (Prog.yields_orThrow_bind e a f).mpr ⟨hthrow, hk⟩

end rules

section create

theorem invalidPaths_eq_nil {checks : List (String × Bool)} :
    invalidPaths checks = [] ↔ ∀ check ∈ checks, check.2 = true := by
  simp [invalidPaths]

variable {δ κ ι : Type} {key : δ → κ} {index : δ → ι} [DecidableEq κ] [DecidableEq ι]
variable {c : Collection δ κ ι key index} {d : δ} {invalid keyPattern : List String}

theorem create_of_free (hvalid : invalid = []) (hfree : c.Free d) :
    create c d invalid keyPattern = (.ok d, c.insert d) := by
  rw [create, if_neg (not_not.mpr hvalid), if_pos hfree]

theorem create_of_not (h : ¬ (invalid = [] ∧ c.Free d)) :
    ∃ e, create c d invalid keyPattern = (.error e, c) := by
  rcases create_cases c d invalid keyPattern with herror | ⟨hvalid, hfree, -⟩
  · exact herror
  · exact absurd ⟨hvalid, hfree⟩ h

end create

section helpers
variable {fair : Oracle → Prop} {db : Db}

open WalletService LedgerService

/-- A key that can be claimed: it can be stored, and has not been. -/
def Db.Claimable (db : Db) (key scope : String) : Prop :=
  requiredText 256 key = true ∧ requiredText 128 scope = true ∧ db.records.find (key, scope) = none

/-- The record that reserves a key. -/
def reservation (key scope : String) (expiresAt retentionUntil : Time) : IdempotencyRecord where
  pointsIdempotencyKey := key
  eventScope := scope
  resultHash := "pending"
  storedResult := (Json.obj []).stored
  retentionUntil := some (retentionUntil + 60000)
  expiresAt := some (expiresAt + 60000)
  tenantId := none

theorem reservation_storable {key scope : String} (t t' : Time) :
    (reservation key scope t t').invalid = [] ∧ db.records.Free (reservation key scope t t') ↔
      db.Claimable key scope := by
  have hpending : requiredText 512 "pending" = true := by decide +kernel
  rw [Collection.free_iff_find, IdempotencyRecord.invalid, invalidPaths_eq_nil]
  simp [Db.Claimable, reservation, IdempotencyRecord.claim, hpending, optionalText, and_assoc]

theorem alone_reserve {key scope : String} {post : Except ServiceError Unit → Db → Prop}
    (hfree : ∀ t t', db.Claimable key scope →
      post (.ok ()) { db with records := db.records.insert (reservation key scope t t') })
    (htaken : ¬ db.Claimable key scope → ∀ e, post (.error e) db) :
    Alone fair post (claim key scope) db := by
  refine alone_bind (alone_now fun t => alone_now fun t' => alone_issue fun o _ => ?_)
  simp only [exec]
  rw [show (⟨key, scope, "pending", (Json.obj []).stored, some (t' + 60000), some (t + 60000), none⟩ :
    IdempotencyRecord) = reservation key scope t t' from rfl]
  by_cases hclaim : db.Claimable key scope
  · obtain ⟨hvalid, hfree'⟩ := (reservation_storable t t').mpr hclaim
    rw [create_of_free hvalid hfree']
    exact hfree t t' hclaim
  · obtain ⟨e, he⟩ : ∃ e, create db.records (reservation key scope t t') (reservation key scope t t').invalid
        ["pointsIdempotencyKey", "eventScope"] = (.error e, db.records) :=
      create_of_not (mt (reservation_storable t t').mp hclaim)
    rw [he]
    cases e with
    | duplicateKey _ => exact htaken hclaim _
    | _ => exact htaken hclaim _

theorem alone_claim {key scope : String} {post : Except ServiceError Unit → Db → Prop}
    (hfree : db.Claimable key scope → ∀ records, post (.ok ()) { db with records })
    (htaken : ¬ db.Claimable key scope → ∀ e, post (.error e) db) :
    Alone fair post (claim key scope) db := alone_reserve (fun _ _ hclaim => hfree hclaim _) htaken

/-- The stored item that can be locked. -/
def Db.Held (db : Db) (escrowId : String) (i : EscrowItem) : Prop :=
  db.escrowItems.find escrowId = some i ∧ i.status = .held

theorem alone_lockEscrow {escrowId : String} {status : EscrowStatus}
    {post : Except ServiceError EscrowItem → Db → Prop}
    (hheld : ∀ i t, db.Held escrowId i →
      post (.ok i) (db.updateEscrowItem escrowId ⟨status, some (some t), none⟩))
    (hnot : (∀ i, ¬ db.Held escrowId i) → ∀ e, post (.error e) db) :
    Alone fair post (lockEscrow escrowId status) db := by
  refine alone_now fun t => alone_issue fun o _ => ?_
  simp only [exec, Db.lockEscrowItem]
  cases hfind : db.escrowItems.find escrowId with
  | none =>
    have hmissing := hnot fun i hi => by simp [Db.Held, hfind] at hi
    apply alone_issue
    intro o _
    simp only [exec, hfind]
    exact hmissing _
  | some i =>
    by_cases hstatus : i.status = .held
    · simp only [hstatus, if_true]
      exact hheld i t ⟨hfind, hstatus⟩
    · have htaken := hnot fun j hj => hstatus (Option.some.inj (hfind.symm.trans hj.1) ▸ hj.2)
      simp only [hstatus, if_false]
      apply alone_issue
      intro o _
      simp only [exec, hfind]
      exact htaken _

/-- The wallet of a user, and the wallets with it, which is new if there was none. -/
inductive Opened (currency userId : String) (ws : Wallets) : Wallet → Wallets → Prop where
  | found {w : Wallet} (h : ws.find userId = some w) : Opened currency userId ws w ws
  | created (h : ws.Free (newWallet currency userId)) :
      Opened currency userId ws (newWallet currency userId) (ws.insert (newWallet currency userId))

inductive ModelOpened (currency modelId : String) (ms : ModelWallets) : ModelWallet → ModelWallets → Prop where
  | found {m : ModelWallet} (h : ms.find modelId = some m) : ModelOpened currency modelId ms m ms
  | created (h : ms.Free (newModelWallet currency modelId)) :
      ModelOpened currency modelId ms (newModelWallet currency modelId)
        (ms.insert (newModelWallet currency modelId))

/-- The user has no wallet and none can be created. -/
def Db.Unopenable (db : Db) (currency userId : String) : Prop :=
  db.wallets.find userId = none ∧ (newWallet currency userId).invalid ≠ []

/-- The model has no wallet and none can be created. -/
def Db.Uncreditable (db : Db) (currency modelId : String) : Prop :=
  db.modelWallets.find modelId = none ∧ (newModelWallet currency modelId).invalid ≠ []

theorem Opened.find {currency userId : String} {ws ws' : Wallets} {w : Wallet}
    (h : Opened currency userId ws w ws') : ws'.find userId = some w := by
  cases h with
  | found h => exact h
  | created h =>
    rw [Collection.find_insert h]
    exact if_pos rfl

theorem ModelOpened.find {currency modelId : String} {ms ms' : ModelWallets} {m : ModelWallet}
    (h : ModelOpened currency modelId ms m ms') : ms'.find modelId = some m := by
  cases h with
  | found h => exact h
  | created h =>
    rw [Collection.find_insert h]
    exact if_pos rfl

theorem alone_getOrCreateWallet {currency userId : String} {post : Except ServiceError Wallet → Db → Prop}
    (hok : ¬ db.Unopenable currency userId → ∀ w wallets, Opened currency userId db.wallets w wallets →
      post (.ok w) { db with wallets })
    (hfail : db.Unopenable currency userId → ∀ e, post (.error (.mongo e)) db) :
    Alone fair post (getOrCreateWallet currency userId) db := by
  apply alone_findWallet
  cases hfind : db.wallets.find userId with
  | some w => exact hok (fun h => by simp [h.1] at hfind) w _ (.found hfind)
  | none =>
    apply alone_issue
    intro o _
    simp only [exec]
    by_cases hvalid : (newWallet currency userId).invalid = []
    · have hfree : db.wallets.Free (newWallet currency userId) := Collection.free_iff_find.mpr hfind
      rw [create_of_free hvalid hfree]
      exact hok (fun h => h.2 hvalid) _ _ (.created hfree)
    · obtain ⟨e, he⟩ : ∃ e, create db.wallets (newWallet currency userId)
          (newWallet currency userId).invalid ["userId"] = (.error e, db.wallets) :=
        create_of_not (mt And.left hvalid)
      rw [he]
      exact hfail ⟨hfind, hvalid⟩ _

theorem alone_getOrCreateModelWallet {currency modelId : String}
    {post : Except ServiceError ModelWallet → Db → Prop}
    (hok : ¬ db.Uncreditable currency modelId → ∀ m modelWallets,
      ModelOpened currency modelId db.modelWallets m modelWallets → post (.ok m) { db with modelWallets })
    (hfail : db.Uncreditable currency modelId → ∀ e, post (.error (.mongo e)) db) :
    Alone fair post (getOrCreateModelWallet currency modelId) db := by
  apply alone_issue
  intro o _
  simp only [exec]
  cases hfind : db.modelWallets.find modelId with
  | some m => exact hok (fun h => by simp [h.1] at hfind) m _ (.found hfind)
  | none =>
    apply alone_issue
    intro o _
    simp only [exec]
    by_cases hvalid : (newModelWallet currency modelId).invalid = []
    · have hfree : db.modelWallets.Free (newModelWallet currency modelId) :=
        Collection.free_iff_find.mpr hfind
      rw [create_of_free hvalid hfree]
      exact hok (fun h => h.2 hvalid) _ _ (.created hfree)
    · obtain ⟨e, he⟩ : ∃ e, create db.modelWallets (newModelWallet currency modelId)
          (newModelWallet currency modelId).invalid ["modelId"] = (.error e, db.modelWallets) :=
        create_of_not (mt And.left hvalid)
      rw [he]
      exact hfail ⟨hfind, hvalid⟩ _

variable {α : Type} {post : Except ServiceError α → Db → Prop}

theorem WalletUpdate.keeps (u : WalletUpdate) : Collection.Keeps Wallet.userId Wallet.userId u.apply :=
  fun w => ⟨u.apply_userId w, u.apply_userId w⟩

theorem ModelWalletUpdate.keeps (u : ModelWalletUpdate) :
    Collection.Keeps ModelWallet.modelId ModelWallet.modelId u.apply := fun _ => ⟨rfl, rfl⟩

theorem exec_updateWallet {o : Oracle} {f : WalletFilter} {u : WalletUpdate} {w : Wallet}
    (hfind : db.wallets.find f.userId = some w) (haccepts : f.accepts w = true) :
    exec o db (.updateWallet f u) =
      (some (u.apply w), { db with wallets := db.wallets.modify f.userId u.apply u.keeps }) := by
  simp only [exec, Db.updateWallet, hfind, haccepts, if_true]

theorem exec_updateWallet_missed {o : Oracle} {f : WalletFilter} {u : WalletUpdate}
    (h : ∀ w, db.wallets.find f.userId = some w → ¬ f.accepts w = true) :
    exec o db (.updateWallet f u) = (none, db) := by
  simp only [exec, Db.updateWallet]
  cases hfind : db.wallets.find f.userId with
  | none => rfl
  | some w => simp only [h w hfind]; rfl

/-- A guarded update that finds what its filter asks for. -/
theorem alone_updateWallet {f : WalletFilter} {u : WalletUpdate} {w : Wallet} {k : Option Wallet → Service α}
    (hfind : db.wallets.find f.userId = some w) (haccepts : f.accepts w = true)
    (hk : Alone fair post (k (some (u.apply w))) { db with
      wallets := db.wallets.modify f.userId u.apply u.keeps }) :
    Alone fair post (issue (.updateWallet f u) >>= k) db := by
  apply alone_issue
  intro o _
  rw [exec_updateWallet hfind haccepts]
  exact hk

theorem alone_updateModelWallet {f : ModelWalletFilter} {u : ModelWalletUpdate} {m : ModelWallet}
    {k : Option ModelWallet → Service α} (hfind : db.modelWallets.find f.modelId = some m)
    (hversion : m.version = f.version)
    (hk : Alone fair post (k (some (u.apply m))) { db with
      modelWallets := db.modelWallets.modify f.modelId u.apply u.keeps }) :
    Alone fair post (issue (.updateModelWallet f u) >>= k) db := by
  apply alone_issue
  intro o _
  simp only [exec, Db.updateModelWallet, hfind, hversion, if_true]
  exact hk

end helpers
end RedRoomRewards
