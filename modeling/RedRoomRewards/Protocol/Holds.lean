import RedRoomRewards.Alone.Commands
import RedRoomRewards.Process.History
import RedRoomRewards.Protocol.Ownership

/-! Holds under contention: how often one is executed, what it answers with, and which
stored items are its own. -/
namespace RedRoomRewards
open Process Store

section commands

/-- The command that begins an execution of a hold. -/
def Cmd.begins : Cmd → Bool
  | .findWallet _ => true
  | _ => false

/-- The escrow item that was stored, if one was. -/
def Cmd.made : (c : Cmd) → c.Reply → Option EscrowItem
  | .createEscrowItem _, r => Except.toOption r
  | _, _ => none

/-- The stored item that a command may change or delete. -/
def Cmd.changedItem : Cmd → Option String
  | .lockEscrowItem escrowId _ _ => some escrowId
  | .updateEscrowItem escrowId _ => some escrowId
  | .deleteEscrowItem escrowId => some escrowId
  | _ => none

/-- How many executions of a hold the history of its call has begun. -/
def executions (hist : List (Event Mongo Call)) : ℕ := hist.countP fun ev => ev.cmd.begins

/-- The user wallet updates that were committed, newest first. -/
def walletCommits (hist : List (Event Mongo Call)) : List (WalletFilter × WalletUpdate) :=
  hist.filterMap fun ev => ev.cmd.walletCommit ev.reply

/-- The items that were stored, newest first. -/
def itemsMade (hist : List (Event Mongo Call)) : List EscrowItem :=
  hist.filterMap fun ev => ev.cmd.made ev.reply

/-- The thread that has stored the item with this id, the last one if there were more. -/
def maker (log : List (Event Mongo Call)) (escrowId : String) : Option ℕ :=
  (log.find? fun ev => (ev.cmd.made ev.reply).any fun i => i.escrowId = escrowId).map Event.thread

/-- The stored items that thread `t` has made. -/
def itemsOf (s : Run) (t : ℕ) : List EscrowItem :=
  s.db.escrowItems.docs.filter fun i => maker s.log i.escrowId = some t

/-- The other threads neither lock, update nor delete an item that thread `t` has made. -/
def LeavesItems (t : ℕ) : Schedule
  | _, .spawn _ _ => True
  | s, .run t' _ => t' ≠ t → ∀ x ∈ s.pending t', ∀ escrowId ∈ x.2.changedItem, maker s.log escrowId ≠ some t

instance (t : ℕ) (s : Run) (l : Label Oracle Call) : Decidable (LeavesItems t s l) :=
  match l with
  | .spawn .. | .run .. => by dsimp only [LeavesItems]; infer_instance

end commands

section attempts

/-- What a hold has done so far. -/
structure HoldRecord where
  executions : ℕ := 0
  committed : Option (WalletFilter × WalletUpdate) := none
  item : Option EscrowItem := none

def HoldRecord.after (rec : HoldRecord) (c : Cmd) (r : c.Reply) : HoldRecord where
  executions := rec.executions + if c.begins = true then 1 else 0
  committed := (c.walletCommit r).or rec.committed
  item := (c.made r).or rec.item

/-- The response tells of the update that was committed and of the item that was stored last. -/
def HoldRecord.Answers (rec : HoldRecord) (request : EscrowHoldRequest) (response : EscrowHoldResponse) : Prop :=
  (∃ version, rec.committed = some (⟨request.userId, version, none⟩,
    .set response.newAvailableBalance response.escrowBalance (version + 1))) ∧
  ∃ i, rec.item = some i ∧ i.escrowId = response.escrowId

/-- A hold begins only so many executions, and answers with what it has done. -/
def attempts (config : Config) : Contract Mongo Call Response ServiceError HoldRecord where
  start := fun _ => {}
  next := fun _ rec c r => rec.after c r
  may := fun call rec c => ∀ request, call = .hold request → c.begins = true →
    rec.executions < config.wallet.maxRetryAttempts
  ends := fun call rec r => ∀ request, call = .hold request → ∀ x, r = .ok x →
    ∃ response, x = .hold response ∧ rec.Answers request response
  resumes := fun call call' rec => ∀ request, call = .hold request → call' = call ∧ rec = {}

/-- A command that leaves the record as it is. -/
def Cmd.Aside (c : Cmd) : Prop := c.begins = false ∧ ∀ r, c.walletCommit r = none ∧ c.made r = none

theorem HoldRecord.after_aside {c : Cmd} (hc : c.Aside) (rec : HoldRecord) (r : c.Reply) : rec.after c r = rec := by
  obtain ⟨hbegins, hrest⟩ := hc
  obtain ⟨hcommit, hmade⟩ := hrest r
  simp [HoldRecord.after, hbegins, hcommit, hmade]

variable {config : Config} {request : EscrowHoldRequest} {rec : HoldRecord} {α β : Type}

/-- The program keeps to the rules for holds. -/
private abbrev Tries (config : Config) (request : EscrowHoldRequest)
    (ends : HoldRecord → Except ServiceError α → Prop) (rec : HoldRecord) (p : Service α) : Prop :=
  Prog.Obeys ((attempts config).rules (system config) (.hold request)) ends rec p

private theorem tries_aside {ends : HoldRecord → Except ServiceError β → Prop} {p : Service α} {f : α → Service β}
    (hp : Within Cmd.Aside p) (hthrow : ∀ e, ends rec (.error e)) (hf : ∀ a, Tries config request ends rec (f a)) :
    Tries config request ends rec (p >>= f) := by
  induction p with
  | ret a => exact hf a
  | throw e => exact hthrow e
  | call c k ih =>
    obtain ⟨hc, hk⟩ := hp
    refine ⟨fun _ _ hbegins => ?_, fun r _ => ?_⟩
    · rw [hc.1] at hbegins
      cases hbegins
    · have hrest := ih r (hk r trivial)
      rwa [← rec.after_aside hc r] at hrest

private theorem tries_issue {ends : HoldRecord → Except ServiceError α → Prop} {c : Cmd} {k : c.Reply → Service α}
    (hc : c.begins = false) (hk : ∀ r, Possible c r → Tries config request ends (rec.after c r) (k r)) :
    Tries config request ends rec (issue c >>= k) := by
  refine ⟨fun _ _ hbegins => ?_, hk⟩
  rw [hc] at hbegins
  cases hbegins

private theorem aside_uuidv4 : Cmd.Aside .uuidv4 := ⟨rfl, fun _ => ⟨rfl, rfl⟩⟩
private theorem aside_now : Cmd.Aside .now := ⟨rfl, fun _ => ⟨rfl, rfl⟩⟩

private theorem aside_createEntry {config : LedgerService.Config} {entry : LedgerService.CreateLedgerEntryRequest} :
    Within Cmd.Aside (LedgerService.createEntry config entry) :=
  within_createEntry_of aside_uuidv4 aside_now (fun _ => ⟨rfl, fun _ => ⟨rfl, rfl⟩⟩)
    fun _ _ => ⟨rfl, fun _ => ⟨rfl, rfl⟩⟩

private theorem aside_publish {event : WalletEvent} : Within Cmd.Aside (WalletService.publish event) :=
  within_issue aside_uuidv4 fun _ => within_issue aside_now fun _ =>
    within_issue ⟨rfl, fun _ => ⟨rfl, rfl⟩⟩ fun _ => trivial

private theorem aside_claim {key scope : String} : Within Cmd.Aside (WalletService.claim key scope) := by
  refine within_bind (within_issue aside_now fun _ => within_issue aside_now fun _ =>
    within_issue ⟨rfl, fun _ => ⟨rfl, rfl⟩⟩ fun r => ?_) fun claimed => ?_
  · rcases r with (e | e | e) | r <;> trivial
  · unfold Prog.throwIf
    split <;> trivial

/-- How one execution ends that was the last of `n`. -/
private def Tried (request : EscrowHoldRequest) (n : ℕ) (rec : HoldRecord) : Except ServiceError EscrowHoldResponse → Prop
  | .ok response => rec.Answers request response
  | .error _ => rec.executions = n

private theorem tries_recordHold {n : ℕ} {wallet : Wallet} {escrowId : String} (hn : rec.executions = n)
    (hcommitted : rec.committed = some (⟨request.userId, wallet.version, none⟩,
      .set (wallet.availableBalance - request.amount) (wallet.escrowBalance + request.amount) (wallet.version + 1)))
    (hitem : ∃ i, rec.item = some i ∧ i.escrowId = escrowId) :
    Tries config request (Tried request n) rec
      (WalletService.recordHold config.wallet request wallet escrowId) := by
  apply tries_aside (within_issue aside_uuidv4 (k := Prog.ret) fun _ => trivial) (fun _ => hn)
  intro transactionId
  apply tries_aside (within_issue aside_now (k := Prog.ret) fun _ => trivial) (fun _ => hn)
  intro timestamp
  refine tries_aside aside_createEntry (fun _ => hn) fun _ => tries_aside aside_createEntry (fun _ => hn) fun _ => ?_
  exact tries_aside aside_publish (fun _ => hn) fun _ => ⟨⟨_, hcommitted⟩, hitem⟩

/-- What an execution does once it has read the wallet. -/
private def holdFrom (config : WalletService.Config) (request : EscrowHoldRequest) (wallet : Wallet) :
    Service EscrowHoldResponse := do
  Prog.throwIf (wallet.availableBalance < request.amount)
    (.insufficientBalance request.amount wallet.availableBalance)
  let escrowId : String ← issue .uuidv4
  let createdAt : Time ← issue .now
  let reply : Except MongoError EscrowItem ←
    issue (.createEscrowItem (WalletService.heldItem request escrowId createdAt))
  let _ ← created reply
  let updated : Option Wallet ← issue (.updateWallet ⟨request.userId, wallet.version, none⟩
    (.set (wallet.availableBalance - request.amount) (wallet.escrowBalance + request.amount) (wallet.version + 1)))
  match updated with
  | none => do
    let _ ← issue (.deleteEscrowItem escrowId)
    Prog.throw (.optimisticLock "wallet" request.userId)
  | some _ => WalletService.recordHold config request wallet escrowId

private theorem tries_holdFrom {n : ℕ} (wallet : Wallet) (hn : rec.executions = n) :
    Tries config request (Tried request n) rec (holdFrom config.wallet request wallet) := by
  refine (Prog.obeys_throwIf_bind _ _ _ _).mpr ⟨fun _ => hn, fun _ => ?_⟩
  refine tries_issue rfl fun escrowId _ => tries_issue rfl fun createdAt _ => tries_issue rfl fun reply hreply => ?_
  cases reply with
  | error e => exact hn
  | ok i =>
    obtain ⟨rfl, -⟩ := Possible.createEscrowItem hreply
    apply tries_issue rfl
    intro updated _
    cases updated with
    | none => exact tries_issue rfl fun _ _ => hn
    | some w => exact tries_recordHold hn rfl ⟨_, rfl, rfl⟩

/-- An execution begins once, by reading the wallet. -/
private theorem tries_executeHoldInEscrow (hleft : rec.executions < config.wallet.maxRetryAttempts) :
    Tries config request (Tried request (rec.executions + 1)) rec
      (WalletService.executeHoldInEscrow config.wallet request) := by
  show Tries config request _ rec (WalletService.getOrCreateWallet _ _ >>= holdFrom config.wallet request)
  refine (Prog.obeys_bind _ _ _).mpr ⟨fun _ _ _ => hleft, fun found _ => ?_⟩
  cases found with
  | some wallet => exact tries_holdFrom wallet rfl
  | none =>
    apply tries_issue rfl
    intro reply _
    cases reply with
    | error e => exact (rfl : rec.executions + 1 = _)
    | ok wallet => exact tries_holdFrom wallet rfl

private theorem tries_holdAttempts (left : ℕ) : ∀ rec : HoldRecord,
    rec.executions + left = config.wallet.maxRetryAttempts →
    Tries config request (fun rec r => ∀ response, r = .ok response → rec.Answers request response) rec
      (WalletService.holdAttempts config.wallet request left) := by
  induction left with
  | zero => exact fun rec _ response h => by cases h
  | succ left ih =>
    intro rec hleft
    refine (Prog.obeys_catching _ _ _).mpr ((tries_executeHoldInEscrow (by omega)).imp ?_)
    rintro rec' (e | response) htried
    · have hnext : rec'.executions + left = config.wallet.maxRetryAttempts := by
        have : rec'.executions = rec.executions + 1 := htried
        omega
      have hthrow : ∀ e : ServiceError, Tries config request (fun rec r => ∀ response : EscrowHoldResponse,
          r = .ok response → rec.Answers request response) rec' (Prog.throw e) := fun e response h => by cases h
      cases e with
      | optimisticLock type id =>
        show Tries config request _ rec' (if _ then _ else _)
        split
        · exact ih rec' hnext
        · exact hthrow _
      | _ => exact hthrow _
    · intro response' heq
      obtain rfl := Except.ok.inj heq
      exact htried

theorem attempts_kept (config : Config) : (attempts config).Kept (system config) where
  starts := fun _ _ _ => ⟨rfl, rfl⟩
  body := by
    intro call call' rec hresumes
    by_cases hhold : ∃ request, call = .hold request
    · obtain ⟨request, rfl⟩ := hhold
      obtain ⟨rfl, rfl⟩ := hresumes request rfl
      have hattempts : Tries config request (fun rec r => ∀ response, r = .ok response → rec.Answers request response)
          {} (WalletService.holdInEscrow config.wallet request) :=
        tries_aside aside_claim (fun _ _ h => by cases h) fun _ => tries_holdAttempts _ _ (Nat.zero_add _)
      refine (Prog.obeys_bind _ _ _).mpr (hattempts.imp ?_)
      rintro rec (e | response) hanswers
      · exact fun _ _ _ h => by cases h
      · intro request' heq x hx
        obtain rfl := Call.hold.inj heq
        cases hx
        exact ⟨response, rfl, hanswers response rfl⟩
    · have hnot : ∀ request, call ≠ .hold request := fun request heq => hhold ⟨request, heq⟩
      refine Prog.obeys_stable (P := fun _ => True) _ trivial (fun _ _ _ _ => trivial)
        (fun _ _ _ request heq => absurd heq (hnot request)) ?_
      rintro rec' (e | response | call'') -
      · exact fun request heq => absurd heq (hnot request)
      · exact fun request heq => absurd heq (hnot request)
      · exact fun request heq => absurd heq (hnot request)

end attempts

section records
variable {config : Config} {A : Schedule} {d : Db} {s : Run} {t : ℕ} {request : EscrowHoldRequest}

/-- The record of a hold is that of its history. -/
private theorem attempts_record (call : Call) (hist : List (Event Mongo Call)) :
    (attempts config).record call hist = ⟨executions hist, (walletCommits hist).head?, (itemsMade hist).head?⟩ := by
  induction hist with
  | nil => rfl
  | cons ev hist ih =>
    have hcons : (attempts config).record call (ev :: hist) =
        ((attempts config).record call hist).after ev.cmd ev.reply := rfl
    rw [hcons, ih, HoldRecord.after, executions, executions, walletCommits, walletCommits, itemsMade, itemsMade,
      List.countP_cons, List.filterMap_cons, List.filterMap_cons]
    congr 1
    · cases ev.cmd.walletCommit ev.reply <;> rfl
    · cases ev.cmd.made ev.reply <;> rfl

/-- A hold begins at most `maxRetryAttempts` executions. -/
theorem executions_le (h : (system config).Reaches A (.start d) s) (hcall : s.calls t = some (.hold request)) :
    executions (s.history t) ≤ config.wallet.maxRetryAttempts := by
  have hcount := (attempts_kept config).invariant (P := fun call hist rec => ∀ request, call = .hold request →
    rec.executions = executions hist ∧ executions hist ≤ config.wallet.maxRetryAttempts)
    (fun call _ _ => ⟨rfl, Nat.zero_le _⟩) ?_ h
  · exact (hcount t _ _ (by rw [Contract.track, hcall, Option.map_some]) request rfl).2
  · intro call hist rec t c r ih hmay _ request hhold
    obtain ⟨heq, hle⟩ := ih request hhold
    have hafter : ((attempts config).next call rec c r).executions =
        rec.executions + if c.begins = true then 1 else 0 := rfl
    rw [executions, List.countP_cons, ← executions, hafter, heq]
    refine ⟨rfl, ?_⟩
    split
    · rename_i hbegins
      have := hmay request hhold hbegins
      omega
    · exact hle

/-- A hold that has returned answers with its last committed update and the last item it
has stored. -/
theorem hold_answers (h : (system config).Reaches A (.start d) s) (hcall : s.calls t = some (.hold request))
    {r : Response} (hr : s.result t = some (.ok r)) : ∃ response, r = .hold response ∧
      (∃ version, (walletCommits (s.history t)).head? = some (⟨request.userId, version, none⟩,
        .set response.newAvailableBalance response.escrowBalance (version + 1))) ∧
      ∃ i, (itemsMade (s.history t)).head? = some i ∧ i.escrowId = response.escrowId := by
  obtain ⟨response, hresponse, hanswers⟩ := (attempts_kept config).ends h
    (by rw [Contract.track, hcall, Option.map_some]) hr request rfl r rfl
  rw [attempts_record] at hanswers
  exact ⟨response, hresponse, hanswers⟩

end records

section making
variable {op : Operation} {tr : Track} {i : EscrowItem}

/-- The item a call makes after a command is the one it has just stored or the one it made
before, and then it has stored no other. -/
theorem Track.makes_after {c : Cmd} {r : c.Reply} (hi : (tr.after op c r).stage.Makes i) :
    c.made r = some i ∨ c.made r = none ∧ tr.stage.Makes i := by
  cases c with
  | createEscrowItem j =>
    cases r with
    | ok j' => exact .inl (congrArg some hi)
    | error e => exact .inr ⟨rfl, hi⟩
  | createIdempotencyRecord record =>
    cases r with
    | ok record' => exact hi.elim
    | error e => exact .inr ⟨rfl, hi⟩
  | updateWallet f u =>
    cases r with
    | none => exact .inr ⟨rfl, (Stage.keeps_userMissed op _).makes i hi⟩
    | some w => exact .inr ⟨rfl, (Stage.keeps_userPaid op _).makes i hi⟩
  | updateModelWallet f u =>
    cases r with
    | none => exact .inr ⟨rfl, (Stage.keeps_modelMissed op _).makes i hi⟩
    | some m => exact .inr ⟨rfl, (Stage.keeps_modelPaid op _).makes i hi⟩
  | lockEscrowItem escrowId status at' =>
    cases r with
    | none => exact .inr ⟨rfl, hi⟩
    | some j => exact hi.elim
  | updateEscrowItem escrowId u =>
    refine .inr ⟨rfl, ?_⟩
    cases hstage : tr.stage with
    | created j | conflicted j | charged j =>
      simp only [Track.after, hstage] at hi
      exact hi
    | _ =>
      simp only [Track.after, hstage] at hi
      exact hi.elim
  | deleteEscrowItem escrowId => exact hi.elim
  | _ => exact .inr ⟨rfl, hi⟩

/-- A hold keeps its item until it deletes it. -/
theorem Track.makes_kept {request : EscrowHoldRequest} {c : Cmd} {r : c.Reply}
    (hmay : (Operation.hold request).Permits tr c) (hchanged : c.changedItem = none) (hmade : c.made r = none)
    (hi : tr.stage.Makes i) : (tr.after (.hold request) c r).stage.Makes i := by
  cases c with
  | createIdempotencyRecord record =>
    rw [hmay.1] at hi
    exact hi.elim
  | updateWallet f u =>
    obtain ⟨w, -, -, -, ⟨j, hstage⟩, -⟩ := hmay
    rw [hstage] at hi
    cases r with
    | none =>
      simp only [Track.after, Track.updatedWallet, hstage]
      exact hi
    | some w' =>
      simp only [Track.after, Track.updatedWallet, hstage]
      exact hi
  | updateModelWallet f u =>
    obtain ⟨m, -, -, -, hcredit⟩ := hmay
    exact hcredit.elim
  | createEscrowItem j =>
    cases r with
    | ok j' => cases hmade
    | error e => exact hi
  | lockEscrowItem escrowId status at' => cases hchanged
  | updateEscrowItem escrowId u => cases hchanged
  | deleteEscrowItem escrowId => cases hchanged
  | _ => exact hi

end making

section items
variable {s : Run} {t t' : ℕ} {call : Call} {c : Cmd} {o : Oracle} {db : Db} {i : EscrowItem}
  {log : List (Event Mongo Call)}

theorem mem_itemsOf : i ∈ itemsOf s t ↔
    s.db.escrowItems.find i.escrowId = some i ∧ maker s.log i.escrowId = some t := by
  rw [itemsOf, List.mem_filter, Collection.find_eq_some, decide_eq_true_eq, and_iff_left rfl]

theorem maker_made (ev : Event Mongo Call) (h : ev.cmd.made ev.reply = some i) :
    maker (ev :: log) i.escrowId = some ev.thread := by
  rw [maker, List.find?_cons_of_pos, Option.map_some]
  simp [h]

theorem maker_other {ev : Event Mongo Call} {escrowId : String}
    (h : ∀ i, ev.cmd.made ev.reply = some i → i.escrowId ≠ escrowId) :
    maker (ev :: log) escrowId = maker log escrowId := by
  rw [maker, List.find?_cons_of_neg, maker]
  cases hmade : ev.cmd.made ev.reply with
  | none => simp
  | some i => simpa using h i hmade

/-- A thread that has done nothing has made no item. -/
theorem itemsOf_of_silent (h : s.history t = []) : itemsOf s t = [] := by
  apply List.filter_eq_nil_iff.mpr
  intro i _ hmaker
  obtain ⟨ev, hfind, hthread⟩ := Option.map_eq_some_iff.mp (decide_eq_true_eq.mp hmaker)
  have hmem : ev ∈ s.history t := s.mem_history.mpr ⟨List.mem_of_find?_eq_some hfind, hthread⟩
  rw [h] at hmem
  cases hmem

/-- A command stores a new item, or leaves every item it does not name. -/
private theorem exec_items (o : Oracle) (db : Db) (c : Cmd) :
    (∃ i, c = .createEscrowItem i ∧ c.made (exec o db c).1 = some i ∧ db.escrowItems.Free i ∧
      (exec o db c).2.escrowItems = db.escrowItems.insert i) ∨
    c.made (exec o db c).1 = none ∧ ∀ escrowId, escrowId ∉ c.changedItem →
      (exec o db c).2.escrowItems.find escrowId = db.escrowItems.find escrowId := by
  cases c with
  | createEscrowItem i =>
    simp only [exec]
    rcases create_cases db.escrowItems i i.invalid ["escrowId", "queueItemId"] with ⟨e, he⟩ | ⟨-, hfree, hok⟩
    · rw [he]
      exact .inr ⟨rfl, fun _ _ => rfl⟩
    · rw [hok]
      exact .inl ⟨i, rfl, rfl, hfree, rfl⟩
  | lockEscrowItem escrowId status at' =>
    refine .inr ⟨rfl, fun escrowId' hne => ?_⟩
    have hne' : escrowId' ≠ escrowId := fun h => hne (h ▸ rfl)
    simp only [exec, Db.lockEscrowItem]
    cases db.escrowItems.find escrowId with
    | none => rfl
    | some i =>
      by_cases hheld : i.status = .held
      · simp only [hheld, if_true]
        exact Collection.find_modify_ne hne' _ (lockUpdate status at').keeps
      · simp only [hheld, if_false]
  | updateEscrowItem escrowId u =>
    exact .inr ⟨rfl, fun _ hne => Collection.find_modify_ne (fun h => hne (by rw [h]; rfl)) _ u.keeps⟩
  | deleteEscrowItem escrowId =>
    exact .inr ⟨rfl, fun _ hne => Collection.find_erase_ne fun h => hne (by rw [h]; rfl)⟩
  | _ =>
    refine .inr ⟨rfl, fun _ _ => ?_⟩
    rw [(exec_frame o db _).escrowItems (by simp [Cmd.touches])]

variable {k : c.Reply → Service (Next Call Response)} {config : Config}

/-- A command that changes none of the items of `t` and stores none for it leaves them. -/
private theorem itemsOf_acted (hleaves : ∀ escrowId ∈ c.changedItem, maker s.log escrowId ≠ some t)
    (hothers : t' = t → c.made (exec o s.db c).1 = none) :
    i ∈ itemsOf ((system config).acted s t' o call c k) t ↔ i ∈ itemsOf s t := by
  rw [mem_itemsOf, mem_itemsOf, Machine.acted_db, Machine.acted_log, system_exec]
  rcases exec_items o s.db c with ⟨j, -, hmade, hfree, hitems⟩ | ⟨hmade, hkept⟩
  · have hne : t' ≠ t := fun heq => by
      rw [hothers heq] at hmade
      cases hmade
    rw [hitems]
    by_cases hid : i.escrowId = j.escrowId
    · rw [hid, maker_made ⟨t', call, c, (exec o s.db c).1⟩ hmade, hfree.find]
      exact ⟨fun h => absurd (Option.some.inj h.2) hne, fun h => by cases h.1⟩
    · rw [Collection.find_insert_ne hfree hid, maker_other]
      intro i' hi'
      obtain rfl : j = i' := Option.some.inj (hmade.symm.trans hi')
      exact Ne.symm hid
  · have hmaker : maker (⟨t', call, c, (exec o s.db c).1⟩ :: s.log) i.escrowId = maker s.log i.escrowId :=
      maker_other fun i' hi' => by
        rw [hmade] at hi'
        cases hi'
    rw [hmaker]
    apply and_congr_left
    intro hown
    rw [hkept _ fun hmem => hleaves _ hmem hown]

/-- The items of a hold are those it makes, after each of its own commands. -/
private theorem itemsOf_own {tr : Track} {request : EscrowHoldRequest}
    (hmay : (Operation.hold request).Permits tr c) (hown : ∀ i, i ∈ itemsOf s t ↔ tr.stage.Makes i) :
    i ∈ itemsOf ((system config).acted s t o call c k) t ↔
      (tr.after (.hold request) c (exec o s.db c).1).stage.Makes i := by
  rcases exec_items o s.db c with ⟨j, rfl, hmade, hfree, hitems⟩ | ⟨hmade, hkept⟩
  · -- before it stores an item a hold has none
    have hnone : i ∉ itemsOf s t := fun hi => by
      have hstage := (hown i).mp hi
      rw [hmay.1] at hstage
      exact hstage
    have hafter : (tr.after (.hold request) (.createEscrowItem j) (exec o s.db (.createEscrowItem j)).1).stage =
        .created j := by
      cases hreply : (exec o s.db (.createEscrowItem j)).1 with
      | error e =>
        rw [hreply] at hmade
        cases hmade
      | ok j' =>
        rw [hreply] at hmade
        exact congrArg Stage.created (Option.some.inj hmade)
    rw [hafter, mem_itemsOf, Machine.acted_db, Machine.acted_log, system_exec, hitems]
    rw [mem_itemsOf] at hnone
    by_cases hid : i.escrowId = j.escrowId
    · rw [hid, maker_made ⟨t, call, _, _⟩ hmade, Collection.find_insert hfree, if_pos rfl, and_iff_left rfl]
      exact Option.some_inj
    · rw [Collection.find_insert_ne hfree hid, maker_other]
      · exact ⟨fun hi => absurd hi hnone, fun hi => absurd (congrArg EscrowItem.escrowId hi).symm hid⟩
      · intro i' hi'
        obtain rfl : j = i' := Option.some.inj (hmade.symm.trans hi')
        exact Ne.symm hid
  · cases hchanged : c.changedItem with
    | none =>
      rw [itemsOf_acted (by simp [hchanged]) fun _ => hmade, hown]
      constructor
      · exact fun hi => tr.makes_kept hmay hchanged hmade hi
      · intro hi
        rcases tr.makes_after hi with hnew | ⟨-, hold⟩
        · rw [hmade] at hnew
          cases hnew
        · exact hold
    | some escrowId =>
      -- the only item a hold changes is the one it deletes
      cases c with
      | lockEscrowItem escrowId status at' => cases hmay.2.1
      | updateEscrowItem escrowId u => cases hmay.1
      | deleteEscrowItem escrowId =>
        obtain ⟨j, hstage, rfl⟩ := hmay
        have hgone : (tr.after (.hold request) (.deleteEscrowItem j.escrowId) ()).stage = .ready := rfl
        refine ⟨fun hi => ?_, fun hi => hi.elim⟩
        rw [mem_itemsOf, Machine.acted_db, Machine.acted_log, system_exec, maker_other fun i' hi' => by cases hi'] at hi
        obtain ⟨hfind, hmaker⟩ := hi
        by_cases hid : i.escrowId = j.escrowId
        · simp only [exec, Collection.find_erase, hid, if_true] at hfind
          cases hfind
        · simp only [exec] at hfind
          rw [Collection.find_erase_ne hid] at hfind
          have hi := (hown i).mp (mem_itemsOf.mpr ⟨hfind, hmaker⟩)
          rw [hstage] at hi
          exact absurd (congrArg EscrowItem.escrowId hi).symm hid
      | _ => cases hchanged

end items

section runs
variable {config : Config} {A : Schedule} {d : Db} {s : Run} {t : ℕ} {request : EscrowHoldRequest}

/-- At any time the stored items of a hold are those that its stage says it makes. -/
theorem itemsOf_hold (hleaves : ∀ s l, A s l → LeavesItems t s l) (h : (system config).Reaches A (.start d) s)
    (hcall : s.calls t = some (.hold request)) {i : EscrowItem} :
    i ∈ itemsOf s t ↔ (protocol.record (.hold request) (s.history t)).stage.Makes i := by
  induction h using Machine.Reaches.by_steps generalizing i with
  | start => cases hcall
  | spawn s t' c hs _ ht ih =>
    rw [Machine.spawned_history]
    by_cases htt : t = t'
    · subst htt
      have hsilent := hs.history_of_unspawned (t := t) (by simp [State.calls, ht])
      rw [itemsOf_of_silent (by rw [Machine.spawned_history, hsilent]), hsilent]
      exact ⟨fun hi => (List.not_mem_nil hi).elim, fun hi => hi.elim⟩
    · rw [Machine.spawned_calls, Function.update_of_ne htt] at hcall
      exact ih hcall
  | act s t' o call c k hs hstep ht ih =>
    rw [Machine.acted_calls ht] at hcall
    by_cases htt : t' = t
    · subst htt
      obtain rfl := Option.some.inj ((State.calls_of_thread ht).symm.trans hcall)
      rw [Machine.acted_history_self]
      have hmay := ((protocol_kept config).may hs ht).resolve_left fun hother => by cases hother
      exact itemsOf_own hmay fun i => ih hcall
    · rw [Machine.acted_history_ne _ _ _ _ _ (Ne.symm htt),
        itemsOf_acted (fun escrowId hmem => hleaves _ _ hstep htt (call, c) (by simp [State.pending, ht]) _ hmem)
          fun heq => absurd heq htt]
      exact ih hcall
  | restart s t' o call c hs _ ht ih =>
    rw [Machine.restarted_calls ht] at hcall
    exact ih hcall

/-- The item a call makes is the one it has stored last. -/
theorem last_made (h : (system config).Reaches A (.start d) s) {call : Call} {tr : Track} {i : EscrowItem}
    (htr : protocol.track s t = some (call, tr)) (hi : tr.stage.Makes i) :
    (itemsMade (s.history t)).head? = some i := by
  refine (protocol_kept config).invariant (P := fun _ hist tr => ∀ i, tr.stage.Makes i →
    (itemsMade hist).head? = some i) (fun _ _ hi => hi.elim) ?_ h t call tr htr i hi
  intro call hist tr t c r ih _ _ i hi
  rw [itemsMade, List.filterMap_cons]
  rcases tr.makes_after hi with hnew | ⟨hnone, hold⟩
  · rw [hnew, List.head?_cons]
  · rw [hnone]
    exact ih i hold

end runs
end RedRoomRewards
