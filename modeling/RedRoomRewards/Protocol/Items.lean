import RedRoomRewards.Protocol.Accounts

/-! What one command of a service call does to the escrow items and to the
call's own stage. -/
namespace RedRoomRewards
open Process Store

/-- An update of an item changes neither of its unique fields. -/
theorem EscrowItemUpdate.keeps (u : EscrowItemUpdate) :
    Collection.Keeps EscrowItem.escrowId EscrowItem.queueItemId u.apply := fun _ => ⟨rfl, rfl⟩

/-- An item is locked by the command that found it held. -/
def Cmd.locked : (c : Cmd) → c.Reply → Option EscrowItem
  | .lockEscrowItem .., r => r
  | _, _ => none

/-- The command that gives up the lock on an item. -/
def Cmd.Unlocks : Cmd → Prop
  | .updateEscrowItem .. => True
  | _ => False

/-- The update that locks an item. -/
def lockUpdate (status : EscrowStatus) (processedAt : Time) : EscrowItemUpdate :=
  ⟨status, some (some processedAt), none⟩

section effect
variable (op : Operation) (tr : Track) (items : EscrowItems)

inductive ItemEffect : (c : Cmd) → c.Reply → EscrowItems → Prop where
  | silent {c : Cmd} {r : c.Reply} (hstage : (tr.after op c r).stage = tr.stage)
      (hwallet : c.walletCommit r = none) (hmodel : c.modelCommit r = none)
      (hlocked : c.locked r = none) (hunlocks : ¬ c.Unlocks) : ItemEffect c r items
  | claimed (record : IdempotencyRecord) (hstage : tr.stage = .opening)
      (hclaim : op.claim = some record.claim) :
      ItemEffect (.createIdempotencyRecord record) (.ok record) items
  | paid (f : WalletFilter) (u : WalletUpdate) (w w' : Wallet) (hw : w ∈ tr.wallets)
      (hreads : f.Reads w) (happly : u.apply w = w.post (op.delta u)) (hpay : op.MayPay tr w u) :
      ItemEffect (.updateWallet f u) (some w') items
  | missed (f : WalletFilter) (u : WalletUpdate) (w : Wallet) (hpay : op.MayPay tr w u) :
      ItemEffect (.updateWallet f u) none items
  | credited (f : ModelWalletFilter) (u : ModelWalletUpdate) (m m' : ModelWallet)
      (hcredit : op.MayCredit tr m) : ItemEffect (.updateModelWallet f u) (some m') items
  | uncredited (f : ModelWalletFilter) (u : ModelWalletUpdate) (m : ModelWallet)
      (hcredit : op.MayCredit tr m) : ItemEffect (.updateModelWallet f u) none items
  | created (i : EscrowItem) (hcreate : op.MayCreate tr i) (hfree : items.Free i)
      (hamount : 0 ≤ i.amount) : ItemEffect (.createEscrowItem i) (.ok i) (items.insert i)
  | locked (i : EscrowItem) (t : Time) (hstage : tr.stage = .ready)
      (htarget : op.target = some i.escrowId) (hfind : items.find i.escrowId = some i)
      (hheld : i.status = .held) :
      ItemEffect (.lockEscrowItem i.escrowId op.lockStatus t) (some i)
        (items.modify i.escrowId (lockUpdate op.lockStatus t).apply (lockUpdate op.lockStatus t).keeps)
  | unlocked (escrowId : String) (u : EscrowItemUpdate) (hunlock : op.MayUnlock tr escrowId u) :
      ItemEffect (.updateEscrowItem escrowId u) () (items.modify escrowId u.apply u.keeps)
  | deleted (i : EscrowItem) (hstage : tr.stage = .conflicted i) :
      ItemEffect (.deleteEscrowItem i.escrowId) () (items.erase i.escrowId)

variable {op} {tr}

theorem item_effect {db : Db} {c : Cmd} (o : Oracle) (hmay : op.Permits tr c) :
    ItemEffect op tr db.escrowItems c (exec o db c).1 (exec o db c).2.escrowItems := by
  cases c with
  | createIdempotencyRecord record =>
    rw [(exec_frame o db _).escrowItems (by simp [Cmd.touches])]
    simp only [exec]
    rcases create_cases db.records record record.invalid ["pointsIdempotencyKey", "eventScope"]
      with ⟨e, he⟩ | ⟨-, -, hok⟩
    · rw [he]
      exact .silent rfl rfl rfl rfl id
    · rw [hok]
      exact .claimed record hmay.1 hmay.2
  | updateWallet f u =>
    rw [(exec_frame o db _).escrowItems (by simp [Cmd.touches])]
    obtain ⟨w, hw, hreads, happly, hpay⟩ := hmay
    cases (exec o db (.updateWallet f u)).1 with
    | none => exact .missed f u w hpay
    | some w' => exact .paid f u w w' hw hreads happly hpay
  | updateModelWallet f u =>
    rw [(exec_frame o db _).escrowItems (by simp [Cmd.touches])]
    obtain ⟨m, -, -, -, hcredit⟩ := hmay
    cases (exec o db (.updateModelWallet f u)).1 with
    | none => exact .uncredited f u m hcredit
    | some m' => exact .credited f u m m' hcredit
  | createEscrowItem i =>
    simp only [exec]
    rcases create_cases db.escrowItems i i.invalid ["escrowId", "queueItemId"]
      with ⟨e, he⟩ | ⟨hvalid, hfree, hok⟩
    · rw [he]
      exact .silent rfl rfl rfl rfl id
    · rw [hok]
      refine .created i hmay hfree ?_
      by_contra hneg
      simp [EscrowItem.invalid, invalidPaths, hneg] at hvalid
  | lockEscrowItem escrowId status t =>
    obtain ⟨hstage, htarget, rfl⟩ := hmay
    simp only [exec, Db.lockEscrowItem]
    cases hfind : db.escrowItems.find escrowId with
    | none => exact .silent rfl rfl rfl rfl id
    | some i =>
      obtain rfl := Collection.key_of_find hfind
      by_cases hheld : i.status = .held
      · simp only [hheld, if_true]
        exact .locked i t hstage htarget hfind hheld
      · simp only [hheld, if_false]
        exact .silent rfl rfl rfl rfl id
  | updateEscrowItem id u => exact .unlocked id u hmay
  | deleteEscrowItem id =>
    obtain ⟨i, hstage, rfl⟩ := hmay
    exact .deleted i hstage
  | _ =>
    rw [(exec_frame o db _).escrowItems]
    · exact .silent rfl rfl rfl rfl id
    · simp [Cmd.touches]

end effect

/-- What a step of a run does to the items and to the stage of its call. -/
theorem acted_items {config : Config} {A : Schedule} {d : Db} {s : Run} {t : ℕ} {call : Call} {c : Cmd}
    {k : c.Reply → Service (Next Call Response)} (hA : Serves A)
    (h : (system config).Reaches A (.start d) s)
    (ht : s.threads t = some ⟨call, .call (I := Mongo) c k⟩) (o : Oracle) :
    ItemEffect call.operation (protocol.record call (s.history t)) s.db.escrowItems c (exec o s.db c).1
      (exec o s.db c).2.escrowItems := item_effect o (permitted hA h ht)

end RedRoomRewards
