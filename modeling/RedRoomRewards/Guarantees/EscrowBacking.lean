import RedRoomRewards.Guarantees.Conservation
import RedRoomRewards.Protocol.Secrecy
import RedRoomRewards.Service.Doubles

/-! Escrow balances are backed by escrow items: whenever no call is in flight, a
user's escrow balance is what the user's open items add up to. -/
namespace RedRoomRewards
open Process Store Arithmetic

/-- Holds, full settlements and refunds. -/
def Call.isBacking : Call → Bool
  | .hold _ | .redeem _ | .settle .. | .refund .. => true
  | _ => false

def Operation.isBacking : Operation → Bool
  | hold _ | settle _ | refund _ => true
  | _ => false

theorem Call.operation_isBacking {call : Call} (h : call.isBacking = true) :
    call.operation.isBacking = true := by
  cases call <;> first | rfl | cases h

/-- The item has been neither settled nor refunded. -/
def EscrowItem.isOpen (i : EscrowItem) : Bool := i.status ≠ .settled && i.status ≠ .refunded

/-- The sum of the amounts of a user's open items. -/
def Db.heldFor (db : Db) (userId : String) : ℚ :=
  db.escrowItems.total fun i => if i.userId = userId ∧ i.isOpen then i.amount else 0

/-- Holds, settlements and refunds that agree with the items they close and learn of
them only once they are paid for. -/
def Faithful : Schedule := fun s l => only Call.isBacking s l ∧ Discreet s l ∧ State.Issues NamesItem s l

instance (s : Run) (l : Label Oracle Call) : Decidable (Faithful s l) :=
  inferInstanceAs (Decidable (_ ∧ _ ∧ _))

section weights

/-- The item is stored, but its user's wallet does not count it yet or any more. -/
def Stage.Moves (id : String) : Stage → Prop
  | created i | conflicted i | paid i => i.escrowId = id
  | _ => False

/-- Some call has the item between its two writes. -/
def Transit (track : ℕ → Option (Call × Track)) (id : String) : Prop :=
  ∃ t x, track t = some x ∧ x.2.stage.Moves id

open Classical in
/-- What an item adds to the escrow balance of a user. -/
noncomputable def weight (track : ℕ → Option (Call × Track)) (userId : String) (i : EscrowItem) : ℚ :=
  if i.userId = userId ∧ i.isOpen ∧ ¬ Transit track i.escrowId then i.amount else 0

variable {track : ℕ → Option (Call × Track)} {t : ℕ} {call : Call} {tr tr' : Track} {id userId : String}
  {i j : EscrowItem} {items : EscrowItems}

theorem Stage.Moves.owing {stage : Stage} (h : stage.Moves id) : stage.Owing := by
  cases stage with
  | created i | conflicted i | paid i => trivial
  | _ => exact h.elim

theorem Stage.Hides.makes {stage : Stage} (h : stage.Hides i) : stage.Makes i := by
  cases stage with
  | created j | conflicted j => exact h
  | _ => exact h.elim

theorem Stage.Moves.hides_or_closes {stage : Stage} (h : stage.Moves id) :
    ∃ i, i.escrowId = id ∧ (stage.Hides i ∨ stage.Closes i) := by
  cases stage with
  | created i | conflicted i => exact ⟨i, h, .inl rfl⟩
  | paid i => exact ⟨i, h, .inr rfl⟩
  | _ => exact h.elim

theorem transit_update (ht : track t = some (call, tr)) (h : tr'.stage.Moves id ↔ tr.stage.Moves id) :
    Transit (Function.update track t (some (call, tr'))) id ↔ Transit track id := by
  constructor
  · rintro ⟨t', x, hx, hmoves⟩
    rw [Function.update_apply] at hx
    split at hx
    · obtain rfl := Option.some.inj hx
      exact ⟨t, _, ht, h.mp hmoves⟩
    · exact ⟨t', x, hx, hmoves⟩
  · rintro ⟨t', x, hx, hmoves⟩
    by_cases htt : t' = t
    · subst htt
      obtain rfl := Option.some.inj (ht.symm.trans hx)
      exact ⟨t', _, Function.update_self .., h.mpr hmoves⟩
    · exact ⟨t', x, by rwa [Function.update_of_ne htt], hmoves⟩

theorem weight_update (ht : track t = some (call, tr))
    (h : tr'.stage.Moves i.escrowId ↔ tr.stage.Moves i.escrowId) :
    weight (Function.update track t (some (call, tr'))) userId i = weight track userId i := by
  classical
  exact if_congr (by rw [transit_update ht h]) rfl rfl

/-- A call that begins has nothing in transit. -/
theorem weight_spawn (ht : track t = none) :
    weight (Function.update track t (some (call, {}))) userId = weight track userId := by
  have htransit : ∀ id, Transit (Function.update track t (some (call, {}))) id ↔ Transit track id := by
    refine fun id => ⟨fun ⟨t', x, hx, hmoves⟩ => ?_, fun ⟨t', x, hx, hmoves⟩ => ?_⟩
    · rw [Function.update_apply] at hx
      split at hx
      · obtain rfl := Option.some.inj hx
        exact hmoves.elim
      · exact ⟨t', x, hx, hmoves⟩
    · have htt : t' ≠ t := by
        rintro rfl
        rw [ht] at hx
        cases hx
      exact ⟨t', x, by rwa [Function.update_of_ne htt], hmoves⟩
  funext i
  classical
  exact if_congr (by rw [htransit]) rfl rfl

theorem weight_transit (h : Transit track i.escrowId) : weight track userId i = 0 := by
  rw [weight, if_neg fun hcounts => hcounts.2.2 h]

theorem weight_closed (h : i.isOpen = false) : weight track userId i = 0 := by
  rw [weight, if_neg fun hcounts => Bool.false_ne_true (h.symm.trans hcounts.2.1)]

theorem weight_open (hopen : i.isOpen = true) (h : ¬ Transit track i.escrowId) :
    weight track userId i = if i.userId = userId then i.amount else 0 := by
  simp [weight, hopen, h]

/-- What the runs below keep at any time: each item has one owner, and nobody names
an item before it is paid for. -/
structure Steady (items : EscrowItems) (track : ℕ → Option (Call × Track)) : Prop where
  owned : Owned items track
  hidden : Hidden track
  suits : ∀ t x, track t = some x → x.1.operation.Suits x.2.ids x.2.stage

/-- A call that hides or closes an item is the only one that can have it in transit. -/
private theorem Steady.moved_by (h : Steady items track) {t' : ℕ} {x x' : Call × Track}
    (ht : track t = some x) (hi : x.2.stage.Hides i ∨ x.2.stage.Closes i) (hx' : track t' = some x')
    (hmoves : x'.2.stage.Moves i.escrowId) : t' = t := by
  obtain ⟨i', hid, hi'⟩ := hmoves.hides_or_closes
  rcases hi with hi | hi <;> rcases hi' with hi' | hi'
  · exact h.owned.makers _ _ _ _ i' i hx' ht hi'.makes hi.makes hid
  · have htarget := (h.suits t' x' hx').closes hi'
    exact absurd (hid ▸ htarget) (h.hidden t t' x x' i ht hx' hi)
  · have htarget := (h.suits t x ht).closes hi
    exact absurd (hid.symm ▸ htarget) (h.hidden t' t x' x i' hx' ht hi')
  · exact h.owned.closers _ _ _ _ i' i hx' ht hi' hi hid

/-- An update that leaves an item open leaves its weight. -/
theorem weight_apply (u : EscrowItemUpdate) (hopen : i.isOpen = true) (hopen' : (u.apply i).isOpen = true) :
    weight track userId (u.apply i) = weight track userId i := by
  classical
  exact if_congr (by rw [hopen, hopen']; exact .rfl) rfl rfl

theorem isOpen_of_held (h : i.status = .held) : i.isOpen = true := by simp [EscrowItem.isOpen, h]

theorem isOpen_of_lockStatus {op : Operation} (h : i.status = op.lockStatus) : i.isOpen = true := by
  cases op <;> simp [EscrowItem.isOpen, h, Operation.lockStatus]

theorem isOpen_of_finalStatus {op : Operation} (h : i.status = op.finalStatus) : i.isOpen = false := by
  cases op <;> simp [EscrowItem.isOpen, h, Operation.finalStatus]

end weights

section step
variable {track : ℕ → Option (Call × Track)} {t : ℕ} {call : Call} {tr tr' : Track} {userId : String}
  {i j : EscrowItem} {items items' : EscrowItems} {c : Cmd} {r : c.Reply}

/-- What the items of one identifier add to the escrow balance of a user. -/
noncomputable def share (items : EscrowItems) (track : ℕ → Option (Call × Track)) (userId id : String) : ℚ :=
  (items.find id).elim 0 (weight track userId)

/-- A step of a call changes the sum of all weights by what it does to one item. -/
private theorem total_weight (ht : track t = some (call, tr)) (userId id : String)
    (hfind : ∀ id' ≠ id, items'.find id' = items.find id')
    (hmoves : ∀ id' ≠ id, tr'.stage.Moves id' ↔ tr.stage.Moves id') :
    items'.total (weight (Function.update track t (some (call, tr'))) userId) =
      items.total (weight track userId) - share items track userId id +
        share items' (Function.update track t (some (call, tr'))) userId id := by
  apply Collection.total_of_find id
  intro id' hid'
  rw [hfind id' hid']
  cases hj : items.find id' with
  | none => rfl
  | some j =>
    apply weight_update ht
    rw [Collection.key_of_find hj]
    exact hmoves id' hid'

private theorem share_of_find (hfind : items.find i.escrowId = some j) :
    share items track userId i.escrowId = weight track userId j := by
  rw [share, hfind, Option.elim_some]

private theorem share_modify {id : String} {u : EscrowItemUpdate} (hfind : items.find id = some j) :
    share (items.modify id u.apply u.keeps) track userId id = weight track userId (u.apply j) := by
  rw [share, Collection.find_modify, if_pos rfl, hfind]
  rfl

private theorem Steady.not_transit (h : Steady items track) (ht : track t = some (call, tr))
    (hi : tr.stage.Hides i ∨ tr.stage.Closes i) (hnot : ¬ tr.stage.Moves i.escrowId) :
    ¬ Transit track i.escrowId := by
  rintro ⟨t', x, hx, hmoves⟩
  obtain rfl := h.moved_by ht hi hx hmoves
  obtain rfl := Option.some.inj (ht.symm.trans hx)
  exact hnot hmoves

private theorem Steady.not_transit_update (h : Steady items track) (ht : track t = some (call, tr))
    (hi : tr.stage.Hides i ∨ tr.stage.Closes i) (hnot : ¬ tr'.stage.Moves i.escrowId) :
    ¬ Transit (Function.update track t (some (call, tr'))) i.escrowId := by
  rintro ⟨t', x, hx, hmoves⟩
  rw [Function.update_apply] at hx
  split at hx
  · obtain rfl := Option.some.inj hx
    exact hnot hmoves
  · rename_i htt
    exact htt (h.moved_by ht hi hx hmoves)

/-- The item of a hold counts once the wallet has been debited. -/
private theorem Steady.share_charged (h : Steady items track) (ht : track t = some (call, tr))
    (hstage : tr.stage = .created i) (hstage' : tr'.stage = .charged i) (userId : String) :
    share items track userId i.escrowId = 0 ∧
      share items (Function.update track t (some (call, tr'))) userId i.escrowId =
        if i.userId = userId then i.amount else 0 := by
  obtain ⟨j, hfind, hsame, hstatus⟩ := h.owned.owns t _ ht i (.inl (by rw [hstage]; rfl))
  have hheld : j.status = .held := hstatus .held (by rw [hstage]; rfl)
  have hid := Collection.key_of_find hfind
  have hbefore : Transit track j.escrowId := ⟨t, _, ht, by rw [hstage, hid]; rfl⟩
  have hafter : ¬ Transit (Function.update track t (some (call, tr'))) j.escrowId := by
    rw [hid]
    exact h.not_transit_update ht (.inl (by rw [hstage]; rfl)) (by rw [hstage']; exact id)
  rw [share_of_find hfind, share_of_find hfind, weight_transit hbefore,
    weight_open (isOpen_of_held hheld) hafter, hsame.userId, hsame.amount]
  exact ⟨rfl, rfl⟩

/-- The item of a settlement or refund counts until the wallet has been debited. -/
private theorem Steady.share_paid (h : Steady items track) (ht : track t = some (call, tr))
    (hlocks : tr.stage.Locks i) (hnot : ¬ tr.stage.Moves i.escrowId) (hstage' : tr'.stage = .paid i)
    (userId : String) :
    share items track userId i.escrowId = (if i.userId = userId then i.amount else 0) ∧
      share items (Function.update track t (some (call, tr'))) userId i.escrowId = 0 := by
  obtain ⟨j, hfind, hsame, hstatus⟩ := h.owned.owns t _ ht i (.inr hlocks.closes)
  have hlocked : j.status = call.operation.lockStatus := hstatus _ (hlocks.statusAt _)
  have hid := Collection.key_of_find hfind
  have hbefore : ¬ Transit track j.escrowId := by
    rw [hid]
    exact h.not_transit ht (.inr hlocks.closes) hnot
  have hafter : Transit (Function.update track t (some (call, tr'))) j.escrowId :=
    ⟨t, _, Function.update_self .., by rw [hstage', hid]; rfl⟩
  rw [share_of_find hfind, share_of_find hfind, weight_transit hafter,
    weight_open (isOpen_of_lockStatus hlocked) hbefore, hsame.userId, hsame.amount]
  exact ⟨rfl, rfl⟩

private theorem total_weight_still (ht : track t = some (call, tr)) (userId : String)
    (hmoves : ∀ id, tr'.stage.Moves id ↔ tr.stage.Moves id) :
    items.total (weight (Function.update track t (some (call, tr'))) userId) =
      items.total (weight track userId) := by
  congr 1
  funext i
  exact weight_update ht (hmoves _)

theorem Stage.moves_userMissed (stage : Stage) (id : String) :
    stage.userMissed.Moves id ↔ stage.Moves id := by cases stage <;> rfl

theorem Stage.moves_modelMissed (stage : Stage) (id : String) :
    stage.modelMissed.Moves id ↔ stage.Moves id := by cases stage <;> rfl

/-- A wallet update adds to the escrow balance what the call's item comes to weigh. -/
private theorem Steady.total_paid (h : Steady items track) (ht : track t = some (call, tr))
    (hop : call.operation.isBacking = true) (hagrees : ∀ i, tr.stage.item = some i → call.operation.Agrees i)
    {w : Wallet} {u : WalletUpdate} (hpay : call.operation.MayPay tr w u)
    (hstage' : tr'.stage = tr.stage.userPaid call.operation) (userId : String) :
    items.total (weight (Function.update track t (some (call, tr'))) userId) =
      items.total (weight track userId) + if w.userId = userId then (call.operation.delta u).2 else 0 := by
  -- where the call has paid for the item it locked
  have hpaid : ∀ i, tr.stage.Locks i → (∀ id, ¬ tr.stage.Moves id) → tr'.stage = .paid i →
      w.userId = i.userId → (call.operation.delta u).2 = -i.amount →
      items.total (weight (Function.update track t (some (call, tr'))) userId) =
        items.total (weight track userId) + if w.userId = userId then (call.operation.delta u).2 else 0 := by
    intro i hlocks hnot hpaid huser hdelta
    have hrest : ∀ id' ≠ i.escrowId, tr'.stage.Moves id' ↔ tr.stage.Moves id' := by
      intro id' hid'
      rw [hpaid]
      exact ⟨fun h => absurd h.symm hid', fun h => absurd h (hnot id')⟩
    obtain ⟨hbefore, hafter⟩ := h.share_paid (i := i) ht hlocks (hnot _) hpaid userId
    rw [total_weight ht userId i.escrowId (fun _ _ => rfl) hrest, hbefore, hafter, huser, hdelta]
    split <;> ring
  generalize hcall : call.operation = op at *
  cases op with
  | hold request =>
    obtain ⟨⟨i, hcreated⟩, huser, -⟩ := hpay
    have hsuits := h.suits t _ ht
    rw [show (call, tr).1.operation = .hold request from hcall] at hsuits
    obtain ⟨request', heq, huser', hamount, -⟩ := hsuits.makes (i := i)
      (by rw [show (call, tr).2.stage = .created i from hcreated]; rfl)
    obtain rfl : request = request' := Operation.hold.inj heq
    rw [hcreated] at hstage'
    have hrest : ∀ id' ≠ i.escrowId, tr'.stage.Moves id' ↔ tr.stage.Moves id' := by
      intro id' hid'
      rw [hstage', hcreated]
      exact ⟨fun h => h.elim, fun h => absurd h.symm hid'⟩
    obtain ⟨hbefore, hafter⟩ := h.share_charged ht hcreated hstage' userId
    rw [total_weight ht userId i.escrowId (fun _ _ => rfl) hrest, hbefore, hafter, huser, ← huser',
      Operation.delta, ← hamount, sub_zero]
  | settle request =>
    obtain ⟨i, hcredited, huser⟩ := hpay
    have hamount : request.amount = i.amount := hagrees i (by rw [hcredited]; rfl)
    rw [hcredited] at hstage' hpaid
    exact hpaid i rfl (fun _ h => h) hstage' huser (by rw [Operation.delta, hamount])
  | refund request =>
    obtain ⟨⟨i, hlocked⟩, huser⟩ := hpay
    obtain ⟨huser', hamount⟩ : request.userId = i.userId ∧ request.amount = i.amount :=
      hagrees i (by rw [hlocked]; rfl)
    rw [hlocked] at hstage' hpaid
    exact hpaid i rfl (fun _ h => h) hstage' (huser.trans huser') (by rw [Operation.delta, hamount])
  | _ => cases hop

/-- Each step of a call changes the sum of all weights as it changes the escrow balance. -/
private theorem ItemEffect.weighs (heffect : ItemEffect call.operation tr items c r items')
    (h : Steady items track) (ht : track t = some (call, tr)) (hop : call.operation.isBacking = true)
    (hagrees : ∀ i, tr.stage.item = some i → call.operation.Agrees i) (userId : String) :
    items'.total (weight (Function.update track t (some (call, tr.after call.operation c r))) userId) =
      items.total (weight track userId) + ((call.operation.walletChange userId c r).getD 0).2 := by
  cases heffect with
  | silent hstage hwallet =>
    rw [total_weight_still ht userId (by simp [hstage]), Operation.walletChange, hwallet]
    exact (add_zero _).symm
  | claimed record hstage =>
    rw [total_weight_still ht userId (by simp [hstage, Track.after, Track.claimed, Stage.Moves])]
    exact (add_zero _).symm
  | paid f u w w' hw hreads happly hpay =>
    rw [h.total_paid ht hop hagrees hpay rfl userId, ← hreads.1]
    simp only [Operation.walletChange, Cmd.walletCommit, Option.isSome_some, if_true]
    split <;> rfl
  | missed f u w hpay =>
    rw [total_weight_still ht userId fun id => Stage.moves_userMissed _ id]
    exact (add_zero _).symm
  | credited f u m m' hcredit =>
    have hcrediting := hcredit.crediting
    have hmoves : ∀ id, tr.stage.modelPaid.Moves id ↔ tr.stage.Moves id := by
      generalize tr.stage = stage at hcrediting
      cases hcrediting with
      | settle i request => exact fun _ => .rfl
      | partialSettle i request heq =>
        rw [heq] at hop
        cases hop
    rw [total_weight_still ht userId hmoves]
    exact (add_zero _).symm
  | uncredited f u m hcredit =>
    rw [total_weight_still ht userId fun id => Stage.moves_modelMissed _ id]
    exact (add_zero _).symm
  | created i hcreate hfree =>
    have hready : tr.stage = .ready := by
      generalize call.operation = op at hcreate
      cases op with
      | hold request => exact hcreate.1
      | _ => exact hcreate.elim
    have hmoves : ∀ id' ≠ i.escrowId, (Stage.created i).Moves id' ↔ tr.stage.Moves id' := fun id' hid' => by
      rw [hready]
      exact ⟨fun h => absurd h.symm hid', fun h => h.elim⟩
    have htransit : Transit (Function.update track t
        (some (call, tr.after call.operation (.createEscrowItem i) (.ok i)))) i.escrowId :=
      ⟨t, _, Function.update_self .., rfl⟩
    rw [total_weight ht userId i.escrowId (fun _ hid' => Collection.find_insert_ne hfree hid') hmoves]
    rw [share, hfree.find, share, Collection.find_insert hfree, if_pos rfl, Option.elim_some,
      weight_transit htransit]
    simp [Operation.walletChange, Cmd.walletCommit]
  | locked i processedAt hstage htarget hfind hheld =>
    have hmoves : ∀ id', (Stage.locked i).Moves id' ↔ tr.stage.Moves id' := fun id' => by
      rw [hstage]
      exact .rfl
    have hopen : ((lockUpdate call.operation.lockStatus processedAt).apply i).isOpen = true :=
      isOpen_of_lockStatus (show _ = call.operation.lockStatus from rfl)
    rw [total_weight ht userId i.escrowId (fun _ hid' => Collection.find_modify_ne hid' _ _)
      fun id' _ => hmoves id']
    rw [share_of_find hfind, share_modify hfind, weight_update ht (hmoves _),
      weight_apply _ (isOpen_of_held hheld) hopen]
    simp [Operation.walletChange, Cmd.walletCommit]
  | unlocked escrowId u hunlock =>
    obtain ⟨-, ⟨i, halfway, hstage, rfl, hstatus⟩ | ⟨i, hstage, rfl, hstatus⟩⟩ := hunlock
    · obtain ⟨j, hfind, -, hj⟩ := h.owned.owns t _ ht i (.inr (by rw [hstage]; rfl))
      have hlocked : j.status = call.operation.lockStatus := hj _ (by rw [hstage]; rfl)
      have hmoves : ∀ id', tr.stage.unlocked.Moves id' ↔ tr.stage.Moves id' := fun id' => by
        rw [hstage]
        exact .rfl
      have hopen : (u.apply j).isOpen = true := isOpen_of_held hstatus
      rw [total_weight ht userId i.escrowId (fun _ hid' => Collection.find_modify_ne hid' _ _)
        fun id' _ => hmoves id']
      rw [share_of_find hfind, share_modify hfind, weight_update ht (hmoves _),
        weight_apply _ (isOpen_of_lockStatus hlocked) hopen]
      simp [Operation.walletChange, Cmd.walletCommit]
    · obtain ⟨j, hfind, -⟩ := h.owned.owns t _ ht i (.inr (by rw [hstage]; rfl))
      have hid := Collection.key_of_find hfind
      have hmoves : ∀ id' ≠ i.escrowId, tr.stage.unlocked.Moves id' ↔ tr.stage.Moves id' := fun id' hid' => by
        rw [hstage]
        exact ⟨fun h => h.elim, fun h => absurd h.symm hid'⟩
      have htransit : Transit track j.escrowId := ⟨t, _, ht, by rw [hid, hstage]; rfl⟩
      have hclosed : (u.apply j).isOpen = false := isOpen_of_finalStatus hstatus
      rw [total_weight ht userId i.escrowId (fun _ hid' => Collection.find_modify_ne hid' _ _) hmoves]
      rw [share_of_find hfind, share_modify hfind, weight_transit htransit, weight_closed hclosed]
      simp [Operation.walletChange, Cmd.walletCommit]
  | deleted i hstage =>
    obtain ⟨j, hfind, -⟩ := h.owned.owns t _ ht i (.inl (by rw [hstage]; rfl))
    have hid := Collection.key_of_find hfind
    have hmoves : ∀ id' ≠ i.escrowId, Stage.ready.Moves id' ↔ tr.stage.Moves id' := fun id' hid' => by
      rw [hstage]
      exact ⟨fun h => h.elim, fun h => absurd h.symm hid'⟩
    have htransit : Transit track j.escrowId := ⟨t, _, ht, by rw [hid, hstage]; rfl⟩
    rw [total_weight ht userId i.escrowId (fun _ hid' => Collection.find_erase_ne hid') hmoves]
    rw [share_of_find hfind, weight_transit htransit, share, Collection.find_erase, if_pos rfl]
    simp [Operation.walletChange, Cmd.walletCommit]

/-- Items are stored with the amounts they are created with. -/
theorem ItemEffect.amounts_nonneg {op : Operation} (h : ItemEffect op tr items c r items')
    (hitems : ∀ i ∈ items.docs, 0 ≤ i.amount) : ∀ i ∈ items'.docs, 0 ≤ i.amount := by
  have hmodify : ∀ (id : String) (u : EscrowItemUpdate),
      ∀ i ∈ (items.modify id u.apply u.keeps).docs, 0 ≤ i.amount := by
    intro id u i hi
    obtain ⟨i', hi', rfl⟩ := Collection.mem_modify.mp hi
    split
    · exact hitems i' hi'
    · exact hitems i' hi'
  cases h with
  | created i hcreate hfree hamount =>
    intro i' hi'
    rcases (Collection.mem_insert hfree).mp hi' with hold | rfl
    · exact hitems i' hold
    · exact hamount
  | locked i t => exact hmodify i.escrowId _
  | unlocked escrowId u => exact hmodify escrowId u
  | deleted i => exact fun i' hi' => hitems i' (Collection.mem_erase.mp hi').1
  | _ => exact hitems

end step

section runs
variable {config : Config} {d : Db} {s : Run}

private theorem serves_faithful : Serves Faithful := fun s t c hA => by
  have hc : c.isBacking = true := hA.1
  cases c <;> simp_all [Call.isBacking, Call.operation]

private theorem steady_reached (h : (system config).Reaches Faithful (.start d) s) :
    Steady s.db.escrowItems (protocol.track s) := by
  have hhidden : ∀ s, (system config).Reaches Faithful (.start d) s → Hidden (protocol.track s) :=
    fun s hs => hidden serves_faithful (fun _ _ hA => hA.2.1) hs
  exact ⟨owned serves_faithful hhidden h, hhidden s h, suits serves_faithful h⟩

/-- At any time a user's escrow balance is the sum of the weights of all items. -/
private theorem escrow_weighs (h : (system config).Reaches Faithful (.start d) s)
    (hd : ∀ userId, (d.balances userId).2 = d.heldFor userId) (userId : String) :
    (s.db.balances userId).2 = s.db.escrowItems.total (weight (protocol.track s) userId) := by
  induction h using Machine.Reaches.by_steps with
  | start =>
    have hweight : weight (protocol.track (.start d : Run)) userId =
        fun i => if i.userId = userId ∧ i.isOpen then i.amount else 0 := by
      funext i
      classical
      refine if_congr ?_ rfl rfl
      simp [Transit]
    rw [hweight]
    exact hd userId
  | spawn s t c hs _ ht ih =>
    have hnone : protocol.track s t = none := by simp [Contract.track, State.calls, ht]
    rw [Contract.track_spawned hs ht, protocol_start, weight_spawn hnone]
    exact ih
  | act s t o call c k hs _ ht ih =>
    have htrack := Contract.track_of_thread (K := protocol) ht
    have hop : call.operation.isBacking = true :=
      Call.operation_isBacking (hs.calls_satisfy (fun _ _ _ hA => hA.1) (State.calls_of_thread ht))
    have hagrees := agreed serves_faithful (fun _ _ hA => hA.2.2) hs t call _ htrack
    have hbalance := ((acted_wallets serves_faithful hs ht o).balances userId).1
    have hweighs := (acted_items serves_faithful hs ht o).weighs (steady_reached hs) htrack hop hagrees userId
    rw [Contract.track_acted ht]
    simp only [Machine.acted_db, system_exec, protocol_next]
    rw [hbalance, hweighs, Prod.snd_add, ih]
  | restart s t o call c _ _ ht ih =>
    rw [Contract.track_restarted ht]
    exact ih

/-- No call is between its two writes once all have ended. -/
private theorem quiescent_transit (h : (system config).Reaches Faithful (.start d) s) (hq : s.Quiescent)
    (id : String) : ¬ Transit (protocol.track s) id := by
  rintro ⟨t, ⟨call, tr⟩, htr, hmoves⟩
  have hcall := Contract.calls_of_track htr
  have hne := operation_ne_other serves_faithful h hcall
  obtain ⟨r, hr⟩ : ∃ r, s.result t = some r :=
    Option.isSome_iff_exists.mp (hq t (by simpa [State.calls] using congrArg Option.isSome hcall))
  exact (ended h htr hne hr).not_owing hmoves.owing

private theorem amounts_nonneg (h : (system config).Reaches Faithful (.start d) s)
    (hd : ∀ i ∈ d.escrowItems.docs, 0 ≤ i.amount) : ∀ i ∈ s.db.escrowItems.docs, 0 ≤ i.amount := by
  induction h using Machine.Reaches.by_steps with
  | start => exact hd
  | spawn s t c _ _ _ ih => exact ih
  | act s t o call c k hs _ ht ih => exact (acted_items serves_faithful hs ht o).amounts_nonneg ih
  | restart s t o call c _ _ _ ih => exact ih

/-- With exact amounts, once no call is in flight, each user's escrow balance is the sum of the
user's open items, and it is never negative. -/
theorem open_items_back (h : (system config).Reaches Faithful (.start d) s)
    (hd : ∀ userId, (d.balances userId).2 = d.heldFor userId)
    (hamounts : ∀ i ∈ d.escrowItems.docs, 0 ≤ i.amount) :
    (s.Quiescent → ∀ userId, (s.db.balances userId).2 = s.db.heldFor userId) ∧
      ∀ w ∈ s.db.wallets.docs, 0 ≤ w.escrowBalance := by
  refine ⟨fun hq userId => ?_, fun w hw => ?_⟩
  · rw [escrow_weighs h hd userId, Db.heldFor]
    congr 1
    funext i
    classical
    exact if_congr (by simp [quiescent_transit h hq]) rfl rfl
  · have hbalance : (s.db.balances w.userId).2 = w.escrowBalance := by
      rw [Db.balances, Collection.find_of_mem hw]
      rfl
    rw [← hbalance, escrow_weighs h hd]
    apply Collection.total_nonneg
    intro i hi
    rw [weight]
    split
    · exact amounts_nonneg h hamounts i hi
    · exact le_rfl

/-- Escrow balances are backed as long as no amount has to be rounded: once no call is in flight,
each user's escrow balance is the sum of the user's open items, and it is never negative.
Identifiers are trimmed. -/
theorem escrow_backed (h : (doubles config).Reaches (fun s l => Faithful s l ∧ Exactly s l) (.start d) s)
    (hd : ∀ userId, (d.balances userId).2 = d.heldFor userId)
    (hamounts : ∀ i ∈ d.escrowItems.docs, 0 ≤ i.amount) :
    (s.Quiescent → ∀ userId, (s.db.balances userId).2 = s.db.heldFor userId) ∧
      ∀ w ∈ s.db.wallets.docs, 0 ≤ w.escrowBalance :=
  open_items_back (exact_run h) hd hamounts

end runs

section scenario

/-- A ledger write of the hold fails after its debit, and the settlement goes through. -/
theorem escrow_backed_despite_ledger_fault : ∃ s, (doubles (defaultConfig fun _ => none)).Reaches
    (fun s l => Faithful s l ∧ Exactly s l) (.start escrowedDb) s ∧ s.Quiescent ∧ (s.db.balances "user-1").2 = 30 ∧
      (s.db.balances "user-1").2 = s.db.heldFor "user-1" := by
  obtain ⟨s, hs, hfacts⟩ := Machine.exists_reaches (doubles (defaultConfig fun _ => none))
    (fun s l => Faithful s l ∧ Exactly s l) (.start escrowedDb)
    ([.spawn 0 (.hold sampleHold), .spawn 1 (.settle sampleSettle sampleAuthorization)] ++
      interleaving (List.replicate 12 0) ++ [.run 0 ⟨"id-12", 12, some "connection lost", none⟩] ++
      interleaving (List.replicate 19 1))
    (fun s => (s.spawns.all fun x => (s.result x.1).isSome, (s.db.balances "user-1").2)) (a := (true, 30))
    (by decide +kernel)
  obtain ⟨hended, hbalance⟩ := Prod.mk.inj hfacts
  have hq : s.Quiescent := hs.quiescent_iff.mpr (by simpa using hended)
  have hd : ∀ userId, (escrowedDb.balances userId).2 = escrowedDb.heldFor userId := by
    intro userId
    have hwallets : escrowedDb.wallets.docs = [⟨"user-1", 100, 5, "points", 0⟩] := by decide +kernel
    have hitems : escrowedDb.escrowItems.docs = [sampleItem] := rfl
    by_cases huser : "user-1" = userId
    · simp [Db.balances, Collection.find, hwallets, Db.heldFor, Collection.total, hitems, sampleItem,
        huser, EscrowItem.isOpen]
    · simp [Db.balances, Collection.find, hwallets, Db.heldFor, Collection.total, hitems, sampleItem, huser]
  exact ⟨s, hs, hq, hbalance, (escrow_backed hs hd (by decide +kernel)).1 hq "user-1"⟩

def itemSettlement (escrowId queueItemId : String) (amount : ℚ) (idempotencyKey : String) : Call :=
  .settle { sampleSettle with escrowId, queueItemId, amount, idempotencyKey }
    (some { sampleAuthorization with escrowId, queueItemId })

/-- 0.1 and 0.7 points are held and then settled, 0.7 first: less than nothing is left. -/
theorem escrow_negative_by_rounding : ∃ s, (doubles (defaultConfig fun _ => none)).Reaches Faithful
    (.start pointDb) s ∧ (∀ userId, (pointDb.balances userId).2 = pointDb.heldFor userId) ∧
      (∀ i ∈ pointDb.escrowItems.docs, 0 ≤ i.amount) ∧ s.Quiescent ∧
      (s.db.balances "user-1").2 ≠ s.db.heldFor "user-1" ∧ ¬ ∀ w ∈ s.db.wallets.docs, 0 ≤ w.escrowBalance := by
  obtain ⟨s, hs, hfacts⟩ := Machine.exists_reaches (doubles (defaultConfig fun _ => none)) Faithful (.start pointDb)
    ([.spawn 0 (.hold { sampleHold with amount := double (1 / 10) }),
      .spawn 1 (.hold
        { sampleHold with amount := double (7 / 10), idempotencyKey := "hold-2", queueItemId := "queue-2" })] ++
      interleaving (List.replicate 19 0 ++ List.replicate 19 1) ++
      [.spawn 2 (itemSettlement "id-23" "queue-2" (double (7 / 10)) "settle-1")] ++ interleaving (List.replicate 19 2) ++
      [.spawn 3 (itemSettlement "id-4" "queue-1" (double (1 / 10)) "settle-2")] ++ interleaving (List.replicate 18 3))
    (fun s => (s.spawns.all fun x => (s.result x.1).isSome,
      decide ((s.db.balances "user-1").2 ≠ s.db.heldFor "user-1"),
      s.db.wallets.docs.all fun w => decide (0 ≤ w.escrowBalance)))
    (a := (true, true, false)) (by decide +kernel)
  obtain ⟨hended, hrest⟩ := Prod.mk.inj hfacts
  obtain ⟨hbacked, hnegative⟩ := Prod.mk.inj hrest
  have hd : ∀ userId, (pointDb.balances userId).2 = pointDb.heldFor userId := by
    intro userId
    by_cases huser : "user-1" = userId
    · obtain rfl := huser
      decide +kernel
    · have hwallets : pointDb.wallets.docs = [⟨"user-1", 1, 0, "points", 0⟩] := by decide +kernel
      have hitems : pointDb.escrowItems.docs = [] := rfl
      simp [Db.balances, Collection.find, hwallets, huser, Db.heldFor, Collection.total, hitems]
  refine ⟨s, hs, hd, by decide, hs.quiescent_iff.mpr (by simpa using hended), of_decide_eq_true hbacked,
    fun h => ?_⟩
  have hall : (s.db.wallets.docs.all fun w => decide (0 ≤ w.escrowBalance)) = true :=
    List.all_eq_true.mpr fun w hw => decide_eq_true (h w hw)
  rw [hnegative] at hall
  cases hall

end scenario
end RedRoomRewards
