import RedRoomRewards.Protocol.Items

/-! What the stage of a call says about its request, its item and the balance
updates it has committed. -/
namespace RedRoomRewards
open Process Store

namespace Stage

/-- The call has stored item `i` and has not given it up. -/
def Makes (i : EscrowItem) : Stage → Prop
  | created j | conflicted j | charged j => j = i
  | _ => False

/-- The call has locked item `i` and not yet given up the lock. -/
def Locks (i : EscrowItem) : Stage → Prop
  | locked j | credited j | debited j | paid j | beaten j _ => j = i
  | _ => False

/-- The call has locked item `i` and not reopened it. -/
def Closes (i : EscrowItem) : Stage → Prop
  | locked j | credited j | debited j | paid j | beaten j _ | closed j => j = i
  | _ => False

/-- The item the call has stored or locked, also after reopening it. -/
def item : Stage → Option EscrowItem
  | opening | ready | posted => none
  | created i | conflicted i | charged i | locked i | credited i | debited i | paid i | beaten i _
  | reopened i _ | closed i => some i

/-- The user's wallet has been updated. -/
def userMoved (op : Operation) : Stage → Bool
  | charged _ | debited _ | paid _ | closed _ | posted => true
  | beaten _ halfway | reopened _ halfway => halfway && op.isPartial
  | _ => false

/-- The model's wallet has been updated. -/
def modelMoved (op : Operation) : Stage → Bool
  | credited _ => true
  | paid _ | closed _ => match op with
    | .settle _ | .partialSettle _ => true
    | _ => false
  | beaten _ halfway | reopened _ halfway => halfway && !op.isPartial
  | _ => false

/-- A write is still owed. -/
def Owing : Stage → Prop
  | created _ | conflicted _ | debited _ | paid _ | beaten .. => True
  | _ => False

@[simp] theorem item_userPaid (op : Operation) (s : Stage) : (s.userPaid op).item = s.item := by
  cases s with
  | locked i => cases h : op.isPartial <;> simp [userPaid, h, item]
  | _ => rfl

@[simp] theorem item_userMissed (s : Stage) : s.userMissed.item = s.item := by cases s <;> rfl

@[simp] theorem item_modelPaid (s : Stage) : s.modelPaid.item = s.item := by cases s <;> rfl

@[simp] theorem item_modelMissed (s : Stage) : s.modelMissed.item = s.item := by cases s <;> rfl

@[simp] theorem item_unlocked (s : Stage) : s.unlocked.item = s.item := by cases s <;> rfl

end Stage

section after
variable (op : Operation) (tr : Track) (c : Cmd) (r : c.Reply)

theorem Track.after_committed : (tr.after op c r).committed = (c.walletCommit r).or tr.committed := by
  cases c with
  | updateWallet f u => cases r <;> rfl
  | _ => rfl

theorem Track.ids_subset_after : tr.ids ⊆ (tr.after op c r).ids := by
  cases c with
  | uuidv4 => exact List.subset_cons_self _ _
  | _ => exact List.Subset.refl _

end after

/-- What a stage says about the operation; `ids` are those it has generated. -/
def Operation.Suits (op : Operation) (ids : List String) : Stage → Prop
  | .created i | .conflicted i | .charged i => ∃ request, op = .hold request ∧
      i.userId = request.userId ∧ i.amount = request.amount ∧ i.queueItemId = request.queueItemId ∧
      i.status = .held ∧ i.escrowId ∈ ids ∧ 0 ≤ i.amount
  | .credited i => (∃ request, op = .settle request) ∧ op.target = some i.escrowId
  | .debited i => op.isPartial = true ∧ op.target = some i.escrowId
  | .locked i | .paid i | .beaten i _ | .reopened i _ | .closed i => op.target = some i.escrowId
  | .opening | .ready => True
  | .posted => op.claim = none

/-- What the record of a call says about its request. -/
structure Operation.Fits (op : Operation) (tr : Track) : Prop where
  stage : op.Suits tr.ids tr.stage
  moved : tr.committed.isSome = tr.stage.userMoved op
  /-- A partial settlement takes the amount of its item. -/
  took : ∀ f u i, op.isPartial = true → tr.committed = some (f, u) → tr.stage.item = some i →
    u.escrowChange = -i.amount

variable {op : Operation} {tr : Track} {items items' : EscrowItems} {c : Cmd} {r : c.Reply}
  {ids ids' : List String} {stage : Stage} {i : EscrowItem}

theorem Operation.target_of_claim (h : op.claim = none) : op.target = none := by
  cases op <;> first | rfl | cases h

theorem Operation.Suits.mono (h : op.Suits ids stage) (hids : ids ⊆ ids') : op.Suits ids' stage := by
  cases stage with
  | created i | conflicted i | charged i =>
    obtain ⟨request, hop, huser, hamount, hqueue, hheld, hid, hpos⟩ := h
    exact ⟨request, hop, huser, hamount, hqueue, hheld, hids hid, hpos⟩
  | _ => exact h

theorem Operation.Suits.makes (h : op.Suits ids stage) (hi : stage.Makes i) :
    ∃ request, op = .hold request ∧ i.userId = request.userId ∧ i.amount = request.amount ∧
      i.queueItemId = request.queueItemId ∧ i.status = .held ∧ i.escrowId ∈ ids ∧ 0 ≤ i.amount := by
  cases stage with
  | created j | conflicted j | charged j =>
    obtain rfl : j = i := hi
    exact h
  | _ => cases hi

theorem Operation.Suits.closes (h : op.Suits ids stage) (hi : stage.Closes i) :
    op.target = some i.escrowId := by
  cases stage with
  | credited j | debited j =>
    obtain rfl : j = i := hi
    exact h.2
  | locked j | paid j | beaten j _ | closed j =>
    obtain rfl : j = i := hi
    exact h
  | _ => cases hi

/-- A closing call that has updated the user's wallet has an item. -/
theorem Operation.Suits.item_of_moved (h : op.Suits ids stage) (htarget : op.target.isSome)
    (hmoved : stage.userMoved op = true) : ∃ i, stage.item = some i := by
  cases stage with
  | opening | ready => cases hmoved
  | posted =>
    rw [target_of_claim h] at htarget
    cases htarget
  | _ => exact ⟨_, rfl⟩

/-- A hold that has debited the wallet has stored its item. -/
theorem Operation.Suits.charged {request : EscrowHoldRequest} (h : (hold request).Suits ids stage)
    (hmoved : stage.userMoved (hold request) = true) : ∃ i, stage = .charged i := by
  cases stage with
  | charged i => exact ⟨i, rfl⟩
  | beaten i halfway | reopened i halfway => cases h
  | debited i => cases h.2
  | paid i | closed i | posted => cases h
  | _ => cases hmoved

/-- The stages at which a user wallet may be updated. -/
inductive Operation.Paying (op : Operation) : Stage → Prop where
  | hold (i : EscrowItem) (h : op.isPartial = false) : op.Paying (.created i)
  | settle (i : EscrowItem) (h : op.isPartial = false) : op.Paying (.credited i)
  | close (i : EscrowItem) (h : ∀ request, op ≠ .settle request) : op.Paying (.locked i)
  | post (h : op.claim = none) : op.Paying .opening

theorem Operation.MayPay.paying {w : Wallet} {u : WalletUpdate} (h : op.MayPay tr w u) :
    op.Paying tr.stage := by
  cases op with
  | hold request =>
    obtain ⟨⟨i, hstage⟩, -⟩ := h
    exact hstage ▸ .hold i rfl
  | settle request =>
    obtain ⟨i, hstage, -⟩ := h
    exact hstage ▸ .settle i rfl
  | refund request =>
    obtain ⟨⟨i, hstage⟩, -⟩ := h
    exact hstage ▸ .close i (by simp)
  | partialSettle request =>
    obtain ⟨i, hstage, -⟩ := h
    exact hstage ▸ .close i (by simp)
  | award request | deduct request | expire userId | adjust request => exact h.1 ▸ .post rfl
  | other => exact h.elim

private theorem Operation.Paying.suits_paid (h : op.Paying stage) (hsuits : op.Suits ids stage) :
    op.Suits ids (stage.userPaid op) ∧ (stage.userPaid op).userMoved op = true := by
  cases h with
  | hold i => exact ⟨hsuits, rfl⟩
  | settle i => exact ⟨hsuits.2, rfl⟩
  | close i =>
    cases hpart : op.isPartial with
    | true =>
      rw [show Stage.userPaid op (.locked i) = .debited i by simp [Stage.userPaid, hpart]]
      exact ⟨⟨hpart, hsuits⟩, rfl⟩
    | false =>
      rw [show Stage.userPaid op (.locked i) = .paid i by simp [Stage.userPaid, hpart]]
      exact ⟨hsuits, rfl⟩
  | post htarget => exact ⟨htarget, rfl⟩

private theorem Operation.Paying.suits_missed (h : op.Paying stage) (hsuits : op.Suits ids stage) :
    op.Suits ids stage.userMissed ∧ stage.userMissed.userMoved op = stage.userMoved op := by
  cases h with
  | hold i => exact ⟨hsuits, rfl⟩
  | settle i hpart => exact ⟨hsuits.2, by simp [Stage.userMissed, Stage.userMoved, hpart]⟩
  | close i => exact ⟨hsuits, rfl⟩
  | post => exact ⟨trivial, rfl⟩

theorem Operation.Paying.unmoved (h : op.Paying stage) : stage.userMoved op = false := by
  cases h <;> rfl

private theorem Operation.Paying.modelMoved (h : op.Paying stage) (hsuits : op.Suits ids stage) :
    (stage.userPaid op).modelMoved op = stage.modelMoved op ∧
      stage.userMissed.modelMoved op = stage.modelMoved op := by
  cases h with
  | hold i => exact ⟨rfl, rfl⟩
  | settle i hpart =>
    obtain ⟨⟨request, rfl⟩, -⟩ := hsuits
    exact ⟨rfl, rfl⟩
  | close i hsettle =>
    cases op with
    | settle request => exact absurd rfl (hsettle request)
    | _ => exact ⟨rfl, rfl⟩
  | post => exact ⟨rfl, rfl⟩

/-- The stages at which a model wallet may be updated. -/
inductive Operation.Crediting (op : Operation) : Stage → Prop where
  | settle (i : EscrowItem) (request : EscrowSettleRequest) (h : op = .settle request) :
      op.Crediting (.locked i)
  | partialSettle (i : EscrowItem) (request : EscrowPartialSettleRequest)
      (h : op = .partialSettle request) : op.Crediting (.debited i)

theorem Operation.MayCredit.crediting {m : ModelWallet} (h : op.MayCredit tr m) :
    op.Crediting tr.stage := by
  cases op with
  | settle request =>
    obtain ⟨⟨i, hstage⟩, -⟩ := h
    exact hstage ▸ .settle i request rfl
  | partialSettle request =>
    obtain ⟨⟨i, hstage⟩, -⟩ := h
    exact hstage ▸ .partialSettle i request rfl
  | _ => exact h.elim

theorem Operation.Crediting.unmoved (h : op.Crediting stage) : stage.modelMoved op = false := by
  cases h <;> rfl

private theorem Operation.Crediting.modelMoved (h : op.Crediting stage) :
    stage.modelPaid.modelMoved op = true ∧ stage.modelMissed.modelMoved op = false := by
  cases h with
  | settle i request hop => exact ⟨rfl, rfl⟩
  | partialSettle i request hop =>
    subst hop
    exact ⟨rfl, rfl⟩

/-- The item of a call was its item before, is the one it locks now, or is a hold's own. -/
theorem ItemEffect.item (h : ItemEffect op tr items c r items')
    (hi : (tr.after op c r).stage.item = some i) :
    tr.stage.item = some i ∨
      (c.locked r = some i ∧ tr.stage = .ready ∧ op.target = some i.escrowId) ∨
      ∃ request, op = .hold request := by
  cases h with
  | silent hstage => exact .inl (hstage ▸ hi)
  | claimed => cases hi
  | paid => exact .inl (by rwa [← Stage.item_userPaid op tr.stage])
  | missed => exact .inl (by rwa [← Stage.item_userMissed tr.stage])
  | credited => exact .inl (by rwa [← Stage.item_modelPaid tr.stage])
  | uncredited => exact .inl (by rwa [← Stage.item_modelMissed tr.stage])
  | created j hcreate =>
    cases op with
    | hold request => exact .inr (.inr ⟨request, rfl⟩)
    | _ => exact hcreate.elim
  | locked j t hstage htarget =>
    obtain rfl : j = i := Option.some.inj hi
    exact .inr (.inl ⟨rfl, hstage, htarget⟩)
  | unlocked => exact .inl (by rwa [← Stage.item_unlocked tr.stage])
  | deleted => cases hi

private theorem ItemEffect.suits (h : ItemEffect op tr items c r items')
    (hsuits : op.Suits tr.ids tr.stage) (hmoved : tr.committed.isSome = tr.stage.userMoved op) :
    op.Suits (tr.after op c r).ids (tr.after op c r).stage ∧
      (tr.after op c r).committed.isSome = (tr.after op c r).stage.userMoved op := by
  cases h with
  | silent hstage hwallet =>
    constructor
    · rw [hstage]
      exact hsuits.mono (tr.ids_subset_after op c r)
    · rw [hstage, tr.after_committed, hwallet, Option.none_or]
      exact hmoved
  | claimed record hstage =>
    rw [hstage] at hmoved
    exact ⟨trivial, hmoved⟩
  | paid f u w w' hw hreads happly hpay =>
    obtain ⟨hsuits', hmoved'⟩ := hpay.paying.suits_paid hsuits
    exact ⟨hsuits', hmoved'.symm⟩
  | missed f u w hpay =>
    obtain ⟨hsuits', hmoved'⟩ := hpay.paying.suits_missed hsuits
    exact ⟨hsuits', hmoved.trans hmoved'.symm⟩
  | credited f u m m' hcredit =>
    have hcrediting := hcredit.crediting
    generalize hst : tr.stage = st at *
    constructor <;> simp only [Track.after, Track.updatedModel, hst]
    · cases hcrediting with
      | settle i request hop => exact ⟨⟨request, hop⟩, hsuits⟩
      | partialSettle i request hop => exact hsuits.2
    · rw [hmoved]
      cases hcrediting <;> rfl
  | uncredited f u m hcredit =>
    have hcrediting := hcredit.crediting
    generalize hst : tr.stage = st at *
    constructor <;> simp only [Track.after, Track.updatedModel, hst]
    · cases hcrediting with
      | settle i request hop => exact hsuits
      | partialSettle i request hop => exact hsuits.2
    · rw [hmoved]
      cases hcrediting with
      | settle i request hop => rfl
      | partialSettle i request hop => simp [Stage.modelMissed, Stage.userMoved, hop, Operation.isPartial]
  | created i hcreate hfree hamount =>
    cases op with
    | hold request =>
      obtain ⟨hstage, huser, hamount', hqueue, hheld, hid⟩ := hcreate
      rw [hstage] at hmoved
      exact ⟨⟨request, rfl, huser, hamount', hqueue, hheld, hid, hamount⟩, hmoved⟩
    | _ => exact hcreate.elim
  | locked i t hstage htarget =>
    rw [hstage] at hmoved
    exact ⟨htarget, hmoved⟩
  | unlocked escrowId u hunlock =>
    obtain ⟨-, ⟨i, halfway, hstage, -⟩ | ⟨i, hstage, -⟩⟩ := hunlock
    · rw [hstage] at hsuits hmoved
      constructor <;> simp only [Track.after, hstage]
      · exact hsuits
      · exact hmoved
    · rw [hstage] at hsuits hmoved
      constructor <;> simp only [Track.after, hstage]
      · exact hsuits
      · exact hmoved
  | deleted i hstage =>
    rw [hstage] at hmoved
    exact ⟨trivial, hmoved⟩

/-- A call that commits a wallet update has committed none before. -/
private theorem ItemEffect.uncommitted {x : WalletFilter × WalletUpdate}
    (h : ItemEffect op tr items c r items') (hfit : op.Fits tr) (hx : c.walletCommit r = some x) :
    tr.committed = none := by
  cases h with
  | silent _ hwallet =>
    rw [hwallet] at hx
    cases hx
  | paid f u w w' hw hreads happly hpay =>
    have hmoved := hfit.moved
    rw [hpay.paying.unmoved] at hmoved
    simpa using hmoved
  | _ => cases hx

private theorem ItemEffect.took {f : WalletFilter} {u : WalletUpdate}
    (h : ItemEffect op tr items c r items') (hop : op.isPartial = true)
    (hx : c.walletCommit r = some (f, u)) (hi : (tr.after op c r).stage.item = some i) :
    u.escrowChange = -i.amount := by
  cases h with
  | silent _ hwallet =>
    rw [hwallet] at hx
    cases hx
  | paid f' u' w w' hw hreads happly hpay =>
    obtain ⟨rfl, rfl⟩ : f' = f ∧ u' = u := by simpa [Cmd.walletCommit] using hx
    cases op with
    | partialSettle request =>
      obtain ⟨j, hstage, -, -, hchange⟩ := hpay
      have hj : (Stage.locked j).item = some i := by
        rw [← hstage, ← Stage.item_userPaid (.partialSettle request)]
        exact hi
      obtain rfl : j = i := Option.some.inj hj
      exact hchange
    | _ => cases hop
  | _ => cases hx

/-- Each step of a call keeps its record in agreement with its request. -/
theorem ItemEffect.fits (h : ItemEffect op tr items c r items') (hfit : op.Fits tr) :
    op.Fits (tr.after op c r) := by
  obtain ⟨hsuits, hmoved⟩ := h.suits hfit.stage hfit.moved
  refine ⟨hsuits, hmoved, fun f u i hop hcommitted hi => ?_⟩
  cases hx : c.walletCommit r with
  | none =>
    have hbefore : tr.committed = some (f, u) := by
      rwa [tr.after_committed, hx, Option.none_or] at hcommitted
    rcases h.item hi with hold | ⟨-, hready, -⟩ | ⟨request, rfl⟩
    · exact hfit.took f u i hop hbefore hold
    · have hnone := hfit.moved
      rw [hready, hbefore] at hnone
      cases hnone
    · cases hop
  | some x =>
    rw [tr.after_committed, hx, Option.some_or] at hcommitted
    obtain rfl : x = (f, u) := Option.some.inj hcommitted
    exact h.took hop hx hi

/-- The record counts the balance updates in the history. -/
structure Operation.Counts (op : Operation) (hist : List (Event Mongo Call)) (tr : Track) : Prop where
  wallets : hist.filterMap (fun ev => ev.cmd.walletCommit ev.reply) = tr.committed.toList
  models : hist.countP (fun ev => (ev.cmd.modelCommit ev.reply).isSome) =
    (tr.stage.modelMoved op).toNat

private theorem ItemEffect.modelMoved (h : ItemEffect op tr items c r items')
    (hsuits : op.Suits tr.ids tr.stage) : ((tr.after op c r).stage.modelMoved op).toNat =
      (tr.stage.modelMoved op).toNat + if (c.modelCommit r).isSome then 1 else 0 := by
  cases h with
  | silent hstage _ hmodel => rw [hstage, hmodel, Option.isSome_none, if_neg nofun, Nat.add_zero]
  | claimed record hstage =>
    rw [hstage]
    rfl
  | paid f u w w' hw hreads happly hpay =>
    exact congrArg Bool.toNat (hpay.paying.modelMoved hsuits).1
  | missed f u w hpay => exact congrArg Bool.toNat (hpay.paying.modelMoved hsuits).2
  | credited f u m m' hcredit =>
    rw [hcredit.crediting.unmoved]
    exact congrArg Bool.toNat hcredit.crediting.modelMoved.1
  | uncredited f u m hcredit =>
    rw [hcredit.crediting.unmoved]
    exact congrArg Bool.toNat hcredit.crediting.modelMoved.2
  | created i hcreate =>
    cases op with
    | hold request =>
      rw [hcreate.1]
      rfl
    | _ => exact hcreate.elim
  | locked i t hstage =>
    rw [hstage]
    rfl
  | unlocked escrowId u hunlock =>
    obtain ⟨-, ⟨i, halfway, hstage, -⟩ | ⟨i, hstage, -⟩⟩ := hunlock
    · rw [Track.after, hstage]
      rfl
    · rw [Track.after, hstage]
      rfl
  | deleted i hstage =>
    rw [hstage]
    rfl

theorem ItemEffect.counts {hist : List (Event Mongo Call)} {t : ℕ} {call : Call}
    (h : ItemEffect op tr items c r items') (hfit : op.Fits tr) (hcounts : op.Counts hist tr) :
    op.Counts (⟨t, call, c, r⟩ :: hist) (tr.after op c r) := by
  obtain ⟨hwallets, hmodels⟩ := hcounts
  constructor
  · rw [tr.after_committed, List.filterMap_cons, hwallets]
    cases hx : c.walletCommit r with
    | none => rfl
    | some x =>
      rw [h.uncommitted hfit hx]
      rfl
  · rw [List.countP_cons, hmodels, h.modelMoved hfit.stage]

section ends
variable {α : Type} {e : Except ServiceError α}

/-- A call does not end while it owes a write. -/
theorem Operation.Ends.not_owing (h : op.Ends tr e) : ¬ tr.stage.Owing := by
  intro howing
  cases e with
  | ok a =>
    obtain ⟨hdone, -⟩ | ⟨hstage, -⟩ := h
    · cases hst : tr.stage <;> simp_all [Stage.Owing, Stage.Done]
    · simp [hstage, Stage.Owing] at howing
  | error e =>
    simp only [Operation.Ends, Track.Throws] at h
    cases hst : tr.stage <;> simp_all [Stage.Owing]

/-- A settlement that ends after crediting the model has found no user wallet. -/
theorem Operation.Ends.missing (h : op.Ends tr e) (hstage : tr.stage = .credited i) :
    tr.missing = true := by
  cases e with
  | ok a => simp [Operation.Ends, Operation.Returns, hstage, Stage.Done] at h
  | error e => simpa [Operation.Ends, Track.Throws, hstage] using h

end ends

section runs
variable {config : Config} {A : Schedule} {d : Db} {s : Run}

/-- In any run the record of each service call fits its request and counts its updates. -/
theorem recorded (h : (system config).Reaches A (.start d) s) :
    ∀ t call tr, protocol.track s t = some (call, tr) → call.operation ≠ .other →
      call.operation.Fits tr ∧ call.operation.Counts (s.history t) tr := by
  refine (protocol_kept config).invariant (P := fun call hist tr => call.operation ≠ .other →
    call.operation.Fits tr ∧ call.operation.Counts hist tr) (fun call _ => ⟨⟨trivial, rfl, by simp⟩, rfl, rfl⟩) ?_ h
  rintro call hist tr t c r ih hmay ⟨o, db, rfl⟩ hne
  obtain ⟨hfit, hcounts⟩ := ih hne
  have heffect : ItemEffect _ _ db.escrowItems c _ _ := item_effect o (hmay.resolve_left hne)
  exact ⟨heffect.fits hfit, heffect.counts hfit hcounts⟩

/-- A service call that has ended has ended as the protocol says. -/
theorem ended (h : (system config).Reaches A (.start d) s) {t : ℕ} {call : Call} {tr : Track}
    {r : Except ServiceError Response} (htr : protocol.track s t = some (call, tr))
    (hne : call.operation ≠ .other) (hr : s.result t = some r) : call.operation.Ends tr r :=
  ((protocol_kept config).ends h htr hr).resolve_left hne

end runs
end RedRoomRewards
