import RedRoomRewards.Protocol.Stages

/-! Which call owns which escrow item: the hold that has stored it until the wallet
is debited, and later the one call that has locked it. -/
namespace RedRoomRewards
open Process Store

/-- The two documents are one item, in whatever status. -/
structure EscrowItem.Same (i j : EscrowItem) : Prop where
  userId : j.userId = i.userId
  amount : j.amount = i.amount
  queueItemId : j.queueItemId = i.queueItemId

theorem EscrowItem.Same.refl (i : EscrowItem) : i.Same i := ⟨rfl, rfl, rfl⟩

/-- An update of an item leaves its user, amount and queue item. -/
theorem EscrowItem.Same.apply {i j : EscrowItem} (h : i.Same j) (u : EscrowItemUpdate) :
    i.Same (u.apply j) := ⟨h.userId, h.amount, h.queueItemId⟩

/-- The status in which a call that owns an item has left it. -/
def Operation.statusAt (op : Operation) : Stage → Option EscrowStatus
  | .created _ | .conflicted _ => some .held
  | .locked _ | .credited _ | .debited _ | .paid _ | .beaten .. => some op.lockStatus
  | .closed _ => some op.finalStatus
  | _ => none

/-- The item of a call is stored in the status the call has left it in. -/
def Operation.Owns (op : Operation) (items : EscrowItems) (stage : Stage) : Prop :=
  ∀ i, stage.Makes i ∨ stage.Closes i → ∃ j, items.find i.escrowId = some j ∧ i.Same j ∧
    ∀ status, op.statusAt stage = some status → j.status = status

theorem Operation.lockStatus_ne_held (op : Operation) : op.lockStatus ≠ .held := by
  cases op <;> simp [Operation.lockStatus]

theorem Operation.finalStatus_ne_held (op : Operation) : op.finalStatus ≠ .held := by
  cases op <;> simp [Operation.finalStatus]

section stages
variable {op : Operation} {stage : Stage} {i : EscrowItem}

/-- `stage'` claims no more of the items than `stage`. -/
structure Stage.Keeps (op : Operation) (stage stage' : Stage) : Prop where
  makes : ∀ i, stage'.Makes i → stage.Makes i
  closes : ∀ i, stage'.Closes i → stage.Closes i
  status : ∀ status, op.statusAt stage' = some status → op.statusAt stage = some status

theorem Stage.Keeps.refl (op : Operation) (stage : Stage) : stage.Keeps op stage :=
  ⟨fun _ h => h, fun _ h => h, fun _ h => h⟩

theorem Stage.keeps_userPaid (op : Operation) (stage : Stage) : stage.Keeps op (stage.userPaid op) := by
  cases stage with
  | opening => exact ⟨fun _ h => h.elim, fun _ h => h.elim, fun _ h => by cases h⟩
  | created i => exact ⟨fun _ h => h, fun _ h => h.elim, fun _ h => by cases h⟩
  | credited i => exact ⟨fun _ h => h.elim, fun _ h => h, fun _ h => h⟩
  | locked i =>
    rw [Stage.userPaid]
    split <;> exact ⟨fun _ h => h.elim, fun _ h => h, fun _ h => h⟩
  | _ => exact .refl op _

theorem Stage.keeps_userMissed (op : Operation) (stage : Stage) : stage.Keeps op stage.userMissed := by
  cases stage with
  | created i => exact ⟨fun _ h => h, fun _ h => h.elim, fun _ h => h⟩
  | credited i | locked i => exact ⟨fun _ h => h.elim, fun _ h => h, fun _ h => h⟩
  | _ => exact .refl op _

theorem Stage.keeps_modelPaid (op : Operation) (stage : Stage) : stage.Keeps op stage.modelPaid := by
  cases stage with
  | locked i | debited i => exact ⟨fun _ h => h.elim, fun _ h => h, fun _ h => h⟩
  | _ => exact .refl op _

theorem Stage.keeps_modelMissed (op : Operation) (stage : Stage) : stage.Keeps op stage.modelMissed := by
  cases stage with
  | debited i => exact ⟨fun _ h => h.elim, fun _ h => h, fun _ h => h⟩
  | _ => exact .refl op _

theorem Operation.Owns.keeps {items : EscrowItems} {stage' : Stage} (h : op.Owns items stage)
    (hkeeps : stage.Keeps op stage') : op.Owns items stage' := by
  intro i hi
  obtain ⟨j, hfind, hsame, hstatus⟩ := h i (hi.imp (hkeeps.makes i) (hkeeps.closes i))
  exact ⟨j, hfind, hsame, fun status hst => hstatus status (hkeeps.status status hst)⟩

theorem Stage.Locks.closes (h : stage.Locks i) : stage.Closes i := by
  cases stage with
  | locked j | credited j | debited j | paid j | beaten j _ => exact h
  | _ => exact h.elim

theorem Stage.Locks.statusAt (h : stage.Locks i) (op : Operation) :
    op.statusAt stage = some op.lockStatus := by
  cases stage with
  | locked j | credited j | debited j | paid j | beaten j _ => rfl
  | _ => exact h.elim

/-- A call that has locked an item has given it another status than `held`. -/
theorem Stage.Closes.not_held (h : stage.Closes i) (op : Operation) :
    ∃ status, op.statusAt stage = some status ∧ status ≠ .held := by
  cases stage with
  | closed j => exact ⟨_, rfl, op.finalStatus_ne_held⟩
  | locked j | credited j | debited j | paid j | beaten j _ => exact ⟨_, rfl, op.lockStatus_ne_held⟩
  | _ => exact h.elim

end stages

section effect
variable {op : Operation} {tr : Track} {items items' : EscrowItems} {c : Cmd} {r : c.Reply}
  {i : EscrowItem}

/-- The items a call makes are those it made before and new ones. -/
theorem ItemEffect.makes (h : ItemEffect op tr items c r items') (hi : (tr.after op c r).stage.Makes i) :
    tr.stage.Makes i ∨ items.find i.escrowId = none := by
  cases h with
  | silent hstage => exact .inl (hstage ▸ hi)
  | claimed | locked | deleted => exact hi.elim
  | paid => exact .inl ((Stage.keeps_userPaid op _).makes i hi)
  | missed => exact .inl ((Stage.keeps_userMissed op _).makes i hi)
  | credited => exact .inl ((Stage.keeps_modelPaid op _).makes i hi)
  | uncredited => exact .inl ((Stage.keeps_modelMissed op _).makes i hi)
  | created j hcreate hfree =>
    obtain rfl : j = i := hi
    exact .inr hfree.find
  | unlocked escrowId u hunlock =>
    obtain ⟨-, ⟨j, halfway, hstage, -⟩ | ⟨j, hstage, -⟩⟩ := hunlock
    · rw [Track.after, hstage] at hi
      exact hi.elim
    · rw [Track.after, hstage] at hi
      exact hi.elim

/-- The items a call closes are those it closed before and one that was held. -/
theorem ItemEffect.closes (h : ItemEffect op tr items c r items')
    (hi : (tr.after op c r).stage.Closes i) :
    tr.stage.Closes i ∨ (items.find i.escrowId = some i ∧ i.status = .held) := by
  cases h with
  | silent hstage => exact .inl (hstage ▸ hi)
  | claimed | created | deleted => exact hi.elim
  | paid => exact .inl ((Stage.keeps_userPaid op _).closes i hi)
  | missed => exact .inl ((Stage.keeps_userMissed op _).closes i hi)
  | credited => exact .inl ((Stage.keeps_modelPaid op _).closes i hi)
  | uncredited => exact .inl ((Stage.keeps_modelMissed op _).closes i hi)
  | locked j t hstage htarget hfind hheld =>
    obtain rfl : j = i := hi
    exact .inr ⟨hfind, hheld⟩
  | unlocked escrowId u hunlock =>
    obtain ⟨-, ⟨j, halfway, hstage, -⟩ | ⟨j, hstage, -⟩⟩ := hunlock
    · rw [Track.after, hstage] at hi
      exact hi.elim
    · rw [Track.after, hstage] at hi
      rw [hstage]
      exact .inl hi

/-- A call keeps track of its own item. -/
theorem ItemEffect.owns (h : ItemEffect op tr items c r items') (howns : op.Owns items tr.stage) :
    op.Owns items' (tr.after op c r).stage := by
  cases h with
  | silent hstage => exact hstage ▸ howns
  | claimed | deleted => exact fun i hi => (hi.elim id id).elim
  | paid => exact howns.keeps (Stage.keeps_userPaid op _)
  | missed => exact howns.keeps (Stage.keeps_userMissed op _)
  | credited => exact howns.keeps (Stage.keeps_modelPaid op _)
  | uncredited => exact howns.keeps (Stage.keeps_modelMissed op _)
  | created j hcreate hfree =>
    rintro i (hi | hi)
    · obtain rfl : j = i := hi
      refine ⟨j, by rw [Collection.find_insert hfree, if_pos rfl], .refl j, ?_⟩
      intro status hstatus
      obtain rfl := Option.some.inj hstatus
      cases op with
      | hold request => exact hcreate.2.2.2.2.1
      | _ => exact hcreate.elim
    · exact hi.elim
  | locked j t hstage htarget hfind hheld =>
    rintro i (hi | hi)
    · exact hi.elim
    · obtain rfl : j = i := hi
      refine ⟨_, by rw [Collection.find_modify, if_pos rfl, hfind, Option.map_some],
        (EscrowItem.Same.refl j).apply _, ?_⟩
      intro status hstatus
      exact Option.some.inj hstatus
  | unlocked escrowId u hunlock =>
    obtain ⟨-, ⟨j, halfway, hstage, hid, hu⟩ | ⟨j, hstage, hid, hu⟩⟩ := hunlock
    · rw [Track.after, hstage]
      exact fun i hi => (hi.elim id id).elim
    · rw [Track.after, hstage]
      rw [hstage] at howns
      rintro i (hi | hi)
      · exact hi.elim
      · obtain rfl : j = i := hi
        subst hid
        obtain ⟨j', hfind, hsame, -⟩ := howns j (.inr rfl)
        refine ⟨_, by rw [Collection.find_modify, if_pos rfl, hfind, Option.map_some], hsame.apply u, ?_⟩
        intro status hstatus
        exact hu.trans (Option.some.inj hstatus)

/-- What a command can do to a stored item: nothing; lock it; give up the lock of
the call that closes it; delete it for the hold that lost its race. -/
theorem ItemEffect.change (h : ItemEffect op tr items c r items') {id : String} {j : EscrowItem}
    (hj : items.find id = some j) :
    items'.find id = some j ∨
    (op.target = some id ∧ j.status = .held ∧ ∃ u, items'.find id = some (EscrowItemUpdate.apply u j)) ∨
    (∃ i u, tr.stage.Locks i ∧ i.escrowId = id ∧
      items'.find id = some (EscrowItemUpdate.apply u j)) ∨
    ∃ i, tr.stage = .conflicted i ∧ i.escrowId = id ∧ items'.find id = none := by
  cases h with
  | created i hcreate hfree =>
    rw [Collection.find_insert hfree]
    have hne : id ≠ i.escrowId := by
      rintro rfl
      rw [hfree.find] at hj
      cases hj
    exact .inl (by rwa [if_neg hne])
  | locked i t hstage htarget hfind hheld =>
    rw [Collection.find_modify]
    by_cases hid : id = i.escrowId
    · subst hid
      obtain rfl : i = j := Option.some.inj (hfind.symm.trans hj)
      exact .inr (.inl ⟨htarget, hheld, lockUpdate op.lockStatus t, by rw [if_pos rfl, hj, Option.map_some]⟩)
    · exact .inl (by rwa [if_neg hid])
  | unlocked escrowId u hunlock =>
    rw [Collection.find_modify]
    by_cases hid : id = escrowId
    · subst hid
      rw [if_pos rfl, hj, Option.map_some]
      obtain ⟨-, ⟨i, halfway, hstage, hi, -⟩ | ⟨i, hstage, hi, -⟩⟩ := hunlock
      · exact .inr (.inr (.inl ⟨i, u, by rw [hstage]; rfl, hi, rfl⟩))
      · exact .inr (.inr (.inl ⟨i, u, by rw [hstage]; rfl, hi, rfl⟩))
    · exact .inl (by rwa [if_neg hid])
  | deleted i hstage =>
    rw [Collection.find_erase]
    by_cases hid : id = i.escrowId
    · exact .inr (.inr (.inr ⟨i, hstage, hid.symm, by rw [if_pos hid]⟩))
    · exact .inl (by rwa [if_neg hid])
  | _ => exact .inl hj

end effect

section owned

/-- The item is stored and the wallet not yet debited for it. -/
def Stage.Hides (i : EscrowItem) : Stage → Prop
  | created j | conflicted j => j = i
  | _ => False

theorem Stage.Makes.hides_or {stage : Stage} {i : EscrowItem} (h : stage.Makes i) :
    stage.Hides i ∨ stage = .charged i := by
  cases stage with
  | created j | conflicted j => exact .inl h
  | charged j => exact .inr (congrArg Stage.charged h)
  | _ => exact h.elim

/-- No two calls have the same item. -/
def Apart (has : EscrowItem → Stage → Prop) (track : ℕ → Option (Call × Track)) : Prop :=
  ∀ t t' x x' i i', track t = some x → track t' = some x' → has i x.2.stage → has i' x'.2.stage →
    i.escrowId = i'.escrowId → t = t'

theorem Apart.update {has : EscrowItem → Stage → Prop} {track : ℕ → Option (Call × Track)} {t : ℕ}
    {y : Call × Track} (h : Apart has track)
    (hnew : ∀ t' x i i', t' ≠ t → track t' = some x → has i x.2.stage → has i' y.2.stage →
      i.escrowId ≠ i'.escrowId) : Apart has (Function.update track t (some y)) := by
  intro t₁ t₂ x₁ x₂ i₁ i₂ h₁ h₂ hi₁ hi₂ hid
  rw [Function.update_apply] at h₁ h₂
  split at h₁ <;> split at h₂
  · rename_i htt₁ htt₂
    exact htt₁.trans htt₂.symm
  · rename_i htt₁ htt₂
    obtain rfl := Option.some.inj h₁
    exact absurd hid.symm (hnew t₂ x₂ i₂ i₁ htt₂ h₂ hi₂ hi₁)
  · rename_i htt₁ htt₂
    obtain rfl := Option.some.inj h₂
    exact absurd hid (hnew t₁ x₁ i₁ i₂ htt₁ h₁ hi₁ hi₂)
  · exact h t₁ t₂ x₁ x₂ i₁ i₂ h₁ h₂ hi₁ hi₂ hid

/-- Each call's item is stored as the call has left it, and no item has two makers
or two closers. -/
structure Owned (items : EscrowItems) (track : ℕ → Option (Call × Track)) : Prop where
  owns : ∀ t x, track t = some x → x.1.operation.Owns items x.2.stage
  makers : Apart Stage.Makes track
  closers : Apart Stage.Closes track

/-- No call names an item before the wallet of its hold has been debited. -/
def Hidden (track : ℕ → Option (Call × Track)) : Prop :=
  ∀ t t' x x' i, track t = some x → track t' = some x' → x.2.stage.Hides i →
    x'.1.operation.target ≠ some i.escrowId

variable {items items' : EscrowItems} {track : ℕ → Option (Call × Track)} {t : ℕ} {call : Call}
  {tr : Track} {c : Cmd} {r : c.Reply}

/-- The step of one call leaves the item of another as that call has left it. -/
private theorem Owned.others (h : Owned items track) (hhidden : Hidden track)
    (hsuits : ∀ t x, track t = some x → x.1.operation.Suits x.2.ids x.2.stage)
    (ht : track t = some (call, tr))
    (heffect : ItemEffect call.operation tr items c r items') {t' : ℕ} {x : Call × Track} (htt : t' ≠ t)
    (hx : track t' = some x) : x.1.operation.Owns items' x.2.stage := by
  intro i hi
  obtain ⟨j, hfind, hsame, hstatus⟩ := h.owns t' x hx i hi
  -- a hold that has been paid for does not mind what becomes of its item
  have hcharged : ∀ u, (¬ x.2.stage.Hides i) → ¬ x.2.stage.Closes i →
      items'.find i.escrowId = some (EscrowItemUpdate.apply u j) →
      ∃ j, items'.find i.escrowId = some j ∧ i.Same j ∧
        ∀ status, x.1.operation.statusAt x.2.stage = some status → j.status = status := by
    intro u hnothidden hnotclosed hfind'
    refine ⟨_, hfind', hsame.apply u, fun status hst => ?_⟩
    rcases hi with hi | hi
    · rcases hi.hides_or with hi | hi
      · exact absurd hi hnothidden
      · rw [hi] at hst
        cases hst
    · exact absurd hi hnotclosed
  rcases heffect.change hfind with hnow | ⟨htarget, hheld, u, hnow⟩ | ⟨i', u, hi', hid, hnow⟩ |
    ⟨i', hi', hid, hnow⟩
  · exact ⟨j, hnow, hsame, hstatus⟩
  · refine hcharged u (fun hhides => hhidden t' t x _ i hx ht hhides htarget) (fun hcloses => ?_) hnow
    obtain ⟨status, hst, hne⟩ := hcloses.not_held x.1.operation
    exact hne ((hstatus status hst).symm.trans hheld)
  · refine hcharged u (fun hhides => hhidden t' t x _ i hx ht hhides ?_) (fun hcloses => ?_) hnow
    · exact hid ▸ (hsuits t _ ht).closes hi'.closes
    · exact htt (h.closers t' t x _ i i' hx ht hcloses hi'.closes hid.symm)
  · rcases hi with hi | hi
    · exact absurd (h.makers t' t x _ i i' hx ht hi (by rw [hi']; rfl) hid.symm) htt
    · have htarget := (hsuits t' x hx).closes hi
      exact absurd (hid ▸ htarget) (hhidden t t' _ x i' ht hx (by rw [hi']; rfl))

/-- Ownership survives the step of any call. -/
theorem Owned.step (h : Owned items track) (hhidden : Hidden track)
    (hsuits : ∀ t x, track t = some x → x.1.operation.Suits x.2.ids x.2.stage)
    (ht : track t = some (call, tr)) (heffect : ItemEffect call.operation tr items c r items') :
    Owned items' (Function.update track t (some (call, tr.after call.operation c r))) := by
  refine ⟨?_, h.makers.update ?_, h.closers.update ?_⟩
  · intro t' x hx
    rw [Function.update_apply] at hx
    split at hx
    · obtain rfl : (call, tr.after call.operation c r) = x := Option.some.inj hx
      exact heffect.owns (h.owns t _ ht)
    · rename_i htt
      exact h.others hhidden hsuits ht heffect htt hx
  · intro t' x i i' htt hx hi hi' hid
    rcases heffect.makes hi' with hold | hnone
    · exact htt (h.makers t' t x _ i i' hx ht hi hold hid)
    · obtain ⟨j, hfind, -⟩ := h.owns t' x hx i (.inl hi)
      rw [hid, hnone] at hfind
      cases hfind
  · intro t' x i i' htt hx hi hi' hid
    rcases heffect.closes hi' with hold | ⟨hfind', hheld⟩
    · exact htt (h.closers t' t x _ i i' hx ht hi hold hid)
    · obtain ⟨j, hfind, -, hstatus⟩ := h.owns t' x hx i (.inr hi)
      obtain ⟨status, hst, hne⟩ := hi.not_held x.1.operation
      rw [hid, hfind'] at hfind
      obtain rfl : i' = j := Option.some.inj hfind
      exact hne ((hstatus status hst).symm.trans hheld)

/-- A call that begins owns nothing. -/
theorem Owned.spawn (h : Owned items track) (t : ℕ) (call : Call) :
    Owned items (Function.update track t (some (call, {}))) := by
  refine ⟨?_, h.makers.update ?_, h.closers.update ?_⟩
  · intro t' x hx
    rw [Function.update_apply] at hx
    split at hx
    · obtain rfl := Option.some.inj hx
      exact fun i hi => (hi.elim id id).elim
    · exact h.owns t' x hx
  · exact fun _ _ _ _ _ _ _ hi' => hi'.elim
  · exact fun _ _ _ _ _ _ _ hi' => hi'.elim

end owned

section runs
variable {config : Config} {A : Schedule} {d : Db} {s : Run}

theorem suits (hA : Serves A) (h : (system config).Reaches A (.start d) s) :
    ∀ t x, protocol.track s t = some x → x.1.operation.Suits x.2.ids x.2.stage := by
  rintro t ⟨call, tr⟩ hx
  exact (recorded h t call tr hx (operation_ne_other hA h (Contract.calls_of_track hx))).1.stage

/-- As long as items are hidden until they are paid for, ownership holds at any time. -/
theorem owned (hA : Serves A)
    (hhidden : ∀ s, (system config).Reaches A (.start d) s → Hidden (protocol.track s))
    (h : (system config).Reaches A (.start d) s) : Owned s.db.escrowItems (protocol.track s) := by
  induction h using Machine.Reaches.by_steps with
  | start => exact ⟨by simp, fun _ _ _ _ _ _ h => by simp at h, fun _ _ _ _ _ _ h => by simp at h⟩
  | spawn s t c hs _ ht ih =>
    rw [Contract.track_spawned hs ht]
    exact ih.spawn t c
  | act s t o call c k hs _ ht ih =>
    rw [Contract.track_acted ht]
    exact ih.step (hhidden s hs) (suits hA hs) (Contract.track_of_thread ht) (acted_items hA hs ht o)
  | restart s t o call c _ _ ht ih =>
    rw [Contract.track_restarted ht]
    exact ih

end runs
end RedRoomRewards
