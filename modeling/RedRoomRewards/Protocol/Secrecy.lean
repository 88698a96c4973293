import RedRoomRewards.Protocol.Ownership
import RedRoomRewards.Process.History

/-! Identifiers of items are fresh, and nobody learns one before the hold that
generated it has debited the wallet or ended. -/
namespace RedRoomRewards
open Process Store

/-- Thread `t` may still store an item, or has stored one without being paid for it. -/
def Undecided (s : Run) (t : ℕ) (call : Call) : Prop :=
  s.result t = none ∧ ¬ (protocol.record call (s.history t)).stage.Done

/-- A generated identifier is not one that some call already names. -/
def FreshId (s : Run) (o : Oracle) (_ : Call) : Cmd → Prop
  | .uuidv4 => ∀ x ∈ s.spawns, x.2.operation.target ≠ some o.uuid
  | _ => True

/-- A call names no identifier of a thread that is undecided. -/
def Discreet : Schedule
  | s, .spawn _ c => ∀ x ∈ s.spawns, Undecided s x.1 x.2 →
    ∀ id ∈ (protocol.record x.2 (s.history x.1)).ids, c.operation.target ≠ some id
  | s, .run t o => State.Issues FreshId s (.run t o)

instance (stage : Stage) : Decidable stage.Done := by
  unfold Stage.Done
  split <;> infer_instance

instance (s : Run) (t : ℕ) (call : Call) : Decidable (Undecided s t call) :=
  decidable_of_iff ((s.result t).isNone ∧ ¬ (protocol.record call (s.history t)).stage.Done)
    (and_congr_left' Option.isNone_iff_eq_none)

instance (s : Run) (o : Oracle) (call : Call) (c : Cmd) : Decidable (FreshId s o call c) := by
  unfold FreshId
  split <;> infer_instance

instance (s : Run) (l : Label Oracle Call) : Decidable (Discreet s l) :=
  match l with
  | .spawn .. | .run .. => by dsimp only [Discreet]; infer_instance

section done
variable {op : Operation} {tr : Track} {items items' : EscrowItems} {c : Cmd} {r : c.Reply}

/-- A call that is done stays so. -/
theorem ItemEffect.done (h : ItemEffect op tr items c r items') (hdone : tr.stage.Done) :
    (tr.after op c r).stage.Done := by
  cases h with
  | silent hstage => exact hstage ▸ hdone
  | claimed record hstage => exact (hstage ▸ hdone : Stage.opening.Done).elim
  | locked i t hstage => exact (hstage ▸ hdone : Stage.ready.Done).elim
  | deleted i hstage => exact (hstage ▸ hdone : (Stage.conflicted i).Done).elim
  | paid f u w w' hw hreads happly hpay | missed f u w hpay =>
    have hpaying := hpay.paying
    generalize tr.stage = st at hdone hpaying
    cases hpaying <;> exact hdone.elim
  | credited f u m m' hcredit | uncredited f u m hcredit =>
    have hcrediting := hcredit.crediting
    generalize tr.stage = st at hdone hcrediting
    cases hcrediting <;> exact hdone.elim
  | created i hcreate =>
    cases op with
    | hold request => exact (hcreate.1 ▸ hdone : Stage.ready.Done).elim
    | _ => exact hcreate.elim
  | unlocked escrowId u hunlock =>
    obtain ⟨-, ⟨i, halfway, hstage, -⟩ | ⟨i, hstage, -⟩⟩ := hunlock
    · exact (hstage ▸ hdone : (Stage.beaten i halfway).Done).elim
    · exact (hstage ▸ hdone : (Stage.paid i).Done).elim

/-- The identifiers a call has generated are those from before and a new one. -/
theorem after_ids {o : Oracle} {db : Db} {id : String} (h : id ∈ (tr.after op c (exec o db c).1).ids) :
    id ∈ tr.ids ∨ (id = o.uuid ∧ c = .uuidv4) := by
  cases c with
  | uuidv4 =>
    rcases List.mem_cons.mp h with rfl | hold
    · exact .inr ⟨rfl, rfl⟩
    · exact .inl hold
  | _ => exact .inl h

end done

section runs
variable {config : Config} {A : Schedule} {d : Db} {s : Run}

/-- No call names an identifier of a thread that is undecided. -/
def Secret (s : Run) : Prop :=
  ∀ x ∈ s.spawns, Undecided s x.1 x.2 → ∀ id ∈ (protocol.record x.2 (s.history x.1)).ids,
    ∀ y ∈ s.spawns, y.2.operation.target ≠ some id

theorem secret (hA : Serves A) (hdiscreet : ∀ s l, A s l → Discreet s l)
    (h : (system config).Reaches A (.start d) s) : Secret s := by
  induction h using Machine.Reaches.by_steps with
  | start => exact fun x hx => by cases hx
  | spawn s t c hs hAs ht ih =>
    rintro ⟨t', c'⟩ hx ⟨hresult, hdone⟩ id hid ⟨t'', c''⟩ hy
    rw [Machine.spawned_history] at hdone hid
    have hold : (t', c') ∈ s.spawns := by
      rcases List.mem_cons.mp hx with heq | hold
      · obtain ⟨rfl, rfl⟩ := Prod.mk.inj heq
        rw [hs.history_of_unspawned (by simp [State.calls, ht])] at hid
        cases hid
      · exact hold
    have hne : t' ≠ t := by
      rintro rfl
      simpa [State.calls, ht] using hs.mem_spawns.mp hold
    have hundecided : Undecided s t' c' :=
      ⟨(State.result_congr (by simp [Machine.spawned, hne])).symm.trans hresult, hdone⟩
    rcases List.mem_cons.mp hy with heq | hy
    · obtain ⟨rfl, rfl⟩ := Prod.mk.inj heq
      exact hdiscreet s _ hAs _ hold hundecided id hid
    · exact ih _ hold hundecided id hid _ hy
  | act s t o call c k hs hAs ht ih =>
    rintro ⟨t', c'⟩ hx ⟨hresult, hdone⟩ id hid y hy
    by_cases htt : t' = t
    · subst htt
      obtain rfl : call = c' :=
        Option.some.inj ((State.calls_of_thread ht).symm.trans (hs.mem_spawns.mp hx))
      rw [Machine.acted_history_self] at hdone hid
      have hundecided : Undecided s t' call :=
        ⟨by simp [State.result, ht], fun h => hdone ((acted_items hA hs ht o).done h)⟩
      rcases after_ids hid with hold | ⟨rfl, rfl⟩
      · exact ih _ hx hundecided id hold y hy
      · exact (hdiscreet s _ hAs).command ht y hy
    · rw [Machine.acted_history_ne _ _ _ _ _ htt] at hdone hid
      have hundecided : Undecided s t' c' :=
        ⟨(State.result_congr (by simp [Machine.acted, htt])).symm.trans hresult, hdone⟩
      exact ih _ hx hundecided id hid y hy
  | restart s t o call c _ _ ht ih =>
    rintro ⟨t', c'⟩ hx ⟨hresult, hdone⟩ id hid y hy
    refine ih _ hx ⟨?_, hdone⟩ id hid y hy
    by_cases htt : t' = t
    · subst htt
      simp [State.result, ht]
    · exact (State.result_congr (by simp [Machine.restarted, htt])).symm.trans hresult

/-- In a discreet run nobody names an item before it is paid for. -/
theorem hidden (hA : Serves A) (hdiscreet : ∀ s l, A s l → Discreet s l)
    (h : (system config).Reaches A (.start d) s) : Hidden (protocol.track s) := by
  rintro t t' ⟨call, tr⟩ ⟨call', tr'⟩ i hx hx' hi
  have hcall := Contract.calls_of_track hx
  have htr : protocol.record call (s.history t) = tr := by
    rw [Contract.track, hcall, Option.map_some] at hx
    exact (Prod.mk.inj (Option.some.inj hx)).2
  have hne := operation_ne_other hA h hcall
  have hsuits := suits hA h t _ hx
  have howing : tr.stage.Owing ∧ ¬ tr.stage.Done ∧ tr.stage.Makes i := by
    generalize tr.stage = st at hi
    cases st with
    | created j | conflicted j => exact ⟨trivial, id, hi⟩
    | _ => exact hi.elim
  have hresult : s.result t = none := by
    cases hr : s.result t with
    | none => rfl
    | some r => exact absurd howing.1 (ended h hx hne hr).not_owing
  obtain ⟨request, -, -, -, -, -, hid, -⟩ := hsuits.makes howing.2.2
  refine secret hA hdiscreet h (t, call) (h.mem_spawns.mpr hcall) ⟨hresult, ?_⟩ i.escrowId ?_
    (t', call') (h.mem_spawns.mpr (Contract.calls_of_track hx'))
  · rw [htr]
    exact howing.2.1
  · rw [htr]
    exact hid

/-- Where no call closes an item, every item is hidden. -/
theorem hidden_of_no_target (h : (system config).Reaches A (.start d) s)
    (hA : ∀ s t c, A s (.spawn t c) → c.operation.target = none) : Hidden (protocol.track s) := by
  rintro t t' x ⟨call', tr'⟩ i - hx' -
  rw [h.calls_satisfy hA (Contract.calls_of_track hx')]
  simp

end runs
end RedRoomRewards
