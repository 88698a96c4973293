import RedRoomRewards.Guarantees.LifeCycle
import RedRoomRewards.Protocol.Closings

/-! What a settlement or a refund that throws leaves behind: nothing, as long as no step
of it meets a reply that it cannot make up for. -/
namespace RedRoomRewards
open Process Store

section condition

instance (op : Operation) (i : EscrowItem) : Decidable (op.Splits i) := by
  unfold Operation.Splits
  split <;> infer_instance

instance (op : Operation) (i : EscrowItem) : Decidable (op.Idle i) := by
  unfold Operation.Idle
  split <;> infer_instance

/-- The items a call has locked, as it found them. -/
def lockedItems (hist : List (Event Mongo Call)) : List EscrowItem :=
  hist.filterMap fun ev => ev.cmd.locked ev.reply

/-- The call has credited the model with something before it updates the user's wallet. -/
def Operation.creditsFirst : Operation → Bool
  | settle request => request.amount ≠ 0
  | _ => false

/-- What a closing call with this history needs of the database and of the language for its
next command, so as not to leave anything behind. -/
def Operation.Copes (op : Operation) (hist : List (Event Mongo Call)) (o : Oracle) (db : Db) : Cmd → Prop
  | .lockEscrowItem escrowId _ _ => ∀ i ∈ db.escrowItems.find escrowId, i.status = .held → op.Splits i
  | .findWallet userId => (db.wallets.find userId).isSome = true
  | .createModelWallet m => m.invalid = [] ∧ db.modelWallets.Free m
  | .updateWallet f _ => op.creditsFirst = true → (db.wallets.find f.userId).any f.accepts = true
  | .updateModelWallet f _ => op.isPartial = false ∨ (∃ i ∈ lockedItems hist, ¬ op.Idle i) →
    (db.modelWallets.find f.modelId).any (fun m => m.version = f.version) = true
  | .updateEscrowItem _ u => u.status ≠ .held → op.noted.bind LedgerService.piiIn = none
  | .uuidv4 => LedgerService.blank o.uuid = false
  | .createLedgerEntry e => o.ledgerFault = none ∧ e.invalid = [] ∧ db.ledger.find e.entryId = none
  | _ => True

instance (op : Operation) (hist : List (Event Mongo Call)) (o : Oracle) (db : Db) (c : Cmd) :
    Decidable (op.Copes hist o db c) := by
  apply Cmd.casesOn (motive := fun c => Decidable (op.Copes hist o db c)) c <;> intros <;> dsimp only [Operation.Copes] <;>
    infer_instance

/-- Runs in which every step of thread `t` finds what it needs; the others do as they like. -/
def Undoable (t : ℕ) : Schedule
  | _, .spawn _ _ => True
  | s, .run t' o => t' = t → ∀ x ∈ s.pending t, x.1.operation.Copes (s.history t) o s.db x.2

instance (t : ℕ) (s : Run) (l : Label Oracle Call) : Decidable (Undoable t s l) :=
  match l with
  | .spawn .. | .run .. => by dsimp only [Undoable]; infer_instance

end condition

section replies
variable {op : Operation} {hist : List (Event Mongo Call)} {o : Oracle} {db : Db} {c : Cmd} {tr : Track}

private theorem copes_created {δ κ ι : Type} {key : δ → κ} {index : δ → ι} [DecidableEq κ] [DecidableEq ι]
    {docs : Collection δ κ ι key index} {d : δ} {invalid keyPattern : List String} (hvalid : invalid = [])
    (hfree : docs.Free d) : (create docs d invalid keyPattern).1 = .ok d := by
  rw [create, if_neg (not_not_intro hvalid), if_pos hfree]

/-- A valid entry with a new identifier is refused only where its key is taken. -/
private theorem copes_entry {e : LedgerEntry} {err : MongoError}
    (h : op.Copes hist o db (.createLedgerEntry e)) (herr : (exec o db (.createLedgerEntry e)).1 = .error err) :
    err = .duplicateKey ["idempotencyKey"] := by
  obtain ⟨hfault, hvalid, hfind⟩ := h
  simp only [exec, hfault, Db.createLedgerEntry, hfind, Option.isSome_none] at herr
  rw [create, if_neg (not_not_intro hvalid)] at herr
  split at herr
  · cases herr
  · exact (Except.error.inj herr).symm

/-- Where a step finds what it needs, its reply is none that the call cannot make up for. -/
private theorem Operation.Copes.not_upsets (h : op.Copes hist o db c) (hmay : op.Permits tr c) (hfit : op.Fits tr)
    (htold : LockTold hist tr.stage)
    (hfound : ∀ key, c = .findLedgerEntry key → ∃ e ∈ db.ledger.docs, e.idempotencyKey = key) :
    ¬ op.Upsets tr.stage c (exec o db c).1 := by
  intro hupsets
  cases c with
  | lockEscrowItem escrowId status t =>
    obtain ⟨i, hi, hnot⟩ := hupsets
    obtain ⟨hfind, hheld⟩ := exec_lockEscrowItem hi
    exact hnot (h i hfind hheld)
  | findWallet userId =>
    have hsome : (db.wallets.find userId).isSome = true := h
    have hnone : db.wallets.find userId = none := hupsets
    rw [hnone] at hsome
    cases hsome
  | createModelWallet m =>
    obtain ⟨e, he⟩ := hupsets
    have hok : (exec o db (.createModelWallet m)).1 = .ok m := copes_created h.1 h.2
    rw [hok] at he
    cases he
  | updateWallet f u =>
    obtain ⟨hnone, i, hstage, hidle⟩ := hupsets
    have hsuits := hfit.stage
    rw [hstage] at hsuits
    obtain ⟨⟨request, rfl⟩, -⟩ := hsuits
    have hfinds := h (by simpa [Operation.creditsFirst, Operation.Idle] using hidle)
    rw [exec_updateWallet_none hnone] at hfinds
    cases hfinds
  | updateModelWallet f u =>
    obtain ⟨hnone, hidle⟩ := hupsets
    have hmiss := exec_updateModelWallet_none hnone
    obtain ⟨m, -, -, -, hcredit⟩ := hmay
    have hfinds : op.isPartial = false ∨ ∃ i ∈ lockedItems hist, ¬ op.Idle i := by
      cases op with
      | partialSettle request =>
        obtain ⟨⟨i, hstage⟩, -⟩ := hcredit
        obtain ⟨ev, hev, hlocked⟩ := htold.took i (by rw [hstage]; rfl)
        exact .inr ⟨i, List.mem_filterMap.mpr ⟨ev, hev, hlocked⟩, hidle i hstage⟩
      | _ => exact .inl rfl
    rw [h hfinds] at hmiss
    cases hmiss
  | updateEscrowItem escrowId u => exact hupsets.2 (h hupsets.1)
  | uuidv4 =>
    have hblank : LedgerService.blank o.uuid = true := hupsets
    rw [show LedgerService.blank o.uuid = false from h] at hblank
    cases hblank
  | createLedgerEntry e =>
    obtain ⟨err, herr, hne⟩ := hupsets
    exact hne (copes_entry h herr)
  | findLedgerEntry key =>
    obtain ⟨e, he, hkey⟩ := hfound key rfl
    have hnone : db.ledger.docs.find? (fun e => e.idempotencyKey = key) = none := hupsets
    simpa [hkey] using List.find?_eq_none.mp hnone e he
  | _ => exact hupsets

end replies

section runs
variable {config : Config} {A : Schedule} {d : Db} {s : Run} {t : ℕ} {call : Call} {id : String}

private theorem Operation.ne_other_of_target {op : Operation} (h : op.target.isSome) : op ≠ .other := by
  rintro rfl
  cases h

/-- A closing call whose steps find what they need gets no reply it cannot make up for. -/
private theorem never_upset (hA : ∀ s l, A s l → Undoable t s l) (h : (system config).Reaches A (.start d) s) :
    ∀ t' call rec, closings.track s t' = some (call, rec) → t' = t → call.operation.target.isSome → ¬ rec.upset := by
  refine Contract.tracks_invariant (K := closings) (P := fun (_ : Db) t' (call : Call) (rec : Closing) => t' = t →
    call.operation.target.isSome → ¬ rec.upset) h (fun _ _ _ _ _ _ hupset => hupset) ?_
  intro s t' o call c k hs hstep ht ih
  refine ⟨?_, fun t'' call' rec _ => ih t'' call' rec⟩
  rintro rfl htarget hupset
  have hbefore := ih t' call _ (Contract.track_of_thread ht) rfl htarget
  rcases hupset with hold | hnow
  · exact hbefore hold
  · have hne := Operation.ne_other_of_target htarget
    have htrack := Contract.track_of_thread (K := protocol) ht
    have hcopes := hA s _ hstep rfl (call, c) (by simp [State.pending, ht])
    have hmay := ((protocol_kept config).may hs ht).resolve_left hne
    rw [closings_stage] at hnow
    refine hcopes.not_upsets hmay (recorded hs _ _ _ htrack hne).1 (lock_told hs htrack hne) ?_ hnow
    intro key hkey
    have htaken := ((closings_kept config).may hs ht htarget key hkey).resolve_left hbefore
    exact taken_in_ledger hs _ _ _ (Contract.track_of_thread ht) key htaken

/-- Where such a call stands when it has thrown. -/
private theorem thrown_stage (hA : ∀ s l, A s l → Undoable t s l) (h : (system config).Reaches A (.start d) s)
    (hcall : s.calls t = some call) (htarget : call.operation.target = some id) {e : ServiceError}
    (he : s.result t = some (.error e)) : ∃ tr, protocol.track s t = some (call, tr) ∧
      (tr.stage = .opening ∨ tr.stage = .ready ∨
        ∃ i halfway, tr.stage = .reopened i halfway ∧ (halfway = true → call.operation.Idle i)) := by
  have hsome : call.operation.target.isSome := Option.isSome_of_eq_some htarget
  have htrack : closings.track s t = some (call, closings.record call (s.history t)) := by
    rw [Contract.track, hcall, Option.map_some]
  have hundone := ((closings_kept config).ends h htrack he hsome e rfl).resolve_left (never_upset hA h _ _ _ htrack rfl hsome)
  rw [closings_stage] at hundone
  exact ⟨_, by rw [Contract.track, hcall, Option.map_some], hundone⟩

/-- A call that stands there has committed nothing of any worth. -/
private theorem undone_changes (h : (system config).Reaches A (.start d) s) (hcall : s.calls t = some call) {tr : Track}
    (htrack : protocol.track s t = some (call, tr)) (htarget : call.operation.target = some id)
    (hstage : tr.stage = .opening ∨ tr.stage = .ready ∨
      ∃ i halfway, tr.stage = .reopened i halfway ∧ (halfway = true → call.operation.Idle i)) :
    (∀ userId, (walletChanges userId (s.history t)).sum = 0) ∧
      ∀ modelId, (modelChanges modelId (s.history t)).sum = 0 := by
  obtain ⟨hfit, hcounts⟩ := recorded h t call tr htrack
    (Operation.ne_other_of_target (Option.isSome_of_eq_some htarget))
  constructor
  · refine fun userId => List.sum_eq_zero fun x hx => ?_
    obtain ⟨ev, hev, hchange⟩ := List.mem_filterMap.mp hx
    obtain ⟨f, u, hcommit, -, rfl⟩ := Operation.walletChange_eq_some.mp hchange
    rw [h.call_of_history hev hcall]
    have hmem : (f, u) ∈ tr.committed.toList := by
      rw [← hcounts.wallets]
      exact List.mem_filterMap.mpr ⟨ev, hev, hcommit⟩
    have hcommitted : tr.committed = some (f, u) := Option.mem_toList.mp hmem
    have hmoved := hfit.moved
    rw [hcommitted] at hmoved
    obtain hst | hst | ⟨i, halfway, hst, hidle⟩ := hstage
    · rw [hst] at hmoved
      cases hmoved
    · rw [hst] at hmoved
      cases hmoved
    · rw [hst, Stage.userMoved, Option.isSome_some, eq_comm, Bool.and_eq_true] at hmoved
      have htook := hfit.took f u i hmoved.2 hcommitted (by rw [hst, Stage.item])
      have hworth := hidle hmoved.1
      cases hop : call.operation with
      | partialSettle request =>
        rw [hop] at hworth
        rw [Operation.delta, htook, hworth.1, hworth.2, neg_zero]
        rfl
      | _ =>
        rw [hop] at hmoved
        cases hmoved.2
  · refine fun modelId => List.sum_eq_zero fun x hx => ?_
    obtain ⟨ev, hev, hchange⟩ := List.mem_filterMap.mp hx
    obtain ⟨f, u, hcommit, -, rfl⟩ := Operation.modelChange_eq_some.mp hchange
    rw [h.call_of_history hev hcall]
    have hmoved : (tr.stage.modelMoved call.operation).toNat ≠ 0 := by
      rw [← hcounts.models, ← Nat.pos_iff_ne_zero]
      exact List.countP_pos_iff.mpr ⟨ev, hev, by rw [hcommit, Option.isSome_some]⟩
    obtain hst | hst | ⟨i, halfway, hst, hidle⟩ := hstage
    · rw [hst] at hmoved
      exact absurd rfl hmoved
    · rw [hst] at hmoved
      exact absurd rfl hmoved
    · have hhalfway : halfway = true ∧ call.operation.isPartial = false := by
        rw [hst, Stage.modelMoved] at hmoved
        cases halfway <;> cases hpart : call.operation.isPartial <;> simp_all
      cases hop : call.operation with
      | settle request =>
        have hworth := hidle hhalfway.1
        rw [hop] at hworth
        exact hworth
      | partialSettle request =>
        rw [hop] at hhalfway
        cases hhalfway.2
      | _ => rfl

/-- The balances are those the other calls have left, where one call's changes add up to nothing. -/
private theorem sum_without {G : Type} [AddCommMonoid G] (f : Event Mongo Call → Option G)
    (h : ((s.history t).filterMap f).sum = 0) :
    (s.log.filterMap f).sum = ((s.log.filter fun ev => ev.thread ≠ t).filterMap f).sum := by
  have hperm := ((List.filter_append_perm (fun ev => ev.thread = t) s.log).filterMap f).sum_eq
  rw [List.filterMap_append, List.sum_append, ← State.history, h, zero_add] at hperm
  rw [← hperm]
  simp

/-- The call has reopened the item in one of its steps, and moved it no more. -/
private theorem reopening_step (h : (system config).Reaches A (.start d) s) {before : EscrowStatus}
    (hmoves : statusMoves (s.history t) = [(id, .held), (id, before)]) (hbefore : before ≠ .held) :
    ∃ s₁ s₂, (system config).Steps A d t s₁ s₂ s ∧ statusMoves (s₂.history t) = statusMoves (s.history t) ∧
      ∀ j, s₂.db.escrowItems.find id = some j → j.status = .held := by
  have hmem : (id, EscrowStatus.held) ∈ statusMoves (s.history t) := by
    rw [hmoves]
    exact .head _
  obtain ⟨ev, hev, hmove⟩ := List.mem_filterMap.mp hmem
  obtain ⟨hlog, rfl⟩ := s.mem_history.mp hev
  obtain ⟨s₁, o, k, ht, hreply, hstep⟩ := h.step_of_event hlog
  refine ⟨s₁, _, hstep, ?_, fun j hj => exec_moves (hreply ▸ hmove) hj⟩
  have hnow : statusMoves (((system config).acted s₁ ev.thread o ev.call ev.cmd k).history ev.thread) =
      (id, .held) :: statusMoves (s₁.history ev.thread) := by
    rw [Machine.acted_history_self, statusMoves, List.filterMap_cons, hreply, hmove]
    rfl
  have hsuffix := (hstep.later.log_suffix.filter (fun e => e.thread = ev.thread)).filterMap fun e => e.cmd.moves e.reply
  rw [← State.history, ← State.history, ← statusMoves, ← statusMoves, hmoves, hnow] at hsuffix
  rw [hnow, hmoves]
  -- only the first of the two moves is to `held`
  rcases List.suffix_cons_iff.mp hsuffix with heq | hlater
  · exact heq
  · rcases List.suffix_cons_iff.mp hlater with heq | hnil
    · exact absurd (Prod.mk.inj (List.cons.inj heq).1).2.symm hbefore
    · cases List.suffix_nil.mp hnil

end runs

section scenario

def sampleRefund : EscrowRefundRequest where
  escrowId := "escrow-1"
  userId := "user-1"
  amount := 5
  queueItemId := "queue-0"
  reason := .userDisconnected
  idempotencyKey := "refund-1"
  requestId := "request-4"
  metadata := none

def sampleRefundAuthorization : QueueRefundAuthorization where
  queueItemId := "queue-0"
  token := "token"
  escrowId := "escrow-1"
  userId := "user-1"
  amount := 5
  reason := .userDisconnected
  issuedAt := 0
  expiresAt := 300000

/-- Service calls among which thread 0 finds what it needs. -/
private def Kindly : Schedule := fun s l => only Call.isService s l ∧ Undoable 0 s l

private instance (s : Run) (l : Label Oracle Call) : Decidable (Kindly s l) :=
  inferInstanceAs (Decidable (only Call.isService s l ∧ Undoable 0 s l))

/-- The error a call has thrown. -/
def thrown : Option (Except ServiceError Response) → Option ServiceError
  | some (.error e) => some e
  | _ => none

theorem result_of_thrown {r : Option (Except ServiceError Response)} {e : ServiceError}
    (h : thrown r = some e) : r = some (.error e) := by
  rcases r with _ | (e' | response)
  · cases h
  · rw [Option.some.inj h]
  · cases h

end scenario
end RedRoomRewards
