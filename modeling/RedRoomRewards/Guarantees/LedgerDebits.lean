import RedRoomRewards.Guarantees.SnapshotAgrees
import RedRoomRewards.Protocol.Promotions

/-! Credits and deductions that race for the balance of one account in the ledger: when
the deductions stay within what has been credited. -/
namespace RedRoomRewards
open Process Store LedgerService

section condition

/-- A state of the running credits and deductions. -/
abbrev Promoting := State Mongo Db Promotion Bool ServiceError

variable (s : Promoting)

/-- No entry has been inserted since the thread has read its snapshot. -/
def UnchangedSince (t : ℕ) : Prop :=
  ∀ ev ∈ s.log.takeWhile fun ev => !(ev.thread = t && ev.cmd.lists), (ev.cmd.entry ev.reply).isNone = true

/-- Calls on one account, whose entries are stamped in the order in which they come. -/
def OnAccount (accountId : String) : Promoting → Label Oracle Promotion → Prop
  | _, .spawn _ call => call.request.accountId = accountId
  | s, .run t _ => ∀ x ∈ s.pending t, ∀ e ∈ x.2.offered, ∀ e' ∈ s.db.ledger.docs, e'.timestamp < e.timestamp

/-- The ledger is as the call has read it, and the key of its entry is new. -/
def InsertsAlone (accountId : String) : Promoting → Label Oracle Promotion → Prop
  | s, .run t o => OnAccount accountId s (.run t o) ∧ ∀ x ∈ s.pending t, ∀ e ∈ x.2.offered,
      UnchangedSince s t ∧ ∀ e' ∈ s.db.ledger.docs, e'.idempotencyKey ≠ e.idempotencyKey
  | s, l => OnAccount accountId s l

instance (t : ℕ) : Decidable (UnchangedSince s t) := inferInstanceAs (Decidable (∀ ev ∈ _, _))

instance (accountId : String) (l : Label Oracle Promotion) : Decidable (OnAccount accountId s l) :=
  match l with
  | .spawn .. | .run .. => by dsimp only [OnAccount]; infer_instance

instance (accountId : String) (l : Label Oracle Promotion) : Decidable (InsertsAlone accountId s l) :=
  match l with
  | .spawn .. | .run .. => by dsimp only [InsertsAlone]; infer_instance

end condition

section stages
variable {config : LedgerService.Config} {d : Db} {s : Promoting}
variable {A : Promoting → Label Oracle Promotion → Prop} {t : ℕ} {call : Promotion} {x : PromotionStage}

/-- A call that has written its entry has returned. -/
private theorem returned_of_written (h : (promotions config).Reaches A (.start d) s)
    (htr : promoting.track s t = some (call, .written)) : (s.result t).any Except.isOk = true := by
  cases ht : s.threads t with
  | none => simp [Contract.track, State.calls, ht] at htr
  | some th =>
    obtain ⟨call', p⟩ := th
    have hp := (promoting_kept config).obeys h t call' p ht
    rw [Contract.track_of_thread ht] at htr
    obtain ⟨rfl, hwritten⟩ := Prod.mk.inj (Option.some.inj htr)
    rw [hwritten] at hp
    cases p with
    | ret next =>
      cases next with
      | done r => simp [State.result, ht, Except.isOk, Except.toBool]
      | again c => cases hp.2
    | throw e => exact absurd rfl hp
    | call c k =>
      have hmay : call'.may .written c := hp.1
      cases c with
      | listLedgerEntries q sort => cases hmay.1
      | createLedgerEntry e =>
        obtain ⟨_, hread, -⟩ := hmay
        cases hread
      | _ => exact absurd rfl hmay.1

private theorem not_returned (h : (promotions config).Reaches A (.start d) s)
    (htr : promoting.track s t = some (call, x)) (hwritten : x ≠ .written) (hduplicated : x ≠ .duplicated) :
    (s.result t).any Except.isOk = false := by
  cases hr : s.result t with
  | none => rfl
  | some r =>
    cases r with
    | error e => rfl
    | ok done =>
      rcases (promoting_kept config).ends h htr hr with h | h
      · exact absurd h hwritten
      · exact absurd h hduplicated

end stages

section invariant
variable {config : LedgerService.Config} {accountId : String} {d : Db} {s s' : Promoting}

/-- The sum of the entries in the ledger. -/
def Db.booked (db : Db) : ℚ := (db.ledger.docs.map LedgerEntry.amount).sum

/-- The ledger of one account that only credits and deductions have written. -/
structure Balanced (accountId : String) (db : Db) : Prop where
  entries : ∀ e ∈ db.ledger.docs, e.accountId = accountId ∧ e.accountType = .user ∧ e.balanceState = .available
  stamped : Stamped db.ledger.docs
  last : lastBalance db.ledger.docs = db.booked
  nonneg : 0 ≤ db.booked

/-- What holds in every state: the ledger is balanced, it has what the calls that have
returned were for, and a call that could still write its entry knows the balance. -/
structure Covered (accountId : String) (s : Promoting) : Prop where
  ledger : Balanced accountId s.db
  booked : s.successes (fun call => call.credited - call.deducted) = s.db.booked
  reads : ∀ t call balance, promoting.track s t = some (call, .read balance) → UnchangedSince s t →
    balance = s.db.booked
  unduplicated : ∀ t call, promoting.track s t ≠ some (call, .duplicated)

/-- The snapshot of a balanced ledger has the sum of the entries. -/
theorem Balanced.snapshot {db : Db} (h : Balanced accountId db) :
    ((db.snapshotEntries accountId .user).foldl StateBalances.assign {}).available = db.booked := by
  have hall : db.entriesOf accountId .user .available = db.ledger.docs :=
    List.filter_eq_self.mpr fun e he => by simpa using h.entries e he
  have hsnapshot := snapshotEntries_of (List.Perm.of_eq hall.symm) h.stamped
  exact hsnapshot.trans h.last

/-- An entry that starts from the balance keeps the ledger balanced. -/
private theorem Balanced.insert {db db' : Db} {e : LedgerEntry} {call : Promotion} (h : Balanced accountId db)
    (hdocs : db'.ledger.docs = db.ledger.docs ++ [e]) (haccount : call.request.accountId = accountId)
    (he : call.Writes db.booked e) (hlater : ∀ e' ∈ db.ledger.docs, e'.timestamp < e.timestamp) :
    Balanced accountId db' ∧ db'.booked = db.booked + (call.credited - call.deducted) := by
  have hbooked : db'.booked = db.booked + (call.credited - call.deducted) := by
    rw [Db.booked, hdocs, List.map_append, List.sum_append, List.map_singleton, List.sum_singleton, he.amount]
    rfl
  refine ⟨⟨fun e' he' => ?_, ?_, ?_, ?_⟩, hbooked⟩
  · rw [hdocs, List.mem_append, List.mem_singleton] at he'
    rcases he' with hold | rfl
    · exact h.entries e' hold
    · exact ⟨he.account.1.trans haccount, he.account.2⟩
  · rw [hdocs]
    exact List.pairwise_append.mpr ⟨h.stamped, List.pairwise_singleton _ _, fun e' he' e'' he'' =>
      List.mem_singleton.mp he'' ▸ hlater e' he'⟩
  · rw [hdocs, hbooked, lastBalance, List.getLast?_append, List.getLast?_singleton]
    exact he.after
  · rw [hbooked]
    exact he.covered h.nonneg

/-- A step that leaves the ledger as it is. -/
private theorem Covered.quiet (h : Covered accountId s) (hledger : s'.db.ledger = s.db.ledger)
    (hsuccesses : s'.successes (fun call => call.credited - call.deducted) =
      s.successes fun call => call.credited - call.deducted)
    (hreads : ∀ t call balance, promoting.track s' t = some (call, .read balance) → UnchangedSince s' t →
      balance = s.db.booked)
    (hduplicated : ∀ t call, promoting.track s' t ≠ some (call, .duplicated)) : Covered accountId s' := by
  have hbooked : s'.db.booked = s.db.booked := by rw [Db.booked, Db.booked, hledger]
  refine ⟨⟨?_, ?_, ?_, ?_⟩, ?_, ?_, hduplicated⟩
  · rw [hledger]
    exact h.ledger.entries
  · rw [hledger]
    exact h.ledger.stamped
  · rw [hledger, hbooked]
    exact h.ledger.last
  · rw [hbooked]
    exact h.ledger.nonneg
  · rw [hsuccesses, hbooked, h.booked]
  · rw [hbooked]
    exact hreads

private theorem unchangedSince_cons {t : ℕ} {ev : Event Mongo Promotion} (hlog : s'.log = ev :: s.log)
    (hev : ¬ (ev.thread = t ∧ ev.cmd.lists = true)) (h : UnchangedSince s' t) :
    (ev.cmd.entry ev.reply).isNone = true ∧ UnchangedSince s t := by
  have hkept : (!(decide (ev.thread = t) && ev.cmd.lists)) = true := by
    simpa [imp_iff_not_or] using hev
  rw [UnchangedSince, hlog, List.takeWhile_cons, if_pos hkept] at h
  exact ⟨h ev (.head _), fun ev' hev' => h ev' (.tail _ hev')⟩

section act
variable {t : ℕ} {o : Oracle} {call : Promotion} {c : Cmd} {k : c.Reply → Service (Next Promotion Bool)}

/-- The step adds what its call counts for if the call returns by it. -/
private theorem successes_acted {A : Promoting → Label Oracle Promotion → Prop}
    (hs : (promotions config).Reaches A (.start d) s) (ht : s.threads t = some ⟨call, .call c k⟩) (f : Promotion → ℚ) :
    ((promotions config).acted s t o call c k).successes f = s.successes f +
      if ((((promotions config).acted s t o call c k).result t).any Except.isOk = true) then f call else 0 := by
  have hothers : ∀ t' ≠ t, ((promotions config).acted s t o call c k).threads t' = s.threads t' :=
    fun _ hne => Function.update_of_ne hne _ _
  exact hs.successes_step (State.calls_of_thread ht) (by simp [State.result, ht]) hothers rfl f

private theorem covered_quiet (hs : (promotions config).Reaches (InsertsAlone accountId) (.start d) s)
    (hs' : (promotions config).Reaches (InsertsAlone accountId) (.start d) ((promotions config).acted s t o call c k))
    (ht : s.threads t = some ⟨call, .call c k⟩) (h : Covered accountId s)
    (hledger : (exec o s.db c).2.ledger = s.db.ledger)
    (hwritten : (promoting.record call (s.history t)).next c (exec o s.db c).1 ≠ .written)
    (hduplicated : (promoting.record call (s.history t)).next c (exec o s.db c).1 ≠ .duplicated)
    (hread : ∀ balance, (promoting.record call (s.history t)).next c (exec o s.db c).1 = .read balance →
      balance = s.db.booked ∨ promoting.record call (s.history t) = .read balance ∧
        ¬ c.lists = true) :
    Covered accountId ((promotions config).acted s t o call c k) := by
  have htrack := Contract.track_acted (K := promoting) (M := promotions config) ht o
  have hself : promoting.track ((promotions config).acted s t o call c k) t =
      some (call, (promoting.record call (s.history t)).next c (exec o s.db c).1) := by
    rw [htrack, Function.update_self]
    rfl
  refine h.quiet hledger ?_ (fun t' call' balance htr hunchanged => ?_) fun t' call' htr => ?_
  · rw [successes_acted hs ht, not_returned hs' hself hwritten hduplicated, if_neg Bool.false_ne_true, add_zero]
  · by_cases htt : t' = t
    · subst htt
      obtain ⟨rfl, hnext⟩ := Prod.mk.inj (Option.some.inj (hself.symm.trans htr))
      rcases hread balance hnext with hbooked | ⟨hbefore, hnot⟩
      · exact hbooked
      · refine h.reads t' call balance ?_ (unchangedSince_cons rfl (fun hev => hnot hev.2) hunchanged).2
        rw [Contract.track_of_thread ht, hbefore]
    · rw [htrack, Function.update_of_ne htt] at htr
      exact h.reads t' call' balance htr (unchangedSince_cons rfl (fun hev => htt hev.1.symm) hunchanged).2
  · by_cases htt : t' = t
    · subst htt
      exact hduplicated (Prod.mk.inj (Option.some.inj (hself.symm.trans htr))).2
    · rw [htrack, Function.update_of_ne htt] at htr
      exact h.unduplicated t' call' htr

/-- An entry is inserted into a ledger that is as the call has read it. -/
private theorem covered_inserted {e : LedgerEntry} {k : Except MongoError LedgerEntry → Service (Next Promotion Bool)}
    (hs : (promotions config).Reaches (InsertsAlone accountId) (.start d) s)
    (hs' : (promotions config).Reaches (InsertsAlone accountId) (.start d)
      ((promotions config).acted s t o call (.createLedgerEntry e) k))
    (ht : s.threads t = some ⟨call, .call (.createLedgerEntry e) k⟩) (h : Covered accountId s)
    (haccount : call.request.accountId = accountId) (he : call.Writes s.db.booked e)
    (hx : promoting.record call (s.history t) = .read s.db.booked)
    (hlater : ∀ e' ∈ s.db.ledger.docs, e'.timestamp < e.timestamp)
    (hexec : (exec o s.db (.createLedgerEntry e)).1 = .ok e)
    (hdocs : (exec o s.db (.createLedgerEntry e)).2.ledger.docs = s.db.ledger.docs ++ [e]) :
    Covered accountId ((promotions config).acted s t o call (.createLedgerEntry e) k) := by
  have htrack := Contract.track_acted (K := promoting) (M := promotions config) ht o
  have hself : promoting.track ((promotions config).acted s t o call (.createLedgerEntry e) k) t =
      some (call, .written) := by
    rw [htrack, Function.update_self, promotions_exec, hx, hexec]
    rfl
  obtain ⟨hbalanced, hbooked⟩ := h.ledger.insert hdocs haccount he hlater
  refine ⟨hbalanced, ?_, fun t' call' balance htr hunchanged => ?_, fun t' call' htr => ?_⟩
  · rw [successes_acted hs ht, returned_of_written hs' hself, if_pos rfl, h.booked]
    exact hbooked.symm
  · by_cases htt : t' = t
    · subst htt
      cases hself.symm.trans htr
    · have hnone := (unchangedSince_cons rfl (fun hev => htt hev.1.symm) hunchanged).1
      simp [Cmd.entry, hexec, Except.toOption] at hnone
  · by_cases htt : t' = t
    · subst htt
      cases hself.symm.trans htr
    · rw [htrack, Function.update_of_ne htt] at htr
      exact h.unduplicated t' call' htr

/-- What the ledger replies to an entry with a new key. -/
private theorem createLedgerEntry_cases {db : Db} {e : LedgerEntry}
    (hkey : ∀ e' ∈ db.ledger.docs, e'.idempotencyKey ≠ e.idempotencyKey) :
    (∃ error ≠ .duplicateKey ["idempotencyKey"], exec o db (.createLedgerEntry e) = (.error error, db)) ∨
      (exec o db (.createLedgerEntry e)).1 = .ok e ∧
        (exec o db (.createLedgerEntry e)).2.ledger.docs = db.ledger.docs ++ [e] := by
  simp only [exec]
  cases o.ledgerFault with
  | some message => exact .inl ⟨.unavailable message, by rintro ⟨⟩, rfl⟩
  | none =>
    simp only [Db.createLedgerEntry, create]
    by_cases hvalid : e.invalid = []
    · by_cases hfree : db.ledger.Free e
      · simp only [hvalid, hfree, ne_eq, not_true_eq_false, if_false, if_true]
        exact .inr ⟨trivial, Collection.docs_insert hfree⟩
      · have htaken : (db.ledger.find e.entryId).isSome = true := by
          by_contra hnone
          exact hfree ⟨Collection.find_eq_none.mp (by simpa using hnone), hkey⟩
        simp only [hvalid, hfree, htaken, ne_eq, not_true_eq_false, if_false, if_true]
        exact .inl ⟨.duplicateKey ["entryId"], by decide, rfl⟩
    · simp only [hvalid, ne_eq, not_false_eq_true, if_true]
      exact .inl ⟨.validation e.invalid, by rintro ⟨⟩, rfl⟩

private theorem covered_acted (hs : (promotions config).Reaches (InsertsAlone accountId) (.start d) s)
    (hs' : (promotions config).Reaches (InsertsAlone accountId) (.start d) ((promotions config).acted s t o call c k))
    (hA : InsertsAlone accountId s (.run t o)) (ht : s.threads t = some ⟨call, .call c k⟩) (h : Covered accountId s) :
    Covered accountId ((promotions config).acted s t o call c k) := by
  have hmay : call.may (promoting.record call (s.history t)) c := (promoting_kept config).may hs ht
  have htr := Contract.track_of_thread (K := promoting) ht
  have haccount : call.request.accountId = accountId :=
    hs.calls_satisfy (fun _ _ _ hspawn => hspawn) (State.calls_of_thread ht)
  have hduplicated : promoting.record call (s.history t) ≠ .duplicated := fun hx =>
    h.unduplicated t call (by rw [htr, hx])
  generalize hx : promoting.record call (s.history t) = x at hmay htr hduplicated
  cases c with
  | listLedgerEntries q sort =>
    obtain ⟨rfl, rfl, rfl⟩ := hmay
    refine covered_quiet hs hs' ht h rfl ?_ ?_ fun balance hread => .inl ?_
    · rw [hx]
      rintro ⟨⟩
    · rw [hx]
      rintro ⟨⟩
    · rw [hx, haccount] at hread
      exact (PromotionStage.read.inj hread).symm.trans h.ledger.snapshot
  | createLedgerEntry e =>
    obtain ⟨balance, rfl, he⟩ := hmay
    have hoffered : e ∈ (Cmd.createLedgerEntry e).offered := by
      rw [Cmd.offered, if_pos (show e.OfAvailable from he.account.2)]
      rfl
    have hpending : (call, Cmd.createLedgerEntry e) ∈ s.pending t := by simp [State.pending, ht]
    obtain ⟨hunchanged, hkey⟩ := hA.2 _ hpending e hoffered
    obtain rfl : balance = s.db.booked := h.reads t call balance htr hunchanged
    rcases createLedgerEntry_cases hkey with ⟨error, hnot, hexec⟩ | ⟨hexec, hdocs⟩
    · have hnext : (promoting.record call (s.history t)).next (.createLedgerEntry e)
          (exec o s.db (.createLedgerEntry e)).1 = .read s.db.booked := by
        rw [hx, hexec]
        exact if_neg hnot
      refine covered_quiet hs hs' ht h (by rw [hexec]) ?_ ?_ fun balance hread => .inl ?_
      · rw [hnext]
        rintro ⟨⟩
      · rw [hnext]
        rintro ⟨⟩
      · exact (PromotionStage.read.inj (hnext.symm.trans hread)).symm
    · exact covered_inserted hs hs' ht h haccount he hx (hA.1 _ hpending e hoffered) hexec hdocs
  | _ =>
    have hsame := PromotionStage.next_read (x := x) hmay.2 rfl
    have hledger := (exec_frame o s.db _).ledger (by rw [hmay.2]; rintro ⟨⟩)
    refine covered_quiet hs hs' ht h hledger ?_ ?_ fun balance hread => .inr ?_
    · rw [hx, hsame]
      exact hmay.1
    · rw [hx, hsame]
      exact hduplicated
    · rw [hx, hsame] at hread
      exact ⟨hx.trans hread, Bool.false_ne_true⟩

end act
private theorem covered (hd : d.ledger.docs = [])
    (h : (promotions config).Reaches (InsertsAlone accountId) (.start d) s) : Covered accountId s := by
  induction h using Machine.Reaches.by_steps with
  | start =>
    refine ⟨⟨?_, ?_, ?_, ?_⟩, ?_, by rintro _ _ _ ⟨⟩, by rintro _ _ ⟨⟩⟩ <;> simp [State.start, Db.booked, hd, Stamped, lastBalance]
    rfl
  | spawn s t c hs hA ht ih =>
    have hs' : (promotions config).Reaches (InsertsAlone accountId) (.start d) ((promotions config).spawned s t c) :=
      .step hs hA (by simp [Machine.step, ht])
    have htrack := Contract.track_spawned (K := promoting) hs ht c
    have hself : promoting.track ((promotions config).spawned s t c) t = some (c, .fresh) := by
      rw [htrack, Function.update_self]
      rfl
    have hothers : ∀ t' call x, promoting.track ((promotions config).spawned s t c) t' = some (call, x) →
        x = .fresh ∨ promoting.track s t' = some (call, x) := by
      intro t' call x hx
      by_cases htt : t' = t
      · subst htt
        exact .inl (Prod.mk.inj (Option.some.inj (hself.symm.trans hx))).2.symm
      · rw [htrack, Function.update_of_ne htt] at hx
        exact .inr hx
    refine ih.quiet rfl (hs.successes_spawned ht (not_returned hs' hself (by rintro ⟨⟩) (by rintro ⟨⟩)) _)
      (fun t' call balance htr hunchanged => ?_) fun t' call htr => ?_
    · exact ih.reads t' call balance ((hothers t' call _ htr).resolve_left (by rintro ⟨⟩)) hunchanged
    · exact ih.unduplicated t' call ((hothers t' call _ htr).resolve_left (by rintro ⟨⟩))
  | act s t o call c k hs hA ht ih => exact covered_acted hs (.step hs hA (by simp [Machine.step, ht])) hA ht ih
  | restart s t o call c hs hA ht ih =>
    have hs' : (promotions config).Reaches (InsertsAlone accountId) (.start d)
      ((promotions config).restarted s t call c) := .step hs hA (by simp [Machine.step, ht])
    have htrack := Contract.track_restarted (K := promoting) (M := promotions config) ht c
    have hfresh : promoting.record call (s.history t) = .fresh := ((promoting_kept config).obeys hs t _ _ ht).2
    have hself : promoting.track ((promotions config).restarted s t call c) t = some (call, .fresh) := by
      rw [htrack, Contract.track_of_thread ht, hfresh]
    refine ih.quiet rfl ?_ ?_ ?_
    · have hothers : ∀ t' ≠ t, ((promotions config).restarted s t call c).threads t' = s.threads t' :=
        fun _ hne => Function.update_of_ne hne _ _
      have hsum := hs.successes_step (State.calls_of_thread ht) (by simp [State.result, ht]) hothers rfl
        fun call => call.credited - call.deducted
      rwa [not_returned hs' hself (by rintro ⟨⟩) (by rintro ⟨⟩), if_neg Bool.false_ne_true, add_zero] at hsum
    · rw [htrack]
      exact ih.reads
    · rw [htrack]
      exact ih.unduplicated

end invariant

section scenario

def samplePromotion (amount : ℚ) : PromotionalRequest where
  accountId := "user-1"
  amount := amount
  source := "campaign"
  reason := "spring"
  idempotencyKey := none

/-- A credit of 50 points comes first; thread 1 takes 40 and thread 2 takes 30. -/
private def withdrawals (threads : List ℕ) : List (Label Oracle Promotion) :=
  [.spawn 0 (.credit (samplePromotion 50)), .spawn 1 (.deduct (samplePromotion 40)),
    .spawn 2 (.deduct (samplePromotion 30))] ++
  (List.replicate 8 0 ++ threads).zipIdx.map fun (x : ℕ × ℕ) => .run x.1 (tick x.2)

end scenario
end RedRoomRewards
