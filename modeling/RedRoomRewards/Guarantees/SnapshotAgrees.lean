import RedRoomRewards.Alone.Snapshot
import RedRoomRewards.Guarantees.LedgerChain

/-! The balance the ledger reports for a user is the one in the wallet where the entries
are accepted and stamped in the order in which the wallet updates commit. -/
namespace RedRoomRewards
open Process Store

section condition

/-- The program ends at once with an error of the ledger service. -/
def endsRefused {α : Type} : Service α → Bool
  | .throw (.ledger _) => true
  | _ => false

/-- The step of thread `t` is the one in which the ledger service refuses its entry. -/
def refusing (s : Run) (t : ℕ) (o : Oracle) : Bool :=
  match s.threads t with
  | some ⟨_, .call c k⟩ => endsRefused (k (exec o s.db c).1)
  | _ => false

/-- The entry that thread `t` writes is stamped later than those of the earlier commits
on its account, and earlier than those of the later ones. -/
def InOrder (s : Run) (t : ℕ) (e : LedgerEntry) : Prop :=
  ∀ ev ∈ s.log, ∀ e' ∈ ev.cmd.entry ev.reply, e'.OfAvailable → e'.accountId = e.accountId →
    ([t, ev.thread].Sublist (committers e.accountId s.log) → e'.timestamp < e.timestamp) ∧
    ([ev.thread, t].Sublist (committers e.accountId s.log) → e.timestamp < e'.timestamp)

instance (s : Run) (t : ℕ) (e : LedgerEntry) : Decidable (InOrder s t e) :=
  inferInstanceAs (Decidable (∀ ev ∈ s.log, ∀ e' ∈ ev.cmd.entry ev.reply, _ → _ → _))

/-- The available entry that a command offers to the ledger. -/
def Cmd.offered : Cmd → Option LedgerEntry
  | createLedgerEntry e => if e.OfAvailable then some e else none
  | _ => none

/-- Runs in which every entry is accepted and stamped in the order of the commits. -/
def bookedInOrder : Schedule
  | _, .spawn _ call => call.isPosting
  | s, .run t o => refusing s t o = false ∧
      ∀ x ∈ s.pending t, ∀ e ∈ x.2.offered, InOrder s t e

instance (s : Run) (l : Label Oracle Call) : Decidable (bookedInOrder s l) :=
  match l with
  | .spawn .. | .run .. => by dsimp only [bookedInOrder]; infer_instance

theorem only_of_bookedInOrder {config : Config} {d : Db} {s : Run}
    (h : (system config).Reaches bookedInOrder (.start d) s) :
    (system config).Reaches (only Call.isPosting) (.start d) s :=
  h.mono fun s l _ hA => by
    cases l with
    | spawn t call => exact hA
    | run t o => trivial

end condition

section runs
variable {config : Config} {d : Db} {s : Run}

/-- A call that has changed something is not refused by the ledger service. -/
private theorem accepted (h : (system config).Reaches bookedInOrder (.start d) s) :
    ∀ t call tr, protocol.track s t = some (call, tr) → tr.stage ≠ .opening →
      ∀ e, s.result t ≠ some (.error (.ledger e)) := by
  induction h using Machine.Reaches.by_steps with
  | start => simp
  | spawn s t c hs _ ht ih =>
    intro t' call tr htr hstage
    rw [Contract.track_spawned hs ht] at htr
    by_cases htt : t' = t
    · subst htt
      obtain ⟨rfl, rfl⟩ : c = call ∧ ({} : Track) = tr := by simpa using htr
      exact absurd rfl hstage
    · rw [Function.update_of_ne htt] at htr
      rw [State.result_congr (s := s) (by simp [Machine.spawned, htt])]
      exact ih t' call tr htr hstage
  | act s t o call c k hs hA ht ih =>
    intro t' call' tr htr hstage
    rw [Contract.track_acted ht] at htr
    by_cases htt : t' = t
    · subst htt
      have hrefusing := hA.1
      intro e he
      simp only [refusing, ht] at hrefusing
      simp only [State.result, Machine.acted, Function.update_self, system_exec] at he
      cases hk : k (exec o s.db c).1 with
      | throw e' =>
        simp only [hk, Option.some.injEq, Except.error.injEq] at he
        rw [hk, he] at hrefusing
        cases hrefusing
      | ret a => cases a <;> simp [hk] at he
      | call c' k' => simp [hk] at he
    · rw [Function.update_of_ne htt] at htr
      rw [State.result_congr (s := s) (by simp [Machine.acted, htt])]
      exact ih t' call' tr htr hstage
  | restart s t o call c hs _ ht ih =>
    intro t' call' tr htr hstage
    rw [Contract.track_restarted ht] at htr
    by_cases htt : t' = t
    · subst htt
      obtain ⟨rfl, rfl⟩ := Prod.mk.inj (Option.some.inj ((Contract.track_of_thread ht).symm.trans htr))
      have hresumes : protocol.resumes call c (protocol.record call (s.history t')) :=
        (protocol_kept config).obeys hs _ _ _ ht
      exact absurd hresumes.2.1 hstage
    · rw [State.result_congr (s := s) (by simp [Machine.restarted, htt])]
      exact ih t' call' tr htr hstage

private theorem committers_cons (userId : String) (ev : Event Mongo Call) (log : List (Event Mongo Call)) :
    committers userId (ev :: log) = committers userId log ∨
      committers userId (ev :: log) = ev.thread :: committers userId log ∧ ev.cmd.entry ev.reply = none := by
  obtain ⟨t, call, c, r⟩ := ev
  cases c with
  | updateWallet f u =>
    cases hchange : call.operation.walletChange userId (.updateWallet f u) r with
    | none => exact .inl (by simp [committers, hchange])
    | some x => exact .inr ⟨by simp [committers, hchange], rfl⟩
  | _ => exact .inl rfl

/-- Of two entries for one account, the one of the later commit has the later timestamp. -/
private theorem entries_in_order (h : (system config).Reaches bookedInOrder (.start d) s) :
    ∀ ev ∈ s.log, ∀ ev' ∈ s.log, ∀ e ∈ ev.cmd.entry ev.reply, ∀ e' ∈ ev'.cmd.entry ev'.reply,
      e.OfAvailable → e'.OfAvailable → e'.accountId = e.accountId →
      [ev.thread, ev'.thread].Sublist (committers e.accountId s.log) → e'.timestamp < e.timestamp := by
  induction h using Machine.Reaches.by_steps with
  | start => exact fun ev hev => by cases hev
  | spawn s t c _ _ _ ih => exact ih
  | act s t o call c k hs hA ht ih =>
    have hserves := serves_isPosting
    have hs' := only_of_bookedInOrder hs
    have hacted : (system config).Reaches (only Call.isPosting) (.start d) ((system config).acted s t o call c k) :=
      .step hs' (show only Call.isPosting s (.run t o) from trivial) (by simp [Machine.step, ht])
    obtain ⟨new, hnew⟩ : ∃ new : Event Mongo Call, new = ⟨t, call, c, (exec o s.db c).1⟩ := ⟨_, rfl⟩
    have hlog : ((system config).acted s t o call c k).log = new :: s.log := by rw [hnew]; rfl
    have hwrites : ∀ e ∈ new.cmd.entry new.reply, e.OfAvailable → InOrder s new.thread e := by
      subst hnew
      intro e he havailable
      have hpossible : Possible c (exec o s.db c).1 := ⟨o, s.db, rfl⟩
      obtain rfl := hpossible.entry he
      exact hA.2 (call, .createLedgerEntry e) (by simp [State.pending, ht]) e (if_pos havailable)
    clear hnew
    intro ev hev ev' hev' e he e' he' ha ha' haccount hsub
    have hnodup : (committers e.accountId _).Nodup := committers_nodup hserves hacted
    rw [hlog] at hev hev' hsub hnodup
    rcases committers_cons e.accountId new s.log with hsame | ⟨hcons, hnone⟩
    · rw [hsame] at hsub hnodup
      rcases List.mem_cons.mp hev with rfl | hold <;> rcases List.mem_cons.mp hev' with rfl | hold'
      · exact absurd hsub (List.nodup_iff_sublist.mp hnodup _)
      · exact (hwrites e he ha ev' hold' e' he' ha' haccount).1 hsub
      · rw [← haccount] at hsub
        exact (hwrites e' he' ha' ev hold e he ha haccount.symm).2 hsub
      · exact ih ev hold ev' hold' e he e' he' ha ha' haccount hsub
    · rw [hcons] at hsub hnodup
      rcases List.mem_cons.mp hev with rfl | hold
      · rw [hnone] at he
        cases he
      rcases List.mem_cons.mp hev' with rfl | hold'
      · rw [hnone] at he'
        cases he'
      rcases List.sublist_cons_iff.mp hsub with hbefore | ⟨ts, hts, -⟩
      · exact ih ev hold ev' hold' e he e' he' ha ha' haccount hbefore
      · -- a call that has written an entry has committed before
        obtain ⟨hthread, -⟩ := List.cons.inj hts
        have hin : e ∈ availableEntries (s.history ev.thread) := List.mem_filter.mpr
          ⟨List.mem_filterMap.mpr ⟨ev, s.mem_history.mpr ⟨hold, rfl⟩, he⟩, decide_eq_true ha⟩
        exact absurd (hthread ▸ committer_of_entry hserves hs' hin) (List.nodup_cons.mp hnodup).1
  | restart s t o call c _ _ _ ih => exact ih

/-- The entries of a user are stamped in the order of the commits. -/
private theorem entriesByCommit_stamped (h : (system config).Reaches bookedInOrder (.start d) s)
    (userId : String) : Stamped (entriesByCommit userId s) := by
  have hs := only_of_bookedInOrder h
  unfold Stamped entriesByCommit
  rw [List.pairwise_flatMap, List.pairwise_reverse]
  constructor
  · intro t _
    have hone := single_entry serves_isPosting hs t
    cases hentries : availableEntries (s.history t) with
    | nil => exact .nil
    | cons e es =>
      rw [hentries] at hone
      obtain rfl : es = [] := by simpa using hone
      exact List.pairwise_singleton _ e
  · refine List.pairwise_iff_forall_sublist.mpr fun {t t'} hsub e' he' e he => ?_
    obtain ⟨hwritten, ha⟩ := List.mem_filter.mp he
    obtain ⟨hwritten', ha'⟩ := List.mem_filter.mp he'
    obtain ⟨ev, hev, hentry⟩ := List.mem_filterMap.mp hwritten
    obtain ⟨ev', hev', hentry'⟩ := List.mem_filterMap.mp hwritten'
    obtain ⟨hmem, rfl⟩ := s.mem_history.mp hev
    obtain ⟨hmem', rfl⟩ := s.mem_history.mp hev'
    have hofUser : ∀ t ∈ committers userId s.log, ∀ e ∈ availableEntries (s.history t), e.accountId = userId :=
      fun t ht e he => ((mem_entriesByCommit serves_isPosting hs).mp
        (List.mem_flatMap.mpr ⟨t, List.mem_reverse.mpr ht, he⟩)).2.1
    have heq := hofUser _ (hsub.subset (.head _)) e he
    have heq' := hofUser _ (hsub.subset (.tail _ (.head _))) e' he'
    exact entries_in_order h ev hmem ev' hmem' e hentry e' hentry' (of_decide_eq_true ha)
      (of_decide_eq_true ha') (heq'.trans heq.symm) (heq ▸ hsub)

end runs

section snapshot
variable {config : Config} {d : Db} {s : Run}

theorem Chained.last {x y : ℚ} {es : List LedgerEntry} (h : Chained x es y) :
    y = es.getLast?.elim x LedgerEntry.balanceAfter := by
  induction es generalizing x with
  | nil => exact Eq.symm h
  | cons e es ih =>
    rw [ih h.2.2, List.getLast?_cons]
    cases es.getLast? <;> rfl

/-- The ledger's view in the order of timestamps is the wallet: at rest, the snapshot of a user who
started with nothing has the available balance of the wallet, whatever the interleaving of the
calls, as long as each entry is accepted by the ledger and stamped in the order of the commits.
Amounts are exact, identifiers trimmed and dates valid. -/
theorem snapshot_agrees_with_wallet (h : (system config).Reaches bookedInOrder (.start d) s)
    (hempty : d.ledger.docs = []) (hq : s.Quiescent) (hkeys : (ledgerKeys s.log).Nodup)
    {userId : String} (hzero : d.balances userId = 0) (ledger : LedgerService.Config) (os : ℕ → Oracle) :
    ∃ snapshot, (LedgerService.getBalanceSnapshot ledger userId .user none none).solo exec os s.db =
      (.ok snapshot, s.db) ∧ snapshot.availableBalance = (s.db.balances userId).1 := by
  have hs := only_of_bookedInOrder h
  have hperm : (entriesByCommit userId s).Perm (s.db.entriesOf userId .user .available) := by
    refine (entriesByCommit_perm serves_isPosting hs).trans (List.Perm.of_eq ?_)
    rw [newEntries, hempty]
    rfl
  have hfresh : ∀ e ∈ d.ledger.docs, e.idempotencyKey ∉ ledgerKeys s.log := by simp [hempty]
  have hbooked : ∀ ev ∈ s.log, ∀ x, ev.call.operation.walletChange userId ev.cmd ev.reply = some x →
      availableEntries (s.history ev.thread) = [] → x.1 = 0 := by
    intro ev hev x hchange
    have hmoved := moved_of_log serves_isPosting hs hev hchange
    refine unbooked_moves_nothing hs hq (no_duplicates hs hkeys hfresh) hev
      (accepted h _ _ _ (track_of_log hs hev) fun hopening => ?_) hchange
    rw [hopening] at hmoved
    cases hmoved
  have hchain := chained serves_isPosting hs hbooked (List.suffix_refl s.log)
  refine ⟨_, rfl, ?_⟩
  calc _ = lastBalance (entriesByCommit userId s) :=
        snapshotEntries_of hperm (entriesByCommit_stamped h userId)
    _ = availableAfter d userId s.log := by
        rw [hchain.last, hzero]
        rfl
    _ = (s.db.balances userId).1 := by
        rw [(wallets_follow_changes serves_isPosting hs userId).1]
        rfl

end snapshot

section scenario

def secondAward : AwardPointsRequest :=
  { sampleAward with amount := 10, idempotencyKey := "award-2", requestId := "request-3" }

/-- What the snapshot of a user and the wallet say of the available balance. -/
def bothViews (db : Db) (userId : String) : Option ℚ × ℚ :=
  (((LedgerService.getBalanceSnapshot LedgerService.defaultConfig userId .user none none).solo
    exec tick db).1.toOption.map (·.availableBalance), (db.balances userId).1)

/-- Both awards commit before either is booked; the later one is written first. -/
theorem snapshot_agrees_with_wallet_overlapping :
    ∃ s, (system (defaultConfig fun _ => none)).Reaches bookedInOrder (.start Db.empty) s ∧
      s.db.ledger.docs.map LedgerEntry.amount = [10, 20] ∧
      (entriesByCommit "user-1" s).map LedgerEntry.timestamp = [10, 14] ∧
      ∃ snapshot, (LedgerService.getBalanceSnapshot LedgerService.defaultConfig "user-1" .user none none).solo
        exec tick s.db = (.ok snapshot, s.db) ∧ snapshot.availableBalance = (s.db.balances "user-1").1 := by
  obtain ⟨s, hs, hfacts⟩ := Machine.exists_reaches (system (defaultConfig fun _ => none))
    bookedInOrder (.start Db.empty) ([.spawn 0 (.award sampleAward), .spawn 1 (.award secondAward)] ++
      interleaving [0, 0, 0, 0, 1, 1, 1, 0, 0, 0, 0, 1, 1, 1, 1, 1, 0])
    (fun s => (s.db.ledger.docs.map LedgerEntry.amount,
      (entriesByCommit "user-1" s).map LedgerEntry.timestamp,
      s.spawns.all fun x => (s.result x.1).any Except.isOk, ledgerKeys s.log))
    (a := ([10, 20], [10, 14], true, ["award-1", "award-2"])) (by decide +kernel)
  obtain ⟨hamounts, hrest⟩ := Prod.mk.inj hfacts
  obtain ⟨hstamps, hrest⟩ := Prod.mk.inj hrest
  obtain ⟨hall, hkeys⟩ := Prod.mk.inj hrest
  exact ⟨s, hs, hamounts, hstamps, snapshot_agrees_with_wallet hs rfl (hs.returned hall).1
    (by rw [hkeys]; decide) rfl LedgerService.defaultConfig tick⟩

/-- The second award commits last and is booked first: the snapshot then ends with the
entry of the first. -/
theorem snapshot_disagrees_with_wallet :
    ∃ s, (system (defaultConfig fun _ => none)).Reaches (only Call.isPosting) (.start Db.empty) s ∧
      s.Quiescent ∧ (ledgerKeys s.log).Nodup ∧ Stamped s.db.ledger.docs ∧
      bothViews s.db "user-1" = (some 20, 30) := by
  obtain ⟨s, hs, hfacts⟩ := Machine.exists_reaches (system (defaultConfig fun _ => none))
    (only Call.isPosting) (.start Db.empty) ([.spawn 0 (.award sampleAward), .spawn 1 (.award secondAward)] ++
      interleaving ([0, 0, 0, 0] ++ List.replicate 8 1 ++ List.replicate 5 0))
    (fun s => (s.spawns.all fun x => (s.result x.1).any Except.isOk, ledgerKeys s.log,
      decide (Stamped s.db.ledger.docs), bothViews s.db "user-1"))
    (a := (true, ["award-1", "award-2"], true, (some 20, 30))) (by decide +kernel)
  obtain ⟨hall, hrest⟩ := Prod.mk.inj hfacts
  obtain ⟨hkeys, hrest⟩ := Prod.mk.inj hrest
  obtain ⟨hstamped, hviews⟩ := Prod.mk.inj hrest
  exact ⟨s, hs, (hs.returned hall).1, by rw [hkeys]; decide, of_decide_eq_true hstamped, hviews⟩

end scenario
end RedRoomRewards
