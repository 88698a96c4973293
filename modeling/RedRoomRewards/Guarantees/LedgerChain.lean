import RedRoomRewards.Guarantees.BalanceLaw
import RedRoomRewards.Protocol.Entries
import RedRoomRewards.Service.Doubles

/-! The entries of a user's available bucket, in the order of the wallet updates they
book, lead from the initial balance to the present one without a gap. -/
namespace RedRoomRewards
open Process Store Arithmetic

/-- Each entry starts where the one before it ended, from `x` to `y`. -/
def Chained : ℚ → List LedgerEntry → ℚ → Prop
  | x, [], y => x = y
  | x, e :: es, y => e.balanceBefore = x ∧ e.balanceAfter = e.balanceBefore + e.amount ∧
      Chained e.balanceAfter es y

theorem Chained.append {x y z : ℚ} {es es' : List LedgerEntry} (h : Chained x es y)
    (h' : Chained y es' z) : Chained x (es ++ es') z := by
  induction es generalizing x with
  | nil =>
    obtain rfl : x = y := h
    exact h'
  | cons e es ih => exact ⟨h.1, h.2.1, ih h.2.2⟩

theorem Chained.sum_amounts {x y : ℚ} {es : List LedgerEntry} (h : Chained x es y) :
    y = x + (es.map LedgerEntry.amount).sum := by
  induction es generalizing x with
  | nil =>
    obtain rfl : x = y := h
    simp
  | cons e es ih =>
    obtain ⟨hbefore, hafter, hrest⟩ := h
    rw [ih hrest, hafter, hbefore, List.map_cons, List.sum_cons, add_assoc]

/-- Every operation but the partial settlement. -/
def Call.isPosting : Call → Bool
  | .partialSettle .. | .other _ => false
  | _ => true

theorem serves_isPosting : Serves (only Call.isPosting) :=
  serves_only fun c hc => by cases c <;> simp_all [Call.isPosting, Call.operation]

theorem Call.operation_of_isPosting {call : Call} (h : call.isPosting = true) :
    call.operation.isPartial = false := by
  cases call with
  | partialSettle request authorization => cases h
  | _ => rfl

/-- The threads that committed an update of a user's wallet, newest commit first. -/
def committers (userId : String) (log : List (Event Mongo Call)) : List ℕ :=
  log.filterMap fun ev => (ev.call.operation.walletChange userId ev.cmd ev.reply).map fun _ => ev.thread

/-- The available entries of the calls that updated a user's wallet, in the order of
the updates. -/
def entriesByCommit (userId : String) (s : Run) : List LedgerEntry :=
  (committers userId s.log).reverse.flatMap fun t => availableEntries (s.history t)

/-- The entries of a user's available bucket written since `d`, in the order of the ledger. -/
def newEntries (userId : String) (d db : Db) : List LedgerEntry :=
  (db.ledger.docs.drop d.ledger.docs.length).filter fun e => e.accountId = userId ∧ e.OfAvailable

section changes
variable {userId : String} {c : Cmd}

/-- Two moments of a run with equally many commits on a wallet lie between the same commits. -/
private theorem walletChanges_of_length {l l' log : List (Event Mongo Call)} (h : l <:+ log) (h' : l' <:+ log)
    (hlength : (walletChanges userId l).length = (walletChanges userId l').length) :
    walletChanges userId l = walletChanges userId l' := by
  rcases List.suffix_or_suffix_of_suffix h h' with hsub | hsub
  · exact (hsub.filterMap _).eq_of_length hlength
  · exact ((hsub.filterMap _).eq_of_length hlength.symm).symm

/-- A guarded update commits at the version its filter names. -/
private theorem exec_walletCommit {o : Oracle} {db : Db} {f : WalletFilter} {u : WalletUpdate}
    (h : c.walletCommit (exec o db c).1 = some (f, u)) : f.version = db.version f.userId := by
  cases c with
  | updateWallet f' u' =>
    simp only [exec, Db.updateWallet, Cmd.walletCommit] at h
    cases hfind : db.wallets.find f'.userId with
    | none => simp [hfind] at h
    | some w =>
      by_cases haccepts : f'.accepts w = true
      · obtain ⟨rfl, rfl⟩ : f' = f ∧ u' = u := by simpa [hfind, haccepts] using h
        simp only [WalletFilter.accepts, Bool.and_eq_true, decide_eq_true_eq] at haccepts
        rw [Db.version, hfind, ← haccepts.1]
        rfl
      · simp [hfind, haccepts] at h
  | _ => cases h

end changes

section runs
variable {config : Config} {A : Schedule} {d : Db} {s : Run}

/-- `w` is what the wallet was when the log was `l`. -/
def StoodAt (d : Db) (l : List (Event Mongo Call)) (w : Wallet) : Prop :=
  w.version = d.version w.userId + (walletChanges w.userId l).length ∧
    w.availableBalance = (d.balances w.userId).1 + (walletChanges w.userId l).sum.1

private theorem stands (hA : Serves A) (h : (system config).Reaches A (.start d) s) {w : Wallet}
    (hfind : s.db.wallets.find w.userId = some w) : StoodAt d s.log w := by
  obtain ⟨hbalances, hversion⟩ := wallets_follow_changes hA h w.userId
  rw [Db.balances, hfind] at hbalances
  rw [Db.version, hfind] at hversion
  exact ⟨hversion, congrArg Prod.fst hbalances⟩

/-- A wallet a call has seen is one that stood at some moment of the run. -/
private theorem seen_stood (hA : Serves A) (h : (system config).Reaches A (.start d) s) :
    ∀ t call tr, protocol.track s t = some (call, tr) → ∀ w ∈ tr.wallets,
      ∃ l, l <:+ s.log ∧ StoodAt d l w := by
  induction h using Machine.Reaches.by_steps with
  | start => simp
  | spawn s t c hs _ ht ih =>
    intro t' call tr htr w hw
    rw [Contract.track_spawned hs ht] at htr
    by_cases htt : t' = t
    · subst htt
      obtain ⟨rfl, rfl⟩ : c = call ∧ ({} : Track) = tr := by simpa using htr
      cases hw
    · rw [Function.update_of_ne htt] at htr
      exact ih t' call tr htr w hw
  | act s t o call c k hs hstep ht ih =>
    have hacted : (system config).Reaches A (.start d) ((system config).acted s t o call c k) :=
      .step hs hstep (by simp [Machine.step, ht])
    intro t' call' tr htr w hw
    rw [Contract.track_acted ht] at htr
    have hearlier : (∃ l, l <:+ s.log ∧ StoodAt d l w) →
        ∃ l, l <:+ ((system config).acted s t o call c k).log ∧ StoodAt d l w :=
      fun ⟨l, hl, hstood⟩ => ⟨l, hl.trans (List.suffix_cons _ _), hstood⟩
    by_cases htt : t' = t
    · subst htt
      rw [Function.update_self] at htr
      obtain ⟨rfl, rfl⟩ := Prod.mk.inj (Option.some.inj htr)
      rcases wallet_seen hw with hold | hnew
      · exact hearlier (ih t' _ _ (Contract.track_of_thread ht) w hold)
      · exact ⟨_, List.suffix_refl _, stands hA hacted hnew⟩
    · rw [Function.update_of_ne htt] at htr
      exact hearlier (ih t' call' tr htr w hw)
  | restart s t o call c _ _ ht ih =>
    rw [Contract.track_restarted ht]
    exact ih

/-- The filter of a committed update names the version of that moment. -/
private theorem commit_version (hA : Serves A) (h : (system config).Reaches A (.start d) s)
    {ev : Event Mongo Call} {l : List (Event Mongo Call)} {f : WalletFilter} {u : WalletUpdate}
    (hev : ev :: l <:+ s.log) (hcommit : ev.cmd.walletCommit ev.reply = some (f, u)) :
    f.version = d.version f.userId + (walletChanges f.userId l).length := by
  induction h using Machine.Reaches.by_steps with
  | start => cases List.suffix_nil.mp hev
  | spawn s t c _ _ _ ih => exact ih hev
  | act s t o call c k hs _ ht ih =>
    rw [Machine.acted_log, List.suffix_cons_iff] at hev
    rcases hev with hnew | hold
    · obtain ⟨rfl, rfl⟩ := List.cons.inj hnew
      rw [exec_walletCommit hcommit, (wallets_follow_changes hA hs f.userId).2]
    · exact ih hold
  | restart s t o call c _ _ _ ih => exact ih hev

/-- What a call writes for the available bucket once its wallet update is committed. -/
private theorem entries_booked (h : (system config).Reaches A (.start d) s) :
    ∀ t call tr, protocol.track s t = some (call, tr) → call.operation ≠ .other →
      call.operation.Booking tr := by
  refine (protocol_kept config).invariant (P := fun call _ tr => call.operation ≠ .other →
    call.operation.Booking tr) (fun call _ => ⟨fun hsome => absurd rfl hsome, by simp, by simp⟩) ?_ h
  rintro call hist tr t c r ih hmay ⟨o, db, rfl⟩ hne
  have hpermits := hmay.resolve_left hne
  have heffect : ItemEffect _ _ db.escrowItems c _ _ := item_effect o hpermits
  exact heffect.booking (ih hne) hpermits ⟨o, db, rfl⟩

/-- A finished call that has updated a wallet has written its entry, or moved nothing
in the available bucket. -/
private theorem entry_owed {op : Operation} {tr : Track} {r : Except ServiceError Response}
    (hends : op.Ends tr r) (hmoved : tr.stage.userMoved op = true) (hwhole : op.isPartial = false)
    (hdup : tr.duplicated = false) (hledger : ∀ e, r ≠ .error (.ledger e)) :
    (∃ e ∈ tr.entries, e.OfAvailable) ∨ ∀ u, (op.delta u).1 = 0 := by
  cases r with
  | ok a =>
    obtain ⟨-, hbooked⟩ | ⟨hstage, -⟩ := hends
    · cases op with
      | settle request | other => exact .inr fun _ => rfl
      | partialSettle request => cases hwhole
      | _ => exact .inl (hbooked.resolve_left (by simp [hdup]))
    · rw [hstage] at hmoved
      cases hmoved
  | error e =>
    exfalso
    have hthrows : tr.Throws e := hends
    unfold Track.Throws at hthrows
    have howes : e.OfLedger → False := fun h => by
      cases e with
      | ledger e => exact hledger e rfl
      | _ => exact h
    generalize tr.stage = stage at hthrows hmoved
    cases stage with
    | charged i | closed i | posted => exact howes hthrows
    | reopened i halfway => simp [Stage.userMoved, hwhole] at hmoved
    | debited i | paid i | beaten i halfway => exact hthrows
    | _ => cases hmoved

end runs

section entries
variable {config : Config} {A : Schedule} {d : Db} {s : Run} {userId : String}

/-- The available balance after the first commits of a run. -/
def availableAfter (d : Db) (userId : String) (l : List (Event Mongo Call)) : ℚ :=
  (d.balances userId).1 + (walletChanges userId l).sum.1

/-- The record of the thread an event belongs to. -/
theorem track_of_log (h : (system config).Reaches A (.start d) s) {ev : Event Mongo Call}
    (hev : ev ∈ s.log) : protocol.track s ev.thread =
      some (ev.call, protocol.record ev.call (s.history ev.thread)) := by
  rw [Contract.track, h.calls_of_log ev hev, Option.map_some]

/-- A commit is the one its thread has on record. -/
private theorem committed_of_log (hA : Serves A) (h : (system config).Reaches A (.start d) s)
    {ev : Event Mongo Call} (hev : ev ∈ s.log) {f : WalletFilter} {u : WalletUpdate}
    (hcommit : ev.cmd.walletCommit ev.reply = some (f, u)) :
    (protocol.record ev.call (s.history ev.thread)).committed = some (f, u) := by
  have hmem : (f, u) ∈ (s.history ev.thread).filterMap (fun ev => ev.cmd.walletCommit ev.reply) :=
    List.mem_filterMap.mpr ⟨ev, s.mem_history.mpr ⟨hev, rfl⟩, hcommit⟩
  have hne := operation_ne_other hA h (h.calls_of_log ev hev)
  rw [(recorded h _ _ _ (track_of_log h hev) hne).2.wallets, Option.mem_toList] at hmem
  exact hmem

/-- A call that has committed an update is past the stages in which nothing has moved. -/
theorem moved_of_log (hA : Serves A) (h : (system config).Reaches A (.start d) s)
    {ev : Event Mongo Call} (hev : ev ∈ s.log) {x : ℚ × ℚ}
    (hchange : ev.call.operation.walletChange userId ev.cmd ev.reply = some x) :
    (protocol.record ev.call (s.history ev.thread)).stage.userMoved ev.call.operation = true := by
  obtain ⟨f, u, hcommit, -, -⟩ := Operation.walletChange_eq_some.mp hchange
  have hne := operation_ne_other hA h (h.calls_of_log ev hev)
  have hmoved := (recorded h _ _ _ (track_of_log h hev) hne).1.moved
  rw [committed_of_log hA h hev hcommit] at hmoved
  exact hmoved.symm

/-- The available entry of a call that committed an update books this update. -/
theorem entry_books (hA : Serves A) (h : (system config).Reaches A (.start d) s)
    {ev : Event Mongo Call} {l : List (Event Mongo Call)} (hev : ev :: l <:+ s.log) {x : ℚ × ℚ}
    (hchange : ev.call.operation.walletChange userId ev.cmd ev.reply = some x) {e : LedgerEntry}
    {es : List LedgerEntry} (hwritten : availableEntries (s.history ev.thread) = e :: es) :
    es = [] ∧ e.balanceBefore = availableAfter d userId l ∧ e.amount = x.1 ∧
      e.balanceAfter = availableAfter d userId l + x.1 := by
  obtain ⟨f, u, hcommit, rfl, rfl⟩ := Operation.walletChange_eq_some.mp hchange
  have hmem : ev ∈ s.log := hev.subset (.head _)
  have hcommits := committed_of_log hA h hmem hcommit
  have hbooking := entries_booked h _ _ _ (track_of_log h hmem)
    (operation_ne_other hA h (h.calls_of_log ev hmem))
  have hentries := record_entries ev.call (s.history ev.thread)
  have hone := hbooking.single
  rw [hentries, ← availableEntries, hwritten] at hone
  obtain rfl : es = [] := by simpa using hone
  obtain ⟨he, havailable⟩ := List.mem_filter.mp (hwritten ▸ List.mem_singleton_self e)
  obtain ⟨w, hw, f', u', hcommitted, hreads, -, hbefore, hamount, hafter⟩ :=
    hbooking.books e (hentries ▸ he) (of_decide_eq_true havailable)
  obtain ⟨rfl, rfl⟩ := Prod.mk.inj (Option.some.inj (hcommits.symm.trans hcommitted))
  -- the call has read the wallet at the version the update found, so no commit lies between
  obtain ⟨l', hl', hversion, hstood⟩ := seen_stood hA h _ _ _ (track_of_log h hmem) w hw
  have hlength := commit_version hA h hev hcommit
  rw [hreads.2, hversion, hreads.1, Nat.add_left_cancel_iff] at hlength
  have hsame := walletChanges_of_length hl' ((List.suffix_cons _ _).trans hev) hlength
  rw [hsame, ← hreads.1] at hstood
  exact ⟨rfl, hbefore.trans hstood, hamount, by rw [hafter, hstood]; rfl⟩

/-- At rest a call that has committed an update without booking it has not moved the
available balance. -/
theorem unbooked_moves_nothing (h : (system config).Reaches (only Call.isPosting) (.start d) s)
    (hq : s.Quiescent) (hdup : ∀ ev ∈ s.log, ev.cmd.duplicates ev.reply = false)
    {ev : Event Mongo Call} (hev : ev ∈ s.log)
    (hledger : ∀ e, s.result ev.thread ≠ some (.error (.ledger e))) {x : ℚ × ℚ} (hchange : ev.call.operation.walletChange userId ev.cmd ev.reply = some x)
    (hnone : availableEntries (s.history ev.thread) = []) : x.1 = 0 := by
  obtain ⟨f, u, -, -, rfl⟩ := Operation.walletChange_eq_some.mp hchange
  have hcall := h.calls_of_log ev hev
  have htr := track_of_log h hev
  have hne := operation_ne_other serves_isPosting h hcall
  obtain ⟨r, hr⟩ := Option.isSome_iff_exists.mp (hq ev.thread (by
    rw [State.calls] at hcall
    exact Option.isSome_iff_exists.mpr ((Option.map_eq_some_iff.mp hcall).imp fun _ h => h.1)))
  have hnodup : (protocol.record ev.call (s.history ev.thread)).duplicated = false := by
    by_contra hd
    obtain ⟨ev', hev', hdup'⟩ := record_duplicated _ _ (Bool.eq_true_of_not_eq_false hd)
    rw [hdup ev' (s.mem_history.mp hev').1] at hdup'
    cases hdup'
  rcases entry_owed (ended h htr hne hr) (moved_of_log serves_isPosting h hev hchange)
    (Call.operation_of_isPosting (h.calls_satisfy (fun s t c hA => hA) hcall)) hnodup
    (fun e he => hledger e (he ▸ hr)) with ⟨e, he, havailable⟩ | hzero
  · have hin : e ∈ availableEntries (s.history ev.thread) :=
      List.mem_filter.mpr ⟨record_entries ev.call _ ▸ he, decide_eq_true havailable⟩
    rw [hnone] at hin
    cases hin
  · exact hzero u

/-- Where every change of the available balance is booked, the entries in the order of
the commits form a chain. -/
theorem chained (hA : Serves A) (h : (system config).Reaches A (.start d) s)
    (hbooked : ∀ ev ∈ s.log, ∀ x, ev.call.operation.walletChange userId ev.cmd ev.reply = some x →
      availableEntries (s.history ev.thread) = [] → x.1 = 0)
    {l : List (Event Mongo Call)} (hl : l <:+ s.log) : Chained (d.balances userId).1
      ((committers userId l).reverse.flatMap fun t => availableEntries (s.history t))
      (availableAfter d userId l) := by
  induction l with
  | nil => simp [Chained, committers, availableAfter, walletChanges]
  | cons ev l ih =>
    have hrest := ih ((List.suffix_cons _ _).trans hl)
    cases hchange : ev.call.operation.walletChange userId ev.cmd ev.reply with
    | none =>
      simpa [committers, availableAfter, walletChanges, List.filterMap_cons, hchange] using hrest
    | some x =>
      have hafter : availableAfter d userId (ev :: l) = availableAfter d userId l + x.1 := by
        simp only [availableAfter, walletChanges, List.filterMap_cons, hchange, List.sum_cons, Prod.fst_add]
        abel
      have hcommitters : committers userId (ev :: l) = ev.thread :: committers userId l := by
        simp [committers, hchange]
      rw [hafter, hcommitters, List.reverse_cons, List.flatMap_append, List.flatMap_singleton]
      apply hrest.append
      cases hwritten : availableEntries (s.history ev.thread) with
      | nil =>
        rw [hbooked ev (hl.subset (.head _)) x hchange hwritten, add_zero]
        rfl
      | cons e es =>
        obtain ⟨rfl, hbefore, hamount, hend⟩ := entry_books hA h hl hchange hwritten
        exact ⟨hbefore, by rw [hend, hbefore, hamount], hend⟩

theorem mem_committers {l : List (Event Mongo Call)} {t : ℕ} : t ∈ committers userId l ↔
    ∃ ev ∈ l, ev.thread = t ∧ (ev.call.operation.walletChange userId ev.cmd ev.reply).isSome := by
  simp only [committers, List.mem_filterMap, Option.map_eq_some_iff, Option.isSome_iff_exists]
  exact exists_congr fun ev => and_congr_right fun _ => by tauto

/-- A thread commits on one wallet at most once. -/
theorem committers_nodup (hA : Serves A) (h : (system config).Reaches A (.start d) s) :
    (committers userId s.log).Nodup := by
  apply List.nodup_iff_count_le_one.mpr
  intro t
  cases hcall : s.calls t with
  | none =>
    refine (List.count_eq_zero.mpr fun hmem => ?_).le.trans (Nat.zero_le 1)
    obtain ⟨ev, hev, rfl, -⟩ := mem_committers.mp hmem
    rw [h.calls_of_log ev hev] at hcall
    cases hcall
  | some call =>
    have htr : protocol.track s t = some (call, protocol.record call (s.history t)) := by
      rw [Contract.track, hcall, Option.map_some]
    have hcounts := (recorded h _ _ _ htr (operation_ne_other hA h hcall)).2
    calc (committers userId s.log).count t
        ≤ (s.history t).countP fun ev => (ev.cmd.walletCommit ev.reply).isSome := by
          rw [committers, List.count, List.countP_filterMap, State.history, List.countP_filter]
          apply List.countP_mono_left
          intro ev _ hcount
          cases hchange : ev.call.operation.walletChange userId ev.cmd ev.reply with
          | none => simp [hchange] at hcount
          | some x =>
            obtain ⟨f, u, hcommit, -, -⟩ := Operation.walletChange_eq_some.mp hchange
            simpa [hchange, hcommit] using hcount
      _ = ((s.history t).filterMap fun ev => ev.cmd.walletCommit ev.reply).length :=
          List.length_filterMap_eq_countP.symm
      _ ≤ 1 := by
          rw [hcounts.wallets]
          cases (protocol.record call (s.history t)).committed <;> simp

private theorem eq_of_nodup_filterMap {α β : Type} {f : α → Option β} {l : List α} {a b : α} {x : β}
    (h : (l.filterMap f).Nodup) (ha : a ∈ l) (hb : b ∈ l) (hfa : f a = some x) (hfb : f b = some x) :
    a = b := by
  induction l with
  | nil => cases ha
  | cons c l ih =>
    have hlater : ∀ y ∈ l, f c = some x → f y = some x → False := by
      intro y hy hc hfy
      rw [List.filterMap_cons_some hc] at h
      exact (List.nodup_cons.mp h).1 (List.mem_filterMap.mpr ⟨y, hy, hfy⟩)
    rcases List.mem_cons.mp ha with rfl | ha' <;> rcases List.mem_cons.mp hb with rfl | hb'
    · rfl
    · exact (hlater _ hb' hfa hfb).elim
    · exact (hlater _ ha' hfb hfa).elim
    · exact ih (h.sublist ((List.sublist_cons_self c l).filterMap f)) ha' hb'

/-- No entry is written twice. -/
private theorem written_nodup (h : (system config).Reaches A (.start d) s) :
    (writtenEntries s.log.reverse).Nodup := by
  have hdocs : s.db.ledger.docs.Nodup := .of_map _ s.db.ledger.key_nodup
  rw [ledger_grows h] at hdocs
  exact hdocs.of_append_right

private theorem writer_unique (h : (system config).Reaches A (.start d) s) {t t' : ℕ}
    {e : LedgerEntry} (he : e ∈ availableEntries (s.history t)) (he' : e ∈ availableEntries (s.history t')) :
    t = t' := by
  obtain ⟨ev, hev, hentry⟩ := List.mem_filterMap.mp (List.mem_filter.mp he).1
  obtain ⟨ev', hev', hentry'⟩ := List.mem_filterMap.mp (List.mem_filter.mp he').1
  obtain ⟨hmem, rfl⟩ := s.mem_history.mp hev
  obtain ⟨hmem', rfl⟩ := s.mem_history.mp hev'
  rw [eq_of_nodup_filterMap (written_nodup h) (List.mem_reverse.mpr hmem) (List.mem_reverse.mpr hmem')
    hentry hentry']

/-- The thread of an available entry has committed one wallet update, on the wallet of
the entry's account. -/
theorem commits_of_entry (hA : Serves A) (h : (system config).Reaches A (.start d) s)
    {t : ℕ} {e : LedgerEntry} (he : e ∈ availableEntries (s.history t)) :
    ∃ f u, (s.history t).filterMap (fun ev => ev.cmd.walletCommit ev.reply) = [(f, u)] ∧
      f.userId = e.accountId := by
  obtain ⟨hwritten, havailable⟩ := List.mem_filter.mp he
  obtain ⟨ev, hev, -⟩ := List.mem_filterMap.mp hwritten
  obtain ⟨hmem, rfl⟩ := s.mem_history.mp hev
  have htr := track_of_log h hmem
  have hne := operation_ne_other hA h (h.calls_of_log ev hmem)
  obtain ⟨w, -, f, u, hcommitted, hreads, hbooks⟩ := (entries_booked h _ _ _ htr hne).books e
    ((record_entries ev.call (s.history ev.thread)).symm ▸ hwritten) (of_decide_eq_true havailable)
  refine ⟨f, u, ?_, hreads.1.trans hbooks.1.symm⟩
  rw [(recorded h _ _ _ htr hne).2.wallets, hcommitted]
  rfl

theorem committer_of_entry (hA : Serves A) (h : (system config).Reaches A (.start d) s) {t : ℕ}
    {e : LedgerEntry} (he : e ∈ availableEntries (s.history t)) : t ∈ committers e.accountId s.log := by
  obtain ⟨f, u, hcommits, haccount⟩ := commits_of_entry hA h he
  obtain ⟨ev, hev, hcommit⟩ := List.mem_filterMap.mp (hcommits ▸ List.mem_singleton_self (f, u))
  obtain ⟨hmem, hthread⟩ := s.mem_history.mp hev
  exact mem_committers.mpr ⟨ev, hmem, hthread, Option.isSome_iff_exists.mpr
    ⟨_, Operation.walletChange_eq_some.mpr ⟨f, u, hcommit, haccount, rfl⟩⟩⟩

theorem single_entry (hA : Serves A) (h : (system config).Reaches A (.start d) s) (t : ℕ) :
    (availableEntries (s.history t)).length ≤ 1 := by
  cases hcall : s.calls t with
  | none => simp [h.history_of_unspawned hcall, availableEntries, writtenEntries]
  | some call =>
    have htr : protocol.track s t = some (call, protocol.record call (s.history t)) := by
      rw [Contract.track, hcall, Option.map_some]
    have hone := (entries_booked h _ _ _ htr (operation_ne_other hA h hcall)).single
    rwa [record_entries] at hone

theorem mem_entriesByCommit (hA : Serves A)
    (h : (system config).Reaches A (.start d) s) {e : LedgerEntry} : e ∈ entriesByCommit userId s ↔
      e ∈ writtenEntries s.log.reverse ∧ e.accountId = userId ∧ e.OfAvailable := by
  constructor
  · intro he
    obtain ⟨t, ht, hin⟩ := List.mem_flatMap.mp he
    obtain ⟨ev, hev, rfl, hchange⟩ := mem_committers.mp (List.mem_reverse.mp ht)
    obtain ⟨x, hx⟩ := Option.isSome_iff_exists.mp hchange
    obtain ⟨f, u, hcommit, rfl, -⟩ := Operation.walletChange_eq_some.mp hx
    obtain ⟨f', u', hcommits, haccount⟩ := commits_of_entry hA h hin
    have hmem : (f, u) ∈ (s.history ev.thread).filterMap (fun ev => ev.cmd.walletCommit ev.reply) :=
      List.mem_filterMap.mpr ⟨ev, s.mem_history.mpr ⟨hev, rfl⟩, hcommit⟩
    rw [hcommits] at hmem
    obtain ⟨rfl, rfl⟩ := Prod.mk.inj (List.mem_singleton.mp hmem)
    obtain ⟨hwritten, havailable⟩ := List.mem_filter.mp hin
    obtain ⟨ev', hev', hentry⟩ := List.mem_filterMap.mp hwritten
    exact ⟨List.mem_filterMap.mpr ⟨ev', List.mem_reverse.mpr (s.mem_history.mp hev').1, hentry⟩,
      haccount.symm, of_decide_eq_true havailable⟩
  · rintro ⟨hwritten, rfl, havailable⟩
    obtain ⟨ev, hev, hentry⟩ := List.mem_filterMap.mp hwritten
    have hin : e ∈ availableEntries (s.history ev.thread) := List.mem_filter.mpr
      ⟨List.mem_filterMap.mpr ⟨ev, s.mem_history.mpr ⟨List.mem_reverse.mp hev, rfl⟩, hentry⟩,
        decide_eq_true havailable⟩
    exact List.mem_flatMap.mpr ⟨ev.thread, List.mem_reverse.mpr (committer_of_entry hA h hin), hin⟩

/-- The entries taken by commits are those written for the user since the start. -/
theorem entriesByCommit_perm (hA : Serves A) (h : (system config).Reaches A (.start d) s) :
    (entriesByCommit userId s).Perm (newEntries userId d s.db) := by
  have hnew : newEntries userId d s.db =
      (writtenEntries s.log.reverse).filter fun e => e.accountId = userId ∧ e.OfAvailable := by
    rw [newEntries, ledger_grows h, List.drop_left]
  have hnodup : (entriesByCommit userId s).Nodup := by
    refine List.nodup_flatMap.mpr ⟨fun t _ => ?_, ?_⟩
    · have hsub : (s.history t).reverse.Sublist s.log.reverse := List.filter_sublist.reverse
      have hwritten : (writtenEntries (s.history t).reverse).Nodup :=
        (written_nodup h).sublist (hsub.filterMap _)
      rw [writtenEntries, List.filterMap_reverse] at hwritten
      exact (List.nodup_reverse.mp hwritten).filter _
    · apply (List.nodup_reverse.mpr (committers_nodup hA h)).pairwise_of_forall_ne
      exact fun t _ t' _ hne e he he' => hne (writer_unique h he he')
  rw [hnew]
  apply (List.perm_ext_iff_of_nodup hnodup ((written_nodup h).filter _)).mpr
  intro e
  rw [mem_entriesByCommit hA h, List.mem_filter, decide_eq_true_eq]

/-- With exact amounts the available entries written for a user, in the order their wallet updates
committed, lead at rest from the initial balance to the present one, so that their amounts add up to
the change. The keys offered to the ledger are distinct and new, and no entry is rejected. -/
theorem entries_lead_to_balance (h : (system config).Reaches (only Call.isPosting) (.start d) s)
    (hq : s.Quiescent) (hkeys : (ledgerKeys s.log).Nodup)
    (hfresh : ∀ e ∈ d.ledger.docs, e.idempotencyKey ∉ ledgerKeys s.log)
    (hledger : ∀ t e, s.result t ≠ some (.error (.ledger e))) (userId : String) :
    (entriesByCommit userId s).Perm (newEntries userId d s.db) ∧
    Chained (d.balances userId).1 (entriesByCommit userId s) (s.db.balances userId).1 ∧
    ((newEntries userId d s.db).map LedgerEntry.amount).sum =
      (s.db.balances userId).1 - (d.balances userId).1 := by
  have hperm : (entriesByCommit userId s).Perm (newEntries userId d s.db) := entriesByCommit_perm serves_isPosting h
  have hend : (s.db.balances userId).1 = availableAfter d userId s.log := by
    rw [(wallets_follow_changes serves_isPosting h userId).1]
    rfl
  have hchain : Chained (d.balances userId).1 (entriesByCommit userId s) (s.db.balances userId).1 :=
    hend ▸ chained serves_isPosting h (fun ev hev x hchange => unbooked_moves_nothing h hq
      (no_duplicates h hkeys hfresh) hev (hledger ev.thread) hchange) (List.suffix_refl _)
  refine ⟨hperm, hchain, ?_⟩
  rw [← (hperm.map LedgerEntry.amount).sum_eq, hchain.sum_amounts]
  abel

/-- The ledger books every change of an available balance, in a chain, as long as no amount has to
be rounded. The keys offered to the ledger are distinct and new, and no entry is rejected.
Identifiers are trimmed and dates valid. -/
theorem available_entries_chained
    (h : (doubles config).Reaches (fun s l => only Call.isPosting s l ∧ Exactly s l) (.start d) s)
    (hq : s.Quiescent) (hkeys : (ledgerKeys s.log).Nodup)
    (hfresh : ∀ e ∈ d.ledger.docs, e.idempotencyKey ∉ ledgerKeys s.log)
    (hledger : ∀ t e, s.result t ≠ some (.error (.ledger e))) (userId : String) :
    (entriesByCommit userId s).Perm (newEntries userId d s.db) ∧
    Chained (d.balances userId).1 (entriesByCommit userId s) (s.db.balances userId).1 ∧
    ((newEntries userId d s.db).map LedgerEntry.amount).sum =
      (s.db.balances userId).1 - (d.balances userId).1 :=
  entries_lead_to_balance (exact_run h) hq hkeys hfresh hledger userId

end entries

section scenario

/-- The award commits after the hold and is booked before it. -/
theorem available_entries_chained_out_of_order :
    ∃ s, (doubles (defaultConfig fun _ => none)).Reaches (fun s l => only Call.isPosting s l ∧ Exactly s l)
        (.start fundedDb) s ∧
      (newEntries "user-1" fundedDb s.db).map LedgerEntry.amount = [20, -30] ∧
      (entriesByCommit "user-1" s).map LedgerEntry.balanceAfter = [70, 90] ∧
      Chained (fundedDb.balances "user-1").1 (entriesByCommit "user-1" s) (s.db.balances "user-1").1 := by
  obtain ⟨s, hs, hfacts⟩ := Machine.exists_reaches (doubles (defaultConfig fun _ => none))
    (fun s l => only Call.isPosting s l ∧ Exactly s l) (.start fundedDb)
    ([.spawn 0 (.hold sampleHold), .spawn 1 (.award sampleAward)] ++
      interleaving (List.replicate 8 0 ++ List.replicate 8 1 ++ List.replicate 11 0))
    (fun s => ((newEntries "user-1" fundedDb s.db).map LedgerEntry.amount,
      (entriesByCommit "user-1" s).map LedgerEntry.balanceAfter,
      s.spawns.all fun x => (s.result x.1).any Except.isOk, ledgerKeys s.log))
    (a := ([20, -30], [70, 90], true, ["hold-1_credit", "hold-1_debit", "award-1"])) (by decide +kernel)
  obtain ⟨hamounts, hrest⟩ := Prod.mk.inj hfacts
  obtain ⟨hafter, hrest⟩ := Prod.mk.inj hrest
  obtain ⟨hall, hkeys⟩ := Prod.mk.inj hrest
  obtain ⟨hq, hok⟩ := hs.returned hall
  exact ⟨s, hs, hamounts, hafter, (available_entries_chained hs hq (by rw [hkeys]; decide)
    (fun e he => by cases he) (fun t e => hok t _) "user-1").2.1⟩

/-- An award of 1.03 points to one point leads to 2.0300000000000002 points. -/
theorem chain_broken_by_rounding :
    ∃ s, (doubles (defaultConfig fun _ => none)).Reaches (only Call.isPosting) (.start pointDb) s ∧ s.Quiescent ∧
      (ledgerKeys s.log).Nodup ∧ (∀ e ∈ pointDb.ledger.docs, e.idempotencyKey ∉ ledgerKeys s.log) ∧
      (∀ t e, s.result t ≠ some (.error (.ledger e))) ∧
      ((newEntries "user-1" pointDb s.db).map LedgerEntry.amount).sum ≠
        (s.db.balances "user-1").1 - (pointDb.balances "user-1").1 := by
  obtain ⟨s, hs, hfacts⟩ := Machine.exists_reaches (doubles (defaultConfig fun _ => none))
    (only Call.isPosting) (.start pointDb)
    ([.spawn 0 (.award { sampleAward with amount := double (103 / 100) })] ++ interleaving (List.replicate 8 0))
    (fun s => (decide (((newEntries "user-1" pointDb s.db).map LedgerEntry.amount).sum ≠
        (s.db.balances "user-1").1 - (pointDb.balances "user-1").1),
      s.spawns.all fun x => (s.result x.1).any Except.isOk, ledgerKeys s.log))
    (a := (true, true, ["award-1"])) (by decide +kernel)
  obtain ⟨hbroken, hrest⟩ := Prod.mk.inj hfacts
  obtain ⟨hall, hkeys⟩ := Prod.mk.inj hrest
  obtain ⟨hq, hok⟩ := hs.returned hall
  exact ⟨s, hs, hq, by rw [hkeys]; decide, (fun e he => by cases he), fun t e => hok t _, of_decide_eq_true hbroken⟩

end scenario
end RedRoomRewards
