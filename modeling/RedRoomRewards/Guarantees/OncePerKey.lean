import RedRoomRewards.Guarantees.BalanceLaw

/-! An idempotency key takes effect at most once, for each escrow operation. -/
namespace RedRoomRewards
open Process Store

/-- A command that writes to a wallet, model wallet, escrow item or the ledger. -/
def Cmd.writes (c : Cmd) : Bool :=
  match c.touches with
  | some .wallets | some .modelWallets | some .escrowItems | some .ledger => true
  | _ => false

/-- The claim a command has made, if it has made one. -/
def Cmd.claimed : (c : Cmd) → c.Reply → Option (String × String)
  | .createIdempotencyRecord _, reply => (Except.toOption reply).map IdempotencyRecord.claim
  | _, _ => none

section step
variable {op : Operation} {tr : Track} {items items' : EscrowItems} {c : Cmd} {r : c.Reply}

/-- An operation that claims a key writes nothing before it has claimed it. -/
theorem Operation.Permits.claimed_first (h : op.Permits tr c) (hclaim : op.claim ≠ none)
    (hwrites : c.writes = true) : tr.stage ≠ .opening := by
  intro hopening
  cases c with
  | createWallet w =>
    obtain ⟨hopen, -⟩ := h
    cases op with
    | hold request => cases hopening.symm.trans hopen
    | award request => exact hclaim rfl
    | _ => exact hopen.elim
  | updateWallet f u =>
    obtain ⟨w, -, -, -, hpay⟩ := h
    have hpaying := hpay.paying
    rw [hopening] at hpaying
    cases hpaying with
    | post hnone => exact hclaim hnone
  | createModelWallet m =>
    obtain ⟨⟨i, hlocked⟩, -⟩ := h
    cases hopening.symm.trans hlocked
  | updateModelWallet f u =>
    obtain ⟨m, -, -, -, hcredit⟩ := h
    have hcrediting := hcredit.crediting
    rw [hopening] at hcrediting
    cases hcrediting
  | createEscrowItem i =>
    cases op with
    | hold request => cases hopening.symm.trans h.1
    | _ => exact h.elim
  | lockEscrowItem id status t => cases hopening.symm.trans h.1
  | updateEscrowItem id u =>
    obtain ⟨-, ⟨i, halfway, hstage, -⟩ | ⟨i, hstage, -⟩⟩ := h
    · cases hopening.symm.trans hstage
    · cases hopening.symm.trans hstage
  | deleteEscrowItem id =>
    obtain ⟨i, hstage, -⟩ := h
    cases hopening.symm.trans hstage
  | createLedgerEntry e =>
    have hdone := h.1
    rw [hopening] at hdone
    exact hdone
  | _ => cases hwrites

/-- A step that takes an operation from its opening stage claims its key. -/
theorem ItemEffect.claims (h : ItemEffect op tr items c r items') (hclaim : op.claim ≠ none)
    (hopening : tr.stage = .opening) :
    (tr.after op c r).stage = .opening ∨ c.claimed r = op.claim := by
  cases h with
  | silent hstage => exact .inl (hstage.trans hopening)
  | claimed record _ hrecord => exact .inr hrecord.symm
  | paid f u w w' hw hreads happly hpay | missed f u w hpay =>
    have hpaying := hpay.paying
    rw [hopening] at hpaying
    cases hpaying with
    | post hnone => exact absurd hnone hclaim
  | credited f u m m' hcredit | uncredited f u m hcredit =>
    have hcrediting := hcredit.crediting
    rw [hopening] at hcrediting
    cases hcrediting
  | created i hcreate =>
    cases op with
    | hold request => cases hopening.symm.trans hcreate.1
    | _ => exact hcreate.elim
  | locked i t hstage | deleted i hstage => cases hopening.symm.trans hstage
  | unlocked id u hunlock =>
    obtain ⟨-, ⟨i, halfway, hstage, -⟩ | ⟨i, hstage, -⟩⟩ := hunlock
    · cases hopening.symm.trans hstage
    · cases hopening.symm.trans hstage

/-- Records are never removed. -/
theorem records_stay {k : String × String} {o : Oracle} {db : Db} (h : (db.records.find k).isSome = true) :
    ((exec o db c).2.records.find k).isSome = true := by
  cases c with
  | createIdempotencyRecord record =>
    simp only [exec]
    rcases create_cases db.records record record.invalid ["pointsIdempotencyKey", "eventScope"]
      with ⟨e, he⟩ | ⟨-, hfree, hok⟩
    · rw [he]
      exact h
    · rw [hok, Collection.find_insert hfree]
      split
      · rfl
      · exact h
  | _ =>
    rw [(exec_frame o db _).records]
    · exact h
    · simp [Cmd.touches]

/-- A claim that is made was free before and is taken after. -/
theorem claimed_taken {k : String × String} {o : Oracle} {db : Db}
    (h : c.claimed (exec o db c).1 = some k) :
    db.records.find k = none ∧ ((exec o db c).2.records.find k).isSome = true := by
  cases c with
  | createIdempotencyRecord record =>
    simp only [Cmd.claimed, exec] at h ⊢
    rcases create_cases db.records record record.invalid ["pointsIdempotencyKey", "eventScope"]
      with ⟨e, he⟩ | ⟨-, hfree, hok⟩
    · rw [he] at h
      cases h
    · rw [hok] at h ⊢
      obtain rfl := Option.some.inj h
      exact ⟨hfree.find, by rw [Collection.find_insert hfree, if_pos rfl]; rfl⟩
  | _ => cases h

end step

section runs
variable {config : Config} {A : Schedule} {d : Db} {s : Run} {k : String × String}

/-- A claim that was made is on record. -/
theorem claims_on_record (h : (system config).Reaches A (.start d) s) :
    ∀ ev ∈ s.log, ev.cmd.claimed ev.reply = some k → (s.db.records.find k).isSome = true := by
  induction h using Machine.Reaches.by_steps with
  | start => exact fun ev hev => by cases hev
  | spawn s t c _ _ _ ih => exact ih
  | act s t o call c k' hs _ ht ih =>
    intro ev hev hclaimed
    rcases List.mem_cons.mp hev with rfl | hold
    · exact (claimed_taken hclaimed).2
    · exact records_stay (ih ev hold hclaimed)
  | restart s t o call c _ _ _ ih => exact ih

/-- No claim is made by two threads. -/
theorem claims_once (h : (system config).Reaches A (.start d) s) {ev ev' : Event Mongo Call}
    (hev : ev ∈ s.log) (hev' : ev' ∈ s.log) (hclaimed : ev.cmd.claimed ev.reply = some k)
    (hclaimed' : ev'.cmd.claimed ev'.reply = some k) : ev.thread = ev'.thread := by
  induction h using Machine.Reaches.by_steps with
  | start => cases hev
  | spawn s t c _ _ _ ih => exact ih hev hev'
  | act s t o call c k' hs _ ht ih =>
    rcases List.mem_cons.mp hev with rfl | hold <;> rcases List.mem_cons.mp hev' with rfl | hold'
    · rfl
    · have htaken := claims_on_record hs ev' hold' hclaimed'
      rw [(claimed_taken hclaimed).1] at htaken
      cases htaken
    · have htaken := claims_on_record hs ev hold hclaimed
      rw [(claimed_taken hclaimed').1] at htaken
      cases htaken
    · exact ih hold hold'
  | restart s t o call c _ _ _ ih => exact ih hev hev'

/-- A thread that has left its opening stage has claimed its key. -/
theorem claimed_of_stage (h : (system config).Reaches A (.start d) s) {t : ℕ} {call : Call} {tr : Track}
    (htr : protocol.track s t = some (call, tr)) (hclaim : call.operation.claim ≠ none)
    (hstage : tr.stage ≠ .opening) :
    ∃ ev ∈ s.history t, ev.cmd.claimed ev.reply = call.operation.claim := by
  refine ((protocol_kept config).invariant (P := fun call hist tr => call.operation.claim ≠ none →
    tr.stage ≠ .opening → ∃ ev ∈ hist, ev.cmd.claimed ev.reply = call.operation.claim)
    (fun _ _ h => absurd rfl h) ?_ h t call tr htr) hclaim hstage
  rintro call hist tr t c r ih hmay ⟨o, db, rfl⟩ hclaim hstage
  by_cases hopening : tr.stage = .opening
  · have hpermits := hmay.resolve_left fun hother => hclaim (by rw [hother]; rfl)
    have heffect : ItemEffect _ _ db.escrowItems c _ _ := item_effect o hpermits
    rcases heffect.claims hclaim hopening with hstill | hclaimed
    · exact absurd hstill hstage
    · exact ⟨_, .head _, hclaimed⟩
  · obtain ⟨ev, hev, hclaimed⟩ := ih hclaim hopening
    exact ⟨ev, .tail _ hev, hclaimed⟩

/-- Where a thread has issued a write, it has claimed its key. -/
theorem claimed_of_write (h : (system config).Reaches A (.start d) s) {ev : Event Mongo Call}
    (hev : ev ∈ s.log) (hclaim : ev.call.operation.claim ≠ none) (hwrites : ev.cmd.writes = true) :
    ∃ ev' ∈ s.log, ev'.thread = ev.thread ∧ ev'.cmd.claimed ev'.reply = ev.call.operation.claim := by
  induction h using Machine.Reaches.by_steps with
  | start => cases hev
  | spawn s t c _ _ _ ih => exact ih hev
  | act s t o call c k' hs _ ht ih =>
    rcases List.mem_cons.mp hev with rfl | hold
    · have hpermits := ((protocol_kept config).may hs ht).resolve_left fun hother => hclaim (by rw [hother]; rfl)
      obtain ⟨ev', hev', hclaimed⟩ := claimed_of_stage hs (Contract.track_of_thread ht) hclaim
        (hpermits.claimed_first hclaim hwrites)
      obtain ⟨hmem, hthread⟩ := s.mem_history.mp hev'
      exact ⟨ev', .tail _ hmem, hthread, hclaimed⟩
    · obtain ⟨ev', hev', hrest⟩ := ih hold
      exact ⟨ev', .tail _ hev', hrest⟩
  | restart s t o call c _ _ _ ih => exact ih hev

/-- At most one effect for each key: of the calls of one escrow operation that share a key, among
any other calls, at most one ever issues a write, and it commits at most one update of a user wallet
and one of a model wallet. Keys are trimmed. -/
theorem key_takes_effect_once (h : (system config).Reaches A (.start d) s) :
    (∀ ev ∈ s.log, ∀ ev' ∈ s.log, ∀ k, ev.call.operation.claim = some k →
      ev'.call.operation.claim = some k → ev.cmd.writes = true → ev'.cmd.writes = true →
      ev.thread = ev'.thread) ∧
    ∀ t call k, s.calls t = some call → call.operation.claim = some k →
      (s.history t).countP (fun ev => (ev.cmd.walletCommit ev.reply).isSome) ≤ 1 ∧
      (s.history t).countP (fun ev => (ev.cmd.modelCommit ev.reply).isSome) ≤ 1 := by
  constructor
  · intro ev hev ev' hev' k hk hk' hwrites hwrites'
    obtain ⟨first, hfirst, hthread, hclaimed⟩ := claimed_of_write h hev (by simp [hk]) hwrites
    obtain ⟨first', hfirst', hthread', hclaimed'⟩ := claimed_of_write h hev' (by simp [hk']) hwrites'
    rw [← hthread, ← hthread']
    exact claims_once h hfirst hfirst' (hclaimed.trans hk) (hclaimed'.trans hk')
  · intro t call k hcall hk
    have htr : protocol.track s t = some (call, protocol.record call (s.history t)) := by
      rw [Contract.track, hcall, Option.map_some]
    have hne : call.operation ≠ .other := by
      intro hother
      rw [hother] at hk
      cases hk
    obtain ⟨hwallets, hmodels⟩ := (recorded h t call _ htr hne).2
    constructor
    · rw [← List.length_filterMap_eq_countP, hwallets]
      cases (protocol.record call (s.history t)).committed <;> simp
    · rw [hmodels]
      exact Bool.toNat_le _

end runs

section scenario

/-- Two holds of different amounts race with one key, and an award goes on between. -/
theorem key_takes_effect_once_by_race :
    ∃ s, (system (defaultConfig fun _ => none)).Reaches (fun _ _ => True) (.start fundedDb) s ∧
      s.db.balances "user-1" = (90, 30) ∧ (s.result 1).isSome ∧
      (s.history 0).countP (fun ev => (ev.cmd.walletCommit ev.reply).isSome) ≤ 1 := by
  obtain ⟨s, hs, hfacts⟩ := Machine.exists_reaches (system (defaultConfig fun _ => none))
    (fun _ _ => True) (.start fundedDb)
    ([.spawn 0 (.hold sampleHold), .spawn 1 (.hold { sampleHold with amount := 7 }),
      .spawn 2 (.award sampleAward)] ++
      interleaving ([0, 1, 1, 0, 0, 1, 0, 0] ++ List.replicate 8 2 ++ List.replicate 20 0))
    (fun s => (s.db.balances "user-1", (s.result 1).isSome, (s.calls 0).map fun c => c.operation.claim))
    (a := ((90, 30), true, some (some ("hold-1", "hold_escrow")))) (by decide +kernel)
  obtain ⟨hbalances, hrest⟩ := Prod.mk.inj hfacts
  obtain ⟨hended, hcalls⟩ := Prod.mk.inj hrest
  obtain ⟨call, hcall, hclaim⟩ := Option.map_eq_some_iff.mp hcalls
  exact ⟨s, hs, hbalances, hended, ((key_takes_effect_once hs).2 0 call _ hcall hclaim).1⟩

end scenario
end RedRoomRewards
