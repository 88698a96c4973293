import RedRoomRewards.Protocol.Secrecy

/-! The ledger entries a call writes: when, how many, and what they say about the
wallet the call has updated. -/
namespace RedRoomRewards
open Process Store

/-- The entry a command has added to the ledger, if it has added one. -/
def Cmd.entry : (c : Cmd) → c.Reply → Option LedgerEntry
  | .createLedgerEntry _, r => Except.toOption r
  | _, _ => none

/-- The command was an entry whose idempotency key was taken. -/
def Cmd.duplicates : (c : Cmd) → c.Reply → Bool
  | .createLedgerEntry _, .error e => e = .duplicateKey ["idempotencyKey"]
  | _, _ => false

/-- The idempotency key of the entry a command offers to the ledger. -/
def Cmd.ledgerKey : Cmd → Option String
  | .createLedgerEntry e => some e.idempotencyKey
  | _ => none

/-- The entries written in these events, in the order of the events. -/
def writtenEntries (hist : List (Event Mongo Call)) : List LedgerEntry :=
  hist.filterMap fun ev => ev.cmd.entry ev.reply

/-- The keys of the entries offered to the ledger in these events. -/
def ledgerKeys (hist : List (Event Mongo Call)) : List String := hist.filterMap fun ev => ev.cmd.ledgerKey

instance (e : LedgerEntry) : Decidable e.OfAvailable := inferInstanceAs (Decidable (_ ∧ _))

/-- The entries of the available bucket written in these events. -/
def availableEntries (hist : List (Event Mongo Call)) : List LedgerEntry :=
  (writtenEntries hist).filter fun e => e.OfAvailable

section after
variable (op : Operation) (tr : Track) (c : Cmd) (r : c.Reply)

theorem Track.after_entries : (tr.after op c r).entries = (c.entry r).toList ++ tr.entries := by
  cases c <;> rfl

theorem Track.after_duplicated : (tr.after op c r).duplicated = (tr.duplicated || c.duplicates r) := by
  cases c with
  | createLedgerEntry e =>
    cases r with
    | ok e' => exact (Bool.or_false _).symm
    | error e' => rfl
  | _ => exact (Bool.or_false _).symm

theorem Track.wallets_subset_after : tr.wallets ⊆ (tr.after op c r).wallets := by
  cases c with
  | findWallet userId | createWallet w => exact List.subset_append_right _ _
  | _ => exact List.Subset.refl _

end after

section record
variable (call : Call) (hist : List (Event Mongo Call))

theorem record_entries : (protocol.record call hist).entries = writtenEntries hist := by
  induction hist with
  | nil => rfl
  | cons ev hist ih =>
    show (Track.after _ (protocol.record call hist) ev.cmd ev.reply).entries = _
    rw [Track.after_entries, ih, writtenEntries, writtenEntries, List.filterMap_cons]
    cases ev.cmd.entry ev.reply <;> rfl

theorem record_duplicated (h : (protocol.record call hist).duplicated = true) :
    ∃ ev ∈ hist, ev.cmd.duplicates ev.reply = true := by
  induction hist with
  | nil => cases h
  | cons ev hist ih =>
    have hafter : (Track.after call.operation (protocol.record call hist) ev.cmd ev.reply).duplicated = true := h
    rw [Track.after_duplicated, Bool.or_eq_true] at hafter
    rcases hafter with hbefore | hnow
    · obtain ⟨ev', hev', hdup⟩ := ih hbefore
      exact ⟨ev', .tail _ hev', hdup⟩
    · exact ⟨ev, .head _, hnow⟩

end record

theorem Possible.entry {c : Cmd} {r : c.Reply} {e : LedgerEntry} (h : Possible c r)
    (he : c.entry r = some e) : c = .createLedgerEntry e := by
  cases c with
  | createLedgerEntry e' =>
    cases r with
    | ok e'' =>
      obtain rfl : e'' = e := Option.some.inj he
      rw [h.createLedgerEntry]
    | error _ => cases he
  | _ => cases he

section booking
variable {op : Operation} {tr : Track} {items items' : EscrowItems} {c : Cmd} {r : c.Reply}

/-- A call writes entries once it is done, at most one for the available bucket, and
that one books its wallet update. -/
structure Operation.Booking (op : Operation) (tr : Track) : Prop where
  late : tr.entries ≠ [] → tr.stage.Done
  single : (tr.entries.filter fun e => e.OfAvailable).length ≤ 1
  books : ∀ e ∈ tr.entries, e.OfAvailable → ∃ w ∈ tr.wallets, ∃ f u, tr.committed = some (f, u) ∧
    f.Reads w ∧ e.Books w (op.delta u).1

private theorem Operation.Booking.written {e : LedgerEntry} (h : op.Booking tr) (hmay : op.MayBook tr e)
    (r : Except MongoError LedgerEntry) (hr : ∀ e', r = .ok e' → e' = e) :
    op.Booking (tr.after op (.createLedgerEntry e) r) := by
  cases r with
  | error e' => exact ⟨h.late, h.single, h.books⟩
  | ok e' =>
    obtain rfl := hr e' rfl
    obtain ⟨hdone, hbooks⟩ := hmay
    refine ⟨fun _ => hdone, ?_, ?_⟩
    · show ((e' :: tr.entries).filter fun e => e.OfAvailable).length ≤ 1
      by_cases havailable : e'.OfAvailable
      · have hnone : tr.entries.filter (fun e => e.OfAvailable) = [] := by
          apply List.filter_eq_nil_iff.mpr
          intro e he
          simpa using (hbooks havailable).1 e he
        simp [havailable, hnone]
      · simpa [havailable] using h.single
    · intro e he havailable
      rcases List.mem_cons.mp he with rfl | hold
      · exact (hbooks havailable).2
      · exact h.books e hold havailable

theorem ItemEffect.booking (heffect : ItemEffect op tr items c r items') (h : op.Booking tr)
    (hmay : op.Permits tr c) (hr : Possible c r) : op.Booking (tr.after op c r) := by
  by_cases hledger : ∃ e, c = .createLedgerEntry e
  · obtain ⟨e, rfl⟩ := hledger
    exact h.written hmay r fun e' he' => (he' ▸ hr).createLedgerEntry
  · have hentries : (tr.after op c r).entries = tr.entries := by
      rw [tr.after_entries]
      cases c with
      | createLedgerEntry e => exact absurd ⟨e, rfl⟩ hledger
      | _ => rfl
    refine ⟨fun hsome => heffect.done (h.late (hentries ▸ hsome)), hentries ▸ h.single, ?_⟩
    intro e he havailable
    rw [hentries] at he
    obtain ⟨w, hw, f, u, hcommitted, hbooks⟩ := h.books e he havailable
    refine ⟨w, tr.wallets_subset_after op c r hw, f, u, ?_, hbooks⟩
    rw [tr.after_committed]
    cases hcommit : c.walletCommit r with
    | none => exact hcommitted
    | some x =>
      -- a call that has written an entry updates no wallet any more
      have hdone := h.late (List.ne_nil_of_mem he)
      cases heffect with
      | silent _ hwallet =>
        rw [hwallet] at hcommit
        cases hcommit
      | paid f u w w' hw hreads happly hpay =>
        have hpaying := hpay.paying
        generalize tr.stage = stage at hdone hpaying
        cases hpaying <;> exact hdone.elim
      | _ => cases hcommit

end booking

section ledger
variable {o : Oracle} {db : Db} {c : Cmd}

/-- The ledger grows by the entries written. -/
theorem exec_ledger : (exec o db c).2.ledger.docs = db.ledger.docs ++ (c.entry (exec o db c).1).toList := by
  cases c with
  | createLedgerEntry e =>
    simp only [exec, Cmd.entry]
    cases o.ledgerFault with
    | some message => exact (List.append_nil _).symm
    | none =>
      simp only [Db.createLedgerEntry]
      rcases create_cases db.ledger e e.invalid
        (if (db.ledger.find e.entryId).isSome then ["entryId"] else ["idempotencyKey"])
        with ⟨e', he⟩ | ⟨-, hfree, hok⟩
      · rw [he]
        exact (List.append_nil _).symm
      · rw [hok]
        exact Collection.docs_insert hfree
  | _ =>
    rw [(exec_frame o db _).ledger]
    · exact (List.append_nil _).symm
    · simp [Cmd.touches]

/-- A key that is reported as taken is that of an entry in the ledger. -/
theorem exec_duplicates (h : c.duplicates (exec o db c).1 = true) :
    ∃ e, c = .createLedgerEntry e ∧ ∃ e' ∈ db.ledger.docs, e'.idempotencyKey = e.idempotencyKey := by
  cases c with
  | createLedgerEntry e =>
    refine ⟨e, rfl, ?_⟩
    by_contra hnone
    have hindex : ∀ e' ∈ db.ledger.docs, e'.idempotencyKey ≠ e.idempotencyKey :=
      fun e' he' heq => hnone ⟨e', he', heq⟩
    simp only [exec] at h
    cases hfault : o.ledgerFault with
    | some message => simp [hfault, Cmd.duplicates] at h
    | none =>
      simp only [hfault, Db.createLedgerEntry, create] at h
      cases hfind : db.ledger.find e.entryId with
      | none =>
        have hfree : db.ledger.Free e := ⟨Collection.find_eq_none.mp hfind, hindex⟩
        by_cases hinvalid : e.invalid ≠ []
        · simp [hinvalid, Cmd.duplicates] at h
        · simp [hinvalid, hfree, Cmd.duplicates] at h
      | some e' =>
        have hnotfree : ¬ db.ledger.Free e := fun hfree => by
          rw [hfree.find] at hfind
          cases hfind
        by_cases hinvalid : e.invalid ≠ []
        · simp [hinvalid, Cmd.duplicates] at h
        · simp [hinvalid, hnotfree, hfind, Cmd.duplicates] at h
  | _ => cases h

end ledger

section runs
variable {config : Config} {A : Schedule} {d : Db} {s : Run}

/-- The ledger holds the entries it had at first and those written since, in order. -/
theorem ledger_grows (h : (system config).Reaches A (.start d) s) :
    s.db.ledger.docs = d.ledger.docs ++ writtenEntries s.log.reverse := by
  induction h using Machine.Reaches.by_steps with
  | start => exact (List.append_nil _).symm
  | spawn s t c _ _ _ ih => exact ih
  | act s t o call c k hs _ ht ih =>
    simp only [Machine.acted_db, Machine.acted_log, system_exec]
    rw [exec_ledger, ih, writtenEntries, writtenEntries, List.reverse_cons, List.filterMap_append,
      List.append_assoc, List.filterMap_cons]
    cases c.entry (exec o s.db c).1 <;> rfl
  | restart s t o call c _ _ _ ih => exact ih

/-- Where the keys offered are distinct and new, none is reported as taken. -/
theorem no_duplicates (h : (system config).Reaches A (.start d) s) (hkeys : (ledgerKeys s.log).Nodup)
    (hfresh : ∀ e ∈ d.ledger.docs, e.idempotencyKey ∉ ledgerKeys s.log) :
    ∀ ev ∈ s.log, ev.cmd.duplicates ev.reply = false := by
  induction h using Machine.Reaches.by_steps with
  | start => exact fun ev hev => by cases hev
  | spawn s t c _ _ _ ih => exact ih hkeys hfresh
  | act s t o call c k hs _ ht ih =>
    have hcons : ledgerKeys ((system config).acted s t o call c k).log =
        c.ledgerKey.toList ++ ledgerKeys s.log := by
      rw [ledgerKeys, Machine.acted_log, List.filterMap_cons]
      cases c.ledgerKey <;> rfl
    rw [hcons] at hkeys hfresh
    intro ev hev
    rcases List.mem_cons.mp hev with rfl | hold
    · by_contra hdup
      obtain ⟨e, rfl, e', he', hkey⟩ := exec_duplicates (Bool.eq_true_of_not_eq_false hdup)
      rw [ledger_grows hs] at he'
      rcases List.mem_append.mp he' with hfirst | hwritten
      · exact hfresh e' hfirst (by rw [hkey]; exact .head _)
      · apply (List.nodup_cons.mp hkeys).1
        obtain ⟨ev', hev', hentry⟩ := List.mem_filterMap.mp hwritten
        have hpossible : Possible ev'.cmd ev'.reply := hs.possible ev' (List.mem_reverse.mp hev')
        refine List.mem_filterMap.mpr ⟨ev', List.mem_reverse.mp hev', ?_⟩
        rw [hpossible.entry hentry, Cmd.ledgerKey, hkey]
    · exact ih hkeys.of_append_right (fun e he hmem => hfresh e he (List.mem_append_right _ hmem)) ev hold
  | restart s t o call c _ _ _ ih => exact ih hkeys hfresh

end runs
end RedRoomRewards
