import RedRoomRewards.Guarantees.Reconciliation
import RedRoomRewards.Guarantees.SnapshotAgrees

/-! The balance snapshot at an instant. It never adds amounts up: on a ledger whose
buckets are chains it has their sums up to the instant, and entries that are stamped later
do not change it. -/
namespace RedRoomRewards
open Process Store LedgerService

section chains

instance decidableChained : (x : ℚ) → (es : List LedgerEntry) → (y : ℚ) → Decidable (Chained x es y)
  | _, [], _ => inferInstanceAs (Decidable (_ = _))
  | _, e :: es, y => @instDecidableAnd _ _ _ (@instDecidableAnd _ _ _ (decidableChained e.balanceAfter es y))

/-- The entries of a bucket in the order of their timestamps. -/
def Db.inOrder (db : Db) (accountId : String) (accountType : AccountType) (state : BalanceState) :
    List LedgerEntry :=
  (db.entriesOf accountId accountType state).insertionSort fun e e' => e.timestamp ≤ e'.timestamp

/-- No two entries have one timestamp, and the entries of each bucket form a chain from 0. -/
structure Db.Chains (db : Db) : Prop where
  distinct : (db.ledger.docs.map LedgerEntry.timestamp).Nodup
  chained : ∀ e ∈ db.ledger.docs, Chained 0 (db.inOrder e.accountId e.accountType e.balanceState)
    (lastBalance (db.inOrder e.accountId e.accountType e.balanceState))

instance (db : Db) : Decidable db.Chains :=
  decidable_of_iff (_ ∧ _) ⟨fun h => ⟨h.1, h.2⟩, fun h => ⟨h.1, h.2⟩⟩

variable {db : Db} {accountId : String} {accountType : AccountType} {state : BalanceState}

theorem inOrder_perm : (db.inOrder accountId accountType state).Perm (db.entriesOf accountId accountType state) :=
  List.perm_insertionSort _ _

theorem mem_inOrder {e : LedgerEntry} : e ∈ db.inOrder accountId accountType state ↔
    e ∈ db.ledger.docs ∧ e.accountId = accountId ∧ e.accountType = accountType ∧ e.balanceState = state := by
  rw [inOrder_perm.mem_iff, Db.entriesOf, List.mem_filter, decide_eq_true_eq]

theorem Db.Chains.of_inOrder (h : db.Chains) (accountId : String) (accountType : AccountType) (state : BalanceState) :
    Chained 0 (db.inOrder accountId accountType state) (lastBalance (db.inOrder accountId accountType state)) := by
  cases hentries : db.inOrder accountId accountType state with
  | nil => exact rfl
  | cons e es =>
    obtain ⟨hmem, rfl, rfl, rfl⟩ := mem_inOrder.mp (hentries ▸ List.mem_cons_self : e ∈ db.inOrder accountId accountType state)
    exact hentries ▸ h.chained e hmem

/-- Distinct timestamps put the entries of a bucket into one order. -/
theorem Db.Chains.stamped (h : db.Chains) : Stamped (db.inOrder accountId accountType state) := by
  have htotal : Std.Total fun e e' : LedgerEntry => e.timestamp ≤ e'.timestamp := ⟨fun e e' => Int.le_total _ _⟩
  have htrans : IsTrans LedgerEntry fun e e' => e.timestamp ≤ e'.timestamp := ⟨fun _ _ _ => Int.le_trans⟩
  have hsorted : (db.inOrder accountId accountType state).Pairwise fun e e' => e.timestamp ≤ e'.timestamp :=
    List.pairwise_insertionSort _ _
  have hdistinct : (db.inOrder accountId accountType state).Pairwise fun e e' => e.timestamp ≠ e'.timestamp := by
    have hnodup : ((db.entriesOf accountId accountType state).map LedgerEntry.timestamp).Nodup :=
      h.distinct.sublist (List.filter_sublist.map _)
    exact List.pairwise_map.mp ((inOrder_perm.map LedgerEntry.timestamp).nodup_iff.mpr hnodup)
  exact (hsorted.and hdistinct).imp fun hboth => Int.lt_iff_le_and_ne.mpr hboth

end chains

section prefixes

/-- The entries up to an instant are a chain if all are. -/
theorem Chained.until {x y : ℚ} {es : List LedgerEntry} (h : Chained x es y) (hstamped : Stamped es) (T : Time) :
    ∃ z, Chained x (es.filter fun e => e.timestamp ≤ T) z := by
  induction es generalizing x with
  | nil => exact ⟨x, rfl⟩
  | cons e es ih =>
    obtain ⟨hlater, hrest⟩ := List.pairwise_cons.mp hstamped
    obtain ⟨hbefore, hafter, hchain⟩ := h
    by_cases he : e.timestamp ≤ T
    · obtain ⟨z, hz⟩ := ih hchain hrest
      rw [List.filter_cons_of_pos (by simpa using he)]
      exact ⟨z, hbefore, hafter, hz⟩
    · -- the first entry after the instant is followed by later ones only
      have hnone : (e :: es).filter (fun e => e.timestamp ≤ T) = [] := by
        refine List.filter_eq_nil_iff.mpr fun e' he' hle => he ?_
        rcases List.mem_cons.mp he' with rfl | hmem
        · exact of_decide_eq_true hle
        · exact Int.le_trans (Int.le_of_lt (hlater e' hmem)) (of_decide_eq_true hle)
      rw [hnone]
      exact ⟨x, rfl⟩

/-- The last balance of a chain from 0 is the sum of its amounts. -/
theorem Chained.lastBalance_eq {y : ℚ} {es : List LedgerEntry} (h : Chained 0 es y) :
    lastBalance es = (es.map LedgerEntry.amount).sum := by
  rw [lastBalance, ← h.last, h.sum_amounts, zero_add]

end prefixes

section snapshot
variable {db : Db} (accountId : String) (accountType : AccountType) (T : Time) (state : BalanceState)

/-- What the ledger has for a bucket of an account up to an instant. -/
def Db.bookedUntil (db : Db) : ℚ :=
  (((db.entriesOf accountId accountType state).filter fun e => e.timestamp ≤ T).map LedgerEntry.amount).sum

/-- The entries an account's snapshot at an instant is taken from. -/
abbrev Db.entriesUntil (db : Db) : List LedgerEntry :=
  sortedEntries (snapshotQuery accountId accountType (some T) none) ⟨.timestamp, true⟩ db.ledger.docs

private theorem snapshotQuery_until (e : LedgerEntry) :
    (snapshotQuery accountId accountType (some T) none).accepts e =
      decide (e.accountId = accountId ∧ e.accountType = accountType ∧ e.timestamp ≤ T) := by
  rw [LedgerQuery.accepts, show (snapshotQuery accountId accountType (some T) none).tenantId = none from rfl]
  simp [snapshotQuery, eq_comm, Bool.and_assoc]

/-- Those of one state are its bucket up to the instant. -/
private theorem entriesUntil_of_state (h : db.Chains) :
    ((db.entriesUntil accountId accountType T).filter fun e => e.balanceState = state) =
      (db.inOrder accountId accountType state).filter fun e => e.timestamp ≤ T := by
  refine sorted_eq_of_stamped ((inOrder_perm.filter _).trans (List.Perm.of_eq ?_)) (h.stamped.filter _)
  rw [Db.entriesOf, List.filter_filter, List.filter_filter]
  apply List.filter_congr
  intro e _
  rw [snapshotQuery_until, ← Bool.decide_and, ← Bool.decide_and]
  exact decide_eq_decide.mpr ⟨fun h => ⟨h.2.2.2, h.2.1, h.2.2.1, h.1⟩, fun h => ⟨h.2.2.2, h.2.1, h.2.2.1, h.1⟩⟩

/-- The loop over the entries up to an instant ends with the sums of the buckets. -/
theorem entriesUntil_sums (h : db.Chains) :
    ((db.entriesUntil accountId accountType T).foldl StateBalances.assign {}).of state =
      db.bookedUntil accountId accountType T state := by
  obtain ⟨z, hz⟩ := (h.of_inOrder accountId accountType state).until h.stamped T
  rw [foldl_assign_of, entriesUntil_of_state accountId accountType T state h, hz.lastBalance_eq]
  exact ((inOrder_perm.filter _).map _).sum_eq

private theorem entriesUntil_append {db db' : Db} {later : List LedgerEntry}
    (hdocs : db'.ledger.docs = db.ledger.docs ++ later) (hlater : ∀ e ∈ later, T < e.timestamp) :
    db'.entriesUntil accountId accountType T = db.entriesUntil accountId accountType T := by
  have hnone : later.filter (snapshotQuery accountId accountType (some T) none).accepts = [] := by
    apply List.filter_eq_nil_iff.mpr
    intro e he haccepts
    rw [snapshotQuery_until] at haccepts
    exact Int.not_le.mpr (hlater e he) (of_decide_eq_true haccepts).2.2
  rw [Db.entriesUntil, sortedEntries, hdocs, List.filter_append, hnone, List.append_nil]
  rfl

/-- The snapshot at an instant has the sums of the account's buckets up to that instant, and keeps
them whatever is stamped later. Amounts are exact and identifiers trimmed. -/
theorem snapshot_at_instant (h : db.Chains) (config : LedgerService.Config) (os : ℕ → Oracle) :
    ∃ snapshot, (getBalanceSnapshot config accountId accountType (some T) none).solo exec os db = (.ok snapshot, db) ∧
      snapshot.availableBalance = db.bookedUntil accountId accountType T .available ∧
      snapshot.escrowBalance =
        (if accountType = .user then some (db.bookedUntil accountId accountType T .escrow) else none) ∧
      snapshot.earnedBalance =
        (if accountType = .model then some (db.bookedUntil accountId accountType T .earned) else none) ∧
      ∀ db' later, db'.ledger.docs = db.ledger.docs ++ later → (∀ e ∈ later, T < e.timestamp) →
        (getBalanceSnapshot config accountId accountType (some T) none).solo exec os db' = (.ok snapshot, db') := by
  refine ⟨_, rfl, entriesUntil_sums accountId accountType T .available h, ?_, ?_, fun db' later hdocs hlater => ?_⟩
  · exact congrArg (if accountType = .user then some · else none) (entriesUntil_sums accountId accountType T .escrow h)
  · exact congrArg (if accountType = .model then some · else none) (entriesUntil_sums accountId accountType T .earned h)
  · have hsame := entriesUntil_append accountId accountType T hdocs hlater
    show (Except.ok (snapshotOf config accountId accountType (db'.entriesUntil accountId accountType T) T), db') = _
    rw [hsame]
    rfl

end snapshot

section scenario

/-- The document of an entry that a tenant's ledger has. -/
def entryAt (request : CreateLedgerEntryRequest) (id : String) (timestamp : Time) : LedgerEntry :=
  { request.entryDoc LedgerService.defaultConfig id id id .promotionalAward timestamp with tenantId := some "tenant-1" }

/-- A credit of 5 at instant 10 and a debit that takes it back at 20. -/
def reversedDb : Db :=
  { Db.empty with ledger := (Collection.empty.insert (entryAt sampleEntry "e-1" 10)).insert (entryAt reversingEntry "e-2" 20) }

/-- The snapshot between a credit and the debit that reverses it, before and after a third entry. -/
theorem snapshot_at_instant_reversed : ∃ db' snapshot,
    db'.ledger.docs = reversedDb.ledger.docs ++ [entryAt { sampleEntry with idempotencyKey := "entry-3" } "e-3" 30] ∧
    (getBalanceSnapshot LedgerService.defaultConfig "user-1" .user (some 15) none).solo exec tick reversedDb =
      (.ok snapshot, reversedDb) ∧
    (getBalanceSnapshot LedgerService.defaultConfig "user-1" .user (some 15) none).solo exec tick db' =
      (.ok snapshot, db') ∧ snapshot.availableBalance = 5 := by
  obtain ⟨snapshot, hrun, havailable, -, -, hlater⟩ := snapshot_at_instant "user-1" .user 15
    (show reversedDb.Chains by decide +kernel) LedgerService.defaultConfig tick
  have hdocs : (reversedDb.ledger.insert (entryAt { sampleEntry with idempotencyKey := "entry-3" } "e-3" 30)).docs =
      reversedDb.ledger.docs ++ [entryAt { sampleEntry with idempotencyKey := "entry-3" } "e-3" 30] :=
    Collection.docs_insert (by decide +kernel)
  refine ⟨{ reversedDb with ledger := reversedDb.ledger.insert _ }, snapshot, hdocs, hrun, hlater _ _ hdocs ?_, ?_⟩
  · intro e he
    rw [List.mem_singleton.mp he]
    decide
  · rw [havailable]
    decide +kernel

end scenario
end RedRoomRewards
