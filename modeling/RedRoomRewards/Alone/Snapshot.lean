import RedRoomRewards.Alone.Commands

/-! What `getBalanceSnapshot` reads off the ledger: for each state the balance that the
latest entry of the account leaves. -/
namespace RedRoomRewards
open Process Store LedgerService

/-- The balance the last entry leaves; 0 where there is none. -/
def lastBalance (es : List LedgerEntry) : ℚ := es.getLast?.elim 0 LedgerEntry.balanceAfter

/-- The entries of one state of an account, in the order of the ledger. -/
def Db.entriesOf (db : Db) (accountId : String) (accountType : AccountType) (state : BalanceState) :
    List LedgerEntry :=
  db.ledger.docs.filter fun e => e.accountId = accountId ∧ e.accountType = accountType ∧ e.balanceState = state

/-- What the ledger has for a bucket of an account. -/
def Db.bookedIn (db : Db) (accountId : String) (accountType : AccountType) (state : BalanceState) : ℚ :=
  ((db.entriesOf accountId accountType state).map LedgerEntry.amount).sum

theorem bookedIn_append {db db' : Db} {e : LedgerEntry} (hdocs : db'.ledger.docs = db.ledger.docs ++ [e])
    (accountId : String) (accountType : AccountType) (state : BalanceState) :
    db'.bookedIn accountId accountType state = db.bookedIn accountId accountType state +
      if e.accountId = accountId ∧ e.accountType = accountType ∧ e.balanceState = state then e.amount else 0 := by
  simp only [Db.bookedIn, Db.entriesOf, hdocs, List.filter_append, List.map_append, List.sum_append,
    List.filter_singleton]
  by_cases h : e.accountId = accountId ∧ e.accountType = accountType ∧ e.balanceState = state
  · simp [h]
  · rw [if_neg h, Bool.cond_eq_ite, if_neg (by simpa using h)]
    simp

section sorted

/-- Entries in the order of their timestamps. -/
def Stamped (es : List LedgerEntry) : Prop := es.Pairwise fun e e' => e.timestamp < e'.timestamp

instance (es : List LedgerEntry) : Decidable (Stamped es) := inferInstanceAs (Decidable (List.Pairwise _ es))

theorem sortedEntries_perm (q : LedgerQuery) (sort : LedgerSort) (docs : List LedgerEntry) :
    (sortedEntries q sort docs).Perm (docs.filter q.accepts) := List.perm_insertionSort _ _

private theorem sorted_pairwise (q : LedgerQuery) (docs : List LedgerEntry) :
    (sortedEntries q ⟨.timestamp, true⟩ docs).Pairwise fun e e' => e.timestamp ≤ e'.timestamp := by
  have htotal : Std.Total fun a b : LedgerEntry => (a.timestamp : ℚ) ≤ b.timestamp :=
    ⟨fun a b => le_total (a.timestamp : ℚ) b.timestamp⟩
  have htrans : IsTrans LedgerEntry fun a b => (a.timestamp : ℚ) ≤ b.timestamp :=
    ⟨fun a b c => le_trans⟩
  have hsorted := List.pairwise_insertionSort (fun a b : LedgerEntry => (a.timestamp : ℚ) ≤ b.timestamp)
    (docs.filter q.accepts)
  exact hsorted.imp Rat.intCast_le_intCast.mp

/-- Sorting puts the entries into the order in which they are stamped. -/
theorem sorted_eq_of_stamped {q : LedgerQuery} {p : LedgerEntry → Bool} {docs es : List LedgerEntry}
    (hperm : es.Perm ((docs.filter q.accepts).filter p)) (hstamped : Stamped es) :
    (sortedEntries q ⟨.timestamp, true⟩ docs).filter p = es := by
  have hsame : ((sortedEntries q ⟨.timestamp, true⟩ docs).filter p).Perm es :=
    ((sortedEntries_perm _ _ _).filter p).trans hperm.symm
  refine hsame.eq_of_pairwise ?_ ((sorted_pairwise q docs).filter p) (hstamped.imp Int.le_of_lt)
  intro e e' he he' hle hle'
  have hsymm : Std.Symm fun e e' : LedgerEntry => e.timestamp ≠ e'.timestamp := ⟨fun _ _ h => h.symm⟩
  have hdistinct : es.Pairwise fun e e' => e.timestamp ≠ e'.timestamp := hstamped.imp Int.ne_of_lt
  by_contra hne
  exact hdistinct.forall (hsame.mem_iff.mp he) he' hne (Int.le_antisymm hle hle')

end sorted

section snapshot
variable {db : Db} {accountId : String} {accountType : AccountType}

/-- The balance kept for a state. -/
def LedgerService.StateBalances.of (balances : StateBalances) : BalanceState → ℚ
  | .available => balances.available
  | .escrow => balances.escrow
  | .earned => balances.earned

private theorem assign_of (balances : StateBalances) (e : LedgerEntry) (state : BalanceState) :
    (balances.assign e).of state =
      if e.balanceState = state then e.balanceAfter else balances.of state := by
  unfold StateBalances.assign
  cases e.balanceState <;> cases state <;> rfl

/-- The loop keeps the balance of the last entry of each state. -/
theorem foldl_assign_of (es : List LedgerEntry) (state : BalanceState) :
    (es.foldl StateBalances.assign {}).of state =
      lastBalance (es.filter fun e => e.balanceState = state) := by
  induction es using List.reverseRecOn with
  | nil => cases state <;> rfl
  | append_singleton es e ih =>
    rw [List.foldl_append, List.foldl_cons, List.foldl_nil, assign_of, ih, List.filter_append]
    by_cases hstate : e.balanceState = state <;> simp [hstate, lastBalance]

/-- The entries an account's snapshot is taken from. -/
abbrev Db.snapshotEntries (db : Db) (accountId : String) (accountType : AccountType) : List LedgerEntry :=
  sortedEntries (snapshotQuery accountId accountType none none) ⟨.timestamp, true⟩ db.ledger.docs

/-- Where the entries of a state are `es` in the order of their timestamps, the snapshot
has the balance of the last one. -/
theorem snapshotEntries_of {state : BalanceState} {es : List LedgerEntry}
    (hperm : es.Perm (db.entriesOf accountId accountType state)) (hstamped : Stamped es) :
    ((db.snapshotEntries accountId accountType).foldl StateBalances.assign {}).of state =
      lastBalance es := by
  rw [foldl_assign_of, sorted_eq_of_stamped _ hstamped]
  refine hperm.trans (List.Perm.of_eq ?_)
  rw [Db.entriesOf, List.filter_filter]
  apply List.filter_congr
  intro e _
  rw [snapshotQuery_accepts, ← Bool.decide_and]
  exact decide_eq_decide.mpr ⟨fun h => ⟨h.2.2, h.1, h.2.1⟩, fun h => ⟨h.2.1, h.2.2, h.1⟩⟩

end snapshot
end RedRoomRewards
