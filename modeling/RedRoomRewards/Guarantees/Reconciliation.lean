import RedRoomRewards.Alone.Entries
import RedRoomRewards.Alone.Snapshot
import RedRoomRewards.Guarantees.BalanceLaw
import RedRoomRewards.Service.Reconciliation

/-! The verdict of a reconciliation. The report filters the entries by a tenant, which
`createEntry` never sets, and reads no wallet, so all it compares is the balance that the
latest entries leave now with the one they left at the epoch. -/
namespace RedRoomRewards
open Process Store Arithmetic LedgerService ReconciliationService

section views
variable (db : Db) (userId : String)

/-- Stores that `createEntry` calls lead to, one after the other, whose entries leave integer balances. -/
def LedgerRun (config : LedgerService.Config) : Db → Db → Prop :=
  Prog.Sequential exec (createEntry config) fun _ request _ => Whole request.balanceAfter

/-- The balance that the latest entry of each of the user's states leaves; `asOf` is the
time of the last entry that counts. -/
def Db.lastTotal (asOf : Option Time) : ℚ :=
  let entries := sortedEntries (snapshotQuery userId .user asOf none) ⟨.timestamp, true⟩ db.ledger.docs
  lastBalance (entries.filter fun e => e.balanceState = .available) +
    lastBalance (entries.filter fun e => e.balanceState = .escrow)

/-- The sum of the user's ledger amounts. -/
def Db.ledgerSum : ℚ :=
  ((db.ledger.docs.filter fun e => e.accountId = userId ∧ e.accountType = .user).map LedgerEntry.amount).sum

def Db.walletTotal : ℚ := (db.balances userId).1 + (db.balances userId).2

/-- Wallet, sum of the ledger and last balances agree. -/
def Db.ViewsAgree : Prop :=
  db.walletTotal userId = db.ledgerSum userId ∧ db.ledgerSum userId = db.lastTotal userId none

instance : Decidable (db.ViewsAgree userId) := inferInstanceAs (Decidable (_ ∧ _))

/-- The entries are stamped after the epoch and not after `now`. -/
def Db.StampedUntil (now : Time) : Prop := ∀ e ∈ db.ledger.docs, 0 < e.timestamp ∧ e.timestamp ≤ now

instance (now : Time) : Decidable (db.StampedUntil now) := inferInstanceAs (Decidable (∀ e ∈ _, _))

end views

section ledger
variable {config : LedgerService.Config} {d db : Db}

/-- What `createEntry` leaves in the ledger. -/
def Db.WholeUntenanted (db : Db) : Prop := ∀ e ∈ db.ledger.docs, e.tenantId = none ∧ Whole e.balanceAfter

private theorem createEntry_keeps {request : CreateLedgerEntryRequest} (hwhole : Whole request.balanceAfter)
    (h : db.WholeUntenanted) :
    Alone (fun _ => True) (fun _ db' => db'.WholeUntenanted) (createEntry config request) db := by
  refine alone_createEntry (fun e hdescribes hfree e' he' => ?_) (fun _ _ _ => h) fun _ => h
  rcases (Collection.mem_insert hfree).mp he' with hold | rfl
  · exact h e' hold
  · obtain ⟨_, _, _, _, _, rfl⟩ := hdescribes
    exact ⟨rfl, hwhole⟩

theorem LedgerRun.wholeUntenanted (h : LedgerRun config d db) (hempty : d.ledger.docs = []) :
    db.WholeUntenanted := by
  induction h with
  | start =>
    intro e he
    rw [hempty] at he
    cases he
  | call _ hA ih => exact (createEntry_keeps hA ih).always _

end ledger

section verdict
variable {ledger : LedgerService.Config} {db : Db} {userId tenantId : String}

theorem whole_lastBalance {es : List LedgerEntry} (h : ∀ e ∈ es, Whole e.balanceAfter) :
    Whole (lastBalance es) := by
  unfold lastBalance
  cases hlast : es.getLast? with
  | none => exact rfl
  | some e => exact h e (List.mem_of_getLast? hlast)

private theorem mem_sortedEntries {q : LedgerQuery} {sort : LedgerSort} {docs : List LedgerEntry} {e : LedgerEntry} :
    e ∈ sortedEntries q sort docs ↔ e ∈ docs ∧ q.accepts e = true := by
  rw [(sortedEntries_perm _ _ _).mem_iff, List.mem_filter]

private theorem whole_lastTotal (h : db.WholeUntenanted) (asOf : Option Time) : Whole (db.lastTotal userId asOf) :=
  (whole_lastBalance fun e he => (h e (mem_sortedEntries.mp (List.mem_filter.mp he).1).1).2).add
    (whole_lastBalance fun e he => (h e (mem_sortedEntries.mp (List.mem_filter.mp he).1).1).2)

/-- A user's snapshot totals the balances of the latest entries. -/
private theorem total_snapshotOf (asOf : Option Time) (t : Time) :
    (snapshotOf ledger userId .user
      (sortedEntries (snapshotQuery userId .user asOf none) ⟨.timestamp, true⟩ db.ledger.docs) t).total id =
      db.lastTotal userId asOf := by
  simp only [snapshotOf, BalanceSnapshot.total, Db.lastTotal, if_pos, ← foldl_assign_of, id]
  exact add_zero _

/-- No entry has a tenant, so the report finds none. -/
private theorem report_finds_none (h : db.WholeUntenanted) (dateRange : DateRange) :
    sortedEntries (reportQuery userId .user dateRange tenantId) ⟨.timestamp, true⟩ db.ledger.docs = [] := by
  apply List.eq_nil_iff_forall_not_mem.mpr
  intro e he
  obtain ⟨hmem, haccepts⟩ := mem_sortedEntries.mp he
  simp [LedgerQuery.accepts, reportQuery, (h e hmem).1] at haccepts

/-- The verdict says whether the latest entries leave the same total now as at the epoch. -/
theorem balanced_iff (h : db.WholeUntenanted) (ledger : LedgerService.Config) (userId tenantId : String)
    (os : ℕ → Oracle) :
    ∃ result, ((reconcileUser id ledger userId tenantId).solo exec os db).1 = .ok result ∧
      (result.balanced = true ↔
        db.lastTotal userId (some (os 0).now) = db.lastTotal userId (some 0)) := by
  refine ⟨_, rfl, ?_⟩
  have hentries : sortedEntries (reportQuery userId .user ⟨0, (os 0).now⟩ tenantId) ⟨.timestamp, true⟩
      db.ledger.docs = [] := report_finds_none h _
  simp only [exec, hentries, total_snapshotOf, List.foldl_nil, id, add_zero, sub_zero, decide_eq_true_eq]
  exact (whole_lastTotal h _).near_iff (whole_lastTotal h _)

private theorem lastTotal_of_filter {asOf asOf' : Option Time}
    (h : ∀ e ∈ db.ledger.docs, asOf.all (e.timestamp ≤ ·) = asOf'.all (e.timestamp ≤ ·)) :
    db.lastTotal userId asOf = db.lastTotal userId asOf' := by
  have hfilter : db.ledger.docs.filter (snapshotQuery userId .user asOf none).accepts =
      db.ledger.docs.filter (snapshotQuery userId .user asOf' none).accepts :=
    List.filter_congr fun e he => by simp only [LedgerQuery.accepts, snapshotQuery, h e he]
  simp only [Db.lastTotal, sortedEntries, hfilter]

/-- No entry is stamped up to the epoch, so the last balances are 0 then. -/
private theorem lastTotal_epoch {now : Time} (h : db.StampedUntil now) : db.lastTotal userId (some 0) = 0 := by
  have hnone : sortedEntries (snapshotQuery userId .user (some 0) none) ⟨.timestamp, true⟩ db.ledger.docs = [] := by
    apply List.eq_nil_iff_forall_not_mem.mpr
    intro e he
    obtain ⟨hmem, haccepts⟩ := mem_sortedEntries.mp he
    have hlate : ¬ e.timestamp ≤ 0 := Int.not_le.mpr (h e hmem).1
    simp [LedgerQuery.accepts, snapshotQuery, hlate] at haccepts
  rw [Db.lastTotal, hnone]
  exact add_zero 0

private theorem lastTotal_now {now : Time} (h : db.StampedUntil now) :
    db.lastTotal userId (some now) = db.lastTotal userId none :=
  lastTotal_of_filter fun e he => by simp [(h e he).2]

/-- On a ledger that `createEntry` calls have built, the verdict says whether the views agree
exactly if they agree while the last balances are what they were at the epoch, or disagree while
these have changed. Where the entries are stamped between the epoch and the report: all three are 0,
or the last balances are not and the three do not agree. Amounts are exact and identifiers trimmed.
-/
theorem verdict_exact_iff {config : LedgerService.Config} {d : Db} (hrun : LedgerRun config d db)
    (hempty : d.ledger.docs = []) (ledger : LedgerService.Config) (userId tenantId : String) (os : ℕ → Oracle) :
    ∃ result, ((reconcileUser id ledger userId tenantId).solo exec os db).1 = .ok result ∧
      ((result.balanced = true ↔ db.ViewsAgree userId) ↔
        if db.lastTotal userId (some (os 0).now) = db.lastTotal userId (some 0)
        then db.ViewsAgree userId else ¬ db.ViewsAgree userId) ∧
      (db.StampedUntil (os 0).now → ((result.balanced = true ↔ db.ViewsAgree userId) ↔
        if db.lastTotal userId none = 0 then db.walletTotal userId = 0 ∧ db.ledgerSum userId = 0
        else ¬ (db.walletTotal userId = db.ledgerSum userId ∧
          db.ledgerSum userId = db.lastTotal userId none))) := by
  obtain ⟨result, hrun, hbalanced⟩ := balanced_iff (hrun.wholeUntenanted hempty) ledger userId tenantId os
  refine ⟨result, hrun, ?_, fun hstamped => ?_⟩
  · rw [hbalanced]
    split <;> simp [*]
  · rw [hbalanced, lastTotal_now hstamped, lastTotal_epoch hstamped, Db.ViewsAgree]
    split
    · rename_i hzero
      simp only [hzero, true_iff]
      exact ⟨fun h => ⟨h.1.trans h.2, h.2⟩, fun h => ⟨h.1.trans h.2.symm, h.2⟩⟩
    · rename_i hne
      simp [hne]

end verdict

section scenario

def sampleEntry : CreateLedgerEntryRequest where
  transactionId := none
  accountId := "user-1"
  accountType := .user
  amount := 5
  type := .credit
  balanceState := .available
  stateTransition := "award→available"
  reason := some .promotionalAward
  idempotencyKey := "entry-1"
  requestId := "request-1"
  balanceBefore := 0
  balanceAfter := 5
  currency := none
  metadata := none
  escrowId := none
  queueItemId := none
  featureType := none
  correlationId := none

def reversingEntry : CreateLedgerEntryRequest :=
  { sampleEntry with amount := -5, type := .debit, idempotencyKey := "entry-2", balanceBefore := 5, balanceAfter := 0 }

/-- The store after an entry is created alone. -/
def Db.afterEntry (db : Db) (request : CreateLedgerEntryRequest) (start : ℕ) : Db :=
  ((createEntry LedgerService.defaultConfig request).solo exec (later start) db).2

/-- A credit that a debit takes back: the last balance is 0, and the verdict is right. -/
theorem verdict_exact_reversed : ∃ db result, LedgerRun LedgerService.defaultConfig .empty db ∧
    db.ledger.docs.map LedgerEntry.amount = [5, -5] ∧
    ((reconcileUser id LedgerService.defaultConfig "user-1" "tenant-1").solo exec (later 200) db).1 = .ok result ∧
    (result.balanced = true ↔ db.ViewsAgree "user-1") := by
  have hrun : LedgerRun LedgerService.defaultConfig .empty ((Db.empty.afterEntry sampleEntry 1).afterEntry reversingEntry 100) :=
    (Prog.Sequential.start.call (show Whole sampleEntry.balanceAfter by decide)).call
      (show Whole reversingEntry.balanceAfter by decide)
  obtain ⟨result, hresult, -, hexact⟩ :=
    verdict_exact_iff hrun rfl LedgerService.defaultConfig "user-1" "tenant-1" (later 200)
  exact ⟨_, result, hrun, by decide +kernel, hresult, (hexact (by decide +kernel)).mpr (by decide +kernel)⟩

/-- One credit of 5, and a wallet with 5: the views agree, and the verdict says they do not. -/
theorem verdict_wrong_after_credit : ∃ d db result, LedgerRun LedgerService.defaultConfig d db ∧ d.ledger.docs = [] ∧
    db.StampedUntil (later 200 0).now ∧
    ((reconcileUser id LedgerService.defaultConfig "user-1" "tenant-1").solo exec (later 200) db).1 = .ok result ∧
    result.balanced = false ∧ db.ViewsAgree "user-1" := by
  have hrun : LedgerRun LedgerService.defaultConfig { Db.empty with wallets := Collection.empty.insert ⟨"user-1", 5, 0, "points", 1⟩ }
      (Db.afterEntry { Db.empty with wallets := Collection.empty.insert ⟨"user-1", 5, 0, "points", 1⟩ } sampleEntry 1) :=
    Prog.Sequential.start.call (show Whole sampleEntry.balanceAfter by decide)
  exact ⟨_, _, _, hrun, rfl, by decide +kernel, rfl, by decide +kernel, by decide +kernel⟩

end scenario
end RedRoomRewards
