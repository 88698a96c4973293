import RedRoomRewards.Guarantees.PointInTime
import Mathlib.Algebra.Order.BigOperators.Group.Multiset
import Mathlib.Tactic.NormNum
import Mathlib.Tactic.Ring

/-! The reconciliation report of a consistent ledger over a window. The starting snapshot
includes the instant at which the window starts, and the window includes it too, so an
entry that is stamped at this instant is counted twice. -/
namespace RedRoomRewards
open Process Store Arithmetic LedgerService

section consistent

/-- The ledger of one tenant: chains of positive credits and negative debits. -/
structure Db.Consistent (db : Db) (tenantId : String) : Prop extends db.Chains where
  tenant : ∀ e ∈ db.ledger.docs, e.tenantId = some tenantId
  signed : ∀ e ∈ db.ledger.docs, if e.type = .credit then 0 < e.amount else e.amount < 0

instance (db : Db) (tenantId : String) : Decidable (db.Consistent tenantId) :=
  decidable_of_iff (db.Chains ∧ (∀ e ∈ db.ledger.docs, e.tenantId = some tenantId) ∧
      ∀ e ∈ db.ledger.docs, if e.type = .credit then 0 < e.amount else e.amount < 0)
    ⟨fun h => ⟨h.1, h.2.1, h.2.2⟩, fun h => ⟨h.toChains, h.tenant, h.signed⟩⟩

/-- The balances a snapshot has for an account of this type. -/
def AccountType.shows : AccountType → BalanceState → Bool
  | _, .available | .user, .escrow | .model, .earned => true
  | .user, .earned | .model, .escrow => false

private theorem BalanceState.cases_eq (state : BalanceState) :
    state = .available ∨ state = .escrow ∨ state = .earned := by cases state <;> simp

/-- An entry of the account. -/
def LedgerEntry.Of (e : LedgerEntry) (accountId : String) (accountType : AccountType) : Prop :=
  e.accountId = accountId ∧ e.accountType = accountType

instance (e : LedgerEntry) (accountId : String) (accountType : AccountType) : Decidable (e.Of accountId accountType) :=
  inferInstanceAs (Decidable (_ ∧ _))

theorem Db.Consistent.amount_ne_zero {db : Db} {tenantId : String} (h : db.Consistent tenantId) {e : LedgerEntry}
    (he : e ∈ db.ledger.docs) : e.amount ≠ 0 := by
  have hsign := h.signed e he
  split at hsign
  · exact hsign.ne'
  · exact hsign.ne

end consistent

section whole
variable {db : Db} {accountId : String} {accountType : AccountType}

/-- What the account has been credited and debited altogether. -/
def Db.turnover (db : Db) (accountId : String) (accountType : AccountType) : ℚ :=
  ((db.ledger.docs.filter fun e => e.Of accountId accountType).map fun e => |e.amount|).sum

/-- The amounts of the account are whole numbers and less than `2 ^ 50` altogether. -/
structure Db.WholeAmounts (db : Db) (accountId : String) (accountType : AccountType) : Prop where
  whole : ∀ e ∈ db.ledger.docs, e.Of accountId accountType → Whole e.amount
  turnover : db.turnover accountId accountType < 2 ^ 50

instance : Decidable (db.WholeAmounts accountId accountType) :=
  decidable_of_iff (_ ∧ _) ⟨fun h => ⟨h.1, h.2⟩, fun h => ⟨h.1, h.2⟩⟩

private theorem sum_abs_le {es : List LedgerEntry}
    (hes : es.Subperm (db.ledger.docs.filter fun e => e.Of accountId accountType)) :
    (es.map fun e => |e.amount|).sum ≤ db.turnover accountId accountType := by
  obtain ⟨es', hperm, hsub⟩ := hes
  rw [← (hperm.map _).sum_eq]
  apply (hsub.map _).sum_le_sum
  intro x hx
  obtain ⟨e, -, rfl⟩ := List.mem_map.mp hx
  exact abs_nonneg _

private theorem whole_of_mem (h : db.WholeAmounts accountId accountType) {es : List LedgerEntry}
    (hes : es.Subperm (db.ledger.docs.filter fun e => e.Of accountId accountType)) {e : LedgerEntry} (he : e ∈ es) :
    Whole e.amount := by
  obtain ⟨hmem, hof⟩ := List.mem_filter.mp (hes.subset he)
  exact h.whole e hmem (of_decide_eq_true hof)

/-- Entries of the account add up to a small amount. -/
private theorem small_sum (h : db.WholeAmounts accountId accountType) {es : List LedgerEntry}
    (hes : es.Subperm (db.ledger.docs.filter fun e => e.Of accountId accountType)) :
    Small (db.turnover accountId accountType) (es.map LedgerEntry.amount).sum where
  whole := by
    apply whole_sum
    intro x hx
    obtain ⟨e, he, rfl⟩ := List.mem_map.mp hx
    exact whole_of_mem h hes he
  bounded := by
    have htriangle := Multiset.abs_sum_le_sum_abs (s := (es.map LedgerEntry.amount : Multiset ℚ))
    rw [Multiset.sum_coe, Multiset.map_coe, Multiset.sum_coe, List.map_map] at htriangle
    exact htriangle.trans (sum_abs_le hes)

private theorem small_bookedUntil (h : db.WholeAmounts accountId accountType) (T : Time) (state : BalanceState) :
    Small (db.turnover accountId accountType) (db.bookedUntil accountId accountType T state) := by
  apply small_sum h
  rw [Db.entriesOf, List.filter_filter]
  refine (List.monotone_filter_right _ fun e he => ?_).subperm
  obtain ⟨-, haccount, htype, -⟩ : _ ∧ e.accountId = accountId ∧ e.accountType = accountType ∧ _ := by simpa using he
  exact decide_eq_true ⟨haccount, htype⟩

end whole

section amounts
variable {db : Db} {tenantId : String}

/-- The sum of the amounts of the entries with `p`. -/
def Db.amountOf (db : Db) (p : LedgerEntry → Prop) [DecidablePred p] : ℚ :=
  (db.ledger.docs.map fun e => if p e then e.amount else 0).sum

private theorem sum_filter (p : LedgerEntry → Prop) [DecidablePred p] (es : List LedgerEntry) :
    ((es.filter p).map LedgerEntry.amount).sum = (es.map fun e => if p e then e.amount else 0).sum := by
  rw [List.sum_map_ite]
  simp

private theorem bookedUntil_eq (accountId : String) (accountType : AccountType) (T : Time) (state : BalanceState) :
    db.bookedUntil accountId accountType T state =
      db.amountOf fun e => e.timestamp ≤ T ∧ e.Of accountId accountType ∧ e.balanceState = state := by
  rw [Db.bookedUntil, Db.entriesOf, List.filter_filter, Db.amountOf, ← sum_filter]
  congr 2
  apply List.filter_congr
  intro e _
  rw [← Bool.decide_and]
  exact decide_eq_decide.mpr ⟨fun h => ⟨h.1, ⟨h.2.1, h.2.2.1⟩, h.2.2.2⟩, fun h => ⟨h.1, h.2.1.1, h.2.1.2, h.2.2⟩⟩

/-- What a snapshot at an instant shows of the account. -/
private theorem bookedUntil_add (accountId : String) (accountType : AccountType) (T : Time) :
    db.bookedUntil accountId accountType T .available +
        db.bookedUntil accountId accountType T (match accountType with | .user => .escrow | .model => .earned) =
      db.amountOf fun e => e.timestamp ≤ T ∧ e.Of accountId accountType ∧ accountType.shows e.balanceState := by
  rw [bookedUntil_eq, bookedUntil_eq]
  simp only [Db.amountOf, ← List.sum_map_add]
  congr 1
  apply List.map_congr_left
  intro e _
  cases accountType <;> obtain hstate | hstate | hstate := e.balanceState.cases_eq <;> simp [hstate, AccountType.shows]

/-- The snapshot at an instant totals what it shows of the account. -/
private theorem total_until {accountId : String} {accountType : AccountType} (h : db.Chains)
    (hwhole : db.WholeAmounts accountId accountType) (config : LedgerService.Config) (T : Time) :
    (snapshotOf config accountId accountType (db.entriesUntil accountId accountType T) T).total double =
        db.amountOf (fun e => e.timestamp ≤ T ∧ e.Of accountId accountType ∧ accountType.shows e.balanceState) ∧
      Small (2 * db.turnover accountId accountType) (db.amountOf fun e =>
        e.timestamp ≤ T ∧ e.Of accountId accountType ∧ accountType.shows e.balanceState) := by
  have hstates := fun state => entriesUntil_sums accountId accountType T state h
  have havailable := hstates .available
  have hescrow := hstates .escrow
  have hearned := hstates .earned
  simp only [StateBalances.of] at havailable hescrow hearned
  have hsmall := small_bookedUntil hwhole T
  have hturnover := hwhole.turnover
  have hfirst : double (db.bookedUntil accountId accountType T .available) = _ :=
    (hsmall .available).double_eq (by linarith)
  have hsum := fun state => (hsmall .available).add (hsmall state)
  have hdouble := fun state => (hsum state).double_eq (by linarith)
  rw [← bookedUntil_add, two_mul]
  refine ⟨?_, hsum _⟩
  cases accountType with
  | user =>
    simp only [snapshotOf, BalanceSnapshot.total, havailable, hescrow, if_pos, reduceCtorEq, if_false,
      Option.getD_some, Option.getD_none, add_zero, hdouble]
  | model =>
    simp only [snapshotOf, BalanceSnapshot.total, havailable, hearned, if_pos, reduceCtorEq, if_false,
      Option.getD_some, Option.getD_none, add_zero, hfirst, hdouble]

/-- Adding up whole numbers rounds nothing as long as they are small together. -/
private theorem totals_double {es : List LedgerEntry} (hes : ∀ e ∈ es, Whole e.amount) (totals : Totals)
    (hcredits : Whole totals.credits) (hdebits : Whole totals.debits)
    (hbound : |totals.credits| + |totals.debits| + (es.map fun e => |e.amount|).sum < 2 ^ 53) :
    es.foldl (Totals.add double) totals = es.foldl (Totals.add id) totals ∧
      Whole (es.foldl (Totals.add id) totals).credits ∧ Whole (es.foldl (Totals.add id) totals).debits ∧
      |(es.foldl (Totals.add id) totals).credits| + |(es.foldl (Totals.add id) totals).debits| ≤
        |totals.credits| + |totals.debits| + (es.map fun e => |e.amount|).sum := by
  induction es generalizing totals with
  | nil => exact ⟨rfl, hcredits, hdebits, by simp⟩
  | cons e es ih =>
    have hrest : 0 ≤ (es.map fun e => |e.amount|).sum := List.sum_nonneg fun x hx => by
      obtain ⟨e', -, rfl⟩ := List.mem_map.mp hx
      exact abs_nonneg _
    have hamount := hes e (.head _)
    have hothers := fun e' he' => hes e' (.tail _ he')
    rw [List.map_cons, List.sum_cons] at hbound ⊢
    have hcredited : |totals.credits + e.amount| ≤ |totals.credits| + |e.amount| := abs_add_le _ _
    have hdebited : abs (totals.debits + |e.amount|) ≤ |totals.debits| + |e.amount| := by
      simpa using abs_add_le totals.debits |e.amount|
    have hpositive := abs_nonneg totals.credits
    have hpositive' := abs_nonneg totals.debits
    rw [List.foldl_cons, List.foldl_cons]
    by_cases htype : e.type = .credit
    · have hexact : double (totals.credits + e.amount) = totals.credits + e.amount :=
        Safe.double_eq ⟨hcredits.add hamount, by linarith⟩
      simp only [Totals.add, if_pos htype, hexact, id]
      obtain ⟨hsame, hwhole, hwhole', hle⟩ := ih hothers { totals with credits := totals.credits + e.amount }
        (hcredits.add hamount) hdebits (by linarith)
      exact ⟨hsame, hwhole, hwhole', by linarith⟩
    · have hexact : double (totals.debits + |e.amount|) = totals.debits + |e.amount| :=
        Safe.double_eq ⟨hdebits.add hamount.abs, by linarith⟩
      simp only [Totals.add, if_neg htype, hexact, id]
      obtain ⟨hsame, hwhole, hwhole', hle⟩ := ih hothers { totals with debits := totals.debits + |e.amount| }
        hcredits (hdebits.add hamount.abs) (by linarith)
      exact ⟨hsame, hwhole, hwhole', by linarith⟩

/-- Credits less debits are the sum of the amounts. -/
private theorem totals_net {es : List LedgerEntry}
    (hsigned : ∀ e ∈ es, if e.type = .credit then 0 < e.amount else e.amount < 0) (totals : Totals) :
    (es.foldl (Totals.add id) totals).credits - (es.foldl (Totals.add id) totals).debits =
      totals.credits - totals.debits + (es.map LedgerEntry.amount).sum := by
  induction es generalizing totals with
  | nil => simp
  | cons e es ih =>
    have hsign := hsigned e (.head _)
    rw [List.foldl_cons, ih (fun e' he' => hsigned e' (.tail _ he')), List.map_cons, List.sum_cons]
    by_cases hcredit : e.type = .credit
    · simp only [Totals.add, if_pos hcredit, id]
      ring
    · rw [if_neg hcredit] at hsign
      simp only [Totals.add, if_neg hcredit, abs_of_neg hsign, id]
      ring

private theorem reportQuery_accepts (accountId : String) (accountType : AccountType) (dateRange : DateRange)
    (e : LedgerEntry) : (reportQuery accountId accountType dateRange tenantId).accepts e =
      decide (e.Of accountId accountType ∧ dateRange.start ≤ e.timestamp ∧ e.timestamp ≤ dateRange.stop ∧
        e.tenantId = some tenantId) := by
  simp [LedgerQuery.accepts, reportQuery, LedgerEntry.Of, eq_comm, Bool.and_assoc]

/-- The window adds up what is stamped from its start to its end. -/
private theorem window_net {accountId : String} {accountType : AccountType} (h : db.Consistent tenantId)
    (hwhole : db.WholeAmounts accountId accountType) (dateRange : DateRange) (totals : Totals)
    (htotals : totals = (sortedEntries (reportQuery accountId accountType dateRange tenantId) ⟨.timestamp, true⟩
      db.ledger.docs).foldl (Totals.add double) {}) :
    (totals.credits - totals.debits = db.amountOf fun e =>
      e.Of accountId accountType ∧ dateRange.start ≤ e.timestamp ∧ e.timestamp ≤ dateRange.stop) ∧
    Small (db.turnover accountId accountType) totals.credits ∧ Small (db.turnover accountId accountType) totals.debits := by
  have hperm := sortedEntries_perm (reportQuery accountId accountType dateRange tenantId) ⟨.timestamp, true⟩
    db.ledger.docs
  have hof : (sortedEntries (reportQuery accountId accountType dateRange tenantId) ⟨.timestamp, true⟩
      db.ledger.docs).Subperm (db.ledger.docs.filter fun e => e.Of accountId accountType) := by
    refine hperm.subperm.trans (List.monotone_filter_right _ fun e he => ?_).subperm
    rw [reportQuery_accepts] at he
    exact decide_eq_true (of_decide_eq_true he).1
  have hle := sum_abs_le hof
  have hturnover := hwhole.turnover
  have hnothing : |(0 : ℚ)| = 0 := abs_zero
  obtain ⟨hsame, hcredits, hdebits, hbound⟩ := totals_double (fun e he => whole_of_mem hwhole hof he) {} (by decide)
    (by decide) (by simp only [hnothing]; linarith)
  simp only [hnothing, zero_add] at hbound
  rw [hsame] at htotals
  have hcredit := abs_nonneg totals.credits
  have hdebit := abs_nonneg totals.debits
  rw [← htotals] at hcredits hdebits hbound
  refine ⟨?_, ⟨hcredits, by linarith⟩, ⟨hdebits, by linarith⟩⟩
  rw [htotals, totals_net fun e he => h.signed e (List.mem_of_mem_filter (hperm.mem_iff.mp he)), sub_zero, zero_add]
  apply (hperm.map LedgerEntry.amount).sum_eq.trans
  rw [Db.amountOf, ← sum_filter]
  congr 2
  apply List.filter_congr
  intro e he
  rw [reportQuery_accepts]
  exact decide_eq_decide.mpr ⟨fun hwindow => ⟨hwindow.1, hwindow.2.1, hwindow.2.2.1⟩,
    fun hwindow => ⟨hwindow.1, hwindow.2.1, hwindow.2.2, h.tenant e he⟩⟩

end amounts

section report
variable (db : Db) (accountId : String) (accountType : AccountType) (dateRange : DateRange) (tenantId : String)

/-- The window counts the entry and the two snapshots do not differ by it: it stands at the
start, or no snapshot of the account has its balance. -/
def LedgerEntry.Unmatched (e : LedgerEntry) : Prop := e.Of accountId accountType ∧
  (e.timestamp = dateRange.start ∨
    (dateRange.start < e.timestamp ∧ e.timestamp ≤ dateRange.stop) ∧ accountType.shows e.balanceState = false)

instance (e : LedgerEntry) : Decidable (e.Unmatched accountId accountType dateRange) :=
  inferInstanceAs (Decidable (_ ∧ _))

def Db.unmatched : ℚ := db.amountOf fun e => e.Unmatched accountId accountType dateRange

/-- The report of the account over the window finds no difference. -/
def ReportBalances (config : LedgerService.Config) (os : ℕ → Oracle) : Prop :=
  ∃ report, (generateReconciliationReport double config accountId accountType dateRange tenantId).solo exec os db =
    (.ok report, db) ∧ report.difference = 0 ∧ report.reconciled = true

variable {db} {accountId} {accountType} {dateRange} {tenantId}

private theorem unmatched_eq (hrange : dateRange.start ≤ dateRange.stop) :
    (db.amountOf fun e => e.timestamp ≤ dateRange.stop ∧ e.Of accountId accountType ∧ accountType.shows e.balanceState) -
      ((db.amountOf fun e => e.timestamp ≤ dateRange.start ∧ e.Of accountId accountType ∧
          accountType.shows e.balanceState) +
        db.amountOf fun e =>
          e.Of accountId accountType ∧ dateRange.start ≤ e.timestamp ∧ e.timestamp ≤ dateRange.stop) =
      - db.unmatched accountId accountType dateRange := by
  rw [sub_eq_iff_eq_add, Db.unmatched, ← sub_eq_neg_add, eq_sub_iff_add_eq]
  simp only [Db.amountOf, LedgerEntry.Unmatched, ← List.sum_map_add]
  congr 1
  apply List.map_congr_left
  intro e _
  by_cases hof : e.Of accountId accountType
  · -- before the start, at the start, within the window, after the window
    rcases Int.lt_trichotomy e.timestamp dateRange.start with hbefore | hat | hafter
    · have hstop : e.timestamp ≤ dateRange.stop := Int.le_trans (Int.le_of_lt hbefore) hrange
      simp [hof, hstop, Int.le_of_lt hbefore, Int.not_le.mpr hbefore, Int.ne_of_lt hbefore,
        Int.not_lt.mpr (Int.le_of_lt hbefore)]
    · simp [hof, hat, hrange]
    · by_cases hstop : e.timestamp ≤ dateRange.stop
      · rcases Bool.eq_false_or_eq_true (accountType.shows e.balanceState) with hshows | hshows <;>
          simp [hof, hstop, hshows, hafter, Int.not_le.mpr hafter, Int.ne_of_gt hafter, Int.le_of_lt hafter]
      · simp [hstop, Int.not_le.mpr hafter, Int.ne_of_gt hafter]
  · simp [hof]

/-- The difference that the report finds is what the two snapshots do not account for. -/
theorem report_difference (h : db.Consistent tenantId) (hwhole : db.WholeAmounts accountId accountType)
    (hrange : dateRange.start ≤ dateRange.stop) (config : LedgerService.Config) (os : ℕ → Oracle) :
    ∃ report, (generateReconciliationReport double config accountId accountType dateRange tenantId).solo exec os db =
      (.ok report, db) ∧ report.difference = - db.unmatched accountId accountType dateRange ∧
      report.reconciled = decide (|report.difference| < double (1 / 100)) := by
  refine ⟨_, rfl, ?_, rfl⟩
  obtain ⟨hwindow, hcredits, hdebits⟩ := window_net h hwhole dateRange _ rfl
  obtain ⟨hstart, hstarting⟩ := total_until h.toChains hwhole config dateRange.start
  obtain ⟨hstop, hactual⟩ := total_until h.toChains hwhole config dateRange.stop
  have hturnover := hwhole.turnover
  have hcredited := hstarting.add hcredits
  have hcalculated := hcredited.sub hdebits
  have hdifference := hactual.sub hcalculated
  simp only [exec, hstart, hstop]
  rw [hcredited.double_eq (by linarith), hcalculated.double_eq (by linarith), hdifference.double_eq (by linarith),
    add_sub_assoc, hwindow]
  exact unmatched_eq hrange

/-- Of the entries stamped at one instant there is at most one. -/
private theorem Db.Chains.single (h : db.Chains) {p : LedgerEntry → Bool} {T : Time}
    (hp : ∀ e ∈ db.ledger.docs, p e = true → e.timestamp = T) {e : LedgerEntry} (he : e ∈ db.ledger.docs.filter p) :
    db.ledger.docs.filter p = [e] := by
  have hdistinct : (db.ledger.docs.filter p).Pairwise fun e e' => e.timestamp ≠ e'.timestamp :=
    (List.pairwise_map.mp h.distinct).filter p
  have hstamped : ∀ e ∈ db.ledger.docs.filter p, e.timestamp = T := fun e he =>
    hp e (List.mem_filter.mp he).1 (List.mem_filter.mp he).2
  cases hfilter : db.ledger.docs.filter p with
  | nil =>
    rw [hfilter] at he
    cases he
  | cons first rest =>
    rw [hfilter] at he hdistinct hstamped
    have hrest : rest = [] := List.eq_nil_iff_forall_not_mem.mpr fun e' he' =>
      (List.pairwise_cons.mp hdistinct).1 e' he' ((hstamped first (.head _)).trans (hstamped e' (.tail _ he')).symm)
    rw [hrest] at he ⊢
    rw [List.mem_singleton.mp he]

/-- Where the snapshots show every balance of the account, nothing is unmatched exactly if
no entry of the account is stamped at the start. -/
private theorem unmatched_eq_zero_iff (h : db.Consistent tenantId)
    (hshows : ∀ e ∈ db.ledger.docs, e.Of accountId accountType → accountType.shows e.balanceState = true) :
    db.unmatched accountId accountType dateRange = 0 ↔
      ∀ e ∈ db.ledger.docs, e.Of accountId accountType → e.timestamp ≠ dateRange.start := by
  have hstart : ∀ e ∈ db.ledger.docs, e.Unmatched accountId accountType dateRange → e.timestamp = dateRange.start := by
    rintro e he ⟨hof, hat | ⟨-, hhidden⟩⟩
    · exact hat
    · exact absurd (hhidden.symm.trans (hshows e he hof)) Bool.false_ne_true
  rw [Db.unmatched, Db.amountOf, ← sum_filter]
  constructor
  · intro hzero e he hof hat
    have hmem : e ∈ db.ledger.docs.filter fun e => e.Unmatched accountId accountType dateRange :=
      List.mem_filter.mpr ⟨he, decide_eq_true ⟨hof, .inl hat⟩⟩
    rw [h.toChains.single (fun e he hp => hstart e he (of_decide_eq_true hp)) hmem] at hzero
    exact h.amount_ne_zero he (by simpa using hzero)
  · intro hnone
    have hempty : (db.ledger.docs.filter fun e => e.Unmatched accountId accountType dateRange) = [] := by
      apply List.filter_eq_nil_iff.mpr
      intro e he hp
      have hunmatched := of_decide_eq_true hp
      exact hnone e he hunmatched.1 (hstart e he hunmatched)
    rw [hempty]
    rfl

/-- On a consistent ledger of whole amounts the report balances exactly if the amounts that only the
window counts sum to 0; on a ledger with no balance that the snapshots hide, exactly if no entry of
the account is stamped at the instant at which the window starts. Identifiers are trimmed. -/
theorem report_balances_iff (h : db.Consistent tenantId) (hwhole : db.WholeAmounts accountId accountType) (hrange : dateRange.start ≤ dateRange.stop)
    (config : LedgerService.Config) (os : ℕ → Oracle) :
    (ReportBalances db accountId accountType dateRange tenantId config os ↔
      db.unmatched accountId accountType dateRange = 0) ∧
    ((∀ e ∈ db.ledger.docs, e.Of accountId accountType → accountType.shows e.balanceState = true) →
      (ReportBalances db accountId accountType dateRange tenantId config os ↔
        ∀ e ∈ db.ledger.docs, e.Of accountId accountType → e.timestamp ≠ dateRange.start)) := by
  obtain ⟨report, hrun, hdifference, hreconciled⟩ := report_difference h hwhole hrange config os
  have hiff : ReportBalances db accountId accountType dateRange tenantId config os ↔
      db.unmatched accountId accountType dateRange = 0 := by
    constructor
    · rintro ⟨report', hrun', hzero, -⟩
      obtain rfl : report = report' := Except.ok.inj (congrArg Prod.fst (hrun.symm.trans hrun'))
      exact neg_eq_zero.mp (hdifference.symm.trans hzero)
    · intro hzero
      have hnone : report.difference = 0 := by rw [hdifference, hzero, neg_zero]
      refine ⟨report, hrun, hnone, ?_⟩
      rw [hreconciled, hnone]
      decide +kernel
  exact ⟨hiff, fun hshows => hiff.trans (unmatched_eq_zero_iff h hshows)⟩

end report

section scenario

/-- A window from between the two entries to the instant of the second one. -/
theorem report_balances_between :
    ReportBalances reversedDb "user-1" .user ⟨15, 20⟩ "tenant-1" LedgerService.defaultConfig tick :=
  ((report_balances_iff (by decide +kernel) (by decide +kernel) (by decide) LedgerService.defaultConfig tick).2
    (by decide +kernel)).mpr (by decide +kernel)

/-- A window that starts with the credit of 5: the starting balance has it already, and the
window adds it once more. -/
theorem report_counts_start_twice : ∃ report, reversedDb.Consistent "tenant-1" ∧
    reversedDb.WholeAmounts "user-1" .user ∧
    (generateReconciliationReport double LedgerService.defaultConfig "user-1" .user ⟨10, 30⟩ "tenant-1").solo exec tick
      reversedDb = (.ok report, reversedDb) ∧
    report.startingBalance = 5 ∧ report.totalCredits = 5 ∧ report.totalDebits = 5 ∧ report.actualBalance = 0 ∧
    report.difference = -5 ∧ report.reconciled = false :=
  ⟨_, by decide +kernel, by decide +kernel, rfl, by decide +kernel, by decide +kernel, by decide +kernel, by decide +kernel,
    by decide +kernel, by decide +kernel⟩

end scenario
end RedRoomRewards
