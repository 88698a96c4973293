import RedRoomRewards.Guarantees.PointInTime
import RedRoomRewards.Process.Paging
import RedRoomRewards.Service.LedgerController

/-! Paging through the ledger: the pages of a query, read one after the other, are its
matching entries in their order, each once. -/
namespace RedRoomRewards
open Process Store LedgerService LedgerController

section order

/-- `e` comes before `e'` in the sort. -/
def LedgerSort.Before (sort : LedgerSort) (e e' : LedgerEntry) : Prop :=
  if sort.ascending then sort.field.key e < sort.field.key e' else sort.field.key e' < sort.field.key e

/-- Entries with distinct keys are put into one order. -/
theorem sortedEntries_before {q : LedgerQuery} {sort : LedgerSort} {docs : List LedgerEntry}
    (hdistinct : (docs.map sort.field.key).Nodup) : (sortedEntries q sort docs).Pairwise sort.Before := by
  have htotal : Std.Total fun a b : LedgerEntry =>
      if sort.ascending then sort.field.key a ≤ sort.field.key b else sort.field.key b ≤ sort.field.key a :=
    ⟨fun a b => by split <;> exact le_total _ _⟩
  have htrans : IsTrans LedgerEntry fun a b =>
      if sort.ascending then sort.field.key a ≤ sort.field.key b else sort.field.key b ≤ sort.field.key a :=
    ⟨fun a b c => by
      split
      · exact le_trans
      · exact fun hab hbc => hbc.trans hab⟩
  have hsorted : (sortedEntries q sort docs).Pairwise fun a b =>
      if sort.ascending then sort.field.key a ≤ sort.field.key b else sort.field.key b ≤ sort.field.key a :=
    List.pairwise_insertionSort _ _
  have hkeys : (sortedEntries q sort docs).Pairwise fun a b => sort.field.key a ≠ sort.field.key b :=
    List.pairwise_map.mp (((sortedEntries_perm q sort docs).map sort.field.key).nodup_iff.mpr
      (hdistinct.sublist (List.filter_sublist.map _)))
  refine (hsorted.and hkeys).imp fun {a b} hboth => ?_
  obtain ⟨hle, hne⟩ := hboth
  unfold LedgerSort.Before
  split at hle
  · rename_i hascending
    rw [if_pos hascending]
    exact lt_of_le_of_ne hle hne
  · rename_i hdescending
    rw [if_neg hdescending]
    exact lt_of_le_of_ne hle hne.symm

end order

section query
variable (filter : LedgerQueryFilter)

def LedgerService.LedgerQueryFilter.sort : LedgerSort := ⟨filter.sortBy.getD .timestamp, filter.ascending⟩

/-- The page of the query from `offset` on, whatever offset the filter has. -/
def fetchEntries (offset : ℕ) : Service (Page LedgerEntry) := do
  let result ← queryEntries { filter with offset := some offset }
  pure ⟨result.entries, result.totalCount, result.hasMore⟩

/-- All pages of the query from its start. -/
def readEntries (fuel : ℕ) : Service (Option (List (Page LedgerEntry))) := Prog.follow (fetchEntries filter) fuel 0

theorem pageSize_pos : 0 < filter.pageSize := by
  unfold LedgerQueryFilter.pageSize
  split <;> omega

/-- Each page is one of the list of the matching entries, sorted. -/
private theorem alone_fetchEntries (db : Db) (fair : Oracle → Prop) (offset : ℕ) :
    Alone fair (fun r db' => r = .ok (pageOf (sortedEntries filter.query filter.sort db.ledger.docs)
      filter.pageSize offset) ∧ db' = db) (fetchEntries filter offset) db := by
  intro o _ o' _
  have hcount : db.ledger.docs.countP filter.query.accepts =
      (sortedEntries filter.query filter.sort db.ledger.docs).length := by
    rw [List.countP_eq_length_filter, (sortedEntries_perm _ _ _).length_eq]
  refine ⟨?_, rfl⟩
  show Except.ok (Page.mk _ (db.ledger.docs.countP filter.query.accepts)
    (decide (_ < db.ledger.docs.countP filter.query.accepts))) = _
  rw [hcount]
  rfl

/-- Pagination is lossless: the reader who starts at 0 and goes on at the number of entries it has
got reaches the last page, has then every matching entry in the order of the sort, so each one once,
and has been told their number by every page. Identifiers are trimmed. -/
theorem pagination_lossless (db : Db)
    (hdistinct : (db.ledger.docs.map filter.sort.field.key).Nodup) :
    ∃ bound, ∀ fuel, bound < fuel → ∀ os, ∃ pages,
      (readEntries filter fuel).solo exec os db = (.ok (some pages), db) ∧
      (pages.flatMap Page.items).Perm (db.ledger.docs.filter filter.query.accepts) ∧
      (pages.flatMap Page.items).Pairwise filter.sort.Before ∧
      ∀ page ∈ pages, page.total = (pages.flatMap Page.items).length := by
  refine ⟨(sortedEntries filter.query filter.sort db.ledger.docs).length, fun fuel hfuel os => ?_⟩
  have hread := (Prog.yields_follow (pageSize_pos _) (alone_fetchEntries filter db fun _ => True)
    (Nat.lt_of_le_of_lt (Nat.sub_le _ 0) hfuel)).always os
  obtain ⟨⟨pages, hpages, hitems, htotal⟩, hdb⟩ := hread
  rw [List.drop_zero] at hitems
  refine ⟨pages, Prod.ext hpages hdb, ?_, ?_, ?_⟩
  · rw [hitems]
    exact sortedEntries_perm _ _ _
  · rw [hitems]
    exact sortedEntries_before hdistinct
  · rw [hitems]
    exact htotal

end query

section transactions
variable (request : ListTransactionsRequest)

/-- The page of the listing from `offset` on. -/
def fetchTransactions (offset : ℕ) : Service (Page Transaction) := do
  let response ← listTransactions { request with offset := some offset }
  pure ⟨response.transactions, response.pagination.total, response.pagination.hasMore⟩

/-- The controller's pages are those of its query. -/
private theorem alone_fetchTransactions (db : Db) (fair : Oracle → Prop) (offset : ℕ) :
    Alone fair (fun r db' => r = .ok (pageOf ((sortedEntries request.filter.query ⟨.timestamp, false⟩
      db.ledger.docs).map Transaction.ofEntry) request.filter.pageSize offset) ∧ db' = db)
      (fetchTransactions request offset) db := by
  intro o ho o' ho'
  obtain ⟨hpage, -⟩ := alone_fetchEntries request.filter db fair offset o ho o' ho'
  rw [pageOf_map]
  exact ⟨congrArg (Except.map (Page.map Transaction.ofEntry)) hpage, rfl⟩

/-- The same of the listing: all its pages are the matching transactions, the newest first. -/
theorem transactions_lossless (db : Db)
    (hdistinct : (db.ledger.docs.map (SortField.key .timestamp)).Nodup) :
    ∃ bound, ∀ fuel, bound < fuel → ∀ os, ∃ pages, ∃ es : List LedgerEntry,
      (Prog.follow (fetchTransactions request) fuel 0).solo exec os db = (.ok (some pages), db) ∧
      es.Perm (db.ledger.docs.filter request.filter.query.accepts) ∧
      es.Pairwise (LedgerSort.Before ⟨.timestamp, false⟩) ∧
      pages.flatMap Page.items = es.map Transaction.ofEntry ∧ ∀ page ∈ pages, page.total = es.length := by
  refine ⟨((sortedEntries request.filter.query ⟨.timestamp, false⟩ db.ledger.docs).map Transaction.ofEntry).length,
    fun fuel hfuel os => ?_⟩
  have hread := (Prog.yields_follow (pageSize_pos _) (alone_fetchTransactions request db fun _ => True)
    (Nat.lt_of_le_of_lt (Nat.sub_le _ 0) hfuel)).always os
  obtain ⟨⟨pages, hpages, hitems, htotal⟩, hdb⟩ := hread
  rw [List.drop_zero] at hitems
  rw [List.length_map] at htotal
  exact ⟨pages, _, Prod.ext hpages hdb, sortedEntries_perm _ _ _, sortedEntries_before hdistinct, hitems, htotal⟩

end transactions

section scenario

/-- Two entries, read one at a time. -/
theorem pagination_lossless_single : ∃ fuel pages,
    (readEntries { limit := some 1 } fuel).solo exec tick reversedDb = (.ok (some pages), reversedDb) ∧
    (pages.flatMap Page.items).length = 2 ∧ ∀ page ∈ pages, page.total = 2 := by
  obtain ⟨bound, hread⟩ := pagination_lossless { limit := some 1 } reversedDb (by decide +kernel)
  obtain ⟨pages, hpages, hperm, -, htotal⟩ := hread (bound + 1) (Nat.lt_succ_self bound) tick
  have hlength : (pages.flatMap Page.items).length = 2 := by
    rw [hperm.length_eq]
    decide +kernel
  exact ⟨bound + 1, pages, hpages, hlength, fun page hpage => (htotal page hpage).trans hlength⟩

end scenario
end RedRoomRewards
