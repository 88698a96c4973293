import RedRoomRewards.Guarantees.ExpiredCredits
import Mathlib.Order.Bounds.Basic

/-! The list of the accounts whose credits are about to expire: what it says of the page of
the ledger that it is made from, and when that is what it would say of the whole ledger. -/
namespace RedRoomRewards
open Process Store LedgerService PointExpirationService

section warning
variable (config : PointExpirationService.Config) (warningPeriodDays : ℤ) (now : Time) (db : Db)

/-- The entries whose date lies in the warning period, each with its date. -/
def expiringCredits (es : List LedgerEntry) : List (LedgerEntry × Time) :=
  es.filterMap fun e => (expiring config warningPeriodDays now e).map (e, ·)

def ofAccount (accountId : String) (cs : List (LedgerEntry × Time)) : List (LedgerEntry × Time) :=
  cs.filter fun c => c.1.accountId = accountId

def Db.availableCredits : List LedgerEntry :=
  db.ledger.docs.filter fun e => e.type = .credit ∧ e.balanceState = .available

/-- The credits that the list is made from. -/
def Db.warningPage : List LedgerEntry :=
  ((sortedEntries warningFilter.query ⟨.timestamp, false⟩ db.ledger.docs).drop 0).take warningFilter.pageSize

/-- The credits that come after them; these are the older ones. -/
def Db.beyondWarningPage : List LedgerEntry :=
  (sortedEntries warningFilter.query ⟨.timestamp, false⟩ db.ledger.docs).drop warningFilter.pageSize

/-- One record for each account of the credits, with their sum and their earliest date. -/
structure WarnsOf (cs : List (LedgerEntry × Time)) (records : List ExpiringPoints) : Prop where
  once : (records.map ExpiringPoints.userId).Nodup
  accounts : ∀ accountId, accountId ∈ records.map ExpiringPoints.userId ↔ ∃ c ∈ cs, c.1.accountId = accountId
  amount : ∀ r ∈ records, r.amountExpiring = ((ofAccount r.userId cs).map fun c => c.1.amount).sum
  date : ∀ r ∈ records, IsLeast {t | ∃ c ∈ ofAccount r.userId cs, c.2 = t} r.expiresAt

/-- More credits make no difference to what is said: in each account they add up to nothing,
and none is earlier than all that are there already. -/
def Immaterial (cs cs' : List (LedgerEntry × Time)) : Prop := ∀ accountId,
  ((ofAccount accountId cs').map fun c => c.1.amount).sum = 0 ∧
    ∀ c ∈ ofAccount accountId cs', ∃ c' ∈ ofAccount accountId cs, c'.2 ≤ c.2

end warning

section records
variable {cs cs' : List (LedgerEntry × Time)} {records : List ExpiringPoints}

private theorem ofAccount_append (accountId : String) :
    ofAccount accountId (cs ++ cs') = ofAccount accountId cs ++ ofAccount accountId cs' := List.filter_append _ _

private theorem mem_ofAccount {accountId : String} {c : LedgerEntry × Time} :
    c ∈ ofAccount accountId cs ↔ c ∈ cs ∧ c.1.accountId = accountId := by
  simp [ofAccount]

/-- The order of the credits makes no difference. -/
theorem WarnsOf.perm (h : WarnsOf cs records) (hperm : cs.Perm cs') : WarnsOf cs' records where
  once := h.once
  accounts := fun accountId => (h.accounts accountId).trans
    (exists_congr fun c => and_congr_left' hperm.mem_iff)
  amount := fun r hr => (h.amount r hr).trans ((hperm.filter _).map _).sum_eq
  date := fun r hr => by
    have hmem : ∀ c, c ∈ ofAccount r.userId cs' ↔ c ∈ ofAccount r.userId cs := fun c => (hperm.filter _).mem_iff.symm
    simpa only [hmem] using h.date r hr

theorem warnsOf_append_iff (h : WarnsOf cs records) : WarnsOf (cs ++ cs') records ↔ Immaterial cs cs' := by
  constructor
  · intro h' accountId
    by_cases hnone : ∃ c ∈ cs', c.1.accountId = accountId
    · obtain ⟨c₀, hc₀, haccount⟩ := hnone
      obtain ⟨r, hr, rfl⟩ := List.mem_map.mp
        ((h'.accounts accountId).mpr ⟨c₀, List.mem_append_right _ hc₀, haccount⟩)
      refine ⟨?_, fun c hc => ?_⟩
      · have hsum := (h.amount r hr).symm.trans (h'.amount r hr)
        rw [ofAccount_append, List.map_append, List.sum_append] at hsum
        exact left_eq_add.mp hsum
      · obtain ⟨c', hc', hdate⟩ := (h.date r hr).1
        refine ⟨c', hc', hdate.le.trans ((h'.date r hr).2 ⟨c, ?_, rfl⟩)⟩
        rw [ofAccount_append]
        exact List.mem_append_right _ hc
    · have hnil : ofAccount accountId cs' = [] :=
        List.filter_eq_nil_iff.mpr fun c hc heq => hnone ⟨c, hc, of_decide_eq_true heq⟩
      rw [hnil]
      exact ⟨rfl, fun c hc => by cases hc⟩
  · intro himmaterial
    refine ⟨h.once, fun accountId => (h.accounts accountId).trans ⟨?_, ?_⟩, fun r hr => ?_, fun r hr => ⟨?_, ?_⟩⟩
    · rintro ⟨c, hc, haccount⟩
      exact ⟨c, List.mem_append_left _ hc, haccount⟩
    · rintro ⟨c, hc, haccount⟩
      rcases List.mem_append.mp hc with hc | hc
      · exact ⟨c, hc, haccount⟩
      · obtain ⟨c', hc', -⟩ := (himmaterial accountId).2 c (mem_ofAccount.mpr ⟨hc, haccount⟩)
        exact ⟨c', mem_ofAccount.mp hc'⟩
    · rw [ofAccount_append, List.map_append, List.sum_append, (himmaterial r.userId).1, add_zero]
      exact h.amount r hr
    · obtain ⟨c, hc, hdate⟩ := (h.date r hr).1
      exact ⟨c, ofAccount_append _ ▸ List.mem_append_left _ hc, hdate⟩
    · rintro t ⟨c, hc, rfl⟩
      rw [ofAccount_append] at hc
      rcases List.mem_append.mp hc with hc | hc
      · exact (h.date r hr).2 ⟨c, hc, rfl⟩
      · obtain ⟨c', hc', hle⟩ := (himmaterial r.userId).2 c hc
        exact ((h.date r hr).2 ⟨c', hc', rfl⟩).trans hle

/-- Where amounts are positive, it takes no more credits to be immaterial. -/
theorem immaterial_iff_of_pos (hpos : ∀ c ∈ cs', 0 < c.1.amount) : Immaterial cs cs' ↔ cs' = [] := by
  constructor
  · intro himmaterial
    apply List.eq_nil_iff_forall_not_mem.mpr
    intro c hc
    have hpos' : ∀ c' ∈ ofAccount c.1.accountId cs', 0 < c'.1.amount := fun c' hc' => hpos c' (mem_ofAccount.mp hc').1
    have hnil := (sum_pos_eq_zero_iff hpos').mp (himmaterial c.1.accountId).1
    exact List.not_mem_nil (hnil ▸ mem_ofAccount.mpr ⟨hc, rfl⟩)
  · rintro rfl accountId
    exact ⟨rfl, fun c hc => by cases hc⟩

end records
section run
variable (config : PointExpirationService.Config) (warningPeriodDays : ℤ)

/-- The loop groups the entries in the warning period by their accounts. -/
private theorem userExpirationMap_eq (now : Time) (es : List LedgerEntry) :
    userExpirationMap config warningPeriodDays now es =
      groupBy (fun c => c.1.accountId) addExpiration (expiringCredits config warningPeriodDays now es) := by
  rw [userExpirationMap, groupBy, expiringCredits, List.foldl_filterMap]
  congr 1
  funext map e
  cases expiring config warningPeriodDays now e <;> rfl

/-- A group has the sum and the earliest date of its credits. -/
private def Summary (cs : List (LedgerEntry × Time)) (value : Expiration) : Prop :=
  value.amount = (cs.map fun c => c.1.amount).sum ∧ IsLeast {t | ∃ c ∈ cs, c.2 = t} value.date

private theorem summary_next {cs : List (LedgerEntry × Time)} {value : Expiration} {c : LedgerEntry × Time}
    (h : Summary cs value) : Summary (cs ++ [c]) (addExpiration (some value) c) := by
  obtain ⟨hamount, ⟨c₀, hc₀, hdate⟩, hleast⟩ := h
  refine ⟨?_, ?_, ?_⟩
  · rw [List.map_append, List.sum_append, ← hamount]
    exact congrArg (value.amount + ·) (add_zero _).symm
  · show ∃ c' ∈ cs ++ [c], c'.2 = if c.2 < value.date then c.2 else value.date
    split
    · exact ⟨c, List.mem_append_right _ List.mem_cons_self, rfl⟩
    · exact ⟨c₀, List.mem_append_left _ hc₀, hdate⟩
  · rintro t ⟨c', hc', rfl⟩
    show (if c.2 < value.date then c.2 else value.date) ≤ c'.2
    rcases List.mem_append.mp hc' with hc' | hc'
    · have hle : value.date ≤ c'.2 := hleast ⟨c', hc', rfl⟩
      split
      · rename_i hlt
        exact hlt.le.trans hle
      · exact hle
    · obtain rfl := List.mem_singleton.mp hc'
      split
      · exact le_rfl
      · rename_i hnot
        exact not_lt.mp hnot

private theorem summary_first (c : LedgerEntry × Time) : Summary [c] (addExpiration none c) := by
  refine ⟨(add_zero _).symm, ⟨c, List.mem_cons_self, rfl⟩, ?_⟩
  rintro t ⟨c', hc', rfl⟩
  rw [List.mem_singleton.mp hc']
  exact le_rfl

/-- What the loop makes of any entries. -/
private theorem warnsOf_map (now : Time) (es : List LedgerEntry) :
    WarnsOf (expiringCredits config warningPeriodDays now es)
      ((userExpirationMap config warningPeriodDays now es).map fun (userId, value) =>
        (⟨userId, value.amount, value.date⟩ : ExpiringPoints)) := by
  rw [userExpirationMap_eq]
  generalize expiringCredits config warningPeriodDays now es = cs
  have hkeys : ((groupBy (fun c => c.1.accountId) addExpiration cs).map fun (userId, value) =>
      (⟨userId, value.amount, value.date⟩ : ExpiringPoints)).map ExpiringPoints.userId =
        (groupBy (fun c => c.1.accountId) addExpiration cs).map Prod.fst := List.map_map
  have hsummary : ∀ r ∈ (groupBy (fun c => c.1.accountId) addExpiration cs).map (fun (userId, value) =>
      (⟨userId, value.amount, value.date⟩ : ExpiringPoints)), ∃ value : Expiration,
        Summary (ofAccount r.userId cs) value ∧ r.amountExpiring = value.amount ∧ r.expiresAt = value.date := by
    intro r hr
    obtain ⟨⟨accountId, value⟩, hmem, rfl⟩ := List.mem_map.mp hr
    exact ⟨value, groupBy_induction summary_first (fun _ _ _ => summary_next) hmem, rfl, rfl⟩
  refine ⟨?_, fun accountId => ?_, fun r hr => ?_, fun r hr => ?_⟩
  · rw [hkeys]
    exact nodup_groupBy cs
  · rw [hkeys]
    exact mem_keys_groupBy
  · obtain ⟨value, hvalue, hamount, -⟩ := hsummary r hr
    exact hamount.trans hvalue.1
  · obtain ⟨value, hvalue, -, hdate⟩ := hsummary r hr
    rw [hdate]
    exact hvalue.2

/-- The page and what comes after it are the available credits. -/
private theorem warningPage_append (db : Db) : (db.warningPage ++ db.beyondWarningPage).Perm db.availableCredits := by
  have hsame : db.ledger.docs.filter warningFilter.query.accepts = db.availableCredits := by
    have hquery : warningFilter.query =
        ⟨none, none, some .credit, none, some .available, none, none, none, none, none, none⟩ := rfl
    apply List.filter_congr
    intro e _
    rw [hquery]
    simp [LedgerQuery.accepts, eq_comm]
  rw [Db.warningPage, Db.beyondWarningPage, List.drop_zero, List.take_append_drop, ← hsame]
  exact sortedEntries_perm _ _ _

end run

section scenario

end scenario
end RedRoomRewards
