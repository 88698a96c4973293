import RedRoomRewards.Alone.Rounding
import RedRoomRewards.Alone.Snapshot
import Mathlib.Tactic.Linarith

/-! Which of a user's expired credits an expiration debits: it looks at one page of the
ledger only. -/
namespace RedRoomRewards
open Process Store Arithmetic LedgerService PointExpirationService

section credits

/-- The amounts of the entries that meet a condition. -/
def amountWhere (p : LedgerEntry → Bool) (es : List LedgerEntry) : ℚ := ((es.filter p).map LedgerEntry.amount).sum

variable (config : PointExpirationService.Config) (userId : String) (now : Time) (db db' : Db)

/-- The credits that come after the page an expiration looks at; these are the older ones. -/
def Db.olderCredits : List LedgerEntry :=
  (sortedEntries (creditFilter userId).query ⟨.timestamp, false⟩ db.ledger.docs).drop (creditFilter userId).pageSize

/-- The last instant whose credits have expired at `now`. -/
def PointExpirationService.Config.expiredUntil : Time := now - config.gracePeriodDays * 24 * 60 * 60 * 1000

/-- The ledger of the user has nothing but available credits, and the wallet has their sum. -/
structure CreditsOnly (w : Wallet) : Prop where
  credits : ∀ e ∈ db.ledger.docs, e.accountId = userId → e.accountType = .user →
    e.type = .credit ∧ e.balanceState = .available ∧ 0 < e.amount
  wallet : db.wallets.find userId = some w
  named : requiredText 128 userId = true
  balance : w.availableBalance = db.bookedIn userId .user .available

/-- The credits of the user are whole numbers, and neither they nor the points in escrow reach
`2 ^ 53` together. -/
structure WholePoints (w : Wallet) : Prop where
  credits : ∀ e ∈ db.entriesOf userId .user .available, Whole e.amount
  balance : w.availableBalance < 2 ^ 53
  escrow : Safe w.escrowBalance

/-- The expiration has debited every credit that has expired, and has left the others. -/
structure ExpiresAll : Prop where
  debited : db'.balances userId = db.balances userId -
    (amountWhere (expired config (config.expiredUntil now)) (db.entriesOf userId .user .available), 0)
  others : (db'.balances userId).1 =
    amountWhere (fun e => !expired config (config.expiredUntil now) e) (db.entriesOf userId .user .available)
  nothing : (∀ e ∈ db.entriesOf userId .user .available, expired config (config.expiredUntil now) e = false) →
    db' = db

end credits

section amounts
variable {config : PointExpirationService.Config} {date : Time} {es es' : List LedgerEntry} (p : LedgerEntry → Bool)

/-- The loop goes over the amounts of the entries that have expired. -/
theorem totalExpired_foldl (es : List LedgerEntry) : totalExpired config date es =
    ((es.filter (expired config date)).map LedgerEntry.amount).foldl (fun total x => config.round (total + x)) 0 := by
  rw [totalExpired, List.foldl_map, List.foldl_filter]

/-- The loop adds up the amounts of the entries that have expired. -/
theorem totalExpired_eq (hround : config.round = id) (es : List LedgerEntry) :
    totalExpired config date es = amountWhere (expired config date) es := by
  have hloop : ∀ (xs : List ℚ) total, xs.foldl (fun total x => id (total + x)) total = total + xs.sum := by
    intro xs
    induction xs with
    | nil => exact fun total => (add_zero total).symm
    | cons x xs ih =>
      intro total
      rw [List.foldl_cons, ih, List.sum_cons, id, add_assoc]
  rw [totalExpired_foldl, hround, hloop, zero_add, amountWhere]

theorem amountWhere_append : amountWhere p (es ++ es') = amountWhere p es + amountWhere p es' := by
  simp only [amountWhere, List.filter_append, List.map_append, List.sum_append]

theorem amountWhere_perm (h : es.Perm es') : amountWhere p es = amountWhere p es' :=
  ((h.filter p).map LedgerEntry.amount).sum_eq

/-- What meets a condition and what does not make up the whole. -/
theorem amountWhere_add_not (es : List LedgerEntry) :
    amountWhere p es + amountWhere (fun e => !p e) es = (es.map LedgerEntry.amount).sum := by
  rw [amountWhere, amountWhere, ← List.sum_append, ← List.map_append]
  exact ((List.filter_append_perm p es).map LedgerEntry.amount).sum_eq

theorem amountWhere_nonneg (hes : ∀ e ∈ es, 0 < e.amount) : 0 ≤ amountWhere p es := by
  apply List.sum_nonneg
  intro x hx
  obtain ⟨e, he, rfl⟩ := List.mem_map.mp hx
  exact (hes e (List.mem_filter.mp he).1).le

/-- Positive amounts add up to nothing only where there are none. -/
theorem sum_pos_eq_zero_iff {α : Type} {f : α → ℚ} {xs : List α} (hpos : ∀ x ∈ xs, 0 < f x) :
    (xs.map f).sum = 0 ↔ xs = [] := by
  constructor
  · intro hsum
    by_contra hne
    have hsome : xs.map f ≠ [] := fun hnil => hne (List.map_eq_nil_iff.mp hnil)
    have hall : ∀ a ∈ xs.map f, 0 < a := by
      intro a ha
      obtain ⟨x, hx, rfl⟩ := List.mem_map.mp ha
      exact hpos x hx
    exact (List.sum_pos _ hall hsome).ne' hsum
  · rintro rfl
    rfl

theorem amountWhere_eq_zero_iff (hes : ∀ e ∈ es, 0 < e.amount) : amountWhere p es = 0 ↔ ∀ e ∈ es, p e = false := by
  have hpos : ∀ e ∈ es.filter p, 0 < e.amount := fun e he => hes e (List.mem_filter.mp he).1
  rw [amountWhere, sum_pos_eq_zero_iff hpos, List.filter_eq_nil_iff]
  exact forall₂_congr fun e _ => iff_of_eq (Bool.not_eq_true (p e))

end amounts

section page
variable {config : PointExpirationService.Config} {userId requestId : String} {db : Db} {w : Wallet}

private theorem creditFilter_accepts (hnamed : requiredText 128 userId = true) (e : LedgerEntry) :
    (creditFilter userId).query.accepts e = true ↔
      e.accountId = userId ∧ e.accountType = .user ∧ e.type = .credit ∧ e.balanceState = .available := by
  have hnonempty : userId ≠ "" := fun hempty => by simp [hempty, requiredText] at hnamed
  have haccount : (creditFilter userId).query.accountId = some userId := by
    show Option.filter (fun id => decide (id ≠ "")) (some userId) = some userId
    simp [hnonempty]
  have hquery : (creditFilter userId).query = ⟨(creditFilter userId).query.accountId, some .user, some .credit, none,
      some .available, none, none, none, none, none, none⟩ := rfl
  rw [hquery, haccount]
  simp only [LedgerQuery.accepts, Option.all_some, Option.all_none, Bool.and_true, Bool.and_eq_true,
    decide_eq_true_eq, and_assoc]
  exact and_congr eq_comm (and_congr eq_comm (and_congr eq_comm eq_comm))

/-- The page and what comes after it are the credits of the user. -/
private theorem creditPage_append_older (h : CreditsOnly userId db w) :
    (db.creditPage userId ++ db.olderCredits userId).Perm (db.entriesOf userId .user .available) := by
  have hsame : db.ledger.docs.filter (creditFilter userId).query.accepts = db.entriesOf userId .user .available := by
    refine List.filter_congr fun e he => Bool.eq_iff_iff.mpr ((creditFilter_accepts h.named e).trans ?_)
    rw [decide_eq_true_eq]
    constructor
    · exact fun ⟨haccount, htype, _, hstate⟩ => ⟨haccount, htype, hstate⟩
    · exact fun ⟨haccount, htype, hstate⟩ => ⟨haccount, htype, (h.credits e he haccount htype).1, hstate⟩
  rw [Db.creditPage, Db.olderCredits, List.drop_zero, List.take_append_drop, ← hsame]
  exact sortedEntries_perm _ _ _

/-- An expiration that has counted no more than the wallet has debits what it has counted. -/
private theorem alone_debited {fair : Oracle → Prop} {total : ℚ} (hw : db.wallets.find userId = some w)
    (hnonneg : 0 ≤ total) (hle : total ≤ w.availableBalance) :
    Alone fair (fun _ db' => db'.balances userId = db.balances userId - (total, 0) ∧ (total = 0 → db' = db))
      (expireTotal config userId requestId total) db := by
  refine alone_expireTotal (fun hstop => ?_) fun w' hw' hpos _ => ?_
  · have hzero : total = 0 := by
      by_contra hne
      have hpos : 0 < total := lt_of_le_of_ne hnonneg (Ne.symm hne)
      exact hstop w hw ⟨hpos, lt_of_lt_of_le hpos hle⟩
    have hsame : db.balances userId = db.balances userId - (total, 0) := by
      rw [hzero]
      exact (sub_zero _).symm
    exact ⟨⟨hsame, fun _ => rfl⟩, fun _ => ⟨hsame, fun _ => rfl⟩⟩
  · obtain rfl : w = w' := Option.some.inj (hw.symm.trans hw')
    rw [min_eq_left hle]
    have hposted : ∀ db' : Db, db'.wallets = (db.posting db.wallets userId (-total)).wallets →
        db'.balances userId = db.balances userId - (total, 0) ∧ (total = 0 → db' = db) := by
      intro db' hwallets
      refine ⟨?_, fun hzero => absurd hzero hpos.ne'⟩
      rw [Db.balances, hwallets, Db.posting_find _ hw, Db.balances, hw]
      exact Prod.ext (sub_eq_add_neg _ _).symm ((add_zero _).trans (sub_zero _).symm)
    exact alone_booking (fun _ _ _ _ _ => hposted _ rfl) (fun _ _ _ _ _ => hposted _ rfl) fun _ => hposted _ rfl

private theorem credits_positive (h : CreditsOnly userId db w) :
    ∀ e ∈ db.entriesOf userId .user .available, 0 < e.amount := by
  intro e he
  obtain ⟨hmem, hbucket⟩ := List.mem_filter.mp he
  obtain ⟨haccount, htype, -⟩ := of_decide_eq_true hbucket
  exact (h.credits e hmem haccount htype).2.2

variable (config) (requestId)

/-- What is counted on the page and what is left out. -/
private theorem page_add_older (h : CreditsOnly userId db w) (p : LedgerEntry → Bool) :
    amountWhere p (db.creditPage userId) + amountWhere p (db.olderCredits userId) =
      amountWhere p (db.entriesOf userId .user .available) := by
  rw [← amountWhere_perm _ (creditPage_append_older h), amountWhere_append]

private theorem page_positive (h : CreditsOnly userId db w) : ∀ e ∈ db.creditPage userId, 0 < e.amount := fun e he =>
  credits_positive h e ((creditPage_append_older h).mem_iff.mp (List.mem_append_left _ he))

private theorem older_positive (h : CreditsOnly userId db w) : ∀ e ∈ db.olderCredits userId, 0 < e.amount := fun e he =>
  credits_positive h e ((creditPage_append_older h).mem_iff.mp (List.mem_append_right _ he))

private theorem page_le (h : CreditsOnly userId db w) (p : LedgerEntry → Bool) :
    amountWhere p (db.creditPage userId) ≤ w.availableBalance := by
  have hsplit := amountWhere_add_not p (db.entriesOf userId .user .available)
  have holder := amountWhere_nonneg p (older_positive h)
  have hothers := amountWhere_nonneg (fun e => !p e) (credits_positive h)
  have hbalance : w.availableBalance = ((db.entriesOf userId .user .available).map LedgerEntry.amount).sum := h.balance
  linarith [page_add_older h p]

/-- Of whole points the total is not rounded. -/
private theorem expiredAt_eq (h : CreditsOnly userId db w) (hwhole : WholePoints userId db w) (now : Time) :
    db.expiredAt config.inDoubles userId now =
      amountWhere (expired config (config.expiredUntil now)) (db.creditPage userId) := by
  have hcredits : ∀ x ∈ ((db.creditPage userId).filter (expired config (config.expiredUntil now))).map LedgerEntry.amount,
      Whole x ∧ |x| = x := by
    intro x hx
    obtain ⟨e, he, rfl⟩ := List.mem_map.mp hx
    have hpage := (List.mem_filter.mp he).1
    exact ⟨hwhole.credits e ((creditPage_append_older h).mem_iff.mp (List.mem_append_left _ hpage)),
      abs_of_pos (page_positive h e hpage)⟩
  have hsum := page_le h (expired config (config.expiredUntil now))
  have hnothing : Whole 0 := by decide
  refine (totalExpired_foldl _).trans ((foldl_double_eq (fun x hx => (hcredits x hx).1) hnothing ?_).trans
    (zero_add _))
  rw [List.map_congr_left fun x hx => (hcredits x hx).2, List.map_id', abs_zero, zero_add]
  exact hsum.trans_lt hwhole.balance

/-- Of whole points nothing is rounded that the expiration stores. -/
private theorem unrounded_expireTotal {total : ℚ} (hw : db.wallets.find userId = some w) (hescrow : Safe w.escrowBalance)
    (hbalance : Whole w.availableBalance ∧ w.availableBalance < 2 ^ 53) (htotal : Whole total) (hnonneg : 0 ≤ total)
    (hle : total ≤ w.availableBalance) (os : ℕ → Oracle) :
    Unrounded (expireTotal config userId requestId total) os db := by
  have hdouble : ∀ x : ℚ, Whole x → |x| ≤ w.availableBalance → double x = x := fun x hx hbound =>
    Safe.double_eq ⟨hx, hbound.trans_lt hbalance.2⟩
  have htaken := hdouble (-total) htotal.neg (by rwa [abs_neg, abs_of_nonneg hnonneg])
  have hbefore := hdouble w.availableBalance hbalance.1 (abs_of_nonneg (hnonneg.trans hle)).le
  have hleft := hdouble (w.availableBalance - total) (hbalance.1.sub htotal)
    (by rw [abs_of_nonneg (sub_nonneg.mpr hle)]; linarith)
  unfold expireTotal
  split
  · trivial
  · refine ⟨trivial, ?_⟩
    rw [exec, hw]
    change Unrounded (if min total w.availableBalance ≤ 0 then _ else _) _ db
    rw [min_eq_left hle]
    split
    · trivial
    · refine unrounded_updateWallet hw (by simp [WalletFilter.accepts]) ?_ fun os db => ?_
      · simp only [WalletUpdate.apply, Wallet.rounded, ← sub_eq_add_neg, hleft, add_zero, hescrow.double_eq]
      · change Unrounded (booking config.ledger (expirationEntry config userId requestId w total) _) os db
        refine unrounded_booking (fun id t => ⟨?_, ?_, ?_⟩) os db
        · exact htaken
        · exact hbefore
        · exact hleft

/-- What an expiration has done that runs alone. -/
private theorem solo_debited (h : CreditsOnly userId db w) (hwhole : WholePoints userId db w) (os : ℕ → Oracle) :
    ((processUserExpiration config.inDoubles userId requestId).solo (execWith double) os db).2.balances userId =
        db.balances userId -
          (amountWhere (expired config (config.expiredUntil (os 2).now)) (db.creditPage userId), 0) ∧
      (amountWhere (expired config (config.expiredUntil (os 2).now)) (db.creditPage userId) = 0 →
        ((processUserExpiration config.inDoubles userId requestId).solo (execWith double) os db).2 = db) := by
  have hnonneg := amountWhere_nonneg (expired config (config.expiredUntil (os 2).now)) (page_positive h)
  have hle := page_le h (expired config (config.expiredUntil (os 2).now))
  have htotal : Whole (amountWhere (expired config (config.expiredUntil (os 2).now)) (db.creditPage userId)) := by
    apply whole_sum
    intro x hx
    obtain ⟨e, he, rfl⟩ := List.mem_map.mp hx
    exact hwhole.credits e ((creditPage_append_older h).mem_iff.mp
      (List.mem_append_left _ (List.mem_filter.mp he).1))
  have hbalance : Whole w.availableBalance := by
    rw [h.balance]
    apply whole_sum
    intro x hx
    obtain ⟨e, he, rfl⟩ := List.mem_map.mp hx
    exact hwhole.credits e he
  have hsolo : (processUserExpiration config.inDoubles userId requestId).solo (execWith double) os db =
      (expireTotal config.inDoubles userId requestId
        (amountWhere (expired config (config.expiredUntil (os 2).now)) (db.creditPage userId))).solo exec
          (fun n => os (n + 3)) db := by
    rw [← expiredAt_eq config h hwhole, ← solo_processUserExpiration]
    refine Unrounded.solo_eq ⟨trivial, trivial, trivial, ?_⟩
    have halong := unrounded_expireTotal config.inDoubles requestId h.wallet hwhole.escrow ⟨hbalance, hwhole.balance⟩ htotal
      hnonneg hle fun n => os (n + 3)
    rw [← expiredAt_eq config h hwhole] at halong
    exact halong
  rw [hsolo]
  exact (alone_debited h.wallet hnonneg hle).always fun n => os (n + 3)

/-- In whole points an expiration that runs alone debits every credit that has expired, and no
other, exactly if none that has expired is older than the page. Identifiers are trimmed. -/
theorem expires_all_iff (h : CreditsOnly userId db w) (hwhole : WholePoints userId db w) (os : ℕ → Oracle) :
    ExpiresAll config userId (os 2).now db
        ((processUserExpiration config.inDoubles userId requestId).solo (execWith double) os db).2 ↔
      ∀ e ∈ db.olderCredits userId, expired config (config.expiredUntil (os 2).now) e = false := by
  have hpage := page_add_older h (expired config (config.expiredUntil (os 2).now))
  have hsplit := amountWhere_add_not (expired config (config.expiredUntil (os 2).now))
    (db.entriesOf userId .user .available)
  have hbalance : w.availableBalance = ((db.entriesOf userId .user .available).map LedgerEntry.amount).sum := h.balance
  have hbalances : (db.balances userId).1 = w.availableBalance := by
    rw [Db.balances, h.wallet]
    rfl
  obtain ⟨hdebited, hkept⟩ := solo_debited config requestId h hwhole os
  rw [← amountWhere_eq_zero_iff _ (older_positive h)]
  constructor
  · intro hall
    have hsame := congrArg Prod.fst (hdebited.symm.trans hall.debited)
    simp only [Prod.fst_sub] at hsame
    linarith
  · intro hzero
    refine ⟨?_, ?_, fun hnone => hkept ?_⟩
    · rw [hdebited, ← hpage, hzero, add_zero]
    · rw [hdebited, Prod.fst_sub]
      linarith
    · have hnothing := (amountWhere_eq_zero_iff _ (credits_positive h)).mpr hnone
      have hpositive := amountWhere_nonneg (expired config (config.expiredUntil (os 2).now)) (page_positive h)
      linarith

end page

section scenario

/-- Reads the dates of the sample credits. -/
def creditDate : Json → Option Time
  | .str "1970-01-01T00:00:00.001Z" => some 1
  | .str "2100-01-01T00:00:00.000Z" => some 4102444800000
  | _ => none

/-- The `n`-th credit of 1 point. -/
def sampleCredit (expiresAt : String) (n : ℕ) : LedgerEntry where
  entryId := String.ofList (List.replicate (n + 1) 'e')
  transactionId := "transaction-1"
  accountId := "user-1"
  accountType := .user
  amount := 1
  type := .credit
  balanceState := .available
  stateTransition := "→available"
  reason := .promotionalAward
  idempotencyKey := String.ofList (List.replicate (n + 1) 'k')
  requestId := "request-1"
  balanceBefore := n
  balanceAfter := n + 1
  timestamp := 0
  currency := "points"
  metadata := some [("expiresAt", .str expiresAt)]
  escrowId := none
  queueItemId := none
  featureType := none
  correlationId := some "transaction-1"
  tenantId := none

private theorem replicate_nodup (c : Char) (n : ℕ) :
    ((List.range n).map fun i => String.ofList (List.replicate (i + 1) c)).Nodup := by
  refine List.Nodup.map (fun i j h => ?_) List.nodup_range
  have hlength := congrArg List.length (String.ofList_injective h)
  simpa using hlength

/-- A user with `n` credits of 1 point. -/
def creditsDb (expiresAt : ℕ → String) (n : ℕ) : Db :=
  { Db.empty with
    wallets := Collection.empty.insert ⟨"user-1", n, 0, "points", 0⟩
    ledger := ⟨(List.range n).map fun i => sampleCredit (expiresAt i) i, by
      rw [List.map_map]
      exact replicate_nodup 'e' n, by
      rw [List.map_map]
      exact replicate_nodup 'k' n⟩ }

private theorem creditsDb_creditsOnly (expiresAt : ℕ → String) (n : ℕ) :
    CreditsOnly "user-1" (creditsDb expiresAt n) ⟨"user-1", n, 0, "points", 0⟩ where
  credits := by
    intro e he _ _
    obtain ⟨i, -, rfl⟩ := List.mem_map.mp he
    exact ⟨rfl, rfl, one_pos⟩
  wallet := rfl
  named := by decide +kernel
  balance := by
    have hall : (creditsDb expiresAt n).entriesOf "user-1" .user .available =
        (List.range n).map fun i => sampleCredit (expiresAt i) i := by
      apply List.filter_eq_self.mpr
      intro e he
      obtain ⟨i, -, rfl⟩ := List.mem_map.mp he
      exact decide_eq_true ⟨rfl, rfl, rfl⟩
    rw [Db.bookedIn, hall, List.map_map]
    have hones : LedgerEntry.amount ∘ (fun i => sampleCredit (expiresAt i) i) = fun _ => 1 := rfl
    rw [hones, List.map_const', List.length_range, List.sum_replicate, nsmul_one]

def expiryConfig : PointExpirationService.Config := PointExpirationService.defaultConfig creditDate

/-- Of three credits the first has expired. -/
def threeCredits : Db :=
  creditsDb (fun i => if i = 0 then "1970-01-01T00:00:00.001Z" else "2100-01-01T00:00:00.000Z") 3

/-- All of 101 credits have expired. -/
def manyCredits : Db := creditsDb (fun _ => "1970-01-01T00:00:00.001Z") 101

theorem expires_all_of_three : ExpiresAll expiryConfig "user-1" 2 threeCredits
    ((processUserExpiration expiryConfig.inDoubles "user-1" "request-1").solo (execWith double) tick threeCredits).2 := by
  apply (expires_all_iff _ _ (creditsDb_creditsOnly _ 3) ⟨by decide +kernel, by decide +kernel,
    ⟨by decide +kernel, by decide +kernel⟩⟩ tick).mpr
  intro e he
  have hnone : threeCredits.olderCredits "user-1" = [] := List.drop_eq_nil_of_le (by decide +kernel)
  rw [threeCredits] at hnone
  rw [hnone] at he
  cases he

/-- The expiration leaves one of the 101 credits in the wallet. -/
theorem expired_credit_left : CreditsOnly "user-1" manyCredits ⟨"user-1", 101, 0, "points", 0⟩ ∧
    ¬ ExpiresAll expiryConfig "user-1" 2 manyCredits
      ((processUserExpiration expiryConfig.inDoubles "user-1" "request-1").solo (execWith double) tick manyCredits).2 := by
  refine ⟨creditsDb_creditsOnly _ 101, fun h => ?_⟩
  have hleft : (((processUserExpiration expiryConfig.inDoubles "user-1" "request-1").solo (execWith double) tick
      manyCredits).2.balances "user-1").1 = 1 := by decide +kernel
  have hothers : amountWhere (fun e => !expired expiryConfig (expiryConfig.expiredUntil 2) e)
      (manyCredits.entriesOf "user-1" .user .available) = 0 := by decide +kernel
  exact absurd (hleft.symm.trans (h.others.trans hothers)) one_ne_zero

end scenario
end RedRoomRewards
