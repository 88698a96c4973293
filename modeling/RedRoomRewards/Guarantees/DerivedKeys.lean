import RedRoomRewards.Ingestion.Controller
import RedRoomRewards.Protocol.Submissions
import RedRoomRewards.Service.Dates

/-! The idempotency keys that the services make of ids: which calls write their ledger
entries under the same key. -/
namespace RedRoomRewards
open Process Store Text

/-- A call that makes its own key, with what it is about. -/
inductive DerivedCall where
  | signupBonus (userId : String)
  | referralBonus (referrerId referredUserId : String)
  | promotionalPoints (promotionId userId : String)
  | adminCredit (adminId userId requestId : String)
  | manualAdjustment (adminId userId requestId : String)
  | expiration (userId : String) (day : ℤ)
  | redemption (userId queueItemId : String)
  deriving DecidableEq

/-- What a schema leaves of the end of a text. -/
def trimmedEnd (s : String) : List Char := s.toList.rdropWhile jsSpace

namespace DerivedCall

def key : DerivedCall → String
  | signupBonus userId => "signup-bonus-" ++ userId
  | referralBonus referrerId referredUserId => "referral-bonus-" ++ referrerId ++ "-" ++ referredUserId
  | promotionalPoints promotionId userId => "promo-" ++ promotionId ++ "-" ++ userId
  | adminCredit adminId userId requestId => "admin-credit-" ++ adminId ++ "-" ++ userId ++ "-" ++ requestId
  | manualAdjustment adminId userId requestId => "admin-adjustment-" ++ adminId ++ "-" ++ userId ++ "-" ++ requestId
  | expiration userId day => "expiration-" ++ userId ++ "-" ++ Time.isoDate (day * 86400000)
  | redemption userId queueItemId => "redemption-" ++ userId ++ "-" ++ queueItemId

/-- What is put behind the key; a redemption is the wallet's. -/
def suffixes : DerivedCall → List String
  | redemption .. => ["_debit", "_credit", "_refund", "_settle"]
  | _ => [""]

/-- The keys of its ledger entries, as they are stored. -/
def ledgerKeys (c : DerivedCall) : List String := c.suffixes.map fun suffix => trim (c.key ++ suffix)

/-- The calls are of the same kind, and their ids, cut at every `-`, have the same pieces. -/
def CutsAlike : DerivedCall → DerivedCall → Prop
  | signupBonus u, signupBonus u' => trimmedEnd u = trimmedEnd u'
  | referralBonus a b, referralBonus a' b' => pieces '-' [a.toList, trimmedEnd b] = pieces '-' [a'.toList, trimmedEnd b']
  | promotionalPoints p u, promotionalPoints p' u' =>
    pieces '-' [p.toList, trimmedEnd u] = pieces '-' [p'.toList, trimmedEnd u']
  | adminCredit a u r, adminCredit a' u' r' =>
    pieces '-' [a.toList, u.toList, trimmedEnd r] = pieces '-' [a'.toList, u'.toList, trimmedEnd r']
  | manualAdjustment a u r, manualAdjustment a' u' r' =>
    pieces '-' [a.toList, u.toList, trimmedEnd r] = pieces '-' [a'.toList, u'.toList, trimmedEnd r']
  | redemption u q, redemption u' q' => pieces '-' [u.toList, q.toList] = pieces '-' [u'.toList, q'.toList]
  | _, _ => False

section keys

/-- The text that the key of a call begins with. -/
private def kind : DerivedCall → String
  | signupBonus .. => "signup-bonus"
  | referralBonus .. => "referral-bonus"
  | promotionalPoints .. => "promo"
  | adminCredit .. => "admin-credit"
  | manualAdjustment .. => "admin-adjustment"
  | expiration .. => "expiration"
  | redemption .. => "redemption"

/-- The ids before the last one. -/
private def firstIds : DerivedCall → List (List Char)
  | signupBonus _ => []
  | referralBonus a _ => [a.toList]
  | promotionalPoints p _ => [p.toList]
  | adminCredit a u _ => [a.toList, u.toList]
  | manualAdjustment a u _ => [a.toList, u.toList]
  | expiration u _ => [u.toList]
  | redemption u _ => [u.toList]

private def lastId : DerivedCall → String
  | signupBonus u => u
  | referralBonus _ b => b
  | promotionalPoints _ u => u
  | adminCredit _ _ r => r
  | manualAdjustment _ _ r => r
  | expiration _ day => Time.isoDate (day * 86400000)
  | redemption _ q => q

/-- The ids, as a stored key has them. -/
private def storedIds (c : DerivedCall) : List (List Char) :=
  c.firstIds ++ [match c with
    | redemption _ q => q.toList
    | c => trimmedEnd c.lastId]

variable {c c' : DerivedCall}

private theorem toList_key : c.key.toList = c.kind.toList ++ c.firstIds.flatMap ('-' :: ·) ++ '-' :: c.lastId.toList := by
  cases c with
  | signupBonus u =>
    show ("signup-bonus-" ++ u).toList = _
    simp [kind, firstIds, lastId]
  | referralBonus a b =>
    show ("referral-bonus-" ++ a ++ "-" ++ b).toList = _
    simp [kind, firstIds, lastId]
  | promotionalPoints p u =>
    show ("promo-" ++ p ++ "-" ++ u).toList = _
    simp [kind, firstIds, lastId]
  | adminCredit a u r =>
    show ("admin-credit-" ++ a ++ "-" ++ u ++ "-" ++ r).toList = _
    simp [kind, firstIds, lastId]
  | manualAdjustment a u r =>
    show ("admin-adjustment-" ++ a ++ "-" ++ u ++ "-" ++ r).toList = _
    simp [kind, firstIds, lastId]
  | expiration u day =>
    show ("expiration-" ++ u ++ "-" ++ Time.isoDate (day * 86400000)).toList = _
    simp [kind, firstIds, lastId]
  | redemption u q =>
    show ("redemption-" ++ u ++ "-" ++ q).toList = _
    simp [kind, firstIds, lastId]

/-- A text that begins with no space loses what follows a mark in it in trailing spaces. -/
private theorem toList_trim {s : String} {a mark : Char} {l r : List Char} (ha : jsSpace a = false) (hmark : jsSpace mark = false)
    (hs : s.toList = a :: l ++ mark :: r) : (trim s).toList = a :: l ++ mark :: r.rdropWhile jsSpace := by
  have hhead : s.toList.dropWhile jsSpace = s.toList := by
    rw [hs, List.cons_append, List.dropWhile_cons_of_neg (by simp [ha])]
  unfold trim
  rw [String.toList_ofList, hhead, hs]
  exact rdropWhile_append_cons hmark (a :: l) r

private def kinds : List String :=
  ["signup-bonus", "referral-bonus", "promo", "admin-credit", "admin-adjustment", "expiration", "redemption"]

private theorem kind_mem (c : DerivedCall) : c.kind ∈ kinds := by
  cases c <;> simp [kind, kinds]

private theorem kind_head (c : DerivedCall) : ∃ a l, c.kind.toList = a :: l ∧ jsSpace a = false := by
  have hhead : ∀ kind ∈ kinds, kind.toList.head?.any (fun a => !jsSpace a) = true := by decide
  have hhead := hhead c.kind (kind_mem c)
  cases hkind : c.kind.toList with
  | nil =>
    rw [hkind] at hhead
    cases hhead
  | cons a l =>
    rw [hkind] at hhead
    exact ⟨a, l, rfl, by simpa using hhead⟩

private theorem suffix_kept {suffix : String} (h : suffix ∈ ["_debit", "_credit", "_refund", "_settle"]) :
    ∃ rest, suffix.toList = '_' :: rest ∧ rest.rdropWhile jsSpace = rest := by
  simp only [List.mem_cons, List.not_mem_nil, or_false] at h
  rcases h with rfl | rfl | rfl | rfl <;> exact ⟨_, rfl, by decide⟩

/-- A stored key: the kind of the call, its ids, and the suffix. -/
private theorem toList_ledgerKey {suffix : String} (h : suffix ∈ c.suffixes) :
    (trim (c.key ++ suffix)).toList =
      c.kind.toList ++ '-' :: ['-'].intercalate c.storedIds ++ suffix.toList := by
  obtain ⟨a, l, hkind, ha⟩ := kind_head c
  unfold storedIds
  rw [joined_concat, hkind]
  have hplain : ∀ c : DerivedCall, c.kind.toList = a :: l →
      (trim (c.key ++ "")).toList =
        a :: l ++ (c.firstIds.flatMap ('-' :: ·) ++ '-' :: trimmedEnd c.lastId) ++ "".toList := by
    intro c hkind
    have hkey : (c.key ++ "").toList = a :: (l ++ c.firstIds.flatMap ('-' :: ·)) ++ '-' :: c.lastId.toList := by
      rw [String.append_empty, toList_key, hkind]
      rfl
    rw [toList_trim ha (by decide) hkey]
    simp [trimmedEnd]
  cases c with
  | redemption u q =>
    obtain ⟨rest, hrest, hkept⟩ := suffix_kept h
    have hkey : ((redemption u q).key ++ suffix).toList =
        a :: (l ++ (redemption u q).firstIds.flatMap ('-' :: ·) ++ '-' :: q.toList) ++ '_' :: rest := by
      rw [String.toList_append, toList_key, hkind, hrest]
      rfl
    rw [toList_trim ha (by decide) hkey, hkept, hrest]
    simp
  | _ =>
    obtain rfl := List.mem_singleton.mp h
    exact hplain _ hkind

private theorem kinds_apart : ∀ kind ∈ kinds, ∀ kind' ∈ kinds, kind ≠ kind' → ¬ kind.toList <+: kind'.toList := by
  decide

private theorem suffixes_apart : ∀ suffix ∈ ["_debit", "_credit", "_refund", "_settle"],
    ∀ suffix' ∈ ["_debit", "_credit", "_refund", "_settle"], suffix ≠ suffix' → ¬ suffix.toList <:+ suffix'.toList := by
  decide

private theorem suffixes_of_kind (h : c.kind = c'.kind) : c.suffixes = c'.suffixes := by
  cases c <;> cases c' <;> first | rfl | simp [kind] at h

/-- Stored keys of two calls are the same exactly if their kinds are, the ids as they are
stored, and the suffixes. -/
private theorem ledgerKey_eq_iff {suffix suffix' : String} (h : suffix ∈ c.suffixes) (h' : suffix' ∈ c'.suffixes) :
    trim (c.key ++ suffix) = trim (c'.key ++ suffix') ↔
      c.kind = c'.kind ∧ ['-'].intercalate c.storedIds = ['-'].intercalate c'.storedIds ∧ suffix = suffix' := by
  rw [← String.toList_inj, toList_ledgerKey h, toList_ledgerKey h']
  constructor
  · intro heq
    have hkind : c.kind = c'.kind := by
      by_contra hne
      rw [List.append_assoc, List.append_assoc] at heq
      exact append_ne_of_not_prefix (kinds_apart _ (kind_mem c) _ (kind_mem c') hne)
        (kinds_apart _ (kind_mem c') _ (kind_mem c) (Ne.symm hne)) _ _ heq
    rw [← suffixes_of_kind hkind] at h'
    have hsuffix : suffix = suffix' := by
      by_contra hne
      have hapart : ¬ suffix.toList <:+ suffix'.toList ∧ ¬ suffix'.toList <:+ suffix.toList := by
        cases c with
        | redemption => exact ⟨suffixes_apart _ h _ h' hne, suffixes_apart _ h' _ h (Ne.symm hne)⟩
        | _ => exact absurd ((List.mem_singleton.mp h).trans (List.mem_singleton.mp h').symm) hne
      exact append_ne_of_not_suffix hapart.1 hapart.2 _ _ heq
    rw [hkind, hsuffix] at heq
    have hids := List.append_cancel_left (List.append_cancel_right heq)
    exact ⟨hkind, (List.cons.inj hids).2, hsuffix⟩
  · rintro ⟨hkind, hids, rfl⟩
    rw [hkind, hids]

private theorem date_kept (t : Time) : trimmedEnd t.isoDate = t.isoDate.toList := by
  have hdigit : ∀ a : Char, a.isDigit = true → jsSpace a = false := by
    intro a ha
    have hrange : 48 ≤ a.toNat ∧ a.toNat ≤ 57 := by simpa [Char.isDigit, UInt32.le_iff_toNat_le] using ha
    rw [jsSpace, Bool.or_eq_false_iff, decide_eq_false_iff_not, Bool.and_eq_false_iff, decide_eq_false_iff_not,
      decide_eq_false_iff_not]
    constructor
    · intro hmem
      simp only [List.mem_cons, List.not_mem_nil, or_false] at hmem
      omega
    · omega
  apply List.rdropWhile_eq_self_iff.mpr
  intro hne
  rcases Time.isoDate_chars t _ (List.getLast_mem hne) with h | h | h
  · rw [hdigit _ h]
    exact Bool.false_ne_true
  · rw [h]
    decide
  · rw [h]
    decide

private theorem cutsAlike_iff (hdifferent : c ≠ c') :
    c.CutsAlike c' ↔ c.kind = c'.kind ∧ ['-'].intercalate c.storedIds = ['-'].intercalate c'.storedIds := by
  have hpieces : ∀ ids ids' : List (List Char), ids ≠ [] → ids' ≠ [] → ∀ kind : String,
      (pieces '-' ids = pieces '-' ids' ↔ kind = kind ∧ ['-'].intercalate ids = ['-'].intercalate ids') := by
    intro ids ids' hids hids' kind
    rw [joined_eq_iff hids hids']
    exact ⟨fun h => ⟨rfl, h⟩, fun h => h.2⟩
  have hkinds : ∀ {c c' : DerivedCall}, c.kind ≠ c'.kind →
      (False ↔ c.kind = c'.kind ∧ ['-'].intercalate c.storedIds = ['-'].intercalate c'.storedIds) :=
    fun hne => ⟨False.elim, fun h => hne h.1⟩
  cases c with
  | signupBonus u =>
    cases c' with
    | signupBonus u' => simp [CutsAlike, kind, storedIds, firstIds, lastId]
    | _ => exact hkinds (by simp [kind])
  | referralBonus a b =>
    cases c' with
    | referralBonus a' b' => exact hpieces [_, _] [_, _] (by simp) (by simp) _
    | _ => exact hkinds (by simp [kind])
  | promotionalPoints p u =>
    cases c' with
    | promotionalPoints p' u' => exact hpieces [_, _] [_, _] (by simp) (by simp) _
    | _ => exact hkinds (by simp [kind])
  | adminCredit a u r =>
    cases c' with
    | adminCredit a' u' r' => exact hpieces [_, _, _] [_, _, _] (by simp) (by simp) _
    | _ => exact hkinds (by simp [kind])
  | manualAdjustment a u r =>
    cases c' with
    | manualAdjustment a' u' r' => exact hpieces [_, _, _] [_, _, _] (by simp) (by simp) _
    | _ => exact hkinds (by simp [kind])
  | expiration u day =>
    cases c' with
    | expiration u' day' =>
      refine ⟨False.elim, fun h => hdifferent ?_⟩
      have hids : u.toList ++ '-' :: trimmedEnd (Time.isoDate (day * 86400000)) =
          u'.toList ++ '-' :: trimmedEnd (Time.isoDate (day' * 86400000)) := by
        simpa [storedIds, firstIds, lastId] using h.2
      rw [date_kept, date_kept] at hids
      obtain ⟨hu, hday⟩ := Time.isoDate_injective hids
      rw [Int.mul_ediv_cancel _ (by decide), Int.mul_ediv_cancel _ (by decide)] at hday
      rw [String.toList_inj.mp hu, hday]
    | _ => exact hkinds (by simp [kind])
  | redemption u q =>
    cases c' with
    | redemption u' q' => exact hpieces [_, _] [_, _] (by simp) (by simp) _
    | _ => exact hkinds (by simp [kind])

end keys
end DerivedCall

section calls

private theorem plain_key_mem {c : DerivedCall} (h : "" ∈ c.suffixes) : trim c.key ∈ c.ledgerKeys :=
  List.mem_map.mpr ⟨"", h, by rw [String.append_empty]⟩

variable {config : PointAccrualService.Config} {userId requestId tenantId : String} {amount : ℚ}

theorem submits_awardSignupBonus : Submits (· ∈ (DerivedCall.signupBonus userId).ledgerKeys)
    (PointAccrualService.awardSignupBonus config userId amount requestId tenantId) :=
  submits_awardPoints (plain_key_mem (List.mem_singleton_self _))

theorem submits_awardReferralBonus {referredUserId : String} :
    Submits (· ∈ (DerivedCall.referralBonus userId referredUserId).ledgerKeys)
      (PointAccrualService.awardReferralBonus config userId referredUserId amount requestId tenantId) :=
  submits_awardPoints (plain_key_mem (List.mem_singleton_self _))

theorem submits_awardPromotionalPoints {promotionId : String} {expiresAt : Option Time} :
    Submits (· ∈ (DerivedCall.promotionalPoints promotionId userId).ledgerKeys)
      (PointAccrualService.awardPromotionalPoints config userId amount promotionId requestId tenantId expiresAt) :=
  submits_awardPoints (plain_key_mem (List.mem_singleton_self _))

theorem submits_adminCreditPoints {adminId reason : String} :
    Submits (· ∈ (DerivedCall.adminCredit adminId userId requestId).ledgerKeys)
      (PointAccrualService.adminCreditPoints config userId amount adminId reason requestId tenantId) :=
  submits_awardPoints (plain_key_mem (List.mem_singleton_self _))

theorem submits_adjustment {config : AdminOpsService.Config} {request : ManualAdjustmentRequest} :
    Submits (· ∈ (DerivedCall.manualAdjustment request.admin.adminId request.userId request.requestId).ledgerKeys)
      (AdminOpsService.manualAdjustment config request) :=
  submits_manualAdjustment (plain_key_mem (List.mem_singleton_self _))

/-- An expiration submits the key of the day on which it writes its entry. -/
theorem submits_expiration {config : PointExpirationService.Config} :
    Submits (fun key => ∃ day, key ∈ (DerivedCall.expiration userId day).ledgerKeys)
      (PointExpirationService.processUserExpiration config userId requestId) := by
  apply submits_processUserExpiration
  intro timestamp
  have hkey : (DerivedCall.expiration userId (timestamp / 86400000)).key =
      "expiration-" ++ userId ++ "-" ++ timestamp.isoDate :=
    congrArg ("expiration-" ++ userId ++ "-" ++ ·) (Time.isoDate_of_day timestamp)
  refine ⟨timestamp / 86400000, ?_⟩
  rw [← hkey]
  exact plain_key_mem (List.mem_singleton_self _)

theorem submits_redemption {config : WalletService.Config} {redemption : PointRedemptionService.Config}
    {request : RedeemPointsRequest} : Submits (· ∈ (DerivedCall.redemption request.userId request.queueItemId).ledgerKeys)
      (PointRedemptionService.redeemPoints redemption config request) :=
  submits_redeemPoints List.mem_cons_self (List.mem_cons_of_mem _ List.mem_cons_self)

end calls

/-- Calls about different things share no ledger key exactly if they are of different kinds
or their ids have different pieces. -/
theorem derived_keys_distinct_iff {c c' : DerivedCall} (hdifferent : c ≠ c') :
    (∀ key ∈ c.ledgerKeys, key ∉ c'.ledgerKeys) ↔ ¬ c.CutsAlike c' := by
  rw [DerivedCall.cutsAlike_iff hdifferent]
  constructor
  · rintro hdistinct ⟨hkind, hids⟩
    have hsuffix : ∃ suffix, suffix ∈ c.suffixes := by
      cases c <;> exact ⟨_, List.mem_cons_self⟩
    obtain ⟨suffix, hmem⟩ := hsuffix
    have hmem' : suffix ∈ c'.suffixes := DerivedCall.suffixes_of_kind hkind ▸ hmem
    apply hdistinct _ (List.mem_map_of_mem hmem)
    rw [(DerivedCall.ledgerKey_eq_iff hmem hmem').mpr ⟨hkind, hids, rfl⟩]
    exact List.mem_map_of_mem hmem'
  · intro hnot key hkey hkey'
    obtain ⟨suffix, hmem, rfl⟩ := List.mem_map.mp hkey
    obtain ⟨suffix', hmem', heq⟩ := List.mem_map.mp hkey'
    obtain ⟨hkind, hids, -⟩ := (DerivedCall.ledgerKey_eq_iff hmem hmem').mp heq.symm
    exact hnot ⟨hkind, hids⟩

/-- The promotions are different, and so are the pieces of their ids. -/
theorem promotion_keys_distinct :
    DerivedCall.promotionalPoints "spring-2026" "user-1" ≠ .promotionalPoints "spring-2027" "user-1" ∧
    ∀ key ∈ (DerivedCall.promotionalPoints "spring-2026" "user-1").ledgerKeys,
      key ∉ (DerivedCall.promotionalPoints "spring-2027" "user-1").ledgerKeys := by
  have hdifferent : DerivedCall.promotionalPoints "spring-2026" "user-1" ≠ .promotionalPoints "spring-2027" "user-1" := by
    decide
  refine ⟨hdifferent, (derived_keys_distinct_iff hdifferent).mpr ?_⟩
  show ¬ pieces '-' [_, _] = pieces '-' [_, _]
  decide +kernel

/-- Two referrals, by different users of different users, with one key. -/
theorem referral_keys_shared :
    DerivedCall.referralBonus "user" "1-2" ≠ .referralBonus "user-1" "2" ∧
    "referral-bonus-user-1-2" ∈ (DerivedCall.referralBonus "user" "1-2").ledgerKeys ∧
    "referral-bonus-user-1-2" ∈ (DerivedCall.referralBonus "user-1" "2").ledgerKeys := by
  decide +kernel

end RedRoomRewards
