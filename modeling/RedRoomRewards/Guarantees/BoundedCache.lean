import RedRoomRewards.Events.BalanceCache
import RedRoomRewards.Store.Eviction

/-! The size of the balance cache, and what is removed from it when an event makes it too
large. -/
namespace RedRoomRewards
open Store BalanceSnapshotCache

/-- What is done to a cache. -/
inductive CacheCall where
  | event (event : RewardEvent)
  | getBalance (accountId : String) (accountType : AccountType) (now : Time)
  | invalidate (accountId : String) (accountType : AccountType)

namespace BalanceSnapshotCache
variable (config : BalanceCacheConfig) (cache : BalanceSnapshotCache)

def call : CacheCall → BalanceSnapshotCache
  | .event event => handleEvent config cache event
  | .getBalance accountId accountType now => (cache.getBalance config accountId accountType now).2
  | .invalidate accountId accountType => cache.invalidate accountId accountType

/-- A new cache after the given calls. -/
def after (calls : List CacheCall) : BalanceSnapshotCache := calls.foldl (call config) Collection.empty

/-- The cache after the updates of an event, when there is room for all of them; no event
has more than two. -/
def updatedBy (event : RewardEvent) : BalanceSnapshotCache :=
  handleEvent { config with maxSize := cache.docs.length + 2 } cache event

variable {config} {cache}

private theorem evictIfNeeded_eq : evictIfNeeded config cache = cache.evictOldest CachedBalance.lastUpdated config.maxSize :=
  rfl

private theorem evictIfNeeded_of_le (h : cache.docs.length ≤ config.maxSize) : evictIfNeeded config cache = cache :=
  if_pos h

private theorem length_setOrUpdate {newEntry : CachedBalance} {lastUpdated : Time} {update : CachedBalance → CachedBalance}
    {hupdate : ∀ b, (update b).accountId = b.accountId ∧ (update b).accountType = b.accountType} :
    (cache.setOrUpdate newEntry lastUpdated update hupdate).docs.length ≤ cache.docs.length + 1 := by
  unfold setOrUpdate
  cases hfind : cache.find newEntry.key with
  | none => rw [Collection.docs_insert (Collection.free_iff_find.mpr hfind), List.length_append, List.length_singleton]
  | some cached =>
    show (cache.docs.map _).length ≤ _
    rw [List.length_map]
    omega

/-- An event sets entries first and removes some afterwards. -/
private theorem handleEvent_eq (event : RewardEvent) (hbounded : cache.docs.length ≤ config.maxSize) :
    handleEvent config cache event = evictIfNeeded config (cache.updatedBy config event) := by
  have hroom : ∀ updated : BalanceSnapshotCache, updated.docs.length ≤ cache.docs.length + 2 →
      evictIfNeeded { config with maxSize := cache.docs.length + 2 } updated = updated := fun _ h => evictIfNeeded_of_le h
  unfold updatedBy handleEvent
  cases event.body with
  | balanceUpdated update =>
    exact congrArg (evictIfNeeded config) (hroom _ (length_setOrUpdate.trans (Nat.le_succ _))).symm
  | wallet walletEvent =>
    cases walletEvent with
    | escrowPartialSettled =>
      exact congrArg (evictIfNeeded config)
        (hroom _ (length_setOrUpdate.trans (Nat.succ_le_succ length_setOrUpdate))).symm
    | _ => exact congrArg (evictIfNeeded config) (hroom _ (length_setOrUpdate.trans (Nat.le_succ _))).symm
  | ledgerEntryCreated => exact (evictIfNeeded_of_le hbounded).symm

private theorem call_bounded (h : cache.docs.length ≤ config.maxSize) (made : CacheCall) :
    (cache.call config made).docs.length ≤ config.maxSize := by
  have herase : ∀ key, (cache.erase key).docs.length ≤ config.maxSize := fun key =>
    (List.length_filter_le _ _).trans h
  cases made with
  | event event =>
    rw [call, handleEvent_eq event h, evictIfNeeded_eq]
    exact Collection.length_evictOldest
  | getBalance accountId accountType now =>
    rw [call, getBalance]
    split
    · exact h
    · split
      · exact herase _
      · exact h
  | invalidate accountId accountType => exact herase _

theorem after_bounded (calls : List CacheCall) : (after config calls).docs.length ≤ config.maxSize := by
  induction calls using List.reverseRecOn with
  | nil => exact Nat.zero_le _
  | append_singleton calls made ih =>
    rw [after, List.foldl_append]
    exact call_bounded ih made

end BalanceSnapshotCache

/-- After any calls, the cache holds at most `maxSize` entries, and an event removes as many
entries as its updates make too many, none of them updated later than one that is left. -/
theorem bounded_cache (config : BalanceCacheConfig) (calls : List CacheCall) (event : RewardEvent) :
    (handleEvent config (after config calls) event).docs.length ≤ config.maxSize ∧
      ((after config calls).updatedBy config event).KeepsNewest CachedBalance.lastUpdated config.maxSize
        (handleEvent config (after config calls) event) := by
  rw [handleEvent_eq event (after_bounded calls), evictIfNeeded_eq]
  exact ⟨Collection.length_evictOldest, Collection.keepsNewest_evictOldest⟩

section scenario

def smallCache : BalanceCacheConfig := { maxSize := 1 }

def updateOf (accountId : String) (timestamp : Time) : RewardEvent where
  eventId := accountId
  idempotencyKey := accountId
  timestamp := timestamp
  body := .balanceUpdated ⟨accountId, .user, .available, 0, 10, "promotional_award", "transaction-1", "entry-1"⟩

/-- An event of an earlier instant than the entry that is there is removed at once. -/
example : (handleEvent smallCache (after smallCache [.event (updateOf "user-1" 20)]) (updateOf "user-2" 10)).docs.map
    CachedBalance.accountId = ["user-1"] := by decide +kernel

end scenario
end RedRoomRewards
