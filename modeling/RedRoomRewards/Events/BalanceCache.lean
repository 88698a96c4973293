import RedRoomRewards.Events.Bus
import RedRoomRewards.Store.Collection

/-! The cache of balances, kept up to date by the events of the wallet. -/
namespace RedRoomRewards
open Store

structure CachedBalance where
  accountId : String
  accountType : AccountType
  availableBalance : ℚ
  escrowBalance : Option ℚ
  earnedBalance : Option ℚ
  lastUpdated : Time
  version : ℕ

structure BalanceCacheConfig where
  maxSize : ℕ := 10000
  ttlMs : ℕ := 3600000

/-- `${accountType}:${accountId}`. -/
def getCacheKey (accountId : String) : AccountType → String
  | .user => "user:" ++ accountId
  | .model => "model:" ++ accountId

def CachedBalance.key (entry : CachedBalance) : String := getCacheKey entry.accountId entry.accountType

/-- The entries by their keys, in the order in which they were first set. -/
abbrev BalanceSnapshotCache := Collection CachedBalance String String CachedBalance.key CachedBalance.key

namespace BalanceSnapshotCache
variable (config : BalanceCacheConfig) (cache : BalanceSnapshotCache)

/-- Remove the oldest entries if there are more than `maxSize`. -/
def evictIfNeeded : BalanceSnapshotCache :=
  if cache.docs.length ≤ config.maxSize then cache else
    let entries := cache.docs.insertionSort fun a b => a.lastUpdated ≤ b.lastUpdated
    let toRemove := entries.take (entries.length - config.maxSize)
    toRemove.foldl (fun cache entry => cache.erase entry.key) cache

/-- Set a new entry, or change the one there is, which counts a version. -/
def setOrUpdate (newEntry : CachedBalance) (lastUpdated : Time) (update : CachedBalance → CachedBalance)
    (hupdate : ∀ b, (update b).accountId = b.accountId ∧ (update b).accountType = b.accountType) :
    BalanceSnapshotCache :=
  match cache.find newEntry.key with
  | none => cache.insert newEntry
  | some _ => cache.modify newEntry.key
      (fun cached => { update cached with lastUpdated := lastUpdated, version := cached.version + 1 })
      fun b => by simp [CachedBalance.key, hupdate b]

def handleBalanceUpdated (event : BalanceUpdate) (timestamp : Time) : BalanceSnapshotCache :=
  evictIfNeeded config (cache.setOrUpdate
    { accountId := event.accountId
      accountType := event.accountType
      availableBalance := if event.accountType = .user ∧ event.balanceState = .available then event.balanceAfter else 0
      escrowBalance := some (if event.accountType = .user ∧ event.balanceState = .escrow then event.balanceAfter else 0)
      earnedBalance := some (if event.accountType = .model ∧ event.balanceState = .earned then event.balanceAfter else 0)
      lastUpdated := timestamp
      version := 1 }
    timestamp
    (fun cached => match event.balanceState with
      | .available => { cached with availableBalance := event.balanceAfter }
      | .escrow => { cached with escrowBalance := some event.balanceAfter }
      | .earned => { cached with earnedBalance := some event.balanceAfter })
    fun b => by cases event.balanceState <;> exact ⟨rfl, rfl⟩)

/-- The two balances of a user, as an event tells them. -/
def setUser (userId : String) (userAvailableBalance userEscrowBalance : ℚ) (timestamp : Time) :
    BalanceSnapshotCache :=
  cache.setOrUpdate
    { accountId := userId
      accountType := .user
      availableBalance := userAvailableBalance
      escrowBalance := some userEscrowBalance
      earnedBalance := none
      lastUpdated := timestamp
      version := 1 }
    timestamp
    (fun cached => { cached with availableBalance := userAvailableBalance, escrowBalance := some userEscrowBalance })
    fun _ => ⟨rfl, rfl⟩

/-- The earned balance of a model, as an event tells it. -/
def setModel (modelId : String) (modelEarnedBalance : ℚ) (timestamp : Time) : BalanceSnapshotCache :=
  cache.setOrUpdate
    { accountId := modelId
      accountType := .model
      availableBalance := 0
      escrowBalance := none
      earnedBalance := some modelEarnedBalance
      lastUpdated := timestamp
      version := 1 }
    timestamp
    (fun cached => { cached with earnedBalance := some modelEarnedBalance })
    fun _ => ⟨rfl, rfl⟩

/-- The event of a hold, a settlement, a refund or a partial settlement. -/
def handleWalletEvent (event : WalletEvent) (timestamp : Time) : BalanceSnapshotCache :=
  evictIfNeeded config <| match event with
  | .escrowHeld userId _ _ _ _ _ _ userAvailableBalance userEscrowBalance _ _ =>
    cache.setUser userId userAvailableBalance userEscrowBalance timestamp
  | .escrowSettled _ modelId _ _ _ _ _ modelEarnedBalance _ _ =>
    cache.setModel modelId modelEarnedBalance timestamp
  | .escrowRefunded userId _ _ _ _ _ userAvailableBalance userEscrowBalance _ _ =>
    cache.setUser userId userAvailableBalance userEscrowBalance timestamp
  | .escrowPartialSettled userId modelId _ _ _ _ _ _ userAvailableBalance userEscrowBalance modelEarnedBalance _ _ =>
    (cache.setUser userId userAvailableBalance userEscrowBalance timestamp).setModel modelId modelEarnedBalance
      timestamp

def handleEvent (event : RewardEvent) : BalanceSnapshotCache :=
  match event.body with
  | .balanceUpdated update => handleBalanceUpdated config cache update event.timestamp
  | .wallet walletEvent => handleWalletEvent config cache walletEvent event.timestamp
  | .ledgerEntryCreated => cache

/-- The entry of an account, unless it is older than the TTL, and the cache without it then. -/
def getBalance (accountId : String) (accountType : AccountType) (now : Time) :
    Option CachedBalance × BalanceSnapshotCache :=
  match cache.find (getCacheKey accountId accountType) with
  | none => (none, cache)
  | some cached =>
    if config.ttlMs < now - cached.lastUpdated then (none, cache.erase (getCacheKey accountId accountType))
    else (some cached, cache)

/-- Remove the entry of an account. -/
def invalidate (accountId : String) (accountType : AccountType) : BalanceSnapshotCache :=
  cache.erase (getCacheKey accountId accountType)

section lookups
variable {config} {cache}

theorem getCacheKey_inj {accountId accountId' : String} {accountType accountType' : AccountType} :
    getCacheKey accountId accountType = getCacheKey accountId' accountType' ↔
      accountId = accountId' ∧ accountType = accountType' := by
  have hne : ∀ a b : String, "user:" ++ a ≠ "model:" ++ b := fun a b h => by
    have hchars := congrArg String.toList h
    simp at hchars
  cases accountType <;> cases accountType'
  · simp [getCacheKey, String.append_right_inj]
  · simp [getCacheKey, hne]
  · simp [getCacheKey, (hne _ _).symm]
  · simp [getCacheKey, String.append_right_inj]

/-- Eviction only takes entries out. -/
theorem find_of_evictIfNeeded {k : String} {b : CachedBalance}
    (h : (evictIfNeeded config cache).find k = some b) : cache.find k = some b := by
  have herase : ∀ (toRemove : List CachedBalance) (cache : BalanceSnapshotCache),
      (toRemove.foldl (fun cache entry => cache.erase entry.key) cache).find k = some b → cache.find k = some b := by
    intro toRemove
    induction toRemove with
    | nil => exact fun _ h => h
    | cons entry toRemove ih =>
      intro cache h
      have hfind := ih _ h
      rw [Collection.find_erase] at hfind
      split at hfind
      · cases hfind
      · exact hfind
  unfold evictIfNeeded at h
  split at h
  · exact h
  · exact herase _ _ h

theorem find_setOrUpdate {newEntry : CachedBalance} {lastUpdated : Time} {update : CachedBalance → CachedBalance}
    {hupdate : ∀ b, (update b).accountId = b.accountId ∧ (update b).accountType = b.accountType} (k : String) :
    (cache.setOrUpdate newEntry lastUpdated update hupdate).find k =
      if k = newEntry.key then some ((cache.find newEntry.key).elim newEntry fun cached =>
        { update cached with lastUpdated := lastUpdated, version := cached.version + 1 }) else cache.find k := by
  unfold setOrUpdate
  cases hfind : cache.find newEntry.key with
  | none => rw [Collection.find_insert (Collection.free_iff_find.mpr hfind), Option.elim_none]
  | some cached =>
    apply (Collection.find_modify _ _ _ _).trans
    rw [hfind]
    rfl

end lookups

end BalanceSnapshotCache
end RedRoomRewards
