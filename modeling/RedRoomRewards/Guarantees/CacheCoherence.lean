import RedRoomRewards.Events.BalanceCache
import RedRoomRewards.Guarantees.EventsDispatched

/-! The balance cache beside the wallets, over escrow calls made one after the other. -/
namespace RedRoomRewards
open Process Store BalanceSnapshotCache

section coherent

/-- Every balance in the cache is the one given. -/
structure Cached (cache : BalanceSnapshotCache) (balances : String → ℚ × ℚ) (earned : String → ℚ) : Prop where
  users : ∀ userId b, cache.find (getCacheKey userId .user) = some b →
    b.availableBalance = (balances userId).1 ∧ b.escrowBalance = some (balances userId).2
  models : ∀ modelId b, cache.find (getCacheKey modelId .model) = some b → b.earnedBalance = some (earned modelId)

/-- The cache returns the entries that it has and that are not expired, and the balances it
returns are those of the wallets. -/
structure Coherent (config : BalanceCacheConfig) (cache : BalanceSnapshotCache) (db : Db) : Prop where
  returned : ∀ accountId accountType b now, cache.find (getCacheKey accountId accountType) = some b →
    now - b.lastUpdated ≤ config.ttlMs → (cache.getBalance config accountId accountType now).1 = some b
  users : ∀ userId now b, (cache.getBalance config userId .user now).1 = some b →
    b.availableBalance = (db.balances userId).1 ∧ b.escrowBalance = some (db.balances userId).2
  models : ∀ modelId now b, (cache.getBalance config modelId .model now).1 = some b →
    b.earnedBalance = some (db.earnedBalance modelId)

variable {config : BalanceCacheConfig} {cache : BalanceSnapshotCache} {db : Db}
variable {balances : String → ℚ × ℚ} {earned : String → ℚ}

private theorem find_of_getBalance {accountId : String} {accountType : AccountType} {now : Time} {b : CachedBalance}
    (h : (cache.getBalance config accountId accountType now).1 = some b) :
    cache.find (getCacheKey accountId accountType) = some b := by
  unfold getBalance at h
  split at h
  · cases h
  · rename_i hfind
    split at h
    · cases h
    · exact hfind.trans h

private theorem getBalance_of_find {accountId : String} {accountType : AccountType} {now : Time} {b : CachedBalance}
    (h : cache.find (getCacheKey accountId accountType) = some b) (hfresh : now - b.lastUpdated ≤ config.ttlMs) :
    (cache.getBalance config accountId accountType now).1 = some b := by
  unfold getBalance
  rw [h]
  exact congrArg Prod.fst (if_neg (Int.not_lt.mpr hfresh))

theorem coherent_iff : Coherent config cache db ↔ Cached cache db.balances db.earnedBalance := by
  constructor
  · intro h
    exact ⟨fun userId b hfind => h.users userId b.lastUpdated b (h.returned _ _ _ _ hfind (by simp)),
      fun modelId b hfind => h.models modelId b.lastUpdated b (h.returned _ _ _ _ hfind (by simp))⟩
  · intro h
    exact ⟨fun _ _ _ _ => getBalance_of_find, fun userId _ b hget => h.users userId b (find_of_getBalance hget),
      fun modelId _ b hget => h.models modelId b (find_of_getBalance hget)⟩

theorem Cached.evicted (h : Cached cache balances earned) : Cached (cache.evictIfNeeded config) balances earned :=
  ⟨fun userId b hfind => h.users userId b (find_of_evictIfNeeded hfind),
    fun modelId b hfind => h.models modelId b (find_of_evictIfNeeded hfind)⟩

/-- What is told of a user is cached. -/
theorem Cached.setUser (h : Cached cache balances earned) (userId : String) (available escrow : ℚ) (timestamp : Time) :
    Cached (cache.setUser userId available escrow timestamp)
      (Function.update balances userId (available, escrow)) earned := by
  constructor
  · intro userId' b hfind
    rw [BalanceSnapshotCache.setUser, find_setOrUpdate] at hfind
    split at hfind
    · rename_i hkey
      obtain ⟨rfl, -⟩ := getCacheKey_inj.mp hkey
      rw [Function.update_self, ← Option.some.inj hfind]
      cases cache.find _ <;> exact ⟨rfl, rfl⟩
    · rename_i hkey
      rw [Function.update_of_ne fun heq => hkey (by rw [heq]; rfl)]
      exact h.users userId' b hfind
  · intro modelId b hfind
    rw [BalanceSnapshotCache.setUser, find_setOrUpdate, if_neg fun hkey => by cases (getCacheKey_inj.mp hkey).2] at hfind
    exact h.models modelId b hfind

/-- What is told of a model is cached. -/
theorem Cached.setModel (h : Cached cache balances earned) (modelId : String) (amount : ℚ) (timestamp : Time) :
    Cached (cache.setModel modelId amount timestamp) balances (Function.update earned modelId amount) := by
  constructor
  · intro userId b hfind
    rw [BalanceSnapshotCache.setModel, find_setOrUpdate, if_neg fun hkey => by cases (getCacheKey_inj.mp hkey).2] at hfind
    exact h.users userId b hfind
  · intro modelId' b hfind
    rw [BalanceSnapshotCache.setModel, find_setOrUpdate] at hfind
    split at hfind
    · rename_i hkey
      obtain ⟨rfl, -⟩ := getCacheKey_inj.mp hkey
      rw [Function.update_self, ← Option.some.inj hfind]
      cases cache.find _ <;> rfl
    · rename_i hkey
      rw [Function.update_of_ne fun heq => hkey (by rw [heq]; rfl)]
      exact h.models modelId' b hfind

/-- A user's balances may change untold if they are not cached. -/
theorem Cached.uncached (h : Cached cache balances earned) {userId : String}
    (hnone : cache.find (getCacheKey userId .user) = none) (x : ℚ × ℚ) :
    Cached cache (Function.update balances userId x) earned := by
  refine ⟨fun userId' b hfind => ?_, h.models⟩
  rw [Function.update_of_ne]
  · exact h.users userId' b hfind
  · rintro rfl
    rw [hnone] at hfind
    cases hfind

/-- The cache takes in what an event tells, if what it leaves untold is nothing or is about
a user who is not cached. -/
theorem Cached.handled (h : Cached cache balances earned) {event : WalletEvent} (timestamp : Time)
    (huntold : ∀ userId amount, event.untold = some (userId, amount) →
      amount = 0 ∨ cache.find (getCacheKey userId .user) = none) :
    Cached (cache.handleWalletEvent config event timestamp) (event.userBalances balances)
      (event.modelBalances earned) := by
  cases event with
  | escrowHeld | escrowRefunded => exact (h.setUser _ _ _ _).evicted
  | escrowPartialSettled => exact ((h.setUser _ _ _ _).setModel _ _ _).evicted
  | escrowSettled userId modelId _ amount =>
    have hsettled : Cached cache (Function.update balances userId (balances userId + (0, -amount))) earned := by
      rcases huntold userId amount rfl with rfl | hnone
      · rw [show balances userId + (0, -0) = balances userId by simp, Function.update_eq_self]
        exact h
      · exact h.uncached hnone _
    exact (hsettled.setModel _ _ _).evicted

end coherent

section runs
variable {config : Config} {cacheConfig : BalanceCacheConfig}

/-- The events that have been published since, oldest first. -/
def Db.eventsSince (d d' : Db) : List RewardEvent :=
  ((d'.published.take (d'.published.length - d.published.length)).map PublishedEvent.rewardEvent).reverse

/-- The users and models that an escrow call names. -/
def Call.accounts : Call → List String
  | .hold request => [request.userId]
  | .settle request _ => [request.modelId]
  | .refund request _ => [request.userId]
  | .partialSettle request _ => [request.userId, request.modelId]
  | _ => []

/-- An escrow call whose events are delivered. -/
structure Delivered (call : Call) (os : ℕ → Oracle) : Prop where
  escrow : call.isEscrowRequest = true
  bus : ∀ n, (os n).busFault = none

/-- Calls made one after the other, with the events of each handled by the cache; `A` says
which calls may be made, and what the oracle may supply to them. -/
inductive CachedCalls (config : Config) (cacheConfig : BalanceCacheConfig)
    (A : Db → BalanceSnapshotCache → Call → (ℕ → Oracle) → Prop) (d₀ : Db) (cache₀ : BalanceSnapshotCache) :
    Db → BalanceSnapshotCache → Prop
  | start : CachedCalls config cacheConfig A d₀ cache₀ d₀ cache₀
  | call {d cache} {call : Call} {os : ℕ → Oracle} (h : CachedCalls config cacheConfig A d₀ cache₀ d cache)
      (hA : A d cache call os) : CachedCalls config cacheConfig A d₀ cache₀ ((call.body config).solo exec os d).2
        ((d.eventsSince ((call.body config).solo exec os d).2).foldl (handleEvent cacheConfig) cache)

/-- The call tells what it changes: it names accounts as they are stored, the ledger takes its
entries, and if it is a settlement, the item's user has a wallet, and is not in the cache unless the
amount is 0. -/
structure Telling (config : Config) (d : Db) (cache : BalanceSnapshotCache) (call : Call) (os : ℕ → Oracle) : Prop
    extends Delivered call os where
  -- the wallets are looked up by the trimmed id, the cache by the id in the event
  trimmed : ∀ id ∈ call.accounts, trim id = id
  accepted : ∀ e, ((call.body config).solo exec os d).1 ≠ .error (.ledger e)
  backed : call.Backed d
  uncached : ∀ userId amount, call.Untold d userId amount →
    amount = 0 ∨ cache.find (getCacheKey userId .user) = none

private theorem cached_of_call {d : Db} {cache : BalanceSnapshotCache} {call : Call} {os : ℕ → Oracle}
    (htelling : Telling config d cache call os) (h : Cached cache d.balances d.earnedBalance) :
    Cached ((d.eventsSince ((call.body config).solo exec os d).2).foldl (handleEvent cacheConfig) cache)
      ((call.body config).solo exec os d).2.balances ((call.body config).solo exec os d).2.earnedBalance := by
  have hcall : Alone (fun o => o.busFault = none) (Announces (call.About d) (call.Backed d) d) (call.body config) d :=
    alone_escrow_event (fun _ h => h) htelling.escrow
  have hannounces := hcall.solo htelling.bus
  cases hresult : ((call.body config).solo exec os d).1 with
  | ok a =>
    rw [hresult] at hannounces
    obtain ⟨eventId, timestamp, event, hpublished, habout, husers, hmodels⟩ := hannounces
    have hevents : d.eventsSince ((call.body config).solo exec os d).2 =
        [⟨eventId, event.idempotencyKey, timestamp, .wallet event⟩] := by
      simp [Db.eventsSince, hpublished, PublishedEvent.rewardEvent]
    rw [hevents, husers, hmodels]
    exact h.handled timestamp fun userId amount huntold =>
      htelling.uncached userId amount (habout.untold userId amount huntold)
  | error e =>
    rw [hresult] at hannounces
    have hquiet : Quiet d ((call.body config).solo exec os d).2 := by
      cases e with
      | ledger e => exact absurd hresult (htelling.accepted e)
      | _ => exact hannounces htelling.backed
    have hevents : d.eventsSince ((call.body config).solo exec os d).2 = [] := by
      simp [Db.eventsSince, hquiet.published]
    rw [hevents, hquiet.users, hquiet.models]
    exact h

variable {d₀ d : Db} {cache₀ cache : BalanceSnapshotCache}

/-- The cache stays coherent with the wallets over any escrow calls that all tell what they change.
Amounts are exact. -/
theorem cache_coherent (h : CachedCalls config cacheConfig (Telling config) d₀ cache₀ d cache)
    (hstart : Coherent cacheConfig cache₀ d₀) : Coherent cacheConfig cache d := by
  apply coherent_iff.mpr
  induction h with
  | start => exact coherent_iff.mp hstart
  | call _ hA ih => exact cached_of_call hA ih

end runs

section scenario

/-- The store and the cache after an escrow call, and what the cache returns of a user. -/
def BalanceSnapshotCache.afterCall (cache : BalanceSnapshotCache) (db : Db) (call : Call) (os : ℕ → Oracle) :
    BalanceSnapshotCache :=
  (db.eventsSince (db.afterCall call os)).foldl (handleEvent {}) cache

def BalanceSnapshotCache.userBalances (cache : BalanceSnapshotCache) (userId : String) : Option (ℚ × Option ℚ) :=
  (cache.getBalance {} userId .user 200).1.map fun b => (b.availableBalance, b.escrowBalance)

private theorem coherent_empty (config : BalanceCacheConfig) (db : Db) : Coherent config Collection.empty db :=
  coherent_iff.mpr ⟨fun _ _ hfind => (by cases hfind), fun _ _ hfind => (by cases hfind)⟩

private theorem accepted_of_isOk {config : Config} {call : Call} {os : ℕ → Oracle} {db : Db}
    (h : ((call.body config).solo exec os db).1.isOk = true) (e : LedgerError) :
    ((call.body config).solo exec os db).1 ≠ .error (.ledger e) := by
  intro herror
  rw [herror] at h
  cases h

private theorem telling_settle (cache : BalanceSnapshotCache)
    (hnone : cache.find (getCacheKey "user-1" .user) = none) :
    Telling (defaultConfig fun _ => none) escrowedDb cache (.settle sampleSettle sampleAuthorization) tick where
  escrow := rfl
  bus _ := rfl
  trimmed := by decide +kernel
  accepted := accepted_of_isOk (by decide +kernel)
  backed i hi := by
    obtain rfl : sampleItem = i := Option.some.inj hi.1
    exact fun hnone => by cases hnone
  uncached userId amount huntold := by
    obtain ⟨-, i, hi, rfl⟩ := huntold
    obtain rfl : sampleItem = i := Option.some.inj hi.1
    exact .inr hnone

private theorem telling_hold (db : Db) (cache : BalanceSnapshotCache) (os : ℕ → Oracle)
    (hbus : ∀ n, (os n).busFault = none)
    (hok : (((Call.hold sampleHold).body (defaultConfig fun _ => none)).solo exec os db).1.isOk = true) :
    Telling (defaultConfig fun _ => none) db cache (.hold sampleHold) os :=
  { escrow := rfl, bus := hbus, trimmed := by decide +kernel, accepted := accepted_of_isOk hok, backed := trivial,
    uncached := fun _ _ h => h.elim }

def settledDb : Db := escrowedDb.afterCall (.settle sampleSettle sampleAuthorization) tick

def settledCache : BalanceSnapshotCache :=
  BalanceSnapshotCache.afterCall Collection.empty escrowedDb (.settle sampleSettle sampleAuthorization) tick

/-- An item is settled while its user is not in the cache, and then the user holds points. -/
theorem cache_coherent_settle_hold : ∃ db cache,
    CachedCalls (defaultConfig fun _ => none) {} (Telling (defaultConfig fun _ => none)) escrowedDb Collection.empty
      db cache ∧ cache.userBalances "user-1" = some (70, some 30) ∧ Coherent {} cache db := by
  have hsettled : CachedCalls (defaultConfig fun _ => none) {} (Telling (defaultConfig fun _ => none)) escrowedDb
      Collection.empty settledDb settledCache := CachedCalls.start.call (telling_settle Collection.empty rfl)
  have hheld : CachedCalls (defaultConfig fun _ => none) {} (Telling (defaultConfig fun _ => none)) escrowedDb
      Collection.empty (settledDb.afterCall (.hold sampleHold) (later 100))
      (settledCache.afterCall settledDb (.hold sampleHold) (later 100)) :=
    hsettled.call (telling_hold settledDb settledCache (later 100) (fun _ => rfl) (by decide +kernel))
  exact ⟨_, _, hheld, by decide +kernel, cache_coherent hheld (coherent_empty {} escrowedDb)⟩

def heldDb : Db := escrowedDb.afterCall (.hold sampleHold) tick

def heldCache : BalanceSnapshotCache :=
  BalanceSnapshotCache.afterCall Collection.empty escrowedDb (.hold sampleHold) tick

/-- The user holds points first: the settlement then leaves a stale escrow balance in the cache. -/
theorem cache_stale_after_settlement : ∃ db cache,
    CachedCalls (defaultConfig fun _ => none) {} (fun _ _ => Delivered) escrowedDb Collection.empty db cache ∧
      Coherent {} Collection.empty escrowedDb ∧ cache.userBalances "user-1" = some (70, some 35) ∧
      db.balances "user-1" = (70, 30) ∧ ¬ Coherent {} cache db := by
  have hheld : CachedCalls (defaultConfig fun _ => none) {} (fun _ _ => Delivered) escrowedDb Collection.empty
      heldDb heldCache := CachedCalls.start.call ⟨rfl, fun _ => rfl⟩
  have hsettled : CachedCalls (defaultConfig fun _ => none) {} (fun _ _ => Delivered) escrowedDb Collection.empty
      (heldDb.afterCall (.settle sampleSettle sampleAuthorization) (later 100))
      (heldCache.afterCall heldDb (.settle sampleSettle sampleAuthorization) (later 100)) :=
    hheld.call ⟨rfl, fun _ => rfl⟩
  have hcached : (heldCache.afterCall heldDb (.settle sampleSettle sampleAuthorization) (later 100)).userBalances
      "user-1" = some (70, some 35) := by decide +kernel
  have hstored : (heldDb.afterCall (.settle sampleSettle sampleAuthorization) (later 100)).balances "user-1" =
      (70, 30) := by decide +kernel
  refine ⟨_, _, hsettled, coherent_empty {} escrowedDb, hcached, hstored, fun h => ?_⟩
  obtain ⟨b, hb, hbalances⟩ := Option.map_eq_some_iff.mp hcached
  have hescrow := (h.users "user-1" 200 b hb).2
  rw [hstored, (Prod.mk.inj hbalances).2] at hescrow
  exact absurd (Option.some.inj hescrow) (by decide)

end scenario
end RedRoomRewards
