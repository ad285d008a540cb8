import CcInfer.Cache.PrefixCache
import CcInfer.State.SnapshotPool

/-!
# `CcInfer.Cache.StateCache`: snapshots of GDN states by prefix hash

The embedding of `cache/state_cache.cpp`. The nodes of `entries_` are values here, `lru_` lists them
from the least recent one on, and `by_hash_` maps a hash to its node. The cache holds a reference
to its pool; `States` has both, and the functions of the cache are functions on it. The name of the
caller's state may be any integer, as in `StatePool`.
-/

set_option autoImplicit false

namespace CcInfer.Gdn

/-- `StateCacheEntry`, without its hook (membership in `lru_`). -/
structure StateCacheEntry where
  prefixHash : Hash
  frontierBlockIndex : Int
  stateId : Nat
  deriving DecidableEq, Repr

/-- `StateCache`. -/
structure StateCache where
  frontierDepth : Int
  entries : List StateCacheEntry
  lru : List StateCacheEntry
  byHash : AList fun _ : Hash => StateCacheEntry
  lookupHits : Nat
  lookupMisses : Nat
  evictions : Nat
  /-- Ghost: assertions of this class that did not hold. -/
  failedAsserts : List AssertSite

namespace StateCache

/-- Log a failed assertion. -/
def assert (cache : StateCache) (b : Bool) (site : AssertSite) : StateCache :=
  if b then cache else { cache with failedAsserts := cache.failedAsserts ++ [site] }

/-- `StateCache::StateCache`. -/
def create (frontierDepth : Int) : StateCache :=
  assert
    { frontierDepth := frontierDepth
      entries := []
      lru := []
      byHash := ∅
      lookupHits := 0
      lookupMisses := 0
      evictions := 0
      failedAsserts := [] } (0 ≤ frontierDepth) .frontierDepth

variable (cache : StateCache)

/-- `StateCache::has`. -/
def has (prefixHash : Hash) : Bool := (cache.byHash.lookup prefixHash).isSome

/-- `StateCache::state_id_of`; `-1` is `kInvalidStateId`. -/
def stateIdOf (prefixHash : Hash) : Int :=
  match cache.byHash.lookup prefixHash with
  | none => -1
  | some entry => entry.stateId

/-- `StateCache::size`. -/
def size : Nat := cache.byHash.keys.length

/-- `StateCache::erase_entry`. -/
def eraseEntry (entry : StateCacheEntry) : StateCache :=
  { cache with
    lru := cache.lru.erase entry
    byHash := cache.byHash.erase entry.prefixHash
    entries := cache.entries.erase entry }

end StateCache

/-- A pool and its cache. -/
structure States where
  pool : StatePool
  cache : StateCache

namespace States

variable (s : States)

/-- `StateCache::evict_one`. -/
def evictOne : Bool × States :=
  match s.cache.lru with
  | [] => (false, s)
  | victim :: _ =>
    match s.cache.byHash.lookup victim.prefixHash with
    -- the source goes on with an invalid iterator here; nothing is modelled beyond the assertion
    | none => (true, { s with cache := s.cache.assert false .evictIndexed })
    | some entry =>
      let cache := s.cache.eraseEntry entry
      (true,
        { pool := (s.pool.releaseSnapshot victim.stateId).2
          cache := { cache with evictions := cache.evictions + 1 } })

/-- `StateCache::snapshot` from the acquisition of a state on. -/
def insertSnapshot (prefixHash : Hash) (frontierBlock activeState : Int) (device : Device) :
    Result Unit × States :=
  match s.pool.acquireSnapshot with
  | (.error err, pool) => (.error err, { s with pool := pool })
  | (.ok snapshotState, pool) =>
    match pool.copyActiveToSnapshot activeState snapshotState device with
    | (.error err, pool) =>
      (.error err, { s with pool := (pool.releaseSnapshot snapshotState).2 })
    | (.ok (), pool) =>
      let entry : StateCacheEntry := ⟨prefixHash, frontierBlock, snapshotState⟩
      (.ok (),
        { pool := pool
          cache := { s.cache with
            entries := s.cache.entries ++ [entry]
            byHash := s.cache.byHash.insert prefixHash entry
            lru := s.cache.lru ++ [entry] } })

/-- `StateCache::snapshot`. -/
def snapshot (prefixHash : Hash) (frontierBlock activeState : Int) (device : Device) :
    Result Unit × States :=
  if frontierBlock < 0 ∨ s.cache.frontierDepth ≤ frontierBlock then (.error .invalidArgument, s)
  else if s.cache.has prefixHash then (.ok (), s)
  else if s.pool.numFreeSnapshots = 0 then
    match s.evictOne with
    | (false, s) => (.error .maxSequencesReached, s)
    | (true, s) => s.insertSnapshot prefixHash frontierBlock activeState device
  else s.insertSnapshot prefixHash frontierBlock activeState device

/-- `StateCache::restore`. -/
def restore (prefixHash : Hash) (activeState : Int) (device : Device) : Result Unit × States :=
  match s.cache.byHash.lookup prefixHash with
  | none =>
    (.error .invalidArgument,
      { s with cache := { s.cache with lookupMisses := s.cache.lookupMisses + 1 } })
  | some entry =>
    let lru := if entry ∈ s.cache.lru then s.cache.lru.erase entry ++ [entry] else s.cache.lru
    let (result, pool) := s.pool.restoreSnapshotToActive entry.stateId activeState device
    (result,
      { pool := pool
        cache := { s.cache with lookupHits := s.cache.lookupHits + 1, lru := lru } })

/-- The loop of `StateCache::~StateCache`, which gives every snapshot back. -/
def destroy : StatePool :=
  s.cache.entries.foldl (fun pool entry => (pool.releaseSnapshot entry.stateId).2) s.pool

end States

end CcInfer.Gdn
