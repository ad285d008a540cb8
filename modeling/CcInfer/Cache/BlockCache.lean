import CcInfer.Block.BlockPool
import CcInfer.Cache.PrefixCache

/-!
# `CcInfer.Cache.BlockCache`: cached blocks, their two indexes and the idle LRU

The embedding of `cache/block_cache.cpp`, and of the two functions of the Scheduler that
drive pool and cache together (`allocate_kv_blocks`, `release_request_blocks`).
-/

set_option autoImplicit false

namespace CcInfer

/-- `BlockCacheEntry`, without its LRU hook. -/
structure BlockCacheEntry where
  prefixHash : Hash
  blockId : BlockId
  deriving DecidableEq, Repr

/-- `BlockCache`. -/
structure BlockCache where
  entries : List BlockCacheEntry
  idleLru : List BlockCacheEntry
  byHash : Hash → Option (List BlockCacheEntry)
  byBlock : BlockId → Option BlockCacheEntry
  lookupHits : Nat
  lookupMisses : Nat
  evictions : Nat
  /-- Ghost: assertions of this class that did not hold. -/
  failedAsserts : List AssertSite

/-- `BlockCache::PrefixLookup`. -/
structure PrefixLookup where
  blockTable : BlockTable
  prefixHitBlocks : Nat
  parentHash : Hash
  deriving DecidableEq, Repr

/-- `BlockCacheStats`. -/
structure BlockCacheStats where
  blockTotal : Int
  blockActive : Int
  blockFree : Int
  blockCachedIdle : Int
  blockSize : Int
  lookupHits : Nat
  lookupMisses : Nat
  evictions : Nat
  cachedBlocks : Nat
  deriving DecidableEq, Repr

/-- The pair of `block_pool_` and `block_cache_`. -/
structure KvBlocks where
  pool : BlockPool
  cache : BlockCache

namespace BlockCache

/-- The cache before any publication. -/
def empty : BlockCache where
  entries := []
  idleLru := []
  byHash := fun _ => none
  byBlock := fun _ => none
  lookupHits := 0
  lookupMisses := 0
  evictions := 0
  failedAsserts := []

/-- Log a failed assertion. -/
def assert (c : BlockCache) (b : Bool) (site : AssertSite) : BlockCache :=
  if b then c else { c with failedAsserts := c.failedAsserts ++ [site] }

/-- `BlockCache::contains`. -/
def contains (c : BlockCache) (id : BlockId) : Bool := (c.byBlock id).isSome

/-- `BlockCache::is_idle`. -/
def isIdle (c : BlockCache) (id : BlockId) : Bool :=
  match c.byBlock id with
  | none => false
  | some e => e ∈ c.idleLru

/-- `*pos = bucket.back(); bucket.pop_back();` where `pos` is the position of `e`. -/
def swapRemove (bucket : List BlockCacheEntry) (e : BlockCacheEntry) : List BlockCacheEntry :=
  match bucket.getLast? with
  | none => bucket
  | some last => (bucket.set (bucket.idxOf e) last).dropLast

/-- `BlockCache::erase_entry`. -/
def eraseEntry (c : BlockCache) (id : BlockId) : BlockCache :=
  match c.byBlock id with
  | none => c.assert false .eraseEntryIndexed
  | some e =>
    let c := { c with idleLru := c.idleLru.erase e }
    match c.byHash e.prefixHash with
    | none => c.assert false .eraseEntryIndexed
    | some bucket =>
      let c := c.assert (e ∈ bucket) .eraseEntryIndexed
      let bucket := swapRemove bucket e
      { c with
        byHash := Function.update c.byHash e.prefixHash
          (if bucket.isEmpty then none else some bucket)
        byBlock := Function.update c.byBlock id none
        entries := c.entries.erase e }

end BlockCache

namespace KvBlocks

/-- The pool and the cache of a new Scheduler. -/
def init (maxBlocks blockSize : Nat) : KvBlocks :=
  ⟨BlockPool.init maxBlocks blockSize, BlockCache.empty⟩

/-- One hit of `lookup_prefix_cache`: unlink an idle entry, then retain its block. -/
def lookupHit (kv : KvBlocks) (e : BlockCacheEntry) : KvBlocks :=
  let cache := kv.cache.assert (kv.cache.byBlock e.blockId).isSome .lookupIndexed
  let cache :=
    if kv.pool.refCount e.blockId = 0 then
      let cache := cache.assert (e ∈ cache.idleLru) .lookupIdle
      { cache with idleLru := cache.idleLru.erase e }
    else cache
  { pool := kv.pool.retainRequest e.blockId
    cache := { cache with lookupHits := cache.lookupHits + 1 } }

/-- The loop of `lookup_prefix_cache` over the chain hashes; it stops at the first hash
without an entry. -/
def lookupLoop (kv : KvBlocks) (result : PrefixLookup) : List Hash → PrefixLookup × KvBlocks
  | [] => (result, kv)
  | h :: hs =>
    match kv.cache.byHash h with
    | none | some [] =>
      (result, { kv with cache := { kv.cache with lookupMisses := kv.cache.lookupMisses + 1 } })
    | some (e :: _) =>
      lookupLoop (kv.lookupHit e)
        ⟨result.blockTable ++ [e.blockId], result.prefixHitBlocks + 1, h⟩ hs

/-- `BlockCache::lookup_prefix_cache`. -/
def lookupPrefixCache (kv : KvBlocks) (tokens : List Token) (salt : Hash := 0) :
    PrefixLookup × KvBlocks :=
  let blockSize := kv.pool.blockSize
  let cache := kv.cache.assert (!tokens.isEmpty && 0 < blockSize) .lookupTokens
  { kv with cache := cache }.lookupLoop ⟨[], 0, 0⟩
    (PrefixCache.chainHashes tokens blockSize salt)

/-- `BlockCache::publish_full_block`. Returns the prefix hash of the block. -/
def publishFullBlock (kv : KvBlocks) (parentHash : Hash) (tokens : List Token) (id : BlockId)
    (seed : Hash := 0) : Hash × KvBlocks :=
  let blockSize := kv.pool.blockSize
  let cache := kv.cache.assert (0 < blockSize && blockSize ≤ tokens.length) .publishFull
  let hash :=
    (PrefixCache.chainHashesFrom tokens blockSize blockSize parentHash seed).headD 0
  match cache.byBlock id with
  | some e => (hash, { kv with cache := cache.assert (e.prefixHash = hash) .publishSameHash })
  | none =>
    let cache := cache.assert (id < kv.pool.maxBlocks && 0 < kv.pool.refCount id) .publishOwned
    let e : BlockCacheEntry := ⟨hash, id⟩
    (hash, { kv with
      cache := { cache with
        entries := cache.entries ++ [e]
        byBlock := Function.update cache.byBlock id (some e)
        byHash := Function.update cache.byHash hash
          (some ((cache.byHash hash).getD [] ++ [e])) } })

/-- `BlockCache::mark_idle`. -/
def markIdle (kv : KvBlocks) (id : BlockId) : KvBlocks :=
  match kv.cache.byBlock id with
  | none => { kv with cache := kv.cache.assert false .markIdle }
  | some e =>
    let cache := kv.cache.assert (kv.pool.refCount id = 0 && e ∉ kv.cache.idleLru) .markIdle
    { kv with cache := { cache with idleLru := cache.idleLru ++ [e] } }

/-- `BlockCache::evict_one`. -/
def evictOne (kv : KvBlocks) : Bool × KvBlocks :=
  match kv.cache.idleLru with
  | [] => (false, kv)
  | e :: _ =>
    let cache := kv.cache.assert (kv.pool.refCount e.blockId = 0) .evictUnreferenced
    let cache := cache.eraseEntry e.blockId
    (true, ⟨kv.pool.recycle e.blockId, { cache with evictions := cache.evictions + 1 }⟩)

/-- `BlockCache::stats`. -/
def stats (kv : KvBlocks) : BlockCacheStats where
  blockTotal := kv.pool.maxBlocks
  blockActive := kv.pool.maxBlocks - kv.pool.numFreeBlocks - kv.cache.idleLru.length
  blockFree := kv.pool.numFreeBlocks
  blockCachedIdle := kv.cache.idleLru.length
  blockSize := kv.pool.blockSize
  lookupHits := kv.cache.lookupHits
  lookupMisses := kv.cache.lookupMisses
  evictions := kv.cache.evictions
  cachedBlocks := kv.cache.entries.length

/-- The `while` loop of `allocate_kv_blocks`: evict until `n` blocks are free. -/
def evictUntil (kv : KvBlocks) (n : Nat) : Nat → KvBlocks
  | 0 => kv
  | fuel + 1 =>
    if kv.pool.numFreeBlocks < n then
      match kv.evictOne with
      | (false, kv) => kv
      | (true, kv) => kv.evictUntil n fuel
    else kv

/-- `Scheduler::allocate_kv_blocks`. -/
def allocateKvBlocks (kv : KvBlocks) (numBlocks : Nat) : Result BlockTable × KvBlocks :=
  if numBlocks = 0 then (.ok [], kv)
  else
    let kv := kv.evictUntil numBlocks numBlocks
    let (r, pool) := kv.pool.allocateBlocks numBlocks
    (r, { kv with pool := pool })

/-- One id of the second loop of `release_request_blocks`. -/
def settle (kv : KvBlocks) (id : BlockId) : KvBlocks :=
  if kv.pool.refCount id ≠ 0 then kv
  else if kv.cache.contains id then kv.markIdle id
  else { kv with pool := kv.pool.recycle id }

/-- The second loop of `release_request_blocks`, with its `seen` set. -/
def settleLoop (kv : KvBlocks) (seen : List BlockId) : BlockTable → KvBlocks
  | [] => kv
  | id :: rest =>
    if id ∈ seen then kv.settleLoop seen rest
    else (kv.settle id).settleLoop (id :: seen) rest

/-- `Scheduler::release_request_blocks`. -/
def releaseRequestBlocks (kv : KvBlocks) (table : BlockTable) : KvBlocks :=
  { kv with pool := kv.pool.releaseBlocks table }.settleLoop [] table

end KvBlocks

end CcInfer
