import CcInfer.Base.Types
import Mathlib.Logic.Function.Basic

/-!
# `CcInfer.Block.BlockPool`: KV block metadata, reference counts and the free list

The embedding of `block/block.h` and `block/block_pool.cpp`. The metadata array is a
function on block ids, read below `maxBlocks` only. The intrusive free list is the list of
the linked ids, front first. The mutex is left out: every call comes from the scheduler
thread, and `capacity` only reads. `ref_count` also asserts that the id is in range; each of
its callers has asserted that of the same id before, or does so right after.
-/

set_option autoImplicit false

namespace CcInfer

/-- `BlockStatus`. -/
inductive BlockStatus
  | free
  | inUse
  deriving DecidableEq, Repr

/-- `Block`, without its id (the index) and its free-list hook (membership). -/
structure Block where
  refCount : Nat
  status : BlockStatus
  deriving DecidableEq, Repr

/-- `BlockPool`. -/
structure BlockPool where
  maxBlocks : Nat
  blockSize : Nat
  blocks : BlockId → Block
  freeList : List BlockId
  /-- Ghost: blocks taken by an `allocateBlocks` that failed. -/
  leaked : List BlockId
  /-- Ghost: assertions of this class that did not hold. -/
  failedAsserts : List AssertSite

namespace BlockPool

/-- `BlockPool::init` on arguments it accepts. -/
def init (maxBlocks blockSize : Nat) : BlockPool where
  maxBlocks := maxBlocks
  blockSize := blockSize
  blocks := fun _ => ⟨0, .free⟩
  freeList := List.range maxBlocks
  leaked := []
  failedAsserts := []

/-- Log a failed assertion. -/
def assert (p : BlockPool) (b : Bool) (site : AssertSite) : BlockPool :=
  if b then p else { p with failedAsserts := p.failedAsserts ++ [site] }

/-- Overwrite the metadata of one block. -/
def setBlock (p : BlockPool) (id : BlockId) (b : Block) : BlockPool :=
  { p with blocks := Function.update p.blocks id b }

/-- `BlockPool::ref_count`. -/
def refCount (p : BlockPool) (id : BlockId) : Nat := (p.blocks id).refCount

/-- The status of a block. -/
def status (p : BlockPool) (id : BlockId) : BlockStatus := (p.blocks id).status

/-- `BlockPool::num_free_blocks`. -/
def numFreeBlocks (p : BlockPool) : Nat := p.freeList.length

/-- `BlockPool::allocate`. -/
def allocate (p : BlockPool) : Result BlockId × BlockPool :=
  match p.freeList with
  | [] => (.error .kvBlockExhausted, p)
  | id :: rest =>
    let p := p.assert (p.status id = .free && p.refCount id = 0) .allocateFree
    (.ok id, { p.setBlock id ⟨1, .inUse⟩ with freeList := rest })

/-- The loop of `BlockPool::allocate_blocks`: `table` holds the ids taken so far. A failure
returns the error and drops `table` without a release. -/
def allocateLoop (p : BlockPool) (table : BlockTable) : Nat → Result BlockTable × BlockPool
  | 0 => (.ok table, p)
  | n + 1 =>
    match p.allocate with
    | (.error e, p) => (.error e, { p with leaked := p.leaked ++ table })
    | (.ok id, p) => allocateLoop p (table ++ [id]) n

/-- `BlockPool::allocate_blocks`. -/
def allocateBlocks (p : BlockPool) (numBlocks : Nat) : Result BlockTable × BlockPool :=
  (p.assert (0 < numBlocks) .allocateCount).allocateLoop [] numBlocks

/-- `BlockPool::retain_request`. -/
def retainRequest (p : BlockPool) (id : BlockId) : BlockPool :=
  let p := p.assert (id < p.maxBlocks && p.status id = .inUse && 0 < p.refCount id)
    .retainReferenced
  p.setBlock id { p.blocks id with refCount := p.refCount id + 1 }

/-- `BlockPool::release_request`. -/
def releaseRequest (p : BlockPool) (id : BlockId) : BlockPool :=
  let p := p.assert (id < p.maxBlocks && p.status id = .inUse && 0 < p.refCount id)
    .releaseReferenced
  p.setBlock id { p.blocks id with refCount := p.refCount id - 1 }

/-- `BlockPool::release_blocks`. -/
def releaseBlocks (p : BlockPool) (table : BlockTable) : BlockPool :=
  table.foldl releaseRequest p

/-- `BlockPool::recycle`. -/
def recycle (p : BlockPool) (id : BlockId) : BlockPool :=
  let p := p.assert (id < p.maxBlocks && p.status id = .inUse && p.refCount id = 0)
    .recycleUnreferenced
  { p.setBlock id { p.blocks id with status := .free } with freeList := p.freeList ++ [id] }

end BlockPool

end CcInfer
