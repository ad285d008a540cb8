import CcInfer.Cache.BlockCache
import Mathlib.Data.List.Count
import Mathlib.Tactic.Common

/-!
# `CcInfer.Proofs.Kv.Pool`: what each pool operation changes

What an operation of `BlockPool` keeps, and what it changes: the reference counts, the
statuses and the free list after the operation, as functions of those before. Later modules
rewrite with these and do not unfold the operations again.
-/

set_option autoImplicit false

namespace CcInfer.BlockPool

variable (p : BlockPool) (id b : BlockId)

/-! ### Assertions -/

/-- A failed assertion is logged, and nothing else changes. -/
@[simp] theorem assert_frame (c : Bool) (site : AssertSite) :
    (p.assert c site).maxBlocks = p.maxBlocks ∧ (p.assert c site).blockSize = p.blockSize ∧
    (p.assert c site).blocks = p.blocks ∧ (p.assert c site).freeList = p.freeList ∧
    (p.assert c site).leaked = p.leaked := by
  unfold assert
  split <;> exact ⟨rfl, rfl, rfl, rfl, rfl⟩

/-- An assertion counts no reference. -/
@[simp] theorem assert_refCount (c : Bool) (site : AssertSite) :
    (p.assert c site).refCount b = p.refCount b := by
  simp [refCount]

/-! ### Retaining and releasing one reference -/

/-- A retain leaves the free list and the statuses alone. -/
@[simp] theorem retainRequest_frame : (p.retainRequest id).maxBlocks = p.maxBlocks ∧
    (p.retainRequest id).blockSize = p.blockSize ∧ (p.retainRequest id).freeList = p.freeList ∧
    (p.retainRequest id).leaked = p.leaked ∧ ∀ b, (p.retainRequest id).status b = p.status b := by
  simp only [retainRequest, setBlock, assert_frame, status, true_and]
  intro b
  by_cases h : b = id
  · subst h; simp
  · simp [h]

/-- A retain counts one reference to its block. -/
theorem retainRequest_refCount :
    (p.retainRequest id).refCount b = p.refCount b + if b = id then 1 else 0 := by
  by_cases h : b = id
  · subst h; simp [retainRequest, setBlock, refCount]
  · simp [retainRequest, setBlock, refCount, h]

/-- A release leaves the free list and the statuses alone. -/
@[simp] theorem releaseRequest_frame : (p.releaseRequest id).maxBlocks = p.maxBlocks ∧
    (p.releaseRequest id).blockSize = p.blockSize ∧
    (p.releaseRequest id).freeList = p.freeList ∧ (p.releaseRequest id).leaked = p.leaked ∧
    ∀ b, (p.releaseRequest id).status b = p.status b := by
  simp only [releaseRequest, setBlock, assert_frame, status, true_and]
  intro b
  by_cases h : b = id
  · subst h; simp
  · simp [h]

/-- A release gives back one reference to its block, if there is one. -/
theorem releaseRequest_refCount :
    (p.releaseRequest id).refCount b = p.refCount b - if b = id then 1 else 0 := by
  by_cases h : b = id
  · subst h; simp [releaseRequest, setBlock, refCount]
  · simp [releaseRequest, setBlock, refCount, h]

/-! ### Releasing a table -/

/-- `releaseBlocks` touches the reference counts only, and lowers each by the number of
occurrences in the table. The counts saturate at zero, as `releaseRequest` does. -/
theorem releaseBlocks_spec (table : BlockTable) : (p.releaseBlocks table).maxBlocks = p.maxBlocks ∧
    (p.releaseBlocks table).blockSize = p.blockSize ∧
    (p.releaseBlocks table).freeList = p.freeList ∧ (p.releaseBlocks table).leaked = p.leaked ∧
    (∀ b, (p.releaseBlocks table).status b = p.status b) ∧
    ∀ b, (p.releaseBlocks table).refCount b = p.refCount b - table.count b := by
  induction table generalizing p with
  | nil => simp [releaseBlocks]
  | cons id rest ih =>
    have hfold : p.releaseBlocks (id :: rest) = (p.releaseRequest id).releaseBlocks rest := rfl
    obtain ⟨hmax, hsize, hfree, hleak, hstatus, href⟩ := ih (p.releaseRequest id)
    refine ⟨by simp [hfold, hmax], by simp [hfold, hsize], by simp [hfold, hfree],
      by simp [hfold, hleak], fun b => by simp [hfold, hstatus], fun b => ?_⟩
    rw [hfold, href, releaseRequest_refCount, List.count_cons]
    by_cases h : b = id
    · subst h; simp; omega
    · simp [h, Ne.symm h]

/-! ### Recycling -/

/-- A recycled block goes to the back of the free list with its count as it is. -/
@[simp] theorem recycle_frame : (p.recycle id).maxBlocks = p.maxBlocks ∧
    (p.recycle id).blockSize = p.blockSize ∧ (p.recycle id).freeList = p.freeList ++ [id] ∧
    (p.recycle id).leaked = p.leaked ∧ ∀ b, (p.recycle id).refCount b = p.refCount b := by
  simp only [recycle, setBlock, assert_frame, refCount, true_and]
  intro b
  by_cases h : b = id
  · subst h; simp
  · simp [h]

/-- A recycled block is free. -/
theorem recycle_status : (p.recycle id).status b = if b = id then .free else p.status b := by
  by_cases h : b = id
  · subst h; simp [recycle, setBlock, status]
  · simp [recycle, setBlock, status, h]

/-! ### Allocating one block -/

/-- `allocate` on an empty free list. -/
theorem allocate_nil (h : p.freeList = []) : p.allocate = (.error .kvBlockExhausted, p) := by
  unfold allocate; rw [h]

/-- `allocate` takes the front of the free list. -/
theorem allocate_cons (rest : List BlockId) (h : p.freeList = id :: rest) :
    ∃ p', p.allocate = (.ok id, p') ∧ p'.maxBlocks = p.maxBlocks ∧ p'.blockSize = p.blockSize ∧
      p'.freeList = rest ∧ p'.leaked = p.leaked ∧
      (∀ b, p'.status b = if b = id then .inUse else p.status b) ∧
      ∀ b, p'.refCount b = if b = id then 1 else p.refCount b := by
  unfold allocate
  rw [h]
  refine ⟨_, rfl, by simp [setBlock], by simp [setBlock], rfl, by simp [setBlock], ?_, ?_⟩
  · intro b
    by_cases hb : b = id
    · subst hb; simp [setBlock, status]
    · simp [setBlock, status, hb]
  · intro b
    by_cases hb : b = id
    · subst hb; simp [setBlock, refCount]
    · simp [setBlock, refCount, hb]

/-- A call that asks for blocks passes its own assertion. -/
theorem allocateBlocks_of_pos {n : Nat} (hn : n ≠ 0) :
    p.allocateBlocks n = p.allocateLoop [] n := by
  rw [allocateBlocks, assert, if_pos (decide_eq_true (Nat.pos_of_ne_zero hn))]

end CcInfer.BlockPool
