import CcInfer.State.StatePool
import CcInfer.State.StateStorage
import Mathlib.Data.List.AList

/-!
# `CcInfer.State.SnapshotPool`: the metadata of all GDN states

The embedding of `StatePool` of `state/state_pool.cpp` with its storage, the metadata of every
state, both free lists and the map of the sequences. The first `max_active` states are mutable, the
others are snapshots. `CcInfer.StatePool` is the mutable part alone, as the Worker uses it.
-/

set_option autoImplicit false

namespace CcInfer.Gdn

/-- `StateKind`. -/
inductive StateKind
  | mutable
  | snapshot
  deriving DecidableEq, Repr

/-- `StateStatus`. -/
inductive StateStatus
  | free
  | inUse
  deriving DecidableEq, Repr

/-- `State`, without its id (the index) and its free-list hook (membership). -/
structure State where
  kind : StateKind
  status : StateStatus
  deriving DecidableEq, Repr

/-- The `assert` statements of `StatePool` and `StateCache`. -/
inductive AssertSite
  /-- `acquire_active`: the popped state is free and mutable. -/
  | acquireActive
  /-- `release_active`: the state of the sequence is in the mutable range. -/
  | releaseActiveRange
  /-- `release_active`: the state is in use and mutable. -/
  | releaseActiveInUse
  /-- `acquire_snapshot`: the popped state is free and a snapshot. -/
  | acquireSnapshot
  /-- `release_snapshot`: the state is in use and a snapshot. -/
  | releaseSnapshot
  /-- `StateCache::StateCache`: the depth is not negative. -/
  | frontierDepth
  /-- `StateCache::evict_one`: the victim is indexed by its hash. -/
  | evictIndexed
  deriving DecidableEq, Repr

/-- `StatePool`. -/
structure StatePool where
  storage : StateStorage
  maxActive : Nat
  maxSnapshots : Nat
  /-- `states_`. -/
  states : Nat → State
  mutableFreeList : List Nat
  snapshotFreeList : List Nat
  activeBySeq : AList fun _ : SequenceId => Nat
  /-- Ghost: assertions of this class that did not hold. -/
  failedAsserts : List AssertSite

namespace StatePool

/-- `StatePool::create`, where `device` is the outcome of the device calls that create the storage.
-/
def create (config : ModelConfig) (maxActive maxSnapshots : Int) (device : Result Unit) :
    Result StatePool :=
  if maxActive ≤ 0 ∨ maxSnapshots < 0 then .error .invalidArgument
  else
    match StateStorage.create config (maxActive + maxSnapshots) device with
    | .error err => .error err
    | .ok storage => .ok
      { storage := storage
        maxActive := maxActive.toNat
        maxSnapshots := maxSnapshots.toNat
        states := fun state => ⟨if state < maxActive.toNat then .mutable else .snapshot, .free⟩
        mutableFreeList := List.range maxActive.toNat
        snapshotFreeList := List.range' maxActive.toNat maxSnapshots.toNat
        activeBySeq := ∅
        failedAsserts := [] }

variable (pool : StatePool)

/-- Log a failed assertion. -/
def assert (b : Bool) (site : AssertSite) : StatePool :=
  if b then pool else { pool with failedAsserts := pool.failedAsserts ++ [site] }

/-- `meta.status = status`. -/
def setStatus (state : Nat) (status : StateStatus) : StatePool :=
  { pool with
    states := Function.update pool.states state { pool.states state with status := status } }

/-- `StatePool::active_state_of`. -/
def activeStateOf (seq : SequenceId) : Option Nat := pool.activeBySeq.lookup seq

/-- `StatePool::num_free_snapshots`. -/
def numFreeSnapshots : Nat := pool.snapshotFreeList.length

/-- `StatePool::acquire_active`. -/
def acquireActive (seq : SequenceId) (device : Device) : Result Unit × StatePool :=
  match pool.activeBySeq.lookup seq with
  | some _ => (.ok (), pool)
  | none =>
    match pool.mutableFreeList with
    | [] => (.error .maxSequencesReached, pool)
    | state :: rest =>
      let pool := pool.assert
        ((pool.states state).status = .free && (pool.states state).kind = .mutable) .acquireActive
      match pool.storage.zeroState state device with
      | (.error err, storage) =>
        (.error err, { pool with storage := storage, mutableFreeList := rest ++ [state] })
      | (.ok (), storage) =>
        (.ok (),
          { pool.setStatus state .inUse with
            storage := storage
            mutableFreeList := rest
            activeBySeq := pool.activeBySeq.insert seq state })

/-- `StatePool::release_active`. -/
def releaseActive (seq : SequenceId) : StatePool :=
  match pool.activeBySeq.lookup seq with
  | none => pool
  | some state =>
    let pool := { pool with activeBySeq := pool.activeBySeq.erase seq }
    let pool := pool.assert (state < pool.maxActive) .releaseActiveRange
    let pool := pool.assert
      ((pool.states state).status = .inUse && (pool.states state).kind = .mutable)
      .releaseActiveInUse
    { pool.setStatus state .free with mutableFreeList := pool.mutableFreeList ++ [state] }

/-- `StatePool::acquire_snapshot`. -/
def acquireSnapshot : Result Nat × StatePool :=
  match pool.snapshotFreeList with
  | [] => (.error .maxSequencesReached, pool)
  | state :: rest =>
    let pool := pool.assert
      ((pool.states state).status = .free && (pool.states state).kind = .snapshot) .acquireSnapshot
    (.ok state, { pool.setStatus state .inUse with snapshotFreeList := rest })

/-- The test for a snapshot state that `release_snapshot` and both copies make. -/
def isSnapshot (state : Int) : Bool :=
  pool.maxActive ≤ state && state < pool.maxActive + pool.maxSnapshots

/-- The test for a mutable state that both copies make. -/
def isActive (state : Int) : Bool := 0 ≤ state && state < pool.maxActive

/-- `StatePool::release_snapshot`. -/
def releaseSnapshot (state : Int) : Result Unit × StatePool :=
  if !pool.isSnapshot state then (.error .invalidArgument, pool)
  else
    let id := state.toNat
    let pool := pool.assert
      ((pool.states id).status = .inUse && (pool.states id).kind = .snapshot) .releaseSnapshot
    (.ok (), { pool.setStatus id .free with snapshotFreeList := pool.snapshotFreeList ++ [id] })

/-- `StatePool::copy_active_to_snapshot`. -/
def copyActiveToSnapshot (activeState snapshotState : Int) (device : Device) :
    Result Unit × StatePool :=
  if !pool.isActive activeState then (.error .invalidArgument, pool)
  else if !pool.isSnapshot snapshotState then (.error .invalidArgument, pool)
  else
    let (result, storage) := pool.storage.copyState activeState snapshotState device
    (result, { pool with storage := storage })

/-- `StatePool::restore_snapshot_to_active`. -/
def restoreSnapshotToActive (snapshotState activeState : Int) (device : Device) :
    Result Unit × StatePool :=
  if !pool.isActive activeState then (.error .invalidArgument, pool)
  else if !pool.isSnapshot snapshotState then (.error .invalidArgument, pool)
  else
    let (result, storage) := pool.storage.copyState snapshotState activeState device
    (result, { pool with storage := storage })

end StatePool

end CcInfer.Gdn
