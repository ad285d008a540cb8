import CcInfer.Proofs.State.StateHistory

/-!
# `CcInfer.Proofs.State.FailedSnapshot`: what a failed snapshot leaves behind

`StateCache::snapshot` tests the frontier, throws the least recent entry out if no snapshot is
free, acquires a snapshot and copies the state into it. A copy that fails gives the snapshot back,
so that the same number is free as before. The entry that was thrown out does not come back.
-/

set_option autoImplicit false

namespace CcInfer.Gdn

namespace StatePool

variable {pool pool' : StatePool}

/-- The free snapshots are snapshots. -/
def FreeInRange (pool : StatePool) : Prop :=
  ∀ id ∈ pool.snapshotFreeList, pool.isSnapshot (id : Int) = true

/-- The same snapshots are free, of as many as before. -/
structure SameFree (pool pool' : StatePool) : Prop where
  free : pool'.snapshotFreeList = pool.snapshotFreeList
  maxActive : pool'.maxActive = pool.maxActive
  maxSnapshots : pool'.maxSnapshots = pool.maxSnapshots

theorem SameFree.isSnapshot (h : SameFree pool pool') (state : Int) :
    pool'.isSnapshot state = pool.isSnapshot state := by
  rw [StatePool.isSnapshot, StatePool.isSnapshot, h.maxActive, h.maxSnapshots]

theorem SameFree.freeInRange (h : SameFree pool pool') (hrange : pool.FreeInRange) :
    pool'.FreeInRange := by
  intro id hid
  rw [h.isSnapshot]
  exact hrange id (h.free ▸ hid)

/-- An assertion frees no snapshot. -/
@[simp] theorem assert_frame (pool : StatePool) (b : Bool) (site : AssertSite) :
    (pool.assert b site).snapshotFreeList = pool.snapshotFreeList ∧
    (pool.assert b site).maxActive = pool.maxActive ∧
    (pool.assert b site).maxSnapshots = pool.maxSnapshots := by
  rw [StatePool.assert]
  split <;> exact ⟨rfl, rfl, rfl⟩

theorem sameFree_acquireActive (pool : StatePool) (seq : SequenceId) (device : Device) :
    SameFree pool (pool.acquireActive seq device).2 := by
  rw [acquireActive]
  split
  · exact ⟨rfl, rfl, rfl⟩
  · split
    · exact ⟨rfl, rfl, rfl⟩
    · dsimp only
      split <;> exact ⟨by simp [setStatus], by simp [setStatus], by simp [setStatus]⟩

theorem sameFree_releaseActive (pool : StatePool) (seq : SequenceId) :
    SameFree pool (pool.releaseActive seq) := by
  rw [releaseActive]
  split
  · exact ⟨rfl, rfl, rfl⟩
  · exact ⟨by simp [setStatus], by simp [setStatus], by simp [setStatus]⟩

theorem sameFree_copyActiveToSnapshot (pool : StatePool) (activeState snapshotState : Int)
    (device : Device) :
    SameFree pool (pool.copyActiveToSnapshot activeState snapshotState device).2 := by
  rw [copyActiveToSnapshot]
  split
  · exact ⟨rfl, rfl, rfl⟩
  · split <;> exact ⟨rfl, rfl, rfl⟩

theorem sameFree_restoreSnapshotToActive (pool : StatePool) (snapshotState activeState : Int)
    (device : Device) :
    SameFree pool (pool.restoreSnapshotToActive snapshotState activeState device).2 := by
  rw [restoreSnapshotToActive]
  split
  · exact ⟨rfl, rfl, rfl⟩
  · split <;> exact ⟨rfl, rfl, rfl⟩

/-- `acquire_snapshot` takes the first free snapshot. -/
theorem acquireSnapshot_cases (pool : StatePool) :
    (pool.snapshotFreeList = [] ∧ pool.acquireSnapshot = (.error .maxSequencesReached, pool)) ∨
    ∃ state rest pool', pool.snapshotFreeList = state :: rest ∧
      pool.acquireSnapshot = (.ok state, pool') ∧ pool'.snapshotFreeList = rest ∧
      pool'.maxActive = pool.maxActive ∧ pool'.maxSnapshots = pool.maxSnapshots := by
  rw [acquireSnapshot]
  cases hlist : pool.snapshotFreeList with
  | nil => exact .inl ⟨rfl, rfl⟩
  | cons state rest =>
    exact .inr ⟨state, rest, _, rfl, rfl, rfl, by simp [setStatus], by simp [setStatus]⟩

/-- `release_snapshot` puts a snapshot behind the free ones. -/
theorem releaseSnapshot_cases (pool : StatePool) (state : Int) :
    (pool.isSnapshot state = false ∧ pool.releaseSnapshot state = (.error .invalidArgument, pool)) ∨
    pool.isSnapshot state = true ∧ ∃ pool', pool.releaseSnapshot state = (.ok (), pool') ∧
      pool'.snapshotFreeList = pool.snapshotFreeList ++ [state.toNat] ∧
      pool'.maxActive = pool.maxActive ∧ pool'.maxSnapshots = pool.maxSnapshots := by
  rw [releaseSnapshot]
  cases hsnapshot : pool.isSnapshot state with
  | false => exact .inl ⟨rfl, rfl⟩
  | true =>
    exact .inr ⟨rfl, _, rfl, by simp, by simp [setStatus], by simp [setStatus]⟩

/-- Taking a snapshot off the free list. -/
theorem FreeInRange.acquireSnapshot (h : pool.FreeInRange) :
    pool.acquireSnapshot.2.FreeInRange := by
  rcases pool.acquireSnapshot_cases with ⟨-, hacquire⟩ | ⟨state, rest, pool', hlist, hacquire,
    hfree, hactive, hsnapshots⟩
  · rw [hacquire]
    exact h
  · rw [hacquire]
    intro id hid
    have hmem : id ∈ pool.snapshotFreeList := hlist ▸ List.mem_cons_of_mem _ (hfree ▸ hid)
    have hid := h id hmem
    rwa [isSnapshot, ← hactive, ← hsnapshots] at hid

/-- Putting one back. -/
theorem FreeInRange.releaseSnapshot (h : pool.FreeInRange) (state : Int) :
    (pool.releaseSnapshot state).2.FreeInRange := by
  rcases pool.releaseSnapshot_cases state with ⟨-, hrelease⟩ | ⟨hsnapshot, pool', hrelease, hfree,
    hactive, hsnapshots⟩
  · rw [hrelease]
    exact h
  · rw [hrelease]
    intro id hid
    have hrange : pool.isSnapshot (id : Int) = true := by
      rcases List.mem_append.mp (hfree ▸ hid) with hold | hnew
      · exact h id hold
      · rw [List.mem_singleton.mp hnew, Int.toNat_of_nonneg]
        · exact hsnapshot
        · have := (isSnapshot_iff _ _).mp hsnapshot
          omega
    rwa [isSnapshot, ← hactive, ← hsnapshots] at hrange

end StatePool

namespace States

variable {hash : Hash} {frontierBlock activeState : Int} {device : Device}

/-- Free snapshots are snapshots, and the LRU list holds the entries of the index, each under its
own hash. -/
structure Linked (s : States) : Prop where
  free : s.pool.FreeInRange
  lru : s.cache.lru.Perm (s.cache.byHash.entries.map Sigma.snd)
  keyed : ∀ x ∈ s.cache.byHash.entries, x.2.prefixHash = x.1

/-- The same hashes are cached, each in the same snapshot, and as many snapshots are free. -/
structure SameSnapshots (s s' : States) : Prop where
  has : ∀ hash, s'.cache.has hash = s.cache.has hash
  slot : ∀ hash, s'.cache.stateIdOf hash = s.cache.stateIdOf hash
  free : s'.pool.numFreeSnapshots = s.pool.numFreeSnapshots

variable {s : States}

namespace Linked

/-- The index finds an entry of the LRU list. -/
theorem lookup (h : s.Linked) {e : StateCacheEntry} (he : e ∈ s.cache.lru) :
    s.cache.byHash.lookup e.prefixHash = some e := by
  obtain ⟨⟨hash, e'⟩, hx, rfl⟩ := List.mem_map.mp (h.lru.mem_iff.mp he)
  have hkey : e'.prefixHash = hash := h.keyed _ hx
  subst hkey
  exact AList.mem_lookup_iff.mpr hx

theorem lru_eq_nil_iff (h : s.Linked) : s.cache.lru = [] ↔ s.cache.size = 0 := by
  have hlen := h.lru.length_eq
  rw [List.length_map] at hlen
  rw [StateCache.size, AList.keys, List.keys, List.length_map, ← hlen, List.length_eq_zero_iff]

/-- A call that changes the pool only, and leaves the free snapshots in their range. -/
theorem withPool (h : s.Linked) {pool : StatePool} (hfree : pool.FreeInRange) :
    Linked { s with pool := pool } :=
  ⟨hfree, h.lru, h.keyed⟩

/-- An eviction unlinks one entry. -/
theorem evictOne (h : s.Linked) : s.evictOne.2.Linked := by
  rw [States.evictOne]
  cases hlru : s.cache.lru with
  | nil => exact h
  | cons =>
    have hlookup := h.lookup (hlru ▸ List.mem_cons_self)
    have hentries := StatePool.perm_cons_erase hlookup
    simp only [hlookup]
    refine ⟨h.free.releaseSnapshot _, ?_, fun x hx =>
      h.keyed x (hentries.mem_iff.mpr (List.mem_cons_of_mem _ hx))⟩
    have hperm := h.lru.trans (hentries.map Sigma.snd)
    rw [hlru] at hperm
    rw [StateCache.eraseEntry, hlru, List.erase_cons_head]
    exact hperm.cons_inv

/-- A new entry, or none. -/
theorem insertSnapshot (h : s.Linked) {hash : Hash} (hnew : s.cache.has hash = false)
    (frontierBlock activeState : Int) (device : Device) :
    (s.insertSnapshot hash frontierBlock activeState device).2.Linked := by
  have hacquired := h.free.acquireSnapshot
  rw [States.insertSnapshot]
  generalize s.pool.acquireSnapshot = acquired at *
  obtain ⟨state | state, pool⟩ := acquired
  · exact h.withPool hacquired
  · have hcopied := (pool.sameFree_copyActiveToSnapshot activeState state device).freeInRange
      hacquired
    simp only
    generalize pool.copyActiveToSnapshot activeState state device = copied at *
    obtain ⟨_ | _, _⟩ := copied
    · exact h.withPool (hcopied.releaseSnapshot _)
    · have hnot : hash ∉ s.cache.byHash := fun hmem => by
        rw [← AList.lookup_isSome] at hmem
        rw [StateCache.has, hmem] at hnew
        cases hnew
      refine ⟨hcopied, ?_, fun x hx => ?_⟩
      · rw [AList.entries_insert_of_notMem hnot, List.map_cons]
        exact (List.perm_append_singleton _ _).trans (h.lru.cons _)
      · rw [AList.entries_insert_of_notMem hnot] at hx
        rcases List.mem_cons.mp hx with rfl | hx
        · rfl
        · exact h.keyed x hx

/-- A hash that is not there is not there after an eviction either. -/
theorem has_evictOne (h : s.Linked) {hash : Hash} (hnew : s.cache.has hash = false) :
    s.evictOne.2.cache.has hash = false := by
  rw [States.evictOne]
  cases hlru : s.cache.lru with
  | nil => exact hnew
  | cons victim =>
    simp only [h.lookup (hlru ▸ List.mem_cons_self)]
    rw [StateCache.has, StateCache.eraseEntry]
    by_cases heq : hash = victim.prefixHash
    · rw [heq, AList.lookup_erase]
      rfl
    · rw [AList.lookup_erase_ne heq]
      exact hnew

/-- `snapshot` may evict before it inserts. -/
theorem snapshot (h : s.Linked) (hash : Hash) (frontierBlock activeState : Int) (device : Device) :
    (s.snapshot hash frontierBlock activeState device).2.Linked := by
  rw [States.snapshot]
  split
  · exact h
  · cases hhas : s.cache.has hash with
    | true => exact h
    | false =>
      rw [if_neg Bool.false_ne_true]
      split
      · have hevicted := h.evictOne
        have hnew := h.has_evictOne hhas
        generalize s.evictOne = evicted at *
        obtain ⟨_ | _, _⟩ := evicted
        · exact hevicted
        · exact hevicted.insertSnapshot hnew frontierBlock activeState device
      · exact h.insertSnapshot hhas frontierBlock activeState device

/-- `restore` moves the entry to the back of the list. -/
theorem restore (h : s.Linked) (hash : Hash) (activeState : Int) (device : Device) :
    (s.restore hash activeState device).2.Linked := by
  rw [States.restore]
  cases hlookup : s.cache.byHash.lookup hash with
  | none => exact ⟨h.free, h.lru, h.keyed⟩
  | some entry =>
    refine ⟨?_, ?_, h.keyed⟩
    · exact (s.pool.sameFree_restoreSnapshotToActive entry.stateId activeState
        device).freeInRange h.free
    · simp only
      split
      · rename_i hmem
        exact ((List.perm_append_singleton _ _).trans (List.perm_cons_erase hmem).symm).trans h.lru
      · exact h.lru

/-- No call breaks the links. -/
theorem step (h : s.Linked) (call : StateCall) : (s.step call).Linked := by
  cases call with
  | acquireActive seq device =>
    exact h.withPool ((s.pool.sameFree_acquireActive seq device).freeInRange h.free)
  | releaseActive seq =>
    exact h.withPool ((s.pool.sameFree_releaseActive seq).freeInRange h.free)
  | write =>
    rw [States.step, States.write]
    split
    · exact h
    · exact h.withPool h.free
  | snapshot hash frontierBlock activeState device =>
    exact h.snapshot hash frontierBlock activeState device
  | restore hash activeState device => exact h.restore hash activeState device
  | evictOne => exact h.evictOne
  | copyActiveToSnapshot activeState snapshotState device =>
    exact h.withPool ((s.pool.sameFree_copyActiveToSnapshot activeState snapshotState
      device).freeInRange h.free)
  | restoreSnapshotToActive snapshotState activeState device =>
    exact h.withPool ((s.pool.sameFree_restoreSnapshotToActive snapshotState activeState
      device).freeInRange h.free)
  | acquireSnapshot => exact h.withPool h.free.acquireSnapshot
  | releaseSnapshot state => exact h.withPool (h.free.releaseSnapshot state)

theorem after (h : s.Linked) (calls : List StateCall) : (s.after calls).Linked := by
  induction calls generalizing s with
  | nil => exact h
  | cons call _ ih => exact ih (h.step call)

end Linked

theorem start_linked {config : ModelConfig} {maxActive maxSnapshots : Int} {device : Result Unit}
    {pool : StatePool} (hcreate : StatePool.create config maxActive maxSnapshots device = .ok pool)
    (frontierDepth : Int) : (start pool frontierDepth).Linked := by
  obtain ⟨hsound, -⟩ := start_sound hcreate frontierDepth
  refine ⟨fun id hid => ?_, hsound.lru.trans hsound.byHash.symm, hsound.keyed⟩
  have hrange := hsound.owned.mem_snapshots.mp (.inl hid)
  rw [StatePool.isSnapshot_iff]
  omega

/-! ### Failure -/

/-- Behind the eviction, a failure leaves the cache alone. -/
theorem cache_insertSnapshot
    (hfail : (s.insertSnapshot hash frontierBlock activeState device).1 ≠ .ok ()) :
    (s.insertSnapshot hash frontierBlock activeState device).2.cache = s.cache := by
  rw [States.insertSnapshot] at hfail ⊢
  generalize s.pool.acquireSnapshot = acquired at *
  obtain ⟨err | state, pool⟩ := acquired
  · rfl
  · simp only at hfail ⊢
    generalize pool.copyActiveToSnapshot activeState state device = copied at *
    obtain ⟨_ | _, _⟩ := copied
    · rfl
    · exact absurd rfl hfail

/-- A snapshot that was acquired for a copy that fails is free again. -/
theorem Linked.free_insertSnapshot (h : s.Linked)
    (hfail : (s.insertSnapshot hash frontierBlock activeState device).1 ≠ .ok ()) :
    (s.insertSnapshot hash frontierBlock activeState device).2.pool.numFreeSnapshots =
      s.pool.numFreeSnapshots := by
  rw [States.insertSnapshot] at hfail ⊢
  rcases s.pool.acquireSnapshot_cases with ⟨-, hacquire⟩ | ⟨state, rest, pool, hlist, hacquire,
    hfree, hactive, hsnapshots⟩
  · rw [hacquire]
  · have hcopy := pool.sameFree_copyActiveToSnapshot activeState state device
    rw [hacquire] at hfail ⊢
    simp only at hfail ⊢
    generalize pool.copyActiveToSnapshot activeState state device = copied at *
    obtain ⟨_ | _, pool'⟩ := copied
    · have hrange : pool'.isSnapshot (state : Int) = true := by
        have hstate := h.free state (hlist ▸ List.mem_cons_self)
        rw [hcopy.isSnapshot, StatePool.isSnapshot, hactive, hsnapshots]
        exact hstate
      obtain ⟨-, _, hrelease, hfree', -⟩ :=
        (pool'.releaseSnapshot_cases state).resolve_left fun hout => by
          rw [hrange] at hout
          cases hout.1
      simp only [hrelease, StatePool.numFreeSnapshots]
      rw [hfree', hcopy.free, hfree, hlist, List.length_append, List.length_singleton,
        List.length_cons]
    · exact absurd rfl hfail

theorem Linked.sameSnapshots_insertSnapshot (h : s.Linked)
    (hfail : (s.insertSnapshot hash frontierBlock activeState device).1 ≠ .ok ()) :
    SameSnapshots s (s.insertSnapshot hash frontierBlock activeState device).2 := by
  have hcache := cache_insertSnapshot hfail
  exact ⟨fun _ => by rw [hcache], fun _ => by rw [hcache], h.free_insertSnapshot hfail⟩

/-- An eviction takes the hash of the least recent entry out of the cache. -/
theorem Linked.evictOne_cons (h : s.Linked) {victim : StateCacheEntry}
    {rest : List StateCacheEntry} (hlru : s.cache.lru = victim :: rest) :
    s.evictOne.1 = true ∧ s.cache.has victim.prefixHash = true ∧
      s.evictOne.2.cache.has victim.prefixHash = false := by
  have hlookup := h.lookup (hlru ▸ List.mem_cons_self)
  refine ⟨?_, ?_, ?_⟩
  · simp only [States.evictOne, hlru, hlookup]
  · rw [StateCache.has, hlookup]
    rfl
  · simp only [States.evictOne, hlru, hlookup]
    rw [StateCache.has, StateCache.eraseEntry, AList.lookup_erase]
    rfl

/-- A failed snapshot changes nothing, unless it threw an entry out. -/
theorem Linked.sameSnapshots_snapshot_iff (h : s.Linked)
    (hfail : (s.snapshot hash frontierBlock activeState device).1 ≠ .ok ()) :
    SameSnapshots s (s.snapshot hash frontierBlock activeState device).2 ↔
      (frontierBlock < 0 ∨ s.cache.frontierDepth ≤ frontierBlock) ∨
        s.pool.numFreeSnapshots ≠ 0 ∨ s.cache.size = 0 := by
  have hsame : SameSnapshots s s := ⟨fun _ => rfl, fun _ => rfl, rfl⟩
  rw [States.snapshot] at hfail ⊢
  by_cases hfrontier : frontierBlock < 0 ∨ s.cache.frontierDepth ≤ frontierBlock
  · rw [if_pos hfrontier]
    exact ⟨fun _ => .inl hfrontier, fun _ => hsame⟩
  · rw [if_neg hfrontier] at hfail ⊢
    cases hhas : s.cache.has hash with
    | true =>
      rw [hhas, if_pos rfl] at hfail
      exact absurd rfl hfail
    | false =>
      rw [hhas, if_neg Bool.false_ne_true] at hfail
      rw [if_neg Bool.false_ne_true]
      by_cases hfree : s.pool.numFreeSnapshots = 0
      · rw [if_pos hfree] at hfail ⊢
        cases hlru : s.cache.lru with
        | nil =>
          have hevict : s.evictOne = (false, s) := by rw [States.evictOne, hlru]
          rw [hevict]
          exact ⟨fun _ => .inr (.inr (h.lru_eq_nil_iff.mp hlru)), fun _ => hsame⟩
        | cons victim =>
          obtain ⟨hevict, hbefore, hafter⟩ := h.evictOne_cons hlru
          have hsize : s.cache.size ≠ 0 := fun hzero => by
            rw [h.lru_eq_nil_iff.mpr hzero] at hlru
            cases hlru
          generalize s.evictOne = evicted at *
          obtain ⟨b, _⟩ := evicted
          obtain rfl : b = true := hevict
          dsimp only at hfail hafter ⊢
          constructor
          · -- the hash of the victim is gone
            intro hunchanged
            have hgone := hunchanged.has victim.prefixHash
            rw [cache_insertSnapshot hfail, hafter, hbefore] at hgone
            cases hgone
          · rintro (hout | hnonzero | hzero)
            · exact absurd hout hfrontier
            · exact absurd hfree hnonzero
            · exact absurd hzero hsize
      · rw [if_neg hfree] at hfail ⊢
        exact ⟨fun _ => .inr (.inl hfree), fun _ => h.sameSnapshots_insertSnapshot hfail⟩

/-- After any calls, a snapshot that fails leaves the cached hashes, their snapshots and the number
of free snapshots as they were exactly if its frontier is out of range, or a snapshot was free, or
the cache was empty. -/
theorem failed_snapshot_iff {config : ModelConfig} {maxActive maxSnapshots : Int}
    {device : Result Unit} {pool : StatePool}
    (hcreate : StatePool.create config maxActive maxSnapshots device = .ok pool)
    (frontierDepth : Int) (calls : List StateCall) (hash : Hash) (frontierBlock activeState : Int)
    (copies : Device)
    (hfail : (((start pool frontierDepth).after calls).snapshot hash frontierBlock activeState
      copies).1 ≠ .ok ()) : SameSnapshots ((start pool frontierDepth).after calls)
        (((start pool frontierDepth).after calls).snapshot hash frontierBlock activeState
          copies).2 ↔ (frontierBlock < 0 ∨
        ((start pool frontierDepth).after calls).cache.frontierDepth ≤ frontierBlock) ∨
      ((start pool frontierDepth).after calls).pool.numFreeSnapshots ≠ 0 ∨
      ((start pool frontierDepth).after calls).cache.size = 0 :=
  ((start_linked hcreate frontierDepth).after calls).sameSnapshots_snapshot_iff hfail

/-- A state that does not exist, while a snapshot is free. -/
theorem failed_snapshot_iff_tiny : ∃ pool, StatePool.create tinyConfig 1 1 (.ok ()) = .ok pool ∧
    ((start pool 1).after []).pool.numFreeSnapshots ≠ 0 ∧ SameSnapshots ((start pool 1).after [])
      (((start pool 1).after []).snapshot 5 0 (-1) goodDevice).2 := by
  obtain ⟨pool, hcreate, hfree, hfail⟩ : ∃ pool,
      StatePool.create tinyConfig 1 1 (.ok ()) = .ok pool ∧
      ((start pool 1).after []).pool.numFreeSnapshots ≠ 0 ∧
      (((start pool 1).after []).snapshot 5 0 (-1) goodDevice).1 ≠ .ok () :=
    ⟨_, rfl, by decide, by decide⟩
  exact ⟨pool, hcreate, hfree,
    (failed_snapshot_iff hcreate 1 [] 5 0 (-1) goodDevice hfail).mpr (.inr (.inl hfree))⟩

/-- A state that does not exist, while the only snapshot is taken: the snapshot fails, its hash is
not cached, and the hash that was cached is gone. -/
theorem failed_snapshot_evicts : ∃ pool, StatePool.create tinyConfig 1 1 (.ok ()) = .ok pool ∧
    ((start pool 1).after [.acquireActive 7 goodDevice, .snapshot 5 0 0 goodDevice]).cache.has 5 =
      true ∧
    (((start pool 1).after [.acquireActive 7 goodDevice, .snapshot 5 0 0 goodDevice]).snapshot 6 0
      (-1) goodDevice).1 = .error .invalidArgument ∧
    (((start pool 1).after [.acquireActive 7 goodDevice, .snapshot 5 0 0 goodDevice]).snapshot 6 0
      (-1) goodDevice).2.cache.has 5 = false ∧ ((start pool 1).after [.acquireActive 7 goodDevice,
      .snapshot 5 0 0 goodDevice]).pool.numFreeSnapshots = 0 ∧
    (((start pool 1).after [.acquireActive 7 goodDevice, .snapshot 5 0 0 goodDevice]).snapshot 6 0
      (-1) goodDevice).2.pool.numFreeSnapshots = 1 :=
  ⟨_, rfl, by decide, by decide, by decide, by decide, by decide⟩

end States

end CcInfer.Gdn
