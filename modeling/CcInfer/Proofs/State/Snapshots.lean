import CcInfer.Lib.LruMap
import CcInfer.Proofs.State.Slots

/-!
# `CcInfer.Proofs.State.Snapshots`: the snapshot cache over its pool

`States.Sound` says that the snapshots in use are those of the entries of the cache, one each, and
that the list of entries, the LRU list and the hash index hold the same entries. Each function of
the cache keeps it.
-/

set_option autoImplicit false

namespace CcInfer.Gdn

/-- The content of a state: its slot in every tensor. -/
abbrev Content := List (List UInt8)

namespace States

/-- The snapshots that the cache holds. -/
def heldSnapshots (s : States) : List Nat := s.cache.entries.map (·.stateId)

/-- The hashes of the cache with the contents of their snapshots, the least recent first. -/
def cached (s : States) : List (Hash × Content) :=
  s.cache.lru.map fun e => (e.prefixHash, s.pool.storage.content e.stateId)

/-- Pool and cache agree on the snapshots in use, and the indexes of the cache on its entries. -/
structure Sound (s : States) : Prop where
  owned : s.pool.Owned s.heldSnapshots
  lru : s.cache.lru.Perm s.cache.entries
  byHash : (s.cache.byHash.entries.map Sigma.snd).Perm s.cache.entries
  keyed : ∀ x ∈ s.cache.byHash.entries, x.2.prefixHash = x.1

/-- What no call changes: the sizes, and the failed assertions of the cache. -/
structure Steady (s s' : States) : Prop where
  maxActive : s'.pool.maxActive = s.pool.maxActive
  maxSnapshots : s'.pool.maxSnapshots = s.pool.maxSnapshots
  numLayers : s'.pool.storage.numLayers = s.pool.storage.numLayers
  frontierDepth : s'.cache.frontierDepth = s.cache.frontierDepth
  asserts : s'.cache.failedAsserts = s.cache.failedAsserts

variable {s : States}

theorem Steady.refl (s : States) : Steady s s := ⟨rfl, rfl, rfl, rfl, rfl⟩

theorem Steady.trans {s s' s'' : States} (h : Steady s s') (h' : Steady s' s'') : Steady s s'' :=
  ⟨h'.maxActive.trans h.maxActive, h'.maxSnapshots.trans h.maxSnapshots,
    h'.numLayers.trans h.numLayers, h'.frontierDepth.trans h.frontierDepth,
    h'.asserts.trans h.asserts⟩

namespace Sound

/-- The index finds the entry of a hash. -/
theorem lookup_eq_some_iff (h : s.Sound) {hash : Hash} {e : StateCacheEntry} :
    s.cache.byHash.lookup hash = some e ↔ e ∈ s.cache.entries ∧ e.prefixHash = hash := by
  constructor
  · intro hlookup
    have hmem : (⟨hash, e⟩ : Sigma fun _ : Hash => StateCacheEntry) ∈ s.cache.byHash.entries :=
      AList.mem_lookup_iff.mp hlookup
    exact ⟨h.byHash.mem_iff.mp (List.mem_map_of_mem hmem), h.keyed _ hmem⟩
  · rintro ⟨hmem, rfl⟩
    obtain ⟨⟨hash, e'⟩, hx, rfl⟩ := List.mem_map.mp (h.byHash.mem_iff.mpr hmem)
    have hkey : e'.prefixHash = hash := h.keyed _ hx
    subst hkey
    exact AList.mem_lookup_iff.mpr hx

theorem has_iff (h : s.Sound) {hash : Hash} :
    s.cache.has hash = true ↔ ∃ e ∈ s.cache.entries, e.prefixHash = hash := by
  rw [StateCache.has, Option.isSome_iff_exists]
  simp only [h.lookup_eq_some_iff]

theorem hashes_nodup (h : s.Sound) : (s.cache.entries.map (·.prefixHash)).Nodup := by
  have hkeys : (s.cache.byHash.entries.map Sigma.snd).map (·.prefixHash) =
      s.cache.byHash.entries.map Sigma.fst := by
    rw [List.map_map]
    exact List.map_congr_left h.keyed
  rw [← (h.byHash.map (·.prefixHash)).nodup_iff, hkeys]
  exact s.cache.byHash.nodupKeys

/-- The number of entries, as the source counts it. -/
theorem size_eq (h : s.Sound) : s.cache.size = s.cache.entries.length := by
  have hlen := h.byHash.length_eq
  rw [List.length_map] at hlen
  rw [StateCache.size, AList.keys, List.keys, List.length_map, hlen]

theorem free_add_size (h : s.Sound) :
    s.pool.numFreeSnapshots + s.cache.size = s.pool.maxSnapshots := by
  have hlen := h.owned.snapshots.length_eq
  rw [List.length_append, List.length_range', heldSnapshots, List.length_map] at hlen
  rw [h.size_eq, StatePool.numFreeSnapshots, hlen]

/-- The keys of the cached list. -/
theorem cached_keys (s : States) : s.cached.map Prod.fst = s.cache.lru.map (·.prefixHash) := by
  rw [cached, List.map_map]
  rfl

theorem has_iff_mem_cached (h : s.Sound) {hash : Hash} :
    s.cache.has hash = true ↔ hash ∈ s.cached.map Prod.fst := by
  rw [h.has_iff, cached_keys, List.mem_map]
  exact exists_congr fun e => and_congr_left fun _ => h.lru.mem_iff.symm

theorem cached_length (h : s.Sound) : s.cached.length = s.cache.size := by
  rw [cached, List.length_map, h.lru.length_eq, h.size_eq]

end Sound

/-! ### Eviction -/

/-- `evict_one` throws the least recent entry out, if there is one, and gives its snapshot back. -/
theorem Sound.evictOne (h : s.Sound) : s.evictOne.2.Sound ∧ Steady s s.evictOne.2 ∧
      s.evictOne.2.pool.storage = s.pool.storage ∧ s.evictOne.2.cache.lru = s.cache.lru.tail ∧
      (s.evictOne.1 = true ↔ s.cache.lru ≠ []) := by
  rw [States.evictOne]
  cases hlru : s.cache.lru with
  | nil => exact ⟨h, .refl s, rfl, hlru, nofun, fun hne => absurd rfl hne⟩
  | cons victim =>
    have hmem : victim ∈ s.cache.entries := h.lru.mem_iff.mp (hlru ▸ List.mem_cons_self)
    have hlookup := h.lookup_eq_some_iff.mpr ⟨hmem, rfl⟩
    have hheld : victim.stateId ∈ s.heldSnapshots := List.mem_map_of_mem hmem
    have hentries := List.perm_cons_erase hmem
    obtain ⟨_, hrelease, howned, hstorage, hactive, hsnapshots, -⟩ :=
      h.owned.releaseSnapshot hheld
    simp only [hlookup, hrelease]
    refine ⟨⟨howned.perm ?_, ?_, ?_, ?_⟩,
      ⟨hactive, hsnapshots, by rw [hstorage], rfl, rfl⟩, hstorage, ?_, fun _ => nofun,
        fun _ => trivial⟩
    · have hstates : s.heldSnapshots.Perm
          (victim.stateId :: (s.cache.entries.erase victim).map (·.stateId)) :=
        hentries.map StateCacheEntry.stateId
      exact ((List.perm_cons_erase hheld).symm.trans hstates).cons_inv
    · rw [StateCache.eraseEntry, hlru, List.erase_cons_head]
      have hperm := h.lru
      rw [hlru] at hperm
      exact (hperm.trans hentries).cons_inv
    · have hperm := (StatePool.perm_cons_erase hlookup).map Sigma.snd
      exact ((hperm.symm.trans h.byHash).trans hentries).cons_inv
    · intro x hx
      exact h.keyed x ((StatePool.perm_cons_erase hlookup).mem_iff.mpr (List.mem_cons_of_mem _ hx))
    · rw [StateCache.eraseEntry, hlru, List.erase_cons_head]
      rfl

theorem Sound.cached_evictOne (h : s.Sound) : s.evictOne.2.cached = s.cached.tail := by
  obtain ⟨-, -, hstorage, hlru, -⟩ := h.evictOne
  rw [cached, cached, hlru, hstorage, List.map_tail]

/-! ### Snapshots -/

/-- The part of `snapshot` behind the eviction, when there is a free snapshot: the copy decides
whether the hash goes in, and nothing else changes in the cache. -/
theorem Sound.insertSnapshot (h : s.Sound) {hash : Hash} (hnew : s.cache.has hash = false)
    (hfree : s.pool.numFreeSnapshots ≠ 0) (frontierBlock activeState : Int) (device : Device) :
    (∃ s', s.insertSnapshot hash frontierBlock activeState device = (.ok (), s') ∧ s'.Sound ∧
      Steady s s' ∧ (s.pool.isActive activeState = true ∧ device.Serves s.pool.storage.numLayers) ∧
      s'.cached = s.cached ++ [(hash, s.pool.storage.content activeState.toNat)]) ∨
    ∃ err s', s.insertSnapshot hash frontierBlock activeState device = (.error err, s') ∧ s'.Sound ∧
      Steady s s' ∧
      ¬ (s.pool.isActive activeState = true ∧ device.Serves s.pool.storage.numLayers) ∧
      s'.cached = s.cached := by
  rw [States.insertSnapshot]
  rcases h.owned.acquireSnapshot with ⟨hnil, -⟩ | ⟨state, rest, pool', hlist, hacquire, howned,
    hstorage, hactive, hsnapshots, -⟩
  · exact absurd (by rw [StatePool.numFreeSnapshots, hnil]; rfl) hfree
  have hfirst : state ∈ s.pool.snapshotFreeList := hlist ▸ List.mem_cons_self
  have hrange := h.owned.mem_snapshots.mp (.inl hfirst)
  have hstate : state ∉ s.heldSnapshots := fun hheld =>
    (List.nodup_append.mp h.owned.snapshots_nodup).2.2 _ hfirst _ hheld rfl
  have hcopy := howned.copyActiveToSnapshot activeState state device
  have hisActive : pool'.isActive activeState = s.pool.isActive activeState := by
    rw [StatePool.isActive, StatePool.isActive, hactive]
  have hisSnapshot : pool'.isSnapshot state = true := by
    rw [StatePool.isSnapshot_iff, hactive, hsnapshots]
    omega
  rw [hacquire]
  simp only
  generalize pool'.copyActiveToSnapshot activeState state device = copied at *
  obtain ⟨result, pool''⟩ := copied
  dsimp only at hcopy ⊢
  have hok := hcopy.ok_iff
  rw [hisActive, hstorage] at hok
  -- the entries do not hold the snapshot that is written
  have hcontent : ∀ e ∈ s.cache.lru,
      pool''.storage.content e.stateId = s.pool.storage.content e.stateId := by
    intro e he
    rw [hcopy.keeps.content, hstorage]
    rintro ⟨-, -, heq⟩
    have heq : e.stateId = state := Int.ofNat_inj.mp heq
    exact hstate (heq ▸ List.mem_map_of_mem (h.lru.mem_iff.mp he))
  have hcached : s.cache.lru.map (fun e => (e.prefixHash, pool''.storage.content e.stateId)) =
      s.cached := List.map_congr_left fun e he => by rw [hcontent e he]
  cases result with
  | error err =>
    obtain ⟨pool₃, hrelease, howned₃, hstorage₃, hactive₃, hsnapshots₃, -⟩ :=
      hcopy.owned.releaseSnapshot (List.mem_append_right _ (List.mem_singleton_self state))
    have hheld : ((s.heldSnapshots ++ [state]).erase state).Perm s.heldSnapshots := by
      rw [List.erase_append_right _ hstate, List.erase_cons_head, List.append_nil]
    refine .inr ⟨err, ⟨pool₃, s.cache⟩, ?_, ⟨howned₃.perm hheld, h.lru, h.byHash, h.keyed⟩,
      ⟨?_, ?_, ?_, rfl, rfl⟩, fun hall => ?_, ?_⟩
    · simp only [hrelease]
    · rw [hactive₃, hcopy.keeps.maxActive, hactive]
    · rw [hsnapshots₃, hcopy.keeps.maxSnapshots, hsnapshots]
    · rw [hstorage₃, hcopy.keeps.numLayers, hstorage]
    · cases hok.mpr ⟨hall.1, hisSnapshot, hall.2⟩
    · rw [cached, hstorage₃, hcached]
  | ok =>
    have hnot : hash ∉ s.cache.byHash := fun hmem => by
      rw [← AList.lookup_isSome] at hmem
      rw [StateCache.has, hmem] at hnew
      cases hnew
    have hheld : s.heldSnapshots ++ [state] =
        (s.cache.entries ++ [StateCacheEntry.mk hash frontierBlock state]).map
          StateCacheEntry.stateId := by
      rw [List.map_append]
      rfl
    refine .inl ⟨_, rfl, ⟨hcopy.owned.perm (.of_eq hheld), h.lru.append_right _, ?_, ?_⟩,
      ⟨hcopy.keeps.maxActive.trans hactive, hcopy.keeps.maxSnapshots.trans hsnapshots, ?_,
        rfl, rfl⟩,
      ⟨(hok.mp rfl).1, (hok.mp rfl).2.2⟩, ?_⟩
    · rw [AList.entries_insert_of_notMem hnot, List.map_cons]
      exact (h.byHash.cons _).trans (List.perm_append_singleton _ _).symm
    · intro x hx
      rw [AList.entries_insert_of_notMem hnot] at hx
      rcases List.mem_cons.mp hx with rfl | hx
      · rfl
      · exact h.keyed x hx
    · rw [hcopy.keeps.numLayers, hstorage]
    · have hcopied := hcopy.copied rfl
      rw [Int.toNat_natCast, hstorage] at hcopied
      rw [cached, List.map_append, List.map_singleton, hcached, hcopied]

/-- The cache with room for one more snapshot: without its least recent entry if it was full. -/
structure Room (s s' : States) : Prop where
  sound : s'.Sound
  sizes : Steady s s'
  free : s'.pool.numFreeSnapshots ≠ 0
  storage : s'.pool.storage = s.pool.storage
  cached : s'.cached = if s.cached.length < s.pool.maxSnapshots then s.cached else s.cached.tail

/-- `snapshot` by its tests: the frontier, the hash, and the number of snapshots there are. -/
theorem Sound.snapshot_cases (h : s.Sound) (hash : Hash) (frontierBlock activeState : Int)
    (device : Device) : (¬ (0 ≤ frontierBlock ∧ frontierBlock < s.cache.frontierDepth) ∧
      s.snapshot hash frontierBlock activeState device = (.error .invalidArgument, s)) ∨
    (0 ≤ frontierBlock ∧ frontierBlock < s.cache.frontierDepth) ∧
      ((s.cache.has hash = true ∧ s.snapshot hash frontierBlock activeState device = (.ok (), s)) ∨
      s.cache.has hash = false ∧ ((s.pool.maxSnapshots = 0 ∧
          s.snapshot hash frontierBlock activeState device = (.error .maxSequencesReached, s)) ∨
        0 < s.pool.maxSnapshots ∧ ∃ s', Room s s' ∧ s'.cache.has hash = false ∧
          s.snapshot hash frontierBlock activeState device =
            s'.insertSnapshot hash frontierBlock activeState device)) := by
  by_cases hfrontier : 0 ≤ frontierBlock ∧ frontierBlock < s.cache.frontierDepth
  · refine .inr ⟨hfrontier, ?_⟩
    rw [States.snapshot, if_neg (by omega)]
    cases hhas : s.cache.has hash with
    | true => exact .inl ⟨rfl, if_pos rfl⟩
    | false =>
      refine .inr ⟨rfl, ?_⟩
      rw [if_neg Bool.false_ne_true]
      have hsize := h.free_add_size
      have hlen := h.cached_length
      by_cases hfree : s.pool.numFreeSnapshots = 0
      · rw [if_pos hfree]
        obtain ⟨hsound, hsizes, hstorage, _, hevicted⟩ := h.evictOne
        have hcached := h.cached_evictOne
        cases hempty : s.cache.lru with
        | nil =>
          have hzero : s.pool.maxSnapshots = 0 := by
            rw [cached, hempty] at hlen
            simp only [List.map_nil, List.length_nil] at hlen
            omega
          refine .inl ⟨hzero, ?_⟩
          rw [States.evictOne, hempty]
        | cons _ rest =>
          have htrue : s.evictOne.1 = true :=
            hevicted.mpr (by rw [hempty]; exact List.cons_ne_nil _ _)
          have hpos : s.cached.length = rest.length + 1 := by
            rw [cached, hempty, List.length_map, List.length_cons]
          refine .inr ⟨by omega, s.evictOne.2, ⟨hsound, hsizes, ?_, hstorage, ?_⟩, ?_, ?_⟩
          · have hsize' := hsound.free_add_size
            have hlen' := hsound.cached_length
            rw [hcached, List.length_tail] at hlen'
            rw [hsizes.maxSnapshots] at hsize'
            omega
          · rw [hcached, if_neg (by omega)]
          · rw [Bool.eq_false_iff, ne_eq, hsound.has_iff_mem_cached, hcached]
            intro hmem
            rw [List.map_tail] at hmem
            have := h.has_iff_mem_cached.mpr (List.mem_of_mem_tail hmem)
            rw [hhas] at this
            cases this
          · generalize s.evictOne = evicted at *
            obtain ⟨b, _⟩ := evicted
            obtain rfl : b = true := htrue
            rfl
      · rw [if_neg hfree]
        exact .inr ⟨by omega, s, ⟨h, .refl s, hfree, rfl, by rw [if_pos (by omega)]⟩, hhas, rfl⟩
  · refine .inl ⟨hfrontier, ?_⟩
    rw [States.snapshot, if_pos (by omega)]

/-- When `snapshot` succeeds. -/
theorem Sound.snapshot_ok_iff (h : s.Sound) (hash : Hash) (frontierBlock activeState : Int)
    (device : Device) : (s.snapshot hash frontierBlock activeState device).1 = .ok () ↔
      (0 ≤ frontierBlock ∧ frontierBlock < s.cache.frontierDepth) ∧
        (s.cache.has hash = true ∨ 0 < s.pool.maxSnapshots ∧
          s.pool.isActive activeState = true ∧ device.Serves s.pool.storage.numLayers) := by
  rcases h.snapshot_cases hash frontierBlock activeState device with ⟨hout, hresult⟩ | ⟨hfrontier,
    ⟨hhas, hresult⟩ | ⟨hhas, ⟨hzero, hresult⟩ | ⟨hpos, s', hroom, hnew, hresult⟩⟩⟩
  · rw [hresult]
    exact ⟨(by simp), fun hall => absurd hall.1 hout⟩
  · rw [hresult]
    exact ⟨fun _ => ⟨hfrontier, .inl hhas⟩, fun _ => rfl⟩
  · rw [hresult, hhas]
    exact ⟨(by simp), fun hall => hall.2.elim (by simp) fun hall =>
      absurd hzero (Nat.ne_of_gt hall.1)⟩
  · have hactive : s'.pool.isActive activeState = s.pool.isActive activeState := by
      rw [StatePool.isActive, StatePool.isActive, hroom.sizes.maxActive]
    rw [hresult, hhas, ← hactive, ← hroom.sizes.numLayers]
    rcases hroom.sound.insertSnapshot hnew hroom.free frontierBlock activeState device with
      ⟨s'', hinsert, -, -, hserved, -⟩ | ⟨err, s'', hinsert, -, -, hserved, -⟩
    · rw [hinsert]
      exact ⟨fun _ => ⟨hfrontier, .inr ⟨hpos, hserved⟩⟩, fun _ => rfl⟩
    · rw [hinsert]
      exact ⟨(by simp), fun hall => hall.2.elim (by simp) fun hall => absurd hall.2 hserved⟩

/-! ### Restoring -/

/-- Among entries with different hashes, the one that is taken out is the one with its hash. -/
theorem erase_eq_filter {lru : List StateCacheEntry} (hnodup : (lru.map (·.prefixHash)).Nodup)
    {entry : StateCacheEntry} (hmem : entry ∈ lru) :
    lru.erase entry = lru.filter (·.prefixHash ≠ entry.prefixHash) ∧
      [entry] = lru.filter (·.prefixHash = entry.prefixHash) := by
  have hinj : ∀ e ∈ lru, (e.prefixHash = entry.prefixHash ↔ e = entry) := fun e he =>
    ⟨List.inj_on_of_nodup_map hnodup he hmem, fun heq => heq ▸ rfl⟩
  constructor
  · rw [hnodup.of_map.erase_eq_filter]
    refine List.filter_congr fun e he => ?_
    have hiff := hinj e he
    by_cases heq : e = entry <;> simp [heq, hiff]
  · have hfilter : lru.filter (·.prefixHash = entry.prefixHash) = lru.filter (· == entry) :=
      List.filter_congr fun e he => by
        rw [beq_eq_decide]
        exact decide_eq_decide.mpr (hinj e he)
    rw [hfilter, List.filter_beq, List.count_eq_one_of_mem hnodup.of_map hmem]
    rfl

/-- `restore` of a hash that is there makes it the most recent one, and is the copy of its
snapshot. -/
theorem Sound.restore (h : s.Sound) (hash : Hash) (activeState : Int) (device : Device) :
    (s.restore hash activeState device).2.Sound ∧ Steady s (s.restore hash activeState device).2 ∧
      (s.restore hash activeState device).2.cached =
        s.cached.filter (·.1 ≠ hash) ++ s.cached.filter (·.1 = hash) ∧
      ((s.restore hash activeState device).1 = .ok () ↔ s.cache.has hash = true ∧
        s.pool.isActive activeState = true ∧ device.Serves s.pool.storage.numLayers) ∧
      ((s.restore hash activeState device).1 = .ok () → ∃ content, (hash, content) ∈ s.cached ∧
        (s.restore hash activeState device).2.pool.storage.content activeState.toNat =
          content) := by
  rw [States.restore]
  cases hlookup : s.cache.byHash.lookup hash with
  | none =>
    have hhas : s.cache.has hash = false := by rw [StateCache.has, hlookup]; rfl
    have hkeys : ∀ x ∈ s.cached, x.1 ≠ hash := by
      rintro _ hx rfl
      have := h.has_iff_mem_cached.mpr (List.mem_map_of_mem hx)
      rw [hhas] at this
      cases this
    refine ⟨⟨h.owned, h.lru, h.byHash, h.keyed⟩, ⟨rfl, rfl, rfl, rfl, rfl⟩, ?_,
      ⟨nofun, fun hall => absurd (hhas.symm.trans hall.1) Bool.false_ne_true⟩, nofun⟩
    rw [List.filter_eq_self.mpr fun x hx => decide_eq_true (hkeys x hx),
      List.filter_eq_nil_iff.mpr fun x hx => by simpa using hkeys x hx, List.append_nil]
    rfl
  | some entry =>
    obtain ⟨hmem, rfl⟩ := h.lookup_eq_some_iff.mp hlookup
    have hhas : s.cache.has entry.prefixHash = true := by rw [StateCache.has, hlookup]; rfl
    have hlru : entry ∈ s.cache.lru := h.lru.mem_iff.mpr hmem
    have hnodup : (s.cache.lru.map (·.prefixHash)).Nodup :=
      (h.lru.map (·.prefixHash)).nodup_iff.mpr h.hashes_nodup
    have hcopy := h.owned.restoreSnapshotToActive entry.stateId activeState device
    have hheld : ∀ e ∈ s.cache.lru, s.pool.maxActive ≤ e.stateId ∧
        e.stateId < s.pool.maxActive + s.pool.maxSnapshots := fun e he =>
      h.owned.mem_snapshots.mp (.inr (List.mem_map_of_mem (h.lru.mem_iff.mp he)))
    have hsnapshot : s.pool.isSnapshot entry.stateId = true := by
      have := hheld entry hlru
      rw [StatePool.isSnapshot_iff]
      omega
    simp only [if_pos hlru]
    generalize s.pool.restoreSnapshotToActive entry.stateId activeState device = copied at *
    obtain ⟨_, pool'⟩ := copied
    dsimp only at hcopy ⊢
    -- the copy goes to a mutable state
    have hcontent : ∀ e ∈ s.cache.lru,
        pool'.storage.content e.stateId = s.pool.storage.content e.stateId := by
      intro e he
      refine hcopy.keeps.content _ ?_
      rintro ⟨hactive, -, _⟩
      have := (StatePool.isActive_iff _ _).mp hactive
      have := hheld e he
      omega
    refine ⟨⟨hcopy.owned, ?_, h.byHash, h.keyed⟩,
      ⟨hcopy.keeps.maxActive, hcopy.keeps.maxSnapshots, hcopy.keeps.numLayers, rfl, rfl⟩, ?_,
      hcopy.ok_iff.trans ⟨fun hall => ⟨hhas, hall.1, hall.2.2⟩,
        fun hall => ⟨hall.2.1, hsnapshot, hall.2.2⟩⟩, fun hok => ?_⟩
    · exact ((List.perm_append_singleton _ _).trans (List.perm_cons_erase hlru).symm).trans h.lru
    · obtain ⟨herase, hsingle⟩ := erase_eq_filter hnodup hlru
      have hcached : (s.cache.lru.erase entry ++ [entry]).map
          (fun e => (e.prefixHash, pool'.storage.content e.stateId)) =
          (s.cache.lru.erase entry ++ [entry]).map
            fun e => (e.prefixHash, s.pool.storage.content e.stateId) := by
        refine List.map_congr_left fun e he => ?_
        rw [hcontent e]
        rcases List.mem_append.mp he with he | he
        · exact List.mem_of_mem_erase he
        · exact List.mem_singleton.mp he ▸ hlru
      rw [cached, hcached, herase, hsingle, List.map_append, cached, List.filter_map,
        List.filter_map]
      rfl
    · refine ⟨s.pool.storage.content entry.stateId, List.mem_map_of_mem hlru, ?_⟩
      have hcopied := hcopy.copied hok
      rwa [Int.toNat_natCast] at hcopied

end States

end CcInfer.Gdn
