import CcInfer.Proofs.State.Snapshots

/-!
# `CcInfer.Proofs.State.StateHistory`: all calls on the GDN states

A `StateCall` is a call on the pool or on the cache, or a write by the forward pass to the state of
a sequence. Every call brings its own device, so that any zeroing and any copy may fail.
-/

set_option autoImplicit false

namespace CcInfer.Gdn

/-- A call on the states. -/
inductive StateCall
  | acquireActive (seq : SequenceId) (device : Device)
  | releaseActive (seq : SequenceId)
  /-- The forward pass writes the state of a sequence. -/
  | write (seq : SequenceId) (recurrent conv : Nat → List UInt8)
  | snapshot (hash : Hash) (frontierBlock activeState : Int) (device : Device)
  | restore (hash : Hash) (activeState : Int) (device : Device)
  | evictOne
  | copyActiveToSnapshot (activeState snapshotState : Int) (device : Device)
  | restoreSnapshotToActive (snapshotState activeState : Int) (device : Device)
  | acquireSnapshot
  | releaseSnapshot (state : Int)

namespace StateCall

/-- The call leaves the ownership of snapshots to the cache. -/
def LeavesOwnership : StateCall → Prop
  | .acquireSnapshot | .releaseSnapshot _ => False
  | _ => True

/-- The call leaves snapshots to the cache altogether. -/
def LeavesSnapshots : StateCall → Prop
  | .copyActiveToSnapshot .. | .restoreSnapshotToActive .. | .acquireSnapshot
  | .releaseSnapshot _ => False
  | _ => True

theorem LeavesSnapshots.leavesOwnership {call : StateCall} (h : call.LeavesSnapshots) :
    call.LeavesOwnership := by
  cases call <;> first | exact h | trivial

end StateCall

namespace States

variable {pool : StatePool} {call : StateCall} {calls : List StateCall} {capacity : Nat}

/-- A new pool with an empty cache. -/
def start (pool : StatePool) (frontierDepth : Int) : States :=
  ⟨pool, StateCache.create frontierDepth⟩

/-- The forward pass writes the state of a sequence, if it has one. -/
def write (s : States) (seq : SequenceId) (recurrent conv : Nat → List UInt8) : States :=
  match s.pool.activeStateOf seq with
  | none => s
  | some state =>
    { s with pool := { s.pool with storage := s.pool.storage.overwrite state recurrent conv } }

/-- Pool and cache after a call. -/
def step (s : States) : StateCall → States
  | .acquireActive seq device => { s with pool := (s.pool.acquireActive seq device).2 }
  | .releaseActive seq => { s with pool := s.pool.releaseActive seq }
  | .write seq recurrent conv => s.write seq recurrent conv
  | .snapshot hash frontierBlock activeState device =>
    (s.snapshot hash frontierBlock activeState device).2
  | .restore hash activeState device => (s.restore hash activeState device).2
  | .evictOne => s.evictOne.2
  | .copyActiveToSnapshot activeState snapshotState device =>
    { s with pool := (s.pool.copyActiveToSnapshot activeState snapshotState device).2 }
  | .restoreSnapshotToActive snapshotState activeState device =>
    { s with pool := (s.pool.restoreSnapshotToActive snapshotState activeState device).2 }
  | .acquireSnapshot => { s with pool := s.pool.acquireSnapshot.2 }
  | .releaseSnapshot state => { s with pool := (s.pool.releaseSnapshot state).2 }

/-- The state after a sequence of calls. -/
def after (s : States) (calls : List StateCall) : States := calls.foldl step s

/-! ### The account of the states -/

variable {s : States}

section Create

variable (frontierDepth : Int)

theorem create_entries : (StateCache.create frontierDepth).entries = [] := by
  unfold StateCache.create StateCache.assert
  split <;> rfl

theorem create_lru : (StateCache.create frontierDepth).lru = [] := by
  unfold StateCache.create StateCache.assert
  split <;> rfl

theorem create_byHash : (StateCache.create frontierDepth).byHash = ∅ := by
  unfold StateCache.create StateCache.assert
  split <;> rfl

theorem create_frontierDepth : (StateCache.create frontierDepth).frontierDepth = frontierDepth := by
  unfold StateCache.create StateCache.assert
  split <;> rfl

end Create

/-- A created pool with an empty cache. -/
theorem start_sound {config : ModelConfig} {maxActive maxSnapshots : Int} {device : Result Unit}
    (hcreate : StatePool.create config maxActive maxSnapshots device = .ok pool)
    (frontierDepth : Int) :
    (start pool frontierDepth).Sound ∧ pool.maxSnapshots = maxSnapshots.toNat ∧
      (start pool frontierDepth).cached = [] ∧
      (start pool frontierDepth).cache.frontierDepth = frontierDepth := by
  rw [StatePool.create] at hcreate
  split at hcreate
  · cases hcreate
  rename_i hsizes
  cases hstorage : StateStorage.create config (maxActive + maxSnapshots) device with
  | error =>
    rw [hstorage] at hcreate
    cases hcreate
  | ok =>
    rw [hstorage] at hcreate
    cases hcreate
    have hnum := (StateStorage.create_eq_ok hstorage).1
    refine ⟨⟨⟨?_, fun _ => rfl, ?_, ?_, ?_, rfl⟩, ?_, ?_, ?_⟩, rfl, ?_, ?_⟩
    · simp only [start]
      omega
    · exact (List.append_nil _) ▸ List.Perm.refl _
    · rw [heldSnapshots, start, create_entries, List.map_nil, List.append_nil]
    · intro state _
      rw [heldSnapshots, start, create_entries]
      exact ⟨(by simp), fun hor => (hor.elim (List.not_mem_nil) (List.not_mem_nil)).elim⟩
    · rw [start, create_lru, create_entries]
    · rw [start, create_byHash, create_entries]
      rfl
    · rw [start, create_byHash]
      simp
    · rw [cached, start, create_lru]
      rfl
    · exact create_frontierDepth frontierDepth

/-- A call that leaves the ownership of snapshots to the cache keeps the account. -/
theorem Sound.step (h : s.Sound) (hcall : call.LeavesOwnership) :
    (s.step call).Sound ∧ Steady s (s.step call) := by
  have hpool : ∀ {pool : StatePool} {touched : Nat → Prop}, pool.Owned s.heldSnapshots →
      s.pool.Keeps pool touched →
      Sound { s with pool := pool } ∧ Steady s { s with pool := pool } := fun howned hkeeps =>
    ⟨⟨howned, h.lru, h.byHash, h.keyed⟩,
      ⟨hkeeps.maxActive, hkeeps.maxSnapshots, hkeeps.numLayers, rfl, rfl⟩⟩
  cases call with
  | acquireActive seq device =>
    obtain ⟨howned, hkeeps, -, -⟩ := h.owned.acquireActive seq device
    exact hpool howned hkeeps
  | releaseActive seq =>
    obtain ⟨howned, hstorage, hactive, hsnapshots, -⟩ := h.owned.releaseActive seq
    exact ⟨⟨howned, h.lru, h.byHash, h.keyed⟩, ⟨hactive, hsnapshots, by rw [States.step, hstorage],
      rfl, rfl⟩⟩
  | write seq recurrent conv =>
    rw [States.step, States.write]
    cases s.pool.activeStateOf seq with
    | none => exact ⟨h, .refl s⟩
    | some state =>
      have honly := s.pool.storage.overwrite_only state recurrent conv
      exact ⟨⟨h.owned.withStorage honly.numStates, h.lru, h.byHash, h.keyed⟩,
        ⟨rfl, rfl, honly.numLayers, rfl, rfl⟩⟩
  | snapshot hash frontierBlock activeState device =>
    rw [States.step]
    rcases h.snapshot_cases hash frontierBlock activeState device with ⟨-, hout⟩ | ⟨-, ⟨-, hout⟩ |
      ⟨-, ⟨-, hout⟩ | ⟨-, s', hroom, hnew, hout⟩⟩⟩
    · rw [hout]
      exact ⟨h, .refl s⟩
    · rw [hout]
      exact ⟨h, .refl s⟩
    · rw [hout]
      exact ⟨h, .refl s⟩
    · rw [hout]
      rcases hroom.sound.insertSnapshot hnew hroom.free frontierBlock activeState device with
        ⟨s'', hinsert, hsound, hsteady, -⟩ | ⟨err, s'', hinsert, hsound, hsteady, -⟩
      · rw [hinsert]
        exact ⟨hsound, hroom.sizes.trans hsteady⟩
      · rw [hinsert]
        exact ⟨hsound, hroom.sizes.trans hsteady⟩
  | restore hash activeState device =>
    obtain ⟨hsound, hsteady, -⟩ := h.restore hash activeState device
    exact ⟨hsound, hsteady⟩
  | evictOne =>
    obtain ⟨hsound, hsteady, -⟩ := h.evictOne
    exact ⟨hsound, hsteady⟩
  | copyActiveToSnapshot activeState snapshotState device =>
    have hcopy := h.owned.copyActiveToSnapshot activeState snapshotState device
    exact hpool hcopy.owned hcopy.keeps
  | restoreSnapshotToActive snapshotState activeState device =>
    have hcopy := h.owned.restoreSnapshotToActive snapshotState activeState device
    exact hpool hcopy.owned hcopy.keeps
  | acquireSnapshot => exact hcall.elim
  | releaseSnapshot => exact hcall.elim

/-- So does every sequence of such calls. -/
theorem Sound.after (hcalls : ∀ call ∈ calls, call.LeavesOwnership) :
    ∀ {s : States}, s.Sound → (s.after calls).Sound ∧ Steady s (s.after calls) := by
  induction calls with
  | nil => exact fun {s} h => ⟨h, .refl s⟩
  | cons call _ ih =>
    intro s h
    obtain ⟨hsound, hsteady⟩ := h.step (hcalls call List.mem_cons_self)
    obtain ⟨hsound', hsteady'⟩ :=
      ih (fun call' hmem => hcalls call' (List.mem_cons_of_mem _ hmem)) hsound
    exact ⟨hsound', hsteady.trans hsteady'⟩

/-- No state is leaked or owned twice. -/
structure Accounted (s : States) : Prop where
  active_mutable : ∀ seq state, s.pool.activeStateOf seq = some state → state < s.pool.maxActive
  active_injective : ∀ seq seq' state, s.pool.activeStateOf seq = some state →
    s.pool.activeStateOf seq' = some state → seq = seq'
  mutable_inUse : ∀ state < s.pool.maxActive,
    ((s.pool.states state).status = .inUse ↔ ∃! seq, s.pool.activeStateOf seq = some state)
  mutable_free : ∀ state < s.pool.maxActive,
    s.pool.mutableFreeList.count state = if (s.pool.states state).status = .inUse then 0 else 1
  snapshot_inUse : ∀ state, s.pool.maxActive ≤ state →
    state < s.pool.maxActive + s.pool.maxSnapshots →
    ((s.pool.states state).status = .inUse ↔ (s.cache.entries.map (·.stateId)).count state = 1)
  snapshot_free : ∀ state, s.pool.maxActive ≤ state →
    state < s.pool.maxActive + s.pool.maxSnapshots →
    s.pool.snapshotFreeList.count state = if (s.pool.states state).status = .inUse then 0 else 1
  free_add_size : s.pool.numFreeSnapshots + s.cache.size = s.pool.maxSnapshots
  lru : s.cache.lru.Perm s.cache.entries
  byHash : (s.cache.byHash.entries.map Sigma.snd).Perm s.cache.entries
  poolAsserts : s.pool.failedAsserts = []
  cacheAsserts : s.cache.failedAsserts = []

/-- Of two lists that share out a list without repetitions, a member is in exactly one, once. -/
theorem count_of_share {free owned all : List Nat} (hperm : (free ++ owned).Perm all)
    (hnodup : all.Nodup) {state : Nat} (hmem : state ∈ all) {inUse : Prop} [Decidable inUse]
    (hinUse : inUse ↔ state ∈ owned) :
    (inUse ↔ owned.count state = 1) ∧ free.count state = if inUse then 0 else 1 := by
  have hcount := hperm.count_eq state
  rw [List.count_append, List.count_eq_one_of_mem hnodup hmem] at hcount
  rw [← List.count_pos_iff] at hinUse
  constructor
  · rw [hinUse]
    omega
  · split
    · have := hinUse.mp ‹_›
      omega
    · have := mt hinUse.mpr ‹_›
      omega

/-- A sound history accounts for every state. -/
theorem Sound.accounted (h : s.Sound) (hasserts : s.cache.failedAsserts = []) : Accounted s := by
  have howned := h.owned
  have hactive : ∀ {seq state}, s.pool.activeStateOf seq = some state ↔
      (⟨seq, state⟩ : Sigma fun _ : SequenceId => Nat) ∈ s.pool.activeBySeq.entries :=
    AList.mem_lookup_iff
  have hvalues : ∀ {state}, state ∈ s.pool.active ↔ ∃ seq, s.pool.activeStateOf seq =
      some state := by
    intro state
    simp only [StatePool.active, List.mem_map, hactive]
    constructor
    · rintro ⟨⟨seq, _⟩, hmem, rfl⟩
      exact ⟨seq, hmem⟩
    · rintro ⟨seq, hmem⟩
      exact ⟨⟨seq, state⟩, hmem, rfl⟩
  -- a state that two sequences had would stand twice among the states in use
  have hinjective : ∀ seq seq' state, s.pool.activeStateOf seq = some state →
      s.pool.activeStateOf seq' = some state → seq = seq' := by
    intro seq seq' state hseq hseq'
    have hnodup : (s.pool.activeBySeq.entries.map Sigma.snd).Nodup :=
      (List.nodup_append.mp howned.mutable_nodup).2.1
    have := List.inj_on_of_nodup_map hnodup (hactive.mp hseq) (hactive.mp hseq') rfl
    exact congrArg Sigma.fst this
  have hmutable : ∀ state < s.pool.maxActive,
      ((s.pool.states state).status = .inUse ↔ state ∈ s.pool.active) := by
    intro state hlt
    rw [howned.status state (by omega)]
    refine or_iff_left fun hheld => ?_
    have := howned.mem_snapshots.mp (.inr hheld)
    omega
  have hsnapshot : ∀ state, s.pool.maxActive ≤ state →
      state < s.pool.maxActive + s.pool.maxSnapshots →
      ((s.pool.states state).status = .inUse ↔ state ∈ s.heldSnapshots) := by
    intro state hge hlt
    rw [howned.status state hlt]
    refine or_iff_right fun hmem => ?_
    have := howned.mem_mutable.mp (.inr hmem)
    omega
  constructor
  · exact fun seq state hseq => howned.mem_mutable.mp (.inr (hvalues.mpr ⟨seq, hseq⟩))
  · exact hinjective
  · intro state hlt
    rw [hmutable state hlt, hvalues]
    refine ⟨?_, ExistsUnique.exists⟩
    rintro ⟨seq, hseq⟩
    exact ⟨seq, hseq, fun seq' hseq' => hinjective _ _ _ hseq' hseq⟩
  · exact fun state hlt => (count_of_share howned.mutable List.nodup_range (List.mem_range.mpr hlt)
      (hmutable state hlt)).2
  · exact fun state hge hlt => (count_of_share howned.snapshots List.nodup_range'
      (List.mem_range'_1.mpr ⟨hge, hlt⟩) (hsnapshot state hge hlt)).1
  · exact fun state hge hlt => (count_of_share howned.snapshots List.nodup_range'
      (List.mem_range'_1.mpr ⟨hge, hlt⟩) (hsnapshot state hge hlt)).2
  · exact h.free_add_size
  · exact h.lru
  · exact h.byHash
  · exact howned.asserts
  · exact hasserts

/-- After every sequence of calls that leaves the ownership of snapshots to the cache, the states
are accounted for and no assertion has failed; and a sequence that then gets a state gets one of
zeroes. -/
theorem slots_accounted {config : ModelConfig} {maxActive maxSnapshots frontierDepth : Int}
    {device : Result Unit} {pool : StatePool}
    (hcreate : StatePool.create config maxActive maxSnapshots device = .ok pool)
    (hdepth : 0 ≤ frontierDepth) (calls : List StateCall)
    (hcalls : ∀ call ∈ calls, call.LeavesOwnership) :
    Accounted ((start pool frontierDepth).after calls) ∧ ∀ (seq : SequenceId) (device : Device),
        ((start pool frontierDepth).after calls).pool.activeStateOf seq = none →
        (((start pool frontierDepth).after calls).pool.acquireActive seq device).1 = .ok () →
        ∃ state, (((start pool frontierDepth).after calls).pool.acquireActive seq
            device).2.activeStateOf seq = some state ∧
          StateStorage.AllZero ((((start pool frontierDepth).after calls).pool.acquireActive seq
            device).2.storage.content state) := by
  obtain ⟨hsound, -, -, -⟩ := start_sound hcreate frontierDepth
  obtain ⟨hafter, hsteady⟩ := hsound.after hcalls
  refine ⟨hafter.accounted (hsteady.asserts.trans ?_), fun seq device =>
    (hafter.owned.acquireActive seq device).2.2.2⟩
  rw [start, StateCache.create, StateCache.assert, if_pos (decide_eq_true hdepth)]

/-- A model with one GDN layer and states of ten bytes. -/
def tinyConfig : ModelConfig :=
  { arch := .qwen35, nLayers := 1, ssmConvKernel := 2, ssmStateSize := 1, ssmGroupCount := 1,
    ssmTimeStepRank := 1, ssmInnerSize := 1, layerTypes := [.gatedDeltaNet] }

/-- A device on which no call fails. -/
def goodDevice : Device := fun _ => none

/-- A snapshot and an eviction. -/
theorem slots_accounted_tiny : ∃ pool, StatePool.create tinyConfig 1 1 (.ok ()) = .ok pool ∧
    Accounted ((start pool 1).after [.acquireActive 7 goodDevice, .snapshot 5 0 0 goodDevice,
      .releaseActive 7, .snapshot 6 0 0 goodDevice]) := by
  obtain ⟨pool, hcreate⟩ : ∃ pool, StatePool.create tinyConfig 1 1 (.ok ()) = .ok pool := ⟨_, rfl⟩
  refine ⟨pool, hcreate, (slots_accounted hcreate (by decide) _ ?_).1⟩
  intro call hcall
  simp only [List.mem_cons, List.not_mem_nil, or_false] at hcall
  rcases hcall with rfl | rfl | rfl | rfl <;> trivial

/-- A caller of `acquire_snapshot` other than the cache has a snapshot in use that no entry of the
cache holds. -/
theorem acquireSnapshot_unheld : ∃ pool, StatePool.create tinyConfig 1 1 (.ok ()) = .ok pool ∧
    (((start pool 1).after [.acquireSnapshot]).pool.states 1).status = .inUse ∧
    ((start pool 1).after [.acquireSnapshot]).cache.entries = [] ∧
    ((start pool 1).after [.acquireSnapshot]).pool.numFreeSnapshots +
      ((start pool 1).after [.acquireSnapshot]).cache.size ≠
        ((start pool 1).after [.acquireSnapshot]).pool.maxSnapshots :=
  ⟨_, rfl, by decide, by decide, by decide⟩

/-! ### The cache as an LRU map -/

/-- What a call means to the map, by its result and what the cache had before. -/
def label (s : States) : StateCall → Option (LruMap.Label Hash Content)
  | .snapshot hash frontierBlock activeState device =>
    match (s.snapshot hash frontierBlock activeState device).1 with
    | .ok () =>
      if s.cache.has hash then some (.keep hash)
      else some (.insert hash (s.pool.storage.content activeState.toNat))
    | .error _ => some (.refuse hash)
  | .restore hash _ _ => some (.get hash)
  | .evictOne => some .evict
  | _ => none

/-- The labels of a sequence of calls. -/
def labels (s : States) : List StateCall → List (LruMap.Label Hash Content)
  | [] => []
  | call :: calls => (s.label call).toList ++ (s.step call).labels calls

/-- A write to a mutable state leaves the cached contents as they are. -/
theorem Sound.cached_of_keeps (h : s.Sound) (hkeeps : s.pool.Keeps pool (· < s.pool.maxActive)) :
    cached { s with pool := pool } = s.cached := by
  refine List.map_congr_left fun e he => ?_
  have hheld := h.owned.mem_snapshots.mp
    (.inr (List.mem_map_of_mem (h.lru.mem_iff.mp he)))
  rw [hkeeps.content e.stateId (Nat.not_lt_of_le hheld.1)]

/-- A snapshot is a step of the map. -/
theorem Sound.snapshot_step (h : s.Sound)
    (hcapacity : s.pool.maxSnapshots = capacity) {m : LruMap Hash Content capacity}
    (hm : m.entries = s.cached) (hash : Hash) (frontierBlock activeState : Int) (device : Device) :
    ∃ label m', s.label (.snapshot hash frontierBlock activeState device) = some label ∧
      LruMap.Step m label m' ∧
      m'.entries = (s.snapshot hash frontierBlock activeState device).2.cached := by
  have hkeys : s.cache.has hash = true ↔ hash ∈ m.keys := by
    rw [h.has_iff_mem_cached, LruMap.keys, hm]
  rw [label]
  rcases h.snapshot_cases hash frontierBlock activeState device with ⟨-, hout⟩ | ⟨-, ⟨hhas, hout⟩ |
    ⟨hhas, ⟨-, hout⟩ | ⟨hpos, s', hroom, hnew, hout⟩⟩⟩
  · rw [hout]
    exact ⟨_, m, rfl, .refuse, hm⟩
  · rw [hout]
    exact ⟨_, m, if_pos hhas, .keep (hkeys.mp hhas), hm⟩
  · rw [hout]
    exact ⟨_, m, rfl, .refuse, hm⟩
  · have habsent : hash ∉ m.keys := fun hmem => by
      rw [hkeys.mpr hmem] at hhas
      cases hhas
    have hentries : m.makeRoom.entries = s'.cached := by
      rw [hroom.cached, LruMap.makeRoom, hm, hcapacity]
      split
      · exact hm
      · rw [LruMap.entries_evict, hm]
    rw [hout]
    rcases hroom.sound.insertSnapshot hnew hroom.free frontierBlock activeState device with
      ⟨s'', hinsert, -, -, -, hcached⟩ | ⟨err, s'', hinsert, -, -, -, hcached⟩
    · rw [hinsert]
      refine ⟨_, _, if_neg (by rw [hhas]; exact Bool.false_ne_true),
        .insert habsent (hcapacity ▸ hpos), ?_⟩
      rw [LruMap.entries_insert, hentries, hcached, hroom.storage]
    · rw [hinsert]
      -- the copy failed, and cost the least recent key if the map was full
      refine ⟨_, m.makeRoom, rfl, ?_, hentries.trans hcached.symm⟩
      rw [LruMap.makeRoom]
      split
      · exact .refuse
      · have := m.bound
        exact .refuseFull habsent (by omega)

/-- Every call that leaves snapshots to the cache is a step of the map, or does not touch it. -/
theorem Sound.step_lruMap (h : s.Sound)
    (hcapacity : s.pool.maxSnapshots = capacity) {m : LruMap Hash Content capacity}
    (hm : m.entries = s.cached) (hcall : call.LeavesSnapshots)
    {done : List (LruMap.Label Hash Content)} (run : LruMap.Run done m) :
    ∃ m' : LruMap Hash Content capacity, LruMap.Run (done ++ (s.label call).toList) m' ∧
      m'.entries = (s.step call).cached := by
  have hsame : s.label call = none → (s.step call).cached = s.cached →
      ∃ m' : LruMap Hash Content capacity, LruMap.Run (done ++ (s.label call).toList) m' ∧
        m'.entries = (s.step call).cached := fun hlabel hcached =>
    ⟨m, by rwa [hlabel, Option.toList_none, List.append_nil], hm.trans hcached.symm⟩
  cases call with
  | acquireActive seq device =>
    exact hsame rfl (h.cached_of_keeps (h.owned.acquireActive seq device).2.1)
  | releaseActive seq =>
    obtain ⟨-, hstorage, -⟩ := h.owned.releaseActive seq
    exact hsame rfl (by rw [States.step, cached, hstorage]; rfl)
  | write seq recurrent conv =>
    refine hsame rfl ?_
    rw [States.step, States.write]
    cases hseq : s.pool.activeStateOf seq with
    | none => rfl
    | some state =>
      have honly := s.pool.storage.overwrite_only state recurrent conv
      have hmem : state ∈ s.pool.active := List.mem_map_of_mem (AList.mem_lookup_iff.mp hseq)
      have hlt := h.owned.mem_mutable.mp (.inr hmem)
      exact h.cached_of_keeps ⟨rfl, rfl, honly.numLayers, fun state' hge =>
        honly.content state' fun heq => hge (heq ▸ hlt)⟩
  | snapshot hash frontierBlock activeState device =>
    obtain ⟨label, m', hlabel, hstep, hcached⟩ :=
      h.snapshot_step hcapacity hm hash frontierBlock activeState device
    rw [hlabel]
    exact ⟨m', .snoc run hstep, hcached⟩
  | restore hash activeState device =>
    obtain ⟨-, -, hcached, -⟩ := h.restore hash activeState device
    refine ⟨m.touch hash, .snoc run .get, ?_⟩
    rw [LruMap.entries_touch, hm]
    exact hcached.symm
  | evictOne =>
    refine ⟨m.evict, .snoc run .evict, ?_⟩
    rw [LruMap.entries_evict, hm]
    exact h.cached_evictOne.symm
  | copyActiveToSnapshot | restoreSnapshotToActive | acquireSnapshot | releaseSnapshot =>
    exact hcall.elim

/-- So is every sequence of such calls a run. -/
theorem Sound.after_lruMap (hcalls : ∀ call ∈ calls, call.LeavesSnapshots) :
    ∀ {s : States} {m : LruMap Hash Content capacity} {done : List (LruMap.Label Hash Content)},
      s.Sound → s.pool.maxSnapshots = capacity → m.entries = s.cached → LruMap.Run done m →
      ∃ m' : LruMap Hash Content capacity, LruMap.Run (done ++ s.labels calls) m' ∧
        m'.entries = (s.after calls).cached := by
  induction calls with
  | nil =>
    intro s m done _ _ hm run
    exact ⟨m, by rwa [labels, List.append_nil], hm⟩
  | cons call _ ih =>
    intro s m done h hcapacity hm run
    have hcall := hcalls call List.mem_cons_self
    obtain ⟨hsound, hsteady⟩ := h.step hcall.leavesOwnership
    obtain ⟨m', run', hm'⟩ := h.step_lruMap hcapacity hm hcall run
    rw [labels, ← List.append_assoc]
    exact ih (fun call' hmem => hcalls call' (List.mem_cons_of_mem _ hmem)) hsound
      (hsteady.maxSnapshots.trans hcapacity) hm' run'

/-- The snapshot cache refines an LRU map of `max_snapshots` hashes. Whatever was called, the labels
of the calls are a run of such a map, which has the hashes of the cache and the contents of their
snapshots in the order of the LRU list. A snapshot succeeds if its hash is there or its copy goes
through, a restore if its hash is there and its copy goes through. A successful restore makes the
active state what was active when its hash was last inserted. -/
theorem cache_refines_lruMap {config : ModelConfig} {maxActive maxSnapshots : Int}
    {device : Result Unit} {pool : StatePool}
    (hcreate : StatePool.create config maxActive maxSnapshots device = .ok pool)
    (frontierDepth : Int) (calls : List StateCall) (hcalls : ∀ call ∈ calls, call.LeavesSnapshots) :
    ∃ m : LruMap Hash Content maxSnapshots.toNat,
      LruMap.Run ((start pool frontierDepth).labels calls) m ∧
      m.entries = ((start pool frontierDepth).after calls).cached ∧
      (∀ hash, ((start pool frontierDepth).after calls).cache.has hash = true ↔ hash ∈ m.keys) ∧
      (((start pool frontierDepth).after calls).evictOne.1 = true ↔ m.entries ≠ []) ∧
      (∀ (hash : Hash) (frontierBlock activeState : Int) (device : Device),
        (((start pool frontierDepth).after calls).snapshot hash frontierBlock activeState
            device).1 = .ok () ↔
          (0 ≤ frontierBlock ∧ frontierBlock < frontierDepth) ∧ (hash ∈ m.keys ∨
            0 < maxSnapshots ∧ pool.isActive activeState = true ∧
              device.Serves pool.storage.numLayers)) ∧
      ∀ (hash : Hash) (activeState : Int) (device : Device),
        ((((start pool frontierDepth).after calls).restore hash activeState device).1 = .ok () ↔
          hash ∈ m.keys ∧ pool.isActive activeState = true ∧ device.Serves pool.storage.numLayers) ∧
        ((((start pool frontierDepth).after calls).restore hash activeState device).1 = .ok () →
          LruMap.lastInserted ((start pool frontierDepth).labels calls) hash =
            some ((((start pool frontierDepth).after calls).restore hash activeState
              device).2.pool.storage.content activeState.toNat)) := by
  obtain ⟨hstart, hcapacity, hempty, hdepth⟩ := start_sound hcreate frontierDepth
  obtain ⟨m, run, hm⟩ := Sound.after_lruMap hcalls hstart hcapacity (m := .empty) hempty.symm .nil
  obtain ⟨hafter, hsteady⟩ := hstart.after fun call hmem => (hcalls call hmem).leavesOwnership
  rw [List.nil_append] at run
  have hkeys : ∀ hash, ((start pool frontierDepth).after calls).cache.has hash = true ↔
      hash ∈ m.keys := fun hash => by rw [hafter.has_iff_mem_cached, LruMap.keys, hm]
  have hactive : ∀ activeState, ((start pool frontierDepth).after calls).pool.isActive activeState =
      pool.isActive activeState := fun activeState => by
    rw [StatePool.isActive, StatePool.isActive, hsteady.maxActive]
    rfl
  have hserves : ∀ device : Device,
      device.Serves ((start pool frontierDepth).after calls).pool.storage.numLayers ↔
        device.Serves pool.storage.numLayers := fun device => by
    rw [hsteady.numLayers]
    rfl
  refine ⟨m, run, hm, hkeys, ?_, ?_, fun hash activeState device => ⟨?_, fun hok => ?_⟩⟩
  · rw [hafter.evictOne.2.2.2.2, hm, cached, ne_eq, ne_eq, List.map_eq_nil_iff]
  · intro hash frontierBlock activeState device
    rw [hafter.snapshot_ok_iff, hsteady.frontierDepth, hdepth, hkeys, hsteady.maxSnapshots, hactive,
      hserves]
    have hpos : 0 < (start pool frontierDepth).pool.maxSnapshots ↔ 0 < maxSnapshots := by
      have : (start pool frontierDepth).pool.maxSnapshots = maxSnapshots.toNat := hcapacity
      omega
    rw [hpos]
  · rw [(hafter.restore hash activeState device).2.2.2.1, hkeys, hactive, hserves]
  · obtain ⟨content, hmem, hcontent⟩ := (hafter.restore hash activeState device).2.2.2.2 hok
    rw [hcontent]
    exact run.lastInserted_eq (hm ▸ hmem)

/-- Two snapshots, one over the other, and a restore. -/
theorem cache_refines_lruMap_tiny : ∃ pool, StatePool.create tinyConfig 1 1 (.ok ()) = .ok pool ∧
    ∃ m : LruMap Hash Content 1, LruMap.Run ((start pool 1).labels
      [.acquireActive 7 goodDevice, .snapshot 5 0 0 goodDevice,
        .write 7 (fun _ => [1]) (fun _ => []),
        .snapshot 6 0 0 goodDevice, .restore 6 0 goodDevice]) m := by
  obtain ⟨pool, hcreate⟩ : ∃ pool, StatePool.create tinyConfig 1 1 (.ok ()) = .ok pool := ⟨_, rfl⟩
  obtain ⟨m, run, -⟩ := cache_refines_lruMap hcreate 1 [.acquireActive 7 goodDevice,
    .snapshot 5 0 0 goodDevice, .write 7 (fun _ => [1]) (fun _ => []), .snapshot 6 0 0 goodDevice,
    .restore 6 0 goodDevice] (by
      intro call hcall
      simp only [List.mem_cons, List.not_mem_nil, or_false] at hcall
      rcases hcall with rfl | rfl | rfl | rfl | rfl <;> trivial)
  exact ⟨pool, hcreate, m, run⟩

end States

end CcInfer.Gdn
