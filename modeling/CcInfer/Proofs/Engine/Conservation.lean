import CcInfer.Refine.Reach

/-!
# `CcInfer.Proofs.Engine.Conservation`: references are held by block tables

The reference count of a block is the number of its occurrences in the tables of the
scheduled requests, plus what `BlockPool::allocate_blocks` has leaked. It leaks when it
runs out of blocks half way: the blocks taken so far are neither returned nor recorded. So
the books balance exactly as long as every call of `allocate_kv_blocks` finds enough blocks
or none at all (`conserved_iff`).
-/

set_option autoImplicit false

namespace CcInfer

/-! ### What is leaked -/

/-- The number of blocks that a logged allocation leaks. -/
def Obs.leak : Obs → Nat
  | .allocate n available => if available < n then available else 0
  | _ => 0

/-- The blocks that the logged allocations leak. -/
def leakedBy (log : List Obs) : Nat := (log.map Obs.leak).sum

theorem leakedBy_append (l l' : List Obs) : leakedBy (l ++ l') = leakedBy l + leakedBy l' := by
  simp [leakedBy]

/-- Only a shortage with blocks left leaks. -/
theorem leakedBy_eq_zero {log : List Obs} : leakedBy log = 0 ↔
    ∀ n available, .allocate n available ∈ log → available < n → available = 0 := by
  simp only [leakedBy, List.sum_eq_zero_iff, List.mem_map, forall_exists_index, and_imp,
    forall_apply_eq_imp_iff₂]
  constructor
  · intro h n available hmem hlt
    have := h _ hmem
    rwa [Obs.leak, if_pos hlt] at this
  · intro h o ho
    cases o with
    | allocate n available =>
      rw [Obs.leak]
      split
      · rename_i hlt
        exact h n available ho hlt
      · rfl
    | _ => rfl

/-- Nothing but an allocation leaks. -/
theorem leakedBy_quiet {log : List Obs} (h : ∀ o ∈ log, ∀ n available, o ≠ .allocate n available) :
    leakedBy log = 0 :=
  leakedBy_eq_zero.mpr fun n available hmem => absurd rfl (h _ hmem n available)

/-- An allocation logs what it leaks. -/
theorem AllocLog.leakedBy {obs : List Obs} {leak : BlockTable} (h : AllocLog obs leak) :
    leakedBy obs = leak.length := by
  cases h with
  | none => rfl
  | call _ _ _ leak_length => simp [CcInfer.leakedBy, Obs.leak, leak_length]

/-- The log accounts for the leaked blocks. -/
def Leaks (w : World) : Prop := w.kv.pool.leaked.length = leakedBy w.trace

namespace Leaks

variable {w w' : World}

/-- A transaction that moves blocks and logs the leak. -/
theorem moved (h : Leaks w) {gain lose leak : BlockTable} {obs : List Obs}
    (moves : w.kv.Moves w'.kv gain lose leak) (trace : w'.trace = w.trace ++ obs)
    (logged : leakedBy obs = leak.length) : Leaks w' := by
  unfold Leaks
  rw [moves.leaked, trace, List.length_append, leakedBy_append, h, logged]

/-- Every transaction keeps the account. -/
theorem step (h : Leaks w) (core : Core w) (t : World.Step w w') : Leaks w' := by
  have hrefl : w.kv.Moves w.kv [] [] [] := .refl core.ownership.inv
  cases t with
  | note o quiet =>
    obtain ⟨id, err, rfl⟩ := quiet
    exact h.moved hrefl rfl rfl
  | register | cancel | finish | fail | dispatch => exact h.moved hrefl rfl rfl
  | blocks kv obs leak moves logged
    | grow p sc kv obs blocks running scheduled active phase moves uncached logged =>
    exact h.moved moves rfl logged.leakedBy
  | admission _ _ _ _ _ _ _ _ _ _ _ moves _ _ logged =>
    refine h.moved moves rfl ?_
    rw [leakedBy_append, logged.leakedBy]
    rfl
  | park _ _ _ _ _ _ moves => exact h.moved moves rfl rfl
  | drop _ _ _ _ _ _ _ moves _ released =>
    refine h.moved moves rfl (leakedBy_quiet fun o ho n available heq => ?_)
    subst heq
    rcases RequestState.mem_leaving released ho with ⟨sc, -, heq⟩ | ⟨e, -, heq⟩ | heq <;> cases heq
  | retire _ item sampling token p _ advanced written head _ _ _ _ _ settles =>
    have hleaked : (w.kv.publishItem advanced item written).1.pool.leaked = w.kv.pool.leaked := by
      rw [KvBlocks.publishItem_pool]
    refine (congrArg List.length hleaked).trans (h.trans ?_)
    have hquiet : leakedBy (head ++ (w.kv.publishItem advanced item written).2.2 ++
        RequestState.tailObs p (w.heap p) ⟨item, sampling, .done token⟩ token) = 0 := by
      refine leakedBy_quiet fun o ho n available heq => ?_
      subst heq
      rcases settles.mem_log ho with ⟨start, context, heq⟩ | ⟨id, index, tokens, heq⟩ |
        ⟨event, heq⟩ | ⟨status, heq⟩ <;> cases heq
    simp only [World.settled, leakedBy_append w.trace, hquiet, Nat.add_zero]
  | _ => exact h

theorem run (h : Leaks w) (core : Core w) (run : World.Run w w') : Leaks w' :=
  (Runs.invariant (I := fun x => Core x ∧ Leaks x)
    (fun _ _ h t => ⟨h.1.step t, h.2.step h.1 t⟩) ⟨core, h⟩ run).2

end Leaks

/-! ### The books of the pool -/

/-- Every block is free, idle in the cache, or referenced. -/
theorem KvBlocks.Inv.free_add_idle {kv : KvBlocks} (h : kv.Inv)
    (unreferenced : ∀ b, kv.pool.refCount b = 0) :
    kv.pool.numFreeBlocks + kv.cache.idleLru.length = kv.pool.maxBlocks := by
  have hidle : (kv.cache.idleLru.map (·.blockId)).Nodup := by
    refine List.Nodup.map_on (fun e he e' he' heq => ?_) h.idle_nodup
    have hcached := ((h.idle_iff e).mp he).1
    rw [heq, ((h.idle_iff e').mp he').1] at hcached
    exact (Option.some.inj hcached).symm
  have hperm : (kv.pool.freeList ++ kv.cache.idleLru.map (·.blockId)).Perm
      (List.range kv.pool.maxBlocks) := by
    refine (List.perm_ext_iff_of_nodup ?_ List.nodup_range).mpr fun b => ?_
    · refine List.nodup_append.mpr ⟨h.free_nodup, hidle, ?_⟩
      rintro b hfree b' hb' rfl
      obtain ⟨e, he, rfl⟩ := List.mem_map.mp hb'
      have hinUse := h.cached_inUse _ e ((h.idle_iff e).mp he).1
      rw [((h.free_iff _).mp hfree).2] at hinUse
      cases hinUse
    · rw [List.mem_append, List.mem_range, h.free_iff]
      constructor
      · rintro (⟨hlt, -⟩ | hb)
        · exact hlt
        · obtain ⟨e, he, rfl⟩ := List.mem_map.mp hb
          exact h.lt_of_inUse (h.cached_inUse _ e ((h.idle_iff e).mp he).1)
      · intro hlt
        rcases hstatus : kv.pool.status b with _ | _
        · exact .inl ⟨hlt, rfl⟩
        · obtain ⟨e, he⟩ := Option.ne_none_iff_exists'.mp
            (h.unref_cached b hstatus (unreferenced b) id)
          refine .inr (List.mem_map.mpr ⟨e, (h.idle_iff e).mpr ⟨?_, unreferenced _, id⟩, ?_⟩)
          · rw [h.cached_id b e he]; exact he
          · exact h.cached_id b e he
  have := hperm.length_eq
  simpa [BlockPool.numFreeBlocks] using this

namespace Sys

/-- The block tables of the scheduled requests, one after the other. -/
def heldBlocks (y : Sys) : List BlockId :=
  (y.sched.skip ++ y.sched.running).flatMap fun p =>
    ((y.sched.heap p).scheduling.map (·.blockTable)).getD []

/-- The reference counts are the occurrences in the block tables; without scheduled requests
every block is free or idle. -/
structure Conserved (y : Sys) : Prop where
  ref : ∀ b, y.sched.kv.pool.refCount b = y.heldBlocks.count b
  idle : (∀ p, (y.sched.heap p).scheduling = none) →
    y.sched.kv.pool.numFreeBlocks + y.sched.kv.cache.idleLru.length = y.sched.config.maxBlocks

end Sys

/-- The reference counts, with what was leaked. -/
theorem Core.ref_eq {y : Sys} {fl : List FlightItem} (h : Core (World.of y.sched fl y.worker))
    (b : BlockId) : y.sched.kv.pool.refCount b =
      y.heldBlocks.count b + y.sched.kv.pool.leaked.count b := by
  have hp := h.positions
  have hnodup : (y.sched.skip ++ y.sched.running).Nodup := by
    have := hp.nodup
    rw [List.append_assoc] at this
    exact this.of_append_right
  refine (h.ownership.ref b).trans (congrArg (· + _) ?_)
  refine Tables.total_eq_count_flatMap b hnodup ?_ ?_
  · intro p hmem
    exact hp.allocated p (.inr (List.mem_append.mp hmem))
  · intro p _ hnot
    refine World.tableOf_of_none ?_
    rw [List.mem_append] at hnot
    have := mt (hp.scheduled p).mp hnot
    simpa using this

/-- The books balance in exactly those reachable states before which no allocation found
some but too few blocks. -/
theorem conserved_iff {config : ValidConfig} {y : Sys} (h : Reachable config y) : y.Conserved ↔
      ∀ n available, .allocate n available ∈ y.sched.trace → available < n → available = 0 := by
  obtain ⟨fls, -, run, core⟩ := h.core
  have hleaks : y.sched.kv.pool.leaked.length = leakedBy y.sched.trace :=
    Leaks.run (w := World.init config) rfl (.init config) run
  rw [← leakedBy_eq_zero, ← hleaks, List.length_eq_zero_iff]
  constructor
  · intro hconserved
    refine List.eq_nil_iff_forall_not_mem.mpr fun b hb => ?_
    have := core.ref_eq b
    rw [hconserved.ref b] at this
    have := List.count_pos_iff.mpr hb
    omega
  · intro hnil
    have href : ∀ b, y.sched.kv.pool.refCount b = y.heldBlocks.count b := by
      intro b
      rw [core.ref_eq b, hnil, List.count_nil, Nat.add_zero]
    refine ⟨href, fun hnone => ?_⟩
    have hheld : y.heldBlocks = [] := by simp [Sys.heldBlocks, hnone]
    have := core.ownership.inv.free_add_idle fun b => by
      rw [show (World.of y.sched fls.flatten y.worker).kv.pool.refCount b = _ from href b, hheld]
      rfl
    rw [core.ownership.maxBlocks] at this
    exact this

/-- A run in which every allocation finds enough blocks. -/
def roomyRun : Sys :=
  Sys.after ((EngineConfig.small 3 0).toValid EngineConfig.three_ok)
    (Label.submits [⟨"a", [1], {}, 2⟩, ⟨"b", [2, 3, 4], {}, 4⟩] ++ Label.dispatch)

theorem conserved_iff_roomyRun : roomyRun.heldBlocks = [0, 1, 2] ∧
    (roomyRun.Conserved ↔ ∀ n available, .allocate n available ∈ roomyRun.sched.trace →
      available < n → available = 0) :=
  ⟨by decide +kernel, conserved_iff (Reachable.after _ _)⟩

/-- A run in which an allocation of two blocks finds one. -/
def shortRun : Sys :=
  Sys.after ((EngineConfig.small 2 0).toValid (by decide))
    (Label.submits [⟨"a", [1], {}, 2⟩, ⟨"b", [2, 3, 4], {}, 4⟩] ++ Label.dispatch)

/-- The block that `allocate_blocks` took before it failed stays referenced, and no request
has it. No assertion fails on the way. -/
theorem shortRun_leaks : Reachable ((EngineConfig.small 2 0).toValid (by decide)) shortRun ∧
    .allocate 2 1 ∈ shortRun.sched.trace ∧ shortRun.sched.failedAsserts = [] ∧
    shortRun.heldBlocks = [0] ∧ shortRun.sched.kv.pool.refCount 1 = 1 ∧ ¬ shortRun.Conserved := by
  have hheld : shortRun.heldBlocks = [0] := by decide +kernel
  have href : shortRun.sched.kv.pool.refCount 1 = 1 := by decide +kernel
  refine ⟨Reachable.after _ _, by decide +kernel, by decide +kernel, hheld, href, fun h => ?_⟩
  have := h.ref 1
  rw [hheld, href] at this
  cases this

end CcInfer
