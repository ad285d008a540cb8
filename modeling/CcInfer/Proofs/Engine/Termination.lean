import CcInfer.Invariant.Control
import CcInfer.Lib.Loop

/-!
# `CcInfer.Proofs.Engine.Termination`: the loops of `schedule_step` end

`schedule_step` has two `while` loops: the admission loop, and the eviction loop of
`allocate_kv_blocks` below it. The model runs both on fuel. Here each is the loop of the
source, with no bound (`Loop.exec` of one pass), and the run on fuel is that loop in every
state, also in those that no run of the engine reaches.
-/

set_option autoImplicit false

namespace CcInfer

namespace KvBlocks

/-- One pass of the `while` loop of `allocate_kv_blocks`. -/
def evictPass (n : Nat) (kv : KvBlocks) : KvBlocks ⊕ KvBlocks :=
  if kv.pool.numFreeBlocks < n then
    match kv.evictOne with
    | (false, kv) => .inl kv
    | (true, kv) => .inr kv
  else .inl kv

theorem numFreeBlocks_recycle (p : BlockPool) (id : BlockId) :
    (p.recycle id).numFreeBlocks = p.numFreeBlocks + 1 := by
  simp only [BlockPool.recycle, BlockPool.numFreeBlocks, List.length_append, List.length_singleton]
  unfold BlockPool.assert
  split <;> rfl

/-- An eviction frees a block, whatever the indexes of the cache hold. -/
theorem numFreeBlocks_evictOne {kv kv' : KvBlocks} (h : kv.evictOne = (true, kv')) :
    kv'.pool.numFreeBlocks = kv.pool.numFreeBlocks + 1 := by
  unfold evictOne at h
  split at h
  · cases h
  · cases h
    exact numFreeBlocks_recycle _ _

/-- The eviction loop needs a pass for each missing block. -/
theorem runsOn_evictPass (n : Nat) : Loop.RunsOn (evictPass n) (fun fuel kv => kv.evictUntil n fuel)
      (fun kv => n - kv.pool.numFreeBlocks) where
  stop kv hneed := by
    have hfree : ¬kv.pool.numFreeBlocks < n := by omega
    exact if_neg hfree
  round fuel kv := by
    simp only [evictPass, evictUntil]
    split
    · generalize kv.evictOne = evicted
      obtain ⟨_ | _, _⟩ := evicted <;> rfl
    · rfl
  less kv kv' hpass := by
    unfold evictPass at hpass
    split at hpass
    · split at hpass
      · cases hpass
      · rename_i hlt _ _ hevict
        cases hpass
        have hfreed := numFreeBlocks_evictOne hevict
        omega
    · cases hpass

end KvBlocks

namespace Scheduler

/-- One pass of the admission loop of `schedule_step`. -/
def admissionPass : Scheduler × BatchBuildContext →
    (Scheduler × BatchBuildContext) ⊕ (Scheduler × BatchBuildContext)
  | (s, ctx) =>
    let (accepting, s) := s.loadAccepting
    if accepting && !s.admissionPaused && decide (0 < ctx.tokenBudget) &&
        decide (s.running.length < s.config.maxRunningRequests) &&
        (!s.skip.isEmpty || !s.waiting.isEmpty) then
      match s.admitOneSkipped ctx with
      | (true, s, ctx) => .inr (s, ctx)
      | (false, s, ctx) =>
        if s.waiting.isEmpty then .inl (s, ctx)
        else
          match s.admitOneWaiting ctx with
          | (true, s, ctx) => .inr (s, ctx)
          | (false, s, ctx) => .inl (s, ctx)
    else .inl (s, ctx)

/-- The number of requests that wait for admission, in either queue. -/
def queued (s : Scheduler) : Nat := s.waiting.length + s.skip.length

variable (s : Scheduler) (ctx : BatchBuildContext)

theorem queued_loadAccepting : s.loadAccepting.2.queued = s.queued :=
  (s.takes_loadAccepting (.of_eq rfl)).queued

theorem queued_admitOneSkipped :
    (s.admitOneSkipped ctx).2.1.queued + (s.admitOneSkipped ctx).1.toNat = s.queued :=
  (s.takes_admitOneSkipped ctx).queued

theorem queued_admitOneWaiting (admitted : (s.admitOneWaiting ctx).1 = true) :
    (s.admitOneWaiting ctx).2.1.queued + 1 = s.queued :=
  ((s.takes_admitOneWaiting ctx).2 admitted).queued

/-- A pass that goes round the admission loop again takes one request off the queues. -/
theorem queued_admissionPass {s s' : Scheduler} {ctx ctx' : BatchBuildContext}
    (hpass : admissionPass (s, ctx) = .inr (s', ctx')) : s'.queued + 1 = s.queued := by
  have hload := s.queued_loadAccepting
  simp only [admissionPass] at hpass
  generalize s.loadAccepting = loaded at hload hpass
  obtain ⟨_, s₁⟩ := loaded
  split at hpass
  · have hskipped := s₁.queued_admitOneSkipped ctx
    generalize s₁.admitOneSkipped ctx = skipped at hskipped hpass
    obtain ⟨_ | _, s₂, ctx₂⟩ := skipped
    · -- nothing resumed: `s₂` has as many requests queued as `s`
      simp only at hpass
      split at hpass
      · cases hpass
      · have hwaiting := s₂.queued_admitOneWaiting ctx₂
        generalize s₂.admitOneWaiting ctx₂ = waiting at hwaiting hpass
        obtain ⟨_ | _, _, _⟩ := waiting
        · cases hpass
        · cases hpass
          exact (hwaiting rfl).trans (hskipped.trans hload)
    · cases hpass
      exact hskipped.trans hload
  · cases hpass

/-- A unit of fuel pays for one pass of the admission loop. -/
theorem admissionLoop_succ (fuel : Nat) : s.admissionLoop ctx (fuel + 1) =
    (admissionPass (s, ctx)).elim id (fun x => x.1.admissionLoop x.2 fuel) := by
  simp only [admissionLoop, admissionPass]
  generalize s.loadAccepting = loaded
  obtain ⟨_, s₁⟩ := loaded
  split
  · generalize s₁.admitOneSkipped ctx = skipped
    obtain ⟨_ | _, s₂, ctx₂⟩ := skipped
    · simp only
      split
      · rfl
      · generalize s₂.admitOneWaiting ctx₂ = waiting
        obtain ⟨_ | _, _, _⟩ := waiting <;> rfl
    · rfl
  · rfl

/-- The admission loop needs a pass for each queued request, and one that leaves. -/
theorem runsOn_admissionPass : Loop.RunsOn admissionPass (fun fuel x => x.1.admissionLoop x.2 fuel)
      (fun x => x.1.queued + 1) where
  stop x hneed := absurd hneed (Nat.succ_ne_zero _)
  round fuel x := admissionLoop_succ x.1 x.2 fuel
  less x x' hpass := by
    have hqueued := queued_admissionPass hpass
    omega

/-- In every state, a pass of the admission loop that goes on lowers the joint length of
`waiting_` and `skip_`, and the two loops of `schedule_step` end. The runs on fuel that the
model uses for them, and those with more fuel, end where the loops do. -/
theorem scheduleStep_terminates (kv : KvBlocks) (n : Nat) :
    (∀ s' ctx', admissionPass (s, ctx) = .inr (s', ctx') →
      s'.waiting.length + s'.skip.length < s.waiting.length + s.skip.length) ∧
    (∀ fuel, s.skip.length + s.waiting.length + 1 ≤ fuel →
      Loop.exec admissionPass (s, ctx) = Part.some (s.admissionLoop ctx fuel)) ∧
    (∀ fuel, n - kv.pool.numFreeBlocks ≤ fuel →
      Loop.exec (KvBlocks.evictPass n) kv = Part.some (kv.evictUntil n fuel)) := by
  refine ⟨?_, ?_, ?_⟩
  · intro s' ctx' hpass
    exact Nat.lt_of_succ_le (queued_admissionPass hpass).le
  · intro fuel hfuel
    have hneed : s.queued + 1 ≤ fuel := by rw [queued]; omega
    exact runsOn_admissionPass.exec_eq fuel (s, ctx) hneed
  · intro fuel hfuel
    exact (KvBlocks.runsOn_evictPass n).exec_eq fuel kv hfuel

end Scheduler

end CcInfer
