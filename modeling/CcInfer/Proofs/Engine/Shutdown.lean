import CcInfer.Refine.Reach

/-!
# `CcInfer.Proofs.Engine.Shutdown`: the shutdown is clean

The promise of `shutdown_async` is set in one of two places: by the posted handler if the
engine loop was never spawned, and else at the end of the drain. `Sys.Orderly` gives the
flags and the two queues that are emptied first. What is left is `running_`, which the drain
leaves to `cleanup_all_running`, and that every step after the promise changes nothing that
could take a request in (`Sys.Orderly.step_sent`).
-/

set_option autoImplicit false

namespace CcInfer

namespace Sys

variable {y y' : Sys}

/-- A load of `accepting_` after the shutdown changes nothing. -/
theorem loadAccepting_closed {s : Scheduler} (accepting : s.accepting = false)
    (pending : s.storePending = none) : s.loadAccepting = (false, s) := by
  rw [Scheduler.loadAccepting, pending, accepting]

/-- After the promise was set, no step registers a request or lets one run. -/
theorem Orderly.step_sent (h : y.Orderly) (sent : y.sched.shutdownDoneSent = true) {l : Label}
    (t : y.step l = some y') :
    y'.sched.shutdownDoneSent = true ∧ y'.sched.nextPtr = y.sched.nextPtr ∧
    y'.sched.running = y.sched.running := by
  obtain ⟨hrequested, hpending, haccepting, hstage⟩ := h.flags.sent sent
  have hrequested : y.sched.shutdownRequested = true := hrequested
  have hpending : y.sched.storePending = none := hpending
  have haccepting : y.sched.accepting = false := haccepting
  have hpc : y.pc = .done ∨ y.pc = .notStarted := by
    cases hpc : y.pc <;> simp [hpc, EnginePc.stage] at hstage ⊢
  have hqueues : y.sched.waiting = [] ∧ y.sched.skip = [] := by
    rcases hstage with hstage | hstage
    · exact h.drained (.inr hstage)
    · exact ⟨(h.fresh hstage).1, (h.fresh hstage).2.1⟩
  have hpipeline : y.pipeline = [] := by
    have hflight : y.inFlight = [] := by
      rcases hstage with hstage | hstage
      · exact h.empty hstage
      · exact (h.fresh hstage).2.2.2
    rcases hpc with hpc | hpc <;> simp [pipeline, hpc, EnginePc.current, hflight]
  cases l with
  | start =>
    cases t
    simp [Sys.handleStart, hrequested, sent]
  | submit =>
    simp only [Sys.step] at t
    split at t
    · cases t
      simp only [Sys.handleSubmit, loadAccepting_closed haccepting hpending,
        Bool.not_false, if_true]
      exact ⟨sent, rfl, rfl⟩
    · cases t
  | cancel =>
    simp only [Sys.step] at t
    split at t
    · cases t
      unfold Scheduler.cancelOnSchedulerThread
      split
      · exact ⟨sent, rfl, rfl⟩
      · split <;> exact ⟨sent, rfl, rfl⟩
    · cases t
  | shutdownAsync =>
    cases t
    simp [Sys.handleShutdownAsync, hrequested, sent]
  | landStore => simp [Sys.step, hpending] at t
  | shutdownHandler =>
    simp only [Sys.step] at t
    split at t
    · unfold Sys.handleShutdown at t
      split at t
      · cases t
      · -- both queues are empty, so the handler has nothing to do
        cases t
        simp only [Scheduler.failAllWaiting, hqueues.1, Scheduler.failWaitingLoop, hqueues.2,
          Scheduler.failSkipLoop, Scheduler.completeShutdown, sent, if_true, ite_self]
        exact ⟨trivial, trivial, trivial⟩
    · cases t
  | expire => cases t; exact ⟨sent, rfl, rfl⟩
  | work =>
    simp [Sys.step, Sys.workStep, hpipeline, Sys.resolveFirst] at t
  | engine =>
    rcases hpc with hpc | hpc <;> simp [Sys.step, Sys.engineStep, hpc] at t

/-- The loop comes to its end only from the drain. -/
theorem step_done {l : Label} (t : y.step l = some y') (hdone : y'.pc = .done) :
    y.pc = .done ∨ (y.inFlight = [] ∧ y'.sched =
      (y.sched.cleanupAllRunning .serverShuttingDown).completeShutdown ∧ y.pc = .draining) := by
  cases l with
  | start =>
    cases t
    unfold handleStart at hdone
    split at hdone
    · exact .inl hdone
    · cases hdone
  | submit =>
    simp only [Sys.step] at t
    split at t
    · cases t
      simp only [handleSubmit] at hdone
      split at hdone <;> exact .inl hdone
    · cases t
  | cancel | landStore =>
    simp only [Sys.step] at t
    split at t <;> cases t
    exact .inl hdone
  | shutdownAsync =>
    cases t
    unfold handleShutdownAsync at hdone
    split at hdone <;> exact .inl hdone
  | shutdownHandler =>
    simp only [Sys.step, handleShutdown] at t
    split at t
    · split at t <;> cases t
      exact .inl hdone
    · cases t
  | expire => cases t; exact .inl hdone
  | work =>
    simp only [Sys.step, workStep] at t
    split at t
    · cases t
    · split at t
      · cases t
        rcases hpc : y.pc with _ | _ | _ | _ | _ | _ | _ | _ | _ | _ <;>
          simp [hpc, EnginePc.withCurrent] at hdone ⊢
      · cases t; exact .inl hdone
  | engine dispatchError =>
    simp only [Sys.step, engineStep] at t
    split at t
    · cases t
    · cases t
    · cases t; cases hdone
    · split at t <;> cases t <;> cases hdone
    · rename_i hpc
      cases t
      rcases (Orderly.moves_dispatchStep y dispatchError).2 with hpc' | hpc'
      · rw [hpc', hpc] at hdone; cases hdone
      · rw [hpc'] at hdone; cases hdone
    · split at t
      · cases t
        rcases (Orderly.moves_idleStep y).2 with hpc' | hpc' <;> rw [hpc'] at hdone <;> cases hdone
      · cases t; cases hdone
    · split at t <;> cases t; cases hdone
    · cases t; cases hdone
    · rename_i hpc
      split at t
      · rename_i hflight
        cases t
        exact .inr ⟨hflight, rfl, hpc⟩
      · cases t; cases hdone
    · split at t <;> cases t; cases hdone

end Sys

/-- Nothing runs after the drain. -/
theorem Reachable.done_running {config : ValidConfig} {y : Sys} (h : Reachable config y) :
    y.pc = .done → y.sched.running = [] := by
  induction h with
  | init => exact nofun
  | @step y _ _ hy t ih =>
    intro hdone
    rcases Sys.step_done t hdone with hpc | ⟨hflight, hsched, hpc⟩
    · have hsent := hy.orderly.flags.ended (by rw [hpc]; rfl)
      exact (hy.orderly.step_sent hsent t).2.2.trans (ih hpc)
    · obtain ⟨fls, -, -, core⟩ := hy.core
      have hnodup : y.sched.running.Nodup := (List.nodup_append.mp core.positions.nodup).2.1
      have hempty := Scheduler.cleanupAllRunning_running .serverShuttingDown hnodup fun p hp =>
        (core.positions.scheduled p).mpr (.inr hp)
      rw [hsched]
      unfold Scheduler.completeShutdown
      split <;> exact hempty

/-- The promise is set at most once. From then on nothing is registered, queued or in flight,
and in no run that follows is a request registered. -/
theorem shutdown_clean {config : ValidConfig} {y : Sys} (h : Reachable config y) :
    y.sched.promiseSet ≤ 1 ∧ (y.sched.promiseSet = 1 →
      (y.pipeline = [] ∧ y.sched.requests = [] ∧ y.sched.waiting = [] ∧ y.sched.skip = [] ∧
        y.sched.running = [] ∧ ∀ seq, y.sched.bySeqId seq = none) ∧
      ∀ ls y', y.run ls = some y' → y'.sched.promiseSet = 1 ∧
        y'.sched.nextPtr = y.sched.nextPtr) := by
  have orderly := h.orderly
  have hpromise : y.sched.promiseSet = if y.sched.shutdownDoneSent then 1 else 0 :=
    orderly.flags.promise
  refine ⟨by rw [hpromise]; split <;> omega, fun hset => ?_⟩
  have hsent : y.sched.shutdownDoneSent = true := by
    by_contra hnot
    rw [hpromise, if_neg hnot] at hset
    cases hset
  refine ⟨?_, fun ls => ?_⟩
  · obtain ⟨fls, -, -, core⟩ := h.core
    have hqueues : y.pipeline = [] ∧ y.sched.waiting = [] ∧ y.sched.skip = [] ∧
        y.sched.running = [] := by
      rcases (orderly.flags.sent hsent).2.2.2 with hstage | hstage
      · have hpc : y.pc = .done := by
          cases hpc : y.pc <;> simp [hpc, EnginePc.stage] at hstage ⊢
        obtain ⟨hwaiting, hskip⟩ := orderly.drained (.inr hstage)
        refine ⟨?_, hwaiting, hskip, h.done_running hpc⟩
        rw [Sys.pipeline, hpc, orderly.empty hstage]
        rfl
      · have hpc : y.pc = .notStarted := by
          cases hpc : y.pc <;> simp [hpc, EnginePc.stage] at hstage ⊢
        obtain ⟨hwaiting, hskip, hrunning, hflight⟩ := orderly.fresh hstage
        refine ⟨?_, hwaiting, hskip, hrunning⟩
        rw [Sys.pipeline, hpc, hflight]
        rfl
    obtain ⟨hpipeline, hwaiting, hskip, hrunning⟩ := hqueues
    refine ⟨hpipeline, ?_, hwaiting, hskip, hrunning, fun seq => ?_⟩
    · have hperm := core.positions.registry_perm
      simp only [World.of, hwaiting, hskip, hrunning, List.append_nil] at hperm
      exact List.map_eq_nil_iff.mp hperm.eq_nil
    · refine Option.eq_none_iff_forall_ne_some.mpr fun p hp => ?_
      have hmem : p ∈ y.sched.running := ((core.positions.bySeqId seq p).mp hp).1
      rw [hrunning] at hmem
      cases hmem
  · clear hset hpromise orderly
    induction ls generalizing y with
    | nil =>
      intro y' hrun
      cases hrun
      have hpromise := h.orderly.flags.promise
      rw [show y.sched.flags.shutdownDoneSent = true from hsent] at hpromise
      exact ⟨hpromise, rfl⟩
    | cons l _ ih =>
      intro y' hrun
      obtain ⟨y₁, hstep, hrest⟩ := Option.bind_eq_some_iff.mp hrun
      obtain ⟨hsent₁, hnext, -⟩ := h.orderly.step_sent hsent hstep
      obtain ⟨hset, hptr⟩ := ih (h.step l hstep) hsent₁ y' hrest
      exact ⟨hset, hptr.trans hnext⟩

/-- A run with a shutdown while a request has a batch in flight, up to the promise. -/
def drainedRun : Sys :=
  Sys.after ((EngineConfig.small 3 0).toValid EngineConfig.three_ok)
    (Label.submits [⟨"a", [1, 2, 3], {}, 6⟩] ++ Label.dispatch ++
      [.engine none, .engine none, .shutdownAsync 0, .landStore, .shutdownHandler,
        .submit ⟨"b", [4], {}, 6⟩, .work true (.sampled [7]), .engine none, .engine none,
        .engine none])

theorem shutdown_clean_drainedRun : (drainedRun.sched.promiseSet = 1 ∧ drainedRun.pc = .done ∧
      drainedRun.sched.trace.getLast? = some (.erased 0)) ∧ drainedRun.sched.promiseSet ≤ 1 ∧
    (drainedRun.pipeline = [] ∧ drainedRun.sched.requests = [] ∧ drainedRun.sched.waiting = [] ∧
      drainedRun.sched.skip = [] ∧ drainedRun.sched.running = [] ∧
      ∀ seq, drainedRun.sched.bySeqId seq = none) ∧
    ∀ ls y', drainedRun.run ls = some y' → y'.sched.promiseSet = 1 ∧
      y'.sched.nextPtr = drainedRun.sched.nextPtr :=
  ⟨by decide +kernel, (shutdown_clean (Reachable.after _ _)).1,
    (shutdown_clean (Reachable.after _ _)).2 (by decide +kernel)⟩

end CcInfer
