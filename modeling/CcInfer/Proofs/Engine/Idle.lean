import CcInfer.Refine.Reach

/-!
# `CcInfer.Proofs.Engine.Idle`: the loop sleeps only when nothing is left to do

`wait_for_work` starts a timer of 24 hours. The tests before it look at `admission_paused_`,
at `waiting_` and at what `has_schedulable_work` finds. With nothing in flight, there is
work for every request that is still running after the cleanup, since an active request is below
its `max_tokens` (`RequestState.BelowMax`). So `running_` is empty, admission is not paused, and
the other queues are empty too.
-/

set_option autoImplicit false

namespace CcInfer

/-- The engine loop enters the idle timer only with nothing in flight and no request left, and
while it accepts requests, admission is paused only with a request running. -/
theorem idle_only_when_empty {config : ValidConfig} {y : Sys} (h : Reachable config y) :
    (∀ dispatchError y', y.step (.engine dispatchError) = some y' → y'.pc = .idle → y'.Empty) ∧
    (y.sched.accepting = true → y.sched.admissionPaused = true → y.sched.running ≠ []) := by
  refine ⟨fun dispatchError y' t hidle => ?_, fun haccepting hpaused => ?_⟩
  · simp only [Sys.step, Sys.engineStep] at t
    split at t
    · cases t
    · cases t
    · cases t; cases hidle
    · split at t <;> cases t <;> cases hidle
    · rename_i hpc
      cases t
      rcases (Sys.Orderly.moves_dispatchStep y dispatchError).2 with hpc' | hpc'
      · rw [hpc', hpc] at hidle; cases hidle
      · rw [hpc'] at hidle; cases hidle
    · rename_i hpc
      split at t
      · rename_i hflight
        cases t
        obtain ⟨_, run, hw⟩ := h.shows
        exact hw.idleStep_empty run h.orderly hpc hflight hidle
      · cases t; cases hidle
    · split at t <;> cases t; cases hidle
    · cases t; cases hidle
    · split at t <;> cases t <;> cases hidle
    · split at t <;> cases t; cases hidle
  · refine h.orderly.paused (fun hstage => ?_) hpaused
    have hcleared := (h.orderly.flags.closed (.inr hstage)).1
    exact absurd (haccepting.symm.trans hcleared) (by simp)

/-- A run in which the only request has got its two tokens, just before the timer. -/
def served : Sys :=
  Sys.after ((EngineConfig.small 3 2).toValid EngineConfig.threeChunked_ok)
    (Label.submits [⟨"a", [1, 2], { maxTokens := 2 }, 6⟩] ++ Label.turn [7] ++ Label.turn [8] ++
      [.engine none, .engine none])

/-- A run in which a suspension has paused admission. -/
def pausedRun : Sys :=
  Sys.after ((EngineConfig.small 3 2).toValid EngineConfig.threeChunked_ok)
    (Label.submits [⟨"a", [1, 2], {}, 6⟩, ⟨"b", [3, 4, 5, 6], {}, 6⟩] ++
      Label.turn [7, 0] ++ Label.turn [8] ++ Label.turn [9])

theorem idle_only_when_empty_served : ((served.step (.engine none)).map Sys.pc = some .idle ∧
      ∀ dispatchError y', served.step (.engine dispatchError) = some y' → y'.pc = .idle →
        y'.Empty) ∧ (pausedRun.sched.accepting = true ∧ pausedRun.sched.admissionPaused = true ∧
      pausedRun.sched.running ≠ []) :=
  ⟨⟨by decide +kernel, (idle_only_when_empty (Reachable.after _ _)).1⟩,
    by decide +kernel, by decide +kernel,
    (idle_only_when_empty (Reachable.after _ _)).2 (by decide +kernel) (by decide +kernel)⟩

end CcInfer
