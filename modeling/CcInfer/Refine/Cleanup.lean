import CcInfer.Invariant.Lives
import CcInfer.Refine.Queues

/-!
# `CcInfer.Refine.Cleanup`: what the two sweeps leave

`cleanup_terminal_requests` leaves only active requests in `skip_` and `waiting_`, and in
`running_` only requests that are active or have items in flight (`Scheduler.Clean`). It
changes no status and only takes scheduling states away (`Scheduler.Releases`).
`cleanup_all_running` leaves nothing in `running_`.
-/

set_option autoImplicit false

namespace CcInfer

namespace Scheduler

variable {s s' s'' : Scheduler}

/-- From `s` to `s'`, no status changes and no request becomes terminal and idle. -/
structure Releases (s s' : Scheduler) : Prop where
  status : ∀ p, (s'.heap p).status = (s.heap p).status
  idle : ∀ p, s'.terminalIdle p = true → s.terminalIdle p = true

namespace Releases

theorem refl (s : Scheduler) : Releases s s := ⟨fun _ => rfl, fun _ => id⟩

theorem trans (h : Releases s s') (h' : Releases s' s'') : Releases s s'' :=
  ⟨fun p => (h'.status p).trans (h.status p), fun p hp => h.idle p (h'.idle p hp)⟩

/-- The scheduling state of `p` is taken away. -/
theorem of_heap {p : RequestPtr}
    (heap : s'.heap = Function.update s.heap p { s.heap p with scheduling := none }) :
    Releases s s' := by
  constructor
  · intro q
    rw [heap, Function.update_apply]
    split
    · rename_i hq
      rw [hq]
    · rfl
  · intro q hq
    rw [Does.terminalIdle_iff, heap] at hq
    rcases eq_or_ne q p with rfl | hne
    · obtain ⟨-, _, hsc, -⟩ := hq
      rw [Function.update_self] at hsc
      cases hsc
    · rw [Function.update_of_ne hne] at hq
      exact Does.terminalIdle_iff.mpr hq

end Releases

/-- The second loop of `cleanup_terminal_requests` takes its requests out of `running_`. -/
theorem foldl_cleanupRunning (l : List RequestPtr) : ∀ s : Scheduler,
    Releases s (l.foldl cleanupRunning s) ∧
    (l.foldl cleanupRunning s).running = s.running.diff l := by
  induction l with
  | nil => intro s; exact ⟨.refl s, rfl⟩
  | cons p _ ih =>
    intro s
    obtain ⟨hreleases, hrest⟩ := ih (s.cleanupRunning p)
    have hround := s.cleanupRunning_eq p
    refine ⟨(Releases.of_heap (p := p) (by rw [hround]; rfl)).trans hreleases, ?_⟩
    rw [List.foldl_cons, hrest, hround, List.diff_cons]

/-- `cleanup_terminal_queue` keeps active requests only. -/
theorem cleanupQueueLoop_active (queue : List RequestPtr) :
    ∀ (s : Scheduler) (active : List RequestPtr), Releases s (s.cleanupQueueLoop active queue).1 ∧
      ∀ p ∈ (s.cleanupQueueLoop active queue).2, p ∈ active ∨ (s.heap p).status = .active := by
  induction queue with
  | nil => intro s active; exact ⟨.refl s, fun p hp => .inl hp⟩
  | cons p _ ih =>
    intro s active
    by_cases hactive : (s.heap p).status = .active
    · rw [cleanupQueueLoop, if_pos hactive]
      obtain ⟨hreleases, hkept⟩ := ih s (active ++ [p])
      refine ⟨hreleases, fun q hq => ?_⟩
      rcases hkept q hq with hq | hq
      · rcases List.mem_append.mp hq with hq | hq
        · exact .inl hq
        · rw [List.mem_singleton.mp hq]
          exact .inr hactive
      · exact .inr hq
    · rw [cleanupQueueLoop_cons _ hactive]
      have hround : Releases s (s.forgotten p (s.queueNotes p) none) := .of_heap rfl
      obtain ⟨hreleases, hkept⟩ := ih (s.forgotten p (s.queueNotes p) none) active
      refine ⟨hround.trans hreleases, fun q hq => (hkept q hq).imp_right fun hq => ?_⟩
      rwa [hround.status q] at hq

/-- What is queued is active, and what is running is active or has items in flight. -/
structure Clean (s : Scheduler) : Prop where
  running : ∀ p ∈ s.running, s.terminalIdle p = false
  skip : ∀ p ∈ s.skip, (s.heap p).status = .active
  waiting : ∀ p ∈ s.waiting, (s.heap p).status = .active

/-- The cleanup leaves no idle terminal request. -/
theorem cleanupTerminalRequests_clean (nodup : s.running.Nodup) :
    s.cleanupTerminalRequests.Clean := by
  obtain ⟨hfold, hrunning⟩ := foldl_cleanupRunning (s.running.filter s.terminalIdle) s
  simp only [cleanupTerminalRequests]
  generalize List.foldl cleanupRunning s _ = s₁ at hfold hrunning ⊢
  obtain ⟨hskip, hskipKept⟩ := cleanupQueueLoop_active s₁.skip s₁ []
  have hskipControl := control_cleanupQueueLoop s₁.skip s₁ []
  generalize s₁.cleanupQueueLoop [] s₁.skip = cleaned at hskip hskipKept hskipControl ⊢
  obtain ⟨s₂, skip⟩ := cleaned
  simp only at hskip hskipKept hskipControl ⊢
  obtain ⟨hwaiting, hwaitingKept⟩ := cleanupQueueLoop_active s₂.waiting { s₂ with skip := skip } []
  have hwaitingControl := control_cleanupQueueLoop s₂.waiting { s₂ with skip := skip } []
  generalize Scheduler.cleanupQueueLoop _ [] s₂.waiting = cleaned at *
  obtain ⟨s₃, _⟩ := cleaned
  simp only at hwaiting hwaitingKept hwaitingControl ⊢
  have hlast : Releases s₁ s₃ := hskip.trans ⟨hwaiting.status, hwaiting.idle⟩
  refine ⟨fun p hp => ?_, fun p hp => ?_, fun p hp => ?_⟩
  · -- a terminal idle request was one at the beginning, so it was taken out
    have hp : p ∈ s.running.diff (s.running.filter s.terminalIdle) := by
      rw [← hrunning]
      have hback : s₃.running = s₁.running := (congrArg Control.running hwaitingControl).trans
        (congrArg Control.running hskipControl)
      rwa [← hback]
    obtain ⟨hmem, hnot⟩ := nodup.mem_sdiff_iff.mp hp
    rw [← Bool.not_eq_true]
    exact fun hidle => hnot (List.mem_filter.mpr ⟨hmem, hfold.idle p (hlast.idle p hidle)⟩)
  · have hp : p ∈ skip := by
      have hback : s₃.skip = skip := congrArg Control.skip hwaitingControl
      rwa [← hback]
    show (s₃.heap p).status = .active
    rw [hlast.status p]
    exact (hskipKept p hp).resolve_left List.not_mem_nil
  · show (s₃.heap p).status = .active
    rw [hwaiting.status p]
    exact (hwaitingKept p hp).resolve_left List.not_mem_nil

/-- `cleanup_all_running` empties `running_`, if all of it is scheduled. -/
theorem cleanupAllRunning_running (err : ErrorCode) (nodup : s.running.Nodup)
    (scheduled : ∀ p ∈ s.running, (s.heap p).scheduling.isSome = true) :
    (s.cleanupAllRunning err).running = [] := by
  unfold cleanupAllRunning
  generalize hqueue : s.running = queue at nodup scheduled
  induction queue generalizing s with
  | nil => exact hqueue
  | cons p rest ih =>
    obtain ⟨hp, hrest⟩ := List.nodup_cons.mp nodup
    have hsome := scheduled p List.mem_cons_self
    -- one round takes the first request out and leaves the others alone
    have hround : (s.shutdownRunning err p).running = rest ∧
        ∀ q, q ≠ p → (s.shutdownRunning err p).heap q = s.heap q := by
      rw [shutdownRunning,
        if_neg (by rw [Option.isNone_iff_eq_none]; intro hnone; simp [hnone] at hsome)]
      simp only
      rw [eraseRequest_eq _ (by simp [releaseSchedulingBlocks_eq])]
      split <;>
        simp +contextual [releaseSchedulingBlocks_eq, sendErrorEvent, sendEvent, setStatus,
          setRequest, log, hqueue, Function.update_of_ne]
    rw [List.foldl_cons]
    refine ih hround.1 hrest fun q hq => ?_
    rw [hround.2 q fun heq => hp (heq ▸ hq)]
    exact scheduled q (List.mem_cons_of_mem _ hq)

end Scheduler

/-! ### Nothing left to do -/

/-- With nothing in flight there is work for every active running request. -/
theorem Core.hasWorkFor {s : Scheduler} {k : Worker} (core : Core (World.of s [] k))
    {p : RequestPtr} (hp : p ∈ s.running) (active : (s.heap p).status = .active)
    (below : (s.heap p).BelowMax) : s.hasWorkFor p = true := by
  obtain ⟨sc, hsc⟩ := Option.isSome_iff_exists.mp ((core.positions.scheduled p).mpr (.inr hp))
  have hsc : (s.heap p).scheduling = some sc := hsc
  have hgeo := core.geometry (p := p) hsc
  simp only [World.itemsOf, World.of, List.filter_nil, List.map_nil] at hgeo
  have hprompt : sc.reservation.reservedPromptTokens = 0 := hgeo.reservedPrompt
  have hgeneration : sc.reservation.reservedGenerationTokens = 0 := hgeo.reservedGeneration
  simp only [Scheduler.hasWorkFor, Scheduler.isSchedulableState, hsc, active, hprompt, hgeneration,
    Option.isSome_some, beq_self_eq_true, Bool.and_true, Bool.true_and, Nat.add_zero,
    Bool.or_true]
  split
  · rename_i hphase
    rw [(hgeo.prefill active hphase).1]
    exact decide_eq_true (hgeo.unfilled active hphase)
  · exact decide_eq_true (below active (.inl (by rw [hsc]; rfl)))

/-- The tests before the timer leave nothing queued. -/
theorem Core.nothing_left {s : Scheduler} {k : Worker} (core : Core (World.of s [] k))
    (clean : s.Clean) (below : ∀ p, p < s.nextPtr → (s.heap p).BelowMax)
    (paused : s.control.PausedOk) (noWork : s.hasSchedulableWork = false)
    (waits : s.admissionPaused = false → s.waiting = []) :
    s.requests = [] ∧ s.waiting = [] ∧ s.skip = [] ∧ s.running = [] := by
  rw [Scheduler.hasSchedulableWork, Bool.or_eq_false_iff, List.any_eq_false] at noWork
  have hrunning : s.running = [] := by
    refine List.eq_nil_iff_forall_not_mem.mpr fun p hp => noWork.2 p hp ?_
    obtain ⟨sc, hsc⟩ := Option.isSome_iff_exists.mp ((core.positions.scheduled p).mpr (.inr hp))
    have hleases : sc.reservation.executionLeases = 0 := core.leases hsc
    have hactive : (s.heap p).status = .active := by
      by_contra hinactive
      have hidle := Does.terminalIdle_iff.mpr ⟨hinactive, sc, hsc, hleases⟩
      rw [clean.running p hp] at hidle
      cases hidle
    exact core.hasWorkFor hp hactive (below p (core.scheduled_lt hsc))
  have hskip : s.skip = [] := by
    have hlimit := s.config.maxRunning_pos
    have hnone := noWork.1
    rw [hrunning, List.length_nil, decide_eq_true hlimit, Bool.and_true] at hnone
    simpa using hnone
  have hwaiting : s.waiting = [] := waits (by
    by_contra hpaused
    exact paused (Bool.not_eq_false _ ▸ hpaused) hrunning)
  refine ⟨?_, hwaiting, hskip, hrunning⟩
  have hperm := core.positions.registry_perm
  simp only [World.of, hwaiting, hskip, hrunning, List.append_nil] at hperm
  exact List.map_eq_nil_iff.mp hperm.eq_nil

end CcInfer
