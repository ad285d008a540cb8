import CcInfer.Refine.Cleanup
import CcInfer.Refine.Engine

/-!
# `CcInfer.Refine.Reach`: reachable states show reachable worlds

`admit_one_skipped` has branches for requests that were cancelled or are at their limit. They
are never taken: where the loop builds batches `skip_` holds active requests only
(`SkipOk`). A cancellation comes in while the coroutine is suspended. In `collect_batch` it is
followed by a cleanup, and in the idle timer there is no request to cancel
(`Shows.idleStep_empty`).
-/

set_option autoImplicit false

namespace CcInfer

variable {config : ValidConfig} {y y' : Sys} {l : Label} {batches : List InFlightBatch}
variable {fls : List (List FlightItem)} {site : AssertSite} {p : RequestPtr}

/-- Whether the loop stands between two calls of `schedule_step`. -/
def EnginePc.builds : EnginePc → Bool
  | outer | inner | afterInner => true
  | _ => false

/-- Whether the loop has nothing in its hands and handlers may run. -/
def EnginePc.rests : EnginePc → Bool
  | notStarted | spawned | idle => true
  | _ => false

theorem EnginePc.builds_of_suspended {pc : EnginePc} (h : pc.suspended = true) :
    pc.builds = false := by
  cases pc <;> first | rfl | cases h

/-- `preempt_one_for_admission` moves an active request to `skip_`. -/
theorem Scheduler.preemptOneForAdmission_skip {s : Scheduler}
    (active : ∀ p ∈ s.skip, (s.heap p).status = .active) : ∀ p ∈ s.preemptOneForAdmission.skip,
      (s.preemptOneForAdmission.heap p).status = .active := by
  unfold preemptOneForAdmission
  rcases hfind : s.running.reverse.find? s.preemptable with _ | p
  · exact active
  · simp only
    rcases hsc : (s.heap p).scheduling with _ | _
    · exact active
    · have htest := List.find?_some hfind
      simp only [preemptable, hsc, isSchedulableState, Bool.and_eq_true, beq_iff_eq] at htest
      intro q hq
      rcases List.mem_cons.mp hq with rfl | hq
      · exact htest.1.1
      · exact active q hq

namespace Sys

variable {w : World}

/-! ### The idle timer -/

/-- Nothing is registered, queued or in flight. -/
structure Empty (y : Sys) : Prop where
  pipeline : y.pipeline = []
  requests : y.sched.requests = []
  waiting : y.sched.waiting = []
  skip : y.sched.skip = []
  running : y.sched.running = []

/-- The branch of `run` that waits, with nothing in flight. -/
theorem Shows.idleStep_empty (h : y.Shows w) (run : World.Run (World.init config) w)
    (orderly : y.Orderly) (hpc : y.pc = .afterInner) (hflight : y.inFlight = [])
    (hidle : y.idleStep.pc = .idle) : y.idleStep.Empty := by
  have core := run.core
  obtain ⟨fls, carries, rfl⟩ := h
  have hnil : y.pipeline = [] := by simp [Sys.pipeline, hpc, EnginePc.current, hflight]
  rw [hnil] at carries
  cases carries
  have hdoes : World.Run _ (World.of y.sched.cleanupTerminalRequests [] y.worker) :=
    Does.cleanupTerminalRequests core
  have hcore := core.run hdoes
  have hbelow := fun p => World.Run.belowMax (p := p) (run.trans hdoes)
  have hnodup : y.sched.running.Nodup := (List.nodup_append.mp core.positions.nodup).2.1
  have hclean := Scheduler.cleanupTerminalRequests_clean hnodup
  have hpaused := y.sched.moves_cleanupTerminalRequests.paused
    (orderly.paused (by rw [hpc]; decide))
  unfold Sys.idleStep at hidle ⊢
  generalize y.sched.cleanupTerminalRequests = s at *
  obtain ⟨accepting, pending, posted, hload, -⟩ := s.loadAccepting_eq
  simp only [hload s.waiting s.skip s.kv s.trace] at hidle ⊢
  -- the three tests before the timer
  split at hidle
  · cases hidle
  · rename_i hpreempt
    rw [if_neg hpreempt]
    split at hidle
    · cases hidle
    · rename_i hwork
      rw [if_neg hwork]
      split at hidle
      · cases hidle
      · rename_i hwaiting
        rw [if_neg hwaiting]
        rw [Bool.or_eq_true, not_or, Bool.not_eq_true, Bool.not_eq_true] at hwork
        obtain ⟨hrequests, hwaiting, hskip, hrunning⟩ := hcore.nothing_left hclean hbelow hpaused
          hwork.2 (fun hopen => by simpa [hopen] using hwaiting)
        exact ⟨by simp [Sys.pipeline, EnginePc.current, hflight], hrequests, hwaiting, hskip,
          hrunning⟩

/-! ### Skipped requests -/

/-- Where the loop builds batches `skip_` holds active requests only, and it is empty where the
loop rests. -/
structure SkipOk (y : Sys) : Prop where
  active : y.pc.builds = true → ∀ p ∈ y.sched.skip, (y.sched.heap p).status = .active
  empty : y.pc.rests = true → y.sched.skip = []

namespace SkipOk

/-- The state in which `schedule_step` is called. -/
theorem tidy (h : y.SkipOk) (orderly : y.Orderly) (shown : y.Shows w)
    (run : World.Run (World.init config) w) (hpc : y.pc = .inner) : y.sched.Tidy := by
  have hflags := orderly.flags
  rw [LawfulFlags, hpc] at hflags
  refine ⟨hflags, fun p hp => ?_⟩
  have hactive := h.active (by rw [hpc]; rfl) p hp
  have core := run.core
  obtain ⟨_, -, rfl⟩ := shown
  obtain ⟨sc, hsc⟩ := Option.isSome_iff_exists.mp ((core.positions.scheduled p).mpr (.inl hp))
  exact ⟨hactive, run.belowMax (core.scheduled_lt hsc) hactive
    (.inl (Option.isSome_iff_exists.mpr ⟨sc, hsc⟩))⟩

/-- A step that leaves `skip_` and the statuses alone. -/
theorem framed (h : y.SkipOk)
    (builds : y'.pc.builds = true → y.pc.builds = true ∨ y.pc.rests = true)
    (rests : y'.pc.rests = true → y.pc.rests = true) (skip : y'.sched.skip = y.sched.skip)
    (status : ∀ p, (y'.sched.heap p).status = (y.sched.heap p).status) : y'.SkipOk where
  active hpc p hp := by
    rw [skip] at hp
    rw [status p]
    rcases builds hpc with hpc | hpc
    · exact h.active hpc p hp
    · rw [h.empty hpc] at hp
      cases hp
  empty hpc := skip.trans (h.empty (rests hpc))

/-- A handler leaves `skip_` alone or empties it. -/
theorem handled (h : y.SkipOk) (suspended : y.pc.suspended = true) (pc : y'.pc = y.pc)
    (skip : y'.sched.skip = y.sched.skip ∨ y'.sched.skip = []) : y'.SkipOk where
  active hpc := by
    rw [pc, EnginePc.builds_of_suspended suspended] at hpc
    cases hpc
  empty hpc := skip.elim (fun heq => heq.trans (h.empty (pc ▸ hpc))) id

/-- A step to a place where `skip_` does not matter. -/
theorem elsewhere (builds : y'.pc.builds = false) (rests : y'.pc.rests = false) : y'.SkipOk :=
  ⟨fun h => absurd (builds.symm.trans h) nofun, fun h => absurd (rests.symm.trans h) nofun⟩

/-- A step to a place where batches are built. -/
theorem building (pc : y'.pc.builds = true)
    (active : ∀ p ∈ y'.sched.skip, (y'.sched.heap p).status = .active) : y'.SkipOk :=
  ⟨fun _ => active, fun h => by cases hpc : y'.pc <;> simp_all [EnginePc.builds, EnginePc.rests]⟩

theorem loadAccepting_frame (s : Scheduler) : s.loadAccepting.2.skip = s.skip ∧
    s.loadAccepting.2.heap = s.heap := by
  unfold Scheduler.loadAccepting
  split <;> exact ⟨rfl, rfl⟩

/-- One turn of the dispatch loop. -/
theorem dispatchStep (h : y.SkipOk) (orderly : y.Orderly) (shown : y.Shows w)
    (run : World.Run (World.init config) w) (hpc : y.pc = .inner)
    (dispatchError : Option ErrorCode) : (y.dispatchStep dispatchError).SkipOk := by
  have htidy := h.tidy orderly shown run hpc
  have hactive := h.active (by rw [hpc]; rfl)
  have core := run.core
  obtain ⟨_, -, rfl⟩ := shown
  obtain ⟨hrun, -, hfewer⟩ := Scheduler.scheduleStep_run core htidy
  have hcore := core.run hrun
  unfold Sys.dispatchStep
  split
  · generalize y.sched.scheduleStep = scheduled at hcore hfewer ⊢
    obtain ⟨s, batch⟩ := scheduled
    simp only at hcore hfewer ⊢
    have hkept : ∀ p ∈ s.skip, (s.heap p).status = .active := fun p hp => by
      rw [(hfewer.same p hp).1]
      exact hactive p (hfewer.skip p hp)
    split
    · exact building rfl hkept
    · cases dispatchError with
      | none => exact building (by simp only [hpc]; rfl) hkept
      | some err =>
        have hnodup : (s.failBatch batch err).running.Nodup := by
          rw [show (s.failBatch batch err).running = s.running from
            congrArg Control.running (s.control_failBatch batch err)]
          exact (List.nodup_append.mp hcore.positions.nodup).2.1
        exact building (by simp only [hpc]; rfl)
          (Scheduler.cleanupTerminalRequests_clean hnodup).skip
  · exact building rfl hactive

/-- The branch of `run` with nothing in flight. -/
theorem idleStep (orderly : y.Orderly) (shown : y.Shows w)
    (run : World.Run (World.init config) w) (hpc : y.pc = .afterInner) (hflight : y.inFlight = []) :
    y.idleStep.SkipOk := by
  rcases (Orderly.moves_idleStep y).2 with houter | hidle
  · refine building (by rw [houter]; rfl) ?_
    have core := run.core
    obtain ⟨_, -, rfl⟩ := shown
    have hnodup : y.sched.running.Nodup := (List.nodup_append.mp core.positions.nodup).2.1
    have hclean := (Scheduler.cleanupTerminalRequests_clean hnodup).skip
    unfold Sys.idleStep
    generalize y.sched.cleanupTerminalRequests = s at hclean ⊢
    simp only
    split
    · exact Scheduler.preemptOneForAdmission_skip hclean
    · have hload := loadAccepting_frame s
      generalize s.loadAccepting = loaded at hload ⊢
      obtain ⟨_, s'⟩ := loaded
      obtain ⟨hskip, hheap⟩ := hload
      simp only at hskip hheap
      have hkept : ∀ p ∈ s'.skip, (s'.heap p).status = .active := by
        rw [hskip, hheap]
        exact hclean
      simp only
      split
      · exact hkept
      · split <;> exact hkept
  · have hempty := shown.idleStep_empty run orderly hpc hflight hidle
    refine ⟨fun hbuilds => ?_, fun _ => hempty.skip⟩
    rw [hidle] at hbuilds
    cases hbuilds

/-- Every step of the engine loop. -/
theorem engineStep (h : y.SkipOk) (orderly : y.Orderly) (shown : y.Shows w)
    (run : World.Run (World.init config) w) {dispatchError : Option ErrorCode}
    (t : y.engineStep dispatchError = some y') : y'.SkipOk := by
  unfold Sys.engineStep at t
  split at t
  · cases t
  · cases t
  · rename_i hpc
    cases t
    exact h.framed (fun _ => .inr (by rw [hpc]; rfl)) nofun rfl fun _ => rfl
  · rename_i hpc
    have hload := loadAccepting_frame y.sched
    generalize y.sched.loadAccepting = loaded at hload t
    obtain ⟨_, _⟩ := loaded
    obtain ⟨hskip, hheap⟩ := hload
    simp only at t hskip hheap
    split at t
    · cases t
      exact h.framed (fun _ => .inl (by rw [hpc]; rfl)) nofun hskip fun p => by rw [hheap]
    · cases t
      exact elsewhere rfl rfl
  · rename_i hpc
    cases t
    exact h.dispatchStep orderly shown run hpc dispatchError
  · rename_i hpc
    split at t
    · rename_i hflight
      cases t
      exact idleStep orderly shown run hpc hflight
    · cases t
      exact elsewhere rfl rfl
  · rename_i c hpc
    split at t
    · cases t
    · rename_i result hresult
      cases t
      have core := run.core
      obtain ⟨_, -, rfl⟩ := shown
      have hnodup : (retireBatch y.sched c.batch result).running.Nodup := by
        rw [show (retireBatch y.sched c.batch result).running = y.sched.running from
          congrArg Control.running (y.sched.control_retireBatch c.batch result)]
        exact (List.nodup_append.mp core.positions.nodup).2.1
      exact building rfl (Scheduler.cleanupTerminalRequests_clean hnodup).skip
  · rename_i hpc
    cases t
    exact h.framed (fun _ => .inr (by rw [hpc]; rfl)) nofun rfl fun _ => rfl
  · split at t
    · cases t
      exact elsewhere rfl rfl
    · cases t
      exact elsewhere rfl rfl
  · split at t
    · cases t
    · cases t
      exact elsewhere rfl rfl

/-- The worker leaves `skip_` alone. -/
theorem workStep (h : y.SkipOk) {running : Bool} {outcome : Outcome}
    (t : y.workStep running outcome = some y') : y'.SkipOk := by
  unfold Sys.workStep at t
  split at t
  · cases t
  · split at t
    · cases t
      refine h.framed (fun hpc => .inl ?_) (fun hpc => ?_) rfl fun _ => rfl
      · cases hy : y.pc <;> simp_all [EnginePc.withCurrent, EnginePc.builds]
      · cases hy : y.pc <;> simp_all [EnginePc.withCurrent, EnginePc.rests]
    · cases t
      exact h.framed .inl id rfl fun _ => rfl

/-- Every step keeps `skip_` in order. -/
theorem step (h : y.SkipOk) (orderly : y.Orderly) (shown : y.Shows w)
    (run : World.Run (World.init config) w) {l : Label} (t : y.step l = some y') : y'.SkipOk := by
  cases l with
  | start =>
    cases t
    unfold handleStart
    split
    · exact h
    · rename_i hflags
      have hstage : y.pc.stage = .fresh := by
        by_contra hstage
        exact hflags (by simpa [or_comm, Scheduler.flags] using orderly.flags.running hstage)
      exact ⟨by simp [EnginePc.builds], fun _ => (orderly.fresh hstage).2.1⟩
  | submit req =>
    simp only [Sys.step] at t
    split at t
    · rename_i hsuspended
      cases t
      have hload := loadAccepting_frame y.sched
      unfold handleSubmit
      generalize y.sched.loadAccepting = loaded at hload ⊢
      obtain ⟨_, _⟩ := loaded
      obtain ⟨hskip, -⟩ := hload
      simp only at hskip ⊢
      split
      · exact h.handled hsuspended rfl (.inl hskip)
      · refine h.handled hsuspended rfl (.inl (Eq.trans ?_ hskip))
        simp only [Scheduler.submitOnSchedulerThread]
        split
        · rfl
        · split <;> rfl
    · cases t
  | cancel requestId =>
    simp only [Sys.step] at t
    split at t
    · rename_i hsuspended
      cases t
      exact h.handled hsuspended rfl
        (.inl (congrArg Control.skip (y.sched.control_cancelOnSchedulerThread requestId)))
    · cases t
  | shutdownAsync =>
    cases t
    unfold handleShutdownAsync
    split
    · exact h
    · exact h.framed .inl id rfl fun _ => rfl
  | landStore =>
    simp only [Sys.step] at t
    split at t
    · cases t
    · cases t
      exact h.framed .inl id rfl fun _ => rfl
  | shutdownHandler =>
    simp only [Sys.step] at t
    split at t
    · rename_i hsuspended
      unfold handleShutdown at t
      split at t
      · cases t
      · cases t
        refine h.handled hsuspended rfl (.inr ?_)
        have hcontrol := Scheduler.control_failAllWaiting { y.sched with shutdownPosted := none }
          .serverShuttingDown
        have hskip := congrArg Control.skip hcontrol
        split
        · exact hskip
        · unfold Scheduler.completeShutdown
          split <;> exact hskip
    · cases t
  | expire p =>
    cases t
    refine h.framed .inl id rfl fun q => ?_
    simp only [Scheduler.setRequest, Function.update_apply]
    split
    · rename_i hq
      rw [hq]
    · rfl
  | work => exact h.workStep t
  | engine => exact h.engineStep orderly shown run t

end SkipOk

end Sys

/-! ### Reachable states -/

/-- A reachable state of the engine shows a world that transactions reach, and keeps to what
`schedule_step` expects. -/
theorem Reachable.shows_skipOk (h : Reachable config y) :
    (∃ w, World.Run (World.init config) w ∧ y.Shows w) ∧ y.SkipOk := by
  induction h with
  | init => exact ⟨⟨_, .refl, [], .nil, rfl⟩, nofun, fun _ => rfl⟩
  | step l hy t ih =>
    obtain ⟨⟨_, run, hw⟩, hskip⟩ := ih
    have hcore := run.core
    obtain ⟨w', run', hw'⟩ := hw.step hcore hy.orderly.flags (hskip.tidy hy.orderly hw run) t
    exact ⟨⟨w', run.trans run', hw'⟩, hskip.step hy.orderly hw run t⟩

theorem Reachable.shows (h : Reachable config y) :
    ∃ w, World.Run (World.init config) w ∧ y.Shows w := h.shows_skipOk.1

/-- The state in which `schedule_step` is called. -/
theorem Reachable.tidy (h : Reachable config y) (hpc : y.pc = .inner) : y.sched.Tidy := by
  obtain ⟨⟨_, run, hw⟩, hskip⟩ := h.shows_skipOk
  exact hskip.tidy h.orderly hw run hpc

/-- The same, with the items in flight, and the invariant of their world. -/
theorem Reachable.core (h : Reachable config y) : ∃ fls, List.Forall₂ Carries y.pipeline fls ∧
      World.Run (World.init config) (World.of y.sched fls.flatten y.worker) ∧
      Core (World.of y.sched fls.flatten y.worker) := by
  obtain ⟨_, run, fls, carries, rfl⟩ := h.shows
  exact ⟨fls, carries, run, run.core⟩

/-- What happens after a reachable state is a run of transactions too. -/
theorem Reachable.follow {w : World} (ls : List Label)
    (h : Reachable config y) (hw : y.Shows w) (core : Core w) (run : y.run ls = some y') :
    y'.Follows w := by
  induction ls generalizing y w with
  | nil =>
    cases run
    exact ⟨w, .refl, hw⟩
  | cons l _ ih =>
    obtain ⟨_, hstep, hrest⟩ := Option.bind_eq_some_iff.mp run
    obtain ⟨_, hrun₁, hw₁⟩ := hw.step core h.orderly.flags h.tidy hstep
    obtain ⟨w₂, hrun₂, hw₂⟩ := ih (h.step l hstep) hw₁ (core.run hrun₁) hrest
    exact ⟨w₂, hrun₁.trans hrun₂, hw₂⟩

/-- Nothing leaves the log of the scheduler. -/
theorem Reachable.trace_prefix
    (h : Reachable config y) (t : y.step l = some y') : y.sched.trace <+: y'.sched.trace := by
  obtain ⟨fls, carries, -, core⟩ := h.core
  have hshows : y.Shows (World.of y.sched fls.flatten y.worker) := ⟨fls, carries, rfl⟩
  obtain ⟨-, run, _, -, rfl⟩ := hshows.step core h.orderly.flags h.tidy t
  exact run.trace_prefix

/-- All items in flight, of all batches. -/
def Sys.itemsInFlight (y : Sys) : List WorkItem := y.pipeline.flatMap (·.batch.items)

theorem Carries.items_flatMap (h : List.Forall₂ Carries batches fls) :
    batches.flatMap (·.batch.items) = fls.flatten.map (·.item) := by
  induction h with
  | nil => rfl
  | cons hcarries _ ih =>
    rw [List.flatMap_cons, List.flatten_cons, List.map_append, ih, hcarries.items]

/-- An item of the pipeline is one in flight. -/
theorem Sys.mem_itemsInFlight (h : List.Forall₂ Carries y.pipeline fls) {item : WorkItem}
    (hitem : item ∈ y.itemsInFlight) : ∃ f ∈ fls.flatten, f.item = item := by
  rw [itemsInFlight, Carries.items_flatMap h] at hitem
  exact List.mem_map.mp hitem

/-- An assertion of the worker fails when it processes a batch that has no answer. -/
theorem Sys.resolveFirst_asserts {k k' : Worker} {seed : SequenceId → List Token}
    {blockSize : Nat} {running : Bool} {outcome : Outcome} {batches' : List InFlightBatch}
    (t : resolveFirst k seed blockSize running outcome batches = some (batches', k'))
    (h : site ∈ k'.failedAsserts) :
    site ∈ k.failedAsserts ∨ ∃ b ∈ batches, b.future = none ∧ k.Unbound b.batch.items := by
  induction batches generalizing batches' with
  | nil => cases t
  | cons b rest ih =>
    unfold resolveFirst at t
    split at t
    · obtain ⟨⟨_, _⟩, hr, heq⟩ := Option.map_eq_some_iff.mp t
      cases heq
      exact (ih hr).imp_right fun ⟨b', hb', hfails⟩ => ⟨b', List.mem_cons_of_mem _ hb', hfails⟩
    · rename_i hnone
      split at t <;> cases t
      exact (Worker.processCommand_asserts h).imp_right fun hfails =>
        ⟨b, List.mem_cons_self, hnone, hfails⟩

/-- Only the worker touches its state. -/
theorem Sys.step_worker (t : y.step l = some y')
    (h : ∀ running outcome, l ≠ .work running outcome) : y'.worker = y.worker := by
  cases l with
  | work running outcome => exact absurd rfl (h running outcome)
  | engine =>
    simp only [Sys.step, Sys.engineStep] at t
    split at t <;> try cases t <;> rfl
    · split at t <;> cases t <;> rfl
    · cases t
      unfold dispatchStep
      grind
    · split at t
      · cases t
        unfold idleStep
        grind
      · cases t; rfl
    · split at t <;> cases t; rfl
    · split at t <;> cases t <;> rfl
    · split at t <;> cases t; rfl
  | start =>
    cases t
    unfold handleStart
    split <;> rfl
  | submit =>
    simp only [Sys.step] at t
    split at t
    · cases t
      unfold handleSubmit
      grind
    · cases t
  | cancel | landStore =>
    simp only [Sys.step] at t
    split at t <;> cases t; rfl
  | shutdownAsync =>
    cases t
    unfold handleShutdownAsync
    split <;> rfl
  | shutdownHandler =>
    simp only [Sys.step, handleShutdown] at t
    split at t
    · split at t <;> cases t; rfl
    · cases t
  | expire => cases t; rfl

/-- A step in which an assertion of the worker fails. -/
theorem Sys.step_asserts (t : y.step l = some y') (h : site ∈ y'.worker.failedAsserts) :
    site ∈ y.worker.failedAsserts ∨ ∃ b ∈ y.pipeline, b.future = none ∧
      y.worker.Unbound b.batch.items := by
  by_cases hwork : ∃ running outcome, l = .work running outcome
  · obtain ⟨running, outcome, rfl⟩ := hwork
    simp only [Sys.step, workStep] at t
    split at t
    · cases t
    · rename_i batches k hresolve
      have hworker : y'.worker = k := by
        split at t <;> cases t <;> rfl
      rw [hworker] at h
      exact resolveFirst_asserts hresolve h
  · -- no other step touches the worker
    refine .inl ?_
    rwa [Sys.step_worker t fun running outcome heq => hwork ⟨running, outcome, heq⟩] at h

/-- The log speaks of registered requests only. -/
theorem Reachable.known (h : Reachable config y) {o : Obs} (logged : o ∈ y.sched.trace)
    (about : o.about p = true) :
    p < y.sched.nextPtr := by
  obtain ⟨_, -, run, -⟩ := h.core
  exact (Logged.run run).known o logged p about

/-- The rule for properties of the life of a request, for the engine. -/
theorem Reachable.life (h : Reachable config y) {sampler : List Token → Token → Prop}
    {params : SamplingParams → Prop}
    {I : View → Prop} (new : ∀ req, I (.fresh config p req))
    (keep : ∀ v v', I v → v.Kept config.kvBlockSize →
      View.Step p config.maxBlocks config.kvBlockSize sampler params v v' →
      (v'.log = v.log ∨ .erased p ∉ v.log) → I v')
    (hsampler : ∀ e ∈ y.worker.samples, sampler e.context e.token)
    (hparams : ∀ q, q < y.sched.nextPtr → params (y.sched.heap q).sampling)
    (hp : p < y.sched.nextPtr) :
    ∃ v, I v ∧ v.req = y.sched.heap p ∧ v.log = y.sched.trace.filter (Obs.about p) := by
  obtain ⟨_, -, run, -⟩ := h.core
  exact ⟨_, CcInfer.life new keep run hsampler hparams hp, World.view_req, World.view_log⟩

end CcInfer
