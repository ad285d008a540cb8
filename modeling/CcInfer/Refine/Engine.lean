import CcInfer.Invariant.Lives
import CcInfer.Refine.Admission
import CcInfer.Refine.Work

/-!
# `CcInfer.Refine.Engine`: the engine refines the transactions

Every step of `Sys` is a run of transactions. The engine loop, the posted handlers and the
worker are taken in turn; what is left is to join the items of the batches in the pipeline
into one flight. `Sys.Shows.step` is the step lemma and `Reachable.shows` the result for
whole runs: a reachable state of the engine shows a reachable world, in which `Core` holds.
-/

set_option autoImplicit false

namespace CcInfer

open Relation

/-- The world that a state of the engine shows: each batch of the pipeline carries its items
in flight. -/
def Sys.Shows (y : Sys) (w : World) : Prop :=
  ∃ fls, List.Forall₂ Carries y.pipeline fls ∧ w = World.of y.sched fls.flatten y.worker

/-- The state shows a world that transactions reach from `w`. -/
def Sys.Follows (y : Sys) (w : World) : Prop := ∃ w', World.Run w w' ∧ y.Shows w'

theorem EnginePc.withCurrent_current {pc : EnginePc} (c : InFlightBatch)
    (h : pc.current ≠ []) : (pc.withCurrent c).current = [c] := by
  cases pc <;> first | rfl | exact absurd rfl h

namespace Carries

variable {b : InFlightBatch} {fl : List FlightItem}

/-- Nothing is pending in a batch that the worker has answered. -/
theorem answered (h : Carries b fl) {result : Result BatchResult} (hb : b.future = some result) :
    ∀ f ∈ fl, f.fate ≠ .pending := by
  intro f hf
  cases result with
  | error err => rw [h.failed err hb f hf]; exact nofun
  | ok result =>
    rcases (h.processed result hb).2 f hf with hfate | ⟨token, hfate⟩ <;> rw [hfate] <;> exact nofun

/-- A batch that was just dispatched. -/
theorem dispatched {batch : ScheduledBatch} (nodup : (batch.items.map WorkItem.seqId).Nodup) :
    Carries ⟨batch, none⟩ batch.flight where
  items := by simp [ScheduledBatch.flight, Function.comp_def]
  sampling := by
    intro f hf
    obtain ⟨item, -, rfl⟩ := List.mem_map.mp hf
    rfl
  nodup := nodup
  pending := by
    intro _ f hf
    obtain ⟨item, -, rfl⟩ := List.mem_map.mp hf
    rfl
  failed := nofun
  processed := nofun

end Carries

namespace Sys

variable {y y' : Sys} {w : World}
variable {s : Scheduler} {running : Bool} {outcome : Outcome}

/-! ### Steps of the Scheduler -/

section

variable (h : y.Shows w) (core : Core w)
include h core

/-- A step of the Scheduler beside the pipeline. -/
theorem Shows.does (pipeline : y'.pipeline = y.pipeline)
    (worker : y'.worker = y.worker) (does : ∀ fl, Does y.worker y.sched fl y'.sched fl) :
    y'.Follows w := by
  obtain ⟨fls, carries, rfl⟩ := h
  exact ⟨_, does fls.flatten core, fls, pipeline ▸ carries, by rw [worker]⟩

/-- A step that no transaction sees. -/
theorem Shows.same (pipeline : y'.pipeline = y.pipeline) (worker : y'.worker = y.worker)
    (sched : ∀ fl, World.of y'.sched fl y.worker = World.of y.sched fl y.worker) : y'.Follows w :=
  h.does core pipeline worker fun fl => .of_eq (sched fl)

/-- `start` is no transaction. -/
theorem Shows.handleStart (flags : y.LawfulFlags) : y.handleStart.Follows w := by
  unfold Sys.handleStart
  split
  · exact ⟨w, .refl, h⟩
  · rename_i hflags
    -- nothing is in flight yet, since the engine loop was never spawned
    have hpc : y.pc = .notStarted := by
      by_contra hpc
      have := flags.running fun hstage => hpc (by
        cases hpc : y.pc <;> first | rfl | simp [hpc, EnginePc.stage] at hstage)
      simp only [Scheduler.flags] at this
      simp [this.symm] at hflags
    exact h.same core (by simp [pipeline, EnginePc.current, hpc]) rfl fun _ => rfl

theorem Shows.handleSubmit (req : SchedulerRequest) : (y.handleSubmit req).Follows w := by
  unfold Sys.handleSubmit
  rcases hload : y.sched.loadAccepting with ⟨accepting, s⟩
  have hs : ∀ fl, Does y.worker y.sched fl s fl := fun fl =>
    .of_eq (by rw [← World.of_loadAccepting y.sched fl y.worker, hload])
  simp only
  split
  · exact h.does core rfl rfl fun fl => (hs fl).trans (.note ⟨_, _, rfl⟩)
  · exact h.does core rfl rfl fun fl => (hs fl).trans (.submit req)

/-- The posted handler drops what waits. -/
theorem Shows.handleShutdown (flags : y.LawfulFlags)
    (t : y.handleShutdown = some y') : y'.Follows w := by
  unfold Sys.handleShutdown at t
  split at t
  · cases t
  · rename_i wasRunning hposted
    cases t
    refine h.does core rfl rfl fun fl => ?_
    have hfail : Does y.worker y.sched fl
        ({ y.sched with shutdownPosted := none }.failAllWaiting .serverShuttingDown) fl :=
      show Does y.worker { y.sched with shutdownPosted := none } fl _ fl from
        .failAllWaiting .serverShuttingDown (flags.posted wasRunning hposted).1
    refine hfail.trans ?_
    split
    · exact .refl
    · exact .of_eq (World.of_completeShutdown ..)

end

/-! ### The worker -/

/-- The worker answers the oldest batch that has no answer. -/
theorem resolveFirst_run {k k' : Worker}
    {batches batches' : List InFlightBatch} {fls : List (List FlightItem)}
    (carries : List.Forall₂ Carries batches fls) (before : List FlightItem)
    (oldest : ∀ g ∈ before, g.fate ≠ .pending)
    (t : resolveFirst k s.hitTokens s.config.kvBlockSize running outcome batches =
      some (batches', k')) :
    batches'.length = batches.length ∧ ∃ fls', List.Forall₂ Carries batches' fls' ∧
      World.Run (World.of s (before ++ fls.flatten) k)
        (World.of s (before ++ fls'.flatten) k') := by
  induction carries generalizing before batches' with
  | nil => cases t
  | @cons b fl rest fls hb hrest ih =>
    unfold resolveFirst at t
    split at t
    · rename_i result hresult
      obtain ⟨⟨rest', k₁⟩, hr, heq⟩ := Option.map_eq_some_iff.mp t
      cases heq
      obtain ⟨hlength, fls', hcarries, hrun⟩ := ih (before ++ fl)
        (fun g hg => (List.mem_append.mp hg).elim (oldest g) (hb.answered hresult g)) hr
      refine ⟨congrArg (· + 1) hlength, fl :: fls', .cons hb hcarries, ?_⟩
      rw [List.flatten_cons, List.flatten_cons, ← List.append_assoc, ← List.append_assoc]
      exact hrun
    · rename_i hnone
      split at t <;> cases t
      rename_i htranslates
      have hanswer : Answers s before fls.flatten b fl k _ :=
        .processCommand oldest hb hnone running outcome htranslates
      obtain ⟨fl', hcarries, hrun⟩ := hanswer
      refine ⟨rfl, fl' :: fls, .cons hcarries hrest, ?_⟩
      rw [List.flatten_cons, List.flatten_cons, ← List.append_assoc, ← List.append_assoc]
      exact hrun

/-- A batch of the worker, item by item. -/
theorem Shows.workStep (h : y.Shows w)
    (t : y.workStep running outcome = some y') : y'.Follows w := by
  obtain ⟨fls, carries, rfl⟩ := h
  unfold Sys.workStep at t
  split at t
  · cases t
  · rename_i batches k hresolve
    have hresolved := resolveFirst_run (s := y.sched) carries [] (by simp) hresolve
    rw [List.nil_append] at hresolved
    obtain ⟨hlength, fls', hcarries, hrun⟩ := hresolved
    have hpipeline : y'.pipeline = batches ∧ y'.sched = y.sched ∧ y'.worker = k := by
      rcases hcurrent : y.pc.current with _ | ⟨c₀, more⟩
      · simp only [hcurrent] at t
        cases t
        exact ⟨by rw [pipeline, hcurrent, List.nil_append], rfl, rfl⟩
      · rcases batches with _ | ⟨c, rest⟩
        · simp [pipeline, hcurrent] at hlength
        · simp only [hcurrent] at t
          cases t
          have hcur :=
            EnginePc.withCurrent_current c (show y.pc.current ≠ [] by rw [hcurrent]; simp)
          exact ⟨by rw [pipeline, hcur, List.singleton_append], rfl, rfl⟩
    obtain ⟨hp, hs, hk⟩ := hpipeline
    exact ⟨_, hrun, fls', hp ▸ hcarries, by rw [hs, hk]; rfl⟩

/-! ### The engine loop -/

section

variable (h : y.Shows w) (core : Core w)
include h core

/-- One turn of the dispatch loop. -/
theorem Shows.dispatchStep (tidy : y.sched.Tidy)
    (hpc : y.pc = .inner) (dispatchError : Option ErrorCode) :
    (y.dispatchStep dispatchError).Follows w := by
  have hpipeline : ∀ {y : Sys} (pc : EnginePc), pc.current = [] → y.pc = pc →
      y.pipeline = y.inFlight := by
    intro y pc hcurrent hy
    rw [pipeline, hy, hcurrent, List.nil_append]
  unfold Sys.dispatchStep
  split
  · obtain ⟨fls, carries, rfl⟩ := h
    rw [hpipeline .inner rfl hpc] at carries
    obtain ⟨hrun, hnodup, -⟩ := Scheduler.scheduleStep_run core tidy
    generalize y.sched.scheduleStep = scheduled at hrun hnodup ⊢
    obtain ⟨s, batch⟩ := scheduled
    simp only at hrun hnodup ⊢
    split
    · rename_i hempty
      have hflight : batch.flight = [] := by
        rw [ScheduledBatch.flight, List.isEmpty_iff.mp hempty]
        rfl
      rw [hflight, List.append_nil] at hrun
      exact ⟨_, hrun, fls, carries, rfl⟩
    · cases dispatchError with
      | none =>
        refine ⟨_, hrun, fls ++ [batch.flight], ?_, by simp⟩
        rw [hpipeline .inner rfl (by exact hpc)]
        exact List.rel_append carries (.cons (.dispatched hnodup) .nil)
      | some err =>
        -- the batch fails before it enters the pipeline
        have hfail : Does y.worker s (fls.flatten ++ batch.flight ++ []) (s.failBatch batch err)
            (fls.flatten ++ []) := .failBatch _ err _ (Carries.dispatched hnodup).items
        rw [List.append_nil, List.append_nil] at hfail
        refine ⟨_, hrun.trans ((hfail.trans .cleanupTerminalRequests) (core.run hrun)),
          fls, ?_, rfl⟩
        rw [hpipeline .inner rfl (by exact hpc)]
        exact carries
  · exact h.same core (by rw [hpipeline .afterInner rfl rfl, hpipeline .inner rfl hpc])
      rfl fun _ => rfl

/-- The branch of `run` with nothing in flight. -/
theorem Shows.idleStep (hpc : y.pc.current = []) : y.idleStep.Follows w := by
  have hclean : ∀ fl, Does y.worker y.sched fl y.sched.cleanupTerminalRequests fl :=
    fun fl => .cleanupTerminalRequests
  unfold Sys.idleStep
  generalize y.sched.cleanupTerminalRequests = s at hclean ⊢
  have hpipeline : ∀ {s pc k}, pc.current = [] →
      ({ sched := s, pc := pc, inFlight := y.inFlight, worker := k } : Sys).pipeline =
        y.pipeline := by
    intro s pc k hcurrent
    rw [pipeline, pipeline, hpc, hcurrent]
  simp only
  split
  · exact h.does core (hpipeline rfl) rfl fun fl => (hclean fl).trans .preemptOneForAdmission
  · have hload : ∀ fl, Does y.worker y.sched fl s.loadAccepting.2 fl :=
      fun fl => (hclean fl).trans (.of_eq (World.of_loadAccepting ..))
    generalize s.loadAccepting = loaded at hload ⊢
    obtain ⟨accepting, s'⟩ := loaded
    simp only
    split
    · exact h.does core (hpipeline rfl) rfl hload
    · split
      · exact h.does core (hpipeline rfl) rfl hload
      · exact h.does core (hpipeline rfl) rfl hload

/-- The batch in hand is retired. -/
theorem Shows.collect {c : InFlightBatch}
    (hpc : y.pc.current = [c]) {result : Result BatchResult} (resolved : c.future = some result)
    {pc : EnginePc} (hpc' : pc.current = [])
    (does : ∀ fl, Does y.worker (retireBatch y.sched c.batch result) fl s fl) :
    ({ y with sched := s, pc := pc } : Sys).Follows w := by
  obtain ⟨fls, carries, rfl⟩ := h
  rw [pipeline, hpc, List.singleton_append] at carries
  rcases carries with _ | ⟨hc, hrest⟩
  rename_i fl rest
  have hretire : Does y.worker y.sched (fl ++ rest.flatten) s rest.flatten :=
    (Does.retireBatch hc resolved).trans (does _)
  exact ⟨_, hretire core, rest, by rwa [pipeline, hpc', List.nil_append], rfl⟩

/-- Every step of the engine loop is a run. -/
theorem Shows.engineStep (flags : y.LawfulFlags)
    (tidy : y.pc = .inner → y.sched.Tidy) {dispatchError : Option ErrorCode}
    (t : y.engineStep dispatchError = some y') : y'.Follows w := by
  unfold Sys.engineStep at t
  split at t
  · cases t
  · cases t
  · rename_i hpc
    cases t
    exact h.same core (by simp [pipeline, hpc, EnginePc.current]) rfl fun _ => rfl
  · rename_i hpc
    have hload : ∀ fl, Does y.worker y.sched fl y.sched.loadAccepting.2 fl :=
      fun fl => .of_eq (World.of_loadAccepting ..)
    have hfst := y.sched.loadAccepting_fst
    have hlawful := flags.loads y.sched.moves_loadAccepting.loads
    generalize y.sched.loadAccepting = loaded at hload hfst hlawful t
    obtain ⟨accepting, s⟩ := loaded
    simp only at t hfst
    split at t
    · cases t
      exact h.does core (by simp [pipeline, hpc, EnginePc.current]) rfl hload
    · rename_i hcleared
      cases t
      have hclosing : s.shutdownRequested = true := by
        refine (hlawful.running (by rw [hpc]; decide)).resolve_left fun haccepting => ?_
        exact hcleared (hfst.trans haccepting)
      exact h.does core (by simp [pipeline, hpc, EnginePc.current]) rfl
        fun fl => (hload fl).trans (.failAllWaiting _ hclosing)
  · rename_i hpc
    cases t
    exact h.dispatchStep core (tidy hpc) hpc dispatchError
  · rename_i hpc
    split at t
    · cases t
      exact h.idleStep core (by rw [hpc]; rfl)
    · rename_i b rest hflight
      cases t
      exact h.same core (by simp [pipeline, hpc, EnginePc.current, hflight]) rfl fun _ => rfl
  · rename_i c hpc
    split at t
    · cases t
    · rename_i result hresult
      cases t
      exact h.collect core (by rw [hpc]; rfl) hresult rfl fun fl => .cleanupTerminalRequests
  · rename_i hpc
    cases t
    exact h.same core (by simp [pipeline, hpc, EnginePc.current]) rfl fun _ => rfl
  · rename_i hpc
    split at t
    · rename_i hflight
      cases t
      have hnil : y.pipeline = [] := by simp [pipeline, hpc, EnginePc.current, hflight]
      obtain ⟨fls, carries, rfl⟩ := h
      rw [hnil] at carries
      cases carries
      have hstage : y.pc.stage = .draining := by rw [hpc]; rfl
      have hclosing : y.sched.shutdownRequested = true := by
        refine (flags.running (by rw [hstage]; decide)).resolve_left fun haccepting => ?_
        exact absurd (haccepting.symm.trans (flags.closed (.inl hstage)).1) (by simp)
      have hdoes : Does y.worker y.sched [] _ [] :=
        .trans (.cleanupAllRunning .serverShuttingDown hclosing)
        (.of_eq (World.of_completeShutdown ..))
      exact ⟨_, hdoes core, [], by simp [pipeline, EnginePc.current, hflight], rfl⟩
    · rename_i b rest hflight
      cases t
      exact h.same core (by simp [pipeline, hpc, EnginePc.current, hflight]) rfl fun _ => rfl
  · rename_i c hpc
    split at t
    · cases t
    · rename_i result hresult
      cases t
      exact h.collect core (by rw [hpc]; rfl) hresult rfl fun fl => .refl

end

/-! ### All steps -/

/-- Every step of the engine is a run of transactions. -/
theorem Shows.step (h : y.Shows w) (core : Core w) (flags : y.LawfulFlags)
    (tidy : y.pc = .inner → y.sched.Tidy) {l : Label} (t : y.step l = some y') : y'.Follows w := by
  cases l with
  | start => cases t; exact h.handleStart core flags
  | submit req =>
    simp only [Sys.step] at t
    split at t
    · cases t; exact h.handleSubmit core req
    · cases t
  | cancel requestId =>
    simp only [Sys.step] at t
    split at t
    · cases t; exact h.does core rfl rfl fun fl => .cancel requestId
    · cases t
  | shutdownAsync =>
    cases t
    unfold handleShutdownAsync
    split
    · exact ⟨w, .refl, h⟩
    · exact h.does core rfl rfl fun fl => .single (fun _ => .close _) fun _ => rfl
  | landStore =>
    simp only [Sys.step] at t
    split at t
    · cases t
    · cases t; exact h.same core rfl rfl fun _ => rfl
  | shutdownHandler =>
    simp only [Sys.step] at t
    split at t
    · exact h.handleShutdown core flags t
    · cases t
  | expire p =>
    cases t
    exact h.does core rfl rfl fun fl => .single (fun _ => .expire _ p) fun _ => rfl
  | work => exact h.workStep t
  | engine => exact h.engineStep core flags tidy t

end Sys

end CcInfer
