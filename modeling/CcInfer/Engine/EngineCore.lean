import CcInfer.Scheduler.Retire
import CcInfer.Worker.Worker

/-!
# `CcInfer.Engine.EngineCore`: the engine loop as a transition system

The embedding of `engine/engine_core.cpp` together with the handlers that the public
methods of the Scheduler post to the same thread. `run` is a coroutine; `EnginePc` is the
place where it stands. It gives the thread back to the io_context only inside
`collect_batch` and inside the idle timer, and posted handlers run only there (or while the
coroutine has not started or has returned). In between `run` makes the small steps of
`engineStep`, one for each turn of its loops.
-/

set_option autoImplicit false

namespace CcInfer

/-- `EngineCore::InFlightBatch`; the future is empty until the worker resolves it. -/
structure InFlightBatch where
  batch : ScheduledBatch
  future : Option (Result BatchResult)
  deriving DecidableEq

/-- Where `EngineCore::run` stands. -/
inductive EnginePc
  /-- `start` has not been called. -/
  | notStarted
  /-- Spawned, before the first test of `accepting_`. -/
  | spawned
  /-- At the test `while (accepting_.load())`. -/
  | outer
  /-- At the test of the dispatch loop. -/
  | inner
  /-- After the dispatch loop. -/
  | afterInner
  /-- Suspended in `collect_batch` for this batch. -/
  | collecting (current : InFlightBatch)
  /-- Suspended in the idle timer. -/
  | idle
  /-- At the test of the loop of `drain_in_flight`. -/
  | draining
  /-- Suspended in `collect_batch` for this batch, while draining. -/
  | drainCollecting (current : InFlightBatch)
  /-- `run` has returned. -/
  | done
  deriving DecidableEq

/-- Scheduler, engine loop and worker. -/
structure Sys where
  sched : Scheduler
  pc : EnginePc
  inFlight : List InFlightBatch
  worker : Worker

/-- What can happen next. -/
inductive Label
  /-- `Scheduler::start`. -/
  | start
  /-- The handler posted by `Scheduler::submit`. -/
  | submit (req : SchedulerRequest)
  /-- The handler posted by `Scheduler::cancel`. -/
  | cancel (requestId : String)
  /-- `Scheduler::shutdown_async`; its store to `accepting_` lands after `delay` loads. -/
  | shutdownAsync (delay : Nat)
  /-- The store of `shutdown_async` lands while the scheduler thread loads nothing. -/
  | landStore
  /-- The handler posted by `Scheduler::shutdown_async`. -/
  | shutdownHandler
  /-- The client of the request at `p` drops its channel. -/
  | expire (p : RequestPtr)
  /-- The worker processes the oldest unresolved batch; `running` is its `running_` flag. -/
  | work (running : Bool) (outcome : Outcome)
  /-- The engine loop makes a step; a dispatch fails with `dispatchError` if there is one. -/
  | engine (dispatchError : Option ErrorCode)
  deriving DecidableEq

namespace EnginePc

/-- Whether posted handlers can run here. -/
def suspended : EnginePc → Bool
  | notStarted | spawned | collecting _ | idle | drainCollecting _ | done => true
  | outer | inner | afterInner | draining => false

/-- The batch that `collect_oldest` has taken from `in_flight_`. -/
def current : EnginePc → List InFlightBatch
  | collecting c | drainCollecting c => [c]
  | _ => []

/-- The same place with another batch in hand. -/
def withCurrent : EnginePc → InFlightBatch → EnginePc
  | collecting _, c => collecting c
  | drainCollecting _, c => drainCollecting c
  | pc, _ => pc

end EnginePc

namespace Sys

/-- The system before `start`. -/
def init (config : ValidConfig) : Sys where
  sched := Scheduler.init config
  pc := .notStarted
  inFlight := []
  worker := Worker.init

/-- All dispatched and not yet retired batches, oldest first. -/
def pipeline (y : Sys) : List InFlightBatch := y.pc.current ++ y.inFlight

/-! ### Handlers -/

/-- The lambda that `Scheduler::submit` posts. -/
def handleSubmit (y : Sys) (req : SchedulerRequest) : Sys :=
  let (accepting, s) := y.sched.loadAccepting
  if !accepting then { y with sched := s.log (.rejected req.requestId .serverShuttingDown) }
  else { y with sched := s.submitOnSchedulerThread req }

/-- The lambda that `Scheduler::shutdown_async` posts: `request_shutdown`, and the promise
when the engine loop was never started. -/
def handleShutdown (y : Sys) : Option Sys :=
  match y.sched.shutdownPosted with
  | none => none
  | some wasRunning =>
    let s := { y.sched with shutdownPosted := none }.failAllWaiting .serverShuttingDown
    some { y with sched := if wasRunning then s else s.completeShutdown }

/-- `Scheduler::start`. -/
def handleStart (y : Sys) : Sys :=
  if y.sched.shutdownRequested || y.sched.accepting then y
  else { y with sched := { y.sched with accepting := true }, pc := .spawned }

/-- `Scheduler::shutdown_async`, up to its store to `accepting_`. -/
def handleShutdownAsync (y : Sys) (delay : Nat) : Sys :=
  if y.sched.shutdownRequested then y
  else { y with sched := { y.sched with shutdownRequested := true, storePending := some delay } }

/-! ### The worker -/

/-- Resolve the first batch of a pipeline whose channel is empty. There is no such step if an
assertion of `translate` fails: without it the worker would read beyond the end of a block table. -/
def resolveFirst (w : Worker) (seed : SequenceId → List Token) (blockSize : Nat)
    (running : Bool) (outcome : Outcome) : List InFlightBatch → Option (List InFlightBatch × Worker)
  | [] => none
  | b :: rest =>
    match b.future with
    | some _ =>
      (resolveFirst w seed blockSize running outcome rest).map fun (rest, w) => (b :: rest, w)
    | none =>
      if w.translates blockSize b.batch running outcome then
        let (r, w) := w.processCommand seed blockSize b.batch running outcome
        some ({ b with future := some r } :: rest, w)
      else none

/-- One batch of `Worker::worker_loop`. -/
def workStep (y : Sys) (running : Bool) (outcome : Outcome) : Option Sys :=
  match resolveFirst y.worker y.sched.hitTokens y.sched.config.kvBlockSize running outcome
    y.pipeline with
  | none => none
  | some (pipeline, w) =>
    match y.pc.current, pipeline with
    | _ :: _, c :: rest =>
      some { y with pc := y.pc.withCurrent c, inFlight := rest, worker := w }
    | _, pipeline => some { y with inFlight := pipeline, worker := w }

/-! ### The engine loop -/

/-- `collect_oldest` after `collect_batch` has returned `result`. -/
def retireBatch (s : Scheduler) (batch : ScheduledBatch) : Result BatchResult → Scheduler
  | .ok result => s.updateFromOutput batch result
  | .error err => s.failBatch batch err

/-- One turn of the dispatch loop of `run`. -/
def dispatchStep (y : Sys) (dispatchError : Option ErrorCode) : Sys :=
  if y.inFlight.length < y.sched.config.maxConcurrentBatches then
    let (s, batch) := y.sched.scheduleStep
    if batch.items.isEmpty then { y with sched := s, pc := .afterInner }
    else
      match dispatchError with
      | some err => { y with sched := (s.failBatch batch err).cleanupTerminalRequests }
      | none => { y with sched := s, inFlight := y.inFlight ++ [⟨batch, none⟩] }
  else { y with pc := .afterInner }

/-- The branch of `run` with nothing in flight: clean up, preempt or wait. -/
def idleStep (y : Sys) : Sys :=
  let s := y.sched.cleanupTerminalRequests
  if !s.admissionPaused && (!s.waiting.isEmpty || s.hasSchedulableWork) then
    { y with sched := s.preemptOneForAdmission, pc := .outer }
  else
    -- `wait_for_work`
    let (accepting, s) := s.loadAccepting
    if !accepting || s.hasSchedulableWork then { y with sched := s, pc := .outer }
    else if !s.admissionPaused && !s.waiting.isEmpty then { y with sched := s, pc := .outer }
    else { y with sched := s, pc := .idle }

/-- One step of `EngineCore::run`. -/
def engineStep (y : Sys) (dispatchError : Option ErrorCode) : Option Sys :=
  match y.pc with
  | .notStarted | .done => none
  | .spawned => some { y with pc := .outer }
  | .outer =>
    let (accepting, s) := y.sched.loadAccepting
    if accepting then some { y with sched := s, pc := .inner }
    else some { y with sched := s.failAllWaiting .serverShuttingDown, pc := .draining }
  | .inner => some (y.dispatchStep dispatchError)
  | .afterInner =>
    match y.inFlight with
    | [] => some y.idleStep
    | b :: rest => some { y with inFlight := rest, pc := .collecting b }
  | .collecting c =>
    match c.future with
    | none => none
    | some result =>
      some { y with
        sched := (retireBatch y.sched c.batch result).cleanupTerminalRequests
        pc := .outer }
  | .idle => some { y with pc := .outer }
  | .draining =>
    match y.inFlight with
    | [] =>
      let s := y.sched.cleanupAllRunning .serverShuttingDown
      some { y with sched := s.completeShutdown, pc := .done }
    | b :: rest => some { y with inFlight := rest, pc := .drainCollecting b }
  | .drainCollecting c =>
    match c.future with
    | none => none
    | some result => some { y with sched := retireBatch y.sched c.batch result, pc := .draining }

/-- One step of the system; `none` when the label is not enabled. -/
def step (y : Sys) : Label → Option Sys
  | .start => some y.handleStart
  | .submit req => if y.pc.suspended then some (y.handleSubmit req) else none
  | .cancel requestId =>
    if y.pc.suspended then some { y with sched := y.sched.cancelOnSchedulerThread requestId }
    else none
  | .shutdownAsync delay => some (y.handleShutdownAsync delay)
  | .landStore =>
    match y.sched.storePending with
    | none => none
    | some _ => some { y with sched := y.sched.landStore }
  | .shutdownHandler => if y.pc.suspended then y.handleShutdown else none
  | .expire p =>
    some { y with sched := y.sched.setRequest p { y.sched.heap p with sinkExpired := true } }
  | .work running outcome => y.workStep running outcome
  | .engine dispatchError => y.engineStep dispatchError

/-- A whole run, label by label. -/
def run (y : Sys) : List Label → Option Sys
  | [] => some y
  | l :: ls => (y.step l).bind (fun y => y.run ls)

end Sys

/-- The states of all finite runs of a system with configuration `config`. -/
inductive Reachable (config : ValidConfig) : Sys → Prop
  | init : Reachable config (Sys.init config)
  | step {y y' : Sys} (l : Label) : Reachable config y → y.step l = some y' → Reachable config y'

/-- A run that starts in a reachable state ends in one. -/
theorem Reachable.run {config : ValidConfig} {y y' : Sys} (ls : List Label)
    (h : Reachable config y) (run : y.run ls = some y') : Reachable config y' := by
  induction ls generalizing y with
  | nil =>
    cases run
    exact h
  | cons l _ ih =>
    obtain ⟨_, hstep, hrest⟩ := Option.bind_eq_some_iff.mp run
    exact ih (h.step l hstep) hrest

/-- The state after the given labels, or the first state if they cannot all be taken. -/
def Sys.after (config : ValidConfig) (ls : List Label) : Sys :=
  ((Sys.init config).run ls).getD (Sys.init config)

theorem Reachable.after (config : ValidConfig) (ls : List Label) :
    Reachable config (Sys.after config ls) := by
  unfold Sys.after
  rcases hrun : (Sys.init config).run ls with _ | _
  · exact .init
  · exact Reachable.init.run ls hrun

/-! ### Small runs

The theorems about all runs are instantiated at runs of a small engine: blocks of two
tokens, and one batch in flight. -/

/-- A small configuration. -/
def EngineConfig.small (blocks chunk : Int) : EngineConfig where
  maxBlocks := blocks
  kvBlockSize := 2
  maxSequences := 2
  maxRunningRequests := 2
  maxConcurrentBatches := 1
  maxPendingRequests := 4
  maxTokenBudget := 8
  maxSeqPrefillTokens := chunk
  defaultMaxContextLen := 2

theorem EngineConfig.three_ok : (small 3 0).validate = .ok () := by decide

theorem EngineConfig.threeChunked_ok : (small 3 2).validate = .ok () := by decide

theorem EngineConfig.threeConcurrent_ok :
    { small 3 0 with maxConcurrentBatches := 2 }.validate = .ok () := by decide

theorem EngineConfig.four_ok : (small 4 0).validate = .ok () := by decide

theorem EngineConfig.fourChunked_ok : (small 4 2).validate = .ok () := by decide

/-- The labels up to the first turn of the engine loop. -/
def Label.submits (reqs : List SchedulerRequest) : List Label :=
  .start :: reqs.map Label.submit ++ [.engine none]

/-- The test of `accepting_` and one dispatch. -/
def Label.dispatch : List Label := [.engine none, .engine none]

/-- A turn of the engine loop that dispatches one batch and retires it, when the sampler
answers `tokens`. -/
def Label.turn (tokens : List Token) : List Label :=
  Label.dispatch ++
    [.engine none, .engine none, .work true (.sampled tokens), .engine none]

end CcInfer
