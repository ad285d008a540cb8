import CcInfer.Worker.Worker
import Mathlib.Logic.Relation

/-!
# `CcInfer.Worker.Queue`: the queue of the worker and its three threads

The embedding of `Worker::enqueue_execute_batch`, `Worker::worker_loop`,
`Worker::process_command` and `Worker::shutdown` of `worker/worker.cpp` as they run at the same
time: any number of calls that enqueue, the worker thread, and one call of `shutdown`.
-/

set_option autoImplicit false

namespace CcInfer

/-- `Worker::PendingBatch`. Every call makes a new channel, so a channel is the number of its
call. -/
structure PendingBatch where
  batch : ScheduledBatch
  chan : Nat
  deriving DecidableEq, Repr

/-- Where the worker thread stands in `worker_loop`. -/
inductive WorkerPc
  /-- Before it locks `queue_mutex_`. -/
  | lock
  /-- With the mutex, before it evaluates the predicate of `cv_.wait`. -/
  | test
  /-- The predicate was false. With the mutex, before it blocks. -/
  | block
  /-- Blocked on `cv_`, without the mutex. -/
  | blocked
  /-- Woken up, before it has the mutex again. -/
  | woken
  /-- The predicate was true. With the mutex, before it leaves the loop or takes the queue. -/
  | take
  /-- In the loop over `local_queue`, before `process_command` loads `running_`. -/
  | serve (localQueue : List PendingBatch)
  /-- In `process_batch`. -/
  | process (pending : PendingBatch) (localQueue : List PendingBatch)
  /-- `worker_loop` has returned. -/
  | done
  deriving DecidableEq, Repr

/-- The batches that the worker has taken and not yet resolved. -/
def WorkerPc.pending : WorkerPc → List PendingBatch
  | serve localQueue => localQueue
  | process pending localQueue => pending :: localQueue
  | _ => []

/-- The worker thread owns the mutex. -/
def WorkerPc.locks : WorkerPc → Bool
  | test | block | take => true
  | _ => false

/-- Where `Worker::shutdown` stands. -/
inductive ShutdownPc
  | idle
  /-- `running_` is stored, `notify_all` is not yet called. -/
  | stored
  /-- `notify_all` was called: waiting in `join`. -/
  | joining
  | returned
  deriving DecidableEq, Repr

/-- Who holds `queue_mutex_`. -/
inductive MutexOwner
  | free
  | worker
  /-- A call of `enqueue_execute_batch` that has found `running_` set. -/
  | client (pending : PendingBatch)
  deriving DecidableEq, Repr

/-- The shared state of the three parties. -/
structure WorkerQueue where
  queue : List PendingBatch
  running : Bool
  mutex : MutexOwner
  pc : WorkerPc
  shutdown : ShutdownPc
  /-- The calls that have released the mutex and not yet called `notify_one`. -/
  notifies : Nat
  worker : Worker
  nextChan : Nat
  /-- What was passed to `Worker::resolve`, in order. -/
  resolved : List (Nat × Result BatchResult)
  /-- Ghost: the channels that were returned. -/
  accepted : List Nat
  /-- Ghost: the channels of the refused calls. -/
  refused : List Nat
  /-- Ghost: the channels of the batches that were processed. -/
  processed : List Nat

/-- What can happen next. -/
inductive QueueLabel
  /-- A call of `enqueue_execute_batch` takes the mutex and loads `running_`. -/
  | enqueue (batch : ScheduledBatch)
  /-- It pushes and releases the mutex. -/
  | push
  /-- It notifies. -/
  | notifyOne
  /-- The next step of the worker thread, outside of `process_batch`. -/
  | work
  /-- `process_batch` ends with what the device decides. -/
  | process (outcome : Outcome)
  /-- A blocked thread wakes up without a notification. -/
  | spurious
  /-- `shutdown` stores `running_ = false`. -/
  | store
  /-- `shutdown` calls `notify_all`. -/
  | notifyAll
  /-- `join` returns. -/
  | join
  deriving DecidableEq, Repr

namespace WorkerQueue

/-- After `Worker::init` has started the thread. -/
def init : WorkerQueue where
  queue := []
  running := true
  mutex := .free
  pc := .lock
  shutdown := .idle
  notifies := 0
  worker := Worker.init
  nextChan := 0
  resolved := []
  accepted := []
  refused := []
  processed := []

/-- A notification wakes the worker if it is blocked, and is lost otherwise. -/
def wake (s : WorkerQueue) : WorkerQueue :=
  if s.pc = .blocked then { s with pc := .woken } else s

/-- `Worker::resolve`. -/
def resolve (s : WorkerQueue) (chan : Nat) (result : Result BatchResult) : WorkerQueue :=
  { s with resolved := s.resolved ++ [(chan, result)] }

/-- The first half of `enqueue_execute_batch`. -/
def enqueue (s : WorkerQueue) (batch : ScheduledBatch) : Option WorkerQueue :=
  if s.mutex = .free then
    if s.running then
      some { s with mutex := .client ⟨batch, s.nextChan⟩, nextChan := s.nextChan + 1 }
    else some { s with refused := s.refused ++ [s.nextChan], nextChan := s.nextChan + 1 }
  else none

/-- The second half of `enqueue_execute_batch`. -/
def push (s : WorkerQueue) : Option WorkerQueue :=
  match s.mutex with
  | .client pending =>
    some { s with
      queue := s.queue ++ [pending]
      mutex := .free
      notifies := s.notifies + 1
      accepted := s.accepted ++ [pending.chan] }
  | _ => none

/-- The steps of `worker_loop` and the test of `process_command`. -/
def work (s : WorkerQueue) : Option WorkerQueue :=
  match s.pc with
  | .lock | .woken =>
    if s.mutex = .free then some { s with mutex := .worker, pc := .test } else none
  | .test => some { s with pc := if !s.queue.isEmpty || !s.running then .take else .block }
  | .block => some { s with mutex := .free, pc := .blocked }
  | .take =>
    if !s.running && s.queue.isEmpty then
      -- `reset_resources` forgets what the batches left behind
      some { s with
        mutex := .free
        pc := .done
        worker := { s.worker with
          latestTokens := fun _ => none
          failedSequences := fun _ => false } }
    else some { s with mutex := .free, pc := .serve s.queue, queue := [] }
  | .serve [] => some { s with pc := .lock }
  | .serve (pending :: rest) =>
    if s.running then
      some { s with pc := .process pending rest, processed := s.processed ++ [pending.chan] }
    else some ({ s with pc := .serve rest }.resolve pending.chan (.error .serverShuttingDown))
  | .blocked | .process _ _ | .done => none

/-- The end of `process_batch`. The token prefixes of samples are not recorded here. -/
def process (s : WorkerQueue) (blockSize : Nat) (outcome : Outcome) : Option WorkerQueue :=
  match s.pc with
  | .process pending rest =>
    let answer := s.worker.processBatch (fun _ => []) blockSize pending.batch outcome
    some ({ s with pc := .serve rest, worker := answer.2 }.resolve pending.chan answer.1)
  | _ => none

/-- One step of one of the parties. -/
def step (blockSize : Nat) (s : WorkerQueue) : QueueLabel → Option WorkerQueue
  | .enqueue batch => s.enqueue batch
  | .push => s.push
  | .notifyOne => if 0 < s.notifies then some { s.wake with notifies := s.notifies - 1 } else none
  | .work => s.work
  | .process outcome => s.process blockSize outcome
  | .spurious => if s.pc = .blocked then some { s with pc := .woken } else none
  | .store =>
    if s.shutdown = .idle then some { s with running := false, shutdown := .stored } else none
  | .notifyAll => if s.shutdown = .stored then some { s.wake with shutdown := .joining } else none
  | .join =>
    if s.shutdown = .joining ∧ s.pc = .done then some { s with shutdown := .returned } else none

/-- Some party takes a step. -/
def Next (blockSize : Nat) (s s' : WorkerQueue) : Prop := ∃ l, s.step blockSize l = some s'

/-- The states of all interleavings. -/
def Reachable (blockSize : Nat) (s : WorkerQueue) : Prop :=
  Relation.ReflTransGen (Next blockSize) init s

/-- Take the given steps. -/
def run (blockSize : Nat) (s : WorkerQueue) : List QueueLabel → Option WorkerQueue
  | [] => some s
  | l :: ls => (s.step blockSize l).bind fun s => s.run blockSize ls

/-- The given steps are a run. -/
theorem run_steps {blockSize : Nat} {s s' : WorkerQueue} (ls : List QueueLabel)
    (h : s.run blockSize ls = some s') : Relation.ReflTransGen (Next blockSize) s s' := by
  induction ls generalizing s with
  | nil =>
    cases h
    exact .refl
  | cons l _ ih =>
    obtain ⟨_, hstep, hrest⟩ := Option.bind_eq_some_iff.mp h
    exact .head ⟨l, hstep⟩ (ih hrest)

/-- The state after the given steps, or the first state if they cannot all be taken. -/
def after (blockSize : Nat) (ls : List QueueLabel) : WorkerQueue :=
  (init.run blockSize ls).getD init

theorem reachable_after (blockSize : Nat) (ls : List QueueLabel) :
    Reachable blockSize (after blockSize ls) := by
  unfold after
  rcases hrun : init.run blockSize ls with _ | _
  · exact .refl
  · exact run_steps ls hrun

end WorkerQueue

end CcInfer
