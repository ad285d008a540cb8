import CcInfer.Cache.BlockCache
import CcInfer.Config.EngineConfig

/-!
# `CcInfer.Scheduler.State`: request objects, queues and the Scheduler record

The embedding of `scheduler/scheduler.h` and of the small operations of `scheduler.cpp`
that every larger one is written with: events, status changes, registration, cancellation,
erasure and the release of a scheduling state.
-/

set_option autoImplicit false

namespace CcInfer

/-- An address of a request object. -/
abbrev RequestPtr := Nat

/-- `GenerationPhase`. -/
inductive GenerationPhase
  | prefill
  | replayPrefill
  | bootstrap
  | decode
  deriving DecidableEq, Repr

/-- `Scheduler::is_prefill_phase`; the decode phases are the other two. -/
def GenerationPhase.isPrefill : GenerationPhase → Bool
  | .prefill | .replayPrefill => true
  | .bootstrap | .decode => false

/-- `SequenceReservation`. -/
structure SequenceReservation where
  executionLeases : Nat := 0
  reservedPromptTokens : Nat := 0
  reservedGenerationTokens : Nat := 0
  reservedKvTokens : Nat := 0
  deriving DecidableEq, Repr

/-- `SequenceScheduleCursor`. -/
structure SequenceScheduleCursor where
  phase : GenerationPhase := .prefill
  prefillCursor : Nat := 0
  generatedTokensInPrompt : Nat := 0
  deriving DecidableEq, Repr

/-- `SequenceSchedulingState`. -/
structure SequenceSchedulingState where
  seqId : SequenceId := 0
  reservation : SequenceReservation := {}
  cursor : SequenceScheduleCursor := {}
  blockTable : BlockTable := []
  executedFrontier : Nat := 0
  parentHash : Hash := 0
  pendingHashTokens : List Token := []
  /-- Ghost: the prefix-hit blocks at admission. -/
  hitBlocks : Nat := 0
  /-- Ghost: the number of generated tokens at admission. -/
  admittedGenerated : Nat := 0
  deriving DecidableEq, Repr

/-- `RequestState`. Of the sink only `channel.expired()` is read. -/
structure RequestState where
  requestId : String := ""
  initialPromptTokens : List Token := []
  promptTokens : List Token := []
  status : RequestStatus := .active
  generatedTokens : List Token := []
  sampling : SamplingParams := {}
  maxContextLen : Int := 2048
  sinkExpired : Bool := false
  scheduling : Option SequenceSchedulingState := none
  deriving DecidableEq, Repr

/-- What the Scheduler did, for the ghost log. -/
inductive Obs
  /-- `submit_on_scheduler_thread` registered the request at `p`. -/
  | registered (p : RequestPtr) (req : SchedulerRequest)
  /-- A submission was refused with an error event. -/
  | rejected (requestId : String) (err : ErrorCode)
  /-- An event was passed to `send_event` for `p`. -/
  | sent (p : RequestPtr) (event : SinkEvent)
  /-- The status of `p` was set. -/
  | statusSet (p : RequestPtr) (status : RequestStatus)
  /-- `admit_one_waiting` gave `p` the scheduling state `seq`, with `hits` prefix-hit blocks
  and `generated` tokens already generated. -/
  | admitted (p : RequestPtr) (seq : SequenceId) (hits generated : Nat)
  /-- `build_state_work` appended the item to its batch. -/
  | dispatched (item : WorkItem)
  /-- `p` lost its scheduling state and went back to `waiting_`. -/
  | suspended (p : RequestPtr)
  /-- `allocate_kv_blocks(n)` was called with `available` free or idle blocks. -/
  | allocate (n available : Nat)
  /-- `retire_work` processed the last chunk of the prompt of `p`, which started at `start`
  and wrote from `context` on. -/
  | finalChunk (p : RequestPtr) (start context : Nat)
  /-- `publish_full_block` was called for block `id`. -/
  | published (seq : SequenceId) (id : BlockId) (index : Nat) (tokens : List Token)
  /-- `Executor::release_sequence` was called. -/
  | releasedSequence (seq : SequenceId)
  /-- `erase_request` removed `p` from the registry. -/
  | erased (p : RequestPtr)
  deriving DecidableEq, Repr

/-- `Scheduler`. -/
structure Scheduler where
  config : ValidConfig
  heap : RequestPtr → RequestState
  nextPtr : RequestPtr
  requests : List (String × RequestPtr)
  waiting : List RequestPtr
  skip : List RequestPtr
  running : List RequestPtr
  bySeqId : SequenceId → Option RequestPtr
  admissionPaused : Bool
  blockShortagePending : Bool
  accepting : Bool
  nextBatchId : Nat
  nextSeqId : SequenceId
  kv : KvBlocks
  shutdownRequested : Bool
  shutdownDoneSent : Bool
  /-- A `shutdown_async` whose store to `accepting_` lands after this many more loads. -/
  storePending : Option Nat
  /-- The posted shutdown handler, with its `was_running`. -/
  shutdownPosted : Option Bool
  /-- Ghost: how often the shutdown promise was set. -/
  promiseSet : Nat
  /-- Ghost: the prompt tokens whose KV the prefix hits of a sequence stand for. -/
  hitTokens : SequenceId → List Token
  /-- Ghost: the log. -/
  trace : List Obs
  /-- Ghost: assertions of `scheduler.cpp` that did not hold. -/
  failedAsserts : List AssertSite

namespace Scheduler

/-- The constructor of `Scheduler`. -/
def init (config : ValidConfig) : Scheduler where
  config := config
  heap := fun _ => {}
  nextPtr := 0
  requests := []
  waiting := []
  skip := []
  running := []
  bySeqId := fun _ => none
  admissionPaused := false
  blockShortagePending := false
  accepting := false
  nextBatchId := 1
  nextSeqId := 1
  kv := KvBlocks.init config.maxBlocks config.kvBlockSize
  shutdownRequested := false
  shutdownDoneSent := false
  storePending := none
  shutdownPosted := none
  promiseSet := 0
  hitTokens := fun _ => []
  trace := []
  failedAsserts := []

/-- Log a failed assertion. -/
def assert (s : Scheduler) (b : Bool) (site : AssertSite) : Scheduler :=
  if b then s else { s with failedAsserts := s.failedAsserts ++ [site] }

/-- Append to the ghost log. -/
def log (s : Scheduler) (o : Obs) : Scheduler := { s with trace := s.trace ++ [o] }

/-- Overwrite the request object at `p`. -/
def setRequest (s : Scheduler) (p : RequestPtr) (r : RequestState) : Scheduler :=
  { s with heap := Function.update s.heap p r }

/-- Overwrite the scheduling state of `p`. -/
def setScheduling (s : Scheduler) (p : RequestPtr) (sc : Option SequenceSchedulingState) :
    Scheduler :=
  s.setRequest p { s.heap p with scheduling := sc }

/-- `state.status = status`. -/
def setStatus (s : Scheduler) (p : RequestPtr) (status : RequestStatus) : Scheduler :=
  (s.setRequest p { s.heap p with status := status }).log (.statusSet p status)

/-- `generated_token_count`. -/
def generatedTokenCount (s : Scheduler) (p : RequestPtr) : Nat :=
  (s.heap p).generatedTokens.length

/-- `Scheduler::is_schedulable_state`. -/
def isSchedulableState (s : Scheduler) (p : RequestPtr) : Bool :=
  (s.heap p).status == .active && (s.heap p).scheduling.isSome

/-! ### Events -/

/-- `Scheduler::send_event`. The result says whether the channel was still there. -/
def sendEvent (s : Scheduler) (p : RequestPtr) (event : SinkEvent) : Bool × Scheduler :=
  (!(s.heap p).sinkExpired, s.log (.sent p event))

/-- `Scheduler::send_token_event`. -/
def sendTokenEvent (s : Scheduler) (p : RequestPtr) : Scheduler :=
  let state := s.heap p
  let token : GeneratedToken :=
    { tokenId := state.generatedTokens.getLastD (-1)
      hasToken := true
      finished := state.status == .finished }
  let (sent, s) := s.sendEvent p (.ok token)
  if !sent && state.status == .active then s.setStatus p .cancelled else s

/-- `Scheduler::send_terminal_event`. -/
def sendTerminalEvent (s : Scheduler) (p : RequestPtr) : Scheduler :=
  ((s.setStatus p .finished).sendEvent p (.ok { hasToken := false, finished := true })).2

/-- `Scheduler::send_error_event`. -/
def sendErrorEvent (s : Scheduler) (p : RequestPtr) (err : ErrorCode) : Scheduler :=
  ((s.setStatus p .failed).sendEvent p (.error err)).2

/-! ### Registration, cancellation, erasure -/

/-- `requests_.find`. -/
def findRequest (s : Scheduler) (requestId : String) : Option RequestPtr :=
  (s.requests.find? (fun e => e.1 == requestId)).map Prod.snd

/-- The tail of `submit_on_scheduler_thread`: build the request object, register and
enqueue it. -/
def register (s : Scheduler) (req : SchedulerRequest) : Scheduler :=
  let maxContextLen :=
    if req.maxContextLen ≤ 0 then (s.config.defaultMaxContextLen : Int) else req.maxContextLen
  let p := s.nextPtr
  { s with
    heap := Function.update s.heap p
      { requestId := req.requestId
        initialPromptTokens := req.promptTokens
        promptTokens := req.promptTokens
        sampling := req.sampling
        maxContextLen := maxContextLen }
    nextPtr := p + 1
    requests := s.requests ++ [(req.requestId, p)]
    waiting := s.waiting ++ [p]
    trace := s.trace ++ [.registered p req] }

/-- `Scheduler::submit_on_scheduler_thread`. Waking the idle timer is part of the engine
loop. -/
def submitOnSchedulerThread (s : Scheduler) (req : SchedulerRequest) : Scheduler :=
  if (s.findRequest req.requestId).isSome then s.log (.rejected req.requestId .invalidArgument)
  else if s.config.maxPendingRequests ≤ s.waiting.length then
    s.log (.rejected req.requestId .requestQueueFull)
  else s.register req

/-- `Scheduler::cancel_on_scheduler_thread`. -/
def cancelOnSchedulerThread (s : Scheduler) (requestId : String) : Scheduler :=
  match s.findRequest requestId with
  | none => s
  | some p => if (s.heap p).status = .active then s.setStatus p .cancelled else s

/-- `Scheduler::erase_request`. -/
def eraseRequest (s : Scheduler) (p : RequestPtr) : Scheduler :=
  let s := s.assert (s.heap p).scheduling.isNone .eraseUnscheduled
  { s with
    requests := s.requests.filter (fun e => e.1 ≠ (s.heap p).requestId)
    trace := s.trace ++ [.erased p] }

/-! ### The accepting flag -/

/-- The store of `shutdown_async` lands: `accepting_` becomes false and the handler is
posted with the old value. -/
def landStore (s : Scheduler) : Scheduler :=
  { s with accepting := false, storePending := none, shutdownPosted := some s.accepting }

/-- `accepting_.load()`. -/
def loadAccepting (s : Scheduler) : Bool × Scheduler :=
  match s.storePending with
  | none => (s.accepting, s)
  | some 0 => (false, s.landStore)
  | some (n + 1) => (s.accepting, { s with storePending := some n })

/-- `Scheduler::complete_shutdown_on_scheduler_thread`. -/
def completeShutdown (s : Scheduler) : Scheduler :=
  if s.shutdownDoneSent then s
  else { s with shutdownDoneSent := true, promiseSet := s.promiseSet + 1 }

/-! ### Blocks of a request -/

/-- `Scheduler::allocate_kv_blocks`, logged. -/
def allocateKvBlocks (s : Scheduler) (n : Nat) : Result BlockTable × Scheduler :=
  let s := s.log (.allocate n (s.kv.pool.numFreeBlocks + s.kv.cache.idleLru.length))
  let (r, kv) := s.kv.allocateKvBlocks n
  (r, { s with kv := kv })

/-- `Scheduler::release_request_blocks`. -/
def releaseRequestBlocks (s : Scheduler) (table : BlockTable) : Scheduler :=
  { s with kv := s.kv.releaseRequestBlocks table }

/-- `Scheduler::release_scheduling_blocks`. -/
def releaseSchedulingBlocks (s : Scheduler) (p : RequestPtr) : Scheduler :=
  match (s.heap p).scheduling with
  | none => s
  | some sc =>
    let s := { s with bySeqId := Function.update s.bySeqId sc.seqId none }
    (s.releaseRequestBlocks sc.blockTable).setScheduling p none

/-- `Scheduler::prepare_for_wait`. -/
def prepareForWait (s : Scheduler) (p : RequestPtr) : Scheduler :=
  let state := s.heap p
  if state.generatedTokens.isEmpty then s
  else
    s.setRequest p
      { state with promptTokens := state.initialPromptTokens ++ state.generatedTokens.dropLast }

end Scheduler

end CcInfer
