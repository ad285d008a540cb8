import CcInfer.Scheduler.Step

/-!
# `CcInfer.Scheduler.Retire`: results, failures, cleanup and preemption

The embedding of the part of `scheduler.cpp` that runs between two batches: retirement of
results (`retireWork`, with the publication of full blocks), failed batches, the removal of
terminal requests, preemption to `skip_`, and the two sweeps of the shutdown path.
-/

set_option autoImplicit false

namespace CcInfer

/-- `Scheduler::retire_reservation` on the reservation. Truncated subtraction is the
source's `max(0, ·)` and its `> 0` guards. -/
def SequenceReservation.retire (r : SequenceReservation) (item : WorkItem) :
    SequenceReservation where
  executionLeases := r.executionLeases - 1
  reservedPromptTokens := r.reservedPromptTokens - item.promptTokenCount
  reservedGenerationTokens := r.reservedGenerationTokens - (if item.samples then 1 else 0)
  reservedKvTokens := r.reservedKvTokens - item.kvTokenCount

namespace Scheduler

/-- `Scheduler::retire_reservation`. -/
def retireReservation (s : Scheduler) (p : RequestPtr) (item : WorkItem) : Scheduler :=
  match (s.heap p).scheduling with
  | none => s
  | some sc => s.setScheduling p (some { sc with reservation := sc.reservation.retire item })

/-! ### Publication -/

/-- The `while` loop of `retire_work` that publishes full blocks of pending tokens, from
block index `index` on. Every round removes a block of tokens, so the number of pending
tokens is enough fuel. -/
def publishLoop (s : Scheduler) (sc : SequenceSchedulingState) (index : Nat) :
    Nat → Scheduler × SequenceSchedulingState
  | 0 => (s, sc)
  | fuel + 1 =>
    let blockSize := s.kv.pool.blockSize
    if blockSize ≤ sc.pendingHashTokens.length then
      let fullBlock := sc.pendingHashTokens.take blockSize
      let s := s.assert (index < sc.blockTable.length) .publishIndex
      let id := sc.blockTable.getD index 0
      let (hash, kv) := s.kv.publishFullBlock sc.parentHash fullBlock id
      let s := { s with kv := kv }.log (.published sc.seqId id index fullBlock)
      s.publishLoop
        { sc with
          parentHash := hash
          pendingHashTokens := sc.pendingHashTokens.drop blockSize }
        (index + 1) fuel
    else (s, sc)

/-- The publication part of `retire_work`, for an item that wrote KV. -/
def publishWritten (s : Scheduler) (sc : SequenceSchedulingState) (contextBefore : Nat)
    (written : List Token) : Scheduler × SequenceSchedulingState :=
  let pendingBefore := sc.pendingHashTokens.length
  let nextBlockIndex := (contextBefore - pendingBefore) / s.kv.pool.blockSize
  let sc := { sc with pendingHashTokens := sc.pendingHashTokens ++ written }
  s.publishLoop sc nextBlockIndex sc.pendingHashTokens.length

/-! ### Retirement -/

/-- `written_tokens` of `retire_work`: a chunk wrote its own tokens, a decode is taken to
have written the last generated token. -/
def writtenTokens (state : RequestState) : WorkItem → List Token
  | .prefill w => w.tokens
  | .decode _ => state.generatedTokens.getLast?.toList

/-- The tail of `retire_work`, from the publication on. `sc` is the advanced scheduling
state of `p`. -/
def retireTail (s : Scheduler) (p : RequestPtr) (sc : SequenceSchedulingState)
    (original : WorkItem) (r : WorkItemResult) : Scheduler :=
  let state := s.heap p
  let (s, sc) :=
    if 0 < original.kvTokenCount then
      s.publishWritten sc original.context (writtenTokens state original)
    else (s, sc)
  let sampled := !r.sampledTokens.isEmpty
  let finished := r.eos ||
    decide (state.sampling.maxTokens ≤ state.generatedTokens.length + (if sampled then 1 else 0))
  let sc :=
    if sampled && sc.cursor.phase == .bootstrap then
      { sc with cursor := { sc.cursor with phase := .decode } }
    else sc
  let generated := state.generatedTokens ++ r.sampledTokens.head?.toList
  let s := s.setRequest p { state with scheduling := some sc, generatedTokens := generated }
  let s :=
    if finished || decide (state.sampling.maxTokens ≤ generated.length) then
      s.setStatus p .finished
    else s
  let s := if sampled then s.sendTokenEvent p else s
  if (s.heap p).status == .finished && !sampled then s.sendTerminalEvent p else s

/-- `retire_work` for a chunk result that is not ignored. -/
def retireChunk (s : Scheduler) (p : RequestPtr) (sc : SequenceSchedulingState)
    (chunk : PrefillChunk) (r : WorkItemResult) : Scheduler :=
  let state := s.heap p
  let promptLen := state.promptTokens.length
  let replayPrefill := sc.cursor.phase == .replayPrefill
  let contextBefore := (WorkItem.prefill chunk).context
  let s := s.assert
    (r.tokensConsumed = chunk.promptSpan.length && 0 < r.tokensConsumed &&
      sc.cursor.prefillCursor = chunk.promptSpan.start &&
      sc.cursor.prefillCursor + r.tokensConsumed ≤ promptLen) .retireCursor
  let finalPrefill := decide (promptLen ≤ sc.cursor.prefillCursor + r.tokensConsumed)
  let sc := { sc with
    cursor := { sc.cursor with
      prefillCursor := sc.cursor.prefillCursor + r.tokensConsumed
      phase := if finalPrefill then .decode else sc.cursor.phase }
    executedFrontier := max sc.executedFrontier (contextBefore + r.tokensConsumed) }
  if !finalPrefill then
    let s := s.assert (r.sampledTokens.isEmpty && !r.eos) .retireNoSample
    s.setScheduling p (some sc)
  else
    let replayWithoutSample := replayPrefill && !state.generatedTokens.isEmpty &&
      r.sampledTokens.isEmpty && !r.eos
    let s := s.assert (!r.sampledTokens.isEmpty || r.eos || replayWithoutSample) .retireSampled
    let s := s.log (.finalChunk p chunk.promptSpan.start contextBefore)
    s.retireTail p sc (.prefill chunk) r

/-- `retire_work` for a decode result that is not ignored. -/
def retireDecode (s : Scheduler) (p : RequestPtr) (sc : SequenceSchedulingState)
    (work : DecodeOneToken) (r : WorkItemResult) : Scheduler :=
  let item := WorkItem.decode work
  let s := s.assert (r.tokensConsumed = 1) .retireDecode
  let sc := { sc with
    executedFrontier := max sc.executedFrontier (item.context + item.kvTokenCount) }
  s.retireTail p sc item r

/-- `Scheduler::retire_work`. -/
def retireWork (s : Scheduler) (original : WorkItem) (r : WorkItemResult) : Scheduler :=
  match s.bySeqId r.seqId with
  | none => s
  | some p =>
    match (s.heap p).scheduling with
    | none => s
    | some sc =>
      let sc := { sc with reservation := sc.reservation.retire original }
      let s := s.setScheduling p (some sc)
      if r.stale || !s.isSchedulableState p then s
      else
        match original with
        | .prefill chunk => s.retireChunk p sc chunk r
        | .decode work => s.retireDecode p sc work r

/-- The second loop of `Scheduler::update_from_output`. -/
def retireLoop (s : Scheduler) (items : List WorkItem) : List WorkItemResult → Scheduler
  | [] => s
  | r :: rest =>
    match items[r.itemIndex]? with
    | none => s.retireLoop items rest
    | some original => (s.retireWork original r).retireLoop items rest

/-- The assertions of the first loop of `Scheduler::update_from_output`. -/
def outputMatches (batch : ScheduledBatch) (result : BatchResult) : Bool :=
  result.batchId == batch.batchId && result.items.length == batch.items.length &&
    result.items.all fun r =>
      match batch.items[r.itemIndex]? with
      | none => false
      | some original => original.seqId == r.seqId && original.kind == r.kind

/-- `Scheduler::update_from_output`. -/
def updateFromOutput (s : Scheduler) (batch : ScheduledBatch) (result : BatchResult) :
    Scheduler :=
  (s.assert (outputMatches batch result) .outputMatchesBatch).retireLoop batch.items result.items

/-- One item of `Scheduler::fail_batch`. -/
def failItem (s : Scheduler) (item : WorkItem) (err : ErrorCode) : Scheduler :=
  match s.bySeqId item.seqId with
  | none => s
  | some p =>
    let s := s.retireReservation p item
    if (s.heap p).status = .active then s.sendErrorEvent p err else s

/-- `Scheduler::fail_batch`. -/
def failBatch (s : Scheduler) (batch : ScheduledBatch) (err : ErrorCode) : Scheduler :=
  batch.items.foldl (fun s item => s.failItem item err) s

/-! ### Cleanup -/

/-- `executor_.release_sequence` of the scheduling state of `p`. -/
def releaseSequence (s : Scheduler) (p : RequestPtr) : Scheduler :=
  match (s.heap p).scheduling with
  | none => s
  | some sc => s.log (.releasedSequence sc.seqId)

/-- Whether `cleanup_terminal_requests` collects the running request `p`. -/
def terminalIdle (s : Scheduler) (p : RequestPtr) : Bool :=
  match (s.heap p).scheduling with
  | none => false
  | some sc => (s.heap p).status != .active && sc.reservation.executionLeases == 0

/-- One round of the second loop of `cleanup_terminal_requests`. -/
def cleanupRunning (s : Scheduler) (p : RequestPtr) : Scheduler :=
  let s := (s.releaseSequence p).releaseSchedulingBlocks p
  let s := { s with running := s.running.erase p }.eraseRequest p
  { s with admissionPaused := false }

/-- The loop of `Scheduler::cleanup_terminal_queue`; returns the requests that stay. -/
def cleanupQueueLoop (s : Scheduler) (active : List RequestPtr) :
    List RequestPtr → Scheduler × List RequestPtr
  | [] => (s, active)
  | p :: rest =>
    if (s.heap p).status = .active then s.cleanupQueueLoop (active ++ [p]) rest
    else
      let s := if s.terminalIdle p then s.releaseSequence p else s
      ((s.releaseSchedulingBlocks p).eraseRequest p).cleanupQueueLoop active rest

/-- `Scheduler::cleanup_terminal_requests`. -/
def cleanupTerminalRequests (s : Scheduler) : Scheduler :=
  let s := (s.running.filter s.terminalIdle).foldl cleanupRunning s
  let (s, active) := s.cleanupQueueLoop [] s.skip
  let s := { s with skip := active }
  let (s, active) := s.cleanupQueueLoop [] s.waiting
  { s with waiting := active }

/-- Whether `preempt_one_for_admission` may pick `p`. -/
def preemptable (s : Scheduler) (p : RequestPtr) : Bool :=
  match (s.heap p).scheduling with
  | none => false
  | some sc => s.isSchedulableState p && sc.reservation.executionLeases == 0

/-- `Scheduler::preempt_one_for_admission`. -/
def preemptOneForAdmission (s : Scheduler) : Scheduler :=
  match s.running.reverse.find? s.preemptable with
  | none => s
  | some p =>
    match (s.heap p).scheduling with
    | none => s
    | some sc =>
      { s with
        bySeqId := Function.update s.bySeqId sc.seqId none
        running := s.running.erase p
        skip := p :: s.skip }

/-! ### Shutdown -/

/-- The first loop of `Scheduler::fail_all_waiting`. -/
def failWaitingLoop (s : Scheduler) (err : ErrorCode) : List RequestPtr → Scheduler
  | [] => s
  | p :: rest => ({ s with waiting := rest }.dropWith p (.error err)).failWaitingLoop err rest

/-- The second loop of `Scheduler::fail_all_waiting`. -/
def failSkipLoop (s : Scheduler) (err : ErrorCode) : List RequestPtr → Scheduler
  | [] => s
  | p :: rest => ({ s with skip := rest }.dropWith p (.error err)).failSkipLoop err rest

/-- `Scheduler::fail_all_waiting`. -/
def failAllWaiting (s : Scheduler) (err : ErrorCode) : Scheduler :=
  let s := s.failWaitingLoop err s.waiting
  s.failSkipLoop err s.skip

/-- One round of `Scheduler::cleanup_all_running`. -/
def shutdownRunning (s : Scheduler) (err : ErrorCode) (p : RequestPtr) : Scheduler :=
  if (s.heap p).scheduling.isNone then s
  else
    let s := if (s.heap p).status = .active then s.sendErrorEvent p err else s
    let s := s.releaseSchedulingBlocks p
    { s with running := s.running.erase p }.eraseRequest p

/-- `Scheduler::cleanup_all_running`. -/
def cleanupAllRunning (s : Scheduler) (err : ErrorCode) : Scheduler :=
  s.running.foldl (fun s p => s.shutdownRunning err p) s

/-! ### Tests of the engine loop -/

/-- Whether `has_schedulable_work` finds work for the running request `p`. -/
def hasWorkFor (s : Scheduler) (p : RequestPtr) : Bool :=
  let state := s.heap p
  match state.scheduling with
  | none => false
  | some sc =>
    let reserved := sc.reservation.reservedGenerationTokens
    s.isSchedulableState p &&
      (if sc.cursor.phase.isPrefill then
        decide (sc.cursor.prefillCursor + sc.reservation.reservedPromptTokens <
          state.promptTokens.length)
      else
        decide (((state.generatedTokens.length + reserved : Nat) : Int) <
          state.sampling.maxTokens) &&
          (sc.cursor.phase != .bootstrap || reserved == 0))

/-- `Scheduler::has_schedulable_work`. -/
def hasSchedulableWork (s : Scheduler) : Bool :=
  (!s.skip.isEmpty && decide (s.running.length < s.config.maxRunningRequests)) ||
    s.running.any s.hasWorkFor

end Scheduler

end CcInfer
