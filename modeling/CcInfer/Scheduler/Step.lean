import CcInfer.Scheduler.State

/-!
# `CcInfer.Scheduler.Step`: building a batch

The embedding of the part of `scheduler.cpp` behind `schedule_step`: the work items of a
running sequence (`buildStateWork`), resumption and admission (`admitOneSkipped`,
`admitOneWaiting`), and the two answers to a shortage of KV blocks (`evictOneSkipped`,
`suspendOneRunning`). None of these functions suspends the scheduler coroutine, so each is
a function from state to state.
-/

set_option autoImplicit false

namespace CcInfer

/-- `Scheduler::BatchBuildContext`. -/
structure BatchBuildContext where
  batch : ScheduledBatch
  tokenBudget : Nat
  samplingSet : Bool
  deriving DecidableEq, Repr

/-- The lambda `select_sampling`: the first request that adds work decides for the batch. -/
def BatchBuildContext.selectSampling (ctx : BatchBuildContext) (state : RequestState) :
    BatchBuildContext :=
  if ctx.samplingSet then ctx
  else { ctx with batch := { ctx.batch with sampling := state.sampling }, samplingSet := true }

/-- Append a work item and pay for its tokens. -/
def BatchBuildContext.push (ctx : BatchBuildContext) (item : WorkItem) : BatchBuildContext :=
  { ctx with
    batch := { ctx.batch with items := ctx.batch.items ++ [item] }
    tokenBudget := ctx.tokenBudget - item.tokenCount }

/-- What `build_state_work` adds to the reservation of a sequence for a new item. -/
def SequenceReservation.reserve (r : SequenceReservation) (item : WorkItem) :
    SequenceReservation where
  executionLeases := r.executionLeases + 1
  reservedPromptTokens := r.reservedPromptTokens + item.promptTokenCount
  reservedGenerationTokens := r.reservedGenerationTokens + (if item.samples then 1 else 0)
  reservedKvTokens := r.reservedKvTokens + item.kvTokenCount

namespace Scheduler

/-- Dispatch `item` for the scheduling state `sc` of `p`: reserve and append. -/
def addItem (s : Scheduler) (ctx : BatchBuildContext) (p : RequestPtr)
    (sc : SequenceSchedulingState) (item : WorkItem) : Scheduler × BatchBuildContext :=
  ((s.setScheduling p (some { sc with reservation := sc.reservation.reserve item })).log
    (.dispatched item), ctx.push item)

/-- The prefill half of `Scheduler::build_state_work`. -/
def buildPrefillWork (s : Scheduler) (ctx : BatchBuildContext) (p : RequestPtr)
    (sc : SequenceSchedulingState) : Scheduler × BatchBuildContext :=
  let state := s.heap p
  let promptLen := state.promptTokens.length
  let promptStart := sc.cursor.prefillCursor + sc.reservation.reservedPromptTokens
  if promptLen ≤ promptStart then (s, ctx)
  else
    let chunkLen := promptLen - promptStart
    let chunkLen :=
      if 0 < s.config.maxSeqPrefillTokens then min chunkLen s.config.maxSeqPrefillTokens
      else chunkLen
    let chunkLen := min chunkLen ctx.tokenBudget
    if chunkLen = 0 then (s, ctx)
    else
      let ctx := ctx.selectSampling state
      let finalChunk := decide (promptLen ≤ promptStart + chunkLen)
      let replay := sc.cursor.phase == .replayPrefill
      let needsSample := finalChunk && !(replay && !state.generatedTokens.isEmpty)
      s.addItem ctx p sc (.prefill
        { seqId := sc.seqId
          promptSpan := ⟨promptStart, chunkLen⟩
          expectedContextLen := some (sc.executedFrontier + sc.reservation.reservedKvTokens)
          needsSample := needsSample
          tokens := (state.promptTokens.drop promptStart).take chunkLen
          blockTable := sc.blockTable })

/-- `(tokens + block_size - 1) / block_size`, computed in `int`. -/
def blockCount (tokens blockSize : Nat) : Int :=
  (toInt32 (toInt32 (tokens + blockSize) - 1)).tdiv blockSize

/-- The end of the decode half of `Scheduler::build_state_work`: grow the block table when
the next position needs a block, then dispatch. -/
def dispatchDecode (s : Scheduler) (ctx : BatchBuildContext) (p : RequestPtr)
    (sc : SequenceSchedulingState) (inputToken : Token) (writeKv lateBind : Bool) :
    Scheduler × BatchBuildContext :=
  let contextLen := sc.executedFrontier + sc.reservation.reservedKvTokens
  let requiredTokens := contextLen + (if writeKv then 1 else 0)
  let blockSize := s.kv.pool.blockSize
  let requiredBlocks := blockCount requiredTokens blockSize
  let item (table : BlockTable) : WorkItem := .decode
    { seqId := sc.seqId
      inputToken := inputToken
      expectedContextLen := some contextLen
      writeKv := writeKv
      lateBind := lateBind
      blockTable := table }
  if sc.blockTable.length < requiredBlocks then
    match s.allocateKvBlocks (requiredBlocks - sc.blockTable.length).toNat with
    | (.error _, s) => ({ s with blockShortagePending := true }, ctx)
    | (.ok blocks, s) =>
      let sc := { sc with blockTable := sc.blockTable ++ blocks }
      (s.setScheduling p (some sc)).addItem ctx p sc (item sc.blockTable)
  else s.addItem ctx p sc (item sc.blockTable)

/-- The decode half of `Scheduler::build_state_work`. -/
def buildDecodeWork (s : Scheduler) (ctx : BatchBuildContext) (p : RequestPtr)
    (sc : SequenceSchedulingState) : Scheduler × BatchBuildContext :=
  let state := s.heap p
  let ctx := ctx.selectSampling state
  let reserved := sc.reservation.reservedGenerationTokens
  let bootstrap := sc.cursor.phase == .bootstrap
  if state.sampling.maxTokens ≤ s.generatedTokenCount p + reserved then (s, ctx)
  else if bootstrap && 0 < reserved then (s, ctx)
  else
    let s := if bootstrap then s.assert (!state.promptTokens.isEmpty) .bootstrapPrompt else s
    let committedContext : Int :=
      state.promptTokens.length + s.generatedTokenCount p - sc.cursor.generatedTokensInPrompt
    if state.maxContextLen ≤ committedContext + reserved then
      (if reserved = 0 then s.sendTerminalEvent p else s, ctx)
    else if bootstrap then
      s.dispatchDecode ctx p sc (state.promptTokens.getLastD 0) false false
    else s.dispatchDecode ctx p sc 0 true true

/-- `Scheduler::build_state_work`. -/
def buildStateWork (s : Scheduler) (ctx : BatchBuildContext) (p : RequestPtr) :
    Scheduler × BatchBuildContext :=
  match (s.heap p).scheduling with
  | none => (s, ctx)
  | some sc =>
    if ctx.tokenBudget = 0 ∨ !s.isSchedulableState p then (s, ctx)
    else if (s.heap p).sampling.maxTokens ≤ s.generatedTokenCount p then
      (s.sendTerminalEvent p, ctx)
    else if sc.cursor.phase.isPrefill then s.buildPrefillWork ctx p sc
    else s.buildDecodeWork ctx p sc

/-- The loop of `Scheduler::build_running_batch` over a suffix of `running_`. -/
def buildRunningLoop (s : Scheduler) (ctx : BatchBuildContext) :
    List RequestPtr → Scheduler × BatchBuildContext
  | [] => (s, ctx)
  | p :: rest =>
    if ctx.tokenBudget = 0 then (s, ctx)
    else
      let (s, ctx) := s.buildStateWork ctx p
      s.buildRunningLoop ctx rest

/-- `Scheduler::build_running_batch`. -/
def buildRunningBatch (s : Scheduler) (ctx : BatchBuildContext) : Scheduler × BatchBuildContext :=
  s.buildRunningLoop ctx s.running

/-! ### Shortage of KV blocks -/

/-- `Scheduler::release_and_move_to_wait`. -/
def releaseAndMoveToWait (s : Scheduler) (p : RequestPtr) : Scheduler :=
  if (s.heap p).scheduling.isNone then s
  else
    let s := (s.prepareForWait p).releaseSchedulingBlocks p
    { s with running := s.running.erase p, waiting := p :: s.waiting }.log (.suspended p)

/-- `Scheduler::evict_one_skipped`. -/
def evictOneSkipped (s : Scheduler) : Bool × Scheduler :=
  match s.skip with
  | [] => (false, s)
  | p :: rest =>
    let s := { s with skip := rest }
    if (s.heap p).scheduling.isNone then (true, { s with waiting := p :: s.waiting })
    else
      let s := (s.prepareForWait p).releaseSchedulingBlocks p
      (true, { s with waiting := p :: s.waiting }.log (.suspended p))

/-- Whether `suspend_one_running` may pick `p` in the given half of its search. -/
def suspendable (s : Scheduler) (prefillPhase : Bool) (p : RequestPtr) : Bool :=
  match (s.heap p).scheduling with
  | none => false
  | some sc =>
    sc.cursor.phase.isPrefill == prefillPhase && s.isSchedulableState p &&
      sc.reservation.executionLeases == 0

/-- The number of blocks `p` holds. -/
def numBlocks (s : Scheduler) (p : RequestPtr) : Nat :=
  match (s.heap p).scheduling with
  | none => 0
  | some sc => sc.blockTable.length

/-- The lambda `find_smallest` of `suspend_one_running`: over `running_` from the back, the
first suspendable request that holds the fewest blocks. -/
def findSmallest (s : Scheduler) (prefillPhase : Bool) : Option RequestPtr :=
  s.running.reverse.foldl
    (fun best p =>
      if s.suspendable prefillPhase p then
        match best with
        | none => some p
        | some q => if s.numBlocks p < s.numBlocks q then some p else best
      else best)
    none

/-- `Scheduler::suspend_one_running`. -/
def suspendOneRunning (s : Scheduler) : Bool × Scheduler :=
  match (s.findSmallest true).or (s.findSmallest false) with
  | none => (false, s)
  | some p =>
    let s := s.releaseAndMoveToWait p
    (true, { s with admissionPaused := !s.running.isEmpty })

/-- `if (!co_await evict_one_skipped()) co_await suspend_one_running();` -/
def relieveShortage (s : Scheduler) : Scheduler :=
  match s.evictOneSkipped with
  | (true, s) => s
  | (false, s) => s.suspendOneRunning.2

/-! ### Admission -/

/-- Send a last event to `p`, release what it holds and forget it: the way `admit_one_*`
drops the request it popped. -/
def dropWith (s : Scheduler) (p : RequestPtr) (event : SinkEvent) : Scheduler :=
  (((s.releaseSchedulingBlocks p).sendEvent p event).2).eraseRequest p

/-- `Scheduler::admit_one_skipped`. -/
def admitOneSkipped (s : Scheduler) (ctx : BatchBuildContext) :
    Bool × Scheduler × BatchBuildContext :=
  match s.skip with
  | [] => (false, s, ctx)
  | p :: rest =>
    if ctx.tokenBudget = 0 ∨ s.config.maxRunningRequests ≤ s.running.length then (false, s, ctx)
    else
      let s : Scheduler := { s with skip := rest }
      let state : RequestState := s.heap p
      if state.status = .cancelled then (true, s.dropWith p (.error .requestCancelled), ctx)
      else if state.sampling.maxTokens ≤ 0 then
        (true, s.dropWith p (.ok { hasToken := false, finished := true }), ctx)
      else
        match state.scheduling with
        | none => (false, { s with waiting := p :: s.waiting }, ctx)
        | some sc =>
          let (accepting, s) := s.loadAccepting
          if !accepting then (true, s.dropWith p (.error .serverShuttingDown), ctx)
          else if state.sampling.maxTokens ≤ s.generatedTokenCount p then
            let s := (s.releaseSchedulingBlocks p).sendTerminalEvent p
            (true, s.eraseRequest p, ctx)
          else
            let s := { s with
              bySeqId := Function.update s.bySeqId sc.seqId (some p)
              running := s.running ++ [p] }
            let (s, ctx) := s.buildStateWork ctx p
            (true, s, ctx)

/-- The end of `admit_one_waiting`: materialize the scheduling state of `p` over the looked
up and allocated blocks, choose the phase, and enter `running_`. -/
def materialize (s : Scheduler) (p : RequestPtr) (lookup : PrefixLookup) : Scheduler :=
  let state := s.heap p
  let promptLen := state.promptTokens.length
  let frontier := lookup.prefixHitBlocks * s.kv.pool.blockSize
  let fresh := state.generatedTokens.isEmpty
  let inPrompt := if fresh then 0 else state.generatedTokens.length - 1
  let cursor : SequenceScheduleCursor :=
    if 0 < frontier ∧ frontier < promptLen then
      ⟨if fresh then .prefill else .replayPrefill, frontier, inPrompt⟩
    else if promptLen ≤ frontier then
      ⟨if fresh then .bootstrap else .decode, promptLen, inPrompt⟩
    else ⟨.prefill, 0, inPrompt⟩
  let seq := s.nextSeqId
  let sc : SequenceSchedulingState :=
    { seqId := seq
      cursor := cursor
      blockTable := lookup.blockTable
      executedFrontier := frontier
      parentHash := lookup.parentHash
      hitBlocks := lookup.prefixHitBlocks
      admittedGenerated := state.generatedTokens.length }
  { s.setScheduling p (some sc) with
    nextSeqId := seq + 1
    bySeqId := Function.update s.bySeqId seq (some p)
    running := s.running ++ [p]
    hitTokens := Function.update s.hitTokens seq (state.promptTokens.take frontier)
    trace := s.trace ++
      [.admitted p seq lookup.prefixHitBlocks state.generatedTokens.length] }

/-- `Scheduler::admit_one_waiting`. -/
def admitOneWaiting (s : Scheduler) (ctx : BatchBuildContext) :
    Bool × Scheduler × BatchBuildContext :=
  match s.waiting with
  | [] => (false, s, ctx)
  | p :: rest =>
    if ctx.tokenBudget = 0 ∨ s.config.maxRunningRequests ≤ s.running.length ∨
        s.config.maxSequences ≤ s.running.length + s.skip.length then (false, s, ctx)
    else
      let s : Scheduler := { s with waiting := rest }
      let state : RequestState := s.heap p
      if state.status = .cancelled then
        (true, ((s.sendEvent p (.error .requestCancelled)).2).eraseRequest p, ctx)
      else if state.sampling.maxTokens ≤ 0 then
        (true, ((s.sendEvent p (.ok { hasToken := false, finished := true })).2).eraseRequest p,
          ctx)
      else
        let s := s.assert state.scheduling.isNone .admitUnscheduled
        let promptLen : Nat := state.promptTokens.length
        let blockSize := s.kv.pool.blockSize
        let capacity := s.kv.pool.maxBlocks * blockSize
        if promptLen = 0 ∨ state.maxContextLen < promptLen ∨
          (capacity : Int) < state.maxContextLen ∨
            capacity < promptLen then
          (true, ((s.sendEvent p (.error .invalidArgument)).2).eraseRequest p, ctx)
        else
          let (lookup, kv) := s.kv.lookupPrefixCache state.promptTokens
          let s : Scheduler := { s with kv := kv }
          let blocksNeeded := blockCount promptLen blockSize
          let missingBlocks : Int := blocksNeeded - lookup.blockTable.length
          let (allocated, s) :=
            if 0 < missingBlocks then s.allocateKvBlocks missingBlocks.toNat else (.ok [], s)
          match allocated with
          | .error err =>
            let s := s.releaseRequestBlocks lookup.blockTable
            if err = .kvBlockExhausted then
              let s := s.relieveShortage
              (false, { s with blockShortagePending := false, waiting := p :: s.waiting }, ctx)
            else (true, ((s.sendEvent p (.error err)).2).eraseRequest p, ctx)
          | .ok blocks =>
            let lookup := { lookup with blockTable := lookup.blockTable ++ blocks }
            let (accepting, s) := s.loadAccepting
            if !accepting then
              let s := s.releaseRequestBlocks lookup.blockTable
              (true, ((s.sendEvent p (.error .serverShuttingDown)).2).eraseRequest p, ctx)
            else
              let (s, ctx) := (s.materialize p lookup).buildStateWork ctx p
              (true, s, ctx)

/-- The admission loop of `Scheduler::schedule_step`. -/
def admissionLoop (s : Scheduler) (ctx : BatchBuildContext) :
    Nat → Scheduler × BatchBuildContext
  | 0 => (s, ctx)
  | fuel + 1 =>
    let (accepting, s) := s.loadAccepting
    if accepting && !s.admissionPaused && decide (0 < ctx.tokenBudget) &&
        decide (s.running.length < s.config.maxRunningRequests) &&
        (!s.skip.isEmpty || !s.waiting.isEmpty) then
      match s.admitOneSkipped ctx with
      | (true, s, ctx) => s.admissionLoop ctx fuel
      | (false, s, ctx) =>
        if s.waiting.isEmpty then (s, ctx)
        else
          match s.admitOneWaiting ctx with
          | (true, s, ctx) => s.admissionLoop ctx fuel
          | (false, s, ctx) => (s, ctx)
    else (s, ctx)

/-- The part of `Scheduler::schedule_step` that builds work. -/
def buildBatch (s : Scheduler) : Scheduler × BatchBuildContext :=
  let ctx : BatchBuildContext :=
    { batch := { batchId := s.nextBatchId, items := [], sampling := {} }
      tokenBudget := s.config.maxTokenBudget
      samplingSet := false }
  let s := { s with nextBatchId := s.nextBatchId + 1 }
  let s :=
    if s.blockShortagePending then { s with blockShortagePending := false }.relieveShortage else s
  let (s, ctx) := s.buildRunningBatch ctx
  s.admissionLoop ctx (s.skip.length + s.waiting.length + 1)

/-- `Scheduler::schedule_step`: after an admission that paused, an `erase_if` removes the
items of sequences that are no longer indexed. -/
def scheduleStep (s : Scheduler) : Scheduler × ScheduledBatch :=
  let (s, ctx) := s.buildBatch
  let items :=
    if s.admissionPaused then
      ctx.batch.items.filter (fun item => (s.bySeqId item.seqId).isSome)
    else ctx.batch.items
  (s, { ctx.batch with items := items })

end Scheduler

end CcInfer
