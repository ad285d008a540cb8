import CcInfer.Abstract.World
import CcInfer.Proofs.Kv.Invariant

/-!
# `CcInfer.Abstract.Step`: the transactions

`World` and `World.Step`. Every constructor of `Step` is one complete transaction, with the
tests that the code has made before it as hypotheses. The operations on pool and cache
enter through `KvBlocks.Moves`, except publication, which is a function.
-/

set_option autoImplicit false

namespace CcInfer

variable {p : RequestPtr} {st : RequestState} {sc adv : SequenceSchedulingState} {item : WorkItem}
  {written : List Token} {head : List Obs}

/-- The assertions of `scheduler.cpp` whose failures a world keeps. None of them ever
fails. -/
def AssertSite.tracked : AssertSite → Bool
  | .admitUnscheduled | .eraseUnscheduled | .retireCursor => true
  | _ => false

/-- The data of the engine that the transactions are about. -/
structure World where
  config : ValidConfig
  heap : RequestPtr → RequestState
  nextPtr : RequestPtr
  requests : List (String × RequestPtr)
  waiting : List RequestPtr
  skip : List RequestPtr
  running : List RequestPtr
  bySeqId : SequenceId → Option RequestPtr
  nextSeqId : SequenceId
  kv : KvBlocks
  hitTokens : SequenceId → List Token
  trace : List Obs
  closing : Bool
  trackedAsserts : List AssertSite
  flight : List FlightItem
  latestTokens : SequenceId → Option Token
  failedSequences : SequenceId → Bool
  slots : Nat → Option Token
  fed : SequenceId → List Token
  samples : List Sample

namespace World

/-- A world from a Scheduler, the items in flight and a worker. -/
def of (s : Scheduler) (flight : List FlightItem) (worker : Worker) : World where
  config := s.config
  heap := s.heap
  nextPtr := s.nextPtr
  requests := s.requests
  waiting := s.waiting
  skip := s.skip
  running := s.running
  bySeqId := s.bySeqId
  nextSeqId := s.nextSeqId
  kv := s.kv
  hitTokens := s.hitTokens
  trace := s.trace
  closing := s.shutdownRequested
  trackedAsserts := s.failedAsserts.filter AssertSite.tracked
  flight := flight
  latestTokens := worker.latestTokens
  failedSequences := worker.failedSequences
  slots := worker.slots
  fed := worker.fed
  samples := worker.samples

variable (w : World)

/-- The worker of a world, with an empty log of assertions. -/
def worker : Worker where
  latestTokens := w.latestTokens
  failedSequences := w.failedSequences
  slots := w.slots
  fed := w.fed
  samples := w.samples
  failedAsserts := []

/-- The same world with another worker. -/
def withWorker (k : Worker) : World :=
  { w with
    latestTokens := k.latestTokens
    failedSequences := k.failedSequences
    slots := k.slots
    fed := k.fed
    samples := k.samples }

/-- The request is in one of the queues. -/
abbrev Live (p : RequestPtr) : Prop := p ∈ w.waiting ∨ p ∈ w.skip ∨ p ∈ w.running

/-- The request is scheduled with scheduling state `sc`. -/
abbrev Scheduled (p : RequestPtr) (sc : SequenceSchedulingState) : Prop :=
  (w.heap p).scheduling = some sc

/-- The block table of a request, empty without a scheduling state. -/
def tableOf (p : RequestPtr) : BlockTable :=
  ((w.heap p).scheduling.map (·.blockTable)).getD []

/-- The items in flight of a sequence, oldest first. -/
def itemsOf (seq : SequenceId) : List FlightItem := w.flight.filter (fun f => f.seqId == seq)

/-- Overwrite a request object. -/
def setRequest (p : RequestPtr) (st : RequestState) : World :=
  { w with heap := Function.update w.heap p st }

/-- Append to the log. -/
def log (obs : List Obs) : World := { w with trace := w.trace ++ obs }

end World

/-- What a call of `allocate_kv_blocks` leaves in the log, and the blocks it leaks: all that
were available when these do not suffice. -/
inductive AllocLog : List Obs → BlockTable → Prop
  | none : AllocLog [] []
  | call (n available : Nat) (leak : BlockTable)
      (leak_length : leak.length = if available < n then available else 0) :
      AllocLog [.allocate n available] leak

/-- The event ends the stream of a request. -/
def SinkEvent.terminal : SinkEvent → Bool
  | .ok token => token.finished
  | .error _ => true

/-- The event ends the stream of a request and carries no token. -/
def SinkEvent.closing : SinkEvent → Bool
  | .ok token => token.finished && !token.hasToken
  | .error _ => true

/-- What the worker does to its state when the batch of `item` fails: nothing, or it marks
the sequence, with or without having run the forward pass. -/
inductive WorkerFails (blockSize : Nat) (k : Worker) (item : WorkItem) : Worker → Prop
  | untouched : WorkerFails blockSize k item k
  | marked : WorkerFails blockSize k item (k.failSequences [item])
  | fed (fits : item.Fits blockSize) : WorkerFails blockSize k item
      ((Worker.feedItem blockSize k (k.bindLate item)).failSequences [item])

/-- How the retirement of the last chunk or of a decode advances the scheduling state, which
tokens it takes to be written, and what it logs first. -/
inductive Settles (p : RequestPtr) (st : RequestState) (sc : SequenceSchedulingState) :
    WorkItem → SequenceSchedulingState → List Token → List Obs → Prop
  | last (chunk : PrefillChunk)
      (final : st.promptTokens.length ≤ sc.cursor.prefillCursor + chunk.promptSpan.length) :
      Settles p st sc (.prefill chunk) (sc.advanceChunk chunk st.promptTokens.length) chunk.tokens
        [.finalChunk p chunk.promptSpan.start (WorkItem.prefill chunk).context]
  | decode (work : DecodeOneToken) :
      Settles p st sc (.decode work) (sc.advanceDecode work) st.generatedTokens.getLast?.toList []

section

variable (h : Settles p st sc item adv written head)
include h

/-- What a settling retirement keeps and what it advances. -/
theorem Settles.advanced : adv.seqId = sc.seqId ∧ adv.blockTable = sc.blockTable ∧
    adv.reservation = sc.reservation.retire item ∧
    adv.executedFrontier = max sc.executedFrontier (item.context + item.kvTokenCount) ∧
    adv.pendingHashTokens = sc.pendingHashTokens ∧ adv.hitBlocks = sc.hitBlocks ∧
    adv.admittedGenerated = sc.admittedGenerated := by
  cases h with
  | last => exact ⟨rfl, rfl, rfl, rfl, rfl, rfl, rfl⟩
  | decode => exact ⟨rfl, rfl, rfl, rfl, rfl, rfl, rfl⟩

theorem Settles.parentHash : adv.parentHash = sc.parentHash := by
  cases h <;> rfl

/-- A settling retirement first logs at most the last chunk. -/
theorem Settles.mem_head {o : Obs} (ho : o ∈ head) :
    ∃ start context, o = .finalChunk p start context := by
  cases h with
  | last => exact ⟨_, _, List.mem_singleton.mp ho⟩
  | decode => cases ho

end

/-- The world after the tail of `retire_work` for the front item `f` of `p`: full blocks are
published, the sampled token is appended and sent, and the request may end. -/
def World.settled (w : World) (p : RequestPtr) (f : FlightItem) (token : Token)
    (advanced : SequenceSchedulingState) (written : List Token) (head : List Obs)
    (rest : List FlightItem) : World :=
  let published := w.kv.publishItem advanced f.item written
  { w with
    heap := Function.update w.heap p
      ((w.heap p).retired (published.2.1.leaveBootstrap f.item) f token)
    kv := published.1
    flight := rest
    trace := w.trace ++ (head ++ published.2.2 ++ RequestState.tailObs p (w.heap p) f token) }

/-- The worker after the forward pass of `f`, for which the sampler wrote `token`. -/
def World.processed (w : World) (f : FlightItem) (token : Token) : Worker :=
  (Worker.processItem w.hitTokens w.config.kvBlockSize f.sampling [] w.worker
    (w.worker.bindLate f.item) 0 token).2

/-- The world after `p` has left it. -/
abbrev World.dropped (w : World) (p : RequestPtr) (kv : KvBlocks) (obs : List Obs) : World :=
  { w with
    heap := Function.update w.heap p { w.heap p with scheduling := none }
    waiting := w.waiting.erase p
    skip := w.skip.erase p
    running := w.running.erase p
    requests := w.requests.filter (fun e => e.1 ≠ (w.heap p).requestId)
    bySeqId := match (w.heap p).scheduling with
      | none => w.bySeqId
      | some sc => Function.update w.bySeqId sc.seqId none
    kv := kv
    trace := w.trace ++ obs }

/-- One transaction. -/
inductive World.Step : World → World → Prop
  /-- A note in the log that is about no live request. -/
  | note (w : World) (o : Obs)
      (quiet : ∃ id err, o = .rejected id err) :
      Step w (w.log [o])
  /-- `shutdown_async` requests a shutdown. -/
  | close (w : World) : Step w { w with closing := true }
  /-- `submit_on_scheduler_thread` accepts a request. -/
  | register (w : World) (req : SchedulerRequest)
      (fresh : ∀ e ∈ w.requests, e.1 ≠ req.requestId)
      (room : w.waiting.length < w.config.maxPendingRequests) :
      Step w { w with
        heap := Function.update w.heap w.nextPtr (.ofRequest w.config req)
        nextPtr := w.nextPtr + 1
        requests := w.requests ++ [(req.requestId, w.nextPtr)]
        waiting := w.waiting ++ [w.nextPtr]
        trace := w.trace ++ [.registered w.nextPtr req] }
  /-- The waiting queue is reordered. -/
  | reorder (w : World) (waiting : List RequestPtr) (perm : waiting.Perm w.waiting) :
      Step w { w with waiting := waiting }
  /-- `cancel_on_scheduler_thread`. -/
  | cancel (w : World) (p : RequestPtr) (live : w.Live p)
      (active : (w.heap p).status = .active) :
      Step w ((w.setRequest p { w.heap p with status := .cancelled }).log
        [.statusSet p .cancelled])
  /-- The client drops its channel. -/
  | expire (w : World) (p : RequestPtr) :
      Step w (w.setRequest p { w.heap p with sinkExpired := true })
  /-- `send_terminal_event` outside of retirement. -/
  | finish (w : World) (p : RequestPtr) (sc : SequenceSchedulingState)
      (running : p ∈ w.running) (scheduled : w.Scheduled p sc)
      (active : (w.heap p).status = .active) (reason : (w.heap p).FinishReason sc) :
      Step w ((w.setRequest p { w.heap p with status := .finished }).log
        [.statusSet p .finished, .sent p (.ok { hasToken := false, finished := true })])
  /-- Blocks are taken and given back, and possibly leaked, without a change of owner. -/
  | blocks (w : World) (kv : KvBlocks) (obs : List Obs) (leak : BlockTable)
      (moves : w.kv.Moves kv [] [] leak) (logged : AllocLog obs leak) :
      Step w ({ w with kv := kv }.log obs)
  /-- A decode needs blocks and gets them. -/
  | grow (w : World) (p : RequestPtr) (sc : SequenceSchedulingState) (kv : KvBlocks)
      (obs : List Obs) (blocks : BlockTable) (running : p ∈ w.running)
      (scheduled : w.Scheduled p sc) (active : (w.heap p).status = .active)
      (phase : sc.cursor.phase.isPrefill = false)
      (moves : w.kv.Moves kv blocks [] []) (uncached : ∀ b ∈ blocks, kv.cache.byBlock b = none)
      (logged : AllocLog obs []) :
      Step w (({ w with kv := kv }.setRequest p
        { w.heap p with scheduling := some { sc with blockTable := sc.blockTable ++ blocks } }).log
        obs)
  /-- `build_state_work` dispatches an item. -/
  | dispatch (w : World) (p : RequestPtr) (sc : SequenceSchedulingState) (item : WorkItem)
      (sampling : SamplingParams) (running : p ∈ w.running) (scheduled : w.Scheduled p sc)
      (active : (w.heap p).status = .active)
      (itemFor : ItemFor (w.heap p) sc w.kv.pool.blockSize item)
      (shared : ∃ q, q < w.nextPtr ∧ sampling = (w.heap q).sampling) :
      Step w { w.setRequest p
          { w.heap p with
            scheduling := some { sc with reservation := sc.reservation.reserve item } }
        with
          flight := w.flight ++ [⟨item, sampling, .pending⟩]
          trace := w.trace ++ [.dispatched item] }
  /-- `admit_one_waiting` succeeds over the prefix hits `hits` and new blocks. -/
  | admission (w : World) (p : RequestPtr) (rest : List RequestPtr) (kv : KvBlocks)
      (hits : List BlockCacheEntry) (parent : Hash) (blocks : BlockTable) (obs : List Obs)
      (front : w.waiting = p :: rest)
      (admissible : (w.heap p).Admissible w.kv.pool.maxBlocks w.kv.pool.blockSize)
      (hashes : hits.map (·.prefixHash) <+:
        PrefixCache.chainHashes (w.heap p).promptTokens w.kv.pool.blockSize 0)
      (cached : ∀ e ∈ hits, w.kv.cache.byBlock e.blockId = some e)
      (moves : w.kv.Moves kv (hits.map (·.blockId) ++ blocks) [] [])
      (blocks_length : hits.length + blocks.length = max hits.length
        (Scheduler.blockCount (w.heap p).promptTokens.length w.kv.pool.blockSize).toNat)
      (uncached : ∀ b ∈ blocks, kv.cache.byBlock b = none) (logged : AllocLog obs [])
      (chained : parent = (hits.map (·.prefixHash)).getLast?.getD 0)
      (room : w.running.length < w.config.maxRunningRequests ∧
        w.running.length + w.skip.length < w.config.maxSequences)
      (held : ∀ e ∈ hits, kv.cache.byBlock e.blockId = some e) :
      Step w { w with
        waiting := rest
        running := w.running ++ [p]
        heap := Function.update w.heap p
          { w.heap p with scheduling := some ((w.heap p).admitScheduling w.kv.pool.blockSize
              w.nextSeqId ⟨hits.map (·.blockId) ++ blocks, hits.length, parent⟩) }
        bySeqId := Function.update w.bySeqId w.nextSeqId (some p)
        nextSeqId := w.nextSeqId + 1
        kv := kv
        hitTokens := Function.update w.hitTokens w.nextSeqId
          ((w.heap p).promptTokens.take (hits.length * w.kv.pool.blockSize))
        trace := w.trace ++ (obs ++
          [.admitted p w.nextSeqId hits.length (w.heap p).generatedTokens.length]) }
  /-- `admit_one_skipped` puts a preempted request back into `running_`. -/
  | resume (w : World) (p : RequestPtr) (rest : List RequestPtr) (sc : SequenceSchedulingState)
      (front : w.skip = p :: rest) (scheduled : w.Scheduled p sc)
      (active : (w.heap p).status = .active)
      (room : w.running.length < w.config.maxRunningRequests) :
      Step w { w with
        skip := rest
        running := w.running ++ [p]
        bySeqId := Function.update w.bySeqId sc.seqId (some p) }
  /-- `preempt_one_for_admission` moves an idle running request to `skip_`. -/
  | preempt (w : World) (p : RequestPtr) (sc : SequenceSchedulingState)
      (running : p ∈ w.running) (scheduled : w.Scheduled p sc)
      (active : (w.heap p).status = .active) (idle : sc.reservation.executionLeases = 0) :
      Step w { w with
        running := w.running.erase p
        skip := p :: w.skip
        bySeqId := Function.update w.bySeqId sc.seqId none }
  /-- A scheduled request gives its blocks back and waits again. -/
  | park (w : World) (p : RequestPtr) (sc : SequenceSchedulingState) (kv : KvBlocks)
      (scheduled : w.Scheduled p sc) (idle : sc.reservation.executionLeases = 0)
      (source : p ∈ w.skip ∨ (p ∈ w.running ∧ (w.heap p).status = .active))
      (moves : w.kv.Moves kv [] sc.blockTable []) :
      Step w { w with
        heap := Function.update w.heap p (w.heap p).parked
        skip := w.skip.erase p
        running := w.running.erase p
        waiting := p :: w.waiting
        bySeqId := Function.update w.bySeqId sc.seqId none
        kv := kv
        trace := w.trace ++ [.suspended p] }
  /-- A request leaves the engine: with a last event from `waiting_` or `skip_`, or silently
  after it stopped being active. Before a shutdown the executor is told to release the
  sequence. -/
  | drop (w : World) (p : RequestPtr) (kv : KvBlocks) (event : Option SinkEvent)
      (live : w.Live p)
      (idle : ∀ sc, w.Scheduled p sc → sc.reservation.executionLeases = 0)
      (last : ∀ e, event = some e → e.closing = true ∧ (p ∈ w.waiting ∨ p ∈ w.skip))
      (silent : event = none → (w.heap p).status ≠ .active)
      (moves : w.kv.Moves kv [] (w.tableOf p) []) (notes : List Obs)
      (released : notes = (w.heap p).releaseNotes ∨ (notes = [] ∧ w.closing = true)) :
      Step w (w.dropped p kv (notes ++ ((event.map (Obs.sent p)).toList ++ [.erased p])))
  /-- `send_error_event` to a running request. -/
  | fail (w : World) (p : RequestPtr) (err : ErrorCode) (running : p ∈ w.running)
      (active : (w.heap p).status = .active) :
      Step w ((w.setRequest p { w.heap p with status := .failed }).log
        [.statusSet p .failed, .sent p (.error err)])
  /-- An item is retired and its result is ignored. -/
  | discard (w : World) (before after : List FlightItem) (f : FlightItem) (p : RequestPtr)
      (sc : SequenceSchedulingState) (split : w.flight = before ++ f :: after)
      (running : p ∈ w.running) (scheduled : w.Scheduled p sc) (seq : sc.seqId = f.seqId)
      (ignored : (w.heap p).status ≠ .active ∨ (before = [] ∧ f.fate = .stale)) :
      Step w { w.setRequest p
          { w.heap p with
            scheduling := some { sc with reservation := sc.reservation.retire f.item } }
        with flight := before ++ after }
  /-- A chunk before the last one is retired. -/
  | retireChunk (w : World) (rest : List FlightItem) (chunk : PrefillChunk)
      (sampling : SamplingParams) (token : Token) (p : RequestPtr)
      (sc : SequenceSchedulingState)
      (front : w.flight = ⟨.prefill chunk, sampling, .done token⟩ :: rest)
      (running : p ∈ w.running) (scheduled : w.Scheduled p sc) (seq : sc.seqId = chunk.seqId)
      (active : (w.heap p).status = .active)
      (more : sc.cursor.prefillCursor + chunk.promptSpan.length <
        (w.heap p).promptTokens.length) :
      Step w { w.setRequest p
          { w.heap p with
            scheduling := some (sc.advanceChunk chunk (w.heap p).promptTokens.length) }
        with flight := rest }
  /-- The last chunk of a prompt or a decode is retired. -/
  | retire (w : World) (rest : List FlightItem) (item : WorkItem) (sampling : SamplingParams)
      (token : Token) (p : RequestPtr) (sc advanced : SequenceSchedulingState)
      (written : List Token) (head : List Obs)
      (front : w.flight = ⟨item, sampling, .done token⟩ :: rest)
      (running : p ∈ w.running) (scheduled : w.Scheduled p sc) (seq : sc.seqId = item.seqId)
      (active : (w.heap p).status = .active)
      (settles : Settles p (w.heap p) sc item advanced written head) :
      Step w (w.settled p ⟨item, sampling, .done token⟩ token advanced written head rest)
  /-- The worker runs the forward pass for an item of a live sequence. -/
  | process (w : World) (before after : List FlightItem) (f : FlightItem) (token : Token)
      (split : w.flight = before ++ f :: after) (oldest : ∀ g ∈ before, g.fate ≠ .pending)
      (pending : f.fate = .pending) (live : w.failedSequences f.seqId = false)
      (fits : f.item.Fits w.config.kvBlockSize) :
      Step w { w.withWorker (w.processed f token)
        with flight := before ++ { f with fate := .done token } :: after }
  /-- The worker finds that the sequence of an item has failed. -/
  | skipStale (w : World) (before after : List FlightItem) (f : FlightItem)
      (split : w.flight = before ++ f :: after) (oldest : ∀ g ∈ before, g.fate ≠ .pending)
      (pending : f.fate = .pending) (failed : w.failedSequences f.seqId = true) :
      Step w { w with flight := before ++ { f with fate := .stale } :: after }
  /-- The batch of an item fails in the worker. -/
  | processFail (w : World) (before after : List FlightItem) (f : FlightItem)
      (err : ErrorCode) (k : Worker)
      (split : w.flight = before ++ f :: after) (oldest : ∀ g ∈ before, g.fate ≠ .pending)
      (pending : f.fate = .pending) (fails : WorkerFails w.config.kvBlockSize w.worker f.item k) :
      Step w { w.withWorker k with flight := before ++ { f with fate := .failed err } :: after }

/-! ### Runs under a shutdown -/

/-- The world in which a shutdown is under way if `c`. -/
def World.shutIf (w : World) (c : Bool) : World := { w with closing := c || w.closing }

/-- A shutdown forbids no transaction. -/
theorem World.Step.shutIf {w w' : World} (c : Bool) (t : World.Step w w') :
    World.Step (w.shutIf c) (w'.shutIf c) := by
  cases t with
  | note o quiet => exact .note _ o quiet
  | close =>
    have heq : { w with closing := true }.shutIf c = { w.shutIf c with closing := true } := by
      simp [World.shutIf]
    rw [heq]
    exact .close _
  | register req fresh room => exact .register (w.shutIf c) req fresh room
  | reorder waiting perm => exact .reorder _ waiting perm
  | cancel p live active => exact .cancel (w.shutIf c) p live active
  | expire p => exact .expire (w.shutIf c) p
  | finish p sc running scheduled active reason =>
    exact .finish (w.shutIf c) p sc running scheduled active reason
  | blocks kv obs leak moves logged => exact .blocks (w.shutIf c) kv obs leak moves logged
  | grow p sc kv obs blocks running scheduled active phase moves uncached logged =>
    exact .grow (w.shutIf c) p sc kv obs blocks running scheduled active phase moves uncached logged
  | dispatch p sc item sampling running scheduled active itemFor shared =>
    exact .dispatch (w.shutIf c) p sc item sampling running scheduled active itemFor shared
  | admission p rest kv hits parent blocks obs front admissible hashes cached moves blocks_length
      uncached logged chained room held =>
    exact .admission (w.shutIf c) p rest kv hits parent blocks obs front admissible hashes cached
      moves blocks_length uncached logged chained room held
  | resume p rest sc front scheduled active room =>
    exact .resume (w.shutIf c) p rest sc front scheduled active room
  | preempt p sc running scheduled active idle =>
    exact .preempt (w.shutIf c) p sc running scheduled active idle
  | park p sc kv scheduled idle source moves =>
    exact .park (w.shutIf c) p sc kv scheduled idle source moves
  | drop p kv event live idle last silent moves notes released =>
    refine .drop (w.shutIf c) p kv event live idle last silent moves notes ?_
    exact released.imp_right fun ⟨hnotes, hclosing⟩ =>
      ⟨hnotes, by rw [World.shutIf, hclosing, Bool.or_true]⟩
  | fail p err running active => exact .fail (w.shutIf c) p err running active
  | discard before after f p sc split running scheduled seq ignored =>
    exact .discard (w.shutIf c) before after f p sc split running scheduled seq ignored
  | retireChunk rest chunk sampling token p sc front running scheduled seq active more =>
    exact .retireChunk (w.shutIf c) rest chunk sampling token p sc front running scheduled seq
      active more
  | retire rest item sampling token p sc advanced written head front running scheduled seq active
      settles =>
    exact .retire (w.shutIf c) rest item sampling token p sc advanced written head front running
      scheduled seq active settles
  | process before after f token split oldest pending live fits =>
    exact .process (w.shutIf c) before after f token split oldest pending live fits
  | skipStale before after f split oldest pending failed =>
    exact .skipStale (w.shutIf c) before after f split oldest pending failed
  | processFail before after f err k split oldest pending fails =>
    exact .processFail (w.shutIf c) before after f err k split oldest pending fails

end CcInfer
