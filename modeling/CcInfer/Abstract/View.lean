import CcInfer.Abstract.Step
import CcInfer.Proofs.Kv.Publish

/-!
# `CcInfer.Abstract.View`: the life of one request

What a request goes through does not depend on the other requests, apart from which blocks
it is given. A `View` collects the data of one request: its object, its items in flight,
what the worker knows about its sequence, and its part of the log. `View.Step` restates the
transactions on a view alone. A property of a request is proved over `View.Step`
once, and `CcInfer.Invariant.Views` transfers it to worlds.
-/

set_option autoImplicit false

namespace CcInfer

variable {blockSize : Nat} {item : WorkItem}

/-- The observation is about the request at `p`. -/
def Obs.about (p : RequestPtr) : Obs → Bool
  | .registered q _ | .sent q _ | .statusSet q _ | .admitted q _ _ _ | .suspended q
  | .finalChunk q _ _ | .erased q => q == p
  | .rejected _ _ | .allocate _ _ | .dispatched _ | .published _ _ _ _ | .releasedSequence _ =>
    false

/-- The data of one request. -/
structure View where
  /-- The request object. -/
  req : RequestState
  /-- Its items in flight, oldest first. -/
  items : List FlightItem
  /-- The tokens whose KV its sequence has: those of the prefix hits, then those fed. -/
  known : List Token
  /-- The worker's entry in `latest_tokens_`. -/
  latest : Option Token
  /-- Whether the worker has marked the sequence as failed. -/
  failed : Bool
  /-- Its part of the log. -/
  log : List Obs

/-- The view of the request at `p`. -/
def World.view (w : World) (p : RequestPtr) : View :=
  match (w.heap p).scheduling with
  | none => ⟨w.heap p, [], [], none, false, w.trace.filter (Obs.about p)⟩
  | some sc =>
    ⟨w.heap p, w.itemsOf sc.seqId, w.hitTokens sc.seqId ++ w.fed sc.seqId,
      w.latestTokens sc.seqId, w.failedSequences sc.seqId, w.trace.filter (Obs.about p)⟩

/-- `resolve_batch` on one item, given the latest token of its sequence. -/
def WorkItem.bind (latest : Option Token) : WorkItem → WorkItem
  | .prefill work => .prefill work
  | .decode work =>
    if work.lateBind then
      .decode { work with inputToken := latest.getD work.inputToken, lateBind := false }
    else .decode work

/-- The latest token of a sequence after a processed item. -/
def WorkItem.latestAfter (item : WorkItem) (latest : Option Token) (token : Token) :
    Option Token :=
  if item.samples then some token
  else
    match item with
    | .prefill work => work.tokens.getLast?.or latest
    | .decode _ => latest

/-- The known tokens of a sequence after the forward pass of a bound item. -/
def WorkItem.knownAfter (item : WorkItem) (known : List Token) : List Token :=
  if 0 < item.kvTokenCount then known ++ item.tokenIds else known

namespace WorkItem

variable (item : WorkItem) (latest : Option Token)

/-- Binding changes the token of a decode and its flag only. -/
@[simp] theorem bind_frame : (item.bind latest).seqId = item.seqId ∧
    (item.bind latest).samples = item.samples ∧ (item.bind latest).kind = item.kind ∧
    (item.bind latest).tokenCount = item.tokenCount ∧
    (item.bind latest).kvTokenCount = item.kvTokenCount ∧
    (item.bind latest).context = item.context ∧ (item.bind latest).position = item.position ∧
    (item.bind latest).blockTable = item.blockTable ∧
    ∀ old token, (item.bind latest).latestAfter old token = item.latestAfter old token := by
  cases item with
  | prefill => exact ⟨rfl, rfl, rfl, rfl, rfl, rfl, rfl, rfl, fun _ _ => rfl⟩
  | decode work =>
    simp only [bind]
    split <;> exact ⟨rfl, rfl, rfl, rfl, rfl, rfl, rfl, rfl, fun _ _ => rfl⟩

theorem knownAfter_append (seed known : List Token) :
    item.knownAfter (seed ++ known) = seed ++ item.knownAfter known := by
  unfold knownAfter
  split
  · rw [List.append_assoc]
  · rfl

end WorkItem

namespace Worker

theorem bindLate_eq (k : Worker) (item : WorkItem) :
    k.bindLate item = item.bind (k.latestTokens item.seqId) := by
  cases item <;> rfl

/-- `feedItem` records the tokens of the item for its own sequence. -/
theorem feedItem_fields (blockSize : Nat) (k : Worker) (item : WorkItem) :
    (feedItem blockSize k item).latestTokens = k.latestTokens ∧
    (feedItem blockSize k item).failedSequences = k.failedSequences ∧
    (feedItem blockSize k item).samples = k.samples ∧ (feedItem blockSize k item).fed =
      Function.update k.fed item.seqId (item.knownAfter (k.fed item.seqId)) := by
  unfold feedItem WorkItem.knownAfter
  split
  · exact ⟨rfl, rfl, rfl, rfl⟩
  · simp

/-- `updateLatest` records the sampled token, or the last token of a chunk. -/
theorem updateLatest_eq (k : Worker) (sampling : SamplingParams) (index : Nat) (item : WorkItem)
    (token : Token) :
    k.updateLatest item (itemResult sampling index item token) =
      { k with
        latestTokens := Function.update k.latestTokens item.seqId
          (item.latestAfter (k.latestTokens item.seqId) token) } := by
  cases hs : item.samples with
  | true => simp [updateLatest, itemResult, hs, WorkItem.latestAfter]
  | false =>
    cases item with
    | decode => simp [WorkItem.samples] at hs
    | prefill work =>
      simp only [updateLatest, itemResult, hs, WorkItem.latestAfter, WorkItem.seqId]
      rcases hl : work.tokens.getLast? with _ | t <;> simp

/-- `processItem` changes data of its own sequence, and logs the sample it drew. -/
theorem processItem_fields (seed : SequenceId → List Token) (blockSize index : Nat)
    (sampling : SamplingParams) (k : Worker) (item : WorkItem) (token : Token) :
    let k' := (processItem seed blockSize sampling [] k item index token).2
    k'.latestTokens = Function.update k.latestTokens item.seqId
      (item.latestAfter (k.latestTokens item.seqId) token) ∧
    k'.failedSequences = k.failedSequences ∧
    k'.fed = Function.update k.fed item.seqId (item.knownAfter (k.fed item.seqId)) ∧
    k'.samples = k.samples ++
      (if item.samples then [⟨item.seqId, k.contextOf seed item, token⟩] else []) ∧
    k'.slots = (feedItem blockSize k item).slots := by
  simp only [processItem, List.getD_nil, updateLatest_eq]
  have hfeed : ∀ samples, (feedItem blockSize { k with samples := samples } item).slots =
      (feedItem blockSize k item).slots := by
    intro samples
    unfold feedItem
    split <;> rfl
  cases hs : item.samples <;> simp [feedItem_fields, hfeed]

end Worker

/-- The worker after the forward pass of an item, field by field. -/
theorem World.processed_fields (w : World) (f : FlightItem) (token : Token) :
    (w.processed f token).latestTokens = Function.update w.latestTokens f.seqId
      (f.item.latestAfter (w.latestTokens f.seqId) token) ∧
    (w.processed f token).failedSequences = w.failedSequences ∧
    (w.processed f token).fed = Function.update w.fed f.seqId
      ((f.item.bind (w.latestTokens f.seqId)).knownAfter (w.fed f.seqId)) ∧
    (w.processed f token).samples = w.samples ++ (if f.item.samples then
        [⟨f.seqId, w.worker.contextOf w.hitTokens (f.item.bind (w.latestTokens f.seqId)), token⟩]
      else []) ∧ (w.processed f token).slots = (Worker.feedItem w.config.kvBlockSize w.worker
      (f.item.bind (w.latestTokens f.seqId))).slots := by
  have h := Worker.processItem_fields w.hitTokens w.config.kvBlockSize 0 f.sampling w.worker
    (f.item.bind (w.latestTokens f.seqId)) token
  simp only [WorkItem.bind_frame] at h
  have hbind : w.worker.bindLate f.item = f.item.bind (w.latestTokens f.seqId) :=
    Worker.bindLate_eq ..
  unfold World.processed
  rw [hbind]
  exact h

/-- A failing batch touches the mark and the fed tokens of the sequences of its items, and
never takes a mark back. -/
theorem WorkerFails.fields {k k' : Worker} (h : WorkerFails blockSize k item k') :
    k'.latestTokens = k.latestTokens ∧ k'.samples = k.samples ∧ (∀ seq, seq ≠ item.seqId →
      k'.failedSequences seq = k.failedSequences seq ∧ k'.fed seq = k.fed seq) ∧
    ∀ seq, k.failedSequences seq = true → k'.failedSequences seq = true := by
  have hmark : ∀ (k : Worker) seq, (k.failSequences [item]).failedSequences seq =
      (k.failedSequences seq || item.seqId == seq) := by
    intro k seq
    simp [Worker.failSequences]
  cases h with
  | untouched => exact ⟨rfl, rfl, fun _ _ => ⟨rfl, rfl⟩, fun _ h => h⟩
  | marked =>
    refine ⟨rfl, rfl, fun seq hne => ⟨?_, rfl⟩, fun seq hseq => ?_⟩
    · rw [hmark]; simp [Ne.symm hne]
    · rw [hmark, hseq, Bool.true_or]
  | fed =>
    obtain ⟨h1, h2, h3, h4⟩ := Worker.feedItem_fields blockSize k (k.bindLate item)
    rw [Worker.bindLate_eq] at *
    refine ⟨h1, h3, fun seq hne => ⟨?_, ?_⟩, fun seq hseq => ?_⟩
    · rw [hmark, h2]; simp [Ne.symm hne]
    · exact (congrFun h4 seq).trans (by simp only [WorkItem.bind_frame, Function.update_of_ne hne])
    · rw [hmark, h2, hseq, Bool.true_or]

/-- What publication leaves of the advanced scheduling state. -/
structure Published (blockSize : Nat) (item : WorkItem) (written : List Token)
    (advanced sc : SequenceSchedulingState) : Prop where
  plan : SamePlan advanced sc
  idle : item.kvTokenCount = 0 → sc.pendingHashTokens = advanced.pendingHashTokens
  pending : 0 < item.kvTokenCount → ∃ n,
    n * blockSize ≤ (advanced.pendingHashTokens ++ written).length ∧
    sc.pendingHashTokens = (advanced.pendingHashTokens ++ written).drop (n * blockSize)
  short : 0 < item.kvTokenCount → 0 < blockSize → sc.pendingHashTokens.length < blockSize
  chained : 0 < blockSize → sc.parentHash = PrefixCache.hashBlock advanced.parentHash
    (if 0 < item.kvTokenCount then
      (advanced.pendingHashTokens ++ written).take
        ((advanced.pendingHashTokens ++ written).length - sc.pendingHashTokens.length)
    else [])

/-- The code's publication, seen from one request. -/
theorem KvBlocks.publishItem_published (kv : KvBlocks) (sc : SequenceSchedulingState)
    (item : WorkItem) (written : List Token) :
    Published kv.pool.blockSize item written sc (kv.publishItem sc item written).2.1 := by
  refine ⟨kv.publishItem_plan sc item written, fun h => ?_, fun h => ?_, fun h hbs => ?_,
    fun hbs => kv.publishItem_parentHash hbs sc item written⟩
  · simp [publishItem, h]
  · simp only [publishItem, if_pos h]
    obtain ⟨-, -, n, hn, hpending, -⟩ := publishAll_plan (sc.pendingHashTokens ++ written).length kv
      { sc with pendingHashTokens := sc.pendingHashTokens ++ written }
      ((item.context - sc.pendingHashTokens.length) / kv.pool.blockSize)
    exact ⟨n, hn, hpending⟩
  · simp only [publishItem, if_pos h]
    exact publishAll_pending_lt kv hbs _ kv _ _ rfl le_rfl

/-- What publication and the end of the Bootstrap phase leave of a scheduling state. -/
structure SameSequence (sc sc' : SequenceSchedulingState) : Prop where
  seqId : sc'.seqId = sc.seqId
  blockTable : sc'.blockTable = sc.blockTable
  hitBlocks : sc'.hitBlocks = sc.hitBlocks
  admittedGenerated : sc'.admittedGenerated = sc.admittedGenerated

/-- A retirement leaves the identity of a sequence alone. -/
theorem Settles.sequence {p : RequestPtr} {st : RequestState}
    {sc advanced published : SequenceSchedulingState} {written : List Token}
    {head : List Obs} (h : Settles p st sc item advanced written head)
    (publish : Published blockSize item written advanced published) :
    SameSequence sc (published.leaveBootstrap item) := by
  obtain ⟨hseq, htable, -, -, -, hhits, hadmitted⟩ := h.advanced
  constructor
  · simp only [SequenceSchedulingState.leaveBootstrap_frame, publish.plan.seqId, hseq]
  · simp only [SequenceSchedulingState.leaveBootstrap_frame, publish.plan.blockTable, htable]
  · simp only [SequenceSchedulingState.leaveBootstrap_frame, publish.plan.hitBlocks, hhits]
  · simp only [SequenceSchedulingState.leaveBootstrap_frame, publish.plan.admittedGenerated,
      hadmitted]

/-- A request under a new scheduling state. -/
abbrev View.admitted (blockSize : Nat) (req : RequestState) (seq : SequenceId) (hits : Nat)
    (parent : Hash) (table : BlockTable) (log : List Obs) : View where
  req := { req with
    scheduling := some (req.admitScheduling blockSize seq ⟨table, hits, parent⟩) }
  items := []
  known := req.promptTokens.take (hits * blockSize)
  latest := none
  failed := false
  log := log

/-- A request after the retirement of a chunk that leaves prompt to process. -/
abbrev View.chunkRetired (v : View) (sc : SequenceSchedulingState) (chunk : PrefillChunk)
    (rest : List FlightItem) : View :=
  { v with
    req := { v.req with scheduling := some (sc.advanceChunk chunk v.req.promptTokens.length) }
    items := rest }

section

variable (p : RequestPtr) (maxBlocks blockSize : Nat) (sampler : List Token → Token → Prop)
  (params : SamplingParams → Prop)

/-- One transaction of the request at `p`. -/
inductive View.Step : View → View → Prop
  | expire (v : View) :
      Step v
        { v with req := { v.req with sinkExpired := true } }
  | cancel (v : View) (active : v.req.status = .active) :
      Step v
        { v with
          req := { v.req with status := .cancelled }
          log := v.log ++ [.statusSet p .cancelled] }
  | finish (v : View) (sc : SequenceSchedulingState) (scheduled : v.req.scheduling = some sc)
      (active : v.req.status = .active) (reason : v.req.FinishReason sc) :
      Step v
        { v with
          req := { v.req with status := .finished }
          log := v.log ++
            [.statusSet p .finished, .sent p (.ok { hasToken := false, finished := true })] }
  | grow (v : View) (sc : SequenceSchedulingState) (blocks : BlockTable)
      (scheduled : v.req.scheduling = some sc) (active : v.req.status = .active)
      (phase : sc.cursor.phase.isPrefill = false) :
      Step v
        { v with req :=
          { v.req with scheduling := some { sc with blockTable := sc.blockTable ++ blocks } } }
  | dispatch (v : View) (sc : SequenceSchedulingState) (item : WorkItem)
      (sampling : SamplingParams) (scheduled : v.req.scheduling = some sc)
      (active : v.req.status = .active) (itemFor : ItemFor v.req sc blockSize item)
      (shared : params sampling) :
      Step v
        { v with
          req := { v.req with
            scheduling := some { sc with reservation := sc.reservation.reserve item } }
          items := v.items ++ [⟨item, sampling, .pending⟩] }
  | admission (v : View) (seq : SequenceId) (hits : Nat) (parent : Hash) (table : BlockTable)
      (admissible : v.req.Admissible maxBlocks blockSize)
      (hits_le : hits * blockSize ≤ v.req.promptTokens.length)
      (table_length : table.length =
        max hits (Scheduler.blockCount v.req.promptTokens.length blockSize).toNat)
      (chained : parent =
        PrefixCache.hashBlock 0 (v.req.promptTokens.take (hits * blockSize))) :
      Step v
        (.admitted blockSize v.req seq hits parent table
          (v.log ++ [.admitted p seq hits v.req.generatedTokens.length]))
  | park (v : View) (sc : SequenceSchedulingState) (scheduled : v.req.scheduling = some sc)
      (idle : sc.reservation.executionLeases = 0)
      (status : v.req.status = .active ∨ v.req.status = .cancelled) :
      Step v
        ⟨v.req.parked, [], [], none, false, v.log ++ [.suspended p]⟩
  | drop (v : View) (event : Option SinkEvent)
      (idle : ∀ sc, v.req.scheduling = some sc → sc.reservation.executionLeases = 0)
      (last : ∀ e, event = some e → e.closing = true ∧
        (v.req.status = .active ∨ v.req.status = .cancelled))
      (silent : event = none → v.req.status ≠ .active) :
      Step v
        ⟨{ v.req with scheduling := none }, [], [], none, false,
          v.log ++ ((event.map (Obs.sent p)).toList ++ [.erased p])⟩
  | fail (v : View) (err : ErrorCode) (active : v.req.status = .active) :
      Step v
        { v with
          req := { v.req with status := .failed }
          log := v.log ++ [.statusSet p .failed, .sent p (.error err)] }
  | discard (v : View) (before after : List FlightItem) (f : FlightItem)
      (sc : SequenceSchedulingState) (split : v.items = before ++ f :: after)
      (scheduled : v.req.scheduling = some sc)
      (ignored : v.req.status ≠ .active ∨ (before = [] ∧ f.fate = .stale)) :
      Step v
        { v with
          req := { v.req with
            scheduling := some { sc with reservation := sc.reservation.retire f.item } }
          items := before ++ after }
  | retireChunk (v : View) (rest : List FlightItem) (chunk : PrefillChunk)
      (sampling : SamplingParams) (token : Token) (sc : SequenceSchedulingState)
      (front : v.items = ⟨.prefill chunk, sampling, .done token⟩ :: rest)
      (scheduled : v.req.scheduling = some sc) (active : v.req.status = .active)
      (more : sc.cursor.prefillCursor + chunk.promptSpan.length < v.req.promptTokens.length) :
      Step v (v.chunkRetired sc chunk rest)
  | retire (v : View) (rest : List FlightItem) (item : WorkItem) (sampling : SamplingParams)
      (token : Token) (sc advanced published : SequenceSchedulingState) (written : List Token)
      (head : List Obs)
      (front : v.items = ⟨item, sampling, .done token⟩ :: rest)
      (scheduled : v.req.scheduling = some sc) (active : v.req.status = .active)
      (settles : Settles p v.req sc item advanced written head)
      (publish : Published blockSize item written advanced published) :
      Step v
        { v with
          req := v.req.retired (published.leaveBootstrap item) ⟨item, sampling, .done token⟩ token
          items := rest
          log := v.log ++
            (head ++ RequestState.tailObs p v.req ⟨item, sampling, .done token⟩ token) }
  | process (v : View) (before after : List FlightItem) (f : FlightItem) (token : Token)
      (split : v.items = before ++ f :: after) (oldest : ∀ g ∈ before, g.fate ≠ .pending)
      (pending : f.fate = .pending) (live : v.failed = false) (fits : f.item.Fits blockSize)
      (sampled : f.item.samples = true →
        sampler (v.known.take (f.item.bind v.latest).position ++ (f.item.bind v.latest).tokenIds)
          token) :
      Step v
        { v with
          items := before ++ { f with fate := .done token } :: after
          known := (f.item.bind v.latest).knownAfter v.known
          latest := f.item.latestAfter v.latest token }
  | skipStale (v : View) (before after : List FlightItem) (f : FlightItem)
      (split : v.items = before ++ f :: after) (oldest : ∀ g ∈ before, g.fate ≠ .pending)
      (pending : f.fate = .pending) (failed : v.failed = true) :
      Step v
        { v with items := before ++ { f with fate := .stale } :: after }
  | processFail (v : View) (before after : List FlightItem) (f : FlightItem) (err : ErrorCode)
      (known : List Token) (failed : Bool)
      (split : v.items = before ++ f :: after) (oldest : ∀ g ∈ before, g.fate ≠ .pending)
      (pending : f.fate = .pending) (sticky : v.failed = true → failed = true) :
      Step v
        { v with
          items := before ++ { f with fate := .failed err } :: after
          known := known
          failed := failed }

end

end CcInfer
