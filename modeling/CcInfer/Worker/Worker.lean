import CcInfer.Base.Types
import Mathlib.Data.List.Sort
import Mathlib.Logic.Function.Basic

/-!
# `CcInfer.Worker.Worker`: late binding, translation and results of a batch

The embedding of `resolve_batch` and `process_batch` of `worker/worker.cpp`, of the host
side of `BatchTranslator::translate` and of the result loop of `ModelRunner::inference`.
-/

set_option autoImplicit false

namespace CcInfer

/-- One sampled token, with the tokens at the positions `0 … p` of its sequence. -/
structure Sample where
  seqId : SequenceId
  context : List Token
  token : Token
  deriving DecidableEq, Repr

/-- The handoff state of `Worker`. -/
structure Worker where
  latestTokens : SequenceId → Option Token
  failedSequences : SequenceId → Bool
  /-- Ghost: the last token fed for each physical slot. -/
  slots : Nat → Option Token
  /-- Ghost: the tokens fed with a KV write, per sequence. -/
  fed : SequenceId → List Token
  /-- Ghost: every sampled token with its context. -/
  samples : List Sample
  /-- Ghost: assertions of the worker that did not hold. -/
  failedAsserts : List AssertSite

/-- `Worker::ResolvedBatch`; the batch id and the sampling parameters are those of the
original. -/
structure ResolvedBatch where
  items : List WorkItem
  originalIndices : List Nat
  staleResults : List WorkItemResult

/-- What the device decides about one batch. -/
inductive Outcome
  /-- `acquire_active` failed for an item. -/
  | acquireFailed (err : ErrorCode)
  /-- `translate` failed. -/
  | translateFailed (err : ErrorCode)
  /-- `inference` failed, before (`fed = false`) or after the forward pass. -/
  | inferenceFailed (err : ErrorCode) (fed : Bool)
  /-- `inference` sampled `tokensHost[i]` for the resolved item `i`. -/
  | sampled (tokensHost : List Token)
  deriving DecidableEq, Repr

namespace WorkItem

/-- The token ids that `translate` writes for an item. -/
def tokenIds : WorkItem → List Token
  | prefill w => w.tokens
  | decode w => [w.inputToken]

/-- The first position of an item: a decode that writes nothing sits on the last cached
position. -/
def position : WorkItem → Nat
  | prefill w => (prefill w).context
  | decode w => if w.writeKv then (decode w).context else (decode w).context - 1

/-- The physical slot of position `pos`: `table[pos / bs] * bs + pos % bs`. -/
def slotAt (item : WorkItem) (blockSize pos : Nat) : Nat :=
  item.blockTable.getD (pos / blockSize) 0 * blockSize + pos % blockSize

/-- The positions that an item writes. -/
def writtenPositions (item : WorkItem) : List Nat :=
  List.range' item.context item.kvTokenCount

/-- The slots that `translate` maps the written positions to. -/
def writtenSlots (item : WorkItem) (blockSize : Nat) : List Nat :=
  item.writtenPositions.map (item.slotAt blockSize)

/-- The table covers every position that the item writes. -/
def Fits (item : WorkItem) (blockSize : Nat) : Prop :=
  item.context + item.kvTokenCount ≤ item.blockTable.length * blockSize

/-- What `translate` asserts of an item. -/
def translatable (item : WorkItem) (blockSize : Nat) : Bool :=
  (match item with | prefill _ => true | decode w => !w.lateBind) &&
    !item.blockTable.isEmpty &&
    decide (item.context + item.kvTokenCount ≤ BlockTable.tokenCapacity item.blockTable blockSize)

end WorkItem

namespace Worker

/-- A worker that has processed nothing. -/
def init : Worker where
  latestTokens := fun _ => none
  failedSequences := fun _ => false
  slots := fun _ => none
  fed := fun _ => []
  samples := []
  failedAsserts := []

/-- Log a failed assertion. -/
def assert (w : Worker) (b : Bool) (site : AssertSite) : Worker :=
  if b then w else { w with failedAsserts := w.failedAsserts ++ [site] }

/-! ### Resolution -/

/-- Bind the token of a late-bound decode. Without an entry the source dereferences
`end()`; the assertion that excludes it is `lateBoundFound`. -/
def bindLate (w : Worker) : WorkItem → WorkItem
  | .prefill work => .prefill work
  | .decode work =>
    if work.lateBind then
      .decode { work with
        inputToken := (w.latestTokens work.seqId).getD work.inputToken
        lateBind := false }
    else .decode work

/-- The assertion of `resolve_batch` on one item that is not stale. -/
def lateBoundFound (w : Worker) : WorkItem → Bool
  | .prefill _ => true
  | .decode work => !work.lateBind || (w.latestTokens work.seqId).isSome

/-- The result of an item whose sequence already failed. -/
def staleResult (index : Nat) (item : WorkItem) : WorkItemResult where
  itemIndex := index
  seqId := item.seqId
  kind := item.kind
  sampledTokens := []
  tokensConsumed := 0
  eos := false
  stale := true

/-- The loop of `Worker::resolve_batch` from item `index` on. -/
def resolveLoop (w : Worker) (index : Nat) : List WorkItem → ResolvedBatch
  | [] => ⟨[], [], []⟩
  | item :: rest =>
    let tail := w.resolveLoop (index + 1) rest
    if w.failedSequences item.seqId then
      { tail with staleResults := staleResult index item :: tail.staleResults }
    else
      { tail with
        items := w.bindLate item :: tail.items
        originalIndices := index :: tail.originalIndices }

/-- `Worker::resolve_batch`. -/
def resolveBatch (w : Worker) (batch : ScheduledBatch) : ResolvedBatch :=
  w.resolveLoop 0 batch.items

/-! ### The forward pass -/

/-- The token prefix that an item is sampled from. `seed` holds the tokens of the prefix
hits of a sequence. -/
def contextOf (w : Worker) (seed : SequenceId → List Token) (item : WorkItem) : List Token :=
  (seed item.seqId ++ w.fed item.seqId).take item.position ++ item.tokenIds

/-- The KV writes of one item. -/
def feedItem (blockSize : Nat) (w : Worker) (item : WorkItem) : Worker :=
  if 0 < item.kvTokenCount then
    { w with
      slots := ((item.writtenSlots blockSize).zip item.tokenIds).foldl
        (fun slots st => Function.update slots st.1 (some st.2)) w.slots
      fed := Function.update w.fed item.seqId (w.fed item.seqId ++ item.tokenIds) }
  else w

/-- The result of the resolved item `index`, from `ModelRunner::inference`. -/
def itemResult (sampling : SamplingParams) (index : Nat) (item : WorkItem) (token : Token) :
    WorkItemResult where
  itemIndex := index
  seqId := item.seqId
  kind := item.kind
  sampledTokens := if item.samples then [token] else []
  tokensConsumed := item.tokenCount
  eos := item.samples && sampling.isEos token
  stale := false

/-- The update of `latest_tokens_` after a result. -/
def updateLatest (w : Worker) (item : WorkItem) (r : WorkItemResult) : Worker :=
  match r.sampledTokens with
  | t :: _ => { w with latestTokens := Function.update w.latestTokens r.seqId (some t) }
  | [] =>
    match item with
    | .prefill work =>
      match work.tokens.getLast? with
      | none => w
      | some t => { w with latestTokens := Function.update w.latestTokens r.seqId (some t) }
    | .decode work =>
      if work.writeKv then
        { w with latestTokens := Function.update w.latestTokens r.seqId (some work.inputToken) }
      else w

/-- Process one live item after a successful forward pass: record the sample, the KV writes
and the latest token. Returns the result with its original index. -/
def processItem (seed : SequenceId → List Token) (blockSize : Nat) (sampling : SamplingParams)
    (original : List WorkItem) (w : Worker) (item : WorkItem) (index : Nat) (token : Token) :
    WorkItemResult × Worker :=
  let r := itemResult sampling index item token
  let w :=
    if item.samples then
      { w with samples := w.samples ++ [⟨item.seqId, w.contextOf seed item, token⟩] }
    else w
  let w := feedItem blockSize w item
  (r, w.updateLatest (original.getD index item) r)

/-- The loop over the results of a successful forward pass. -/
def processLoop (seed : SequenceId → List Token) (blockSize : Nat) (sampling : SamplingParams)
    (original : List WorkItem) (w : Worker) :
    List WorkItem → List Nat → List Token → List WorkItemResult × Worker
  | item :: items, index :: indices, tokens =>
    let (r, w) :=
      processItem seed blockSize sampling original w item index (tokens.headD 0)
    let (rs, w) := processLoop seed blockSize sampling original w items indices tokens.tail
    (r :: rs, w)
  | _, _, _ => ([], w)

/-- The lambda `fail_sequences`. -/
def failSequences (w : Worker) (items : List WorkItem) : Worker :=
  { w with
    failedSequences := fun seq => w.failedSequences seq || items.any (fun i => i.seqId == seq) }

/-- `Worker::process_batch`. -/
def processBatch (w : Worker) (seed : SequenceId → List Token) (blockSize : Nat)
    (batch : ScheduledBatch) (outcome : Outcome) : Result BatchResult × Worker :=
  let live := batch.items.filter (fun item => !w.failedSequences item.seqId)
  let w := w.assert (live.all w.lateBoundFound) .lateBound
  let resolved := w.resolveBatch batch
  if resolved.items.isEmpty then (.ok ⟨batch.batchId, resolved.staleResults⟩, w)
  else
    match outcome with
    | .acquireFailed err => (.error err, w.failSequences resolved.items)
    | .translateFailed err => (.error err, w.failSequences resolved.items)
    | .inferenceFailed err fed =>
      let w := if fed then resolved.items.foldl (feedItem blockSize) w else w
      (.error err, w.failSequences resolved.items)
    | .sampled tokensHost =>
      if !batch.sampling.greedy then (.error .unsupported, w.failSequences resolved.items)
      else
        let (results, w) := processLoop seed blockSize batch.sampling batch.items w
          resolved.items resolved.originalIndices tokensHost
        (.ok ⟨batch.batchId, (results ++ resolved.staleResults).insertionSort
          (fun a b => a.itemIndex ≤ b.itemIndex)⟩, w)

/-- Whether the batch passes the assertions of `translate`, if the worker gets as far. -/
def translates (w : Worker) (blockSize : Nat) (batch : ScheduledBatch) (running : Bool) :
    Outcome → Bool
  | .acquireFailed _ => true
  | _ => !running || (w.resolveBatch batch).items.all (·.translatable blockSize)

/-- `Worker::process_command`; `running` is the value of `running_.load()`. -/
def processCommand (w : Worker) (seed : SequenceId → List Token) (blockSize : Nat)
    (batch : ScheduledBatch) (running : Bool) (outcome : Outcome) : Result BatchResult × Worker :=
  if running then w.processBatch seed blockSize batch outcome
  else (.error .serverShuttingDown, w)

end Worker

end CcInfer
