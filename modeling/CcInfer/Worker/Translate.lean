import CcInfer.Worker.Worker
import Mathlib.Algebra.GroupWithZero.Nat
import Mathlib.Data.List.Induction

/-!
# `CcInfer.Worker.Translate`: from work items to a physical batch

The embedding of `BatchTranslator::translate` of `worker/worker.cpp`, and of the host side of
`ModelRunner::inference` of `worker/model_runner.h`.
-/

set_option autoImplicit false

namespace CcInfer

/-- `ForwardMode`. -/
inductive ForwardMode
  | prefill
  | decode
  | mixed
  deriving DecidableEq, Repr

/-- `PhysicalBatch`. -/
structure PhysicalBatch where
  numTokens : Nat
  tokenIds : List Token
  positions : List Nat
  slotMapping : List Int
  batchSize : Nat
  maxBlocksPerReq : Nat
  /-- One row per item, filled up with `-1`. -/
  blockTable : List (List Int)
  queryStartLoc : List Nat
  contextLens : List Nat
  logitsIndices : List Int
  /-- Present when the worker has a `StatePool`. -/
  stateMapping : Option (List Int)
  mode : ForwardMode
  itemSeqIds : List SequenceId
  itemKinds : List WorkKind
  itemTokenCounts : List Nat
  sampleFlags : List Bool
  logitsRowsHost : List Nat
  numLogits : Nat
  maxPositionId : Nat
  deriving DecidableEq, Repr

namespace WorkItem

/-- Whether the item is a chunk. -/
def isPrefill : WorkItem → Bool
  | prefill _ => true
  | decode _ => false

/-- `writes` of `translate`. -/
def writes : WorkItem → Bool
  | prefill _ => true
  | decode w => w.writeKv

/-- The token that `translate` reads for row `t` of the item. -/
def tokenAt : WorkItem → Nat → Token
  | prefill w, t => w.tokens.getD t 0
  | decode w, _ => w.inputToken

/-- The position that `translate` gives to row `t` of the item: a decode that writes nothing
sits on the last cached position, `std::max(0, context - 1)`. -/
def positionAt (item : WorkItem) (t : Nat) : Nat := item.position + t

/-- The slot that `translate` gives to row `t` of the item. -/
def slotOf (item : WorkItem) (blockSize t : Nat) : Int :=
  if item.writes then (item.slotAt blockSize (item.positionAt t) : Int) else -1

end WorkItem

/-- The accumulators of the loop of `translate`. -/
structure Translation where
  tokenIds : List Token := []
  positions : List Nat := []
  slots : List Int := []
  blockTable : List (List Int) := []
  queryStart : List Nat := []
  contextLens : List Nat := []
  logitsIndices : List Int := []
  itemCounts : List Nat := []
  itemSeqIds : List SequenceId := []
  itemKinds : List WorkKind := []
  sampleFlags : List Bool := []
  logitsRows : List Nat := []
  offset : Nat := 0
  numLogits : Nat := 0
  maxPosition : Nat := 0
  hasPrefill : Bool := false
  hasDecode : Bool := false
  deriving DecidableEq, Repr

/-- One round of the loop of `translate`. -/
def Translation.item (blockSize maxBlocks : Nat) (t : Translation) (item : WorkItem) :
    Translation :=
  let tokens := item.tokenCount
  let positions := t.positions ++ (List.range tokens).map item.positionAt
  { tokenIds := t.tokenIds ++ (List.range tokens).map item.tokenAt
    positions := positions
    slots := t.slots ++ (List.range tokens).map (item.slotOf blockSize)
    blockTable := t.blockTable ++ [item.blockTable.map Int.ofNat ++
      List.replicate (maxBlocks - item.blockTable.length) (-1)]
    queryStart := t.queryStart ++ [t.offset]
    contextLens := t.contextLens ++ [item.context + if item.writes then tokens else 0]
    logitsIndices := t.logitsIndices ++ [if item.samples then (t.numLogits : Int) else -1]
    itemCounts := t.itemCounts ++ [tokens]
    itemSeqIds := t.itemSeqIds ++ [item.seqId]
    itemKinds := t.itemKinds ++ [item.kind]
    sampleFlags := t.sampleFlags ++ [item.samples]
    logitsRows := t.logitsRows ++ if item.samples then [t.offset + tokens - 1] else []
    offset := t.offset + tokens
    numLogits := t.numLogits + if item.samples then 1 else 0
    maxPosition := max t.maxPosition (positions.getD (t.offset + tokens - 1) 0)
    hasPrefill := t.hasPrefill || item.isPrefill
    hasDecode := t.hasDecode || !item.isPrefill }

/-- `BatchTranslator::translate`. `activeStateOf` is the lookup in the state pool, if there is
one. -/
def translate (blockSize : Nat) (activeStateOf : Option (SequenceId → Option Nat))
    (items : List WorkItem) : PhysicalBatch :=
  let maxBlocks := items.foldl (fun m item => max m item.blockTable.length) 0
  let t := items.foldl (Translation.item blockSize maxBlocks) {}
  { numTokens := items.foldl (fun n item => n + item.tokenCount) 0
    tokenIds := t.tokenIds
    positions := t.positions
    slotMapping := t.slots
    batchSize := items.length
    maxBlocksPerReq := maxBlocks
    blockTable := t.blockTable
    queryStartLoc := t.queryStart ++ [t.offset]
    contextLens := t.contextLens
    logitsIndices := t.logitsIndices
    stateMapping := activeStateOf.map fun stateOf =>
      t.itemSeqIds.map fun seq => (stateOf seq).elim (-1) Int.ofNat
    mode := if t.hasPrefill && t.hasDecode then .mixed
      else if t.hasPrefill then .prefill else .decode
    itemSeqIds := t.itemSeqIds
    itemKinds := t.itemKinds
    itemTokenCounts := t.itemCounts
    sampleFlags := t.sampleFlags
    logitsRowsHost := t.logitsRows
    numLogits := t.numLogits
    maxPositionId := t.maxPosition }

/-! ### The model runner -/

namespace ModelRunner

/-- `Model::forward`, as far as the host relies on it: row `k` of the logits is computed from
row `logits_rows_host[k]` of the hidden states. -/
def forward {L : Type} (hidden : Nat → L) (batch : PhysicalBatch) : List L :=
  batch.logitsRowsHost.map hidden

/-- `ccop::greedy_sample`: `tokens_out[i]` becomes the argmax of row `logits_indices[i]` where
that is not negative. The other entries keep what the buffer `tokensOut` held. -/
def greedySample {L : Type} (argmax : L → Token) (logits : List L) (logitsIndices : List Int)
    (tokensOut : Nat → Token) : List Token :=
  logitsIndices.mapIdx fun i index =>
    if 0 ≤ index then (logits[index.toNat]?.map argmax).getD (tokensOut i) else tokensOut i

/-- The result of the physical item `i`, once the sampled tokens are on the host. -/
def workItemResult (batch : PhysicalBatch) (sampling : SamplingParams) (tokensHost : List Token)
    (i : Nat) : WorkItemResult :=
  let sampled := batch.sampleFlags.getD i false
  let token := tokensHost.getD i 0
  { itemIndex := i
    seqId := batch.itemSeqIds.getD i 0
    kind := batch.itemKinds.getD i .prefillChunk
    sampledTokens := if sampled then [token] else []
    tokensConsumed := batch.itemTokenCounts.getD i 0
    eos := sampled && sampling.isEos token
    stale := false }

/-- `ModelRunner::inference` after the device has answered `tokensHost`. -/
def inference (batch : PhysicalBatch) (sampling : SamplingParams) (tokensHost : List Token) :
    Result (List WorkItemResult) :=
  if sampling.greedy then
    .ok ((List.range batch.batchSize).map (workItemResult batch sampling tokensHost))
  else .error .unsupported

end ModelRunner

namespace Worker

/-- The loop of `process_batch` over the results of `inference`: the index in the resolved
batch becomes the index in the original batch. -/
def restoreIndices (originalIndices : List Nat) (results : List WorkItemResult) :
    List WorkItemResult :=
  results.map fun r => { r with itemIndex := originalIndices.getD r.itemIndex 0 }

/-- What the device answers for a resolved batch: row `r` of the hidden states gives the logits
`hidden r`. -/
def tokensHost {L : Type} (hidden : Nat → L) (argmax : L → Token) (tokensOut : Nat → Token)
    (physical : PhysicalBatch) : List Token :=
  ModelRunner.greedySample argmax (ModelRunner.forward hidden physical) physical.logitsIndices
    tokensOut

/-- The result of `process_batch` when the device does what it is asked for. -/
def executeBatch {L : Type} (w : Worker) (blockSize : Nat)
    (activeStateOf : Option (SequenceId → Option Nat)) (hidden : Nat → L) (argmax : L → Token)
    (tokensOut : Nat → Token) (batch : ScheduledBatch) : Result BatchResult :=
  let resolved := w.resolveBatch batch
  if resolved.items.isEmpty then .ok ⟨batch.batchId, resolved.staleResults⟩
  else
    let physical := translate blockSize activeStateOf resolved.items
    match ModelRunner.inference physical batch.sampling
      (tokensHost hidden argmax tokensOut physical) with
    | .error err => .error err
    | .ok results => .ok ⟨batch.batchId,
        (restoreIndices resolved.originalIndices results ++ resolved.staleResults).insertionSort
          (fun a b => a.itemIndex ≤ b.itemIndex)⟩

end Worker

/-! ### What `translate` computes -/

/-- The number of rows that the items take. -/
def rowCount (items : List WorkItem) : Nat := (items.map WorkItem.tokenCount).sum

/-- The row of the last token of item `i`. -/
def lastRow (items : List WorkItem) (i : Nat) : Nat := rowCount (items.take (i + 1)) - 1

theorem rowCount_append (items rest : List WorkItem) :
    rowCount (items ++ rest) = rowCount items + rowCount rest := by
  simp [rowCount]

/-! ### The slots of a batch -/

/-- The loop maps the rows of one item after the other. -/
theorem Translation.foldl_slots (blockSize maxBlocks : Nat) (items : List WorkItem) :
    ∀ t : Translation, (items.foldl (Translation.item blockSize maxBlocks) t).slots =
      t.slots ++ items.flatMap fun i => (List.range i.tokenCount).map (i.slotOf blockSize) := by
  induction items with
  | nil => intro t; simp
  | cons _ _ ih =>
    intro t
    rw [List.foldl_cons, ih]
    simp [Translation.item]

/-- The rows of an item that have a slot are the positions it writes. -/
theorem WorkItem.filter_slotOf (item : WorkItem) (blockSize : Nat) :
    ((List.range item.tokenCount).map (item.slotOf blockSize)).filter (fun slot => 0 ≤ slot) =
      (item.writtenSlots blockSize).map Int.ofNat := by
  rw [writtenSlots, writtenPositions, List.range'_eq_map_range, List.map_map, List.map_map]
  by_cases hwrites : item.writes = true
  · have hcount : item.tokenCount = item.kvTokenCount := by
      cases item <;> simp_all [tokenCount, kvTokenCount, writes]
    have hposition : item.position = item.context := by
      cases item <;> simp_all [position, writes]
    rw [List.filter_eq_self.mpr (by simp [slotOf, hwrites]), hcount]
    refine List.map_congr_left fun t _ => ?_
    simp [slotOf, hwrites, positionAt, hposition]
  · have hnone : item.kvTokenCount = 0 := by
      cases item <;> simp_all [kvTokenCount, writes]
    simp [slotOf, hwrites, hnone]

/-- The slots in the mapping of a batch are those that its items write. The other entries are
negative. -/
theorem translate_slots (blockSize : Nat) (activeStateOf : Option (SequenceId → Option Nat))
    (items : List WorkItem) :
    (translate blockSize activeStateOf items).slotMapping.filter (fun slot => 0 ≤ slot) =
      (items.flatMap (·.writtenSlots blockSize)).map Int.ofNat := by
  simp only [translate, Translation.foldl_slots, List.nil_append, List.filter_flatMap,
    WorkItem.filter_slotOf, List.map_flatMap]

/-! ### The rows of a batch -/

/-- The accumulators after the items `items`. -/
structure Translated (items : List WorkItem) (t : Translation) : Prop where
  offset : t.offset = rowCount items
  tokenIds : t.tokenIds = items.flatMap fun i => (List.range i.tokenCount).map i.tokenAt
  positions : t.positions = items.flatMap fun i => (List.range i.tokenCount).map i.positionAt
  itemSeqIds : t.itemSeqIds = items.map WorkItem.seqId
  itemKinds : t.itemKinds = items.map WorkItem.kind
  itemCounts : t.itemCounts = items.map WorkItem.tokenCount
  sampleFlags : t.sampleFlags = items.map WorkItem.samples
  numLogits : t.numLogits = t.logitsRows.length
  logitsIndices : t.logitsIndices.length = items.length
  sampled : ∀ i item, items[i]? = some item → item.samples = true → ∃ n : Nat,
    t.logitsIndices[i]? = some (n : Int) ∧ t.logitsRows[n]? = some (lastRow items i)
  maxPosition : t.maxPosition = 0 ∨ t.maxPosition ∈ t.positions

namespace Translated

variable {items : List WorkItem} {t : Translation}

theorem nil : Translated [] {} := by
  constructor <;> simp [rowCount]

/-- The rows of one list of values per item. -/
theorem length_flatMap_range {α : Type} (items : List WorkItem) (f : WorkItem → Nat → α) :
    (items.flatMap fun i => (List.range i.tokenCount).map (f i)).length = rowCount items := by
  simp [rowCount, List.length_flatMap]

/-- One round of the loop. -/
theorem step (h : Translated items t) (blockSize maxBlocks : Nat) (item : WorkItem) :
    Translated (items ++ [item]) (t.item blockSize maxBlocks item) := by
  have hlength : t.positions.length = t.offset := by
    rw [h.positions, length_flatMap_range, h.offset]
  have hlast : lastRow (items ++ [item]) items.length = t.offset + item.tokenCount - 1 := by
    rw [lastRow, List.take_of_length_le (by simp), rowCount_append, ← h.offset]
    simp [rowCount]
  constructor
  · rw [rowCount_append, ← h.offset]
    simp [Translation.item, rowCount]
  · simp [Translation.item, h.tokenIds]
  · simp [Translation.item, h.positions]
  · simp [Translation.item, h.itemSeqIds]
  · simp [Translation.item, h.itemKinds]
  · simp [Translation.item, h.itemCounts]
  · simp [Translation.item, h.sampleFlags]
  · simp only [Translation.item, h.numLogits, List.length_append]
    split <;> rfl
  · simp [Translation.item, h.logitsIndices]
  · intro i item' hi hsamples
    rcases Nat.lt_or_ge i items.length with hlt | hge
    · rw [List.getElem?_append_left hlt] at hi
      obtain ⟨n, hindex, hrow⟩ := h.sampled i item' hi hsamples
      have hsame : lastRow (items ++ [item]) i = lastRow items i := by
        rw [lastRow, lastRow, List.take_append_of_le_length hlt]
      refine ⟨n, ?_, ?_⟩
      · simpa [Translation.item, List.getElem?_append_left (h.logitsIndices ▸ hlt)] using hindex
      · rw [hsame]
        obtain ⟨hn, -⟩ := List.getElem?_eq_some_iff.mp hrow
        simpa [Translation.item, List.getElem?_append_left hn] using hrow
    · -- the new item takes the next row of logits
      rw [List.getElem?_append_right hge] at hi
      obtain ⟨hzero, rfl⟩ := List.getElem?_eq_some_iff.mp hi
      rw [List.length_singleton] at hzero
      obtain rfl : i = items.length := by omega
      simp only [Nat.sub_self, List.getElem_cons_zero] at hsamples ⊢
      refine ⟨t.numLogits, ?_, ?_⟩
      · simp [Translation.item, hsamples, ← h.logitsIndices]
      · simp [Translation.item, hsamples, h.numLogits, hlast]
  · simp only [Translation.item]
    rcases Nat.eq_zero_or_pos item.tokenCount with hzero | _
    · simp only [hzero, List.range_zero, List.map_nil, List.append_nil, Nat.add_zero]
      rcases le_total (t.positions.getD (t.offset - 1) 0) t.maxPosition with hle | hle
      · rw [max_eq_left hle]
        exact h.maxPosition
      · rw [max_eq_right hle, List.getD_eq_getElem?_getD]
        cases hget : t.positions[t.offset - 1]? with
        | none => exact .inl rfl
        | some => exact .inr (List.mem_of_getElem? hget)
    · have hget : (t.positions ++ (List.range item.tokenCount).map item.positionAt).getD
          (t.offset + item.tokenCount - 1) 0 = item.positionAt (item.tokenCount - 1) := by
        rw [List.getD_eq_getElem?_getD, List.getElem?_append_right (by omega), hlength,
          show t.offset + item.tokenCount - 1 - t.offset = item.tokenCount - 1 by omega]
        simp [List.getElem?_range (show item.tokenCount - 1 < item.tokenCount by omega)]
      rw [hget]
      rcases le_total (item.positionAt (item.tokenCount - 1)) t.maxPosition with hle | hle
      · rw [max_eq_left hle]
        exact h.maxPosition.imp_right (List.mem_append_left _)
      · rw [max_eq_right hle]
        refine .inr (List.mem_append_right _ (List.mem_map_of_mem ?_))
        exact List.mem_range.mpr (by omega)

/-- The whole loop. -/
theorem foldl (blockSize maxBlocks : Nat) (items : List WorkItem) :
    Translated items (items.foldl (Translation.item blockSize maxBlocks) {}) := by
  induction items using List.reverseRecOn with
  | nil => exact nil
  | append_singleton _ item ih =>
    rw [List.foldl_append]
    exact ih.step blockSize maxBlocks item

end Translated

end CcInfer
