import CcInfer.Proofs.Engine.Gapless
import CcInfer.Worker.Translate

/-!
# `CcInfer.Proofs.Worker.Routing`: sampled tokens come back to their items

An item of a batch loses its index three times. `resolve_batch` drops the items of failed
sequences, `translate` turns the rest into rows of tokens, and only the items that sample get
a row of logits. On the way back `inference` numbers its results by resolved items, and
`process_batch` puts the original indices back and sorts.
-/

set_option autoImplicit false

namespace CcInfer

variable {items : List WorkItem} {j : Nat} {item : WorkItem}

/-! ### Rows -/

/-- Row `t` of item `j` lies `t` rows behind the rows of the items before it. -/
theorem getElem?_rows {α : Type} (f : WorkItem → Nat → α) {t : Nat} (hj : items[j]? = some item)
    (ht : t < item.tokenCount) :
    (items.flatMap fun i => (List.range i.tokenCount).map (f i))[rowCount (items.take j) + t]? =
      some (f item t) := by
  obtain ⟨hlt, rfl⟩ := List.getElem?_eq_some_iff.mp hj
  have hsplit : items = items.take j ++ items[j] :: items.drop (j + 1) := by
    rw [List.getElem_cons_drop, List.take_append_drop]
  have hlength := Translated.length_flatMap_range (items.take j) f
  conv_lhs => rw [hsplit, List.flatMap_append, List.flatMap_cons]
  rw [List.take_left' (by simp [hlt.le]), List.getElem?_append_right (by omega), hlength,
    Nat.add_sub_cancel_left, List.getElem?_append_left (by simpa using ht)]
  simp [ht]

/-- The last row of an item that has tokens. -/
theorem lastRow_eq (hj : items[j]? = some item) (hpos : 0 < item.tokenCount) :
    lastRow items j = rowCount (items.take j) + (item.tokenCount - 1) := by
  rw [lastRow, List.take_add_one, hj, rowCount_append]
  simp only [Option.toList_some, rowCount, List.map_cons, List.map_nil, List.sum_cons,
    List.sum_nil]
  omega

/-- The token that greedy sampling writes for an item that samples. -/
theorem tokensHost_sampled {L : Type} (blockSize : Nat)
    (activeStateOf : Option (SequenceId → Option Nat)) (hidden : Nat → L) (argmax : L → Token)
    (tokensOut : Nat → Token) (hj : items[j]? = some item) (samples : item.samples = true) :
    (Worker.tokensHost hidden argmax tokensOut (translate blockSize activeStateOf items)).getD j 0 =
      argmax (hidden (lastRow items j)) := by
  obtain ⟨n, hindex, hrow⟩ := (Translated.foldl blockSize
    (items.foldl (fun m item => max m item.blockTable.length) 0) items).sampled j item hj samples
  simp only [Worker.tokensHost, ModelRunner.greedySample, ModelRunner.forward, translate,
    List.getD_eq_getElem?_getD, List.getElem?_mapIdx, hindex, Option.map_some, Int.toNat_natCast,
    List.getElem?_map, hrow, Option.getD_some]
  exact if_pos (Int.natCast_nonneg n)

/-! ### Results -/

namespace Worker

/-- The results of `inference` on a translated batch, item by item. -/
theorem workItemResult_translate (blockSize : Nat)
    (activeStateOf : Option (SequenceId → Option Nat)) (items : List WorkItem)
    (sampling : SamplingParams) (tokens : List Token) :
    (List.range (translate blockSize activeStateOf items).batchSize).map
        (ModelRunner.workItemResult (translate blockSize activeStateOf items) sampling tokens) =
      items.mapIdx fun j item => itemResult sampling j item (tokens.getD j 0) := by
  have ht := Translated.foldl blockSize
    (items.foldl (fun m item => max m item.blockTable.length) 0) items
  refine List.ext_getElem? fun j => ?_
  rw [List.getElem?_map, List.getElem?_mapIdx]
  rcases hj : items[j]? with _ | _
  · have : items.length ≤ j := List.getElem?_eq_none_iff.mp hj
    simp [translate, this]
  · obtain ⟨hlt, rfl⟩ := List.getElem?_eq_some_iff.mp hj
    simp [translate, ModelRunner.workItemResult, itemResult, hlt, ht.itemSeqIds, ht.itemKinds,
      ht.itemCounts, ht.sampleFlags, List.getD_eq_getElem?_getD]

/-- The results of `process_batch` before sorting: those of `inference`, with their original
indices. -/
theorem processLoop_fst (seed : SequenceId → List Token) (blockSize : Nat)
    (sampling : SamplingParams) (original items : List WorkItem) :
    ∀ (w : Worker) (indices : List Nat) (tokens : List Token), indices.length = items.length →
    (processLoop seed blockSize sampling original w items indices tokens).1 =
      items.mapIdx fun j item => itemResult sampling (indices.getD j 0) item (tokens.getD j 0) := by
  induction items with
  | nil => intro w indices tokens _; cases indices <;> rfl
  | cons _ _ ih =>
    intro w indices tokens hlength
    cases indices with
    | nil => cases hlength
    | cons _ indices =>
      simp only [processLoop, List.mapIdx_cons, ih _ indices tokens.tail (Nat.succ.inj hlength)]
      cases tokens <;> simp [processItem]

/-- The original indices of the results of `inference`. -/
theorem restoreIndices_mapIdx (indices : List Nat) (sampling : SamplingParams)
    (items : List WorkItem) (tokens : List Token) : restoreIndices indices
        (items.mapIdx fun j item => itemResult sampling j item (tokens.getD j 0)) =
      items.mapIdx fun j item => itemResult sampling (indices.getD j 0) item (tokens.getD j 0) := by
  refine List.ext_getElem? fun j => ?_
  simp only [restoreIndices, List.getElem?_map, List.getElem?_mapIdx]
  cases items[j]? <;> rfl

theorem resolveLoop_length (w : Worker) (items : List WorkItem) : ∀ index : Nat,
    (w.resolveLoop index items).originalIndices.length =
      (w.resolveLoop index items).items.length := by
  induction items with
  | nil => intro index; rfl
  | cons _ _ ih =>
    intro index
    unfold resolveLoop
    split
    · exact ih (index + 1)
    · exact congrArg Nat.succ (ih (index + 1))

/-- `process_batch` in the model of the engine, which takes the sampled tokens as an outcome of
the device, is `process_batch` on the physical batch. -/
theorem processBatch_executeBatch {L : Type} (w : Worker) (seed : SequenceId → List Token)
    (blockSize : Nat) (activeStateOf : Option (SequenceId → Option Nat)) (hidden : Nat → L)
    (argmax : L → Token) (tokensOut : Nat → Token) (batch : ScheduledBatch) :
    (w.processBatch seed blockSize batch (.sampled (tokensHost hidden argmax tokensOut
      (translate blockSize activeStateOf (w.resolveBatch batch).items)))).1 =
      w.executeBatch blockSize activeStateOf hidden argmax tokensOut batch := by
  have hlength : (w.resolveBatch batch).originalIndices.length =
      (w.resolveBatch batch).items.length := resolveLoop_length w batch.items 0
  simp only [processBatch, executeBatch, resolveBatch_assert]
  split
  · rfl
  · simp only [ModelRunner.inference]
    cases batch.sampling.greedy with
    | false => rfl
    | true =>
      simp only [Bool.not_true, Bool.false_eq_true, if_false, if_true]
      rw [processLoop_fst _ _ _ _ _ _ _ _ hlength,
        workItemResult_translate, restoreIndices_mapIdx]

end Worker

/-! ### The way back -/

/-- The rank of item `i` among the items that are not stale. -/
def liveRank (stale : SequenceId → Bool) (items : List WorkItem) (i : Nat) : Nat :=
  ((items.take i).filter fun item => !stale item.seqId).length

/-- The items that are not stale, up to item `i`. -/
theorem filter_take_succ (stale : SequenceId → Bool) {i : Nat} (hi : items[i]? = some item)
    (live : stale item.seqId = false) :
    (items.filter fun item => !stale item.seqId)[liveRank stale items i]? = some item ∧
    (items.filter fun item => !stale item.seqId).take (liveRank stale items i + 1) =
      (items.take (i + 1)).filter fun item => !stale item.seqId := by
  have hsplit : items.filter (fun item => !stale item.seqId) =
      (items.take i).filter (fun item => !stale item.seqId) ++
        item :: (items.drop (i + 1)).filter fun item => !stale item.seqId := by
    obtain ⟨hlt, rfl⟩ := List.getElem?_eq_some_iff.mp hi
    conv_lhs => rw [← List.take_append_drop i items, List.filter_append,
      ← List.getElem_cons_drop hlt, List.filter_cons_of_pos (by simp [live])]
  have hnext : (items.take (i + 1)).filter (fun item => !stale item.seqId) =
      (items.take i).filter (fun item => !stale item.seqId) ++ [item] := by
    rw [List.take_add_one, hi, List.filter_append]
    simp [live]
  constructor
  · rw [hsplit, liveRank, List.getElem?_append_right le_rfl, Nat.sub_self]
    rfl
  · rw [hsplit, hnext, liveRank, List.take_length_add_append]
    rfl

/-- A settled item: a stale one takes no token, the others take theirs in order. -/
theorem settleAll_getElem? (stale : SequenceId → Bool) (sampling : SamplingParams)
    (items : List WorkItem) : ∀ (tokens : List Token) (i : Nat) (item : WorkItem),
    items[i]? = some item →
    (settleAll stale (items.map fun item => ⟨item, sampling, .pending⟩) tokens)[i]? =
      some ⟨item, sampling, if stale item.seqId then .stale
        else .done (tokens.getD (liveRank stale items i) 0)⟩ := by
  induction items with
  | nil => intro tokens i item hi; cases hi
  | cons first rest ih =>
    intro tokens i item hi
    rw [List.map_cons, settleAll]
    cases i with
    | zero =>
      cases hi
      show (if stale first.seqId then _ else _ : List FlightItem)[0]? = _
      split
      · simp
      · cases tokens <;> simp [liveRank]
    | succ i =>
      have hrest := fun tokens => ih tokens i item hi
      show (if stale first.seqId then _ else _ : List FlightItem)[i + 1]? = _
      split
      · rename_i hstale
        simpa [liveRank, hstale] using hrest tokens
      · rename_i hstale
        have htail : tokens.tail.getD (liveRank stale rest i) 0 =
            tokens.getD (liveRank stale (first :: rest) (i + 1)) 0 := by
          cases tokens <;> simp [liveRank, hstale]
        rw [← htail]
        simpa using hrest tokens.tail

namespace Worker

/-- The results of a successful batch are the batch, item by item. -/
theorem executeBatch_items {L : Type} {w : Worker} {blockSize : Nat}
    {activeStateOf : Option (SequenceId → Option Nat)} {hidden : Nat → L} {argmax : L → Token}
    {tokensOut : Nat → Token} {batch : ScheduledBatch} {result : BatchResult}
    (h : w.executeBatch blockSize activeStateOf hidden argmax tokensOut batch = .ok result) :
    result.batchId = batch.batchId ∧ result.items = (settleAll w.failedSequences
      (batch.items.map fun item => ⟨item, batch.sampling, .pending⟩)
      (tokensHost hidden argmax tokensOut
        (translate blockSize activeStateOf (w.resolveBatch batch).items))).mapIdx
      fun i f => f.result i := by
  generalize htokens : tokensHost hidden argmax tokensOut
    (translate blockSize activeStateOf (w.resolveBatch batch).items) = tokens
  have hperm := processLoop_results (fun _ => []) blockSize batch.sampling batch.items w
    (batch.items.map fun item => (⟨item, batch.sampling, .pending⟩ : FlightItem)) w 0 tokens
    (by simp)
  have hitems : (batch.items.map fun item => (⟨item, batch.sampling, .pending⟩ : FlightItem)).map
      (·.item) = batch.items := by
    rw [List.map_map]
    exact List.map_id' _
  have hlength : (w.resolveBatch batch).originalIndices.length =
      (w.resolveBatch batch).items.length := resolveLoop_length w batch.items 0
  rw [hitems] at hperm
  simp only [Nat.zero_add] at hperm
  have hsorted := FlightItem.sorted_results hperm
  rw [← hsorted]
  have hfst := processLoop_fst (fun _ => []) blockSize batch.sampling batch.items
    (w.resolveBatch batch).items w (w.resolveBatch batch).originalIndices tokens hlength
  simp only [executeBatch, htokens, ModelRunner.inference, workItemResult_translate] at h
  split at h
  · -- all items are stale: their results are in order already
    rename_i hempty
    cases h
    refine ⟨rfl, ?_⟩
    have hnil : (w.resolveLoop 0 batch.items).items = [] := List.isEmpty_iff.mp hempty
    have hnone : (w.resolveLoop 0 batch.items).originalIndices = [] := by
      rw [← List.length_eq_zero_iff, resolveLoop_length, hnil, List.length_nil]
    simp only [hnil, hnone, processLoop, List.nil_append]
    exact (List.Pairwise.insertionSort_eq (staleResults_sorted w batch.items 0).1).symm
  · cases hgreedy : batch.sampling.greedy with
    | false => simp [hgreedy] at h
    | true =>
      simp only [hgreedy, if_true] at h
      cases h
      refine ⟨rfl, ?_⟩
      rw [restoreIndices_mapIdx,
        show (processLoop (fun _ => []) blockSize batch.sampling batch.items w
        (w.resolveLoop 0 batch.items).items (w.resolveLoop 0 batch.items).originalIndices
        tokens).1 = _ from hfst]
      rfl

end Worker

/-- Every item has a token to run. -/
def ScheduledBatch.Filled (batch : ScheduledBatch) : Prop :=
  ∀ item ∈ batch.items, 0 < item.tokenCount

instance (batch : ScheduledBatch) : Decidable batch.Filled :=
  inferInstanceAs (Decidable (∀ item ∈ batch.items, 0 < item.tokenCount))

/-- The row of the last token of item `i`, where the items of failed sequences get no rows. -/
def Worker.lastRowOf (w : Worker) (batch : ScheduledBatch) (i : Nat) : Nat :=
  rowCount ((batch.items.take (i + 1)).filter fun item => !w.failedSequences item.seqId) - 1

/-- The batches in flight have no item without a token. -/
theorem Reachable.filled {config : ValidConfig} {y : Sys} (h : Reachable config y) :
    ∀ b ∈ y.pipeline, b.batch.Filled := by
  obtain ⟨_, carries, run, -⟩ := h.core
  intro b hb item hitem
  have hmem : item ∈ y.itemsInFlight := List.mem_flatMap.mpr ⟨b, hb, hitem⟩
  rw [Sys.itemsInFlight, Carries.items_flatMap carries] at hmem
  obtain ⟨f, hf, rfl⟩ := List.mem_map.mp hmem
  have hspanned := (Dispatches.run run).spanned f.item (run.flight_logged f hf)
  cases hkind : f.item with
  | prefill work => exact (hspanned work hkind).2.1
  | decode => exact Nat.one_pos

namespace Worker

/-- The rows of an item that is not stale, in the resolved batch. -/
theorem resolved_rows {w : Worker} {batch : ScheduledBatch} {i : Nat} {item : WorkItem}
    (hi : batch.items[i]? = some item) (live : w.failedSequences item.seqId = false) :
    (w.resolveBatch batch).items[liveRank w.failedSequences batch.items i]? =
      some (w.bindLate item) ∧
    lastRow (w.resolveBatch batch).items (liveRank w.failedSequences batch.items i) =
      w.lastRowOf batch i := by
  obtain ⟨hget, htake⟩ := filter_take_succ w.failedSequences hi live
  have hitems : (w.resolveBatch batch).items =
      (batch.items.filter fun item => !w.failedSequences item.seqId).map w.bindLate :=
    resolveLoop_items w batch.items 0
  constructor
  · rw [hitems, List.getElem?_map, hget]
    rfl
  · have hcounts : ∀ l : List WorkItem, rowCount (l.map w.bindLate) = rowCount l := by
      intro l
      rw [rowCount, rowCount, List.map_map]
      congr 2
      funext item
      simp [bindLate_eq]
    rw [lastRow, lastRowOf, hitems, ← List.map_take, htake, hcounts]

end Worker

/-- Every batch in flight has a token for every item. And if a batch with a token for every
item succeeds, its result has one entry for each item, in the order of the batch, with the
sequence and the kind of the item; the entries of failed sequences are stale; and any other
entry has a sampled token if and only if the item samples, which is the argmax of the last
row of that item. The assertions of `update_from_output` hold for this result. -/
theorem sampled_tokens_routed : (∀ {config : ValidConfig} {y : Sys}, Reachable config y →
      ∀ b ∈ y.pipeline, b.batch.Filled) ∧ ∀ {L : Type} (w : Worker) (blockSize : Nat)
      (activeStateOf : Option (SequenceId → Option Nat)) (hidden : Nat → L) (argmax : L → Token)
      (tokensOut : Nat → Token) (batch : ScheduledBatch) (result : BatchResult), batch.Filled →
      w.executeBatch blockSize activeStateOf hidden argmax tokensOut batch = .ok result →
      Scheduler.outputMatches batch result = true ∧
      result.items.map (·.itemIndex) = List.range batch.items.length ∧
      ∀ (i : Nat) (item : WorkItem), batch.items[i]? = some item → ∃ r, result.items[i]? = some r ∧
        r.itemIndex = i ∧ r.seqId = item.seqId ∧ r.kind = item.kind ∧
        r.stale = w.failedSequences item.seqId ∧ (r.stale = false → (r.sampledTokens =
            if item.samples then [argmax (hidden (w.lastRowOf batch i))] else []) ∧
          (translate blockSize activeStateOf (w.resolveBatch batch).items).tokenIds[
            w.lastRowOf batch i]? = some ((w.bindLate item).tokenAt (item.tokenCount - 1)) ∧
          (translate blockSize activeStateOf (w.resolveBatch batch).items).positions[
            w.lastRowOf batch i]? = some (item.positionAt (item.tokenCount - 1))) := by
  refine ⟨fun h => h.filled, ?_⟩
  intro L w blockSize activeStateOf hidden argmax tokensOut batch result filled succeeds
  obtain ⟨hid, hitems⟩ := Worker.executeBatch_items succeeds
  have hat : ∀ (i : Nat) (item : WorkItem), batch.items[i]? = some item → result.items[i]? =
      some (FlightItem.result ⟨item, batch.sampling,
        if w.failedSequences item.seqId then .stale
        else .done ((Worker.tokensHost hidden argmax tokensOut
          (translate blockSize activeStateOf (w.resolveBatch batch).items)).getD
            (liveRank w.failedSequences batch.items i) 0)⟩ i) := by
    intro i item hi
    rw [hitems, List.getElem?_mapIdx, settleAll_getElem? _ _ _ _ i item hi]
    rfl
  have hlength : result.items.length = batch.items.length := by
    rw [hitems, List.length_mapIdx, ← List.length_map (f := fun f : FlightItem => f.item),
      settleAll_items, List.map_map, List.length_map]
  have hentry : ∀ (i : Nat) (item : WorkItem), batch.items[i]? = some item →
      ∃ r, result.items[i]? = some r ∧
      r.itemIndex = i ∧ r.seqId = item.seqId ∧ r.kind = item.kind := by
    intro i item hi
    refine ⟨_, hat i item hi, FlightItem.result_itemIndex _ _, ?_⟩
    unfold FlightItem.result
    split <;> exact ⟨rfl, rfl⟩
  have hindex : result.items.map (·.itemIndex) = List.range batch.items.length := by
    refine List.ext_getElem? fun i => ?_
    rw [List.getElem?_map]
    rcases hi : batch.items[i]? with _ | item
    · have hle := List.getElem?_eq_none_iff.mp hi
      simp [hlength, hle]
    · obtain ⟨_, hr, hri, -⟩ := hentry i item hi
      obtain ⟨hlt, -⟩ := List.getElem?_eq_some_iff.mp hi
      simp [hr, hri, hlt]
  refine ⟨?_, hindex, fun i item hi => ?_⟩
  · simp only [Scheduler.outputMatches, hid, hlength, beq_self_eq_true, Bool.true_and,
      List.all_eq_true]
    intro r hr
    obtain ⟨i, hget⟩ := List.mem_iff_getElem?.mp hr
    obtain ⟨hlt, -⟩ := List.getElem?_eq_some_iff.mp hget
    have hi : batch.items[i]? = some batch.items[i] := List.getElem?_eq_getElem (hlength ▸ hlt)
    obtain ⟨r', hr', hri, hseq, hkind⟩ := hentry i _ hi
    obtain rfl : r = r' := Option.some.inj (hget.symm.trans hr')
    simp [hri, hi, hseq, hkind]
  · obtain ⟨r, hr, hri, hseq, hkind⟩ := hentry i item hi
    refine ⟨r, hr, hri, hseq, hkind, ?_⟩
    obtain rfl := Option.some.inj (hr.symm.trans (hat i item hi))
    cases hstale : w.failedSequences item.seqId with
    | true => simp [FlightItem.result, Worker.staleResult]
    | false =>
      obtain ⟨hrank, hlast⟩ := Worker.resolved_rows hi hstale
      have ht := Translated.foldl blockSize ((w.resolveBatch batch).items.foldl
        (fun m item => max m item.blockTable.length) 0) (w.resolveBatch batch).items
      have hcount : (w.bindLate item).tokenCount = item.tokenCount := by
        simp only [Worker.bindLate_eq, WorkItem.bind_frame]
      have hsamples : (w.bindLate item).samples = item.samples := by
        simp only [Worker.bindLate_eq, WorkItem.bind_frame]
      have hpos : 0 < (w.bindLate item).tokenCount := by
        rw [hcount]
        exact filled item (List.mem_of_getElem? hi)
      have hrow := lastRow_eq hrank hpos
      refine ⟨rfl, fun _ => ⟨?_, ?_, ?_⟩⟩
      · simp only [Bool.false_eq_true, if_false, FlightItem.result, Worker.itemResult]
        cases hs : item.samples with
        | false => rfl
        | true =>
          rw [tokensHost_sampled blockSize activeStateOf hidden argmax tokensOut hrank
            (hsamples.trans hs), hlast]
      · rw [← hlast, hrow, ← hcount]
        simp only [translate, ht.tokenIds]
        exact getElem?_rows WorkItem.tokenAt hrank (by omega)
      · rw [← hlast, hrow, ← hcount]
        simp only [translate, ht.positions]
        rw [getElem?_rows WorkItem.positionAt hrank (by omega)]
        simp [WorkItem.positionAt, Worker.bindLate_eq]

/-- A batch with a chunk that does not sample, a decode of a failed sequence, a chunk that
samples and the decode of a full prefix hit. -/
def mixedBatch : ScheduledBatch where
  batchId := 7
  items :=
    [.prefill ⟨1, ⟨0, 2⟩, some 0, false, [11, 12], [0]⟩,
      .decode ⟨2, 0, some 3, true, true, [1, 2]⟩,
      .prefill ⟨3, ⟨2, 3⟩, some 2, true, [13, 14, 15], [3, 4, 5]⟩,
      .decode ⟨4, 16, some 4, false, false, [6, 7]⟩]
  sampling := {}

/-- A worker on which the second sequence has failed. -/
def secondFailed : Worker := { Worker.init with failedSequences := fun seq => seq == 2 }

/-- The result of `mixedBatch` when the logits of a row are the row itself. -/
def mixedResult : BatchResult where
  batchId := 7
  items :=
    [⟨0, 1, .prefillChunk, [], 2, false, false⟩, ⟨1, 2, .decodeOneToken, [], 0, false, true⟩,
      ⟨2, 3, .prefillChunk, [4], 3, false, false⟩, ⟨3, 4, .decodeOneToken, [5], 1, false, false⟩]

theorem sampled_tokens_routed_mixedBatch :
    secondFailed.executeBatch 2 none id (BitVec.ofNat 32) (fun _ => 9) mixedBatch =
      .ok mixedResult ∧ Scheduler.outputMatches mixedBatch mixedResult = true ∧
    mixedResult.items.map (·.itemIndex) = List.range 4 ∧
    ∃ r, mixedResult.items[2]? = some r ∧ r.stale = false ∧
      r.sampledTokens = [BitVec.ofNat 32 (secondFailed.lastRowOf mixedBatch 2)] := by
  have hresult : secondFailed.executeBatch 2 none id (BitVec.ofNat 32) (fun _ => 9) mixedBatch =
      .ok mixedResult := by rfl
  obtain ⟨hmatches, hindex, hentries⟩ := sampled_tokens_routed.2 secondFailed 2 none id
    (BitVec.ofNat 32) (fun _ => 9) mixedBatch mixedResult (by decide) hresult
  obtain ⟨r, hr, -, -, -, hstale, hlive⟩ := hentries 2 _ rfl
  exact ⟨hresult, hmatches, hindex, r, hr, hstale, (hlive hstale).1⟩

end CcInfer
