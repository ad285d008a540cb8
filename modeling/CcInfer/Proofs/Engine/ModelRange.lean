import CcInfer.Http.ChatRequest
import CcInfer.Model.Qwen3Model
import CcInfer.Proofs.Engine.Generation
import CcInfer.Proofs.Engine.Quotas

/-!
# `CcInfer.Proofs.Engine.ModelRange`: positions and the range of the model

`Qwen3Model::forward` asserts that all positions of a batch are below `max_seq_len_`, the
length that the model declares. The scheduler never sees this number. It bounds the positions
of a request by the `max_context_len` of the request, or by `default_max_context_len` when
the request has none, and admission compares that limit with the size of the block pool only.
-/

set_option autoImplicit false

namespace CcInfer

/-- Every position of a physical batch and the assertion of `forward` about it. -/
structure PhysicalBatch.InRange (batch : PhysicalBatch) (model : ModelConfig) : Prop where
  positions : ∀ pos ∈ batch.positions, (pos : Int) < model.maxSeqLen
  forward : ∀ rope, Qwen3Model.ropeCache model = .ok rope →
    Qwen3Model.positionsFit rope batch = true

/-- A batch whose items stay in range stays in range. -/
theorem translate_inRange {model : ModelConfig} (valid : model.validate = .ok ())
    {items : List WorkItem}
    (h : ∀ item ∈ items, (item.position + item.tokenCount : Int) ≤ model.maxSeqLen)
    (blockSize : Nat) (activeStateOf : Option (SequenceId → Option Nat)) :
    (translate blockSize activeStateOf items).InRange model := by
  have ht := Translated.foldl blockSize
    (items.foldl (fun m item => max m item.blockTable.length) 0) items
  have hpositions : ∀ pos ∈ (translate blockSize activeStateOf items).positions,
      (pos : Int) < model.maxSeqLen := by
    intro pos hpos
    simp only [translate, ht.positions, List.mem_flatMap, List.mem_map, List.mem_range] at hpos
    obtain ⟨item, hitem, _, _, rfl⟩ := hpos
    have := h item hitem
    simp only [WorkItem.positionAt]
    omega
  refine ⟨hpositions, fun rope hrope => ?_⟩
  rw [Qwen3Model.positionsFit, Qwen3Model.ropeCache_maxPosition hrope, decide_eq_true_eq]
  refine ⟨Int.natCast_nonneg _, ?_⟩
  rcases ht.maxPosition with hzero | hmem
  · simp only [translate, hzero]
    exact model.maxSeqLen_pos valid
  · exact hpositions _ hmem

/-- What a request may fill of the model: its own limit, or the default. -/
def SchedulerRequest.Fits (req : SchedulerRequest) (config : ValidConfig) (model : ModelConfig) :
    Prop :=
  (RequestState.ofRequest config req).maxContextLen ≤ model.maxSeqLen

/-- If every request so far asks for no more context than the model has, then every position
of every dispatched item is in the range of the model, and the assertion of `forward` holds
for every batch that the worker can translate. -/
theorem positions_in_range {config : ValidConfig} {y : Sys} (h : Reachable config y)
    {model : ModelConfig} (valid : model.validate = .ok ())
    (fits : ∀ p req, .registered p req ∈ y.sched.trace → req.Fits config model) :
    (∀ item, .dispatched item ∈ y.sched.trace → ∀ t < item.tokenCount,
      (item.positionAt t : Int) < model.maxSeqLen) ∧ ∀ b ∈ y.pipeline, ∀ activeStateOf,
      (translate config.kvBlockSize activeStateOf (y.worker.resolveBatch b.batch).items).InRange
        model := by
  obtain ⟨_, carries, run, -⟩ := h.core
  have hbound : ∀ item, .dispatched item ∈ y.sched.trace →
      (item.position + item.tokenCount : Int) ≤ model.maxSeqLen := by
    intro item hitem
    obtain ⟨p, hits, generated, hp⟩ := (Dispatches.run run).admitted hitem
    have hwithin : (item.position + item.tokenCount : Int) ≤ (y.sched.heap p).maxContextLen :=
      (Ranged.run run).within item p hits generated hitem hp
    obtain ⟨_, horigin, hreq, hlog⟩ := h.origin (h.known hp (beq_self_eq_true p))
    obtain ⟨req, hmem, -, -, -, hcontext⟩ := horigin.registered
    rw [hlog] at hmem
    have hfits := fits p req (List.mem_filter.mp hmem).1
    rw [SchedulerRequest.Fits, ← hcontext, hreq] at hfits
    exact hwithin.trans hfits
  refine ⟨fun item hitem t ht => ?_, fun b hb activeStateOf => ?_⟩
  · have := hbound item hitem
    simp only [WorkItem.positionAt]
    omega
  · refine translate_inRange valid (fun item hitem => ?_) _ _
    -- binding changes neither the position nor the length of an item
    rw [Worker.resolveBatch, Worker.resolveLoop_items] at hitem
    obtain ⟨original, horiginal, rfl⟩ := List.mem_map.mp hitem
    simp only [Worker.bindLate_eq, WorkItem.bind_frame]
    refine hbound original ?_
    have hmem : original ∈ y.itemsInFlight :=
      List.mem_flatMap.mpr ⟨b, hb, (List.mem_filter.mp horiginal).1⟩
    rw [Sys.itemsInFlight, Carries.items_flatMap carries] at hmem
    obtain ⟨f, hf, rfl⟩ := List.mem_map.mp hmem
    exact run.flight_logged f hf

/-- A model with a context of `n` tokens. -/
def tinyModel (n : Int) : ModelConfig where
  arch := .qwen3
  nLayers := 1
  nQHeads := 1
  nKvHeads := 1
  dModel := 2
  headDim := 2
  dFf := 2
  vocabSize := 16
  maxSeqLen := n

/-- A tokenizer that knows no text. -/
def mute : ChatTokenizer where
  encode _ := .ok []
  eosTokenId := -1

/-- The body `{"max_context_len": 6}`. -/
def sixTokens : Json := .object [(bytes "max_context_len", .integer 6)]

/-- The request that the HTTP boundary makes of it. -/
def sixTokensRequest : SchedulerRequest := ⟨"req-0", [1, 2, 3], {}, 6⟩

/-- Three blocks of two tokens, and chunks of any length. -/
def unchunked : ValidConfig := (EngineConfig.small 3 0).toValid EngineConfig.three_ok

/-- The first batch of that request is in flight. -/
def sixTokensInFlight : Sys :=
  Sys.after unchunked (Label.submits [sixTokensRequest] ++ Label.dispatch)

theorem positions_in_range_sixTokens :
    (sixTokensInFlight.pipeline.map fun b => (translate 2 none b.batch.items).positions) =
      [[0, 1, 2]] ∧
    (∀ item, .dispatched item ∈ sixTokensInFlight.sched.trace → ∀ t < item.tokenCount,
      (item.positionAt t : Int) < (tinyModel 6).maxSeqLen) ∧
    ∀ b ∈ sixTokensInFlight.pipeline, ∀ activeStateOf,
      (translate unchunked.kvBlockSize activeStateOf
        (sixTokensInFlight.worker.resolveBatch b.batch).items).InRange (tinyModel 6) := by
  have hfits : ∀ req ∈ sixTokensInFlight.sched.trace.filterMap Obs.request?,
      (RequestState.ofRequest unchunked req).maxContextLen ≤ (tinyModel 6).maxSeqLen := by
    decide +kernel
  refine ⟨by decide +kernel, positions_in_range (Reachable.after _ _) (by decide +kernel)
    fun p req hreq => ?_⟩
  exact hfits req (List.mem_filterMap.mpr ⟨_, hreq, rfl⟩)

/-- A valid model with room for two positions, and the request for six. Both configurations and
the request pass all checks, and the first batch already has a position 2. -/
theorem position_out_of_range :
    (tinyModel 2).validate = .ok () ∧ FromHttp some mute sixTokensRequest ∧
    Reachable unchunked sixTokensInFlight ∧
    sixTokensInFlight.sched.trace.filterMap Obs.request? = [sixTokensRequest] ∧
    ∃ b ∈ sixTokensInFlight.pipeline,
      (translate 2 none (sixTokensInFlight.worker.resolveBatch b.batch).items).positions =
        [0, 1, 2] ∧
      ¬ (translate 2 none (sixTokensInFlight.worker.resolveBatch b.batch).items).InRange
        (tinyModel 2) := by
  have hpositions : sixTokensInFlight.pipeline.map (fun b =>
      (translate 2 none (sixTokensInFlight.worker.resolveBatch b.batch).items).positions) =
      [[0, 1, 2]] := by
    decide +kernel
  refine ⟨by decide +kernel, ⟨some sixTokens, ⟨[1, 2, 3], {}, 6⟩, 0, by decide +kernel, by
    decide +kernel⟩, Reachable.after _ _,
    by decide +kernel, ?_⟩
  obtain ⟨b, hb, heq⟩ := List.mem_map.mp (hpositions ▸ List.mem_singleton.mpr rfl :
    [0, 1, 2] ∈ sixTokensInFlight.pipeline.map fun b =>
      (translate 2 none (sixTokensInFlight.worker.resolveBatch b.batch).items).positions)
  refine ⟨b, hb, heq, fun h => ?_⟩
  have := h.positions 2 (by rw [heq]; decide)
  simp [tinyModel] at this

end CcInfer
