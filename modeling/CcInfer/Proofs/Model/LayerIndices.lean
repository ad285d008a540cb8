import CcInfer.Checkpoint.GgufConfig
import CcInfer.Lib.Numbering
import CcInfer.Model.Qwen35Model
import CcInfer.Model.Qwen35Weights
import CcInfer.Proofs.State.Storage

/-!
# `CcInfer.Proofs.Model.LayerIndices`: the layers of a Qwen3.5 model are numbered in one way

The main layers of a Qwen3.5 model have full attention or a GDN state. Five loops count them by
type: `GgufConfigLoader::load`, `count_layer_type`, `count_gdn_layers`, `index_for_layer_type` and
`Qwen35Weights::load`. The last one takes every layer that is not a GDN layer for one with full
attention, which is right since the layers of the MTP predictor stand behind the main layers.
-/

set_option autoImplicit false

namespace CcInfer.Qwen35

open Gguf (GgufReader)
open Gguf.GgufConfigLoader (loadFields layerTypes mainLayerType)
open Numbering (Collected)
open Fallible (bind_eq_ok_iff)

/-! ### The types of the layers -/

/-- Layer `l` of the configuration has the type. -/
def HasType (config : ModelConfig) (type : LayerType) (l : Nat) : Prop :=
  config.layerTypes[l]? = some type

instance (config : ModelConfig) (type : LayerType) : DecidablePred (HasType config type) :=
  fun _ => inferInstanceAs (Decidable (_ = _))

/-- The main layers of a type. -/
def mainLayers (config : ModelConfig) (type : LayerType) : Set Nat :=
  {l | l < config.nLayers.toNat ∧ HasType config type l}

section

variable (config : ModelConfig) (type : LayerType)
include config type

theorem indexForLayerType_eq_count (l : Nat) :
    indexForLayerType config l type = Nat.count (HasType config type) l :=
  Numbering.count_take config.layerTypes type l

theorem countLayerType_eq_count :
    countLayerType config type = Nat.count (HasType config type) config.nLayers.toNat :=
  Numbering.count_take config.layerTypes type _

/-- The main layers of a type are numbered without gaps. -/
theorem bijOn_indexForLayerType :
    Set.BijOn (fun l => indexForLayerType config l type) (mainLayers config type)
      (Set.Iio (countLayerType config type)) := by
  rw [countLayerType_eq_count]
  refine (Numbering.bijOn_count _).congr ?_
  intro l _
  exact (indexForLayerType_eq_count config type l).symm

theorem strictMonoOn_indexForLayerType :
    StrictMonoOn (fun l => indexForLayerType config l type) (mainLayers config type) := by
  intro l hl m hm hlt
  simp only [indexForLayerType_eq_count]
  exact Numbering.strictMonoOn_count _ hl hm hlt

end

/-- The configuration is one of the loader: its layer types are those that the loader writes. -/
structure FromLoader (config : ModelConfig) : Prop where
  arch : config.arch = .qwen35
  pos : 0 < config.nLayers
  layerTypes_eq : config.layerTypes =
    layerTypes config.nLayers config.fullAttentionInterval config.nextnPredictLayers

/-- The loader writes the types in its pattern. -/
theorem loadFields_fromLoader {toFloat : Rat → Option Rat} {reader : GgufReader}
    {config : ModelConfig} (h : loadFields toFloat reader = .ok config) : FromLoader config := by
  unfold loadFields at h
  -- every field is read, and the first one that fails ends the function
  iterate 9 obtain ⟨_, -, h⟩ := bind_eq_ok_iff.mp h
  simp only at h
  split at h
  · cases h
  · rename_i hpos
    iterate 9 obtain ⟨_, -, h⟩ := bind_eq_ok_iff.mp h
    obtain ⟨-, -, h⟩ := bind_eq_ok_iff.mp h
    obtain rfl := Except.ok.inj h
    exact ⟨rfl, not_le.mp hpos, rfl⟩

theorem load_fromLoader {toFloat : Rat → Option Rat} {reader : GgufReader} {config : ModelConfig}
    (h : Gguf.GgufConfigLoader.load toFloat reader = .ok (.ok config)) : FromLoader config := by
  unfold Gguf.GgufConfigLoader.load at h
  split at h
  · cases h
  · obtain ⟨_, -, h⟩ := bind_eq_ok_iff.mp h
    have h := Except.ok.inj h
    split at h
    · cases h
    · exact loadFields_fromLoader h

namespace FromLoader

variable {config : ModelConfig} (h : FromLoader config) {l : Nat}

include h

theorem main_type (hl : l < config.nLayers.toNat) :
    config.layerTypes[l]? = some (mainLayerType config.fullAttentionInterval l) := by
  rw [h.layerTypes_eq, layerTypes, List.getElem?_append_left (by simpa using hl),
    List.getElem?_map, List.getElem?_range hl]
  rfl

/-- A main layer that is no GDN layer has full attention. -/
theorem full_iff (hl : l < config.nLayers.toNat) :
    HasType config .fullAttention l ↔ ¬HasType config .gatedDeltaNet l := by
  unfold HasType
  rw [h.main_type hl, mainLayerType]
  split <;> decide

theorem total : (numKvLayers config + numGdnLayers config : Int) = config.nLayers := by
  have hcount := Numbering.count_add_count (p := HasType config .gatedDeltaNet)
    (q := HasType config .fullAttention) fun l (hl : l < config.nLayers.toNat) => h.full_iff hl
  have hpos := h.pos
  rw [numKvLayers, numGdnLayers, countLayerType_eq_count, countLayerType_eq_count]
  omega

end FromLoader

/-! ### The weights of a layer -/

section

variable (ops : FloatOps) (backend : Backend) (config : ModelConfig) (weights : WeightSource)

/-- A GDN layer holds the tensors of the checkpoint that are named after layer `l`. -/
structure GdnNamedAfter (l : Nat) (w : Qwen35GdnLayerWeights) : Prop where
  attnNorm : loadF32Bf16 backend weights (blk l "attn_norm.weight") [config.dModel] =
    .ok w.attnNorm
  attnQkv : loadQ8Bf16 ops backend weights (blk l "attn_qkv.weight")
    [config.convDim, config.dModel] = .ok w.attnQkv
  attnGate : loadQ8Bf16 ops backend weights (blk l "attn_gate.weight")
    [config.valueDim, config.dModel] = .ok w.attnGate
  ssmConv1d : loadF32Bf16 backend weights (blk l "ssm_conv1d.weight")
    [config.convDim, config.ssmConvKernel] = .ok w.ssmConv1d
  ssmAlpha : loadQ8Bf16 ops backend weights (blk l "ssm_alpha.weight")
    [config.ssmTimeStepRank, config.dModel] = .ok w.ssmAlpha
  ssmBeta : loadQ8Bf16 ops backend weights (blk l "ssm_beta.weight")
    [config.ssmTimeStepRank, config.dModel] = .ok w.ssmBeta
  ssmOut : loadQ8Bf16 ops backend weights (blk l "ssm_out.weight")
    [config.dModel, config.valueDim] = .ok w.ssmOut
  ssmNorm : loadF32Bf16 backend weights (blk l "ssm_norm.weight") [config.headVDim] =
    .ok w.ssmNorm
  ssmA : loadF32 backend weights (blk l "ssm_a") [config.ssmTimeStepRank] = .ok w.ssmA
  ssmDtBias : loadF32 backend weights (blk l "ssm_dt.bias") [config.ssmTimeStepRank] =
    .ok w.ssmDtBias
  ffnGate : loadQ8Bf16 ops backend weights (blk l "ffn_gate.weight")
    [config.dFf, config.dModel] = .ok w.ffnGate
  ffnUp : loadQ8Bf16 ops backend weights (blk l "ffn_up.weight")
    [config.dFf, config.dModel] = .ok w.ffnUp
  ffnDown : loadQ8Bf16 ops backend weights (blk l "ffn_down.weight")
    [config.dModel, config.dFf] = .ok w.ffnDown
  postAttentionNorm : loadF32Bf16 backend weights (blk l "post_attention_norm.weight")
    [config.dModel] = .ok w.postAttentionNorm

/-- A layer with full attention holds the tensors of the checkpoint that are named after layer `l`.
Query and gate are the two halves of every head of one tensor. -/
structure AttnNamedAfter (l : Nat) (w : Qwen35AttnLayerWeights) : Prop where
  attnNorm : loadF32Bf16 backend weights (blk l "attn_norm.weight") [config.dModel] =
    .ok w.attnNorm
  attnQGate : loadQGate ops backend weights l config.nQHeads config.headDim config.dModel =
    .ok (w.attnQ, w.attnGate)
  attnK : loadQ8Bf16 ops backend weights (blk l "attn_k.weight")
    [config.nKvHeads * config.headDim, config.dModel] = .ok w.attnK
  attnV : loadQ8Bf16 ops backend weights (blk l "attn_v.weight")
    [config.nKvHeads * config.headDim, config.dModel] = .ok w.attnV
  attnOutput : loadQ8Bf16 ops backend weights (blk l "attn_output.weight")
    [config.dModel, config.nQHeads * config.headDim] = .ok w.attnOutput
  attnQNorm : loadF32Bf16 backend weights (blk l "attn_q_norm.weight") [config.headDim] =
    .ok w.attnQNorm
  attnKNorm : loadF32Bf16 backend weights (blk l "attn_k_norm.weight") [config.headDim] =
    .ok w.attnKNorm
  ffnGate : loadQ8Bf16 ops backend weights (blk l "ffn_gate.weight")
    [config.dFf, config.dModel] = .ok w.ffnGate
  ffnUp : loadQ8Bf16 ops backend weights (blk l "ffn_up.weight")
    [config.dFf, config.dModel] = .ok w.ffnUp
  ffnDown : loadQ8Bf16 ops backend weights (blk l "ffn_down.weight")
    [config.dModel, config.dFf] = .ok w.ffnDown
  postAttentionNorm : loadF32Bf16 backend weights (blk l "post_attention_norm.weight")
    [config.dModel] = .ok w.postAttentionNorm

variable {ops backend config weights} {l : Nat}

/-- The tensors of a GDN layer carry its number. -/
theorem loadGdnLayer_namedAfter {w : Qwen35GdnLayerWeights}
    (h : loadGdnLayer ops backend config weights l = .ok w) :
    GdnNamedAfter ops backend config weights l w := by
  unfold loadGdnLayer at h
  obtain ⟨_, attnNorm, h⟩ := bind_eq_ok_iff.mp h
  obtain ⟨_, attnQkv, h⟩ := bind_eq_ok_iff.mp h
  obtain ⟨_, attnGate, h⟩ := bind_eq_ok_iff.mp h
  obtain ⟨_, ssmConv1d, h⟩ := bind_eq_ok_iff.mp h
  obtain ⟨_, ssmAlpha, h⟩ := bind_eq_ok_iff.mp h
  obtain ⟨_, ssmBeta, h⟩ := bind_eq_ok_iff.mp h
  obtain ⟨_, ssmOut, h⟩ := bind_eq_ok_iff.mp h
  obtain ⟨_, ssmNorm, h⟩ := bind_eq_ok_iff.mp h
  obtain ⟨_, ssmA, h⟩ := bind_eq_ok_iff.mp h
  obtain ⟨_, ssmDtBias, h⟩ := bind_eq_ok_iff.mp h
  obtain ⟨_, ffnGate, h⟩ := bind_eq_ok_iff.mp h
  obtain ⟨_, ffnUp, h⟩ := bind_eq_ok_iff.mp h
  obtain ⟨_, ffnDown, h⟩ := bind_eq_ok_iff.mp h
  obtain ⟨_, postAttentionNorm, h⟩ := bind_eq_ok_iff.mp h
  obtain rfl := Except.ok.inj h
  exact ⟨attnNorm, attnQkv, attnGate, ssmConv1d, ssmAlpha, ssmBeta, ssmOut, ssmNorm, ssmA,
    ssmDtBias, ffnGate, ffnUp, ffnDown, postAttentionNorm⟩

/-- So do those of an attention layer. -/
theorem loadAttnLayer_namedAfter {w : Qwen35AttnLayerWeights}
    (h : loadAttnLayer ops backend config weights l = .ok w) :
    AttnNamedAfter ops backend config weights l w := by
  unfold loadAttnLayer at h
  obtain ⟨_, attnNorm, h⟩ := bind_eq_ok_iff.mp h
  obtain ⟨⟨_, _⟩, attnQGate, h⟩ := bind_eq_ok_iff.mp h
  obtain ⟨_, attnK, h⟩ := bind_eq_ok_iff.mp h
  obtain ⟨_, attnV, h⟩ := bind_eq_ok_iff.mp h
  obtain ⟨_, attnOutput, h⟩ := bind_eq_ok_iff.mp h
  obtain ⟨_, attnQNorm, h⟩ := bind_eq_ok_iff.mp h
  obtain ⟨_, attnKNorm, h⟩ := bind_eq_ok_iff.mp h
  obtain ⟨_, ffnGate, h⟩ := bind_eq_ok_iff.mp h
  obtain ⟨_, ffnUp, h⟩ := bind_eq_ok_iff.mp h
  obtain ⟨_, ffnDown, h⟩ := bind_eq_ok_iff.mp h
  obtain ⟨_, postAttentionNorm, h⟩ := bind_eq_ok_iff.mp h
  obtain rfl := Except.ok.inj h
  exact ⟨attnNorm, attnQGate, attnK, attnV, attnOutput, attnQNorm, attnKNorm, ffnGate, ffnUp,
    ffnDown, postAttentionNorm⟩

/-! ### The loop over the layers -/

/-- One round keeps both lists in step with the layers gone through. -/
theorem loadLayer_collected (hconfig : FromLoader config) (hl : l < config.nLayers.toNat)
    {w w' : Qwen35Weights} (h : Qwen35Weights.loadLayer ops backend config weights w l = .ok w')
    (hgdn : Collected (HasType config .gatedDeltaNet) (loadGdnLayer ops backend config weights) l
      w.gdnLayers)
    (hattn : Collected (HasType config .fullAttention) (loadAttnLayer ops backend config weights) l
      w.attnLayers) :
    Collected (HasType config .gatedDeltaNet) (loadGdnLayer ops backend config weights) (l + 1)
      w'.gdnLayers ∧
    Collected (HasType config .fullAttention) (loadAttnLayer ops backend config weights) (l + 1)
      w'.attnLayers := by
  have hfull := hconfig.full_iff hl
  unfold Qwen35Weights.loadLayer at h
  split at h
  · rename_i htype
    obtain ⟨_, hload, h⟩ := bind_eq_ok_iff.mp h
    obtain rfl := Except.ok.inj h
    exact ⟨hgdn.push htype hload, hattn.skip fun hattn => hfull.mp hattn htype⟩
  · rename_i htype
    obtain ⟨_, hload, h⟩ := bind_eq_ok_iff.mp h
    obtain rfl := Except.ok.inj h
    exact ⟨hgdn.skip htype, hattn.push (hfull.mpr htype) hload⟩

/-- By induction on the layers that were loaded. -/
theorem loadLayers_collected (hconfig : FromLoader config) {w₀ : Qwen35Weights}
    (hempty : w₀.gdnLayers = [] ∧ w₀.attnLayers = []) (n : Nat) (hn : n ≤ config.nLayers.toNat) :
    ∀ w, (List.range n).foldlM (Qwen35Weights.loadLayer ops backend config weights) w₀ = .ok w →
      Collected (HasType config .gatedDeltaNet) (loadGdnLayer ops backend config weights) n
        w.gdnLayers ∧
      Collected (HasType config .fullAttention) (loadAttnLayer ops backend config weights) n
        w.attnLayers := by
  induction n with
  | zero =>
    intro w h
    obtain rfl := Except.ok.inj h
    rw [hempty.1, hempty.2]
    exact ⟨.nil, .nil⟩
  | succ n ih =>
    intro w h
    rw [List.range_succ, List.foldlM_append] at h
    obtain ⟨w₁, hrest, hlast⟩ := bind_eq_ok_iff.mp h
    obtain ⟨_, hround, h⟩ := bind_eq_ok_iff.mp hlast
    obtain rfl := Except.ok.inj h
    obtain ⟨hgdn, hattn⟩ := ih (by omega) w₁ hrest
    exact loadLayer_collected hconfig hn hround hgdn hattn

/-- All main layers. -/
theorem load_collected (hconfig : FromLoader config) {w : Qwen35Weights}
    (h : Qwen35Weights.load ops backend config weights = .ok w) :
    Collected (HasType config .gatedDeltaNet) (loadGdnLayer ops backend config weights)
      config.nLayers.toNat w.gdnLayers ∧
    Collected (HasType config .fullAttention) (loadAttnLayer ops backend config weights)
      config.nLayers.toNat w.attnLayers := by
  unfold Qwen35Weights.load at h
  split at h
  · cases h
  · obtain ⟨_, -, h⟩ := bind_eq_ok_iff.mp h
    obtain ⟨_, -, h⟩ := bind_eq_ok_iff.mp h
    exact loadLayers_collected hconfig ⟨rfl, rfl⟩ _ le_rfl w h

/-! ### All parts -/

variable (ops backend config weights) in
/-- The layers of one type have the same numbers everywhere. -/
structure LayersAgree (w : Qwen35Weights) : Prop where
  total : (numKvLayers config + numGdnLayers config : Int) = config.nLayers
  kv_bijOn : Set.BijOn (kvLayerIndex config) (mainLayers config .fullAttention)
    (Set.Iio (numKvLayers config))
  kv_strictMonoOn : StrictMonoOn (kvLayerIndex config) (mainLayers config .fullAttention)
  gdn_bijOn : Set.BijOn (gdnLayerIndex config) (mainLayers config .gatedDeltaNet)
    (Set.Iio (numGdnLayers config))
  gdn_strictMonoOn : StrictMonoOn (gdnLayerIndex config) (mainLayers config .gatedDeltaNet)
  attnLayers_length : w.attnLayers.length = numKvLayers config
  gdnLayers_length : w.gdnLayers.length = numGdnLayers config
  attnLayers : ∀ l ∈ mainLayers config .fullAttention, ∃ layer,
    w.attnLayers[kvLayerIndex config l]? = some layer ∧
      AttnNamedAfter ops backend config weights l layer
  gdnLayers : ∀ l ∈ mainLayers config .gatedDeltaNet, ∃ layer,
    w.gdnLayers[gdnLayerIndex config l]? = some layer ∧
      GdnNamedAfter ops backend config weights l layer
  storage : ∀ maxStates device storage,
    Gdn.StateStorage.create config maxStates device = .ok storage →
      storage.recurrentLayers.length = numGdnLayers config ∧
        storage.convLayers.length = numGdnLayers config
  storage_created : ∀ maxStates device,
    (∃ storage, Gdn.StateStorage.create config maxStates device = .ok storage) ↔
      0 < numGdnLayers config ∧ Gdn.StateStorage.Sized config maxStates ∧ device = .ok ()

end

/-- The metadata of a small model: a GDN layer, a layer with full attention, and a layer of the
predictor. -/
def smallReader : GgufReader where
  version := 3
  metadata :=
    [(bytes "general.architecture", .string (bytes "qwen35")),
      (bytes "qwen35.rope.freq_base", .f32 0x3F800000),
      (bytes "qwen35.attention.layer_norm_rms_epsilon", .f32 0x3F800000)] ++
    [("block_count", 3), ("embedding_length", 32), ("feed_forward_length", 1),
      ("attention.head_count", 1), ("attention.head_count_kv", 1), ("attention.key_length", 2),
      ("context_length", 1), ("full_attention_interval", 2), ("nextn_predict_layers", 1),
      ("ssm.conv_kernel", 2), ("ssm.state_size", 1), ("ssm.group_count", 1),
      ("ssm.time_step_rank", 1), ("ssm.inner_size", 1), ("rope.dimension_count", 2)].map
      fun (key, v) => (bytes ("qwen35." ++ key), .u32 (BitVec.ofNat 32 v))
  tensors := [⟨bytes "token_embd.weight", [32, 1], .q8_0, 0⟩]
  dataStart := 0

/-- The configuration of the small model. -/
def smallConfig : ModelConfig where
  arch := .qwen35
  nLayers := 2
  nQHeads := 1
  nKvHeads := 1
  dModel := 32
  headDim := 2
  rotaryDim := 2
  dFf := 1
  vocabSize := 1
  maxSeqLen := 1
  ropeTheta := some 1
  rmsNormEps := some 1
  fullAttentionInterval := 2
  nextnPredictLayers := 1
  ssmConvKernel := 2
  ssmStateSize := 1
  ssmGroupCount := 1
  ssmTimeStepRank := 1
  ssmInnerSize := 1
  layerTypes := [.gatedDeltaNet, .fullAttention, .mtpPredictor]

/-- The quantized tensors of the small model, with their shapes. -/
def smallQ8 : List (Bytes × List Int) :=
  [(bytes "token_embd.weight", [1, 32]), (blk 0 "attn_qkv.weight", [3, 32]),
    (blk 0 "attn_gate.weight", [1, 32]), (blk 0 "ssm_alpha.weight", [1, 32]),
    (blk 0 "ssm_beta.weight", [1, 32]), (blk 0 "ssm_out.weight", [32, 1]),
    (blk 0 "ffn_gate.weight", [1, 32]), (blk 0 "ffn_up.weight", [1, 32]),
    (blk 0 "ffn_down.weight", [32, 1]), (blk 1 "attn_q.weight", [4, 32]),
    (blk 1 "attn_k.weight", [2, 32]), (blk 1 "attn_v.weight", [2, 32]),
    (blk 1 "attn_output.weight", [32, 2]), (blk 1 "ffn_gate.weight", [1, 32]),
    (blk 1 "ffn_up.weight", [1, 32]), (blk 1 "ffn_down.weight", [32, 1])]

/-- The F32 tensors of the small model, with their shapes. -/
def smallF32 : List (Bytes × List Int) :=
  [(bytes "output_norm.weight", [32]), (blk 0 "attn_norm.weight", [32]),
    (blk 0 "ssm_conv1d.weight", [3, 2]), (blk 0 "ssm_norm.weight", [1]), (blk 0 "ssm_a", [1]),
    (blk 0 "ssm_dt.bias", [1]), (blk 0 "post_attention_norm.weight", [32]),
    (blk 1 "attn_norm.weight", [32]), (blk 1 "attn_q_norm.weight", [2]),
    (blk 1 "attn_k_norm.weight", [2]), (blk 1 "post_attention_norm.weight", [32])]

/-- A checkpoint of zeros for the small model. -/
def smallWeights : WeightSource where
  has _ := true
  info name :=
    match smallQ8.lookup name, smallF32.lookup name with
    | some shape, _ => .ok ⟨shape, .q8_0, 0, 0⟩
    | none, some shape => .ok ⟨shape, .dense .float32, 0, 0⟩
    | none, none => .error .modelLoadFailed
  read name :=
    let size := match smallQ8.lookup name, smallF32.lookup name with
      | some shape, _ => (shapeNumel shape).toNat / q80BlockSize * q80BlockBytes
      | none, some shape => (shapeNumel shape).toNat * 4
      | none, none => 0
    .ok ⟨List.replicate size 0, 0, size⟩

/-- A device that grants everything. -/
def smallBackend : Backend := ⟨8, fun _ => .ok ()⟩

end CcInfer.Qwen35
