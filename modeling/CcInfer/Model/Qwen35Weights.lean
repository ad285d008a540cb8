import CcInfer.Config.ModelConfig
import CcInfer.Lib.LittleEndian
import CcInfer.Model.WeightSource
import CcInfer.Quant.Q80Reference

/-!
# `CcInfer.Model.Qwen35Weights`: the weights of a Qwen3.5 model

The embedding of `model/qwen35/qwen35_weights.cpp`. A `float` is its bit pattern, as after
`std::bit_cast`. A vector that is copied to the device is its bytes, lowest byte first in a number.
-/

set_option autoImplicit false

namespace CcInfer

/-- `float_to_bfloat16`. -/
def floatToBfloat16 (bits : UInt32) : UInt16 :=
  let rounding := (0x7FFF : UInt32) + ((bits >>> 16) &&& 1)
  let rounded := bits + rounding
  (rounded >>> 16).toUInt16

/-- `floats_to_bf16`. -/
def floatsToBf16 (floats : List UInt32) : List UInt16 := floats.map floatToBfloat16

/-- `shape_numel`. -/
def shapeNumel (shape : List Int) : Int := shape.foldl (· * ·) 1

/-- Block `i` of the bytes that are copied to `blocks`. -/
def q80Block (raw : Bytes) (i : Nat) : Q80Block :=
  let block := (raw.drop (i * q80BlockBytes)).take q80BlockBytes
  ⟨.ofNat (leValue (block.take 2)), block.drop 2⟩

/-- `read_q8_to_float`. -/
def readQ8ToFloat (ops : FloatOps) (weights : WeightSource) (name : Bytes) (shape : List Int) :
    Result (List UInt32) := do
  let info ← weights.info name
  if info.logicalShape ≠ shape then .error .modelShapeMismatch
  else if info.type ≠ .q8_0 then .error .modelUnsupportedDType
  else
    let numel := shapeNumel shape
    if numel ≤ 0 ∨ numel.tmod q80BlockSize ≠ 0 then .error .modelShapeMismatch
    else
      let blockCount := numel.toNat / q80BlockSize
      let raw ← weights.read name
      if raw.length ≠ blockCount * q80BlockBytes then .error .modelShapeMismatch
      else
        dequantizeQ80Reference ops ((List.range blockCount).map (q80Block raw.bytes)) numel.toNat

/-- `read_f32_to_float`. -/
def readF32ToFloat (weights : WeightSource) (name : Bytes) (shape : List Int) :
    Result (List UInt32) := do
  let info ← weights.info name
  if info.logicalShape ≠ shape then .error .modelShapeMismatch
  else if info.type ≠ .dense .float32 then .error .modelUnsupportedDType
  else
    let numel := shapeNumel shape
    if numel ≤ 0 then .error .modelShapeMismatch
    else
      let raw ← weights.read name
      if raw.length ≠ numel.toNat * 4 then .error .modelShapeMismatch
      else
        .ok ((List.range numel.toNat).map fun i =>
          .ofNat (leValue ((raw.bytes.drop (i * 4)).take 4)))

/-- The bytes of a vector of `uint16_t`. -/
def bf16Bytes (values : List UInt16) : Bytes := values.flatMap fun v => leBytes 2 v.toNat

/-- The bytes of a vector of floats. -/
def floatBytes (values : List UInt32) : Bytes := values.flatMap fun v => leBytes 4 v.toNat

/-- `load_q8_bf16`. -/
def loadQ8Bf16 (ops : FloatOps) (backend : Backend) (weights : WeightSource) (name : Bytes)
    (shape : List Int) : Result Tensor := do
  let floats ← readQ8ToFloat ops weights name shape
  Tensor.fromHost backend name (bf16Bytes (floatsToBf16 floats)) .bfloat16 shape

/-- `load_f32_bf16`. -/
def loadF32Bf16 (backend : Backend) (weights : WeightSource) (name : Bytes) (shape : List Int) :
    Result Tensor := do
  let floats ← readF32ToFloat weights name shape
  Tensor.fromHost backend name (bf16Bytes (floatsToBf16 floats)) .bfloat16 shape

/-- `load_f32`. -/
def loadF32 (backend : Backend) (weights : WeightSource) (name : Bytes) (shape : List Int) :
    Result Tensor := do
  let floats ← readF32ToFloat weights name shape
  Tensor.fromHost backend name (floatBytes floats) .float32 shape

/-- The name of a tensor of a layer: `"blk." + std::to_string(layer) + "." + suffix`. -/
def blk (layer : Nat) (suffix : String) : Bytes :=
  bytes ("blk." ++ toString layer ++ "." ++ suffix)

/-- The rows of every head that start at `first` in the rows of the head: the loop of
`load_q_gate`. -/
def headRows (values : List UInt16) (nHeads headElems first : Nat) : List UInt16 :=
  (List.range nHeads).flatMap fun h =>
    (values.drop (h * 2 * headElems + first)).take headElems

/-- `load_q_gate`: the tensor has query and gate of each head behind each other. -/
def loadQGate (ops : FloatOps) (backend : Backend) (weights : WeightSource) (layer : Nat)
    (nHeads headDim dModel : Int) : Result (Tensor × Tensor) := do
  let name := blk layer "attn_q.weight"
  let floats ← readQ8ToFloat ops weights name [nHeads * 2 * headDim, dModel]
  let all := floatsToBf16 floats
  let headElems := (headDim * dModel).toNat
  let outShape := [nHeads * headDim, dModel]
  let q ← Tensor.fromHost backend name (bf16Bytes (headRows all nHeads.toNat headElems 0))
    .bfloat16 outShape
  let gate ← Tensor.fromHost backend name
    (bf16Bytes (headRows all nHeads.toNat headElems headElems)) .bfloat16 outShape
  return (q, gate)

/-- `Qwen35GdnLayerWeights`. -/
structure Qwen35GdnLayerWeights where
  attnNorm : Tensor
  attnQkv : Tensor
  attnGate : Tensor
  ssmConv1d : Tensor
  ssmAlpha : Tensor
  ssmBeta : Tensor
  ssmOut : Tensor
  ssmNorm : Tensor
  ssmA : Tensor
  ssmDtBias : Tensor
  ffnGate : Tensor
  ffnUp : Tensor
  ffnDown : Tensor
  postAttentionNorm : Tensor
  deriving DecidableEq, Repr

/-- `Qwen35AttnLayerWeights`. -/
structure Qwen35AttnLayerWeights where
  attnNorm : Tensor
  attnQ : Tensor
  attnGate : Tensor
  attnK : Tensor
  attnV : Tensor
  attnQNorm : Tensor
  attnKNorm : Tensor
  attnOutput : Tensor
  ffnGate : Tensor
  ffnUp : Tensor
  ffnDown : Tensor
  postAttentionNorm : Tensor
  deriving DecidableEq, Repr

/-- `Qwen35Weights`; `lm_head` is the embedding. -/
structure Qwen35Weights where
  embed : Tensor
  rmsFinal : Tensor
  gdnLayers : List Qwen35GdnLayerWeights
  attnLayers : List Qwen35AttnLayerWeights
  deriving DecidableEq, Repr

/-- `head_v_dim`. -/
def ModelConfig.headVDim (config : ModelConfig) : Int :=
  config.ssmInnerSize.tdiv config.ssmTimeStepRank

/-- `value_dim`. -/
def ModelConfig.valueDim (config : ModelConfig) : Int := config.ssmTimeStepRank * config.headVDim

/-- `conv_dim`. -/
def ModelConfig.convDim (config : ModelConfig) : Int :=
  2 * (config.ssmGroupCount * config.ssmStateSize) + config.valueDim

section

variable (ops : FloatOps) (backend : Backend) (config : ModelConfig) (weights : WeightSource)

/-- `load_gdn_layer`. -/
def loadGdnLayer (layer : Nat) : Result Qwen35GdnLayerWeights := do
  let d := config.dModel
  let assignQ8 := fun suffix shape => loadQ8Bf16 ops backend weights (blk layer suffix) shape
  let assignF32Bf16 := fun suffix shape => loadF32Bf16 backend weights (blk layer suffix) shape
  let assignF32 := fun suffix shape => loadF32 backend weights (blk layer suffix) shape
  let attnNorm ← assignF32Bf16 "attn_norm.weight" [d]
  let attnQkv ← assignQ8 "attn_qkv.weight" [config.convDim, d]
  let attnGate ← assignQ8 "attn_gate.weight" [config.valueDim, d]
  let ssmConv1d ← assignF32Bf16 "ssm_conv1d.weight" [config.convDim, config.ssmConvKernel]
  let ssmAlpha ← assignQ8 "ssm_alpha.weight" [config.ssmTimeStepRank, d]
  let ssmBeta ← assignQ8 "ssm_beta.weight" [config.ssmTimeStepRank, d]
  let ssmOut ← assignQ8 "ssm_out.weight" [d, config.valueDim]
  let ssmNorm ← assignF32Bf16 "ssm_norm.weight" [config.headVDim]
  let ssmA ← assignF32 "ssm_a" [config.ssmTimeStepRank]
  let ssmDtBias ← assignF32 "ssm_dt.bias" [config.ssmTimeStepRank]
  let ffnGate ← assignQ8 "ffn_gate.weight" [config.dFf, d]
  let ffnUp ← assignQ8 "ffn_up.weight" [config.dFf, d]
  let ffnDown ← assignQ8 "ffn_down.weight" [d, config.dFf]
  let postAttentionNorm ← assignF32Bf16 "post_attention_norm.weight" [d]
  return { attnNorm, attnQkv, attnGate, ssmConv1d, ssmAlpha, ssmBeta, ssmOut, ssmNorm, ssmA,
           ssmDtBias, ffnGate, ffnUp, ffnDown, postAttentionNorm }

/-- `load_attn_layer`. -/
def loadAttnLayer (layer : Nat) : Result Qwen35AttnLayerWeights := do
  let d := config.dModel
  let nq := config.nQHeads
  let nkv := config.nKvHeads
  let hd := config.headDim
  let assignQ8 := fun suffix shape => loadQ8Bf16 ops backend weights (blk layer suffix) shape
  let assignF32Bf16 := fun suffix shape => loadF32Bf16 backend weights (blk layer suffix) shape
  let attnNorm ← assignF32Bf16 "attn_norm.weight" [d]
  let (attnQ, attnGate) ← loadQGate ops backend weights layer nq hd d
  let attnK ← assignQ8 "attn_k.weight" [nkv * hd, d]
  let attnV ← assignQ8 "attn_v.weight" [nkv * hd, d]
  let attnOutput ← assignQ8 "attn_output.weight" [d, nq * hd]
  let attnQNorm ← assignF32Bf16 "attn_q_norm.weight" [hd]
  let attnKNorm ← assignF32Bf16 "attn_k_norm.weight" [hd]
  let ffnGate ← assignQ8 "ffn_gate.weight" [config.dFf, d]
  let ffnUp ← assignQ8 "ffn_up.weight" [config.dFf, d]
  let ffnDown ← assignQ8 "ffn_down.weight" [d, config.dFf]
  let postAttentionNorm ← assignF32Bf16 "post_attention_norm.weight" [d]
  return { attnNorm, attnQ, attnGate, attnK, attnV, attnQNorm, attnKNorm, attnOutput, ffnGate,
           ffnUp, ffnDown, postAttentionNorm }

namespace Qwen35Weights

/-- One round of the loop over the layers. -/
def loadLayer (w : Qwen35Weights) (layer : Nat) : Result Qwen35Weights :=
  if config.layerTypes[layer]? = some .gatedDeltaNet then do
    let layerWeights ← loadGdnLayer ops backend config weights layer
    return { w with gdnLayers := w.gdnLayers ++ [layerWeights] }
  else do
    let layerWeights ← loadAttnLayer ops backend config weights layer
    return { w with attnLayers := w.attnLayers ++ [layerWeights] }

/-- `Qwen35Weights::load`. -/
def load : Result Qwen35Weights := do
  if config.arch ≠ .qwen35 then .error .modelUnsupportedArch
  else
    let d := config.dModel
    let embed ← loadQ8Bf16 ops backend weights (bytes "token_embd.weight") [config.vocabSize, d]
    let rmsFinal ← loadF32Bf16 backend weights (bytes "output_norm.weight") [d]
    (List.range config.nLayers.toNat).foldlM (loadLayer ops backend config weights)
      { embed, rmsFinal, gdnLayers := [], attnLayers := [] }

end Qwen35Weights

end

end CcInfer
