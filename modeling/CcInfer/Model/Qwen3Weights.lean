import CcInfer.Config.ModelConfig
import CcInfer.Model.WeightSource

/-!
# `CcInfer.Model.Qwen3Weights`: the weights of a Qwen3 model

The embedding of `model/qwen3/qwen3_weights.cpp`. Sizes are integers; the source computes them in
`int`, and asserts that the sum of the sizes of query, key and value is a `size_t`. The answer of
the device to merging these three goes by the name of the layer.
-/

set_option autoImplicit false

namespace CcInfer

/-- `Qwen3LayerWeights`; the norms of query and key need not be there. -/
structure Qwen3LayerWeights where
  qkv : Tensor
  o : Tensor
  gate : Tensor
  up : Tensor
  down : Tensor
  rmsAttn : Tensor
  rmsFfn : Tensor
  qNorm : Option Tensor
  kNorm : Option Tensor
  deriving DecidableEq, Repr

/-- `Qwen3Weights`. -/
structure Qwen3Weights where
  embed : Tensor
  lmHead : Tensor
  rmsFinal : Tensor
  layers : List Qwen3LayerWeights
  deriving DecidableEq, Repr

/-- `merge_qkv`. -/
def mergeQkv (backend : Backend) (name : Bytes) (q k v : Tensor) (qkvDim dModel : Int) :
    Result Tensor := do
  backend.transfer name
  return { dtype := .bfloat16
           shape := [qkvDim, dModel]
           nbytes := q.nbytes + k.nbytes + v.nbytes
           data := q.data ++ k.data ++ v.data }

namespace Qwen3Weights

variable (backend : Backend) (weights : WeightSource)

/-- The lambda `load_tensor`. The copy starts at the bytes of the tensor, and the shape says how
many there are. -/
def loadTensor (name : Bytes) (shape : List Int) : Result Tensor := do
  let info ← weights.info name
  if info.logicalShape ≠ shape then .error .modelShapeMismatch
  else if info.type ≠ .dense .bfloat16 then .error .modelUnsupportedDType
  else
    let raw ← weights.read name
    Tensor.fromHost backend name raw.fromData .bfloat16 shape

/-- A tensor that is loaded if the source has it. -/
def loadOptional (name : Bytes) (shape : List Int) : Result (Option Tensor) :=
  if weights.has name then (loadTensor backend weights name shape).map some else .ok none

/-- The name of a tensor of layer `i`. -/
def layerName (i : Nat) (suffix : String) : Bytes :=
  bytes ("model.layers." ++ toString i ++ suffix)

/-- One round of the loop over the layers. -/
def loadLayer (config : ModelConfig) (i : Nat) : Result Qwen3LayerWeights := do
  let d := config.dModel
  let nq := config.nQHeads
  let nkv := config.nKvHeads
  let hd := config.headDim
  let load := fun suffix shape => loadTensor backend weights (layerName i suffix) shape
  let o ← load ".self_attn.o_proj.weight" [d, nq * hd]
  let gate ← load ".mlp.gate_proj.weight" [config.dFf, d]
  let up ← load ".mlp.up_proj.weight" [config.dFf, d]
  let down ← load ".mlp.down_proj.weight" [d, config.dFf]
  let rmsAttn ← load ".input_layernorm.weight" [d]
  let rmsFfn ← load ".post_attention_layernorm.weight" [d]
  let q ← load ".self_attn.q_proj.weight" [nq * hd, d]
  let k ← load ".self_attn.k_proj.weight" [nkv * hd, d]
  let v ← load ".self_attn.v_proj.weight" [nkv * hd, d]
  let qkv ← mergeQkv backend (layerName i "") q k v ((nq + 2 * nkv) * hd) d
  let qNorm ← loadOptional backend weights (layerName i ".self_attn.q_norm.weight") [hd]
  let kNorm ← loadOptional backend weights (layerName i ".self_attn.k_norm.weight") [hd]
  return { qkv, o, gate, up, down, rmsAttn, rmsFfn, qNorm, kNorm }

/-- `Qwen3Weights::load`. -/
def load (config : ModelConfig) : Result Qwen3Weights := do
  let d := config.dModel
  let embed ← loadTensor backend weights (bytes "model.embed_tokens.weight") [config.vocabSize, d]
  let lmHead ← loadTensor backend weights (bytes "lm_head.weight") [config.vocabSize, d]
  let rmsFinal ← loadTensor backend weights (bytes "model.norm.weight") [d]
  let layers ← (List.range config.nLayers.toNat).mapM (loadLayer backend weights config)
  return { embed, lmHead, rmsFinal, layers }

end Qwen3Weights

end CcInfer
