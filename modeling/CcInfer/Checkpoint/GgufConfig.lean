import CcInfer.Checkpoint.GgufMetadata
import CcInfer.Config.ModelConfig

/-!
# `CcInfer.Checkpoint.GgufConfig`: the model configuration of a GGUF file

The embedding of `checkpoint/gguf/config_loader.cpp`. The architecture is read with `as_string`,
which may throw; the rest of `load` reads integers and floats through optionals and is a function
into `Result` (`loadFields`).
-/

set_option autoImplicit false

namespace CcInfer.Gguf.GgufConfigLoader

/-- `metadata_u64`. -/
def metadataU64 (reader : GgufReader) (key : String) : Option Nat :=
  (reader.findMetadata key).bind MetadataValue.asU64

/-- `metadata_f32`. -/
def metadataF32 (toFloat : Rat → Option Rat) (reader : GgufReader) (key : String) :
    Option (Option Rat) :=
  (reader.findMetadata key).bind (MetadataValue.asF32 toFloat)

/-- `metadata_int`. -/
def metadataInt (reader : GgufReader) (key : String) : Option Int :=
  match metadataU64 reader key with
  | none => none
  | some v => if 2 ^ 31 - 1 < v then none else some v

/-- The lambda `get_int`. -/
def getInt (reader : GgufReader) (key : String) : Result Int :=
  match metadataInt reader key with
  | none => .error .modelConfigInvalid
  | some v => .ok v

/-- A float that must be there. -/
def getFloat (toFloat : Rat → Option Rat) (reader : GgufReader) (key : String) :
    Result (Option Rat) :=
  match metadataF32 toFloat reader key with
  | none => .error .modelConfigInvalid
  | some v => .ok v

/-- The type of main layer `i`. -/
def mainLayerType (fullAttentionInterval i : Int) : LayerType :=
  if 0 < fullAttentionInterval ∧ i.tmod fullAttentionInterval = fullAttentionInterval - 1 then
    .fullAttention
  else .gatedDeltaNet

/-- The two loops that fill `layer_types_`. -/
def layerTypes (nLayers fullAttentionInterval nextnPredictLayers : Int) : List LayerType :=
  (List.range nLayers.toNat).map (fun (i : Nat) => mainLayerType fullAttentionInterval i) ++
    List.replicate nextnPredictLayers.toNat .mtpPredictor

/-- The size of the vocabulary: the outermost dimension of `token_embd.weight`. The tokens of an
embedded tokenizer must be as many. -/
def vocabSize (reader : GgufReader) : Result Int :=
  match (reader.findTensor (bytes "token_embd.weight")).bind fun info => info.dims.getLast? with
  | none => .error .modelLoadFailed
  | some dim =>
    match reader.findArray "tokenizer.ggml.tokens" with
    | none => .ok (toInt32 dim)
    | some tokens =>
      if toInt32 tokens.length ≠ toInt32 dim then .error .modelConfigInvalid
      else .ok (toInt32 dim)

/-- `GgufConfigLoader::load` behind the check of the architecture. -/
def loadFields (toFloat : Rat → Option Rat) (reader : GgufReader) : Result ModelConfig := do
  let blockCount ← getInt reader "qwen35.block_count"
  let embeddingLength ← getInt reader "qwen35.embedding_length"
  let feedForwardLength ← getInt reader "qwen35.feed_forward_length"
  let headCount ← getInt reader "qwen35.attention.head_count"
  let headCountKv ← getInt reader "qwen35.attention.head_count_kv"
  let keyLength ← getInt reader "qwen35.attention.key_length"
  let contextLength ← getInt reader "qwen35.context_length"
  let fullAttentionInterval ← getInt reader "qwen35.full_attention_interval"
  let nextnPredictLayers ← getInt reader "qwen35.nextn_predict_layers"
  let nLayers := blockCount - nextnPredictLayers
  if nLayers ≤ 0 then .error .modelConfigInvalid
  else
    let ssmConvKernel ← getInt reader "qwen35.ssm.conv_kernel"
    let ssmStateSize ← getInt reader "qwen35.ssm.state_size"
    let ssmGroupCount ← getInt reader "qwen35.ssm.group_count"
    let ssmTimeStepRank ← getInt reader "qwen35.ssm.time_step_rank"
    let ssmInnerSize ← getInt reader "qwen35.ssm.inner_size"
    let ropeTheta ← getFloat toFloat reader "qwen35.rope.freq_base"
    let rotaryDim ← getInt reader "qwen35.rope.dimension_count"
    let rmsNormEps ← getFloat toFloat reader "qwen35.attention.layer_norm_rms_epsilon"
    let vocabSize ← vocabSize reader
    let cfg : ModelConfig :=
      { arch := .qwen35
        nLayers, vocabSize, ropeTheta, rotaryDim, rmsNormEps
        fullAttentionInterval, nextnPredictLayers
        nQHeads := headCount
        nKvHeads := headCountKv
        headDim := keyLength
        dModel := embeddingLength
        dFf := feedForwardLength
        maxSeqLen := contextLength
        ssmConvKernel, ssmStateSize, ssmGroupCount, ssmTimeStepRank, ssmInnerSize
        layerTypes := layerTypes nLayers fullAttentionInterval nextnPredictLayers }
    cfg.validate
    .ok cfg

/-- `GgufConfigLoader::load`. -/
def load (toFloat : Rat → Option Rat) (reader : GgufReader) :
    Except Exception (Result ModelConfig) :=
  match reader.findMetadata "general.architecture" with
  | none => .ok (.error .modelUnsupportedArch)
  | some arch => do
    let name ← arch.asString
    return if name ≠ bytes "qwen35" then .error .modelUnsupportedArch
      else loadFields toFloat reader

end CcInfer.Gguf.GgufConfigLoader
