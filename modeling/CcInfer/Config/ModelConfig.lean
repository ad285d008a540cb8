import CcInfer.Base.Types

/-!
# `CcInfer.Config.ModelConfig`: the description of a model

The embedding of `ModelConfig` and its `validate` from `config/model_config.cpp`. A float is
the rational that it stands for, and `none` if it is not finite.
-/

set_option autoImplicit false

namespace CcInfer

/-- `ModelArch`. -/
inductive ModelArch
  | qwen3
  | qwen35
  | unknown
  deriving DecidableEq, Repr

/-- `LayerType`. -/
inductive LayerType
  | fullAttention
  | gatedDeltaNet
  | mtpPredictor
  deriving DecidableEq, Repr

/-- `ModelConfig`. -/
structure ModelConfig where
  arch : ModelArch := .unknown
  nLayers : Int := 0
  nQHeads : Int := 0
  nKvHeads : Int := 0
  dModel : Int := 0
  headDim : Int := 0
  rotaryDim : Int := 0
  dFf : Int := 0
  vocabSize : Int := 0
  maxSeqLen : Int := 0
  ropeTheta : Option Rat := some 10000
  rmsNormEps : Option Rat := some (1 / 1000000)
  fullAttentionInterval : Int := 0
  nextnPredictLayers : Int := 0
  ssmConvKernel : Int := 0
  ssmStateSize : Int := 0
  ssmGroupCount : Int := 0
  ssmTimeStepRank : Int := 0
  ssmInnerSize : Int := 0
  layerTypes : List LayerType := []
  deriving DecidableEq, Repr

/-- `std::isfinite(x) && x > 0`. -/
def finitePositive : Option Rat → Bool
  | none => false
  | some x => decide (0 < x)

/-- `ModelConfig::validate`. The last test of the source, over `layer_types_`, passes for every
value of `LayerType`. -/
def ModelConfig.validate (c : ModelConfig) : Result Unit :=
  if c.arch = .unknown then .error .modelUnsupportedArch
  else if c.nLayers ≤ 0 ∨ c.nQHeads ≤ 0 ∨ c.nKvHeads ≤ 0 ∨ c.headDim ≤ 0 ∨ c.dModel ≤ 0 ∨
      c.dFf ≤ 0 ∨ c.vocabSize ≤ 0 ∨ c.maxSeqLen ≤ 0 then .error .modelConfigInvalid
  else if c.nKvHeads > c.nQHeads ∨ c.nQHeads.tmod c.nKvHeads ≠ 0 then .error .modelConfigInvalid
  else if !finitePositive c.ropeTheta || !finitePositive c.rmsNormEps then
    .error .modelConfigInvalid
  else if c.arch = .qwen35 then
    if c.fullAttentionInterval ≤ 0 ∨ c.ssmConvKernel ≤ 0 ∨ c.ssmStateSize ≤ 0 ∨
        c.ssmGroupCount ≤ 0 ∨ c.ssmTimeStepRank ≤ 0 ∨ c.ssmInnerSize ≤ 0 ∨ c.rotaryDim ≤ 0 ∨
        c.rotaryDim > c.headDim ∨ c.rotaryDim.tmod 2 ≠ 0 then .error .modelConfigInvalid
    else if c.ssmInnerSize.tmod c.ssmTimeStepRank ≠ 0 ∨
        c.ssmInnerSize.tdiv c.ssmTimeStepRank ≠ c.ssmStateSize then .error .modelConfigInvalid
    else if (c.layerTypes.length : Int) ≠ c.nLayers + c.nextnPredictLayers then
      .error .modelConfigInvalid
    else .ok ()
  else .ok ()

/-- A valid model can hold at least one position. -/
theorem ModelConfig.maxSeqLen_pos {c : ModelConfig} (h : c.validate = .ok ()) :
    0 < c.maxSeqLen := by
  by_contra hle
  have hsizes : c.nLayers ≤ 0 ∨ c.nQHeads ≤ 0 ∨ c.nKvHeads ≤ 0 ∨ c.headDim ≤ 0 ∨ c.dModel ≤ 0 ∨
      c.dFf ≤ 0 ∨ c.vocabSize ≤ 0 ∨ c.maxSeqLen ≤ 0 := by
    omega
  unfold validate at h
  split at h
  · cases h
  · cases h

end CcInfer
