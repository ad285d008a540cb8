import CcInfer.Config.ModelConfig
import CcInfer.Worker.Translate

/-!
# `CcInfer.Model.Qwen3Model`: the range of positions of the model

The embedding of `RopeCache::create` of `model/rope/rope_cache.cpp` and of the parts of
`model/qwen3/qwen3_model.cpp` that bound positions: `Qwen3Model::create` sizes the table of
rotations by `max_seq_len_`, and `forward` asserts that the batch stays inside. The table
itself and the layers of the forward pass are outside the model.
-/

set_option autoImplicit false

namespace CcInfer

/-- `RopeCache`, without its device buffer. -/
structure RopeCache where
  maxPosition : Int
  rotaryDim : Int
  ropeTheta : Option Rat
  deriving DecidableEq, Repr

/-- The tests of `RopeCache::create`. For an `int` the product of its arguments never exceeds
`size_t`, so the second test of the source passes. -/
def RopeCache.create (maxPosition rotaryDim : Int) (ropeTheta : Option Rat) : Result RopeCache :=
  if maxPosition ≤ 0 ∨ rotaryDim ≤ 0 ∨ rotaryDim.tmod 2 ≠ 0 then .error .invalidArgument
  else if !finitePositive ropeTheta then .error .invalidArgument
  else .ok ⟨maxPosition, rotaryDim, ropeTheta⟩

namespace Qwen3Model

/-- The table of rotations that `Qwen3Model::create` asks for. -/
def ropeCache (config : ModelConfig) : Result RopeCache :=
  RopeCache.create config.maxSeqLen config.headDim config.ropeTheta

/-- The assertion of `Qwen3Model::forward` about positions. -/
def positionsFit (rope : RopeCache) (batch : PhysicalBatch) : Bool :=
  decide (0 ≤ (batch.maxPositionId : Int) ∧ (batch.maxPositionId : Int) < rope.maxPosition)

/-- The table has a row for every position below `max_seq_len_`. -/
theorem ropeCache_maxPosition {config : ModelConfig} {rope : RopeCache}
    (h : ropeCache config = .ok rope) : rope.maxPosition = config.maxSeqLen := by
  unfold ropeCache RopeCache.create at h
  split at h
  · cases h
  · split at h
    · cases h
    · cases h
      rfl

end Qwen3Model

end CcInfer
