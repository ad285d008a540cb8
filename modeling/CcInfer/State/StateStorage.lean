import CcInfer.Config.ModelConfig
import CcInfer.Runtime.Tensor
import Mathlib.Data.List.Induction

/-!
# `CcInfer.State.StateStorage`: the device memory of the GDN states

The embedding of `state/state_storage.cpp`. Each GDN layer has two tensors, and each tensor holds
all states one after the other, so that a state is one slot of every tensor. `zero_state` and
`copy_state` go through the tensors and write the slot in each, and return at the first device call
that fails.
-/

set_option autoImplicit false

namespace CcInfer.Gdn

/-- The outcome of each device call of one function, by its number: `none` if it succeeds, or an
error and what the call left in the bytes it was to write. -/
abbrev Device := Nat → Option (ErrorCode × List UInt8)

/-- One tensor of a layer: the slots of all states. -/
structure StateLayer (numStates : Nat) where
  data : List UInt8
  whole : numStates ∣ data.length

namespace StateLayer

variable {numStates : Nat} (layer : StateLayer numStates)

/-- `state_bytes`. -/
def stateBytes : Nat := layer.data.length / numStates

/-- The bytes of a state: `state_bytes` from `data + state * bytes` on. -/
def slot (state : Nat) : List UInt8 :=
  (layer.data.drop (state * layer.stateBytes)).take layer.stateBytes

/-- Write `state_bytes` bytes from `data + state * bytes` on. -/
def write (state : Nat) (bytes : List UInt8) : StateLayer numStates where
  data := layer.data.mapIdx fun i byte =>
    if state * layer.stateBytes ≤ i ∧ i < (state + 1) * layer.stateBytes then
      bytes.getD (i - state * layer.stateBytes) 0
    else byte
  whole := by
    rw [List.length_mapIdx]
    exact layer.whole

end StateLayer

/-- `StateStorage`. -/
structure StateStorage where
  numStates : Nat
  recurrentLayers : List (StateLayer numStates)
  convLayers : List (StateLayer numStates)

/-- `count_gdn_layers`. -/
def countGdnLayers (config : ModelConfig) : Nat :=
  (config.layerTypes.take config.nLayers.toNat).count .gatedDeltaNet

/-- A tensor of `numStates` slots of zero bytes. -/
def zeroLayer (numStates stateBytes : Nat) : StateLayer numStates where
  data := List.replicate (numStates * stateBytes) 0
  whole := by
    rw [List.length_replicate]
    exact Nat.dvd_mul_right _ _

namespace StateStorage

/-- The shape of a tensor of recurrent states. -/
def recurrentShape (config : ModelConfig) (maxStates : Int) : List Int :=
  let headV := config.ssmInnerSize.tdiv config.ssmTimeStepRank
  [maxStates, config.ssmTimeStepRank, config.ssmStateSize, headV]

/-- The shape of a tensor of convolution states. -/
def convShape (config : ModelConfig) (maxStates : Int) : List Int :=
  let headV := config.ssmInnerSize.tdiv config.ssmTimeStepRank
  let keyDim := toInt32 (config.ssmGroupCount * config.ssmStateSize)
  let valueDim := toInt32 (config.ssmTimeStepRank * headV)
  let convDim := toInt32 (toInt32 (2 * keyDim) + valueDim)
  let convStateLen := config.ssmConvKernel - 1
  [maxStates, convDim, convStateLen]

/-- `StateStorage::create`. `device` is the first failure of the allocations, of the clearing and of
the synchronisation; the sizes are refused before. `ccop::kTensorMaxRank` is taken to be at least
the rank of the two tensors. -/
def create (config : ModelConfig) (maxStates : Int) (device : Result Unit) : Result StateStorage :=
  if config.arch ≠ .qwen35 ∨ maxStates ≤ 0 then .error .invalidArgument
  else
    let nGdn := countGdnLayers config
    if nGdn = 0 then .error .invalidArgument
    else do
      let recurrentBytes ← checkedNbytesDense 4 .float32 (recurrentShape config maxStates)
      let convBytes ← checkedNbytesDense 4 .bfloat16 (convShape config maxStates)
      device
      .ok
        { numStates := maxStates.toNat
          recurrentLayers := List.replicate nGdn (zeroLayer _ (recurrentBytes / maxStates.toNat))
          convLayers := List.replicate nGdn (zeroLayer _ (convBytes / maxStates.toNat)) }

variable (storage : StateStorage)

/-- The number of device calls that go through all tensors. -/
def numLayers : Nat := storage.recurrentLayers.length + storage.convLayers.length

/-- The content of a state: its slot in every tensor. -/
def content (state : Nat) : List (List UInt8) :=
  (storage.recurrentLayers ++ storage.convLayers).map (·.slot state)

/-- The loop over the tensors of one kind in `zero_state` and `copy_state`: write `bytes layer` into
the slot of the state, until a device call fails. `call` counts the device calls. -/
def writeLayers {numStates : Nat} (bytes : StateLayer numStates → List UInt8) (state : Nat)
    (device : Device) : Nat → List (StateLayer numStates) →
      Result Unit × List (StateLayer numStates)
  | _, [] => (.ok (), [])
  | call, layer :: layers =>
    match device call with
    | some (err, left) => (.error err, layer.write state left :: layers)
    | none =>
      let (result, layers) := writeLayers bytes state device (call + 1) layers
      (result, layer.write state (bytes layer) :: layers)

/-- The two loops of `zero_state` and `copy_state`. -/
def writeState (bytes : StateLayer storage.numStates → List UInt8) (state : Nat) (device : Device) :
    Result Unit × StateStorage :=
  match writeLayers bytes state device 0 storage.recurrentLayers with
  | (.error err, recurrent) => (.error err, { storage with recurrentLayers := recurrent })
  | (.ok (), recurrent) =>
    let (result, conv) :=
      writeLayers bytes state device storage.recurrentLayers.length storage.convLayers
    (result, { storage with recurrentLayers := recurrent, convLayers := conv })

/-- `StateStorage::zero_state`. -/
def zeroState (state : Int) (device : Device) : Result Unit × StateStorage :=
  if state < 0 ∨ storage.numStates ≤ state then (.error .invalidArgument, storage)
  else storage.writeState (fun layer => List.replicate layer.stateBytes 0) state.toNat device

/-- `StateStorage::copy_state`. -/
def copyState (src dst : Int) (device : Device) : Result Unit × StateStorage :=
  if src < 0 ∨ storage.numStates ≤ src ∨ dst < 0 ∨ storage.numStates ≤ dst then
    (.error .invalidArgument, storage)
  else storage.writeState (fun layer => layer.slot src.toNat) dst.toNat device

/-- What the forward pass of the model does to a state: it writes its slot in the tensors
`recurrent_state(layer)` and `conv_state(layer)`, with any bytes. -/
def overwrite (state : Nat) (recurrent conv : Nat → List UInt8) : StateStorage :=
  { storage with
    recurrentLayers := storage.recurrentLayers.mapIdx fun i layer => layer.write state (recurrent i)
    convLayers := storage.convLayers.mapIdx fun i layer => layer.write state (conv i) }

end StateStorage

end CcInfer.Gdn
