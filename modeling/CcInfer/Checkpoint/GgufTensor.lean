import CcInfer.Checkpoint.GgufReader

/-!
# `CcInfer.Checkpoint.GgufTensor`: the bytes of a tensor in a GGUF file

The embedding of `tensor_numel`, `GGUFReader::tensor_bytes` and `GGUFReader::raw_tensor_data` of
`checkpoint/gguf/reader.cpp`. The dimensions are `int64_t`, and the product of them is computed
under a guard, so that it is an integer here. Sizes and offsets are `uint64_t` and wrap.
-/

set_option autoImplicit false

namespace CcInfer.Gguf

/-- `std::numeric_limits<int64_t>::max()`. -/
def int64Max : Int := 2 ^ 63 - 1

/-- The loop of `tensor_numel`, with `n` elements counted so far. -/
def numelLoop (n : Int) : List Int → Int
  | [] => n
  | dim :: rest =>
    if dim ≤ 0 then 0
    else if int64Max / dim < n then 0
    else numelLoop (n * dim) rest

/-- `tensor_numel`. -/
def tensorNumel (info : TensorInfo) : Int :=
  if info.dims.isEmpty then 0 else numelLoop 1 info.dims

/-- A tensor of numbers of `elementSize` bytes each. -/
def plainBytes (info : TensorInfo) (elementSize : BitVec 64) : Result (BitVec 64) :=
  let n := tensorNumel info
  if n ≤ 0 then .error .modelShapeMismatch else .ok (BitVec.ofInt 64 n * elementSize)

/-- `GGUFReader::tensor_bytes`. The raw dimensions are in reverse order. -/
def tensorBytes (q80StorageBytes : List Int → Option (BitVec 64)) (info : TensorInfo) :
    Result (BitVec 64) :=
  match info.type with
  | .f32 => plainBytes info 4
  | .f16 | .bf16 => plainBytes info 2
  | .q8_0 =>
    match q80StorageBytes info.dims.reverse with
    | none => .error .modelShapeMismatch
    | some bytes => .ok bytes

/-- `GGUFReader::raw_tensor_data`, for a mapped file of `size` bytes. -/
def rawTensorData (q80StorageBytes : List Int → Option (BitVec 64)) (reader : GgufReader)
    (size : Nat) (info : TensorInfo) : Result (Nat × Nat) := do
  let bytes ← tensorBytes q80StorageBytes info
  let dataOffset := reader.dataStart + info.offset
  if size < dataOffset.toNat ∨ size - dataOffset.toNat < bytes.toNat then
    .error .modelLoadFailed
  else .ok (dataOffset.toNat, bytes.toNat)

end CcInfer.Gguf
