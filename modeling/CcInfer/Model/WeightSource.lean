import CcInfer.Runtime.Tensor

/-!
# `CcInfer.Model.WeightSource`: where weights are read from

The interface `WeightSource` of `model/weight_source.h`. The bytes of a tensor are a span of a
mapped file. The span is kept together with the file, since a copy that starts at its pointer can go
past its end.
-/

set_option autoImplicit false

namespace CcInfer

/-- `std::span<const uint8_t>`, in a mapped file. -/
structure Span where
  file : Bytes
  start : Nat
  length : Nat
  deriving DecidableEq, Repr

namespace Span

/-- The bytes of the span. -/
def bytes (span : Span) : Bytes := (span.file.drop span.start).take span.length

/-- The memory from `data()` on. -/
def fromData (span : Span) : Bytes := span.file.drop span.start

end Span

/-- `ccop::TensorType`: dense, or quantized in the one way that a checkpoint uses. -/
inductive TensorType
  | dense (dtype : DType)
  | q8_0
  deriving DecidableEq, Repr

/-- `WeightSourceTensorInfo`. -/
structure WeightSourceTensorInfo where
  logicalShape : List Int
  type : TensorType
  offset : Nat
  sizeBytes : Nat
  deriving DecidableEq, Repr

/-- `WeightSource`. -/
structure WeightSource where
  has : Bytes → Bool
  info : Bytes → Result WeightSourceTensorInfo
  read : Bytes → Result Span

end CcInfer
