import CcInfer.Lib.LittleEndian
import CcInfer.Model.WeightSource

/-!
# `CcInfer.Checkpoint.SafetensorsReader`: reading a safetensors file

The embedding of `checkpoint/huggingface/reader.cpp` and `checkpoint/huggingface/weight_source.cpp`.
A file is the length of its header in eight bytes, the header, and the data section. The header is a
JSON object with an entry for each tensor, which says its type, its shape and the range of its bytes
in the data section.
-/

set_option autoImplicit false

namespace CcInfer.Safetensors

/-- `SafetensorsTensorInfo`. -/
structure SafetensorsTensorInfo where
  dtype : DType
  shape : List Int
  offset : Nat
  sizeBytes : Nat
  deriving DecidableEq, Repr

/-- `Reader`. -/
structure Reader where
  file : Bytes
  dataStart : Nat
  tensors : List (Bytes × SafetensorsTensorInfo)
  deriving DecidableEq, Repr

/-- `parse_dtype`. -/
def parseDtype (dt : Bytes) : Result DType :=
  if dt = bytes "BF16" then .ok .bfloat16
  else if dt = bytes "F16" then .ok .float16
  else if dt = bytes "F32" then .ok .float32
  else .error .modelLoadFailed

/-- An element of `shape`. -/
def parseDim : Json → Result Int
  | .integer n => .ok (Json.getInt64 n)
  | _ => .error .modelLoadFailed

/-- The checks of `data_offsets`, where `available` is the size of the data section. -/
def parseRange (available : Nat) (dtype : DType) (shape : List Int) :
    Json → Json → Result SafetensorsTensorInfo
  | .integer first, .integer last =>
    if first < 0 ∨ last < 0 then .error .modelLoadFailed
    else if last < first then .error .modelLoadFailed
    else
      let offset := first.toNat
      let sizeBytes := last.toNat - first.toNat
      if available < offset then .error .modelLoadFailed
      else if available - offset < sizeBytes then .error .modelLoadFailed
      else .ok ⟨dtype, shape, offset, sizeBytes⟩
  | _, _ => .error .modelLoadFailed

/-- The entry of a tensor in the header. -/
def parseEntry (available : Nat) (info : Json) : Result SafetensorsTensorInfo :=
  match info.get? (bytes "dtype"), info.get? (bytes "shape"), info.get? (bytes "data_offsets") with
  | some (.string dt), some (.array dims), some (.array [first, last]) => do
    let dtype ← parseDtype dt
    let shape ← dims.mapM parseDim
    parseRange available dtype shape first last
  | _, _, _ => .error .modelLoadFailed

/-- The loop over the fields of the header. -/
def parseFields (available : Nat) :
    List (Bytes × Json) → Result (List (Bytes × SafetensorsTensorInfo))
  | [] => .ok []
  | (name, info) :: rest =>
    if name = bytes "__metadata__" then parseFields available rest
    else do
      let t ← parseEntry available info
      let tensors ← parseFields available rest
      return (name, t) :: tensors

/-- `kHeaderSize`. -/
def headerSize : Nat := 8

/-- `header_len`. -/
def headerLen (file : Bytes) : Nat := leValue (file.take headerSize)

/-- `header_str`. -/
def headerText (file : Bytes) : Bytes := (file.drop headerSize).take (headerLen file)

/-- `Reader::parse`. -/
def parse (parseText : Bytes → Option Json) (file : Bytes) : Result Reader :=
  if file.length < headerSize then .error .modelLoadFailed
  else if headerLen file = 0 ∨ file.length - headerSize < headerLen file then
    .error .modelLoadFailed
  else
    match parseText (headerText file) with
    | some (.object fields) => do
      let dataStart := headerSize + headerLen file
      let tensors ← parseFields (file.length - dataStart) fields
      if tensors.isEmpty then .error .modelLoadFailed else .ok ⟨file, dataStart, tensors⟩
    | _ => .error .modelLoadFailed

namespace Reader

/-- `Reader::find_tensor`. -/
def findTensor (reader : Reader) (name : Bytes) : Option SafetensorsTensorInfo :=
  (reader.tensors.find? fun entry => entry.1 == name).map Prod.snd

/-- `Reader::raw_tensor_data`. -/
def rawTensorData (reader : Reader) (info : SafetensorsTensorInfo) : Result Span :=
  let available := reader.file.length - reader.dataStart
  if available < info.offset ∨ available - info.offset < info.sizeBytes then
    .error .modelLoadFailed
  else .ok ⟨reader.file, reader.dataStart + info.offset, info.sizeBytes⟩

/-- `SafetensorsWeightSource`. -/
def weightSource (reader : Reader) : WeightSource where
  has name := (reader.findTensor name).isSome
  info name :=
    match reader.findTensor name with
    | none => .error .modelLoadFailed
    | some t => .ok ⟨t.shape, .dense t.dtype, t.offset, t.sizeBytes⟩
  read name :=
    match reader.findTensor name with
    | none => .error .modelLoadFailed
    | some t => reader.rawTensorData t

end Reader

end CcInfer.Safetensors
