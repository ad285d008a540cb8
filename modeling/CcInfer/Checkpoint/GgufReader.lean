import CcInfer.Base.Json
import CcInfer.Lib.Cursor
import CcInfer.Lib.LittleEndian

/-!
# `CcInfer.Checkpoint.GgufReader`: parsing the head of a GGUF file

The embedding of `parse_value` and `GGUFReader::parse` with the functions they read with, from
`checkpoint/gguf/reader.cpp`. The mapped file is a list of bytes, and `size_t& offset` is the
offset of a `Cursor`. A `memcpy` into an integer reads it lowest byte first.
-/

set_option autoImplicit false

namespace CcInfer.Gguf

/-- `GGUFValueType`. -/
inductive ValueType
  | u8
  | i8
  | u16
  | i16
  | u32
  | i32
  | f32
  | bool
  | string
  | array
  | u64
  | i64
  | f64
  deriving DecidableEq, Repr

/-- The value of the enumerator. -/
def ValueType.code : ValueType → BitVec 32
  | u8 => 0
  | i8 => 1
  | u16 => 2
  | i16 => 3
  | u32 => 4
  | i32 => 5
  | f32 => 6
  | bool => 7
  | string => 8
  | array => 9
  | u64 => 10
  | i64 => 11
  | f64 => 12

/-- The enumerators, in the order of their values. -/
def ValueType.all : List ValueType :=
  [u8, i8, u16, i16, u32, i32, f32, bool, string, array, u64, i64, f64]

/-- `static_cast<GGUFValueType>`, with `none` for a value that no enumerator has. -/
def ValueType.ofCode (code : BitVec 32) : Option ValueType := all[code.toNat]?

/-- `GGUFMetadataValue`. -/
inductive MetadataValue
  | u8 (v : BitVec 8)
  | i8 (v : BitVec 8)
  | u16 (v : BitVec 16)
  | i16 (v : BitVec 16)
  | u32 (v : BitVec 32)
  | i32 (v : BitVec 32)
  | f32 (bits : BitVec 32)
  | bool (b : Bool)
  | string (s : Bytes)
  | array (values : List MetadataValue)
  | u64 (v : BitVec 64)
  | i64 (v : BitVec 64)
  | f64 (bits : BitVec 64)

/-- The values of `GGUFTensorType` that `supported_tensor_type` accepts. -/
inductive TensorType
  | f32
  | f16
  | q8_0
  | bf16
  deriving DecidableEq, Repr

/-- The value of the enumerator. -/
def TensorType.code : TensorType → BitVec 32
  | f32 => 0
  | f16 => 1
  | q8_0 => 8
  | bf16 => 30

/-- The check of a tensor type: one that is too large or not supported has no value here. -/
def TensorType.ofCode (code : BitVec 32) : Option TensorType :=
  if code = 0 then some f32
  else if code = 1 then some f16
  else if code = 8 then some q8_0
  else if code = 30 then some bf16
  else none

theorem TensorType.ofCode_code (t : TensorType) : ofCode t.code = some t := by
  cases t <;> rfl

/-- `GGUFTensorInfo`. -/
structure TensorInfo where
  name : Bytes
  dims : List Int
  type : TensorType
  offset : BitVec 64
  deriving DecidableEq, Repr

/-- What `GGUFReader::parse` fills in. -/
structure GgufReader where
  version : BitVec 32
  metadata : List (Bytes × MetadataValue)
  tensors : List TensorInfo
  dataStart : BitVec 64

/-- A reader of the mapped file. -/
abbrev Read := Cursor UInt8 ErrorCode

/-- `require_bytes`, and the bytes it asked for. -/
def readBytes (n : Nat) : Read Bytes := Cursor.take n .modelLoadFailed

/-- `read_raw` of a type of `n` bytes. -/
def readRaw (n : Nat) : Read (BitVec (8 * n)) :=
  (fun b => BitVec.ofNat (8 * n) (leValue b)) <$> readBytes n

/-- `read_u32`. -/
def readU32 : Read (BitVec 32) := readRaw 4

/-- `read_u64`. -/
def readU64 : Read (BitVec 64) := readRaw 8

/-- `read_bool`. -/
def readBool : Read Bool := (fun (v : BitVec 8) => v != 0) <$> readRaw 1

/-- `read_string`. -/
def readString : Read Bytes := do
  let len ← readU64
  readBytes len.toNat

/-- `parse_value`, for a type code that need not be one of an enumerator. -/
def parseValue (code : BitVec 32) : Nat → Read MetadataValue
  | 0 => throw .modelLoadFailed
  | fuel + 1 =>
    match ValueType.ofCode code with
    | some .u8 => MetadataValue.u8 <$> readRaw 1
    | some .i8 => MetadataValue.i8 <$> readRaw 1
    | some .u16 => MetadataValue.u16 <$> readRaw 2
    | some .i16 => MetadataValue.i16 <$> readRaw 2
    | some .u32 => MetadataValue.u32 <$> readRaw 4
    | some .i32 => MetadataValue.i32 <$> readRaw 4
    | some .u64 => MetadataValue.u64 <$> readRaw 8
    | some .i64 => MetadataValue.i64 <$> readRaw 8
    | some .f32 => MetadataValue.f32 <$> readRaw 4
    | some .f64 => MetadataValue.f64 <$> readRaw 8
    | some .bool => MetadataValue.bool <$> readBool
    | some .string => MetadataValue.string <$> readString
    | some .array => do
      let elemType ← readU32
      let count ← readU64
      MetadataValue.array <$> Cursor.times (parseValue elemType fuel) count.toNat
    | none => throw .modelLoadFailed

/-- One round of the metadata loop of `parse`. -/
def parseEntry (fuel : Nat) : Read (Bytes × MetadataValue) := do
  let key ← readString
  let type ← readU32
  if ValueType.f64.code < type then throw .modelLoadFailed
  let value ← parseValue type fuel
  return (key, value)

/-- One round of the tensor loop of `parse`. -/
def parseTensor : Read TensorInfo := do
  let name ← readString
  let nDims ← readU32
  if nDims = 0 ∨ 8 < nDims then throw .modelLoadFailed
  let dims ← Cursor.times (BitVec.toInt <$> readU64) nDims.toNat
  let type ← readU32
  match TensorType.ofCode type with
  | none => throw .modelUnsupportedDType
  | some type =>
    let offset ← readU64
    return ⟨name, dims, type, offset⟩

/-- The two loops of `parse`, behind the version. -/
def parseLists (fuel : Nat) : Read (List (Bytes × MetadataValue) × List TensorInfo) := do
  let nTensors ← readU64
  let nMetadata ← readU64
  let metadata ← Cursor.times (parseEntry fuel) nMetadata.toNat
  let tensors ← Cursor.times parseTensor nTensors.toNat
  return (metadata, tensors)

/-- `kMagic`: the letters `GGUF`. -/
def magic : Bytes := [71, 71, 85, 70]

/-- `(offset + 31) & ~31`. -/
def alignUp (offset : Nat) : BitVec 64 := (BitVec.ofNat 64 offset + 31#64) &&& ~~~31#64

/-- `GGUFReader::parse`. -/
def parse (data : Bytes) : Result GgufReader := do
  if data.length < 4 + 4 + 8 + 8 then throw .modelLoadFailed
  if data.take 4 ≠ magic then throw .modelLoadFailed
  let version := BitVec.ofNat 32 (leValue ((data.drop 4).take 4))
  if version ≠ 3 then throw .modelLoadFailed
  let ((metadata, tensors), offset) ← parseLists data.length data 8
  let dataStart := alignUp offset
  if data.length < dataStart.toNat then throw .modelLoadFailed
  return ⟨version, metadata, tensors, dataStart⟩

end CcInfer.Gguf
