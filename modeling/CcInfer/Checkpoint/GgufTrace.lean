import CcInfer.Checkpoint.GgufReader
import CcInfer.Lib.Scan

/-!
# `CcInfer.Checkpoint.GgufTrace`: what parsing a GGUF file does on the way

The functions of `CcInfer.Checkpoint.GgufReader` once more, with what they do beside returning
a result: which bytes they read, how often `parse_value` is entered, and how many elements each
call of `reserve` asks for. The log is there for every file, also for one that is rejected.
-/

set_option autoImplicit false

namespace CcInfer.Gguf

/-- What is logged beside the reads. -/
inductive Note
  /-- A call of `parse_value`. -/
  | value
  /-- A call of `reserve` for so many elements, and the number of unread bytes at that point. -/
  | reserve (count unread : Nat)
  /-- The recursion was cut off by the model. -/
  | outOfFuel
  deriving DecidableEq, Repr

namespace Traced

/-- A reader of the mapped file that keeps a log. -/
abbrev Read := Scan UInt8 Note ErrorCode

/-- `require_bytes`, and the bytes it asked for. -/
def readBytes (n : Nat) : Read Bytes := Scan.take n .modelLoadFailed

/-- `read_raw` of a type of `n` bytes. -/
def readRaw (n : Nat) : Read (BitVec (8 * n)) :=
  (fun b => BitVec.ofNat (8 * n) (leValue b)) <$> readBytes n

/-- `read_u32`. -/
def readU32 : Read (BitVec 32) := readRaw 4

/-- `read_u64`. -/
def readU64 : Read (BitVec 64) := readRaw 8

/-- `read_bool`. -/
def readBool : Read Bool := (fun (v : BitVec 8) => v != 0) <$> readRaw 1

/-- `read_string`. -/
def readString : Read Bytes := do
  let len ← readU64
  readBytes len.toNat

/-- `reserve`: it returns if the allocator grants the memory. -/
def reserve (memory : Nat → Bool) (count : Nat) : Read Unit := do
  Scan.note (Note.reserve count)
  if memory count then pure () else Scan.raise

/-- The part of `parse_value` behind its entry, where `element` parses the elements of an
array. -/
def parseBody (memory : Nat → Bool) (element : BitVec 32 → Read MetadataValue)
    (code : BitVec 32) : Read MetadataValue :=
  match ValueType.ofCode code with
  | some .u8 => MetadataValue.u8 <$> readRaw 1
  | some .i8 => MetadataValue.i8 <$> readRaw 1
  | some .u16 => MetadataValue.u16 <$> readRaw 2
  | some .i16 => MetadataValue.i16 <$> readRaw 2
  | some .u32 => MetadataValue.u32 <$> readRaw 4
  | some .i32 => MetadataValue.i32 <$> readRaw 4
  | some .u64 => MetadataValue.u64 <$> readRaw 8
  | some .i64 => MetadataValue.i64 <$> readRaw 8
  | some .f32 => MetadataValue.f32 <$> readRaw 4
  | some .f64 => MetadataValue.f64 <$> readRaw 8
  | some .bool => MetadataValue.bool <$> readBool
  | some .string => MetadataValue.string <$> readString
  | some .array => do
    let elemType ← readU32
    let count ← readU64
    reserve memory count.toNat
    MetadataValue.array <$> Scan.times (element elemType) count.toNat
  | none => Scan.fail .modelLoadFailed

/-- `parse_value`, for a type code that need not be one of an enumerator. -/
def parseValue (memory : Nat → Bool) (code : BitVec 32) : Nat → Read MetadataValue
  | 0 => do
    Scan.note fun _ => Note.outOfFuel
    Scan.fail .modelLoadFailed
  | fuel + 1 => do
    Scan.note fun _ => Note.value
    parseBody memory (fun elemType => parseValue memory elemType fuel) code

/-- One round of the metadata loop of `parse`. -/
def parseEntry (memory : Nat → Bool) (fuel : Nat) : Read (Bytes × MetadataValue) := do
  let key ← readString
  let type ← readU32
  if ValueType.f64.code < type then Scan.fail .modelLoadFailed
  else
    let value ← parseValue memory type fuel
    return (key, value)

/-- One round of the tensor loop of `parse`. -/
def parseTensor : Read TensorInfo := do
  let name ← readString
  let nDims ← readU32
  if nDims = 0 ∨ 8 < nDims then Scan.fail .modelLoadFailed
  else
    let dims ← Scan.times (BitVec.toInt <$> readU64) nDims.toNat
    let type ← readU32
    match TensorType.ofCode type with
    | none => Scan.fail .modelUnsupportedDType
    | some type =>
      let offset ← readU64
      return ⟨name, dims, type, offset⟩

/-- The two loops of `parse`, behind the version. -/
def parseLists (memory : Nat → Bool) (fuel : Nat) :
    Read (List (Bytes × MetadataValue) × List TensorInfo) := do
  let nTensors ← readU64
  let nMetadata ← readU64
  reserve memory nMetadata.toNat
  let metadata ← Scan.times (parseEntry memory fuel) nMetadata.toNat
  reserve memory nTensors.toNat
  let tensors ← Scan.times parseTensor nTensors.toNat
  return (metadata, tensors)

/-- The rest of `parse` once the lists are there. -/
def finish (size : Nat) (version : BitVec 32)
    (lists : List (Bytes × MetadataValue) × List TensorInfo) : Read GgufReader := fun _ s =>
  let dataStart := alignUp s.offset
  if size < dataStart.toNat then (.error (.error .modelLoadFailed), s)
  else (.ok ⟨version, lists.1, lists.2, dataStart⟩, s)

/-- `GGUFReader::parse`. -/
def parse (memory : Nat → Bool) (data : Bytes) : Read GgufReader := do
  if data.length < 4 + 4 + 8 + 8 then Scan.fail .modelLoadFailed
  else
    let letters ← readBytes 4
    if letters ≠ magic then Scan.fail .modelLoadFailed
    else
      let version ← readU32
      if version ≠ 3 then Scan.fail .modelLoadFailed
      else
        let lists ← parseLists memory data.length
        finish data.length version lists

/-- A run of `parse` on a file: the result, and the offset and the log it ends with. -/
def run (memory : Nat → Bool) (data : Bytes) :
    Except (Fault ErrorCode) GgufReader × ScanState Note :=
  parse memory data data ⟨0, []⟩

end Traced

end CcInfer.Gguf
