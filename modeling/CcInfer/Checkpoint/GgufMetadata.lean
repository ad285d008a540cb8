import CcInfer.Checkpoint.GgufReader
import CcInfer.Lib.BinaryFormat

/-!
# `CcInfer.Checkpoint.GgufMetadata`: reading the metadata of a GGUF file

The embedding of the accessors of `GGUFMetadataValue` and of the lookups `GGUFReader::metadata`
and `GGUFReader::find_tensor`, from `checkpoint/gguf/reader.cpp`.
-/

set_option autoImplicit false

namespace CcInfer

namespace Gguf

/-- The exception of `std::get`. -/
inductive Exception
  | badVariantAccess
  deriving DecidableEq, Repr

namespace MetadataValue

/-- `GGUFMetadataValue::as_string`. -/
def asString : MetadataValue → Except Exception Bytes
  | string s => .ok s
  | _ => .error .badVariantAccess

/-- `GGUFMetadataValue::as_u64`. -/
def asU64 : MetadataValue → Option Nat
  | u64 v => some v.toNat
  | u32 v => some v.toNat
  | u16 v => some v.toNat
  | u8 v => some v.toNat
  | _ => none

/-- `GGUFMetadataValue::as_i64`. -/
def asI64 : MetadataValue → Option Int
  | i64 v => some v.toInt
  | i32 v => some v.toInt
  | i16 v => some v.toInt
  | i8 v => some v.toInt
  | v => v.asU64.map fun n => (BitVec.ofNat 64 n).toInt

/-- `GGUFMetadataValue::as_f32`. -/
def asF32 (toFloat : Rat → Option Rat) : MetadataValue → Option (Option Rat)
  | f32 bits => some (BinaryFormat.binary32.toRat bits.toNat)
  | f64 bits => some ((BinaryFormat.binary64.toRat bits.toNat).bind toFloat)
  | _ => none

/-- `GGUFMetadataValue::as_array`. -/
def asArray : MetadataValue → Option (List MetadataValue)
  | array values => some values
  | _ => none

/-- The value holds a string. -/
def IsString (v : MetadataValue) : Prop := ∃ s, v = string s

/-- `as_string` returns for a string, and for nothing else. -/
theorem asString_eq_ok_iff {v : MetadataValue} : (∃ s, v.asString = .ok s) ↔ v.IsString := by
  constructor
  · rintro ⟨_, h⟩
    cases v with
    | string s' => exact ⟨s', rfl⟩
    | _ => cases h
  · rintro ⟨s, rfl⟩
    exact ⟨s, rfl⟩

end MetadataValue

namespace GgufReader

/-- `GGUFReader::metadata`, with a key: the first entry that has it. -/
def findMetadata (reader : GgufReader) (key : String) : Option MetadataValue :=
  (reader.metadata.find? fun entry => entry.1 == bytes key).map Prod.snd

/-- `GGUFReader::find_tensor`. -/
def findTensor (reader : GgufReader) (name : Bytes) : Option TensorInfo :=
  reader.tensors.find? fun info => info.name == name

/-- The elements of an array under a key, and `none` if there is no such key or no array. -/
def findArray (reader : GgufReader) (key : String) : Option (List MetadataValue) :=
  (reader.findMetadata key).bind MetadataValue.asArray

end GgufReader

end Gguf

end CcInfer
