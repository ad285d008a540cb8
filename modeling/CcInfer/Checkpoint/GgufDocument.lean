import CcInfer.Checkpoint.GgufReader

/-!
# `CcInfer.Checkpoint.GgufDocument`: GGUF documents and the bytes they are written as

What a GGUF file says, apart from how it is laid out: a list of named metadata values, a list
of tensor descriptions and the tensor data. A `Document` carries the conditions of the format,
so that every document can be written: arrays have elements of one type, and a tensor has
between one and eight dimensions that fit a signed word.
-/

set_option autoImplicit false

namespace CcInfer.Gguf

/-- A metadata value of a document. -/
inductive DocValue
  | u8 (v : BitVec 8)
  | i8 (v : BitVec 8)
  | u16 (v : BitVec 16)
  | i16 (v : BitVec 16)
  | u32 (v : BitVec 32)
  | i32 (v : BitVec 32)
  | f32 (bits : BitVec 32)
  | bool (b : Bool)
  | string (s : Bytes)
  | array (elemType : ValueType) (values : List DocValue)
  | u64 (v : BitVec 64)
  | i64 (v : BitVec 64)
  | f64 (bits : BitVec 64)

namespace DocValue

/-- The type under which a value is written. -/
def type : DocValue → ValueType
  | u8 _ => .u8
  | i8 _ => .i8
  | u16 _ => .u16
  | i16 _ => .i16
  | u32 _ => .u32
  | i32 _ => .i32
  | f32 _ => .f32
  | bool _ => .bool
  | string _ => .string
  | array _ _ => .array
  | u64 _ => .u64
  | i64 _ => .i64
  | f64 _ => .f64

mutual

/-- Every array in the value has elements of the type it names. -/
def Homogeneous : DocValue → Prop
  | array elemType values => AllHomogeneous elemType values
  | _ => True

/-- The elements are of the type, and homogeneous themselves. -/
def AllHomogeneous (elemType : ValueType) : List DocValue → Prop
  | [] => True
  | v :: values => (v.type = elemType ∧ v.Homogeneous) ∧ AllHomogeneous elemType values

end

mutual

/-- What a reader should get. -/
def meaning : DocValue → MetadataValue
  | u8 v => .u8 v
  | i8 v => .i8 v
  | u16 v => .u16 v
  | i16 v => .i16 v
  | u32 v => .u32 v
  | i32 v => .i32 v
  | f32 bits => .f32 bits
  | bool b => .bool b
  | string s => .string s
  | array _ values => .array (meanings values)
  | u64 v => .u64 v
  | i64 v => .i64 v
  | f64 bits => .f64 bits

/-- What a reader should get for the elements of an array. -/
def meanings : List DocValue → List MetadataValue
  | [] => []
  | v :: values => v.meaning :: meanings values

end

/-- A string behind its length. -/
def encodeString (s : Bytes) : Bytes := leBytes 8 s.length ++ s

mutual

/-- The bytes of a value. -/
def encode : DocValue → Bytes
  | u8 v | i8 v => leBytes 1 v.toNat
  | u16 v | i16 v => leBytes 2 v.toNat
  | u32 v | i32 v | f32 v => leBytes 4 v.toNat
  | u64 v | i64 v | f64 v => leBytes 8 v.toNat
  | bool b => [if b then 1 else 0]
  | string s => encodeString s
  | array elemType values =>
    leBytes 4 elemType.code.toNat ++ (leBytes 8 values.length ++ encodeAll values)

/-- The bytes of the elements of an array. -/
def encodeAll : List DocValue → Bytes
  | [] => []
  | v :: values => v.encode ++ encodeAll values

end

end DocValue

/-- A tensor description of a document. -/
structure DocTensor where
  name : Bytes
  dims : List Nat
  type : TensorType
  offset : BitVec 64
  dims_pos : 0 < dims.length
  dims_le : dims.length ≤ 8
  dims_lt : ∀ d ∈ dims, d < 2 ^ 63

namespace DocTensor

/-- What a reader should get. -/
def info (t : DocTensor) : TensorInfo := ⟨t.name, t.dims.map Int.ofNat, t.type, t.offset⟩

/-- The bytes of a tensor description. -/
def encode (t : DocTensor) : Bytes :=
  DocValue.encodeString t.name ++ (leBytes 4 t.dims.length ++ (t.dims.flatMap (leBytes 8) ++
    (leBytes 4 t.type.code.toNat ++ leBytes 8 t.offset.toNat)))

end DocTensor

/-- A GGUF document. -/
structure Document where
  metadata : List (Bytes × DocValue)
  tensors : List DocTensor
  data : Bytes
  homogeneous : ∀ entry ∈ metadata, entry.2.Homogeneous

namespace Document

/-- The bytes of a metadata entry. -/
def encodeEntry (entry : Bytes × DocValue) : Bytes :=
  DocValue.encodeString entry.1 ++ (leBytes 4 entry.2.type.code.toNat ++ entry.2.encode)

/-- The counts and the two lists. -/
def encodeLists (d : Document) : Bytes :=
  leBytes 8 d.tensors.length ++ (leBytes 8 d.metadata.length ++
    (d.metadata.flatMap encodeEntry ++ d.tensors.flatMap DocTensor.encode))

/-- All that comes before the padding. -/
def encodeHead (d : Document) : Bytes := (magic ++ leBytes 4 3) ++ d.encodeLists

/-- The zeros in front of the data section. -/
def padding (d : Document) : Bytes :=
  List.replicate ((32 - d.encodeHead.length % 32) % 32) 0

/-- Where the data section begins. -/
def dataOffset (d : Document) : Nat := d.encodeHead.length + d.padding.length

/-- The bytes of a document. -/
def encode (d : Document) : Bytes := d.encodeHead ++ (d.padding ++ d.data)

/-- What a reader should get. -/
def reader (d : Document) : GgufReader where
  version := 3
  metadata := d.metadata.map fun entry => (entry.1, entry.2.meaning)
  tensors := d.tensors.map DocTensor.info
  dataStart := BitVec.ofNat 64 d.dataOffset

end Document

end CcInfer.Gguf
