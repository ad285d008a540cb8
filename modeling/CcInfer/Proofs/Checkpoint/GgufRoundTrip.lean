import CcInfer.Checkpoint.GgufDocument

/-!
# `CcInfer.Proofs.Checkpoint.GgufRoundTrip`: what is written is read back

`parse` follows the layout of `Document.encode` part by part, and the proof follows `parse`:
for each function of the reader one lemma says off which bytes it reads which value
(`Cursor.Reads`), and the lemma of a function is put together from those of the functions it
calls. Values are treated by recursion over the nesting of arrays.
-/

set_option autoImplicit false

namespace CcInfer.Gguf

variable {fuel : Nat} {α : Type} {d : Document}

open Cursor (Reads)

/-! ### Words and strings -/

theorem reads_bytes (code : Bytes) : Reads (readBytes code.length) code code :=
  Cursor.reads_take code _

/-- A word is read off its bytes. -/
theorem reads_raw (n : Nat) (v : BitVec (8 * n)) : Reads (readRaw n) (leBytes n v.toNat) v := by
  have hbytes := reads_bytes (leBytes n v.toNat)
  rw [leBytes_length] at hbytes
  have hlt : v.toNat < 256 ^ n := by
    have := v.isLt
    rwa [Nat.pow_mul] at this
  have hraw := hbytes.map fun b => BitVec.ofNat (8 * n) (leValue b)
  rw [leValue_leBytes hlt, BitVec.ofNat_toNat, BitVec.setWidth_eq] at hraw
  exact hraw

/-- A count is read off its bytes if it fits. -/
theorem reads_count {n x : Nat} (h : x < 2 ^ (8 * n)) :
    Reads (readRaw n) (leBytes n x) (BitVec.ofNat (8 * n) x) := by
  have hraw := reads_raw n (BitVec.ofNat (8 * n) x)
  rw [BitVec.toNat_ofNat, Nat.mod_eq_of_lt h] at hraw
  exact hraw

theorem reads_bool (b : Bool) : Reads readBool [if b then 1 else 0] b := by
  cases b
  · exact (reads_raw 1 0).map fun v : BitVec 8 => v != 0
  · exact (reads_raw 1 1).map fun v : BitVec 8 => v != 0

theorem reads_string {s : Bytes} (h : s.length < 2 ^ 64) :
    Reads readString (DocValue.encodeString s) s := by
  refine (reads_count (n := 8) h).bind ?_
  rw [BitVec.toNat_ofNat, Nat.mod_eq_of_lt h]
  exact reads_bytes s

/-! ### Values -/

namespace DocValue

variable {values : List DocValue}

theorem encodeAll_eq (values : List DocValue) : encodeAll values = values.flatMap encode := by
  induction values with
  | nil => rfl
  | cons _ _ ih => rw [encodeAll, ih, List.flatMap_cons]

theorem meanings_eq (values : List DocValue) : meanings values = values.map meaning := by
  induction values with
  | nil => rfl
  | cons _ _ ih => rw [meanings, ih, List.map_cons]

theorem allHomogeneous_iff {elemType : ValueType} :
    AllHomogeneous elemType values ↔ ∀ v ∈ values, v.type = elemType ∧ v.Homogeneous := by
  induction values with
  | nil => simp [AllHomogeneous]
  | cons _ _ ih => rw [AllHomogeneous, ih, List.forall_mem_cons]

theorem encodeString_length (s : Bytes) : (encodeString s).length = 8 + s.length := by
  rw [encodeString, List.length_append, leBytes_length]

/-- Every value takes at least one byte. -/
theorem encode_pos (v : DocValue) : 0 < v.encode.length := by
  cases v with
  | string => rw [encode, encodeString_length]; omega
  | array => rw [encode, List.length_append, leBytes_length]; omega
  | _ => simp [encode]

theorem length_le_encodeAll : values.length ≤ (encodeAll values).length := by
  induction values with
  | nil => exact le_rfl
  | cons v =>
    have := encode_pos v
    rw [encodeAll, List.length_append, List.length_cons]
    omega

theorem encode_le_encodeAll {v : DocValue} (hv : v ∈ values) :
    v.encode.length ≤ (encodeAll values).length := by
  induction values with
  | nil => cases hv
  | cons _ _ ih =>
    rw [encodeAll, List.length_append]
    rcases List.mem_cons.mp hv with rfl | hv
    · exact Nat.le_add_right ..
    · exact (ih hv).trans (Nat.le_add_left ..)

mutual

/-- A value is read off its bytes, with fuel for its nesting. -/
theorem reads (v : DocValue) (fuel : Nat) (h : v.Homogeneous) (hsize : v.encode.length < 2 ^ 64)
    (hfuel : v.encode.length ≤ fuel) : Reads (parseValue v.type.code fuel) v.encode v.meaning := by
  obtain ⟨fuel, rfl⟩ : ∃ n, fuel = n + 1 :=
    Nat.exists_eq_succ_of_ne_zero (Nat.ne_of_gt (lt_of_lt_of_le v.encode_pos hfuel))
  match v with
  | u8 v => exact (reads_raw 1 v).map MetadataValue.u8
  | i8 v => exact (reads_raw 1 v).map MetadataValue.i8
  | u16 v => exact (reads_raw 2 v).map MetadataValue.u16
  | i16 v => exact (reads_raw 2 v).map MetadataValue.i16
  | u32 v => exact (reads_raw 4 v).map MetadataValue.u32
  | i32 v => exact (reads_raw 4 v).map MetadataValue.i32
  | f32 v => exact (reads_raw 4 v).map MetadataValue.f32
  | u64 v => exact (reads_raw 8 v).map MetadataValue.u64
  | i64 v => exact (reads_raw 8 v).map MetadataValue.i64
  | f64 v => exact (reads_raw 8 v).map MetadataValue.f64
  | bool b => exact (reads_bool b).map MetadataValue.bool
  | string s =>
    refine (reads_string ?_).map MetadataValue.string
    rw [encode, encodeString_length] at hsize
    omega
  | array elemType values =>
    simp only [encode, List.length_append, leBytes_length] at hsize hfuel
    have hcount : values.length < 2 ^ 64 := lt_of_le_of_lt length_le_encodeAll (by omega)
    have htypes := allHomogeneous_iff.mp h
    have hall := readsAll values fuel (fun v hv => (htypes v hv).2)
      (fun v hv => lt_of_le_of_lt (encode_le_encodeAll hv) (by omega))
      (fun v hv => (encode_le_encodeAll hv).trans (by omega))
    have helems := Reads.times encode meaning values fun v hv => by
      have := hall v hv
      rwa [(htypes v hv).1] at this
    rw [← encodeAll_eq, ← meanings_eq] at helems
    refine (reads_raw 4 elemType.code).bind ((reads_count (n := 8) hcount).bind ?_)
    rw [BitVec.toNat_ofNat, Nat.mod_eq_of_lt hcount]
    exact helems.map MetadataValue.array

/-- The elements of an array, by induction on the document. -/
theorem readsAll (values : List DocValue) (fuel : Nat) (h : ∀ v ∈ values, v.Homogeneous)
    (hsize : ∀ v ∈ values, v.encode.length < 2 ^ 64)
    (hfuel : ∀ v ∈ values, v.encode.length ≤ fuel) :
    ∀ v ∈ values, Reads (parseValue v.type.code fuel) v.encode v.meaning := by
  match values with
  | [] => exact fun v hv => absurd hv List.not_mem_nil
  | w :: values =>
    intro v hv
    rcases List.mem_cons.mp hv with heq | hv
    · rw [heq]
      exact reads w fuel (h w List.mem_cons_self) (hsize w List.mem_cons_self)
        (hfuel w List.mem_cons_self)
    · exact readsAll values fuel (fun v hv => h v (List.mem_cons_of_mem _ hv))
        (fun v hv => hsize v (List.mem_cons_of_mem _ hv))
        (fun v hv => hfuel v (List.mem_cons_of_mem _ hv)) v hv

end

end DocValue

/-! ### Entries, tensors and lists -/

theorem ValueType.code_le (t : ValueType) : ¬ ValueType.f64.code < t.code := by
  cases t <;> decide

/-- A metadata entry is read back. -/
theorem reads_entry {entry : Bytes × DocValue} (h : entry.2.Homogeneous)
    (hsize : (Document.encodeEntry entry).length < 2 ^ 64)
    (hfuel : (Document.encodeEntry entry).length ≤ fuel) :
    Reads (parseEntry fuel) (Document.encodeEntry entry) (entry.1, entry.2.meaning) := by
  simp only [Document.encodeEntry, DocValue.encodeString_length, List.length_append,
    leBytes_length] at hsize hfuel
  refine (reads_string (by omega)).bind ((reads_raw 4 entry.2.type.code).bind ?_)
  have hvalue := entry.2.reads fuel h (by omega) (by omega)
  have hpair := hvalue.map fun value => (entry.1, value)
  rw [if_neg entry.2.type.code_le]
  exact hpair

/-- The dimensions of a tensor are read back. -/
theorem reads_dims (t : DocTensor) : Reads (Cursor.times (BitVec.toInt <$> readU64) t.dims.length)
    (t.dims.flatMap (leBytes 8)) (t.dims.map Int.ofNat) := by
  refine Reads.times (leBytes 8) Int.ofNat t.dims fun d hd => ?_
  have hlt := t.dims_lt d hd
  have hdim := (reads_count (n := 8) (x := d) (by omega)).map BitVec.toInt
  have hval : (BitVec.ofNat (8 * 8) d).toInt = Int.ofNat d := by
    rw [BitVec.toInt_eq_toNat_of_lt]
    · rw [BitVec.toNat_ofNat, Nat.mod_eq_of_lt (by omega)]
      rfl
    · rw [BitVec.toNat_ofNat, Nat.mod_eq_of_lt (by omega)]
      omega
  rw [hval] at hdim
  exact hdim

/-- A tensor description is read back. -/
theorem reads_tensor {t : DocTensor} (hsize : t.encode.length < 2 ^ 64) :
    Reads parseTensor t.encode t.info := by
  simp only [DocTensor.encode, DocValue.encodeString_length, List.length_append,
    leBytes_length] at hsize
  have hpos := t.dims_pos
  have hle := t.dims_le
  have hcount : (BitVec.ofNat (8 * 4) t.dims.length).toNat = t.dims.length := by
    rw [BitVec.toNat_ofNat, Nat.mod_eq_of_lt (by omega)]
  have hdims :
      ¬ (BitVec.ofNat (8 * 4) t.dims.length = 0 ∨ 8 < BitVec.ofNat (8 * 4) t.dims.length) := by
    rintro (hzero | hlt)
    · rw [hzero] at hcount
      simp at hcount
      omega
    · rw [BitVec.lt_def, hcount] at hlt
      simp at hlt
      omega
  refine (reads_string (by omega)).bind ((reads_count (n := 4) (by omega)).bind ?_)
  rw [if_neg hdims, hcount]
  refine (reads_dims t).bind ((reads_raw 4 t.type.code).bind ?_)
  rw [TensorType.ofCode_code]
  exact (reads_raw 8 t.offset).map fun offset => (⟨t.name, _, t.type, offset⟩ : TensorInfo)

theorem length_le_flatMap {f : α → Bytes} {xs : List α} {x : α} (hx : x ∈ xs) :
    (f x).length ≤ (xs.flatMap f).length := by
  obtain ⟨_, _, rfl⟩ := List.append_of_mem hx
  simp only [List.flatMap_append, List.flatMap_cons, List.length_append]
  omega

theorem count_le_flatMap {f : α → Bytes} (hf : ∀ x, 0 < (f x).length) (xs : List α) :
    xs.length ≤ (xs.flatMap f).length := by
  induction xs with
  | nil => exact le_rfl
  | cons x =>
    have := hf x
    rw [List.flatMap_cons, List.length_append, List.length_cons]
    omega

/-- Both lists of the header are read back. -/
theorem reads_lists (hsize : d.encodeLists.length < 2 ^ 64) (hfuel : d.encodeLists.length ≤ fuel) :
    Reads (parseLists fuel) d.encodeLists
      (d.metadata.map fun entry => (entry.1, entry.2.meaning), d.tensors.map DocTensor.info) := by
  simp only [Document.encodeLists, List.length_append, leBytes_length] at hsize hfuel
  have htensors : d.tensors.length ≤ (d.tensors.flatMap DocTensor.encode).length :=
    count_le_flatMap (fun t => by
      rw [DocTensor.encode, List.length_append, DocValue.encodeString_length]
      omega) _
  have hmetadata : d.metadata.length ≤ (d.metadata.flatMap Document.encodeEntry).length :=
    count_le_flatMap (fun e => by
      rw [Document.encodeEntry, List.length_append, DocValue.encodeString_length]
      omega) _
  have hentries := Reads.times Document.encodeEntry (fun entry => (entry.1, entry.2.meaning))
    d.metadata fun entry hentry => by
      have hle := length_le_flatMap (f := Document.encodeEntry) hentry
      have hlong : (Document.encodeEntry entry).length ≤ fuel := by omega
      exact reads_entry (d.homogeneous entry hentry) (by omega) hlong
  have hinfos := Reads.times DocTensor.encode DocTensor.info d.tensors fun t ht => by
    have hle := length_le_flatMap (f := DocTensor.encode) ht
    exact reads_tensor (by omega)
  refine (reads_count (n := 8) (by omega)).bind ((reads_count (n := 8) (by omega)).bind ?_)
  rw [BitVec.toNat_ofNat, BitVec.toNat_ofNat, Nat.mod_eq_of_lt (by omega),
    Nat.mod_eq_of_lt (by omega)]
  exact hentries.bind (hinfos.map fun tensors => (_, tensors))

/-! ### The file -/

/-- Clearing the five lowest bits rounds down to a multiple of 32. -/
theorem and_not_31 (x : BitVec 64) : (x &&& ~~~31#64).toNat = x.toNat / 32 * 32 := by
  have hmask : ∀ i : Fin 64, (~~~31#64).getLsbD i = decide (5 ≤ i.val) := by decide
  have hshift : x &&& ~~~31#64 = (x >>> 5) <<< 5 := by
    refine BitVec.eq_of_getLsbD_eq fun i hi => ?_
    rw [BitVec.getLsbD_and, hmask ⟨i, hi⟩, BitVec.getLsbD_shiftLeft, BitVec.getLsbD_ushiftRight]
    rcases Nat.lt_or_ge i 5 with hlow | hhigh
    · simp [hlow]
    · simp [hi, hhigh, Nat.not_lt.mpr hhigh]
  have hlt := x.isLt
  rw [hshift, BitVec.toNat_shiftLeft, BitVec.toNat_ushiftRight, Nat.shiftLeft_eq,
    Nat.shiftRight_eq_div_pow, Nat.mod_eq_of_lt (by omega)]

/-- The data section begins where the writer began it. -/
theorem alignUp_eq (h : d.encode.length < 2 ^ 63) :
    (alignUp d.encodeHead.length).toNat = d.dataOffset := by
  have hlen : d.encodeHead.length ≤ d.encode.length := by
    simp only [Document.encode, List.length_append]
    omega
  have hsum : (BitVec.ofNat 64 d.encodeHead.length + 31#64).toNat = d.encodeHead.length + 31 := by
    rw [BitVec.toNat_add, BitVec.toNat_ofNat, BitVec.toNat_ofNat]
    omega
  rw [alignUp, and_not_31, hsum, Document.dataOffset, Document.padding, List.length_replicate]
  omega

/-- The encoding of a document is accepted and read as the document. -/
theorem parse_document (d : Document) (h : d.encode.length < 2 ^ 63) :
    parse d.encode = .ok d.reader := by
  have hstart : (magic ++ leBytes 4 3).length = 8 := by decide
  have hencode : d.encode = (magic ++ leBytes 4 3) ++ (d.encodeLists ++ (d.padding ++ d.data)) := by
    simp only [Document.encode, Document.encodeHead, List.append_assoc]
  have hhead : d.encodeHead.length = 8 + d.encodeLists.length := by
    rw [Document.encodeHead, List.length_append, hstart]
  have hlength : d.encode.length = d.dataOffset + d.data.length := by
    simp only [Document.encode, Document.dataOffset, List.length_append]
    omega
  have hlists : 16 ≤ d.encodeLists.length := by
    simp only [Document.encodeLists, List.length_append, leBytes_length]
    omega
  have hoffset : d.encodeHead.length ≤ d.dataOffset := Nat.le_add_right ..
  have hparse : parseLists d.encode.length d.encode 8 = .ok
      ((d.metadata.map fun entry => (entry.1, entry.2.meaning), d.tensors.map DocTensor.info),
        d.encodeHead.length) := by
    have hlong : d.encodeLists.length ≤ d.encode.length := by omega
    have hreads := reads_lists (by omega) hlong
      (magic ++ leBytes 4 3) (d.padding ++ d.data)
    rw [← hencode, hstart, ← hhead] at hreads
    exact hreads
  have hmagic : d.encode.take 4 = magic := by rw [hencode]; rfl
  have hversion : BitVec.ofNat 32 (leValue ((d.encode.drop 4).take 4)) = 3 := by rw [hencode]; rfl
  have hdata : alignUp d.encodeHead.length = BitVec.ofNat 64 d.dataOffset := by
    refine BitVec.eq_of_toNat_eq ?_
    rw [alignUp_eq h, BitVec.toNat_ofNat, Nat.mod_eq_of_lt (by omega)]
  have hend : ¬ d.encode.length < (alignUp d.encodeHead.length).toNat := by
    rw [alignUp_eq h]
    omega
  unfold parse
  rw [if_neg (by omega), if_neg (not_not.mpr hmagic)]
  simp only [hversion]
  rw [if_neg (not_not.mpr rfl), hparse]
  show (if d.encode.length < (alignUp d.encodeHead.length).toNat then _ else _) = _
  rw [if_neg hend, hdata]
  rfl

/-- Parsing the encoding of a document gives the metadata in order, with types and values, the
tensor descriptions in order and the start of the data section. -/
theorem parse_encode (d : Document) (h : d.encode.length < 2 ^ 63) : parse d.encode = .ok
      { version := 3
        metadata := d.metadata.map fun entry => (entry.1, entry.2.meaning)
        tensors := d.tensors.map DocTensor.info
        dataStart := BitVec.ofNat 64 d.dataOffset } :=
  parse_document d h

/-- A document with a nested array, an empty array, a string and one tensor. -/
def nestedDocument : Document where
  metadata := [([97], .array .array [.array .u16 [.u16 258, .u16 3], .array .string []]),
    ([98], .string [71, 0]), ([], .bool true)]
  tensors := [⟨[119], [32, 2], .q8_0, 64, by decide, by decide, by decide⟩]
  data := [1, 2, 3]
  homogeneous := by simp [DocValue.Homogeneous, DocValue.AllHomogeneous, DocValue.type]

theorem parse_encode_nestedDocument :
    nestedDocument.encode.length < 2 ^ 63 ∧ parse nestedDocument.encode = .ok
      { version := 3
        metadata := nestedDocument.metadata.map fun entry => (entry.1, entry.2.meaning)
        tensors := nestedDocument.tensors.map DocTensor.info
        dataStart := BitVec.ofNat 64 nestedDocument.dataOffset } :=
  have hsize : nestedDocument.encode.length < 2 ^ 63 := by decide +kernel
  ⟨hsize, parse_encode nestedDocument hsize⟩

end CcInfer.Gguf
