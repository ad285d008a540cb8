import CcInfer.Checkpoint.GgufTensor
import CcInfer.Proofs.Checkpoint.GgufRoundTrip
import Mathlib.Algebra.Order.BigOperators.GroupWithZero.List
import Mathlib.Algebra.Order.Ring.Nat

/-!
# `CcInfer.Proofs.Checkpoint.TensorData`: sizes and places of tensors that do not wrap

`tensor_numel` guards its product with the largest `int64_t`. `tensorNumel_eq` says that the
guard is exact: the result is the product of the dimensions whenever that is an `int64_t`. The
guard does not cover what `tensor_bytes` does next. Four times the largest `int64_t` is not a
`uint64_t`, so the byte size of an F32 tensor wraps from `2 ^ 62` elements on; two times is one,
and the 16-bit types never wrap.
-/

set_option autoImplicit false

namespace CcInfer.Gguf

variable {info : TensorInfo} {reader : GgufReader}

/-! ### The number of elements -/

/-- The number of elements that the dimensions stand for. -/
def elements (info : TensorInfo) : Nat := (info.dims.map Int.toNat).prod

theorem prod_toNat_pos {dims : List Int} (h : ∀ dim ∈ dims, 0 < dim) :
    0 < (dims.map Int.toNat).prod := by
  have hpos : ∀ m ∈ dims.map Int.toNat, 0 < m := by
    intro m hm
    obtain ⟨dim, hmem, rfl⟩ := List.mem_map.mp hm
    have := h dim hmem
    omega
  exact List.prod_pos hpos

/-- The loop gives the product, or zero if a dimension is not positive or the guard fires, which
it does exactly if the product is not an `int64_t`. -/
theorem numelLoop_eq (dims : List Int) (n : Nat) (hpos : 0 < n) (hn : n < 2 ^ 63) :
    numelLoop n dims = if (∀ dim ∈ dims, 0 < dim) ∧ n * (dims.map Int.toNat).prod < 2 ^ 63 then
        ((n * (dims.map Int.toNat).prod : Nat) : Int) else 0 := by
  induction dims generalizing n with
  | nil => rw [List.map_nil, List.prod_nil, Nat.mul_one, if_pos ⟨by simp, hn⟩, numelLoop]
  | cons dim _ ih =>
    rw [numelLoop, List.map_cons, List.prod_cons, ← Nat.mul_assoc]
    by_cases hdim : dim ≤ 0
    · rw [if_pos hdim, if_neg]
      exact fun hall => absurd (hall.1 dim List.mem_cons_self) (by omega)
    · obtain ⟨k, rfl⟩ := Int.eq_ofNat_of_zero_le (show 0 ≤ dim by omega)
      have hk : 0 < k := by omega
      have hguard : int64Max / (k : Int) < n ↔ 2 ^ 63 ≤ n * k := by
        rw [int64Max, Int.ediv_lt_iff_lt_mul (by omega)]
        omega
      rw [if_neg hdim, Int.toNat_natCast]
      by_cases hover : 2 ^ 63 ≤ n * k
      · -- the other dimensions can only make the product larger
        rw [if_pos (hguard.mpr hover), if_neg]
        rintro ⟨hall, _⟩
        have hrest := prod_toNat_pos fun dim hmem => hall dim (List.mem_cons_of_mem _ hmem)
        have := Nat.le_mul_of_pos_right (n * k) hrest
        omega
      · rw [if_neg (mt hguard.mp hover), ← Int.natCast_mul, ih (n * k) (Nat.mul_pos hpos hk)
          (Nat.lt_of_not_le hover)]
        simp only [List.forall_mem_cons, Int.natCast_pos, hk, true_and]

/-- The tensors whose elements `tensor_numel` can count. -/
def Counted (info : TensorInfo) : Prop :=
  info.dims ≠ [] ∧ (∀ dim ∈ info.dims, 0 < dim) ∧ elements info < 2 ^ 63

instance (info : TensorInfo) : Decidable (Counted info) :=
  inferInstanceAs (Decidable (_ ∧ _ ∧ _))

/-- `tensor_numel` is the number of elements of a tensor if it can count them, and zero if it
cannot. -/
theorem tensorNumel_eq (info : TensorInfo) :
    tensorNumel info = if Counted info then (elements info : Int) else 0 := by
  unfold tensorNumel
  by_cases hempty : info.dims = []
  · rw [if_pos (List.isEmpty_iff.mpr hempty), if_neg fun hcounted => hcounted.1 hempty]
  · have hloop := numelLoop_eq info.dims 1 (by decide) (by decide)
    rw [Nat.one_mul, ← elements] at hloop
    rw [if_neg (mt List.isEmpty_iff.mp hempty), ← Nat.cast_one, hloop]
    simp only [Counted, ne_eq, hempty, not_false_eq_true, true_and]

/-! ### The number of bytes -/

/-- The size of an element of the types that are not quantized. -/
def elementSize : TensorType → Nat
  | .f32 => 4
  | .f16 | .bf16 => 2
  | .q8_0 => 0

theorem plainBytes_ok_iff {size bytes : BitVec 64} : plainBytes info size = .ok bytes ↔
      Counted info ∧ bytes = BitVec.ofNat 64 (elements info) * size := by
  simp only [plainBytes, tensorNumel_eq]
  by_cases hcounted : Counted info
  · have hpos : 0 < elements info := prod_toNat_pos hcounted.2.1
    rw [if_pos hcounted, if_neg (by omega)]
    simp only [hcounted, true_and, BitVec.ofInt_natCast, Except.ok.injEq, eq_comm]
  · rw [if_neg hcounted, if_pos (Int.le_refl 0)]
    exact iff_of_false (by rintro ⟨⟩) fun h => hcounted h.1

/-- The byte size of a tensor of F32, F16 or BF16 numbers is an error or exact, except for the F32
tensors that have an `int64_t` number of elements that is at least `2 ^ 62`. -/
theorem tensor_bytes_exact_iff (q80StorageBytes : List Int → Option (BitVec 64))
    (info : TensorInfo) (htype : info.type ≠ .q8_0) :
    (∀ bytes, tensorBytes q80StorageBytes info = .ok bytes →
        bytes.toNat = elements info * elementSize info.type) ↔
      ¬ (info.type = .f32 ∧ (∀ dim ∈ info.dims, 0 < dim) ∧
        2 ^ 62 ≤ elements info ∧ elements info < 2 ^ 63) := by
  -- what `tensor_bytes` returns for each of the three types
  have hbytes : ∀ bytes, tensorBytes q80StorageBytes info = .ok bytes ↔ Counted info ∧
      bytes = BitVec.ofNat 64 (elements info) * BitVec.ofNat 64 (elementSize info.type) := by
    intro bytes
    unfold tensorBytes
    cases htype' : info.type with
    | q8_0 => exact absurd htype' htype
    | f32 | f16 | bf16 => exact plainBytes_ok_iff
  have hsize : elementSize info.type = if info.type = .f32 then 4 else 2 := by
    cases htype' : info.type with
    | q8_0 => exact absurd htype' htype
    | f32 | f16 | bf16 => rfl
  have hvalue : (BitVec.ofNat 64 (elements info) *
      BitVec.ofNat 64 (elementSize info.type)).toNat =
      elements info * elementSize info.type % 2 ^ 64 := by
    rw [BitVec.toNat_mul, BitVec.toNat_ofNat, BitVec.toNat_ofNat, ← Nat.mul_mod]
  constructor
  · rintro hexact ⟨hf32, hdims, hlow, hhigh⟩
    have hne : info.dims ≠ [] := by
      intro hempty
      simp [elements, hempty] at hlow
    have hwrapped := hexact _ ((hbytes _).mpr ⟨⟨hne, hdims, hhigh⟩, rfl⟩)
    rw [hvalue, hsize, if_pos hf32] at hwrapped
    omega
  · intro hfits bytes hok
    obtain ⟨⟨-, hdims, hlt⟩, rfl⟩ := (hbytes bytes).mp hok
    rw [hvalue, Nat.mod_eq_of_lt]
    rw [hsize]
    split
    · rename_i hf32
      have : ¬ 2 ^ 62 ≤ elements info := fun hlow => hfits ⟨hf32, hdims, hlow, hlt⟩
      omega
    · omega

/-- A matrix of F32 numbers. -/
def matrix : TensorInfo := ⟨[119], [4096, 1024], .f32, 0⟩

theorem tensor_bytes_exact_matrix : matrix.type ≠ .q8_0 ∧
      ∀ bytes, tensorBytes (fun _ => none) matrix = .ok bytes →
        bytes.toNat = elements matrix * elementSize matrix.type :=
  ⟨by decide, (tensor_bytes_exact_iff (fun _ => none) matrix (by decide)).mpr (by decide)⟩

/-- A document with one F32 tensor of `2 ^ 62 + 1` elements. -/
def hugeTensor : Document where
  metadata := []
  tensors := [⟨[119], [2 ^ 62 + 1], .f32, 0, by decide, by decide, by decide⟩]
  data := [1, 2, 3, 4]
  homogeneous := by simp

/-- The file is accepted, and the size of its tensor comes out as four bytes. -/
theorem hugeTensor_wraps :
    ∃ reader info, parse hugeTensor.encode = .ok reader ∧ info ∈ reader.tensors ∧
      info.type = .f32 ∧ elements info * elementSize info.type = 2 ^ 64 + 4 ∧
      tensorBytes (fun _ => none) info = .ok 4 ∧
      rawTensorData (fun _ => none) reader hugeTensor.encode.length info = .ok (64, 4) := by
  refine ⟨hugeTensor.reader, ⟨[119], [2 ^ 62 + 1], .f32, 0⟩, ?_, ?_, rfl, ?_, ?_, ?_⟩
  · exact parse_document hugeTensor (by decide)
  · exact List.mem_singleton.mpr rfl
  · decide
  · decide
  · decide

/-! ### The place of the bytes -/

/-- The data section of an accepted file starts inside the file. -/
theorem dataStart_le {data : Bytes} (h : parse data = .ok reader) :
    reader.dataStart.toNat ≤ data.length := by
  unfold parse at h
  by_cases hsize : data.length < 4 + 4 + 8 + 8
  · rw [if_pos hsize] at h
    cases h
  by_cases hmagic : data.take 4 ≠ magic
  · rw [if_neg hsize, if_pos hmagic] at h
    cases h
  rw [if_neg hsize, if_neg hmagic] at h
  simp only at h
  by_cases hversion : BitVec.ofNat 32 (leValue ((data.drop 4).take 4)) ≠ 3
  · rw [if_pos hversion] at h
    cases h
  rw [if_neg hversion] at h
  cases hlists : parseLists data.length data 8 with
  | error =>
    rw [hlists] at h
    cases h
  | ok lists =>
    rw [hlists] at h
    replace h : (if data.length < (alignUp lists.2).toNat then .error .modelLoadFailed
        else .ok ⟨BitVec.ofNat 32 (leValue ((data.drop 4).take 4)), lists.1.1, lists.1.2,
          alignUp lists.2⟩ : Result GgufReader) = .ok reader := h
    by_cases hend : data.length < (alignUp lists.2).toNat
    · rw [if_pos hend] at h
      cases h
    · rw [if_neg hend] at h
      cases h
      exact Nat.le_of_not_lt hend

/-- What `raw_tensor_data` returns: the sum of the two offsets, wrapped, if the tensor fits behind
it. -/
theorem rawTensorData_ok_iff {q80StorageBytes : List Int → Option (BitVec 64)} {size : Nat}
    {span : Nat × Nat} :
    rawTensorData q80StorageBytes reader size info = .ok span ↔
      ∃ bytes, tensorBytes q80StorageBytes info = .ok bytes ∧
        (reader.dataStart + info.offset).toNat + bytes.toNat ≤ size ∧
        span = ((reader.dataStart + info.offset).toNat, bytes.toNat) := by
  unfold rawTensorData
  cases hbytes : tensorBytes q80StorageBytes info with
  | error => exact iff_of_false (by rintro ⟨⟩) fun ⟨_, h, _⟩ => by cases h
  | ok bytes =>
    show (if size < (reader.dataStart + info.offset).toNat ∨
      size - (reader.dataStart + info.offset).toNat < bytes.toNat then _ else _) = _ ↔ _
    split
    · rename_i hpast
      refine iff_of_false (by rintro ⟨⟩) ?_
      rintro ⟨_, ⟨⟩, _, -⟩
      omega
    · rename_i hfits
      constructor
      · rintro ⟨⟩
        exact ⟨bytes, rfl, by omega, rfl⟩
      · rintro ⟨_, ⟨⟩, -, rfl⟩
        rfl

/-- The span that `raw_tensor_data` returns for a tensor of an accepted file is where it should
be, inside the data section, exactly if the sum of the start of that section and the offset of
the tensor does not wrap, or wraps to a place from which the tensor runs past the end of the
file. -/
theorem raw_tensor_data_inside_iff (q80StorageBytes : List Int → Option (BitVec 64))
    {data : Bytes} {reader : GgufReader} (h : parse data = .ok reader) (info : TensorInfo) :
    (∀ start length, rawTensorData q80StorageBytes reader data.length info = .ok (start, length) →
        start = reader.dataStart.toNat + info.offset.toNat ∧
          reader.dataStart.toNat ≤ start ∧ start + length ≤ data.length) ↔
      (reader.dataStart.toNat + info.offset.toNat < 2 ^ 64 ∨
        ∀ bytes, tensorBytes q80StorageBytes info = .ok bytes →
          data.length < reader.dataStart.toNat + info.offset.toNat - 2 ^ 64 + bytes.toNat) := by
  have hstart := dataStart_le h
  have hsum : (reader.dataStart + info.offset).toNat =
      (reader.dataStart.toNat + info.offset.toNat) % 2 ^ 64 := BitVec.toNat_add _ _
  have hlt := reader.dataStart.isLt
  have hlt' := info.offset.isLt
  constructor
  · intro hinside
    by_contra hcontra
    obtain ⟨_, hbytes⟩ := not_or.mp hcontra
    obtain ⟨bytes, hrest⟩ := not_forall.mp hbytes
    obtain ⟨hok, _⟩ := Classical.not_imp.mp hrest
    -- the wrapped sum is a span in front of the data section
    have hspan := hinside _ _ (rawTensorData_ok_iff.mpr ⟨bytes, hok, by omega, rfl⟩)
    omega
  · intro hcond start length hok
    obtain ⟨bytes, hbytes, _, hspan⟩ := rawTensorData_ok_iff.mp hok
    obtain ⟨rfl, rfl⟩ := Prod.mk.inj hspan
    rcases hcond with _ | hpast
    · omega
    · have := hpast bytes hbytes
      omega

theorem raw_tensor_data_inside_hugeTensor : parse hugeTensor.encode = .ok hugeTensor.reader ∧
      ∀ start length, rawTensorData (fun _ => none) hugeTensor.reader hugeTensor.encode.length
          ⟨[119], [2 ^ 62 + 1], .f32, 0⟩ = .ok (start, length) →
        start = hugeTensor.reader.dataStart.toNat + 0 ∧
          hugeTensor.reader.dataStart.toNat ≤ start ∧ start + length ≤ hugeTensor.encode.length :=
  have hparse := parse_document hugeTensor (by decide)
  ⟨hparse, (raw_tensor_data_inside_iff (fun _ => none) hparse
    ⟨[119], [2 ^ 62 + 1], .f32, 0⟩).mpr (.inl (by decide))⟩

/-- A document with one F32 number whose offset is `2 ^ 64 - 64`. -/
def headerTensor : Document where
  metadata := []
  tensors := [⟨[119], [1], .f32, 0xffffffffffffffc0, by decide, by decide, by decide⟩]
  data := [1, 2, 3, 4]
  homogeneous := by simp

/-- The file is accepted, and the number is read off the magic letters at its beginning. -/
theorem headerTensor_aliases :
    ∃ reader info, parse headerTensor.encode = .ok reader ∧ info ∈ reader.tensors ∧
      rawTensorData (fun _ => none) reader headerTensor.encode.length info = .ok (0, 4) ∧
      reader.dataStart = 64 ∧ headerTensor.encode.take 4 = magic := by
  refine ⟨headerTensor.reader, ⟨[119], [1], .f32, 0xffffffffffffffc0⟩, ?_, ?_, ?_, ?_, ?_⟩
  · exact parse_document headerTensor (by decide)
  · exact List.mem_singleton.mpr rfl
  · decide
  · decide
  · decide

end CcInfer.Gguf
