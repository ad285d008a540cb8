import CcInfer.Base.Json
import CcInfer.Lib.Fallible
import Mathlib.Algebra.Order.BigOperators.GroupWithZero.List
import Mathlib.Algebra.Order.Ring.Int
import Mathlib.Tactic.Ring

/-!
# `CcInfer.Runtime.Tensor`: dense tensors on the device

The embedding of `Tensor::from_host` for a dense type, with the sizes it checks, from
`runtime/tensor.cpp`. Sizes are `size_t`; each product is checked before it is computed, so that
none wraps.
-/

set_option autoImplicit false

namespace CcInfer

/-- `ccop::DType`, as far as a checkpoint has tensors of it. -/
inductive DType
  | float32
  | float16
  | bfloat16
  deriving DecidableEq, Repr

/-- `ccop::dtype_size`. -/
def DType.size : DType → Nat
  | float32 => 4
  | float16 | bfloat16 => 2

/-- What loading a tensor depends on besides the host. -/
structure Backend where
  /-- `ccop::kTensorMaxRank`. -/
  tensorMaxRank : Nat
  /-- The answer to `allocate_buffer` and `memcpy_h2d` for the tensor of this name. -/
  transfer : Bytes → Result Unit

/-- `Tensor`: the size that was allocated, and what was copied there. -/
structure Tensor where
  dtype : DType
  shape : List Int
  nbytes : Nat
  data : Bytes
  deriving DecidableEq, Repr

/-- `std::numeric_limits<std::size_t>::max()`. -/
def sizeMax : Nat := 2 ^ 64 - 1

/-- The loop of `checked_numel`, with `numel` elements counted so far. -/
def checkedNumelLoop (numel : Nat) : List Int → Result Nat
  | [] => .ok numel
  | dim :: rest =>
    if dim ≤ 0 ∨ sizeMax / numel < dim.toNat then .error .invalidArgument
    else checkedNumelLoop (numel * dim.toNat) rest

/-- `checked_numel`. -/
def checkedNumel (maxRank : Nat) (shape : List Int) : Result Nat :=
  if shape.isEmpty ∨ maxRank < shape.length then .error .invalidArgument
  else checkedNumelLoop 1 shape

/-- `checked_nbytes_dense`. -/
def checkedNbytesDense (maxRank : Nat) (dtype : DType) (shape : List Int) : Result Nat := do
  let numel ← checkedNumel maxRank shape
  if sizeMax / dtype.size < numel then .error .invalidArgument
  else .ok (numel * dtype.size)

/-- The loop counts the elements of a shape whose sizes are positive, up to the greatest `size_t`.
-/
theorem checkedNumelLoop_eq_ok_iff {shape : List Int} {n : Nat} : ∀ {numel : Nat}, 0 < numel →
    numel ≤ sizeMax → (checkedNumelLoop numel shape = .ok n ↔
      (∀ dim ∈ shape, 0 < dim) ∧ (n : Int) = numel * shape.prod ∧ n ≤ sizeMax) := by
  induction shape with
  | nil =>
    intro numel _ hmax
    rw [checkedNumelLoop, List.prod_nil, mul_one, Except.ok.injEq]
    constructor
    · rintro rfl
      exact ⟨fun _ h => (List.not_mem_nil h).elim, rfl, hmax⟩
    · rintro ⟨-, hn, -⟩
      exact (Int.ofNat.inj hn).symm
  | cons dim rest ih =>
    intro numel hpos hmax
    rw [checkedNumelLoop, List.prod_cons, List.forall_mem_cons]
    by_cases hdim : 0 < dim
    · have hcast : (dim.toNat : Int) = dim := Int.toNat_of_nonneg hdim.le
      have hprod : ((numel * dim.toNat : Nat) : Int) * rest.prod = numel * (dim * rest.prod) := by
        rw [Nat.cast_mul, hcast]
        ring
      by_cases hfits : numel * dim.toNat ≤ sizeMax
      · have hle : dim.toNat ≤ sizeMax / numel :=
          (Nat.le_div_iff_mul_le hpos).mpr (by rwa [Nat.mul_comm])
        rw [if_neg (by omega), ih (Nat.mul_pos hpos (by omega)) hfits, hprod]
        exact ⟨fun h => ⟨⟨hdim, h.1⟩, h.2⟩, fun h => ⟨h.1.2, h.2⟩⟩
      · have hlt : sizeMax / numel < dim.toNat :=
          (Nat.div_lt_iff_lt_mul hpos).mpr (by rw [Nat.mul_comm]; omega)
        rw [if_pos (Or.inr hlt)]
        refine iff_of_false (fun h => by cases h) ?_
        rintro ⟨⟨-, hrest⟩, hn, _⟩
        -- the remaining sizes are at least 1, so the product does not fit either
        have hone : (1 : Int) ≤ rest.prod := List.one_le_prod hrest
        rw [← hprod] at hn
        have := le_mul_of_one_le_right (Int.natCast_nonneg (numel * dim.toNat)) hone
        omega
    · rw [if_pos (Or.inl (not_lt.mp hdim))]
      exact iff_of_false (fun h => by cases h) fun h => hdim h.1.1

/-- The size of a dense tensor is known exactly if its rank is allowed, its sizes are positive and
its bytes can be counted. -/
theorem checkedNbytesDense_eq_ok_iff {maxRank n : Nat} {dtype : DType} {shape : List Int} :
    checkedNbytesDense maxRank dtype shape = .ok n ↔
      (shape ≠ [] ∧ shape.length ≤ maxRank) ∧ (∀ dim ∈ shape, 0 < dim) ∧
        (n : Int) = shape.prod * dtype.size ∧ n ≤ sizeMax := by
  have hsize : 0 < dtype.size := by cases dtype <;> decide
  rw [checkedNbytesDense, Fallible.bind_eq_ok_iff, checkedNumel]
  by_cases hrank : shape ≠ [] ∧ shape.length ≤ maxRank
  · have hnumel : ∀ numel, checkedNumelLoop 1 shape = .ok numel ↔
        (∀ dim ∈ shape, 0 < dim) ∧ (numel : Int) = shape.prod ∧ numel ≤ sizeMax := fun numel => by
      rw [checkedNumelLoop_eq_ok_iff Nat.one_pos (by decide), Nat.cast_one, one_mul]
    rw [if_neg (by simpa using hrank)]
    simp only [hnumel]
    constructor
    · rintro ⟨numel, ⟨hdims, hprod, -⟩, h⟩
      split at h
      · cases h
      · rename_i hle
        obtain rfl := Except.ok.inj h
        exact ⟨hrank, hdims, by rw [Nat.cast_mul, hprod],
          (Nat.le_div_iff_mul_le hsize).mp (not_lt.mp hle)⟩
    · rintro ⟨-, hdims, hn, hmax⟩
      have hnonneg : 0 ≤ shape.prod := zero_le_one.trans (List.one_le_prod hdims)
      obtain ⟨numel, hprod⟩ := Int.eq_ofNat_of_zero_le hnonneg
      rw [hprod, ← Nat.cast_mul] at hn
      obtain rfl := Int.ofNat.inj hn
      refine ⟨numel, ⟨hdims, hprod.symm, (Nat.le_mul_of_pos_right _ hsize).trans hmax⟩, ?_⟩
      exact if_neg (not_lt.mpr ((Nat.le_div_iff_mul_le hsize).mpr hmax))
  · rw [if_pos (by simpa [or_iff_not_imp_left] using hrank)]
    exact iff_of_false (fun ⟨_, h, _⟩ => by cases h) fun h => hrank h.1

/-- When the size of a dense tensor is computed. -/
theorem exists_checkedNbytesDense_iff {maxRank : Nat} {dtype : DType} {shape : List Int} :
    (∃ n, checkedNbytesDense maxRank dtype shape = .ok n) ↔
      (shape ≠ [] ∧ shape.length ≤ maxRank) ∧ (∀ dim ∈ shape, 0 < dim) ∧
        shape.prod * dtype.size ≤ sizeMax := by
  simp only [checkedNbytesDense_eq_ok_iff]
  constructor
  · rintro ⟨_, hrank, hdims, hn, hmax⟩
    exact ⟨hrank, hdims, hn ▸ Int.ofNat_le.mpr hmax⟩
  · rintro ⟨hrank, hdims, hmax⟩
    have hnonneg : 0 ≤ shape.prod * dtype.size :=
      mul_nonneg (zero_le_one.trans (List.one_le_prod hdims)) (Int.natCast_nonneg _)
    exact ⟨_, hrank, hdims, Int.toNat_of_nonneg hnonneg, Int.toNat_le.mpr hmax⟩

/-- `Tensor::from_host`, where `src` is the memory from the pointer on. It copies as many bytes as
the shape asks for, and does not know how many there are. -/
def Tensor.fromHost (backend : Backend) (name src : Bytes) (dtype : DType) (shape : List Int) :
    Result Tensor := do
  let nbytes ← checkedNbytesDense backend.tensorMaxRank dtype shape
  backend.transfer name
  .ok ⟨dtype, shape, nbytes, src.take nbytes⟩

end CcInfer
