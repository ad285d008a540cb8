import CcInfer.Lib.Checked
import CcInfer.Model.Qwen3Model
import Mathlib.Tactic.Linarith
import Mathlib.Tactic.Ring

/-!
# `CcInfer.Model.RopeTable`: where the rotations of a position are kept

The embedding of the loops of `RopeCache::create` that fill `host_cache`, as far as they compute
places in it. The angles are floats and outside the model.
-/

set_option autoImplicit false

namespace CcInfer.RopeCache

variable {maxPosition rotaryDim pos pair : Int}

/-- An `int` of the source. -/
def IsInt (n : Int) : Prop := -2 ^ 31 ≤ n ∧ n < 2 ^ 31

/-- The tests before the table is filled, in the order of the source. -/
def passesGuards (maxPosition rotaryDim : Int) (ropeTheta : Option Rat) : Bool :=
  if maxPosition ≤ 0 ∨ rotaryDim ≤ 0 ∨ rotaryDim.tmod 2 ≠ 0 then false
  else if !finitePositive ropeTheta then false
  else if maxPosition.toNat > (2 ^ 64 - 1) / rotaryDim.toNat then false
  else true

/-- `total_floats`. -/
def totalFloats (maxPosition rotaryDim : Int) : Int := maxPosition * rotaryDim

/-- `half_dim`. -/
def halfDim (rotaryDim : Int) : Int := rotaryDim.tdiv 2

/-- `(pos * half_dim + pair) * 2`, computed in `int`. -/
def tableIndex (rotaryDim pos pair : Int) : Option Int := do
  let row ← Checked.signed 32 (pos * halfDim rotaryDim)
  let entry ← Checked.signed 32 (row + pair)
  Checked.signed 32 (entry * 2)

/-- A round of the two loops. -/
def IsRound (maxPosition rotaryDim pos pair : Int) : Prop :=
  0 ≤ pos ∧ pos < maxPosition ∧ 0 ≤ pair ∧ pair < halfDim rotaryDim

/-- Every round has a place for its two entries inside the table, no two rounds share one, and
every even index is a place. -/
structure IndexesTable (maxPosition rotaryDim : Int) : Prop where
  inside : ∀ pos pair, IsRound maxPosition rotaryDim pos pair →
    ∃ idx, tableIndex rotaryDim pos pair = some idx ∧ 0 ≤ idx ∧
      idx < totalFloats maxPosition rotaryDim - 1
  injective : ∀ pos pair pos' pair' idx, IsRound maxPosition rotaryDim pos pair →
    IsRound maxPosition rotaryDim pos' pair' → tableIndex rotaryDim pos pair = some idx →
      tableIndex rotaryDim pos' pair' = some idx → pos = pos' ∧ pair = pair'
  covers : ∀ idx, 0 ≤ idx → idx < totalFloats maxPosition rotaryDim → idx % 2 = 0 →
    ∃ pos pair, IsRound maxPosition rotaryDim pos pair ∧ tableIndex rotaryDim pos pair = some idx

/-! ### The guards -/

/-- What the guards leave: an even dimension, and at least one row. -/
theorem passesGuards_spec {ropeTheta : Option Rat}
    (h : passesGuards maxPosition rotaryDim ropeTheta) :
    0 < maxPosition ∧ 0 < rotaryDim ∧ rotaryDim = 2 * halfDim rotaryDim := by
  unfold passesGuards at h
  split at h
  · cases h
  · rename_i hdims
    simp only [not_or, not_le, not_not] at hdims
    obtain ⟨hpos, hdim, _⟩ := hdims
    refine ⟨hpos, hdim, ?_⟩
    have hsplit := Int.mul_tdiv_add_tmod rotaryDim 2
    unfold halfDim
    omega

/-! ### Places -/

/-- A round has the place `2 * (pos * half_dim + pair)`, if that is an `int`. -/
theorem tableIndex_eq_some_iff {idx : Int} (hdim : 0 ≤ halfDim rotaryDim)
    (hpos : 0 ≤ pos) (hpair : 0 ≤ pair) : tableIndex rotaryDim pos pair = some idx ↔
      idx = 2 * (pos * halfDim rotaryDim + pair) ∧ idx < 2 ^ 31 := by
  have hrow : 0 ≤ pos * halfDim rotaryDim := mul_nonneg hpos hdim
  unfold tableIndex
  -- each result is at most the next one, so that the last one decides
  by_cases hfits : 2 * (pos * halfDim rotaryDim + pair) < 2 ^ 31
  · rw [Checked.signed_of_mem (by omega) (by omega), Option.bind_eq_bind, Option.bind_some,
      Checked.signed_of_mem (by omega) (by omega), Option.bind_some,
      Checked.signed_of_mem (by omega) (by omega), Option.some.injEq]
    omega
  · constructor
    · intro h
      simp only [Option.bind_eq_bind, Option.bind_eq_some_iff] at h
      obtain ⟨_, hrowEq, _, hentry, hidx⟩ := h
      simp only [Checked.signed, Option.ite_none_right_eq_some, Option.some.injEq]
        at hrowEq hentry hidx
      omega
    · rintro ⟨rfl, hlt⟩
      exact absurd hlt hfits

/-- The entries of a round are in front of those of the next row. -/
theorem IsRound.entry_lt (h : IsRound maxPosition rotaryDim pos pair) :
    pos * halfDim rotaryDim + pair < maxPosition * halfDim rotaryDim := by
  obtain ⟨_, _, _, _⟩ := h
  have hrow : (pos + 1) * halfDim rotaryDim ≤ maxPosition * halfDim rotaryDim :=
    mul_le_mul_of_nonneg_right (by omega) (by omega)
  linarith

/-- Row and pair are quotient and remainder of the entry. -/
theorem IsRound.eq_ediv_emod (h : IsRound maxPosition rotaryDim pos pair) :
    pos = (pos * halfDim rotaryDim + pair) / halfDim rotaryDim ∧
      pair = (pos * halfDim rotaryDim + pair) % halfDim rotaryDim := by
  obtain ⟨_, _, hpair, hhalf⟩ := h
  have hne : halfDim rotaryDim ≠ 0 := by omega
  rw [Int.add_comm, Int.add_mul_ediv_right _ _ hne, Int.add_mul_emod_self_right,
    Int.ediv_eq_zero_of_lt hpair hhalf, Int.emod_eq_of_lt hpair hhalf]
  exact ⟨(zero_add pos).symm, rfl⟩

/-- Conversely, quotient and remainder of an entry of the table are a round. -/
theorem isRound_ediv_emod {entry : Int} (hdim : 0 < halfDim rotaryDim)
    (hentry : 0 ≤ entry) (hlt : entry < maxPosition * halfDim rotaryDim) :
    IsRound maxPosition rotaryDim (entry / halfDim rotaryDim) (entry % halfDim rotaryDim) :=
  ⟨Int.ediv_nonneg hentry hdim.le, Int.ediv_lt_of_lt_mul hdim hlt,
    Int.emod_nonneg _ hdim.ne', Int.emod_lt_of_pos _ hdim⟩

theorem totalFloats_eq (heven : rotaryDim = 2 * halfDim rotaryDim) :
    totalFloats maxPosition rotaryDim = 2 * (maxPosition * halfDim rotaryDim) := by
  unfold totalFloats
  rw [mul_left_comm, ← heven]

/-- Up to `2 ^ 31` entries every index is an `int`. -/
theorem indexesTable_of_le (hdim : 0 < halfDim rotaryDim)
    (heven : rotaryDim = 2 * halfDim rotaryDim) (hle : totalFloats maxPosition rotaryDim ≤ 2 ^ 31) :
    IndexesTable maxPosition rotaryDim := by
  have htotal : totalFloats maxPosition rotaryDim = _ := totalFloats_eq heven
  -- every round has its place
  have hplace : ∀ pos pair, IsRound maxPosition rotaryDim pos pair →
      tableIndex rotaryDim pos pair = some (2 * (pos * halfDim rotaryDim + pair)) := by
    intro pos pair hround
    have hlt := hround.entry_lt
    exact (tableIndex_eq_some_iff hdim.le hround.1 hround.2.2.1).mpr ⟨rfl, by omega⟩
  refine ⟨fun pos pair hround => ?_, fun pos pair pos' pair' idx hround hround' h h' => ?_,
    fun idx hnonneg hlt hidx => ?_⟩
  · have hentry := hround.entry_lt
    have hrow : 0 ≤ pos * halfDim rotaryDim := mul_nonneg hround.1 hdim.le
    have hpair := hround.2.2.1
    exact ⟨_, hplace pos pair hround, by omega, by omega⟩
  · rw [hplace pos pair hround, Option.some.injEq] at h
    rw [hplace pos' pair' hround', Option.some.injEq] at h'
    have hsame : pos * halfDim rotaryDim + pair = pos' * halfDim rotaryDim + pair' := by omega
    obtain ⟨hpos, hpair⟩ := hround.eq_ediv_emod
    obtain ⟨hpos', hpair'⟩ := hround'.eq_ediv_emod
    rw [hsame] at hpos hpair
    exact ⟨hpos.trans hpos'.symm, hpair.trans hpair'.symm⟩
  · have hround : IsRound maxPosition rotaryDim (idx / 2 / halfDim rotaryDim)
        (idx / 2 % halfDim rotaryDim) := isRound_ediv_emod hdim (by omega) (by omega)
    refine ⟨_, _, hround, ?_⟩
    rw [hplace _ _ hround, Option.some.injEq, Int.ediv_mul_add_emod]
    omega

/-- The last round needs an `int` for the last even index. -/
theorem le_of_indexesTable (hpos : 0 < maxPosition)
    (hdim : 0 < halfDim rotaryDim) (heven : rotaryDim = 2 * halfDim rotaryDim)
    (h : IndexesTable maxPosition rotaryDim) : totalFloats maxPosition rotaryDim ≤ 2 ^ 31 := by
  have hround : IsRound maxPosition rotaryDim (maxPosition - 1) (halfDim rotaryDim - 1) :=
    ⟨by omega, by omega, by omega, by omega⟩
  obtain ⟨_, hidx, -⟩ := h.inside _ _ hround
  obtain ⟨rfl, hlt⟩ :=
    (tableIndex_eq_some_iff hdim.le (by omega) (by omega)).mp hidx
  have hlast : (maxPosition - 1) * halfDim rotaryDim + (halfDim rotaryDim - 1) =
      maxPosition * halfDim rotaryDim - 1 := by
    ring
  rw [hlast] at hlt
  rw [totalFloats_eq heven]
  omega

/-- For arguments that pass the guards, the places computed in `int` are the layout of the table
exactly if the table has at most `2 ^ 31` entries. -/
theorem indexesTable_iff {maxPosition rotaryDim : Int} {ropeTheta : Option Rat}
    (h : passesGuards maxPosition rotaryDim ropeTheta) :
    IndexesTable maxPosition rotaryDim ↔ maxPosition * rotaryDim ≤ 2 ^ 31 := by
  obtain ⟨hpos, _, heven⟩ := passesGuards_spec h
  exact ⟨le_of_indexesTable hpos (by omega) heven, indexesTable_of_le (by omega) heven⟩

/-- A model with 40960 positions of 128 dimensions. -/
theorem indexesTable_iff_qwen3 : passesGuards 40960 128 (some 1000000) ∧
      (IndexesTable 40960 128 ↔ (40960 * 128 : Int) ≤ 2 ^ 31) := by
  have hguards : passesGuards 40960 128 (some 1000000) := by decide +kernel
  exact ⟨hguards, indexesTable_iff hguards⟩

/-- With one position more than `2 ^ 24`, the first place of the last row is not an `int`. -/
theorem lastRow_overflows : IsInt 16777217 ∧ IsInt 128 ∧ passesGuards 16777217 128 (some 1000000) ∧
      IsRound 16777217 128 16777216 0 ∧ tableIndex 128 16777216 0 = none := by
  refine ⟨⟨by decide, by decide⟩, ⟨by decide, by decide⟩, by decide +kernel,
    ⟨by decide, by decide, by decide, by decide⟩, by decide +kernel⟩

end CcInfer.RopeCache
