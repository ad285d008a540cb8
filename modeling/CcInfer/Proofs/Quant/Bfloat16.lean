import CcInfer.Lib.BinaryFormat
import CcInfer.Model.Qwen35Weights
import Mathlib.Tactic.NormNum

/-!
# `CcInfer.Proofs.Quant.Bfloat16`: what becomes of a float in `bfloat16`

`float_to_bfloat16` adds a little less than half of the sixteen bits that it cuts off, and one
more if the bit above them is set. On the place of the float, which is its pattern without the
sign, this is rounding of the quotient by `2 ^ 16` (`toNat_floatToBfloat16`), and that is the
nearest `bfloat16` for a finite float and the same infinity for an infinite one.
-/

set_option autoImplicit false

namespace CcInfer

variable {bits : UInt32}

open BinaryFormat

/-- The class of the value is kept: finite floats are rounded, infinities stay what they are, and
NaNs stay NaNs. -/
structure KeepsClass (bits : UInt32) : Prop where
  finite : binary32.IsFinite bits.toNat →
    bfloat16.negative (floatToBfloat16 bits).toNat = binary32.negative bits.toNat ∧
      bfloat16.RoundsTo (binary32.value bits.toNat) (floatToBfloat16 bits).toNat
  infinite : binary32.IsInfinite bits.toNat →
    bfloat16.negative (floatToBfloat16 bits).toNat = binary32.negative bits.toNat ∧
      bfloat16.IsInfinite (floatToBfloat16 bits).toNat
  nan : binary32.IsNaN bits.toNat → bfloat16.IsNaN (floatToBfloat16 bits).toNat

/-- A pattern is its sign and its place. -/
theorem toNat_eq_sign_add_place (bits : UInt32) :
    bits.toNat = 2 ^ 31 * (binary32.negative bits.toNat).toNat + binary32.place bits.toNat := by
  have hlt : bits.toNat < 2 ^ 32 := bits.toNat_lt
  have hsign : (binary32.negative bits.toNat).toNat = bits.toNat / 2 ^ 31 := by
    change (bits.toNat.testBit 31).toNat = _
    rw [Nat.toNat_testBit]
    omega
  have hplace : binary32.place bits.toNat = bits.toNat % 2 ^ 31 := rfl
  omega

/-- Adding a little less than half, and one more to an odd quotient, rounds the quotient. -/
theorem add_roundShift_eq (sign k : ℕ) : 2 ^ 15 * sign + roundShift k 16 =
      (2 ^ 31 * sign + k + (0x7FFF + (2 ^ 31 * sign + k) / 2 ^ 16 % 2)) / 2 ^ 16 := by
  -- the sign does not reach the bit above the cut
  have hodd : (2 ^ 31 * sign + k) / 2 ^ 16 % 2 = k / 2 ^ 16 % 2 := by omega
  have hcarry : (2 ^ 31 * sign + k + (0x7FFF + k / 2 ^ 16 % 2)) / 2 ^ 16 =
      2 ^ 15 * sign + (k / 2 ^ 16 + (k % 2 ^ 16 + (0x7FFF + k / 2 ^ 16 % 2)) / 2 ^ 16) := by
    omega
  rw [hodd, hcarry, roundShift]
  split
  · rename_i hup
    rw [Nat.odd_iff] at hup
    omega
  · rename_i hdown
    rw [Nat.odd_iff] at hdown
    omega

/-- The addition rounds the place, and wraps if that carries into a sign bit that is set. -/
theorem toNat_floatToBfloat16 (bits : UInt32) :
    (floatToBfloat16 bits).toNat = (2 ^ 15 * (binary32.negative bits.toNat).toNat +
      roundShift (binary32.place bits.toNat) 16) % 2 ^ 16 := by
  have hbit : ((bits >>> 16) &&& 1).toNat = bits.toNat / 2 ^ 16 % 2 := by
    rw [UInt32.toNat_and, UInt32.toNat_shiftRight]
    change bits.toNat >>> 16 &&& 1 = _
    rw [Nat.shiftRight_eq_div_pow, Nat.and_one_is_mod]
  have hsum : (bits + ((0x7FFF : UInt32) + ((bits >>> 16) &&& 1))).toNat =
      (bits.toNat + (0x7FFF + bits.toNat / 2 ^ 16 % 2)) % 2 ^ 32 := by
    rw [UInt32.toNat_add, UInt32.toNat_add, hbit]
    change (bits.toNat + (0x7FFF + bits.toNat / 2 ^ 16 % 2) % 2 ^ 32) % 2 ^ 32 = _
    omega
  have hresult : (floatToBfloat16 bits).toNat =
      (bits.toNat + (0x7FFF + bits.toNat / 2 ^ 16 % 2)) / 2 ^ 16 % 2 ^ 16 := by
    rw [floatToBfloat16, UInt32.toNat_toUInt16, UInt32.toNat_shiftRight, hsum]
    change _ >>> 16 % 2 ^ 16 = _
    rw [Nat.shiftRight_eq_div_pow]
    omega
  have hsplit := toNat_eq_sign_add_place bits
  rw [hresult, add_roundShift_eq, ← hsplit]

/-! ### Floats that are not NaNs -/

theorem unit_bfloat16 : bfloat16.unit = 2 ^ 16 * binary32.unit := by
  norm_num [unit, bias, bfloat16, binary32]

/-- The rounded quotient is the nearest place. -/
theorem nearestAt_bfloat16 (k : ℕ) :
    NearestAt bfloat16.magnitude (binary32.magnitude k) (roundShift k 16) := by
  have hcount : mag 23 k = mag 7 (0 + k / 2 ^ 16) * 2 ^ 16 + k % 2 ^ 16 * ulp 7 (k / 2 ^ 16) := by
    have hcut := mag_add_fracBits (p := 7) (k := k / 2 ^ 16) (Nat.mod_lt k (Nat.two_pow_pos 16))
    rw [Nat.div_add_mod'] at hcut
    rw [Nat.zero_add]
    exact hcut
  have hulp : ulp 7 (0 + k / 2 ^ 16) * 2 ^ 16 = 2 ^ 16 * ulp 7 (k / 2 ^ 16) := by
    rw [Nat.zero_add, Nat.mul_comm]
  have hnear := nearestAt_roundShift binary32.unit_pos unit_bfloat16 Even.zero
    (Nat.two_pow_pos _) hulp hcount
  rwa [Nat.zero_add] at hnear

/-- Up to infinity, the place is rounded below the sign bit. -/
theorem place_floatToBfloat16 (hle : roundShift (binary32.place bits.toNat) 16 < 2 ^ 15) :
    bfloat16.negative (floatToBfloat16 bits).toNat = binary32.negative bits.toNat ∧
      bfloat16.place (floatToBfloat16 bits).toNat = roundShift (binary32.place bits.toNat) 16 := by
  have hbits := toNat_floatToBfloat16 bits
  have hsign := Bool.toNat_le (binary32.negative bits.toNat)
  rw [Nat.mod_eq_of_lt (by omega)] at hbits
  rw [hbits]
  exact ⟨negative_pack _ hle, place_pack _ hle⟩

/-- A finite number is rounded. -/
theorem keepsClass_finite (hfinite : binary32.IsFinite bits.toNat) :
    bfloat16.negative (floatToBfloat16 bits).toNat = binary32.negative bits.toNat ∧
      bfloat16.RoundsTo (binary32.value bits.toNat) (floatToBfloat16 bits).toNat := by
  have hplace : binary32.place bits.toNat < 255 * 2 ^ 7 * 2 ^ 16 := isFinite_iff.mp hfinite
  have hle : roundShift (binary32.place bits.toNat) 16 ≤ 255 * 2 ^ 7 := roundShift_le hplace
  obtain ⟨hneg, hround⟩ := place_floatToBfloat16 (lt_of_le_of_lt hle (by decide))
  have hvalue : binary32.value bits.toNat = (if bfloat16.negative (floatToBfloat16 bits).toNat
      then -1 else 1) * binary32.magnitude (binary32.place bits.toNat) := by
    rw [hneg]
    exact value_eq
  refine ⟨hneg, ?_⟩
  rw [hvalue]
  refine roundsTo_of_nearestAt (by decide) (by decide) (magnitude_nonneg _) ?_ ?_
  · rw [hround]
    exact hle
  · rw [hround]
    exact nearestAt_bfloat16 _

/-- An infinity stays one. -/
theorem keepsClass_infinite (hinf : binary32.IsInfinite bits.toNat) :
    bfloat16.negative (floatToBfloat16 bits).toNat = binary32.negative bits.toNat ∧
      bfloat16.IsInfinite (floatToBfloat16 bits).toNat := by
  have hplace : binary32.place bits.toNat = 255 * 2 ^ 23 := isInfinite_iff.mp hinf
  have hexact : roundShift (binary32.place bits.toNat) 16 = 255 * 2 ^ 7 := by
    rw [hplace]
    decide
  have hlt : roundShift (binary32.place bits.toNat) 16 < 2 ^ 15 := by
    rw [hexact]
    decide
  obtain ⟨hneg, hround⟩ := place_floatToBfloat16 hlt
  exact ⟨hneg, isInfinite_iff.mpr (hround.trans hexact)⟩

/-! ### NaNs -/

/-- The carry leaves the NaNs at both ends. -/
theorem isNaN_floatToBfloat16_iff (hnan : binary32.IsNaN bits.toNat) :
    bfloat16.IsNaN (floatToBfloat16 bits).toNat ↔
      0x7F808000 < binary32.place bits.toNat ∧ binary32.place bits.toNat < 0x7FFF8000 := by
  have hlo : 255 * 2 ^ 23 < binary32.place bits.toNat := isNaN_iff.mp hnan
  have hhi : binary32.place bits.toNat < 2 ^ 31 := Nat.mod_lt _ (by decide)
  have hplace : bfloat16.place (floatToBfloat16 bits).toNat =
      roundShift (binary32.place bits.toNat) 16 % 2 ^ 15 := by
    rw [toNat_floatToBfloat16]
    change _ % 2 ^ 16 % 2 ^ 15 = _
    omega
  rw [isNaN_iff, hplace]
  change 255 * 2 ^ 7 < _ ↔ _
  generalize binary32.place bits.toNat = k at *
  rw [roundShift]
  split
  · rename_i hup
    rw [Nat.odd_iff] at hup
    omega
  · rename_i hdown
    rw [Nat.odd_iff] at hdown
    omega

/-- `float_to_bfloat16` rounds every finite float to nearest, ties to even, and keeps every
infinity. It keeps a NaN exactly if the pattern without the sign is above `0x7F808000` and below
`0x7FFF8000`. -/
theorem keepsClass_iff (bits : UInt32) : KeepsClass bits ↔ (binary32.IsNaN bits.toNat →
      0x7F808000 < bits.toNat % 2 ^ 31 ∧ bits.toNat % 2 ^ 31 < 0x7FFF8000) := by
  constructor
  · intro h hnan
    exact (isNaN_floatToBfloat16_iff hnan).mp (h.nan hnan)
  · intro h
    exact ⟨keepsClass_finite, keepsClass_infinite,
      fun hnan => (isNaN_floatToBfloat16_iff hnan).mpr (h hnan)⟩

/-- The NaN with the least payload becomes infinity, and the one with the greatest a zero of the
other sign. -/
theorem nan_becomes_infinity :
    binary32.IsNaN (0x7F800001 : UInt32).toNat ∧ floatToBfloat16 0x7F800001 = 0x7F80 ∧
      bfloat16.IsInfinite (floatToBfloat16 0x7F800001).toNat ∧
      binary32.IsNaN (0x7FFFFFFF : UInt32).toNat ∧ floatToBfloat16 0x7FFFFFFF = 0x8000 := by
  decide

end CcInfer
