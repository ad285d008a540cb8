import CcInfer.Lib.BinaryFormat
import CcInfer.Quant.Q80Reference
import Mathlib.Tactic.NormNum

/-!
# `CcInfer.Proofs.Quant.Half`: half precision is rounded correctly

`float_to_half` treats normal halves, subnormal halves, numbers too small and numbers too great
in branches of their own. Seen as a place in the list of magnitudes, each branch does the same:
it finds the place below the number and goes up by one in the upper half, where going up carries
from the fraction into the exponent without a case of its own. The library's
`BinaryFormat.nearestAt_of_remainder` says that this is rounding to nearest, ties to even.
-/

set_option autoImplicit false

namespace CcInfer

variable {w : UInt32} {mant exp : ℕ}

open BinaryFormat

/-! ### The fields of a float -/

theorem toNat_exponent (bits : UInt32) :
    ((bits >>> 23) &&& 0xFF).toNat = binary32.exponent bits.toNat := by
  have hshift : (bits >>> 23).toNat = bits.toNat / 2 ^ 23 := by
    rw [UInt32.toNat_shiftRight]
    exact Nat.shiftRight_eq_div_pow _ _
  rw [UInt32.toNat_and, hshift]
  exact Nat.and_two_pow_sub_one_eq_mod _ 8

theorem toNat_fraction (bits : UInt32) :
    (bits &&& 0x7FFFFF).toNat = binary32.fraction bits.toNat := by
  rw [UInt32.toNat_and]
  exact Nat.and_two_pow_sub_one_eq_mod _ 23

theorem toNat_sign (bits : UInt32) :
    ((bits >>> 16) &&& 0x8000).toNat = 2 ^ 15 * (binary32.negative bits.toNat).toNat := by
  rw [UInt32.toNat_and, UInt32.toNat_shiftRight]
  change bits.toNat >>> 16 &&& 2 ^ 15 = _
  rw [Nat.and_two_pow, Nat.testBit_shiftRight, Nat.mul_comm]
  rfl

/-- A half that is put together from the sign of a float and a place. -/
theorem toNat_pack (bits : UInt32) (hw : w.toNat < 2 ^ 15) :
    ((bits >>> 16) &&& 0x8000 ||| w).toUInt16.toNat =
      2 ^ 15 * (binary32.negative bits.toNat).toNat + w.toNat := by
  rw [UInt32.toNat_toUInt16, UInt32.toNat_or, toNat_sign, ← Nat.two_pow_add_eq_or_of_lt hw,
    Nat.mod_eq_of_lt]
  have hle := Bool.toNat_le (binary32.negative bits.toNat)
  omega

theorem toNat_ofInt_natCast {n : ℕ} (h : n < 2 ^ 32) : (UInt32.ofInt (n : ℤ)).toNat = n := by
  have hmod : ((n : ℤ) % 2 ^ 32).toNat = n := by omega
  rw [UInt32.ofInt, hmod, UInt32.toNat_ofNat', Nat.mod_eq_of_lt h]

/-- Exponent and fraction of a half next to each other. -/
theorem toNat_exponent_or {e : UInt32} (he : e.toNat < 2 ^ 5) (hw : w.toNat < 2 ^ 10) :
    (e <<< 10 ||| w).toNat = e.toNat * 2 ^ 10 + w.toNat := by
  have hshift : (e <<< 10).toNat = 2 ^ 10 * e.toNat := by
    rw [UInt32.toNat_shiftLeft]
    change e.toNat <<< 10 % 2 ^ 32 = _
    rw [Nat.shiftLeft_eq, Nat.mod_eq_of_lt (by omega), Nat.mul_comm]
  rw [UInt32.toNat_or, hshift, ← Nat.two_pow_add_eq_or_of_lt hw, Nat.mul_comm]

theorem toNat_and_one_ne_zero : w &&& 1 ≠ 0 ↔ Odd w.toNat := by
  rw [ne_eq, ← UInt32.toNat_inj, UInt32.toNat_and]
  change ¬w.toNat &&& 1 = 0 ↔ _
  rw [Nat.and_one_is_mod, Nat.odd_iff]
  omega

/-! ### Bits below a place -/

section Mask

variable {m mask shift : UInt32} {n : ℕ}

theorem toNat_shiftRight_of_lt (hshift : shift.toNat = n) (hn : n < 32) :
    (m >>> shift).toNat = m.toNat / 2 ^ n := by
  rw [UInt32.toNat_shiftRight, hshift, Nat.mod_eq_of_lt hn, Nat.shiftRight_eq_div_pow]

theorem toNat_one_shiftLeft (hshift : shift.toNat = n) (hn : n < 32) :
    ((1 : UInt32) <<< shift).toNat = 2 ^ n := by
  have hpow : 2 ^ n < 2 ^ 32 := Nat.pow_lt_pow_right (by decide) hn
  rw [UInt32.toNat_shiftLeft, hshift, Nat.mod_eq_of_lt hn]
  change 1 <<< n % 2 ^ 32 = 2 ^ n
  rw [Nat.one_shiftLeft, Nat.mod_eq_of_lt hpow]

/-- A mask of one bit selects that bit. -/
theorem and_mask_ne_zero_iff (hmask : mask.toNat = 2 ^ n) :
    m &&& mask ≠ 0 ↔ m.toNat / 2 ^ n % 2 = 1 := by
  have hpos := Nat.two_pow_pos n
  rw [ne_eq, ← UInt32.toNat_inj, UInt32.toNat_and, hmask, Nat.and_two_pow,
    Nat.testBit_eq_decide_div_mod_eq]
  by_cases hodd : m.toNat / 2 ^ n % 2 = 1 <;> simp [hodd]

/-- One less selects the bits below. -/
theorem and_mask_sub_one_ne_zero_iff (hmask : mask.toNat = 2 ^ n) :
    m &&& (mask - 1) ≠ 0 ↔ m.toNat % 2 ^ n ≠ 0 := by
  have hle : (1 : UInt32) ≤ mask := UInt32.le_iff_toNat_le.mpr (hmask ▸ Nat.one_le_two_pow)
  have hsub : (mask - 1).toNat = 2 ^ n - 1 := by
    rw [UInt32.toNat_sub_of_le _ _ hle, hmask]
    rfl
  rw [ne_eq, ← UInt32.toNat_inj, UInt32.toNat_and, hsub, Nat.and_two_pow_sub_one_eq_mod]
  rfl

end Mask

/-! ### The subnormal branch -/

/-- The branch of the subnormal halves. -/
theorem toNat_subnormalMant {mant : UInt32} {t : ℕ} (hmant : mant.toNat < 2 ^ 23) (ht : t ≤ 10) :
    (subnormalMant mant (-(t : ℤ))).toNat = roundShift (2 ^ 23 + mant.toNat) (14 + t) := by
  obtain ⟨n, hn⟩ : ∃ n, 14 + t = n + 1 := ⟨13 + t, by omega⟩
  have hsig : (mant ||| 0x800000).toNat = 2 ^ 23 + mant.toNat := by
    rw [UInt32.toNat_or, Nat.lor_comm]
    change 2 ^ 23 * 1 ||| mant.toNat = _
    rw [← Nat.two_pow_add_eq_or_of_lt hmant, Nat.mul_one]
  have hshift : (UInt32.ofInt (14 - -(t : ℤ))).toNat = n + 1 := by
    have hcast : (14 : ℤ) - -(t : ℤ) = ((n + 1 : ℕ) : ℤ) := by omega
    rw [hcast, toNat_ofInt_natCast (by omega)]
  simp only [subnormalMant]
  generalize mant ||| 0x800000 = m at hsig ⊢
  generalize UInt32.ofInt (14 - -(t : ℤ)) = shift at hshift ⊢
  have hone : (shift - 1).toNat = n := by
    have hle : (1 : UInt32) ≤ shift := UInt32.le_iff_toNat_le.mpr (hshift ▸ Nat.le_add_left 1 n)
    rw [UInt32.toNat_sub_of_le _ _ hle, hshift]
    rfl
  have hmask := toNat_one_shiftLeft hone (by omega)
  have hquot : (m >>> shift).toNat = m.toNat / 2 ^ (n + 1) :=
    toNat_shiftRight_of_lt hshift (by omega)
  have hsucc : (m >>> shift + 1).toNat = m.toNat / 2 ^ (n + 1) + 1 := by
    have hle : m.toNat / 2 ^ (n + 1) ≤ m.toNat := Nat.div_le_self _ _
    rw [UInt32.toNat_add, hquot]
    exact Nat.mod_eq_of_lt (Nat.lt_of_le_of_lt (Nat.add_le_add_right hle 1) (by omega))
  rw [hn, ← hsig, roundShift_succ]
  simp only [and_mask_ne_zero_iff hmask, and_mask_sub_one_ne_zero_iff hmask,
    toNat_and_one_ne_zero, hquot]
  split
  · split
    · exact hsucc
    · exact hquot
  · exact hquot

/-! ### The place of the result -/

/-- The place that `float_to_half` computes from exponent and fraction of a finite float. -/
def halfPlace (exp mant : ℕ) : ℕ :=
  if 143 ≤ exp then 0x7C00
  else if 113 ≤ exp then (exp - 112) * 2 ^ 10 + roundShift mant 13
  else if 102 ≤ exp then roundShift (2 ^ 23 + mant) (126 - exp)
  else 0

/-- No place is beyond the infinity. -/
theorem halfPlace_le (exp : ℕ) (hmant : mant < 2 ^ 23) : halfPlace exp mant ≤ 0x7C00 := by
  unfold halfPlace
  split
  · exact le_refl _
  · split
    · have hle : roundShift mant 13 ≤ 2 ^ 10 := roundShift_le (by omega)
      omega
    · split
      · have hpow : 2 ^ 14 ≤ 2 ^ (126 - exp) := Nat.pow_le_pow_right (by decide) (by omega)
        have hle : roundShift (2 ^ 23 + mant) (126 - exp) ≤ 2 ^ 10 := roundShift_le (by omega)
        omega
      · exact Nat.zero_le _

/-- The normal branch, by exponent and fraction of the half: the comparison with `0x1000` is that
of the remainder with one half, and a carry out of the fraction goes into the exponent. -/
theorem toNat_normalHalf {mant : UInt32} {h : ℕ} (hmant : mant.toNat < 2 ^ 23) (hh : h ≤ 30) :
    (normalHalf mant h).toNat = h * 2 ^ 10 + roundShift mant.toNat 13 := by
  have hquot : (mant >>> 13).toNat = mant.toNat / 2 ^ 13 := toNat_shiftRight_of_lt rfl (by decide)
  have hrem : (mant &&& 0x1FFF).toNat = mant.toNat % 2 ^ 13 := by
    rw [UInt32.toNat_and]
    exact Nat.and_two_pow_sub_one_eq_mod _ 13
  have hlt : mant.toNat / 2 ^ 13 < 2 ^ 10 := by omega
  have hexp : (UInt32.ofInt h).toNat = h := toNat_ofInt_natCast (by omega)
  have hnext : (UInt32.ofInt ((h : ℤ) + 1)).toNat = h + 1 := by
    have hcast : (h : ℤ) + 1 = ((h + 1 : ℕ) : ℤ) := by push_cast; rfl
    rw [hcast, toNat_ofInt_natCast (by omega)]
  have hsucc : (mant >>> 13 + 1).toNat = mant.toNat / 2 ^ 13 + 1 := by
    rw [UInt32.toNat_add, hquot]
    exact Nat.mod_eq_of_lt (by change _ + 1 < _; omega)
  have hcond : (mant &&& 0x1FFF > 0x1000 ∨ (mant &&& 0x1FFF = 0x1000 ∧ mant >>> 13 &&& 1 ≠ 0)) ↔
      2 ^ 13 < 2 * (mant.toNat % 2 ^ 13) ∨
        2 ^ 13 = 2 * (mant.toNat % 2 ^ 13) ∧ Odd (mant.toNat / 2 ^ 13) := by
    rw [toNat_and_one_ne_zero, hquot, gt_iff_lt, UInt32.lt_iff_toNat_lt, ← UInt32.toNat_inj, hrem]
    change 4096 < _ ∨ (_ = 4096 ∧ _) ↔ _
    exact or_congr (by omega) (and_congr (by omega) Iff.rfl)
  simp only [normalHalf, roundShift]
  by_cases hup : 2 ^ 13 < 2 * (mant.toNat % 2 ^ 13) ∨
      2 ^ 13 = 2 * (mant.toNat % 2 ^ 13) ∧ Odd (mant.toNat / 2 ^ 13)
  · rw [if_pos (hcond.mpr hup), if_pos hup]
    by_cases hcarry : mant >>> 13 + 1 ≥ 0x400
    · have hfull : 2 ^ 10 ≤ mant.toNat / 2 ^ 13 + 1 := by
        rw [← hsucc]
        exact UInt32.le_iff_toNat_le.mp hcarry
      rw [if_pos hcarry]
      by_cases hinf : UInt32.ofInt ((h : ℤ) + 1) ≥ 31
      · have htop : 31 ≤ h + 1 := by
          rw [← hnext]
          exact UInt32.le_iff_toNat_le.mp hinf
        rw [if_pos hinf]
        change 31 * 2 ^ 10 = _
        omega
      · have hlow : h + 1 < 31 := by
          rw [← hnext]
          exact UInt32.lt_iff_toNat_lt.mp (UInt32.not_le.mp hinf)
        rw [if_neg hinf, toNat_exponent_or (by omega) (by decide), hnext]
        change _ + 0 = _
        omega
    · have hroom : mant.toNat / 2 ^ 13 + 1 < 2 ^ 10 := by
        rw [← hsucc]
        exact UInt32.lt_iff_toNat_lt.mp (UInt32.not_le.mp hcarry)
      rw [if_neg hcarry, toNat_exponent_or (by omega) (by omega), hexp, hsucc]
  · rw [if_neg (hcond.not.mpr hup), if_neg hup, toNat_exponent_or (by omega) (by omega), hexp,
      hquot]

/-- The result of `float_to_half` is the sign and the place. -/
theorem toNat_floatToHalf {bits : UInt32} (hfinite : binary32.IsFinite bits.toNat) :
    (floatToHalf bits).toNat = 2 ^ 15 * (binary32.negative bits.toNat).toNat +
      halfPlace (binary32.exponent bits.toNat) (binary32.fraction bits.toNat) := by
  have hmant : binary32.fraction bits.toNat < 2 ^ 23 := fraction_lt
  have hexp : binary32.exponent bits.toNat < 255 := lt_of_le_of_ne exponent_le hfinite
  rw [← toNat_exponent] at hexp
  rw [← toNat_exponent, ← toNat_fraction] at *
  simp only [floatToHalf]
  generalize hE : (bits >>> 23) &&& 0xFF = exp at *
  generalize hM : bits &&& 0x7FFFFF = mant at *
  have hne : exp ≠ 0xFF := fun heq => by
    rw [heq] at hexp
    exact absurd hexp (by decide)
  rw [if_neg hne]
  unfold halfPlace
  by_cases hover : 143 ≤ exp.toNat
  · rw [if_pos hover, if_pos (by omega), toNat_pack _ (by decide)]
    rfl
  · rw [if_neg hover, if_neg (by omega)]
    by_cases hnormal : 113 ≤ exp.toNat
    · have hcast : (exp.toNat : ℤ) - 127 + 15 = ((exp.toNat - 112 : ℕ) : ℤ) := by omega
      have hword := toNat_normalHalf hmant (by omega : exp.toNat - 112 ≤ 30)
      have hle : roundShift mant.toNat 13 ≤ 2 ^ 10 := roundShift_le (by omega)
      rw [if_pos hnormal, if_neg (by omega), hcast, toNat_pack _ (by omega), hword]
    · rw [if_neg hnormal, if_pos (by omega)]
      by_cases hsub : 102 ≤ exp.toNat
      · have hcast : (exp.toNat : ℤ) - 127 + 15 = -((112 - exp.toNat : ℕ) : ℤ) := by omega
        have hword := toNat_subnormalMant hmant (by omega : 112 - exp.toNat ≤ 10)
        have hpow : 2 ^ 14 ≤ 2 ^ (126 - exp.toNat) := Nat.pow_le_pow_right (by decide) (by omega)
        have hle : roundShift (2 ^ 23 + mant.toNat) (126 - exp.toNat) ≤ 2 ^ 10 :=
          roundShift_le (by omega)
        rw [if_pos hsub, if_neg (by omega), hcast]
        have hshift : 14 + (112 - exp.toNat) = 126 - exp.toNat := by omega
        rw [hshift] at hword
        by_cases hfull : subnormalMant mant (-((112 - exp.toNat : ℕ) : ℤ)) ≥ 0x400
        · -- rounded up to the least normal half
          have hge : 2 ^ 10 ≤ (subnormalMant mant (-((112 - exp.toNat : ℕ) : ℤ))).toNat :=
            UInt32.le_iff_toNat_le.mp hfull
          rw [if_pos hfull, toNat_pack _ (by decide)]
          change _ + 2 ^ 10 = _
          omega
        · rw [if_neg hfull, toNat_pack _ (by omega), hword]
      · have hpack := toNat_pack bits (by decide : UInt32.toNat 0 < 2 ^ 15)
        rw [UInt32.or_zero] at hpack
        rw [if_neg hsub, if_pos (by omega), hpack]
        rfl

/-! ### The place is nearest -/

theorem unit_binary16 : binary16.unit = 2 ^ 125 * binary32.unit := by
  norm_num [unit, bias, binary16, binary32]

theorem overflow_binary16 : binary16.overflow = 65520 := by
  norm_num [overflow, bias, binary16]

/-- The branch of the normal halves rounds to nearest. -/
theorem nearestAt_normal {h : ℕ} (hh : 1 ≤ h) (hmant : mant < 2 ^ 23) :
    NearestAt binary16.magnitude (binary32.magnitude ((h + 112) * 2 ^ 23 + mant))
      (h * 2 ^ 10 + roundShift mant 13) := by
  obtain ⟨q, rfl⟩ : ∃ q, h = q + 1 := ⟨h - 1, by omega⟩
  have hquot : mant / 2 ^ 13 < 2 ^ 10 := by omega
  have hulp : ulp 10 ((q + 1) * 2 ^ 10 + mant / 2 ^ 13) * 2 ^ 125 = 2 ^ 13 * 2 ^ (q + 112) := by
    rw [ulp_mul_add hquot, ← pow_add, ← pow_add]
    congr 1
    omega
  have hcount : mag 23 ((q + 1 + 112) * 2 ^ 23 + mant) =
      mag 10 ((q + 1) * 2 ^ 10 + mant / 2 ^ 13) * 2 ^ 125 + mant % 2 ^ 13 * 2 ^ (q + 112) := by
    have hnarrow := mag_narrow (q := q) (c := 112) hquot (Nat.mod_lt mant (Nat.two_pow_pos 13))
    rwa [Nat.div_add_mod'] at hnarrow
  have heven : Even ((q + 1) * 2 ^ 10) := (by decide : Even (2 ^ 10)).mul_left _
  exact nearestAt_roundShift binary32.unit_pos unit_binary16 heven (Nat.two_pow_pos _) hulp hcount

/-- Below the normal halves, the place is the number of least subnormals. -/
theorem nearestAt_subnormal (hlo : 102 ≤ exp) (hhi : exp ≤ 112) (hmant : mant < 2 ^ 23) :
    NearestAt binary16.magnitude (binary32.magnitude (exp * 2 ^ 23 + mant))
      (roundShift (2 ^ 23 + mant) (126 - exp)) := by
  obtain ⟨q, rfl⟩ : ∃ q, exp = q + 1 := ⟨exp - 1, by omega⟩
  obtain ⟨s, hs⟩ : ∃ s, 126 - (q + 1) = s := ⟨_, rfl⟩
  have hquot : (2 ^ 23 + mant) / 2 ^ s < 2 ^ 10 := by
    have hpow : 2 ^ 14 ≤ 2 ^ s := Nat.pow_le_pow_right (by decide) (by omega)
    exact (Nat.div_lt_iff_lt_mul (Nat.two_pow_pos s)).mpr (by omega)
  have hscale : 2 ^ 125 = 2 ^ s * 2 ^ q := by
    rw [← pow_add]
    congr 1
    omega
  have hplace : 0 + (2 ^ 23 + mant) / 2 ^ s = (2 ^ 23 + mant) / 2 ^ s := Nat.zero_add _
  have hulp : ulp 10 (0 + (2 ^ 23 + mant) / 2 ^ s) * 2 ^ 125 = 2 ^ s * 2 ^ q := by
    rw [hplace, ulp_of_lt hquot, Nat.one_mul, hscale]
  have hcount : mag 23 ((q + 1) * 2 ^ 23 + mant) =
      mag 10 (0 + (2 ^ 23 + mant) / 2 ^ s) * 2 ^ 125 + (2 ^ 23 + mant) % 2 ^ s * 2 ^ q := by
    have hsplit : (2 ^ 23 + mant) / 2 ^ s * 2 ^ s + (2 ^ 23 + mant) % 2 ^ s = 2 ^ 23 + mant :=
      Nat.div_add_mod' _ _
    rw [mag_mul_add hmant, hplace, mag_of_lt hquot, hscale, ← Nat.mul_assoc, ← Nat.add_mul,
      hsplit]
  have hnear := nearestAt_roundShift binary32.unit_pos unit_binary16 Even.zero (Nat.two_pow_pos q)
    hulp hcount
  rw [hs, ← Nat.zero_add (roundShift _ _)]
  exact hnear

/-- Less than half of the least subnormal rounds to zero. -/
theorem nearestAt_zero (hhi : exp < 102) (hmant : mant < 2 ^ 23) :
    NearestAt binary16.magnitude (binary32.magnitude (exp * 2 ^ 23 + mant)) 0 := by
  have hlt : mag 23 (exp * 2 ^ 23 + mant) < 2 ^ 124 := by
    have hbound : mag 23 ((101 + 1) * 2 ^ 23 + 0) = 2 ^ 124 := by
      rw [mag_mul_add (by decide)]
      norm_num
    rw [← hbound]
    exact strictMono_mag 23 (by omega)
  have hzero : mag 10 0 = 0 := mag_of_lt (by decide)
  have hone : ulp 10 0 = 1 := ulp_of_lt (by decide)
  refine nearestAt_floor strictMono_magnitude (magnitude_zero.le.trans (magnitude_nonneg _))
    (.inl ?_)
  have hnext : binary16.magnitude (0 + 1) = (2 ^ 125 : ℕ) * binary32.unit := by
    rw [magnitude, unit_binary16]
    change (mag 10 (0 + 1) : ℚ) * _ = _
    rw [mag_succ, hzero, hone]
    push_cast
    ring
  have hcast : (mag 23 (exp * 2 ^ 23 + mant) : ℚ) < (2 ^ 124 : ℕ) := Nat.cast_lt.mpr hlt
  rw [magnitude_zero, hnext, zero_add, magnitude, ← mul_assoc]
  refine mul_lt_mul_of_pos_right ?_ binary32.unit_pos
  change 2 * (mag 23 _ : ℚ) < _
  push_cast at hcast ⊢
  linarith

/-- So does every branch below the overflow. -/
theorem nearestAt_halfPlace (hexp : exp < 143) (hmant : mant < 2 ^ 23) :
    NearestAt binary16.magnitude (binary32.magnitude (exp * 2 ^ 23 + mant))
      (halfPlace exp mant) := by
  rw [halfPlace, if_neg (by omega)]
  split
  · rename_i hnormal
    have hnear := nearestAt_normal (by omega : 1 ≤ exp - 112) hmant
    rwa [Nat.sub_add_cancel (by omega)] at hnear
  · split
    · exact nearestAt_subnormal (by omega) (by omega) hmant
    · exact nearestAt_zero (by omega) hmant

/-- Exponents from 143 on are beyond the halves. -/
theorem overflow_le_magnitude (hexp : 143 ≤ exp) :
    binary16.overflow ≤ binary32.magnitude (exp * 2 ^ 23 + mant) := by
  have hbound : mag 23 ((142 + 1) * 2 ^ 23 + 0) = 2 ^ 165 := by
    rw [mag_mul_add (by decide)]
    norm_num
  have hle : 2 ^ 165 ≤ mag 23 (exp * 2 ^ 23 + mant) := by
    rw [← hbound]
    exact (strictMono_mag 23).monotone (by omega)
  have hcast : ((2 ^ 165 : ℕ) : ℚ) ≤ mag 23 (exp * 2 ^ 23 + mant) := Nat.cast_le.mpr hle
  calc binary16.overflow ≤ ((2 ^ 165 : ℕ) : ℚ) * binary32.unit := by
        norm_num [overflow_binary16, unit, bias, binary32]
    _ ≤ binary32.magnitude (exp * 2 ^ 23 + mant) :=
        mul_le_mul_of_nonneg_right hcast binary32.unit_pos.le

/-! ### From half to float -/

theorem toNat_halfExponent (h : UInt16) :
    ((h.toUInt32 >>> 10) &&& 0x1F).toNat = binary16.exponent h.toNat := by
  rw [UInt32.toNat_and, toNat_shiftRight_of_lt rfl (by decide), UInt16.toNat_toUInt32]
  exact Nat.and_two_pow_sub_one_eq_mod _ 5

theorem toNat_halfFraction (h : UInt16) :
    (h.toUInt32 &&& 0x3FF).toNat = binary16.fraction h.toNat := by
  rw [UInt32.toNat_and, UInt16.toNat_toUInt32]
  exact Nat.and_two_pow_sub_one_eq_mod _ 10

theorem toNat_shiftLeft_of_lt {shift : UInt32} {n : ℕ} (hshift : shift.toNat = n) (hn : n < 32)
    (hw : w.toNat * 2 ^ n < 2 ^ 32) : (w <<< shift).toNat = w.toNat * 2 ^ n := by
  rw [UInt32.toNat_shiftLeft, hshift, Nat.mod_eq_of_lt hn, Nat.shiftLeft_eq, Nat.mod_eq_of_lt hw]

/-- The sign bit of a half. -/
theorem toNat_halfSign (h : UInt16) :
    ((h.toUInt32 &&& 0x8000) <<< 16).toNat = 2 ^ 31 * (binary16.negative h.toNat).toNat := by
  have hsign : (h.toUInt32 &&& 0x8000).toNat = 2 ^ 15 * (binary16.negative h.toNat).toNat := by
    rw [UInt32.toNat_and, UInt16.toNat_toUInt32]
    change h.toNat &&& 2 ^ 15 = _
    rw [Nat.and_two_pow, Nat.mul_comm]
    rfl
  have hle := Bool.toNat_le (binary16.negative h.toNat)
  rw [toNat_shiftLeft_of_lt rfl (by decide) (by rw [hsign]; change _ * 2 ^ 16 < _; omega), hsign]
  change _ * 2 ^ 16 = _
  omega

/-- A float that is put together from the sign of a half, an exponent and a fraction. -/
theorem toNat_packFloat (h : UInt16) {e : UInt32} (he : e.toNat < 2 ^ 8) (hw : w.toNat < 2 ^ 23) :
    ((h.toUInt32 &&& 0x8000) <<< 16 ||| e <<< 23 ||| w).toNat =
      2 ^ 31 * (binary16.negative h.toNat).toNat + (e.toNat * 2 ^ 23 + w.toNat) := by
  have hexp : (e <<< 23).toNat = e.toNat * 2 ^ 23 :=
    toNat_shiftLeft_of_lt rfl (by decide) (by omega)
  have hplace : (e <<< 23 ||| w).toNat = e.toNat * 2 ^ 23 + w.toNat := by
    rw [UInt32.toNat_or, hexp, Nat.mul_comm, ← Nat.two_pow_add_eq_or_of_lt hw]
  rw [UInt32.or_assoc, UInt32.toNat_or, hplace, toNat_halfSign,
    ← Nat.two_pow_add_eq_or_of_lt (by omega)]

/-- The loop doubles the fraction until it has eleven bits. -/
theorem normalizeHalf_spec (fuel : ℕ) : ∀ (m : UInt32) (shift : ℕ), m.toNat < 2 ^ 11 →
    2 ^ 10 ≤ m.toNat * 2 ^ fuel → ∃ d ≤ fuel, (normalizeHalf m shift fuel).2 = shift + d ∧
      (normalizeHalf m shift fuel).1.toNat = m.toNat * 2 ^ d ∧
      2 ^ 10 ≤ m.toNat * 2 ^ d ∧ m.toNat * 2 ^ d < 2 ^ 11 := by
  induction fuel with
  | zero =>
    intro m shift hlt hge
    exact ⟨0, le_refl 0, rfl, (Nat.mul_one _).symm, hge, by omega⟩
  | succ _ ih =>
    intro m shift hlt hge
    have hbit : m &&& 0x400 ≠ 0 ↔ m.toNat / 2 ^ 10 % 2 = 1 := and_mask_ne_zero_iff rfl
    rw [normalizeHalf]
    by_cases hzero : m &&& 0x400 = 0
    · have hsmall : m.toNat < 2 ^ 10 := by
        have := hbit.not.mp (not_not.mpr hzero)
        omega
      have hdouble : (m <<< 1).toNat = m.toNat * 2 := by
        rw [toNat_shiftLeft_of_lt rfl (by decide) (by change _ * 2 < _; omega)]
        rfl
      obtain ⟨d, _, _, hm, hlo, hhi⟩ := ih (m <<< 1) (shift + 1) (by omega) (by
        rw [hdouble, Nat.mul_assoc, ← Nat.pow_succ']
        exact hge)
      have hpow : m.toNat * 2 * 2 ^ d = m.toNat * 2 ^ (d + 1) := by
        rw [Nat.mul_assoc, ← Nat.pow_succ']
      rw [hdouble, hpow] at hm hlo hhi
      rw [if_pos hzero]
      exact ⟨d + 1, by omega, by omega, hm, hlo, hhi⟩
    · have hbig := hbit.mp hzero
      rw [if_neg hzero]
      exact ⟨0, by omega, rfl, (Nat.mul_one _).symm, by omega, by omega⟩

/-- `half_to_float` keeps the sign and the magnitude of a finite half. -/
theorem toNat_halfToFloat {h : UInt16} (hfinite : binary16.IsFinite h.toNat) :
    ∃ k, (halfToFloat h).toNat = 2 ^ 31 * (binary16.negative h.toNat).toNat + k ∧
      k < 255 * 2 ^ 23 ∧ mag 23 k = mag 10 (binary16.place h.toNat) * 2 ^ 125 := by
  have hmant : binary16.fraction h.toNat < 2 ^ 10 := fraction_lt
  have hexp : binary16.exponent h.toNat < 31 := lt_of_le_of_ne exponent_le hfinite
  have hplace : binary16.place h.toNat =
      binary16.exponent h.toNat * 2 ^ 10 + binary16.fraction h.toNat := place_eq
  rw [hplace]
  rw [← toNat_halfExponent, ← toNat_halfFraction] at *
  simp only [halfToFloat]
  generalize (h.toUInt32 >>> 10) &&& 0x1F = exp at *
  generalize h.toUInt32 &&& 0x3FF = mant at *
  by_cases hzero : exp = 0
  · have hexp0 : exp.toNat = 0 := by rw [hzero]; rfl
    rw [if_pos hzero, hexp0, Nat.zero_mul, Nat.zero_add, mag_of_lt hmant]
    by_cases hmant0 : mant = 0
    · rw [if_pos hmant0, toNat_halfSign, hmant0]
      exact ⟨0, rfl, by decide, rfl⟩
    · -- subnormal: the loop finds the leading bit
      rw [if_neg hmant0]
      have hpos : 0 < mant.toNat :=
        Nat.pos_of_ne_zero fun h0 => hmant0 (UInt32.toNat_inj.mp h0)
      obtain ⟨d, _, hshift, hm, _, _⟩ :=
        normalizeHalf_spec 10 mant 0 (by omega) (Nat.le_mul_of_pos_left _ hpos)
      rcases hnorm : normalizeHalf mant 0 10 with ⟨m, shift⟩
      rw [hnorm] at hshift hm
      obtain rfl : shift = d := by simpa using hshift
      replace hm : m.toNat = mant.toNat * 2 ^ shift := hm
      have hfloatExp : (UInt32.ofInt (127 - 14 - (shift : ℤ))).toNat = 112 - shift + 1 := by
        have hcast : (127 : ℤ) - 14 - (shift : ℤ) = ((112 - shift + 1 : ℕ) : ℤ) := by omega
        rw [hcast, toNat_ofInt_natCast (by omega)]
      have hlow : (m &&& 0x3FF).toNat = m.toNat - 2 ^ 10 := by
        rw [UInt32.toNat_and]
        change m.toNat &&& 2 ^ 10 - 1 = _
        rw [Nat.and_two_pow_sub_one_eq_mod]
        omega
      have hfrac : ((m &&& 0x3FF) <<< 13).toNat = (m.toNat - 2 ^ 10) * 2 ^ 13 := by
        rw [toNat_shiftLeft_of_lt rfl (by decide) (by rw [hlow]; change _ * 2 ^ 13 < _; omega),
          hlow]
        rfl
      refine ⟨(112 - shift + 1) * 2 ^ 23 + (m.toNat - 2 ^ 10) * 2 ^ 13, ?_, by omega, ?_⟩
      · change ((h.toUInt32 &&& 0x8000) <<< 16 ||| UInt32.ofInt (127 - 14 - (shift : ℤ)) <<< 23 |||
          (m &&& 0x3FF) <<< 13).toNat = _
        rw [toNat_packFloat h (by omega) (by omega), hfloatExp, hfrac]
      · have hsig : 2 ^ 23 + (m.toNat - 2 ^ 10) * 2 ^ 13 = mant.toNat * 2 ^ shift * 2 ^ 13 := by
          omega
        have hscale : 2 ^ shift * 2 ^ 13 * 2 ^ (112 - shift) = 2 ^ 125 := by
          have hsum : 125 = shift + 13 + (112 - shift) := by omega
          rw [hsum, pow_add, pow_add]
        have hroom : (m.toNat - 2 ^ 10) * 2 ^ 13 < 2 ^ 23 := by omega
        calc mag 23 ((112 - shift + 1) * 2 ^ 23 + (m.toNat - 2 ^ 10) * 2 ^ 13)
            = (2 ^ 23 + (m.toNat - 2 ^ 10) * 2 ^ 13) * 2 ^ (112 - shift) := mag_mul_add hroom
          _ = mant.toNat * (2 ^ shift * 2 ^ 13 * 2 ^ (112 - shift)) := by
              rw [hsig, Nat.mul_assoc, Nat.mul_assoc, Nat.mul_assoc]
          _ = mant.toNat * 2 ^ 125 := by rw [hscale]
  · have hne : exp ≠ 0x1F := fun heq => by
      rw [heq] at hexp
      exact absurd hexp (by decide)
    have hpos : exp.toNat ≠ 0 := fun h0 => hzero (UInt32.toNat_inj.mp h0)
    obtain ⟨q, hq⟩ : ∃ q, exp.toNat = q + 1 := ⟨exp.toNat - 1, by omega⟩
    have hfloatExp : (exp + (127 - 15)).toNat = q + 1 + 112 := by
      rw [UInt32.toNat_add]
      change (exp.toNat + 112) % 2 ^ 32 = _
      omega
    have hfrac : (mant <<< 13).toNat = mant.toNat * 2 ^ 13 :=
      toNat_shiftLeft_of_lt rfl (by decide) (by omega)
    rw [if_neg hzero, if_neg hne, hq]
    refine ⟨(q + 1 + 112) * 2 ^ 23 + mant.toNat * 2 ^ 13, ?_, by omega, ?_⟩
    · rw [toNat_packFloat h (by omega) (by omega), hfloatExp, hfrac]
    · have hnarrow : mag 23 ((q + 1 + 112) * 2 ^ 23 + (mant.toNat * 2 ^ 13 + 0)) =
          mag 10 ((q + 1) * 2 ^ 10 + mant.toNat) * 2 ^ 125 + 0 * 2 ^ (q + 112) :=
        mag_narrow hmant (Nat.two_pow_pos 13)
      rw [← Nat.add_zero (mant.toNat * 2 ^ 13), hnarrow, Nat.zero_mul, Nat.add_zero]

/-- `half_to_float` keeps the value of every finite half. -/
theorem halfToFloat_value {h : UInt16} (hfinite : binary16.IsFinite h.toNat) :
    binary32.IsFinite (halfToFloat h).toNat ∧
      binary32.value (halfToFloat h).toNat = binary16.value h.toNat := by
  obtain ⟨k, hbits, hlt, hmag⟩ := toNat_halfToFloat hfinite
  have hroom : k < 2 ^ (binary32.expBits + binary32.fracBits) := lt_trans hlt (by decide)
  have hplace : binary32.place (halfToFloat h).toNat = k := by
    rw [hbits]
    exact place_pack _ hroom
  have hneg : binary32.negative (halfToFloat h).toNat = binary16.negative h.toNat := by
    rw [hbits]
    exact negative_pack _ hroom
  refine ⟨isFinite_iff.mpr (hplace ▸ hlt), ?_⟩
  have hcount : (mag 23 k : ℚ) = mag 10 (binary16.place h.toNat) * 2 ^ 125 := by
    rw [hmag]
    push_cast
    rfl
  rw [value_eq, value_eq, hneg, hplace, unit_binary16]
  change _ * ((mag 23 k : ℚ) * _) = _
  rw [hcount, mul_assoc]
  rfl

/-! ### Correct rounding -/

/-- For every finite float, `q8_0_float_to_f16` is the half nearest to its value, ties to even,
with the sign of the float also for zeros; it is an infinity exactly from 65520 on. Going back
with `q8_0_f16_to_float` keeps the value of the half. -/
theorem floatToHalf_rounds (bits : UInt32) (hfinite : binary32.IsFinite bits.toNat) :
    binary16.negative (floatToHalf bits).toNat = binary32.negative bits.toNat ∧
    (|binary32.value bits.toNat| < 65520 →
      binary16.NearestEven (binary32.value bits.toNat) (floatToHalf bits).toNat) ∧
    (65520 ≤ |binary32.value bits.toNat| ↔ binary16.IsInfinite (floatToHalf bits).toNat) ∧
    (binary16.IsFinite (floatToHalf bits).toNat →
      binary32.IsFinite (halfToFloat (floatToHalf bits)).toNat ∧
      binary32.value (halfToFloat (floatToHalf bits)).toNat =
        binary16.value (floatToHalf bits).toNat) := by
  have hmant : binary32.fraction bits.toNat < 2 ^ 23 := fraction_lt
  have hle := halfPlace_le (binary32.exponent bits.toNat) hmant
  have hroom : halfPlace (binary32.exponent bits.toNat) (binary32.fraction bits.toNat) <
      2 ^ (binary16.expBits + binary16.fracBits) := lt_of_le_of_lt hle (by decide)
  have hbits := toNat_floatToHalf hfinite
  have hplace : binary16.place (floatToHalf bits).toNat =
      halfPlace (binary32.exponent bits.toNat) (binary32.fraction bits.toNat) := by
    rw [hbits]
    exact place_pack _ hroom
  have hneg : binary16.negative (floatToHalf bits).toNat = binary32.negative bits.toNat := by
    rw [hbits]
    exact negative_pack _ hroom
  have hvalue : binary32.value bits.toNat = (if binary16.negative (floatToHalf bits).toNat then -1
      else 1) * binary32.magnitude (binary32.place bits.toNat) := by
    rw [hneg]
    exact value_eq
  have hsource : binary32.place bits.toNat =
      binary32.exponent bits.toNat * 2 ^ 23 + binary32.fraction bits.toNat := place_eq
  have hrounds : binary16.RoundsTo (binary32.value bits.toNat) (floatToHalf bits).toNat := by
    rcases Nat.lt_or_ge (binary32.exponent bits.toNat) 143 with hsmall | hbig
    · rw [hvalue]
      refine roundsTo_of_nearestAt (by decide) (by decide) (magnitude_nonneg _) ?_ ?_
      · rw [hplace]
        exact hle
      · rw [hplace, hsource]
        exact nearestAt_halfPlace hsmall hmant
    · refine roundsTo_of_overflow ?_ ?_
      · rw [hvalue, hsource]
        have habs := abs_sign_mul_sub (binary16.negative (floatToHalf bits).toNat)
          (binary32.magnitude (binary32.exponent bits.toNat * 2 ^ 23 +
            binary32.fraction bits.toNat)) 0
        rw [mul_zero, sub_zero, sub_zero, abs_of_nonneg (magnitude_nonneg _)] at habs
        rw [habs]
        exact overflow_le_magnitude hbig
      · rw [hplace, halfPlace, if_pos hbig]
        rfl
  rw [RoundsTo, overflow_binary16] at hrounds
  exact ⟨hneg, hrounds.1, hrounds.2, halfToFloat_value⟩

/-- A tie between `0x3800` and `0x3801`. -/
theorem floatToHalf_rounds_tie :
    binary32.IsFinite (0x3F001000 : UInt32).toNat ∧ floatToHalf 0x3F001000 = 0x3800 ∧
      binary16.NearestEven (binary32.value (0x3F001000 : UInt32).toNat)
        (floatToHalf 0x3F001000).toNat := by
  have hfinite : binary32.IsFinite (0x3F001000 : UInt32).toNat := by decide
  refine ⟨hfinite, by decide, ?_⟩
  exact (floatToHalf_rounds 0x3F001000 hfinite).2.1 (by with_unfolding_all decide)

end CcInfer
