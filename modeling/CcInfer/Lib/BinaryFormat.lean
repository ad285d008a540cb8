import Mathlib.Algebra.Order.Field.Power
import Mathlib.Algebra.Order.Field.Rat
import Mathlib.Data.Nat.Bitwise
import Mathlib.Tactic.FieldSimp
import Mathlib.Tactic.Linarith
import Mathlib.Tactic.LinearCombination
import Mathlib.Tactic.Positivity
import Mathlib.Tactic.Ring

/-!
# `CcInfer.Lib.BinaryFormat`: binary floating-point formats and rounding to nearest even

A format has a sign bit, `expBits` bits of exponent and `fracBits` bits of fraction. A pattern
of the format is a natural number, and the bits above the sign do not count. `value` is the
rational that a finite pattern stands for, as the standard defines it.
-/

set_option autoImplicit false

/-! ### Rounding in an increasing sequence -/

/-- The number `x` lies between the midpoints around place `j` of a sequence, and on one of them
only if `j` is even. -/
structure NearestAt (g : ℕ → ℚ) (x : ℚ) (j : ℕ) : Prop where
  lower : ∀ i, i + 1 = j → g i + g j ≤ 2 * x
  lower_tie : ∀ i, i + 1 = j → g i + g j = 2 * x → Even j
  upper : 2 * x ≤ g j + g (j + 1)
  upper_tie : 2 * x = g j + g (j + 1) → Even j

section NearestAt

variable {g : ℕ → ℚ} {x : ℚ} {j k : ℕ}

/-- The place below `x` is the nearest one in the lower half. -/
theorem nearestAt_floor (hg : StrictMono g) (hle : g k ≤ x)
    (h : 2 * x < g k + g (k + 1) ∨ 2 * x = g k + g (k + 1) ∧ Even k) : NearestAt g x k := by
  have hbelow : ∀ i, i + 1 = k → g i + g k < 2 * x := by
    intro i hi
    have hlt : g i < g k := hg (by omega)
    linarith
  refine ⟨fun i hi => (hbelow i hi).le, fun i hi heq => absurd heq (hbelow i hi).ne, ?_, ?_⟩
  · rcases h with hlt | ⟨heq, -⟩
    · exact hlt.le
    · exact heq.le
  · intro heq
    rcases h with hlt | ⟨-, heven⟩
    · exact absurd heq hlt.ne
    · exact heven

/-- The place above `x` is the nearest one in the upper half. -/
theorem nearestAt_ceil (hg : StrictMono g) (hlt : x < g (k + 1))
    (h : g k + g (k + 1) < 2 * x ∨ g k + g (k + 1) = 2 * x ∧ Odd k) : NearestAt g x (k + 1) := by
  have habove : 2 * x < g (k + 1) + g (k + 1 + 1) := by
    have hstep : g (k + 1) < g (k + 1 + 1) := hg (by omega)
    linarith
  refine ⟨?_, ?_, habove.le, fun heq => absurd heq habove.ne⟩
  · intro i hi
    obtain rfl : i = k := by omega
    rcases h with hlt | ⟨heq, -⟩
    · exact hlt.le
    · exact heq.le
  · intro i hi heq
    obtain rfl : i = k := by omega
    rcases h with hlt | ⟨-, hodd⟩
    · exact absurd heq hlt.ne
    · exact hodd.add_one

/-- Every other place is at least as far away, and a place that is as far away is the same one or
lost to an even one. -/
theorem NearestAt.dist_le (hg : StrictMono g) (h : NearestAt g x j) (i : ℕ) :
    |g j - x| ≤ |g i - x| ∧ (|g i - x| = |g j - x| → i = j ∨ Even j) := by
  rcases lt_trichotomy i j with hlt | rfl | hgt
  · -- a place below is not above the one before `j`
    obtain ⟨l, rfl⟩ : ∃ l, j = l + 1 := ⟨j - 1, by omega⟩
    have hil : g i ≤ g l := hg.monotone (by omega)
    have hlow := h.lower l rfl
    have hij : g i < g (l + 1) := hg hlt
    have hdist : |g i - x| = x - g i := by
      rw [abs_of_neg (by linarith)]
      ring
    rw [hdist]
    refine ⟨abs_le.mpr ⟨by linarith, by linarith⟩, fun heq => .inr ?_⟩
    rcases abs_cases (g (l + 1) - x) with ⟨_, -⟩ | ⟨_, -⟩
    · exact h.lower_tie l rfl (by linarith)
    · linarith
  · exact ⟨le_refl _, fun _ => .inl rfl⟩
  · have hji : g (j + 1) ≤ g i := hg.monotone (by omega)
    have hupp := h.upper
    have hij : g j < g i := hg hgt
    have hdist : |g i - x| = g i - x := abs_of_pos (by linarith)
    rw [hdist]
    refine ⟨abs_le.mpr ⟨by linarith, by linarith⟩, fun heq => .inr ?_⟩
    rcases abs_cases (g j - x) with ⟨_, -⟩ | ⟨_, -⟩
    · linarith
    · exact h.upper_tie (by linarith)

/-- `x` is rounded up to an even place exactly if it reaches the midpoint before it. -/
theorem NearestAt.le_iff (hg : StrictMono g) (h : NearestAt g x j) (heven : Even (k + 1)) :
    k + 1 ≤ j ↔ g k + g (k + 1) ≤ 2 * x := by
  constructor
  · intro hle
    obtain ⟨l, rfl⟩ : ∃ l, j = l + 1 := ⟨j - 1, by omega⟩
    have hkl : g k ≤ g l := hg.monotone (by omega)
    have hkl' : g (k + 1) ≤ g (l + 1) := hg.monotone (by omega)
    have hlow := h.lower l rfl
    linarith
  · intro hle
    by_contra hlt
    have hjk : g j ≤ g k := hg.monotone (by omega)
    have hjk' : g (j + 1) ≤ g (k + 1) := hg.monotone (by omega)
    have hupp := h.upper
    have hsame : g j = g k := by linarith
    obtain rfl : j = k := hg.injective hsame
    have hj : Even j := h.upper_tie (by linarith)
    exact (Nat.not_even_iff_odd.mpr hj.add_one) heven

end NearestAt

/-- A binary interchange format. -/
structure BinaryFormat where
  expBits : ℕ
  fracBits : ℕ
  deriving DecidableEq, Repr

namespace BinaryFormat

variable {p k q r s : ℕ}

/-! ### Magnitudes -/

/-- The magnitude at place `k` of a format with `p` bits of fraction, in units of the least
subnormal: below `2 ^ p` the subnormals, then `2 ^ p` places for each exponent. -/
def mag (p k : ℕ) : ℕ :=
  if k / 2 ^ p = 0 then k else (2 ^ p + k % 2 ^ p) * 2 ^ (k / 2 ^ p - 1)

/-- The distance from place `k` to the next one. -/
def ulp (p k : ℕ) : ℕ := 2 ^ (k / 2 ^ p - 1)

theorem mag_of_lt (h : k < 2 ^ p) : mag p k = k := if_pos (Nat.div_eq_of_lt h)

theorem ulp_of_lt (h : k < 2 ^ p) : ulp p k = 1 := by
  rw [ulp, Nat.div_eq_of_lt h]
  rfl

/-- A place is an exponent and a fraction. -/
theorem div_mod_mul_add (hr : r < 2 ^ p) :
    (q * 2 ^ p + r) / 2 ^ p = q ∧ (q * 2 ^ p + r) % 2 ^ p = r := by
  rw [Nat.add_comm, Nat.add_mul_div_right _ _ (Nat.two_pow_pos p), Nat.div_eq_of_lt hr,
    Nat.add_mul_mod_self_right, Nat.mod_eq_of_lt hr]
  exact ⟨Nat.zero_add q, rfl⟩

theorem mag_mul_add (hr : r < 2 ^ p) : mag p ((q + 1) * 2 ^ p + r) = (2 ^ p + r) * 2 ^ q := by
  obtain ⟨hdiv, hmod⟩ := div_mod_mul_add (q := q + 1) hr
  rw [mag, hdiv, hmod, if_neg (Nat.succ_ne_zero q), Nat.add_sub_cancel]

theorem ulp_mul_add (hr : r < 2 ^ p) : ulp p ((q + 1) * 2 ^ p + r) = 2 ^ q := by
  rw [ulp, (div_mod_mul_add hr).1, Nat.add_sub_cancel]

/-- A place that is not subnormal has an exponent of at least one. -/
theorem exists_mul_add (h : 2 ^ p ≤ k) : ∃ q r, r < 2 ^ p ∧ k = (q + 1) * 2 ^ p + r := by
  have hpos : 1 ≤ k / 2 ^ p := (Nat.le_div_iff_mul_le (Nat.two_pow_pos p)).mpr (by omega)
  refine ⟨k / 2 ^ p - 1, k % 2 ^ p, Nat.mod_lt _ (Nat.two_pow_pos p), ?_⟩
  rw [Nat.sub_add_cancel hpos, Nat.div_add_mod']

/-- Neighbours are one ulp apart. -/
theorem mag_succ (p k : ℕ) : mag p (k + 1) = mag p k + ulp p k := by
  rcases Nat.lt_or_ge k (2 ^ p) with hsub | hnormal
  · rw [mag_of_lt hsub, ulp_of_lt hsub]
    rcases Nat.lt_or_ge (k + 1) (2 ^ p) with hlt | _
    · exact mag_of_lt hlt
    · -- the first normal magnitude follows the last subnormal one
      have hfirst : k + 1 = (0 + 1) * 2 ^ p + 0 := by omega
      rw [hfirst, mag_mul_add (Nat.two_pow_pos p)]
      omega
  · obtain ⟨q, r, hr, rfl⟩ := exists_mul_add hnormal
    rw [mag_mul_add hr, ulp_mul_add hr]
    rcases Nat.lt_or_ge (r + 1) (2 ^ p) with hlt | _
    · rw [Nat.add_assoc, mag_mul_add hlt]
      ring
    · -- the fraction carries into the exponent
      have hcarry : (q + 1) * 2 ^ p + r + 1 = (q + 1 + 1) * 2 ^ p + 0 := by
        have hfull : r + 1 = 2 ^ p := by omega
        rw [Nat.add_assoc, hfull]
        ring
      have hfull : 2 ^ p + r + 1 = 2 * 2 ^ p := by omega
      rw [hcarry, mag_mul_add (Nat.two_pow_pos p)]
      calc (2 ^ p + 0) * 2 ^ (q + 1) = (2 * 2 ^ p) * 2 ^ q := by ring
        _ = (2 ^ p + r) * 2 ^ q + 2 ^ q := by rw [← hfull]; ring

theorem strictMono_mag (p : ℕ) : StrictMono (mag p) :=
  strictMono_nat_of_lt_succ fun k => by
    rw [mag_succ]
    exact Nat.lt_add_of_pos_right (Nat.two_pow_pos _)

/-- Bits of fraction that are cut off count in units of the place that is left. -/
theorem mag_add_fracBits (hr : r < 2 ^ s) :
    mag (p + s) (k * 2 ^ s + r) = mag p k * 2 ^ s + r * ulp p k := by
  have hpow : 2 ^ (p + s) = 2 ^ p * 2 ^ s := pow_add 2 p s
  have hjoin : ∀ a, a < 2 ^ p → a * 2 ^ s + r < 2 ^ (p + s) := by
    intro a ha
    calc a * 2 ^ s + r < (a + 1) * 2 ^ s := by rw [Nat.add_one_mul]; omega
      _ ≤ 2 ^ (p + s) := by rw [hpow]; exact Nat.mul_le_mul_right _ ha
  rcases Nat.lt_or_ge k (2 ^ p) with hsub | hnormal
  · rw [mag_of_lt hsub, ulp_of_lt hsub, mag_of_lt (hjoin k hsub), Nat.mul_one]
  · obtain ⟨q, a, ha, rfl⟩ := exists_mul_add hnormal
    have hplace : ((q + 1) * 2 ^ p + a) * 2 ^ s + r = (q + 1) * 2 ^ (p + s) + (a * 2 ^ s + r) := by
      rw [hpow]
      ring
    rw [hplace, mag_mul_add (hjoin a ha), mag_mul_add ha, ulp_mul_add ha, hpow]
    ring

/-- A greater exponent scales a normal magnitude. -/
theorem mag_add_exponent (c : ℕ) (h : 2 ^ p ≤ k) : mag p (k + c * 2 ^ p) = mag p k * 2 ^ c := by
  obtain ⟨q, r, hr, rfl⟩ := exists_mul_add h
  have hplace : (q + 1) * 2 ^ p + r + c * 2 ^ p = (q + c + 1) * 2 ^ p + r := by ring
  rw [hplace, mag_mul_add hr, mag_mul_add hr]
  ring

/-- Cutting `s` bits off the fraction and taking `c` off the exponent. -/
theorem mag_narrow {c a : ℕ} (ha : a < 2 ^ p) (hr : r < 2 ^ s) :
    mag (p + s) ((q + 1 + c) * 2 ^ (p + s) + (a * 2 ^ s + r)) =
      mag p ((q + 1) * 2 ^ p + a) * 2 ^ (s + c) + r * 2 ^ (q + c) := by
  have hnormal : 2 ^ (p + s) ≤ ((q + 1) * 2 ^ p + a) * 2 ^ s + r := by
    rw [pow_add]
    nlinarith [Nat.zero_le (q * 2 ^ p * 2 ^ s), Nat.zero_le (a * 2 ^ s)]
  have hplace : (q + 1 + c) * 2 ^ (p + s) + (a * 2 ^ s + r) =
      ((q + 1) * 2 ^ p + a) * 2 ^ s + r + c * 2 ^ (p + s) := by
    rw [pow_add]
    ring
  rw [hplace, mag_add_exponent c hnormal, mag_add_fracBits hr, ulp_mul_add ha]
  ring

/-! ### Rounded quotients -/

/-- The quotient of a number by a power of two, rounded to nearest, ties to even. -/
def roundShift (m s : ℕ) : ℕ :=
  if 2 ^ s < 2 * (m % 2 ^ s) ∨ 2 ^ s = 2 * (m % 2 ^ s) ∧ Odd (m / 2 ^ s) then m / 2 ^ s + 1
  else m / 2 ^ s

/-- The round bit and the bits below it say whether the remainder is more than half. -/
theorem roundShift_succ (m n : ℕ) : roundShift m (n + 1) = if m / 2 ^ n % 2 = 1 then
        if m % 2 ^ n ≠ 0 ∨ Odd (m / 2 ^ (n + 1)) then m / 2 ^ (n + 1) + 1 else m / 2 ^ (n + 1)
      else m / 2 ^ (n + 1) := by
  have hrem : m % 2 ^ (n + 1) = m % 2 ^ n + 2 ^ n * (m / 2 ^ n % 2) := Nat.mod_pow_succ
  have hlow : m % 2 ^ n < 2 ^ n := Nat.mod_lt _ (Nat.two_pow_pos n)
  have hpow : 2 ^ (n + 1) = 2 * 2 ^ n := Nat.pow_succ'
  rw [roundShift, hrem]
  rcases Nat.mod_two_eq_zero_or_one (m / 2 ^ n) with hbit | hbit
  · rw [hbit, if_neg (by omega), if_neg (by omega)]
  · rw [hbit, if_pos rfl]
    refine if_congr ?_ rfl rfl
    constructor
    · rintro (_ | ⟨-, hodd⟩)
      · exact .inl (by omega)
      · exact .inr hodd
    · intro h
      by_cases hzero : m % 2 ^ n = 0
      · exact .inr ⟨by omega, h.resolve_left (not_not.mpr hzero)⟩
      · exact .inl (by omega)

theorem roundShift_le {m b : ℕ} (h : m < b * 2 ^ s) : roundShift m s ≤ b := by
  have hlt : m / 2 ^ s < b := (Nat.div_lt_iff_lt_mul (Nat.two_pow_pos s)).mpr h
  unfold roundShift
  split <;> omega

/-! ### Patterns -/

variable (f : BinaryFormat)

/-- The exponent field that stands for the exponent zero. -/
def bias : ℤ := 2 ^ (f.expBits - 1) - 1

/-- The sign bit. -/
def negative (bits : ℕ) : Bool := bits.testBit (f.expBits + f.fracBits)

/-- The exponent field. -/
def exponent (bits : ℕ) : ℕ := bits / 2 ^ f.fracBits % 2 ^ f.expBits

/-- The fraction field. -/
def fraction (bits : ℕ) : ℕ := bits % 2 ^ f.fracBits

/-- The exponent field is not all ones. -/
def IsFinite (bits : ℕ) : Prop := f.exponent bits ≠ 2 ^ f.expBits - 1

/-- An infinity. -/
def IsInfinite (bits : ℕ) : Prop := f.exponent bits = 2 ^ f.expBits - 1 ∧ f.fraction bits = 0

/-- Not a number. -/
def IsNaN (bits : ℕ) : Prop := f.exponent bits = 2 ^ f.expBits - 1 ∧ f.fraction bits ≠ 0

instance (bits : ℕ) : Decidable (f.IsFinite bits) := inferInstanceAs (Decidable (_ ≠ _))

instance (bits : ℕ) : Decidable (f.IsInfinite bits) := inferInstanceAs (Decidable (_ ∧ _))

instance (bits : ℕ) : Decidable (f.IsNaN bits) := inferInstanceAs (Decidable (_ ∧ _))

/-- The rational that a finite pattern stands for. -/
def value (bits : ℕ) : ℚ :=
  (if f.negative bits then -1 else 1) *
    if f.exponent bits = 0 then (f.fraction bits : ℚ) * 2 ^ (1 - f.bias - f.fracBits)
    else (2 ^ f.fracBits + f.fraction bits : ℚ) * 2 ^ (f.exponent bits - f.bias - f.fracBits)

/-- The greatest finite magnitude and half of the distance to the next one: numbers from here on
overflow. -/
def overflow : ℚ := (2 - 2 ^ (-(f.fracBits : ℤ) - 1)) * 2 ^ f.bias

/-- Among the finite patterns, `bits` is nearest to `x`, and it is even if one with another value
is as near. -/
def NearestEven (x : ℚ) (bits : ℕ) : Prop :=
  f.IsFinite bits ∧ ∀ other, f.IsFinite other →
    |f.value bits - x| ≤ |f.value other - x| ∧
      (|f.value other - x| = |f.value bits - x| → f.value other = f.value bits ∨ Even bits)

/-- Rounding to nearest, ties to even. -/
def RoundsTo (x : ℚ) (bits : ℕ) : Prop :=
  (|x| < f.overflow → f.NearestEven x bits) ∧ (f.overflow ≤ |x| ↔ f.IsInfinite bits)

/-- The number that a pattern stands for, if it is finite. -/
def toRat (bits : ℕ) : Option ℚ := if f.IsFinite bits then some (f.value bits) else none

/-- IEEE double precision. -/
def binary64 : BinaryFormat := ⟨11, 52⟩

/-- IEEE single precision. -/
def binary32 : BinaryFormat := ⟨8, 23⟩

/-- IEEE half precision. -/
def binary16 : BinaryFormat := ⟨5, 10⟩

/-- The upper half of single precision. -/
def bfloat16 : BinaryFormat := ⟨8, 7⟩

/-! ### Patterns without their sign -/

/-- A pattern without its sign: a place in the list of magnitudes. -/
def place (bits : ℕ) : ℕ := bits % 2 ^ (f.expBits + f.fracBits)

/-- The place of infinity. -/
def infinity : ℕ := (2 ^ f.expBits - 1) * 2 ^ f.fracBits

/-- The least subnormal. -/
def unit : ℚ := 2 ^ (1 - f.bias - f.fracBits)

theorem unit_pos : 0 < f.unit := zpow_pos (by norm_num) _

variable {f} {bits : ℕ}

theorem place_eq : f.place bits = f.exponent bits * 2 ^ f.fracBits + f.fraction bits := by
  rw [place, exponent, fraction, Nat.add_comm f.expBits, pow_add, Nat.mod_mul]
  ring

/-- A pattern put together from sign and place. -/
theorem place_pack (negative : Bool) (h : k < 2 ^ (f.expBits + f.fracBits)) :
    f.place (2 ^ (f.expBits + f.fracBits) * negative.toNat + k) = k := by
  rw [place, Nat.mul_add_mod, Nat.mod_eq_of_lt h]

theorem negative_pack (negative : Bool) (h : k < 2 ^ (f.expBits + f.fracBits)) :
    f.negative (2 ^ (f.expBits + f.fracBits) * negative.toNat + k) = negative := by
  rw [BinaryFormat.negative, Nat.testBit_two_pow_mul_add _ h, if_neg (Nat.lt_irrefl _),
    Nat.sub_self]
  cases negative <;> rfl

theorem fraction_lt : f.fraction bits < 2 ^ f.fracBits := Nat.mod_lt _ (Nat.two_pow_pos _)

theorem exponent_le : f.exponent bits ≤ 2 ^ f.expBits - 1 := by
  have hlt : f.exponent bits < 2 ^ f.expBits := Nat.mod_lt _ (Nat.two_pow_pos _)
  omega

/-- Finite numbers are below the infinity. -/
theorem isFinite_iff : f.IsFinite bits ↔ f.place bits < f.infinity := by
  have hfrac : f.fraction bits < 2 ^ f.fracBits := fraction_lt
  rw [place_eq, infinity, IsFinite]
  constructor
  · intro hne
    have hle : f.exponent bits + 1 ≤ 2 ^ f.expBits - 1 :=
      lt_of_le_of_ne exponent_le hne
    calc f.exponent bits * 2 ^ f.fracBits + f.fraction bits
        < (f.exponent bits + 1) * 2 ^ f.fracBits := by rw [Nat.add_one_mul]; omega
      _ ≤ (2 ^ f.expBits - 1) * 2 ^ f.fracBits := Nat.mul_le_mul_right _ hle
  · intro hlt heq
    rw [heq] at hlt
    omega

/-- The infinity has one place. -/
theorem isInfinite_iff : f.IsInfinite bits ↔ f.place bits = f.infinity := by
  rw [place_eq, infinity, IsInfinite]
  constructor
  · rintro ⟨hexp, hfrac⟩
    rw [hexp, hfrac, Nat.add_zero]
  · intro heq
    have hexp : f.exponent bits = 2 ^ f.expBits - 1 := by
      by_contra hne
      have hlt := isFinite_iff.mp hne
      rw [place_eq, infinity] at hlt
      omega
    rw [hexp] at heq
    exact ⟨hexp, by omega⟩

/-- NaNs are above it. -/
theorem isNaN_iff : f.IsNaN bits ↔ f.infinity < f.place bits := by
  constructor
  · rintro ⟨hexp, _⟩
    rw [place_eq, infinity, hexp]
    omega
  · intro hlt
    have hexp : f.exponent bits = 2 ^ f.expBits - 1 := by
      by_contra hne
      exact absurd (isFinite_iff.mp hne) (Nat.lt_asymm hlt)
    refine ⟨hexp, fun hfrac => ?_⟩
    exact absurd (isInfinite_iff.mp ⟨hexp, hfrac⟩) hlt.ne'

/-- The value by sign and place. -/
theorem value_eq : f.value bits =
    (if f.negative bits then -1 else 1) * ((mag f.fracBits (f.place bits) : ℚ) * f.unit) := by
  rw [value, place_eq, unit]
  congr 1
  cases hexp : f.exponent bits with
  | zero => rw [if_pos rfl, Nat.zero_mul, Nat.zero_add, mag_of_lt fraction_lt]
  | succ q =>
    have hscale : (2 : ℚ) ^ (((q + 1 : ℕ) : ℤ) - f.bias - f.fracBits) =
        2 ^ q * 2 ^ (1 - f.bias - f.fracBits) := by
      rw [← zpow_natCast, ← zpow_add₀ two_ne_zero]
      congr 1
      push_cast
      ring
    rw [if_neg (Nat.succ_ne_zero q), mag_mul_add fraction_lt, hscale]
    push_cast
    ring

/-! ### Correct rounding -/

variable (f) in
/-- The magnitude at a place. -/
def magnitude (k : ℕ) : ℚ := mag f.fracBits k * f.unit

theorem strictMono_magnitude : StrictMono f.magnitude := fun _ _ h =>
  mul_lt_mul_of_pos_right (Nat.cast_lt.mpr (strictMono_mag _ h)) f.unit_pos

theorem magnitude_zero : f.magnitude 0 = 0 := by
  rw [magnitude, mag_of_lt (Nat.two_pow_pos _), Nat.cast_zero, zero_mul]

theorem magnitude_nonneg (k : ℕ) : 0 ≤ f.magnitude k :=
  magnitude_zero.symm.le.trans (strictMono_magnitude.monotone (Nat.zero_le k))

/-- Overflow begins halfway between the greatest finite magnitude and the place of infinity. -/
theorem two_mul_overflow (hexp : 2 ≤ f.expBits) :
    ∃ k, k + 1 = f.infinity ∧ f.magnitude k + f.magnitude (k + 1) = 2 * f.overflow := by
  obtain ⟨e, he⟩ : ∃ e, f.expBits = e + 2 := ⟨f.expBits - 2, by omega⟩
  have hpos : 1 ≤ 2 ^ e := Nat.one_le_two_pow
  -- the exponent of the greatest finite magnitude is `q + 1`
  obtain ⟨q, hq⟩ : ∃ q, 2 ^ f.expBits - 1 = q + 2 := by
    refine ⟨2 ^ f.expBits - 3, ?_⟩
    have hpow : 2 ^ f.expBits = 4 * 2 ^ e := by
      rw [he]
      ring
    omega
  have hbias : (q : ℤ) + 3 = 2 * (f.bias + 1) := by
    have hcast : ((2 ^ f.expBits : ℕ) : ℤ) = q + 3 := by
      have hpow := Nat.one_le_two_pow (n := f.expBits)
      omega
    have hsub : e + 2 - 1 = e + 1 := rfl
    rw [bias, ← hcast, he, hsub]
    push_cast
    ring
  obtain ⟨r, hr⟩ : ∃ r, 2 ^ f.fracBits = r + 1 := ⟨2 ^ f.fracBits - 1, by
    have := Nat.two_pow_pos f.fracBits
    omega⟩
  have hlast : (q + 1) * 2 ^ f.fracBits + r + 1 = (q + 1 + 1) * 2 ^ f.fracBits + 0 := by
    rw [Nat.add_assoc, ← hr]
    ring
  refine ⟨(q + 1) * 2 ^ f.fracBits + r, ?_, ?_⟩
  · rw [infinity, hq, hlast, Nat.add_zero]
  · have hbelow : mag f.fracBits ((q + 1) * 2 ^ f.fracBits + r) = (2 ^ f.fracBits + r) * 2 ^ q :=
      mag_mul_add (by omega)
    have hinf : mag f.fracBits ((q + 1) * 2 ^ f.fracBits + r + 1) =
        2 ^ f.fracBits * 2 ^ (q + 1) := by
      rw [hlast, mag_mul_add (Nat.two_pow_pos _), Nat.add_zero]
    have hcast : (2 : ℚ) ^ f.fracBits = r + 1 := by exact_mod_cast hr
    have hunit : (2 : ℚ) ^ q * f.unit * 2 ^ f.fracBits = 2 ^ f.bias := by
      rw [unit, ← zpow_natCast, ← zpow_natCast, ← zpow_add₀ two_ne_zero, ← zpow_add₀ two_ne_zero]
      congr 1
      omega
    have hhalf : (2 : ℚ) ^ (-(f.fracBits : ℤ) - 1) * 2 ^ f.fracBits * 2 = 1 := by
      have hzero : -(f.fracBits : ℤ) - 1 + f.fracBits + 1 = 0 := by ring
      rw [← zpow_natCast, ← zpow_add₀ two_ne_zero, ← zpow_add_one₀ two_ne_zero, hzero, zpow_zero]
    rw [magnitude, magnitude, hbelow, hinf, overflow, ← hunit]
    push_cast
    rw [pow_succ]
    linear_combination (2 : ℚ) ^ q * f.unit * (hhalf - hcast)

theorem even_infinity (hfrac : 1 ≤ f.fracBits) : Even f.infinity :=
  (Nat.even_pow.mpr ⟨even_two, by omega⟩).mul_left _

/-- The sign bit leaves the parity of a pattern alone. -/
theorem even_place_iff (hfrac : 1 ≤ f.fracBits) : Even (f.place bits) ↔ Even bits := by
  have hdvd : 2 ∣ 2 ^ (f.expBits + f.fracBits) := dvd_pow_self 2 (by omega)
  rw [place, Nat.even_iff, Nat.even_iff, Nat.mod_mod_of_dvd _ hdvd]

/-- Distances between values of one sign are distances between magnitudes. -/
theorem abs_sign_mul_sub (negative : Bool) (a b : ℚ) :
    |(if negative then -1 else 1) * a - (if negative then -1 else 1) * b| = |a - b| := by
  cases negative with
  | false => simp
  | true =>
    have hneg : (-1 : ℚ) * a - -1 * b = -(a - b) := by ring
    rw [if_pos rfl, hneg, abs_neg]

/-- A pattern is the rounding of a number of its sign if its place is. -/
theorem roundsTo_of_nearestAt (hexp : 2 ≤ f.expBits) (hfrac : 1 ≤ f.fracBits) {m : ℚ}
    (hm : 0 ≤ m) (hle : f.place bits ≤ f.infinity) (h : NearestAt f.magnitude m (f.place bits)) :
    f.RoundsTo ((if f.negative bits then -1 else 1) * m) bits := by
  have habs : |(if f.negative bits then -1 else 1) * m| = m := by
    have hsub := abs_sign_mul_sub (f.negative bits) m 0
    rwa [mul_zero, sub_zero, sub_zero, abs_of_nonneg hm] at hsub
  obtain ⟨k, hk, hmid⟩ := two_mul_overflow hexp
  have hover : f.overflow ≤ m ↔ f.place bits = f.infinity := by
    have hiff := h.le_iff strictMono_magnitude (hk ▸ even_infinity hfrac : Even (k + 1))
    rw [hk, ← hk, hmid] at hiff
    constructor
    · intro hge
      exact le_antisymm hle (hk ▸ hiff.mpr (by linarith))
    · intro heq
      have := hiff.mp (by omega)
      linarith
  rw [RoundsTo, habs, isInfinite_iff]
  refine ⟨fun hlt => ⟨?_, fun other hother => ?_⟩, hover⟩
  · exact isFinite_iff.mpr (lt_of_le_of_ne hle fun heq => absurd (hover.mpr heq) (not_le.mpr hlt))
  · have hvalue : f.value bits =
        (if f.negative bits then -1 else 1) * f.magnitude (f.place bits) := value_eq
    have hvalue' : f.value other =
        (if f.negative other then -1 else 1) * f.magnitude (f.place other) := value_eq
    rw [hvalue, hvalue', abs_sign_mul_sub, ← even_place_iff hfrac]
    by_cases hsign : f.negative other = f.negative bits
    · obtain ⟨hdist, htie⟩ := h.dist_le strictMono_magnitude (f.place other)
      rw [hsign, abs_sign_mul_sub]
      exact ⟨hdist, fun heq => (htie heq).imp_left fun hplace => by rw [hplace]⟩
    · -- a number of the other sign is no nearer than zero
      obtain ⟨hdist, htie⟩ := h.dist_le strictMono_magnitude 0
      have hfar : |(if f.negative other then -1 else 1) * f.magnitude (f.place other) -
          (if f.negative bits then -1 else 1) * m| = f.magnitude (f.place other) + m := by
        have hnot : f.negative other = !f.negative bits := Bool.eq_not_of_ne hsign
        have hsum := abs_sign_mul_sub (f.negative other) (f.magnitude (f.place other)) (-m)
        rw [sub_neg_eq_add, abs_of_nonneg (add_nonneg (magnitude_nonneg _) hm)] at hsum
        rw [← hsum]
        congr 2
        rw [hnot]
        cases f.negative bits <;> simp
      have hother := f.magnitude_nonneg (f.place other)
      rw [magnitude_zero, zero_sub, abs_neg, abs_of_nonneg hm] at hdist htie
      rw [hfar]
      refine ⟨by linarith, fun heq => ?_⟩
      have hzero : f.magnitude (f.place other) = 0 := by linarith
      refine (htie (by linarith)).imp_left fun hplace => ?_
      rw [hzero, ← hplace, magnitude_zero, mul_zero, mul_zero]

/-- The place below a number is its rounding unless what is left is more than half of the distance
to the next place, or just half and the place is odd. The number is counted in units that are
`2 ^ s` times smaller than those of the format. -/
theorem nearestAt_of_remainder {u : ℚ} (hu : 0 < u) (hunit : f.unit = 2 ^ s * u)
    (hr : r < ulp f.fracBits k * 2 ^ s) :
    NearestAt f.magnitude (((mag f.fracBits k * 2 ^ s + r : ℕ) : ℚ) * u)
      (if ulp f.fracBits k * 2 ^ s < 2 * r ∨ ulp f.fracBits k * 2 ^ s = 2 * r ∧ Odd k then k + 1
        else k) := by
  have hcount : ∀ i, f.magnitude i = ((mag f.fracBits i * 2 ^ s : ℕ) : ℚ) * u := by
    intro i
    rw [magnitude, hunit]
    push_cast
    ring
  have hnext : mag f.fracBits (k + 1) * 2 ^ s =
      mag f.fracBits k * 2 ^ s + ulp f.fracBits k * 2 ^ s := by
    rw [mag_succ, Nat.add_mul]
  -- both sides of each comparison are counted in the smaller units
  have hsum : f.magnitude k + f.magnitude (k + 1) =
      ((2 * (mag f.fracBits k * 2 ^ s) + ulp f.fracBits k * 2 ^ s : ℕ) : ℚ) * u := by
    rw [hcount, hcount, hnext]
    push_cast
    ring
  have htwice : 2 * (((mag f.fracBits k * 2 ^ s + r : ℕ) : ℚ) * u) =
      ((2 * (mag f.fracBits k * 2 ^ s) + 2 * r : ℕ) : ℚ) * u := by
    push_cast
    ring
  have hlt : ∀ a b : ℕ, (a : ℚ) * u < (b : ℚ) * u ↔ a < b := fun a b => by
    rw [mul_lt_mul_iff_left₀ hu, Nat.cast_lt]
  have heq : ∀ a b : ℕ, (a : ℚ) * u = (b : ℚ) * u ↔ a = b := fun a b => by
    rw [mul_left_inj' hu.ne', Nat.cast_inj]
  split
  · rename_i hup
    refine nearestAt_ceil strictMono_magnitude ?_ ?_
    · rw [hcount, hlt, hnext]
      omega
    · rw [hsum, htwice, hlt, heq]
      rcases hup with _ | ⟨_, hodd⟩
      · exact .inl (by omega)
      · exact .inr ⟨by omega, hodd⟩
  · rename_i hdown
    simp only [not_or, not_and, Nat.not_odd_iff_even] at hdown
    obtain ⟨_, htie⟩ := hdown
    refine nearestAt_floor strictMono_magnitude ?_ ?_
    · rw [hcount, mul_le_mul_iff_left₀ hu, Nat.cast_le]
      omega
    · rw [hsum, htwice, hlt, heq]
      rcases Nat.lt_or_ge (2 * r) (ulp f.fracBits k * 2 ^ s) with _ | _
      · exact .inl (by omega)
      · exact .inr ⟨by omega, htie (by omega)⟩

/-- A count of units whose number per place is a power of two is rounded by rounding the quotient;
an even number of places in front of it changes nothing. -/
theorem nearestAt_roundShift {u : ℚ} {t b m c x : ℕ} (hu : 0 < u) (hunit : f.unit = 2 ^ t * u)
    (hb : Even b) (hc : 0 < c) (hulp : ulp f.fracBits (b + m / 2 ^ s) * 2 ^ t = 2 ^ s * c)
    (hx : x = mag f.fracBits (b + m / 2 ^ s) * 2 ^ t + m % 2 ^ s * c) :
    NearestAt f.magnitude (x * u) (b + roundShift m s) := by
  have hrem : m % 2 ^ s * c < ulp f.fracBits (b + m / 2 ^ s) * 2 ^ t := by
    rw [hulp]
    exact Nat.mul_lt_mul_of_pos_right (Nat.mod_lt _ (Nat.two_pow_pos s)) hc
  have hnear := nearestAt_of_remainder hu hunit hrem
  have hcond : (ulp f.fracBits (b + m / 2 ^ s) * 2 ^ t < 2 * (m % 2 ^ s * c) ∨
      ulp f.fracBits (b + m / 2 ^ s) * 2 ^ t = 2 * (m % 2 ^ s * c) ∧ Odd (b + m / 2 ^ s)) ↔
      2 ^ s < 2 * (m % 2 ^ s) ∨ 2 ^ s = 2 * (m % 2 ^ s) ∧ Odd (m / 2 ^ s) := by
    rw [hulp, ← Nat.mul_assoc, Nat.mul_lt_mul_right hc, Nat.mul_left_inj hc.ne',
      Nat.odd_add', iff_true_right hb]
  have hplace : (if ulp f.fracBits (b + m / 2 ^ s) * 2 ^ t < 2 * (m % 2 ^ s * c) ∨
      ulp f.fracBits (b + m / 2 ^ s) * 2 ^ t = 2 * (m % 2 ^ s * c) ∧ Odd (b + m / 2 ^ s) then
      b + m / 2 ^ s + 1 else b + m / 2 ^ s) = b + roundShift m s := by
    rw [roundShift, if_congr hcond rfl rfl]
    split <;> rfl
  rw [hx, ← hplace]
  exact hnear

/-- An infinity is the rounding of every number that overflows. -/
theorem roundsTo_of_overflow {x : ℚ} (hover : f.overflow ≤ |x|) (hinf : f.place bits = f.infinity) :
    f.RoundsTo x bits :=
  ⟨fun hlt => absurd hover (not_le.mpr hlt), fun _ => isInfinite_iff.mpr hinf, fun _ => hover⟩

end BinaryFormat
