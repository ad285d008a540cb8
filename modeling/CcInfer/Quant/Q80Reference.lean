import CcInfer.Base.Types

/-!
# `CcInfer.Quant.Q80Reference`: half precision and Q8_0 blocks on the host

The embedding of `half_to_float` and `float_to_half` from `quant/q8_0/q8_0_reference.cpp`, which
`q8_0_f16_to_float` and `q8_0_float_to_f16` call, and of `dequantize_q8_0_reference`. A `float` is
its bit pattern, as after `std::bit_cast`. The product of two floats and the float of a small
integer are parameters.
-/

set_option autoImplicit false

namespace CcInfer

/-- The `while` loop of `half_to_float`, which shifts the fraction of a subnormal half up to the
bit that normal numbers hide. -/
def normalizeHalf (m : UInt32) (shift : Nat) : Nat → UInt32 × Nat
  | 0 => (m, shift)
  | fuel + 1 =>
    if m &&& 0x400 = 0 then normalizeHalf (m <<< 1) (shift + 1) fuel else (m, shift)

/-- `half_to_float`. A fraction other than zero has ten bits, which bounds the rounds of the
loop. -/
def halfToFloat (h : UInt16) : UInt32 :=
  let sign := (h.toUInt32 &&& 0x8000) <<< 16
  let exp := (h.toUInt32 >>> 10) &&& 0x1F
  let mant := h.toUInt32 &&& 0x3FF
  if exp = 0 then
    if mant = 0 then sign
    else
      let (m, shift) := normalizeHalf mant 0 10
      let floatExp := UInt32.ofInt (127 - 14 - shift)
      sign ||| floatExp <<< 23 ||| (m &&& 0x3FF) <<< 13
  else if exp = 0x1F then sign ||| (0x7F800000 : UInt32) ||| mant <<< 13
  else
    let floatExp := exp + (127 - 15)
    sign ||| floatExp <<< 23 ||| mant <<< 13

/-- The fraction that `float_to_half` computes for a subnormal half. -/
def subnormalMant (mant : UInt32) (halfExp : Int) : UInt32 :=
  let m := mant ||| 0x800000
  let shift := UInt32.ofInt (14 - halfExp)
  let halfMant := m >>> shift
  let roundBitMask : UInt32 := 1 <<< (shift - 1)
  if m &&& roundBitMask ≠ 0 then
    let lower := m &&& (roundBitMask - 1)
    if lower ≠ 0 ∨ halfMant &&& 1 ≠ 0 then halfMant + 1 else halfMant
  else halfMant

/-- Exponent and fraction that `float_to_half` computes for a normal half, or infinity. -/
def normalHalf (mant : UInt32) (halfExp : Int) : UInt32 :=
  let halfMant := mant >>> 13
  let rem := mant &&& 0x1FFF
  if rem > 0x1000 ∨ (rem = 0x1000 ∧ halfMant &&& 1 ≠ 0) then
    let halfMant := halfMant + 1
    if halfMant ≥ 0x400 then
      -- the fraction carries into the exponent
      let nextExp := UInt32.ofInt (halfExp + 1)
      if nextExp ≥ 31 then 0x7C00 else nextExp <<< 10 ||| 0
    else UInt32.ofInt halfExp <<< 10 ||| halfMant
  else UInt32.ofInt halfExp <<< 10 ||| halfMant

/-- `float_to_half`. Every `return` joins the sign with the rest. -/
def floatToHalf (bits : UInt32) : UInt16 :=
  let sign := (bits >>> 16) &&& 0x8000
  let exp := (bits >>> 23) &&& 0xFF
  let mant := bits &&& 0x7FFFFF
  if exp = 0xFF then (sign ||| (0x7C00 ||| if mant ≠ 0 then 0x200 else 0)).toUInt16
  else
    let halfExp : Int := exp.toNat - 127 + 15
    if halfExp ≥ 31 then (sign ||| 0x7C00).toUInt16
    else if halfExp ≤ 0 then
      if halfExp < -10 then sign.toUInt16
      else
        let halfMant := subnormalMant mant halfExp
        if halfMant ≥ 0x400 then (sign ||| (1 : UInt32) <<< 10).toUInt16
        else (sign ||| halfMant).toUInt16
    else (sign ||| normalHalf mant halfExp).toUInt16

/-- `ccop::kQ8_0BlockSize`. -/
def q80BlockSize : Nat := 32

/-- `ccop::kQ8_0BlockBytes`: a half, and a byte for each element. -/
def q80BlockBytes : Nat := 34

/-- `ccop::Q8_0Block`. -/
structure Q80Block where
  dF16 : UInt16
  qs : List UInt8
  deriving DecidableEq, Repr

/-- The arithmetic of floats that dequantization uses. -/
structure FloatOps where
  mul : UInt32 → UInt32 → UInt32
  /-- `static_cast<float>` of an `int8_t`. -/
  ofInt8 : UInt8 → UInt32

/-- `dequantize_q8_0_reference`, for a destination of `dstSize` floats. -/
def dequantizeQ80Reference (ops : FloatOps) (src : List Q80Block) (dstSize : Nat) :
    Result (List UInt32) :=
  if dstSize ≠ src.length * q80BlockSize then .error .invalidArgument
  else .ok (src.flatMap fun block =>
    block.qs.map fun q => ops.mul (halfToFloat block.dF16) (ops.ofInt8 q))

end CcInfer
