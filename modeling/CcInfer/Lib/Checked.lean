import Mathlib.Algebra.Order.Ring.Int
import Mathlib.Tactic.Common

/-!
# `CcInfer.Lib.Checked`: results that fit a machine integer

An operation on machine integers is the exact operation as long as its result fits. `fits` of
an exact result is that result if it does, and nothing otherwise, so that a computation in
which every operation is followed by `fits` has a value exactly if none of them overflows.
-/

set_option autoImplicit false

namespace Checked

/-- An exact result in an unsigned type of `w` bits. -/
def unsigned (w n : Nat) : Option Nat := if n < 2 ^ w then some n else none

/-- An exact result in a signed type of `w` bits. -/
def signed (w : Nat) (n : Int) : Option Int :=
  if -2 ^ (w - 1) ≤ n ∧ n < 2 ^ (w - 1) then some n else none

theorem unsigned_of_lt {w n : Nat} (h : n < 2 ^ w) : unsigned w n = some n := if_pos h

theorem signed_of_mem {w : Nat} {n : Int} (hlo : -2 ^ (w - 1) ≤ n) (hhi : n < 2 ^ (w - 1)) :
    signed w n = some n :=
  if_pos ⟨hlo, hhi⟩

end Checked
