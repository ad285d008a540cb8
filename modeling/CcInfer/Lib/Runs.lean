import Mathlib.Logic.Relation

/-!
# `CcInfer.Lib.Runs`: runs of a transition relation

A run is a path of the relation `step`. Two rules lift a property from one step to a run:
`invariant` for a property that every step keeps, and `invariant_while` for a property that
is kept as long as a guard holds, where the guard can only be lost. The guard is read off
the last state alone, which suits a state that carries its own log.
-/

set_option autoImplicit false

namespace CcInfer

namespace Runs

open Relation

variable {σ : Type*} {step : σ → σ → Prop} {I : σ → Prop} {x y z : σ}

/-- What every step keeps, every run keeps. -/
theorem invariant (keep : ∀ x y, I x → step x y → I y) (hx : I x)
    (run : ReflTransGen step x y) : I y := by
  induction run with
  | refl => exact hx
  | tail _ last ih => exact keep _ _ ih last

/-- A run whose last state meets the guard keeps what every step into a guarded state
keeps, if the guard can only be lost. -/
theorem invariant_while {G : σ → Prop} (back : ∀ x y, step x y → G y → G x)
    (keep : ∀ x y, I x → step x y → G y → I y) (hx : I x) (run : ReflTransGen step x y)
    (hy : G y) : I y := by
  induction run with
  | refl => exact hx
  | tail _ last ih => exact keep _ _ (ih (back _ _ last hy)) last hy

/-- `x` runs to `y` if it satisfies the invariant. -/
def Under (I : σ → Prop) (step : σ → σ → Prop) (x y : σ) : Prop :=
  I x → ReflTransGen step x y

namespace Under

theorem refl : Under I step x x := fun _ => .refl

theorem of_eq (h : x = y) : Under I step x y := h ▸ refl

theorem trans (keep : ∀ x y, I x → step x y → I y) (h : Under I step x y)
    (h' : Under I step y z) : Under I step x z :=
  fun hx => (h hx).trans (h' (invariant keep hx (h hx)))

end Under

section Labelled

variable {ℓ : Type*} (next : σ → ℓ → Option σ)

/-- The steps of a partial function of state and label. -/
def Labelled (x y : σ) : Prop := ∃ l, next x l = some y

/-- The state after the steps with the given labels, where one that cannot be taken is left
out. -/
def after (x : σ) (labels : List ℓ) : σ := labels.foldl (fun x l => (next x l).getD x) x

theorem run_after (x : σ) (labels : List ℓ) :
    ReflTransGen (Labelled next) x (after next x labels) := by
  induction labels generalizing x with
  | nil => exact .refl
  | cons l rest ih =>
    show ReflTransGen (Labelled next) x (after next ((next x l).getD x) rest)
    rcases hnext : next x l with _ | y
    · exact ih x
    · exact .head ⟨l, hnext⟩ (ih y)

end Labelled

end Runs

end CcInfer
