import Mathlib.Data.PFun

/-!
# `CcInfer.Lib.Loop`: a `while` loop and its run on fuel

One pass of a loop leaves it with a result or goes round again from a new state, so it is a
function into `β ⊕ α`. The loop itself is `PFun.fix` of the pass: a partial value, defined
where the loop ends.
-/

set_option autoImplicit false

namespace Loop

variable {α β : Type*} {pass : α → β ⊕ α} {x x' : α} {y : β}

/-- The loop that repeats `pass` until it leaves. -/
def exec (pass : α → β ⊕ α) : α →. β := PFun.fix (PFun.lift pass)

theorem exec_of_leave (h : pass x = .inl y) : exec pass x = Part.some y := by
  apply Part.eq_some_iff.mpr
  apply PFun.fix_stop
  exact Part.mem_some_iff.mpr h.symm

theorem exec_of_again (h : pass x = .inr x') : exec pass x = exec pass x' := by
  apply PFun.fix_fwd_eq
  exact Part.mem_some_iff.mpr h.symm

/-- `run` makes one pass for each unit of fuel, and `need` bounds the passes that are left. -/
structure RunsOn (pass : α → β ⊕ α) (run : Nat → α → β) (need : α → Nat) : Prop where
  stop : ∀ x, need x = 0 → pass x = .inl (run 0 x)
  round : ∀ fuel x, run (fuel + 1) x = (pass x).elim id (run fuel)
  less : ∀ x x', pass x = .inr x' → need x' < need x

/-- The loop ends, and a run with enough fuel ends where the loop does. -/
theorem RunsOn.exec_eq {run : Nat → α → β} {need : α → Nat} (h : RunsOn pass run need)
    (fuel : Nat) : ∀ x, need x ≤ fuel → exec pass x = Part.some (run fuel x) := by
  induction fuel with
  | zero =>
    intro x hneed
    exact exec_of_leave (h.stop x (Nat.le_zero.mp hneed))
  | succ _ ih =>
    intro x hneed
    rw [h.round]
    cases hpass : pass x with
    | inl => exact exec_of_leave hpass
    | inr x' =>
      have hless := h.less x x' hpass
      rw [exec_of_again hpass]
      exact ih x' (by omega)

end Loop
