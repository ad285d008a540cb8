import Mathlib.Data.List.Basic

/-!
# `CcInfer.Lib.Split`: a list at its first element with a property

`splitFirst p l` is the part of `l` before the first element that satisfies `p`, that
element, and the part after it. A search for a delimiter is stated with it, and
`splitFirst_eq_some_iff` turns it into an equation between lists, on which proofs then work.
-/

set_option autoImplicit false

namespace CcInfer

variable {α β : Type*}

/-- The list before, at and after the first element that satisfies `p`. -/
def splitFirst (p : α → Bool) : List α → Option (List α × α × List α)
  | [] => none
  | x :: rest =>
    if p x then some ([], x, rest)
    else (splitFirst p rest).map fun (before, y, after) => (x :: before, y, after)

theorem splitFirst_eq_none_iff {p : α → Bool} {l : List α} :
    splitFirst p l = none ↔ ∀ x ∈ l, p x = false := by
  induction l with
  | nil => simp [splitFirst]
  | cons x _ ih =>
    by_cases hx : p x = true
    · simp [splitFirst, hx]
    · simp [splitFirst, hx, ih]

/-- A split is found at `x` exactly when `x` is the first element with the property. -/
theorem splitFirst_eq_some_iff {p : α → Bool} {l before after : List α} {x : α} :
    splitFirst p l = some (before, x, after) ↔
      l = before ++ x :: after ∧ p x = true ∧ ∀ y ∈ before, p y = false := by
  induction l generalizing before with
  | nil => simp [splitFirst]
  | cons y _ ih =>
    by_cases hy : p y = true
    · rw [splitFirst, if_pos hy]
      cases before with
      | nil =>
        simp only [Option.some.injEq, Prod.mk.injEq, true_and, List.nil_append, List.cons.injEq,
          List.not_mem_nil, false_implies, implies_true, and_true]
        constructor
        · rintro ⟨rfl, rfl⟩
          exact ⟨⟨rfl, rfl⟩, hy⟩
        · exact And.left
      | cons =>
        refine iff_of_false (by simp) ?_
        rintro ⟨heq, -, hbefore⟩
        obtain ⟨rfl, -⟩ := List.cons.inj heq
        have := hbefore y List.mem_cons_self
        rw [hy] at this
        cases this
    · rw [splitFirst, if_neg hy]
      cases before with
      | nil =>
        refine iff_of_false (by simp) ?_
        rintro ⟨heq, hx, -⟩
        obtain ⟨rfl, -⟩ := List.cons.inj heq
        exact hy hx
      | cons z before =>
        simp only [Option.map_eq_some_iff, Prod.mk.injEq, List.cons.injEq, List.cons_append,
          List.forall_mem_cons]
        constructor
        · rintro ⟨⟨_, _, _⟩, hsplit, ⟨rfl, rfl⟩, rfl, rfl⟩
          obtain ⟨rfl, hw, hb⟩ := ih.mp hsplit
          exact ⟨⟨rfl, rfl⟩, hw, Bool.eq_false_iff.mpr hy, hb⟩
        · rintro ⟨⟨rfl, rfl⟩, hx, -, hb⟩
          exact ⟨(before, x, after), ih.mpr ⟨rfl, hx, hb⟩, ⟨rfl, rfl⟩, rfl, rfl⟩

/-- A list has no element with the property, or a first one. -/
theorem splitFirst_cases (p : α → Bool) (l : List α) :
    (∀ x ∈ l, p x = false) ∨ ∃ before x after, l = before ++ x :: after ∧ p x = true ∧
      ∀ y ∈ before, p y = false := by
  rcases h : splitFirst p l with _ | ⟨before, x, after⟩
  · exact .inl (splitFirst_eq_none_iff.mp h)
  · exact .inr ⟨before, x, after, splitFirst_eq_some_iff.mp h⟩

/-- Elements without the property in front only lengthen the part before. -/
theorem splitFirst_append {p : α → Bool} {front : List α} (h : ∀ x ∈ front, p x = false)
    (l : List α) : splitFirst p (front ++ l) =
      (splitFirst p l).map fun (before, x, after) => (front ++ before, x, after) := by
  rcases hl : splitFirst p l with _ | ⟨_, _, _⟩
  · refine splitFirst_eq_none_iff.mpr fun y hy => ?_
    exact (List.mem_append.mp hy).elim (h y) (splitFirst_eq_none_iff.mp hl y)
  · obtain ⟨rfl, hx, hbefore⟩ := splitFirst_eq_some_iff.mp hl
    refine splitFirst_eq_some_iff.mpr ⟨by simp, hx, fun y hy => ?_⟩
    exact (List.mem_append.mp hy).elim (h y) (hbefore y)

/-- Looking at the elements through `f` finds the same place. -/
theorem splitFirst_map (p : β → Bool) (f : α → β) (l : List α) : splitFirst p (l.map f) =
      (splitFirst (p ∘ f) l).map fun (before, x, after) => (before.map f, f x, after.map f) := by
  induction l with
  | nil => rfl
  | cons x _ ih =>
    by_cases hx : p (f x) = true
    · simp [splitFirst, hx]
    · have hx' : ¬ (p ∘ f) x = true := hx
      rw [List.map_cons, splitFirst, splitFirst, if_neg hx, if_neg hx', ih, Option.map_map,
        Option.map_map]
      rfl

end CcInfer
