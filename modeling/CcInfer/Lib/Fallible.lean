import Mathlib.Data.List.Basic

/-!
# `CcInfer.Lib.Fallible`: mapping a list with a function that can fail

`xs.mapM f` stops at the first element on which `f` fails. `mapM_eq_ok_iff` says when it does
not: the results are then those of `f` on the elements, one by one.
-/

set_option autoImplicit false

namespace Fallible

variable {α β γ ε : Type} {f g : α → Except ε β} {xs : List α} {ys : List β}

/-- `mapM` succeeds if every element does. -/
theorem mapM_eq_ok_iff : xs.mapM f = .ok ys ↔ xs.map f = ys.map .ok := by
  induction xs generalizing ys with
  | nil =>
    cases ys with
    | nil => exact iff_of_true rfl rfl
    | cons => exact iff_of_false (fun h => by cases h) (fun h => by cases h)
  | cons x xs ih =>
    rw [List.mapM_cons, List.map_cons]
    cases hx : f x with
    | error =>
      refine iff_of_false (fun h => by cases h) fun h => ?_
      cases ys <;> cases h
    | ok =>
      cases hxs : xs.mapM f with
      | error =>
        refine iff_of_false (fun h => by cases h) fun h => ?_
        cases ys with
        | nil => cases h
        | cons =>
          have := ih.mpr (List.cons.inj h).2
          rw [hxs] at this
          cases this
      | ok =>
        have hrest := ih.mp hxs
        constructor
        · intro h
          obtain rfl := Except.ok.inj h
          rw [hrest]
          rfl
        · intro h
          cases ys with
          | nil => cases h
          | cons =>
            obtain ⟨hy, hys⟩ := List.cons.inj h
            rw [hrest] at hys
            obtain rfl := Except.ok.inj hy
            obtain rfl := List.map_injective_iff.mpr (fun _ _ => Except.ok.inj) hys
            rfl

theorem toOption_eq_some_iff {e : Except ε β} {y : β} : e.toOption = some y ↔ e = .ok y := by
  cases e with
  | error => exact iff_of_false (fun h => by cases h) (fun h => by cases h)
  | ok => exact ⟨fun h => congrArg Except.ok (Option.some.inj h), fun h => by rw [h]; rfl⟩

theorem map_eq_ok_iff {e : Except ε β} {r : β → γ} {z : γ} :
    e.map r = .ok z ↔ ∃ y, e = .ok y ∧ r y = z := by
  cases e with
  | error => exact iff_of_false (fun h => by cases h) (by simp)
  | ok => simp [Except.map]

theorem bind_eq_ok_iff {e : Except ε β} {r : β → Except ε γ} {z : γ} :
    (e >>= r) = .ok z ↔ ∃ y, e = .ok y ∧ r y = .ok z := by
  cases e with
  | error => exact iff_of_false (fun h => by cases h) (by simp)
  | ok => simp [bind, Except.bind]

theorem mapM_congr (h : ∀ x ∈ xs, f x = g x) : xs.mapM f = xs.mapM g := by
  induction xs with
  | nil => rfl
  | cons x _ ih =>
    rw [List.mapM_cons, List.mapM_cons, h x List.mem_cons_self,
      ih fun x hx => h x (List.mem_cons_of_mem _ hx)]

/-- The function does not fail on an element of a list on which `mapM` does not. -/
theorem exists_of_mapM (h : xs.mapM f = .ok ys) {x : α} (hx : x ∈ xs) : ∃ y, f x = .ok y := by
  have hmem : f x ∈ ys.map .ok := mapM_eq_ok_iff.mp h ▸ List.mem_map_of_mem hx
  obtain ⟨y, -, hy⟩ := List.mem_map.mp hmem
  exact ⟨y, hy.symm⟩

/-- A function that fails on no element. -/
theorem mapM_of_forall (h : ∀ x ∈ xs, ∃ y, f x = .ok y) : ∃ ys, xs.mapM f = .ok ys := by
  induction xs with
  | nil => exact ⟨[], rfl⟩
  | cons x _ ih =>
    obtain ⟨y, hy⟩ := h x List.mem_cons_self
    obtain ⟨ys, hys⟩ := ih fun x hx => h x (List.mem_cons_of_mem _ hx)
    refine ⟨y :: ys, ?_⟩
    rw [List.mapM_cons, hy, hys]
    rfl

/-- Two functions with the same results have the same value on every element. -/
theorem eq_of_mapM_eq (hf : xs.mapM f = .ok ys) (hg : xs.mapM g = .ok ys) {x : α} (hx : x ∈ xs) :
    f x = g x := by
  have hmap : xs.map f = xs.map g := (mapM_eq_ok_iff.mp hf).trans (mapM_eq_ok_iff.mp hg).symm
  exact List.map_inj_left.mp hmap x hx

/-- Results found one by one are turned back one by one. -/
theorem mapM_back {r : α → γ} {back : β → Except ε γ}
    (hback : ∀ x y, f x = .ok y → back y = .ok (r x)) (h : xs.mapM f = .ok ys) :
    ys.mapM back = .ok (xs.map r) := by
  rw [mapM_eq_ok_iff]
  calc ys.map back = (ys.map Except.ok).map (· >>= back) := by rw [List.map_map]; rfl
    _ = (xs.map f).map (· >>= back) := by rw [mapM_eq_ok_iff.mp h]
    _ = xs.map fun x => f x >>= back := by rw [List.map_map]; rfl
    _ = xs.map fun x => .ok (r x) := List.map_congr_left fun x hx => by
      obtain ⟨y, hy⟩ := exists_of_mapM h hx
      rw [hy]
      exact hback x y hy
    _ = (xs.map r).map Except.ok := by rw [List.map_map]; rfl

end Fallible
