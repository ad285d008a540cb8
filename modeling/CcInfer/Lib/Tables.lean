import Mathlib.Algebra.BigOperators.Group.Finset.Basic
import Mathlib.Algebra.Order.BigOperators.Group.Finset
import Mathlib.Data.List.Count

/-!
# `CcInfer.Lib.Tables`: counting occurrences over a family of tables

A resource with a reference count is owned by the entries of several tables. `total f n a`
counts the entries `a` in the first `n` tables of the family `f`. The lemmas say how the
total changes when one table does, how it bounds single tables, and how to read it off any
list of the owners.
-/

set_option autoImplicit false

namespace Tables

variable {α : Type} [DecidableEq α] (f g : Nat → List α) (n : Nat) (a : α)

/-- The occurrences of `a` in the first `n` tables. -/
def total : Nat := ∑ i ∈ Finset.range n, (f i).count a

variable {f g n}

theorem total_congr (h : ∀ i, i < n → g i = f i) : total g n a = total f n a :=
  Finset.sum_congr rfl fun i hi => by rw [h i (Finset.mem_range.mp hi)]

/-- A new empty table. -/
theorem total_succ_nil (h : f n = []) : total f (n + 1) a = total f n a := by
  simp [total, Finset.sum_range_succ, h]

/-- One table changes. -/
theorem total_change {i : Nat} (hi : i < n) (h : ∀ j, j ≠ i → g j = f j) :
    total g n a + (f i).count a = total f n a + (g i).count a := by
  have hmem : i ∈ Finset.range n := Finset.mem_range.mpr hi
  have hrest : ∑ j ∈ (Finset.range n).erase i, (g j).count a =
      ∑ j ∈ (Finset.range n).erase i, (f j).count a :=
    Finset.sum_congr rfl fun j hj => by rw [h j (Finset.ne_of_mem_erase hj)]
  unfold total
  rw [← Finset.add_sum_erase _ _ hmem,
    ← Finset.add_sum_erase (Finset.range n) (fun j => (f j).count a) hmem,
    hrest]
  omega

theorem count_le_total {i : Nat} (hi : i < n) : (f i).count a ≤ total f n a :=
  Finset.single_le_sum (f := fun j => (f j).count a) (fun _ _ => Nat.zero_le _)
    (Finset.mem_range.mpr hi)

/-- Two tables together. -/
theorem count_add_count_le_total {i j : Nat} (hi : i < n) (hj : j < n) (hne : i ≠ j) :
    (f i).count a + (f j).count a ≤ total f n a := by
  have hmem : j ∈ (Finset.range n).erase i :=
    Finset.mem_erase.mpr ⟨hne.symm, Finset.mem_range.mpr hj⟩
  unfold total
  rw [← Finset.add_sum_erase _ _ (Finset.mem_range.mpr hi)]
  exact Nat.add_le_add_left
    (Finset.single_le_sum (f := fun j => (f j).count a) (fun _ _ => Nat.zero_le _) hmem) _

/-- The total is the count over the tables of the owners, in any order. -/
theorem total_eq_count_flatMap {owners : List Nat} (hnodup : owners.Nodup)
    (hlt : ∀ i ∈ owners, i < n) (hrest : ∀ i, i < n → i ∉ owners → f i = []) :
    total f n a = (owners.flatMap f).count a := by
  have hsub : owners.toFinset ⊆ Finset.range n := fun i hi =>
    Finset.mem_range.mpr (hlt i (List.mem_toFinset.mp hi))
  unfold total
  rw [← Finset.sum_subset hsub fun i hi hni => by
    rw [hrest i (Finset.mem_range.mp hi) (fun hmem => hni (List.mem_toFinset.mpr hmem))]; rfl]
  rw [List.count_flatMap, List.sum_toFinset _ hnodup]
  rfl

end Tables
