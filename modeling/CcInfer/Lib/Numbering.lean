import Mathlib.Data.Nat.Nth
import Mathlib.Order.Interval.Set.Basic

/-!
# `CcInfer.Lib.Numbering`: numbering the indices that have a property

Let the indices with property `p` be numbered from `0` on in increasing order. The number of such an
index is `Nat.count p` of it, the count of those before it. On the indices below `n` this is a
strictly increasing bijection (`strictMonoOn_count`, `bijOn_count`).
-/

set_option autoImplicit false

namespace Numbering

variable {p : ℕ → Prop} [DecidablePred p]

theorem strictMonoOn_count (n : ℕ) : StrictMonoOn (Nat.count p) {i | i < n ∧ p i} :=
  fun _ hi _ _ hlt => Nat.count_strict_mono hi.2 hlt

theorem bijOn_count (n : ℕ) :
    Set.BijOn (Nat.count p) {i | i < n ∧ p i} (Set.Iio (Nat.count p n)) := by
  refine ⟨?_, (strictMonoOn_count n).injOn, ?_⟩
  · intro i hi
    exact Nat.count_strict_mono hi.2 hi.1
  · intro k hk
    have hcard : ∀ hf : (Set.ofPred p).Finite, k < hf.toFinset.card := fun hf =>
      lt_of_lt_of_le hk (Nat.count_le_card hf n)
    exact ⟨Nat.nth p k, ⟨Nat.nth_lt_of_lt_count hk, Nat.nth_mem k hcard⟩, Nat.count_nth hcard⟩

/-- Two properties that split the indices below `n` count them all. -/
theorem count_add_count {q : ℕ → Prop} [DecidablePred q] {n : ℕ} (h : ∀ i < n, q i ↔ ¬p i) :
    Nat.count p n + Nat.count q n = n := by
  induction n with
  | zero => rw [Nat.count_zero, Nat.count_zero]
  | succ n ih =>
    have hsum := ih fun i hi => h i (by omega)
    by_cases hp : p n
    · have hq : ¬q n := fun hq => (h n (by omega)).mp hq hp
      rw [Nat.count_succ_eq_succ_count hp, Nat.count_succ_eq_count hq]
      omega
    · have hq : q n := (h n (by omega)).mpr hp
      rw [Nat.count_succ_eq_count hp, Nat.count_succ_eq_succ_count hq]
      omega

/-- Counting a value in the front of a list is counting the indices that hold it. -/
theorem count_take {α : Type*} [DecidableEq α] (xs : List α) (a : α) (n : ℕ) :
    (xs.take n).count a = Nat.count (fun i => xs[i]? = some a) n := by
  induction n with
  | zero => rfl
  | succ n ih =>
    rw [List.take_add_one, List.count_append, ih, Nat.count_succ]
    congr 1
    cases xs[n]? with
    | none => rfl
    | some => simp [List.count_singleton]

section Collected

variable {α ε : Type*} {load : ℕ → Except ε α} {n : ℕ} {xs : List α} {x : α}

/-- `xs` has the results of `load` for the indices below `n` with the property, in order. -/
structure Collected (p : ℕ → Prop) [DecidablePred p] (load : ℕ → Except ε α) (n : ℕ)
    (xs : List α) : Prop where
  length : xs.length = Nat.count p n
  get : ∀ i, i < n → p i → ∃ x, xs[Nat.count p i]? = some x ∧ load i = .ok x

theorem Collected.nil : Collected p load 0 [] where
  length := (Nat.count_zero p).symm
  get i hi := absurd hi (Nat.not_lt_zero i)

theorem Collected.skip (h : Collected p load n xs) (hn : ¬p n) : Collected p load (n + 1) xs where
  length := h.length.trans (Nat.count_succ_eq_count hn).symm
  get i hi hp := by
    have hne : i ≠ n := fun heq => hn (heq ▸ hp)
    exact h.get i (by omega) hp

theorem Collected.push (h : Collected p load n xs) (hn : p n) (hx : load n = .ok x) :
    Collected p load (n + 1) (xs ++ [x]) where
  length := by rw [List.length_append, h.length, Nat.count_succ_eq_succ_count hn]; rfl
  get i hi hp := by
    rcases Nat.lt_succ_iff_lt_or_eq.mp hi with hlt | rfl
    · obtain ⟨y, hy, hload⟩ := h.get i hlt hp
      exact ⟨y, List.getElem?_append_left (List.getElem?_eq_some_iff.mp hy).1 ▸ hy, hload⟩
    · refine ⟨x, ?_, hx⟩
      rw [← h.length, List.getElem?_concat_length]

end Collected

end Numbering
