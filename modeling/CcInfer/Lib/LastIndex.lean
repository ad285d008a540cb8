import Mathlib.Data.List.AList
import Mathlib.Data.List.Induction

/-!
# `CcInfer.Lib.LastIndex`: maps between the elements of a list and their indices

A list is read from its front and, for the indices with some property, each element is put
into a map under its index, or each index into a map under its element. In the second map a
later index replaces an earlier one, so that an element is found at its last index.
-/

set_option autoImplicit false

namespace LastIndex

variable {p : Nat → Prop} {i : Nat}

/-- The last index with the property `p`. -/
def LastAt (p : Nat → Prop) (i : Nat) : Prop := p i ∧ ∀ j, i < j → ¬ p j

theorem LastAt.unique {j : Nat} (hi : LastAt p i) (hj : LastAt p j) : i = j := by
  rcases Nat.lt_trichotomy i j with hlt | heq | hlt
  · exact absurd hj.1 (hi.2 j hlt)
  · exact heq
  · exact absurd hi.1 (hj.2 i hlt)

/-- A property that holds somewhere, and nowhere from `n` on, has a last index. -/
theorem exists_lastAt {n : Nat} (hi : p i) (hn : ∀ j, n ≤ j → ¬ p j) : ∃ k, LastAt p k := by
  induction n with
  | zero => exact absurd hi (hn i (Nat.zero_le i))
  | succ n ih =>
    by_cases hpn : p n
    · exact ⟨n, hpn, fun j hj => hn j hj⟩
    · refine ih fun j hj => ?_
      rcases Nat.lt_or_eq_of_le hj with hlt | rfl
      · exact hn j hlt
      · exact hpn

variable {κ : Type*} (p : Nat → Bool)

/-- From the elements to their indices. -/
def indexOf [DecidableEq κ] (xs : List κ) : AList fun _ : κ => Nat :=
  xs.zipIdx.foldl (fun m e => if p e.2 then m.insert e.1 e.2 else m) ∅

/-- From the indices to their elements. -/
def elementAt (xs : List κ) : AList fun _ : Nat => κ :=
  xs.zipIdx.foldl (fun m e => if p e.2 then m.insert e.2 e.1 else m) ∅

variable {p}

theorem indexOf_concat [DecidableEq κ] (xs : List κ) (x : κ) : indexOf p (xs ++ [x]) =
      if p xs.length then (indexOf p xs).insert x xs.length else indexOf p xs := by
  simp [indexOf, List.zipIdx_append]

theorem elementAt_concat (xs : List κ) (x : κ) : elementAt p (xs ++ [x]) =
      if p xs.length then (elementAt p xs).insert xs.length x else elementAt p xs := by
  simp [elementAt, List.zipIdx_append]

/-- An entry of a longer list is one of the shorter list, or the new one. -/
theorem getElem?_concat_eq_some {xs : List κ} {x y : κ} :
    (xs ++ [x])[i]? = some y ↔ xs[i]? = some y ∨ i = xs.length ∧ x = y := by
  rcases Nat.lt_trichotomy i xs.length with hlt | rfl | hlt
  · simp [List.getElem?_append_left hlt, Nat.ne_of_lt hlt]
  · simp
  · rw [List.getElem?_eq_none (by simp; omega), List.getElem?_eq_none (Nat.le_of_lt hlt)]
    simp [Nat.ne_of_gt hlt]

/-- The last of equal keys wins. -/
theorem lookup_indexOf [DecidableEq κ] {xs : List κ} {k : κ} :
    (indexOf p xs).lookup k = some i ↔ LastAt (fun i => xs[i]? = some k ∧ p i = true) i := by
  induction xs using List.reverseRecOn generalizing i with
  | nil => simp [indexOf, LastAt]
  | append_singleton xs x ih =>
    rw [indexOf_concat]
    by_cases hnew : p xs.length = true ∧ x = k
    · -- the new entry is the last one of its element
      obtain ⟨hp, rfl⟩ := hnew
      rw [if_pos hp, AList.lookup_insert]
      have hlast : LastAt (fun i => (xs ++ [x])[i]? = some x ∧ p i = true) xs.length := by
        refine ⟨⟨by simp, hp⟩, fun j hj h => ?_⟩
        have hout : (xs ++ [x])[j]? = none := List.getElem?_eq_none (by simp; omega)
        exact absurd (hout.symm.trans h.1) (by simp)
      constructor
      · intro heq
        obtain rfl := Option.some.inj heq
        exact hlast
      · intro h
        rw [h.unique hlast]
    · -- the entries of the element are those it had
      have hsame : (fun i => (xs ++ [x])[i]? = some k ∧ p i = true) =
          fun i => xs[i]? = some k ∧ p i = true := by
        funext j
        rw [getElem?_concat_eq_some]
        refine propext (and_congr_left fun hj => or_iff_left ?_)
        rintro ⟨rfl, hx⟩
        exact hnew ⟨hj, hx⟩
      rw [hsame, ← ih]
      split
      · rename_i hp
        rw [AList.lookup_insert_ne fun hk => hnew ⟨hp, hk.symm⟩]
      · rfl

/-- An index is mapped to its element. -/
theorem lookup_elementAt {xs : List κ} {x : κ} :
    (elementAt p xs).lookup i = some x ↔ xs[i]? = some x ∧ p i = true := by
  induction xs using List.reverseRecOn with
  | nil => simp [elementAt]
  | append_singleton xs y ih =>
    rw [elementAt_concat, getElem?_concat_eq_some]
    by_cases hi : i = xs.length
    · subst hi
      have hout : xs[xs.length]? = none := List.getElem?_eq_none (Nat.le_refl _)
      by_cases hp : p xs.length = true
      · rw [if_pos hp, AList.lookup_insert, hout]
        simp [hp]
      · rw [if_neg hp, ih]
        simp [hp]
    · have hlookup : (if p xs.length then (elementAt p xs).insert xs.length y
          else elementAt p xs).lookup i = (elementAt p xs).lookup i := by
        split
        · exact AList.lookup_insert_ne hi
        · rfl
      rw [hlookup, ih]
      simp [hi]

/-- Entries with different keys, put into a map one after the other. -/
theorem lookup_insertAll {ν : Type*} [DecidableEq κ] {l : List (Sigma fun _ : κ => ν)}
    (hnodup : l.NodupKeys) (m : AList fun _ : κ => ν) (k : κ) :
    (l.foldl (fun m e => m.insert e.1 e.2) m).lookup k = (l.dlookup k).or (m.lookup k) := by
  induction l generalizing m with
  | nil => rfl
  | cons e l ih =>
    obtain ⟨hnew, hrest⟩ := List.nodupKeys_cons.mp hnodup
    rw [List.foldl_cons, ih hrest]
    by_cases hk : k = e.1
    · subst hk
      rw [List.dlookup_eq_none.mpr hnew, AList.lookup_insert, List.dlookup_cons_eq]
      rfl
    · rw [AList.lookup_insert_ne hk, List.dlookup_cons_ne l e hk]

end LastIndex
