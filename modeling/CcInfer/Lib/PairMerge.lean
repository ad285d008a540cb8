import Mathlib.Data.List.Infix
import Mathlib.Logic.Relation
import Mathlib.Tactic.Common

/-!
# `CcInfer.Lib.PairMerge`: merging adjacent pieces of a list by rank

A text is held as a list of pieces, and a table gives some pairs of pieces a rank. One pass
finds the least rank of an adjacent pair and joins, from left to right, every pair of that
rank; passes are repeated until no adjacent pair has a rank.
-/

set_option autoImplicit false

namespace PairMerge

variable {α : Type*} (rank : List α → List α → Option Nat)
variable {best : Option Nat} {r fuel : Nat}

/-- The least rank of an adjacent pair, or `best` if that is less. -/
def bestRank (best : Option Nat) : List (List α) → Option Nat
  | a :: b :: rest =>
    let best :=
      match rank a b, best with
      | some r, some r' => if r < r' then some r else some r'
      | some r, none => some r
      | none, best => best
    bestRank best (b :: rest)
  | _ => best

/-- Joins every adjacent pair of rank `best`, from left to right. -/
def mergePass (best : Nat) : List (List α) → List (List α)
  | a :: b :: rest =>
    if rank a b = some best then (a ++ b) :: mergePass best rest
    else a :: mergePass best (b :: rest)
  | short => short

/-- Repeats the pass while some adjacent pair has a rank. -/
def mergeLoop : Nat → List (List α) → List (List α)
  | 0, pieces => pieces
  | fuel + 1, pieces =>
    match bestRank rank none pieces with
    | none => pieces
    | some best => mergeLoop fuel (mergePass rank best pieces)

/-- Every pass makes the list shorter, so that its length bounds their number. -/
def mergeAll (pieces : List (List α)) : List (List α) := mergeLoop rank pieces.length pieces

/-! ### The text is kept -/

theorem flatten_mergePass (best : Nat) (pieces : List (List α)) :
    (mergePass rank best pieces).flatten = pieces.flatten := by
  fun_induction mergePass rank best pieces with
  | case1 _ _ _ _ ih => simp [ih]
  | case2 _ _ _ _ ih => simp [ih]
  | case3 => rfl

theorem flatten_mergeLoop (fuel : Nat) (pieces : List (List α)) :
    (mergeLoop rank fuel pieces).flatten = pieces.flatten := by
  fun_induction mergeLoop rank fuel pieces with
  | case1 => rfl
  | case2 => rfl
  | case3 _ _ _ _ ih => rw [ih, flatten_mergePass]

theorem flatten_mergeAll (pieces : List (List α)) :
    (mergeAll rank pieces).flatten = pieces.flatten :=
  flatten_mergeLoop rank _ pieces

/-! ### The fuel is enough -/

theorem length_mergePass_le (best : Nat) (pieces : List (List α)) :
    (mergePass rank best pieces).length ≤ pieces.length := by
  fun_induction mergePass rank best pieces with
  | case1 => simp only [List.length_cons]; omega
  | case2 _ _ _ _ ih => simp only [List.length_cons] at ih ⊢; omega
  | case3 => exact Nat.le_refl _

/-- The rank found is the one it starts from, or that of a pair which the pass joins. -/
theorem bestRank_cases {pieces : List (List α)} (h : bestRank rank best pieces = some r) :
    best = some r ∨ (mergePass rank r pieces).length < pieces.length := by
  fun_induction bestRank rank best pieces with
  | case1 best a b rest next ih =>
    rw [mergePass]
    by_cases hr : rank a b = some r
    · have := length_mergePass_le rank r rest
      rw [if_pos hr]
      simp only [List.length_cons]
      omega
    · rw [if_neg hr]
      rcases ih h with hnext | hlt
      · -- the pair in front does not have the rank, so that it was there before
        refine .inl ?_
        revert hnext
        simp only [next]
        split
        · rename_i hrank
          split
          · intro heq
            exact absurd (hrank.trans heq) hr
          · exact id
        · rename_i hrank
          intro heq
          exact absurd (hrank.trans heq) hr
        · exact id
      · simp only [List.length_cons] at hlt ⊢
        omega
  | case2 => exact .inl h

theorem length_mergePass_lt {pieces : List (List α)} (h : bestRank rank none pieces = some r) :
    (mergePass rank r pieces).length < pieces.length :=
  (bestRank_cases rank h).resolve_left (by simp)

theorem bestRank_mergeLoop (fuel : Nat) (pieces : List (List α)) (hfuel : pieces.length ≤ fuel) :
    bestRank rank none (mergeLoop rank fuel pieces) = none := by
  fun_induction mergeLoop rank fuel pieces with
  | case1 =>
    rw [List.length_eq_zero_iff.mp (Nat.le_zero.mp hfuel)]
    rfl
  | case2 _ _ hnone => exact hnone
  | case3 _ _ _ hbest ih =>
    have := length_mergePass_lt rank hbest
    exact ih (by omega)

/-- At the end no adjacent pair has a rank. -/
theorem bestRank_mergeAll (pieces : List (List α)) :
    bestRank rank none (mergeAll rank pieces) = none :=
  bestRank_mergeLoop rank _ pieces (Nat.le_refl _)

/-! ### What a pass does -/

/-- The pieces `a` and `b` stand next to each other. -/
def Adjacent (a b : List α) (pieces : List (List α)) : Prop := [a, b] <:+: pieces

theorem adjacent_cons_cons {a b x y : List α} {rest : List (List α)} :
    Adjacent a b (x :: y :: rest) ↔ (a = x ∧ b = y) ∨ Adjacent a b (y :: rest) := by
  unfold Adjacent
  rw [List.infix_cons_iff, List.cons_prefix_cons, List.cons_prefix_cons]
  simp

theorem not_adjacent_singleton {a b x : List α} : ¬Adjacent a b [x] := fun h => by
  simpa using h.length_le

theorem not_adjacent_nil {a b : List α} : ¬Adjacent a b [] := fun h => by
  simpa using h.length_le

/-- From left to right, each occurrence of the pair `a`, `b` that does not overlap the one before
is replaced by the joined piece. -/
inductive JoinsLeftmost (a b : List α) : List (List α) → List (List α) → Prop
  | done {pieces : List (List α)} : ¬Adjacent a b pieces → JoinsLeftmost a b pieces pieces
  | join {before rest rest' : List (List α)} : ¬Adjacent a b (before ++ [a]) →
      JoinsLeftmost a b rest rest' →
      JoinsLeftmost a b (before ++ a :: b :: rest) (before ++ (a ++ b) :: rest')

/-- One round: the pair of least rank among the adjacent ones is joined, and every other adjacent
pair with a rank has a greater one. -/
def IsRound (pieces pieces' : List (List α)) : Prop :=
  ∃ a b r, Adjacent a b pieces ∧ rank a b = some r ∧
    (∀ a' b' r', Adjacent a' b' pieces → rank a' b' = some r' → (a', b') ≠ (a, b) → r < r') ∧
    JoinsLeftmost a b pieces pieces'

/-- The rank found is that of an adjacent pair, or the one it starts from. -/
theorem exists_of_bestRank {pieces : List (List α)} (h : bestRank rank best pieces = some r) :
    best = some r ∨ ∃ a b, Adjacent a b pieces ∧ rank a b = some r := by
  fun_induction bestRank rank best pieces with
  | case1 best a b rest next ih =>
    rcases ih h with hnext | ⟨x, y, hadj, hrank⟩
    · have hfrom : best = some r ∨ rank a b = some r := by
        revert hnext
        simp only [next]
        cases hab : rank a b with
        | none => exact .inl
        | some =>
          cases best with
          | none => exact .inr
          | some =>
            dsimp only
            split
            · exact .inr
            · exact .inl
      exact hfrom.imp_right fun hab => ⟨a, b, adjacent_cons_cons.mpr (.inl ⟨rfl, rfl⟩), hab⟩
    · exact .inr ⟨x, y, adjacent_cons_cons.mpr (.inr hadj), hrank⟩
  | case2 => exact .inl h

/-- No rank is less than the one found, neither the one it starts from nor one of an adjacent
pair. -/
theorem bestRank_le (best : Option Nat) (pieces : List (List α)) :
    ∀ s, (best = some s ∨ ∃ a b, Adjacent a b pieces ∧ rank a b = some s) →
      ∃ r ≤ s, bestRank rank best pieces = some r := by
  fun_induction bestRank rank best pieces with
  | case1 best x y rest next ih =>
    intro s h
    -- a rank of at most `s` is carried on, or a pair of rank `s` is still to come
    have hcarry : (best = some s ∨ rank x y = some s) → ∃ s' ≤ s, next = some s' := by
      simp only [next]
      cases hxy : rank x y with
      | none => exact fun h => ⟨s, le_refl s, h.resolve_right (by simp)⟩
      | some u =>
        cases best with
        | none => exact fun h => ⟨s, le_refl s, h.resolve_left (by simp)⟩
        | some v =>
          intro h
          simp only [Option.some.injEq] at h
          dsimp only
          split
          · exact ⟨u, by omega, rfl⟩
          · exact ⟨v, by omega, rfl⟩
    have hnext : (best = some s ∨ rank x y = some s) → ∃ r ≤ s, bestRank rank next (y :: rest) =
        some r := by
      intro h
      obtain ⟨_, hle, hs'⟩ := hcarry h
      obtain ⟨r, hr, heq⟩ := ih _ (.inl hs')
      exact ⟨r, hr.trans hle, heq⟩
    rcases h with hbest | ⟨a, b, hadj, hrank⟩
    · exact hnext (.inl hbest)
    · rcases adjacent_cons_cons.mp hadj with ⟨rfl, rfl⟩ | hadj
      · exact hnext (.inr hrank)
      · exact ih _ (.inr ⟨a, b, hadj, hrank⟩)
  | case2 pieces _ hshort =>
    intro s h
    rcases h with hbest | ⟨_, _, hadj, -⟩
    · exact ⟨s, le_refl s, hbest⟩
    · match pieces, hshort with
      | [], _ => exact absurd hadj not_adjacent_nil
      | [_], _ => exact absurd hadj not_adjacent_singleton
      | x :: y :: rest, hshort => exact absurd rfl (hshort x y rest)

theorem bestRank_eq_none {pieces : List (List α)} (h : bestRank rank none pieces = none)
    {a b : List α} (hadj : Adjacent a b pieces) : rank a b = none := by
  cases hrank : rank a b with
  | none => rfl
  | some =>
    obtain ⟨_, -, hr⟩ := bestRank_le rank none pieces _ (.inr ⟨a, b, hadj, hrank⟩)
    rw [h] at hr
    cases hr

/-- A piece in front that starts no join. -/
theorem JoinsLeftmost.cons {a b x y : List α} {rest pieces' : List (List α)}
    (hne : ¬(a = x ∧ b = y)) (h : JoinsLeftmost a b (y :: rest) pieces') :
    JoinsLeftmost a b (x :: y :: rest) (x :: pieces') := by
  generalize hpieces : y :: rest = pieces at h
  cases h with
  | done hnone =>
    refine .done fun hadj => ?_
    subst hpieces
    exact hnone ((adjacent_cons_cons.mp hadj).resolve_left hne)
  | @join before _ _ hnone htail =>
    have hbefore : ¬Adjacent a b (x :: before ++ [a]) := by
      intro hadj
      -- the piece behind `x` is `y`, whether or not something stands before the pair
      cases before with
      | nil =>
        obtain ⟨rfl, -⟩ := List.cons.inj hpieces
        exact (adjacent_cons_cons.mp hadj).elim hne not_adjacent_singleton
      | cons =>
        obtain ⟨rfl, -⟩ := List.cons.inj hpieces
        exact (adjacent_cons_cons.mp hadj).elim hne hnone
    exact .join hbefore htail

/-- If only the pair `a`, `b` has rank `best`, a pass joins its leftmost occurrences. -/
theorem joinsLeftmost_mergePass {best : Nat} {a b : List α}
    (hpair : ∀ x y, rank x y = some best ↔ x = a ∧ y = b) (pieces : List (List α)) :
    JoinsLeftmost a b pieces (mergePass rank best pieces) := by
  fun_induction mergePass rank best pieces with
  | case1 x y rest hrank ih =>
    obtain ⟨rfl, rfl⟩ := (hpair x y).mp hrank
    have hjoin : JoinsLeftmost x y ([] ++ x :: y :: rest)
        ([] ++ (x ++ y) :: mergePass rank best rest) := .join not_adjacent_singleton ih
    exact hjoin
  | case2 x y _ hrank ih =>
    refine ih.cons fun heq => hrank ((hpair x y).mpr ⟨heq.1.symm, heq.2.symm⟩)
  | case3 pieces hshort =>
    refine .done fun hadj => ?_
    match pieces, hshort with
    | [], _ => exact not_adjacent_nil hadj
    | [_], _ => exact not_adjacent_singleton hadj
    | x :: y :: rest, hshort => exact hshort x y rest rfl

section Distinct

variable {rank} (hdistinct : ∀ a b a' b' r, rank a b = some r → rank a' b' = some r →
  a = a' ∧ b = b')
include hdistinct

/-- A search that finds a rank and the pass with that rank are a round. -/
theorem isRound_mergePass {pieces : List (List α)} {best : Nat}
    (h : bestRank rank none pieces = some best) :
    IsRound rank pieces (mergePass rank best pieces) := by
  obtain ⟨a, b, hadj, hrank⟩ := (exists_of_bestRank rank h).resolve_left (by simp)
  refine ⟨a, b, best, hadj, hrank, ?_, joinsLeftmost_mergePass rank ?_ pieces⟩
  · intro a' b' r' hadj' hrank' hne
    obtain ⟨_, hr, heq⟩ := bestRank_le rank none pieces _ (.inr ⟨a', b', hadj', hrank'⟩)
    rw [h, Option.some.injEq] at heq
    subst heq
    refine lt_of_le_of_ne hr fun heq => hne ?_
    subst heq
    obtain ⟨rfl, rfl⟩ := hdistinct _ _ _ _ _ hrank' hrank
    rfl
  · intro x y
    constructor
    · exact fun hxy => hdistinct _ _ _ _ _ hxy hrank
    · rintro ⟨rfl, rfl⟩
      exact hrank

theorem mergeLoop_rounds (fuel : Nat) (pieces : List (List α)) :
    Relation.ReflTransGen (IsRound rank) pieces (mergeLoop rank fuel pieces) := by
  fun_induction mergeLoop rank fuel pieces with
  | case1 => exact .refl
  | case2 => exact .refl
  | case3 _ _ _ hbest ih => exact .head (isRound_mergePass hdistinct hbest) ih

end Distinct

/-! ### The result does not change any more -/

theorem mergeLoop_of_bestRank {pieces : List (List α)} (h : bestRank rank none pieces = none)
    (fuel : Nat) : mergeLoop rank fuel pieces = pieces := by
  cases fuel with
  | zero => rfl
  | succ => rw [mergeLoop, h]

theorem mergeAll_mergeAll (pieces : List (List α)) :
    mergeAll rank (mergeAll rank pieces) = mergeAll rank pieces :=
  mergeLoop_of_bestRank rank (bestRank_mergeAll rank pieces) _

/-- More rounds than pieces change nothing. -/
theorem mergeLoop_eq_mergeLoop {fuel' : Nat} {pieces : List (List α)}
    (hfuel : pieces.length ≤ fuel) (hle : fuel ≤ fuel') :
    mergeLoop rank fuel' pieces = mergeLoop rank fuel pieces := by
  induction fuel generalizing fuel' pieces with
  | zero =>
    obtain rfl := List.length_eq_zero_iff.mp (Nat.le_zero.mp hfuel)
    exact mergeLoop_of_bestRank rank rfl fuel'
  | succ _ ih =>
    obtain ⟨fuel', rfl⟩ : ∃ k, fuel' = k + 1 := ⟨fuel' - 1, by omega⟩
    rw [mergeLoop, mergeLoop]
    cases hbest : bestRank rank none pieces with
    | none => rfl
    | some =>
      have hlt := length_mergePass_lt rank hbest
      exact ih (by omega) (by omega)

theorem mergeLoop_eq_mergeAll {pieces : List (List α)}
    (hfuel : pieces.length ≤ fuel) : mergeLoop rank fuel pieces = mergeAll rank pieces :=
  mergeLoop_eq_mergeLoop rank (Nat.le_refl _) hfuel

end PairMerge
