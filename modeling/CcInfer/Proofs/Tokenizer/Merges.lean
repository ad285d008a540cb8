import CcInfer.Tokenizer.ByteLevelBpe

/-!
# `CcInfer.Proofs.Tokenizer.Merges`: `apply_bpe` brings symbols into a normal form

The library `PairMerge` says what the loop of `apply_bpe` does for a table in which no two pairs
have one rank. Here it is used for `merge_rank_`.
-/

set_option autoImplicit false

namespace CcInfer

open PairMerge

namespace ByteLevelBpeTokenizer

variable {pairs : List (Bytes × Bytes)} {pair : Bytes × Bytes} {r : Nat}

/-- What `apply_bpe` is for: the loop ends by its own test after finitely many rounds; the text is
kept; no pair of the table is left; every round joins the leftmost occurrences of the pair of
least rank; and a result stays what it is. -/
structure Normalizes (t : ByteLevelBpeTokenizer) (symbols : List Bytes) : Prop where
  ends : bestRank t.pairRank none (t.applyBpe symbols) = none ∧
    ∀ fuel, symbols.length ≤ fuel → mergeLoop t.pairRank fuel symbols = t.applyBpe symbols
  keepsText : (t.applyBpe symbols).flatten = symbols.flatten
  normal : ∀ a b, Adjacent a b (t.applyBpe symbols) → t.mergeRank.lookup (a, b) = none
  round : ∀ pieces best, bestRank t.pairRank none pieces = some best →
    IsRound (fun a b => t.mergeRank.lookup (a, b)) pieces (mergePass t.pairRank best pieces)
  rounds : Relation.ReflTransGen (IsRound fun a b => t.mergeRank.lookup (a, b)) symbols
    (t.applyBpe symbols)
  idempotent : t.applyBpe (t.applyBpe symbols) = t.applyBpe symbols

/-- For ranks below the sentinel, the loop sees the table as it is. -/
theorem pairRank_eq_lookup {t : ByteLevelBpeTokenizer}
    (hbelow : ∀ pair r, t.mergeRank.lookup pair = some r → r < noRank) :
    t.pairRank = fun a b => t.mergeRank.lookup (a, b) := by
  funext a b
  rw [pairRank]
  cases hlookup : t.mergeRank.lookup (a, b) with
  | none => rfl
  | some r => exact Option.filter_some_pos (by simpa using hbelow _ r hlookup)

/-- For every table with distinct ranks below the greatest `int32_t`, and all symbols. -/
theorem applyBpe_normalizes (t : ByteLevelBpeTokenizer)
    (hdistinct : ∀ pair pair' r, t.mergeRank.lookup pair = some r →
      t.mergeRank.lookup pair' = some r → pair = pair')
    (hbelow : ∀ pair r, t.mergeRank.lookup pair = some r → r < 2147483647)
    (symbols : List Bytes) : t.Normalizes symbols := by
  have hrank := pairRank_eq_lookup hbelow
  have hpairs : ∀ a b a' b' r, t.pairRank a b = some r → t.pairRank a' b' = some r →
      a = a' ∧ b = b' := by
    rw [hrank]
    intro a b a' b' r h h'
    exact Prod.mk.inj (hdistinct _ _ r h h')
  refine ⟨⟨bestRank_mergeAll _ _, fun fuel hfuel => mergeLoop_eq_mergeAll _ hfuel⟩,
    flatten_mergeAll _ _, ?_, ?_, ?_, mergeAll_mergeAll _ _⟩
  · intro a b hadj
    have hnone := bestRank_eq_none _ (bestRank_mergeAll t.pairRank symbols) hadj
    rwa [hrank] at hnone
  · intro pieces best hbest
    have hround := isRound_mergePass hpairs hbest
    rw [hrank] at hround ⊢
    exact hround
  · have hrounds := mergeLoop_rounds hpairs symbols.length symbols
    rw [hrank] at hrounds
    rw [applyBpe, hrank]
    exact hrounds

/-! ### The tables of the loaders -/

theorem rankMerges_injective {pair' : Bytes × Bytes}
    (h : (rankMerges pairs).lookup pair = some r) (h' : (rankMerges pairs).lookup pair' = some r) :
    pair = pair' := by
  have hat := (LastIndex.lookup_indexOf.mp h).1.1
  have hat' := (LastIndex.lookup_indexOf.mp h').1.1
  exact Option.some.inj (hat.symm.trans hat')

theorem rankMerges_lt (h : (rankMerges pairs).lookup pair = some r) : r < pairs.length :=
  (List.getElem?_eq_some_iff.mp (LastIndex.lookup_indexOf.mp h).1.1).1

/-- A tokenizer with the merges `a b` and `ab c`. -/
def twoMerges : ByteLevelBpeTokenizer := ofLists [] [bytes "a b", bytes "ab c"] [] (-1) (-1)

theorem twoMerges_normalizes :
    twoMerges.applyBpe [bytes "a", bytes "b", bytes "c", bytes "a"] = [bytes "abc", bytes "a"] ∧
      twoMerges.Normalizes [bytes "a", bytes "b", bytes "c", bytes "a"] := by
  have htable : twoMerges.mergeRank =
      rankMerges ([bytes "a b", bytes "ab c"].filterMap mergePair) := rfl
  refine ⟨by decide +kernel, applyBpe_normalizes twoMerges ?_ ?_ _⟩
  · intro pair pair' r h h'
    rw [htable] at h h'
    exact rankMerges_injective h h'
  · intro pair r h
    rw [htable] at h
    have hlt := rankMerges_lt h
    have hlen : ([bytes "a b", bytes "ab c"].filterMap mergePair).length = 2 := by decide +kernel
    omega

/-- A table with one pair, of the rank that the search starts from. -/
def reservedRank : ByteLevelBpeTokenizer :=
  { mergeRank := (∅ : AList fun _ : Bytes × Bytes => Nat).insert (bytes "a", bytes "b") 2147483647 }

theorem eq_of_lookup_reservedRank
    (h : reservedRank.mergeRank.lookup pair = some r) : pair = (bytes "a", bytes "b") := by
  by_contra hne
  rw [reservedRank, AList.lookup_insert_ne hne, AList.lookup_empty] at h
  cases h

/-- The ranks are distinct, and the pair is left although it is in the table. -/
theorem reservedRank_left : (∀ pair pair' r, reservedRank.mergeRank.lookup pair = some r →
      reservedRank.mergeRank.lookup pair' = some r → pair = pair') ∧
    reservedRank.mergeRank.lookup (bytes "a", bytes "b") = some 2147483647 ∧
    reservedRank.applyBpe [bytes "a", bytes "b"] = [bytes "a", bytes "b"] ∧
    ¬reservedRank.Normalizes [bytes "a", bytes "b"] := by
  have hlookup : reservedRank.mergeRank.lookup (bytes "a", bytes "b") = some 2147483647 := by
    decide +kernel
  have hresult : reservedRank.applyBpe [bytes "a", bytes "b"] = [bytes "a", bytes "b"] := by
    decide +kernel
  refine ⟨?_, hlookup, hresult, fun h => ?_⟩
  · intro pair pair' r h h'
    rw [eq_of_lookup_reservedRank h, eq_of_lookup_reservedRank h']
  · have hadj : Adjacent (bytes "a") (bytes "b")
        (reservedRank.applyBpe [bytes "a", bytes "b"]) := by
      rw [hresult]
      exact List.infix_refl _
    have hnone := h.normal _ _ hadj
    rw [hlookup] at hnone
    cases hnone

end ByteLevelBpeTokenizer

end CcInfer
