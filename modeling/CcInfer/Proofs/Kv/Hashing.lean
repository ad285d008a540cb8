import CcInfer.Cache.PrefixCache
import Mathlib.Tactic.ByContra

/-!
# `CcInfer.Proofs.Kv.Hashing`: telling hash words apart

`hash_combine` is not injective in its first argument: two words may have the same image for one
token. They never have it for every token. If the lowest two bits agree, one token is enough: the
sum reads bit `i + 2` of the word at bit `i`, so equal images carry the agreement up two bits at a
time (`eq_of_hashCombine_eq`). If they do not, one of the tokens `0`, `1` and `2` moves the
carries of the two sums apart (`eq_of_hashCombine_tokens`). So any two words are told apart by
some block of any length (`exists_hashBlock_ne`).
-/

set_option autoImplicit false

namespace CcInfer.PrefixCache

variable {x y : Hash} {j : Nat}

/-- What `hash_combine` adds to the value, as a function of the word. -/
def stir (x : Hash) : Hash := 0x9e3779b97f4a7c15#64 + (x <<< 6) + (x >>> 2)

theorem hashCombine_eq (x val : Hash) : hashCombine x val = x ^^^ (val + stir x) := by
  rw [hashCombine, stir, BitVec.add_assoc, BitVec.add_assoc, BitVec.add_assoc]

theorem setWidth_shiftLeft_congr (h : x.setWidth j = y.setWidth j) (n : Nat) :
    (x <<< n).setWidth j = (y <<< n).setWidth j := by
  refine BitVec.eq_of_getLsbD_eq fun i hi => ?_
  have hbit := congrArg (BitVec.getLsbD · (i - n)) h
  simp only [BitVec.getLsbD_setWidth] at hbit
  simp only [BitVec.getLsbD_setWidth, BitVec.getLsbD_shiftLeft]
  have hlt : i - n < j := by omega
  simp only [hlt, decide_true, Bool.true_and] at hbit
  rw [hbit]

/-- Equal sums over words that agree in the lowest `j` bits: the bits from 2 to `j + 1` agree. -/
theorem setWidth_of_stir_eq (hj : j ≤ 64) (h : x.setWidth j = y.setWidth j)
    (hstir : (stir x).setWidth j = (stir y).setWidth j) {i : Nat} (hi : i < j) :
    x.getLsbD (i + 2) = y.getLsbD (i + 2) := by
  unfold stir at hstir
  rw [BitVec.setWidth_add _ _ hj, BitVec.setWidth_add _ _ hj, BitVec.setWidth_add _ _ hj,
    BitVec.setWidth_add _ _ hj, setWidth_shiftLeft_congr h 6] at hstir
  have hbit := congrArg (BitVec.getLsbD · i) (BitVec.add_right_inj _ |>.mp hstir)
  simpa [hi, Nat.add_comm] using hbit

/-- Words with the same lowest two bits and the same image are the same. -/
theorem eq_of_hashCombine_eq {val : Hash} (hlow : x.setWidth 2 = y.setWidth 2)
    (h : hashCombine x val = hashCombine y val) : x = y := by
  rw [hashCombine_eq, hashCombine_eq] at h
  -- bit by bit from below: the bits under `i` give the one at `i`
  have hbits : ∀ i, i < 64 → x.getLsbD i = y.getLsbD i := by
    intro i
    induction i using Nat.strong_induction_on with
    | _ i ih =>
      intro hi
      rcases Nat.lt_or_ge i 2 with hlt | hge
      · have hbit := congrArg (BitVec.getLsbD · i) hlow
        simpa [hlt] using hbit
      · obtain ⟨k, rfl⟩ := Nat.exists_eq_add_of_le' hge
        have hagree : x.setWidth (k + 2) = y.setWidth (k + 2) := by
          refine BitVec.eq_of_getLsbD_eq fun m hm => ?_
          simpa [hm] using ih m hm (by omega)
        have hsum : (val + stir x).setWidth (k + 2) = (val + stir y).setWidth (k + 2) := by
          have hxor := congrArg (BitVec.setWidth (k + 2)) h
          rw [BitVec.setWidth_xor, BitVec.setWidth_xor, hagree] at hxor
          exact (BitVec.xor_right_inj _).mp hxor
        rw [BitVec.setWidth_add _ _ (by omega), BitVec.setWidth_add _ _ (by omega)] at hsum
        exact setWidth_of_stir_eq (by omega) hagree (BitVec.add_right_inj _ |>.mp hsum) (by omega)
  exact BitVec.eq_of_getLsbD_eq fun i hi => hbits i hi

/-- Three bits of the argument: with different lowest two bits, the carries differ for `0`, `1` or
`2`. -/
theorem low_bits_eq : ∀ a b p q : BitVec 3, a ^^^ p = b ^^^ q → a ^^^ (1 + p) = b ^^^ (1 + q) →
    a ^^^ (2 + p) = b ^^^ (2 + q) → a.setWidth 2 = b.setWidth 2 := by
  decide +kernel

theorem setWidth_hashCombine (x val : Hash) : (hashCombine x val).setWidth 3 =
    x.setWidth 3 ^^^ (val.setWidth 3 + (stir x).setWidth 3) := by
  rw [hashCombine_eq, BitVec.setWidth_xor, BitVec.setWidth_add _ _ (by decide)]

/-- Two words with the same images for the tokens `0`, `1` and `2` are the same. -/
theorem eq_of_hashCombine_tokens
    (h : ∀ t : Token, hashCombine x (tokenWord t) = hashCombine y (tokenWord t)) : x = y := by
  have hlow : ∀ t : Token, x.setWidth 3 ^^^ ((tokenWord t).setWidth 3 + (stir x).setWidth 3) =
      y.setWidth 3 ^^^ ((tokenWord t).setWidth 3 + (stir y).setWidth 3) := fun t => by
    rw [← setWidth_hashCombine, ← setWidth_hashCombine, h t]
  have hzero := hlow 0
  rw [show (tokenWord 0).setWidth 3 = 0#3 by decide, BitVec.zero_add, BitVec.zero_add] at hzero
  have htwo := low_bits_eq _ _ _ _ hzero (hlow 1) (hlow 2)
  rw [BitVec.setWidth_setWidth_of_le _ (by decide), BitVec.setWidth_setWidth_of_le _ (by decide)]
    at htwo
  exact eq_of_hashCombine_eq htwo (h 0)

/-- Two different words are told apart by some block of any length. -/
theorem exists_hashBlock_ne (h : x ≠ y) (n : Nat) :
    ∃ tokens : List Token, tokens.length = n ∧ hashBlock x tokens ≠ hashBlock y tokens := by
  induction n generalizing x y with
  | zero => exact ⟨[], rfl, h⟩
  | succ n ih =>
    obtain ⟨t, ht⟩ := not_forall.mp (mt eq_of_hashCombine_tokens h)
    obtain ⟨tokens, hlen, hne⟩ := ih ht
    exact ⟨t :: tokens, congrArg (· + 1) hlen, hne⟩

/-! ### Words that a seed changes -/

/-- Adding 4 changes bit 2 and nothing below it. -/
theorem low_bits_four : ∀ a p : BitVec 3, (a ^^^ p).setWidth 1 = (a ^^^ (4 + p)).setWidth 1 ∧
      (a ^^^ p).getLsbD 2 ≠ (a ^^^ (4 + p)).getLsbD 2 := by
  decide +kernel

/-- A seed leaves at most one of the images of the tokens `0` and `4` as it is. -/
theorem exists_token_hashCombine_ne (g seed : Hash) :
    ∃ t : Token, hashCombine (hashCombine g (tokenWord t)) seed ≠ hashCombine g (tokenWord t) := by
  by_contra hall
  have hfix : ∀ t : Token, seed + stir (hashCombine g (tokenWord t)) = 0#64 := by
    intro t
    have h := not_not.mp (not_exists.mp hall t)
    rw [hashCombine_eq _ seed] at h
    exact (BitVec.xor_right_inj _).mp (h.trans BitVec.xor_zero.symm)
  have hstir : stir (hashCombine g (tokenWord 0)) = stir (hashCombine g (tokenWord 4)) :=
    (BitVec.add_right_inj seed).mp ((hfix 0).trans (hfix 4).symm)
  have hfour := low_bits_four (g.setWidth 3) ((stir g).setWidth 3)
  have hzeroWord := setWidth_hashCombine g (tokenWord 0)
  have hfourWord := setWidth_hashCombine g (tokenWord 4)
  rw [show (tokenWord 0).setWidth 3 = 0#3 by decide, BitVec.zero_add] at hzeroWord
  rw [show (tokenWord 4).setWidth 3 = 4 by decide] at hfourWord
  rw [← hzeroWord, ← hfourWord, BitVec.setWidth_setWidth_of_le _ (by decide),
    BitVec.setWidth_setWidth_of_le _ (by decide)] at hfour
  -- the sum reads bit 2 of the word at bit 0
  have hbit := setWidth_of_stir_eq (by decide) hfour.1
    (congrArg (BitVec.setWidth 1) hstir) (Nat.zero_lt_one)
  exact hfour.2 (by simpa using hbit)

/-- Some block of any positive length ends in a word that the seed changes. -/
theorem exists_hashBlock_hashCombine_ne (g seed : Hash) {n : Nat} (hn : 0 < n) :
    ∃ tokens : List Token, tokens.length = n ∧
      hashCombine (hashBlock g tokens) seed ≠ hashBlock g tokens := by
  obtain ⟨n, rfl⟩ := Nat.exists_eq_add_of_lt hn
  let front : List Token := List.replicate n 0
  obtain ⟨t, ht⟩ := exists_token_hashCombine_ne (hashBlock g front) seed
  refine ⟨front ++ [t], by simp [front], ?_⟩
  rw [hashBlock_append]
  exact ht

end CcInfer.PrefixCache
