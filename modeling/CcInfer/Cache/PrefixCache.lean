import CcInfer.Base.Types

/-!
# `CcInfer.Cache.PrefixCache`: the chain hash of a token prefix

The embedding of `cache/prefix_cache.cpp`. A prefix of full blocks is named by one 64-bit
word: `hashCombine` folds the tokens of the blocks into it, one after the other, starting
from a parent hash. The source reads `tokens[b * block_size + t]` in two nested loops;
`chainLoop` takes the blocks off the front of the list instead, in the same order.
-/

set_option autoImplicit false

namespace CcInfer

/-- The `uint64_t` hash words. -/
abbrev Hash := BitVec 64

namespace PrefixCache

/-- `PrefixCache::hash_combine`. -/
def hashCombine (seed val : Hash) : Hash :=
  seed ^^^ (val + 0x9e3779b97f4a7c15#64 + (seed <<< 6) + (seed >>> 2))

/-- `static_cast<uint64_t>` of an `int32_t`: the sign is extended. -/
def tokenWord (t : Token) : Hash := t.signExtend 64

/-- The inner loop of `chain_hashes`: fold the tokens of one block into `h`. -/
def hashBlock (h : Hash) (tokens : List Token) : Hash :=
  tokens.foldl (fun h t => hashCombine h (tokenWord t)) h

theorem hashBlock_append (h : Hash) (tokens more : List Token) :
    hashBlock h (tokens ++ more) = hashBlock (hashBlock h tokens) more :=
  List.foldl_append ..

/-- The outer loop of `chain_hashes` over `n` full blocks. -/
def chainLoop (blockSize : Nat) : Nat → Hash → List Token → List Hash
  | 0, _, _ => []
  | n + 1, h, tokens =>
    let h := hashBlock h (tokens.take blockSize)
    h :: chainLoop blockSize n h (tokens.drop blockSize)

@[simp] theorem chainLoop_length (blockSize n : Nat) (h : Hash) (tokens : List Token) :
    (chainLoop blockSize n h tokens).length = n := by
  induction n generalizing h tokens with
  | zero => rfl
  | succ n ih => simp [chainLoop, ih]

/-- `PrefixCache::chain_hashes` with a parent hash and a seed; a zero seed is not mixed
in. -/
def chainHashesFrom (tokens : List Token) (tokenCount blockSize : Nat) (parentHash seed : Hash) :
    List Hash :=
  let h := if seed ≠ 0 then hashCombine parentHash seed else parentHash
  chainLoop blockSize (tokenCount / blockSize) h tokens

/-- `PrefixCache::chain_hashes` over a whole token vector. -/
def chainHashes (tokens : List Token) (blockSize : Nat) (salt : Hash) : List Hash :=
  chainHashesFrom tokens tokens.length blockSize 0 salt

/-- Entry `i` of the outer loop has taken in the first `i + 1` blocks. -/
theorem chainLoop_getElem? (blockSize : Nat) (n : Nat) :
    ∀ (h : Hash) (tokens : List Token) (i : Nat),
    (chainLoop blockSize n h tokens)[i]? =
      if i < n then some (hashBlock h (tokens.take ((i + 1) * blockSize))) else none := by
  induction n with
  | zero => intro h tokens i; simp [chainLoop]
  | succ n ih =>
    intro h tokens i
    cases i with
    | zero => simp [chainLoop]
    | succ i =>
      simp only [chainLoop, List.getElem?_cons_succ, ih, Nat.add_lt_add_iff_right]
      rw [← hashBlock_append, ← List.take_add, Nat.add_mul (i + 1) 1, Nat.one_mul,
        Nat.add_comm blockSize]

/-- Entry `i` of the chain hashes is the hash of the first `i + 1` blocks. -/
theorem chainHashes_getElem? (tokens : List Token) (blockSize i : Nat) :
    (chainHashes tokens blockSize 0)[i]? = if i < tokens.length / blockSize then
        some (hashBlock 0 (tokens.take ((i + 1) * blockSize))) else none := by
  simp [chainHashes, chainHashesFrom, chainLoop_getElem?]

@[simp] theorem chainHashes_length (tokens : List Token) (blockSize : Nat) (salt : Hash) :
    (chainHashes tokens blockSize salt).length = tokens.length / blockSize := by
  simp [chainHashes, chainHashesFrom]

/-- The chain hashes of a longer text begin with those of a shorter one. -/
theorem chainHashes_isPrefix {tokens longer : List Token} (h : tokens <+: longer)
    (blockSize : Nat) : chainHashes tokens blockSize 0 <+: chainHashes longer blockSize 0 := by
  refine List.prefix_iff_getElem?.mpr fun i hi => ?_
  have hi' : i < tokens.length / blockSize := by simpa using hi
  have hlonger := Nat.div_le_div_right (c := blockSize) h.length_le
  have hfits : (i + 1) * blockSize ≤ tokens.length :=
    (Nat.mul_le_mul_right _ hi').trans (Nat.div_mul_le_self ..)
  obtain ⟨_, rfl⟩ := h
  rw [← List.getElem?_eq_getElem hi, chainHashes_getElem?, chainHashes_getElem?, if_pos hi',
    if_pos (hi'.trans_le hlonger), List.take_append_of_le_length hfits]

/-- The last of the first chain hashes has taken in all their blocks. -/
theorem getLast_of_isPrefix {tokens : List Token} {blockSize : Nat} {hashes : List Hash}
    (h : hashes <+: chainHashes tokens blockSize 0) :
    hashes.getLast?.getD 0 = hashBlock 0 (tokens.take (hashes.length * blockSize)) := by
  rcases Nat.eq_zero_or_pos hashes.length with hzero | hpos
  · simp [List.length_eq_zero_iff.mp hzero, hashBlock]
  · have hlast := List.prefix_iff_getElem?.mp h (hashes.length - 1) (by omega)
    have hle := h.length_le
    rw [chainHashes_length] at hle
    rw [chainHashes_getElem?, if_pos (by omega), Nat.sub_add_cancel hpos] at hlast
    rw [List.getLast?_eq_getElem?, List.getElem?_eq_getElem (by omega), ← hlast, Option.getD_some]

end PrefixCache

end CcInfer
