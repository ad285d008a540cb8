import CcInfer.Tokenizer.ByteLevelBpe

/-!
# `CcInfer.Proofs.Tokenizer.Tables`: the tables of a tokenizer loaded from lists

What `load_from_vocab_and_merges` leaves in each table, as a function of the lists it is given:
a token is found at the last index of its string, a special token at the last index of its
string with a special type, and the unknown token is the first entry of type 2.
-/

set_option autoImplicit false

namespace CcInfer.ByteLevelBpeTokenizer

open LastIndex (indexOf elementAt)

/-- The entry has a type that makes it special. -/
def specialAt (tokenTypes : List Int) (i : Nat) : Bool := tokenTypes[i]?.any fun type => 3 ≤ type

/-- The entry has the type of the unknown token. -/
def unknownAt (tokenTypes : List Int) (i : Nat) : Bool := tokenTypes[i]? == some 2

/-- The strings of the special entries. -/
def specialTokens (tokens : List Bytes) (tokenTypes : List Int) : List Bytes :=
  (tokens.zipIdx.filter fun e => specialAt tokenTypes e.2).map Prod.fst

/-! ### One entry -/

section Step

variable (tokenTypes : List Int) (t : ByteLevelBpeTokenizer) (e : Bytes × Nat)

theorem vocab_addTyped : (addTyped tokenTypes t e).vocab = t.vocab.insert e.1 e.2 := by
  simp only [addTyped]
  repeat' split
  all_goals rfl

theorem idToToken_addTyped : (addTyped tokenTypes t e).idToToken = t.idToToken.insert e.2 e.1 := by
  simp only [addTyped]
  repeat' split
  all_goals rfl

theorem specialTokenToId_addTyped : (addTyped tokenTypes t e).specialTokenToId =
      if specialAt tokenTypes e.2 then t.specialTokenToId.insert e.1 e.2
      else t.specialTokenToId := by
  cases htype : tokenTypes[e.2]? with
  | none => simp [addTyped, specialAt, htype, addToken]
  | some =>
    simp only [addTyped, specialAt, htype, Option.any_some, decide_eq_true_eq]
    split
    · rfl
    · split <;> rfl

theorem idToSpecialToken_addTyped : (addTyped tokenTypes t e).idToSpecialToken =
      if specialAt tokenTypes e.2 then t.idToSpecialToken.insert e.2 e.1
      else t.idToSpecialToken := by
  cases htype : tokenTypes[e.2]? with
  | none => simp [addTyped, specialAt, htype, addToken]
  | some =>
    simp only [addTyped, specialAt, htype, Option.any_some, decide_eq_true_eq]
    split
    · rfl
    · split <;> rfl

/-- The first unknown token is kept. -/
theorem unkTokenId_addTyped : (addTyped tokenTypes t e).unkTokenId =
      t.unkTokenId.or (if unknownAt tokenTypes e.2 then some e.2 else none) := by
  cases htype : tokenTypes[e.2]? with
  | none => simp [addTyped, unknownAt, htype, addToken]
  | some type =>
    simp only [addTyped, unknownAt, htype, beq_iff_eq, Option.some.injEq]
    split
    · rename_i hspecial
      have hne : type ≠ 2 := by omega
      rw [if_neg hne, Option.or_none]
      rfl
    · cases hunk : t.unkTokenId <;> by_cases htype : type = 2 <;>
        simp [addToken, hunk, htype]

end Step

/-! ### The whole lists -/

section Lists

variable (tokens merges : List Bytes) (tokenTypes : List Int) (eos pad : Int)

theorem vocab_ofLists :
    (ofLists tokens merges tokenTypes eos pad).vocab = indexOf (fun _ => true) tokens := by
  refine (List.foldl_hom ByteLevelBpeTokenizer.vocab fun t e => ?_).symm
  rw [vocab_addTyped]
  rfl

theorem idToToken_ofLists :
    (ofLists tokens merges tokenTypes eos pad).idToToken = elementAt (fun _ => true) tokens := by
  refine (List.foldl_hom ByteLevelBpeTokenizer.idToToken fun t e => ?_).symm
  rw [idToToken_addTyped]
  rfl

theorem specialTokenToId_ofLists : (ofLists tokens merges tokenTypes eos pad).specialTokenToId =
      indexOf (specialAt tokenTypes) tokens :=
  (List.foldl_hom ByteLevelBpeTokenizer.specialTokenToId fun t e =>
    (specialTokenToId_addTyped tokenTypes t e).symm).symm

theorem idToSpecialToken_ofLists : (ofLists tokens merges tokenTypes eos pad).idToSpecialToken =
      elementAt (specialAt tokenTypes) tokens :=
  (List.foldl_hom ByteLevelBpeTokenizer.idToSpecialToken fun t e =>
    (idToSpecialToken_addTyped tokenTypes t e).symm).symm

theorem unkTokenId_ofLists : (ofLists tokens merges tokenTypes eos pad).unkTokenId =
      (List.range tokens.length).find? (unknownAt tokenTypes) := by
  show (tokens.zipIdx.foldl (addTyped tokenTypes) {}).unkTokenId = _
  induction tokens using List.reverseRecOn with
  | nil => rfl
  | append_singleton _ _ ih =>
    rw [List.zipIdx_append, List.foldl_append]
    simp only [List.zipIdx_singleton, List.foldl_cons, List.foldl_nil, Nat.zero_add]
    rw [unkTokenId_addTyped, ih, List.length_append, List.length_singleton, List.range_succ,
      List.find?_append, List.find?_singleton]

theorem mergeRank_ofLists : (ofLists tokens merges tokenTypes eos pad).mergeRank =
      rankMerges (merges.filterMap mergePair) :=
  rfl

/-- The vocabulary is empty only if there are no tokens. -/
theorem vocab_ofLists_isEmpty :
    (ofLists tokens merges tokenTypes eos pad).vocab.entries.isEmpty = tokens.isEmpty := by
  rw [vocab_ofLists]
  cases tokens using List.reverseRecOn with
  | nil => rfl
  | append_singleton =>
    rw [LastIndex.indexOf_concat, if_pos rfl, AList.entries_insert]
    simp

end Lists

/-- A tokenizer that was loaded, with the tokens that it was loaded from. -/
theorem loadFromVocabAndMerges_eq_ok {tokens merges : List Bytes} {tokenTypes : List Int}
    {eos pad : Int} {t : ByteLevelBpeTokenizer}
    (h : loadFromVocabAndMerges tokens merges tokenTypes eos pad = .ok t) :
    tokens ≠ [] ∧ t = ofLists tokens merges tokenTypes eos pad := by
  simp only [loadFromVocabAndMerges, vocab_ofLists_isEmpty] at h
  split at h
  · cases h
  · rename_i hne
    exact ⟨fun heq => hne (List.isEmpty_iff.mpr heq), (Except.ok.inj h).symm⟩

end CcInfer.ByteLevelBpeTokenizer
