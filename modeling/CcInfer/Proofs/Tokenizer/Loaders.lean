import CcInfer.Lib.Fallible
import CcInfer.Proofs.Tokenizer.Export
import CcInfer.Proofs.Tokenizer.Pieces

/-!
# `CcInfer.Proofs.Tokenizer.Loaders`: when the two loaders give the same tokenizer

The tokenizer of some lists and the one of the file exported from them cut every text into the
same items, since vocabulary, merges and the strings of the special tokens are the same. They
give different ids in two cases.
-/

set_option autoImplicit false

namespace CcInfer.ByteLevelBpeTokenizer

open LastIndex (LastAt lookup_indexOf)

/-- The result of `encode` for the result of loading: the ids, or an error of either. -/
def encodeLoaded (loaded : Result ByteLevelBpeTokenizer) (text : Bytes) : Option (List Nat) :=
  loaded.toOption.bind fun t => (t.encode text).toOption

/-- If a string has a special entry, its last entry is special. The empty string, which is
never found in a text, does not count. -/
def SpecialLast (tokens : List Bytes) (tokenTypes : List Int) : Prop :=
  ∀ s ∈ specialTokens tokens tokenTypes, s ≠ [] → ∀ i, tokens[i]? = some s →
    (∀ j, i < j → tokens[j]? ≠ some s) → specialAt tokenTypes i = true

/-- Every text has symbols of the vocabulary only. -/
def Covers (tokens merges : List Bytes) (tokenTypes : List Int) : Prop :=
  ∀ text s, .symbol s ∈ (ofLists tokens merges tokenTypes (-1) (-1)).itemsOf text → s ∈ tokens

section Agree

variable {tokens merges : List Bytes} {tokenTypes : List Int} {eos pad : Int}
variable {s text : Bytes} {t : ByteLevelBpeTokenizer}

/-! ### The two tokenizers, item by item -/

/-- The special tokens are the typed ones. -/
theorem mem_special_ofLists : s ∈ (ofLists tokens merges tokenTypes eos pad).specialTokenToId ↔
      s ∈ specialTokens tokens tokenTypes := by
  rw [← AList.lookup_isSome, specialTokenToId_ofLists, Option.isSome_iff_exists]
  constructor
  · rintro ⟨i, hi⟩
    obtain ⟨htoken, hspecial⟩ := (lookup_indexOf.mp hi).1
    exact List.mem_map.mpr ⟨(s, i),
      List.mem_filter.mpr ⟨List.mk_mem_zipIdx_iff_getElem?.mpr htoken, hspecial⟩, rfl⟩
  · intro h
    obtain ⟨⟨s, i⟩, hmem, rfl⟩ := List.mem_map.mp h
    obtain ⟨hentry, hspecial⟩ := List.mem_filter.mp hmem
    have htoken := List.mk_mem_zipIdx_iff_getElem?.mp hentry
    obtain ⟨last, hlast⟩ := LastIndex.exists_lastAt
      (p := fun i => tokens[i]? = some s ∧ specialAt tokenTypes i = true) ⟨htoken, hspecial⟩
      (n := tokens.length) fun j hj hjs => by
        have hnone : tokens[j]? = none := List.getElem?_eq_none hj
        exact absurd (hnone.symm.trans hjs.1) (by simp)
    exact ⟨last, lookup_indexOf.mpr hlast⟩

theorem LoadedExport.mem_special (h : LoadedExport tokens merges tokenTypes t) :
    s ∈ t.specialTokenToId ↔ s ∈ specialTokens tokens tokenTypes := by
  rw [← AList.lookup_isSome, h.special]
  split
  · rename_i hmem
    obtain ⟨_, hid⟩ := exists_exportedVocab (mem_of_mem_specialTokens hmem)
    simp [hid, hmem]
  · rename_i hmem
    simp [hmem]

/-- The items of a text are the same for both tokenizers. -/
theorem LoadedExport.itemsOf_eq (h : LoadedExport tokens merges tokenTypes t) (text : Bytes) :
    t.itemsOf text = (ofLists tokens merges tokenTypes eos pad).itemsOf text :=
  itemsOf_congr (fun _ => h.mem_special.trans mem_special_ofLists.symm)
    (h.mergeRank.trans (mergeRank_ofLists tokens merges tokenTypes eos pad).symm) text

/-- A special item is a special token that is not empty. -/
theorem special_of_mem_itemsOf {token : Bytes}
    (h : .special token ∈ t.itemsOf text) : token ∈ t.specialTokenToId ∧ token ≠ [] := by
  obtain ⟨_, hpiece, hitem⟩ := List.mem_flatMap.mp h
  rcases mem_pieces hpiece with ⟨_, rfl⟩ | ⟨_, token', hfound, rfl⟩
  · simp [items] at hitem
  · obtain rfl : token = token' := by simpa [items] using hitem
    obtain ⟨hmem, hmatch, -⟩ := special?_eq_some_iff.mp hfound
    exact ⟨hmem, hmatch.1⟩

/-- With an unknown token every text has ids. -/
theorem exists_ids {unk : Nat} (hunk : t.unkTokenId = some unk)
    (text : Bytes) : ∃ ids, (t.itemsOf text).mapM t.itemId = .ok ids := by
  refine Fallible.mapM_of_forall fun item hitem => ?_
  cases item with
  | special =>
    have hmem := (special_of_mem_itemsOf hitem).1
    obtain ⟨id, hid⟩ := Option.isSome_iff_exists.mp (AList.lookup_isSome.mpr hmem)
    exact ⟨id, by rw [itemId, hid]; rfl⟩
  | symbol s =>
    rw [itemId, symbolId, hunk]
    cases t.vocab.lookup s with
    | some id => exact ⟨id, rfl⟩
    | none => exact ⟨unk, rfl⟩

/-- A string that has a special entry is given the last one. -/
theorem specialLast_iff (merges : List Bytes) (eos pad : Int) :
    SpecialLast tokens tokenTypes ↔ ∀ s ∈ specialTokens tokens tokenTypes, s ≠ [] →
      (ofLists tokens merges tokenTypes eos pad).specialTokenToId.lookup s =
        (exportedVocab tokens).lookup s := by
  refine forall₃_congr fun s hmem hne => ?_
  obtain ⟨last, hlast⟩ := exists_exportedVocab (mem_of_mem_specialTokens hmem)
  obtain ⟨⟨htoken, -⟩, hlater⟩ := lookup_indexOf.mp hlast
  have hlater : ∀ j, last < j → tokens[j]? ≠ some s := fun j hj heq => hlater j hj ⟨heq, rfl⟩
  rw [specialTokenToId_ofLists, hlast, lookup_indexOf]
  constructor
  · intro h
    exact ⟨⟨htoken, h last htoken hlater⟩, fun j hj hjs => hlater j hj hjs.1⟩
  · intro h i hi hiLater
    obtain rfl : i = last :=
      LastAt.unique (p := fun i => tokens[i]? = some s) ⟨hi, hiLater⟩ ⟨htoken, hlater⟩
    exact h.1.2

/-- A symbol of the vocabulary has the same id in both tokenizers, another one the id of the
unknown token. -/
theorem symbolId_ofLists (tokens merges : List Bytes) (tokenTypes : List Int) (eos pad : Int)
    (s : Bytes) : (ofLists tokens merges tokenTypes eos pad).symbolId s =
      (((exportedVocab tokens).lookup s).or
        ((List.range tokens.length).find? (unknownAt tokenTypes))).elim
          (.error .modelLoadFailed) .ok := by
  unfold symbolId exportedVocab
  rw [vocab_ofLists, unkTokenId_ofLists]
  cases (LastIndex.indexOf (fun _ => true) tokens).lookup s with
  | some => rfl
  | none => cases (List.range tokens.length).find? (unknownAt tokenTypes) <;> rfl

theorem LoadedExport.symbolId_eq (h : LoadedExport tokens merges tokenTypes t) (s : Bytes) :
    t.symbolId s = (((exportedVocab tokens).lookup s).or (namedUnknown tokens tokenTypes)).elim
      (.error .modelLoadFailed) .ok := by
  unfold symbolId
  rw [h.vocab, h.unk]
  cases (exportedVocab tokens).lookup s with
  | some => rfl
  | none => cases namedUnknown tokens tokenTypes <;> rfl

/-! ### The texts -/

theorem encodeLoaded_ofLists (hne : tokens ≠ []) (text : Bytes) :
    encodeLoaded (loadFromVocabAndMerges tokens merges tokenTypes eos pad) text =
      (((ofLists tokens merges tokenTypes eos pad).itemsOf text).mapM
        (ofLists tokens merges tokenTypes eos pad).itemId).toOption := by
  have hempty : tokens.isEmpty = false := by simpa using hne
  simp only [loadFromVocabAndMerges, vocab_ofLists_isEmpty, hempty, Bool.false_eq_true, if_false]
  show ((ofLists tokens merges tokenTypes eos pad).encode text).toOption = _
  rw [encode_eq, vocab_ofLists_isEmpty, hempty]
  rfl

theorem LoadedExport.encodeLoaded_ok
    (h : LoadedExport tokens merges tokenTypes t) (hne : tokens ≠ []) (eos pad : Int)
    (text : Bytes) : encodeLoaded (.ok t) text =
      (((ofLists tokens merges tokenTypes eos pad).itemsOf text).mapM t.itemId).toOption := by
  show (t.encode text).toOption = _
  rw [encode_eq, h.isEmpty_vocab, if_neg (by simpa using hne), h.itemsOf_eq]

/-- A special token by itself is one item. -/
theorem itemsOf_special (hmem : s ∈ specialTokens tokens tokenTypes) (hne : s ≠ []) :
    (ofLists tokens merges tokenTypes eos pad).itemsOf s = [.special s] := by
  have hfound : (ofLists tokens merges tokenTypes eos pad).special? s 0 = some s := by
    refine special?_eq_some_iff.mpr ⟨mem_special_ofLists.mpr hmem, ⟨hne, by simp⟩, ?_⟩
    intro token _ hmatch
    simpa using hmatch.2.length_le
  unfold itemsOf
  cases s with
  | nil => exact absurd rfl hne
  | cons c rest =>
    have hend : ∀ fuel, cut ((ofLists tokens merges tokenTypes eos pad).special? (c :: rest))
        (c :: rest) (c :: rest).length (c :: rest).length fuel = [] := by
      intro fuel
      have hempty : segmentAt (c :: rest) (c :: rest).length (c :: rest).length = [] :=
        if_pos (Nat.le_refl _)
      cases fuel with
      | zero => exact hempty
      | succ => rw [cut, List.getElem?_eq_none (Nat.le_refl _), hempty]
    rw [List.length_cons, cut, List.getElem?_cons_zero]
    simp only [roundCut, nextPos, List.getElem?_cons_zero, hfound, Nat.zero_add, hend]
    rfl

section

variable (ht : LoadedExport tokens merges tokenTypes t)
include ht

/-- If all texts have the same ids, a special token has that of its last entry. -/
theorem specialLast_of_agree (hne : tokens ≠ [])
    (h : ∀ text, encodeLoaded (loadFromVocabAndMerges tokens merges tokenTypes eos pad) text =
      encodeLoaded (.ok t) text) : SpecialLast tokens tokenTypes := by
  refine (specialLast_iff merges eos pad).mpr fun s hmem hs => ?_
  -- the text that is the token
  have hagree := h s
  rw [encodeLoaded_ofLists hne, ht.encodeLoaded_ok hne eos pad, itemsOf_special hmem hs] at hagree
  have hlist : s ∈ (ofLists tokens merges tokenTypes eos pad).specialTokenToId :=
    mem_special_ofLists.mpr hmem
  obtain ⟨_, hi⟩ := Option.isSome_iff_exists.mp (AList.lookup_isSome.mpr hlist)
  obtain ⟨k, hk⟩ := exists_exportedVocab (mem_of_mem_specialTokens hmem)
  have hfile : t.specialTokenToId.lookup s = some k := by rw [ht.special, if_pos hmem, hk]
  simp only [List.mapM_cons, List.mapM_nil, itemId, hi, hfile] at hagree
  obtain ⟨rfl, -⟩ := List.cons.inj (Option.some.inj hagree)
  rw [hi, hk]

/-- If all texts have the same ids and one has a symbol outside the vocabulary, both have the
same unknown token. -/
theorem unknown_of_agree (hne : tokens ≠ [])
    (hs : .symbol s ∈ (ofLists tokens merges tokenTypes eos pad).itemsOf text) (hout : s ∉ tokens)
    (h : encodeLoaded (loadFromVocabAndMerges tokens merges tokenTypes eos pad) text =
      encodeLoaded (.ok t) text) :
    (List.range tokens.length).find? (unknownAt tokenTypes) = namedUnknown tokens tokenTypes := by
  have hmissing : (exportedVocab tokens).lookup s = none := by
    cases hlookup : (exportedVocab tokens).lookup s with
    | none => rfl
    | some => exact absurd (List.mem_of_getElem? (lookup_indexOf.mp hlookup).1.1) hout
  have hlist := symbolId_ofLists tokens merges tokenTypes eos pad s
  have hfile := ht.symbolId_eq s
  rw [hmissing, Option.none_or] at hlist hfile
  rw [encodeLoaded_ofLists hne, ht.encodeLoaded_ok hne eos pad] at h
  cases hunk : (List.range tokens.length).find? (unknownAt tokenTypes) with
  | some =>
    obtain ⟨_, hids⟩ :=
      exists_ids ((unkTokenId_ofLists tokens merges tokenTypes eos pad).trans hunk) text
    rw [hids, eq_comm] at h
    have hsame : (ofLists tokens merges tokenTypes eos pad).symbolId s = t.symbolId s :=
      Fallible.eq_of_mapM_eq hids (Fallible.toOption_eq_some_iff.mp h) hs
    rw [hlist, hfile, hunk] at hsame
    cases hname : namedUnknown tokens tokenTypes with
    | none =>
      rw [hname] at hsame
      cases hsame
    | some =>
      rw [hname] at hsame
      rw [Except.ok.inj hsame]
  | none =>
    cases hname : namedUnknown tokens tokenTypes with
    | none => rfl
    | some =>
      obtain ⟨_, hids⟩ := exists_ids (ht.unk.trans hname) text
      rw [ht.itemsOf_eq] at hids
      rw [hids] at h
      obtain ⟨id, hid⟩ := Fallible.exists_of_mapM (Fallible.toOption_eq_some_iff.mp h) hs
      have hid : (ofLists tokens merges tokenTypes eos pad).symbolId s = .ok id := hid
      rw [hlist, hunk] at hid
      cases hid

/-- Items with the same ids. -/
theorem itemId_eq (hspecial : SpecialLast tokens tokenTypes)
    (hunknown : (List.range tokens.length).find? (unknownAt tokenTypes) =
        namedUnknown tokens tokenTypes ∨
      ∀ s, .symbol s ∈ (ofLists tokens merges tokenTypes eos pad).itemsOf text → s ∈ tokens)
    {item : Item} (hitem : item ∈ (ofLists tokens merges tokenTypes eos pad).itemsOf text) :
    (ofLists tokens merges tokenTypes eos pad).itemId item = t.itemId item := by
  cases item with
  | special token =>
    obtain ⟨hmem, hne⟩ := special_of_mem_itemsOf hitem
    have hmem := mem_special_ofLists.mp hmem
    rw [itemId, itemId, (specialLast_iff merges eos pad).mp hspecial token hmem hne, ht.special,
      if_pos hmem]
  | symbol s =>
    rw [itemId, itemId, symbolId_ofLists, ht.symbolId_eq]
    rcases hunknown with hunknown | hcovers
    · rw [hunknown]
    · obtain ⟨_, hid⟩ := exists_exportedVocab (hcovers s hitem)
      rw [hid]
      rfl

end

/-- The two loaders agree on every text exactly if the last entry of each string with a special
entry is special, and the unknown token has the same id by its type and by its name or is never
needed. -/
theorem loaders_agree_iff (merges : List Bytes) (eos pad : Int)
    (hlen : tokenTypes.length = tokens.length) (hsmall : tokens.length < 2 ^ 31) :
    (∀ text, encodeLoaded (loadFromVocabAndMerges tokens merges tokenTypes eos pad) text =
        encodeLoaded (load (buildTokenizerJson tokens merges tokenTypes)) text) ↔
      SpecialLast tokens tokenTypes ∧ ((List.range tokens.length).find? (unknownAt tokenTypes) =
            namedUnknown tokens tokenTypes ∨ Covers tokens merges tokenTypes) := by
  obtain ⟨_, ht, hload⟩ := load_export merges hlen hsmall
  by_cases hne : tokens = []
  · -- both loaders fail
    subst hne
    refine iff_of_true (fun text => ?_) ⟨fun s hmem => ?_, .inl ?_⟩
    · rw [hload]
      rfl
    · cases mem_of_mem_specialTokens hmem
    · rfl
  · rw [hload, if_neg (by simpa using hne)]
    have hitems : ∀ text, (ofLists tokens merges tokenTypes eos pad).itemsOf text =
        (ofLists tokens merges tokenTypes (-1) (-1)).itemsOf text :=
      itemsOf_congr (fun _ => mem_special_ofLists.trans mem_special_ofLists.symm) rfl
    constructor
    · intro h
      refine ⟨specialLast_of_agree ht hne h, Classical.or_iff_not_imp_right.mpr fun hcovers => ?_⟩
      simp only [Covers, not_forall] at hcovers
      obtain ⟨text, _, hs, hout⟩ := hcovers
      exact unknown_of_agree ht hne ((hitems text).symm ▸ hs) hout (h text)
    · rintro ⟨hspecial, hunknown⟩ text
      rw [encodeLoaded_ofLists hne, ht.encodeLoaded_ok hne eos pad]
      refine congrArg Except.toOption (Fallible.mapM_congr fun item hitem => ?_)
      refine itemId_eq ht hspecial (hunknown.imp_right fun hcovers s hs => ?_) hitem
      exact hcovers text s (hitems text ▸ hs)

end Agree

/-- Two entries of one string, of which the first is special. -/
def repeatedTokens : List Bytes := [[97], [97]]

/-- The special token has the id of its special entry in one tokenizer and that of its last
entry in the other; and an unknown token without a name is known to one tokenizer only. -/
theorem loaders_disagree :
    encodeLoaded (loadFromVocabAndMerges repeatedTokens [] [3, 1] (-1) (-1)) [97] = some [0] ∧
      encodeLoaded (load (buildTokenizerJson repeatedTokens [] [3, 1])) [97] = some [1] ∧
      encodeLoaded (loadFromVocabAndMerges [[98]] [] [2] (-1) (-1)) [97] = some [0] ∧
      encodeLoaded (load (buildTokenizerJson [[98]] [] [2])) [97] = none := by
  decide +kernel

/-- A letter, the unknown token by type and name, and a special token. -/
def namedTokens : List Bytes := [[97], bytes "<unk>", [60, 115, 62]]

theorem loaders_agree_namedTokens :
    encodeLoaded (loadFromVocabAndMerges namedTokens [] [1, 2, 3] (-1) (-1)) [97, 98, 60, 115, 62] =
      encodeLoaded (load (buildTokenizerJson namedTokens [] [1, 2, 3])) [97, 98, 60, 115, 62] ∧
      SpecialLast namedTokens [1, 2, 3] := by
  have hspecial : SpecialLast namedTokens [1, 2, 3] :=
    (specialLast_iff [] (-1) (-1)).mpr (by decide +kernel)
  have hlen : ([1, 2, 3] : List Int).length = namedTokens.length := rfl
  have hsmall : namedTokens.length < 2 ^ 31 := by decide
  have hiff := loaders_agree_iff [] (-1) (-1) hlen hsmall
  exact ⟨hiff.mpr ⟨hspecial, .inl (by decide +kernel)⟩ _, hspecial⟩

end CcInfer.ByteLevelBpeTokenizer
