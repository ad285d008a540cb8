import CcInfer.Lib.Fallible
import CcInfer.Proofs.Tokenizer.ByteMap
import CcInfer.Proofs.Tokenizer.Pieces
import CcInfer.Proofs.Tokenizer.Tables

/-!
# `CcInfer.Proofs.Tokenizer.RoundTrip`: `decode` undoes `encode`

A text without special tokens is cut into segments only. The symbols of a segment, put
together, are the characters of its bytes, however the merges group them; every id that
`encode` gives stands for its symbol again in `decode`; and `decode` reads the characters back
as the bytes. Without an unknown token no id stands for a symbol that is not its own.
-/

set_option autoImplicit false

namespace CcInfer.ByteLevelBpeTokenizer

open LastIndex (lookup_indexOf lookup_elementAt)

/-- What an item stands for in `symbol_stream`. -/
def Item.stream : Item → Bytes
  | .special token => token
  | .symbol s => s

/-! ### The symbols of a text -/

/-- The symbols of a segment are the characters of its bytes. -/
theorem stream_items_segment (t : ByteLevelBpeTokenizer) (text : Bytes) :
    (t.items (.segment text)).flatMap Item.stream = text.flatMap byteToStr := by
  have hsymbols : (t.items (.segment text)).flatMap Item.stream =
      (t.applyBpe (byteEncodeSegment text)).flatten := by
    rw [items, List.flatMap_map]
    exact List.flatMap_id
  rw [hsymbols, applyBpe, PairMerge.flatten_mergeAll, byteEncodeSegment, List.flatMap_def]

/-- The symbols of a text without special tokens are the characters of its bytes. -/
theorem stream_itemsOf (t : ByteLevelBpeTokenizer) {text : Bytes}
    (hnone : ∀ pos, t.special? text pos = none) :
    (t.itemsOf text).flatMap Item.stream = text.flatMap byteToStr := by
  have hpieces : ∀ pieces : List Piece, (∀ piece ∈ pieces, ∃ s, piece = .segment s) →
      (pieces.flatMap t.items).flatMap Item.stream = (textOf pieces).flatMap byteToStr := by
    intro pieces
    induction pieces with
    | nil => exact fun _ => rfl
    | cons piece pieces ih =>
      intro hall
      obtain ⟨s, rfl⟩ := hall piece List.mem_cons_self
      have htext : textOf (.segment s :: pieces) = s ++ textOf pieces := rfl
      rw [List.flatMap_cons, List.flatMap_append, stream_items_segment,
        ih fun piece hmem => hall piece (List.mem_cons_of_mem _ hmem), htext,
        List.flatMap_append]
  have hsegments : ∀ piece ∈ cut (t.special? text) text 0 0 text.length,
      ∃ s, piece = .segment s := by
    intro piece hmem
    refine (mem_pieces hmem).resolve_right ?_
    rintro ⟨pos, _, hfound, -⟩
    rw [hnone pos] at hfound
    cases hfound
  rw [itemsOf, hpieces _ hsegments, textOf_pieces]

/-! ### Ids and symbols -/

section Loaded

variable {tokens merges : List Bytes} {tokenTypes : List Int} {eos pad : Int}

/-- The id of an entry stands for its string. -/
theorem streamOf_ofLists {i : Nat} {token : Bytes} (h : tokens[i]? = some token) :
    (ofLists tokens merges tokenTypes eos pad).streamOf false i = .ok token := by
  have htoken : (LastIndex.elementAt (fun _ => true) tokens).lookup i = some token :=
    lookup_elementAt.mpr ⟨h, rfl⟩
  unfold streamOf
  rw [idToSpecialToken_ofLists, idToToken_ofLists, htoken]
  cases hspecial : (LastIndex.elementAt (specialAt tokenTypes) tokens).lookup i with
  | none => rfl
  | some =>
    obtain ⟨h', -⟩ := lookup_elementAt.mp hspecial
    obtain rfl := Option.some.inj (h.symm.trans h')
    rfl

/-- Without an unknown token, the id of an item stands for the item. -/
theorem streamOf_itemId (hunknown : (2 : Int) ∉ tokenTypes) {item : Item} {id : Nat}
    (h : (ofLists tokens merges tokenTypes eos pad).itemId item = .ok id) :
    (ofLists tokens merges tokenTypes eos pad).streamOf false id = .ok item.stream := by
  cases item with
  | special token =>
    rw [itemId, specialTokenToId_ofLists] at h
    cases hlookup : (LastIndex.indexOf (specialAt tokenTypes) tokens).lookup token with
    | none =>
      rw [hlookup] at h
      cases h
    | some =>
      rw [hlookup] at h
      obtain rfl := Except.ok.inj h
      exact streamOf_ofLists (lookup_indexOf.mp hlookup).1.1
  | symbol symbol =>
    have hunk : (ofLists tokens merges tokenTypes eos pad).unkTokenId = none := by
      rw [unkTokenId_ofLists, List.find?_eq_none]
      intro i _ hi
      rw [unknownAt, beq_iff_eq] at hi
      exact hunknown (List.mem_of_getElem? hi)
    rw [itemId, symbolId, vocab_ofLists, hunk] at h
    cases hlookup : (LastIndex.indexOf (fun _ => true) tokens).lookup symbol with
    | none =>
      rw [hlookup] at h
      cases h
    | some =>
      rw [hlookup] at h
      obtain rfl := Except.ok.inj h
      exact streamOf_ofLists (lookup_indexOf.mp hlookup).1.1

end Loaded

/-! ### The round trip -/

/-- No special token is found in a text in which none occurs. -/
theorem special?_eq_none {tokens merges : List Bytes} {tokenTypes : List Int} {eos pad : Int}
    {text : Bytes} (h : ∀ token ∈ specialTokens tokens tokenTypes, token ≠ [] → ¬ token <:+: text)
    (pos : Nat) : (ofLists tokens merges tokenTypes eos pad).special? text pos = none := by
  cases hfound : (ofLists tokens merges tokenTypes eos pad).special? text pos with
  | none => rfl
  | some token =>
    obtain ⟨hmem, ⟨hne, hpre⟩, -⟩ := special?_eq_some_iff.mp hfound
    obtain ⟨i, hi⟩ := Option.isSome_iff_exists.mp (AList.lookup_isSome.mpr hmem)
    rw [specialTokenToId_ofLists, lookup_indexOf] at hi
    refine absurd (hpre.isInfix.trans (List.drop_suffix pos text).isInfix) (h token ?_ hne)
    exact List.mem_map.mpr ⟨(token, i),
      List.mem_filter.mpr ⟨List.mk_mem_zipIdx_iff_getElem?.mpr hi.1.1, hi.1.2⟩, rfl⟩

/-- A text in which no special token occurs is what `decode` makes of its ids. -/
theorem decode_encode {tokens merges : List Bytes} {tokenTypes : List Int} {eos pad : Int}
    {t : ByteLevelBpeTokenizer} {text : Bytes} {ids : List Nat}
    (hload : loadFromVocabAndMerges tokens merges tokenTypes eos pad = .ok t)
    (hunknown : (2 : Int) ∉ tokenTypes)
    (hspecial : ∀ token ∈ specialTokens tokens tokenTypes, token ≠ [] → ¬ token <:+: text)
    (hencode : t.encode text = .ok ids) : t.decode ids false = .ok text := by
  obtain ⟨hne, rfl⟩ := loadFromVocabAndMerges_eq_ok hload
  rw [encode_eq, vocab_ofLists_isEmpty, if_neg (by simpa using hne)] at hencode
  have hparts := Fallible.mapM_back (fun item id => streamOf_itemId hunknown) hencode
  have hentries : (ofLists tokens merges tokenTypes eos pad).idToToken.entries.isEmpty = false := by
    rw [idToToken_ofLists]
    cases tokens using List.reverseRecOn with
    | nil => exact absurd rfl hne
    | append_singleton =>
      rw [LastIndex.elementAt_concat, if_pos rfl, AList.entries_insert]
      rfl
  unfold decode
  rw [hentries, if_neg (by simp), hparts]
  show decodeLoop false ((_ : List Bytes).flatten).length _ = _
  rw [← List.flatMap_def, stream_itemsOf _ (special?_eq_none hspecial)]
  exact decodeLoop_symbols false text _ (length_le_symbols text)

/-- Two letters, the pair of them, the blank and a special token. -/
def letterTokens : List Bytes := [[97], [98], [97, 98], [0xC4, 0xA0], [60, 115, 62]]

/-- The types of the letters and of the special token. -/
def letterTypes : List Int := [1, 1, 1, 1, 3]

/-- The tokenizer with the merge of the two letters. -/
def letterTokenizer : ByteLevelBpeTokenizer :=
  ofLists letterTokens [[97, 32, 98]] letterTypes (-1) (-1)

theorem encode_letters : letterTokenizer.encode [97, 98, 32, 32, 97] = .ok [2, 3, 3, 0] := by
  decide +kernel

theorem decode_encode_letters : letterTokenizer.encode [97, 98, 32, 32, 97] = .ok [2, 3, 3, 0] ∧
      letterTokenizer.decode [2, 3, 3, 0] false = .ok [97, 98, 32, 32, 97] := by
  refine ⟨encode_letters, ?_⟩
  have hload : loadFromVocabAndMerges letterTokens [[97, 32, 98]] letterTypes (-1) (-1) =
      .ok letterTokenizer := rfl
  exact decode_encode hload (by decide) (by decide) encode_letters

end CcInfer.ByteLevelBpeTokenizer
