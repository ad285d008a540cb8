import CcInfer.Base.Json
import CcInfer.Lib.LastIndex
import CcInfer.Lib.PairMerge
import CcInfer.Lib.Split

/-!
# `CcInfer.Tokenizer.ByteLevelBpe`: the byte-level BPE tokenizer

The embedding of `tokenizer/byte_level_bpe_tokenizer.cpp`: the byte map, the tables that
`load_from_vocab_and_merges` fills, `encode` with its pre-tokenizer, and `decode`. The loader
of `tokenizer.json` is in `CcInfer.Tokenizer.TokenizerJson`.
-/

set_option autoImplicit false

namespace CcInfer

/-- `ByteLevelBpeTokenizer::utf8_from_codepoint`. -/
def utf8FromCodepoint (cp : Nat) : Bytes :=
  if cp < 0x80 then [.ofNat cp]
  else if cp < 0x800 then [.ofNat (0xC0 ||| cp >>> 6), .ofNat (0x80 ||| cp &&& 0x3F)]
  else if cp < 0x10000 then
    [.ofNat (0xE0 ||| cp >>> 12), .ofNat (0x80 ||| (cp >>> 6) &&& 0x3F),
      .ofNat (0x80 ||| cp &&& 0x3F)]
  else
    [.ofNat (0xF0 ||| cp >>> 18), .ofNat (0x80 ||| (cp >>> 12) &&& 0x3F),
      .ofNat (0x80 ||| (cp >>> 6) &&& 0x3F), .ofNat (0x80 ||| cp &&& 0x3F)]

/-- `add_range`. -/
def addRange (lo hi : Nat) : List (Nat × Nat) :=
  (List.range' lo (hi + 1 - lo)).map fun b => (b, b)

/-- The bytes that stand for the code point of the same number. -/
def keptBytes : List (Nat × Nat) := addRange 33 126 ++ addRange 161 172 ++ addRange 174 255

/-- The other bytes, which stand for the code points from 256 on. -/
def movedBytes : List (Nat × Nat) :=
  ((List.range 256).filter fun b => !(keptBytes.map Prod.fst).contains b).zipIdx.map
    fun (b, n) => (b, 256 + n)

/-- The pairs that `build_byte_maps` enters in both maps. -/
def byteTable : List (UInt8 × Bytes) :=
  (keptBytes ++ movedBytes).map fun (b, cp) => (.ofNat b, utf8FromCodepoint cp)

/-- `byte_to_str_`. -/
def byteToStr (b : UInt8) : Bytes := (byteTable.lookup b).getD []

/-- `str_to_byte_`. -/
def strToByte (s : Bytes) : Option UInt8 := (byteTable.find? fun e => e.2 == s).map Prod.fst

/-- `ByteLevelBpeTokenizer`. The two byte maps are the same for every tokenizer. -/
structure ByteLevelBpeTokenizer where
  vocab : AList fun _ : Bytes => Nat := ∅
  idToToken : AList fun _ : Nat => Bytes := ∅
  mergeRank : AList fun _ : Bytes × Bytes => Nat := ∅
  specialTokenToId : AList fun _ : Bytes => Nat := ∅
  idToSpecialToken : AList fun _ : Nat => Bytes := ∅
  maxTokenId : Option Nat := none
  eosTokenId : Int := -1
  padTokenId : Int := -1
  unkTokenId : Option Nat := none

/-- The pair of a merge rule, which is written with a space between its parts. -/
def mergePair (merge : Bytes) : Option (Bytes × Bytes) :=
  (splitFirst (· == 32) merge).map fun (a, _, b) => (a, b)

/-- The table in which a pair has its place in the list as its rank. -/
def rankMerges (pairs : List (Bytes × Bytes)) : AList fun _ : Bytes × Bytes => Nat :=
  LastIndex.indexOf (fun _ => true) pairs

namespace ByteLevelBpeTokenizer

/-- `vocab_size`. -/
def vocabSize (t : ByteLevelBpeTokenizer) : Nat := (t.maxTokenId.map (· + 1)).getD 0

/-- Enters a token in the vocabulary. -/
def addToken (t : ByteLevelBpeTokenizer) (token : Bytes) (id : Nat) : ByteLevelBpeTokenizer :=
  { t with
    vocab := t.vocab.insert token id
    idToToken := t.idToToken.insert id token
    maxTokenId := some ((t.maxTokenId.map (max id)).getD id) }

/-- Enters a special token. -/
def addSpecial (t : ByteLevelBpeTokenizer) (token : Bytes) (id : Nat) : ByteLevelBpeTokenizer :=
  { t with
    specialTokenToId := t.specialTokenToId.insert token id
    idToSpecialToken := t.idToSpecialToken.insert id token }

/-- One round of the loop over `tokens`. -/
def addTyped (tokenTypes : List Int) (t : ByteLevelBpeTokenizer) (entry : Bytes × Nat) :
    ByteLevelBpeTokenizer :=
  let t := t.addToken entry.1 entry.2
  match tokenTypes[entry.2]? with
  | none => t
  | some type =>
    if 3 ≤ type then t.addSpecial entry.1 entry.2
    else if type = 2 ∧ t.unkTokenId = none then { t with unkTokenId := some entry.2 }
    else t

/-- The tables that `load_from_vocab_and_merges` fills. -/
def ofLists (tokens merges : List Bytes) (tokenTypes : List Int) (eosTokenId padTokenId : Int) :
    ByteLevelBpeTokenizer :=
  { tokens.zipIdx.foldl (addTyped tokenTypes) {} with
    mergeRank := rankMerges (merges.filterMap mergePair)
    eosTokenId
    padTokenId }

/-- `ByteLevelBpeTokenizer::load_from_vocab_and_merges`. -/
def loadFromVocabAndMerges (tokens merges : List Bytes) (tokenTypes : List Int)
    (eosTokenId padTokenId : Int) : Result ByteLevelBpeTokenizer :=
  let t := ofLists tokens merges tokenTypes eosTokenId padTokenId
  if t.vocab.entries.isEmpty then .error .modelLoadFailed else .ok t

/-! ### `encode` -/

/-- `ByteLevelBpeTokenizer::byte_encode_segment`. -/
def byteEncodeSegment (text : Bytes) : List Bytes := text.map byteToStr

/-- `std::numeric_limits<int32_t>::max()`, the `best_rank` of `apply_bpe` before it has found a
pair. -/
def noRank : Nat := 2147483647

/-- The rank by which `apply_bpe` joins a pair. It looks for a rank below `best_rank`, so that a
pair of rank `noRank` is never found. -/
def pairRank (t : ByteLevelBpeTokenizer) (a b : Bytes) : Option Nat :=
  (t.mergeRank.lookup (a, b)).filter (· < noRank)

/-- `ByteLevelBpeTokenizer::apply_bpe`. -/
def applyBpe (t : ByteLevelBpeTokenizer) (symbols : List Bytes) : List Bytes :=
  PairMerge.mergeAll t.pairRank symbols

/-- The id of a symbol: the unknown token, if there is one, stands for a missing symbol. -/
def symbolId (t : ByteLevelBpeTokenizer) (symbol : Bytes) : Result Nat :=
  match t.vocab.lookup symbol with
  | some id => .ok id
  | none =>
    match t.unkTokenId with
    | some id => .ok id
    | none => .error .modelLoadFailed

/-- `ByteLevelBpeTokenizer::encode_normal_segment`. -/
def encodeNormalSegment (t : ByteLevelBpeTokenizer) (text : Bytes) : Result (List Nat) :=
  (t.applyBpe (byteEncodeSegment text)).mapM t.symbolId

/-- `starts_with_at`. -/
def startsWithAt (text : Bytes) (pos : Nat) (pattern : Bytes) : Bool :=
  if text.length < pattern.length ∨ text.length - pattern.length < pos then false
  else (text.drop pos).take pattern.length == pattern

/-- One round of the loop of `try_match_special`. -/
def longerMatch (text : Bytes) (pos : Nat) (best : Option (Bytes × Nat))
    (entry : Sigma fun _ : Bytes => Nat) : Option (Bytes × Nat) :=
  if entry.1.isEmpty then best
  else if entry.1.length ≤ (best.map fun m => m.1.length).getD 0 then best
  else if startsWithAt text pos entry.1 then some (entry.1, entry.2)
  else best

/-- `ByteLevelBpeTokenizer::try_match_special`. -/
def tryMatchSpecial (t : ByteLevelBpeTokenizer) (text : Bytes) (pos : Nat) :
    Option (Bytes × Nat) :=
  t.specialTokenToId.entries.foldl (longerMatch text pos) none

/-- `is_space`. -/
def isSpace (c : UInt8) : Bool := c == 32 || c == 9

/-- `is_newline`. -/
def isNewline (c : UInt8) : Bool := c == 10 || c == 13

/-- The end of the run of bytes with `p` that starts at `pos`. -/
def runEnd (p : UInt8 → Bool) (text : Bytes) (pos : Nat) : Nat :=
  pos + ((text.drop pos).takeWhile p).length

/-- The loop for `has_next` from index `k` on: a byte that is neither blank nor newline comes
before the next special token. -/
def hasNext (special : Nat → Bool) (text : Bytes) (k : Nat) : Nat → Bool
  | 0 => false
  | fuel + 1 =>
    match text[k]? with
    | none => false
    | some c =>
      if special k then false
      else if !isSpace c && !isNewline c then true
      else hasNext special text (k + 1) fuel

/-- `flush_if_any`: the ids with those of the segment from `first` up to `last`. -/
def flushIfAny (t : ByteLevelBpeTokenizer) (text : Bytes) (first last : Nat) (ids : List Nat) :
    Result (List Nat) :=
  if last ≤ first then .ok ids
  else (t.encodeNormalSegment ((text.drop first).take (last - first))).map (ids ++ ·)

/-- The loop of `encode`. -/
def encodeLoop (t : ByteLevelBpeTokenizer) (text : Bytes) (pos segmentStart : Nat)
    (ids : List Nat) : Nat → Result (List Nat)
  | 0 => t.flushIfAny text segmentStart text.length ids
  | fuel + 1 =>
    match text[pos]? with
    | none => t.flushIfAny text segmentStart text.length ids
    | some c =>
      match t.tryMatchSpecial text pos with
      | some (matchedToken, matchedId) => do
        let ids ← t.flushIfAny text segmentStart pos ids
        let pos := pos + matchedToken.length
        t.encodeLoop text pos pos (ids ++ [matchedId]) fuel
      | none =>
        if isNewline c then do
          let ids ← t.flushIfAny text segmentStart pos ids
          let newlineEnd := runEnd isNewline text pos
          let ids ← t.flushIfAny text pos newlineEnd ids
          t.encodeLoop text newlineEnd newlineEnd ids fuel
        else if isSpace c then do
          let ids ← t.flushIfAny text segmentStart pos ids
          let spaceEnd := runEnd isSpace text pos
          let spaceLen := spaceEnd - pos
          let special := fun k => (t.tryMatchSpecial text k).isSome
          if !hasNext special text spaceEnd (text.length - spaceEnd) then
            -- trailing whitespace
            let ids ← t.flushIfAny text pos spaceEnd ids
            t.encodeLoop text spaceEnd spaceEnd ids fuel
          else if spaceLen == 1 then
            t.encodeLoop text spaceEnd pos ids fuel
          else
            -- all blanks but the last
            let splitAt := pos + spaceLen - 1
            let ids ← t.flushIfAny text pos splitAt ids
            t.encodeLoop text spaceEnd splitAt ids fuel
        else t.encodeLoop text (pos + 1) segmentStart ids fuel

/-- `ByteLevelBpeTokenizer::encode`. Every round of the loop moves forward. -/
def encode (t : ByteLevelBpeTokenizer) (text : Bytes) : Result (List Nat) :=
  if t.vocab.entries.isEmpty then .error .modelLoadFailed
  else t.encodeLoop text 0 0 [] text.length

/-! ### `decode` -/

/-- The text that `decode` appends to `symbol_stream` for an id. -/
def streamOf (t : ByteLevelBpeTokenizer) (skipSpecialTokens : Bool) (id : Nat) : Result Bytes :=
  match t.idToSpecialToken.lookup id with
  | some token => .ok (if skipSpecialTokens then [] else token)
  | none =>
    match t.idToToken.lookup id with
    | none => .error .modelLoadFailed
    | some token => .ok token

/-- The length of a character by its first byte. -/
def charLength (c : UInt8) : Option Nat :=
  if c &&& 0x80 = 0 then some 1
  else if c &&& 0xE0 = 0xC0 then some 2
  else if c &&& 0xF0 = 0xE0 then some 3
  else if c &&& 0xF8 = 0xF0 then some 4
  else none

/-- The loop of `decode` over the rest of `symbol_stream`. -/
def decodeLoop (skipSpecialTokens : Bool) : Nat → Bytes → Result Bytes
  | 0, _ => .ok []
  | _ + 1, [] => .ok []
  | fuel + 1, c :: rest =>
    match charLength c with
    | none => .error .modelLoadFailed
    | some len =>
      if (c :: rest).length < len then .error .modelLoadFailed
      else
        let ch := (c :: rest).take len
        match strToByte ch with
        | some b => (decodeLoop skipSpecialTokens fuel ((c :: rest).drop len)).map (b :: ·)
        | none =>
          if skipSpecialTokens then .error .modelLoadFailed
          else (decodeLoop skipSpecialTokens fuel ((c :: rest).drop len)).map (ch ++ ·)

/-- `ByteLevelBpeTokenizer::decode`. -/
def decode (t : ByteLevelBpeTokenizer) (tokenIds : List Nat) (skipSpecialTokens : Bool) :
    Result Bytes := do
  if t.idToToken.entries.isEmpty then .error .modelLoadFailed
  else
    let parts ← tokenIds.mapM (t.streamOf skipSpecialTokens)
    let symbolStream := parts.flatten
    decodeLoop skipSpecialTokens symbolStream.length symbolStream

end ByteLevelBpeTokenizer

end CcInfer
