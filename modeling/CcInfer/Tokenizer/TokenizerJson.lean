import CcInfer.Tokenizer.ByteLevelBpe

/-!
# `CcInfer.Tokenizer.TokenizerJson`: tokenizers from `tokenizer.json`

The embedding of `ByteLevelBpeTokenizer::load` of `tokenizer/byte_level_bpe_tokenizer.cpp`,
from the parsed file on, and of `build_tokenizer_json` of `scripts/gguf_export_tokenizer.py`,
which writes such a file for the lists of a GGUF file. Of the exported object only the fields
that `load` reads are modelled. Writing the JSON text and parsing it again is left to the two
JSON libraries.
-/

set_option autoImplicit false

namespace CcInfer

namespace ByteLevelBpeTokenizer

/-- An id of the file as `int32_t`; it has to be below the greatest one. -/
def jsonId (n : Int) : Option Nat :=
  let raw := Json.getInt64 n
  if raw < 0 ∨ 2 ^ 31 - 1 ≤ raw then none else some raw.toNat

/-- One round of the loop of `parse_vocab`. -/
def addVocabField (t : ByteLevelBpeTokenizer) (field : Bytes × Json) :
    Result ByteLevelBpeTokenizer :=
  match field.2 with
  | .integer n =>
    match jsonId n with
    | none => .error .modelLoadFailed
    | some id => .ok (t.addToken field.1 id)
  | _ => .error .modelLoadFailed

/-- `ByteLevelBpeTokenizer::parse_vocab`. -/
def parseVocab (t : ByteLevelBpeTokenizer) (model : Json) : Result ByteLevelBpeTokenizer :=
  match model.get? (bytes "vocab") with
  | some (.object fields) => fields.foldlM addVocabField t
  | _ => .error .modelLoadFailed

/-- The pair of an item of `merges`; a string without a space has none and is skipped. -/
def mergeItem : Json → Result (Option (Bytes × Bytes))
  | .string merge => .ok (mergePair merge)
  | .array [.string a, .string b] => .ok (some (a, b))
  | _ => .error .modelLoadFailed

/-- `ByteLevelBpeTokenizer::parse_merges`. -/
def parseMerges (t : ByteLevelBpeTokenizer) (model : Json) : Result ByteLevelBpeTokenizer :=
  match model.get? (bytes "merges") with
  | some (.array elements) =>
    (elements.mapM mergeItem).map fun pairs =>
      { t with mergeRank := rankMerges (pairs.filterMap id) }
  | _ => .ok t

/-- The names by which an end-of-sequence token is known. -/
def eosNames : List Bytes :=
  [bytes "</s>", bytes "<|end_of_text|>", bytes "<|endoftext|>", bytes "<|im_end|>"]

/-- The names by which an unknown token is known. -/
def unkNames : List Bytes := [bytes "<unk>", bytes "[UNK]"]

instance : LawfulBEq Bytes := inferInstance

/-- An added token that has a name with a meaning. -/
def addNamed (t : ByteLevelBpeTokenizer) (content : Bytes) (id : Nat) : ByteLevelBpeTokenizer :=
  if content ∈ eosNames then { t with eosTokenId := id }
  else if content ∈ unkNames then { t with unkTokenId := some id }
  else t

/-- One round of the loop of `parse_added_tokens`. -/
def addAdded (t : ByteLevelBpeTokenizer) (tok : Json) : ByteLevelBpeTokenizer :=
  match tok.get? (bytes "content"), tok.get? (bytes "id") with
  | some (.string content), some (.integer n) =>
    match jsonId n with
    | none => t
    | some id =>
      let t := t.addToken content id
      let t :=
        match tok.get? (bytes "special") with
        | some (.bool true) => t.addSpecial content id
        | _ => t
      t.addNamed content id
  | _, _ => t

/-- `ByteLevelBpeTokenizer::parse_added_tokens`. -/
def parseAddedTokens (t : ByteLevelBpeTokenizer) (j : Json) : ByteLevelBpeTokenizer :=
  match j.get? (bytes "added_tokens") with
  | some (.array tokens) => tokens.foldl addAdded t
  | _ => t

/-- `ByteLevelBpeTokenizer::resolve_special_tokens`. -/
def resolveSpecialTokens (t : ByteLevelBpeTokenizer) : ByteLevelBpeTokenizer :=
  { t with
    eosTokenId := eosNames.foldl (fun eos token =>
      if eos < 0 then ((t.vocab.lookup token).map Int.ofNat).getD eos else eos) t.eosTokenId
    unkTokenId := unkNames.foldl (fun unk token => unk.or (t.vocab.lookup token)) t.unkTokenId }

/-- `load`, behind the test of the model type. -/
def loadModel (j model : Json) : Result ByteLevelBpeTokenizer := do
  let t ← parseVocab {} model
  let t ← t.parseMerges model
  let t := (t.parseAddedTokens j).resolveSpecialTokens
  if t.vocab.entries.isEmpty then .error .modelLoadFailed else .ok t

/-- `ByteLevelBpeTokenizer::load`, on the parsed file; `none` is a file that is missing, empty
or no JSON. -/
def load (file : Option Json) : Result ByteLevelBpeTokenizer :=
  match file with
  | some (.object fields) =>
    match (Json.object fields).get? (bytes "model") with
    | some (.object model) =>
      match (Json.object model).get? (bytes "type") with
      | some (.string type) =>
        if type ≠ bytes "BPE" then .error .modelUnsupportedArch
        else loadModel (.object fields) (.object model)
      | _ => loadModel (.object fields) (.object model)
    | _ => .error .modelLoadFailed
  | _ => .error .modelLoadFailed

end ByteLevelBpeTokenizer

/-- The `vocab` of the exporter, a dictionary in which a later entry replaces an earlier one. -/
def exportedVocab (tokens : List Bytes) : AList fun _ : Bytes => Nat :=
  LastIndex.indexOf (fun _ => true) tokens

/-- An element of the exported `added_tokens`. -/
def addedToken (tokens : List Bytes) (token : Bytes) : Json :=
  .object [(bytes "id", .integer (((exportedVocab tokens).lookup token).getD 0)),
    (bytes "content", .string token), (bytes "special", .bool true)]

/-- `build_tokenizer_json`; it raises for a list of types of another length than the tokens. -/
def buildTokenizerJson (tokens merges : List Bytes) (tokenTypes : List Int) : Option Json :=
  if tokenTypes.length ≠ tokens.length then none
  else
    let vocab := (exportedVocab tokens).entries.map fun e => (e.1, Json.integer e.2)
    let added := ((tokens.zip tokenTypes).filter fun e => 3 ≤ e.2).map fun e =>
      addedToken tokens e.1
    some (.object [(bytes "added_tokens", .array added),
      (bytes "model", .object [(bytes "type", .string (bytes "BPE")),
        (bytes "vocab", .object vocab), (bytes "merges", .array (merges.map .string))])])

end CcInfer
