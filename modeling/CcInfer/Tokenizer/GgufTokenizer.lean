import CcInfer.Checkpoint.GgufMetadata
import CcInfer.Tokenizer.ByteLevelBpe

/-!
# `CcInfer.Tokenizer.GgufTokenizer`: the tokenizer of a GGUF file

The embedding of `tokenizer/gguf_tokenizer.cpp`. The strings of the vocabulary and of the merges
are read with `as_string`, which may throw; what follows is a function into `Result`.
-/

set_option autoImplicit false

namespace CcInfer.Gguf

/-- The loops over the elements of an array of strings. -/
def strings (values : List MetadataValue) : Except Exception (List Bytes) :=
  values.mapM MetadataValue.asString

/-- The merges; without an array there are none. -/
def readMerges (reader : GgufReader) : Except Exception (List Bytes) :=
  match reader.findArray "tokenizer.ggml.merges" with
  | none => .ok []
  | some values => strings values

/-- An element of the array of token types. -/
def tokenType (v : MetadataValue) : Result Int :=
  match v.asI64 with
  | none => .error .modelLoadFailed
  | some id => .ok (toInt32 id)

/-- The token types; without an array there are none. -/
def readTokenTypes (reader : GgufReader) : Result (List Int) :=
  match reader.findArray "tokenizer.ggml.token_type" with
  | none => .ok []
  | some values => values.mapM tokenType

/-- A token id under a key, which need not be there. -/
def readTokenId (reader : GgufReader) (key : String) : Result (Option Int) :=
  match reader.findMetadata key with
  | none => .ok none
  | some v =>
    match v.asU64 with
    | none => .error .modelLoadFailed
    | some id => .ok (some (toInt32 id))

/-- The padding token, under one of two keys. -/
def readPad (reader : GgufReader) : Result (Option Int) := do
  match ← readTokenId reader "tokenizer.ggml.padding_token_id" with
  | some id => .ok (some id)
  | none => readTokenId reader "tokenizer.ggml.pad_token_id"

/-- `create_tokenizer_from_gguf` behind the loops over strings. -/
def loadTokenizer (reader : GgufReader) (tokens merges : List Bytes) :
    Result ByteLevelBpeTokenizer := do
  let tokenTypes ← readTokenTypes reader
  let eos ← readTokenId reader "tokenizer.ggml.eos_token_id"
  let pad ← readPad reader
  ByteLevelBpeTokenizer.loadFromVocabAndMerges tokens merges tokenTypes (eos.getD (-1))
    (pad.getD (-1))

/-- `create_tokenizer_from_gguf`. -/
def createTokenizerFromGguf (reader : GgufReader) :
    Except Exception (Result ByteLevelBpeTokenizer) :=
  match reader.findArray "tokenizer.ggml.tokens" with
  | none => .ok (.error .modelLoadFailed)
  | some values => do
    let tokens ← strings values
    let merges ← readMerges reader
    return loadTokenizer reader tokens merges

end CcInfer.Gguf
