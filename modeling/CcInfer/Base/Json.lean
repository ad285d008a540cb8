import CcInfer.Base.Types

/-!
# `CcInfer.Base.Json`: bytes and JSON values

The text that the server reads and writes is a list of bytes; nothing in the source asks for
valid UTF-8 before it parses JSON. `Json` is `nlohmann::json` after parsing. An object has each
key once (a later duplicate replaces the earlier one when the text is parsed), so the order of
its fields does not matter to a lookup.
-/

set_option autoImplicit false

namespace CcInfer

/-- `std::string`. -/
abbrev Bytes := List UInt8

/-- The bytes of a text literal of the source. -/
def bytes (text : String) : Bytes := text.toUTF8.toList

/-- `nlohmann::json`. -/
inductive Json
  | null
  | bool (b : Bool)
  | integer (n : Int)
  | float (x : Rat)
  | string (s : Bytes)
  | array (elements : List Json)
  | object (fields : List (Bytes × Json))

namespace Json

/-- `j[key]` of an object that contains the key; `j.contains(key)` otherwise fails. -/
def get? (key : Bytes) : Json → Option Json
  | object fields => (fields.find? fun f => f.1 == key).map Prod.snd
  | _ => none

/-- `get<int64_t>()` of an integer: an unsigned value above the range of `int64_t` wraps. -/
def getInt64 (n : Int) : Int := (BitVec.ofInt 64 n).toInt

end Json

end CcInfer
