import CcInfer.Base.Json

/-!
# `CcInfer.Base.JsonDump`: the text of a JSON value

`nlohmann::json::dump` is not part of the repository, and the HTTP side takes it as a parameter.
`StrictDump` is what is assumed of it: with the strict error handler, it throws exactly on a
value with a string or a key that is not valid UTF-8, and `none` stands for the exception.
`Json.dump` is a function of this kind: the text without indentation, with the fields of an
object in the order in which they are listed.
-/

set_option autoImplicit false

namespace CcInfer

/-- The bytes are valid UTF-8. -/
def ValidUtf8 (s : Bytes) : Prop := s.toByteArray.IsValidUTF8

instance (s : Bytes) : Decidable (ValidUtf8 s) :=
  inferInstanceAs (Decidable s.toByteArray.IsValidUTF8)

/-- The hexadecimal digit of a number below 16. -/
def hexDigit (n : UInt8) : UInt8 := if n < 10 then 48 + n else 87 + n

/-- A byte inside a string literal: quote, backslash and control characters are escaped. -/
def escapeByte (c : UInt8) : Bytes :=
  if c = 8 then [92, 98]
  else if c = 9 then [92, 116]
  else if c = 10 then [92, 110]
  else if c = 12 then [92, 102]
  else if c = 13 then [92, 114]
  else if c = 34 then [92, 34]
  else if c = 92 then [92, 92]
  else if c < 32 then [92, 117, 48, 48, hexDigit (c >>> 4), hexDigit (c &&& 15)]
  else [c]

/-- The literal of a string. -/
def dumpString (s : Bytes) : Option Bytes :=
  if ValidUtf8 s then some ([34] ++ s.flatMap escapeByte ++ [34]) else none

namespace Json

mutual

/-- The strings and keys of a value. -/
def strings : Json → List Bytes
  | string s => [s]
  | array elements => elementStrings elements
  | object fields => fieldStrings fields
  | _ => []

/-- The strings and keys of the elements of an array. -/
def elementStrings : List Json → List Bytes
  | [] => []
  | j :: rest => strings j ++ elementStrings rest

/-- The strings and keys of the fields of an object. -/
def fieldStrings : List (Bytes × Json) → List Bytes
  | [] => []
  | (key, j) :: rest => key :: (strings j ++ fieldStrings rest)

end

/-- A `dump` with the strict error handler. -/
def StrictDump (dump : Json → Option Bytes) : Prop :=
  ∀ j, (dump j).isSome = true ↔ ∀ s ∈ j.strings, ValidUtf8 s

section Dump

variable (showFloat : Rat → Bytes)

mutual

/-- The text of a value. -/
def dump : Json → Option Bytes
  | null => some (bytes "null")
  | bool b => some (bytes (if b then "true" else "false"))
  | integer n => some (bytes (toString n))
  | float x => some (showFloat x)
  | string s => dumpString s
  | array elements =>
    (dumpElements elements).map fun parts => [91] ++ ([44] : Bytes).intercalate parts ++ [93]
  | object fields =>
    (dumpFields fields).map fun parts => [123] ++ ([44] : Bytes).intercalate parts ++ [125]

/-- The elements of an array. -/
def dumpElements : List Json → Option (List Bytes)
  | [] => some []
  | j :: rest => do
    let part ← dump j
    let parts ← dumpElements rest
    some (part :: parts)

/-- The fields of an object. -/
def dumpFields : List (Bytes × Json) → Option (List Bytes)
  | [] => some []
  | (key, j) :: rest => do
    let name ← dumpString key
    let value ← dump j
    let parts ← dumpFields rest
    some ((name ++ [58] ++ value) :: parts)

end

end Dump

end Json

end CcInfer
