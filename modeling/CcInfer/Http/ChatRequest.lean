import CcInfer.Base.Json

/-!
# `CcInfer.Http.ChatRequest`: what the HTTP boundary accepts

The embedding of `safe_json_get`, `parse_chat_request` and of the request that `handle_chat`
submits, from `http/http_server.cpp`. Parsing the text of the body is left to the JSON library:
`none` stands for a body that it discards.
-/

set_option autoImplicit false

namespace CcInfer

/-- `Tokenizer`, as far as `parse_chat_request` uses it. -/
structure ChatTokenizer where
  encode : Bytes → Result (List Token)
  eosTokenId : Token

/-- `JsonFieldState`, with the value of a valid field. -/
inductive JsonField (α : Type)
  | missing
  | valid (value : α)
  | invalid

namespace JsonField

variable {α : Type}

/-- `read_optional`: a missing field leaves the default, an invalid one fails. -/
def optional (default : α) : JsonField α → Option α
  | missing => some default
  | valid value => some value
  | invalid => none

end JsonField

/-- `safe_json_get<int>`. -/
def safeJsonGetInt (j : Json) (key : String) : JsonField Int :=
  match j.get? (bytes key) with
  | none => .missing
  | some (.integer n) =>
    let raw := Json.getInt64 n
    if raw < -2 ^ 31 ∨ 2 ^ 31 - 1 < raw then .invalid else .valid raw
  | some _ => .invalid

/-- `safe_json_get<float>`. -/
def safeJsonGetFloat (toFloat : Rat → Option Rat) (j : Json) (key : String) : JsonField Rat :=
  match j.get? (bytes key) with
  | none => .missing
  | some (.integer n) => (toFloat n).elim .invalid .valid
  | some (.float x) => (toFloat x).elim .invalid .valid
  | some _ => .invalid

/-- `ParsedChatRequest`. -/
structure ParsedChatRequest where
  promptTokens : List Token
  sampling : SamplingParams
  maxContextLen : Int
  deriving DecidableEq, Repr

/-- The loop over `messages`. -/
def encodeMessages (tokenizer : ChatTokenizer) : List Json → Result (List Token)
  | [] => .ok []
  | msg :: rest =>
    match msg.get? (bytes "content") with
    | some (.string content) =>
      match tokenizer.encode content with
      | .error _ => .error .internalError
      | .ok encoded => (encodeMessages tokenizer rest).map (encoded ++ ·)
    | _ => .error .invalidArgument

/-- The prompt of a chat request; one without tokens is replaced by `{1, 2, 3}`. -/
def promptOf (tokenizer : ChatTokenizer) (j : Json) : Result (List Token) :=
  let encoded : Result (List Token) :=
    match j.get? (bytes "messages") with
    | none => .ok []
    | some (.array messages) => encodeMessages tokenizer messages
    | some _ => .error .invalidArgument
  encoded.map fun tokens => if tokens.isEmpty then [1, 2, 3] else tokens

/-- The sampling parameters of a chat request. Only greedy sampling passes. -/
def samplingOf (toFloat : Rat → Option Rat) (tokenizer : ChatTokenizer) (j : Json) :
    Result SamplingParams :=
  let d : SamplingParams := {}
  match (safeJsonGetInt j "max_tokens").optional d.maxTokens,
    (safeJsonGetFloat toFloat j "temperature").optional d.temperature,
    (safeJsonGetFloat toFloat j "top_p").optional d.topP,
    (safeJsonGetInt j "top_k").optional d.topK with
  | some maxTokens, some temperature, some topP, some topK =>
    if maxTokens < 0 ∨ temperature < 0 ∨ topP ≤ 0 ∨ 1 < topP ∨ topK < 0 then
      .error .invalidArgument
    else if 0 < temperature ∨ topP < 1 ∨ 0 < topK then .error .invalidArgument
    else .ok { maxTokens, topK, topP, temperature, eosTokenId := tokenizer.eosTokenId }
  | _, _, _, _ => .error .invalidArgument

/-- `parse_chat_request`, on the parsed body. -/
def parseChatRequest (toFloat : Rat → Option Rat) (tokenizer : ChatTokenizer)
    (body : Option Json) : Result ParsedChatRequest :=
  match body with
  | some (.object fields) => do
    let j := Json.object fields
    let promptTokens ← promptOf tokenizer j
    let sampling ← samplingOf toFloat tokenizer j
    match safeJsonGetInt j "max_context_len" with
    | .invalid => .error .invalidArgument
    | .missing => .ok ⟨promptTokens, sampling, 0⟩
    | .valid n => if n ≤ 0 then .error .invalidArgument else .ok ⟨promptTokens, sampling, n⟩
  | _ => .error .invalidArgument

/-- The request that `handle_chat` submits, as the one with number `next_request_id_`. -/
def ParsedChatRequest.toSchedulerRequest (parsed : ParsedChatRequest) (nextRequestId : Nat) :
    SchedulerRequest where
  requestId := "req-" ++ toString nextRequestId
  promptTokens := parsed.promptTokens
  sampling := parsed.sampling
  maxContextLen := parsed.maxContextLen

/-- The request is one that the HTTP boundary submits. -/
def FromHttp (toFloat : Rat → Option Rat) (tokenizer : ChatTokenizer) (req : SchedulerRequest) :
    Prop :=
  ∃ body parsed nextRequestId, parseChatRequest toFloat tokenizer body = .ok parsed ∧
    req = parsed.toSchedulerRequest nextRequestId

end CcInfer
