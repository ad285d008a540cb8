import CcInfer.Base.JsonDump
import CcInfer.Tokenizer.TokenizerJson
import Mathlib.Data.Finset.Basic

/-!
# `CcInfer.Http.Stream`: the event stream of a chat request

The embedding of `make_sse_frame`, of the stream loop of `handle_chat` and of what
`handle_connection` does behind it, from `http/http_server.cpp`. The channel of the request and
the socket are given by the turns of the loop: what `async_receive` returns and whether the
frame could be written.
-/

set_option autoImplicit false

namespace CcInfer

/-- `error_message` of `base/error.h`. -/
def errorMessage : ErrorCode → String
  | .ok => "ok"
  | .cudaOutOfMemory => "CUDA out of memory"
  | .cudaLaunchFailed => "CUDA kernel launch failed"
  | .cudaInvalidValue => "CUDA invalid value"
  | .cudaRuntimeError => "CUDA runtime error"
  | .cublasError => "cuBLAS error"
  | .invalidArgument => "invalid argument"
  | .modelLoadFailed => "model load failed"
  | .modelConfigInvalid => "model config invalid"
  | .modelShapeMismatch => "model shape mismatch"
  | .modelUnsupportedArch => "unsupported model architecture"
  | .modelUnsupportedDType => "unsupported model dtype"
  | .kvBlockExhausted => "KV cache block exhausted"
  | .requestTooLong => "request too long"
  | .requestCancelled => "request cancelled"
  | .serverShuttingDown => "server shutting down"
  | .maxSequencesReached => "maximum concurrent sequences reached"
  | .requestQueueFull => "request queue full"
  | .channelClosed => "asio channel closed"
  | .channelCancelled => "asio channel operation cancelled"
  | .channelError => "asio channel error"
  | .networkBindFailed => "network bind failed"
  | .unsupported => "unsupported operation"
  | .internalError => "internal error"

namespace Http

/-- The content of a token: what `decode` makes of its id, or nothing if it fails. A negative
id is in no table, and neither is the number that stands for it here. -/
def tokenContent (t : ByteLevelBpeTokenizer) (tok : GeneratedToken) : Bytes :=
  match t.decode [tok.tokenId.toNat] false with
  | .ok decoded => decoded
  | .error _ => []

/-- The JSON value of a frame. -/
def frameJson (t : ByteLevelBpeTokenizer) (tok : GeneratedToken) (requestId : String) : Json :=
  let delta : Json :=
    .object (if tok.hasToken then [(bytes "content", .string (tokenContent t tok))] else [])
  let finishReason : Json := if tok.finished then .string (bytes "stop") else .null
  let choice : Json := .object [(bytes "delta", delta), (bytes "finish_reason", finishReason),
    (bytes "index", .integer 0)]
  .object [(bytes "choices", .array [choice]), (bytes "created", .integer 0),
    (bytes "id", .string (bytes (if requestId.isEmpty then "chatcmpl-default" else requestId))),
    (bytes "model", .string (bytes "default")),
    (bytes "object", .string (bytes "chat.completion.chunk"))]

/-- A value as an event of the stream. `dump` is `nlohmann::json::dump`, with `none` for an
exception. -/
def sseFrame (dump : Json → Option Bytes) (j : Json) : Option Bytes :=
  (dump j).map fun text => bytes "data: " ++ text ++ bytes "\n\n"

/-- `HttpServer::make_sse_frame`. -/
def makeSseFrame (dump : Json → Option Bytes) (t : ByteLevelBpeTokenizer) (tok : GeneratedToken)
    (requestId : String) : Option Bytes :=
  sseFrame dump (frameJson t tok requestId)

/-- `sse_error_frame`. -/
def sseErrorFrame (dump : Json → Option Bytes) (err : ErrorCode) : Option Bytes :=
  sseFrame dump (.object [(bytes "done", .bool true),
    (bytes "error", .string (bytes (errorMessage err)))])

/-- One turn of the stream loop. -/
inductive StreamTurn
  /-- `async_receive` fails: the channel was closed. -/
  | closed
  /-- A result is received, and its frame is written or not. -/
  | event (result : SinkEvent) (written : Bool)

/-- How the stream loop stands after some turns. -/
inductive StreamEnd
  /-- It waits for the next result. -/
  | waiting
  /-- The last frame was written. -/
  | finished
  /-- The request was cancelled, as the channel or the socket failed. -/
  | cancelled
  /-- An exception has left the loop. -/
  | thrown
  deriving DecidableEq, Repr

/-- The stream loop of `handle_chat`: the frames written, and how the loop stands. -/
def streamLoop (dump : Json → Option Bytes) (t : ByteLevelBpeTokenizer) (requestId : String) :
    List StreamTurn → List Bytes × StreamEnd
  | [] => ([], .waiting)
  | .closed :: _ => ([], .cancelled)
  | .event result written :: rest =>
    let (frame, done) :=
      match result with
      | .ok tok => (makeSseFrame dump t tok requestId, tok.finished)
      | .error err => (sseErrorFrame dump err, true)
    match frame with
    | none => ([], .thrown)
    | some frame =>
      if !written then ([], .cancelled)
      else if done then ([frame], .finished)
      else
        let (frames, ending) := streamLoop dump t requestId rest
        (frame :: frames, ending)

/-- What `HttpServer` keeps about its connections and its shutdown. -/
structure ServerState where
  activeConns : Finset Nat
  running : Bool := true
  acceptLoopDone : Bool := false
  shutdownPromise : Bool := false
  shutdownDoneSent : Bool := false
  deriving DecidableEq

/-- `try_finish_shutdown_on_http_thread`. -/
def tryFinishShutdown (s : ServerState) : ServerState :=
  if s.shutdownDoneSent then s
  else if !s.running && s.acceptLoopDone && decide (s.activeConns = ∅) && s.shutdownPromise then
    { s with shutdownDoneSent := true }
  else s

/-- `HttpServer::handle_connection` behind `handle_connection_impl`, which is still in the
stream loop, has returned from it or was left by an exception. -/
def connectionEnd (s : ServerState) (conn : Nat) : StreamEnd → ServerState
  | .waiting | .thrown => s
  | .finished | .cancelled => tryFinishShutdown { s with activeConns := s.activeConns.erase conn }

end Http

end CcInfer
