import CcInfer.Base.Json
import CcInfer.Lib.Split

/-!
# `CcInfer.Http.Connection`: how a connection takes its request off the socket

The embedding of `read_line`, `read_body`, `parse_content_length` and
`handle_connection_impl` from `http/http_server.cpp`, up to the call of the handler or the
write of the response.
-/

set_option autoImplicit false

namespace CcInfer

namespace Http

/-- `kMaxHeaderSize`. -/
def maxHeaderSize : Nat := 128 * 1024

/-- `kMaxBodySize`. -/
def maxBodySize : Nat := 64 * 1024 * 1024

/-- `'\n'`. -/
def lf : UInt8 := 10

/-- `'\r'`. -/
def cr : UInt8 := 13

/-- `' '`. -/
def space : UInt8 := 32

/-- `std::isspace` in the C locale. -/
def isSpace (b : UInt8) : Bool := b = 32 || (9 ≤ b && b ≤ 13)

/-- `std::isdigit`. -/
def isDigit (b : UInt8) : Bool := 48 ≤ b && b ≤ 57

/-- `std::tolower` in the C locale. -/
def toLower (b : UInt8) : UInt8 := if 65 ≤ b && b ≤ 90 then b + 32 else b

/-- `starts_with_ci`. -/
def startsWithCi (s start : Bytes) : Bool :=
  start.length ≤ s.length && (s.take start.length).map toLower == start.map toLower

/-- `CLResult`, with the value of a valid length. -/
inductive ContentLength
  | notPresent
  | valid (value : Nat)
  | invalid
  deriving DecidableEq, Repr

/-- The digit loop of `parse_content_length`, and the check of what follows the digits. -/
def parseDigits (out : Nat) (hasDigit : Bool) : Bytes → ContentLength
  | [] => if hasDigit then .valid out else .invalid
  | ch :: rest =>
    if isDigit ch then
      if maxBodySize / 10 < out then .invalid
      else
        let out := out * 10 + (ch.toNat - 48)
        if maxBodySize < out then .invalid else parseDigits out true rest
    else if !hasDigit then .invalid
    else if (ch :: rest).all isSpace then .valid out
    else .invalid

/-- `parse_content_length`. -/
def parseContentLength (line : Bytes) : ContentLength :=
  if !startsWithCi line (bytes "content-length:") then .notPresent
  else parseDigits 0 false ((line.drop 15).dropWhile isSpace)

/-! ### Reading -/

/-- What a connection coroutine reads from. -/
structure Connection where
  buf : Bytes
  reads : List Bytes
  deriving DecidableEq, Repr

/-- `async_read_some` into `room` bytes; no bytes mean an error or the end. -/
def readSome (room : Nat) : List Bytes → Bytes × List Bytes
  | [] => ([], [])
  | chunk :: reads =>
    if chunk.length ≤ room then (chunk, reads)
    else (chunk.take room, chunk.drop room :: reads)

/-- What `read_line` returns for a line that is too long. -/
def tooLongLine : Bytes := List.replicate (maxHeaderSize + 1) 120

/-- A trailing `'\r'` is not part of a line. -/
def stripCr (line : Bytes) : Bytes :=
  if line.getLast? = some cr then line.dropLast else line

/-- One round of `read_line` over the contents of `buf`: the line it returns and what it puts
back, or `none` if it goes on with all of `avail` behind the partial line. -/
def scanLine (line avail : Bytes) : Option (Bytes × Bytes) :=
  if avail.isEmpty then none
  else
    match splitFirst (· == lf) avail with
    | some (before, _, after) =>
      let before := stripCr before
      if maxHeaderSize < line.length + before.length then some (tooLongLine, [])
      else some (line ++ before, after)
    | none => if maxHeaderSize < line.length + avail.length then some (tooLongLine, []) else none

/-- The loop of `read_line`, with the partial line. -/
def readLineLoop (line : Bytes) (c : Connection) : Nat → Bytes × Connection
  | 0 => ([], c)
  | fuel + 1 =>
    match scanLine line c.buf with
    | some (result, putBack) => (result, ⟨putBack, c.reads⟩)
    | none =>
      match readSome 4096 c.reads with
      | ([], reads) => ([], ⟨[], reads⟩)
      | (b :: chunk, reads) => readLineLoop (line ++ c.buf) ⟨b :: chunk, reads⟩ fuel

/-- `HttpServer::read_line`. -/
def readLine (c : Connection) : Bytes × Connection :=
  readLineLoop [] c (c.reads.flatten.length + 1)

/-- The loop of `read_body`. -/
def readBodyLoop (contentLength : Nat) (body : Bytes) (reads : List Bytes) : Nat → Option Bytes
  | 0 => none
  | fuel + 1 =>
    if body.length < contentLength then
      match readSome (min (contentLength - body.length) 4096) reads with
      | ([], _) => none
      | (b :: chunk, reads) => readBodyLoop contentLength (body ++ b :: chunk) reads fuel
    else some body

/-- `HttpServer::read_body`. -/
def readBody (contentLength : Nat) (c : Connection) : Option Bytes :=
  if maxBodySize < contentLength then none
  else readBodyLoop contentLength (c.buf.take contentLength) c.reads (contentLength + 1)

/-! ### The request -/

/-- How the reading of a request head ended. -/
inductive HeadEnd
  /-- The request line is empty: nothing is answered. -/
  | closed
  /-- The request line has fewer than two spaces. -/
  | badLine
  /-- The header lines exceed `kMaxHeaderSize`. -/
  | tooLarge
  /-- `content_length_malformed`. -/
  | malformed
  /-- An empty line, or the end of the connection. -/
  | complete
  deriving DecidableEq, Repr

/-- What `handle_connection_impl` has read when it decides what to do. -/
structure Head where
  requestLine : Bytes
  headerLines : List Bytes
  contentLength : Nat
  hasContentLength : Bool
  ending : HeadEnd
  deriving DecidableEq, Repr

/-- The response or the handler that `handle_connection_impl` goes to. -/
inductive Branch
  | closed
  | badRequest
  | methodNotAllowed
  | notFound
  | health
  | models
  | metrics
  | chat (body : Bytes)
  deriving DecidableEq, Repr

/-- Method and path of a request line, the path without its query. -/
def requestTarget (line : Bytes) : Option (Bytes × Bytes) :=
  match splitFirst (· == space) line with
  | none => none
  | some (method, _, rest) =>
    match splitFirst (· == space) rest with
    | none => none
    | some (path, _, _) =>
      some (method, ((splitFirst (· == 63) path).map fun parts => parts.1).getD path)

/-- One round of the header loop: what the loop ends with, or the `header_bytes` and the head
with which it goes on. -/
def headerStep (headerBytes : Nat) (head : Head) (line : Bytes) : Head ⊕ (Nat × Head) :=
  if line.isEmpty then .inl { head with ending := .complete }
  else
    let head := { head with headerLines := head.headerLines ++ [line] }
    let headerBytes := headerBytes + (line.length + 2)
    if maxHeaderSize < headerBytes then .inl { head with ending := .tooLarge }
    else
      match parseContentLength line with
      | .invalid => .inl { head with ending := .malformed }
      | .valid value =>
        if head.hasContentLength && head.contentLength != value then
          .inl { head with ending := .malformed }
        else .inr (headerBytes, { head with hasContentLength := true, contentLength := value })
      | .notPresent => .inr (headerBytes, head)

section Reader

variable {σ : Type} (readLine : σ → Bytes × σ) (readBody : Nat → σ → Option Bytes)

/-- The header loop of `handle_connection_impl`. -/
def headerLoop (headerBytes : Nat) (head : Head) (c : σ) : Nat → Head × σ
  | 0 => (head, c)
  | fuel + 1 =>
    match headerStep headerBytes head (readLine c).1 with
    | .inl head => (head, (readLine c).2)
    | .inr (headerBytes, head) => headerLoop headerBytes head (readLine c).2 fuel

/-- `handle_connection_impl` up to the end of the headers. -/
def readHead (c : σ) (fuel : Nat) : Head × σ :=
  let (requestLine, c) := readLine c
  let head : Head := ⟨requestLine, [], 0, false, .closed⟩
  if requestLine.isEmpty then (head, c)
  else
    match requestTarget requestLine with
    | none => ({ head with ending := .badLine }, c)
    | some _ => headerLoop readLine (requestLine.length + 2) head c fuel

/-- The branches of `handle_connection_impl` behind the headers. -/
def dispatch (head : Head) (c : σ) : Branch :=
  match head.ending with
  | .closed => .closed
  | .badLine | .tooLarge | .malformed => .badRequest
  | .complete =>
    let (method, path) := (requestTarget head.requestLine).getD ([], [])
    if path = bytes "/health" ∨ path = bytes "/healthz" then
      if method ≠ bytes "GET" then .methodNotAllowed else .health
    else if path = bytes "/v1/models" then
      if method ≠ bytes "GET" then .methodNotAllowed else .models
    else if path = bytes "/metrics" then
      if method ≠ bytes "GET" then .methodNotAllowed else .metrics
    else if path = bytes "/v1/chat/completions" then
      if method ≠ bytes "POST" then .methodNotAllowed
      else if !head.hasContentLength || head.contentLength == 0 then .badRequest
      else
        match readBody head.contentLength c with
        | none => .badRequest
        | some body => .chat body
    else .notFound

/-- `handle_connection_impl` over two reading functions. -/
def handleWith (c : σ) (fuel : Nat) : Head × Branch :=
  let (head, c) := readHead readLine c fuel
  (head, dispatch readBody head c)

end Reader

/-- `HttpServer::handle_connection_impl` on a socket that delivers `reads`. -/
def handleConnection (reads : List Bytes) : Head × Branch :=
  handleWith readLine readBody ⟨[], reads⟩ (reads.flatten.length + 1)

end Http

end CcInfer
