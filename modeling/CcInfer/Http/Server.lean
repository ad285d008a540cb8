import CcInfer.Http.Stream
import CcInfer.Lib.Runs
import Mathlib.Data.Finset.Lattice.Basic

/-!
# `CcInfer.Http.Server`: start, connections and shutdown of the HTTP server

The embedding of `HttpServer::start`, `shutdown_async`, `accept_loop` and `handle_connection`
of `http/http_server.cpp` as they interleave. The coroutines and the handler that
`shutdown_async` posts run on the thread of the io_context, one at a time, from one suspension
to the next. `shutdown_async` itself may run on any thread in between: it only writes under the
mutex and to the atomic `running_`, which each piece of a coroutine loads once.

The owner is taken to do as `main` does: `start` returns before `shutdown_async` is called, and is
not called again (a later `start` would make a second accept loop). So `start` is one step. A
completed `async_accept` is still delivered after the acceptor was closed, so an accept may succeed
as long as the loop waits for one. What `handle_connection_impl` does is left to the outcome of its
connection, and the cancellation of the requests at the Scheduler is left out.
-/

set_option autoImplicit false

namespace CcInfer

namespace Http

/-- Where the coroutine `accept_loop` stands. -/
inductive AcceptPc
  | notSpawned
  /-- Spawned, before its first test of `running_`. -/
  | spawned
  /-- In `async_accept`. -/
  | accepting
  /-- Waiting for the retry timer. -/
  | retrying
  | returned
  deriving DecidableEq, Repr

/-- The coroutine exists and has not returned. -/
def AcceptPc.alive : AcceptPc → Bool
  | spawned | accepting | retrying => true
  | notSpawned | returned => false

/-- `HttpServer`, with its coroutines and what is posted to its thread. -/
structure HttpServer extends ServerState where
  accept : AcceptPc := .notSpawned
  /-- The posted handler of `shutdown_async`, with `was_running`. -/
  posted : Option Bool := none
  /-- The connections whose socket and channel that handler has closed. -/
  closed : Finset Nat := ∅
  /-- The connections whose coroutine was left by an exception. -/
  abandoned : Finset Nat := ∅
  nextConn : Nat := 0
  deriving DecidableEq

namespace HttpServer

/-- A new server. -/
def init : HttpServer := { activeConns := ∅, running := false }

/-- `HttpServer::start`, where `bound` says whether the acceptor could be opened, bound and
made to listen. -/
def start (s : HttpServer) (bound : Bool) : HttpServer :=
  if s.running then s
  else if bound then { s with running := true, accept := .spawned }
  else s

/-- `HttpServer::shutdown_async`. -/
def shutdownAsync (s : HttpServer) : HttpServer :=
  if s.shutdownPromise then s
  else { s with shutdownPromise := true, running := false, posted := some s.running }

/-- The end of a coroutine or of a handler. -/
def tryFinish (s : HttpServer) : HttpServer :=
  { s with toServerState := tryFinishShutdown s.toServerState }

/-- The handler that `shutdown_async` posts. -/
def handler (s : HttpServer) (wasRunning : Bool) : HttpServer :=
  tryFinish { s with
    posted := none
    closed := s.closed ∪ s.activeConns
    acceptLoopDone := s.acceptLoopDone || !wasRunning }

/-- `accept_loop` behind `accept_loop_impl`. -/
def acceptLoopEnd (s : HttpServer) : HttpServer :=
  tryFinish { s with accept := .returned, acceptLoopDone := true }

/-- The head of the loop of `accept_loop_impl`. -/
def acceptLoopHead (s : HttpServer) : HttpServer :=
  if s.running then { s with accept := .accepting } else s.acceptLoopEnd

/-- `async_accept` returns a socket. -/
def accepted (s : HttpServer) : HttpServer :=
  acceptLoopHead { s with
    activeConns := insert s.nextConn s.activeConns
    nextConn := s.nextConn + 1 }

/-- `async_accept` fails. -/
def acceptFailed (s : HttpServer) : HttpServer :=
  if s.running then { s with accept := .retrying } else s.acceptLoopEnd

/-- `handle_connection` goes on to the given outcome. -/
def connection (s : HttpServer) (conn : Nat) (ending : StreamEnd) : HttpServer :=
  { s with
    toServerState := connectionEnd s.toServerState conn ending
    abandoned := if ending = .thrown then insert conn s.abandoned else s.abandoned }

/-- What happens next. -/
inductive Label
  | start (bound : Bool)
  | shutdownAsync
  /-- The posted handler runs. -/
  | handler
  /-- The accept loop is resumed, for the first time or by its timer. -/
  | resume
  /-- `async_accept` completes. -/
  | accept (ok : Bool)
  | connection (conn : Nat) (ending : StreamEnd)

/-- One call, handler or piece of a coroutine. There is no `start` after a `shutdown_async`: the
owner does not call it any more. -/
def step (s : HttpServer) : Label → Option HttpServer
  | .start bound => if s.shutdownPromise then none else some (s.start bound)
  | .shutdownAsync => some s.shutdownAsync
  | .handler => s.posted.map s.handler
  | .resume =>
    if s.accept = .spawned ∨ s.accept = .retrying then some s.acceptLoopHead else none
  | .accept ok =>
    if s.accept = .accepting then some (if ok then s.accepted else s.acceptFailed) else none
  | .connection conn ending =>
    if conn ∈ s.activeConns ∧ conn ∉ s.abandoned then some (s.connection conn ending) else none

/-- The runs of the server from `s`, with no `start` after a `shutdown_async`. -/
abbrev Run (s s' : HttpServer) : Prop := Relation.ReflTransGen (Runs.Labelled step) s s'

/-- The states of all interleavings of an owner that starts the server before it shuts it down, and
not again. -/
def Reachable (s : HttpServer) : Prop := Run init s

end HttpServer

end Http

end CcInfer
