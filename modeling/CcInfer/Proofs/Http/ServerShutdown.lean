import CcInfer.Http.Server
import Mathlib.Data.Finset.Card

/-!
# `CcInfer.Proofs.Http.ServerShutdown`: the future of `shutdown_async`

`try_finish_shutdown_on_http_thread` is called at three places: at the end of the posted
handler, of the accept loop and of every connection. Each of them may be the last, in any order.
The owner is taken to call `start` before `shutdown_async` only.

No call is missing (`future_ready_iff`), so `main` never waits for a server that has nothing left
to do. Ready is final (`future_ready_final`): a handler may be left over by an accept loop that
ended before it, and then closes nothing. One connection can escape (`late_connections`): an
accept that was complete when the handler ran is delivered behind it, and the future waits for
its client.
-/

set_option autoImplicit false

namespace CcInfer

namespace Http

namespace HttpServer

variable {s s' : HttpServer}

/-- The loop lives from its spawn to its return. -/
@[grind =] theorem alive_eq (pc : AcceptPc) :
    pc.alive = decide (pc ≠ .notSpawned ∧ pc ≠ .returned) := by
  cases pc <;> rfl

/-- `try_finish_shutdown` sets the promise once, when everything has ended. -/
theorem tryFinish_eq (s : HttpServer) : s.tryFinish = { s with
    shutdownDoneSent := s.shutdownDoneSent || (!s.running && s.acceptLoopDone &&
      decide (s.activeConns = ∅) && s.shutdownPromise) } := by
  obtain ⟨⟨conns, running, loopDone, promise, sent⟩, accept, posted, closed, abandoned, next⟩ := s
  unfold tryFinish tryFinishShutdown
  cases sent
  · simp only [Bool.false_or, Bool.false_eq_true, if_false]
    split <;> simp_all
  · rfl

/-- What holds in every interleaving. -/
@[grind cases]
structure Sound (s : HttpServer) : Prop where
  opened : s.shutdownPromise = false → s.running = s.accept.alive ∧ s.accept ≠ .returned ∧
    s.posted = none
  stopped : s.shutdownPromise = true → s.running = false
  posted : ∀ wasRunning, s.posted = some wasRunning →
    s.shutdownPromise = true ∧ (wasRunning = false ↔ s.accept = .notSpawned)
  done : s.acceptLoopDone = true ↔ s.shutdownPromise = true ∧
    (s.accept = .returned ∨ s.accept = .notSpawned ∧ s.posted = none)
  unspawned : s.accept = .notSpawned → s.activeConns = ∅
  finished : s.shutdownDoneSent = true ↔ s.acceptLoopDone = true ∧ s.activeConns = ∅
  swept : s.shutdownPromise = true → s.posted = none → s.accept.alive = true →
    s.activeConns ⊆ s.closed
  late : s.shutdownPromise = true → s.posted = none → (s.activeConns \ s.closed).card ≤ 1

namespace Sound

/-- A server that was never started. -/
theorem init : Sound init := by
  constructor <;> simp [HttpServer.init, AcceptPc.alive]

section

variable (h : Sound s)
include h

/-- `start`, with its socket bound or not. -/
theorem start (early : s.shutdownPromise = false) (bound : Bool) : Sound (s.start bound) := by
  unfold HttpServer.start
  split
  · exact h
  · split
    · constructor <;> grind
    · exact h

/-- `shutdown_async` clears `running_` and posts its handler. -/
theorem shutdownAsync : Sound s.shutdownAsync := by
  unfold HttpServer.shutdownAsync
  split
  · exact h
  · constructor <;> grind

/-- The handler closes what is connected. -/
theorem handler {wasRunning : Bool} (hposted : s.posted = some wasRunning) :
    Sound (s.handler wasRunning) := by
  unfold HttpServer.handler
  rw [tryFinish_eq]
  constructor <;> grind

/-- The accept loop ends, possibly behind an accepted connection. -/
theorem acceptLoopEnd (alive : s.accept.alive = true) (stopped : s.running = false)
    {conns : Finset Nat} (hconns : conns ⊆ insert s.nextConn s.activeConns) (next : Nat) :
    Sound (acceptLoopEnd { s with activeConns := conns, nextConn := next }) := by
  have hlate : s.shutdownPromise = true → s.posted = none → (conns \ s.closed).card ≤ 1 := by
    intro hpromise hposted
    have hswept := h.swept hpromise hposted alive
    have hone : conns \ s.closed ⊆ {s.nextConn} := by grind
    exact (Finset.card_le_card hone).trans_eq (Finset.card_singleton _)
  unfold HttpServer.acceptLoopEnd
  rw [tryFinish_eq]
  constructor <;> grind

/-- The loop reads `running_` and accepts or ends. -/
theorem acceptLoopHead (alive : s.accept.alive = true) : Sound s.acceptLoopHead := by
  unfold HttpServer.acceptLoopHead
  split
  · constructor <;> grind
  · rename_i hstop
    exact h.acceptLoopEnd alive (Bool.eq_false_iff.mpr hstop) (Finset.subset_insert _ _) s.nextConn

/-- A delivered connection counts, also behind the handler. -/
theorem accepted (alive : s.accept = .accepting) : Sound s.accepted := by
  unfold HttpServer.accepted HttpServer.acceptLoopHead
  split
  · constructor <;> grind
  · rename_i hstop
    exact h.acceptLoopEnd (by rw [alive]; rfl) (Bool.eq_false_iff.mpr hstop) subset_rfl _

/-- A failed accept is retried or ends the loop. -/
theorem acceptFailed (alive : s.accept = .accepting) : Sound s.acceptFailed := by
  unfold HttpServer.acceptFailed
  split
  · constructor <;> grind
  · rename_i hstop
    exact h.acceptLoopEnd (by rw [alive]; rfl) (Bool.eq_false_iff.mpr hstop)
      (Finset.subset_insert _ _) s.nextConn

/-- A connection comes to an end. -/
theorem erase {conn : Nat} (hconn : conn ∈ s.activeConns) :
    Sound (tryFinish { s with activeConns := s.activeConns.erase conn }) := by
  have hcard : (s.activeConns.erase conn \ s.closed).card ≤ (s.activeConns \ s.closed).card :=
    Finset.card_le_card (Finset.sdiff_subset_sdiff (Finset.erase_subset _ _) subset_rfl)
  rw [tryFinish_eq]
  constructor <;> grind

/-- Every step keeps the invariant. -/
theorem step {l : Label} (t : s.step l = some s') : Sound s' := by
  cases l with
  | start bound =>
    simp only [HttpServer.step] at t
    split at t
    · cases t
    · rename_i hearly
      cases t
      exact h.start (Bool.eq_false_iff.mpr hearly) bound
  | shutdownAsync =>
    cases t
    exact h.shutdownAsync
  | handler =>
    obtain ⟨wasRunning, hposted, rfl⟩ := Option.map_eq_some_iff.mp t
    exact h.handler hposted
  | resume =>
    simp only [HttpServer.step] at t
    split at t
    · rename_i hpc
      cases t
      exact h.acceptLoopHead (by rcases hpc with hpc | hpc <;> rw [hpc] <;> rfl)
    · cases t
  | accept ok =>
    simp only [HttpServer.step] at t
    split at t
    · cases ok <;> cases t
      · exact h.acceptFailed ‹_›
      · exact h.accepted ‹_›
    · cases t
  | connection conn ending =>
    simp only [HttpServer.step] at t
    split at t
    · rename_i hconn
      cases t
      cases ending with
      | waiting | thrown => exact ⟨h.1, h.2, h.3, h.4, h.5, h.6, h.7, h.8⟩
      | finished | cancelled => exact h.erase hconn.1
    · cases t

/-- Nothing takes a ready future back. -/
theorem step_ready {l : Label} (t : s.step l = some s') (ready : s.shutdownDoneSent = true) :
    s'.shutdownDoneSent = true := by
  obtain ⟨hdone, hconns⟩ := h.finished.mp ready
  obtain ⟨hpromise, hpc⟩ := h.done.mp hdone
  cases l with
  | handler =>
    obtain ⟨wasRunning, -, rfl⟩ := Option.map_eq_some_iff.mp t
    rw [HttpServer.handler, tryFinish_eq]
    simp [ready]
  | start | shutdownAsync | resume | accept | connection =>
    grind [HttpServer.step, HttpServer.shutdownAsync]

end

end Sound

/-- It holds in every reachable state. -/
theorem Reachable.sound (h : Reachable s) : Sound s := by
  refine Runs.invariant (fun x y hx hstep => ?_) .init h
  obtain ⟨l, t⟩ := hstep
  exact hx.step t

/-- A run from the start is reachable. -/
theorem reachable_after (labels : List Label) : Reachable (Runs.after step init labels) :=
  Runs.run_after step init labels

/-- In every interleaving with no `start` after `shutdown_async`, its future is ready exactly if a
shutdown was requested, the accept loop has returned or, with no loop, the handler has run, and no
connection is left. -/
theorem future_ready_iff (h : Reachable s) : s.shutdownDoneSent = true ↔ s.shutdownPromise = true ∧
      (s.accept = .returned ∨ s.accept = .notSpawned ∧ s.posted = none) ∧ s.activeConns = ∅ := by
  rw [h.sound.finished, h.sound.done, and_assoc]

/-- A run in which the accept loop fails between `shutdown_async` and its handler. -/
def leftOver : HttpServer :=
  Runs.after step init [.start true, .resume, .shutdownAsync, .accept false]

/-- In that run the future is ready with a handler still posted. -/
theorem future_ready_leftOver : leftOver.posted = some true ∧ leftOver.shutdownDoneSent = true :=
  ⟨by decide, (future_ready_iff (reachable_after _)).mpr (by decide)⟩

/-- Once the future is ready, no run without a further `start` brings back an accept loop or a
connection. -/
theorem future_ready_final (h : Reachable s) (ready : s.shutdownDoneSent = true) (run : Run s s') :
    s'.shutdownDoneSent = true ∧ s'.running = false ∧ s'.accept.alive = false ∧
      s'.activeConns = ∅ := by
  obtain ⟨hsound, hready⟩ := Runs.invariant
    (I := fun s => Sound s ∧ s.shutdownDoneSent = true) (fun x y hx hstep => by
      obtain ⟨l, t⟩ := hstep
      exact ⟨hx.1.step t, hx.1.step_ready t hx.2⟩) ⟨h.sound, ready⟩ run
  obtain ⟨hdone, hconns⟩ := hsound.finished.mp hready
  obtain ⟨hpromise, hpc⟩ := hsound.done.mp hdone
  refine ⟨hready, hsound.stopped hpromise, ?_, hconns⟩
  rcases hpc with hpc | ⟨hpc, -⟩ <;> rw [hpc] <;> rfl

/-- The handler that was left over brings nothing back. -/
theorem future_ready_final_handler : leftOver.shutdownDoneSent = true ∧
      (Runs.after step leftOver [.handler]).activeConns = ∅ :=
  ⟨by decide, (future_ready_final (reachable_after _) (by decide)
    (Runs.run_after step leftOver [.handler])).2.2.2⟩

/-- Once the handler of `shutdown_async` has run and the server is not started again, it has closed
all connections but at most one, and all of them while the accept loop goes on. -/
theorem late_connections (h : Reachable s) (requested : s.shutdownPromise = true)
    (handled : s.posted = none) :
    (s.activeConns \ s.closed).card ≤ 1 ∧ (s.accept.alive = true → s.activeConns ⊆ s.closed) :=
  ⟨h.sound.late requested handled, h.sound.swept requested handled⟩

/-- A run in which an accept that was complete is delivered behind the handler. -/
def lateAccept : HttpServer :=
  Runs.after step init [.start true, .resume, .shutdownAsync, .handler, .accept true]

/-- In that run one connection is never closed. -/
theorem late_connections_lateAccept : lateAccept.activeConns \ lateAccept.closed = {0} ∧
      (lateAccept.activeConns \ lateAccept.closed).card ≤ 1 :=
  ⟨by decide, (late_connections (reachable_after _) (by decide) (by decide)).1⟩

end HttpServer

end Http

end CcInfer
