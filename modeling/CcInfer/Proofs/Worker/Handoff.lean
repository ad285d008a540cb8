import CcInfer.Lib.Runs
import CcInfer.Worker.Queue

/-!
# `CcInfer.Proofs.Worker.Handoff`: batches and the end of the worker thread

Two properties of the interleavings of `enqueue_execute_batch`, `worker_loop` and `shutdown`.
-/

set_option autoImplicit false

namespace CcInfer

namespace WorkerQueue

/-- A wake-up changes where a blocked worker stands, and nothing else. -/
theorem wake_eq (s : WorkerQueue) :
    s.wake = s ∨ (s.pc = .blocked ∧ s.wake = { s with pc := .woken }) := by
  unfold wake
  split
  · rename_i hblocked
    exact .inr ⟨hblocked, rfl⟩
  · exact .inl rfl

/-! ### Accepted batches -/

/-- Where the accepted batches are, and what the end of the loop excludes. -/
structure Books (s : WorkerQueue) : Prop where
  accepted : s.accepted =
    s.resolved.map Prod.fst ++ s.pc.pending.map (·.chan) ++ s.queue.map (·.chan)
  nodup : s.accepted.Nodup
  given : ∀ c ∈ s.accepted ++ s.refused, c < s.nextChan
  apart : ∀ c ∈ s.refused, c ∉ s.accepted
  processed : ∀ c ∈ s.processed, c ∈ s.accepted
  client : ∀ p, s.mutex = .client p →
    p.chan < s.nextChan ∧ p.chan ∉ s.accepted ∧ p.chan ∉ s.refused ∧ s.pc ≠ .done
  locked : s.pc.locks = true → s.mutex = .worker
  done : s.pc = .done → s.running = false ∧ s.queue = []

namespace Books

variable {s s' : WorkerQueue}
variable {blockSize : Nat}

theorem init : Books init := by
  constructor <;> simp [WorkerQueue.init, WorkerPc.pending, WorkerPc.locks]

section

variable (h : Books s)
include h

/-- The worker moves without the mutex, between places that hold no batch. -/
theorem moved (pc : WorkerPc) (pending : s.pc.pending = []) (none : pc.pending = [])
    (locks : pc.locks = false) (live : pc ≠ .done) : Books { s with pc := pc } where
  accepted := by
    have := h.accepted
    rwa [pending, ← none] at this
  nodup := h.nodup
  given := h.given
  apart := h.apart
  processed := h.processed
  client p hp := by
    obtain ⟨h1, h2, h3, -⟩ := h.client p hp
    exact ⟨h1, h2, h3, live⟩
  locked hl := by
    rw [show ({ s with pc := pc } : WorkerQueue).pc = pc from rfl, locks] at hl
    cases hl
  done hd := absurd hd live

theorem wake : Books s.wake := by
  rcases s.wake_eq with heq | ⟨hblocked, heq⟩
  · rwa [heq]
  · rw [heq]
    exact h.moved .woken (by rw [hblocked]; rfl) rfl rfl nofun

/-- A new channel: its batch is taken in, or refused. -/
theorem enqueue {batch : ScheduledBatch} (t : s.enqueue batch = some s') : Books s' := by
  unfold WorkerQueue.enqueue at t
  split at t
  · rename_i hfree
    have hlt : ∀ c ∈ s.accepted ++ s.refused, c < s.nextChan + 1 :=
      fun c hc => Nat.lt_succ_of_lt (h.given c hc)
    have hnew : s.nextChan ∉ s.accepted ++ s.refused := fun hc => lt_irrefl _ (h.given _ hc)
    rw [List.mem_append, not_or] at hnew
    have hunlocked : s.pc.locks ≠ true := fun hl => by
      have := h.locked hl
      rw [hfree] at this
      cases this
    split at t
    · rename_i hrunning
      cases t
      refine ⟨h.accepted, h.nodup, hlt, h.apart, h.processed, ?_, fun hl => absurd hl hunlocked,
        h.done⟩
      rintro p hp
      cases hp
      refine ⟨Nat.lt_succ_self _, hnew.1, hnew.2, fun hd => ?_⟩
      rw [(h.done hd).1] at hrunning
      cases hrunning
    · cases t
      refine ⟨h.accepted, h.nodup, ?_, ?_, h.processed, fun p hp => ?_,
        fun hl => absurd hl hunlocked, h.done⟩
      · intro c hc
        rw [← List.append_assoc] at hc
        rcases List.mem_append.mp hc with hc | hc
        · exact hlt c hc
        · rw [List.mem_singleton.mp hc]
          exact Nat.lt_succ_self _
      · intro c hc
        rcases List.mem_append.mp hc with hc | hc
        · exact h.apart c hc
        · rw [List.mem_singleton.mp hc]
          exact hnew.1
      · rw [show s.mutex = .free from hfree] at hp
        cases hp
  · cases t

/-- The batch is queued. -/
theorem push (t : s.push = some s') : Books s' := by
  unfold WorkerQueue.push at t
  split at t
  · rename_i p hp
    cases t
    obtain ⟨hlt, hacc, href, hlive⟩ := h.client p hp
    constructor
    · simp [h.accepted]
    · exact List.nodup_append.mpr ⟨h.nodup, List.nodup_singleton _, fun a ha b hb hab =>
        hacc (by rw [← List.mem_singleton.mp hb, ← hab]; exact ha)⟩
    · intro c hc
      simp only [List.mem_append, List.mem_singleton] at hc
      rcases hc with (hc | rfl) | hc
      · exact h.given c (List.mem_append_left _ hc)
      · exact hlt
      · exact h.given c (List.mem_append_right _ hc)
    · intro c hc hmem
      rcases List.mem_append.mp hmem with hmem | hmem
      · exact h.apart c hc hmem
      · rw [List.mem_singleton.mp hmem] at hc
        exact href hc
    · exact fun c hc => List.mem_append_left _ (h.processed c hc)
    · rintro q hq
      cases hq
    · intro hl
      have := h.locked hl
      rw [hp] at this
      cases this
    · exact fun hd => absurd hd hlive
  · cases t

/-- Every step of the worker loop. -/
theorem work (t : s.work = some s') : Books s' := by
  unfold WorkerQueue.work at t
  -- a thread that waits for the mutex gets it
  have hlock : s.pc.pending = [] → s.mutex = .free →
      Books { s with mutex := .worker, pc := .test } := by
    intro hpending hfree
    refine ⟨?_, h.nodup, h.given, h.apart, h.processed, fun p hp => ?_, fun _ => rfl, nofun⟩
    · have := h.accepted
      rwa [hpending] at this
    · cases hp
  split at t
  · rename_i hpc
    split at t
    · rename_i hfree
      cases t
      exact hlock (by rw [hpc]; rfl) hfree
    · cases t
  · rename_i hpc
    split at t
    · rename_i hfree
      cases t
      exact hlock (by rw [hpc]; rfl) hfree
    · cases t
  · -- the predicate is evaluated
    rename_i hpc
    cases t
    have hmutex := h.locked (by rw [hpc]; rfl)
    have hpending : ∀ pc : WorkerPc, pc = .take ∨ pc = .block → Books { s with pc := pc } := by
      intro pc hcases
      refine ⟨?_, h.nodup, h.given, h.apart, h.processed, fun p hp => ?_, fun _ => hmutex, ?_⟩
      · have := h.accepted
        rw [hpc] at this
        rcases hcases with rfl | rfl <;> exact this
      · rw [show s.mutex = .worker from hmutex] at hp
        cases hp
      · rcases hcases with rfl | rfl <;> exact nofun
    split
    · exact hpending _ (.inl rfl)
    · exact hpending _ (.inr rfl)
  · rename_i hpc
    cases t
    refine ⟨?_, h.nodup, h.given, h.apart, h.processed, nofun, nofun, nofun⟩
    have := h.accepted
    rwa [hpc] at this
  · rename_i hpc
    have hbooks := h.accepted
    rw [hpc] at hbooks
    split at t
    · -- the loop is left with nothing in the queue
      rename_i hend
      cases t
      simp only [Bool.and_eq_true, Bool.not_eq_true', List.isEmpty_iff] at hend
      exact ⟨hbooks, h.nodup, h.given, h.apart, h.processed, nofun, nofun, fun _ => hend⟩
    · cases t
      refine ⟨?_, h.nodup, h.given, h.apart, h.processed, nofun, nofun, nofun⟩
      simpa [WorkerPc.pending] using hbooks
  · rename_i hpc
    cases t
    exact h.moved .lock (by rw [hpc]; rfl) rfl rfl nofun
  · rename_i p rest hpc
    have hbooks := h.accepted
    rw [hpc] at hbooks
    have hmem : p.chan ∈ s.accepted := by
      rw [hbooks]
      simp [WorkerPc.pending]
    split at t
    · cases t
      refine ⟨hbooks, h.nodup, h.given, h.apart, fun c hc => ?_, fun q hq => ?_, nofun, nofun⟩
      · rcases List.mem_append.mp hc with hc | hc
        · exact h.processed c hc
        · rw [List.mem_singleton.mp hc]
          exact hmem
      · obtain ⟨h1, h2, h3, -⟩ := h.client q hq
        exact ⟨h1, h2, h3, nofun⟩
    · cases t
      refine ⟨?_, h.nodup, h.given, h.apart, h.processed, fun q hq => ?_, nofun, nofun⟩
      · simpa [WorkerPc.pending, resolve] using hbooks
      · obtain ⟨h1, h2, h3, -⟩ := h.client q hq
        exact ⟨h1, h2, h3, nofun⟩
  · cases t
  · cases t
  · cases t

/-- A batch is answered on its channel. -/
theorem process {outcome : Outcome} (t : s.process blockSize outcome = some s') : Books s' := by
  unfold WorkerQueue.process at t
  split at t
  · rename_i p rest hpc
    cases t
    have hbooks := h.accepted
    rw [hpc] at hbooks
    refine ⟨?_, h.nodup, h.given, h.apart, h.processed, fun q hq => ?_, nofun, nofun⟩
    · simpa [WorkerPc.pending, resolve] using hbooks
    · obtain ⟨h1, h2, h3, -⟩ := h.client q hq
      exact ⟨h1, h2, h3, nofun⟩
  · cases t

/-- Every step of every party keeps the books. -/
theorem step {l : QueueLabel} (t : s.step blockSize l = some s') : Books s' := by
  unfold WorkerQueue.step at t
  split at t
  · exact h.enqueue t
  · exact h.push t
  · split at t
    · cases t
      exact { h.wake with }
    · cases t
  · exact h.work t
  · exact h.process t
  · split at t
    · rename_i hblocked
      cases t
      exact h.moved .woken (by rw [hblocked]; rfl) rfl rfl nofun
    · cases t
  · split at t
    · cases t
      exact { h with done := fun hd => ⟨rfl, (h.done hd).2⟩ }
    · cases t
  · split at t
    · cases t
      exact { h.wake with }
    · cases t
  · split at t
    · cases t
      exact { h with }
    · cases t

end

theorem reachable (h : Reachable blockSize s) : Books s :=
  Runs.invariant (fun _ _ hs ⟨_, t⟩ => hs.step t) init h

end Books

/-- In every interleaving: the resolved channels are a beginning of the accepted ones, in their
order and each once; they are all of them when `worker_loop` has returned; and a refused batch
is neither processed nor resolved. -/
theorem batches_resolved {blockSize : Nat} {s : WorkerQueue} (h : Reachable blockSize s) :
    s.accepted.Nodup ∧ s.resolved.map Prod.fst <+: s.accepted ∧
    (s.pc = .done → s.resolved.map Prod.fst = s.accepted) ∧
    ∀ c ∈ s.refused, c ∉ s.accepted ∧ c ∉ s.processed ∧ c ∉ s.resolved.map Prod.fst := by
  have books := Books.reachable h
  have hbegin : s.resolved.map Prod.fst <+: s.accepted :=
    ⟨_, by rw [← List.append_assoc]; exact books.accepted.symm⟩
  refine ⟨books.nodup, hbegin, fun hdone => ?_, fun c hc => ?_⟩
  · have haccepted := books.accepted
    rw [hdone, (books.done hdone).2] at haccepted
    simpa [WorkerPc.pending] using haccepted.symm
  · have hnot := books.apart c hc
    exact ⟨hnot, fun hp => hnot (books.processed c hp), fun hr => hnot (hbegin.subset hr)⟩

/-- A batch of one item. -/
def oneChunk (batchId : Nat) : ScheduledBatch where
  batchId := batchId
  items := [.prefill ⟨1, ⟨0, 2⟩, some 0, true, [11, 12], [0]⟩]
  sampling := {}

/-- Two batches are accepted. The first one is processed; then `running_` is cleared, a third
batch is refused, and the second one is answered with the error. -/
def drainedQueue : WorkerQueue :=
  after 2 ([.enqueue (oneChunk 0), .push, .notifyOne, .work, .work, .work, .work,
    .enqueue (oneChunk 1), .push, .process (.sampled [7]), .store, .enqueue (oneChunk 2)] ++
    List.replicate 9 .work ++ [.notifyAll, .join])

theorem batches_resolved_drainedQueue :
    (drainedQueue.pc = .done ∧ drainedQueue.shutdown = .returned ∧
      drainedQueue.accepted = [0, 1] ∧ drainedQueue.refused = [2] ∧ drainedQueue.processed = [0]) ∧
    drainedQueue.accepted.Nodup ∧ drainedQueue.resolved.map Prod.fst <+: drainedQueue.accepted ∧
    (drainedQueue.pc = .done → drainedQueue.resolved.map Prod.fst = drainedQueue.accepted) ∧
    ∀ c ∈ drainedQueue.refused, c ∉ drainedQueue.accepted ∧ c ∉ drainedQueue.processed ∧
      c ∉ drainedQueue.resolved.map Prod.fst :=
  ⟨by decide +kernel, batches_resolved (reachable_after _ _)⟩

/-! ### The end of the worker thread -/

/-- The worker is blocked, although it should end and `shutdown` waits for that. -/
def Missed (s : WorkerQueue) : Prop :=
  s.pc = .blocked ∧ s.running = false ∧ s.shutdown = .joining

/-- The worker has seen a false predicate and is about to block. -/
def InWindow (s : WorkerQueue) : Prop := s.pc = .block

/-- A step, where `notify_all` is not called in the window. -/
def GuardedNext (blockSize : Nat) (s s' : WorkerQueue) : Prop :=
  ∃ l, s.step blockSize l = some s' ∧ (l = .notifyAll → ¬ s.InWindow)

/-- The worker neither is blocked nor about to block. -/
def Awake (s : WorkerQueue) : Prop := s.pc ≠ .block ∧ s.pc ≠ .blocked

section Window

variable {blockSize : Nat} {s s' : WorkerQueue}

/-- A step of the worker thread leaves the flag and the place of `shutdown` alone. With the
flag cleared, the predicate is true and an awake worker stays awake. -/
theorem work_frame (t : s.work = some s') : s'.running = s.running ∧ s'.shutdown = s.shutdown ∧
    (s.running = false → s.Awake → s'.Awake) := by
  unfold work at t
  split at t
  · split at t <;> cases t
    exact ⟨rfl, rfl, fun _ _ => ⟨nofun, nofun⟩⟩
  · split at t <;> cases t
    exact ⟨rfl, rfl, fun _ _ => ⟨nofun, nofun⟩⟩
  · cases t
    refine ⟨rfl, rfl, fun hrunning _ => ?_⟩
    simp [Awake, hrunning]
  · rename_i hpc
    cases t
    exact ⟨rfl, rfl, fun _ hawake => absurd hpc hawake.1⟩
  · split at t <;> cases t <;> exact ⟨rfl, rfl, fun _ _ => ⟨nofun, nofun⟩⟩
  · cases t
    exact ⟨rfl, rfl, fun _ _ => ⟨nofun, nofun⟩⟩
  · split at t <;> cases t <;> exact ⟨rfl, rfl, fun _ _ => ⟨nofun, nofun⟩⟩
  · cases t
  · cases t
  · cases t

/-- A wake-up moves a blocked worker only. -/
theorem wake_frame (s : WorkerQueue) :
    s.wake.running = s.running ∧ s.wake.shutdown = s.shutdown ∧ s.wake.pc ≠ .blocked ∧
    (s.pc ≠ .block → s.wake.Awake) ∧ (s.pc = .block → s.wake = s) := by
  rcases s.wake_eq with heq | ⟨hblocked, heq⟩
  · have hpc : s.pc ≠ .blocked := fun hblocked => by
      have := congrArg WorkerQueue.pc heq
      rw [wake, if_pos hblocked, hblocked] at this
      cases this
    rw [heq]
    exact ⟨rfl, rfl, hpc, fun hne => ⟨hne, hpc⟩, fun _ => rfl⟩
  · rw [heq]
    refine ⟨rfl, rfl, nofun, fun _ => ⟨nofun, nofun⟩, fun hblock => ?_⟩
    rw [hblocked] at hblock
    cases hblock

/-- What a step does to the flag, to `shutdown` and to an awake worker. -/
theorem step_frame {l : QueueLabel} (t : s.step blockSize l = some s') :
    (s.running = false → s'.running = false) ∧ (s.running = false → s.Awake → s'.Awake) ∧
    (s'.shutdown = s.shutdown ∨ l = .store ∧ s'.running = false ∧ s'.shutdown = .stored ∨
      l = .notifyAll ∧ s.shutdown = .stored ∧ s' = { s.wake with shutdown := .joining } ∨
      l = .join ∧ s.shutdown = .joining ∧ s'.shutdown = .returned) := by
  obtain ⟨hrunning, hshutdown, hnot, hawake, -⟩ := s.wake_frame
  unfold step at t
  split at t
  · unfold enqueue at t
    split at t
    · split at t <;> cases t <;> exact ⟨id, fun _ => id, .inl rfl⟩
    · cases t
  · unfold push at t
    split at t <;> cases t
    exact ⟨id, fun _ => id, .inl rfl⟩
  · split at t <;> cases t
    exact ⟨hrunning.trans, fun _ h => hawake h.1, .inl hshutdown⟩
  · obtain ⟨h1, h2, h3⟩ := work_frame t
    exact ⟨h1.trans, h3, .inl h2⟩
  · unfold process at t
    split at t <;> cases t
    exact ⟨id, fun _ _ => ⟨nofun, nofun⟩, .inl rfl⟩
  · split at t <;> cases t
    exact ⟨id, fun _ _ => ⟨nofun, nofun⟩, .inl rfl⟩
  · split at t <;> cases t
    exact ⟨fun _ => rfl, fun _ => id, .inr (.inl ⟨rfl, rfl, rfl⟩)⟩
  · split at t <;> cases t
    rename_i hstored
    exact ⟨hrunning.trans, fun _ h => hawake h.1, .inr (.inr (.inl ⟨rfl, hstored, rfl⟩))⟩
  · split at t <;> cases t
    rename_i hjoin
    exact ⟨id, fun _ => id, .inr (.inr (.inr ⟨rfl, hjoin.1, rfl⟩))⟩

/-- `shutdown` has cleared the flag once it has started. -/
theorem Reachable.cleared (h : Reachable blockSize s) (started : s.shutdown ≠ .idle) :
    s.running = false := by
  refine Runs.invariant (I := fun s => s.shutdown ≠ .idle → s.running = false) ?_
    (fun hne => absurd rfl hne) h started
  rintro x y hx ⟨l, t⟩ hstarted
  obtain ⟨hclear, -, hshutdown⟩ := step_frame t
  rcases hshutdown with heq | ⟨-, hcleared, -⟩ | ⟨-, hstored, -⟩ | ⟨-, hjoining, -⟩
  · exact hclear (hx (heq ▸ hstarted))
  · exact hcleared
  · exact hclear (hx (by rw [hstored]; exact nofun))
  · exact hclear (hx (by rw [hjoining]; exact nofun))

/-- With the flag cleared, a worker that is awake never blocks again. -/
theorem awake_steps (steps : Relation.ReflTransGen (Next blockSize) s s')
    (cleared : s.running = false) (awake : s.Awake) : s'.running = false ∧ s'.Awake :=
  Runs.invariant (I := fun s => s.running = false ∧ s.Awake)
    (fun _ _ h ⟨_, t⟩ => ⟨(step_frame t).1 h.1, (step_frame t).2.1 h.1 h.2⟩) ⟨cleared, awake⟩ steps

end Window

/-- If no `notify_all` falls into the window between a false predicate and the blocking of the
worker, then `shutdown` is never missed. And whenever `notify_all` is called, it depends on
this window alone whether `shutdown` can be missed afterwards. -/
theorem missed_iff {blockSize : Nat} :
    (∀ s, Relation.ReflTransGen (GuardedNext blockSize) init s → ¬ s.Missed) ∧
    ∀ s s', Reachable blockSize s → s.step blockSize .notifyAll = some s' →
      ((∀ s'', Relation.ReflTransGen (Next blockSize) s' s'' → ¬ s''.Missed) ↔ ¬ s.InWindow) := by
  constructor
  · intro s h hmissed
    have hinvariant : (s.shutdown ≠ .idle → s.running = false) ∧
        (s.shutdown = .joining ∨ s.shutdown = .returned → s.Awake) := by
      refine Runs.invariant (I := fun s : WorkerQueue =>
        (s.shutdown ≠ .idle → s.running = false) ∧
          (s.shutdown = .joining ∨ s.shutdown = .returned → s.Awake)) ?_
        ⟨fun hne => absurd rfl hne, fun hor => by rcases hor with h | h <;> cases h⟩ h
      rintro x y ⟨hclear, hawake⟩ ⟨l, t, hguard⟩
      obtain ⟨hkeep, hstay, hshutdown⟩ := step_frame t
      rcases hshutdown with heq | ⟨-, hcleared, hstored⟩ | ⟨rfl, hstored, rfl⟩ |
        ⟨-, hjoining, hreturned⟩
      · rw [heq]
        refine ⟨fun hne => hkeep (hclear hne), fun hor => hstay (hclear ?_) (hawake hor)⟩
        rcases hor with h | h <;> rw [h] <;> exact nofun
      · rw [hstored]
        exact ⟨fun _ => hcleared, fun hor => by rcases hor with h | h <;> cases h⟩
      · have hcleared := hclear (by rw [hstored]; exact nofun)
        exact ⟨fun _ => hkeep hcleared, fun _ => x.wake_frame.2.2.2.1 (hguard rfl)⟩
      · have hcleared := hclear (by rw [hjoining]; exact nofun)
        exact ⟨fun _ => hkeep hcleared, fun _ => hstay hcleared (hawake (.inl hjoining))⟩
    exact (hinvariant.2 (.inl hmissed.2.2)).2 hmissed.1
  · intro s s' h notify
    have hstep : (if s.shutdown = .stored then some { s.wake with shutdown := .joining }
      else none) = some s' := notify
    obtain ⟨hstored, hs'⟩ := Option.ite_none_right_eq_some.mp hstep
    cases hs'
    have hcleared := h.cleared (by rw [hstored]; exact nofun)
    obtain ⟨hrunning, -, -, hawake, hsame⟩ := s.wake_frame
    constructor
    · -- in the window the worker goes on to block
      intro hnever hwindow
      have hwake := hsame hwindow
      rw [hwake] at hnever
      refine hnever { s with mutex := .free, pc := .blocked, shutdown := .joining } (.single
        ⟨.work, ?_⟩) ⟨rfl, hcleared, rfl⟩
      have hpc : s.pc = .block := hwindow
      simp [step, work, hpc]
    · intro hwindow s'' steps hmissed
      have := awake_steps steps (hrunning.trans hcleared) (hawake hwindow)
      exact this.2.2 hmissed.1

/-- `shutdown` clears the flag and notifies after the worker has found its predicate false. -/
def missedQueue : WorkerQueue :=
  after 2 [.work, .work, .store, .notifyAll, .work]

/-- The worker is blocked, `shutdown` waits in `join`, and no thread has a step left that would
wake the worker: a new call is refused, and nothing is left to notify. -/
theorem shutdown_missed : Reachable 2 missedQueue ∧ missedQueue.Missed ∧
    (∀ l, l = .push ∨ l = .notifyOne ∨ l = .work ∨ l = .store ∨ l = .notifyAll ∨ l = .join →
      (missedQueue.step 2 l).isNone = true) ∧
    (missedQueue.step 2 (.enqueue (oneChunk 0))).map (fun s => (s.pc, s.refused)) =
      some (.blocked, [0]) := by
  refine ⟨reachable_after _ _, ⟨by decide +kernel, by decide +kernel, by decide +kernel⟩, ?_,
    by decide +kernel⟩
  rintro l (rfl | rfl | rfl | rfl | rfl | rfl) <;> decide +kernel

/-- The first two steps of the worker and of `shutdown` in another order. -/
def seenQueue : WorkerQueue := after 2 [.work, .store]

theorem missed_iff_seenQueue : seenQueue.pc = .test ∧ ∀ s', seenQueue.step 2 .notifyAll = some s' →
      ∀ s'', Relation.ReflTransGen (Next 2) s' s'' → ¬ s''.Missed := by
  have hpc : seenQueue.pc = .test := by decide +kernel
  refine ⟨hpc, fun s' notify => ?_⟩
  refine (missed_iff.2 seenQueue s' (reachable_after _ _) notify).mpr fun hwindow => ?_
  rw [InWindow, hpc] at hwindow
  cases hwindow

end WorkerQueue

end CcInfer
