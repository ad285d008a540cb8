import CcInfer.Invariant.Control
import CcInfer.Invariant.Core

/-!
# `CcInfer.Refine.Queues`: handlers, sweeps and shortages are transactions

The functions of the Scheduler that move requests between the queues: the posted handlers,
the removal of terminal requests, preemption, the shutdown sweeps, and the two answers to a
shortage of blocks. Each is a run of transactions (`Does`). Inside such a function an index
may lag behind another one, so a proof compares the states before and after it.
-/

set_option autoImplicit false

namespace CcInfer

open Runs Scheduler

/-- The Scheduler gets from `s` to `s'` by transactions, with `flight` in flight before and
`flight'` after, beside a worker that does nothing. -/
def Does (k : Worker) (s : Scheduler) (flight : List FlightItem) (s' : Scheduler)
    (flight' : List FlightItem) : Prop :=
  Under Core World.Step (World.of s flight k) (World.of s' flight' k)

namespace Does

variable {k : Worker} {s s' s'' : Scheduler} {fl fl' fl'' : List FlightItem}

theorem refl : Does k s fl s fl := Under.refl

theorem of_eq (h : World.of s' fl' k = World.of s fl k) : Does k s fl s' fl' := Under.of_eq h.symm

theorem trans (h : Does k s fl s' fl') (h' : Does k s' fl' s'' fl'') : Does k s fl s'' fl'' :=
  Under.trans (fun _ _ h t => h.step t) h h'

/-- One transaction, up to the way its result is written. -/
theorem single {w : World} (h : Core (World.of s fl k) → World.Step (World.of s fl k) w)
    (hw : Core (World.of s fl k) → World.of s' fl' k = w) : Does k s fl s' fl' := by
  intro hcore
  rw [hw hcore]
  exact .single (h hcore)

end Does

section

variable (s : Scheduler) (fl : List FlightItem) (k : Worker)

/-! ### Small operations -/

theorem World.of_loadAccepting : World.of s.loadAccepting.2 fl k = World.of s fl k := by
  unfold loadAccepting
  split <;> rfl

theorem World.of_sendErrorEvent (p : RequestPtr) (err : ErrorCode) :
    World.of (s.sendErrorEvent p err) fl k =
      ((World.of s fl k).setRequest p { s.heap p with status := .failed }).log
        [.statusSet p .failed, .sent p (.error err)] := by
  simp [World.of, World.log, World.setRequest, Scheduler.sendErrorEvent, Scheduler.sendEvent,
    Scheduler.setStatus, Scheduler.setRequest, Scheduler.log]

theorem World.of_sendTerminalEvent (p : RequestPtr) : World.of (s.sendTerminalEvent p) fl k =
      ((World.of s fl k).setRequest p { s.heap p with status := .finished }).log
        [.statusSet p .finished, .sent p (.ok { hasToken := false, finished := true })] := by
  simp [World.of, World.log, World.setRequest, Scheduler.sendTerminalEvent, Scheduler.sendEvent,
    Scheduler.setStatus, Scheduler.setRequest, Scheduler.log]

theorem World.of_completeShutdown : World.of s.completeShutdown fl k = World.of s fl k := by
  unfold completeShutdown
  split <;> rfl

end

namespace Scheduler

variable (s : Scheduler) {p : RequestPtr}

/-- An assertion that is not tracked leaves its mark in the log of assertions only. -/
theorem assert_eq (b : Bool) {site : AssertSite} (h : site.tracked = false) :
    ∃ asserts, s.assert b site = { s with failedAsserts := asserts } ∧
      asserts.filter AssertSite.tracked = s.failedAsserts.filter AssertSite.tracked := by
  unfold assert
  split
  · exact ⟨_, rfl, rfl⟩
  · exact ⟨_, rfl, by simp [List.filter_append, h]⟩

/-- A failed assertion changes neither heap nor blocks nor trace. -/
@[simp] theorem assert_frame (b : Bool) (site : AssertSite) : (s.assert b site).heap = s.heap ∧
    (s.assert b site).kv = s.kv ∧ (s.assert b site).trace = s.trace := by
  unfold assert
  split <;> exact ⟨rfl, rfl, rfl⟩

theorem world_assert (fl : List FlightItem) (k : Worker) (b : Bool) {site : AssertSite}
    (h : site.tracked = false) : World.of (s.assert b site) fl k = World.of s fl k := by
  obtain ⟨asserts, heq, hfilter⟩ := s.assert_eq b h
  rw [heq]
  simp [World.of, hfilter]

/-- The release of a scheduling state, in one update. -/
theorem releaseSchedulingBlocks_eq (p : RequestPtr) :
    s.releaseSchedulingBlocks p =
      { s with
        heap := Function.update s.heap p { s.heap p with scheduling := none }
        bySeqId := match (s.heap p).scheduling with
          | none => s.bySeqId
          | some sc => Function.update s.bySeqId sc.seqId none
        kv := s.kv.releaseRequestBlocks
          (((s.heap p).scheduling.map (·.blockTable)).getD []) } := by
  unfold releaseSchedulingBlocks
  rcases hsc : (s.heap p).scheduling with _ | sc
  · have hheap : Function.update s.heap p { s.heap p with scheduling := none } = s.heap :=
      Function.update_eq_self_iff.mpr (by rw [← hsc])
    simp only [hheap]
    rfl
  · rfl

/-- Erasing an unscheduled request fails no assertion. -/
theorem eraseRequest_eq (h : (s.heap p).scheduling = none) :
    s.eraseRequest p =
      { s with
        requests := s.requests.filter (fun e => e.1 ≠ (s.heap p).requestId)
        trace := s.trace ++ [.erased p] } := by
  simp [eraseRequest, assert, h]

/-- The Scheduler after it has released and erased `p`, with `notes` to the executor and a
last event or silently, apart from the queue that held it. -/
def forgotten (p : RequestPtr) (notes : List Obs) (event : Option SinkEvent) : Scheduler :=
  { s with
    heap := Function.update s.heap p { s.heap p with scheduling := none }
    bySeqId := match (s.heap p).scheduling with
      | none => s.bySeqId
      | some sc => Function.update s.bySeqId sc.seqId none
    kv := s.kv.releaseRequestBlocks (((s.heap p).scheduling.map (·.blockTable)).getD [])
    requests := s.requests.filter (fun e => e.1 ≠ (s.heap p).requestId)
    trace := s.trace ++ (notes ++ ((event.map (Obs.sent p)).toList ++ [.erased p])) }

theorem erase_release (p : RequestPtr) :
    (s.releaseSchedulingBlocks p).eraseRequest p = s.forgotten p [] none := by
  rw [eraseRequest_eq _ (by simp [releaseSchedulingBlocks_eq])]
  simp [releaseSchedulingBlocks_eq, forgotten]

theorem dropWith_eq (p : RequestPtr) (event : SinkEvent) :
    s.dropWith p event = s.forgotten p [] (some event) := by
  unfold dropWith
  rw [eraseRequest_eq _ (by simp [releaseSchedulingBlocks_eq, sendEvent, log])]
  simp [releaseSchedulingBlocks_eq, sendEvent, log, forgotten]

/-- `prepare_for_wait` and the release of the scheduling state `sc`. -/
theorem prepare_release {s : Scheduler} {sc : SequenceSchedulingState}
    (hsc : (s.heap p).scheduling = some sc) :
    (s.prepareForWait p).releaseSchedulingBlocks p =
      { s with
        heap := Function.update s.heap p (s.heap p).parked
        bySeqId := Function.update s.bySeqId sc.seqId none
        kv := s.kv.releaseRequestBlocks sc.blockTable } := by
  rw [releaseSchedulingBlocks_eq]
  unfold prepareForWait RequestState.parked
  by_cases hempty : (s.heap p).generatedTokens = [] <;> simp [setRequest, hsc, hempty]

/-- `release_sequence` is a note to the executor. -/
theorem releaseSequence_eq (p : RequestPtr) :
    s.releaseSequence p = { s with trace := s.trace ++ (s.heap p).releaseNotes } := by
  unfold releaseSequence RequestState.releaseNotes
  rcases (s.heap p).scheduling with _ | sc <;> simp [log]

/-- One round of the second loop of `cleanup_terminal_requests`. -/
theorem cleanupRunning_eq (p : RequestPtr) :
    s.cleanupRunning p =
      { s.forgotten p (s.heap p).releaseNotes none with
        running := s.running.erase p
        admissionPaused := false } := by
  simp only [cleanupRunning, releaseSequence_eq]
  rw [eraseRequest_eq _ (by simp [releaseSchedulingBlocks_eq])]
  simp [releaseSchedulingBlocks_eq, forgotten]

/-- What `cleanup_terminal_queue` tells the executor about `p`. -/
def queueNotes (p : RequestPtr) : List Obs :=
  if s.terminalIdle p then (s.heap p).releaseNotes else []

/-- The round of `cleanup_terminal_queue` that removes `p`. -/
theorem cleanupQueueLoop_cons {active rest : List RequestPtr}
    (inactive : (s.heap p).status ≠ .active) : s.cleanupQueueLoop active (p :: rest) =
      (s.forgotten p (s.queueNotes p) none).cleanupQueueLoop active rest := by
  have hnotes : (if s.terminalIdle p then s.releaseSequence p else s) =
      { s with trace := s.trace ++ s.queueNotes p } := by
    unfold queueNotes
    split <;> simp [releaseSequence_eq]
  rw [cleanupQueueLoop, if_neg inactive]
  simp only [hnotes, erase_release]
  simp [forgotten]

/-- An unscheduled request has nothing to release. -/
theorem sendEvent_erase (h : (s.heap p).scheduling = none) (event : SinkEvent) :
    (s.sendEvent p event).2.eraseRequest p = s.forgotten p [] (some event) := by
  rw [← dropWith_eq]
  unfold dropWith releaseSchedulingBlocks
  rw [h]

end Scheduler

/-! ### Leaving the engine -/

namespace Core

variable {w : World} {p : RequestPtr} {sc : SequenceSchedulingState}

/-- A request owns the references its table stands for, so it can release them. -/
theorem release (h : Core w) (hp : p < w.nextPtr) :
    w.kv.Moves (w.kv.releaseRequestBlocks (w.tableOf p)) [] (w.tableOf p) [] := by
  refine (KvBlocks.releaseRequestBlocks_spec h.ownership.inv _ fun b => ?_).1
  have hcount := Tables.count_le_total (f := w.tableOf) b hp
  have href := h.ownership.ref b
  omega

theorem drop (h : Core w) {notes : List Obs} {event : Option SinkEvent} (live : w.Live p)
    (idle : ∀ sc, w.Scheduled p sc → sc.reservation.executionLeases = 0)
    (last : ∀ e, event = some e → e.closing = true ∧ (p ∈ w.waiting ∨ p ∈ w.skip))
    (silent : event = none → (w.heap p).status ≠ .active)
    (released : notes = (w.heap p).releaseNotes ∨ (notes = [] ∧ w.closing = true)) :
    World.Step w (w.dropped p (w.kv.releaseRequestBlocks (w.tableOf p))
      (notes ++ ((event.map (Obs.sent p)).toList ++ [.erased p]))) :=
  .drop w p _ event live idle last silent (h.release (h.positions.allocated p live)) notes released

/-- Requests outside `running_` hold no lease. -/
theorem queued_idle (h : Core w) (hp : p ∈ w.waiting ∨ p ∈ w.skip) (hsc : w.Scheduled p sc) :
    sc.reservation.executionLeases = 0 := by
  rcases hp with hp | hp
  · rw [World.Scheduled, h.waiting_unscheduled hp] at hsc
    cases hsc
  · exact h.skip_idle hp hsc

/-- A request is in one queue only. -/
theorem waiting_only (h : Core w) (hp : p ∈ w.waiting) :
    w.skip.erase p = w.skip ∧ w.running.erase p = w.running := by
  have := h.positions.nodup
  constructor <;> refine List.erase_of_not_mem ?_ <;> grind

theorem skip_only (h : Core w) (hp : p ∈ w.skip) :
    w.waiting.erase p = w.waiting ∧ w.running.erase p = w.running := by
  have := h.positions.nodup
  constructor <;> refine List.erase_of_not_mem ?_ <;> grind

theorem running_only (h : Core w) (hp : p ∈ w.running) :
    w.waiting.erase p = w.waiting ∧ w.skip.erase p = w.skip := by
  have := h.positions.nodup
  constructor <;> refine List.erase_of_not_mem ?_ <;> grind

end Core

section

variable {s : Scheduler} {fl : List FlightItem} {k : Worker} {p : RequestPtr}
  {rest : List RequestPtr}

/-- A request leaves its queue and the engine. -/
theorem Does.forget (notes : List Obs) (event : Option SinkEvent)
    (live : Core (World.of s fl k) → (World.of s fl k).Live p)
    (idle : Core (World.of s fl k) →
      ∀ sc, (World.of s fl k).Scheduled p sc → sc.reservation.executionLeases = 0)
    (last : ∀ e, event = some e → e.closing = true ∧ (p ∈ s.waiting ∨ p ∈ s.skip))
    (silent : event = none → (s.heap p).status ≠ .active)
    (released : Core (World.of s fl k) →
      notes = (s.heap p).releaseNotes ∨ (notes = [] ∧ s.shutdownRequested = true)) :
    Does k s fl { s.forgotten p notes event with
      waiting := s.waiting.erase p
      skip := s.skip.erase p
      running := s.running.erase p } fl :=
  .single (fun h => h.drop (live h) (idle h) last silent (released h)) fun _ => rfl

/-- The front of `waiting_` leaves with a last event. -/
theorem Does.forget_waiting {event : SinkEvent} (front : s.waiting = p :: rest)
    (last : event.closing = true) :
    Does k s fl ({ s with waiting := rest }.forgotten p [] (some event)) fl := by
  have hp : p ∈ (World.of s fl k).waiting := by simp [World.of, front]
  intro h
  obtain ⟨hskip, hrunning⟩ := h.waiting_only hp
  have hnotes : (s.heap p).releaseNotes = [] := by
    rw [RequestState.releaseNotes, show (s.heap p).scheduling = none from h.waiting_unscheduled hp]
    rfl
  have hdoes : Does k s fl _ fl := Does.forget [] (some event)
    (fun _ => .inl hp) (fun h _ => h.queued_idle (.inl hp))
    (fun e he => by cases he; exact ⟨last, .inl hp⟩) (by simp) (fun _ => .inl hnotes.symm)
  rw [show s.skip.erase p = s.skip from hskip, show s.running.erase p = s.running from hrunning,
    front, List.erase_cons_head] at hdoes
  exact hdoes h

/-- The front of `skip_` leaves with a last event, after a shutdown was requested. -/
theorem Does.forget_skip {event : SinkEvent} (front : s.skip = p :: rest)
    (last : event.closing = true) (closing : s.shutdownRequested = true) :
    Does k s fl ({ s with skip := rest }.forgotten p [] (some event)) fl := by
  have hp : p ∈ (World.of s fl k).skip := by simp [World.of, front]
  intro h
  obtain ⟨hwaiting, hrunning⟩ := h.skip_only hp
  have hdoes : Does k s fl _ fl := Does.forget [] (some event)
    (fun _ => .inr (.inl hp)) (fun h _ => h.queued_idle (.inr hp))
    (fun e he => by cases he; exact ⟨last, .inr hp⟩) (by simp) (fun _ => .inr ⟨rfl, closing⟩)
  rw [show s.waiting.erase p = s.waiting from hwaiting,
    show s.running.erase p = s.running from hrunning, front, List.erase_cons_head] at hdoes
  exact hdoes h

end

/-! ### Handlers -/

namespace Does

variable {s : Scheduler} {fl : List FlightItem} {k : Worker} {p : RequestPtr}

/-- A note about no request. -/
theorem note {o : Obs} (quiet : ∃ id err, o = .rejected id err) : Does k s fl (s.log o) fl :=
  .single (fun _ => .note _ o quiet) (fun _ => rfl)

/-- `submit_on_scheduler_thread` registers or refuses. -/
theorem submit (req : SchedulerRequest) : Does k s fl (s.submitOnSchedulerThread req) fl := by
  unfold submitOnSchedulerThread
  split
  · exact note ⟨_, _, rfl⟩
  · rename_i hfind
    split
    · exact note ⟨_, _, rfl⟩
    · rename_i hroom
      refine .single (fun _ => .register _ req (fun e he heq => hfind ?_) (not_le.mp hroom))
        (fun _ => rfl)
      rw [findRequest, Option.isSome_map, List.find?_isSome]
      exact ⟨e, he, by simp [heq]⟩

/-- `requests_.find` finds live requests only. -/
theorem find_live (h : Core (World.of s fl k)) {requestId : String}
    (find : s.findRequest requestId = some p) : (World.of s fl k).Live p := by
  obtain ⟨⟨id, q⟩, hq, rfl⟩ := Option.map_eq_some_iff.mp find
  exact (h.positions.registered _).mp ⟨id, List.mem_of_find?_eq_some hq⟩

/-- `cancel_on_scheduler_thread` cancels an active request. -/
theorem cancel (requestId : String) : Does k s fl (s.cancelOnSchedulerThread requestId) fl := by
  unfold cancelOnSchedulerThread
  split
  · exact refl
  · rename_i p find
    split
    · rename_i active
      exact .single (fun h => .cancel _ p (find_live h find) active) (fun _ => rfl)
    · exact refl

/-! ### Shutdown sweeps -/

theorem failWaitingLoop (err : ErrorCode) (queue : List RequestPtr) :
    ∀ s : Scheduler, s.waiting = queue → Does k s fl (s.failWaitingLoop err queue) fl := by
  induction queue with
  | nil => intro s _; exact refl
  | cons _ _ ih =>
    intro s front
    rw [Scheduler.failWaitingLoop, Scheduler.dropWith_eq]
    exact (forget_waiting front rfl).trans (ih _ rfl)

theorem failSkipLoop (err : ErrorCode) (queue : List RequestPtr) :
    ∀ s : Scheduler, s.skip = queue → s.shutdownRequested = true →
      Does k s fl (s.failSkipLoop err queue) fl := by
  induction queue with
  | nil => intro s _ _; exact refl
  | cons _ _ ih =>
    intro s front closing
    rw [Scheduler.failSkipLoop, Scheduler.dropWith_eq]
    exact (forget_skip front rfl closing).trans (ih _ rfl closing)

/-- `fail_all_waiting` drops the requests outside `running_`. -/
theorem failAllWaiting (err : ErrorCode) (closing : s.shutdownRequested = true) :
    Does k s fl (s.failAllWaiting err) fl := by
  have hcontrol := control_failWaitingLoop err s.waiting s rfl
  refine (failWaitingLoop err s.waiting s rfl).trans (failSkipLoop err _ _ rfl ?_)
  exact (congrArg (fun c => c.flags.shutdownRequested) hcontrol).trans closing

/-- A running request that is not active any more leaves silently, once nothing of it is in
flight. -/
theorem leave_running {notes : List Obs} (hp : p ∈ s.running) (idle : Core (World.of s fl k) →
      ∀ sc, (World.of s fl k).Scheduled p sc → sc.reservation.executionLeases = 0)
    (inactive : (s.heap p).status ≠ .active)
    (released : notes = (s.heap p).releaseNotes ∨ (notes = [] ∧ s.shutdownRequested = true)) :
    Does k s fl { s.forgotten p notes none with running := s.running.erase p } fl := by
  intro h
  obtain ⟨hwaiting, hskip⟩ := h.running_only hp
  have hdoes : Does k s fl _ fl := Does.forget notes none
    (fun _ => .inr (.inr hp)) idle nofun (fun _ => inactive) (fun _ => released)
  rw [show s.waiting.erase p = s.waiting from hwaiting, show s.skip.erase p = s.skip from hskip]
    at hdoes
  exact hdoes h

/-- One round of `cleanup_all_running`, with nothing in flight. -/
theorem shutdownRunning (err : ErrorCode) (hp : p ∈ s.running)
    (closing : s.shutdownRequested = true) : Does k s [] (s.shutdownRunning err p) [] := by
  have hleave : ∀ s : Scheduler, p ∈ s.running → s.shutdownRequested = true →
      (s.heap p).status ≠ .active →
      Does k s [] ({ s.releaseSchedulingBlocks p with
        running := (s.releaseSchedulingBlocks p).running.erase p }.eraseRequest p) [] := by
    intro s hp closing inactive
    have heq : { s.releaseSchedulingBlocks p with
        running := (s.releaseSchedulingBlocks p).running.erase p }.eraseRequest p =
        { s.forgotten p [] none with running := s.running.erase p } := by
      rw [Scheduler.eraseRequest_eq _ (by simp [Scheduler.releaseSchedulingBlocks_eq])]
      simp [Scheduler.releaseSchedulingBlocks_eq, Scheduler.forgotten]
    rw [heq]
    exact leave_running hp (fun h sc hsc => h.leases hsc) inactive (.inr ⟨rfl, closing⟩)
  unfold Scheduler.shutdownRunning
  split
  · exact refl
  · simp only
    split
    · rename_i active
      refine .trans
        (.single (fun _ => .fail _ p err hp active) fun _ => World.of_sendErrorEvent s [] k p err)
        (hleave (s.sendErrorEvent p err) hp closing ?_)
      simp [Scheduler.sendErrorEvent, Scheduler.sendEvent, Scheduler.setStatus,
        Scheduler.setRequest, Scheduler.log]
    · rename_i inactive
      exact hleave s hp closing inactive

/-- A loop over distinct requests, where a round for one request does not disturb the
others. -/
theorem foldl {f : Scheduler → RequestPtr → Scheduler} {P : Scheduler → RequestPtr → Prop}
    (round : ∀ s p, P s p → Does k s fl (f s p) fl)
    (apart : ∀ s p q, P s p → P s q → q ≠ p → P (f s p) q) (queue : List RequestPtr) :
    ∀ s : Scheduler, queue.Nodup → (∀ p ∈ queue, P s p) → Does k s fl (queue.foldl f s) fl := by
  induction queue with
  | nil => intro s _ _; exact refl
  | cons p _ ih =>
    intro s hnodup hall
    obtain ⟨hp, hrest⟩ := List.nodup_cons.mp hnodup
    have hPp := hall p List.mem_cons_self
    refine (round s p hPp).trans (ih _ hrest fun q hq => ?_)
    exact apart s p q hPp (hall q (List.mem_cons_of_mem _ hq)) (fun heq => hp (heq ▸ hq))

/-- `cleanup_all_running`, with nothing in flight. -/
theorem cleanupAllRunning (err : ErrorCode) (closing : s.shutdownRequested = true) :
    Does k s [] (s.cleanupAllRunning err) [] := by
  intro h
  have hnodup : s.running.Nodup := (List.nodup_append.mp h.positions.nodup).2.1
  refine foldl (P := fun s p => p ∈ s.running ∧ s.shutdownRequested = true)
    (fun s p hp => shutdownRunning err hp.1 hp.2)
    (fun s p q hp hq hne => ?_) s.running s hnodup (fun p hp => ⟨hp, closing⟩) h
  unfold Scheduler.shutdownRunning
  split
  · exact hq
  · have herase : q ∈ s.running.erase p := (List.mem_erase_of_ne hne).mpr hq.1
    simp only [Scheduler.eraseRequest, Scheduler.releaseSchedulingBlocks_eq, Scheduler.assert]
    split <;> split <;> exact ⟨herase, hq.2⟩

/-! ### Cleanup -/

/-- What `terminalIdle` tests. -/
theorem terminalIdle_iff : s.terminalIdle p = true ↔ (s.heap p).status ≠ .active ∧
    ∃ sc, (s.heap p).scheduling = some sc ∧ sc.reservation.executionLeases = 0 := by
  unfold terminalIdle
  rcases (s.heap p).scheduling with _ | sc <;> simp

/-- One round of the first loop of `cleanup_terminal_requests`. -/
theorem cleanupRunning (hp : p ∈ s.running) (hidle : s.terminalIdle p = true) :
    Does k s fl (s.cleanupRunning p) fl := by
  obtain ⟨inactive, sc, hsc, hleases⟩ := terminalIdle_iff.mp hidle
  rw [s.cleanupRunning_eq p]
  refine (leave_running hp (fun _ sc' hsc' => ?_) inactive (.inl rfl)).trans (.of_eq rfl)
  cases hsc.symm.trans hsc'
  exact hleases

/-- The round of `cleanup_terminal_queue` that removes `p`, with the queues kept up to
date. -/
theorem cleanupQueued (hp : p ∈ s.waiting ∨ p ∈ s.skip) (inactive : (s.heap p).status ≠ .active) :
    Does k s fl { s.forgotten p (s.queueNotes p) none with
      waiting := s.waiting.erase p
      skip := s.skip.erase p } fl := by
  intro h
  have hrunning : s.running.erase p = s.running := by
    rcases hp with hp | hp
    · exact (h.waiting_only hp).2
    · exact (h.skip_only hp).2
  -- nothing of a queued request is in flight, so its sequence is released
  have hnotes : s.queueNotes p = (s.heap p).releaseNotes := by
    unfold queueNotes
    rcases hsc : (s.heap p).scheduling with _ | sc
    · simp [RequestState.releaseNotes, hsc]
    · rw [if_pos (terminalIdle_iff.mpr ⟨inactive, sc, hsc, h.queued_idle hp hsc⟩)]
  have hdoes : Does k s fl _ fl :=
    Does.forget (s.queueNotes p) none (fun _ => hp.elim .inl fun hp => .inr (.inl hp))
    (fun h _ => h.queued_idle hp) (by simp) (fun _ => inactive) (fun _ => .inl hnotes)
  simp only [hrunning] at hdoes
  exact hdoes h

/-- `cleanup_terminal_queue` on `skip_`, in the state where `active` has been kept and
`queue` is still to be visited. -/
theorem cleanupSkip (queue : List RequestPtr) : ∀ (s : Scheduler) (active : List RequestPtr),
    Does k { s with skip := active ++ queue } fl
      { (s.cleanupQueueLoop active queue).1 with
        skip := (s.cleanupQueueLoop active queue).2 } fl := by
  induction queue with
  | nil =>
    intro s active
    rw [List.append_nil]
    exact refl
  | cons p rest ih =>
    intro s active
    by_cases hactive : (s.heap p).status = .active
    · rw [cleanupQueueLoop, if_pos hactive]
      have := ih s (active ++ [p])
      rwa [List.append_assoc, List.singleton_append] at this
    · rw [cleanupQueueLoop_cons _ hactive]
      intro h
      have hp : p ∈ active ++ p :: rest := by simp
      have hwaiting : s.waiting.erase p = s.waiting := (h.skip_only hp).1
      have herase : (active ++ p :: rest).erase p = active ++ rest := by
        have hnot : p ∉ active := by
          have := h.positions.nodup
          simp only [World.of] at this
          grind
        rw [List.erase_append_right _ hnot, List.erase_cons_head]
      have hround : Does k { s with skip := active ++ p :: rest } fl _ fl := cleanupQueued
        (.inr hp) hactive
      simp only [hwaiting, herase] at hround
      exact Does.trans hround
        (ih (s.forgotten p (s.queueNotes p) none) active) h

/-- `cleanup_terminal_queue` on `waiting_`. -/
theorem cleanupWaiting (queue : List RequestPtr) : ∀ (s : Scheduler) (active : List RequestPtr),
    Does k { s with waiting := active ++ queue } fl
      { (s.cleanupQueueLoop active queue).1 with
        waiting := (s.cleanupQueueLoop active queue).2 } fl := by
  induction queue with
  | nil =>
    intro s active
    rw [List.append_nil]
    exact refl
  | cons p rest ih =>
    intro s active
    by_cases hactive : (s.heap p).status = .active
    · rw [cleanupQueueLoop, if_pos hactive]
      have := ih s (active ++ [p])
      rwa [List.append_assoc, List.singleton_append] at this
    · rw [cleanupQueueLoop_cons _ hactive]
      intro h
      have hp : p ∈ active ++ p :: rest := by simp
      have hskip : s.skip.erase p = s.skip := (h.waiting_only hp).1
      have herase : (active ++ p :: rest).erase p = active ++ rest := by
        have hnot : p ∉ active := by
          have := h.positions.nodup
          simp only [World.of] at this
          grind
        rw [List.erase_append_right _ hnot, List.erase_cons_head]
      have hround : Does k { s with waiting := active ++ p :: rest } fl _ fl := cleanupQueued
        (.inl hp) hactive
      simp only [hskip, herase] at hround
      exact Does.trans hround
        (ih (s.forgotten p (s.queueNotes p) none) active) h

/-- `cleanup_terminal_requests`. -/
theorem cleanupTerminalRequests : Does k s fl s.cleanupTerminalRequests fl := by
  have hrunning : Does k s fl ((s.running.filter s.terminalIdle).foldl Scheduler.cleanupRunning s)
      fl := by
    intro h
    have hnodup : s.running.Nodup := (List.nodup_append.mp h.positions.nodup).2.1
    refine foldl (P := fun s p => p ∈ s.running ∧ s.terminalIdle p = true)
      (fun s p hp => cleanupRunning hp.1 hp.2) (fun s p q hp hq hne => ⟨?_, ?_⟩)
      (s.running.filter s.terminalIdle) s (hnodup.filter _) (fun p hp => List.mem_filter.mp hp) h
    · rw [s.cleanupRunning_eq p]
      exact (List.mem_erase_of_ne hne).mpr hq.1
    · rw [terminalIdle_iff, s.cleanupRunning_eq p]
      simp only [Scheduler.forgotten, Function.update_of_ne hne]
      exact terminalIdle_iff.mp hq.2
  unfold Scheduler.cleanupTerminalRequests
  generalize (s.running.filter s.terminalIdle).foldl Scheduler.cleanupRunning s = s₁ at hrunning
  refine hrunning.trans ((cleanupSkip s₁.skip s₁ []).trans ?_)
  exact cleanupWaiting _ { (s₁.cleanupQueueLoop [] s₁.skip).1 with
    skip := (s₁.cleanupQueueLoop [] s₁.skip).2 } []

/-! ### Preemption and shortage -/

/-- `preempt_one_for_admission`. -/
theorem preemptOneForAdmission : Does k s fl s.preemptOneForAdmission fl := by
  unfold Scheduler.preemptOneForAdmission
  rcases hfind : s.running.reverse.find? s.preemptable with _ | p
  · exact refl
  · simp only
    rcases hsc : (s.heap p).scheduling with _ | sc
    · exact refl
    · have hp : p ∈ s.running := List.mem_reverse.mp (List.mem_of_find?_eq_some hfind)
      have htest := List.find?_some hfind
      simp only [Scheduler.preemptable, hsc, Scheduler.isSchedulableState, Bool.and_eq_true,
        beq_iff_eq] at htest
      exact .single (fun _ => .preempt _ p sc hp hsc htest.1.1 htest.2) (fun _ => rfl)

/-- A scheduled request goes back to the front of `waiting_`. -/
theorem park {sc : SequenceSchedulingState} (hsc : (s.heap p).scheduling = some sc)
    (source : p ∈ s.skip ∨ (p ∈ s.running ∧ (s.heap p).status = .active ∧
      sc.reservation.executionLeases = 0)) :
    Does k s fl { s with
      heap := Function.update s.heap p (s.heap p).parked
      bySeqId := Function.update s.bySeqId sc.seqId none
      kv := s.kv.releaseRequestBlocks sc.blockTable
      skip := s.skip.erase p
      running := s.running.erase p
      waiting := p :: s.waiting
      trace := s.trace ++ [.suspended p] } fl := by
  refine .single (fun h => .park _ p sc (s.kv.releaseRequestBlocks sc.blockTable) hsc ?_ ?_ ?_)
    (fun _ => ?_)
  · rcases source with hp | ⟨-, -, hidle⟩
    · exact h.skip_idle hp hsc
    · exact hidle
  · exact source.imp_right fun h => ⟨h.1, h.2.1⟩
  · have := h.release (h.scheduled_lt hsc)
    rwa [World.tableOf_of_some hsc] at this
  · rfl

/-- `evict_one_skipped`. -/
theorem evictOneSkipped : Does k s fl s.evictOneSkipped.2 fl := by
  unfold Scheduler.evictOneSkipped
  rcases hskip : s.skip with _ | ⟨p, rest⟩
  · exact refl
  · intro h
    have hp : p ∈ s.skip := by simp [hskip]
    obtain ⟨sc, hsc⟩ : ∃ sc, (s.heap p).scheduling = some sc :=
      Option.isSome_iff_exists.mp ((h.positions.scheduled p).mpr (.inl hp))
    have hrunning : s.running.erase p = s.running := (h.skip_only hp).2
    have hpark : Does k s fl _ fl := park hsc (.inl hp)
    rw [hrunning, hskip, List.erase_cons_head] at hpark
    simp only [hsc, Option.isNone_some, Bool.false_eq_true, if_false]
    rw [Scheduler.prepare_release (s := { s with skip := rest }) hsc]
    exact hpark h

/-- A search that keeps its candidate or takes the element it looks at. -/
theorem foldl_picked {pick : Option RequestPtr → RequestPtr → Option RequestPtr}
    {P : RequestPtr → Prop} (hpick : ∀ best q, pick best q = best ∨ pick best q = some q ∧ P q)
    {queue : List RequestPtr} {best : Option RequestPtr} (h : queue.foldl pick best = some p) :
    best = some p ∨ p ∈ queue ∧ P p := by
  induction queue generalizing best with
  | nil => exact .inl h
  | cons q _ ih =>
    rcases ih h with heq | ⟨hmem, hok⟩
    · rcases hpick best q with hkept | ⟨htaken, hok⟩
      · exact .inl (hkept.symm.trans heq)
      · cases htaken.symm.trans heq
        exact .inr ⟨List.mem_cons_self, hok⟩
    · exact .inr ⟨List.mem_cons_of_mem _ hmem, hok⟩

/-- What `find_smallest` returns is running and suspendable. -/
theorem findSmallest_spec {phase : Bool} (h : s.findSmallest phase = some p) :
    p ∈ s.running ∧ s.suspendable phase p = true := by
  unfold findSmallest at h
  refine (foldl_picked (P := fun p => s.suspendable phase p = true) (fun best q => ?_) h).elim
    (by simp) fun hpicked => ⟨List.mem_reverse.mp hpicked.1, hpicked.2⟩
  split
  · rename_i hok
    rcases best with _ | r
    · exact .inr ⟨rfl, hok⟩
    · dsimp only
      split
      · exact .inr ⟨rfl, hok⟩
      · exact .inl rfl
  · exact .inl rfl

/-- `suspend_one_running`. -/
theorem suspendOneRunning : Does k s fl s.suspendOneRunning.2 fl := by
  unfold Scheduler.suspendOneRunning
  rcases hfind : (s.findSmallest true).or (s.findSmallest false) with _ | p
  · exact refl
  · obtain ⟨phase, hphase⟩ : ∃ phase, s.findSmallest phase = some p := by
      rcases Option.or_eq_some_iff.mp hfind with h | ⟨-, h⟩
      · exact ⟨true, h⟩
      · exact ⟨false, h⟩
    obtain ⟨hp, hok⟩ := findSmallest_spec hphase
    rcases hsc : (s.heap p).scheduling with _ | sc
    · simp [Scheduler.suspendable, hsc] at hok
    · simp only [Scheduler.suspendable, hsc, Scheduler.isSchedulableState, Bool.and_eq_true,
        beq_iff_eq] at hok
      intro h
      have hskip : s.skip.erase p = s.skip := (h.running_only hp).2
      have hpark : Does k s fl _ fl := park hsc (.inr ⟨hp, hok.1.2.1, hok.2⟩)
      rw [hskip] at hpark
      simp only [Scheduler.releaseAndMoveToWait, hsc, Option.isNone_some, Bool.false_eq_true,
        if_false]
      rw [Scheduler.prepare_release hsc]
      exact hpark h

/-- The answer to a shortage. -/
theorem relieveShortage : Does k s fl s.relieveShortage fl := by
  unfold Scheduler.relieveShortage
  have hevict : Does k s fl _ fl := evictOneSkipped
  rcases heq : s.evictOneSkipped with ⟨_ | _, s'⟩
  · rw [heq] at hevict
    exact hevict.trans suspendOneRunning
  · rw [heq] at hevict
    exact hevict

end Does

end CcInfer
