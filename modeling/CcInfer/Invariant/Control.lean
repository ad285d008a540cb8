import CcInfer.Engine.EngineCore

/-!
# `CcInfer.Invariant.Control`: flags and queues

`accepting_`, `shutdown_requested_` and what `shutdown_async` has posted are written by
`start`, `shutdown_async` and the shutdown path only. All other functions of the Scheduler
at most load `accepting_`, and a load lets a pending store come closer. `Scheduler.control`
gathers these fields, the queues and `admission_paused_`.
-/

set_option autoImplicit false

namespace CcInfer

/-- How far the engine loop is. -/
inductive Stage
  | fresh
  | working
  | draining
  | done
  deriving DecidableEq

/-- The loop is not at its end. -/
theorem Stage.working_open : ¬(working = draining ∨ working = done) := by decide

/-- Nor is a loop that was never spawned. -/
theorem Stage.fresh_open : ¬(fresh = draining ∨ fresh = done) := by decide

/-- The stage of a place of `run`. -/
def EnginePc.stage : EnginePc → Stage
  | notStarted => .fresh
  | spawned | outer | inner | afterInner | collecting _ | idle => .working
  | draining | drainCollecting _ => .draining
  | done => .done

/-- The fields of the Scheduler that the shutdown path is about. -/
structure Flags where
  accepting : Bool
  shutdownRequested : Bool
  shutdownDoneSent : Bool
  storePending : Option Nat
  shutdownPosted : Option Bool
  promiseSet : Nat

namespace Flags

/-- The store of `shutdown_async` lands. -/
def land (f : Flags) : Flags :=
  { f with accepting := false, storePending := none, shutdownPosted := some f.accepting }

/-- One load of `accepting_`. -/
def load (f : Flags) : Flags :=
  match f.storePending with
  | none => f
  | some 0 => f.land
  | some (n + 1) => { f with storePending := some n }

/-- `f'` comes from `f` by loads of `accepting_`. -/
def Loads (f f' : Flags) : Prop := ∃ n, f' = load^[n] f

/-- No load at all. -/
theorem Loads.refl (f : Flags) : Loads f f := ⟨0, rfl⟩

/-- Equal flags need no load. -/
theorem Loads.of_eq {f f' : Flags} (h : f' = f) : Loads f f' := ⟨0, h⟩

/-- Loads one after the other. -/
theorem Loads.trans {f g h : Flags} : Loads f g → Loads g h → Loads f h := by
  rintro ⟨m, rfl⟩ ⟨n, rfl⟩
  exact ⟨n + m, (Function.iterate_add_apply load n m f).symm⟩

/-- What the flags of a system say when its engine loop stands in `stage`. The store of
`shutdown_async` lands once, and finds `accepting_` set if the loop was spawned; `start` and
`shutdown_async` do nothing after the promise was set. -/
structure Lawful (f : Flags) (stage : Stage) : Prop where
  pending : f.storePending.isSome = true → f.shutdownRequested = true
  running : stage ≠ .fresh → f.accepting = true ∨ f.shutdownRequested = true
  idle : stage = .fresh → f.accepting = false
  waits : stage ≠ .fresh → f.storePending.isSome = true → f.accepting = true
  posted : ∀ wasRunning, f.shutdownPosted = some wasRunning → f.shutdownRequested = true ∧
    f.storePending = none ∧ f.accepting = false ∧ (stage ≠ .fresh → wasRunning = true)
  closed : stage = .draining ∨ stage = .done → f.accepting = false ∧ f.storePending = none
  sent : f.shutdownDoneSent = true → f.shutdownRequested = true ∧ f.storePending = none ∧
    f.accepting = false ∧ (stage = .done ∨ stage = .fresh)
  ended : stage = .done → f.shutdownDoneSent = true
  promise : f.promiseSet = if f.shutdownDoneSent then 1 else 0

namespace Lawful

variable {f f' : Flags} {stage : Stage}

/-- Landing the store keeps the law: it was still pending, so a loop found `accepting_` set. -/
theorem land (h : Lawful f stage) (pending : f.storePending.isSome = true) :
    Lawful f.land stage where
  pending := nofun
  running _ := .inr (h.pending pending)
  idle _ := rfl
  waits _ := nofun
  posted wasRunning hposted := by
    refine ⟨h.pending pending, rfl, rfl, fun hstage => ?_⟩
    rw [← Option.some.inj hposted]
    exact h.waits hstage pending
  closed _ := ⟨rfl, rfl⟩
  sent hsent := ⟨h.pending pending, rfl, rfl, (h.sent hsent).2.2.2⟩
  ended := h.ended
  promise := h.promise

/-- One load keeps the law, whether or not it lands the store. -/
theorem load (h : Lawful f stage) : Lawful f.load stage := by
  unfold Flags.load
  split
  · exact h
  · rename_i hpending
    exact h.land (by rw [hpending]; rfl)
  · rename_i n hpending
    have hsome : f.storePending.isSome = true := by rw [hpending]; rfl
    have hnone : f.storePending ≠ none := by rw [hpending]; exact nofun
    exact {
      pending := fun _ => h.pending hsome
      running := h.running
      idle := h.idle
      waits := fun hstage _ => h.waits hstage hsome
      posted := fun wasRunning hposted => absurd (h.posted wasRunning hposted).2.1 hnone
      closed := fun hstage => absurd (h.closed hstage).2 hnone
      sent := fun hsent => absurd (h.sent hsent).2.1 hnone
      ended := h.ended
      promise := h.promise }

/-- So does any number of them. -/
theorem loads (h : Lawful f stage) (hl : Loads f f') : Lawful f' stage := by
  obtain ⟨n, rfl⟩ := hl
  induction n with
  | zero => exact h
  | succ n ih => rw [Function.iterate_succ_apply']; exact ih.load

/-- The engine loop finds `accepting_` cleared and starts to drain. -/
theorem drain (h : Lawful f .working) (cleared : f.accepting = false) : Lawful f .draining where
  pending := h.pending
  running _ := h.running nofun
  idle := nofun
  waits _ := h.waits nofun
  posted wasRunning hposted :=
    let ⟨hrequested, hnone, haccepting, hwas⟩ := h.posted wasRunning hposted
    ⟨hrequested, hnone, haccepting, fun _ => hwas nofun⟩
  closed _ := by
    refine ⟨cleared, Option.not_isSome_iff_eq_none.mp fun hpending => ?_⟩
    rw [h.waits nofun hpending] at cleared
    cases cleared
  sent hsent := by
    rcases (h.sent hsent).2.2.2 with hstage | hstage <;> cases hstage
  ended := nofun
  promise := h.promise

end Lawful

end Flags

/-- The flags, the queues and `admission_paused_`. -/
structure Control where
  flags : Flags
  waiting : List RequestPtr
  skip : List RequestPtr
  running : List RequestPtr
  paused : Bool

namespace Control

/-- Admission is paused only while a request is running. -/
def PausedOk (c : Control) : Prop := c.paused = true → c.running ≠ []

/-- `c'` comes from `c` by loads of `accepting_` and changes of the queues that do not leave
admission paused with nothing running. -/
structure Moves (c c' : Control) : Prop where
  loads : c.flags.Loads c'.flags
  paused : c.PausedOk → c'.PausedOk

namespace Moves

variable {c c' c'' : Control}

/-- Nothing moves. -/
theorem refl (c : Control) : Moves c c := ⟨.refl _, id⟩

/-- Equal control is no move. -/
theorem of_eq (h : c' = c) : Moves c c' := h ▸ refl c

/-- Moves one after the other. -/
theorem trans (h : Moves c c') (h' : Moves c' c'') : Moves c c'' :=
  ⟨h.loads.trans h'.loads, fun hc => h'.paused (h.paused hc)⟩

/-- What is running stays. -/
theorem queued (loads : c.flags.Loads c'.flags) (running : c'.running = c.running)
    (paused : c'.paused = c.paused) : Moves c c' :=
  ⟨loads, fun hc => by rwa [PausedOk, running, paused]⟩

/-- A request starts running. -/
theorem grown (flags : c'.flags = c.flags) {p : RequestPtr}
    (running : c'.running = c.running ++ [p]) :
    Moves c c' :=
  ⟨.of_eq flags, fun _ _ => by rw [running]; exact List.append_ne_nil_of_right_ne_nil _ nofun⟩

/-- Admission is not paused afterwards. -/
theorem unpaused (flags : c'.flags = c.flags) (paused : c'.paused = false) : Moves c c' :=
  ⟨.of_eq flags, fun _ h => absurd (paused.symm.trans h) nofun⟩

end Moves

/-- A move after which `taken` requests less wait for admission, in the two queues together. -/
structure Takes (c c' : Control) (taken : Nat) : Prop extends Moves c c' where
  queued : c'.waiting.length + c'.skip.length + taken = c.waiting.length + c.skip.length

namespace Takes

variable {c c' c'' : Control} {n : Nat}

/-- Equal control takes nothing. -/
theorem of_eq (h : c' = c) : Takes c c' 0 := ⟨.of_eq h, by rw [h, Nat.add_zero]⟩

/-- What leaves the control alone takes nothing more. -/
theorem trans_eq (h : Takes c c' n) (heq : c'' = c') : Takes c c'' n := heq ▸ h

/-- A request starts running. -/
theorem grown (h : Takes c c' n) (flags : c''.flags = c'.flags) {p : RequestPtr}
    (running : c''.running = c'.running ++ [p]) (waiting : c''.waiting = c'.waiting)
    (skip : c''.skip = c'.skip) : Takes c c'' n :=
  ⟨h.toMoves.trans (.grown flags running), by rw [waiting, skip, h.queued]⟩

end Takes

end Control

namespace Scheduler

variable (s : Scheduler) (p : RequestPtr)

/-- The flags of a Scheduler. -/
def flags : Flags :=
  ⟨s.accepting, s.shutdownRequested, s.shutdownDoneSent, s.storePending, s.shutdownPosted,
    s.promiseSet⟩

/-- The flags and queues of a Scheduler. -/
def control : Control := ⟨s.flags, s.waiting, s.skip, s.running, s.admissionPaused⟩

/-! ### Functions that leave flags and queues alone -/

/-- An assertion only logs. -/
theorem control_assert (b : Bool) (site : AssertSite) : (s.assert b site).control = s.control := by
  unfold assert
  split <;> rfl

variable {s} in
/-- Neither branch touches the control. -/
theorem control_ite {c : Prop} [Decidable c] {a b : Scheduler} (ha : a.control = s.control)
    (hb : b.control = s.control) : (if c then a else b).control = s.control := by
  split
  · exact ha
  · exact hb

/-- A token event goes to the sink. -/
theorem control_sendTokenEvent : (s.sendTokenEvent p).control = s.control := control_ite rfl rfl

/-- A cancel marks the request and leaves it in its queue. -/
theorem control_cancelOnSchedulerThread (requestId : String) :
    (s.cancelOnSchedulerThread requestId).control = s.control := by
  unfold cancelOnSchedulerThread
  split
  · rfl
  · split <;> rfl

/-- Erasing a request takes it out of `requests_` only. -/
theorem control_eraseRequest : (s.eraseRequest p).control = s.control := s.control_assert _ _

/-- A release gives back blocks and the sequence. -/
theorem control_releaseSchedulingBlocks : (s.releaseSchedulingBlocks p).control = s.control := by
  unfold releaseSchedulingBlocks
  split <;> rfl

/-- `prepare_for_wait` rewrites the prompt of the request. -/
theorem control_prepareForWait : (s.prepareForWait p).control = s.control := by
  unfold prepareForWait
  simp only
  split <;> rfl

/-- A dropped request was taken off its queue before. -/
theorem control_dropWith (event : SinkEvent) : (s.dropWith p event).control = s.control :=
  (control_eraseRequest _ p).trans (s.control_releaseSchedulingBlocks p)

variable (ctx : BatchBuildContext) (sc : SequenceSchedulingState)

/-- Prefill work goes to the batch. -/
theorem control_buildPrefillWork : (s.buildPrefillWork ctx p sc).1.control = s.control := by
  simp only [buildPrefillWork]
  generalize (if 0 < s.config.maxSeqPrefillTokens then _ else _ : Nat) = chunkLen
  split
  · rfl
  · split <;> rfl

/-- A decode may allocate blocks, and goes to the batch. -/
theorem control_dispatchDecode (token : Token) (writeKv lateBind : Bool) :
    (s.dispatchDecode ctx p sc token writeKv lateBind).1.control = s.control := by
  simp only [dispatchDecode]
  generalize blockCount _ s.kv.pool.blockSize = requiredBlocks
  split
  · generalize (requiredBlocks - sc.blockTable.length).toNat = n
    have hcontrol : (s.allocateKvBlocks n).2.control = s.control := rfl
    generalize s.allocateKvBlocks n = allocated at hcontrol ⊢
    obtain ⟨_ | blocks, s'⟩ := allocated
    · exact hcontrol
    · exact hcontrol
  · rfl

/-- So does every kind of decode. -/
theorem control_buildDecodeWork : (s.buildDecodeWork ctx p sc).1.control = s.control := by
  simp only [buildDecodeWork]
  split
  · rfl
  · split
    · rfl
    · have hassert : (if (sc.cursor.phase == .bootstrap) = true then
          s.assert (!(s.heap p).promptTokens.isEmpty) .bootstrapPrompt else s).control =
            s.control :=
        control_ite (s.control_assert _ _) rfl
      generalize (if (sc.cursor.phase == .bootstrap) = true then _ else s) = s₁ at *
      split
      · exact control_ite hassert hassert
      · split
        · exact (control_dispatchDecode ..).trans hassert
        · exact (control_dispatchDecode ..).trans hassert

/-- Work for one request, of whatever phase. -/
theorem control_buildStateWork : (s.buildStateWork ctx p).1.control = s.control := by
  unfold buildStateWork
  split
  · rfl
  · split
    · rfl
    · split
      · rfl
      · split
        · exact s.control_buildPrefillWork p ctx _
        · exact s.control_buildDecodeWork p ctx _

/-- Work for all of `running_`, by induction on the queue. -/
theorem control_buildRunningLoop (queue : List RequestPtr) :
    ∀ (s : Scheduler) (ctx : BatchBuildContext),
      (s.buildRunningLoop ctx queue).1.control = s.control := by
  induction queue with
  | nil => intro s ctx; rfl
  | cons p _ ih =>
    intro s ctx
    unfold buildRunningLoop
    split
    · rfl
    · exact (ih _ _).trans (s.control_buildStateWork p ctx)

/-- Retiring a reservation changes one request. -/
theorem control_retireReservation (item : WorkItem) :
    (s.retireReservation p item).control = s.control := by
  unfold retireReservation
  split <;> rfl

/-- Publication changes the blocks only. -/
theorem control_publishLoop (fuel : Nat) : ∀ (s : Scheduler) (sc : SequenceSchedulingState)
    (index : Nat), (s.publishLoop sc index fuel).1.control = s.control := by
  induction fuel with
  | zero => intro s sc index; rfl
  | succ _ ih =>
    intro s sc index
    simp only [publishLoop]
    split
    · exact (ih _ _ _).trans (s.control_assert _ _)
    · rfl

/-- The end of a retirement changes one request and the blocks. -/
theorem control_retireTail (item : WorkItem) (r : WorkItemResult) :
    (s.retireTail p sc item r).control = s.control := by
  simp only [retireTail]
  have hpublish : (if 0 < item.kvTokenCount then
      s.publishWritten sc item.context (writtenTokens (s.heap p) item) else (s, sc)).1.control =
      s.control := by
    split
    · exact control_publishLoop _ _ _ _
    · rfl
  generalize (if 0 < item.kvTokenCount then _ else (s, sc)) = published at hpublish ⊢
  obtain ⟨s₁, sc₁⟩ := published
  simp only at hpublish ⊢
  refine Eq.trans ?_ hpublish
  refine control_ite ?_ ?_ <;> refine control_ite (Eq.trans (control_sendTokenEvent _ _) ?_) ?_ <;>
    exact control_ite rfl rfl

/-- A retired chunk of a prompt, sampled or not. -/
theorem control_retireChunk (chunk : PrefillChunk) (r : WorkItemResult) :
    (s.retireChunk p sc chunk r).control = s.control := by
  simp only [retireChunk]
  refine control_ite ?_ ?_
  · exact (control_assert _ _ _).trans (s.control_assert _ _)
  · exact (control_retireTail _ _ _ _ _).trans ((control_assert _ _ _).trans (s.control_assert _ _))

/-- Retiring an item moves no request. -/
theorem control_retireWork (item : WorkItem) (r : WorkItemResult) :
    (s.retireWork item r).control = s.control := by
  unfold retireWork
  split
  · rfl
  · split
    · rfl
    · refine control_ite rfl ?_
      cases item with
      | prefill => exact control_retireChunk _ _ _ _ _
      | decode => exact (control_retireTail _ _ _ _ _).trans (control_assert _ _ _)

/-- Nor does retiring all items of a batch. -/
theorem control_retireLoop (items : List WorkItem) (results : List WorkItemResult) :
    ∀ s : Scheduler, (s.retireLoop items results).control = s.control := by
  induction results with
  | nil => intro s; rfl
  | cons r _ ih =>
    intro s
    unfold retireLoop
    split
    · exact ih s
    · exact (ih _).trans (s.control_retireWork _ r)

/-- A fold over functions that leave flags and queues alone. -/
theorem control_foldl {α : Type} {f : Scheduler → α → Scheduler}
    (h : ∀ s a, (f s a).control = s.control) (l : List α) : ∀ s : Scheduler,
    (l.foldl f s).control = s.control := by
  induction l with
  | nil => intro s; rfl
  | cons a _ ih => intro s; exact (ih _).trans (h s a)

/-- A failed batch marks its requests. -/
theorem control_failBatch (batch : ScheduledBatch) (err : ErrorCode) :
    (s.failBatch batch err).control = s.control := by
  refine control_foldl (fun s item => ?_) _ s
  unfold failItem
  split
  · rfl
  · exact control_ite (s.control_retireReservation _ item) (s.control_retireReservation _ item)

/-- Collecting a batch moves no request, whatever the result. -/
theorem control_retireBatch (batch : ScheduledBatch) (result : Result BatchResult) :
    (Sys.retireBatch s batch result).control = s.control := by
  cases result with
  | error err => exact s.control_failBatch batch err
  | ok => exact (control_retireLoop _ _ _).trans (s.control_assert _ _)

/-- The executor is told to release a sequence. -/
theorem control_releaseSequence : (s.releaseSequence p).control = s.control := by
  unfold releaseSequence
  split <;> rfl

/-- The cleanup of a queue returns the new queue without storing it. -/
theorem control_cleanupQueueLoop (queue : List RequestPtr) : ∀ (s : Scheduler)
    (active : List RequestPtr), (s.cleanupQueueLoop active queue).1.control = s.control := by
  induction queue with
  | nil => intro s active; rfl
  | cons p _ ih =>
    intro s active
    unfold cleanupQueueLoop
    split
    · exact ih s _
    · exact (ih _ _).trans
        ((control_eraseRequest _ p).trans ((control_releaseSchedulingBlocks _ p).trans
        (control_ite (s.control_releaseSequence p) rfl)))

/-! ### Functions that change queues -/

/-- A submitted request waits. -/
theorem moves_submitOnSchedulerThread (req : SchedulerRequest) :
    s.control.Moves (s.submitOnSchedulerThread req).control := by
  unfold submitOnSchedulerThread
  split
  · exact .refl _
  · split
    · exact .refl _
    · exact .queued (.refl _) rfl rfl

/-- An evicted request goes from `skip_` to `waiting_`. -/
theorem moves_evictOneSkipped : s.control.Moves s.evictOneSkipped.2.control := by
  unfold evictOneSkipped
  split
  · exact .refl _
  · rename_i p rest hskip
    simp only
    split
    · exact .queued (.refl _) rfl rfl
    · have hrelease := (control_releaseSchedulingBlocks _ p).trans
        (control_prepareForWait { s with skip := rest } p)
      generalize Scheduler.releaseSchedulingBlocks _ p = s₁ at hrelease ⊢
      have hflags : s₁.flags = s.flags := congrArg Control.flags hrelease
      have hrunning : s₁.running = s.running := congrArg Control.running hrelease
      have hpaused : s₁.admissionPaused = s.admissionPaused := congrArg Control.paused hrelease
      exact .queued (.of_eq hflags) hrunning hpaused

/-- Sending a request back to wait sets no flag. -/
theorem flags_releaseAndMoveToWait : (s.releaseAndMoveToWait p).flags = s.flags := by
  unfold releaseAndMoveToWait
  split
  · rfl
  · exact congrArg Control.flags
      ((control_releaseSchedulingBlocks _ p).trans (s.control_prepareForWait p))

/-- A suspended request leaves `running_`, and the pause is set to what is left there. -/
theorem moves_suspendOneRunning : s.control.Moves s.suspendOneRunning.2.control := by
  unfold suspendOneRunning
  split
  · exact .refl _
  · -- the pause flag is set to whether something is still running
    rename_i p _
    refine ⟨.of_eq (s.flags_releaseAndMoveToWait p), fun _ hpaused => ?_⟩
    simpa [control] using hpaused

/-- A shortage evicts, or else suspends. -/
theorem moves_relieveShortage : s.control.Moves s.relieveShortage.control := by
  have hevict := s.moves_evictOneSkipped
  unfold relieveShortage
  split
  · rename_i s' heq
    rwa [heq] at hevict
  · rename_i s' heq
    rw [heq] at hevict
    exact hevict.trans s'.moves_suspendOneRunning

/-- A loop whose rounds are moves. -/
theorem moves_foldl {α : Type} {f : Scheduler → α → Scheduler}
    (h : ∀ (s : Scheduler) (a : α), s.control.Moves (f s a).control) (l : List α) : ∀ s : Scheduler,
    s.control.Moves (l.foldl f s).control := by
  induction l with
  | nil => intro s; exact .refl _
  | cons a _ ih => intro s; exact (h s a).trans (ih _)

/-- A cleanup of `running_` ends the pause. -/
theorem moves_cleanupRunning : s.control.Moves (s.cleanupRunning p).control := by
  have hrelease := (control_releaseSchedulingBlocks _ p).trans (s.control_releaseSequence p)
  unfold cleanupRunning
  generalize (s.releaseSequence p).releaseSchedulingBlocks p = s₁ at hrelease ⊢
  have hflags : s₁.flags = s.flags := congrArg Control.flags hrelease
  exact .unpaused ((congrArg Control.flags (control_eraseRequest _ p)).trans hflags) rfl

/-- The cleanup of all three queues. -/
theorem moves_cleanupTerminalRequests : s.control.Moves s.cleanupTerminalRequests.control := by
  simp only [cleanupTerminalRequests]
  refine (moves_foldl moves_cleanupRunning (s.running.filter s.terminalIdle) s).trans ?_
  generalize List.foldl cleanupRunning s _ = s₁
  have hskip := control_cleanupQueueLoop s₁.skip s₁ []
  generalize s₁.cleanupQueueLoop [] s₁.skip = cleaned at hskip ⊢
  obtain ⟨s₂, active⟩ := cleaned
  have hactive : s₂.control.Moves { s₂ with skip := active }.control := .queued (.refl _) rfl rfl
  refine (Control.Moves.of_eq hskip).trans (hactive.trans ?_)
  have hwaiting := control_cleanupQueueLoop s₂.waiting { s₂ with skip := active } []
  simp only
  generalize Scheduler.cleanupQueueLoop _ [] s₂.waiting = cleaned at hwaiting ⊢
  obtain ⟨s₃, active'⟩ := cleaned
  exact (Control.Moves.of_eq hwaiting).trans (.queued (.refl _) rfl rfl)

/-- A preemption with admission open leaves it open. -/
theorem moves_preemptOneForAdmission (unpaused : s.admissionPaused = false) :
    s.control.Moves s.preemptOneForAdmission.control := by
  unfold preemptOneForAdmission
  split
  · exact .refl _
  · split
    · exact .refl _
    · exact .unpaused rfl unpaused

/-- The first loop of `fail_all_waiting`, round by round. -/
theorem control_failWaitingLoop (err : ErrorCode) (queue : List RequestPtr) : ∀ s : Scheduler,
    s.waiting = queue → (s.failWaitingLoop err queue).control =
      { s.control with waiting := [] } := by
  induction queue with
  | nil =>
    intro s hqueue
    simp only [failWaitingLoop, control, hqueue]
  | cons p rest ih =>
    intro s _
    have hdrop := control_dropWith { s with waiting := rest } p (.error err)
    refine (ih _ (congrArg Control.waiting hdrop)).trans ?_
    rw [hdrop]
    rfl

/-- Its second loop. -/
theorem control_failSkipLoop (err : ErrorCode) (queue : List RequestPtr) : ∀ s : Scheduler,
    s.skip = queue → (s.failSkipLoop err queue).control = { s.control with skip := [] } := by
  induction queue with
  | nil =>
    intro s hqueue
    simp only [failSkipLoop, control, hqueue]
  | cons p rest ih =>
    intro s _
    have hdrop := control_dropWith { s with skip := rest } p (.error err)
    refine (ih _ (congrArg Control.skip hdrop)).trans ?_
    rw [hdrop]
    rfl

/-- `fail_all_waiting` empties two queues and leaves the rest. -/
theorem control_failAllWaiting (err : ErrorCode) :
    (s.failAllWaiting err).control = { s.control with waiting := [], skip := [] } := by
  have hwaiting := control_failWaitingLoop err s.waiting s rfl
  refine (control_failSkipLoop err _ _ rfl).trans ?_
  rw [hwaiting]

/-- `cleanup_all_running` changes no queue but `running_`. -/
theorem control_cleanupAllRunning (err : ErrorCode) : (s.cleanupAllRunning err).control =
      { s.control with running := (s.cleanupAllRunning err).running } := by
  have hround : ∀ (s : Scheduler) (p : RequestPtr), (s.shutdownRunning err p).control =
      { s.control with running := (s.shutdownRunning err p).running } := by
    intro s p
    unfold shutdownRunning
    split
    · rfl
    · simp only
      have herror : (if (s.heap p).status = .active then s.sendErrorEvent p err else s).control =
          s.control := control_ite rfl rfl
      generalize (if (s.heap p).status = .active then s.sendErrorEvent p err else s) = s₁ at *
      have hrelease := (s₁.control_releaseSchedulingBlocks p).trans herror
      generalize s₁.releaseSchedulingBlocks p = s₂ at hrelease ⊢
      have herase := control_eraseRequest { s₂ with running := s₂.running.erase p } p
      generalize Scheduler.eraseRequest _ p = s₃ at herase ⊢
      have hrunning : s₃.running = s₂.running.erase p := congrArg Control.running herase
      rw [herase, hrunning, ← hrelease]
      rfl
  -- over all of `running_`
  suffices ∀ (queue : List RequestPtr) (s : Scheduler),
      (queue.foldl (fun s p => s.shutdownRunning err p) s).control =
        { s.control with
          running := (queue.foldl (fun s p => s.shutdownRunning err p) s).running } from
    this s.running s
  intro queue
  induction queue with
  | nil => intro s; rfl
  | cons _ _ ih =>
    intro s
    rw [List.foldl_cons, ih, hround]

/-! ### Functions that load `accepting_` -/

/-- `accepting_.load()` on the flags. -/
theorem flags_loadAccepting : s.loadAccepting.2.flags = s.flags.load := by
  unfold loadAccepting Flags.load
  rcases h : s.storePending with _ | _ | n <;> simp [flags, h, landStore, Flags.land]

/-- It is a move. -/
theorem moves_loadAccepting : s.control.Moves s.loadAccepting.2.control := by
  refine .queued ⟨1, s.flags_loadAccepting⟩ ?_ ?_ <;> unfold loadAccepting <;> split <;> rfl

/-- It takes no request off a queue. -/
theorem takes_loadAccepting {c : Control} {n : Nat} (h : c.Takes s.control n) :
    c.Takes s.loadAccepting.2.control n := by
  refine ⟨h.toMoves.trans s.moves_loadAccepting, Eq.trans ?_ h.queued⟩
  unfold loadAccepting
  split <;> rfl

/-- What `accepting_.load()` returns is the flag afterwards. -/
theorem loadAccepting_fst : s.loadAccepting.1 = s.loadAccepting.2.accepting := by
  unfold loadAccepting
  split <;> rfl

/-- `admit_one_skipped` takes one request off the queues when it returns `true`, and none
when it returns `false`. -/
theorem takes_admitOneSkipped :
    s.control.Takes (s.admitOneSkipped ctx).2.1.control (s.admitOneSkipped ctx).1.toNat := by
  unfold admitOneSkipped
  split
  · exact .of_eq rfl
  · rename_i p rest hskip
    split
    · exact .of_eq rfl
    · have hpop : s.control.Takes { s with skip := rest }.control 1 :=
        ⟨.queued (.refl _) rfl rfl, by simp only [control, hskip, List.length_cons, Nat.add_assoc]⟩
      simp only
      split
      · exact hpop.trans_eq (control_dropWith _ _ _)
      · split
        · exact hpop.trans_eq (control_dropWith _ _ _)
        · split
          · -- not scheduled: from the front of `skip_` to the front of `waiting_`
            refine ⟨.queued (.refl _) rfl rfl, ?_⟩
            simp only [control, hskip, List.length_cons, Bool.toNat_false]
            omega
          · have hload := takes_loadAccepting _ hpop
            generalize Scheduler.loadAccepting _ = loaded at hload ⊢
            obtain ⟨accepting, s₁⟩ := loaded
            simp only at hload ⊢
            split
            · exact hload.trans_eq (control_dropWith _ _ _)
            · split
              · exact hload.trans_eq
                  ((control_eraseRequest _ _).trans (s₁.control_releaseSchedulingBlocks p))
              · refine Control.Takes.trans_eq ?_ (control_buildStateWork _ _ _)
                exact hload.grown rfl rfl rfl rfl

/-- `admit_one_waiting` takes one request off the queues when it returns `true`. -/
theorem takes_admitOneWaiting : s.control.Moves (s.admitOneWaiting ctx).2.1.control ∧
    ((s.admitOneWaiting ctx).1 = true → s.control.Takes (s.admitOneWaiting ctx).2.1.control 1) := by
  have taken : ∀ {c c' : Control} {admitted : Bool}, c.Takes c' 1 →
      c.Moves c' ∧ (admitted = true → c.Takes c' 1) := fun h => ⟨h.toMoves, fun _ => h⟩
  unfold admitOneWaiting
  split
  · exact ⟨.refl _, fun h => by cases h⟩
  · rename_i p rest hwaiting
    split
    · exact ⟨.refl _, fun h => by cases h⟩
    · have hpop : s.control.Takes { s with waiting := rest }.control 1 := by
        refine ⟨.queued (.refl _) rfl rfl, ?_⟩
        simp only [control, hwaiting, List.length_cons]
        omega
      simp only
      split
      · exact taken (hpop.trans_eq (control_eraseRequest _ _))
      · split
        · exact taken (hpop.trans_eq (control_eraseRequest _ _))
        · have hassert := hpop.trans_eq (control_assert { s with waiting := rest }
            (s.heap p).scheduling.isNone .admitUnscheduled)
          generalize Scheduler.assert _ _ _ = s₁ at hassert ⊢
          split
          · exact taken (hassert.trans_eq (control_eraseRequest _ _))
          · generalize s₁.kv.lookupPrefixCache (s.heap p).promptTokens = looked
            obtain ⟨lookup, kv⟩ := looked
            simp only
            generalize blockCount _ _ - (lookup.blockTable.length : Int) = missing
            have halloc : (if 0 < missing then { s₁ with kv := kv }.allocateKvBlocks missing.toNat
                else (.ok [], { s₁ with kv := kv })).2.control = s₁.control := by
              split <;> rfl
            have halloc := hassert.trans_eq halloc
            generalize (if 0 < missing then Scheduler.allocateKvBlocks _ missing.toNat
              else _) = allocated at halloc ⊢
            obtain ⟨err | blocks, s₂⟩ := allocated
            · simp only at halloc ⊢
              split
              · -- a shortage: the request goes back, and the answer is `false`
                have hrelieve := moves_relieveShortage (s₂.releaseRequestBlocks lookup.blockTable)
                exact ⟨halloc.toMoves.trans (hrelieve.trans (.queued (.refl _) rfl rfl)),
                  fun h => by cases h⟩
              · exact taken (halloc.trans_eq (control_eraseRequest _ _))
            · have hload := s₂.takes_loadAccepting halloc
              simp only at hload ⊢
              generalize s₂.loadAccepting = loaded at hload ⊢
              obtain ⟨accepting, s₃⟩ := loaded
              simp only at hload ⊢
              split
              · exact taken (hload.trans_eq (control_eraseRequest _ _))
              · refine taken (.trans_eq ?_ (control_buildStateWork _ _ _))
                exact hload.grown rfl rfl rfl rfl

/-- The admission loop, by induction on its fuel. -/
theorem moves_admissionLoop (fuel : Nat) : ∀ (s : Scheduler) (ctx : BatchBuildContext),
    s.control.Moves (s.admissionLoop ctx fuel).1.control := by
  induction fuel with
  | zero => intro s ctx; exact .refl _
  | succ _ ih =>
    intro s ctx
    unfold admissionLoop
    have hload := s.moves_loadAccepting
    generalize s.loadAccepting = loaded at hload ⊢
    obtain ⟨accepting, s₁⟩ := loaded
    refine hload.trans ?_
    simp only
    split
    · have hskipped := (s₁.takes_admitOneSkipped ctx).toMoves
      generalize s₁.admitOneSkipped ctx = skipped at hskipped ⊢
      obtain ⟨_ | _, s₂, ctx₂⟩ := skipped
      · refine hskipped.trans ?_
        simp only
        split
        · exact .refl _
        · have hwaiting := (s₂.takes_admitOneWaiting ctx₂).1
          generalize s₂.admitOneWaiting ctx₂ = waiting at hwaiting ⊢
          obtain ⟨_ | _, s₃, ctx₃⟩ := waiting
          · exact hwaiting
          · exact hwaiting.trans (ih s₃ ctx₃)
      · exact hskipped.trans (ih s₂ ctx₂)
    · exact .refl _

/-- A turn of `schedule_step`. -/
theorem moves_scheduleStep : s.control.Moves s.scheduleStep.1.control := by
  simp only [scheduleStep, buildBatch]
  have hrelieve : { s with nextBatchId := s.nextBatchId + 1 }.control.Moves
      (if s.blockShortagePending = true then
        { s with nextBatchId := s.nextBatchId + 1, blockShortagePending := false }.relieveShortage
      else { s with nextBatchId := s.nextBatchId + 1 }).control := by
    split
    · exact moves_relieveShortage
        { s with nextBatchId := s.nextBatchId + 1, blockShortagePending := false }
    · exact .refl _
  refine hrelieve.trans (Control.Moves.trans (.of_eq ?_) (moves_admissionLoop _ _ _))
  exact control_buildRunningLoop _ _ _

end Scheduler

/-! ### The engine -/

namespace Sys

variable {y y' : Sys}
variable {running : Bool} {outcome : Outcome}

/-- The flags of a reachable state. -/
abbrev LawfulFlags (y : Sys) : Prop := y.sched.flags.Lawful y.pc.stage

/-- Flags and queues of a reachable state. Nothing is queued before `start`, nothing waits
any more while the loop drains. -/
structure Orderly (y : Sys) : Prop where
  flags : y.LawfulFlags
  fresh : y.pc.stage = .fresh → y.sched.waiting = [] ∧ y.sched.skip = [] ∧
    y.sched.running = [] ∧ y.inFlight = []
  drained : y.pc.stage = .draining ∨ y.pc.stage = .done →
    y.sched.waiting = [] ∧ y.sched.skip = []
  empty : y.pc.stage = .done → y.inFlight = []
  paused : y.pc.stage ≠ .done → y.sched.control.PausedOk

namespace Orderly

/-- A step of the working loop. -/
theorem working (h : y.Orderly) (stage : y.pc.stage = .working) (stage' : y'.pc.stage = .working)
    (moves : y.sched.control.Moves y'.sched.control) : y'.Orderly where
  flags := by
    rw [LawfulFlags, stage', ← stage]
    exact h.flags.loads moves.loads
  fresh hstage := absurd (stage'.symm.trans hstage) nofun
  drained hstage := absurd (stage' ▸ hstage) Stage.working_open
  empty hstage := absurd (stage'.symm.trans hstage) nofun
  paused _ := moves.paused (h.paused (by rw [stage]; exact nofun))

/-- A step that changes neither stage nor queues. -/
theorem framed (h : y.Orderly) (flags : y'.LawfulFlags) (stage : y'.pc.stage = y.pc.stage)
    (queues : y'.sched.control = { y.sched.control with flags := y'.sched.flags })
    (inFlight : y.inFlight = [] → y'.inFlight = []) : y'.Orderly where
  flags := flags
  fresh hstage := by
    obtain ⟨hwaiting, hskip, hrunning, hflight⟩ := h.fresh (stage ▸ hstage)
    exact ⟨(congrArg Control.waiting queues).trans hwaiting,
      (congrArg Control.skip queues).trans hskip,
      (congrArg Control.running queues).trans hrunning, inFlight hflight⟩
  drained hstage := by
    obtain ⟨hwaiting, hskip⟩ := h.drained (stage ▸ hstage)
    exact ⟨(congrArg Control.waiting queues).trans hwaiting,
      (congrArg Control.skip queues).trans hskip⟩
  empty hstage := inFlight (h.empty (stage ▸ hstage))
  paused hstage := by
    rw [queues]
    exact h.paused (stage ▸ hstage)

/-- The same for a step that leaves the flags alone too. -/
theorem idle (h : y.Orderly) (stage : y'.pc.stage = y.pc.stage)
    (control : y'.sched.control = y.sched.control) (inFlight : y.inFlight = [] → y'.inFlight = []) :
    y'.Orderly := by
  have hflags : y'.sched.flags = y.sched.flags := congrArg Control.flags control
  refine h.framed ?_ stage (by rw [control, hflags]; rfl) inFlight
  rw [LawfulFlags, stage, hflags]
  exact h.flags

/-- A turn of the dispatch loop goes on or leaves the loop. -/
theorem moves_dispatchStep (y : Sys) (dispatchError : Option ErrorCode) :
    y.sched.control.Moves (y.dispatchStep dispatchError).sched.control ∧
    ((y.dispatchStep dispatchError).pc = y.pc ∨
      (y.dispatchStep dispatchError).pc = .afterInner) := by
  unfold dispatchStep
  split
  · have hschedule := y.sched.moves_scheduleStep
    generalize y.sched.scheduleStep = scheduled at hschedule ⊢
    obtain ⟨s, batch⟩ := scheduled
    simp only
    split
    · exact ⟨hschedule, .inr rfl⟩
    · cases dispatchError with
      | none => exact ⟨hschedule, .inl rfl⟩
      | some err =>
        have hfail := Control.Moves.of_eq (s.control_failBatch batch err)
        exact ⟨hschedule.trans (hfail.trans (Scheduler.moves_cleanupTerminalRequests _)), .inl rfl⟩
  · exact ⟨.refl _, .inr rfl⟩

/-- With nothing in flight, the loop goes on or waits. -/
theorem moves_idleStep (y : Sys) : y.sched.control.Moves y.idleStep.sched.control ∧
    (y.idleStep.pc = .outer ∨ y.idleStep.pc = .idle) := by
  have hclean := y.sched.moves_cleanupTerminalRequests
  unfold idleStep
  generalize y.sched.cleanupTerminalRequests = s at hclean ⊢
  simp only
  split
  · rename_i hpreempt
    have hunpaused : s.admissionPaused = false := by
      simp only [Bool.and_eq_true, Bool.not_eq_true'] at hpreempt
      exact hpreempt.1
    exact ⟨hclean.trans (s.moves_preemptOneForAdmission hunpaused), .inl rfl⟩
  · have hload := s.moves_loadAccepting
    generalize s.loadAccepting = loaded at hload ⊢
    obtain ⟨accepting, s'⟩ := loaded
    simp only
    split
    · exact ⟨hclean.trans hload, .inl rfl⟩
    · split
      · exact ⟨hclean.trans hload, .inl rfl⟩
      · exact ⟨hclean.trans hload, .inr rfl⟩

/-- The drain ends: what still runs is cleaned up and the promise is set. -/
theorem finished (h : y.Orderly) (stage : y.pc.stage = .draining) (inFlight : y.inFlight = []) :
    ({ y with
      sched := (y.sched.cleanupAllRunning .serverShuttingDown).completeShutdown
      pc := .done } : Sys).Orderly := by
  have hclean := y.sched.control_cleanupAllRunning .serverShuttingDown
  generalize y.sched.cleanupAllRunning .serverShuttingDown = s at hclean ⊢
  have hlawful : s.flags.Lawful .draining := by
    rw [show s.flags = y.sched.flags from congrArg Control.flags hclean, ← stage]
    exact h.flags
  obtain ⟨haccepting, hpending⟩ := hlawful.closed (.inl rfl)
  obtain ⟨hwaiting, hskip⟩ := h.drained (.inl stage)
  have hrequested : s.shutdownRequested = true :=
    (hlawful.running nofun).resolve_left (by rw [haccepting]; exact nofun)
  have hnotSent : s.shutdownDoneSent = false := by
    rcases hsent : s.shutdownDoneSent with _ | _
    · rfl
    · rcases (hlawful.sent hsent).2.2.2 with hstage | hstage <;> cases hstage
  have hzero : s.promiseSet = 0 := by
    have := hlawful.promise
    rwa [show s.flags.shutdownDoneSent = false from hnotSent] at this
  rw [Scheduler.completeShutdown, hnotSent, if_neg nofun]
  exact {
    flags := {
      pending := hlawful.pending
      running := fun _ => .inr hrequested
      idle := nofun
      waits := fun _ => hlawful.waits nofun
      posted := fun wasRunning hposted =>
        let ⟨hr, hp, ha, hwas⟩ := hlawful.posted wasRunning hposted
        ⟨hr, hp, ha, fun _ => hwas nofun⟩
      closed := fun _ => ⟨haccepting, hpending⟩
      sent := fun _ => ⟨hrequested, hpending, haccepting, .inl rfl⟩
      ended := fun _ => rfl
      promise := congrArg (· + 1) hzero }
    fresh := nofun
    drained := fun _ => ⟨(congrArg Control.waiting hclean).trans hwaiting,
      (congrArg Control.skip hclean).trans hskip⟩
    empty := fun _ => inFlight
    paused := fun hstage => absurd rfl hstage }

/-- Every step of the engine loop, place by place. -/
theorem engineStep {dispatchError : Option ErrorCode} (h : y.Orderly)
    (t : y.engineStep dispatchError = some y') : y'.Orderly := by
  unfold Sys.engineStep at t
  split at t
  · cases t
  · cases t
  · rename_i hpc
    cases t
    exact h.working (by rw [hpc]; rfl) rfl (.refl _)
  · rename_i hpc
    have hstage : y.pc.stage = .working := by rw [hpc]; rfl
    have hload := y.sched.moves_loadAccepting
    have hfst := y.sched.loadAccepting_fst
    generalize y.sched.loadAccepting = loaded at hload hfst t
    obtain ⟨accepting, s⟩ := loaded
    simp only at t hfst hload
    split at t
    · cases t
      exact h.working hstage rfl hload
    · rename_i hcleared
      cases t
      have hfail := s.control_failAllWaiting .serverShuttingDown
      have hlawful : s.flags.Lawful .working := hstage ▸ h.flags.loads hload.loads
      have hdrain := hlawful.drain (show s.accepting = false by rw [← hfst]; simpa using hcleared)
      exact {
        flags := by
          rw [LawfulFlags, show Scheduler.flags _ = s.flags from congrArg Control.flags hfail]
          exact hdrain
        fresh := nofun
        drained := fun _ => ⟨congrArg Control.waiting hfail, congrArg Control.skip hfail⟩
        empty := nofun
        paused := fun _ => by
          rw [hfail]
          exact hload.paused (h.paused (by rw [hstage]; exact nofun)) }
  · rename_i hpc
    cases t
    obtain ⟨hmoves, hpc'⟩ := moves_dispatchStep y dispatchError
    refine h.working (by rw [hpc]; rfl) ?_ hmoves
    rcases hpc' with hpc' | hpc' <;> rw [hpc']
    · rw [hpc]; rfl
    · rfl
  · rename_i hpc
    split at t
    · cases t
      obtain ⟨hmoves, hpc'⟩ := moves_idleStep y
      refine h.working (by rw [hpc]; rfl) ?_ hmoves
      rcases hpc' with hpc' | hpc' <;> rw [hpc'] <;> rfl
    · cases t
      exact h.working (by rw [hpc]; rfl) rfl (.refl _)
  · rename_i c hpc
    split at t
    · cases t
    · rename_i result hresult
      cases t
      have hretire := Control.Moves.of_eq (y.sched.control_retireBatch c.batch result)
      exact h.working (by rw [hpc]; rfl) rfl
        (hretire.trans (Scheduler.moves_cleanupTerminalRequests _))
  · rename_i hpc
    cases t
    exact h.working (by rw [hpc]; rfl) rfl (.refl _)
  · rename_i hpc
    have hstage : y.pc.stage = .draining := by rw [hpc]; rfl
    split at t
    · rename_i hflight
      cases t
      exact h.finished hstage hflight
    · cases t
      exact h.idle (by rw [hpc]; rfl) rfl (by simp_all)
  · rename_i c hpc
    split at t
    · cases t
    · cases t
      exact h.idle (by rw [hpc]; rfl) (y.sched.control_retireBatch c.batch _) id

/-- `start` spawns the engine loop. -/
theorem handleStart (h : y.Orderly) : y.handleStart.Orderly := by
  unfold Sys.handleStart
  split
  · exact h
  · rename_i hflags
    rw [Bool.or_eq_true, not_or, Bool.not_eq_true, Bool.not_eq_true] at hflags
    obtain ⟨hrequested, haccepting⟩ := hflags
    have hno : y.sched.shutdownRequested ≠ true := by rw [hrequested]; exact nofun
    have hstage : y.pc.stage = .fresh := by
      by_contra hstage
      rcases h.flags.running hstage with hrunning | hrunning
      · exact absurd (haccepting.symm.trans hrunning) nofun
      · exact hno hrunning
    exact {
      flags := {
        pending := h.flags.pending
        running := fun _ => .inl rfl
        idle := nofun
        waits := fun _ _ => rfl
        posted := fun wasRunning hposted => absurd (h.flags.posted wasRunning hposted).1 hno
        closed := fun hstage => absurd hstage Stage.working_open
        sent := fun hsent => absurd (h.flags.sent hsent).1 hno
        ended := nofun
        promise := h.flags.promise }
      fresh := nofun
      drained := fun hstage => absurd hstage Stage.working_open
      empty := nofun
      paused := fun _ => h.paused (by rw [hstage]; exact nofun) }

/-- A submission is taken by the working loop only. -/
theorem handleSubmit (h : y.Orderly) (req : SchedulerRequest) : (y.handleSubmit req).Orderly := by
  have hload := y.sched.moves_loadAccepting
  have hfst := y.sched.loadAccepting_fst
  have hqueues : y.sched.loadAccepting.2.control =
      { y.sched.control with flags := y.sched.loadAccepting.2.flags } := by
    unfold Scheduler.loadAccepting
    split <;> rfl
  unfold Sys.handleSubmit
  generalize y.sched.loadAccepting = loaded at hload hfst hqueues ⊢
  obtain ⟨accepting, s⟩ := loaded
  have hlawful : s.flags.Lawful y.pc.stage := h.flags.loads hload.loads
  simp only at hfst ⊢
  split
  · show Sys.Orderly { y with sched := s.log _ }
    exact h.framed hlawful rfl hqueues id
  · rename_i haccepting
    have haccepting : s.accepting = true := by rw [← hfst]; simpa using haccepting
    have hstage : y.pc.stage = .working := by
      rcases hstage : y.pc.stage with _ | _ | _ | _
      · exact absurd (haccepting.symm.trans (hlawful.idle hstage)) nofun
      · rfl
      · exact absurd (haccepting.symm.trans (hlawful.closed (.inl hstage)).1) nofun
      · exact absurd (haccepting.symm.trans (hlawful.closed (.inr hstage)).1) nofun
    exact h.working hstage hstage (hload.trans (s.moves_submitOnSchedulerThread req))

/-- `shutdown_async` requests the shutdown. -/
theorem handleShutdownAsync (h : y.Orderly) (delay : Nat) :
    (y.handleShutdownAsync delay).Orderly := by
  unfold Sys.handleShutdownAsync
  split
  · exact h
  · rename_i hrequested
    show Sys.Orderly { y with sched :=
      { y.sched with shutdownRequested := true, storePending := some delay } }
    refine h.framed ?_ rfl rfl id
    have hrunning : y.pc.stage ≠ .fresh → y.sched.accepting = true := fun hstage =>
      (h.flags.running hstage).resolve_right hrequested
    exact {
      pending := fun _ => rfl
      running := fun _ => .inr rfl
      idle := h.flags.idle
      waits := fun hstage _ => hrunning hstage
      posted := fun wasRunning hposted => absurd (h.flags.posted wasRunning hposted).1 hrequested
      closed := fun hstage => by
        have hcleared := (h.flags.closed hstage).1
        have hset : y.sched.flags.accepting = true := hrunning fun hfresh => by
          rw [hfresh] at hstage
          rcases hstage with hstage | hstage <;> cases hstage
        rw [hset] at hcleared
        cases hcleared
      sent := fun hsent => absurd (h.flags.sent hsent).1 hrequested
      ended := h.flags.ended
      promise := h.flags.promise }

/-- The posted handler empties two queues, and sets the promise if the loop was never
spawned. -/
theorem handleShutdown (h : y.Orderly) (t : y.handleShutdown = some y') : y'.Orderly := by
  unfold Sys.handleShutdown at t
  split at t
  · cases t
  · rename_i wasRunning hposted
    obtain ⟨hrequested, hpending, haccepting, hwas⟩ := h.flags.posted wasRunning hposted
    have hfail := Scheduler.control_failAllWaiting { y.sched with shutdownPosted := none }
      .serverShuttingDown
    simp only at t
    generalize Scheduler.failAllWaiting _ _ = s at hfail t
    have hflags : s.flags = { y.sched.flags with shutdownPosted := none } :=
      congrArg Control.flags hfail
    -- the flags without the posted handler
    have hlawful : s.flags.Lawful y.pc.stage := by
      rw [hflags]
      exact {
        pending := h.flags.pending
        running := h.flags.running
        idle := h.flags.idle
        waits := h.flags.waits
        posted := nofun
        closed := h.flags.closed
        sent := h.flags.sent
        ended := h.flags.ended
        promise := h.flags.promise }
    have hqueues : ∀ s' : Scheduler, s'.control = { s.control with flags := s'.flags } →
        s'.flags.Lawful y.pc.stage → ({ y with sched := s' } : Sys).Orderly := by
      intro s' hs' hlawful'
      rw [hfail] at hs'
      exact {
        flags := hlawful'
        fresh := fun hstage => ⟨congrArg Control.waiting hs', congrArg Control.skip hs',
          (congrArg Control.running hs').trans (h.fresh hstage).2.2.1, (h.fresh hstage).2.2.2⟩
        drained := fun _ => ⟨congrArg Control.waiting hs', congrArg Control.skip hs'⟩
        empty := h.empty
        paused := fun hstage => by
          rw [hs']
          exact h.paused hstage }
    cases t
    cases wasRunning with
    | true => exact hqueues s rfl hlawful
    | false =>
      have hstage : y.pc.stage = .fresh := by
        by_contra hstage
        cases hwas hstage
      rw [if_neg nofun, Scheduler.completeShutdown]
      split
      · exact hqueues s rfl hlawful
      · rename_i hnot
        have hzero : s.flags.promiseSet = 0 := by
          rw [hlawful.promise]
          exact if_neg hnot
        have hnow : s.shutdownRequested = true ∧ s.storePending = none ∧ s.accepting = false :=
          ⟨(congrArg Flags.shutdownRequested hflags).trans hrequested,
            (congrArg Flags.storePending hflags).trans hpending,
            (congrArg Flags.accepting hflags).trans haccepting⟩
        refine hqueues _ rfl ?_
        exact {
          pending := hlawful.pending
          running := hlawful.running
          idle := hlawful.idle
          waits := hlawful.waits
          posted := hlawful.posted
          closed := hlawful.closed
          sent := fun _ => ⟨hnow.1, hnow.2.1, hnow.2.2, .inr hstage⟩
          ended := fun _ => rfl
          promise := congrArg (· + 1) hzero }

end Orderly

/-- The worker answers a batch and leaves their number alone. -/
theorem resolveFirst_length {k k' : Worker} {seed : SequenceId → List Token} {blockSize : Nat}
    {batches batches' : List InFlightBatch}
    (t : resolveFirst k seed blockSize running outcome batches = some (batches', k')) :
    batches'.length = batches.length := by
  induction batches generalizing batches' with
  | nil => cases t
  | cons _ _ ih =>
    unfold resolveFirst at t
    split at t
    · obtain ⟨⟨rest', k₁⟩, hr, heq⟩ := Option.map_eq_some_iff.mp t
      cases heq
      rw [List.length_cons, ih hr, List.length_cons]
    · split at t
      · cases t
        rfl
      · cases t

/-- The worker touches neither the Scheduler nor the stage of the loop. -/
theorem Orderly.workStep (h : y.Orderly)
    (t : y.workStep running outcome = some y') : y'.Orderly := by
  unfold Sys.workStep at t
  split at t
  · cases t
  · rename_i batches k hresolve
    have hlength := resolveFirst_length hresolve
    simp only [pipeline, List.length_append] at hlength
    rcases hcurrent : y.pc.current with _ | ⟨c₀, current⟩
    · simp only [hcurrent] at t
      cases t
      refine h.idle rfl rfl fun hempty => ?_
      rw [hcurrent, hempty] at hlength
      exact List.length_eq_zero_iff.mp hlength
    · rcases batches with _ | ⟨c, rest⟩
      · rw [hcurrent, List.length_nil, List.length_cons] at hlength
        omega
      · simp only [hcurrent] at t
        cases t
        have hone : y.pc.current.length = 1 := by
          cases hpc : y.pc <;> simp_all [EnginePc.current]
        refine h.idle ?_ rfl fun hempty => ?_
        · cases hpc : y.pc <;> rfl
        · rw [hempty, hone, List.length_cons, List.length_nil, Nat.add_zero] at hlength
          exact List.length_eq_zero_iff.mp (Nat.succ.inj hlength)

/-- Every step keeps the system orderly. -/
theorem Orderly.step {l : Label} (h : y.Orderly) (t : y.step l = some y') : y'.Orderly := by
  cases l with
  | start => cases t; exact h.handleStart
  | submit req =>
    simp only [Sys.step] at t
    split at t
    · cases t; exact h.handleSubmit req
    · cases t
  | cancel requestId =>
    simp only [Sys.step] at t
    split at t
    · cases t
      exact h.idle rfl (y.sched.control_cancelOnSchedulerThread requestId) id
    · cases t
  | shutdownAsync delay => cases t; exact h.handleShutdownAsync delay
  | landStore =>
    simp only [Sys.step] at t
    split at t
    · cases t
    · rename_i delay hpending
      cases t
      show Sys.Orderly { y with sched := y.sched.landStore }
      exact h.framed
        (h.flags.land (by rw [Scheduler.flags, hpending]; rfl)) rfl rfl id
  | shutdownHandler =>
    simp only [Sys.step] at t
    split at t
    · exact h.handleShutdown t
    · cases t
  | expire => cases t; exact h.idle rfl rfl id
  | work => exact h.workStep t
  | engine => exact h.engineStep t

end Sys

/-- Every reachable state is orderly. -/
theorem Reachable.orderly {config : ValidConfig} {y : Sys} (h : Reachable config y) :
    y.Orderly := by
  induction h with
  | init =>
    exact {
      flags := ⟨nofun, fun h => absurd rfl h, fun _ => rfl, nofun, nofun,
        fun h => absurd h Stage.fresh_open, nofun, nofun, rfl⟩
      fresh := fun _ => ⟨rfl, rfl, rfl, rfl⟩
      drained := fun h => absurd h Stage.fresh_open
      empty := nofun
      paused := fun _ => nofun }
  | step l _ t ih => exact ih.step t

end CcInfer
