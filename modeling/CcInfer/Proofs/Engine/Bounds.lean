import CcInfer.Refine.Reach

/-!
# `CcInfer.Proofs.Engine.Bounds`: the limits of the configuration

Admission tests `max_running_requests` and `max_sequences`, resumption tests the first of
them only, submission tests `max_pending_requests`, and a suspended request goes back to
`waiting_` without any test. `Sized` is what these tests add up to. Only a submission
makes the registry grow, and then `waiting_` is below its own limit.
-/

set_option autoImplicit false

namespace CcInfer

/-- The queues keep to the limits of the configuration. -/
structure Sized (w : World) : Prop where
  running : w.running.length ≤ w.config.maxRunningRequests
  sequences : w.running.length + w.skip.length ≤ w.config.maxSequences
  requests : w.waiting.length + w.skip.length + w.running.length ≤
    w.config.maxPendingRequests + w.config.maxSequences

namespace Sized

variable {w w' : World}

theorem init (config : ValidConfig) : Sized (World.init config) :=
  ⟨Nat.zero_le _, Nat.zero_le _, Nat.zero_le _⟩

/-- A transaction that lets no queue grow. -/
theorem shrunk (h : Sized w) (config : w'.config = w.config)
    (waiting : w'.waiting.length ≤ w.waiting.length) (skip : w'.skip.length ≤ w.skip.length)
    (running : w'.running.length ≤ w.running.length) : Sized w' := by
  have hrunning := h.running
  have hsequences := h.sequences
  have hrequests := h.requests
  constructor <;> rw [config] <;> omega

/-- Every transaction keeps the limits. -/
theorem step (h : Sized w) (t : World.Step w w') : Sized w' := by
  have hrunning := h.running
  have hsequences := h.sequences
  have hrequests := h.requests
  cases t with
  | register =>
    refine ⟨hrunning, hsequences, ?_⟩
    simp only [List.length_append, List.length_singleton]
    omega
  | reorder _ perm => exact h.shrunk rfl perm.length_eq.le le_rfl le_rfl
  | admission _ _ _ _ _ _ _ front =>
    simp only [front, List.length_cons] at hrequests
    constructor <;> simp only [List.length_append, List.length_singleton] <;> omega
  | resume _ _ _ front =>
    simp only [front, List.length_cons] at hsequences hrequests
    constructor <;> simp only [List.length_append, List.length_singleton] <;> omega
  | preempt _ _ running =>
    have hpos := List.length_pos_of_mem running
    constructor <;> simp only [List.length_erase_of_mem running, List.length_cons] <;> omega
  | park p _ _ scheduled _ source =>
    -- the request leaves one of the two queues of scheduled requests
    have hleaves : (w.skip.erase p).length + (w.running.erase p).length + 1 ≤
        w.skip.length + w.running.length := by
      have hskip := (List.erase_sublist (l := w.skip) (a := p)).length_le
      have hrun := (List.erase_sublist (l := w.running) (a := p)).length_le
      rcases source with hmem | ⟨hmem, -⟩
      · have := List.length_pos_of_mem hmem
        rw [List.length_erase_of_mem hmem]
        omega
      · have := List.length_pos_of_mem hmem
        rw [List.length_erase_of_mem hmem]
        omega
    have hrun := (List.erase_sublist (l := w.running) (a := p)).length_le
    constructor <;> simp only [List.length_cons] <;> omega
  | drop =>
    exact h.shrunk rfl List.erase_sublist.length_le List.erase_sublist.length_le
      List.erase_sublist.length_le
  | _ => exact h.shrunk rfl le_rfl le_rfl le_rfl

/-- Every run keeps the limits. -/
theorem run {config : ValidConfig} (run : World.Run (World.init config) w) : Sized w :=
  Runs.invariant (fun _ _ h t => h.step t) (.init config) run

end Sized

/-- The batch keeps to the limits of the configuration. -/
structure ScheduledBatch.WithinLimits (batch : ScheduledBatch) (config : ValidConfig) : Prop where
  budget : (batch.items.map WorkItem.tokenCount).sum ≤ config.maxTokenBudget
  once : (batch.items.map WorkItem.seqId).Nodup
  chunks : 0 < config.maxSeqPrefillTokens → ∀ chunk, .prefill chunk ∈ batch.items →
    chunk.promptSpan.length ≤ config.maxSeqPrefillTokens

/-- The limits of the configuration hold in every reachable state, and so they do for the
batch that `schedule_step` builds there. -/
theorem limits_hold {config : ValidConfig} {y : Sys} (h : Reachable config y) :
    y.sched.scheduleStep.2.WithinLimits config ∧
    y.sched.running.length ≤ config.maxRunningRequests ∧
    y.sched.running.length + y.sched.skip.length ≤ config.maxSequences ∧
    y.sched.requests.length ≤ config.maxPendingRequests + config.maxSequences := by
  obtain ⟨_, -, run, core⟩ := h.core
  have hconfig : y.sched.config = config := run.config_eq
  obtain ⟨hrun, hok, -⟩ := Scheduler.buildBatch_run (c := true) core nofun
  have hnext : y.sched.buildBatch.1.config = config := hrun.config_eq.trans hconfig
  have hsized := Sized.run run
  have hregistry := core.positions.registry_perm.length_eq
  simp only [List.length_map, List.length_append] at hregistry
  refine ⟨?_, hconfig ▸ hsized.running, hconfig ▸ hsized.sequences, ?_⟩
  · rw [Scheduler.scheduleStep_eq core]
    have hbudget := hok.budget
    have hchunks := hok.chunks
    rw [hnext] at hbudget hchunks
    exact ⟨by simp only; omega, hok.nodup, fun hcap chunk hmem => hchunks hcap _ hmem⟩
  · rw [← hconfig]
    exact hregistry.le.trans hsized.requests

/-- The configuration of `putBack`: three blocks, and chunks of two tokens. -/
def threeBlocks : ValidConfig := (EngineConfig.small 3 2).toValid EngineConfig.threeChunked_ok

/-- A run in which a suspension has put a request back into `waiting_`. -/
def putBack : Sys :=
  Sys.after threeBlocks (Label.submits [⟨"a", [1, 2], {}, 6⟩, ⟨"b", [3, 4, 5, 6], {}, 6⟩] ++
    Label.turn [7, 0] ++ Label.turn [8] ++ Label.turn [9])

theorem limits_hold_putBack : (putBack.sched.waiting = [0] ∧ putBack.sched.running = [1] ∧
      putBack.sched.requests.map Prod.snd = [0, 1]) ∧
    putBack.sched.scheduleStep.2.WithinLimits threeBlocks ∧
    putBack.sched.running.length ≤ threeBlocks.maxRunningRequests ∧
    putBack.sched.running.length + putBack.sched.skip.length ≤ threeBlocks.maxSequences ∧
    putBack.sched.requests.length ≤ threeBlocks.maxPendingRequests + threeBlocks.maxSequences :=
  ⟨by decide +kernel, limits_hold (Reachable.after _ _)⟩

end CcInfer
