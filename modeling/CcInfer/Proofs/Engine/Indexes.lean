import CcInfer.Refine.Reach

/-!
# `CcInfer.Proofs.Engine.Indexes`: the indexes of the Scheduler agree

The registry, the three queues and the map from sequence ids point to the same requests in
every reachable state of the engine. `scheduler.h` documents this. The proof is
`CcInfer.Invariant.Positions`; here it is read off the state of the engine itself, with the
batches in the pipeline in place of the items in flight.
-/

set_option autoImplicit false

namespace CcInfer

/-- One scheduling position per request. -/
structure Sys.OnePosition (y : Sys) : Prop where
  /-- Every registered request is in exactly one queue, once, and nothing else is queued. -/
  queued : (y.sched.requests.map Prod.snd).Perm
    (y.sched.waiting ++ y.sched.skip ++ y.sched.running)
  once : (y.sched.waiting ++ y.sched.skip ++ y.sched.running).Nodup
  /-- The requests in `skip_` and `running_` are the ones with a scheduling state. -/
  scheduled : ∀ p, (y.sched.heap p).scheduling.isSome ↔
    p ∈ y.sched.skip ∨ p ∈ y.sched.running
  /-- `by_seq_id_` is the map from the sequence ids of `running_`. -/
  bySeqId : ∀ seq p, y.sched.bySeqId seq = some p ↔
    p ∈ y.sched.running ∧ ∃ sc, (y.sched.heap p).scheduling = some sc ∧ sc.seqId = seq
  /-- Live scheduling states have different sequence ids, all given out before. -/
  distinct : ∀ p q sc sc', (y.sched.heap p).scheduling = some sc →
    (y.sched.heap q).scheduling = some sc' → sc.seqId = sc'.seqId → p = q
  given : ∀ p sc, (y.sched.heap p).scheduling = some sc → sc.seqId < y.sched.nextSeqId
  /-- An item in flight belongs to a running request. -/
  inFlight : ∀ b ∈ y.pipeline, ∀ item ∈ b.batch.items, ∃ p ∈ y.sched.running,
    ∃ sc, (y.sched.heap p).scheduling = some sc ∧ sc.seqId = item.seqId
  /-- The assertions of `admit_one_waiting` and `erase_request` hold. -/
  asserts : ∀ site ∈ y.sched.failedAsserts, site ≠ .admitUnscheduled ∧ site ≠ .eraseUnscheduled

/-- In every reachable state, every request has one scheduling position. -/
theorem onePosition {config : ValidConfig} {y : Sys} (h : Reachable config y) : y.OnePosition := by
  obtain ⟨_, carries, -, core⟩ := h.core
  have hp := core.positions
  refine ⟨hp.registry_perm, hp.nodup, hp.scheduled, hp.bySeqId, hp.seq_inj, hp.seq_lt, ?_, ?_⟩
  · intro b hb item hitem
    obtain ⟨_, hf, rfl⟩ := Sys.mem_itemsInFlight carries (List.mem_flatMap.mpr ⟨b, hb, hitem⟩)
    exact core.flights.owner hp hf
  · intro site hsite
    have hnone := List.filter_eq_nil_iff.mp hp.asserts site hsite
    constructor
    · rintro rfl
      exact hnone rfl
    · rintro rfl
      exact hnone rfl

/-- A run that ends with a batch of two requests in flight. -/
def twoInFlight : Sys :=
  Sys.after ((EngineConfig.small 3 0).toValid EngineConfig.three_ok)
    (Label.submits [⟨"a", [1, 2, 3], {}, 6⟩, ⟨"b", [4], {}, 6⟩] ++ Label.dispatch)

theorem onePosition_twoInFlight : twoInFlight.sched.running = [0, 1] ∧ twoInFlight.OnePosition :=
  ⟨by decide +kernel, onePosition (Reachable.after _ _)⟩

end CcInfer
