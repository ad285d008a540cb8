import CcInfer.Refine.Reach

/-!
# `CcInfer.Proofs.Engine.Reservations`: the reservation counters are exact

`build_state_work` raises the four counters of a `SequenceReservation` and
`retire_reservation` lowers them again, with amounts that it derives from the item a second
time. The counters are the sums over the items in flight of the sequence, so the saturating
subtractions and the guards of `retire_reservation` never act.
-/

set_option autoImplicit false

namespace CcInfer

namespace SequenceReservation

/-- The reservation of a sequence that has `items` in flight. -/
def ofItems (items : List WorkItem) : SequenceReservation where
  executionLeases := items.length
  reservedPromptTokens := promptLength items
  reservedGenerationTokens := sampleCount items
  reservedKvTokens := writtenLength items

/-- The reservation has what `retire_reservation` takes off for `item`. -/
structure Covers (r : SequenceReservation) (item : WorkItem) : Prop where
  lease : 1 ≤ r.executionLeases
  prompt : item.promptTokenCount ≤ r.reservedPromptTokens
  generation : (if item.samples then 1 else 0) ≤ r.reservedGenerationTokens
  kv : item.kvTokenCount ≤ r.reservedKvTokens

theorem covers_ofItems (item : WorkItem) (rest : List WorkItem) :
    (ofItems (item :: rest)).Covers item := by
  constructor <;> simp [ofItems, promptLength, sampleCount, writtenLength]

/-- Retiring the oldest item leaves the reservation of the others. -/
theorem retire_ofItems (item : WorkItem) (rest : List WorkItem) :
    (ofItems (item :: rest)).retire item = ofItems rest := by
  simp [retire, ofItems, promptLength, sampleCount, writtenLength]

/-- Retiring the older items in turn leaves the reservation of the others. -/
theorem foldl_retire_ofItems (rest : List WorkItem) (done : List WorkItem) :
    done.foldl retire (ofItems (done ++ rest)) = ofItems rest := by
  induction done with
  | nil => rfl
  | cons _ _ ih => rw [List.cons_append, List.foldl_cons, retire_ofItems, ih]

end SequenceReservation

/-- The reservations of all scheduled requests count their items among `items`, and each of
these items, when its turn comes, finds what it takes off. -/
structure Scheduler.ExactReservations (s : Scheduler) (items : List WorkItem) : Prop where
  counted : ∀ p sc, (s.heap p).scheduling = some sc →
    sc.reservation = .ofItems (items.filter fun i => i.seqId == sc.seqId)
  covered : ∀ p sc, (s.heap p).scheduling = some sc → ∀ done item rest,
    (items.filter fun i => i.seqId == sc.seqId) = done ++ item :: rest →
    (done.foldl SequenceReservation.retire sc.reservation).Covers item

/-- The books of a request are its reservation. -/
theorem Geometry.reservation_eq {st : RequestState}
    {sc : SequenceSchedulingState} {items : List WorkItem} (h : Geometry st sc items) :
    sc.reservation = .ofItems items := by
  rcases hr : sc.reservation with ⟨_, _, _, _⟩
  have hleases := h.leases
  have hkv := h.reservedKv
  have hprompt := h.reservedPrompt
  have hgeneration := h.reservedGeneration
  rw [hr] at hleases hkv hprompt hgeneration
  subst hleases hkv hprompt hgeneration
  rfl

/-- The invariant read at the Scheduler. -/
theorem Core.exactReservations {s : Scheduler} {fl : List FlightItem} {k : Worker}
    (core : Core (World.of s fl k)) : s.ExactReservations (fl.map (·.item)) := by
  have hitems : ∀ seq, (fl.map (·.item)).filter (fun i => i.seqId == seq) =
      ((World.of s fl k).itemsOf seq).map (·.item) := by
    intro seq
    rw [List.filter_map]
    rfl
  have hcounted : ∀ p sc, (s.heap p).scheduling = some sc →
      sc.reservation = .ofItems ((fl.map (·.item)).filter fun i => i.seqId == sc.seqId) := by
    intro p sc hsc
    rw [hitems]
    exact (core.geometry (p := p) hsc).reservation_eq
  refine ⟨hcounted, fun p sc hsc done item rest hsplit => ?_⟩
  rw [hcounted p sc hsc, hsplit, SequenceReservation.foldl_retire_ofItems]
  exact SequenceReservation.covers_ofItems item rest

/-- In every reachable state the reservations count the items in flight exactly. So they do
after another `schedule_step`, whose batch is what it has built. -/
theorem reservations_exact {config : ValidConfig} {y : Sys} (h : Reachable config y) :
    y.sched.ExactReservations y.itemsInFlight ∧ y.sched.scheduleStep.1.ExactReservations
      (y.itemsInFlight ++ y.sched.scheduleStep.2.items) ∧
    y.sched.scheduleStep.2.items = y.sched.buildBatch.2.batch.items := by
  obtain ⟨fls, carries, -, core⟩ := h.core
  have hitems : y.itemsInFlight = fls.flatten.map (·.item) := Carries.items_flatMap carries
  have hnext :=
    (core.run_shutIf (Scheduler.scheduleStep_shutIf (c := true) core nofun).1).exactReservations
  rw [List.map_append] at hnext
  refine ⟨hitems ▸ core.exactReservations, ?_, by rw [Scheduler.scheduleStep_eq core]⟩
  rw [hitems]
  simpa [ScheduledBatch.flight, Function.comp_def] using hnext

/-- A run that ends with two decodes of one request in flight. -/
def twoDecodes : Sys :=
  Sys.after ({ EngineConfig.small 3 0 with maxConcurrentBatches := 2 }.toValid
      EngineConfig.threeConcurrent_ok)
    (Label.submits [⟨"a", [1, 2, 3], {}, 6⟩] ++ Label.dispatch ++
      [.engine none, .engine none, .work true (.sampled [7]), .engine none] ++ Label.dispatch ++
      [.engine none])

theorem reservations_exact_twoDecodes :
    ((twoDecodes.sched.heap 0).scheduling.map (·.reservation) = some ⟨2, 0, 2, 2⟩ ∧
      twoDecodes.itemsInFlight.map WorkItem.context = [3, 4]) ∧
    twoDecodes.sched.ExactReservations twoDecodes.itemsInFlight ∧
    twoDecodes.sched.scheduleStep.1.ExactReservations
      (twoDecodes.itemsInFlight ++ twoDecodes.sched.scheduleStep.2.items) ∧
    twoDecodes.sched.scheduleStep.2.items = twoDecodes.sched.buildBatch.2.batch.items :=
  ⟨by decide +kernel, reservations_exact (Reachable.after _ _)⟩

end CcInfer
