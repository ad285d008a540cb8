import CcInfer.Invariant.Ownership
import CcInfer.Lib.Runs

/-!
# `CcInfer.Invariant.Core`: the invariant of all reachable worlds

`Core` joins the invariants of the modules before it, which need each other to be kept: the
scheduling positions, the owners of the items in flight, the bookkeeping of each request
and the block references. `Core.step` is the step lemma and `Core.run` the run lemma. The
rest of the development starts from `Core`.
-/

set_option autoImplicit false

namespace CcInfer

open Relation

namespace World

/-- The world of a new engine. -/
def init (config : ValidConfig) : World := .of (.init config) [] .init

/-- A run of transactions. -/
abbrev Run : World → World → Prop := ReflTransGen Step

variable {w w' : World} {q : RequestPtr}

theorem Run.shutIf (c : Bool) (run : Run w w') : Run (w.shutIf c) (w'.shutIf c) :=
  run.lift _ fun _ _ t => t.shutIf c

theorem Step.config_eq (t : Step w w') : w'.config = w.config := by
  cases t <;> rfl

theorem Step.nextPtr_le (t : Step w w') : w.nextPtr ≤ w'.nextPtr := by
  cases t with
  | register => exact Nat.le_succ _
  | _ => exact le_rfl

theorem Step.nextSeqId_le (t : Step w w') : w.nextSeqId ≤ w'.nextSeqId := by
  cases t with
  | admission => exact Nat.le_succ _
  | _ => exact le_rfl

/-- A scheduling state was there before, under the same sequence id, or is that of an
admission under the next id. -/
theorem Step.scheduled_from (t : Step w w') {sc' : SequenceSchedulingState}
    (hsc' : w'.Scheduled q sc') : (∃ sc, w.Scheduled q sc ∧ sc'.seqId = sc.seqId ∧
      ((w'.heap q).status = .active → (w.heap q).status = .active)) ∨ sc'.seqId = w.nextSeqId := by
  have hkeep : w'.heap q = w.heap q → ∃ sc, w.Scheduled q sc ∧ sc'.seqId = sc.seqId ∧
      ((w'.heap q).status = .active → (w.heap q).status = .active) := fun heap =>
    ⟨sc', by rwa [World.Scheduled, ← heap], rfl, by rw [heap]; exact id⟩
  -- the object of `p` is overwritten
  have hupdate : ∀ (p : RequestPtr) (st : RequestState),
      w'.heap = Function.update w.heap p st →
      (∀ sc', st.scheduling = some sc' → ∃ sc, w.Scheduled p sc ∧ sc'.seqId = sc.seqId ∧
        (st.status = .active → (w.heap p).status = .active)) →
      ∃ sc, w.Scheduled q sc ∧ sc'.seqId = sc.seqId ∧
        ((w'.heap q).status = .active → (w.heap q).status = .active) := by
    intro p st heap hst
    rcases eq_or_ne q p with rfl | hne
    · rw [World.Scheduled, heap, Function.update_self] at hsc'
      rw [heap, Function.update_self]
      exact hst sc' hsc'
    · exact hkeep (by rw [heap, Function.update_of_ne hne])
  cases t with
  | cancel | finish | fail =>
    exact .inl (hupdate _ _ rfl fun sc hsc => ⟨sc, hsc, rfl, nofun⟩)
  | expire p => exact .inl (hupdate p _ rfl fun sc hsc => ⟨sc, hsc, rfl, id⟩)
  | register | park | drop => exact .inl (hupdate _ _ rfl fun sc hsc => nomatch hsc)
  | grow | dispatch | discard | retireChunk =>
    refine .inl (hupdate _ _ rfl fun sc' hsc => ?_)
    cases hsc
    refine ⟨_, ‹w.Scheduled _ _›, ?_, id⟩
    rfl
  | retire _ item _ _ p sc advanced written _ _ _ scheduled _ active settles =>
    refine .inl (hupdate p _ rfl fun sc' hsc => ?_)
    cases hsc
    refine ⟨sc, scheduled, ?_, fun _ => active⟩
    simp only [SequenceSchedulingState.leaveBootstrap_frame,
      (w.kv.publishItem_published advanced item written).plan.seqId, settles.advanced.1]
  | admission p =>
    rcases eq_or_ne q p with rfl | hne
    · simp only [World.Scheduled, Function.update_self, Option.some.injEq] at hsc'
      exact .inr (by rw [← hsc']; rfl)
    · exact .inl (hkeep (Function.update_of_ne hne _ _))
  | _ => exact .inl (hkeep rfl)

/-- Registered requests keep what they were submitted with. -/
theorem Step.request_eq (t : Step w w') (hq : q < w.nextPtr) :
    (w'.heap q).sampling = (w.heap q).sampling ∧
    (w'.heap q).maxContextLen = (w.heap q).maxContextLen := by
  have hupdate : ∀ (p : RequestPtr) (st : RequestState), st.sampling = (w.heap p).sampling →
      st.maxContextLen = (w.heap p).maxContextLen →
      (Function.update w.heap p st q).sampling = (w.heap q).sampling ∧
      (Function.update w.heap p st q).maxContextLen = (w.heap q).maxContextLen := by
    intro p st hsampling hcontext
    rw [Function.update_apply]
    split
    · rename_i heq
      rw [heq]
      exact ⟨hsampling, hcontext⟩
    · exact ⟨rfl, rfl⟩
  cases t with
  | register =>
    simp only [Function.update_of_ne (ne_of_lt hq), and_self]
  | cancel | expire | finish | grow | dispatch | admission | park | drop | fail | discard
    | retireChunk | retire => exact hupdate _ _ rfl rfl
  | _ => exact ⟨rfl, rfl⟩

theorem Step.sampling_eq (t : Step w w') (hq : q < w.nextPtr) :
    (w'.heap q).sampling = (w.heap q).sampling := (t.request_eq hq).1

theorem Run.sampling_eq (run : Run w w') (hq : q < w.nextPtr) :
    q < w'.nextPtr ∧ (w'.heap q).sampling = (w.heap q).sampling :=
  Runs.invariant
    (I := fun x => q < x.nextPtr ∧ (x.heap q).sampling = (w.heap q).sampling)
    (fun _ _ h t => ⟨lt_of_lt_of_le h.1 t.nextPtr_le, (t.sampling_eq h.1).trans h.2⟩)
    ⟨hq, rfl⟩ run

theorem Run.nextPtr_le (run : Run w w') : w.nextPtr ≤ w'.nextPtr :=
  Runs.invariant (I := fun x => w.nextPtr ≤ x.nextPtr) (fun _ _ h t => h.trans t.nextPtr_le) le_rfl
    run

theorem Run.nextSeqId_le (run : Run w w') : w.nextSeqId ≤ w'.nextSeqId :=
  Runs.invariant (I := fun x => w.nextSeqId ≤ x.nextSeqId) (fun _ _ h t => h.trans t.nextSeqId_le)
    le_rfl run

/-- A sequence that was given out before a run has the same owner after it, if any. -/
theorem Run.scheduled_from (run : Run w w') {sc' : SequenceSchedulingState}
    (hsc' : w'.Scheduled q sc') (given : sc'.seqId < w.nextSeqId) :
    ∃ sc, w.Scheduled q sc ∧ sc'.seqId = sc.seqId := by
  induction run generalizing sc' with
  | refl => exact ⟨sc', hsc', rfl⟩
  | tail hrun t ih =>
    rcases t.scheduled_from hsc' with ⟨_, hsc, heq, -⟩ | hnew
    · obtain ⟨sc₀, hsc₀, heq₀⟩ := ih hsc (heq ▸ given)
      exact ⟨sc₀, hsc₀, heq.trans heq₀⟩
    · exact absurd (given.trans_le (Run.nextSeqId_le hrun)) (by rw [hnew]; exact lt_irrefl _)

theorem Run.config_eq (run : Run w w') : w'.config = w.config :=
  Runs.invariant (I := fun x => x.config = w.config) (fun _ _ h t => t.config_eq.trans h) rfl run

end World

/-- The invariant of all reachable worlds. -/
structure Core (w : World) : Prop where
  positions : Positions w
  flights : Flights w
  kept : ∀ p, p < w.nextPtr → (w.view p).Kept w.config.kvBlockSize
  ownership : Ownership w

namespace Core

variable {w w' : World} {p : RequestPtr} {sc : SequenceSchedulingState}

theorem init (config : ValidConfig) : Core (World.init config) where
  positions := .init config
  flights := .init config
  kept := fun _ hp => absurd hp (Nat.not_lt_zero _)
  ownership := .init config

theorem scheduled_lt (h : Core w) (hsc : (w.heap p).scheduling = some sc) : p < w.nextPtr :=
  h.positions.allocated p (.inr ((h.positions.scheduled p).mp (by simp [hsc])))

/-- The bookkeeping of a scheduled request. -/
theorem geometry (h : Core w) (hsc : (w.heap p).scheduling = some sc) :
    Geometry (w.heap p) sc ((w.itemsOf sc.seqId).map (·.item)) := by
  have hgeo := (h.kept p (h.scheduled_lt hsc)).geometry sc (by simpa using hsc)
  rwa [World.view_of_some hsc] at hgeo

/-- An item in flight is among the items of its sequence. -/
theorem item_mem {f : FlightItem} (hf : f ∈ w.flight) (hseq : sc.seqId = f.seqId) :
    f.item ∈ (w.itemsOf sc.seqId).map (·.item) :=
  List.mem_map_of_mem (Flights.mem_itemsOf.mpr ⟨hf, hseq.symm⟩)

section

variable (h : Core w)
include h

/-- The bookkeeping of the owner of the oldest item in flight. -/
theorem front_geometry {f : FlightItem} {rest : List FlightItem}
    (front : w.flight = f :: rest) (hsc : (w.heap p).scheduling = some sc)
    (hseq : sc.seqId = f.seqId) : Geometry (w.heap p) sc
      (f.item :: (rest.filter fun g => g.seqId == sc.seqId).map (·.item)) := by
  have hgeo := h.geometry hsc
  rwa [World.itemsOf, front, List.filter_cons_of_pos (by simp [hseq]), List.map_cons] at hgeo

/-- An item that was processed fits its table. -/
theorem done_fits {f : FlightItem} (hf : f ∈ w.flight) {token : Token}
    (done : f.fate = .done token) : f.item.Fits w.config.kvBlockSize := by
  obtain ⟨p, -, _, hsc, hseq⟩ := h.flights.owner h.positions hf
  have hfits := (h.kept p (h.scheduled_lt hsc)).fates.fits
  rw [World.view_of_some hsc] at hfits
  exact hfits f (Flights.mem_itemsOf.mpr ⟨hf, hseq.symm⟩) token done

/-- A result is ignored only for a request that is no longer active. -/
theorem discarded_inactive {before after : List FlightItem} {f : FlightItem}
    (split : w.flight = before ++ f :: after) (hsc : (w.heap p).scheduling = some sc)
    (hseq : sc.seqId = f.seqId)
    (ignored : (w.heap p).status ≠ .active ∨ (before = [] ∧ f.fate = .stale)) :
    (w.heap p).status ≠ .active := by
  have hinactive := (h.kept p (h.scheduled_lt hsc)).discarded_inactive
    (World.view_items_split split hsc hseq)
  rw [World.view_req] at hinactive
  exact hinactive (ignored.imp_right fun h => ⟨by rw [h.1]; rfl, h.2⟩)

/-- The leases of a request count its items in flight. -/
theorem leases (hsc : (w.heap p).scheduling = some sc) :
    sc.reservation.executionLeases = (w.itemsOf sc.seqId).length := by
  rw [(h.geometry hsc).leases, List.length_map]

theorem idle_nil (hsc : (w.heap p).scheduling = some sc)
    (idle : sc.reservation.executionLeases = 0) : w.itemsOf sc.seqId = [] :=
  List.length_eq_zero_iff.mp ((h.leases hsc).symm.trans idle)

/-- The transactions of one request, without any promise of the environment. -/
theorem view_step (t : World.Step w w') (hp : p < w.nextPtr) :
    w'.view p = w.view p ∨ View.Step p w.kv.pool.maxBlocks w.config.kvBlockSize
      (fun _ _ => True) (fun _ => True) (w.view p) (w'.view p) :=
  t.view h.positions h.flights rfl h.ownership.blockSize rfl (fun _ _ => trivial)
    (fun _ _ => trivial) p hp

/-- Every transaction keeps the invariant. -/
theorem step (t : World.Step w w') : Core w' where
  positions := h.positions.step t
  flights := h.flights.step h.positions (fun _ _ hsc idle => h.idle_nil hsc idle) t
  ownership := h.ownership.step h.positions h.kept t
  kept q hq := by
    rw [t.config_eq]
    by_cases hold : q < w.nextPtr
    · rcases h.view_step t hold with heq | hstep
      · rw [heq]; exact h.kept q hold
      · exact (h.kept q hold).step hstep
    · -- Only a registration makes a new request.
      cases t with
      | register =>
        obtain rfl : q = w.nextPtr := Nat.le_antisymm (Nat.le_of_lt_succ hq) (not_lt.mp hold)
        rw [World.view_of_none (by simp [RequestState.ofRequest])]
        exact View.Kept.init _ _ (by simp [RequestState.ofRequest])
      | _ => exact absurd hq hold

/-- Every run keeps the invariant. -/
theorem run (run : World.Run w w') : Core w' :=
  Runs.invariant (fun _ _ h t => h.step t) h run

/-- The invariant does not ask for a shutdown. -/
theorem of_closing (c : Bool) : Core { w with closing := c } where
  positions := h.positions.of_heap rfl rfl rfl rfl rfl rfl rfl rfl (fun _ => rfl) (fun _ => rfl)
    fun _ _ => .inl rfl
  flights := ⟨h.flights.flight, h.flights.latest_fresh, h.flights.failed_fresh,
    h.flights.fed_fresh⟩
  kept := h.kept
  ownership := ⟨h.ownership.inv, h.ownership.maxBlocks, h.ownership.blockSize, h.ownership.ref,
    h.ownership.unpublished⟩

/-- A run under a shutdown keeps the invariant. -/
theorem run_shutIf {c : Bool} (run : World.Run (w.shutIf c) (w'.shutIf c)) : Core w' :=
  ((h.of_closing (c || w.closing)).run run).of_closing w'.closing

/-- The sequence of a skipped request has no item in flight. -/
theorem skip_nil (hp : p ∈ w.skip) (hsc : (w.heap p).scheduling = some sc) :
    w.itemsOf sc.seqId = [] := by
  refine List.eq_nil_iff_forall_not_mem.mpr fun f hf => ?_
  obtain ⟨hflight, hseq⟩ := Flights.mem_itemsOf.mp hf
  obtain ⟨q, hq, sc', hsc', heq⟩ := h.flights.owner h.positions hflight
  obtain rfl := h.positions.seq_inj q p sc' sc hsc' hsc (heq.trans hseq)
  exact h.positions.not_queued hq (.inr hp)

theorem skip_idle (hp : p ∈ w.skip) (hsc : (w.heap p).scheduling = some sc) :
    sc.reservation.executionLeases = 0 := by
  rw [h.leases hsc, h.skip_nil hp hsc, List.length_nil]

/-- A waiting request is not scheduled. -/
theorem waiting_unscheduled (hp : p ∈ w.waiting) : (w.heap p).scheduling = none := by
  have hnot : ¬ (p ∈ w.skip ∨ p ∈ w.running) := by
    have := h.positions.nodup
    grind
  rw [← h.positions.scheduled] at hnot
  simpa using hnot

end

end Core

/-- Whatever a run from the start reaches has the invariant. -/
theorem World.Run.core {config : ValidConfig} {w : World}
    (run : World.Run (World.init config) w) : Core w :=
  (Core.init config).run run

end CcInfer
