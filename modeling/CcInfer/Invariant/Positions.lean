import CcInfer.Abstract.Step
import CcInfer.Proofs.Kv.Publish

/-!
# `CcInfer.Invariant.Positions`: one scheduling position per request
-/

set_option autoImplicit false

namespace CcInfer

/-- The documented invariant of the Scheduler's indexes. -/
@[grind cases]
structure Positions (w : World) : Prop where
  nodup : (w.waiting ++ w.skip ++ w.running).Nodup
  registered : ∀ p, (∃ id, (id, p) ∈ w.requests) ↔ p ∈ w.waiting ∨ p ∈ w.skip ∨ p ∈ w.running
  named : ∀ id p, (id, p) ∈ w.requests → (w.heap p).requestId = id
  names_nodup : (w.requests.map Prod.fst).Nodup
  allocated : ∀ p, p ∈ w.waiting ∨ p ∈ w.skip ∨ p ∈ w.running → p < w.nextPtr
  scheduled : ∀ p, (w.heap p).scheduling.isSome ↔ p ∈ w.skip ∨ p ∈ w.running
  bySeqId : ∀ seq p, w.bySeqId seq = some p ↔
    p ∈ w.running ∧ ∃ sc, (w.heap p).scheduling = some sc ∧ sc.seqId = seq
  seq_inj : ∀ p q sc sc', (w.heap p).scheduling = some sc → (w.heap q).scheduling = some sc' →
    sc.seqId = sc'.seqId → p = q
  seq_lt : ∀ p sc, (w.heap p).scheduling = some sc → sc.seqId < w.nextSeqId
  queued : ∀ p, p ∈ w.waiting ∨ p ∈ w.skip →
    (w.heap p).status = .active ∨ (w.heap p).status = .cancelled
  asserts : w.trackedAsserts = []

namespace Positions

variable {w : World}
variable {w' : World} {p : RequestPtr} {sc : SequenceSchedulingState}

section

variable (h : Positions w)
include h

/-- The invariant reads, of each request, its id, its status and the id of its scheduling
state. -/
theorem of_heap
    (waiting : w'.waiting = w.waiting) (skip : w'.skip = w.skip) (running : w'.running = w.running)
    (requests : w'.requests = w.requests) (nextPtr : w'.nextPtr = w.nextPtr)
    (bySeqId : w'.bySeqId = w.bySeqId) (nextSeqId : w'.nextSeqId = w.nextSeqId)
    (asserts : w'.trackedAsserts = w.trackedAsserts)
    (requestId : ∀ p, (w'.heap p).requestId = (w.heap p).requestId)
    (seqs : ∀ p, (w'.heap p).scheduling.map (·.seqId) = (w.heap p).scheduling.map (·.seqId))
    (status : ∀ p, p ∈ w.waiting ∨ p ∈ w.skip → (w'.heap p).status = (w.heap p).status ∨
      (w'.heap p).status = .cancelled) : Positions w' := by
  have back : ∀ p sc', w'.Scheduled p sc' → ∃ sc, w.Scheduled p sc ∧ sc.seqId = sc'.seqId := by
    intro p sc' hsc
    have := seqs p
    rw [hsc] at this
    obtain ⟨sc, hsc', heq⟩ := Option.map_eq_some_iff.mp this.symm
    exact ⟨sc, hsc', heq⟩
  have forth : ∀ p sc, w.Scheduled p sc → ∃ sc', w'.Scheduled p sc' ∧ sc'.seqId = sc.seqId := by
    intro p sc hsc
    have := seqs p
    rw [hsc] at this
    obtain ⟨sc', hsc', heq⟩ := Option.map_eq_some_iff.mp this
    exact ⟨sc', hsc', heq⟩
  constructor
  · rw [waiting, skip, running]; exact h.nodup
  · rw [requests]; simp only [waiting, skip, running]; exact h.registered
  · intro id p hp
    rw [requests] at hp
    rw [requestId]; exact h.named id p hp
  · rw [requests]; exact h.names_nodup
  · simp only [waiting, skip, running, nextPtr]; exact h.allocated
  · intro p
    rw [skip, running, ← h.scheduled, ← Option.isSome_map (f := (·.seqId)), seqs,
      Option.isSome_map]
  · intro seq p
    rw [bySeqId, running, h.bySeqId]
    refine and_congr_right fun _ => ⟨?_, ?_⟩
    · rintro ⟨sc, hsc, heq⟩
      obtain ⟨sc', hsc', heq'⟩ := forth p sc hsc
      exact ⟨sc', hsc', heq'.trans heq⟩
    · rintro ⟨sc, hsc, heq⟩
      obtain ⟨sc', hsc', heq'⟩ := back p sc hsc
      exact ⟨sc', hsc', heq'.trans heq⟩
  · intro p q sc sc' hp hq heq
    obtain ⟨_, hp', hpe⟩ := back p sc hp
    obtain ⟨_, hq', hqe⟩ := back q sc' hq
    exact h.seq_inj p q _ _ hp' hq' (by rw [hpe, hqe, heq])
  · intro p sc hp
    obtain ⟨_, hp', hpe⟩ := back p sc hp
    rw [nextSeqId, ← hpe]
    exact h.seq_lt p _ hp'
  · intro p hp
    rw [waiting, skip] at hp
    rcases status p hp with hs | hs
    · rw [hs]; exact h.queued p hp
    · exact .inr hs
  · rw [asserts]; exact h.asserts

/-- The name of a live request is its own. -/
theorem name_eq_iff
    (live : p ∈ w.waiting ∨ p ∈ w.skip ∨ p ∈ w.running) (id : String) (q : RequestPtr)
    (hq : (id, q) ∈ w.requests) : id = (w.heap p).requestId ↔ q = p := by
  obtain ⟨idp, hp⟩ := (h.registered p).mpr live
  constructor
  · intro hid
    rw [h.named idp p hp] at hid
    exact congrArg Prod.snd (List.inj_on_of_nodup_map h.names_nodup hq hp hid)
  · rintro rfl
    exact (h.named id q hq).symm

theorem step_reorder {waiting : List RequestPtr}
    (perm : waiting.Perm w.waiting) : Positions { w with waiting := waiting } := by
  have hmem : ∀ p, p ∈ waiting ↔ p ∈ w.waiting := fun p => perm.mem_iff
  constructor <;> (try dsimp only)
  · exact ((perm.append_right _).append_right _).nodup_iff.mpr h.nodup
  all_goals grind

/-- A request is dropped from the queue it is in. -/
theorem step_drop (live : p ∈ w.waiting ∨ p ∈ w.skip ∨ p ∈ w.running) (kv : KvBlocks)
    (obs : List Obs) : Positions (w.dropped p kv obs) := by
  have hname := h.name_eq_iff live
  constructor <;> (try dsimp only)
  · grind
  · intro q
    simp only [List.mem_filter, decide_not, Bool.not_eq_true', decide_eq_false_iff_not]
    have := h.registered q
    grind
  · grind
  · grind
  · grind
  · grind
  · intro seq q
    rcases hsc : (w.heap p).scheduling with _ | sc <;> grind
  all_goals grind

/-- From the front of `waiting_` to the back of `running_`. -/
theorem step_admitted {rest : List RequestPtr}
    (front : w.waiting = p :: rest) (seq : sc.seqId = w.nextSeqId)
    (kv : KvBlocks) (hitTokens : SequenceId → List Token) (trace : List Obs) :
    Positions { w with
      waiting := rest
      running := w.running ++ [p]
      heap := Function.update w.heap p { w.heap p with scheduling := some sc }
      bySeqId := Function.update w.bySeqId w.nextSeqId (some p)
      nextSeqId := w.nextSeqId + 1
      kv := kv
      hitTokens := hitTokens
      trace := trace } := by
  constructor <;> (try dsimp only)
  all_goals grind

end

/-- The invariant holds before `start`. -/
theorem init (config : ValidConfig) : Positions (.of (.init config) [] .init) := by
  constructor <;> simp [World.of, Scheduler.init]

/-- A transaction that rewrites one request and no queue. -/
theorem touch (h : Positions w) (p : RequestPtr) (st : RequestState)
    (heap : w'.heap = Function.update w.heap p st)
    (waiting : w'.waiting = w.waiting) (skip : w'.skip = w.skip) (running : w'.running = w.running)
    (requests : w'.requests = w.requests) (nextPtr : w'.nextPtr = w.nextPtr)
    (bySeqId : w'.bySeqId = w.bySeqId) (nextSeqId : w'.nextSeqId = w.nextSeqId)
    (asserts : w'.trackedAsserts = w.trackedAsserts)
    (requestId : st.requestId = (w.heap p).requestId)
    (seqs : st.scheduling.map (·.seqId) = (w.heap p).scheduling.map (·.seqId))
    (status : p ∈ w.waiting ∨ p ∈ w.skip →
      st.status = (w.heap p).status ∨ st.status = .cancelled) : Positions w' := by
  refine h.of_heap waiting skip running requests nextPtr bySeqId nextSeqId asserts ?_ ?_ ?_
  all_goals
    intro q
    rw [heap, Function.update_apply]
    split
  · rename_i hq; rw [hq]; exact requestId
  · rfl
  · rename_i hq; rw [hq]; exact seqs
  · rfl
  · rename_i hq; rw [hq]; exact status
  · exact fun _ => .inl rfl

/-- A running request is in no other queue. -/
theorem not_queued (h : Positions w) (running : p ∈ w.running) :
    ¬ (p ∈ w.waiting ∨ p ∈ w.skip) := by
  have := h.nodup
  grind

/-- Every transaction keeps the invariant. -/
theorem step (h : Positions w) (t : World.Step w w') : Positions w' := by
  -- All but seven transactions change, of what the invariant reads, one status at most.
  cases t with
  | register req fresh | resume p rest sc front scheduled
  | preempt p sc running scheduled active | park p sc kv scheduled idle source =>
    constructor <;> (try dsimp only)
    all_goals grind [RequestState.ofRequest, RequestState.parked]
  | reorder _ perm => exact h.step_reorder perm
  | admission _ _ kv _ _ _ _ front => exact h.step_admitted front rfl kv _ _
  | drop _ kv _ live => exact h.step_drop live kv _
  | cancel p =>
    exact h.touch p _ rfl rfl rfl rfl rfl rfl rfl rfl rfl rfl rfl (fun _ => .inr rfl)
  | expire p =>
    exact h.touch p _ rfl rfl rfl rfl rfl rfl rfl rfl rfl rfl rfl (fun _ => .inl rfl)
  | finish p sc running | fail p err running =>
    exact h.touch p _ rfl rfl rfl rfl rfl rfl rfl rfl rfl rfl rfl
      (fun hq => absurd hq (h.not_queued running))
  | grow | dispatch | discard | retireChunk =>
    exact h.touch _ _ rfl rfl rfl rfl rfl rfl rfl rfl rfl rfl
      (by simp [show _ = _ from ‹w.Scheduled _ _›, SequenceSchedulingState.advanceChunk])
      (fun _ => .inl rfl)
  | retire _ item _ _ p _ advanced written _ _ running scheduled _ _ settles =>
    refine h.touch p _ rfl rfl rfl rfl rfl rfl rfl rfl rfl rfl ?_
      (fun hq => absurd hq (h.not_queued running))
    simp [RequestState.retired, (w.kv.publishItem_plan advanced item written).seqId,
      settles.advanced.1, show _ = _ from scheduled]
  | _ =>
    exact h.of_heap rfl rfl rfl rfl rfl rfl rfl rfl (fun _ => rfl) (fun _ => rfl)
      (fun _ _ => .inl rfl)

/-- The registry names every queued request once. -/
theorem registry_perm (h : Positions w) :
    (w.requests.map Prod.snd).Perm (w.waiting ++ w.skip ++ w.running) := by
  have hnodup : (w.requests.map Prod.snd).Nodup := by
    refine List.Nodup.map_on ?_ (List.Nodup.of_map Prod.fst h.names_nodup)
    -- two entries for one request carry its name
    rintro ⟨id, p⟩ he ⟨id', q⟩ he' rfl
    rw [← h.named id p he, h.named id' p he']
  refine (List.perm_ext_iff_of_nodup hnodup h.nodup).mpr fun p => ?_
  rw [List.mem_append, List.mem_append, or_assoc, ← h.registered p]
  simp

end Positions

end CcInfer
