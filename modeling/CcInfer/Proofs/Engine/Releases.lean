import CcInfer.Proofs.Engine.Bounds
import CcInfer.Proofs.Engine.Gapless
import CcInfer.State.StatePool

/-!
# `CcInfer.Proofs.Engine.Releases`: the executor's resources of a sequence

`release_sequence` tells the executor that a sequence is over. It is called by
`cleanup_terminal_requests` for a request that leaves, and by nothing else. A request that
`suspend_one_running` or `evict_one_skipped` sends back to `waiting_` loses its sequence without
a call, and is admitted under a new id later.
-/

set_option autoImplicit false

namespace CcInfer

/-- The observation is about no sequence of a request. -/
def Obs.plain : Obs → Bool
  | .admitted _ _ _ _ | .suspended _ | .releasedSequence _ => false
  | _ => true

namespace World

variable {w w' : World} {p : RequestPtr}

/-- No request has the sequence `seq`. -/
def Dropped (w : World) (seq : SequenceId) : Prop := ∀ p sc, w.Scheduled p sc → sc.seqId ≠ seq

/-- A transaction after which the same requests have the same sequences. -/
structure Still (w w' : World) : Prop where
  seqs : ∀ q, (w'.heap q).scheduling.map (·.seqId) = (w.heap q).scheduling.map (·.seqId)
  live : ∀ q, q < w.nextPtr → w'.Live q → w.Live q
  nextPtr : w.nextPtr ≤ w'.nextPtr
  nextSeqId : w'.nextSeqId = w.nextSeqId
  log : ∃ obs, w'.trace = w.trace ++ obs ∧ ∀ o ∈ obs, o.plain = true

namespace Still

/-- The heap and the queues stay as they are. -/
theorem same (heap : w'.heap = w.heap) (waiting : w'.waiting = w.waiting)
    (skip : w'.skip = w.skip) (running : w'.running = w.running)
    (nextPtr : w'.nextPtr = w.nextPtr) (nextSeqId : w'.nextSeqId = w.nextSeqId)
    {obs : List Obs} (trace : w'.trace = w.trace ++ obs) (plain : ∀ o ∈ obs, o.plain = true) :
    Still w w' := by
  refine ⟨fun q => by rw [heap], fun q _ hq => ?_, nextPtr.ge, nextSeqId, obs, trace, plain⟩
  rwa [Live, waiting, skip, running] at hq

/-- One request object is rewritten and keeps its sequence. -/
theorem touched {st : RequestState} (heap : w'.heap = Function.update w.heap p st)
    (seq : st.scheduling.map (·.seqId) = (w.heap p).scheduling.map (·.seqId))
    (waiting : w'.waiting = w.waiting) (skip : w'.skip = w.skip)
    (running : w'.running = w.running) (nextPtr : w'.nextPtr = w.nextPtr)
    (nextSeqId : w'.nextSeqId = w.nextSeqId) {obs : List Obs}
    (trace : w'.trace = w.trace ++ obs) (plain : ∀ o ∈ obs, o.plain = true) : Still w w' := by
  refine ⟨fun q => ?_, fun q _ hq => ?_, nextPtr.ge, nextSeqId, obs, trace, plain⟩
  · rw [heap]
    rcases eq_or_ne q p with rfl | hne
    · rw [Function.update_self, seq]
    · rw [Function.update_of_ne hne]
  · rwa [Live, waiting, skip, running] at hq

theorem scheduled (h : Still w w') {sc : SequenceSchedulingState} (hsc : w.Scheduled p sc) :
    ∃ sc', w'.Scheduled p sc' ∧ sc'.seqId = sc.seqId := by
  have hseq := h.seqs p
  rw [hsc] at hseq
  exact Option.map_eq_some_iff.mp hseq

theorem dropped (h : Still w w') {seq : SequenceId} (hseq : w.Dropped seq) : w'.Dropped seq := by
  intro q sc' hsc'
  have hseqs := h.seqs q
  rw [hsc'] at hseqs
  obtain ⟨sc, hsc, heq⟩ := Option.map_eq_some_iff.mp hseqs.symm
  exact fun hsc'' => hseq q sc hsc (heq.trans hsc'')

end Still

/-- What one transaction does to the sequences of the requests. -/
inductive Moves (w w' : World) : Prop
  | still (h : Still w w')
  /-- A waiting request gets a new sequence. -/
  | admits (p : RequestPtr) (st : RequestState) (hits generated : Nat) (obs : List Obs)
      (waiting : p ∈ w.waiting) (heap : w'.heap = Function.update w.heap p st)
      (seq : st.scheduling.map (·.seqId) = some w.nextSeqId)
      (live : ∀ q, w'.Live q → w.Live q) (nextPtr : w'.nextPtr = w.nextPtr)
      (nextSeqId : w'.nextSeqId = w.nextSeqId + 1) (plain : ∀ o ∈ obs, o.plain = true)
      (trace : w'.trace = w.trace ++ (obs ++ [.admitted p w.nextSeqId hits generated]))
  /-- A scheduled request waits again. -/
  | sendsBack (p : RequestPtr) (sc : SequenceSchedulingState) (st : RequestState)
      (scheduled : w.Scheduled p sc) (heap : w'.heap = Function.update w.heap p st)
      (unscheduled : st.scheduling = none) (live : ∀ q, w'.Live q → w.Live q)
      (nextPtr : w'.nextPtr = w.nextPtr) (nextSeqId : w'.nextSeqId = w.nextSeqId)
      (trace : w'.trace = w.trace ++ [.suspended p])
  /-- A request leaves. -/
  | leaves (p : RequestPtr) (st : RequestState) (notes obs : List Obs) (registered : w.Live p)
      (heap : w'.heap = Function.update w.heap p st) (unscheduled : st.scheduling = none)
      (live : ∀ q, w'.Live q → w.Live q ∧ q ≠ p) (nextPtr : w'.nextPtr = w.nextPtr)
      (nextSeqId : w'.nextSeqId = w.nextSeqId)
      (released : notes = (w.heap p).releaseNotes ∨ (notes = [] ∧ w.closing = true))
      (plain : ∀ o ∈ obs, o.plain = true) (trace : w'.trace = w.trace ++ (notes ++ obs))

/-- Every transaction moves the sequences in one of these ways. -/
theorem Step.moves (core : Core w) (t : Step w w') : Moves w w' := by
  have alloc_plain : ∀ {obs : List Obs} {leak : BlockTable}, AllocLog obs leak →
      ∀ o ∈ obs, o.plain = true := by
    intro obs leak logged
    cases logged <;> simp [Obs.plain]
  cases t with
  | note o quiet =>
    obtain ⟨_, _, rfl⟩ := quiet
    exact .still (.same rfl rfl rfl rfl rfl rfl rfl (by simp [Obs.plain]))
  | register =>
    refine .still ⟨fun q => ?_, fun q hq hlive => ?_, Nat.le_succ _, rfl, _, rfl,
      by simp [Obs.plain]⟩
    · rcases eq_or_ne q w.nextPtr with rfl | hne
      · have hnone : (w.heap w.nextPtr).scheduling = none := by
          by_contra hsome
          obtain ⟨_, hsc⟩ := Option.ne_none_iff_exists'.mp hsome
          exact lt_irrefl _ (core.scheduled_lt hsc)
        simp [RequestState.ofRequest, hnone]
      · simp [Function.update_of_ne hne]
    · simp only [Live, List.mem_append, List.mem_singleton] at hlive
      exact hlive.imp_left fun hwaiting => hwaiting.resolve_right (Nat.ne_of_lt hq)
  | reorder _ perm =>
    refine .still ⟨fun _ => rfl, fun q _ hlive => ?_, le_rfl, rfl, [], (List.append_nil _).symm,
      (by simp)⟩
    exact hlive.imp_left perm.mem_iff.mp
  | cancel | finish | fail =>
    exact .still (.touched rfl rfl rfl rfl rfl rfl rfl rfl (by simp [Obs.plain]))
  | expire =>
    exact .still (.touched rfl rfl rfl rfl rfl rfl rfl (List.append_nil _).symm (by simp))
  | blocks _ _ _ _ logged =>
    exact .still (.same rfl rfl rfl rfl rfl rfl rfl (alloc_plain logged))
  | grow _ _ _ _ _ _ scheduled _ _ _ _ logged =>
    exact .still (.touched rfl (by simp [scheduled]) rfl rfl rfl rfl rfl rfl
      (alloc_plain logged))
  | dispatch _ _ _ _ _ scheduled =>
    exact .still (.touched rfl (by simp [scheduled]) rfl rfl rfl rfl rfl rfl (by simp [Obs.plain]))
  | admission p _ _ hits _ _ obs front _ _ _ _ _ _ logged =>
    refine .admits p _ hits.length (w.heap p).generatedTokens.length obs (by simp [front]) rfl rfl
      (fun q hq => ?_) rfl rfl (alloc_plain logged) rfl
    simp only [Live, List.mem_append, List.mem_singleton] at hq
    rw [Live, front, List.mem_cons]
    tauto
  | resume _ _ _ front =>
    refine .still ⟨fun _ => rfl, fun q _ hq => ?_, le_rfl, rfl, [], (List.append_nil _).symm,
      (by simp)⟩
    simp only [Live, List.mem_append, List.mem_singleton] at hq
    rw [Live, front, List.mem_cons]
    tauto
  | preempt _ _ running =>
    refine .still ⟨fun _ => rfl, fun q _ hq => ?_, le_rfl, rfl, [], (List.append_nil _).symm,
      (by simp)⟩
    simp only [Live, List.mem_cons] at hq
    rcases hq with hq | (rfl | hq) | hq
    · exact .inl hq
    · exact .inr (.inr running)
    · exact .inr (.inl hq)
    · exact .inr (.inr (List.mem_of_mem_erase hq))
  | park p sc _ scheduled _ source =>
    refine .sendsBack p sc _ scheduled rfl rfl (fun q hq => ?_) rfl rfl rfl
    simp only [Live, List.mem_cons] at hq
    rcases hq with (rfl | hq) | hq | hq
    · exact .inr (source.imp_right And.left)
    · exact .inl hq
    · exact .inr (.inl (List.mem_of_mem_erase hq))
    · exact .inr (.inr (List.mem_of_mem_erase hq))
  | drop p _ _ live _ _ _ _ notes released =>
    have hnodup := core.positions.nodup
    simp only [List.nodup_append, List.mem_append] at hnodup
    obtain ⟨⟨hwaiting, hskip, -⟩, hrunning, -⟩ := hnodup
    refine .leaves p _ notes _ live rfl rfl (fun q hq => ?_) rfl rfl released ?_ rfl
    · simp only [Live, hwaiting.mem_erase_iff, hskip.mem_erase_iff, hrunning.mem_erase_iff] at hq
      rw [Live]
      tauto
    · simp only [List.mem_append, Option.mem_toList, Option.map_eq_some_iff, List.mem_singleton]
      rintro _ (⟨_, -, rfl⟩ | rfl) <;> rfl
  | discard _ _ _ _ _ _ _ scheduled =>
    exact .still (.touched rfl (by simp [scheduled]) rfl rfl rfl rfl rfl
      (List.append_nil _).symm (by simp))
  | retireChunk _ _ _ _ _ _ _ _ scheduled =>
    exact .still (.touched rfl (by simp [scheduled, SequenceSchedulingState.advanceChunk]) rfl rfl
      rfl rfl rfl
      (List.append_nil _).symm (by simp))
  | retire _ item _ _ _ _ advanced written _ _ _ scheduled _ _ settles =>
    refine .still (.touched rfl ?_ rfl rfl rfl rfl rfl rfl fun o ho => ?_)
    · simp [RequestState.retired, (w.kv.publishItem_plan advanced item written).seqId,
        settles.advanced.1, show _ = _ from scheduled]
    · rcases settles.mem_log ho with ⟨_, _, rfl⟩ | ⟨_, _, _, rfl⟩ |
        ⟨event, rfl⟩ | ⟨status, rfl⟩ <;> rfl
  | _ => exact .still (.same rfl rfl rfl rfl rfl rfl (List.append_nil _).symm (by simp))

theorem Step.closing_mono (t : Step w w') (h : w.closing = true) : w'.closing = true := by
  cases t with
  | close => rfl
  | _ => exact h

end World

/-! ### What becomes of a sequence -/

/-- An entry of a log that grows is old or new. -/
theorem log_split {o : Obs} {log obs before after : List Obs}
    (h : log ++ obs = before ++ o :: after) :
    (∃ rest, log = before ++ o :: rest ∧ after = rest ++ obs) ∨
      ∃ between, obs = between ++ o :: after := by
  rcases List.append_eq_append_iff.mp h with ⟨between, -, hobs⟩ | ⟨_, hlog, hrest⟩
  · exact .inr ⟨between, hobs⟩
  · rcases List.cons_eq_append_iff.mp hrest with ⟨-, hobs⟩ | ⟨rest, hfound, hafter⟩
    · exact .inr ⟨[], hobs⟩
    · exact .inl ⟨rest, hfound ▸ hlog, hafter⟩

/-- What has become of the sequence `seq` that `p` was admitted with, if `after` is the log
since then. -/
inductive World.Standing (w : World) (p : RequestPtr) (seq : SequenceId) (after : List Obs) : Prop
  /-- The request still has it. -/
  | held (sc : SequenceSchedulingState) (scheduled : w.Scheduled p sc) (seqId : sc.seqId = seq)
      (stayed : .suspended p ∉ after)
  /-- The request was sent back to `waiting_`, and the executor was told nothing. -/
  | sentBack (dropped : w.Dropped seq) (suspended : .suspended p ∈ after)
      (unreleased : .releasedSequence seq ∉ w.trace)
  /-- The request has left. Before a shutdown the executor was told. -/
  | left (dropped : w.Dropped seq) (gone : ¬ w.Live p) (stayed : .suspended p ∉ after)
      (released : w.closing = true ∨ .releasedSequence seq ∈ w.trace)

/-- The log accounts for every sequence that was given out. -/
structure Accounted (w : World) : Prop where
  released : ∀ seq, .releasedSequence seq ∈ w.trace → seq < w.nextSeqId ∧ w.Dropped seq
  once : ∀ seq, w.trace.count (.releasedSequence seq) ≤ 1
  given : ∀ before p seq hits generated after,
    w.trace = before ++ .admitted p seq hits generated :: after →
    p < w.nextPtr ∧ seq < w.nextSeqId ∧ w.Standing p seq after

namespace Accounted

variable {w w' : World} {p : RequestPtr}

theorem init (config : ValidConfig) : Accounted (World.init config) :=
  ⟨nofun, fun _ => Nat.zero_le _, fun before _ _ _ _ _ h => by
    cases before <;> cases h⟩

/-- A transaction that logs `obs`: what it must say of the requests that have a sequence, of the
sequences that nobody has, and of the new entries. -/
theorem grown (h : Accounted w) {obs : List Obs} (trace : w'.trace = w.trace ++ obs)
    (nextPtr : w.nextPtr ≤ w'.nextPtr) (nextSeqId : w.nextSeqId ≤ w'.nextSeqId)
    (closing : w.closing = true → w'.closing = true)
    (live : ∀ p, p < w.nextPtr → w'.Live p → w.Live p)
    (suspended : ∀ p, .suspended p ∈ obs → w.Live p)
    (dropped : ∀ seq, seq < w.nextSeqId → w.Dropped seq → w'.Dropped seq)
    (released : ∀ seq, .releasedSequence seq ∈ obs →
      (seq < w'.nextSeqId ∧ w'.Dropped seq) ∧ ¬ w.Dropped seq)
    (single : ∀ seq, obs.count (.releasedSequence seq) ≤ 1)
    (held : ∀ p sc rest, w.Scheduled p sc → .suspended p ∉ rest →
      w'.Standing p sc.seqId (rest ++ obs)) (new : ∀ between p seq hits generated after,
      obs = between ++ .admitted p seq hits generated :: after →
      p < w'.nextPtr ∧ seq < w'.nextSeqId ∧ w'.Standing p seq after) : Accounted w' := by
  refine ⟨fun seq hseq => ?_, fun seq => ?_, fun before p seq hits generated after hlog => ?_⟩
  · rw [trace, List.mem_append] at hseq
    rcases hseq with hold | hnew
    · obtain ⟨hlt, hdropped⟩ := h.released seq hold
      exact ⟨hlt.trans_le nextSeqId, dropped seq hlt hdropped⟩
    · exact (released seq hnew).1
  · rw [trace, List.count_append]
    by_cases hnew : .releasedSequence seq ∈ obs
    · -- it was not released before
      have hold : .releasedSequence seq ∉ w.trace :=
        fun hold => (released seq hnew).2 (h.released seq hold).2
      rw [List.count_eq_zero.mpr hold, Nat.zero_add]
      exact single seq
    · rw [List.count_eq_zero.mpr hnew]
      exact h.once seq
  · rw [trace] at hlog
    rcases log_split hlog with ⟨rest, hold, rfl⟩ | ⟨between, hobs⟩
    · obtain ⟨hp, hlt, hstanding⟩ := h.given before p seq hits generated rest hold
      refine ⟨hp.trans_le nextPtr, hlt.trans_le nextSeqId, ?_⟩
      cases hstanding with
      | held sc scheduled seqId stayed => exact seqId ▸ held p sc rest scheduled stayed
      | sentBack nobody sent unreleased =>
        refine .sentBack (dropped seq hlt nobody) (List.mem_append_left _ sent) ?_
        rw [trace, List.mem_append, not_or]
        exact ⟨unreleased, fun hnew => (released seq hnew).2 nobody⟩
      | left nobody gone stayed told =>
        refine .left (dropped seq hlt nobody) (mt (live p hp) gone) ?_ (told.imp closing ?_)
        · rw [List.mem_append, not_or]
          exact ⟨stayed, mt (suspended p) gone⟩
        · exact fun hold => trace ▸ List.mem_append_left obs hold
    · exact new between p seq hits generated after hobs

/-- A transaction after which the same requests have the same sequences. -/
theorem still (h : Accounted w) (still : w.Still w')
    (closing : w.closing = true → w'.closing = true) : Accounted w' := by
  obtain ⟨obs, htrace, plain⟩ := still.log
  have hplain : ∀ o : Obs, o.plain = false → o ∉ obs := fun o ho hmem => by
    rw [plain o hmem] at ho
    cases ho
  refine h.grown htrace still.nextPtr still.nextSeqId.ge closing still.live
    (fun p hp => absurd hp (hplain _ rfl)) (fun seq _ => still.dropped)
    (fun seq hseq => absurd hseq (hplain _ rfl)) (fun seq => ?_) (fun p sc rest hsc hrest => ?_)
    fun between p seq hits generated after hobs =>
      absurd (by simp [hobs]) (hplain (.admitted p seq hits generated) rfl)
  · rw [List.count_eq_zero.mpr (hplain _ rfl)]
    exact Nat.zero_le _
  · obtain ⟨sc', hsc', hseq⟩ := still.scheduled hsc
    refine .held sc' hsc' hseq ?_
    rw [List.mem_append, not_or]
    exact ⟨hrest, hplain _ rfl⟩

section

variable {st : RequestState} (h : Accounted w) (core : Core w)
  (heap : w'.heap = Function.update w.heap p st) (nextPtr : w'.nextPtr = w.nextPtr)
  (closing : w.closing = true → w'.closing = true)

include heap in
/-- The sequences of the other requests stay where they are. -/
theorem others {q : RequestPtr} {sc : SequenceSchedulingState} (hne : q ≠ p) :
    w'.Scheduled q sc ↔ w.Scheduled q sc := by
  rw [World.Scheduled, heap, Function.update_of_ne hne]

include heap in
/-- A sequence that no other request has is dropped if the request at `p` does not get it. -/
theorem dropped {seq : SequenceId} (hothers : ∀ q sc, q ≠ p → w.Scheduled q sc → sc.seqId ≠ seq)
    (hself : ∀ sc, st.scheduling = some sc → sc.seqId ≠ seq) : w'.Dropped seq := by
  intro q sc hsc
  rcases eq_or_ne q p with rfl | hne
  · rw [World.Scheduled, heap, Function.update_self] at hsc
    exact hself sc hsc
  · exact hothers q sc hne ((others heap hne).mp hsc)

include h core heap nextPtr closing

/-- A waiting request gets a new sequence. -/
theorem admits {hits generated : Nat} {obs : List Obs} (waiting : p ∈ w.waiting)
    (seq : st.scheduling.map (·.seqId) = some w.nextSeqId) (live : ∀ q, w'.Live q → w.Live q)
    (nextSeqId : w'.nextSeqId = w.nextSeqId + 1) (plain : ∀ o ∈ obs, o.plain = true)
    (trace : w'.trace = w.trace ++ (obs ++ [.admitted p w.nextSeqId hits generated])) :
    Accounted w' := by
  obtain ⟨sc₁, hsc₁, hseq₁⟩ := Option.map_eq_some_iff.mp seq
  have hplain : ∀ o : Obs, o.plain = false → o ∉ obs := fun o ho hmem => by
    rw [plain o hmem] at ho
    cases ho
  have hnone : ∀ seq, .releasedSequence seq ∉ obs ++ [.admitted p w.nextSeqId hits generated] :=
    fun seq => by simp [hplain (.releasedSequence seq) rfl]
  refine h.grown trace nextPtr.ge (nextSeqId ▸ Nat.le_succ _) closing (fun q _ => live q)
    (fun q hq => ?_) (fun seq hlt hnobody => ?_) (fun seq hseq => absurd hseq (hnone seq))
    (fun seq => ?_) (fun q sc rest hsc hrest => ?_)
    fun between q seq hits' generated' after hobs => ?_
  · simp [hplain (.suspended q) rfl] at hq
  · refine dropped heap (fun q sc _ => hnobody q sc) fun sc hsc => ?_
    cases hsc₁.symm.trans hsc
    exact hseq₁ ▸ (Nat.ne_of_lt hlt).symm
  · rw [List.count_eq_zero.mpr (hnone seq)]
    exact Nat.zero_le _
  · have hne : q ≠ p := by
      rintro rfl
      exact Option.some_ne_none _ (hsc.symm.trans (core.waiting_unscheduled waiting))
    refine .held sc ((others heap hne).mpr hsc) rfl ?_
    simp [hrest, hplain (.suspended q) rfl]
  · -- the new entry is the last one
    obtain ⟨rfl, rfl, rfl⟩ : q = p ∧ seq = w.nextSeqId ∧ after = [] := by
      rcases log_split hobs with ⟨_, hold, -⟩ | ⟨between', hlast⟩
      · exact absurd (by simp [hold]) (hplain (.admitted q seq hits' generated') rfl)
      · cases between' with
        | nil =>
          cases hlast
          exact ⟨rfl, rfl, rfl⟩
        | cons => simp at hlast
    refine ⟨nextPtr ▸ core.positions.allocated q (.inl waiting),
      nextSeqId ▸ Nat.lt_succ_self _, .held sc₁ ?_ hseq₁ nofun⟩
    rw [World.Scheduled, heap, Function.update_self]
    exact hsc₁

/-- A scheduled request waits again. -/
theorem sendsBack {sc : SequenceSchedulingState} (scheduled : w.Scheduled p sc)
    (unscheduled : st.scheduling = none) (live : ∀ q, w'.Live q → w.Live q)
    (nextSeqId : w'.nextSeqId = w.nextSeqId) (trace : w'.trace = w.trace ++ [.suspended p]) :
    Accounted w' := by
  have hself : ∀ (seq : SequenceId) sc, st.scheduling = some sc → sc.seqId ≠ seq :=
    fun seq sc hsc => absurd (unscheduled.symm.trans hsc) (by simp)
  refine h.grown trace nextPtr.ge nextSeqId.ge closing (fun q _ => live q)
    (fun q hq => ?_) (fun seq _ hnobody => dropped heap (fun q sc _ => hnobody q sc) (hself seq))
    (by simp) (by simp) (fun q sc' rest hsc hrest => ?_)
    fun between q seq hits generated after hobs => ?_
  · cases List.mem_singleton.mp hq
    exact .inr ((core.positions.scheduled p).mp (by rw [scheduled]; rfl))
  · rcases eq_or_ne q p with rfl | hne
    · cases scheduled.symm.trans hsc
      refine .sentBack (dropped heap (fun r sc' hne hsc' heq => ?_) (hself _)) (by simp)
        fun hseq => ?_
      · exact hne (core.positions.seq_inj r q sc' sc hsc' scheduled heq)
      · rw [trace] at hseq
        exact (h.released _ (by simpa using hseq)).2 q sc scheduled rfl
    · exact .held sc' ((others heap hne).mpr hsc) rfl (by simp [hrest, hne])
  · have hmem : Obs.admitted q seq hits generated ∈ [Obs.suspended p] := by rw [hobs]; simp
    simp at hmem

/-- A request leaves. -/
theorem leaves {notes obs : List Obs} (registered : w.Live p) (unscheduled : st.scheduling = none)
    (live : ∀ q, w'.Live q → w.Live q ∧ q ≠ p) (nextSeqId : w'.nextSeqId = w.nextSeqId)
    (released : notes = (w.heap p).releaseNotes ∨ (notes = [] ∧ w.closing = true))
    (plain : ∀ o ∈ obs, o.plain = true) (trace : w'.trace = w.trace ++ (notes ++ obs)) :
    Accounted w' := by
  have hplain : ∀ o : Obs, o.plain = false → o ∉ obs := fun o ho hmem => by
    rw [plain o hmem] at ho
    cases ho
  -- the notes are about the sequence that `p` had
  have hnotes : ∀ o ∈ notes, ∃ sc, w.Scheduled p sc ∧ o = .releasedSequence sc.seqId := by
    intro o ho
    rcases released with rfl | ⟨rfl, -⟩
    · rw [RequestState.releaseNotes, Option.mem_toList, Option.map_eq_some_iff] at ho
      obtain ⟨sc, hsc, rfl⟩ := ho
      exact ⟨sc, hsc, rfl⟩
    · cases ho
  have hsingle : notes.length ≤ 1 := by
    rcases released with rfl | ⟨rfl, -⟩
    · exact Option.length_toList_le
    · exact Nat.zero_le _
  have hself : ∀ (seq : SequenceId) sc, st.scheduling = some sc → sc.seqId ≠ seq :=
    fun seq sc hsc => absurd (unscheduled.symm.trans hsc) (by simp)
  have hlost : ∀ sc, w.Scheduled p sc → w'.Dropped sc.seqId := fun sc hsc =>
    dropped heap (fun r sc' hne hsc' heq => hne (core.positions.seq_inj r p sc' sc hsc' hsc heq))
      (hself _)
  refine h.grown trace nextPtr.ge nextSeqId.ge closing (fun q _ hq => (live q hq).1)
    (fun q hq => ?_) (fun seq _ hnobody => dropped heap (fun q sc _ => hnobody q sc) (hself seq))
    (fun seq hseq => ?_) (fun seq => ?_) (fun q sc rest hsc hrest => ?_)
    fun between q seq hits generated after hobs => ?_
  · rcases List.mem_append.mp hq with hq | hq
    · obtain ⟨_, -, heq⟩ := hnotes _ hq
      cases heq
    · exact absurd hq (hplain _ rfl)
  · rcases List.mem_append.mp hseq with hseq | hseq
    · obtain ⟨sc, hsc, heq⟩ := hnotes _ hseq
      cases heq
      exact ⟨⟨nextSeqId ▸ core.positions.seq_lt p sc hsc, hlost sc hsc⟩, fun h => h p sc hsc rfl⟩
    · exact absurd hseq (hplain _ rfl)
  · rw [List.count_append, List.count_eq_zero.mpr (hplain _ rfl)]
    exact List.count_le_length.trans hsingle
  · have hstayed : .suspended q ∉ rest ++ (notes ++ obs) := by
      simp only [List.mem_append, not_or]
      refine ⟨hrest, fun hmem => ?_, hplain _ rfl⟩
      obtain ⟨_, -, heq⟩ := hnotes _ hmem
      cases heq
    rcases eq_or_ne q p with rfl | hne
    · refine .left (hlost sc hsc) (fun hq => (live q hq).2 rfl) hstayed ?_
      rcases released with rfl | ⟨-, hclosing⟩
      · refine .inr ?_
        have hsome : (w.heap q).scheduling = some sc := hsc
        simp [trace, RequestState.releaseNotes, hsome]
      · exact .inl (closing hclosing)
    · exact .held sc ((others heap hne).mpr hsc) rfl hstayed
  · have hmem : Obs.admitted q seq hits generated ∈ notes ++ obs := by rw [hobs]; simp
    rcases List.mem_append.mp hmem with hmem | hmem
    · obtain ⟨_, -, heq⟩ := hnotes _ hmem
      cases heq
    · exact absurd hmem (hplain _ rfl)

end

/-- Every transaction keeps the account. -/
theorem step (h : Accounted w) (core : Core w) (t : World.Step w w') : Accounted w' := by
  have hclosing := t.closing_mono
  cases t.moves core with
  | still still => exact h.still still hclosing
  | admits _ _ _ _ _ waiting heap seq live nextPtr nextSeqId plain trace =>
    exact h.admits core heap nextPtr hclosing waiting seq live nextSeqId plain trace
  | sendsBack _ _ _ scheduled heap unscheduled live nextPtr nextSeqId trace =>
    exact h.sendsBack core heap nextPtr hclosing scheduled unscheduled live nextSeqId trace
  | leaves _ _ _ _ registered heap unscheduled live nextPtr nextSeqId released plain trace =>
    exact h.leaves core heap nextPtr hclosing registered unscheduled live nextSeqId released plain
      trace

/-- Every run accounts for its sequences. -/
theorem run {config : ValidConfig} (run : World.Run (World.init config) w) : Accounted w :=
  (Runs.invariant (I := fun x => Core x ∧ Accounted x)
    (fun _ _ h t => ⟨h.1.step t, h.2.step h.1 t⟩) ⟨.init config, .init config⟩ run).2

end Accounted

/-! ### The states of the pool -/

/-- The sequence was given to a request that was sent back to `waiting_` afterwards, by
`suspend_one_running` or `evict_one_skipped`. -/
def SentBack (log : List Obs) (seq : SequenceId) : Prop :=
  ∃ before p hits generated after,
    log = before ++ .admitted p seq hits generated :: after ∧ .suspended p ∈ after

/-- No request has the sequence. -/
def Scheduler.Dropped (s : Scheduler) (seq : SequenceId) : Prop :=
  ∀ p sc, (s.heap p).scheduling = some sc → sc.seqId ≠ seq

/-- The sequences with a dispatched item that the executor was not told to release. -/
def unreleased (log : List Obs) : List SequenceId :=
  ((log.filterMap Obs.item?).map WorkItem.seqId).dedup.filter
    fun seq => decide (.releasedSequence seq ∉ log)

/-- What the executor still holds. -/
theorem mem_unreleased {log : List Obs} {seq : SequenceId} : seq ∈ unreleased log ↔
    (∃ item, .dispatched item ∈ log ∧ item.seqId = seq) ∧ .releasedSequence seq ∉ log := by
  have hitem : ∀ item, item ∈ log.filterMap Obs.item? ↔ .dispatched item ∈ log := by
    intro item
    rw [List.mem_filterMap]
    constructor
    · rintro ⟨o, ho, hsome⟩
      cases o <;> cases hsome
      exact ho
    · exact fun h => ⟨_, h, rfl⟩
  simp [unreleased, hitem]

/-- What the pool makes of an observation: `release_sequence` gives the state back. -/
def StatePool.observe (pool : StatePool) : Obs → StatePool
  | .releasedSequence seq => pool.releaseActive seq
  | _ => pool

theorem StatePool.observe_holders (log : List Obs) : ∀ (pool : StatePool) (seq : SequenceId),
    seq ∈ (log.foldl StatePool.observe pool).holders ↔
      seq ∈ pool.holders ∧ .releasedSequence seq ∉ log := by
  induction log with
  | nil => simp
  | cons o _ ih =>
    intro pool seq
    rw [List.foldl_cons, ih]
    cases o <;> simp [StatePool.observe, StatePool.mem_holders_releaseActive, and_assoc]

theorem StatePool.observe_maxActive (log : List Obs) : ∀ pool : StatePool,
    (log.foldl StatePool.observe pool).maxActive = pool.maxActive := by
  induction log with
  | nil => exact fun _ => rfl
  | cons o _ ih =>
    intro pool
    rw [List.foldl_cons, ih]
    cases o <;> simp [StatePool.observe]

/-- The pools beside a run of the engine: the worker acquires the states of items in flight,
in any order and with any result of the device, and gives back what it is told to release. -/
inductive Pooled (config : ValidConfig) : Sys → StatePool → Prop
  | init {pool : StatePool} (snapshots : Int)
      (created : StatePool.create config.maxSequences snapshots (.ok ()) = .ok pool) :
      Pooled config (Sys.init config) pool
  | acquire {y : Sys} {pool : StatePool} (item : WorkItem) (zero : Result Unit) :
      Pooled config y pool → item ∈ y.itemsInFlight →
      Pooled config y (pool.acquireActive item.seqId zero).2
  | step {y y' : Sys} {pool : StatePool} (l : Label) : Pooled config y pool → y.step l = some y' →
      Pooled config y' ((y'.sched.trace.drop y.sched.trace.length).foldl StatePool.observe pool)

section

variable {config : ValidConfig} {y : Sys}

/-- The sequences of the items in flight are not released. -/
theorem Reachable.flight_unreleased (h : Reachable config y) :
    ∀ item ∈ y.itemsInFlight, item.seqId ∈ unreleased y.sched.trace := by
  obtain ⟨_, carries, run, core⟩ := h.core
  intro item hitem
  obtain ⟨f, hf, rfl⟩ := Sys.mem_itemsInFlight carries hitem
  refine mem_unreleased.mpr ⟨⟨f.item, run.flight_logged f hf, rfl⟩, fun hreleased => ?_⟩
  obtain ⟨p, -, sc, hsc, hseq⟩ := core.flights.owner core.positions hf
  exact ((Accounted.run run).released _ hreleased).2 p sc hsc hseq

namespace Pooled

variable {pool : StatePool}

theorem reachable (h : Pooled config y pool) : Reachable config y := by
  induction h with
  | init => exact .init
  | acquire _ _ _ _ ih => exact ih
  | step l _ t ih => exact .step l ih t

/-- The pool has one state for each of the `max_sequences`. -/
theorem maxActive (h : Pooled config y pool) : pool.maxActive = config.maxSequences := by
  induction h with
  | init _ created =>
    unfold StatePool.create at created
    split at created
    · cases created
    · cases created
      rfl
  | acquire _ _ _ _ ih => rw [StatePool.acquireActive_maxActive, ih]
  | step l _ _ ih => rw [StatePool.observe_maxActive, ih]

/-- Only sequences that are not released hold a state. -/
theorem holders_unreleased (h : Pooled config y pool) :
    ∀ seq ∈ pool.holders, seq ∈ unreleased y.sched.trace := by
  induction h with
  | init _ created =>
    unfold StatePool.create at created
    split at created
    · cases created
    · cases created
      rintro _ ⟨⟩
  | acquire item _ hpooled hitem ih =>
    intro seq hseq
    rcases StatePool.mem_holders_acquireActive _ _ hseq with rfl | hold
    · exact hpooled.reachable.flight_unreleased item hitem
    · exact ih seq hold
  | @step _ _ _ _ hpooled t ih =>
    intro seq hseq
    obtain ⟨_, hobs⟩ := hpooled.reachable.trace_prefix t
    rw [← hobs, List.drop_left, StatePool.observe_holders] at hseq
    obtain ⟨⟨item, hitem, hid⟩, hold⟩ := mem_unreleased.mp (ih seq hseq.1)
    refine mem_unreleased.mpr ⟨⟨item, ?_, hid⟩, ?_⟩
    · rw [← hobs]
      exact List.mem_append_left _ hitem
    · rw [← hobs, List.mem_append, not_or]
      exact ⟨hold, hseq.2⟩

end Pooled

/-- What is owed to the executor in the state `y`. -/
structure ReleasesOnce (config : ValidConfig) (y : Sys) : Prop where
  /-- A sequence with a dispatched item was released once when its request lost it. -/
  once : ∀ item, .dispatched item ∈ y.sched.trace → y.sched.Dropped item.seqId →
    y.sched.trace.count (.releasedSequence item.seqId) = 1
  /-- Nothing of a released sequence is in flight. -/
  idle : ∀ seq, .releasedSequence seq ∈ y.sched.trace → ∀ item ∈ y.itemsInFlight,
    item.seqId ≠ seq
  bounded : (unreleased y.sched.trace).length ≤ y.sched.running.length + y.sched.skip.length
  /-- The pool holds at most `max_sequences` states, and has one for every item in flight. -/
  states : ∀ pool, Pooled config y pool → pool.holders.length ≤ config.maxSequences ∧
    ∀ item ∈ y.itemsInFlight, (pool.acquireActive item.seqId (.ok ())).1 = .ok ()

/-- Before a shutdown, a dispatched sequence is with its request, was sent back, or is
released. -/
theorem Reachable.standing (h : Reachable config y) (running : y.sched.shutdownRequested = false)
    {item : WorkItem} (hitem : .dispatched item ∈ y.sched.trace) :
    (∃ p sc, (y.sched.heap p).scheduling = some sc ∧ sc.seqId = item.seqId) ∨
      SentBack y.sched.trace item.seqId ∨ .releasedSequence item.seqId ∈ y.sched.trace := by
  obtain ⟨_, -, run, -⟩ := h.core
  obtain ⟨p, hits, generated, hmem⟩ := (Dispatches.run run).admitted hitem
  obtain ⟨before, after, hlog⟩ := List.append_of_mem hmem
  obtain ⟨-, -, hstanding⟩ := (Accounted.run run).given before p _ hits generated after hlog
  cases hstanding with
  | held sc scheduled seqId => exact .inl ⟨p, sc, scheduled, seqId⟩
  | sentBack _ suspended =>
    exact .inr (.inl ⟨before, p, hits, generated, after, hlog, suspended⟩)
  | left _ _ _ released =>
    refine .inr (.inr (released.resolve_left fun hclosing => ?_))
    exact Bool.false_ne_true (running.symm.trans hclosing)

/-- The sequence of a request that was sent back is dropped and not released. -/
theorem Reachable.sentBack (h : Reachable config y) {seq : SequenceId}
    (hsent : SentBack y.sched.trace seq) :
    y.sched.Dropped seq ∧ .releasedSequence seq ∉ y.sched.trace := by
  obtain ⟨_, -, run, -⟩ := h.core
  obtain ⟨before, p, hits, generated, after, hlog, hsuspended⟩ := hsent
  obtain ⟨-, -, hstanding⟩ := (Accounted.run run).given before p _ hits generated after hlog
  cases hstanding with
  | held sc scheduled seqId stayed | left dropped gone stayed => exact absurd hsuspended stayed
  | sentBack dropped _ unreleased => exact ⟨dropped, unreleased⟩

/-- If no dispatched sequence was sent back, the unreleased ones belong to requests of
`running_` and `skip_`. -/
theorem Reachable.unreleased_le (h : Reachable config y)
    (running : y.sched.shutdownRequested = false)
    (kept : ∀ item, .dispatched item ∈ y.sched.trace → ¬ SentBack y.sched.trace item.seqId) :
    (unreleased y.sched.trace).length ≤ y.sched.running.length + y.sched.skip.length := by
  obtain ⟨_, -, -, core⟩ := h.core
  have hsub : unreleased y.sched.trace ⊆ (y.sched.running ++ y.sched.skip).filterMap
      fun p => (y.sched.heap p).scheduling.map (·.seqId) := by
    intro seq hseq
    obtain ⟨⟨item, hitem, rfl⟩, hnot⟩ := mem_unreleased.mp hseq
    rcases h.standing running hitem with ⟨p, sc, hsc, hid⟩ | hsent | hreleased
    · have hp := (core.positions.scheduled p).mp (Option.isSome_iff_exists.mpr ⟨sc, hsc⟩)
      refine List.mem_filterMap.mpr ⟨p, List.mem_append.mpr hp.symm, ?_⟩
      rw [hsc, Option.map_some, hid]
    · exact absurd hsent (kept item hitem)
    · exact absurd hreleased hnot
  have hnodup : (unreleased y.sched.trace).Nodup := (List.nodup_dedup _).filter _
  calc (unreleased y.sched.trace).length
      ≤ ((y.sched.running ++ y.sched.skip).filterMap
          fun p => (y.sched.heap p).scheduling.map (·.seqId)).length :=
        (hnodup.subperm hsub).length_le
    _ ≤ (y.sched.running ++ y.sched.skip).length := List.length_filterMap_le _ _
    _ = y.sched.running.length + y.sched.skip.length := List.length_append

/-- Before a shutdown, the executor's resources are released as they should be if and only if
no sequence with a dispatched item was sent back to `waiting_`. -/
theorem releases_once_iff (h : Reachable config y) (running : y.sched.shutdownRequested = false) :
    ReleasesOnce config y ↔
      ∀ item, .dispatched item ∈ y.sched.trace → ¬ SentBack y.sched.trace item.seqId := by
  constructor
  · intro hreleases item hitem hsent
    obtain ⟨hdropped, hnot⟩ := h.sentBack hsent
    have hcount := hreleases.once item hitem hdropped
    rw [List.count_eq_zero.mpr hnot] at hcount
    cases hcount
  · intro kept
    obtain ⟨fls, -, run, -⟩ := h.core
    have haccounted := Accounted.run run
    have hbounded := h.unreleased_le running kept
    have hsequences : y.sched.running.length + y.sched.skip.length ≤ config.maxSequences := by
      have hsized := (Sized.run run).sequences
      rwa [show (World.of y.sched fls.flatten y.worker).config = config
        from run.config_eq] at hsized
    refine ⟨fun item hitem hdropped => ?_, fun seq hseq item hitem heq => ?_, hbounded,
      fun pool hpool => ?_⟩
    · have hreleased : .releasedSequence item.seqId ∈ y.sched.trace := by
        rcases h.standing running hitem with ⟨p, sc, hsc, hid⟩ | hsent | hreleased
        · exact absurd hid (hdropped p sc hsc)
        · exact absurd hsent (kept item hitem)
        · exact hreleased
      exact le_antisymm (haccounted.once _) (List.count_pos_iff.mpr hreleased)
    · exact (mem_unreleased.mp (h.flight_unreleased item hitem)).2 (heq ▸ hseq)
    · have hroom : ∀ seqs : List SequenceId, seqs.Nodup → seqs ⊆ unreleased y.sched.trace →
          seqs.length ≤ config.maxSequences := fun seqs hnodup hsub =>
        (hnodup.subperm hsub).length_le.trans (hbounded.trans hsequences)
      refine ⟨hroom _ pool.sequences hpool.holders_unreleased, fun item hitem => ?_⟩
      by_cases held : item.seqId ∈ pool.holders
      · rw [StatePool.acquireActive_held _ _ held]
      · refine pool.acquireActive_ok _ ?_
        rw [hpool.maxActive]
        refine hroom (item.seqId :: pool.holders) (List.nodup_cons.mpr ⟨held, pool.sequences⟩) ?_
        exact List.cons_subset.mpr ⟨h.flight_unreleased item hitem, hpool.holders_unreleased⟩

end

/-- The observation tells that a request was sent back. -/
def Obs.suspends : Obs → Bool
  | .suspended _ => true
  | _ => false

/-- A run that serves a request to its end. -/
def releasedRun : Sys :=
  Sys.after threeBlocks (Label.submits [⟨"a", [1, 2], { maxTokens := 2 }, 6⟩] ++ Label.turn [7] ++
    Label.turn [8])

theorem releases_once_iff_releasedRun : (releasedRun.sched.requests = [] ∧
      releasedRun.sched.trace.count (.releasedSequence 1) = 1) ∧
    ReleasesOnce threeBlocks releasedRun := by
  refine ⟨by decide +kernel, (releases_once_iff (Reachable.after _ _) (by decide +kernel)).mpr ?_⟩
  rintro _ - ⟨_, p, _, _, _, hlog, hsuspended⟩
  have hnone : ∀ o ∈ releasedRun.sched.trace, o.suspends = false := by decide +kernel
  have hmem : .suspended p ∈ releasedRun.sched.trace := by
    rw [releasedRun, hlog]
    simp [hsuspended]
  exact nomatch hnone _ hmem

/-- The request `a` was suspended. Its sequence 1 had a dispatched item and is never released:
two sequences are unreleased where one request is scheduled. -/
theorem suspended_unreleased :
    Reachable threeBlocks putBack ∧ putBack.sched.shutdownRequested = false ∧
    putBack.sched.waiting = [0] ∧ (putBack.sched.heap 0).scheduling = none ∧
    putBack.sched.running = [1] ∧ putBack.sched.skip = [] ∧
    unreleased putBack.sched.trace = [1, 2] ∧ putBack.sched.trace.count (.releasedSequence 1) = 0 ∧
    ¬ ReleasesOnce threeBlocks putBack := by
  refine ⟨Reachable.after _ _, by decide +kernel, by decide +kernel, by decide +kernel,
    by decide +kernel, by decide +kernel, by decide +kernel, by decide +kernel, fun h => ?_⟩
  have hbounded := h.bounded
  revert hbounded
  decide +kernel

end CcInfer
