import CcInfer.Proofs.Engine.Bounds
import CcInfer.Proofs.Engine.Gapless

/-!
# `CcInfer.Proofs.Engine.Quotas`: the limits of a request

A request brings two limits, `max_tokens` and `max_context_len`. The scheduler compares them
with counts that mix tokens that are there, tokens that are still in flight and generated
tokens that a suspension has moved into the prompt, and it does so at another place for a
chunk, for the decode of a full prefix hit and for a decode.
-/

set_option autoImplicit false

namespace CcInfer

open SequenceSchedulingState RequestState

variable {config : ValidConfig} {w : World} {p : RequestPtr}

/-- The length of the prompt and of the generated tokens that are not in it. -/
def RequestState.committed (st : RequestState) (sc : SequenceSchedulingState) : Int :=
  st.promptTokens.length + st.generatedTokens.length - sc.cursor.generatedTokensInPrompt

/-- What an active request has taken of its limits. -/
structure Quota (st : RequestState) (sc : SequenceSchedulingState) (items : List WorkItem) :
    Prop where
  inPrompt : sc.cursor.generatedTokensInPrompt ≤ st.generatedTokens.length
  prompt_le : (st.promptTokens.length : Int) ≤ st.maxContextLen
  next_le : (sc.nextPosition : Int) ≤
    st.committed sc + sc.reservation.reservedGenerationTokens
  tokens : (st.generatedTokens.length + sc.reservation.reservedGenerationTokens : Int) ≤
    st.sampling.maxTokens
  final : ∀ chunk, .prefill chunk ∈ items → chunk.needsSample = true →
    st.promptTokens.length ≤ chunk.promptSpan.start + chunk.promptSpan.length

/-! ### Items -/

/-- An item writes no further than the last position it reads. -/
theorem WorkItem.written_le (item : WorkItem) :
    item.context + item.kvTokenCount ≤ item.position + item.tokenCount := by
  cases item with
  | prefill => exact le_rfl
  | decode =>
    simp only [position, kvTokenCount, tokenCount]
    split <;> omega

namespace Geometry

variable {blockSize : Nat} {st : RequestState} {sc : SequenceSchedulingState}
  {items : List WorkItem}

/-- Consecutive ranges end where the last of them ends. -/
theorem consecutive_end {start bound : Nat} {items : List WorkItem} (h : Consecutive start items)
    (hstart : start ≤ bound) (hbound : ∀ i ∈ items, i.context + i.kvTokenCount ≤ bound) :
    start + writtenLength items ≤ bound := by
  induction items generalizing start with
  | nil => simpa [writtenLength] using hstart
  | cons i _ ih =>
    obtain ⟨_, hrest⟩ := h
    have hi := hbound i List.mem_cons_self
    have := ih hrest (by omega) fun j hj => hbound j (List.mem_cons_of_mem _ hj)
    simp only [writtenLength, List.map_cons, List.sum_cons] at this ⊢
    omega

section

variable (h : Geometry st sc items) (active : st.status = .active)
  (phase : sc.cursor.phase.isPrefill = true)
include h active phase

/-- In a prefill phase nothing is dispatched beyond the prompt. -/
theorem next_le_prompt : sc.nextPosition ≤ st.promptTokens.length := by
  rw [nextPosition, h.reservedKv]
  refine consecutive_end (h.consecutive active) (h.unfilled active phase).le fun i hi => ?_
  obtain ⟨chunk, rfl⟩ := (h.prefill active phase).2 i hi
  obtain ⟨-, hstart, hle⟩ := h.spans chunk hi
  rw [← hstart]
  exact hle

/-- The next chunk starts at the next position. -/
theorem chunk_start :
    sc.cursor.prefillCursor + sc.reservation.reservedPromptTokens = sc.nextPosition := by
  obtain ⟨hcursor, hall⟩ := h.prefill active phase
  rw [hcursor, h.reservedPrompt, promptLength_eq_writtenLength hall, ← h.reservedKv]
  rfl

end

end Geometry

namespace Quota

variable {blockSize : Nat} {st st' : RequestState} {sc sc' : SequenceSchedulingState}
  {items items' : List WorkItem}
variable {item : WorkItem} {rest : List WorkItem}

/-- The quota reads a few fields only. -/
theorem of_same (h : Quota st sc items) (prompt : st'.promptTokens = st.promptTokens)
    (generated : st'.generatedTokens = st.generatedTokens)
    (sampling : st'.sampling = st.sampling) (context : st'.maxContextLen = st.maxContextLen)
    (cursor : sc'.cursor.generatedTokensInPrompt = sc.cursor.generatedTokensInPrompt)
    (frontier : sc'.executedFrontier = sc.executedFrontier)
    (reservation : sc'.reservation = sc.reservation)
    (hitems : ∀ i ∈ items', i ∈ items) : Quota st' sc' items' := by
  obtain ⟨_, _, h3, _, h5⟩ := h
  simp only [committed, nextPosition] at h3
  constructor
  · rwa [cursor, generated]
  · rwa [prompt, context]
  · simpa [committed, nextPosition, frontier, reservation,
      prompt, generated, cursor] using h3
  · rwa [generated, reservation, sampling]
  · rw [prompt]
    exact fun chunk hmem => h5 chunk (hitems _ hmem)

/-- An admitted request. -/
theorem admitted {maxBlocks hits : Nat} {seq : SequenceId} {parent : Hash} {table : BlockTable}
    (admissible : st.Admissible maxBlocks blockSize) (belowMax : st.BelowMax)
    (hits_le : hits * blockSize ≤ st.promptTokens.length) :
    Quota { st with scheduling := some (st.admitScheduling blockSize seq ⟨table, hits, parent⟩) }
      (st.admitScheduling blockSize seq ⟨table, hits, parent⟩) [] := by
  have hinPrompt : (st.admitCursor (hits * blockSize)).generatedTokensInPrompt =
      if st.generatedTokens.isEmpty then 0 else st.generatedTokens.length - 1 := by
    simp only [admitCursor]
    split
    · rfl
    · split <;> rfl
  have hle : (st.admitCursor (hits * blockSize)).generatedTokensInPrompt ≤
      st.generatedTokens.length := by
    rw [hinPrompt]
    split_ifs <;> omega
  refine ⟨hle, admissible.prompt_le, ?_, ?_, (by simp)⟩
  · simp only [committed, nextPosition,
      admitScheduling]
    omega
  · have hpos := admissible.maxTokens_pos
    simp only [admitScheduling]
    by_cases hnil : st.generatedTokens = []
    · simp only [hnil, List.length_nil]
      omega
    · have := belowMax admissible.active (.inr hnil)
      omega

section

variable (h : Quota st sc items) (geometry : Geometry st sc items)
  (active : st.status = .active)
include h geometry active

/-- While a chunk is still to be dispatched, no item in flight samples. -/
theorem none_sampled (phase : sc.cursor.phase.isPrefill = true)
    (more : sc.nextPosition < st.promptTokens.length) :
    sc.reservation.reservedGenerationTokens = 0 := by
  have hbounds := (geometry.consecutive active).bounds
  have hnext : sc.executedFrontier + writtenLength items = sc.nextPosition := by
    rw [nextPosition, geometry.reservedKv]
  rw [geometry.reservedGeneration, sampleCount, List.sum_eq_zero_iff]
  intro n hn
  obtain ⟨i, hi, rfl⟩ := List.mem_map.mp hn
  obtain ⟨chunk, rfl⟩ := (geometry.prefill active phase).2 i hi
  refine if_neg fun hsamples => ?_
  -- a chunk that samples ends the prompt, and the next position lies behind it
  have hend := h.final chunk hi hsamples
  have hle := (hbounds _ hi).2
  rw [← (geometry.spans chunk hi).2.1, hnext] at hle
  have hkv : (WorkItem.prefill chunk).kvTokenCount = chunk.promptSpan.length := rfl
  omega

/-- The limits are compared before an item is dispatched. -/
theorem dispatched (belowMax : st.BelowMax) (scheduled : st.scheduling = some sc)
    (itemFor : ItemFor st sc blockSize item) :
    Quota { st with scheduling := some { sc with reservation := sc.reservation.reserve item } }
      { sc with reservation := sc.reservation.reserve item } (items ++ [item]) := by
  have hnext := h.next_le
  have htokens := h.tokens
  have hinPrompt := h.inPrompt
  have hmax := belowMax active (.inl (by rw [scheduled]; rfl))
  simp only [committed, nextPosition] at hnext
  constructor
  · exact h.inPrompt
  · exact h.prompt_le
  · simp only [committed, nextPosition,
      SequenceReservation.reserve]
    cases itemFor with
    | chunk _ _ phase =>
      have hstart := geometry.chunk_start active phase
      simp only [nextPosition] at hstart
      simp only [WorkItem.kvTokenCount]
      omega
    | bootstrap =>
      simp only [WorkItem.kvTokenCount, WorkItem.samples, Bool.false_eq_true, if_false, if_true]
      omega
    | decode =>
      simp only [WorkItem.kvTokenCount, WorkItem.samples, if_true]
      omega
  · simp only [SequenceReservation.reserve]
    cases itemFor with
    | chunk _ _ phase =>
      have hstart := geometry.chunk_start active phase
      have hnone := h.none_sampled geometry active phase (by omega)
      rw [hnone]
      split_ifs <;> omega
    | bootstrap | decode =>
      simp only [WorkItem.samples, if_true]
      omega
  · intro chunk hmem hsample
    rcases List.mem_append.mp hmem with hmem | hmem
    · exact h.final chunk hmem hsample
    · cases List.mem_singleton.mp hmem
      cases itemFor with
      | chunk =>
        simp only [Bool.and_eq_true, decide_eq_true_eq] at hsample
        exact hsample.1

/-- Every position that a dispatched item reads or writes is within the context. -/
theorem item_le (itemFor : ItemFor st sc blockSize item) :
    (item.position + item.tokenCount : Int) ≤ st.maxContextLen := by
  have hnext := h.next_le
  have hprompt := h.prompt_le
  have hpos := geometry.prompt_pos
  have hcontext := itemFor.context_eq
  simp only [committed, nextPosition] at hnext
  cases itemFor with
  | chunk _ _ phase =>
    have hstart := geometry.chunk_start active phase
    simp only [nextPosition] at hstart
    simp only [WorkItem.position, hcontext, WorkItem.tokenCount]
    omega
  | bootstrap =>
    simp only [WorkItem.position, hcontext, WorkItem.tokenCount, Bool.false_eq_true, if_false]
    omega
  | decode =>
    simp only [WorkItem.position, hcontext, WorkItem.tokenCount, if_true]
    omega

end

/-- An item is retired that leaves prompt to process. -/
theorem retiredChunk {chunk : PrefillChunk} (h : Quota st sc (.prefill chunk :: rest))
    (geometry : Geometry st sc (.prefill chunk :: rest)) (active : st.status = .active)
    (more : sc.cursor.prefillCursor + chunk.promptSpan.length < st.promptTokens.length) :
    Quota { st with scheduling := some (sc.advanceChunk chunk st.promptTokens.length) }
      (sc.advanceChunk chunk st.promptTokens.length) rest := by
  have hphase : sc.cursor.phase.isPrefill = true := by
    by_contra hphase
    have hfilled := geometry.filled active (by simpa using hphase)
    have haligned := geometry.chunk_aligned active
    have hcontext := (geometry.consecutive active).1
    have hspan := (geometry.spans chunk List.mem_cons_self).2.1
    omega
  have htotal : (sc.advanceChunk chunk st.promptTokens.length).nextPosition = sc.nextPosition :=
    geometry.retired_total active
  have hle := geometry.next_le_prompt active hphase
  have hinPrompt := h.inPrompt
  have htokens := h.tokens
  refine ⟨h.inPrompt, h.prompt_le, ?_, ?_, fun c hc => h.final c (List.mem_cons_of_mem _ hc)⟩
  · rw [htotal]
    simp only [committed, advanceChunk]
    omega
  · simp only [advanceChunk, SequenceReservation.retire] at *
    omega

/-- The retirement of an item moves its token from the reservation to the generated ones. -/
theorem retired {p : RequestPtr}
    {advanced published : SequenceSchedulingState} {written : List Token} {head : List Obs}
    (h : Quota st sc (item :: rest)) (geometry : Geometry st sc (item :: rest))
    (active : st.status = .active) (settles : Settles p st sc item advanced written head)
    (publish : Published blockSize item written advanced published) (sampling : SamplingParams)
    (fate : Fate) (token : Token) :
    Quota (st.retired (published.leaveBootstrap item) ⟨item, sampling, fate⟩ token)
      (published.leaveBootstrap item) rest := by
  obtain ⟨-, -, hreservation, hfrontier, -, -, -⟩ := settles.advanced
  have hcursor : advanced.cursor.generatedTokensInPrompt = sc.cursor.generatedTokensInPrompt := by
    cases settles <;> rfl
  have hinPrompt : (published.leaveBootstrap item).cursor.generatedTokensInPrompt =
      sc.cursor.generatedTokensInPrompt := by
    unfold leaveBootstrap
    split
    · simpa [publish.plan.cursor] using hcursor
    · simpa [publish.plan.cursor] using hcursor
  have htotal := geometry.retired_total active
  have hreserved := geometry.reservedGeneration
  simp only [sampleCount, List.map_cons, List.sum_cons] at hreserved
  have hemitted : (FlightItem.emitted ⟨item, sampling, fate⟩ token).length =
      if item.samples then 1 else 0 := by
    unfold FlightItem.emitted
    split_ifs <;> rfl
  have hold := h.inPrompt
  have hnext := h.next_le
  have htokens := h.tokens
  simp only [RequestState.committed] at hnext
  refine ⟨?_, h.prompt_le, ?_, ?_, fun c hc => h.final c (List.mem_cons_of_mem _ hc)⟩
  · rw [hinPrompt, RequestState.retired, List.length_append]
    omega
  · simp only [RequestState.committed, hinPrompt, RequestState.retired, List.length_append,
      hemitted, nextPosition,
      leaveBootstrap_frame, publish.plan.executedFrontier,
      publish.plan.reservation, hreservation, hfrontier] at htotal ⊢
    rw [htotal]
    simp only [SequenceReservation.retire, nextPosition] at hnext ⊢
    split_ifs at hreserved ⊢ <;> omega
  · simp only [RequestState.retired, List.length_append, hemitted,
      leaveBootstrap_frame, publish.plan.reservation, hreservation,
      SequenceReservation.retire]
    split_ifs at hreserved ⊢ <;> omega

end Quota

/-! ### The life of a request -/

/-- A request keeps to its limits. -/
structure View.InQuota (v : View) : Prop where
  belowMax : v.req.BelowMax
  quota : ∀ sc, v.req.scheduling = some sc → v.req.status = .active →
    Quota v.req sc (v.items.map (·.item))
  generated : (v.req.generatedTokens.length : Int) ≤ max 0 v.req.sampling.maxTokens

namespace View.InQuota

variable {maxBlocks blockSize : Nat} {sampler : List Token → Token → Prop}
  {params : SamplingParams → Prop} {v v' : View}

theorem init (config : ValidConfig) (p : RequestPtr) (req : SchedulerRequest) :
    InQuota (.fresh config p req) where
  belowMax _ h := by
    rcases h with h | h
    · cases h
    · exact absurd rfl h
  quota _ h := nomatch h
  generated := le_max_left ..

/-- Every transaction of a request keeps it within its limits. -/
theorem step (h : InQuota v) (kept : v.Kept blockSize)
    (t : View.Step p maxBlocks blockSize sampler params v v') : InQuota v' := by
  have hmax := t.belowMax h.belowMax
  cases t with
  | expire => exact ⟨hmax, fun sc hsc ha => (h.quota sc hsc ha).of_same rfl rfl rfl rfl rfl rfl rfl
      fun _ => id, h.generated⟩
  | cancel | finish | fail => exact ⟨hmax, fun _ _ => nofun, h.generated⟩
  | grow sc _ scheduled =>
    refine ⟨hmax, fun sc' hsc' ha => ?_, h.generated⟩
    cases hsc'
    exact (h.quota sc scheduled ha).of_same rfl rfl rfl rfl rfl rfl rfl fun _ => id
  | dispatch sc _ _ scheduled active itemFor =>
    refine ⟨hmax, fun sc' hsc' ha => ?_, h.generated⟩
    cases hsc'
    rw [List.map_append]
    exact (h.quota sc scheduled active).dispatched (kept.geometry sc scheduled) active h.belowMax
      scheduled itemFor
  | admission _ _ _ _ admissible hits_le =>
    refine ⟨hmax, fun sc' hsc' ha => ?_, h.generated⟩
    cases hsc'
    exact .admitted admissible h.belowMax hits_le
  | park | drop => exact ⟨hmax, fun _ hsc => (nomatch hsc), h.generated⟩
  | discard _ _ _ _ split _ ignored =>
    refine ⟨hmax, fun sc' _ ha => ?_, h.generated⟩
    exact absurd ha (kept.discarded_inactive split ignored)
  | retireChunk _ _ _ _ sc front scheduled active more =>
    refine ⟨hmax, fun sc' hsc' _ => ?_, h.generated⟩
    cases hsc'
    have hquota := h.quota sc scheduled active
    have hgeo := kept.geometry sc scheduled
    rw [front] at hquota hgeo
    exact hquota.retiredChunk hgeo active more
  | retire _ _ sampling token sc _ _ _ _ front scheduled active settles publish =>
    have hquota := h.quota sc scheduled active
    have hgeo := kept.geometry sc scheduled
    rw [front] at hquota hgeo
    have hretired := hquota.retired hgeo active settles publish sampling (.done token) token
    refine ⟨hmax, fun sc' hsc' _ => ?_, ?_⟩
    · cases hsc'
      exact hretired
    · exact le_max_of_le_right
        (le_trans (le_add_of_nonneg_right (Int.natCast_nonneg _)) hretired.tokens)
  | process before after f token split | skipStale before after f split
    | processFail before after f err known failed split =>
    refine ⟨hmax, fun sc hsc ha => ?_, h.generated⟩
    simpa [split] using h.quota sc hsc ha

end View.InQuota

/-- Every request of a reachable world keeps to its limits. -/
theorem World.Run.inQuota (run : World.Run (World.init config) w) (hp : p < w.nextPtr) :
    (w.view p).InQuota :=
  run.life (I := View.InQuota) (fun req => .init config p req)
    (fun _ _ h kept t _ => h.step kept t) hp

theorem World.Run.quota (run : World.Run (World.init config) w) (core : Core w)
    {sc : SequenceSchedulingState} (scheduled : w.Scheduled p sc)
    (active : (w.heap p).status = .active) :
    Quota (w.heap p) sc ((w.itemsOf sc.seqId).map (·.item)) := by
  have h := (run.inQuota (core.scheduled_lt scheduled)).quota
  rw [World.view_of_some scheduled] at h
  exact h sc scheduled active

/-! ### The dispatched items -/

/-- Every sequence id belongs to one request, and its dispatched items keep to the context of
that request. -/
structure Ranged (w : World) : Prop where
  owner : ∀ p q seq hits hits' generated generated', .admitted p seq hits generated ∈ w.trace →
    .admitted q seq hits' generated' ∈ w.trace → p = q
  context : ∀ p seq hits generated, .admitted p seq hits generated ∈ w.trace →
    (w.heap p).maxContextLen ≤ (w.config.maxBlocks * w.config.kvBlockSize : Nat)
  within : ∀ item p hits generated, .dispatched item ∈ w.trace →
    .admitted p item.seqId hits generated ∈ w.trace →
    (item.position + item.tokenCount : Int) ≤ (w.heap p).maxContextLen

namespace Ranged

variable {w' : World}

theorem init (config : ValidConfig) : Ranged (World.init config) where
  owner _ _ _ _ _ _ _ h := absurd h List.not_mem_nil
  context _ _ _ _ h := absurd h List.not_mem_nil
  within _ _ _ _ h := absurd h List.not_mem_nil

/-- Every transaction keeps the dispatched items within the context. -/
theorem step {config : ValidConfig} (h : Ranged w) (run : World.Run (World.init config) w)
    (t : World.Step w w') : Ranged w' := by
  have core : Core w := run.core
  have hlog := Dispatches.run run
  have hknown : ∀ {p seq hits generated}, .admitted p seq hits generated ∈ w.trace →
      (w'.heap p).maxContextLen = (w.heap p).maxContextLen := fun hmem =>
    (t.request_eq ((Logged.run run).known _ hmem _ (by simp [Obs.about]))).2
  obtain ⟨_, htrace, hlogs⟩ := t.logs
  have hentry : ∀ {o}, o ∈ w'.trace → o ∈ w.trace ∨ w.Logs w' o := fun ho => by
    rw [htrace] at ho
    exact (List.mem_append.mp ho).imp_right (hlogs _)
  refine ⟨fun p q seq hits hits' g g' hp hq => ?_, fun p seq hits g hp => ?_,
    fun item p hits g hitem hp => ?_⟩
  · rcases hentry hp with hp | ⟨hfront, -, heq, -⟩ <;>
      rcases hentry hq with hq | ⟨hfront', -, heq', -⟩
    · exact h.owner p q seq hits hits' g g' hp hq
    · exact absurd (hlog.admitted_given _ _ _ _ hp) (by rw [heq']; exact lt_irrefl _)
    · exact absurd (hlog.admitted_given _ _ _ _ hq) (by rw [heq]; exact lt_irrefl _)
    · exact Option.some.inj (hfront.symm.trans hfront')
  · rw [t.config_eq]
    rcases hentry hp with hp | ⟨hfront, admissible, -⟩
    · rw [hknown hp]
      exact h.context p seq hits g hp
    · have hlive : w.Live p := .inl (List.mem_of_mem_head? hfront)
      rw [(t.request_eq (core.positions.allocated _ hlive)).2, ← core.ownership.maxBlocks,
        ← core.ownership.blockSize]
      exact admissible.context_le
  · -- the sequence of a dispatched item was given out before
    have hgiven : item.seqId < w.nextSeqId := by
      rcases hentry hitem with hitem | ⟨-, q, sc, scheduled, -, itemFor⟩
      · exact hlog.given item hitem
      · rw [itemFor.seqId_eq]
        exact core.positions.seq_lt q sc scheduled
    have hold := (hentry hp).resolve_right fun hnew => hgiven.ne hnew.2.2.1
    rw [hknown hold]
    rcases hentry hitem with hitem | ⟨-, q, sc, scheduled, active, itemFor⟩
    · exact h.within item p hits g hitem hold
    · obtain ⟨_, hown⟩ := hlog.scheduled q sc scheduled
      rw [itemFor.seqId_eq] at hold
      obtain rfl := h.owner _ _ _ _ _ _ _ hold hown
      rw [show w.kv.pool.blockSize = _ from core.ownership.blockSize] at itemFor
      exact (run.quota core scheduled active).item_le (core.geometry scheduled) active itemFor

/-- Every run keeps the dispatched items within the context. -/
theorem run {config : ValidConfig} (run : World.Run (World.init config) w) : Ranged w :=
  (Runs.invariant (I := fun x => World.Run (World.init config) x ∧ Ranged x)
    (fun _ _ h t => ⟨h.1.tail t, h.2.step h.1 t⟩) ⟨.refl, .init config⟩ run).2

end Ranged

/-- `n` tokens within the capacity need no more than its blocks. -/
theorem ceilDiv_le_of_le_mul {n blocks bs : Nat} (hbs : 0 < bs) (h : n ≤ blocks * bs) :
    (n + bs - 1) / bs ≤ blocks := by
  refine Nat.le_of_lt_succ (Nat.div_lt_of_lt_mul ?_)
  rw [Nat.mul_succ, Nat.mul_comm bs blocks]
  omega

/-- In every reachable state every request keeps to its limits. `parse_chat_request` lets no
negative `max_tokens` pass; a request with one would get no token. A dispatched item belongs
to one request, it writes below the context limit of that request, and the positions up to
the ones it writes fit into `max_blocks` blocks. -/
theorem request_limits {config : ValidConfig} {y : Sys} (h : Reachable config y) :
    (∀ p < y.sched.nextPtr, ((y.sched.heap p).generatedTokens.length : Int) ≤
      max 0 (y.sched.heap p).sampling.maxTokens) ∧
    (∀ p sc, (y.sched.heap p).scheduling = some sc → (y.sched.heap p).status = .active →
      ((y.sched.heap p).generatedTokens.length + sc.reservation.reservedGenerationTokens : Int) ≤
        (y.sched.heap p).sampling.maxTokens) ∧ ∀ item, .dispatched item ∈ y.sched.trace → ∃ p,
      (∀ q, (∃ hits generated, .admitted q item.seqId hits generated ∈ y.sched.trace) ↔ q = p) ∧
      (∀ pos : Nat, pos ∈ item.writtenPositions → (pos : Int) < (y.sched.heap p).maxContextLen) ∧
      (item.context + item.kvTokenCount + config.kvBlockSize - 1) / config.kvBlockSize ≤
        config.maxBlocks := by
  obtain ⟨_, -, run, core⟩ := h.core
  have hconfig : y.sched.config = config := run.config_eq
  refine ⟨fun p hp => ?_, fun p sc hsc active => (run.quota core hsc active).tokens,
    fun item hitem => ?_⟩
  · have hgenerated := (run.inQuota hp).generated
    rwa [World.view_req] at hgenerated
  · have hranged := Ranged.run run
    obtain ⟨p, hits, generated, hp⟩ := (Dispatches.run run).admitted hitem
    have hwithin : (item.position + item.tokenCount : Int) ≤ (y.sched.heap p).maxContextLen :=
      hranged.within item p hits generated hitem hp
    have hcontext : (y.sched.heap p).maxContextLen ≤
        (y.sched.config.maxBlocks * y.sched.config.kvBlockSize : Nat) :=
      hranged.context p _ hits generated hp
    have hwritten := item.written_le
    refine ⟨p, fun q => ⟨?_, ?_⟩, fun pos hpos => ?_, ?_⟩
    · rintro ⟨_, _, hq⟩
      exact hranged.owner q p _ _ _ _ _ hq hp
    · rintro rfl
      exact ⟨hits, generated, hp⟩
    · rw [WorkItem.writtenPositions, List.mem_range'_1] at hpos
      omega
    · rw [hconfig] at hcontext
      exact ceilDiv_le_of_le_mul config.kvBlockSize_pos (by omega)

/-- A run in which a suspended request is admitted again and has its last token in flight,
after another request has reached the limit of its context. -/
def lastTokenInFlight : Sys :=
  Sys.after threeBlocks (Label.submits [⟨"a", [1, 2], { maxTokens := 3 }, 6⟩,
      ⟨"b", [3, 4, 5, 6], {}, 6⟩] ++
    Label.turn [7, 0] ++ Label.turn [8] ++ Label.turn [9] ++ List.replicate 3 (.engine none) ++
    Label.turn [10] ++ Label.dispatch)

theorem request_limits_lastTokenInFlight :
    ((lastTokenInFlight.sched.heap 0).generatedTokens = [7, 10] ∧
      (lastTokenInFlight.sched.heap 0).scheduling.map
        (·.reservation.reservedGenerationTokens) = some 1 ∧
      (lastTokenInFlight.sched.trace.filterMap fun o => o.item?.map fun i =>
        (i.seqId, i.context, i.kvTokenCount)) =
        [(1, 0, 2), (2, 0, 2), (2, 2, 2), (2, 4, 1), (3, 0, 2), (3, 2, 1)]) ∧
    (∀ p < lastTokenInFlight.sched.nextPtr,
      ((lastTokenInFlight.sched.heap p).generatedTokens.length : Int) ≤
        max 0 (lastTokenInFlight.sched.heap p).sampling.maxTokens) ∧
    (∀ p sc, (lastTokenInFlight.sched.heap p).scheduling = some sc →
      (lastTokenInFlight.sched.heap p).status = .active →
      ((lastTokenInFlight.sched.heap p).generatedTokens.length +
        sc.reservation.reservedGenerationTokens : Int) ≤
        (lastTokenInFlight.sched.heap p).sampling.maxTokens) ∧
    ∀ item, .dispatched item ∈ lastTokenInFlight.sched.trace → ∃ p,
      (∀ q, (∃ hits generated, .admitted q item.seqId hits generated ∈
        lastTokenInFlight.sched.trace) ↔ q = p) ∧ (∀ pos : Nat, pos ∈ item.writtenPositions →
        (pos : Int) < (lastTokenInFlight.sched.heap p).maxContextLen) ∧
      (item.context + item.kvTokenCount + threeBlocks.kvBlockSize - 1) / threeBlocks.kvBlockSize ≤
        threeBlocks.maxBlocks :=
  ⟨by decide +kernel, request_limits (Reachable.after _ _)⟩

end CcInfer
