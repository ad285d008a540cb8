import CcInfer.Abstract.View
import Mathlib.Algebra.GroupWithZero.Nat

/-!
# `CcInfer.Invariant.Geometry`: where the items of a request write

The items of one request in flight write disjoint ranges of positions, in order, above the
positions its scheduling state has seen executed. While the request is active the ranges are
consecutive and start at the frontier; results that are ignored leave gaps. The reservation
counters of the scheduling state are sums over these items. `Geometry` collects this.
-/

set_option autoImplicit false

namespace CcInfer

open SequenceReservation

variable {start : Nat} {items : List WorkItem} {f : FlightItem}

/-! ### Ranges -/

/-- The items write consecutive ranges from `start` on. -/
def Consecutive : Nat → List WorkItem → Prop
  | _, [] => True
  | start, i :: rest => i.context = start ∧ Consecutive (start + i.kvTokenCount) rest

/-- The number of positions that the items write. -/
def writtenLength (items : List WorkItem) : Nat := (items.map WorkItem.kvTokenCount).sum

/-- The prompt tokens that the items consume. -/
def promptLength (items : List WorkItem) : Nat := (items.map WorkItem.promptTokenCount).sum

/-- The tokens that the items sample. -/
def sampleCount (items : List WorkItem) : Nat :=
  (items.map fun i => if i.samples then 1 else 0).sum

theorem consecutive_append {i : WorkItem} : Consecutive start (items ++ [i]) ↔
      Consecutive start items ∧ i.context = start + writtenLength items := by
  induction items generalizing start with
  | nil => simp [Consecutive, writtenLength]
  | cons _ _ ih =>
    simp only [List.cons_append, Consecutive, ih, writtenLength, List.map_cons, List.sum_cons]
    rw [and_assoc, Nat.add_assoc]

/-- Consecutive ranges lie above their start and below their end. -/
theorem Consecutive.bounds (h : Consecutive start items) : ∀ i ∈ items, start ≤ i.context ∧
      i.context + i.kvTokenCount ≤ start + writtenLength items := by
  induction items generalizing start with
  | nil => simp
  | cons _ _ ih =>
    intro i hi
    simp only [writtenLength, List.map_cons, List.sum_cons]
    rcases List.mem_cons.mp hi with rfl | hi
    · have := h.1
      omega
    · have := ih h.2 i hi
      simp only [writtenLength] at this
      omega

/-- Chunks write what they consume. -/
theorem promptLength_eq_writtenLength
    (h : ∀ i ∈ items, ∃ w, i = .prefill w) : promptLength items = writtenLength items := by
  unfold promptLength writtenLength
  congr 1
  refine List.map_congr_left fun i hi => ?_
  obtain ⟨_, rfl⟩ := h i hi
  rfl

/-- The bookkeeping of a scheduled request over its items in flight. -/
structure Geometry (st : RequestState) (sc : SequenceSchedulingState)
    (items : List WorkItem) : Prop where
  leases : sc.reservation.executionLeases = items.length
  reservedKv : sc.reservation.reservedKvTokens = writtenLength items
  reservedPrompt : sc.reservation.reservedPromptTokens = promptLength items
  reservedGeneration : sc.reservation.reservedGenerationTokens = sampleCount items
  ordered : items.Pairwise fun i j => i.context + i.kvTokenCount ≤ j.context
  above : ∀ i ∈ items, sc.executedFrontier ≤ i.context
  consecutive : st.status = .active → Consecutive sc.executedFrontier items
  pinned : ∀ i ∈ items, i.blockTable <+: sc.blockTable
  tokens : ∀ w, .prefill w ∈ items → w.tokens.length = w.promptSpan.length
  spans : ∀ w, .prefill w ∈ items → 0 < w.promptSpan.length ∧
    w.promptSpan.start = (WorkItem.prefill w).context ∧
    w.promptSpan.start + w.promptSpan.length ≤ st.promptTokens.length
  pending : sc.pendingHashTokens.length ≤ sc.executedFrontier
  prompt_pos : 0 < st.promptTokens.length
  prefill : st.status = .active → sc.cursor.phase.isPrefill = true →
    sc.cursor.prefillCursor = sc.executedFrontier ∧ ∀ i ∈ items, ∃ w, i = .prefill w
  unfilled : st.status = .active → sc.cursor.phase.isPrefill = true →
    sc.executedFrontier < st.promptTokens.length
  filled : st.status = .active → sc.cursor.phase.isPrefill = false →
    st.promptTokens.length ≤ sc.executedFrontier

namespace Geometry

variable {blockSize : Nat} {st st' : RequestState} {sc : SequenceSchedulingState}
variable {chunk : PrefillChunk} {rest : List WorkItem}
variable {item : WorkItem}

/-- The bookkeeping reads, of the request object, the prompt and whether it is active. -/
theorem of_request (h : Geometry st sc items) (prompt : st'.promptTokens = st.promptTokens)
    (status : st'.status = .active → st.status = .active) : Geometry st' sc items :=
  { h with
    consecutive := fun ha => h.consecutive (status ha)
    spans := by rw [prompt]; exact h.spans
    prompt_pos := by rw [prompt]; exact h.prompt_pos
    prefill := fun ha => h.prefill (status ha)
    unfilled := by rw [prompt]; exact fun ha => h.unfilled (status ha)
    filled := by rw [prompt]; exact fun ha => h.filled (status ha) }

/-- A new scheduling state has nothing in flight. -/
theorem admitted {st : RequestState} (prompt_pos : 0 < st.promptTokens.length)
    (seq : SequenceId) {hits : Nat} {parent : Hash} {table : BlockTable} :
    Geometry st (st.admitScheduling blockSize seq ⟨table, hits, parent⟩) [] := by
  constructor
  all_goals try simp [RequestState.admitScheduling, writtenLength, promptLength, sampleCount,
    Consecutive]
  · exact prompt_pos
  · intro _ hphase
    -- Without hits the cursor starts at zero, which is the frontier.
    unfold RequestState.admitCursor at hphase ⊢
    grind [GenerationPhase.isPrefill]
  · intro _ hphase
    unfold RequestState.admitCursor at hphase
    grind [GenerationPhase.isPrefill]
  · intro _ hphase
    unfold RequestState.admitCursor at hphase
    grind [GenerationPhase.isPrefill]

section

variable (h : Geometry st sc items)
include h

/-- The request takes more blocks. -/
theorem grown (blocks : BlockTable) :
    Geometry st { sc with blockTable := sc.blockTable ++ blocks } items :=
  { h with
    pinned := fun f hf => (h.pinned f hf).trans (List.prefix_append ..) }

/-- A dispatched chunk starts at its own position in the prompt. -/
theorem item_span (active : st.status = .active)
    (itemFor : ItemFor st sc blockSize (.prefill chunk)) :
    0 < chunk.promptSpan.length ∧ chunk.promptSpan.start = (WorkItem.prefill chunk).context ∧
    chunk.promptSpan.start + chunk.promptSpan.length ≤ st.promptTokens.length := by
  have hcontext := itemFor.context_eq
  cases itemFor with
  | chunk _ _ phase start_eq length_pos length_le =>
    obtain ⟨_, hall⟩ := h.prefill active phase
    rw [hcontext, h.reservedKv]
    rw [h.reservedPrompt, promptLength_eq_writtenLength hall] at start_eq
    exact ⟨length_pos, by simp only; omega, length_le⟩

/-- An item is dispatched. -/
theorem dispatched (active : st.status = .active) (itemFor : ItemFor st sc blockSize item) :
    Geometry st { sc with reservation := sc.reservation.reserve item }
      (items ++ [item]) := by
  have hcons := h.consecutive active
  have hcontext : item.context = sc.executedFrontier + writtenLength items := by
    rw [itemFor.context_eq, h.reservedKv]
  constructor
  · simp [reserve, h.leases]
  · simp [reserve, h.reservedKv, writtenLength]
  · simp [reserve, h.reservedPrompt, promptLength]
  · simp [reserve, h.reservedGeneration, sampleCount]
  · refine List.pairwise_append.mpr ⟨h.ordered, List.pairwise_singleton .., ?_⟩
    intro i hi j hj
    rw [List.mem_singleton.mp hj, hcontext]
    exact (hcons.bounds i hi).2
  · intro i hi
    rcases List.mem_append.mp hi with hi | hi
    · exact h.above i hi
    · rw [List.mem_singleton.mp hi, hcontext]
      exact Nat.le_add_right ..
  · exact fun _ => consecutive_append.mpr ⟨hcons, hcontext⟩
  · intro i hi
    rcases List.mem_append.mp hi with hi | hi
    · exact h.pinned i hi
    · cases List.mem_singleton.mp hi
      exact itemFor.blockTable_eq ▸ List.prefix_rfl
  · intro w hw
    rcases List.mem_append.mp hw with hw | hw
    · exact h.tokens w hw
    · obtain rfl := List.mem_singleton.mp hw
      cases itemFor
      simp only [List.length_take, List.length_drop]
      omega
  · intro w hw
    rcases List.mem_append.mp hw with hw | hw
    · exact h.spans w hw
    · obtain rfl := List.mem_singleton.mp hw
      exact h.item_span active itemFor
  · exact h.pending
  · exact h.prompt_pos
  · intro _ hphase
    refine ⟨(h.prefill active hphase).1, fun i hi => ?_⟩
    rcases List.mem_append.mp hi with hi | hi
    · exact (h.prefill active hphase).2 i hi
    · rw [List.mem_singleton.mp hi]
      cases itemFor with
      | chunk => exact ⟨_, rfl⟩
      | bootstrap phase | decode phase => simp [phase, GenerationPhase.isPrefill] at hphase
  · exact h.unfilled
  · exact h.filled

end

/-- An ignored item leaves. -/
theorem discarded {before after : List WorkItem}
    (h : Geometry st sc (before ++ item :: after)) (inactive : st.status ≠ .active) :
    Geometry st { sc with reservation := sc.reservation.retire item }
      (before ++ after) := by
  have hsub : (before ++ after).Sublist (before ++ item :: after) :=
    (List.sublist_cons_self item after).append_left before
  constructor
  · simp [retire, h.leases]
  · simp only [retire, h.reservedKv, writtenLength, List.map_append,
      List.map_cons, List.sum_append, List.sum_cons]
    omega
  · simp only [retire, h.reservedPrompt, promptLength, List.map_append,
      List.map_cons, List.sum_append, List.sum_cons]
    omega
  · simp only [retire, h.reservedGeneration, sampleCount, List.map_append,
      List.map_cons, List.sum_append, List.sum_cons]
    omega
  · exact h.ordered.sublist hsub
  · exact fun i hi => h.above i (hsub.subset hi)
  · exact fun ha => absurd ha inactive
  · exact fun i hi => h.pinned i (hsub.subset hi)
  · exact fun w hw => h.tokens w (hsub.subset hw)
  · exact fun w hw => h.spans w (hsub.subset hw)
  · exact h.pending
  · exact h.prompt_pos
  · exact fun ha => absurd ha inactive
  · exact fun ha => absurd ha inactive
  · exact fun ha => absurd ha inactive

/-- The oldest item of an active request is retired with its result: the frontier moves to
the end of its range. -/
theorem advanced {sc' : SequenceSchedulingState}
    (h : Geometry st sc (item :: rest)) (active : st.status = .active)
    (prompt : st'.promptTokens = st.promptTokens)
    (reservation : sc'.reservation = sc.reservation.retire item)
    (table : sc'.blockTable = sc.blockTable) (frontier : sc'.executedFrontier =
      max sc.executedFrontier (item.context + item.kvTokenCount))
    (pending : sc'.pendingHashTokens.length ≤ sc.pendingHashTokens.length + item.kvTokenCount)
    (prefill : sc'.cursor.phase.isPrefill = true → sc.cursor.phase.isPrefill = true ∧
      sc'.cursor.prefillCursor = sc.cursor.prefillCursor + item.kvTokenCount ∧
      sc'.cursor.prefillCursor < st.promptTokens.length)
    (filled : sc'.cursor.phase.isPrefill = false → sc.cursor.phase.isPrefill = true →
      st.promptTokens.length ≤ sc.cursor.prefillCursor + item.kvTokenCount) :
    Geometry st' sc' rest := by
  obtain ⟨hcontext, hrest⟩ := h.consecutive active
  have hfrontier : sc'.executedFrontier = sc.executedFrontier + item.kvTokenCount := by
    rw [frontier, hcontext]
    omega
  have hmem : ∀ i ∈ rest, i ∈ item :: rest := fun i hi => List.mem_cons_of_mem item hi
  constructor
  · simp [reservation, retire, h.leases]
  · simp [reservation, retire, h.reservedKv, writtenLength]
  · simp [reservation, retire, h.reservedPrompt, promptLength]
  · simp [reservation, retire, h.reservedGeneration, sampleCount]
  · exact h.ordered.of_cons
  · intro i hi
    rw [hfrontier, ← hcontext]
    exact (List.pairwise_cons.mp h.ordered).1 i hi
  · rw [hfrontier]
    exact fun _ => hrest
  · rw [table]
    exact fun i hi => h.pinned i (hmem i hi)
  · exact fun w hw => h.tokens w (hmem _ hw)
  · rw [prompt]
    exact fun w hw => h.spans w (hmem _ hw)
  · rw [hfrontier]
    have := h.pending
    omega
  · rw [prompt]
    exact h.prompt_pos
  · intro _ hphase
    obtain ⟨hphase', hcursor, -⟩ := prefill hphase
    obtain ⟨hold, hall⟩ := h.prefill active hphase'
    exact ⟨by rw [hcursor, hold, hfrontier], fun i hi => hall i (hmem i hi)⟩
  · intro _ hphase
    obtain ⟨hphase', hcursor, hlt⟩ := prefill hphase
    rw [prompt, hfrontier, ← (h.prefill active hphase').1, ← hcursor]
    exact hlt
  · intro _ hphase
    rw [prompt, hfrontier]
    cases hold : sc.cursor.phase.isPrefill with
    | false => exact (h.filled active hold).trans (Nat.le_add_right ..)
    | true =>
      rw [← (h.prefill active hold).1]
      exact filled hphase hold

/-- A chunk at the front of an active request continues its prefill cursor. -/
theorem chunk_aligned (h : Geometry st sc (.prefill chunk :: rest)) (active : st.status = .active) :
    sc.cursor.prefillCursor = chunk.promptSpan.start ∧ 0 < chunk.promptSpan.length ∧
    chunk.promptSpan.start + chunk.promptSpan.length ≤ st.promptTokens.length := by
  obtain ⟨hpos, hstart, hle⟩ := h.spans chunk List.mem_cons_self
  have hcontext := (h.consecutive active).1
  have hphase : sc.cursor.phase.isPrefill = true := by
    by_contra hphase
    have := h.filled active (by simpa using hphase)
    omega
  exact ⟨by rw [(h.prefill active hphase).1, hstart, hcontext], hpos, hle⟩

end Geometry

/-! ### Failures -/

/-- From the oldest item on, no stale item is met before a failed one. -/
def NoStray : List FlightItem → Prop
  | [] => True
  | f :: rest => (∃ err, f.fate = .failed err) ∨ (f.fate ≠ .stale ∧ NoStray rest)

theorem NoStray.append {items : List FlightItem} (h : NoStray items)
    (hf : f.fate ≠ .stale) : NoStray (items ++ [f]) := by
  induction items with
  | nil => exact .inr ⟨hf, trivial⟩
  | cons _ _ ih =>
    rcases h with h | ⟨hg, hrest⟩
    · exact .inl h
    · exact .inr ⟨hg, ih hrest⟩

/-- An item may change its fate to anything but stale, and also to stale behind a failed
item. -/
theorem NoStray.refate {before after : List FlightItem} {f' : FlightItem}
    (h : NoStray (before ++ f :: after)) (hf : ∀ err, f.fate ≠ .failed err)
    (hf' : f'.fate = .stale → ∃ g ∈ before, ∃ err, g.fate = .failed err) :
    NoStray (before ++ f' :: after) := by
  induction before with
  | nil =>
    rcases h with ⟨err, h⟩ | ⟨-, hafter⟩
    · exact absurd h (hf err)
    · exact .inr ⟨fun hs => by simpa using hf' hs, hafter⟩
  | cons g _ ih =>
    by_cases hfailed : ∃ err, g.fate = .failed err
    · exact .inl hfailed
    · obtain ⟨hg, hrest⟩ := h.resolve_left hfailed
      refine .inr ⟨hg, ih hrest fun hs => ?_⟩
      obtain ⟨g', hg', herr⟩ := hf' hs
      rcases List.mem_cons.mp hg' with rfl | hg'
      · exact absurd herr hfailed
      · exact ⟨g', hg', herr⟩

/-- Items are processed in order, failures come before their consequences, and what was processed
fits its table. -/
structure Fates (blockSize : Nat) (st : RequestState) (items : List FlightItem) (failed : Bool) :
    Prop where
  fifo : items.Pairwise fun f g => f.fate = .pending → g.fate = .pending
  marked : st.status = .active → failed = true → ∃ f ∈ items, ∃ err, f.fate = .failed err
  stale : st.status = .active → NoStray items
  fits : ∀ f ∈ items, ∀ token, f.fate = .done token → f.item.Fits blockSize

namespace Fates

variable {blockSize : Nat} {st st' : RequestState} {items rest before after : List FlightItem}
  {failed : Bool}

theorem nil : Fates blockSize st [] false :=
  ⟨.nil, fun _ => nofun, fun _ => trivial, fun _ hf => (List.not_mem_nil hf).elim⟩

theorem of_request (h : Fates blockSize st items failed)
    (status : st'.status = .active → st.status = .active) : Fates blockSize st' items failed :=
  ⟨h.fifo, fun ha => h.marked (status ha), fun ha => h.stale (status ha), h.fits⟩

/-- A new item is pending. -/
theorem dispatched (h : Fates blockSize st items failed) (item : WorkItem)
    (sampling : SamplingParams) :
    Fates blockSize st (items ++ [⟨item, sampling, .pending⟩]) failed where
  fifo := List.pairwise_append.mpr ⟨h.fifo, List.pairwise_singleton ..,
    fun f _ g hg _ => by rw [List.mem_singleton.mp hg]⟩
  marked ha hfailed :=
    let ⟨f, hf, herr⟩ := h.marked ha hfailed
    ⟨f, List.mem_append_left _ hf, herr⟩
  stale ha := (h.stale ha).append (by simp)
  fits f hf token hdone := by
    rcases List.mem_append.mp hf with hf | hf
    · exact h.fits f hf token hdone
    · rw [List.mem_singleton.mp hf] at hdone
      cases hdone

theorem discarded (h : Fates blockSize st (before ++ f :: after) failed)
    (inactive : st.status ≠ .active) :
    Fates blockSize st (before ++ after) failed :=
  have hsub := (List.sublist_cons_self f after).append_left before
  ⟨h.fifo.sublist hsub, fun ha => absurd ha inactive, fun ha => absurd ha inactive,
    fun f hf => h.fits f (hsub.subset hf)⟩

/-- The oldest item is retired. -/
theorem advanced (h : Fates blockSize st (f :: rest) failed) (active : st.status = .active)
    {token : Token} (done : f.fate = .done token) : Fates blockSize st' rest failed := by
  refine ⟨h.fifo.of_cons, fun _ hfailed => ?_, fun _ => ?_,
    fun g hg => h.fits g (List.mem_cons_of_mem _ hg)⟩
  · obtain ⟨g, hg, err, herr⟩ := h.marked active hfailed
    rcases List.mem_cons.mp hg with rfl | hg
    · rw [done] at herr; cases herr
    · exact ⟨g, hg, err, herr⟩
  · rcases h.stale active with ⟨_, herr⟩ | ⟨-, hrest⟩
    · rw [done] at herr; cases herr
    · exact hrest

/-- The oldest item of an active request is not stale. -/
theorem front_not_stale (h : Fates blockSize st (f :: rest) failed) (active : st.status = .active) :
    f.fate ≠ .stale := by
  rcases h.stale active with ⟨_, herr⟩ | ⟨hf, -⟩
  · rw [herr]; exact nofun
  · exact hf

/-- The oldest pending item gets its fate. -/
theorem refated {fate : Fate} {failed' : Bool}
    (h : Fates blockSize st (before ++ f :: after) failed)
    (pending : f.fate = .pending) (oldest : ∀ g ∈ before, g.fate ≠ .pending)
    (marked : failed' = true → failed = true ∨ ∃ err, fate = .failed err)
    (stale : fate = .stale → failed = true)
    (fits : ∀ token, fate = .done token → f.item.Fits blockSize) :
    Fates blockSize st (before ++ { f with fate := fate } :: after) failed' := by
  obtain ⟨hbefore, hcons, -⟩ := List.pairwise_append.mp h.fifo
  obtain ⟨hafter, hrest⟩ := List.pairwise_cons.mp hcons
  -- A failed item of the list is older than the oldest pending one, so it keeps its fate.
  have hkeep : ∀ g ∈ before ++ f :: after, ∀ err, g.fate = .failed err → g ∈ before := by
    intro g hg err herr
    rcases List.mem_append.mp hg with hg | hg
    · exact hg
    · rcases List.mem_cons.mp hg with rfl | hg
      · rw [pending] at herr; cases herr
      · rw [hafter g hg pending] at herr; cases herr
  have hold : st.status = .active → failed = true → ∃ g ∈ before, ∃ err, g.fate = .failed err := by
    intro ha hfailed
    obtain ⟨g, hg, err, herr⟩ := h.marked ha hfailed
    exact ⟨g, hkeep g hg err herr, err, herr⟩
  refine ⟨?_, fun ha hfailed => ?_, fun ha => ?_, fun g hg token hdone => ?_⟩
  · refine List.pairwise_append.mpr ⟨hbefore, List.pairwise_cons.mpr ⟨?_, hrest⟩, ?_⟩
    · exact fun g hg _ => hafter g hg pending
    · exact fun g hg _ _ hpending => absurd hpending (oldest g hg)
  · rcases marked hfailed with hfailed | ⟨err, herr⟩
    · obtain ⟨g, hg, herr⟩ := hold ha hfailed
      exact ⟨g, List.mem_append_left _ hg, herr⟩
    · exact ⟨{ f with fate := fate }, by simp, err, herr⟩
  · refine (h.stale ha).refate (fun err => by rw [pending]; exact nofun) fun hs => ?_
    exact hold ha (stale hs)
  · exact forall_mem_refated h.fits fits g hg token hdone

end Fates

/-! ### Views -/

/-- The bookkeeping of a view. -/
structure View.Kept (blockSize : Nat) (v : View) : Prop where
  geometry : ∀ sc, v.req.scheduling = some sc →
    Geometry v.req sc (v.items.map (·.item))
  fates : Fates blockSize v.req v.items v.failed

namespace View.Kept

variable {p : RequestPtr} {maxBlocks blockSize : Nat} {sampler : List Token → Token → Prop}
  {params : SamplingParams → Prop} {v v' : View}
variable {st : RequestState} {advanced : SequenceSchedulingState} {item : WorkItem}
  {written : List Token}

/-- A result is ignored only for a request that is no longer active. -/
theorem discarded_inactive (h : v.Kept blockSize) {before after : List FlightItem}
    {f : FlightItem} (split : v.items = before ++ f :: after)
    (ignored : v.req.status ≠ .active ∨ (before = [] ∧ f.fate = .stale)) :
    v.req.status ≠ .active := by
  rcases ignored with hinactive | ⟨rfl, hstale⟩
  · exact hinactive
  · have hfates := h.fates
    rw [split] at hfates
    exact fun active => hfates.front_not_stale active hstale

/-- A new request. -/
theorem init (blockSize : Nat) (log : List Obs) (unscheduled : st.scheduling = none) :
    Kept blockSize ⟨st, [], [], none, false, log⟩ where
  geometry sc hsc := by simp [unscheduled] at hsc
  fates := .nil

/-- The written tokens of a retired item are no more than its positions. -/
theorem written_le {sc : SequenceSchedulingState} {items : List WorkItem} {head : List Obs}
    (h : Geometry st sc (item :: items))
    (settles : Settles p st sc item advanced written head) (pos : 0 < item.kvTokenCount) :
    written.length ≤ item.kvTokenCount := by
  cases settles with
  | last chunk => exact (h.tokens chunk List.mem_cons_self).le
  | decode =>
    have : st.generatedTokens.getLast?.toList.length ≤ 1 := by
      cases st.generatedTokens.getLast? <;> simp
    omega

/-- Publication leaves no more pending tokens than were there and are written. -/
theorem pending_le {published : SequenceSchedulingState}
    (publish : Published blockSize item written advanced published)
    (hwritten : 0 < item.kvTokenCount → written.length ≤ item.kvTokenCount) :
    published.pendingHashTokens.length ≤ advanced.pendingHashTokens.length + item.kvTokenCount := by
  rcases Nat.eq_zero_or_pos item.kvTokenCount with hzero | hpos
  · rw [publish.idle hzero]; omega
  · obtain ⟨_, -, hpending⟩ := publish.pending hpos
    have := hwritten hpos
    rw [hpending, List.length_drop, List.length_append]
    omega

/-- Every transaction of a request keeps its books. -/
theorem step (h : Kept blockSize v)
    (t : View.Step p maxBlocks blockSize sampler params v v') : Kept blockSize v' := by
  cases t with
  | expire => exact ⟨fun sc hsc => (h.geometry sc hsc).of_request rfl id, h.fates.of_request id⟩
  | cancel | fail =>
    exact ⟨fun sc hsc => (h.geometry sc hsc).of_request rfl nofun, h.fates.of_request nofun⟩
  | finish sc =>
    exact ⟨fun sc hsc => (h.geometry sc hsc).of_request rfl nofun, h.fates.of_request nofun⟩
  | grow sc blocks scheduled =>
    refine ⟨fun sc' hsc' => ?_, h.fates.of_request id⟩
    cases hsc'
    exact ((h.geometry sc scheduled).grown blocks).of_request rfl id
  | dispatch sc item sampling scheduled active itemFor =>
    refine ⟨fun sc' hsc' => ?_, (h.fates.dispatched item sampling).of_request id⟩
    cases hsc'
    rw [List.map_append]
    exact ((h.geometry sc scheduled).dispatched active itemFor).of_request rfl id
  | admission seq _ _ _ admissible =>
    refine ⟨fun sc' hsc' => ?_, .nil⟩
    cases hsc'
    exact (Geometry.admitted admissible.prompt_pos seq).of_request rfl id
  | park | drop => exact init blockSize _ rfl
  | discard _ _ _ sc split scheduled ignored =>
    have hinactive := h.discarded_inactive split ignored
    have hgeo := h.geometry sc scheduled
    have hfates := h.fates
    rw [split] at hgeo hfates
    rw [List.map_append, List.map_cons] at hgeo
    refine ⟨fun sc' hsc' => ?_, (hfates.discarded hinactive).of_request id⟩
    cases hsc'
    rw [List.map_append]
    exact (hgeo.discarded hinactive).of_request rfl id
  | retireChunk _ chunk _ _ sc front scheduled active more =>
    have hgeo := h.geometry sc scheduled
    have hfates := h.fates
    rw [front] at hgeo hfates
    refine ⟨fun sc' hsc' => ?_, hfates.advanced active rfl⟩
    cases hsc'
    have hsame : (sc.advanceChunk chunk v.req.promptTokens.length).cursor.phase =
        sc.cursor.phase := by
      simp [SequenceSchedulingState.advanceChunk, Nat.not_le.mpr more]
    refine hgeo.advanced active rfl rfl rfl rfl (Nat.le_add_right ..)
      (fun hphase => ⟨?_, rfl, more⟩)
      fun hphase hold => ?_
    · rwa [hsame] at hphase
    · rw [hsame, hold] at hphase
      cases hphase
  | retire _ item _ _ sc _ _ _ _ front scheduled active settles publish =>
    have hgeo := h.geometry sc scheduled
    have hfates := h.fates
    rw [front] at hgeo hfates
    obtain ⟨-, htable, hres, hfrontier, hpend, -, -⟩ := settles.advanced
    refine ⟨fun sc' hsc' => ?_, hfates.advanced active rfl⟩
    cases hsc'
    refine hgeo.advanced active rfl ?_ ?_ ?_ ?_ (fun hphase => ?_) fun _ hold => ?_
    · simp [publish.plan.reservation, hres]
    · simp [publish.plan.blockTable, htable]
    · simp [publish.plan.executedFrontier, hfrontier]
    · simpa [hpend] using pending_le publish (written_le hgeo settles)
    · -- A settled item leaves no prefill phase behind.
      exfalso
      cases settles with
      | last _ final =>
        simp [SequenceSchedulingState.leaveBootstrap, publish.plan.cursor,
          SequenceSchedulingState.advanceChunk, final, GenerationPhase.isPrefill] at hphase
      | decode work =>
        have hsame : sc.cursor.phase.isPrefill = true := by
          unfold SequenceSchedulingState.leaveBootstrap at hphase
          split at hphase
          · simp [GenerationPhase.isPrefill] at hphase
          · rw [publish.plan.cursor] at hphase
            exact hphase
        obtain ⟨_, hw⟩ := (hgeo.prefill active hsame).2 (.decode work) List.mem_cons_self
        cases hw
    · cases settles with
      | last _ final => exact final
      | decode work =>
        obtain ⟨_, hw⟩ := (hgeo.prefill active hold).2 (.decode work) List.mem_cons_self
        cases hw
  | process _ _ _ _ split oldest pending _ fits =>
    have hfates := h.fates
    rw [split] at hfates
    refine ⟨fun sc hsc => ?_, hfates.refated pending oldest (fun hf => .inl hf) nofun
      fun _ _ => fits⟩
    simpa [split] using h.geometry sc hsc
  | skipStale _ _ _ split oldest pending failed =>
    have hfates := h.fates
    rw [split] at hfates
    refine ⟨fun sc hsc => ?_, hfates.refated pending oldest (fun hf => .inl hf) (fun _ => failed)
      nofun⟩
    simpa [split] using h.geometry sc hsc
  | processFail _ _ _ err _ _ split oldest pending =>
    have hfates := h.fates
    rw [split] at hfates
    refine ⟨fun sc hsc => ?_, hfates.refated pending oldest (fun _ => .inr ⟨err, rfl⟩) nofun
      nofun⟩
    simpa [split] using h.geometry sc hsc

end View.Kept

end CcInfer
