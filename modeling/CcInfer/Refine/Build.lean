import CcInfer.Refine.Queues

/-!
# `CcInfer.Refine.Build`: `schedule_step` is a run of transactions

The items of a batch under construction count as in flight from the moment they are
appended, after the items of the earlier batches. `Worked` describes `build_state_work` for
one request, and `Builds` the functions around it.
-/

set_option autoImplicit false

namespace CcInfer

open BatchBuildContext

/-! ### Batches under construction -/

/-- The items of a batch, as items in flight. -/
def ScheduledBatch.flight (batch : ScheduledBatch) : List FlightItem :=
  batch.items.map (fun item => ⟨item, batch.sampling, .pending⟩)

/-- The items of a batch under construction, as items in flight. -/
def BatchBuildContext.flight (ctx : BatchBuildContext) : List FlightItem := ctx.batch.flight

/-- A batch under construction carries the sampling parameters of a registered request from
its first item on, one item of a sequence at most, and no more tokens than the budget and
the cap on chunks allow. -/
structure ContextOk (s : Scheduler) (ctx : BatchBuildContext) : Prop where
  unset : ctx.samplingSet = false → ctx.batch.items = []
  shared : ctx.samplingSet = true →
    ∃ q, q < s.nextPtr ∧ ctx.batch.sampling = (s.heap q).sampling
  nodup : (ctx.batch.items.map WorkItem.seqId).Nodup
  budget : (ctx.batch.items.map WorkItem.tokenCount).sum + ctx.tokenBudget =
    s.config.maxTokenBudget
  chunks : 0 < s.config.maxSeqPrefillTokens →
    ∀ i ∈ ctx.batch.items, i.promptTokenCount ≤ s.config.maxSeqPrefillTokens

/-- The choice of the sampling parameters reads nothing else of the request. -/
theorem BatchBuildContext.selectSampling_congr (ctx : BatchBuildContext) {st st' : RequestState}
    (h : st.sampling = st'.sampling) : ctx.selectSampling st = ctx.selectSampling st' := by
  unfold selectSampling
  rw [h]

namespace ContextOk

variable {s s' : Scheduler} {ctx : BatchBuildContext} {fl fl' : List FlightItem} {k : Worker}

/-- Transactions keep the context. -/
theorem of_run (h : ContextOk s ctx) (run : World.Run (World.of s fl k) (World.of s' fl' k)) :
    ContextOk s' ctx where
  unset := h.unset
  nodup := h.nodup
  budget := by
    rw [show s'.config = s.config from run.config_eq]
    exact h.budget
  chunks := by
    rw [show s'.config = s.config from run.config_eq]
    exact h.chunks
  shared hset := by
    obtain ⟨q, hq, heq⟩ := h.shared hset
    obtain ⟨hlt, hsame⟩ := run.sampling_eq (q := q) hq
    exact ⟨q, hlt, heq.trans hsame.symm⟩

/-- Choosing the sampling parameters keeps the items: without parameters there are none. -/
theorem flight_select (h : ContextOk s ctx) (state : RequestState) :
    (ctx.selectSampling state).flight = ctx.flight := by
  unfold selectSampling
  split
  · rfl
  · rename_i hset
    simp [flight, ScheduledBatch.flight, h.unset (by simpa using hset)]

theorem select (h : ContextOk s ctx) {p : RequestPtr} (hp : p < s.nextPtr) :
    ContextOk s (ctx.selectSampling (s.heap p)) ∧
    (ctx.selectSampling (s.heap p)).samplingSet = true ∧
    (ctx.selectSampling (s.heap p)).batch.items = ctx.batch.items ∧
    (ctx.selectSampling (s.heap p)).tokenBudget = ctx.tokenBudget := by
  unfold selectSampling
  split
  · rename_i hset
    exact ⟨h, hset, rfl, rfl⟩
  · exact ⟨⟨nofun, fun _ => ⟨p, hp, rfl⟩, h.nodup, h.budget, h.chunks⟩, rfl, rfl, rfl⟩

end ContextOk

/-! ### `build_state_work` -/

/-- No item of the batch under construction is of the sequence of `p`. -/
def BatchBuildContext.Fresh (ctx : BatchBuildContext) (s : Scheduler) (p : RequestPtr) : Prop :=
  ∀ sc, (s.heap p).scheduling = some sc → sc.seqId ∉ ctx.batch.items.map WorkItem.seqId

/-- What a call of `build_state_work` for `p` does: it leads from `s` and `ctx` to `s'` and
`ctx'` by transactions of `p` and adds an item of `p` at most. -/
structure Worked (k : Worker) (base : List FlightItem) (p : RequestPtr) (s : Scheduler)
    (ctx : BatchBuildContext) (s' : Scheduler) (ctx' : BatchBuildContext) : Prop where
  run : World.Run (World.of s (base ++ ctx.flight) k) (World.of s' (base ++ ctx'.flight) k)
  ok : ContextOk s' ctx'
  running : s'.running = s.running
  heap : ∀ q, q ≠ p → s'.heap q = s.heap q
  items : ∀ i ∈ ctx'.batch.items, i ∈ ctx.batch.items ∨
    ∃ sc, (s.heap p).scheduling = some sc ∧ i.seqId = sc.seqId

namespace Worked

variable {k : Worker} {base : List FlightItem} {p : RequestPtr} {s : Scheduler}
  {ctx : BatchBuildContext} {sc : SequenceSchedulingState}

theorem refl (hctx : ContextOk s ctx) : Worked k base p s ctx s ctx where
  run := .refl
  ok := hctx
  running := rfl
  heap _ _ := rfl
  items _ hi := .inl hi

/-- A transaction of `p` that adds no item. -/
theorem single (hctx : ContextOk s ctx) {s' : Scheduler}
    (step : World.Step (World.of s (base ++ ctx.flight) k) (World.of s' (base ++ ctx.flight) k))
    (running : s'.running = s.running) (heap : ∀ q, q ≠ p → s'.heap q = s.heap q) :
    Worked k base p s ctx s' ctx where
  run := .single step
  ok := hctx.of_run (.single step)
  running := running
  heap := heap
  items _ hi := .inl hi

/-- Work after a transaction that keeps the sequence of `p` and adds no item. -/
theorem after {s₁ s₂ : Scheduler} {ctx₂ : BatchBuildContext} (h₁ : Worked k base p s ctx s₁ ctx)
    (seq : (s₁.heap p).scheduling.map (·.seqId) = (s.heap p).scheduling.map (·.seqId))
    (h₂ : Worked k base p s₁ ctx s₂ ctx₂) : Worked k base p s ctx s₂ ctx₂ where
  run := h₁.run.trans h₂.run
  ok := h₂.ok
  running := h₂.running.trans h₁.running
  heap q hq := (h₂.heap q hq).trans (h₁.heap q hq)
  items i hi := by
    refine (h₂.items i hi).imp_right ?_
    rintro ⟨_, hsc', heq⟩
    rw [hsc'] at seq
    obtain ⟨sc, hsc, hseq⟩ := Option.map_eq_some_iff.mp seq.symm
    exact ⟨sc, hsc, heq.trans hseq.symm⟩

/-- `send_terminal_event` from `build_state_work`. -/
theorem finish (hctx : ContextOk s ctx) (hp : p ∈ s.running)
    (hsc : (s.heap p).scheduling = some sc) (active : (s.heap p).status = .active)
    (reason : (s.heap p).FinishReason sc) : Worked k base p s ctx (s.sendTerminalEvent p) ctx := by
  refine single hctx ?_ rfl (fun q hq => Function.update_of_ne hq ..)
  rw [World.of_sendTerminalEvent]
  exact .finish _ p sc hp hsc active reason

section

variable (h : Core (World.of s (base ++ ctx.flight) k)) (hctx : ContextOk s ctx)
  (hfresh : ctx.Fresh s p) (hp : p ∈ s.running) (hsc : (s.heap p).scheduling = some sc)
  (active : (s.heap p).status = .active)

include h hctx hp

/-- The request adds nothing, but it may have chosen the sampling parameters. -/
theorem selected : Worked k base p s ctx s (ctx.selectSampling (s.heap p)) where
  run := by rw [hctx.flight_select]
  ok := (hctx.select (h.positions.allocated p (.inr (.inr hp)))).1
  running := rfl
  heap _ _ := rfl
  items i hi := by
    unfold selectSampling at hi
    split at hi <;> exact .inl hi

include hsc active hfresh

/-- The request adds an item. -/
theorem addItem {item : WorkItem} (itemFor : ItemFor (s.heap p) sc s.kv.pool.blockSize item)
    (paid : item.tokenCount ≤ ctx.tokenBudget) (capped : 0 < s.config.maxSeqPrefillTokens →
      item.promptTokenCount ≤ s.config.maxSeqPrefillTokens) :
    Worked k base p s ctx (s.addItem (ctx.selectSampling (s.heap p)) p sc item).1
      (s.addItem (ctx.selectSampling (s.heap p)) p sc item).2 := by
  obtain ⟨hok, hset, hitems, _⟩ := hctx.select (h.positions.allocated p (.inr (.inr hp)))
  obtain ⟨q, hq, hsampling⟩ := hok.shared hset
  have hflight := hctx.flight_select (s.heap p)
  generalize ctx.selectSampling (s.heap p) = ctx₁ at *
  have hrun : World.Run (World.of s (base ++ ctx.flight) k)
      (World.of (s.addItem ctx₁ p sc item).1 (base ++ (s.addItem ctx₁ p sc item).2.flight) k) := by
    have heq : base ++ (s.addItem ctx₁ p sc item).2.flight =
        (base ++ ctx.flight) ++ [⟨item, ctx₁.batch.sampling, .pending⟩] := by
      rw [← hflight]
      simp [Scheduler.addItem, push, flight,
        ScheduledBatch.flight]
    rw [heq]
    exact .single (.dispatch _ p sc item ctx₁.batch.sampling hp hsc active itemFor
      ⟨q, hq, hsampling⟩)
  have hseq : item.seqId = sc.seqId := itemFor.seqId_eq
  refine ⟨hrun, ⟨fun hunset => absurd (hset.symm.trans hunset) nofun, (hok.of_run hrun).shared, ?_,
    ?_, fun hcap i hi => ?_⟩, rfl, fun q hq => Function.update_of_ne hq .., fun i hi => ?_⟩
  · simp only [Scheduler.addItem, push, hitems, List.map_append, List.map_cons,
      List.map_nil, hseq]
    exact List.nodup_append.mpr ⟨hctx.nodup, List.nodup_singleton _, fun a ha b hb => by
      rw [List.mem_singleton.mp hb]
      rintro rfl
      exact hfresh sc hsc ha⟩
  · have hbudget := hok.budget
    simp only [Scheduler.addItem, push, List.map_append, List.sum_append,
      List.map_cons, List.map_nil, List.sum_cons, List.sum_nil]
    show _ = s.config.maxTokenBudget
    omega
  · simp only [Scheduler.addItem, push, List.mem_append,
      List.mem_singleton] at hi
    rcases hi with hi | rfl
    · exact hok.chunks hcap i hi
    · exact capped hcap
  · simp only [Scheduler.addItem, push, hitems, List.mem_append,
      List.mem_singleton] at hi
    rcases hi with hi | rfl
    · exact .inl hi
    · exact .inr ⟨sc, hsc, hseq⟩

/-- The prefill half of `build_state_work`. -/
theorem buildPrefillWork (phase : sc.cursor.phase.isPrefill = true) :
    Worked k base p s ctx (s.buildPrefillWork ctx p sc).1 (s.buildPrefillWork ctx p sc).2 := by
  unfold Scheduler.buildPrefillWork
  simp only
  split
  · exact refl hctx
  · generalize hrest : (s.heap p).promptTokens.length -
      (sc.cursor.prefillCursor + sc.reservation.reservedPromptTokens) = rest
    obtain ⟨len, hlen, hrestLe, hbudgetLe, hcapLe⟩ : ∃ len,
        min (if 0 < s.config.maxSeqPrefillTokens then min rest s.config.maxSeqPrefillTokens
          else rest) ctx.tokenBudget = len ∧ len ≤ rest ∧ len ≤ ctx.tokenBudget ∧
        (0 < s.config.maxSeqPrefillTokens → len ≤ s.config.maxSeqPrefillTokens) := by
      refine ⟨_, rfl, (Nat.min_le_left ..).trans ?_, Nat.min_le_right .., fun hcap => ?_⟩
      · split <;> omega
      · rw [if_pos hcap]
        omega
    rw [hlen]
    split
    · exact refl hctx
    · exact addItem h hctx hfresh hp hsc active (.chunk _ _ phase rfl (by omega) (by omega))
        hbudgetLe hcapLe

/-- The end of the decode half of `build_state_work`. -/
theorem dispatchDecode (hbudget : 0 < ctx.tokenBudget) (phase : sc.cursor.phase.isPrefill = false)
    {inputToken : Token} {writeKv lateBind : Bool} (itemFor : ∀ table : BlockTable,
      Scheduler.blockCount (sc.executedFrontier + sc.reservation.reservedKvTokens +
        (if writeKv then 1 else 0)) s.kv.pool.blockSize ≤ table.length →
      ItemFor { s.heap p with scheduling := some { sc with blockTable := table } }
        { sc with blockTable := table } s.kv.pool.blockSize (.decode
          { seqId := sc.seqId
            inputToken := inputToken
            expectedContextLen := some (sc.executedFrontier + sc.reservation.reservedKvTokens)
            writeKv := writeKv
            lateBind := lateBind
            blockTable := table })) :
    Worked k base p s ctx
      (s.dispatchDecode (ctx.selectSampling (s.heap p)) p sc inputToken writeKv lateBind).1
      (s.dispatchDecode (ctx.selectSampling (s.heap p)) p sc inputToken writeKv lateBind).2 := by
  unfold Scheduler.dispatchDecode
  simp only
  generalize Scheduler.blockCount _ s.kv.pool.blockSize = required at itemFor ⊢
  split
  · rename_i hneed
    generalize hn : (required - sc.blockTable.length).toNat = n
    have hinv : s.kv.Inv := h.ownership.inv
    simp only [Scheduler.allocateKvBlocks, Scheduler.log]
    rcases KvBlocks.allocateKvBlocks_spec hinv n with
      ⟨hle, blocks, kv', heq, hlen, hmoves, huncached⟩ | ⟨hlt, leak, kv', heq, hleak, hmoves⟩
    · rw [heq]
      let sc₁ : SequenceSchedulingState := { sc with blockTable := sc.blockTable ++ blocks }
      let s₁ : Scheduler :=
        { s with
          kv := kv'
          trace := s.trace ++ [.allocate n (s.kv.pool.numFreeBlocks + s.kv.cache.idleLru.length)]
          heap := Function.update s.heap p { s.heap p with scheduling := some sc₁ } }
      have hself : s₁.heap p = { s.heap p with scheduling := some sc₁ } := Function.update_self ..
      have hgrown : Worked k base p s ctx s₁ ctx :=
        single hctx (.grow _ p sc kv' _ blocks hp hsc active phase hmoves huncached
          (.call n _ [] (by rw [if_neg (Nat.not_lt.mpr hle)]; rfl))) rfl
          fun q hq => Function.update_of_ne hq ..
      have hadd := addItem (s := s₁) (h.run hgrown.run) hgrown.ok
        (fun sc' hsc' => by
          rw [hself] at hsc'
          cases hsc'
          exact hfresh sc hsc) hp (by rw [hself]) (by rw [hself]; exact active)
        (by
          rw [hself, show s₁.kv.pool.blockSize = _ from hmoves.size.blockSize]
          refine itemFor (sc.blockTable ++ blocks) ?_
          rw [List.length_append]
          omega) (by exact hbudget) fun _ => Nat.zero_le _
      rw [ctx.selectSampling_congr (show _ = (s.heap p).sampling by rw [hself])] at hadd
      exact hgrown.after (by rw [hself, hsc]; rfl) hadd
    · -- The shortage is noted, and the blocks that were there are leaked.
      rw [heq]
      let s₁ : Scheduler :=
        { s with
          kv := kv'
          trace := s.trace ++ [.allocate n (s.kv.pool.numFreeBlocks + s.kv.cache.idleLru.length)]
          blockShortagePending := true }
      have hleaked : Worked k base p s ctx s₁ ctx :=
        single hctx (.blocks _ kv' _ leak hmoves (.call n _ leak (by rw [if_pos hlt, hleak]))) rfl
          fun _ _ => rfl
      exact hleaked.after rfl (selected (s := s₁) (h.run hleaked.run) hleaked.ok hp)
  · rename_i hroom
    have hheap : { s.heap p with scheduling := some sc } = s.heap p := by rw [← hsc]
    refine addItem h hctx hfresh hp hsc active ?_ hbudget fun _ => Nat.zero_le _
    have := itemFor sc.blockTable (not_lt.mp hroom)
    rwa [hheap] at this

/-- The decode half of `build_state_work`. -/
theorem buildDecodeWork (hbudget : 0 < ctx.tokenBudget)
    (phase : sc.cursor.phase.isPrefill = false) :
    Worked k base p s ctx (s.buildDecodeWork ctx p sc).1 (s.buildDecodeWork ctx p sc).2 := by
  have hselected := selected h hctx hp
  unfold Scheduler.buildDecodeWork
  simp only
  split
  · exact hselected
  · rename_i hmax
    split
    · exact hselected
    · rename_i hbootstrap
      -- The assertion about the prompt leaves its mark in the log of assertions only.
      obtain ⟨asserts, hs, hfilter⟩ : ∃ asserts,
          (if (sc.cursor.phase == .bootstrap) = true then
            s.assert (!(s.heap p).promptTokens.isEmpty) .bootstrapPrompt else s) =
            { s with failedAsserts := asserts } ∧
          asserts.filter AssertSite.tracked = s.failedAsserts.filter AssertSite.tracked := by
        split
        · exact s.assert_eq _ rfl
        · exact ⟨_, rfl, rfl⟩
      rw [hs]
      have hsame : World.of { s with failedAsserts := asserts } (base ++ ctx.flight) k =
          World.of s (base ++ ctx.flight) k := by
        simp [World.of, hfilter]
      let s₁ : Scheduler := { s with failedAsserts := asserts }
      have hctx₁ : ContextOk s₁ ctx :=
        ⟨hctx.unset, hctx.shared, hctx.nodup, hctx.budget, hctx.chunks⟩
      have hassert : Worked k base p s ctx s₁ ctx :=
        ⟨by rw [hsame], hctx₁, rfl, fun _ _ => rfl, fun _ hi => .inl hi⟩
      have h₁ := h.run hassert.run
      refine hassert.after rfl ?_
      simp only [Scheduler.generatedTokenCount] at hmax
      split
      · rename_i hcontext
        simp only [Scheduler.generatedTokenCount] at hcontext
        split
        · rename_i hreserved
          have hself : (s₁.sendTerminalEvent p).heap p = { s.heap p with status := .finished } :=
            Function.update_self ..
          have hfinish : Worked k base p s₁ ctx (s₁.sendTerminalEvent p) ctx :=
            finish hctx₁ hp hsc active (.inr ⟨phase, hreserved, by
              simp only [hreserved] at hcontext
              simpa using hcontext⟩)
          have hselect := selected (s := s₁.sendTerminalEvent p) (h₁.run hfinish.run) hfinish.ok hp
          rw [ctx.selectSampling_congr (show _ = (s.heap p).sampling by rw [hself])] at hselect
          exact hfinish.after (by rw [hself]) hselect
        · exact selected (s := s₁) h₁ hctx₁ hp
      · rename_i hcontext
        simp only [Scheduler.generatedTokenCount] at hcontext
        split
        · rename_i hphase
          have hreserved : sc.reservation.reservedGenerationTokens = 0 := by
            simp only [hphase, Bool.true_and, decide_eq_true_eq] at hbootstrap
            omega
          simp only [hreserved] at hmax hcontext
          exact dispatchDecode (s := s₁) h₁ hctx₁ hfresh hp hsc active hbudget phase fun table _ =>
            .bootstrap (beq_iff_eq.mp hphase) hreserved (by simpa using hmax)
              (by simpa using hcontext)
        · rename_i hphase
          have hdecode : sc.cursor.phase = .decode := by
            revert phase hphase
            cases sc.cursor.phase <;> simp [GenerationPhase.isPrefill]
          exact dispatchDecode (s := s₁) h₁ hctx₁ hfresh hp hsc active hbudget phase
            fun table hblocks =>
              .decode hdecode (by simpa using hmax) (by simpa using hcontext)
                (by simpa using hblocks)

end

/-- `build_state_work` for a running request. -/
theorem buildStateWork (h : Core (World.of s (base ++ ctx.flight) k)) (hctx : ContextOk s ctx)
    (hfresh : ctx.Fresh s p) (hp : p ∈ s.running) :
    Worked k base p s ctx (s.buildStateWork ctx p).1 (s.buildStateWork ctx p).2 := by
  unfold Scheduler.buildStateWork
  rcases hsc : (s.heap p).scheduling with _ | sc
  · exact refl hctx
  · simp only
    split
    · exact refl hctx
    · rename_i htest
      simp only [Scheduler.isSchedulableState, not_or, Bool.not_eq_true, Bool.not_eq_false',
        Bool.and_eq_true, beq_iff_eq] at htest
      have active : (s.heap p).status = .active := htest.2.1
      split
      · rename_i hmax
        exact finish hctx hp hsc active (.inl hmax)
      · split
        · rename_i hphase
          exact buildPrefillWork h hctx hfresh hp hsc active hphase
        · rename_i hphase
          exact buildDecodeWork h hctx hfresh hp hsc active (Nat.pos_of_ne_zero htest.1)
            (by simpa using hphase)

end Worked

/-! ### Batches -/

namespace Scheduler

variable {s s' s'' : Scheduler}

/-- From `s` to `s'` requests only leave `skip_`, those that stay are not touched, and the flags
are loaded at most. -/
structure Fewer (s s' : Scheduler) : Prop where
  flags : s.flags.Loads s'.flags
  skip : ∀ p ∈ s'.skip, p ∈ s.skip
  same : ∀ p ∈ s'.skip, (s'.heap p).status = (s.heap p).status ∧
    (s'.heap p).generatedTokens = (s.heap p).generatedTokens ∧
    (s'.heap p).sampling = (s.heap p).sampling

namespace Fewer

theorem refl (s : Scheduler) : Fewer s s := ⟨.refl _, fun _ => id, fun _ _ => ⟨rfl, rfl, rfl⟩⟩

theorem trans (h : Fewer s s') (h' : Fewer s' s'') : Fewer s s'' where
  flags := h.flags.trans h'.flags
  skip p hp := h.skip p (h'.skip p hp)
  same p hp := by
    obtain ⟨h1, h2, h3⟩ := h.same p (h'.skip p hp)
    obtain ⟨h1', h2', h3'⟩ := h'.same p hp
    exact ⟨h1'.trans h1, h2'.trans h2, h3'.trans h3⟩

/-- One request object is rewritten and keeps its status, its tokens and its parameters. -/
theorem updated {p : RequestPtr} {st : RequestState} (flags : s'.flags = s.flags)
    (skip : ∀ q ∈ s'.skip, q ∈ s.skip) (heap : s'.heap = Function.update s.heap p st)
    (status : st.status = (s.heap p).status)
    (generated : st.generatedTokens = (s.heap p).generatedTokens)
    (sampling : st.sampling = (s.heap p).sampling) : Fewer s s' := by
  refine ⟨.of_eq flags, skip, fun q _ => ?_⟩
  rcases eq_or_ne q p with rfl | hne
  · rw [heap, Function.update_self]
    exact ⟨status, generated, sampling⟩
  · rw [heap, Function.update_of_ne hne]
    exact ⟨rfl, rfl, rfl⟩

end Fewer

/-- What `schedule_step` finds: the flags of a working loop, and in `skip_` active requests
below their `max_tokens`. -/
structure Tidy (s : Scheduler) : Prop where
  flags : s.flags.Lawful .working
  skip : ∀ p ∈ s.skip, (s.heap p).status = .active ∧
    ((s.heap p).generatedTokens.length : Int) < (s.heap p).sampling.maxTokens

theorem Tidy.fewer (h : s.Tidy) (hf : s.Fewer s') : s'.Tidy where
  flags := h.flags.loads hf.flags
  skip p hp := by
    obtain ⟨hstatus, hgenerated, hsampling⟩ := hf.same p hp
    rw [hstatus, hgenerated, hsampling]
    exact h.skip p (hf.skip p hp)

end Scheduler

/-- A part of `schedule_step` leads from `s` and `ctx` to `s'` and `ctx'` by transactions. Where
`run` calls it `c` is false; from any other state it may drop requests of `skip_` without a
release, as if a shutdown were under way. -/
structure Builds (c : Bool) (k : Worker) (base : List FlightItem) (s : Scheduler)
    (ctx : BatchBuildContext) (s' : Scheduler) (ctx' : BatchBuildContext) : Prop where
  run : World.Run ((World.of s (base ++ ctx.flight) k).shutIf c)
    ((World.of s' (base ++ ctx'.flight) k).shutIf c)
  ok : ContextOk s' ctx'
  fewer : c = false → s.Fewer s'

namespace Builds

variable {c : Bool} {k : Worker} {base : List FlightItem} {p : RequestPtr} {s s₁ s₂ : Scheduler}
  {ctx ctx₁ ctx₂ : BatchBuildContext}

theorem refl (hctx : ContextOk s ctx) : Builds c k base s ctx s ctx :=
  ⟨.refl, hctx, fun _ => .refl s⟩

theorem trans (h : Builds c k base s ctx s₁ ctx₁) (h' : Builds c k base s₁ ctx₁ s₂ ctx₂) :
    Builds c k base s ctx s₂ ctx₂ :=
  ⟨h.run.trans h'.run, h'.ok, fun hc => (h.fewer hc).trans (h'.fewer hc)⟩

section

variable (h : Core (World.of s (base ++ ctx.flight) k))
include h

/-- Transactions that add no item. -/
theorem of_does (hctx : ContextOk s ctx)
    (does : Does k s (base ++ ctx.flight) s₁ (base ++ ctx.flight)) (fewer : s.Fewer s₁) :
    Builds c k base s ctx s₁ ctx :=
  ⟨World.Run.shutIf c (does h), hctx.of_run (does h), fun _ => fewer⟩

/-- Transactions that may take a shutdown to be under way. -/
theorem of_shut (hctx : ContextOk s ctx)
    (does : Does k { s with shutdownRequested := true } (base ++ ctx.flight)
      { s₁ with shutdownRequested := true } (base ++ ctx.flight)) :
    Builds true k base s ctx s₁ ctx := by
  have hctx' : ContextOk { s with shutdownRequested := true } ctx :=
    ⟨hctx.unset, hctx.shared, hctx.nodup, hctx.budget, hctx.chunks⟩
  have hrun := does (h.of_closing true)
  have hok := hctx'.of_run hrun
  exact ⟨hrun, ⟨hok.unset, hok.shared, hok.nodup, hok.budget, hok.chunks⟩, nofun⟩

/-- `build_state_work` for a running request leaves `skip_` alone. -/
theorem of_worked (hp : p ∈ s.running)
    (worked : Worked k base p s ctx (s.buildStateWork ctx p).1 (s.buildStateWork ctx p).2) :
    Builds c k base s ctx (s.buildStateWork ctx p).1 (s.buildStateWork ctx p).2 := by
  have hcontrol := s.control_buildStateWork p ctx
  have hskip : (s.buildStateWork ctx p).1.skip = s.skip := congrArg Control.skip hcontrol
  refine ⟨worked.run.shutIf c, worked.ok, fun _ => ⟨.of_eq (congrArg Control.flags hcontrol),
    fun q hq => hskip ▸ hq, fun q hq => ?_⟩⟩
  have hne : q ≠ p := by
    rintro rfl
    rw [hskip] at hq
    exact h.positions.not_queued hp (.inr hq)
  rw [worked.heap q hne]
  exact ⟨rfl, rfl, rfl⟩

end

/-- The loop of `build_running_batch` over requests that have added nothing yet. -/
theorem buildRunningLoop (queue : List RequestPtr) : ∀ (s : Scheduler) (ctx : BatchBuildContext),
    Core (World.of s (base ++ ctx.flight) k) → ContextOk s ctx → queue.Nodup →
    (∀ p ∈ queue, p ∈ s.running ∧ ctx.Fresh s p) →
    Builds c k base s ctx (s.buildRunningLoop ctx queue).1 (s.buildRunningLoop ctx queue).2 := by
  induction queue with
  | nil => intro s ctx _ hctx _ _; exact refl hctx
  | cons p _ ih =>
    intro s ctx h hctx hnodup hqueue
    obtain ⟨hp, hrest⟩ := List.nodup_cons.mp hnodup
    unfold Scheduler.buildRunningLoop
    split
    · exact refl hctx
    · obtain ⟨hrunning, hfresh⟩ := hqueue p List.mem_cons_self
      have hworked := Worked.buildStateWork h hctx hfresh hrunning
      have hbuilds := of_worked (c := c) h hrunning hworked
      generalize s.buildStateWork ctx p = r at hworked hbuilds
      refine trans hbuilds (ih r.1 r.2 (h.run hworked.run) hworked.ok hrest ?_)
      intro q hq
      have hne : q ≠ p := fun heq => hp (heq ▸ hq)
      obtain ⟨hrunning', hfresh'⟩ := hqueue q (List.mem_cons_of_mem _ hq)
      refine ⟨by rw [hworked.running]; exact hrunning', fun sc' hsc' hmem => ?_⟩
      rw [hworked.heap q hne] at hsc'
      obtain ⟨i, hi, hseq⟩ := List.mem_map.mp hmem
      rcases hworked.items i hi with hold | ⟨sc, hsc, heq⟩
      · exact hfresh' sc' hsc' (List.mem_map.mpr ⟨i, hold, hseq⟩)
      · exact hne (h.positions.seq_inj q p sc' sc hsc' hsc (hseq.symm.trans heq))

/-- The end of `admit_one_skipped` and of `admit_one_waiting`. -/
theorem buildStateWork (h : Core (World.of s (base ++ ctx.flight) k)) (hctx : ContextOk s ctx)
    (hfresh : ctx.Fresh s p) (hp : p ∈ s.running) :
    Builds c k base s ctx (s.buildStateWork ctx p).1 (s.buildStateWork ctx p).2 :=
  of_worked h hp (Worked.buildStateWork h hctx hfresh hp)

/-- A sequence without items in flight has none in the batch under construction. -/
theorem fresh_of_nil {seq : SequenceId}
    (hnil : (World.of s (base ++ ctx.flight) k).itemsOf seq = []) :
    seq ∉ ctx.batch.items.map WorkItem.seqId := by
  intro hmem
  obtain ⟨i, hi, hseq⟩ := List.mem_map.mp hmem
  have : (⟨i, ctx.batch.sampling, .pending⟩ : FlightItem) ∈
      (World.of s (base ++ ctx.flight) k).itemsOf seq :=
    Flights.mem_itemsOf.mpr
      ⟨List.mem_append_right _ (List.mem_map.mpr ⟨i, hi, rfl⟩), hseq⟩
  rw [hnil] at this
  exact List.not_mem_nil this

end Builds

end CcInfer
