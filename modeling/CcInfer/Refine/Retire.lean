import CcInfer.Refine.Queues

/-!
# `CcInfer.Refine.Retire`: results and failures of a batch are transactions

`retire_work` takes the oldest item in flight out of the flight. A result that is stale, or
that comes after the request stopped being active, is discarded. Any other result advances
the scheduling state, publishes full blocks, and sends the sampled token.
-/

set_option autoImplicit false

namespace CcInfer

open Scheduler

/-! ### Publication -/

/-- `publishLoop` is `publishAll` on the blocks, and logs what it publishes. -/
theorem Scheduler.publishLoop_eq (fl : List FlightItem) (k : Worker) (fuel : Nat) :
    ∀ (s : Scheduler) (sc : SequenceSchedulingState) (index : Nat),
      (s.publishLoop sc index fuel).2 = (s.kv.publishAll sc index fuel).2.1 ∧
      World.of (s.publishLoop sc index fuel).1 fl k =
        { World.of s fl k with
          kv := (s.kv.publishAll sc index fuel).1
          trace := s.trace ++ (s.kv.publishAll sc index fuel).2.2 } := by
  induction fuel with
  | zero =>
    intro s sc index
    simp [publishLoop, KvBlocks.publishAll, World.of]
  | succ _ ih =>
    intro s sc index
    unfold publishLoop KvBlocks.publishAll
    simp only
    split
    · obtain ⟨asserts, hassert, hfilter⟩ :=
        s.assert_eq (decide (index < sc.blockTable.length))
          (show AssertSite.publishIndex.tracked = false from rfl)
      rw [hassert]
      simp only
      generalize s.kv.publishFullBlock sc.parentHash (sc.pendingHashTokens.take s.kv.pool.blockSize)
        (sc.blockTable.getD index 0) = published
      obtain ⟨hash, kv⟩ := published
      obtain ⟨hsc, hworld⟩ := ih
        ({ s with failedAsserts := asserts, kv := kv }.log
          (.published sc.seqId (sc.blockTable.getD index 0) index
            (sc.pendingHashTokens.take s.kv.pool.blockSize)))
        { sc with
          parentHash := hash
          pendingHashTokens := sc.pendingHashTokens.drop s.kv.pool.blockSize } (index + 1)
      refine ⟨hsc, hworld.trans ?_⟩
      simp [World.of, log, hfilter]
    · simp [World.of]

/-- The publication part of `retire_work`. -/
theorem Scheduler.publish_eq (s : Scheduler) (fl : List FlightItem) (k : Worker)
    (sc : SequenceSchedulingState) (item : WorkItem) (written : List Token) :
    (if 0 < item.kvTokenCount then s.publishWritten sc item.context written else (s, sc)).2 =
      (s.kv.publishItem sc item written).2.1 ∧
    World.of (if 0 < item.kvTokenCount then s.publishWritten sc item.context written
        else (s, sc)).1 fl k =
      { World.of s fl k with
        kv := (s.kv.publishItem sc item written).1
        trace := s.trace ++ (s.kv.publishItem sc item written).2.2 } := by
  unfold KvBlocks.publishItem publishWritten
  split
  · exact publishLoop_eq fl k _ s _ _
  · simp [World.of]

/-! ### The tail of `retire_work` -/

/-- The end of `retire_work`, after the publication: append, finish, send. -/
def Scheduler.sendTail (s : Scheduler) (p : RequestPtr) (state : RequestState)
    (sc : SequenceSchedulingState) (finished sampled : Bool) (generated : List Token) : Scheduler :=
  let s := s.setRequest p { state with scheduling := some sc, generatedTokens := generated }
  let s := if finished then s.setStatus p .finished else s
  let s := if sampled then s.sendTokenEvent p else s
  if (s.heap p).status == .finished && !sampled then s.sendTerminalEvent p else s

/-- The end of `retire_work` for the item `f` with sampler output `token`. -/
theorem World.of_sendTail (s : Scheduler) (fl : List FlightItem) (k : Worker) {p : RequestPtr}
    (active : (s.heap p).status = .active) (sc : SequenceSchedulingState) (f : FlightItem)
    (token : Token) :
    World.of (s.sendTail p (s.heap p) sc ((s.heap p).tailFinished f token) f.item.samples
        ((s.heap p).generatedTokens ++ f.emitted token)) fl k =
      { World.of s fl k with
        heap := Function.update s.heap p ((s.heap p).retired sc f token)
        trace := s.trace ++ RequestState.tailObs p (s.heap p) f token } := by
  unfold Scheduler.sendTail RequestState.retired RequestState.tailObs RequestState.tailStatus
    FlightItem.emitted
  cases (s.heap p).tailFinished f token <;> cases f.item.samples <;>
    cases (s.heap p).sinkExpired <;>
    simp [World.of, Scheduler.setRequest, Scheduler.setStatus, Scheduler.sendTokenEvent,
      Scheduler.sendTerminalEvent, Scheduler.sendEvent, Scheduler.log, active]

/-- `retireTail` in terms of `sendTail`. -/
theorem Scheduler.retireTail_eq (s : Scheduler) (p : RequestPtr) (sc : SequenceSchedulingState)
    (f : FlightItem) (token : Token) (index : Nat) :
    s.retireTail p sc f.item (Worker.itemResult f.sampling index f.item token) =
      let published := if 0 < f.item.kvTokenCount then
        s.publishWritten sc f.item.context (writtenTokens (s.heap p) f.item) else (s, sc)
      published.1.sendTail p (s.heap p) (published.2.leaveBootstrap f.item)
        ((s.heap p).tailFinished f token) f.item.samples
        ((s.heap p).generatedTokens ++ f.emitted token) := by
  by_cases hs : f.item.samples = true <;>
    simp [retireTail, sendTail, Worker.itemResult, RequestState.tailFinished, FlightItem.emitted,
      FlightItem.eos, SequenceSchedulingState.leaveBootstrap, hs]

/-- The end of a retirement is one transaction. -/
theorem World.of_retireTail (s : Scheduler) (fl : List FlightItem) (k : Worker) {p : RequestPtr}
    (active : (s.heap p).status = .active) (sc : SequenceSchedulingState) (f : FlightItem)
    (token : Token) (index : Nat) :
    World.of (s.retireTail p sc f.item (Worker.itemResult f.sampling index f.item token)) fl k =
      let published := s.kv.publishItem sc f.item (writtenTokens (s.heap p) f.item)
      { World.of s fl k with
        heap := Function.update s.heap p
          ((s.heap p).retired (published.2.1.leaveBootstrap f.item) f token)
        kv := published.1
        trace := s.trace ++ (published.2.2 ++ RequestState.tailObs p (s.heap p) f token) } := by
  obtain ⟨hsc, hworld⟩ := s.publish_eq fl k sc f.item (writtenTokens (s.heap p) f.item)
  rw [s.retireTail_eq]
  generalize (if 0 < f.item.kvTokenCount then
    s.publishWritten sc f.item.context (writtenTokens (s.heap p) f.item)
    else (s, sc)) = published at hsc hworld
  obtain ⟨s₁, _⟩ := published
  simp only at hsc hworld ⊢
  subst hsc
  have hheap : s₁.heap = s.heap := congrArg World.heap hworld
  have htail := World.of_sendTail s₁ fl k (p := p) (by rw [hheap]; exact active)
    ((s.kv.publishItem sc f.item (writtenTokens (s.heap p) f.item)).2.1.leaveBootstrap
      f.item) f token
  rw [hheap] at htail
  rw [htail, hworld, show s₁.trace = _ from congrArg World.trace hworld, List.append_assoc]

/-! ### `retire_work` -/

section

variable (s : Scheduler) (fl : List FlightItem) (k : Worker) {p : RequestPtr}
  (active : (s.heap p).status = .active) (sc : SequenceSchedulingState) (sampling : SamplingParams)
  (token : Token) (index : Nat)

/-- The result of a chunk before the last one. -/
theorem World.of_retireChunk_more {chunk : PrefillChunk}
    (start : sc.cursor.prefillCursor = chunk.promptSpan.start) (pos : 0 < chunk.promptSpan.length)
    (more : sc.cursor.prefillCursor + chunk.promptSpan.length < (s.heap p).promptTokens.length) :
    World.of (s.retireChunk p { sc with reservation := sc.reservation.retire (.prefill chunk) }
        chunk (Worker.itemResult sampling index (.prefill chunk) token)) fl k =
      (World.of s fl k).setRequest p { s.heap p with
        scheduling := some (sc.advanceChunk chunk (s.heap p).promptTokens.length) } := by
  have hnot : ¬ (s.heap p).promptTokens.length ≤
      sc.cursor.prefillCursor + chunk.promptSpan.length := Nat.not_le.mpr more
  have hcursor : ∀ b, b = true → s.assert b .retireCursor = s := fun _ hb => if_pos hb
  simp only [retireChunk, Worker.itemResult, WorkItem.tokenCount, hnot, decide_false,
    Bool.not_false, if_true, setScheduling]
  rw [show ∀ (s : Scheduler) r, World.of (s.setRequest p r) fl k = (World.of s fl k).setRequest p r
    from fun _ _ => rfl, world_assert _ _ _ _ rfl, hcursor]
  · simp [SequenceSchedulingState.advanceChunk, hnot]
  · rw [start] at more ⊢
    simp [pos, more.le]

include active

/-- The result of the last chunk. -/
theorem World.of_retireChunk_last {chunk : PrefillChunk} (rest : List FlightItem)
    (start : sc.cursor.prefillCursor = chunk.promptSpan.start) (pos : 0 < chunk.promptSpan.length)
    (le : sc.cursor.prefillCursor + chunk.promptSpan.length ≤ (s.heap p).promptTokens.length)
    (final : (s.heap p).promptTokens.length ≤ sc.cursor.prefillCursor + chunk.promptSpan.length) :
    World.of (s.retireChunk p { sc with reservation := sc.reservation.retire (.prefill chunk) }
        chunk (Worker.itemResult sampling index (.prefill chunk) token)) rest k =
      (World.of s fl k).settled p ⟨.prefill chunk, sampling, .done token⟩ token
        (sc.advanceChunk chunk (s.heap p).promptTokens.length) chunk.tokens
        [.finalChunk p chunk.promptSpan.start (WorkItem.prefill chunk).context] rest := by
  have hconsumed : (Worker.itemResult sampling index (.prefill chunk) token).tokensConsumed =
      chunk.promptSpan.length := rfl
  -- The assertions on the way are invisible.
  have hcursor : ∀ b, b = true → s.assert b .retireCursor = s := fun _ hb => if_pos hb
  have hlogged : ∀ b o, World.of ((s.assert b .retireSampled).log o) rest k =
      (World.of s rest k).log [o] := by
    intro b o
    change (World.of (s.assert b .retireSampled) rest k).log [o] = _
    rw [Scheduler.world_assert _ _ _ _ rfl]
  have htail := fun s' h => World.of_retireTail s' rest k (p := p) h
    (sc.advanceChunk chunk (s.heap p).promptTokens.length)
    ⟨.prefill chunk, sampling, .done token⟩ token index
  simp only [SequenceSchedulingState.advanceChunk, final, if_true] at htail
  simp only [Scheduler.retireChunk, hconsumed, final, decide_true, Bool.not_true,
    Bool.false_eq_true, if_false, if_true]
  rw [hcursor _ (by rw [start] at le ⊢; simp [pos, le])]
  rw [htail _ (by simpa [Scheduler.log] using active), hlogged]
  simp [World.settled, World.of, World.log, Scheduler.log, Scheduler.writtenTokens,
    SequenceSchedulingState.advanceChunk, final]

/-- The result of a decode. -/
theorem World.of_retireDecode {work : DecodeOneToken} (rest : List FlightItem) :
    World.of (s.retireDecode p { sc with reservation := sc.reservation.retire (.decode work) }
        work (Worker.itemResult sampling index (.decode work) token)) rest k =
      (World.of s fl k).settled p ⟨.decode work, sampling, .done token⟩ token
        (sc.advanceDecode work) (s.heap p).generatedTokens.getLast?.toList [] rest := by
  have htail := fun s' h => World.of_retireTail s' rest k (p := p) h (sc.advanceDecode work)
    ⟨.decode work, sampling, .done token⟩ token index
  simp only [SequenceSchedulingState.advanceDecode] at htail
  simp only [retireDecode]
  rw [htail _ (by simpa using active), world_assert _ _ _ _ rfl]
  simp [World.settled, World.of, writtenTokens, SequenceSchedulingState.advanceDecode]

end

/-- Settling reads nothing of the scheduling state that the request has. -/
theorem World.settled_setRequest (w : World) (p : RequestPtr) (f : FlightItem) (token : Token)
    (sc : Option SequenceSchedulingState) (advanced : SequenceSchedulingState)
    (written : List Token) (head : List Obs) (rest : List FlightItem) :
    (w.setRequest p { w.heap p with scheduling := sc }).settled p f token advanced written head
      rest = w.settled p f token advanced written head rest := by
  simp [World.settled, World.setRequest, RequestState.retired, RequestState.tailObs,
    RequestState.tailStatus, RequestState.tailFinished]

namespace Does

variable {k : Worker} {s : Scheduler} {before after rest : List FlightItem} {f : FlightItem}

/-- `retire_work` for the oldest item in flight, once it was processed. -/
theorem retireWork (index : Nat) (processed : f.fate = .stale ∨ ∃ token, f.fate = .done token) :
    Does k s (f :: rest) (s.retireWork f.item (f.result index)) rest := by
  intro h
  obtain ⟨p, hp, sc, hsc, hseq⟩ := h.flights.owner h.positions (f := f) List.mem_cons_self
  have hby : s.bySeqId f.seqId = some p := (h.positions.bySeqId _ p).mpr ⟨hp, sc, hsc, hseq⟩
  have hresult : (f.result index).seqId = f.seqId := by
    unfold FlightItem.result
    split <;> rfl
  have hself : ∀ sc', (s.setScheduling p sc').heap p = { s.heap p with scheduling := sc' } :=
    fun _ => Function.update_self ..
  rw [Scheduler.retireWork, hresult, hby]
  simp only [show (s.heap p).scheduling = some sc from hsc]
  split
  · rename_i hignored
    refine .single (.discard _ [] rest f p sc rfl hp hsc hseq ?_)
    by_cases active : (s.heap p).status = .active
    · refine .inr ⟨rfl, processed.resolve_right ?_⟩
      rintro ⟨_, hdone⟩
      simp [Scheduler.isSchedulableState, hself, active, FlightItem.result, hdone,
        Worker.itemResult] at hignored
    · exact .inl active
  · rename_i hkept
    obtain ⟨item, sampling, fate⟩ := f
    have active : (s.heap p).status = .active := by
      simp only [Scheduler.isSchedulableState, hself, Option.isSome_some, Bool.and_true,
        Bool.or_eq_true, not_or, Bool.not_eq_true, Bool.not_eq_false', beq_iff_eq] at hkept
      exact hkept.2
    obtain ⟨token, rfl⟩ : ∃ token, fate = .done token := by
      refine processed.resolve_left ?_
      rintro rfl
      simp [FlightItem.result, Worker.staleResult] at hkept
    have hactive : ∀ sc', ((s.setScheduling p sc').heap p).status = .active := fun sc' => by
      rw [hself]; exact active
    have hset : ∀ sc' fl, World.of (s.setScheduling p sc') fl k =
        (World.of s fl k).setRequest p { (World.of s fl k).heap p with scheduling := sc' } :=
      fun _ _ => rfl
    simp only [FlightItem.result]
    refine .single ?_
    cases item with
    | prefill chunk =>
      have hgeo := h.geometry (p := p) hsc
      rw [show (World.of s (⟨.prefill chunk, sampling, .done token⟩ :: rest) k).itemsOf sc.seqId =
        ⟨.prefill chunk, sampling, .done token⟩ :: rest.filter (fun f => f.seqId == sc.seqId) by
          simp [World.itemsOf, World.of, hseq]] at hgeo
      obtain ⟨hstart, hpos, hle⟩ := hgeo.chunk_aligned active
      rw [← hstart] at hle
      simp only
      by_cases final : (s.heap p).promptTokens.length ≤
          sc.cursor.prefillCursor + chunk.promptSpan.length
      · rw [World.of_retireChunk_last _ (⟨.prefill chunk, sampling, .done token⟩ :: rest) k
          (hactive _) sc sampling token index rest hstart hpos (by rw [hself]; exact hle)
          (by rw [hself]; exact final), hself, hset, World.settled_setRequest]
        exact .retire _ rest _ sampling token p sc _ _ _ rfl hp hsc hseq active (.last chunk final)
      · have more := Nat.not_le.mp final
        rw [World.of_retireChunk_more _ rest k sc sampling token index hstart hpos
          (by rw [hself]; exact more), hself, hset]
        have := World.Step.retireChunk
          (World.of s (⟨.prefill chunk, sampling, .done token⟩ :: rest) k) rest chunk sampling token
          p sc rfl hp hsc hseq active more
        simpa [World.setRequest, World.of] using this
    | decode work =>
      simp only
      rw [World.of_retireDecode _ (⟨.decode work, sampling, .done token⟩ :: rest) k (hactive _) sc
        sampling token index rest, hself, hset, World.settled_setRequest]
      exact .retire _ rest _ sampling token p sc _ _ _ rfl hp hsc hseq active (.decode work)

/-- One item of `fail_batch`, anywhere in the flight. -/
theorem failItem (err : ErrorCode) :
    Does k s (before ++ f :: after) (s.failItem f.item err) (before ++ after) := by
  intro h
  obtain ⟨p, hp, sc, hsc, hseq⟩ := h.flights.owner h.positions (f := f) (by simp [World.of])
  have hby : s.bySeqId f.item.seqId = some p := (h.positions.bySeqId _ p).mpr ⟨hp, sc, hsc, hseq⟩
  unfold Scheduler.failItem
  rw [hby]
  simp only [Scheduler.retireReservation, show (s.heap p).scheduling = some sc from hsc]
  have hself : ∀ sc', (s.setScheduling p sc').heap p = { s.heap p with scheduling := sc' } :=
    fun _ => Function.update_self ..
  rw [hself]
  split
  · rename_i active
    let w : World := (World.of s (before ++ f :: after) k)
    have hfail : World.Step w ((w.setRequest p { s.heap p with status := .failed }).log
        [.statusSet p .failed, .sent p (.error err)]) := .fail w p err hp active
    have hdiscard := World.Step.discard ((w.setRequest p { s.heap p with status := .failed }).log
        [.statusSet p .failed, .sent p (.error err)]) before after f p sc rfl hp
        (by
          have hsc : (s.heap p).scheduling = some sc := hsc
          simp [World.Scheduled, World.setRequest, World.log, hsc]) hseq
        (.inl (by simp [World.setRequest, World.log]))
    refine .tail (.single hfail) ?_
    rw [World.of_sendErrorEvent, hself]
    simpa [w, World.of, World.setRequest, World.log, Scheduler.setScheduling,
      Scheduler.setRequest] using hdiscard
  · rename_i inactive
    exact .single (.discard _ before after f p sc rfl hp hsc hseq (.inl inactive))

/-- `fail_batch`, for items that stand together anywhere in the flight. -/
theorem failBatch (before : List FlightItem) (err : ErrorCode) {batch : ScheduledBatch}
    (fl : List FlightItem) (items : fl.map (·.item) = batch.items) :
    Does k s (before ++ fl ++ after) (s.failBatch batch err) (before ++ after) := by
  unfold Scheduler.failBatch
  rw [← items]
  clear items
  induction fl generalizing s with
  | nil => rw [List.append_nil]; exact refl
  | cons _ _ ih =>
    rw [List.append_assoc, List.cons_append]
    refine (failItem err).trans ?_
    rw [← List.append_assoc]
    exact ih

/-- The second loop of `update_from_output`, over the results of the items `fl` that come
after `done` in their batch. -/
theorem retireLoop (rest : List FlightItem) {items : List WorkItem} (fl : List FlightItem) :
    ∀ (done : List FlightItem) (s : Scheduler), (done ++ fl).map (·.item) <+: items →
      (∀ f ∈ fl, f.fate = .stale ∨ ∃ token, f.fate = .done token) → Does k s (fl ++ rest)
        (s.retireLoop items (fl.mapIdx fun i f => f.result (done.length + i))) rest := by
  induction fl with
  | nil => intro done s _ _; exact refl
  | cons f _ ih =>
    intro done s hitems processed
    have hindex : ∀ i, (f.result i).itemIndex = i := by
      intro i
      unfold FlightItem.result
      split <;> rfl
    have hitem : items[(f.result (done.length + 0)).itemIndex]? = some f.item := by
      obtain ⟨_, rfl⟩ := hitems
      rw [hindex]
      simp
    rw [List.mapIdx_cons, Scheduler.retireLoop]
    simp only [hitem]
    refine (retireWork (done.length + 0) (processed f List.mem_cons_self)).trans ?_
    have := ih (done ++ [f]) (s.retireWork f.item (f.result (done.length + 0)))
      (by rwa [List.append_assoc, List.singleton_append])
      (fun g hg => processed g (List.mem_cons_of_mem _ hg))
    simpa [Nat.add_assoc, Nat.add_comm 1] using this

end Does

/-! ### Batches in flight -/

/-- The items in flight that a dispatched batch stands for. -/
structure Carries (b : InFlightBatch) (fl : List FlightItem) : Prop where
  items : fl.map (·.item) = b.batch.items
  sampling : ∀ f ∈ fl, f.sampling = b.batch.sampling
  nodup : (b.batch.items.map WorkItem.seqId).Nodup
  pending : b.future = none → ∀ f ∈ fl, f.fate = .pending
  failed : ∀ err, b.future = some (.error err) → ∀ f ∈ fl, f.fate = .failed err
  processed : ∀ result, b.future = some (.ok result) →
    result = ⟨b.batch.batchId, fl.mapIdx fun i f => f.result i⟩ ∧
    ∀ f ∈ fl, f.fate = .stale ∨ ∃ token, f.fate = .done token

/-- `collect_oldest` retires the items of its batch. -/
theorem Does.retireBatch {k : Worker} {s : Scheduler} {b : InFlightBatch}
    {fl rest : List FlightItem} {result : Result BatchResult} (carries : Carries b fl)
    (resolved : b.future = some result) :
    Does k s (fl ++ rest) (Sys.retireBatch s b.batch result) rest := by
  cases result with
  | error err => exact failBatch [] err fl carries.items
  | ok result =>
    obtain ⟨rfl, processed⟩ := carries.processed result resolved
    simp only [Sys.retireBatch, updateFromOutput]
    generalize outputMatches b.batch _ = ok
    refine .trans (.of_eq
      (s.world_assert _ _ ok (show AssertSite.outputMatchesBatch.tracked = false from rfl))) ?_
    simpa using retireLoop (k := k) rest fl [] (s.assert ok .outputMatchesBatch)
      (by rw [List.nil_append, carries.items]) processed

end CcInfer
