import CcInfer.Refine.Reach

/-!
# `CcInfer.Proofs.Engine.Failures`: worker and Scheduler agree on failures

The worker marks the sequences of a failed batch and answers later items of them as stale.
The Scheduler learns of the failure when it collects the batch, and sets the requests to
`Failed`. Batches are collected in the order of dispatch, so the failed one comes before
every stale answer that follows from it (`View.Kept.fates`).
-/

set_option autoImplicit false

namespace CcInfer

open Relation

/-! ### Requests that have ended -/

/-- The request at `p` is not active in `w'` and has gained nothing since `w`. -/
structure World.Ended (p : RequestPtr) (w w' : World) : Prop where
  inactive : (w'.heap p).status ≠ .active
  tokens : (w'.heap p).generatedTokens = (w.heap p).generatedTokens
  frontier : ∀ sc', w'.Scheduled p sc' → ∃ sc, w.Scheduled p sc ∧ sc'.seqId = sc.seqId ∧
    sc'.executedFrontier = sc.executedFrontier

namespace View.Step

variable {p : RequestPtr} {maxBlocks blockSize : Nat} {sampler : List Token → Token → Prop}
  {params : SamplingParams → Prop} {v v' : View}

/-- A request that is not active gains nothing. -/
theorem ended (t : View.Step p maxBlocks blockSize sampler params v v')
    (inactive : v.req.status ≠ .active) :
    v'.req.status ≠ .active ∧ v'.req.generatedTokens = v.req.generatedTokens ∧
    ∀ sc', v'.req.scheduling = some sc' → ∃ sc, v.req.scheduling = some sc ∧
      sc'.seqId = sc.seqId ∧ sc'.executedFrontier = sc.executedFrontier := by
  have hsame : ∀ sc', v.req.scheduling = some sc' → ∃ sc, v.req.scheduling = some sc ∧
      sc'.seqId = sc.seqId ∧ sc'.executedFrontier = sc.executedFrontier :=
    fun sc' hsc' => ⟨sc', hsc', rfl, rfl⟩
  cases t with
  | cancel active | finish sc scheduled active | fail err active
    | grow sc blocks scheduled active | dispatch sc item sampling scheduled active
    | retireChunk rest chunk sampling token sc front scheduled active
    | retire rest item sampling token sc advanced published written head front scheduled active =>
    exact absurd active inactive
  | admission _ _ _ _ admissible => exact absurd admissible.active inactive
  | park | drop => exact ⟨inactive, rfl, fun sc' hsc' => nomatch hsc'⟩
  | discard _ _ _ sc _ scheduled =>
    refine ⟨inactive, rfl, fun sc' hsc' => ?_⟩
    cases hsc'
    exact ⟨sc, scheduled, rfl, rfl⟩
  | expire | process | skipStale | processFail => exact ⟨inactive, rfl, hsame⟩

end View.Step

namespace World.Ended

variable {p : RequestPtr} {w w' w'' : World}

theorem refl (inactive : (w.heap p).status ≠ .active) : Ended p w w :=
  ⟨inactive, rfl, fun sc hsc => ⟨sc, hsc, rfl, rfl⟩⟩

/-- No transaction revives an ended request. -/
theorem step (h : Ended p w w') (core : Core w') (hp : p < w'.nextPtr)
    (t : World.Step w' w'') : Ended p w w'' := by
  rcases core.view_step t hp with hview | hview
  · have hreq : w''.heap p = w'.heap p := by
      rw [← World.view_req (w := w''), hview, World.view_req]
    refine ⟨hreq ▸ h.inactive, hreq ▸ h.tokens, fun sc hsc => h.frontier sc ?_⟩
    rwa [World.Scheduled, ← hreq]
  · obtain ⟨hinactive, htokens, hfrontier⟩ := hview.ended (by simpa using h.inactive)
    simp only [World.view_req] at hinactive htokens hfrontier
    refine ⟨hinactive, htokens.trans h.tokens, fun sc'' hsc'' => ?_⟩
    obtain ⟨sc', hsc', hseq', hfront'⟩ := hfrontier sc'' hsc''
    obtain ⟨sc, hsc, hseq, hfront⟩ := h.frontier sc' hsc'
    exact ⟨sc, hsc, hseq'.trans hseq, hfront'.trans hfront⟩

/-- What has ended gains nothing in any run. -/
theorem run (core : Core w) (hp : p < w.nextPtr) (inactive : (w.heap p).status ≠ .active)
    (run : World.Run w w') : Ended p w w' :=
  (Runs.invariant (I := fun x => Core x ∧ p < x.nextPtr ∧ Ended p w x)
    (fun _ _ h t => ⟨h.1.step t, h.2.1.trans_le t.nextPtr_le, h.2.2.step h.1 h.2.1 t⟩)
    ⟨core, hp, .refl inactive⟩ run).2.2

end World.Ended

/-! ### Publication -/

/-- The sequence was given out and belongs to no active request. -/
structure World.ClosedSequence (seq : SequenceId) (w : World) : Prop where
  given : seq < w.nextSeqId
  inactive : ∀ q sc, w.Scheduled q sc → sc.seqId = seq → (w.heap q).status ≠ .active

namespace World.ClosedSequence

variable {seq : SequenceId} {w w' : World}

theorem step (h : ClosedSequence seq w) (t : World.Step w w') : ClosedSequence seq w' := by
  refine ⟨h.given.trans_le t.nextSeqId_le, fun q sc' hsc' hseq hactive => ?_⟩
  rcases t.scheduled_from hsc' with ⟨sc, hsc, heq, hstatus⟩ | hnew
  · exact h.inactive q sc hsc (heq.symm.trans hseq) (hstatus hactive)
  · exact absurd h.given (by rw [← hseq, hnew]; exact lt_irrefl _)

/-- No block of the sequence is published in any run. -/
theorem run (h : ClosedSequence seq w) (run : World.Run w w') : ∃ obs, w'.trace = w.trace ++ obs ∧
      ∀ id index tokens, .published seq id index tokens ∉ obs := by
  suffices ClosedSequence seq w' ∧ ∃ obs, w'.trace = w.trace ++ obs ∧
      ∀ id index tokens, .published seq id index tokens ∉ obs from this.2
  induction run with
  | refl => exact ⟨h, [], (List.append_nil _).symm, fun _ _ _ => List.not_mem_nil⟩
  | tail _ t ih =>
    obtain ⟨hclosed, obs, htrace, hnone⟩ := ih
    obtain ⟨obs', htrace', hlogs⟩ := t.logs
    refine ⟨hclosed.step t, obs ++ obs', by rw [htrace', htrace, List.append_assoc], ?_⟩
    intro id index tokens hmem
    rcases List.mem_append.mp hmem with hmem | hmem
    · exact hnone id index tokens hmem
    · -- blocks are published for active requests only
      obtain ⟨q, sc, hsc, hseq, active⟩ := hlogs _ hmem
      exact hclosed.inactive q sc hsc hseq active

end World.ClosedSequence

/-! ### Failed batches -/

namespace Scheduler

variable {s : Scheduler} {item : WorkItem} {err : ErrorCode} {p : RequestPtr}

theorem failItem_bySeqId : (s.failItem item err).bySeqId = s.bySeqId := by
  unfold failItem retireReservation
  split
  · rfl
  · dsimp only
    split <;> split <;> rfl

/-- The owner of a failed item is not active afterwards. -/
theorem failItem_inactive (owner : s.bySeqId item.seqId = some p) :
    ((s.failItem item err).heap p).status ≠ .active := by
  unfold failItem
  rw [owner]
  dsimp only
  split
  · simp [sendErrorEvent, sendEvent, setStatus, setRequest, log]
  · assumption

/-- After `fail_batch` the owners of its items are not active. -/
theorem failBatch_inactive {k : Worker} {batch : ScheduledBatch} (err : ErrorCode)
    (fl after : List FlightItem) (items : fl.map (·.item) = batch.items)
    (core : Core (World.of s (fl ++ after) k)) {item : WorkItem} (hitem : item ∈ batch.items)
    (owner : s.bySeqId item.seqId = some p) :
    ((s.failBatch batch err).heap p).status ≠ .active := by
  unfold failBatch
  rw [← items] at hitem ⊢
  clear items
  induction fl generalizing s with
  | nil => cases hitem
  | cons f rest ih =>
    have hrun : World.Run _ (World.of (s.failItem f.item err) ([] ++ (rest ++ after)) k) :=
      Does.failItem err core
    have hcore : Core (World.of (s.failItem f.item err) (rest ++ after) k) := core.run hrun
    rw [List.map_cons, List.foldl_cons]
    rw [List.map_cons, List.mem_cons] at hitem
    rcases hitem with rfl | hitem
    · -- the other items of the batch do not make it active again
      have hlt : p < s.nextPtr := by
        obtain ⟨-, _, hsc, -⟩ := (core.positions.bySeqId _ p).mp owner
        exact core.scheduled_lt hsc
      have hbatch : rest.map (·.item) = (⟨0, rest.map (·.item), {}⟩ : ScheduledBatch).items := rfl
      have hrest := Does.failBatch [] err rest hbatch hcore
      exact (World.Ended.run hcore (hlt.trans_le (World.Run.nextPtr_le hrun))
        (failItem_inactive owner) hrest).inactive
    · exact ih hcore hitem (by rw [failItem_bySeqId]; exact owner)

end Scheduler

/-- The step that collects the batch in hand retires it, and maybe cleans up after it. -/
theorem Sys.collects {y y' : Sys} {c : InFlightBatch} (hc : y.pc.current = [c])
    {result : Result BatchResult} (resolved : c.future = some result)
    {dispatchError : Option ErrorCode} (t : y.step (.engine dispatchError) = some y') :
    y'.worker = y.worker ∧ y'.pipeline = y.inFlight ∧
    ∀ fl, Does y.worker (Sys.retireBatch y.sched c.batch result) fl y'.sched fl := by
  simp only [Sys.step, Sys.engineStep] at t
  rcases hpc : y.pc with _ | _ | _ | _ | _ | _ | _ | _ | _ | _ <;>
    simp only [hpc, EnginePc.current, List.cons.injEq, and_true, reduceCtorEq] at hc t
  all_goals
    subst hc
    rw [resolved] at t
    cases t
  · exact ⟨rfl, rfl, fun fl => .cleanupTerminalRequests⟩
  · exact ⟨rfl, rfl, fun fl => .refl⟩

/-- The Scheduler when `update_from_output` comes to the result after `done`. -/
def Scheduler.retiring (s : Scheduler) (batch : ScheduledBatch) (result : BatchResult)
    (done : List WorkItemResult) : Scheduler :=
  (s.assert (outputMatches batch result) .outputMatchesBatch).retireLoop batch.items done

/-- From `s` to `s'`, the request at `p` gets no token, its frontier does not move, and no
block of `seq` is published. -/
structure Scheduler.GainsNothing (s s' : Scheduler) (p : RequestPtr) (seq : SequenceId) : Prop where
  tokens : (s'.heap p).generatedTokens = (s.heap p).generatedTokens
  frontier : ∀ sc', (s'.heap p).scheduling = some sc' → ∃ sc, (s.heap p).scheduling = some sc ∧
    sc'.seqId = sc.seqId ∧ sc'.executedFrontier = sc.executedFrontier
  unpublished : ∃ obs, s'.trace = s.trace ++ obs ∧
    ∀ id index tokens, .published seq id index tokens ∉ obs

/-- A stale result belongs to a request that is not active when the result is retired. -/
theorem Core.stale_inactive {y : Sys} {c : InFlightBatch} {fl rest : List FlightItem}
    (core : Core (World.of y.sched (fl ++ rest) y.worker)) (carries : Carries c fl)
    {result : BatchResult} (resolved : c.future = some (.ok result))
    {done more : List WorkItemResult} {r : WorkItemResult}
    (split : result.items = done ++ r :: more) (stale : r.stale = true) :
    ∃ p, (y.sched.retiring c.batch result done).bySeqId r.seqId = some p ∧
      ((y.sched.retiring c.batch result done).heap p).status ≠ .active := by
  obtain ⟨hresult, processed⟩ := carries.processed result resolved
  rw [hresult] at split
  -- the item that `r` answers, and those before it
  have hlen : done.length < fl.length := by
    have := congrArg List.length split
    simp only [List.length_mapIdx, List.length_append, List.length_cons] at this
    omega
  obtain ⟨before, f, after, rfl, hbefore⟩ : ∃ before f after,
      fl = before ++ f :: after ∧ before.length = done.length :=
    ⟨fl.take done.length, fl.get ⟨_, hlen⟩, fl.drop (done.length + 1), by simp, by simp; omega⟩
  rw [List.mapIdx_append, List.mapIdx_cons] at split
  obtain ⟨rfl, hmore⟩ := List.append_inj split (by rw [List.length_mapIdx, hbefore])
  obtain ⟨rfl, -⟩ := List.cons.inj hmore
  have hstale : f.fate = .stale := by
    rcases processed f (by simp) with hfate | ⟨_, hfate⟩
    · exact hfate
    · simp [FlightItem.result, hfate, Worker.itemResult] at stale
  -- the results before `r` are retired, and `f` is then the oldest item in flight
  have hrun : Does y.worker y.sched (before ++ (f :: after ++ rest))
      (y.sched.retiring c.batch result (before.mapIdx fun i f => f.result i))
      (f :: after ++ rest) := by
    refine .trans (.of_eq (y.sched.world_assert _ _ (Scheduler.outputMatches c.batch result)
      (show AssertSite.outputMatchesBatch.tracked = false from rfl))) ?_
    have hitems : ([] ++ before.map FlightItem.item) <+: c.batch.items := by
      rw [← carries.items]
      exact ⟨_, (List.map_append ..).symm⟩
    have := Does.retireLoop (k := y.worker) (f :: after ++ rest) before []
      (y.sched.assert (Scheduler.outputMatches c.batch result) .outputMatchesBatch) hitems
      (fun g hg => processed g (List.mem_append_left _ hg))
    simpa [Scheduler.retiring] using this
  rw [List.append_assoc] at core
  have hcore := core.run (hrun core)
  obtain ⟨p, hp, sc, hsc, hseq⟩ := hcore.flights.owner hcore.positions (f := f) List.mem_cons_self
  refine ⟨p, ?_, hcore.discarded_inactive (List.nil_append _).symm hsc hseq (.inr ⟨rfl, hstale⟩)⟩
  have hresultSeq : (f.result (0 + before.length)).seqId = f.seqId := by
    simp [FlightItem.result, hstale, Worker.staleResult, FlightItem.seqId]
  rw [hresultSeq]
  exact (hcore.positions.bySeqId _ p).mpr ⟨hp, sc, hsc, hseq⟩

/-- In every reachable state in which a batch is about to be collected: a stale result in it
belongs to a request that is no longer active when `update_from_output` comes to it, and if
the batch has failed, the requests of its items gain nothing in any run that follows. -/
theorem failures_agree {config : ValidConfig} {y : Sys} (h : Reachable config y)
    {c : InFlightBatch} (hc : y.pc.current = [c]) :
    (∀ result, c.future = some (.ok result) → ∀ done r more,
      result.items = done ++ r :: more → r.stale = true →
      ∃ p, (y.sched.retiring c.batch result done).bySeqId r.seqId = some p ∧
        ((y.sched.retiring c.batch result done).heap p).status ≠ .active) ∧
    (∀ err, c.future = some (.error err) → ∀ dispatchError y',
      y.step (.engine dispatchError) = some y' → ∀ item ∈ c.batch.items,
      ∃ p, y.sched.bySeqId item.seqId = some p ∧ (y'.sched.heap p).status ≠ .active ∧
        ∀ ls y'', y'.run ls = some y'' → y'.sched.GainsNothing y''.sched p item.seqId) := by
  obtain ⟨fls, carries, run, core⟩ := h.core
  rw [Sys.pipeline, hc, List.singleton_append] at carries
  rcases carries with _ | ⟨hcarries, hrest⟩
  rename_i fl rest
  rw [List.flatten_cons] at core
  refine ⟨fun result resolved done r more split stale =>
    core.stale_inactive hcarries resolved split stale, ?_⟩
  intro err resolved dispatchError y' t item hitem
  obtain ⟨f, hf, rfl⟩ := List.mem_map.mp (hcarries.items ▸ hitem)
  obtain ⟨p, hp, sc, hsc, hseq⟩ := core.flights.owner core.positions (f := f)
    (List.mem_append_left _ hf)
  have owner : y.sched.bySeqId f.seqId = some p :=
    (core.positions.bySeqId _ p).mpr ⟨hp, sc, hsc, hseq⟩
  -- the world after `fail_batch`, and the one of `y'`
  obtain ⟨hworker, hpipeline, hclean⟩ := Sys.collects hc resolved t
  have hfail := Does.failBatch [] err fl hcarries.items core
  have hcore := core.run hfail
  have hinactive := Scheduler.failBatch_inactive err fl rest.flatten hcarries.items core hitem owner
  have hrun' : World.Run _ (World.of y'.sched rest.flatten y.worker) :=
    hfail.trans (hclean rest.flatten hcore)
  have hcore' := core.run hrun'
  have hended := World.Ended.run hcore
    ((core.scheduled_lt hsc).trans_le (World.Run.nextPtr_le hfail)) hinactive
    (hclean rest.flatten hcore)
  have hshows : y'.Shows (World.of y'.sched rest.flatten y.worker) :=
    ⟨rest, by rw [hpipeline]; exact hrest, by rw [hworker]⟩
  have hgiven : f.seqId < y.sched.nextSeqId := hseq ▸ core.positions.seq_lt p sc hsc
  have hclosed : World.ClosedSequence f.seqId (World.of y'.sched rest.flatten y.worker) := by
    refine ⟨hgiven.trans_le (World.Run.nextSeqId_le hrun'), fun q sc' hsc' hseq' => ?_⟩
    obtain ⟨sc₀, hsc₀, heq⟩ := World.Run.scheduled_from hrun' hsc' (hseq' ▸ hgiven)
    obtain rfl :=
      core.positions.seq_inj q p sc₀ sc hsc₀ hsc (heq.symm.trans (hseq'.trans hseq.symm))
    exact hended.inactive
  refine ⟨p, owner, hended.inactive, fun ls y'' hrun => ?_⟩
  obtain ⟨-, hrun'', _, -, rfl⟩ := (h.step _ t).follow ls hshows hcore' hrun
  have hlater := World.Ended.run hcore'
    ((core.scheduled_lt hsc).trans_le (World.Run.nextPtr_le hrun')) hended.inactive hrun''
  exact ⟨hlater.tokens, hlater.frontier, hclosed.run hrun''⟩

/-- Two decodes of one request are dispatched, the first one fails, and the Scheduler is about
to collect it. -/
def Label.firstFails : List Label :=
  Label.submits [⟨"a", [1, 2, 3], {}, 6⟩] ++ Label.dispatch ++
    [.engine none, .engine none, .work true (.sampled [7]), .engine none] ++ Label.dispatch ++
    [.engine none, .engine none, .engine none, .work true (.inferenceFailed .cudaRuntimeError true)]

/-- The state after `Label.firstFails`, and the one in which the second decode is about to be
collected. -/
def firstFailed : Sys :=
  Sys.after ({ EngineConfig.small 3 0 with maxConcurrentBatches := 2 }.toValid
      EngineConfig.threeConcurrent_ok)
    Label.firstFails

@[inherit_doc firstFailed]
def secondStale : Sys :=
  Sys.after ({ EngineConfig.small 3 0 with maxConcurrentBatches := 2 }.toValid
      EngineConfig.threeConcurrent_ok)
    (Label.firstFails ++
      [.work true (.sampled [9]), .engine none, .engine none, .engine none, .engine none])

/-- The batch in hand in `firstFailed`, and in `secondStale`. -/
def failedBatch : InFlightBatch := firstFailed.pc.current.headD ⟨⟨0, [], {}⟩, none⟩

@[inherit_doc failedBatch]
def staleBatch : InFlightBatch := secondStale.pc.current.headD ⟨⟨0, [], {}⟩, none⟩

theorem failures_agree_secondStale : (failedBatch.future = some (.error .cudaRuntimeError) ∧
      failedBatch.batch.items.map WorkItem.context = [3] ∧
      ∀ dispatchError y', firstFailed.step (.engine dispatchError) = some y' →
        ∀ item ∈ failedBatch.batch.items, ∃ p, firstFailed.sched.bySeqId item.seqId = some p ∧
          (y'.sched.heap p).status ≠ .active ∧
          ∀ ls y'', y'.run ls = some y'' → y'.sched.GainsNothing y''.sched p item.seqId) ∧
    (staleBatch.future.map (fun answer => answer.toOption.map fun result =>
        result.items.map WorkItemResult.stale) = some (some [true]) ∧
      ∀ result, staleBatch.future = some (.ok result) → ∀ done r more,
        result.items = done ++ r :: more → r.stale = true →
        ∃ p, (secondStale.sched.retiring staleBatch.batch result done).bySeqId r.seqId = some p ∧
          ((secondStale.sched.retiring staleBatch.batch result done).heap p).status ≠ .active) :=
  ⟨⟨by decide +kernel, by decide +kernel,
      (failures_agree (Reachable.after _ _) (c := failedBatch) (by decide +kernel)).2
        .cudaRuntimeError (by decide +kernel)⟩,
    by decide +kernel,
    (failures_agree (Reachable.after _ _) (c := staleBatch) (by decide +kernel)).1⟩

end CcInfer
