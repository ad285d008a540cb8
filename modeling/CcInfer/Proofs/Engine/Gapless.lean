import CcInfer.Refine.Reach

/-!
# `CcInfer.Proofs.Engine.Gapless`: dispatched work is gapless

An item is dispatched at the position that the scheduling state expects: the executed
frontier plus what is reserved. `Dispatches` ties this to the log of all dispatched items:
frontier plus reservation is the number of prefix-hit tokens plus all KV tokens that items of the
sequence were dispatched to write. So the positions of a sequence are written one after the
other, from its prefix hits on.
-/

set_option autoImplicit false

namespace CcInfer

variable {item : WorkItem} {w : World} {config : ValidConfig} {y : Sys}

/-- The tokens of a chunk are those of its span, which starts where the chunk writes. -/
def WorkItem.Spanned (item : WorkItem) : Prop :=
  ∀ work, item = .prefill work → work.tokens.length = work.promptSpan.length ∧
    0 < work.promptSpan.length ∧ item.context = work.promptSpan.start

/-- The item that an observation tells the dispatch of. -/
def Obs.item? : Obs → Option WorkItem
  | .dispatched item => some item
  | _ => none

/-- The items of a sequence that the log tells the dispatch of, in order. -/
def dispatchedItems (seq : SequenceId) (log : List Obs) : List WorkItem :=
  (log.filterMap Obs.item?).filter fun i => i.seqId == seq

theorem dispatchedItems_append (seq : SequenceId) (log log' : List Obs) :
    dispatchedItems seq (log ++ log') = dispatchedItems seq log ++ dispatchedItems seq log' := by
  simp [dispatchedItems]

theorem writtenLength_append (items items' : List WorkItem) :
    writtenLength (items ++ items') = writtenLength items + writtenLength items' := by
  simp [writtenLength]

/-- The item starts where the items of its sequence in the log before it end. -/
def Continuing (blockSize : Nat) (log : List Obs) (item : WorkItem) : Prop :=
  ∃ p hits generated, .admitted p item.seqId hits generated ∈ log ∧
    item.context = hits * blockSize + writtenLength (dispatchedItems item.seqId log)

/-- The position after all that is in flight. -/
def SequenceSchedulingState.nextPosition (sc : SequenceSchedulingState) : Nat :=
  sc.executedFrontier + sc.reservation.reservedKvTokens

/-- What the log tells about dispatched items, and how the scheduling states agree with it. -/
structure Dispatches (w : World) : Prop where
  spanned : ∀ item, .dispatched item ∈ w.trace → item.Spanned
  given : ∀ item, .dispatched item ∈ w.trace → item.seqId < w.nextSeqId
  admitted_given : ∀ p seq hits generated, .admitted p seq hits generated ∈ w.trace →
    seq < w.nextSeqId
  once : ∀ p q seq hits hits' generated generated', .admitted p seq hits generated ∈ w.trace →
    .admitted q seq hits' generated' ∈ w.trace → hits = hits'
  gapless : ∀ n item, w.trace[n]? = some (.dispatched item) →
    Continuing w.config.kvBlockSize (w.trace.take n) item
  scheduled : ∀ p sc, w.Scheduled p sc →
    ∃ generated, .admitted p sc.seqId sc.hitBlocks generated ∈ w.trace
  total : ∀ p sc, w.Scheduled p sc → (w.heap p).status = .active →
    sc.nextPosition =
      sc.hitBlocks * w.config.kvBlockSize + writtenLength (dispatchedItems sc.seqId w.trace)

/-- The observation is neither about a dispatch nor about an admission. -/
def Obs.idle : Obs → Bool
  | .dispatched _ | .admitted _ _ _ _ => false
  | _ => true

theorem dispatchedItems_idle {log : List Obs} (h : ∀ o ∈ log, o.idle = true) (seq : SequenceId) :
    dispatchedItems seq log = [] := by
  have hnone : log.filterMap Obs.item? = [] := by
    refine List.filterMap_eq_nil_iff.mpr fun o ho => ?_
    have := h o ho
    cases o <;> first | rfl | cases this
  rw [dispatchedItems, hnone, List.filter_nil]

/-- The scheduling state goes on with the positions of `sc`, as far as the request is still
active. -/
structure SameTotal (st : RequestState) (sc : SequenceSchedulingState) (st' : RequestState)
    (sc' : SequenceSchedulingState) : Prop where
  seqId : sc'.seqId = sc.seqId
  hitBlocks : sc'.hitBlocks = sc.hitBlocks
  next : st'.status = .active → st.status = .active ∧ sc'.nextPosition = sc.nextPosition

/-- Retiring the oldest item moves its positions from the reservation to the frontier. -/
theorem Geometry.retired_total {st : RequestState}
    {sc : SequenceSchedulingState} {rest : List WorkItem}
    (h : Geometry st sc (item :: rest)) (active : st.status = .active) :
    max sc.executedFrontier (item.context + item.kvTokenCount) +
      (sc.reservation.retire item).reservedKvTokens = sc.nextPosition := by
  have hcontext := (h.consecutive active).1
  have hkv := h.reservedKv
  simp only [writtenLength, List.map_cons, List.sum_cons] at hkv
  simp only [SequenceReservation.retire, SequenceSchedulingState.nextPosition]
  omega

namespace Dispatches

variable {w' : World}
variable {obs : List Obs} {p : RequestPtr}

theorem init (config : ValidConfig) : Dispatches (World.init config) where
  spanned _ h := absurd h List.not_mem_nil
  given _ h := absurd h List.not_mem_nil
  admitted_given _ _ _ _ h := absurd h List.not_mem_nil
  once _ _ _ _ _ _ _ h := absurd h List.not_mem_nil
  gapless _ _ h := nomatch h
  scheduled _ _ h := nomatch h
  total _ _ h := nomatch h

/-- What the scheduling state of `p` has to do with the log. -/
def Tracks (w : World) (p : RequestPtr) (sc : SequenceSchedulingState) : Prop :=
  (∃ generated, .admitted p sc.seqId sc.hitBlocks generated ∈ w.trace) ∧
  ((w.heap p).status = .active → sc.nextPosition =
    sc.hitBlocks * w.config.kvBlockSize + writtenLength (dispatchedItems sc.seqId w.trace))

/-- A request that keeps its positions in a transaction that logs no dispatch. -/
theorem tracks (h : Dispatches w) (config : w'.config = w.config)
    (trace : w'.trace = w.trace ++ obs) {q : RequestPtr} {sc sc' : SequenceSchedulingState}
    (none_dispatched : dispatchedItems sc.seqId obs = []) (hsc : w.Scheduled q sc)
    (same : SameTotal (w.heap q) sc (w'.heap q) sc') : Tracks w' q sc' := by
  refine ⟨?_, fun active => ?_⟩
  · obtain ⟨generated, hmem⟩ := h.scheduled q sc hsc
    rw [same.seqId, same.hitBlocks, trace]
    exact ⟨generated, List.mem_append_left _ hmem⟩
  · obtain ⟨hactive, hnext⟩ := same.next active
    rw [same.seqId, same.hitBlocks, config, trace, dispatchedItems_append, none_dispatched,
      List.append_nil]
    exact hnext.trans (h.total q sc hsc hactive)

/-- A transaction of one request that logs no dispatch and no admission. -/
theorem touched (h : Dispatches w) (config : w'.config = w.config)
    (trace : w'.trace = w.trace ++ obs) (hobs : ∀ o ∈ obs, o.idle = true)
    {st : RequestState} (heap : w'.heap = Function.update w.heap p st)
    (same : ∀ sc', st.scheduling = some sc' → ∃ sc, w.Scheduled p sc ∧
      SameTotal (w.heap p) sc st sc') : ∀ q sc', w'.Scheduled q sc' → Tracks w' q sc' := by
  intro q sc' hsc'
  rw [World.Scheduled, heap] at hsc'
  rcases eq_or_ne q p with rfl | hne
  · rw [Function.update_self] at hsc'
    obtain ⟨sc, hsc, hsame⟩ := same sc' hsc'
    exact h.tracks config trace (dispatchedItems_idle hobs _) hsc
      (by rwa [heap, Function.update_self])
  · rw [Function.update_of_ne hne] at hsc'
    exact h.tracks config trace (dispatchedItems_idle hobs _) hsc'
      (by rw [heap, Function.update_of_ne hne]; exact ⟨rfl, rfl, fun ha => ⟨ha, rfl⟩⟩)

/-- A transaction that touches no request. -/
theorem untouched (h : Dispatches w) (config : w'.config = w.config)
    (trace : w'.trace = w.trace ++ obs) (hobs : ∀ o ∈ obs, o.idle = true)
    (heap : w'.heap = w.heap) : ∀ q sc, w'.Scheduled q sc → Tracks w' q sc :=
  h.touched config trace hobs (heap.trans (Function.update_eq_self 0 w.heap).symm)
    fun sc hsc => ⟨sc, hsc, rfl, rfl, fun ha => ⟨ha, rfl⟩⟩

/-- An item is dispatched. -/
theorem dispatched (h : Dispatches w) (core : Core w)
    {sc : SequenceSchedulingState} {item : WorkItem} (scheduled : w.Scheduled p sc)
    (active : (w.heap p).status = .active) (hseq : item.seqId = sc.seqId)
    (config : w'.config = w.config) (trace : w'.trace = w.trace ++ [.dispatched item])
    (heap : w'.heap = Function.update w.heap p { w.heap p with
      scheduling := some { sc with reservation := sc.reservation.reserve item } }) :
    ∀ q sc', w'.Scheduled q sc' → Tracks w' q sc' := by
  intro q sc' hsc'
  rw [World.Scheduled, heap] at hsc'
  rcases eq_or_ne q p with rfl | hne
  · rw [Function.update_self] at hsc'
    cases hsc'
    obtain ⟨generated, hadmitted⟩ := h.scheduled q sc scheduled
    refine ⟨⟨generated, trace ▸ List.mem_append_left _ hadmitted⟩, fun _ => ?_⟩
    have htotal := h.total q sc scheduled active
    rw [config, trace, dispatchedItems_append, writtenLength_append]
    simp only [SequenceSchedulingState.nextPosition, SequenceReservation.reserve] at htotal ⊢
    simp only [dispatchedItems, Obs.item?, List.filterMap_cons, List.filterMap_nil, hseq,
      beq_self_eq_true, List.filter_cons_of_pos, List.filter_nil, writtenLength, List.map_cons,
      List.map_nil, List.sum_cons, List.sum_nil] at htotal ⊢
    omega
  · rw [Function.update_of_ne hne] at hsc'
    have hother : item.seqId ≠ sc'.seqId := fun heq =>
      hne (core.positions.seq_inj q p sc' sc hsc' scheduled (heq.symm.trans hseq))
    refine h.tracks config trace (by simp [dispatchedItems, Obs.item?, hother]) hsc' ?_
    rw [heap, Function.update_of_ne hne]
    exact ⟨rfl, rfl, fun ha => ⟨ha, rfl⟩⟩

/-- A request is admitted under a sequence id that no entry of the log mentions. -/
theorem admission (h : Dispatches w) {lookup : PrefixLookup}
    (hobs : ∀ o ∈ obs, o.idle = true) (config : w'.config = w.config)
    (trace : w'.trace = w.trace ++ (obs ++
      [.admitted p w.nextSeqId lookup.prefixHitBlocks (w.heap p).generatedTokens.length]))
    (heap : w'.heap = Function.update w.heap p { w.heap p with
      scheduling := some ((w.heap p).admitScheduling w.config.kvBlockSize w.nextSeqId lookup) }) :
    ∀ q sc', w'.Scheduled q sc' → Tracks w' q sc' := by
  have hnone : ∀ seq, dispatchedItems seq (obs ++ [.admitted p w.nextSeqId
      lookup.prefixHitBlocks (w.heap p).generatedTokens.length]) = [] := fun seq => by
    rw [dispatchedItems_append, dispatchedItems_idle hobs]
    rfl
  intro q sc' hsc'
  rw [World.Scheduled, heap] at hsc'
  rcases eq_or_ne q p with rfl | hne
  · rw [Function.update_self] at hsc'
    cases hsc'
    have hfresh : dispatchedItems w.nextSeqId w.trace = [] := by
      refine List.filter_eq_nil_iff.mpr fun item hitem heq => ?_
      obtain ⟨o, ho, hsome⟩ := List.mem_filterMap.mp hitem
      cases o <;> cases hsome
      exact absurd (h.given item ho) (by rw [beq_iff_eq.mp heq]; exact lt_irrefl _)
    refine ⟨⟨(w.heap q).generatedTokens.length, ?_⟩, fun _ => ?_⟩
    · rw [trace]
      exact List.mem_append_right _ (List.mem_append_right _ (List.mem_singleton.mpr rfl))
    · rw [config, trace, dispatchedItems_append, hnone, List.append_nil]
      simp only [RequestState.admitScheduling, hfresh]
      rfl
  · rw [Function.update_of_ne hne] at hsc'
    refine h.tracks config trace (hnone _) hsc' ?_
    rw [heap, Function.update_of_ne hne]
    exact ⟨rfl, rfl, fun ha => ⟨ha, rfl⟩⟩

theorem allocLog_idle {leak : BlockTable} (logged : AllocLog obs leak) :
    ∀ o ∈ obs, o.idle = true := by
  cases logged with
  | none => exact fun o ho => nomatch ho
  | call =>
    intro o ho
    rw [List.mem_singleton.mp ho]
    rfl

/-- Every transaction keeps the scheduling states in step with the log. -/
theorem step_tracks (h : Dispatches w) (core : Core w) (t : World.Step w w') :
    ∀ p sc, w'.Scheduled p sc → Tracks w' p sc := by
  have hbs : w.kv.pool.blockSize = w.config.kvBlockSize := core.ownership.blockSize
  -- the object changes in its status or its channel only, or becomes inactive
  have hkeep : ∀ (p : RequestPtr) (st : RequestState), st.scheduling = (w.heap p).scheduling →
      (st.status = .active → (w.heap p).status = .active) →
      ∀ sc', st.scheduling = some sc' → ∃ sc, w.Scheduled p sc ∧ SameTotal (w.heap p) sc st sc' :=
    fun p st hst hstatus sc' hsc' =>
      ⟨sc', hst.symm.trans hsc', rfl, rfl, fun ha => ⟨hstatus ha, rfl⟩⟩
  cases t with
  | note o quiet =>
    obtain ⟨id, err, rfl⟩ := quiet
    exact h.untouched rfl rfl (by simp [Obs.idle]) rfl
  | register | park =>
    exact h.touched rfl rfl (by simp [Obs.idle]) rfl fun sc' hsc' => nomatch hsc'
  | expire p =>
    exact h.touched rfl (List.append_nil _).symm nofun rfl (hkeep p _ rfl id)
  | cancel | finish | fail =>
    exact h.touched rfl rfl (by simp [Obs.idle]) rfl (hkeep _ _ rfl nofun)
  | blocks _ _ _ _ logged => exact h.untouched rfl rfl (allocLog_idle logged) rfl
  | grow _ sc _ _ _ _ scheduled _ _ _ _ logged =>
    refine h.touched rfl rfl (allocLog_idle logged) rfl fun sc' hsc' => ?_
    cases hsc'
    exact ⟨sc, scheduled, rfl, rfl, fun ha => ⟨ha, rfl⟩⟩
  | dispatch _ _ _ _ _ scheduled active itemFor =>
    exact h.dispatched core scheduled active itemFor.seqId_eq rfl rfl rfl
  | admission _ _ _ _ _ _ _ _ _ _ _ _ _ _ logged =>
    exact h.admission (allocLog_idle logged) rfl rfl (by rw [← hbs])
  | drop _ _ _ _ _ _ _ _ _ released =>
    refine h.touched rfl rfl (fun o ho => ?_) rfl fun sc' hsc' => nomatch hsc'
    rcases RequestState.mem_leaving released ho with ⟨sc, -, rfl⟩ | ⟨e, -, rfl⟩ | rfl <;> rfl
  | discard _ _ _ _ sc split _ scheduled seq ignored =>
    refine h.touched rfl (List.append_nil _).symm nofun rfl fun sc' hsc' => ?_
    cases hsc'
    refine ⟨sc, scheduled, rfl, rfl, fun active => absurd active ?_⟩
    exact core.discarded_inactive split scheduled seq ignored
  | retireChunk _ _ _ _ _ sc front _ scheduled seq active =>
    refine h.touched rfl (List.append_nil _).symm nofun rfl fun sc' hsc' => ?_
    cases hsc'
    refine ⟨sc, scheduled, rfl, rfl, fun _ => ⟨active, ?_⟩⟩
    exact (core.front_geometry front scheduled seq).retired_total active
  | retire _ item _ _ _ sc advanced written _ front _ scheduled seq active settles =>
    obtain ⟨hseqId, -, hreservation, hfrontier, -, hhits, -⟩ := settles.advanced
    refine h.touched rfl rfl (fun o ho => ?_) rfl fun sc' hsc' => ?_
    · rcases settles.mem_log ho with ⟨start, context, rfl⟩ | ⟨id, index, tokens, rfl⟩ |
        ⟨event, rfl⟩ | ⟨status, rfl⟩ <;> rfl
    · cases hsc'
      have publish := w.kv.publishItem_published advanced item written
      refine ⟨sc, scheduled, ?_, ?_, fun _ => ⟨active, ?_⟩⟩
      · simp [publish.plan.seqId, hseqId]
      · simp [publish.plan.hitBlocks, hhits]
      · rw [← (core.front_geometry front scheduled seq).retired_total active]
        simp [SequenceSchedulingState.nextPosition, publish.plan.executedFrontier,
          publish.plan.reservation, hreservation, hfrontier]
  | _ => exact h.untouched rfl (List.append_nil _).symm nofun rfl

/-- Every transaction keeps the log gapless. -/
theorem step (h : Dispatches w) (core : Core w) (t : World.Step w w') : Dispatches w' := by
  obtain ⟨obs, htrace, hlogs⟩ := t.logs
  have hentry : ∀ {o}, o ∈ w'.trace → o ∈ w.trace ∨ w.Logs w' o := fun ho => by
    rw [htrace] at ho
    exact (List.mem_append.mp ho).imp_right (hlogs _)
  have hstate := h.step_tracks core t
  refine ⟨fun item hitem => ?_, fun item hitem => ?_, fun p seq hits g hp => ?_,
    fun p q seq hits hits' g g' hp hq => ?_, fun n item hn => ?_,
    fun p sc hsc => (hstate p sc hsc).1, fun p sc hsc => (hstate p sc hsc).2⟩
  · rcases hentry hitem with hitem | ⟨-, p, sc, scheduled, active, itemFor⟩
    · exact h.spanned item hitem
    · have hgeo := core.geometry scheduled
      rintro work rfl
      obtain ⟨hpos, hstart, -⟩ := hgeo.item_span active itemFor
      exact ⟨(hgeo.dispatched active itemFor).tokens work (by simp), hpos, hstart.symm⟩
  · refine lt_of_lt_of_le ?_ t.nextSeqId_le
    rcases hentry hitem with hitem | ⟨-, p, sc, scheduled, -, itemFor⟩
    · exact h.given item hitem
    · rw [itemFor.seqId_eq]
      exact core.positions.seq_lt p sc scheduled
  · rcases hentry hp with hp | ⟨-, -, heq, hnext, -⟩
    · exact (h.admitted_given p seq hits g hp).trans_le t.nextSeqId_le
    · rw [heq, hnext]
      exact Nat.lt_succ_self _
  · rcases hentry hp with hp | ⟨hfront, -, heq, -, sc, hsc, -, hhits⟩ <;>
      rcases hentry hq with hq | ⟨hfront', -, heq', -, sc', hsc', -, hhits'⟩
    · exact h.once p q seq hits hits' g g' hp hq
    · exact absurd (h.admitted_given _ _ _ _ hp) (by rw [heq']; exact lt_irrefl _)
    · exact absurd (h.admitted_given _ _ _ _ hq) (by rw [heq]; exact lt_irrefl _)
    · obtain rfl := Option.some.inj (hfront.symm.trans hfront')
      obtain rfl := Option.some.inj (hsc.symm.trans hsc')
      exact hhits.symm.trans hhits'
  · rw [t.config_eq]
    rcases Nat.lt_or_ge n w.trace.length with hlt | hge
    · rw [htrace, List.getElem?_append_left hlt] at hn
      rw [htrace, List.take_append_of_le_length hlt.le]
      exact h.gapless n item hn
    · -- a new entry about a dispatch is the only new entry
      rw [htrace, List.getElem?_append_right hge] at hn
      obtain ⟨hsingle, p, sc, scheduled, active, itemFor⟩ := hlogs _ (List.mem_of_getElem? hn)
      obtain rfl := List.append_cancel_left (htrace.symm.trans hsingle)
      obtain ⟨hzero, -⟩ := List.getElem?_eq_some_iff.mp hn
      rw [List.length_singleton] at hzero
      obtain rfl : n = w.trace.length := by omega
      obtain ⟨generated, hadmitted⟩ := h.scheduled p sc scheduled
      rw [htrace, List.take_left]
      refine ⟨p, sc.hitBlocks, generated, by rw [itemFor.seqId_eq]; exact hadmitted, ?_⟩
      rw [itemFor.context_eq, itemFor.seqId_eq]
      exact h.total p sc scheduled active

/-- Every run keeps the log gapless. -/
theorem run {config : ValidConfig} (run : World.Run (World.init config) w) : Dispatches w :=
  (Runs.invariant (I := fun x => Core x ∧ Dispatches x)
    (fun _ _ h t => ⟨h.1.step t, h.2.step h.1 t⟩) ⟨.init config, .init config⟩ run).2

end Dispatches

/-- The dispatch of every item in flight is in the log. -/
theorem World.Step.flight_logged {w' : World} (t : World.Step w w')
    (h : ∀ f ∈ w.flight, .dispatched f.item ∈ w.trace) :
    ∀ f ∈ w'.flight, .dispatched f.item ∈ w'.trace := by
  obtain ⟨obs, htrace, -⟩ := t.logs
  have hold : ∀ f ∈ w.flight, .dispatched f.item ∈ w'.trace := fun f hf =>
    htrace ▸ List.mem_append_left obs (h f hf)
  -- an item that gets its fate stays the same item
  have hrefate : ∀ (before after : List FlightItem) (f : FlightItem) (fate : Fate),
      w.flight = before ++ f :: after →
      ∀ g ∈ before ++ { f with fate := fate } :: after, .dispatched g.item ∈ w'.trace := by
    intro before after f fate split
    rw [split] at hold
    exact forall_mem_refated hold (hold f (by simp))
  cases t with
  | dispatch =>
    intro f hf
    rcases List.mem_append.mp hf with hf | hf
    · exact hold f hf
    · rw [List.mem_singleton.mp hf]
      exact List.mem_append_right _ (List.mem_singleton.mpr rfl)
  | discard before after f _ _ split =>
    intro g hg
    refine hold g ?_
    rw [split]
    exact ((List.sublist_cons_self f after).append_left before).subset hg
  | retireChunk rest chunk sampling token p sc front
    | retire rest item sampling token p sc advanced written head front =>
    exact fun g hg => hold g (by rw [front]; exact List.mem_cons_of_mem _ hg)
  | process before after f token split | skipStale before after f split
    | processFail before after f err k split =>
    exact hrefate before after f _ split
  | _ => exact hold

theorem World.Run.flight_logged
    (run : World.Run (World.init config) w) : ∀ f ∈ w.flight, .dispatched f.item ∈ w.trace :=
  Runs.invariant (I := fun x => ∀ f ∈ x.flight, .dispatched f.item ∈ x.trace)
    (fun _ _ h t => t.flight_logged h) (fun _ hf => absurd hf List.not_mem_nil) run

/-- A sequence with a dispatched item was admitted. -/
theorem Dispatches.admitted (h : Dispatches w) (hitem : .dispatched item ∈ w.trace) :
    ∃ p hits generated, .admitted p item.seqId hits generated ∈ w.trace := by
  obtain ⟨n, hn⟩ := List.mem_iff_getElem?.mp hitem
  obtain ⟨p, hits, generated, hmem, -⟩ := h.gapless n item hn
  exact ⟨p, hits, generated, List.mem_of_mem_take hmem⟩

end CcInfer
