import CcInfer.Abstract.View
import CcInfer.Invariant.Positions

/-!
# `CcInfer.Invariant.Views`: a world is the lives of its requests
-/

set_option autoImplicit false

namespace CcInfer

open World

/-- Items in flight belong to running requests, and the worker knows nothing of sequence ids
that were not given out yet. -/
structure Flights (w : World) : Prop where
  flight : ∀ f ∈ w.flight, (w.bySeqId f.seqId).isSome
  latest_fresh : ∀ seq, w.nextSeqId ≤ seq → w.latestTokens seq = none
  failed_fresh : ∀ seq, w.nextSeqId ≤ seq → w.failedSequences seq = false
  fed_fresh : ∀ seq, w.nextSeqId ≤ seq → w.fed seq = []

namespace Flights

variable {w : World}
variable {f : FlightItem} {seq : SequenceId}

theorem init (config : ValidConfig) : Flights (.of (.init config) [] .init) := by
  constructor <;> simp [of, Scheduler.init, Worker.init]

/-- The owner of an item in flight. -/
theorem owner (h : Flights w) (hp : Positions w) (hf : f ∈ w.flight) :
    ∃ p ∈ w.running, ∃ sc, (w.heap p).scheduling = some sc ∧ sc.seqId = f.seqId := by
  obtain ⟨p, hsome⟩ := Option.isSome_iff_exists.mp (h.flight f hf)
  exact ⟨p, (hp.bySeqId _ p).mp hsome⟩

/-- The sequence of an item in flight was given out. -/
theorem seq_lt (h : Flights w) (hp : Positions w) (hf : f ∈ w.flight) : f.seqId < w.nextSeqId := by
  obtain ⟨p, -, sc, hsc, heq⟩ := h.owner hp hf
  rw [← heq]
  exact hp.seq_lt p sc hsc

/-- No item in flight has a sequence id that was not given out. -/
theorem itemsOf_fresh (h : Flights w) (hp : Positions w) : w.itemsOf w.nextSeqId = [] := by
  refine List.filter_eq_nil_iff.mpr fun f hf heq => ?_
  have := h.seq_lt hp hf
  rw [beq_iff_eq.mp heq] at this
  exact lt_irrefl _ this

theorem mem_itemsOf : f ∈ w.itemsOf seq ↔ f ∈ w.flight ∧ f.seqId = seq := by
  simp [itemsOf]

/-- Forgetting a sequence without items in flight. -/
theorem forget (h : Flights w) (empty : w.itemsOf seq = []) :
    ∀ f ∈ w.flight, (Function.update w.bySeqId seq none f.seqId).isSome := by
  intro f hf
  have hne : f.seqId ≠ seq := by
    intro heq
    have := mem_itemsOf.mpr ⟨hf, heq⟩
    rw [empty] at this
    exact List.not_mem_nil this
  rw [Function.update_of_ne hne]
  exact h.flight f hf

/-- Every transaction keeps the items in flight owned, provided that a request without
leases has none. -/
theorem step (h : Flights w) (hp : Positions w)
    (idle_nil : ∀ p sc, (w.heap p).scheduling = some sc → sc.reservation.executionLeases = 0 →
      w.itemsOf sc.seqId = []) {w' : World} (t : World.Step w w') : Flights w' := by
  -- A processed item keeps its sequence, which was given out.
  have refate : ∀ (before after : List FlightItem) (f : FlightItem) (fate : Fate),
      w.flight = before ++ f :: after →
      ∀ g ∈ before ++ { f with fate := fate } :: after, (w.bySeqId g.seqId).isSome := by
    intro before after f fate split
    have hflight := h.flight
    rw [split] at hflight
    exact forall_mem_refated hflight (hflight f (by simp))
  have given : ∀ (before after : List FlightItem) (f : FlightItem),
      w.flight = before ++ f :: after → ∀ seq, w.nextSeqId ≤ seq → seq ≠ f.seqId := by
    rintro _ _ f split _ hseq rfl
    exact absurd (h.seq_lt hp (f := f) (by rw [split]; simp)) (not_lt.mpr hseq)
  have fewer : ∀ {items : List FlightItem}, items ⊆ w.flight →
      ∀ g ∈ items, (w.bySeqId g.seqId).isSome := fun hsub g hg => h.flight g (hsub hg)
  cases t with
  | dispatch p sc _ _ running scheduled _ itemFor =>
    refine ⟨fun f hf => ?_, h.latest_fresh, h.failed_fresh, h.fed_fresh⟩
    rcases List.mem_append.mp hf with hf | hf
    · exact h.flight f hf
    · have hseq : f.seqId = sc.seqId := by
        rw [List.mem_singleton.mp hf]
        exact itemFor.seqId_eq
      rw [hseq]
      exact Option.isSome_iff_exists.mpr ⟨p, (hp.bySeqId _ p).mpr ⟨running, sc, scheduled, rfl⟩⟩
  | admission =>
    refine ⟨fun f hf => ?_, fun seq hs => h.latest_fresh seq (Nat.le_of_succ_le hs),
      fun seq hs => h.failed_fresh seq (Nat.le_of_succ_le hs),
      fun seq hs => h.fed_fresh seq (Nat.le_of_succ_le hs)⟩
    simp only [Function.update_apply]
    split
    · rfl
    · exact h.flight f hf
  | resume =>
    refine ⟨fun f hf => ?_, h.latest_fresh, h.failed_fresh, h.fed_fresh⟩
    simp only [Function.update_apply]
    split
    · rfl
    · exact h.flight f hf
  | preempt p sc running scheduled active idle | park p sc kv scheduled idle =>
    exact ⟨h.forget (idle_nil p sc scheduled idle), h.latest_fresh, h.failed_fresh, h.fed_fresh⟩
  | drop p _ _ _ idle =>
    refine ⟨?_, h.latest_fresh, h.failed_fresh, h.fed_fresh⟩
    rcases hsc : (w.heap p).scheduling with _ | sc
    · simpa only [hsc] using h.flight
    · simpa only [hsc] using h.forget (idle_nil p sc hsc (idle sc hsc))
  | discard before after f _ _ split =>
    refine ⟨fewer ?_, h.latest_fresh, h.failed_fresh, h.fed_fresh⟩
    rw [split]
    exact ((List.sublist_cons_self f after).append_left before).subset
  | retireChunk rest chunk sampling token p sc front
    | retire rest item sampling token p sc advanced written head front =>
    refine ⟨fewer ?_, h.latest_fresh, h.failed_fresh, h.fed_fresh⟩
    rw [front]
    exact List.subset_cons_self _ _
  | process before after f token split =>
    obtain ⟨h1, h2, h3, -, -⟩ := w.processed_fields f token
    refine ⟨refate before after f _ split, fun seq hs => ?_, fun seq hs => ?_, fun seq hs => ?_⟩
    all_goals have hne : seq ≠ f.seqId := given before after f split seq hs
    · exact (congrFun h1 seq).trans (by rw [Function.update_of_ne hne]; exact h.latest_fresh seq hs)
    · exact (congrFun h2 seq).trans (h.failed_fresh seq hs)
    · exact (congrFun h3 seq).trans (by rw [Function.update_of_ne hne]; exact h.fed_fresh seq hs)
  | skipStale before after f split =>
    exact ⟨refate before after f _ split, h.latest_fresh, h.failed_fresh, h.fed_fresh⟩
  | processFail before after f _ _ split _ _ fails =>
    obtain ⟨h1, -, h2, -⟩ := fails.fields
    refine ⟨refate before after f _ split, fun seq hs => ?_, fun seq hs => ?_, fun seq hs => ?_⟩
    all_goals have hne : seq ≠ f.item.seqId := given before after f split seq hs
    · exact (congrFun h1 seq).trans (h.latest_fresh seq hs)
    · exact (h2 seq hne).1.trans (h.failed_fresh seq hs)
    · exact (h2 seq hne).2.trans (h.fed_fresh seq hs)
  | _ => exact ⟨h.flight, h.latest_fresh, h.failed_fresh, h.fed_fresh⟩

end Flights

namespace World

variable {w w' : World} {p q : RequestPtr} {sc : SequenceSchedulingState} {st : RequestState}
  {f : FlightItem} {before after : List FlightItem} {seq : SequenceId}
variable {rest : List FlightItem} {k : Worker} {fate : Fate}

/-- The items of the sequence of an item. -/
theorem itemsOf_split (split : w.flight = before ++ f :: after) (hseq : seq = f.seqId) :
    w.itemsOf seq = before.filter (fun g => g.seqId == seq) ++
      f :: after.filter (fun g => g.seqId == seq) := by
  rw [itemsOf, split, List.filter_append, List.filter_cons_of_pos (by simp [hseq])]

/-- A change of the items of one sequence is invisible to the others. -/
theorem itemsOf_replaced {mid : List FlightItem} (split : w.flight = before ++ f :: after)
    (split' : w'.flight = before ++ (mid ++ after)) (same : ∀ g ∈ mid, g.seqId = f.seqId)
    (hne : seq ≠ f.seqId) : w'.itemsOf seq = w.itemsOf seq := by
  have hmid : mid.filter (fun g => g.seqId == seq) = [] := by
    refine List.filter_eq_nil_iff.mpr fun g hg => ?_
    rw [same g hg, beq_iff_eq]
    exact hne.symm
  have hf : (f :: after).filter (fun g => g.seqId == seq) =
      after.filter (fun g => g.seqId == seq) :=
    List.filter_cons_of_neg (by simpa using hne.symm)
  rw [itemsOf, itemsOf, split, split', List.filter_append, List.filter_append, hmid,
    List.nil_append, List.filter_append, hf]

/-- The same for an item that leaves. -/
theorem itemsOf_removed (split : w.flight = before ++ f :: after)
    (split' : w'.flight = before ++ after) (hne : seq ≠ f.seqId) :
    w'.itemsOf seq = w.itemsOf seq := by
  have hreplaced : w'.flight = before ++ ([] ++ after) := split'
  exact itemsOf_replaced split hreplaced (by simp) hne

/-- The same for the oldest item. -/
theorem itemsOf_popped (front : w.flight = f :: rest)
    (popped : w'.flight = rest) (hne : seq ≠ f.seqId) : w'.itemsOf seq = w.itemsOf seq :=
  itemsOf_removed (show w.flight = [] ++ f :: rest from front) popped hne

@[simp] theorem view_req : (w.view p).req = w.heap p := by
  unfold view; split <;> rfl

@[simp] theorem view_log : (w.view p).log = w.trace.filter (Obs.about p) := by
  unfold view; split <;> rfl

theorem view_of_some (h : (w.heap p).scheduling = some sc) :
    w.view p = ⟨w.heap p, w.itemsOf sc.seqId, w.hitTokens sc.seqId ++ w.fed sc.seqId,
      w.latestTokens sc.seqId, w.failedSequences sc.seqId, w.trace.filter (Obs.about p)⟩ := by
  unfold view; rw [h]

/-- The items of the owner of an item. -/
theorem view_items_split (split : w.flight = before ++ f :: after)
    (h : (w.heap p).scheduling = some sc) (seq : sc.seqId = f.seqId) :
    (w.view p).items = before.filter (fun g => g.seqId == sc.seqId) ++
      f :: after.filter (fun g => g.seqId == sc.seqId) := by
  rw [view_of_some h]
  exact itemsOf_split split seq

/-- The oldest item in flight is the oldest of its owner. -/
theorem view_items_front (front : w.flight = f :: rest)
    (h : (w.heap p).scheduling = some sc) (seq : sc.seqId = f.seqId) :
    (w.view p).items = f :: rest.filter fun g => g.seqId == sc.seqId :=
  view_items_split (show w.flight = [] ++ f :: rest from front) h seq

theorem view_of_none (h : (w.heap p).scheduling = none) :
    w.view p = ⟨w.heap p, [], [], none, false, w.trace.filter (Obs.about p)⟩ := by
  unfold view; rw [h]

/-- The items in flight of a sequence and what the worker knows of it stay. -/
structure SameLane (w w' : World) (seq : SequenceId) : Prop where
  items : w'.itemsOf seq = w.itemsOf seq
  hitTokens : w'.hitTokens seq = w.hitTokens seq
  fed : w'.fed seq = w.fed seq
  latest : w'.latestTokens seq = w.latestTokens seq
  failed : w'.failedSequences seq = w.failedSequences seq

/-- A transaction that leaves the object, the log and the sequence of a request alone leaves
its view alone. -/
theorem view_congr (heap : w'.heap q = w.heap q)
    (log : w'.trace.filter (Obs.about q) = w.trace.filter (Obs.about q))
    (lane : ∀ sc, (w.heap q).scheduling = some sc → SameLane w w' sc.seqId) :
    w'.view q = w.view q := by
  rcases hsc : (w.heap q).scheduling with _ | sc
  · rw [view_of_none hsc, view_of_none (by rw [heap, hsc]), heap, log]
  · obtain ⟨h1, h2, h3, h4, h5⟩ := lane sc hsc
    rw [view_of_some hsc, view_of_some (by rw [heap, hsc]), heap, log, h1, h2, h3, h4, h5]

/-- A transaction about `p` that rewrites only the object and the log of `p` is invisible to
the other requests. -/
theorem view_frame (hne : q ≠ p) {obs : List Obs} (heap : w'.heap = Function.update w.heap p st)
    (trace : w'.trace = w.trace ++ obs) (about : obs.filter (Obs.about q) = [])
    (lane : ∀ sc, (w.heap q).scheduling = some sc → SameLane w w' sc.seqId) :
    w'.view q = w.view q := by
  refine view_congr (by rw [heap, Function.update_of_ne hne]) ?_ lane
  rw [trace, List.filter_append, about, List.append_nil]

/-- The view of a request whose object changes, with the same sequence, and whose log
grows. -/
theorem view_touch {own : List Obs} (heap : w'.heap p = st)
    (seqs : st.scheduling.map (·.seqId) = (w.heap p).scheduling.map (·.seqId))
    (log : w'.trace.filter (Obs.about p) = w.trace.filter (Obs.about p) ++ own)
    (lane : ∀ seq, SameLane w w' seq) :
    w'.view p = { w.view p with req := st, log := (w.view p).log ++ own } := by
  rcases hsc : (w.heap p).scheduling with _ | sc
  · have hnone : st.scheduling = none := by simpa [hsc] using seqs
    rw [view_of_none hsc, view_of_none (by rw [heap, hnone]), heap, log]
  · rw [hsc] at seqs
    obtain ⟨_, hsc', heq⟩ := Option.map_eq_some_iff.mp seqs
    obtain ⟨h1, h2, h3, h4, h5⟩ := lane sc.seqId
    rw [view_of_some hsc, view_of_some (by rw [heap, hsc']), heap, log, heq, h1, h2, h3, h4, h5]

/-- The worker answers `f`, which is invisible to the other requests. -/
theorem view_answered_other (split : w.flight = before ++ f :: after)
    (other : ∀ sc, (w.heap q).scheduling = some sc → sc.seqId ≠ f.seqId)
    (fed : ∀ seq, seq ≠ f.seqId → k.fed seq = w.fed seq)
    (latest : ∀ seq, seq ≠ f.seqId → k.latestTokens seq = w.latestTokens seq)
    (failed : ∀ seq, seq ≠ f.seqId → k.failedSequences seq = w.failedSequences seq) :
    { w.withWorker k with flight := before ++ { f with fate := fate } :: after }.view q =
      w.view q := by
  refine view_congr rfl rfl fun sc hsc => ⟨?_, rfl, ?_, ?_, ?_⟩
  · refine itemsOf_replaced split (show _ = before ++ ([{ f with fate := fate }] ++ after) from rfl)
      (fun g hg => ?_) (other sc hsc)
    rw [List.mem_singleton.mp hg]
    rfl
  · exact fed _ (other sc hsc)
  · exact latest _ (other sc hsc)
  · exact failed _ (other sc hsc)

/-- The worker answers `f`, as its owner sees it. -/
theorem view_answered (h : (w.heap p).scheduling = some sc) (seq : sc.seqId = f.seqId) :
    { w.withWorker k with flight := before ++ { f with fate := fate } :: after }.view p =
      { w.view p with
        items := before.filter (fun g => g.seqId == sc.seqId) ++
          { f with fate := fate } :: after.filter (fun g => g.seqId == sc.seqId)
        known := w.hitTokens sc.seqId ++ k.fed sc.seqId
        latest := k.latestTokens sc.seqId
        failed := k.failedSequences sc.seqId } := by
  rw [view_of_some h]
  refine Eq.symm (Eq.trans ?_ (Eq.symm (view_of_some h)))
  simp [itemsOf, withWorker, seq, FlightItem.seqId]

end World

theorem View.Step.cast {p : RequestPtr} {maxBlocks blockSize : Nat}
    {sampler : List Token → Token → Prop} {params : SamplingParams → Prop} {v v₁ v' : View}
    (h : View.Step p maxBlocks blockSize sampler params v v₁) (e : v₁ = v') :
    View.Step p maxBlocks blockSize sampler params v v' := e ▸ h

section Frame

variable {p q : RequestPtr} {st : RequestState} {sc advanced : SequenceSchedulingState}
  {item : WorkItem} {written : List Token} {head : List Obs} {f : FlightItem} {token : Token}
variable {kv : KvBlocks} {o : Obs}

/-- The log of an allocation is about no request. -/
theorem AllocLog.about {obs : List Obs} {leak : BlockTable} (h : AllocLog obs leak)
    (q : RequestPtr) : obs.filter (Obs.about q) = [] := by
  cases h <;> simp [Obs.about]

theorem RequestState.tailObs_self (p : RequestPtr) (st : RequestState) (f : FlightItem)
    (token : Token) : (RequestState.tailObs p st f token).filter (Obs.about p) =
      RequestState.tailObs p st f token := by
  refine List.filter_eq_self.mpr fun o ho => ?_
  unfold RequestState.tailObs at ho
  grind [Obs.about]

theorem Settles.head_about (h : Settles p st sc item advanced written head) :
    head.filter (Obs.about p) = head := by
  cases h <;> simp [Obs.about]

/-- What a settling retirement logs. -/
theorem Settles.mem_log (h : Settles p st sc item advanced written head)
    (ho : o ∈ head ++ (kv.publishItem advanced item written).2.2 ++
      RequestState.tailObs p st f token) : (∃ start context, o = .finalChunk p start context) ∨
      (∃ id index tokens, o = .published sc.seqId id index tokens) ∨
      (∃ event, o = .sent p event) ∨ ∃ status, o = .statusSet p status := by
  rw [List.mem_append, List.mem_append] at ho
  rcases ho with (ho | ho) | ho
  · exact .inl (h.mem_head ho)
  · have hobs := kv.publishItem_obs advanced item written o ho
    rw [h.advanced.1] at hobs
    exact .inr (.inl hobs)
  · rcases RequestState.mem_tailObs ho with hsent | hstatus | ⟨hstatus, -⟩
    · exact .inr (.inr (.inl hsent))
    · exact .inr (.inr (.inr ⟨_, hstatus⟩))
    · exact .inr (.inr (.inr ⟨_, hstatus⟩))

/-- A settling retirement logs nothing about other requests. -/
theorem Settles.log_others {q : RequestPtr} (hne : q ≠ p)
    (h : Settles p st sc item advanced written head)
    (ho : o ∈ head ++ (kv.publishItem advanced item written).2.2 ++
      RequestState.tailObs p st f token) : Obs.about q o = false := by
  rcases h.mem_log ho with ⟨_, _, rfl⟩ | ⟨_, _, _, rfl⟩ | ⟨_, rfl⟩ |
    ⟨status, rfl⟩ <;> simp [Obs.about, Ne.symm hne]

/-- Publications are about no request. -/
theorem KvBlocks.publishItem_about (kv : KvBlocks) (sc : SequenceSchedulingState)
    (item : WorkItem) (written : List Token) (q : RequestPtr) :
    (kv.publishItem sc item written).2.2.filter (Obs.about q) = [] := by
  refine List.filter_eq_nil_iff.mpr fun o ho => ?_
  obtain ⟨_, _, _, rfl⟩ := kv.publishItem_obs sc item written o ho
  exact Bool.false_ne_true

end Frame

section Transfer

variable {w w' : World} {maxBlocks blockSize : Nat} {sampler : List Token → Token → Prop}
  {params : SamplingParams → Prop}

/-- A transaction that rewrites the object of `p`, with the same sequence, and logs about `p`
only. -/
theorem World.view_told {p q : RequestPtr} {st st' : RequestState} {obs own log : List Obs}
    (heap : w'.heap = Function.update w.heap p st)
    (seqs : st.scheduling.map (·.seqId) = (w.heap p).scheduling.map (·.seqId))
    (trace : w'.trace = w.trace ++ obs) (about : obs.filter (Obs.about p) = own)
    (others : ∀ q, q ≠ p → obs.filter (Obs.about q) = [])
    (lane : ∀ seq, SameLane w w' seq) (req : st' = st) (grown : log = (w.view p).log ++ own)
    (step : View.Step p maxBlocks blockSize sampler params (w.view p)
      { w.view p with req := st', log := log }) :
    w'.view q = w.view q ∨
    View.Step q maxBlocks blockSize sampler params (w.view q) (w'.view q) := by
  subst req grown
  rcases eq_or_ne q p with rfl | hne
  · have hobject : w'.heap q = st' := by rw [heap, Function.update_self]
    have hview := view_touch hobject seqs (by rw [trace, List.filter_append, about]) lane
    exact .inr (hview ▸ step)
  · exact .inl (view_frame hne heap trace (others q hne) fun sc _ => lane sc.seqId)

/-- Every transaction is a transaction of one request and invisible to the others. -/
theorem World.Step.view (hp : Positions w) (hf : Flights w)
    (hmax : w.kv.pool.maxBlocks = maxBlocks) (hsize : w.kv.pool.blockSize = blockSize)
    (hconfig : w.config.kvBlockSize = blockSize)
    (hparams : ∀ q, q < w.nextPtr → params (w.heap q).sampling) (t : World.Step w w')
    (hsampler : ∀ e ∈ w'.samples, sampler e.context e.token) (q : RequestPtr) (hq : q < w.nextPtr) :
    w'.view q = w.view q ∨
    View.Step q maxBlocks blockSize sampler params (w.view q) (w'.view q) := by
  have others : ∀ {p : RequestPtr} {sc : SequenceSchedulingState}, q ≠ p →
      (w.heap p).scheduling = some sc →
      ∀ sc', (w.heap q).scheduling = some sc' → sc'.seqId ≠ sc.seqId :=
    fun hne hsc sc' hsc' heq => hne (hp.seq_inj _ _ _ _ hsc' hsc heq)
  cases t with
  | note o quiet =>
    left
    refine view_congr rfl ?_ (fun _ _ => ⟨rfl, rfl, rfl, rfl, rfl⟩)
    obtain ⟨_, _, rfl⟩ := quiet
    simp [log, Obs.about]
  | register =>
    have hne : q ≠ w.nextPtr := ne_of_lt hq
    exact .inl (view_frame hne rfl rfl (by simp [Obs.about, Ne.symm hne])
      (fun _ _ => ⟨rfl, rfl, rfl, rfl, rfl⟩))
  | cancel p _ active =>
    exact view_told rfl rfl rfl (by simp [Obs.about])
      (fun q hne => by simp [Obs.about, hne.symm]) (fun _ => ⟨rfl, rfl, rfl, rfl, rfl⟩)
      (by simp) rfl (.cancel (w.view p) (by simpa using active))
  | expire p =>
    exact view_told rfl rfl (List.append_nil _).symm rfl (fun _ _ => rfl)
      (fun _ => ⟨rfl, rfl, rfl, rfl, rfl⟩) (by simp) (List.append_nil _).symm
      (.expire (w.view p))
  | finish p sc _ scheduled active reason =>
    exact view_told rfl rfl rfl (by simp [Obs.about])
      (fun q hne => by simp [Obs.about, hne.symm]) (fun _ => ⟨rfl, rfl, rfl, rfl, rfl⟩)
      (by simp) rfl (.finish (w.view p) sc (by simpa using scheduled) (by simpa using active)
        (by simpa using reason))
  | fail p err _ active =>
    exact view_told rfl rfl rfl (by simp [Obs.about])
      (fun q hne => by simp [Obs.about, hne.symm]) (fun _ => ⟨rfl, rfl, rfl, rfl, rfl⟩)
      (by simp) rfl (.fail (w.view p) err (by simpa using active))
  | blocks _ _ _ _ logged =>
    left
    refine view_congr rfl ?_ (fun _ _ => ⟨rfl, rfl, rfl, rfl, rfl⟩)
    simp [log, logged.about]
  | grow p sc _ _ blocks _ scheduled active phase _ _ logged =>
    exact view_told rfl (by simp [show _ = _ from scheduled]) rfl (logged.about p)
      (fun q _ => logged.about q) (fun _ => ⟨rfl, rfl, rfl, rfl, rfl⟩) (by simp)
      (List.append_nil _).symm
      (.grow (w.view p) sc blocks (by simpa using scheduled) (by simpa using active) phase)
  | dispatch p sc item _ _ scheduled active itemFor shared =>
    have hseq : item.seqId = sc.seqId := itemFor.seqId_eq
    rcases eq_or_ne q p with rfl | hne
    · obtain ⟨r, hr, rfl⟩ := shared
      right
      refine (View.Step.dispatch (w.view q) sc item _ (by simpa using scheduled)
        (by simpa using active) (by simpa [← hsize] using itemFor) (hparams r hr)).cast ?_
      rw [view_of_some scheduled, view_of_some
        (show _ = some { sc with reservation := sc.reservation.reserve item } by
          simp [setRequest])]
      simp [itemsOf, setRequest, FlightItem.seqId, hseq, Obs.about]
    · refine .inl (view_frame hne rfl rfl (by simp [Obs.about])
        (fun sc' hsc' => ⟨?_, rfl, rfl, rfl, rfl⟩))
      have := others hne scheduled sc' hsc'
      simp [itemsOf, FlightItem.seqId, hseq, Ne.symm this]
  | admission p _ _ hits parent blocks _ _ admissible hashes _ _ blocks_length _ logged chained =>
    subst hmax hsize
    rcases eq_or_ne q p with rfl | hne
    · right
      have hle : hits.length ≤ (w.heap q).promptTokens.length / w.kv.pool.blockSize := by
        rw [← PrefixCache.chainHashes_length _ _ 0, ← List.length_map (f := (·.prefixHash))]
        exact hashes.length_le
      refine (View.Step.admission (w.view q) w.nextSeqId hits.length parent
        (hits.map (·.blockId) ++ blocks) (by simpa using admissible) ?_ ?_ ?_).cast ?_
      · rw [view_req]
        exact (Nat.mul_le_mul_right _ hle).trans (Nat.div_mul_le_self ..)
      · simpa using blocks_length
      · rw [view_req, chained, PrefixCache.getLast_of_isPrefix hashes, List.length_map]
      · rw [view_of_none admissible.unscheduled, view_of_some
          (show _ = some ((w.heap q).admitScheduling w.kv.pool.blockSize w.nextSeqId
            ⟨hits.map (·.blockId) ++ blocks, hits.length, parent⟩) by simp)]
        have hitems := hf.itemsOf_fresh hp
        simp only [itemsOf] at hitems
        simp [itemsOf, RequestState.admitScheduling, hitems, hf.fed_fresh _ le_rfl,
          hf.latest_fresh _ le_rfl, hf.failed_fresh _ le_rfl, logged.about, Obs.about]
    · refine .inl (view_frame hne rfl rfl ?_ (fun sc' hsc' => ⟨rfl, ?_, rfl, rfl, rfl⟩))
      · simp [logged.about, Obs.about, Ne.symm hne]
      · exact Function.update_of_ne (ne_of_lt (hp.seq_lt q sc' hsc')) ..
  | park p sc _ scheduled idle source =>
    rcases eq_or_ne q p with rfl | hne
    · right
      refine (View.Step.park (w.view q) sc (by simpa using scheduled) idle ?_).cast ?_
      · rw [view_req]
        rcases source with hskip | ⟨-, hactive⟩
        · exact hp.queued q (.inr hskip)
        · exact .inl hactive
      · rw [view_of_some scheduled, view_of_none (by simp [RequestState.parked])]
        simp [Obs.about]
    · exact .inl (view_frame hne rfl rfl (by simp [Obs.about, Ne.symm hne])
        (fun _ _ => ⟨rfl, rfl, rfl, rfl, rfl⟩))
  | drop p _ event _ idle last silent _ notes released =>
    have hquiet : notes.filter (Obs.about q) = [] := by
      refine List.filter_eq_nil_iff.mpr fun o ho => ?_
      rcases released with rfl | ⟨rfl, -⟩
      · rw [RequestState.releaseNotes, Option.mem_toList, Option.map_eq_some_iff] at ho
        obtain ⟨_, -, rfl⟩ := ho
        exact Bool.false_ne_true
      · cases ho
    rcases eq_or_ne q p with rfl | hne
    · right
      refine (View.Step.drop (w.view q) event (by simpa using idle) ?_
        (by simpa using silent)).cast ?_
      · intro e he
        rw [view_req]
        exact ⟨(last e he).1, hp.queued q (last e he).2⟩
      · refine Eq.trans ?_ (Eq.symm (view_of_none (by simp)))
        cases event <;> simp [Obs.about, hquiet]
    · refine .inl (view_frame hne rfl rfl ?_ (fun _ _ => ⟨rfl, rfl, rfl, rfl, rfl⟩))
      cases event <;> simp [Obs.about, hquiet, Ne.symm hne]
  | discard _ _ f p sc split _ scheduled seq ignored =>
    rcases eq_or_ne q p with rfl | hne
    · right
      refine (View.Step.discard (w.view q) _ _ f sc (view_items_split split scheduled seq)
        (by simpa using scheduled) ?_).cast ?_
      · rw [view_req]
        exact ignored.imp id (fun h => ⟨by rw [h.1]; rfl, h.2⟩)
      · rw [view_of_some scheduled, view_of_some
          (show _ = some { sc with reservation := sc.reservation.retire f.item } by
            simp [setRequest])]
        simp [itemsOf, setRequest]
    · refine .inl (view_frame hne rfl (List.append_nil _).symm rfl
        (fun sc' hsc' => ⟨?_, rfl, rfl, rfl, rfl⟩))
      exact itemsOf_removed split rfl (seq ▸ others hne scheduled sc' hsc')
  | retireChunk _ chunk sampling token p sc front _ scheduled seq active more =>
    rcases eq_or_ne q p with rfl | hne
    · right
      refine (View.Step.retireChunk (w.view q) _ chunk sampling token sc
        (view_items_front front scheduled seq) (by simpa using scheduled)
        (by simpa using active) (by simpa using more)).cast ?_
      rw [view_of_some scheduled, view_of_some
        (show _ = some (sc.advanceChunk chunk (w.heap q).promptTokens.length) by
          simp [setRequest])]
      simp [itemsOf, setRequest, SequenceSchedulingState.advanceChunk]
    · refine .inl (view_frame hne rfl (List.append_nil _).symm rfl
        (fun sc' hsc' => ⟨?_, rfl, rfl, rfl, rfl⟩))
      exact itemsOf_popped front rfl fun h =>
        others hne scheduled sc' hsc' (h.trans seq.symm)
  | retire _ item sampling token p sc advanced written head front _ scheduled seq active settles =>
    subst hsize
    rcases eq_or_ne q p with rfl | hne
    · right
      have hplan := w.kv.publishItem_plan advanced item written
      refine (View.Step.retire (w.view q) _ item sampling token sc advanced
        (w.kv.publishItem advanced item written).2.1 written head
        (view_items_front front scheduled seq) (by simpa using scheduled)
        (by simpa using active) (by simpa using settles)
        (w.kv.publishItem_published advanced item written)).cast ?_
      rw [view_of_some scheduled, view_of_some
        (show _ = some ((w.kv.publishItem advanced item written).2.1.leaveBootstrap item) by
          simp [settled, RequestState.retired])]
      simp [itemsOf, settled, hplan.seqId, settles.advanced.1, settles.head_about,
        KvBlocks.publishItem_about, RequestState.tailObs_self]
    · refine .inl (view_frame hne rfl rfl ?_ (fun sc' hsc' => ⟨?_, rfl, rfl, rfl, rfl⟩))
      · exact List.filter_eq_nil_iff.mpr fun o ho => by simp [settles.log_others hne ho]
      · exact itemsOf_popped front rfl fun h =>
          others hne scheduled sc' hsc' (h.trans seq.symm)
  | process _ _ f token split oldest pending live fits =>
    obtain ⟨p, -, _, hsc, hseq⟩ := hf.owner hp (f := f) (by rw [split]; simp)
    obtain ⟨hlatest, hfailed, hfed, hsamples, -⟩ := w.processed_fields f token
    rcases eq_or_ne q p with rfl | hne
    · right
      refine (View.Step.process (w.view q) _ _ f token (view_items_split split hsc hseq)
        (fun g hg => oldest g (List.mem_filter.mp hg).1) pending ?_ (hconfig ▸ fits) ?_).cast ?_
      · rw [view_of_some hsc, hseq]; exact live
      · intro hs
        have hmem : (⟨f.seqId, w.worker.contextOf w.hitTokens
            (f.item.bind (w.latestTokens f.seqId)), token⟩ : Sample) ∈
            (w.processed f token).samples := by
          rw [hsamples]; simp [hs]
        have hcontext : w.worker.contextOf w.hitTokens (f.item.bind (w.latestTokens f.seqId)) =
            (w.hitTokens f.seqId ++ w.fed f.seqId).take
              (f.item.bind (w.latestTokens f.seqId)).position ++
              (f.item.bind (w.latestTokens f.seqId)).tokenIds := by
          unfold Worker.contextOf
          simp only [WorkItem.bind_frame]
          rfl
        rw [view_of_some hsc, hseq, ← hcontext]
        exact hsampler _ hmem
      · rw [view_answered hsc hseq, view_of_some hsc]
        simp [hseq, hlatest, hfailed, hfed, WorkItem.knownAfter_append]
    · refine .inl (view_answered_other split (hseq ▸ others hne hsc)
        (fun seq hne => ?_) (fun seq hne => ?_) (fun seq _ => congrFun hfailed seq))
      · rw [hfed, Function.update_of_ne hne]
      · rw [hlatest, Function.update_of_ne hne]
  | skipStale _ _ f split oldest pending failed =>
    obtain ⟨p, -, _, hsc, hseq⟩ := hf.owner hp (f := f) (by rw [split]; simp)
    rcases eq_or_ne q p with rfl | hne
    · right
      refine (View.Step.skipStale (w.view q) _ _ f (view_items_split split hsc hseq)
        (fun g hg => oldest g (List.mem_filter.mp hg).1) pending ?_).cast ?_
      · rw [view_of_some hsc, hseq]; exact failed
      · refine Eq.trans ?_ (Eq.symm (view_answered (k := w.worker) hsc hseq))
        rw [view_of_some hsc]
        rfl
    · exact .inl (view_answered_other (k := w.worker) split (hseq ▸ others hne hsc)
        (fun _ _ => rfl) (fun _ _ => rfl) (fun _ _ => rfl))
  | processFail _ _ f err k split oldest pending fails =>
    obtain ⟨p, -, sc, hsc, hseq⟩ := hf.owner hp (f := f) (by rw [split]; simp)
    obtain ⟨hlatest, -, hothers, hsticky⟩ := fails.fields
    rcases eq_or_ne q p with rfl | hne
    · right
      refine (View.Step.processFail (w.view q) _ _ f err
        (w.hitTokens sc.seqId ++ k.fed sc.seqId) (k.failedSequences sc.seqId)
        (view_items_split split hsc hseq)
        (fun g hg => oldest g (List.mem_filter.mp hg).1) pending ?_).cast ?_
      · rw [view_of_some hsc]; exact hsticky _
      · rw [view_answered hsc hseq, view_of_some hsc, hlatest]
        rfl
    · exact .inl (view_answered_other split (hseq ▸ others hne hsc)
        (fun seq hne => (hothers seq hne).2) (fun seq _ => congrFun hlatest seq)
        (fun seq hne => (hothers seq hne).1))
  | _ => exact .inl (view_congr rfl rfl (fun _ _ => ⟨rfl, rfl, rfl, rfl, rfl⟩))

end Transfer

end CcInfer
