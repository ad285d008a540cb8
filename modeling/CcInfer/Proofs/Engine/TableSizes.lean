import CcInfer.Proofs.Engine.Quotas

/-!
# `CcInfer.Proofs.Engine.TableSizes`: the block tables of dispatched work

`translate` asserts that an item has a block table and that the table holds every position the
item writes. The scheduler counts the blocks of a prompt, and of the next decode, in `int`. If
prompt length plus block size exceeds `2 ^ 31` the sum wraps around, the count is not positive,
and `admit_one_waiting` allocates nothing: the request runs with a table of its prefix hits.
-/

set_option autoImplicit false

namespace CcInfer

variable {config : ValidConfig} {y : Sys} {maxBlocks blockSize : Nat}

namespace Scheduler

/-- The block count is exact if the sum fits. At `2 ^ 31` it wraps twice, to the same result. -/
theorem blockCount_of_le {n : Nat} (hbs : 0 < blockSize) (h : n + blockSize ≤ 2 ^ 31) :
    blockCount n blockSize = ((n + blockSize - 1) / blockSize : Nat) := by
  have hsum : toInt32 (toInt32 (n + blockSize) - 1) = ((n + blockSize - 1 : Nat) : Int) := by
    rcases h.lt_or_eq with _ | heq
    · have hkept : toInt32 (n + blockSize) = n + blockSize := toInt32_of_fits (by omega) (by omega)
      rw [hkept, toInt32_of_fits (by omega) (by omega)]
      omega
    · have hwrap : ((n : Int) + blockSize) = 2 ^ 31 := by exact_mod_cast heq
      rw [hwrap, heq]
      decide
  rw [blockCount, hsum]
  exact (Int.ofNat_tdiv ..).symm

/-- A sum that does not fit gives no block at all. -/
theorem blockCount_nonpos {n : Nat} (hn : n < 2 ^ 31) (hbs : blockSize < 2 ^ 31)
    (h : 2 ^ 31 < n + blockSize) : blockCount n blockSize ≤ 0 := by
  have hwrap : toInt32 (n + blockSize) = (n + blockSize : Int) - 2 ^ 32 := by
    rw [toInt32, BitVec.toInt_ofInt, Int.bmod_def]
    omega
  rw [blockCount, hwrap, toInt32_of_fits (by omega) (by omega)]
  have hneg := Int.tdiv_nonneg (a := -((n + blockSize : Int) - 2 ^ 32 - 1)) (b := blockSize)
    (by omega) (by omega)
  rw [Int.neg_tdiv] at hneg
  omega

/-- The count for one position behind a full table asks for one more block. -/
theorem lt_mul_of_blockCount_le {next blocks : Nat} (hbs : 0 < blockSize)
    (capacity : maxBlocks * blockSize < 2 ^ 31) (room : next ≤ blocks * blockSize)
    (within : next + 1 ≤ maxBlocks * blockSize)
    (count : blockCount (next + 1) blockSize ≤ blocks) : next + 1 ≤ blocks * blockSize := by
  by_contra hfull
  obtain rfl : next = blocks * blockSize := by omega
  have hlt : blocks < maxBlocks := Nat.lt_of_mul_lt_mul_right within
  have hle : (blocks + 1) * blockSize ≤ maxBlocks * blockSize := Nat.mul_le_mul_right _ hlt
  rw [Nat.succ_mul] at hle
  rw [blockCount_of_le hbs (by omega),
    show blocks * blockSize + 1 + blockSize - 1 = (blocks + 1) * blockSize by
      rw [Nat.succ_mul]; omega,
    Nat.mul_div_cancel _ hbs] at count
  omega

end Scheduler

/-- The blocks of the prompt are counted right, or the prefix hits hold the prompt already. -/
def RequestState.Covered (st : RequestState) (sc : SequenceSchedulingState) (blockSize : Nat) :
    Prop :=
  st.promptTokens.length + blockSize ≤ 2 ^ 31 ∨
    st.promptTokens.length ≤ sc.hitBlocks * blockSize

/-- The table of an active request, which has the pool of `maxBlocks` blocks to draw on. -/
structure Room (maxBlocks blockSize : Nat) (st : RequestState) (sc : SequenceSchedulingState) :
    Prop where
  context_le : st.maxContextLen ≤ (maxBlocks * blockSize : Nat)
  covers : st.Covered sc blockSize →
    st.promptTokens.length ≤ sc.blockTable.length * blockSize ∧
      sc.nextPosition ≤ sc.blockTable.length * blockSize
  short : ¬ st.Covered sc blockSize →
    sc.blockTable.length = sc.hitBlocks ∧ sc.executedFrontier = sc.hitBlocks * blockSize

/-- The copied table of an item: it holds what the item writes, or ends where the item starts. -/
structure WorkItem.Tabled (item : WorkItem) (covered : Prop) (blockSize : Nat) : Prop where
  covers : covered → item.blockTable ≠ [] ∧ item.Fits blockSize
  short : ¬ covered → 0 < item.kvTokenCount ∧ item.blockTable.length * blockSize ≤ item.context

/-- An item that fits its table belongs to a covered request. -/
theorem WorkItem.Tabled.covered {item : WorkItem} {covered : Prop}
    (h : item.Tabled covered blockSize) (fits : item.Fits blockSize) : covered := by
  by_contra hnot
  obtain ⟨_, _⟩ := h.short hnot
  rw [WorkItem.Fits] at fits
  omega

namespace Room

variable {st st' : RequestState} {sc sc' : SequenceSchedulingState} {items : List WorkItem}
  {item : WorkItem}

/-- An admitted request. -/
theorem admitted {hits : Nat} {seq : SequenceId} {parent : Hash} {table : BlockTable}
    (hbs : 0 < blockSize) (capacity : maxBlocks * blockSize < 2 ^ 31) (hmax : 0 < maxBlocks)
    (admissible : st.Admissible maxBlocks blockSize) (table_length : table.length =
      max hits (Scheduler.blockCount st.promptTokens.length blockSize).toNat) :
    Room maxBlocks blockSize
      { st with scheduling := some (st.admitScheduling blockSize seq ⟨table, hits, parent⟩) }
      (st.admitScheduling blockSize seq ⟨table, hits, parent⟩) := by
  have hhits : hits * blockSize ≤ table.length * blockSize :=
    Nat.mul_le_mul_right _ (table_length ▸ le_max_left ..)
  refine ⟨admissible.context_le, fun covered => ⟨?_, hhits⟩, fun short => ?_⟩
  · rcases covered with hsum | hprompt
    · rw [Scheduler.blockCount_of_le hbs hsum, Int.toNat_natCast] at table_length
      refine le_trans ?_ (Nat.mul_le_mul_right blockSize (table_length ▸ le_max_right hits _))
      have := Nat.lt_div_mul_add hbs (a := st.promptTokens.length + blockSize - 1)
      simp only
      omega
    · exact le_trans hprompt hhits
  · simp only [RequestState.Covered, RequestState.admitScheduling, not_or, not_le] at short
    have hsize : blockSize ≤ maxBlocks * blockSize := Nat.le_mul_of_pos_left _ hmax
    have hcount := Scheduler.blockCount_nonpos (n := st.promptTokens.length)
      (by have := admissible.prompt_le.trans admissible.context_le; omega) (by omega) short.1
    rw [Int.toNat_of_nonpos hcount, Nat.max_zero] at table_length
    exact ⟨table_length, rfl⟩

/-- A request that is not covered is in a prefill phase. -/
theorem covered (h : Room maxBlocks blockSize st sc) (geometry : Geometry st sc items)
    (active : st.status = .active) (phase : sc.cursor.phase.isPrefill = false) :
    st.Covered sc blockSize := by
  by_contra hnot
  have hfilled := geometry.filled active phase
  rw [(h.short hnot).2] at hfilled
  exact hnot (.inr hfilled)

/-- The request takes more blocks. -/
theorem grown (h : Room maxBlocks blockSize st sc) (geometry : Geometry st sc items)
    (active : st.status = .active) (phase : sc.cursor.phase.isPrefill = false)
    (blocks : BlockTable) : Room maxBlocks blockSize
      { st with scheduling := some { sc with blockTable := sc.blockTable ++ blocks } }
      { sc with blockTable := sc.blockTable ++ blocks } where
  context_le := h.context_le
  covers covered := by
    obtain ⟨hprompt, hnext⟩ := h.covers covered
    have hle : sc.blockTable.length * blockSize ≤
        (sc.blockTable ++ blocks).length * blockSize :=
      Nat.mul_le_mul_right _ (by simp)
    exact ⟨hprompt.trans hle, hnext.trans hle⟩
  short hnot := absurd (h.covered geometry active phase) hnot

/-- The table that a dispatched item copies. -/
theorem item_tabled (h : Room maxBlocks blockSize st sc) (hbs : 0 < blockSize)
    (capacity : maxBlocks * blockSize < 2 ^ 31) (geometry : Geometry st sc items)
    (quota : Quota st sc items) (active : st.status = .active)
    (itemFor : ItemFor st sc blockSize item) : item.Tabled (st.Covered sc blockSize) blockSize := by
  have hcontext := itemFor.context_eq
  have htable := itemFor.blockTable_eq
  refine ⟨fun covered => ?_, fun hnot => ?_⟩
  · obtain ⟨hprompt, hnext⟩ := h.covers covered
    refine ⟨fun hnil => ?_, ?_⟩
    · have hpos := geometry.prompt_pos
      rw [← htable, hnil] at hprompt
      simp only [List.length_nil, Nat.zero_mul] at hprompt
      omega
    · have hle := quota.item_le geometry active itemFor
      have hlimit := h.context_le
      rw [WorkItem.Fits, hcontext, htable]
      cases itemFor with
      | chunk _ _ phase =>
        have hstart := geometry.chunk_start active phase
        simp only [SequenceSchedulingState.nextPosition] at hstart
        simp only [WorkItem.kvTokenCount]
        omega
      | bootstrap => exact hnext
      | decode _ _ _ blocks =>
        simp only [WorkItem.position, hcontext, WorkItem.tokenCount, if_true] at hle
        exact Scheduler.lt_mul_of_blockCount_le hbs capacity hnext (by omega) blocks
  · -- only chunks are dispatched, and they start at the end of the prefix hits or later
    obtain ⟨hlength, hfrontier⟩ := h.short hnot
    rw [hcontext, htable, hlength, ← hfrontier]
    refine ⟨?_, Nat.le_add_right ..⟩
    cases itemFor with
    | chunk _ _ _ _ length_pos => exact length_pos
    | bootstrap phase => exact absurd (h.covered geometry active (by rw [phase]; rfl)) hnot
    | decode phase => exact absurd (h.covered geometry active (by rw [phase]; rfl)) hnot

/-- A dispatched item is reserved within the table. -/
theorem dispatched (h : Room maxBlocks blockSize st sc)
    (tabled : item.Tabled (st.Covered sc blockSize) blockSize)
    (itemFor : ItemFor st sc blockSize item) : Room maxBlocks blockSize
      { st with scheduling := some { sc with reservation := sc.reservation.reserve item } }
      { sc with reservation := sc.reservation.reserve item } where
  context_le := h.context_le
  covers covered := by
    refine ⟨(h.covers covered).1, ?_⟩
    have hfits := (tabled.covers covered).2
    rw [WorkItem.Fits, itemFor.context_eq, itemFor.blockTable_eq] at hfits
    simpa only [SequenceSchedulingState.nextPosition, SequenceReservation.reserve, Nat.add_assoc]
      using hfits
  short := h.short

/-- The oldest item of a covered request is retired. -/
theorem retired (h : Room maxBlocks blockSize st sc) (covered : st.Covered sc blockSize)
    (prompt : st'.promptTokens = st.promptTokens) (context : st'.maxContextLen = st.maxContextLen)
    (hits : sc'.hitBlocks = sc.hitBlocks) (table : sc'.blockTable = sc.blockTable)
    (next : sc'.nextPosition = sc.nextPosition) : Room maxBlocks blockSize st' sc' where
  context_le := context ▸ h.context_le
  covers _ := by
    rw [prompt, table, next]
    exact h.covers covered
  short hnot := by
    rw [RequestState.Covered, prompt, hits] at hnot
    exact absurd covered hnot

end Room

/-! ### The life of a request -/

/-- The tables of a request and of its items in flight. -/
structure View.Sized (maxBlocks blockSize : Nat) (v : View) : Prop where
  room : ∀ sc, v.req.scheduling = some sc → v.req.status = .active →
    Room maxBlocks blockSize v.req sc
  items : ∀ sc, v.req.scheduling = some sc → ∀ f ∈ v.items,
    f.item.Tabled (v.req.Covered sc blockSize) blockSize

namespace View.Sized

variable {p : RequestPtr} {sampler : List Token → Token → Prop} {params : SamplingParams → Prop}
  {v v' : View}

/-- Every transaction of a request keeps its tables sized. -/
theorem step (h : Sized maxBlocks blockSize v) (hbs : 0 < blockSize) (hmax : 0 < maxBlocks)
    (capacity : maxBlocks * blockSize < 2 ^ 31) (kept : v.Kept blockSize) (quota : v.InQuota)
    (t : View.Step p maxBlocks blockSize sampler params v v') : Sized maxBlocks blockSize v' := by
  -- an item that gets its fate keeps its table
  have hrefate : ∀ {before after : List FlightItem} {f : FlightItem} (fate : Fate),
      v.items = before ++ f :: after → ∀ sc, v.req.scheduling = some sc →
      ∀ g ∈ before ++ { f with fate := fate } :: after,
        g.item.Tabled (v.req.Covered sc blockSize) blockSize := by
    intro before after f fate split sc hsc
    have hitems := h.items sc hsc
    rw [split] at hitems
    exact forall_mem_refated hitems (hitems f (by simp))
  -- the oldest item was processed, so it fits, and its request is covered
  have hdone : ∀ {rest : List FlightItem} {f : FlightItem} {token : Token}
      {sc : SequenceSchedulingState}, v.items = f :: rest → f.fate = .done token →
      v.req.scheduling = some sc → v.req.Covered sc blockSize := by
    intro rest f token sc front done hsc
    have hmem : f ∈ v.items := front ▸ List.mem_cons_self
    exact (h.items sc hsc f hmem).covered (kept.fates.fits f hmem token done)
  cases t with
  | expire =>
    exact ⟨fun sc hsc ha => ⟨(h.room sc hsc ha).1, (h.room sc hsc ha).2, (h.room sc hsc ha).3⟩,
      h.items⟩
  | cancel | finish | fail => exact ⟨fun _ _ => nofun, h.items⟩
  | grow sc blocks scheduled active phase =>
    refine ⟨fun sc' hsc' _ => ?_, fun sc' hsc' => ?_⟩ <;> cases hsc'
    · exact (h.room sc scheduled active).grown (kept.geometry sc scheduled) active phase blocks
    · exact h.items sc scheduled
  | dispatch sc _ _ scheduled active itemFor =>
    have hroom := h.room sc scheduled active
    have htabled := hroom.item_tabled hbs capacity (kept.geometry sc scheduled)
      (quota.quota sc scheduled active) active itemFor
    refine ⟨fun sc' hsc' _ => ?_, fun sc' hsc' f hf => ?_⟩ <;> cases hsc'
    · exact hroom.dispatched htabled itemFor
    · rcases List.mem_append.mp hf with hf | hf
      · exact h.items sc scheduled f hf
      · rw [List.mem_singleton.mp hf]
        exact htabled
  | admission _ _ _ _ admissible _ table_length =>
    refine ⟨fun sc' hsc' _ => ?_, fun _ _ f hf => absurd hf List.not_mem_nil⟩
    cases hsc'
    exact .admitted hbs capacity hmax admissible table_length
  | park | drop => exact ⟨fun _ hsc => (nomatch hsc), fun _ hsc => (nomatch hsc)⟩
  | discard before after f sc split scheduled ignored =>
    refine ⟨fun sc' hsc' ha => ?_, fun sc' hsc' g hg => ?_⟩
    · exact absurd ha (kept.discarded_inactive split ignored)
    · cases hsc'
      refine h.items sc scheduled g ?_
      rw [split]
      exact ((List.sublist_cons_self f after).append_left before).subset hg
  | retireChunk _ _ _ _ sc front scheduled active =>
    have hgeo := kept.geometry sc scheduled
    rw [front] at hgeo
    refine ⟨fun sc' hsc' _ => ?_, fun sc' hsc' f hf => ?_⟩ <;> cases hsc'
    · exact (h.room sc scheduled active).retired (hdone front rfl scheduled) rfl rfl rfl rfl
        (hgeo.retired_total active)
    · exact h.items sc scheduled f (front ▸ List.mem_cons_of_mem _ hf)
  | retire _ _ _ _ sc _ _ _ _ front scheduled active settles publish =>
    have hgeo := kept.geometry sc scheduled
    rw [front] at hgeo
    have hsame := settles.sequence publish
    obtain ⟨-, -, hreservation, hfrontier, -, -, -⟩ := settles.advanced
    refine ⟨fun sc' hsc' _ => ?_, fun sc' hsc' f hf => ?_⟩ <;> cases hsc'
    · refine (h.room sc scheduled active).retired (hdone front rfl scheduled) rfl rfl
        hsame.hitBlocks hsame.blockTable ?_
      rw [← hgeo.retired_total active]
      simp [SequenceSchedulingState.nextPosition, publish.plan.executedFrontier,
        publish.plan.reservation, hreservation, hfrontier]
    · have hold := h.items sc scheduled f (front ▸ List.mem_cons_of_mem _ hf)
      rwa [RequestState.Covered, ← hsame.hitBlocks] at hold
  | process _ _ _ token split =>
    exact ⟨h.room, hrefate (.done token) split⟩
  | skipStale _ _ _ split => exact ⟨h.room, hrefate .stale split⟩
  | processFail _ _ _ err _ _ split =>
    exact ⟨h.room, hrefate (.failed err) split⟩

end View.Sized

/-- The items in flight of every world have the tables that their requests allow. -/
theorem World.Run.tabled {w : World} {p : RequestPtr} {sc : SequenceSchedulingState}
    {f : FlightItem} (run : World.Run (World.init config) w) (core : Core w)
    (hf : f ∈ w.flight) (hsc : w.Scheduled p sc) (hseq : sc.seqId = f.seqId) :
    f.item.Tabled ((w.heap p).Covered sc config.kvBlockSize) config.kvBlockSize := by
  have hcapacity : config.maxBlocks * config.kvBlockSize < 2 ^ 31 := by
    have := config.capacity_le
    omega
  have hsized := run.life
    (I := fun v => v.InQuota ∧ v.Sized config.maxBlocks config.kvBlockSize)
    (fun req => ⟨.init config p req, ⟨fun _ h => (nomatch h), fun _ h => (nomatch h)⟩⟩)
    (fun _ _ h kept t _ => ⟨h.1.step kept t, h.2.step config.kvBlockSize_pos
      config.maxBlocks_pos hcapacity kept h.1 t⟩) (core.scheduled_lt hsc)
  have hitems := hsized.2.items
  rw [World.view_of_some hsc] at hitems
  exact hitems sc hsc f (Flights.mem_itemsOf.mpr ⟨hf, hseq.symm⟩)

/-! ### Items in flight -/

/-- The request that an item belongs to is covered. -/
def Sys.Covered (y : Sys) (item : WorkItem) : Prop :=
  ∃ p sc, (y.sched.heap p).scheduling = some sc ∧ sc.seqId = item.seqId ∧
    (y.sched.heap p).Covered sc y.sched.config.kvBlockSize

/-- Every item in flight has the table that its request allows. -/
theorem Reachable.tabled (h : Reachable config y) {item : WorkItem}
    (hitem : item ∈ y.itemsInFlight) : item.Tabled (y.Covered item) y.sched.config.kvBlockSize := by
  obtain ⟨_, carries, run, core⟩ := h.core
  have hconfig : y.sched.config = config := run.config_eq
  obtain ⟨f, hf, rfl⟩ := Sys.mem_itemsInFlight carries hitem
  obtain ⟨p, -, sc, hsc, hseq⟩ := core.flights.owner core.positions hf
  have htabled := run.tabled core hf hsc hseq
  rw [← hconfig] at htabled
  -- a sequence id belongs to one request
  have howner : y.Covered f.item ↔
      (y.sched.heap p).Covered sc y.sched.config.kvBlockSize := by
    refine ⟨?_, fun hcovered => ⟨p, sc, hsc, hseq, hcovered⟩⟩
    rintro ⟨q, sc', hsc', hseq', hcovered⟩
    obtain rfl := core.positions.seq_inj p q sc sc' hsc hsc' (hseq.trans hseq'.symm)
    obtain rfl := Option.some.inj (hsc.symm.trans hsc')
    exact hcovered
  rwa [howner]

/-- An item in flight passes the assertions of `translate` if and only if its request is
covered. -/
theorem Reachable.translatable_iff (h : Reachable config y) {item : WorkItem}
    (hitem : item ∈ y.itemsInFlight) :
    (y.worker.bindLate item).translatable y.sched.config.kvBlockSize = true ↔ y.Covered item := by
  have htabled := h.tabled hitem
  rw [Worker.bindLate_eq]
  unfold WorkItem.translatable
  simp only [WorkItem.bind_frame,
    BlockTable.tokenCapacity, Bool.and_eq_true, decide_eq_true_eq]
  refine ⟨fun hall => htabled.covered hall.2, fun hcovered => ?_⟩
  obtain ⟨htable, hfits⟩ := htabled.covers hcovered
  refine ⟨⟨?_, by simpa using htable⟩, hfits⟩
  -- binding is what removes the mark of a late-bound decode
  cases item with
  | prefill => rfl
  | decode work => cases hlate : work.lateBind <;> simp [WorkItem.bind, hlate]

/-- In every reachable state, every dispatched item starts where the items of its sequence before
it, or its prefix hits, end, and a chunk is the span it says; a sequence is admitted with one
number of prefix hits; the start of a chunk never fails its assertion in `retire_work`; and the
items in flight, which the log all tells the dispatch of, pass the assertions of `translate`
exactly if their requests are covered. -/
theorem dispatches_gapless {config : ValidConfig} {y : Sys} (h : Reachable config y) :
    (∀ before item after, y.sched.trace = before ++ .dispatched item :: after →
      item.Spanned ∧ Continuing config.kvBlockSize before item) ∧
    (∀ p q seq hits hits' generated generated', .admitted p seq hits generated ∈ y.sched.trace →
      .admitted q seq hits' generated' ∈ y.sched.trace → hits = hits') ∧
    .retireCursor ∉ y.sched.failedAsserts ∧
    ∀ item ∈ y.itemsInFlight, .dispatched item ∈ y.sched.trace ∧
      ((y.worker.bindLate item).translatable y.sched.config.kvBlockSize = true ↔
        y.Covered item) := by
  obtain ⟨fls, carries, run, core⟩ := h.core
  have hconfig : y.sched.config = config := run.config_eq
  have hlog := Dispatches.run run
  refine ⟨fun before item after htrace => ?_, hlog.once, ?_,
    fun item hitem => ⟨?_, h.translatable_iff hitem⟩⟩
  · have htrace : (World.of y.sched fls.flatten y.worker).trace =
      before ++ .dispatched item :: after := htrace
    have hgapless := hlog.gapless before.length item (by rw [htrace]; simp)
    rw [htrace, List.take_left] at hgapless
    rw [← hconfig]
    exact ⟨hlog.spanned item (by rw [htrace]; simp), hgapless⟩
  · intro hfails
    have htracked : .retireCursor ∈ y.sched.failedAsserts.filter AssertSite.tracked :=
      List.mem_filter.mpr ⟨hfails, rfl⟩
    have hempty : y.sched.failedAsserts.filter AssertSite.tracked = [] := core.positions.asserts
    rw [hempty] at htracked
    cases htracked
  · obtain ⟨f, hf, rfl⟩ := Sys.mem_itemsInFlight carries hitem
    exact run.flight_logged f hf

/-- A run in which the second request hits a block of the first one and then needs two
chunks. -/
def chunksAfterHit : Sys :=
  Sys.after ((EngineConfig.small 6 3).toValid (by decide))
    (Label.submits [⟨"a", [1, 2, 3], {}, 6⟩] ++ Label.dispatch ++ [.engine none, .engine none,
        .submit ⟨"b", [1, 2, 7, 8, 9, 10], {}, 6⟩, .work true (.sampled [4]), .engine none] ++
      Label.turn [5, 0] ++ Label.dispatch)

theorem dispatches_gapless_chunksAfterHit :
    (chunksAfterHit.sched.trace.filterMap fun o => o.item?.map fun i =>
        (i.seqId, i.context, i.kvTokenCount)) =
      [(1, 0, 3), (1, 3, 1), (2, 2, 3), (1, 4, 1), (2, 5, 1)] ∧
    (∀ before item after, chunksAfterHit.sched.trace = before ++ .dispatched item :: after →
      item.Spanned ∧ Continuing 2 before item) ∧ (∀ p q seq hits hits' generated generated',
      .admitted p seq hits generated ∈ chunksAfterHit.sched.trace →
      .admitted q seq hits' generated' ∈ chunksAfterHit.sched.trace → hits = hits') ∧
    .retireCursor ∉ chunksAfterHit.sched.failedAsserts ∧
    ∀ item ∈ chunksAfterHit.itemsInFlight, .dispatched item ∈ chunksAfterHit.sched.trace ∧
      ((chunksAfterHit.worker.bindLate item).translatable
        chunksAfterHit.sched.config.kvBlockSize = true ↔ chunksAfterHit.Covered item) :=
  ⟨by decide +kernel, dispatches_gapless (Reachable.after _ _)⟩

/-- One block that holds `2 ^ 31 - 1` tokens. -/
def EngineConfig.oneBlock : EngineConfig where
  maxBlocks := 1
  kvBlockSize := 2147483647
  defaultMaxContextLen := 16

theorem EngineConfig.oneBlock_ok : oneBlock.validate = .ok () := by decide

/-- A run that ends with the prompt of a request in flight, for which the block count wraps. -/
def wrappedCount : Sys :=
  Sys.after (EngineConfig.oneBlock.toValid EngineConfig.oneBlock_ok)
    (Label.submits [⟨"a", [1, 2], {}, 6⟩] ++ Label.dispatch)

/-- The block count of a prompt of two tokens is `-1`, and the chunk is dispatched without a block:
the worker cannot go on. -/
theorem wrappedCount_untranslatable : Scheduler.blockCount 2 2147483647 = -1 ∧
    wrappedCount.itemsInFlight.map (fun i => (i.blockTable, i.writtenPositions)) = [([], [0, 1])] ∧
    (wrappedCount.itemsInFlight.map fun i =>
      (wrappedCount.worker.bindLate i).translatable 2147483647) = [false] ∧
    (wrappedCount.step (.work true (.sampled [7]))).isNone = true := by
  decide +kernel

end CcInfer
