import CcInfer.Invariant.Geometry
import CcInfer.Invariant.Views
import CcInfer.Lib.Tables

/-!
# `CcInfer.Invariant.Ownership`: who holds a reference to a block
-/

set_option autoImplicit false

namespace CcInfer

open SequenceSchedulingState

/-- The first block index that a scheduling state has not published yet: the pending tokens
are those of the positions from its start on. -/
def SequenceSchedulingState.firstPrivate (sc : SequenceSchedulingState) (blockSize : Nat) : Nat :=
  (sc.executedFrontier - sc.pendingHashTokens.length) / blockSize

/-- The representation invariant, the reference counts in terms of the block tables, and
that the blocks a request still writes are not cached. -/
structure Ownership (w : World) : Prop where
  inv : w.kv.Inv
  maxBlocks : w.kv.pool.maxBlocks = w.config.maxBlocks
  blockSize : w.kv.pool.blockSize = w.config.kvBlockSize
  ref : ∀ b, w.kv.pool.refCount b =
    Tables.total w.tableOf w.nextPtr b + w.kv.pool.leaked.count b
  unpublished : ∀ p sc, (w.heap p).scheduling = some sc →
    ∀ b ∈ sc.blockTable.drop (sc.firstPrivate w.config.kvBlockSize), w.kv.cache.byBlock b = none

namespace World

variable {w : World} {p : RequestPtr} {sc : SequenceSchedulingState}

theorem tableOf_of_some (h : (w.heap p).scheduling = some sc) : w.tableOf p = sc.blockTable := by
  simp [tableOf, h]

theorem tableOf_of_none (h : (w.heap p).scheduling = none) : w.tableOf p = [] := by
  simp [tableOf, h]

end World

namespace Ownership

variable {w w' : World}
variable {leak : BlockTable} {b : BlockId} {advanced : SequenceSchedulingState} {item : WorkItem}
  {items : List WorkItem} {written : List Token} {head : List Obs}
variable {p : RequestPtr} {sc : SequenceSchedulingState}

theorem init (config : ValidConfig) : Ownership (.of (.init config) [] .init) where
  inv := KvBlocks.init_inv ..
  maxBlocks := rfl
  blockSize := rfl
  ref b := by
    simp [World.of, Scheduler.init, KvBlocks.init, BlockPool.init, BlockPool.refCount,
      Tables.total]
  unpublished p sc hsc := by simp [World.of, Scheduler.init] at hsc

section

variable (h : Ownership w)
include h

/-- A transaction that leaves the blocks alone and rewrites one scheduling state without
touching its table, moving its frontier forward at most. -/
theorem touch (p : RequestPtr) (st : RequestState)
    (heap : w'.heap = Function.update w.heap p st) (kv : w'.kv = w.kv)
    (config : w'.config = w.config) (nextPtr : w'.nextPtr = w.nextPtr)
    (table : ∀ sc', st.scheduling = some sc' → ∃ sc, (w.heap p).scheduling = some sc ∧
      sc'.blockTable = sc.blockTable ∧
      sc.firstPrivate w.config.kvBlockSize ≤ sc'.firstPrivate w.config.kvBlockSize)
    (scheduled : st.scheduling = none → (w.heap p).scheduling = none) : Ownership w' := by
  have htable : w'.tableOf = w.tableOf := by
    funext q
    unfold World.tableOf
    rw [heap, Function.update_apply]
    split
    · rename_i hq
      rw [hq]
      rcases hst : st.scheduling with _ | sc'
      · rw [scheduled hst]
      · obtain ⟨_, hsc, heq, -⟩ := table sc' hst
        simp [hsc, heq]
    · rfl
  refine ⟨by rw [kv]; exact h.inv, by rw [kv, config]; exact h.maxBlocks,
    by rw [kv, config]; exact h.blockSize, fun b => by rw [kv, htable, nextPtr]; exact h.ref b, ?_⟩
  intro q sc' hsc' b hb
  rw [heap, Function.update_apply] at hsc'
  rw [kv]
  rw [config] at hb
  split at hsc'
  · obtain ⟨sc, hsc, heq, hle⟩ := table sc' hsc'
    rw [heq] at hb
    exact h.unpublished p sc hsc b ((List.drop_sublist_drop_left _ hle).subset hb)
  · exact h.unpublished q sc' hsc' b hb

/-- A transaction that moves references: the table of `p` takes what was gained and gives
what was lost. -/
theorem moved {gain lose : BlockTable}
    (hp : p < w.nextPtr) (moves : w.kv.Moves w'.kv gain lose leak)
    (config : w'.config = w.config) (nextPtr : w'.nextPtr = w.nextPtr)
    (heap : ∀ q, q ≠ p → w'.heap q = w.heap q)
    (count : ∀ b, (w'.tableOf p).count b + lose.count b = (w.tableOf p).count b + gain.count b)
    (own : ∀ sc, (w'.heap p).scheduling = some sc →
      ∀ b ∈ sc.blockTable.drop (sc.firstPrivate w.config.kvBlockSize),
        w'.kv.cache.byBlock b = none) : Ownership w' := by
  have htable : ∀ q, q ≠ p → w'.tableOf q = w.tableOf q := by
    intro q hq
    unfold World.tableOf
    rw [heap q hq]
  refine ⟨moves.inv, by rw [moves.size.maxBlocks, config]; exact h.maxBlocks,
    by rw [moves.size.blockSize, config]; exact h.blockSize, fun b => ?_, ?_⟩
  · have hchange := Tables.total_change b hp htable
    have href := moves.ref b
    have hold := h.ref b
    have hcount := count b
    rw [nextPtr, moves.leaked, List.count_append]
    omega
  · intro q sc hsc b hb
    rw [config] at hb
    rcases eq_or_ne q p with rfl | hne
    · exact own sc hsc b hb
    · rw [heap q hne] at hsc
      exact moves.uncached (h.unpublished q sc hsc b hb)

/-- A transaction that only leaks. -/
theorem leaked (moves : w.kv.Moves w'.kv [] [] leak)
    (config : w'.config = w.config) (nextPtr : w'.nextPtr = w.nextPtr)
    (heap : w'.heap = w.heap) : Ownership w' := by
  have htable : w'.tableOf = w.tableOf := by
    funext q
    unfold World.tableOf
    rw [heap]
  refine ⟨moves.inv, by rw [moves.size.maxBlocks, config]; exact h.maxBlocks,
    by rw [moves.size.blockSize, config]; exact h.blockSize, fun b => ?_, ?_⟩
  · have href := moves.ref b
    have hold := h.ref b
    rw [nextPtr, moves.leaked, List.count_append, htable]
    simp only [List.count_nil] at href
    omega
  · intro q sc hsc b hb
    rw [config] at hb
    rw [heap] at hsc
    exact moves.uncached (h.unpublished q sc hsc b hb)

/-- A block outside the cache has one owner at most. -/
theorem count_le_one (hb : w.kv.cache.byBlock b = none) :
    Tables.total w.tableOf w.nextPtr b ≤ 1 := by
  have := h.inv.uncached_ref b hb
  have := h.ref b
  omega

/-- A block of a table is referenced. -/
theorem ref_pos (hp : p < w.nextPtr) (hb : b ∈ w.tableOf p) : 0 < w.kv.pool.refCount b := by
  have hcount := Tables.count_le_total (f := w.tableOf) b hp
  have := List.count_pos_iff.mpr hb
  have := h.ref b
  omega

/-- The unpublished blocks of a table are distinct. -/
theorem unpublished_nodup (hp : p < w.nextPtr) (hsc : (w.heap p).scheduling = some sc) :
    (sc.blockTable.drop (sc.firstPrivate w.config.kvBlockSize)).Nodup := by
  refine List.nodup_iff_count_le_one.mpr fun b => ?_
  by_cases hb : b ∈ sc.blockTable.drop (sc.firstPrivate w.config.kvBlockSize)
  · have hle := h.count_le_one (h.unpublished p sc hsc b hb)
    have hcount := Tables.count_le_total (f := w.tableOf) b hp
    rw [World.tableOf_of_some hsc] at hcount
    have := (List.drop_sublist (sc.firstPrivate w.config.kvBlockSize) sc.blockTable).count_le b
    omega
  · rw [List.count_eq_zero_of_not_mem hb]
    exact Nat.zero_le 1

/-- The publication of the oldest item of an active request meets unpublished blocks of its
own. -/
theorem publishItem (hp : p < w.nextPtr) (hsc : (w.heap p).scheduling = some sc)
    (active : (w.heap p).status = .active)
    (geometry : Geometry (w.heap p) sc (item :: items)) (fits : item.Fits w.config.kvBlockSize)
    (settles : Settles p (w.heap p) sc item advanced written head) (hpos : 0 < item.kvTokenCount) :
    (w.kv.publishItem advanced item written).1.Inv ∧
    ∃ n, sc.firstPrivate w.config.kvBlockSize + n ≤ (item.context + item.kvTokenCount -
        (w.kv.publishItem advanced item written).2.1.pendingHashTokens.length) /
          w.config.kvBlockSize ∧
      (w.kv.publishItem advanced item written).2.2 = ((List.range n).map fun i =>
        .published advanced.seqId (sc.blockTable.getD (sc.firstPrivate w.config.kvBlockSize + i) 0)
          (sc.firstPrivate w.config.kvBlockSize + i)
          (((sc.pendingHashTokens ++ written).drop (i * w.config.kvBlockSize)).take
            w.config.kvBlockSize)) ∧
      (∀ b e, (w.kv.publishItem advanced item written).1.cache.byBlock b = some e →
        w.kv.cache.byBlock b = some e ∨
          b ∈ (sc.blockTable.drop (sc.firstPrivate w.config.kvBlockSize)).take n) ∧
      (∀ b e, w.kv.cache.byBlock b = some e →
        (w.kv.publishItem advanced item written).1.cache.byBlock b = some e) ∧
      ∀ i, (i + 1) * w.config.kvBlockSize ≤ (sc.pendingHashTokens ++ written).length -
          (w.kv.publishItem advanced item written).2.1.pendingHashTokens.length →
        (w.kv.publishItem advanced item written).1.cache.byBlock
            (sc.blockTable.getD (sc.firstPrivate w.config.kvBlockSize + i) 0) =
          some ⟨PrefixCache.hashBlock advanced.parentHash
            ((sc.pendingHashTokens ++ written).take ((i + 1) * w.config.kvBlockSize)),
            sc.blockTable.getD (sc.firstPrivate w.config.kvBlockSize + i) 0⟩ := by
  obtain ⟨-, htable, -, -, hpend, -, -⟩ := settles.advanced
  obtain ⟨hcontext, -⟩ := geometry.consecutive active
  have hindex : sc.firstPrivate w.config.kvBlockSize =
      (item.context - advanced.pendingHashTokens.length) / w.kv.pool.blockSize := by
    rw [hcontext, hpend, h.blockSize]
    rfl
  have hpinned := (geometry.pinned item List.mem_cons_self).length_le
  obtain ⟨hinv, -, hspec⟩ := w.kv.publishItem_spec h.inv
    (by rw [h.blockSize]; exact w.config.kvBlockSize_pos) hindex hpos
    (by rw [hpend, hcontext]; exact geometry.pending)
    (View.Kept.written_le geometry settles hpos)
    (by
      rw [htable, h.blockSize]
      exact fits.trans (Nat.mul_le_mul_right _ hpinned))
    (by rw [htable]; exact h.unpublished_nodup hp hsc)
    (by
      intro b hb
      rw [htable] at hb
      refine ⟨h.unpublished p sc hsc b hb, h.ref_pos hp ?_⟩
      rw [World.tableOf_of_some hsc]
      exact List.mem_of_mem_drop hb)
  rw [htable, hpend, h.blockSize] at hspec
  exact ⟨hinv, hspec⟩

/-- Retiring the oldest item of an active request publishes unpublished blocks of its own,
all of them below its new frontier. -/
theorem settled (scheduled_lt : ∀ q sc, (w.heap q).scheduling = some sc → q < w.nextPtr)
    (hp : p < w.nextPtr) (hsc : (w.heap p).scheduling = some sc)
    (active : (w.heap p).status = .active)
    (geometry : Geometry (w.heap p) sc (item :: items)) (fits : item.Fits w.config.kvBlockSize)
    (settles : Settles p (w.heap p) sc item advanced written head)
    (sampling : SamplingParams) (token : Token) (rest : List FlightItem) :
    Ownership (w.settled p ⟨item, sampling, .done token⟩ token advanced written head rest) := by
  obtain ⟨hseq, htable, -, hfrontier, hpend, -, -⟩ := settles.advanced
  rcases Nat.eq_zero_or_pos item.kvTokenCount with hzero | hpos
  · -- Nothing was written, so nothing is published.
    have hsame : w.kv.publishItem advanced item written = (w.kv, advanced, []) := by
      simp [KvBlocks.publishItem, hzero]
    refine h.touch p _ rfl (by simp [World.settled, hsame]) rfl rfl ?_
      (by simp [RequestState.retired])
    intro sc' hsc'
    simp only [RequestState.retired, hsame, Option.some.injEq] at hsc'
    subst hsc'
    refine ⟨sc, hsc, by simp [htable], Nat.div_le_div_right ?_⟩
    simp only [leaveBootstrap_frame, hfrontier, hpend]
    omega
  · obtain ⟨hinv, n, hn, -, hcached, -⟩ := h.publishItem hp hsc active geometry fits settles hpos
    have hpool := w.kv.publishItem_pool advanced item written
    have hplan := w.kv.publishItem_plan advanced item written
    have htables : (w.settled p ⟨item, sampling, .done token⟩ token advanced written head
        rest).tableOf = w.tableOf := by
      funext q
      simp only [World.tableOf, World.settled, Function.update_apply]
      split
      · rename_i hq
        simp [hq, RequestState.retired, hsc, hplan.blockTable, htable]
      · rfl
    refine ⟨hinv, (congrArg BlockPool.maxBlocks hpool).trans h.maxBlocks,
      (congrArg BlockPool.blockSize hpool).trans h.blockSize, fun b => ?_, ?_⟩
    · rw [htables]
      simp only [World.settled, hpool]
      exact h.ref b
    · intro q sc' hsc' b hb
      rcases hb' : (w.kv.publishItem advanced item written).1.cache.byBlock b with _ | e
      · exact hb'
      · exfalso
        simp only [World.settled, Function.update_apply] at hsc'
        split at hsc'
        · -- The request's own unpublished blocks start behind the published ones.
          simp only [RequestState.retired, Option.some.injEq] at hsc'
          subst hsc'
          have hprivate : sc.firstPrivate w.config.kvBlockSize + n ≤
              ((w.kv.publishItem advanced item written).2.1.leaveBootstrap item).firstPrivate
                w.config.kvBlockSize := by
            simp only [firstPrivate,
              leaveBootstrap_frame, hplan.executedFrontier,
              hfrontier] at hn ⊢
            exact hn.trans (Nat.div_le_div_right (by omega))
          simp only [leaveBootstrap_frame, hplan.blockTable,
            htable] at hb
          have hb := (List.drop_sublist_drop_left _ hprivate).subset hb
          rcases hcached b e hb' with hold | hmem
          · have hb := (List.drop_sublist_drop_left _ (Nat.le_add_right _ n)).subset hb
            rw [h.unpublished p sc hsc b hb] at hold
            cases hold
          · rw [← List.drop_drop] at hb
            exact List.disjoint_take_drop (h.unpublished_nodup hp hsc) le_rfl hmem hb
        · -- An unpublished block of another request is in no table of `p`.
          rename_i hne
          have hnone := h.unpublished q sc' hsc' b hb
          have hmem := (hcached b e hb').resolve_left (by rw [hnone]; simp)
          have hq : q < w.nextPtr := scheduled_lt q sc' hsc'
          have htwo := Tables.count_add_count_le_total (f := w.tableOf) b hp hq (Ne.symm hne)
          rw [World.tableOf_of_some hsc, World.tableOf_of_some hsc'] at htwo
          have := List.count_pos_iff.mpr (List.mem_of_mem_drop (List.mem_of_mem_take hmem))
          have := List.count_pos_iff.mpr (List.mem_of_mem_drop hb)
          have := h.count_le_one hnone
          omega

/-- Every transaction keeps the references accounted for. -/
theorem step (hp : Positions w) (kept : ∀ p, p < w.nextPtr → (w.view p).Kept w.config.kvBlockSize)
    (t : World.Step w w') : Ownership w' := by
  have scheduled_lt : ∀ q sc, (w.heap q).scheduling = some sc → q < w.nextPtr := fun q sc hsc =>
    hp.allocated q (.inr ((hp.scheduled q).mp (by simp [hsc])))
  have hbs := w.config.kvBlockSize_pos
  cases t with
  | blocks _ _ _ moves => exact h.leaked moves rfl rfl rfl
  | cancel | expire | finish | fail =>
    exact h.touch _ _ rfl rfl rfl rfl (fun sc' hsc' => ⟨sc', hsc', rfl, le_rfl⟩) id
  | dispatch | discard =>
    refine h.touch _ _ rfl rfl rfl rfl (fun sc' hsc' => ⟨_, ‹w.Scheduled _ _›, ?_⟩) nofun
    cases hsc'
    exact ⟨rfl, le_rfl⟩
  | retireChunk _ _ _ _ p sc _ _ scheduled =>
    refine h.touch p _ rfl rfl rfl rfl (fun sc' hsc' => ⟨sc, scheduled, ?_⟩) nofun
    cases hsc'
    exact ⟨rfl, Nat.div_le_div_right (Nat.sub_le_sub_right (Nat.le_max_left ..) _)⟩
  | register req =>
    have hother : ∀ q, q ≠ w.nextPtr →
        Function.update w.heap w.nextPtr (.ofRequest w.config req) q = w.heap q :=
      fun q hq => Function.update_of_ne hq ..
    refine ⟨h.inv, h.maxBlocks, h.blockSize, fun b => ?_, fun q sc hsc => ?_⟩
    · refine (h.ref b).trans (congrArg (· + w.kv.pool.leaked.count b) (Eq.symm
        ((Tables.total_succ_nil b ?_).trans (Tables.total_congr b fun q hq => ?_))))
      · simp [World.tableOf, RequestState.ofRequest]
      · simp only [World.tableOf, hother q (ne_of_lt hq)]
    · rcases eq_or_ne q w.nextPtr with rfl | hq
      · simp [RequestState.ofRequest] at hsc
      · simp only [hother q hq] at hsc
        exact h.unpublished q sc hsc
  | grow p sc _ _ _ _ scheduled _ _ moves uncached =>
    refine h.moved (scheduled_lt p sc scheduled) moves rfl rfl
      (fun q hq => Function.update_of_ne hq ..) (fun b => ?_) fun sc' hsc' b hb => ?_
    · rw [World.tableOf_of_some scheduled]
      simp [World.tableOf, World.setRequest, World.log]
    · simp only [World.log, World.setRequest, Function.update_self, Option.some.injEq] at hsc'
      subst hsc'
      rw [List.drop_append, List.mem_append] at hb
      rcases hb with hb | hb
      · exact moves.uncached (h.unpublished p sc scheduled b hb)
      · exact uncached b (List.mem_of_mem_drop hb)
  | admission p _ _ hits parent blocks _ front admissible _ _ moves _ uncached =>
    refine h.moved (hp.allocated p (.inl (by simp [front]))) moves rfl rfl
      (fun q hq => Function.update_of_ne hq ..) (fun b => ?_) fun sc' hsc' b hb => ?_
    · rw [World.tableOf_of_none admissible.unscheduled]
      simp [World.tableOf, RequestState.admitScheduling]
    · simp only [Function.update_self, Option.some.injEq] at hsc'
      subst hsc'
      have hprivate : ((w.heap p).admitScheduling w.kv.pool.blockSize w.nextSeqId
          ⟨hits.map (·.blockId) ++ blocks, hits.length, parent⟩).firstPrivate
            w.config.kvBlockSize = hits.length := by
        simp [firstPrivate, RequestState.admitScheduling, h.blockSize,
          Nat.mul_div_cancel _ hbs]
      rw [hprivate] at hb
      refine uncached b ?_
      simpa [RequestState.admitScheduling] using hb
  | park p sc _ scheduled _ _ moves =>
    refine h.moved (scheduled_lt p sc scheduled) moves rfl rfl
      (fun q hq => Function.update_of_ne hq ..) (fun b => ?_) fun sc' hsc' b hb => ?_
    · rw [World.tableOf_of_some scheduled]
      simp [World.tableOf, RequestState.parked]
    · simp [RequestState.parked] at hsc'
  | drop p _ _ live _ _ _ moves =>
    refine h.moved (hp.allocated p live) moves rfl rfl
      (fun q hq => Function.update_of_ne hq ..) (fun b => ?_) fun sc' hsc' b hb => ?_
    · simp [World.tableOf]
    · simp at hsc'
  | retire rest _ sampling token p sc _ _ _ front _ scheduled seq active settles =>
    have hplt := scheduled_lt p sc scheduled
    have hgeo := (kept p hplt).geometry sc (by simpa using scheduled)
    have hfits := (kept p hplt).fates.fits
    rw [World.view_items_front front scheduled seq] at hgeo hfits
    rw [World.view_req, List.map_cons] at hgeo
    exact h.settled scheduled_lt hplt scheduled active hgeo
      (hfits _ List.mem_cons_self token rfl) settles sampling token rest
  | _ => exact h.leaked (.refl h.inv) rfl rfl rfl

end

end Ownership

end CcInfer
