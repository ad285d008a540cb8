import CcInfer.Abstract.World
import CcInfer.Proofs.Kv.Invariant

/-!
# `CcInfer.Proofs.Kv.Publish`: the publication loop of retirement

`publishAll` takes full blocks off the pending tokens and publishes them under consecutive
blocks of the table. `publishAll_plan` says what is left of the scheduling state, and
`publishAll_spec` what happens to the cache when the blocks concerned are owned and not yet
cached.
-/

set_option autoImplicit false

namespace CcInfer

/-- What publication may change in a scheduling state. -/
structure SamePlan (sc sc' : SequenceSchedulingState) : Prop where
  seqId : sc'.seqId = sc.seqId
  reservation : sc'.reservation = sc.reservation
  cursor : sc'.cursor = sc.cursor
  blockTable : sc'.blockTable = sc.blockTable
  executedFrontier : sc'.executedFrontier = sc.executedFrontier
  hitBlocks : sc'.hitBlocks = sc.hitBlocks
  admittedGenerated : sc'.admittedGenerated = sc.admittedGenerated

namespace KvBlocks

variable (kv : KvBlocks)

@[simp] theorem publishFullBlock_pool (parent seed : Hash) (tokens : List Token) (id : BlockId) :
    (kv.publishFullBlock parent tokens id seed).2.pool = kv.pool := by
  simp only [publishFullBlock]
  split <;> rfl

/-- The hash of a published block folds its tokens into the parent hash. -/
theorem publishFullBlock_hash (hbs : 0 < kv.pool.blockSize) (parent : Hash) (tokens : List Token)
    (id : BlockId) : (kv.publishFullBlock parent tokens id).1 =
      PrefixCache.hashBlock parent (tokens.take kv.pool.blockSize) := by
  simp only [publishFullBlock, chainHashesFrom_block hbs, List.headD_cons]
  split <;> rfl

/-- Publication consumes whole blocks of pending tokens and changes nothing else but the
parent hash. -/
theorem publishAll_plan (fuel : Nat) :
    ∀ (kv : KvBlocks) (sc : SequenceSchedulingState) (index : Nat),
      SamePlan sc (kv.publishAll sc index fuel).2.1 ∧
      (kv.publishAll sc index fuel).1.pool = kv.pool ∧
      ∃ n, n * kv.pool.blockSize ≤ sc.pendingHashTokens.length ∧
        (kv.publishAll sc index fuel).2.1.pendingHashTokens =
          sc.pendingHashTokens.drop (n * kv.pool.blockSize) ∧
        (kv.publishAll sc index fuel).2.2 = (List.range n).map fun i =>
          .published sc.seqId (sc.blockTable.getD (index + i) 0) (index + i)
            ((sc.pendingHashTokens.drop (i * kv.pool.blockSize)).take kv.pool.blockSize) := by
  induction fuel with
  | zero =>
    intro kv sc index
    exact ⟨⟨rfl, rfl, rfl, rfl, rfl, rfl, rfl⟩, rfl, 0, by simp [publishAll]⟩
  | succ _ ih =>
    intro kv sc index
    by_cases hle : kv.pool.blockSize ≤ sc.pendingHashTokens.length
    · simp only [publishAll, if_pos hle]
      obtain ⟨hplan, hpool, n, hn, hpending, hobs⟩ := ih
        (kv.publishFullBlock sc.parentHash (sc.pendingHashTokens.take kv.pool.blockSize)
          (sc.blockTable.getD index 0)).2
        { sc with
          parentHash := (kv.publishFullBlock sc.parentHash
            (sc.pendingHashTokens.take kv.pool.blockSize) (sc.blockTable.getD index 0)).1
          pendingHashTokens := sc.pendingHashTokens.drop kv.pool.blockSize } (index + 1)
      simp only [publishFullBlock_pool, List.length_drop] at hpool hn hpending hobs
      refine ⟨⟨hplan.seqId, hplan.reservation, hplan.cursor, hplan.blockTable,
        hplan.executedFrontier, hplan.hitBlocks, hplan.admittedGenerated⟩, hpool, n + 1, ?_, ?_, ?_⟩
      · rw [Nat.add_mul]; omega
      · rw [hpending, List.drop_drop, Nat.add_mul, Nat.one_mul, Nat.add_comm]
      · rw [hobs, List.range_succ_eq_map]
        simp only [List.map_cons, List.map_map]
        congr 1
        · simp
        · refine List.map_congr_left fun i _ => ?_
          simp only [Function.comp_apply, List.drop_drop, Nat.succ_eq_add_one, Nat.add_mul,
            Nat.one_mul]
          rw [Nat.add_right_comm, Nat.add_assoc, Nat.add_comm kv.pool.blockSize]
    · simp only [publishAll, if_neg hle]
      exact ⟨⟨rfl, rfl, rfl, rfl, rfl, rfl, rfl⟩, trivial, 0, by simp⟩

theorem publishItem_plan (sc : SequenceSchedulingState) (item : WorkItem) (written : List Token) :
    SamePlan sc (kv.publishItem sc item written).2.1 := by
  unfold publishItem
  split
  · have plan := (publishAll_plan (sc.pendingHashTokens ++ written).length kv
      { sc with pendingHashTokens := sc.pendingHashTokens ++ written }
      ((item.context - sc.pendingHashTokens.length) / kv.pool.blockSize)).1
    exact ⟨plan.seqId, plan.reservation, plan.cursor, plan.blockTable, plan.executedFrontier,
      plan.hitBlocks, plan.admittedGenerated⟩
  · exact ⟨rfl, rfl, rfl, rfl, rfl, rfl, rfl⟩

theorem publishItem_pool (sc : SequenceSchedulingState) (item : WorkItem) (written : List Token) :
    (kv.publishItem sc item written).1.pool = kv.pool := by
  unfold publishItem
  split
  · exact (publishAll_plan (sc.pendingHashTokens ++ written).length kv
      { sc with pendingHashTokens := sc.pendingHashTokens ++ written } _).2.1
  · rfl

/-- The parent hash after publication has taken in the published tokens. -/
theorem publishAll_parentHash (fuel : Nat) :
    ∀ (kv : KvBlocks) (sc : SequenceSchedulingState) (index : Nat), 0 < kv.pool.blockSize →
      (kv.publishAll sc index fuel).2.1.parentHash = PrefixCache.hashBlock sc.parentHash
        (sc.pendingHashTokens.take (sc.pendingHashTokens.length -
          (kv.publishAll sc index fuel).2.1.pendingHashTokens.length)) := by
  induction fuel with
  | zero => intro kv sc index _; simp [publishAll, PrefixCache.hashBlock]
  | succ fuel ih =>
    intro kv sc index hbs
    by_cases hle : kv.pool.blockSize ≤ sc.pendingHashTokens.length
    · simp only [publishAll, if_pos hle]
      obtain ⟨-, -, _, hn, hpending, -⟩ := publishAll_plan fuel
        (kv.publishFullBlock sc.parentHash (sc.pendingHashTokens.take kv.pool.blockSize)
          (sc.blockTable.getD index 0)).2
        { sc with
          parentHash := (kv.publishFullBlock sc.parentHash
            (sc.pendingHashTokens.take kv.pool.blockSize) (sc.blockTable.getD index 0)).1
          pendingHashTokens := sc.pendingHashTokens.drop kv.pool.blockSize } (index + 1)
      rw [ih _ _ _ (by simpa using hbs)]
      simp only [publishFullBlock_pool, List.length_drop] at hn hpending ⊢
      rw [hpending, publishFullBlock_hash _ hbs]
      simp only [List.length_drop, List.take_take, Nat.min_self]
      rw [← PrefixCache.hashBlock_append, ← List.take_add]
      congr 2
      omega
    · simp [publishAll, if_neg hle, PrefixCache.hashBlock]

theorem publishItem_parentHash (hbs : 0 < kv.pool.blockSize) (sc : SequenceSchedulingState)
    (item : WorkItem) (written : List Token) :
    (kv.publishItem sc item written).2.1.parentHash = PrefixCache.hashBlock sc.parentHash
      (if 0 < item.kvTokenCount then
        (sc.pendingHashTokens ++ written).take ((sc.pendingHashTokens ++ written).length -
          (kv.publishItem sc item written).2.1.pendingHashTokens.length) else []) := by
  unfold publishItem
  split
  · exact publishAll_parentHash _ kv _ _ hbs
  · rfl

/-- Publication logs publications. -/
theorem publishItem_obs (sc : SequenceSchedulingState) (item : WorkItem) (written : List Token) :
    ∀ o ∈ (kv.publishItem sc item written).2.2,
      ∃ id index tokens, o = .published sc.seqId id index tokens := by
  unfold publishItem
  split
  · obtain ⟨-, -, _, -, -, hobs⟩ := publishAll_plan (sc.pendingHashTokens ++ written).length kv
      { sc with pendingHashTokens := sc.pendingHashTokens ++ written }
      ((item.context - sc.pendingHashTokens.length) / kv.pool.blockSize)
    intro o ho
    simp only [hobs] at ho
    obtain ⟨_, -, rfl⟩ := List.mem_map.mp ho
    exact ⟨_, _, _, rfl⟩
  · exact nofun

/-- With fuel for every pending token the loop stops below one block. -/
theorem publishAll_pending_lt (hbs : 0 < kv.pool.blockSize) (fuel : Nat) :
    ∀ (kv' : KvBlocks) (sc : SequenceSchedulingState) (index : Nat),
      kv'.pool.blockSize = kv.pool.blockSize → sc.pendingHashTokens.length ≤ fuel →
      (kv'.publishAll sc index fuel).2.1.pendingHashTokens.length < kv.pool.blockSize := by
  induction fuel with
  | zero =>
    intro kv' sc index _ hfuel
    simp only [publishAll]
    omega
  | succ _ ih =>
    intro kv' sc index hsize hfuel
    by_cases hle : kv'.pool.blockSize ≤ sc.pendingHashTokens.length
    · simp only [publishAll, if_pos hle]
      exact ih _ _ _ (by simp [hsize]) (by simp only [List.length_drop]; omega)
    · simp only [publishAll, if_neg hle]
      omega

/-- Publication of owned, uncached blocks keeps the representation invariant and all entries.
It caches no block but the ones it names, each under the hash of the tokens up to its end. -/
theorem publishAll_spec (fuel : Nat) :
    ∀ (kv : KvBlocks) (sc : SequenceSchedulingState) (index : Nat),
      kv.Inv → 0 < kv.pool.blockSize → (sc.blockTable.drop index).Nodup →
      (∀ b ∈ sc.blockTable.drop index, kv.cache.byBlock b = none ∧ 0 < kv.pool.refCount b) →
      index * kv.pool.blockSize + sc.pendingHashTokens.length ≤
        sc.blockTable.length * kv.pool.blockSize → (kv.publishAll sc index fuel).1.Inv ∧
      (∀ b e, (kv.publishAll sc index fuel).1.cache.byBlock b = some e →
        kv.cache.byBlock b = some e ∨
        ∃ i tokens, .published sc.seqId b i tokens ∈ (kv.publishAll sc index fuel).2.2) ∧
      (∀ b e, kv.cache.byBlock b = some e →
        (kv.publishAll sc index fuel).1.cache.byBlock b = some e) ∧
      ∀ i, (i + 1) * kv.pool.blockSize ≤ sc.pendingHashTokens.length -
          (kv.publishAll sc index fuel).2.1.pendingHashTokens.length →
        (kv.publishAll sc index fuel).1.cache.byBlock (sc.blockTable.getD (index + i) 0) =
          some ⟨PrefixCache.hashBlock sc.parentHash
            (sc.pendingHashTokens.take ((i + 1) * kv.pool.blockSize)),
            sc.blockTable.getD (index + i) 0⟩ := by
  -- below a whole block nothing is published
  have hnone : ∀ {bs n i : Nat}, 0 < bs → ¬ (i + 1) * bs ≤ n - n := fun hbs hle => by
    rw [Nat.sub_self, Nat.add_mul, Nat.one_mul] at hle
    omega
  induction fuel with
  | zero =>
    intro kv sc index h hbs _ _ _
    exact ⟨h, fun b e he => .inl he, fun b e he => he, fun i hi => absurd hi (hnone hbs)⟩
  | succ fuel ih =>
    intro kv sc index h hbs hnodup hown hfits
    by_cases hle : kv.pool.blockSize ≤ sc.pendingHashTokens.length
    · have hindex : index < sc.blockTable.length := by
        by_contra hge
        have := Nat.mul_le_mul_right kv.pool.blockSize (Nat.le_of_not_lt hge)
        omega
      have hdrop := List.drop_eq_getElem_cons hindex
      have hget : sc.blockTable.getD index 0 = sc.blockTable[index] := by
        simp [List.getD_eq_getElem?_getD, hindex]
      obtain ⟨huncached, href⟩ :=
        hown sc.blockTable[index] (by rw [hdrop]; exact List.mem_cons_self)
      rw [hdrop, List.nodup_cons] at hnodup
      obtain ⟨kv₁, hpublish, hinv, hpool, hblock⟩ := publishFullBlock_spec h hbs sc.parentHash
        (sc.pendingHashTokens.take kv.pool.blockSize) huncached href
      simp only [publishAll, if_pos hle, hget, hpublish]
      obtain ⟨hinv', hcached, hkept, hhashed⟩ := ih kv₁
        { sc with
          parentHash := PrefixCache.hashBlock sc.parentHash
            ((sc.pendingHashTokens.take kv.pool.blockSize).take kv.pool.blockSize)
          pendingHashTokens := sc.pendingHashTokens.drop kv.pool.blockSize } (index + 1) hinv
        (by rw [hpool]; exact hbs) hnodup.2
        (by
          intro b hb
          have hne : b ≠ sc.blockTable[index] := by
            rintro rfl
            exact hnodup.1 hb
          rw [hblock, hpool, Function.update_of_ne hne]
          exact hown b (by rw [hdrop]; exact List.mem_cons_of_mem _ hb))
        (by
          simp only [hpool, List.length_drop, Nat.add_mul, Nat.one_mul]
          omega)
      refine ⟨hinv', fun b e he => ?_, fun b e he => hkept b e ?_, fun i hi => ?_⟩
      · rcases hcached b e he with he | ⟨i, tokens, hi⟩
        · rw [hblock, Function.update_apply] at he
          split at he
          · rename_i hb
            refine .inr ⟨index, sc.pendingHashTokens.take kv.pool.blockSize, ?_⟩
            rw [hb]
            exact List.mem_cons_self
          · exact .inl he
        · exact .inr ⟨i, tokens, List.mem_cons_of_mem _ hi⟩
      · have hne : b ≠ sc.blockTable[index] := by
          rintro rfl
          rw [huncached] at he
          cases he
        rw [hblock, Function.update_of_ne hne]
        exact he
      · cases i with
        | zero =>
          rw [Nat.zero_add, Nat.one_mul, Nat.add_zero index, hget]
          refine hkept _ _ ?_
          rw [hblock, Function.update_self, List.take_take, Nat.min_self]
        | succ i =>
          simp only [hpool, List.length_drop] at hhashed hi
          have hlater := hhashed i (by rw [Nat.add_mul, Nat.one_mul] at hi; omega)
          rw [Nat.add_right_comm index 1 i, Nat.add_assoc index i 1] at hlater
          refine hlater.trans ?_
          rw [List.take_take, Nat.min_self, ← PrefixCache.hashBlock_append, ← List.take_add,
            Nat.add_mul (i + 1) 1, Nat.one_mul, Nat.add_comm kv.pool.blockSize]
    · simp only [publishAll, if_neg hle]
      exact ⟨h, fun b e he => .inl he, fun b e he => he, fun i hi => absurd hi (hnone hbs)⟩

/-- The publication of a retired item. Its pending tokens end where the item starts, and
the blocks from there on are owned and uncached. Then the invariant is kept, the pool is
untouched, and what is newly cached lies below the first block that is still pending. Each
full block of the tokens is logged. All entries are kept, and each full block has one under the
hash up to its end. -/
theorem publishItem_spec (h : kv.Inv) (hbs : 0 < kv.pool.blockSize) {sc : SequenceSchedulingState}
    {item : WorkItem} {written : List Token} {index : Nat}
    (hindex : index = (item.context - sc.pendingHashTokens.length) / kv.pool.blockSize)
    (hpos : 0 < item.kvTokenCount) (hpending : sc.pendingHashTokens.length ≤ item.context)
    (hwritten : written.length ≤ item.kvTokenCount)
    (hfits : item.context + item.kvTokenCount ≤ sc.blockTable.length * kv.pool.blockSize)
    (hnodup : (sc.blockTable.drop index).Nodup) (hown : ∀ b ∈ sc.blockTable.drop index,
      kv.cache.byBlock b = none ∧ 0 < kv.pool.refCount b) :
    (kv.publishItem sc item written).1.Inv ∧ (kv.publishItem sc item written).1.pool = kv.pool ∧
    ∃ n, index + n ≤ (item.context + item.kvTokenCount -
        (kv.publishItem sc item written).2.1.pendingHashTokens.length) / kv.pool.blockSize ∧
      (kv.publishItem sc item written).2.2 = ((List.range n).map fun i =>
        .published sc.seqId (sc.blockTable.getD (index + i) 0) (index + i)
          (((sc.pendingHashTokens ++ written).drop (i * kv.pool.blockSize)).take
            kv.pool.blockSize)) ∧
      (∀ b e, (kv.publishItem sc item written).1.cache.byBlock b = some e →
        kv.cache.byBlock b = some e ∨ b ∈ (sc.blockTable.drop index).take n) ∧
      (∀ b e, kv.cache.byBlock b = some e →
        (kv.publishItem sc item written).1.cache.byBlock b = some e) ∧
      ∀ i, (i + 1) * kv.pool.blockSize ≤ (sc.pendingHashTokens ++ written).length -
          (kv.publishItem sc item written).2.1.pendingHashTokens.length →
        (kv.publishItem sc item written).1.cache.byBlock (sc.blockTable.getD (index + i) 0) =
          some ⟨PrefixCache.hashBlock sc.parentHash
            ((sc.pendingHashTokens ++ written).take ((i + 1) * kv.pool.blockSize)),
            sc.blockTable.getD (index + i) 0⟩ := by
  have hpublish : kv.publishItem sc item written =
      kv.publishAll { sc with pendingHashTokens := sc.pendingHashTokens ++ written } index
        (sc.pendingHashTokens ++ written).length := by
    simp only [publishItem, if_pos hpos, hindex]
  have hstart : index * kv.pool.blockSize ≤ item.context - sc.pendingHashTokens.length := by
    rw [hindex]
    exact Nat.div_mul_le_self ..
  obtain ⟨hinv, hcached, hkept, hhashed⟩ :=
    publishAll_spec (sc.pendingHashTokens ++ written).length kv
    { sc with pendingHashTokens := sc.pendingHashTokens ++ written } index h hbs hnodup hown
    (by simp only [List.length_append]; omega)
  obtain ⟨-, hpool, n, hn, hrest, hobs⟩ := publishAll_plan (sc.pendingHashTokens ++ written).length
    kv { sc with pendingHashTokens := sc.pendingHashTokens ++ written } index
  rw [← hpublish] at hinv hcached hkept hhashed hpool hrest hobs
  simp only [List.length_append] at hn
  refine ⟨hinv, hpool, n, ?_, hobs, fun b e he => ?_, hkept, hhashed⟩
  · rw [Nat.le_div_iff_mul_le hbs, Nat.add_mul, hrest, List.length_drop, List.length_append]
    omega
  · refine (hcached b e he).imp_right ?_
    rintro ⟨_, _, hi⟩
    rw [hobs] at hi
    obtain ⟨j, hj, heq⟩ := List.mem_map.mp hi
    have hjn : j < n := List.mem_range.mp hj
    obtain rfl : sc.blockTable.getD (index + j) 0 = b := by cases heq; rfl
    have hlt : index + j < sc.blockTable.length := by
      refine Nat.lt_of_lt_of_le (Nat.add_lt_add_left hjn _) ?_
      refine Nat.le_of_mul_le_mul_right ?_ hbs
      rw [Nat.add_mul]
      omega
    rw [List.getD_eq_getElem?_getD, List.getElem?_eq_getElem hlt, Option.getD_some]
    exact List.mem_iff_getElem.mpr ⟨j, by simp only [List.length_take, List.length_drop]; omega,
      by simp⟩

end KvBlocks

end CcInfer
