import CcInfer.Proofs.Kv.Pool

/-!
# `CcInfer.Proofs.Kv.Invariant`: the representation invariant of pool and cache

`KvBlocks.Inv` says how the free list, the reference counts, the two indexes of the cache
and the idle LRU fit together. `release_request_blocks` breaks it for a moment: it lowers
all reference counts first and links the unreferenced blocks into the LRU or the free list
afterwards. `InvUpTo unsettled` is the invariant with the blocks of `unsettled` excepted,
and `Inv` is the case with no exception.
-/

set_option autoImplicit false

namespace CcInfer

open BlockPool

namespace BlockCache

variable (c : BlockCache) (b : Bool) (site : AssertSite)

/-- A failed assertion changes nothing of the cache. -/
@[simp] theorem assert_frame : (c.assert b site).entries = c.entries ∧
    (c.assert b site).idleLru = c.idleLru ∧ (c.assert b site).byHash = c.byHash ∧
    (c.assert b site).byBlock = c.byBlock := by
  unfold assert
  split <;> exact ⟨rfl, rfl, rfl, rfl⟩

/-- Swap-remove drops one entry; the order of the bucket is not kept. -/
theorem swapRemove_perm {bucket : List BlockCacheEntry} {e : BlockCacheEntry}
    (he : e ∈ bucket) : (swapRemove bucket e).Perm (bucket.erase e) := by
  obtain ⟨l₁, l₂, hnot, rfl, herase⟩ := List.exists_erase_eq he
  have hidx : (l₁ ++ e :: l₂).idxOf e = l₁.length := by
    simp [List.idxOf_append, hnot]
  rw [herase]
  unfold swapRemove
  rw [hidx]
  -- The last entry is `e` itself or sits behind it.
  rcases List.eq_nil_or_concat l₂ with rfl | ⟨l₂, last, rfl⟩
  · simp
  · rw [List.concat_eq_append]
    have hlast : (l₁ ++ e :: (l₂ ++ [last])).getLast? = some last := by
      simp [List.getLast?_append, List.getLast?_cons]
    have hset : (l₁ ++ e :: (l₂ ++ [last])).set l₁.length last = (l₁ ++ last :: l₂) ++ [last] := by
      simp
    rw [hlast]
    simp only [hset, List.dropLast_concat]
    exact (List.perm_append_singleton last l₂).symm.append_left l₁

end BlockCache

namespace KvBlocks

variable {kv kv' : KvBlocks} {b id : BlockId} {u : BlockId → Prop} {e : BlockCacheEntry}
variable {kv'' : KvBlocks} {leak table : BlockTable}

/-- The representation invariant, with the blocks of `unsettled` between the release of
their last reference and their way into the LRU or the free list. -/
structure InvUpTo (kv : KvBlocks) (unsettled : BlockId → Prop) : Prop where
  free_nodup : kv.pool.freeList.Nodup
  free_iff : ∀ b, b ∈ kv.pool.freeList ↔ b < kv.pool.maxBlocks ∧ kv.pool.status b = .free
  free_of_ge : ∀ b, kv.pool.maxBlocks ≤ b → kv.pool.status b = .free
  free_ref : ∀ b, kv.pool.status b = .free → kv.pool.refCount b = 0
  cached_inUse : ∀ b e, kv.cache.byBlock b = some e → kv.pool.status b = .inUse
  cached_id : ∀ b e, kv.cache.byBlock b = some e → e.blockId = b
  unsettled_inUse : ∀ b, unsettled b → kv.pool.status b = .inUse
  idle_nodup : kv.cache.idleLru.Nodup
  idle_iff : ∀ e, e ∈ kv.cache.idleLru ↔ kv.cache.byBlock e.blockId = some e ∧
    kv.pool.refCount e.blockId = 0 ∧ ¬ unsettled e.blockId
  unref_cached : ∀ b, kv.pool.status b = .inUse → kv.pool.refCount b = 0 → ¬ unsettled b →
    kv.cache.byBlock b ≠ none
  uncached_ref : ∀ b, kv.cache.byBlock b = none → kv.pool.refCount b ≤ 1
  entries_nodup : kv.cache.entries.Nodup
  entries_iff : ∀ e, e ∈ kv.cache.entries ↔ kv.cache.byBlock e.blockId = some e
  bucket_ne_nil : ∀ h bucket, kv.cache.byHash h = some bucket → bucket ≠ []
  bucket_nodup : ∀ h bucket, kv.cache.byHash h = some bucket → bucket.Nodup
  bucket_mem : ∀ h bucket, kv.cache.byHash h = some bucket →
    ∀ e ∈ bucket, e.prefixHash = h ∧ kv.cache.byBlock e.blockId = some e
  hashed : ∀ b e, kv.cache.byBlock b = some e →
    ∃ bucket, kv.cache.byHash e.prefixHash = some bucket ∧ e ∈ bucket

/-- The representation invariant. -/
def Inv (kv : KvBlocks) : Prop := kv.InvUpTo (fun _ => False)

/-- The sizes, which no operation changes. -/
structure SameSize (kv kv' : KvBlocks) : Prop where
  maxBlocks : kv'.pool.maxBlocks = kv.pool.maxBlocks
  blockSize : kv'.pool.blockSize = kv.pool.blockSize

theorem SameSize.refl (kv : KvBlocks) : SameSize kv kv := ⟨rfl, rfl⟩

theorem SameSize.trans (h : SameSize kv kv') (h' : SameSize kv' kv'') : SameSize kv kv'' :=
  ⟨h'.maxBlocks.trans h.maxBlocks, h'.blockSize.trans h.blockSize⟩

/-- What an operation that publishes nothing does: it takes the references of `gain`, gives
back those of `lose`, loses track of those of `leak`, and at most drops cache entries. -/
structure Moves (kv kv' : KvBlocks) (gain lose leak : BlockTable) : Prop where
  inv : kv'.Inv
  size : SameSize kv kv'
  leaked : kv'.pool.leaked = kv.pool.leaked ++ leak
  ref : ∀ b, kv'.pool.refCount b + lose.count b =
    kv.pool.refCount b + gain.count b + leak.count b
  cached : ∀ b e, kv'.cache.byBlock b = some e → kv.cache.byBlock b = some e
  /-- A block that stays referenced stays cached. -/
  kept : ∀ b e, kv.cache.byBlock b = some e → lose.count b < kv.pool.refCount b →
    kv'.cache.byBlock b = some e

theorem Moves.refl (h : kv.Inv) : Moves kv kv [] [] [] :=
  ⟨h, .refl kv, by simp, by simp, fun _ _ => id, fun _ _ he _ => he⟩

/-- Nothing is cached by a move. -/
theorem Moves.uncached {gain lose : BlockTable}
    (h : Moves kv kv' gain lose leak) (hb : kv.cache.byBlock b = none) :
    kv'.cache.byBlock b = none :=
  Option.eq_none_iff_forall_ne_some.mpr fun e he => nomatch hb.symm.trans (h.cached b e he)

/-- Moves one after the other. -/
theorem Moves.trans {g l k g' l' k' : BlockTable}
    (h : Moves kv kv' g l k) (h' : Moves kv' kv'' g' l' k') :
    Moves kv kv'' (g ++ g') (l ++ l') (k ++ k') where
  inv := h'.inv
  size := h.size.trans h'.size
  leaked := by rw [h'.leaked, h.leaked, List.append_assoc]
  ref b := by
    have := h.ref b
    have := h'.ref b
    simp only [List.count_append]
    omega
  cached b e he := h.cached b e (h'.cached b e he)
  kept b e he hb := by
    rw [List.count_append] at hb
    have href := h.ref b
    exact h'.kept b e (h.kept b e he (by omega)) (by omega)

theorem init_inv (maxBlocks blockSize : Nat) : (init maxBlocks blockSize).Inv := by
  constructor <;>
    simp [init, BlockPool.init, BlockCache.empty, BlockPool.status, BlockPool.refCount,
      List.nodup_range]

/-- A referenced block is in use. -/
theorem InvUpTo.inUse_of_ref (h : kv.InvUpTo u)
    (hb : 0 < kv.pool.refCount b) : kv.pool.status b = .inUse := by
  rcases hs : kv.pool.status b with _ | _
  · have := h.free_ref b hs; omega
  · rfl

/-- A block in use lies in the pool. -/
theorem InvUpTo.lt_of_inUse (h : kv.InvUpTo u)
    (hb : kv.pool.status b = .inUse) : b < kv.pool.maxBlocks := by
  by_contra hge
  have := h.free_of_ge b (not_lt.mp hge)
  rw [hb] at this
  cases this

/-- The invariant reads nothing but these components. -/
theorem InvUpTo.of_same (h : kv.InvUpTo u)
    (hmax : kv'.pool.maxBlocks = kv.pool.maxBlocks) (hblocks : kv'.pool.blocks = kv.pool.blocks)
    (hfree : kv'.pool.freeList = kv.pool.freeList) (hentries : kv'.cache.entries = kv.cache.entries)
    (hidle : kv'.cache.idleLru = kv.cache.idleLru) (hhash : kv'.cache.byHash = kv.cache.byHash)
    (hblock : kv'.cache.byBlock = kv.cache.byBlock) : kv'.InvUpTo u := by
  have hstatus : kv'.pool.status = kv.pool.status := by
    funext b; simp only [status, hblocks]
  have href : kv'.pool.refCount = kv.pool.refCount := by
    funext b; simp only [refCount, hblocks]
  constructor <;> simp only [hmax, hfree, hentries, hidle, hhash, hblock, hstatus, href]
  exacts [h.1, h.2, h.3, h.4, h.5, h.6, h.7, h.8, h.9, h.10, h.11, h.12, h.13, h.14, h.15, h.16,
    h.17]

/-! ### Lookup -/

/-- The components of `lookupHit`. -/
theorem lookupHit_fields (kv : KvBlocks) (e : BlockCacheEntry) :
    (kv.lookupHit e).pool = kv.pool.retainRequest e.blockId ∧
    (kv.lookupHit e).cache.entries = kv.cache.entries ∧
    (kv.lookupHit e).cache.byHash = kv.cache.byHash ∧
    (kv.lookupHit e).cache.byBlock = kv.cache.byBlock ∧ (kv.lookupHit e).cache.idleLru =
      if kv.pool.refCount e.blockId = 0 then kv.cache.idleLru.erase e else kv.cache.idleLru := by
  unfold lookupHit
  split <;> simp

/-- A hit on a cached entry keeps the invariant: the block leaves the LRU when it was
there, and is referenced once more. -/
theorem lookupHit_inv (h : kv.Inv)
    (he : kv.cache.byBlock e.blockId = some e) : (kv.lookupHit e).Inv := by
  obtain ⟨hpool, hentries, hhash, hblock, hidle⟩ := lookupHit_fields kv e
  have hmem : ∀ x, x ∈ (kv.lookupHit e).cache.idleLru ↔ x ∈ kv.cache.idleLru ∧ x ≠ e := by
    intro x
    rw [hidle]
    split
    · rw [h.idle_nodup.mem_erase_iff]; exact and_comm
    · constructor
      · intro hx
        refine ⟨hx, ?_⟩
        rintro rfl
        exact absurd ((h.idle_iff x).mp hx).2.1 ‹_›
      · exact And.left
  constructor
  · simpa [hpool] using h.free_nodup
  · simpa [hpool] using h.free_iff
  · simpa [hpool] using h.free_of_ge
  · intro b hb
    simp only [hpool, retainRequest_frame] at hb
    have hne : b ≠ e.blockId := by
      rintro rfl
      rw [h.cached_inUse _ e he] at hb
      cases hb
    rw [hpool, retainRequest_refCount, if_neg hne, h.free_ref b hb]
  · simpa [hpool, hblock] using h.cached_inUse
  · simpa [hblock] using h.cached_id
  · simp
  · rw [hidle]
    split
    · exact h.idle_nodup.erase e
    · exact h.idle_nodup
  · intro x
    rw [hmem, h.idle_iff, hblock, hpool, retainRequest_refCount]
    by_cases hx : x.blockId = e.blockId
    · simp only [hx, if_pos, Nat.add_eq_zero_iff, one_ne_zero, and_false, false_and, iff_false]
      rintro ⟨⟨hx', -⟩, hne⟩
      rw [he] at hx'
      exact hne (Option.some.inj hx').symm
    · have hne : x ≠ e := fun hxe => hx (by rw [hxe])
      simp [hx, hne]
  · intro b hb href _
    rw [hpool] at hb href
    rw [hblock]
    simp only [retainRequest_frame] at hb
    rw [retainRequest_refCount] at href
    exact h.unref_cached b hb (by omega) not_false
  · intro b hb
    rw [hblock] at hb
    have hne : b ≠ e.blockId := by
      rintro rfl
      rw [he] at hb
      cases hb
    rw [hpool, retainRequest_refCount, if_neg hne]
    exact h.uncached_ref b hb
  · rw [hentries]; exact h.entries_nodup
  · rw [hentries, hblock]; exact h.entries_iff
  · rw [hhash]; exact h.bucket_ne_nil
  · rw [hhash]; exact h.bucket_nodup
  · rw [hhash, hblock]; exact h.bucket_mem
  · rw [hhash, hblock]; exact h.hashed

/-- The lookup loop, from a partial result on. The blocks it appends are the first entries
of the buckets of the hashes it passed, and each gains one reference. -/
theorem lookupLoop_spec (hashes : List Hash) : ∀ (kv : KvBlocks) (result : PrefixLookup), kv.Inv →
      ∃ hits : List BlockCacheEntry, (kv.lookupLoop result hashes).1.blockTable =
          result.blockTable ++ hits.map (·.blockId) ∧
        (kv.lookupLoop result hashes).1.prefixHitBlocks = result.prefixHitBlocks + hits.length ∧
        (kv.lookupLoop result hashes).1.parentHash =
          (hits.map (·.prefixHash)).getLast?.getD result.parentHash ∧
        hits.map (·.prefixHash) <+: hashes ∧ (∀ e ∈ hits, kv.cache.byBlock e.blockId = some e) ∧
        (kv.lookupLoop result hashes).2.Inv ∧ SameSize kv (kv.lookupLoop result hashes).2 ∧
        (kv.lookupLoop result hashes).2.pool.freeList = kv.pool.freeList ∧
        (kv.lookupLoop result hashes).2.pool.leaked = kv.pool.leaked ∧
        (kv.lookupLoop result hashes).2.cache.byBlock = kv.cache.byBlock ∧
        (kv.lookupLoop result hashes).2.cache.byHash = kv.cache.byHash ∧
        ∀ b, (kv.lookupLoop result hashes).2.pool.refCount b =
          kv.pool.refCount b + (hits.map (·.blockId)).count b := by
  induction hashes with
  | nil =>
    intro kv result h
    exact ⟨[], by simp [lookupLoop, h, SameSize.refl]⟩
  | cons hash rest ih =>
    intro kv result h
    unfold lookupLoop
    split
    · exact ⟨[], by simp, by simp, by simp, by simp, by simp,
        h.of_same rfl rfl rfl rfl rfl rfl rfl, ⟨rfl, rfl⟩, rfl, rfl, rfl, rfl, by simp⟩
    · exact ⟨[], by simp, by simp, by simp, by simp, by simp,
        h.of_same rfl rfl rfl rfl rfl rfl rfl, ⟨rfl, rfl⟩, rfl, rfl, rfl, rfl, by simp⟩
    · rename_i e tail hbucket
      obtain ⟨hash_eq, he⟩ := h.bucket_mem hash _ hbucket e (by simp)
      obtain ⟨hpool, hentries, hhash, hblock, hidle⟩ := lookupHit_fields kv e
      obtain ⟨hits, h1, h2, h3, h4, h5, h6, h7, h8, h9, h10, h11, h12⟩ := ih (kv.lookupHit e)
        ⟨result.blockTable ++ [e.blockId], result.prefixHitBlocks + 1, hash⟩ (lookupHit_inv h he)
      refine ⟨e :: hits, by simp [h1], by simp [h2]; omega, ?_, ?_, ?_, h6, ?_, ?_, ?_, ?_, ?_, ?_⟩
      · rw [h3]
        cases hl : (hits.map (·.prefixHash)).getLast? <;>
          simp [List.getLast?_cons, hl, hash_eq]
      · rw [List.map_cons, hash_eq]
        exact List.cons_prefix_cons.mpr ⟨rfl, h4⟩
      · intro x hx
        rcases List.mem_cons.mp hx with rfl | hx
        · exact he
        · rw [← hblock]; exact h5 x hx
      · exact SameSize.trans ⟨by simp [hpool], by simp [hpool]⟩ h7
      · rw [h8, hpool]; simp
      · rw [h9, hpool]; simp
      · rw [h10, hblock]
      · rw [h11, hhash]
      · intro b
        rw [h12, hpool, retainRequest_refCount, List.map_cons, List.count_cons]
        by_cases hb : b = e.blockId
        · subst hb; simp; omega
        · simp [hb, Ne.symm hb]

/-! ### Publication -/

/-- A new entry for an uncached, referenced block, appended to its bucket, keeps the
invariant. -/
theorem insertEntry_inv (h : kv.Inv)
    (huncached : kv.cache.byBlock e.blockId = none) (href : 0 < kv.pool.refCount e.blockId)
    (hpool : kv'.pool = kv.pool) (hidle : kv'.cache.idleLru = kv.cache.idleLru)
    (hentries : kv'.cache.entries = kv.cache.entries ++ [e])
    (hblock : kv'.cache.byBlock = Function.update kv.cache.byBlock e.blockId (some e))
    (hhash : kv'.cache.byHash = Function.update kv.cache.byHash e.prefixHash
      (some ((kv.cache.byHash e.prefixHash).getD [] ++ [e]))) : kv'.Inv := by
  have hinUse := h.inUse_of_ref href
  have hb : ∀ b, kv'.cache.byBlock b = if b = e.blockId then some e else kv.cache.byBlock b :=
    fun b => by rw [hblock, Function.update_apply]
  have hold : ∀ x ∈ (kv.cache.byHash e.prefixHash).getD [],
      x.prefixHash = e.prefixHash ∧ kv.cache.byBlock x.blockId = some x := by
    intro x hx
    rcases hb : kv.cache.byHash e.prefixHash with _ | bucket
    · simp [hb] at hx
    · exact h.bucket_mem _ bucket hb x (by simpa [hb] using hx)
  have hg : ∀ g bucket, kv'.cache.byHash g = some bucket →
      (g = e.prefixHash ∧ bucket = (kv.cache.byHash e.prefixHash).getD [] ++ [e]) ∨
      kv.cache.byHash g = some bucket := by
    intro g bucket hgb
    rw [hhash, Function.update_apply] at hgb
    split at hgb
    · exact .inl ⟨‹_›, (Option.some.inj hgb).symm⟩
    · exact .inr hgb
  constructor <;> (try rw [hpool]) <;> (try rw [hidle])
  · exact h.free_nodup
  · exact h.free_iff
  · exact h.free_of_ge
  · exact h.free_ref
  · have := h.cached_inUse; grind
  · have := h.cached_id; grind
  · exact nofun
  · exact h.idle_nodup
  · have := h.idle_iff; grind
  · have := h.unref_cached; grind
  · have := h.uncached_ref; grind
  · have := h.entries_nodup; have := h.entries_iff; grind
  · have := h.entries_iff; grind
  · intro g bucket hgb
    rcases hg g bucket hgb with ⟨rfl, rfl⟩ | hgb
    · simp
    · exact h.bucket_ne_nil g bucket hgb
  · intro g bucket hgb
    rcases hg g bucket hgb with ⟨rfl, rfl⟩ | hgb
    · have hnodup : ((kv.cache.byHash e.prefixHash).getD []).Nodup := by
        rcases hb : kv.cache.byHash e.prefixHash with _ | bucket
        · exact List.nodup_nil
        · exact h.bucket_nodup _ bucket hb
      grind
    · exact h.bucket_nodup g bucket hgb
  · intro g bucket hgb x hx
    rcases hg g bucket hgb with ⟨rfl, rfl⟩ | hgb
    · grind
    · have := h.bucket_mem g bucket hgb x hx
      grind
  · intro b x hx
    rw [hb] at hx
    rw [hhash, Function.update_apply]
    split at hx
    · obtain rfl := Option.some.inj hx
      simp
    · obtain ⟨bucket, hbucket, hmem⟩ := h.hashed b x hx
      split
      · rename_i heq
        exact ⟨_, rfl, by simp [← heq, hbucket, hmem]⟩
      · exact ⟨bucket, hbucket, hmem⟩

/-- The hash of one full block over its parent. -/
theorem chainHashesFrom_block {bs : Nat} (hbs : 0 < bs) (tokens : List Token) (parent : Hash) :
    PrefixCache.chainHashesFrom tokens bs bs parent 0 =
      [PrefixCache.hashBlock parent (tokens.take bs)] := by
  simp [PrefixCache.chainHashesFrom, Nat.div_self hbs, PrefixCache.chainLoop]

/-- Publishing an uncached, referenced block under any seed adds one entry and touches
nothing else. -/
theorem publishFullBlock_inv (h : kv.Inv) (parent seed : Hash) (tokens : List Token)
    (huncached : kv.cache.byBlock id = none) (href : 0 < kv.pool.refCount id) :
    (kv.publishFullBlock parent tokens id seed).2.Inv ∧
    (kv.publishFullBlock parent tokens id seed).2.pool = kv.pool ∧
    (kv.publishFullBlock parent tokens id seed).2.cache.idleLru = kv.cache.idleLru ∧
    (kv.publishFullBlock parent tokens id seed).2.cache.byBlock =
      Function.update kv.cache.byBlock id
        (some ⟨(kv.publishFullBlock parent tokens id seed).1, id⟩) := by
  unfold publishFullBlock
  simp only [BlockCache.assert_frame, huncached]
  refine ⟨?_, trivial, by simp, by simp⟩
  let e : BlockCacheEntry := ⟨(PrefixCache.chainHashesFrom tokens kv.pool.blockSize
    kv.pool.blockSize parent seed).headD 0, id⟩
  exact insertEntry_inv (e := e) h huncached href rfl (by simp) (by simp [e]) (by simp [e])
    (by simp [e])

/-- The block and its parent hash name the entry that a publication without a seed adds. -/
theorem publishFullBlock_spec (h : kv.Inv) (hbs : 0 < kv.pool.blockSize) (parent : Hash)
    (tokens : List Token) (huncached : kv.cache.byBlock id = none)
    (href : 0 < kv.pool.refCount id) : ∃ kv', kv.publishFullBlock parent tokens id =
        (PrefixCache.hashBlock parent (tokens.take kv.pool.blockSize), kv') ∧
      kv'.Inv ∧ kv'.pool = kv.pool ∧ kv'.cache.byBlock = Function.update kv.cache.byBlock id
        (some ⟨PrefixCache.hashBlock parent (tokens.take kv.pool.blockSize), id⟩) := by
  obtain ⟨hinv, hpool, -, hblock⟩ := publishFullBlock_inv h parent 0 tokens huncached href
  have hhash : (kv.publishFullBlock parent tokens id).1 =
      PrefixCache.hashBlock parent (tokens.take kv.pool.blockSize) := by
    simp only [publishFullBlock, BlockCache.assert_frame, huncached, chainHashesFrom_block hbs,
      List.headD_cons]
  rw [hhash] at hblock
  exact ⟨_, Prod.ext hhash rfl, hinv, hpool, hblock⟩

/-! ### Eviction -/

/-- The components of `eraseEntry` on a cached block. -/
theorem eraseEntry_fields (h : kv.Inv) (he : kv.cache.byBlock e.blockId = some e) :
    ∃ bucket, kv.cache.byHash e.prefixHash = some bucket ∧ e ∈ bucket ∧
    (kv.cache.eraseEntry e.blockId).entries = kv.cache.entries.erase e ∧
    (kv.cache.eraseEntry e.blockId).idleLru = kv.cache.idleLru.erase e ∧
    (kv.cache.eraseEntry e.blockId).byBlock = Function.update kv.cache.byBlock e.blockId none ∧
    (kv.cache.eraseEntry e.blockId).byHash = Function.update kv.cache.byHash e.prefixHash
      (if (BlockCache.swapRemove bucket e).isEmpty then none
        else some (BlockCache.swapRemove bucket e)) := by
  obtain ⟨bucket, hbucket, hmem⟩ := h.hashed _ e he
  refine ⟨bucket, hbucket, hmem, ?_⟩
  simp [BlockCache.eraseEntry, he, hbucket]

/-- Evicting the front of the idle LRU moves its block to the end of the free list. -/
theorem evictOne_spec (h : kv.Inv) {rest : List BlockCacheEntry}
    (hidle : kv.cache.idleLru = e :: rest) :
    ∃ kv', kv.evictOne = (true, kv') ∧ kv'.Inv ∧ SameSize kv kv' ∧
      kv'.cache.idleLru = rest ∧ kv'.pool.freeList = kv.pool.freeList ++ [e.blockId] ∧
      kv'.pool.leaked = kv.pool.leaked ∧ (∀ b, kv'.pool.refCount b = kv.pool.refCount b) ∧
      kv'.cache.byBlock = Function.update kv.cache.byBlock e.blockId none := by
  have hmem : e ∈ kv.cache.idleLru := by rw [hidle]; exact List.mem_cons_self
  obtain ⟨he, hzero, -⟩ := (h.idle_iff e).mp hmem
  have hassert : (KvBlocks.mk kv.pool (kv.cache.assert (kv.pool.refCount e.blockId = 0)
      .evictUnreferenced)).Inv := by
    simp [BlockCache.assert, hzero, h]
  obtain ⟨bucket, hbucket, hin, hentries, hidle', hblock, hhash⟩ := eraseEntry_fields hassert
    (e := e) (by simpa using he)
  simp only [BlockCache.assert_frame] at hbucket hentries hidle' hblock hhash
  have hperm := BlockCache.swapRemove_perm hin
  have hnodup := h.bucket_nodup _ bucket hbucket
  have hinUse := h.cached_inUse _ e he
  have hfree : e.blockId ∉ kv.pool.freeList := by
    rw [h.free_iff, hinUse]
    rintro ⟨-, hc⟩
    cases hc
  unfold evictOne
  rw [hidle]
  refine ⟨_, rfl, ?_, ⟨by simp, by simp⟩, ?_, by simp, by simp, by simp, by simp [hblock]⟩
  · constructor <;> simp only [hentries, hidle', hblock, hhash, recycle_frame,
      recycle_status]
    · have := h.free_nodup; grind
    · have := h.free_iff; have := h.lt_of_inUse hinUse; grind
    · have := h.free_of_ge; grind
    · have := h.free_ref; grind
    · have := h.cached_inUse; grind
    · have := h.cached_id; grind
    · intro b hb; cases hb
    · exact h.idle_nodup.erase e
    · have := h.idle_iff; have := h.idle_nodup; grind
    · have := h.unref_cached; grind
    · have := h.uncached_ref; grind
    · exact h.entries_nodup.erase e
    · have := h.entries_iff; have := h.entries_nodup; grind
    · have := h.bucket_ne_nil; grind
    · have := h.bucket_nodup; grind
    · have := h.bucket_mem; grind
    · intro b x hx
      rw [Function.update_apply] at hx
      split at hx
      · cases hx
      · obtain ⟨xs, hxs, hmemx⟩ := h.hashed b x hx
        rw [Function.update_apply]
        split
        · -- Another entry of the same bucket survives the swap-remove.
          rename_i hb heq
          obtain rfl : xs = bucket := Option.some.inj (by rw [← hxs, heq, hbucket])
          have hne : x ≠ e := by
            rintro rfl
            exact hb (h.cached_id b x hx).symm
          have hleft : x ∈ BlockCache.swapRemove xs e :=
            hperm.mem_iff.mpr ((List.mem_erase_of_ne hne).mpr hmemx)
          rw [if_neg (by simpa using List.ne_nil_of_mem hleft)]
          exact ⟨_, rfl, hleft⟩
        · exact ⟨xs, hxs, hmemx⟩
  · simp [hidle', hidle]

/-- The eviction loop of `allocate_kv_blocks`: with fuel for every block that is missing it
frees `n` blocks or empties the LRU, and every evicted block is free afterwards. -/
theorem evictUntil_spec (n fuel : Nat) :
    ∀ kv : KvBlocks, kv.Inv → n ≤ kv.pool.numFreeBlocks + fuel →
      Moves kv (kv.evictUntil n fuel) [] [] [] ∧
      (kv.evictUntil n fuel).pool.numFreeBlocks + (kv.evictUntil n fuel).cache.idleLru.length =
        kv.pool.numFreeBlocks + kv.cache.idleLru.length ∧
      (n ≤ (kv.evictUntil n fuel).pool.numFreeBlocks ∨
        (kv.evictUntil n fuel).cache.idleLru = []) := by
  induction fuel with
  | zero =>
    intro kv h hfuel
    exact ⟨.refl h, rfl, .inl hfuel⟩
  | succ fuel ih =>
    intro kv h hfuel
    unfold evictUntil
    split
    · rcases hidle : kv.cache.idleLru with _ | ⟨e, rest⟩
      · have hevict : kv.evictOne = (false, kv) := by unfold evictOne; rw [hidle]
        rw [hevict]
        exact ⟨.refl h, by rw [hidle], .inr hidle⟩
      · obtain ⟨kv', hevict, hinv, hsize, hrest, hfree, hleaked, href, hblock⟩ :=
          evictOne_spec h hidle
        have hfreed : kv'.pool.numFreeBlocks = kv.pool.numFreeBlocks + 1 := by
          simp [numFreeBlocks, hfree]
        rw [hevict]
        obtain ⟨hmoves, hcount, hend⟩ := ih kv' hinv (by omega)
        have hstep : Moves kv kv' [] [] [] := by
          have hzero : kv.pool.refCount e.blockId = 0 :=
            ((h.idle_iff e).mp (by rw [hidle]; exact List.mem_cons_self)).2.1
          refine ⟨hinv, hsize, by simp [hleaked], by simp [href], fun b x hx => ?_,
            fun b x hx hb => ?_⟩
          · rw [hblock, Function.update_apply] at hx
            split at hx
            · cases hx
            · exact hx
          · rw [hblock, Function.update_of_ne]
            · exact hx
            · rintro rfl
              omega
        refine ⟨hstep.trans hmoves, ?_, hend⟩
        rw [hcount, hfreed, hrest, List.length_cons]
        omega
    · exact ⟨.refl h, rfl, .inl (not_lt.mp ‹_›)⟩

/-! ### Allocation -/

/-- Taking the front of the free list keeps the invariant; the block is not cached. -/
theorem allocate_spec (h : kv.Inv) {rest : List BlockId} (hfree : kv.pool.freeList = id :: rest) :
    ∃ pool', kv.pool.allocate = (.ok id, pool') ∧ Moves kv { kv with pool := pool' } [id] [] [] ∧
      pool'.freeList = rest ∧ kv.cache.byBlock id = none := by
  obtain ⟨pool', halloc, hmax, hsize, hrest, hleaked, hstatus, href⟩ :=
    allocate_cons _ id rest hfree
  have hid : id < kv.pool.maxBlocks ∧ kv.pool.status id = .free :=
    (h.free_iff id).mp (by rw [hfree]; exact List.mem_cons_self)
  have hzero : kv.pool.refCount id = 0 := h.free_ref id hid.2
  have huncached : kv.cache.byBlock id = none := by
    rcases hb : kv.cache.byBlock id with _ | e
    · rfl
    · have := h.cached_inUse id e hb
      rw [hid.2] at this
      cases this
  have hnodup : (id :: rest).Nodup := by rw [← hfree]; exact h.free_nodup
  refine ⟨pool', halloc, ⟨?_, ⟨hmax, hsize⟩, by simp [hleaked], fun b => ?_, fun _ _ he => he,
    fun _ _ he _ => he⟩, hrest, huncached⟩
  · constructor <;> simp only [hmax, hrest, hstatus, href]
    · exact (List.nodup_cons.mp hnodup).2
    · have := h.free_iff; grind
    · have := h.free_of_ge; grind
    · have := h.free_ref; grind
    · have := h.cached_inUse; grind
    · exact h.cached_id
    · exact nofun
    · exact h.idle_nodup
    · have := h.idle_iff; grind
    · have := h.unref_cached; grind
    · have := h.uncached_ref; grind
    · exact h.entries_nodup
    · exact h.entries_iff
    · exact h.bucket_ne_nil
    · exact h.bucket_nodup
    · exact h.bucket_mem
    · exact h.hashed
  · rw [href, List.count_singleton]
    by_cases hb : b = id
    · subst hb; simp [hzero]
    · simp [hb, Ne.symm hb]

/-- The loop of `allocate_blocks` from the ids `table` on: with enough free blocks it takes
the next ones, otherwise it takes all of them and forgets these and `table`. -/
theorem allocateLoop_spec (n : Nat) : ∀ (kv : KvBlocks) (table : BlockTable), kv.Inv →
      (n ≤ kv.pool.numFreeBlocks ∧ ∃ blocks pool',
        kv.pool.allocateLoop table n = (.ok (table ++ blocks), pool') ∧ blocks.length = n ∧
        Moves kv { kv with pool := pool' } blocks [] [] ∧
        ∀ b ∈ blocks, kv.cache.byBlock b = none) ∨
      (kv.pool.numFreeBlocks < n ∧ ∃ blocks pool' pool'',
        kv.pool.allocateLoop table n = (.error .kvBlockExhausted, pool'') ∧
        blocks.length = kv.pool.numFreeBlocks ∧
        Moves kv { kv with pool := pool' } blocks [] [] ∧
        pool'' = { pool' with leaked := pool'.leaked ++ (table ++ blocks) }) := by
  induction n with
  | zero =>
    intro kv table h
    exact .inl ⟨Nat.zero_le _, [], kv.pool, by simp [allocateLoop], rfl, .refl h,
      by simp⟩
  | succ n ih =>
    intro kv table h
    unfold allocateLoop
    rcases hfree : kv.pool.freeList with _ | ⟨id, rest⟩
    · rw [allocate_nil _ hfree]
      refine .inr ⟨by simp [numFreeBlocks, hfree], [], kv.pool, _, rfl,
        by simp [numFreeBlocks, hfree], .refl h, by simp⟩
    · obtain ⟨pool₁, halloc, hmoves, hrest, huncached⟩ := allocate_spec h hfree
      rw [halloc]
      have hnum : kv.pool.numFreeBlocks = pool₁.numFreeBlocks + 1 := by
        simp [numFreeBlocks, hfree, hrest]
      rcases ih { kv with pool := pool₁ } (table ++ [id]) hmoves.inv with
        ⟨hle, blocks, pool', hloop, hlen, hmoves', hnone⟩ |
        ⟨hlt, blocks, pool', pool'', hloop, hlen, hmoves', hpool⟩
      · refine .inl ⟨by simp only at hle; omega, id :: blocks, pool', by simpa using hloop,
          by simp [hlen], hmoves.trans hmoves', ?_⟩
        intro b hb
        rcases List.mem_cons.mp hb with rfl | hb
        · exact huncached
        · exact hnone b hb
      · refine .inr ⟨by simp only at hlt; omega, id :: blocks, pool', pool'', hloop,
          by simp only at hlen; simp [hlen, hnum], hmoves.trans hmoves', by simpa using hpool⟩

/-- `allocate_kv_blocks`. It succeeds exactly when the free and the idle blocks together
suffice. When they do not, it has taken all of them for nobody. -/
theorem allocateKvBlocks_spec (h : kv.Inv) (n : Nat) :
    (n ≤ kv.pool.numFreeBlocks + kv.cache.idleLru.length ∧ ∃ blocks kv',
      kv.allocateKvBlocks n = (.ok blocks, kv') ∧ blocks.length = n ∧
      Moves kv kv' blocks [] [] ∧ ∀ b ∈ blocks, kv'.cache.byBlock b = none) ∨
    (kv.pool.numFreeBlocks + kv.cache.idleLru.length < n ∧ ∃ leak kv',
      kv.allocateKvBlocks n = (.error .kvBlockExhausted, kv') ∧
      leak.length = kv.pool.numFreeBlocks + kv.cache.idleLru.length ∧ Moves kv kv' [] [] leak) := by
  unfold allocateKvBlocks
  split
  · rename_i hn
    subst hn
    exact .inl ⟨Nat.zero_le _, [], kv, rfl, rfl, .refl h, by simp⟩
  · rename_i hn
    obtain ⟨hmoves, hcount, hend⟩ := evictUntil_spec n n kv h (Nat.le_add_left _ _)
    generalize kv.evictUntil n n = kv₁ at hmoves hcount hend
    rcases allocateLoop_spec n kv₁ [] hmoves.inv with
      ⟨hle, blocks, pool', hloop, hlen, hmoves', hnone⟩ |
      ⟨hlt, blocks, pool', pool'', hloop, hlen, hmoves', hpool⟩
    · refine .inl ⟨by omega, blocks, { kv₁ with pool := pool' }, ?_, hlen,
        by simpa using hmoves.trans hmoves', hnone⟩
      simp only [allocateBlocks_of_pos _ hn, hloop, List.nil_append]
    · have hnil : kv₁.cache.idleLru.length = 0 := by
        rcases hend with hend | hend
        · omega
        · rw [hend]; rfl
      refine .inr ⟨by omega, blocks, { kv₁ with pool := pool'' }, ?_, by omega, ?_⟩
      · simp only [allocateBlocks_of_pos _ hn, hloop]
      · subst hpool
        have hall := hmoves.trans hmoves'
        refine ⟨?_, ⟨hall.size.maxBlocks, hall.size.blockSize⟩, ?_, ?_, hall.cached, hall.kept⟩
        · exact hall.inv.of_same rfl rfl rfl rfl rfl rfl rfl
        · have := hall.leaked
          simp only [List.append_nil] at this
          simp [this]
        · intro b
          have := hall.ref b
          simpa [refCount] using this

/-! ### Release -/

theorem InvUpTo.congr {u' : BlockId → Prop} (h : kv.InvUpTo u) (hu : ∀ b, u b ↔ u' b) :
    kv.InvUpTo u' := by
  obtain rfl : u = u' := funext fun b => propext (hu b)
  exact h

/-- After the reference counts of a table went down, the blocks that lost their last
reference are unsettled. -/
theorem releaseBlocks_invUpTo (h : kv.Inv) (hcount : ∀ b, table.count b ≤ kv.pool.refCount b) :
    ({ kv with pool := kv.pool.releaseBlocks table } : KvBlocks).InvUpTo
      (fun b => b ∈ table ∧ (kv.pool.releaseBlocks table).refCount b = 0) := by
  obtain ⟨hmax, -, hfree, -, hstatus, href⟩ := releaseBlocks_spec kv.pool table
  have hmem : ∀ b, b ∈ table ↔ 0 < table.count b := fun b => List.count_pos_iff.symm
  constructor <;> simp only [hmax, hfree, hstatus, href]
  · exact h.free_nodup
  · exact h.free_iff
  · exact h.free_of_ge
  · intro b hb
    have := h.free_ref b hb
    omega
  · exact h.cached_inUse
  · exact h.cached_id
  · rintro b ⟨hb, -⟩
    have := hcount b
    exact h.inUse_of_ref (by rw [hmem] at hb; omega)
  · exact h.idle_nodup
  · intro e
    have := hcount e.blockId
    rw [h.idle_iff e, hmem]
    constructor
    · rintro ⟨he, hzero, -⟩
      exact ⟨he, by omega, by omega⟩
    · rintro ⟨he, hzero, hnot⟩
      exact ⟨he, by omega, not_false⟩
  · intro b hb hzero hnot
    have := hcount b
    rw [hmem] at hnot
    exact h.unref_cached b hb (by omega) not_false
  · intro b hb
    have := h.uncached_ref b hb
    omega
  · exact h.entries_nodup
  · exact h.entries_iff
  · exact h.bucket_ne_nil
  · exact h.bucket_nodup
  · exact h.bucket_mem
  · exact h.hashed

/-- Settling an unsettled block puts it into the LRU when it is cached and into the free
list otherwise. -/
theorem settle_spec (h : kv.InvUpTo u) (hid : u id) (hzero : kv.pool.refCount id = 0) :
    (kv.settle id).InvUpTo (fun b => u b ∧ b ≠ id) ∧ SameSize kv (kv.settle id) ∧
    (kv.settle id).pool.leaked = kv.pool.leaked ∧
    (∀ b, (kv.settle id).pool.refCount b = kv.pool.refCount b) ∧
    (kv.settle id).cache.byBlock = kv.cache.byBlock := by
  unfold settle
  rw [if_neg (by simp [hzero])]
  have hinUse := h.unsettled_inUse id hid
  rcases hb : kv.cache.byBlock id with _ | e
  · have hfree : id ∉ kv.pool.freeList := by
      rw [h.free_iff, hinUse]
      exact fun hc => nomatch hc.2
    rw [if_neg (by simp [BlockCache.contains, hb])]
    refine ⟨?_, ⟨by simp, by simp⟩, by simp, by simp, rfl⟩
    constructor <;> simp only [recycle_frame, recycle_status]
    · have := h.free_nodup; grind
    · have := h.free_iff; have := h.lt_of_inUse hinUse; grind
    · have := h.free_of_ge; grind
    · have := h.free_ref; grind
    · have := h.cached_inUse; grind
    · exact h.cached_id
    · have := h.unsettled_inUse; grind
    · exact h.idle_nodup
    · have := h.idle_iff; grind
    · have := h.unref_cached; grind
    · exact h.uncached_ref
    · exact h.entries_nodup
    · exact h.entries_iff
    · exact h.bucket_ne_nil
    · exact h.bucket_nodup
    · exact h.bucket_mem
    · exact h.hashed
  · have heid := h.cached_id id e hb
    have hidle : e ∉ kv.cache.idleLru := by
      rw [h.idle_iff, heid]
      exact fun hc => hc.2.2 hid
    rw [if_pos (by simp [BlockCache.contains, hb])]
    simp only [markIdle, hb]
    refine ⟨?_, ⟨rfl, rfl⟩, by simp, by simp, by simp⟩
    constructor <;> simp only [BlockCache.assert_frame]
    · exact h.free_nodup
    · exact h.free_iff
    · exact h.free_of_ge
    · exact h.free_ref
    · exact h.cached_inUse
    · exact h.cached_id
    · have := h.unsettled_inUse; grind
    · have := h.idle_nodup; grind
    · have := h.idle_iff; grind
    · have := h.unref_cached; grind
    · exact h.uncached_ref
    · exact h.entries_nodup
    · exact h.entries_iff
    · exact h.bucket_ne_nil
    · exact h.bucket_nodup
    · exact h.bucket_mem
    · exact h.hashed

/-- The second loop of `release_request_blocks` settles every block of the table that it
has not seen. -/
theorem settleLoop_spec (table : BlockTable) : ∀ (kv : KvBlocks) (seen : List BlockId),
      kv.InvUpTo (fun b => b ∈ table ∧ b ∉ seen ∧ kv.pool.refCount b = 0) →
      (kv.settleLoop seen table).Inv ∧ SameSize kv (kv.settleLoop seen table) ∧
      (kv.settleLoop seen table).pool.leaked = kv.pool.leaked ∧
      (∀ b, (kv.settleLoop seen table).pool.refCount b = kv.pool.refCount b) ∧
      (kv.settleLoop seen table).cache.byBlock = kv.cache.byBlock := by
  induction table with
  | nil =>
    intro kv seen h
    exact ⟨h.congr (by simp), .refl kv, rfl, fun _ => rfl, rfl⟩
  | cons id rest ih =>
    intro kv seen h
    unfold settleLoop
    split
    · rename_i hseen
      refine ih kv seen (h.congr fun b => ?_)
      grind
    · rename_i hseen
      by_cases hzero : kv.pool.refCount id = 0
      · obtain ⟨hinv, hsize, hleaked, href, hblock⟩ :=
          settle_spec h ⟨List.mem_cons_self, hseen, hzero⟩ hzero
        obtain ⟨hinv', hsize', hleaked', href', hblock'⟩ :=
          ih (kv.settle id) (id :: seen) (hinv.congr fun b => by rw [href]; grind)
        exact ⟨hinv', hsize.trans hsize', hleaked'.trans hleaked,
          fun b => (href' b).trans (href b), hblock'.trans hblock⟩
      · have hsame : kv.settle id = kv := by unfold settle; rw [if_pos hzero]
        rw [hsame]
        refine ih kv (id :: seen) (h.congr fun b => ?_)
        grind

/-- `release_request_blocks` gives back the references of the table and publishes and
evicts nothing. -/
theorem releaseRequestBlocks_spec (h : kv.Inv) (table : BlockTable)
    (hcount : ∀ b, table.count b ≤ kv.pool.refCount b) :
    Moves kv (kv.releaseRequestBlocks table) [] table [] ∧
    (kv.releaseRequestBlocks table).cache.byBlock = kv.cache.byBlock := by
  obtain ⟨hmax, hbs, -, hleaked, -, href⟩ := releaseBlocks_spec kv.pool table
  obtain ⟨hinv, hsize, hleaked', href', hblock⟩ := settleLoop_spec table
    { kv with pool := kv.pool.releaseBlocks table } []
    ((releaseBlocks_invUpTo h hcount).congr (by simp))
  refine ⟨⟨hinv, .trans ⟨hmax, hbs⟩ hsize, ?_, fun b => ?_, ?_, fun b e he _ => ?_⟩, hblock⟩
  · rw [List.append_nil]
    exact hleaked'.trans hleaked
  · have := hcount b
    have hb : (kv.releaseRequestBlocks table).pool.refCount b =
        kv.pool.refCount b - table.count b := (href' b).trans (href b)
    rw [hb]
    simp only [List.count_nil]
    omega
  · intro b e he
    rw [← hblock]
    exact he
  · rw [← hblock] at he
    exact he

/-- What was gained can be given back. -/
theorem Moves.undo (h : Moves kv kv' table [] leak) :
    Moves kv (kv'.releaseRequestBlocks table) [] [] leak := by
  obtain ⟨hrelease, hblock⟩ := releaseRequestBlocks_spec h.inv table fun b => by
    have := h.ref b
    simp only [List.count_nil] at this
    omega
  have hboth := h.trans hrelease
  refine ⟨hrelease.inv, hboth.size, by simpa using hboth.leaked, fun b => ?_, hboth.cached,
    fun b e he hb => ?_⟩
  · have := hboth.ref b
    simp only [List.count_append, List.count_nil] at this ⊢
    omega
  · rw [hblock]
    exact h.kept b e he hb

/-- The lookup loop passes every hash that some block is cached under. -/
theorem le_lookupLoop_hits (hashes : List Hash) :
    ∀ (kv : KvBlocks) (result : PrefixLookup) (n : Nat), kv.Inv →
      (∀ i < n, ∃ b e, kv.cache.byBlock b = some e ∧ hashes[i]? = some e.prefixHash) →
      result.prefixHitBlocks + n ≤ (kv.lookupLoop result hashes).1.prefixHitBlocks := by
  induction hashes with
  | nil =>
    intro kv result n h cached
    cases n with
    | zero => exact le_rfl
    | succ n =>
      obtain ⟨b, e, -, hnone⟩ := cached 0 n.succ_pos
      cases hnone
  | cons hash rest ih =>
    intro kv result n h cached
    cases n with
    | zero =>
      obtain ⟨hits, -, hnum, -⟩ := lookupLoop_spec (hash :: rest) kv result h
      rw [hnum]
      exact Nat.add_le_add_left (Nat.zero_le _) _
    | succ n =>
      obtain ⟨b, e, hentry, hhash⟩ := cached 0 n.succ_pos
      obtain ⟨bucket, hbucket, hmem⟩ := h.hashed b e hentry
      obtain rfl : hash = e.prefixHash := Option.some.inj hhash
      obtain ⟨first, others, rfl⟩ := List.exists_cons_of_ne_nil (List.ne_nil_of_mem hmem)
      have hfirst := (h.bucket_mem _ _ hbucket first List.mem_cons_self).2
      obtain ⟨-, -, -, hblock, -⟩ := lookupHit_fields kv first
      simp only [lookupLoop, hbucket]
      have hrest := ih (kv.lookupHit first)
        ⟨result.blockTable ++ [first.blockId], result.prefixHitBlocks + 1, e.prefixHash⟩ n
        (lookupHit_inv h hfirst)
        (fun i hi => by
          rw [hblock]
          exact cached (i + 1) (Nat.succ_lt_succ hi))
      dsimp only at hrest
      omega

/-- `lookup_prefix_cache` as a move: the looked up blocks gain a reference each. -/
theorem lookupPrefixCache_spec (h : kv.Inv) (tokens : List Token) (salt : Hash := 0) :
    ∃ (hits : List BlockCacheEntry) (kv' : KvBlocks) (parent : Hash),
      kv.lookupPrefixCache tokens salt = (⟨hits.map (·.blockId), hits.length, parent⟩, kv') ∧
      hits.map (·.prefixHash) <+: PrefixCache.chainHashes tokens kv.pool.blockSize salt ∧
      (∀ e ∈ hits, kv.cache.byBlock e.blockId = some e) ∧
      Moves kv kv' (hits.map (·.blockId)) [] [] ∧ kv'.cache.byBlock = kv.cache.byBlock ∧
      parent = (hits.map (·.prefixHash)).getLast?.getD 0 := by
  simp only [lookupPrefixCache]
  -- The assertion on the arguments touches nothing that the loop or the invariant reads.
  generalize hkv : KvBlocks.mk kv.pool (kv.cache.assert (!tokens.isEmpty &&
    decide (0 < kv.pool.blockSize)) .lookupTokens) = kv₁
  have hpool : kv₁.pool = kv.pool := by rw [← hkv]
  have hsame : kv₁.cache.byBlock = kv.cache.byBlock := by rw [← hkv]; simp
  have hinv₁ : kv₁.Inv := by
    rw [← hkv]
    exact h.of_same rfl rfl rfl (by simp) (by simp) (by simp) (by simp)
  obtain ⟨hits, htable, hnum, hparent, hprefix, hcached, hinv, hsize, -, hleaked, hblock,
    -, href⟩ :=
    lookupLoop_spec (PrefixCache.chainHashes tokens kv.pool.blockSize salt) kv₁ ⟨[], 0, 0⟩ hinv₁
  rcases hloop : kv₁.lookupLoop ⟨[], 0, 0⟩ (PrefixCache.chainHashes tokens kv.pool.blockSize salt)
    with ⟨⟨table, num, parent⟩, kv'⟩
  rw [hloop] at htable hnum hparent hinv hsize hleaked hblock href
  rw [hsame] at hcached hblock
  rw [hpool] at hleaked
  obtain rfl : table = hits.map (·.blockId) := by simpa using htable
  obtain rfl : num = hits.length := by simpa using hnum
  refine ⟨hits, kv', parent, rfl, hprefix, hcached, ⟨hinv, ?_, by simpa using hleaked,
    fun b => by simpa [hpool] using href b, ?_, ?_⟩, hblock, hparent⟩
  · exact ⟨hpool ▸ hsize.maxBlocks, hpool ▸ hsize.blockSize⟩
  · intro b e he
    rw [← hblock]
    exact he
  · intro b e he _
    rw [hblock]
    exact he

/-- A lookup hits at least the blocks whose chain hashes are cached. -/
theorem le_lookupPrefixCache_hits (h : kv.Inv) (tokens : List Token) (n : Nat)
    (cached : ∀ i < n, ∃ b e, kv.cache.byBlock b = some e ∧
      (PrefixCache.chainHashes tokens kv.pool.blockSize 0)[i]? = some e.prefixHash) :
    n ≤ (kv.lookupPrefixCache tokens).1.prefixHitBlocks := by
  have hinv : KvBlocks.Inv ⟨kv.pool, kv.cache.assert (!tokens.isEmpty &&
      decide (0 < kv.pool.blockSize)) .lookupTokens⟩ :=
    h.of_same rfl rfl rfl (by simp) (by simp) (by simp) (by simp)
  have hle := le_lookupLoop_hits _ _ ⟨[], 0, 0⟩ n hinv (by simpa using cached)
  rwa [Nat.zero_add] at hle

/-- A text all of whose chain hashes are cached is hit by every lookup of a longer one. -/
theorem le_lookupPrefixCache_hits_of_isPrefix (h : kv.Inv) {tokens longer : List Token}
    (begins : tokens <+: longer) (cached : ∀ i < tokens.length / kv.pool.blockSize, ∃ id hash,
      (PrefixCache.chainHashes tokens kv.pool.blockSize 0)[i]? = some hash ∧
      kv.cache.byBlock id = some ⟨hash, id⟩) :
    tokens.length / kv.pool.blockSize ≤ (kv.lookupPrefixCache longer).1.prefixHitBlocks := by
  refine le_lookupPrefixCache_hits h longer _ fun i hi => ?_
  obtain ⟨id, hash, hhash, hheld⟩ := cached i hi
  obtain ⟨hlt, heq⟩ := List.getElem?_eq_some_iff.mp hhash
  have hlonger := List.prefix_iff_getElem?.mp
    (PrefixCache.chainHashes_isPrefix begins kv.pool.blockSize) i hlt
  exact ⟨id, _, hheld, by rw [hlonger, heq]⟩

end KvBlocks

end CcInfer
