import CcInfer.Proofs.Kv.Invariant

/-!
# `CcInfer.Proofs.Kv.Assertions`: which assertions of pool and cache can fail

`Proofs.Kv.Invariant` says what the operations do to the data. This module says what they
do to the two logs of failed assertions, from any state that satisfies the invariant.
Allocation, publication of an owned block, release of held references and eviction log
nothing (`Quiet`).
-/

set_option autoImplicit false

namespace CcInfer

theorem BlockCache.assert_of (c : BlockCache) {b : Bool} (site : AssertSite) (h : b = true) :
    c.assert b site = c :=
  if_pos h

namespace KvBlocks

variable {kv : KvBlocks}
variable {kv' : KvBlocks} {e : BlockCacheEntry} {u : BlockId → Prop} {id : BlockId}

/-- Neither log has grown. -/
structure Quiet (kv kv' : KvBlocks) : Prop where
  pool : kv'.pool.failedAsserts = kv.pool.failedAsserts
  cache : kv'.cache.failedAsserts = kv.cache.failedAsserts

theorem Quiet.refl (kv : KvBlocks) : Quiet kv kv := ⟨rfl, rfl⟩

theorem Quiet.trans {kv'' : KvBlocks} (h : Quiet kv kv') (h' : Quiet kv' kv'') : Quiet kv kv'' :=
  ⟨h'.pool.trans h.pool, h'.cache.trans h.cache⟩

/-! ### Eviction and allocation -/

/-- A cached entry passes the three assertions of `erase_entry`. -/
theorem eraseEntry_failedAsserts (h : kv.Inv) (he : kv.cache.byBlock e.blockId = some e) :
    (kv.cache.eraseEntry e.blockId).failedAsserts = kv.cache.failedAsserts := by
  obtain ⟨_, hbucket, hmem⟩ := h.hashed _ e he
  simp [BlockCache.eraseEntry, he, hbucket, BlockCache.assert, hmem]

theorem recycle_failedAsserts (h : kv.InvUpTo u)
    (hinUse : kv.pool.status id = .inUse) (hzero : kv.pool.refCount id = 0) :
    (kv.pool.recycle id).failedAsserts = kv.pool.failedAsserts := by
  have hlt := h.lt_of_inUse hinUse
  simp [BlockPool.recycle, BlockPool.assert, BlockPool.setBlock, hlt, hinUse, hzero]

theorem evictOne_quiet (h : kv.Inv) : Quiet kv kv.evictOne.2 := by
  unfold evictOne
  rcases hidle : kv.cache.idleLru with _ | ⟨e, _⟩
  · exact .refl kv
  · obtain ⟨he, hzero, -⟩ := (h.idle_iff e).mp (by rw [hidle]; exact List.mem_cons_self)
    refine ⟨recycle_failedAsserts h (h.cached_inUse _ e he) hzero, ?_⟩
    simp only [kv.cache.assert_of .evictUnreferenced (decide_eq_true hzero)]
    exact eraseEntry_failedAsserts h he

/-- The eviction loop: each victim comes off the front of the LRU, and nothing is logged. -/
theorem evictUntil_quiet (n fuel : Nat) : ∀ kv : KvBlocks, kv.Inv →
      Quiet kv (kv.evictUntil n fuel) ∧
      (kv.evictUntil n fuel).cache.idleLru <:+ kv.cache.idleLru := by
  induction fuel with
  | zero => exact fun kv _ => ⟨.refl kv, List.suffix_refl _⟩
  | succ _ ih =>
    intro kv h
    unfold evictUntil
    split
    · rcases hidle : kv.cache.idleLru with _ | ⟨e, rest⟩
      · have hevict : kv.evictOne = (false, kv) := by unfold evictOne; rw [hidle]
        rw [hevict]
        exact ⟨.refl kv, by simp only [hidle, List.suffix_refl]⟩
      · obtain ⟨kv', hevict, hinv, -, hrest, -⟩ := evictOne_spec h hidle
        have hquiet := evictOne_quiet h
        rw [hevict] at hquiet ⊢
        obtain ⟨hquiet', hsuffix⟩ := ih kv' hinv
        exact ⟨hquiet.trans hquiet', (hrest ▸ hsuffix).trans (List.suffix_cons e rest)⟩
    · exact ⟨.refl kv, List.suffix_refl _⟩

theorem allocate_failedAsserts (h : kv.Inv) :
    kv.pool.allocate.2.failedAsserts = kv.pool.failedAsserts := by
  unfold BlockPool.allocate
  rcases hfree : kv.pool.freeList with _ | ⟨id, _⟩
  · rfl
  · have hid : kv.pool.status id = .free :=
      ((h.free_iff id).mp (by rw [hfree]; exact List.mem_cons_self)).2
    simp [BlockPool.assert, BlockPool.setBlock, hid, h.free_ref id hid]

/-- Allocation passes its assertions. -/
theorem allocateLoop_failedAsserts (n : Nat) : ∀ (kv : KvBlocks) (table : BlockTable), kv.Inv →
      (kv.pool.allocateLoop table n).2.failedAsserts = kv.pool.failedAsserts := by
  induction n with
  | zero => exact fun _ _ _ => rfl
  | succ n ih =>
    intro kv table h
    unfold BlockPool.allocateLoop
    have hlog := allocate_failedAsserts h
    rcases hfree : kv.pool.freeList with _ | ⟨id, _⟩
    · rw [BlockPool.allocate_nil _ hfree]
    · obtain ⟨pool', halloc, hmoves, -⟩ := allocate_spec h hfree
      rw [halloc] at hlog ⊢
      exact (ih { kv with pool := pool' } (table ++ [id]) hmoves.inv).trans hlog

/-- `allocate_kv_blocks` logs nothing, whether it succeeds or not, and takes entries off the
front of the LRU only. -/
theorem allocateKvBlocks_quiet (h : kv.Inv) (n : Nat) : Quiet kv (kv.allocateKvBlocks n).2 ∧
    (kv.allocateKvBlocks n).2.cache.idleLru <:+ kv.cache.idleLru := by
  unfold allocateKvBlocks
  split
  · exact ⟨.refl kv, List.suffix_refl _⟩
  · rename_i hn
    obtain ⟨hquiet, hsuffix⟩ := evictUntil_quiet n n kv h
    have hinv := (evictUntil_spec n n kv h (Nat.le_add_left _ _)).1.inv
    refine ⟨⟨?_, hquiet.cache⟩, hsuffix⟩
    simp only [BlockPool.allocateBlocks_of_pos _ hn]
    exact (allocateLoop_failedAsserts n _ [] hinv).trans hquiet.pool

/-! ### Publication -/

/-- Publishing a full block that has an owner and no entry logs nothing. -/
theorem publishFullBlock_quiet (h : kv.Inv) (hbs : 0 < kv.pool.blockSize) (parent seed : Hash)
    {tokens : List Token} (hfull : kv.pool.blockSize ≤ tokens.length)
    (huncached : kv.cache.byBlock id = none) (href : 0 < kv.pool.refCount id) :
    Quiet kv (kv.publishFullBlock parent tokens id seed).2 := by
  have hlt := h.lt_of_inUse (h.inUse_of_ref href)
  refine ⟨by rw [(publishFullBlock_inv h parent seed tokens huncached href).2.1], ?_⟩
  simp [publishFullBlock, BlockCache.assert, hbs, hfull, huncached, hlt, href]

/-! ### Release -/

/-- So does the release of held references. -/
theorem releaseBlocks_failedAsserts (table : BlockTable) :
    ∀ p : BlockPool, (∀ b ∈ table, b < p.maxBlocks ∧ p.status b = .inUse) →
      (∀ b, table.count b ≤ p.refCount b) →
      (p.releaseBlocks table).failedAsserts = p.failedAsserts := by
  induction table with
  | nil => exact fun _ _ _ => rfl
  | cons id _ ih =>
    intro p hin hcount
    have hid := hin id List.mem_cons_self
    have hpos : 0 < p.refCount id := by
      have := hcount id
      rw [List.count_cons_self] at this
      omega
    have hstep : (p.releaseRequest id).failedAsserts = p.failedAsserts := by
      simp [BlockPool.releaseRequest, BlockPool.assert, BlockPool.setBlock, hid, hpos]
    refine (ih (p.releaseRequest id) (fun b hb => ?_) fun b => ?_).trans hstep
    · simpa using hin b (List.mem_cons_of_mem _ hb)
    · have := hcount b
      rw [BlockPool.releaseRequest_refCount]
      by_cases hb : b = id
      · subst hb
        rw [List.count_cons_self] at this
        rw [if_pos rfl]
        omega
      · rw [List.count_cons_of_ne (Ne.symm hb)] at this
        rw [if_neg hb]
        omega

/-- Settling one block fails nothing. -/
theorem settle_quiet (h : kv.InvUpTo u) (hid : u id)
    (hzero : kv.pool.refCount id = 0) : Quiet kv (kv.settle id) := by
  have hinUse := h.unsettled_inUse id hid
  unfold settle
  rw [if_neg (by simp [hzero])]
  split
  · unfold markIdle
    rcases hb : kv.cache.byBlock id with _ | e
    · simp_all [BlockCache.contains]
    · have hnot : e ∉ kv.cache.idleLru := by
        rw [h.idle_iff, h.cached_id id e hb]
        exact fun hc => hc.2.2 hid
      exact ⟨rfl, by simp [BlockCache.assert, hzero, hnot]⟩
  · exact ⟨recycle_failedAsserts h hinUse hzero, rfl⟩

/-- Nor does settling a table. -/
theorem settleLoop_quiet (table : BlockTable) : ∀ (kv : KvBlocks) (seen : List BlockId),
      kv.InvUpTo (fun b => b ∈ table ∧ b ∉ seen ∧ kv.pool.refCount b = 0) →
      Quiet kv (kv.settleLoop seen table) := by
  induction table with
  | nil => exact fun kv _ _ => .refl kv
  | cons id rest ih =>
    intro kv seen h
    unfold settleLoop
    split
    · exact ih kv seen (h.congr fun b => by grind)
    · rename_i hseen
      by_cases hzero : kv.pool.refCount id = 0
      · have hid : id ∈ id :: rest ∧ id ∉ seen ∧ kv.pool.refCount id = 0 :=
          ⟨List.mem_cons_self, hseen, hzero⟩
        obtain ⟨hinv, -, -, href, -⟩ := settle_spec h hid hzero
        exact (settle_quiet h hid hzero).trans
          (ih (kv.settle id) (id :: seen) (hinv.congr fun b => by rw [href]; grind))
      · have hsame : kv.settle id = kv := by unfold settle; rw [if_pos hzero]
        rw [hsame]
        exact ih kv (id :: seen) (h.congr fun b => by grind)

/-- Releasing references that are there logs nothing. -/
theorem releaseRequestBlocks_quiet (h : kv.Inv) {table : BlockTable}
    (hcount : ∀ b, table.count b ≤ kv.pool.refCount b) :
    Quiet kv (kv.releaseRequestBlocks table) := by
  have hin : ∀ b ∈ table, b < kv.pool.maxBlocks ∧ kv.pool.status b = .inUse := by
    intro b hb
    have hpos := List.count_pos_iff.mpr hb
    have hinUse := h.inUse_of_ref (lt_of_lt_of_le hpos (hcount b))
    exact ⟨h.lt_of_inUse hinUse, hinUse⟩
  have hpool : Quiet kv { kv with pool := kv.pool.releaseBlocks table } :=
    ⟨releaseBlocks_failedAsserts table kv.pool hin hcount, rfl⟩
  exact hpool.trans (settleLoop_quiet table _ [] ((releaseBlocks_invUpTo h hcount).congr (by simp)))

/-! ### Lookup -/

/-- The cached entries that a chain of hashes meets, up to the first hash without one. -/
def matched (kv : KvBlocks) : List Hash → List BlockCacheEntry
  | [] => []
  | hash :: rest =>
    match kv.cache.byHash hash with
    | none | some [] => []
    | some (e :: _) => e :: kv.matched rest

theorem matched_congr (h : kv'.cache.byHash = kv.cache.byHash)
    (hashes : List Hash) : kv'.matched hashes = kv.matched hashes := by
  induction hashes with
  | nil => rfl
  | cons _ _ ih => simp only [matched, h, ih]

/-- A hit logs nothing in the cache, and logs in the pool exactly when nobody holds the
block. -/
theorem lookupHit_asserts (h : kv.Inv) (he : kv.cache.byBlock e.blockId = some e) :
    (kv.lookupHit e).cache.failedAsserts = kv.cache.failedAsserts ∧
    ((kv.lookupHit e).pool.failedAsserts = [] ↔
      kv.pool.failedAsserts = [] ∧ 0 < kv.pool.refCount e.blockId) := by
  have hinUse := h.cached_inUse _ e he
  have hlt := h.lt_of_inUse hinUse
  constructor
  · have hidle : kv.pool.refCount e.blockId = 0 → e ∈ kv.cache.idleLru := fun hzero =>
      (h.idle_iff e).mpr ⟨he, hzero, not_false⟩
    unfold lookupHit
    split
    · rename_i hzero
      simp [BlockCache.assert, he, hidle hzero]
    · simp [BlockCache.assert, he]
  · rw [(lookupHit_fields kv e).1]
    by_cases hpos : 0 < kv.pool.refCount e.blockId
    · simp [BlockPool.retainRequest, BlockPool.assert, BlockPool.setBlock, hlt, hinUse, hpos]
    · simp [BlockPool.retainRequest, BlockPool.assert, BlockPool.setBlock, hpos]

/-- The loop of `lookup_prefix_cache`. A hit raises the count of its own block only, so
whether a later hit finds a holder can be read off the state before the loop. -/
theorem lookupLoop_asserts (hashes : List Hash) :
    ∀ (kv : KvBlocks) (result : PrefixLookup), kv.Inv →
      (kv.lookupLoop result hashes).2.cache.idleLru.Sublist kv.cache.idleLru ∧
      (kv.lookupLoop result hashes).2.cache.failedAsserts = kv.cache.failedAsserts ∧
      ((kv.lookupLoop result hashes).2.pool.failedAsserts = [] ↔ kv.pool.failedAsserts = [] ∧
          ∀ e ∈ kv.matched hashes, 0 < kv.pool.refCount e.blockId) := by
  induction hashes with
  | nil => exact fun kv _ _ => ⟨.refl _, rfl, by simp [lookupLoop, matched]⟩
  | cons hash _ ih =>
    intro kv result h
    rcases hbucket : kv.cache.byHash hash with _ | _ | ⟨e, _⟩
    · simp only [lookupLoop, matched, hbucket]
      exact ⟨.refl _, trivial, by simp⟩
    · simp only [lookupLoop, matched, hbucket]
      exact ⟨.refl _, trivial, by simp⟩
    · simp only [lookupLoop, matched, hbucket]
      obtain ⟨-, he⟩ := h.bucket_mem hash _ hbucket e (by simp)
      obtain ⟨hpool, -, hhash, -, hidle⟩ := lookupHit_fields kv e
      obtain ⟨hcache, hlog⟩ := lookupHit_asserts h he
      obtain ⟨ihidle, ihcache, ihlog⟩ := ih (kv.lookupHit e)
        ⟨result.blockTable ++ [e.blockId], result.prefixHitBlocks + 1, hash⟩ (lookupHit_inv h he)
      refine ⟨ihidle.trans ?_, ihcache.trans hcache, ?_⟩
      · rw [hidle]
        split
        · exact List.erase_sublist
        · exact .refl _
      · rw [ihlog, hlog, matched_congr hhash]
        simp only [List.forall_mem_cons, hpool, BlockPool.retainRequest_refCount, and_assoc]
        refine and_congr_right fun _ => and_congr_right fun hpos =>
          forall₂_congr fun x _ => ?_
        by_cases hx : x.blockId = e.blockId
        · simp [hx, hpos]
        · simp [hx]

/-- `lookup_prefix_cache` logs a failure exactly when it is called without tokens or its
tokens lead to a cached block that nobody holds. -/
theorem lookupPrefixCache_asserts (h : kv.Inv) (hbs : 0 < kv.pool.blockSize)
    (tokens : List Token) (salt : Hash) :
    (kv.lookupPrefixCache tokens salt).2.cache.idleLru.Sublist kv.cache.idleLru ∧
    ((kv.lookupPrefixCache tokens salt).2.cache.failedAsserts = [] ↔
      kv.cache.failedAsserts = [] ∧ tokens ≠ []) ∧
    ((kv.lookupPrefixCache tokens salt).2.pool.failedAsserts = [] ↔ kv.pool.failedAsserts = [] ∧
        ∀ e ∈ kv.matched (PrefixCache.chainHashes tokens kv.pool.blockSize salt),
          0 < kv.pool.refCount e.blockId) := by
  simp only [lookupPrefixCache]
  obtain ⟨hidle, hcache, hpool⟩ := lookupLoop_asserts
    (PrefixCache.chainHashes tokens kv.pool.blockSize salt)
    ⟨kv.pool, kv.cache.assert (!tokens.isEmpty && decide (0 < kv.pool.blockSize)) .lookupTokens⟩
    ⟨[], 0, 0⟩ (h.of_same rfl rfl rfl (by simp) (by simp) (by simp) (by simp))
  have hmatched : KvBlocks.matched ⟨kv.pool, kv.cache.assert (!tokens.isEmpty &&
      decide (0 < kv.pool.blockSize)) .lookupTokens⟩
        (PrefixCache.chainHashes tokens kv.pool.blockSize salt) =
      kv.matched (PrefixCache.chainHashes tokens kv.pool.blockSize salt) :=
    matched_congr (by simp) _
  refine ⟨by simpa using hidle, ?_, ?_⟩
  · rw [hcache]
    cases tokens <;> simp [BlockCache.assert, hbs]
  · rw [hpool, hmatched]

end KvBlocks

end CcInfer
