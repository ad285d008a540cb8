import CcInfer.Proofs.Kv.Hashing
import CcInfer.Proofs.Kv.Publish

/-!
# `CcInfer.Proofs.Kv.Salt`: publication and lookup under a salt

A lookup computes the chain hashes of a prompt in one pass, and mixes the salt in once, before the
first block. A publication names one block at a time, from the hash of the block before it, and
`chain_hashes` mixes the salt in at each of these calls (`chainOneByOne`). The two chains agree for
every token vector if and only if there is no salt or no second block (`chainOneByOne_eq_iff`).
-/

set_option autoImplicit false

namespace CcInfer

open PrefixCache

variable {hashes : List Hash} {ids : List BlockId}

namespace PrefixCache

variable {blockSize : Nat}

/-- The hashes of `n` full blocks from one call of `chain_hashes` for each, the hash of a block
being the parent of the next. -/
def chainOneByOne (blockSize : Nat) (salt : Hash) : Nat → Hash → List Token → List Hash
  | 0, _, _ => []
  | n + 1, parent, tokens =>
    let hash := (chainHashesFrom (tokens.take blockSize) blockSize blockSize parent salt).headD 0
    hash :: chainOneByOne blockSize salt n hash (tokens.drop blockSize)

/-- The word that the hash of a block starts from. -/
def salted (salt parent : Hash) : Hash := if salt ≠ 0 then hashCombine parent salt else parent

@[simp] theorem salted_zero (parent : Hash) : salted 0 parent = parent := if_neg (not_not.mpr rfl)

theorem chainHashesFrom_salted (hbs : 0 < blockSize) (tokens : List Token) (parent salt : Hash) :
    chainHashesFrom tokens blockSize blockSize parent salt =
      [hashBlock (salted salt parent) (tokens.take blockSize)] := by
  simp only [chainHashesFrom, Nat.div_self hbs, chainLoop, salted]

theorem chainOneByOne_succ (hbs : 0 < blockSize) (salt : Hash) (n : Nat)
    (parent : Hash) (tokens : List Token) : chainOneByOne blockSize salt (n + 1) parent tokens =
      hashBlock (salted salt parent) (tokens.take blockSize) ::
        chainOneByOne blockSize salt n (hashBlock (salted salt parent) (tokens.take blockSize))
          (tokens.drop blockSize) := by
  simp only [chainOneByOne, chainHashesFrom_salted hbs, List.headD_cons, List.take_take,
    Nat.min_self]

@[simp] theorem chainOneByOne_length (blockSize : Nat) (salt : Hash) (n : Nat) (parent : Hash)
    (tokens : List Token) : (chainOneByOne blockSize salt n parent tokens).length = n := by
  induction n generalizing parent tokens with
  | zero => rfl
  | succ n ih => rw [chainOneByOne, List.length_cons, ih]

theorem chainHashes_eq (tokens : List Token) (blockSize : Nat) (salt : Hash) :
    chainHashes tokens blockSize salt =
      chainLoop blockSize (tokens.length / blockSize) (salted salt 0) tokens := rfl

/-- Without a salt the calls compose. -/
theorem chainOneByOne_unsalted (hbs : 0 < blockSize) (n : Nat) (parent : Hash)
    (tokens : List Token) :
    chainOneByOne blockSize 0 n parent tokens = chainLoop blockSize n parent tokens := by
  induction n generalizing parent tokens with
  | zero => rfl
  | succ n ih => rw [chainOneByOne_succ hbs, salted_zero, ih, chainLoop]

/-- With a salt they do not, from the second block on. -/
theorem exists_chainOneByOne_ne (hbs : 0 < blockSize) {salt : Hash}
    (hsalt : salt ≠ 0) {n : Nat} (hn : 2 ≤ n) :
    ∃ tokens : List Token, tokens.length / blockSize = n ∧
      chainOneByOne blockSize salt n 0 tokens ≠ chainHashes tokens blockSize salt := by
  -- a first block whose hash the salt changes, and a second one that tells the two words apart
  obtain ⟨first, hfirst, hchanged⟩ :=
    exists_hashBlock_hashCombine_ne (salted salt 0) salt hbs
  obtain ⟨second, hsecond, hne⟩ := exists_hashBlock_ne hchanged blockSize
  obtain ⟨k, rfl⟩ := Nat.exists_eq_add_of_le' hn
  let rest : List Token := List.replicate (k * blockSize) 0
  have hlen : (first ++ (second ++ rest)).length = (k + 2) * blockSize := by
    simp only [List.length_append, hfirst, hsecond, rest, List.length_replicate, Nat.add_mul]
    omega
  refine ⟨first ++ (second ++ rest), ?_, fun heq => hne ?_⟩
  · rw [hlen, Nat.mul_div_cancel _ hbs]
  · have hsalted : salted salt (hashBlock (salted salt 0) first) =
        hashCombine (hashBlock (salted salt 0) first) salt := if_pos hsalt
    rw [chainHashes_eq, hlen, Nat.mul_div_cancel _ hbs, chainOneByOne_succ hbs,
      chainOneByOne_succ hbs, chainLoop, chainLoop, List.take_left' hfirst, List.drop_left' hfirst,
      List.take_left' hsecond, hsalted] at heq
    exact (List.cons.inj (List.cons.inj heq).2).1

/-- The two chains agree on every token vector of `n` full blocks if and only if no salt is mixed in
or there is no second block to mix it into. -/
theorem chainOneByOne_eq_iff (hbs : 0 < blockSize) (salt : Hash) (n : Nat) :
    (∀ tokens : List Token, tokens.length / blockSize = n →
      chainOneByOne blockSize salt n 0 tokens = chainHashes tokens blockSize salt) ↔
      salt = 0 ∨ n ≤ 1 := by
  constructor
  · intro hagree
    by_contra hnot
    obtain ⟨hsalt, _⟩ := not_or.mp hnot
    obtain ⟨tokens, hlen, hne⟩ := exists_chainOneByOne_ne hbs hsalt (n := n) (by omega)
    exact hne (hagree tokens hlen)
  · rintro (rfl | _) _ hlen
    · rw [chainOneByOne_unsalted hbs, chainHashes_eq, salted_zero, hlen]
    · rw [chainHashes_eq, hlen]
      obtain rfl | rfl : n = 0 ∨ n = 1 := by omega
      · rfl
      · rw [chainOneByOne_succ hbs]
        rfl

end PrefixCache

/-! ### The entries behind the hashes -/

/-- The entries that a lookup of the hashes finds: the oldest of each, up to the first hash that has
none. -/
def firstHits (entries : List BlockCacheEntry) : List Hash → List BlockCacheEntry
  | [] => []
  | hash :: hashes =>
    match entries.find? (·.prefixHash == hash) with
    | none => []
    | some e => e :: firstHits entries hashes

/-- The hits are `ids` if every hash finds its block. -/
theorem firstHits_map_eq_iff (entries : List BlockCacheEntry) (hlen : hashes.length = ids.length) :
    (firstHits entries hashes).map (·.blockId) = ids ↔
      hashes.map (fun hash => (entries.find? (·.prefixHash == hash)).map (·.blockId)) =
        ids.map some := by
  induction hashes generalizing ids with
  | nil =>
    obtain rfl := List.eq_nil_of_length_eq_zero hlen.symm
    exact ⟨fun _ => rfl, fun _ => rfl⟩
  | cons hash _ ih =>
    obtain ⟨_, _, rfl⟩ := List.exists_cons_of_length_eq_add_one hlen.symm
    rw [firstHits]
    cases hfound : entries.find? (·.prefixHash == hash) with
    | none => simp [hfound]
    | some => simp [hfound, ih (Nat.succ.inj hlen)]

/-- An entry of a list of hashes and distinct blocks is known by its block. -/
theorem eq_of_mem_zipWith (hnodup : ids.Nodup)
    {e : BlockCacheEntry} (he : e ∈ List.zipWith BlockCacheEntry.mk hashes ids) {i : Nat}
    (hid : ids[i]? = some e.blockId) : hashes[i]? = some e.prefixHash := by
  obtain ⟨j, hj⟩ := List.mem_iff_getElem?.mp he
  obtain ⟨_, _, hhash, hid', rfl⟩ := List.getElem?_zipWith_eq_some.mp hj
  have hi : i < ids.length := (List.getElem?_eq_some_iff.mp hid).1
  obtain rfl : i = j := (List.getElem?_inj hi hnodup).mp (hid.trans hid'.symm)
  exact hhash

/-- A lookup finds the blocks, each at its place, if and only if they were published under the
hashes it looks for, and these are different. -/
theorem firstHits_zipWith_iff {published chain : List Hash}
    (hpublished : published.length = ids.length) (hchain : chain.length = ids.length)
    (hnodup : ids.Nodup) :
    (firstHits (List.zipWith BlockCacheEntry.mk published ids) chain).map (·.blockId) = ids ↔
      published = chain ∧ chain.Nodup := by
  rw [firstHits_map_eq_iff _ hchain]
  constructor
  · intro hfound
    -- what stands at place `i` of the lookup
    have hat : ∀ {i : Nat} {hash : Hash}, chain[i]? = some hash → ∃ e,
        (List.zipWith BlockCacheEntry.mk published ids).find? (·.prefixHash == hash) = some e ∧
          ids[i]? = some e.blockId := by
      intro i hash hhash
      have hplace := congrArg (·[i]?) hfound
      simp only [List.getElem?_map, hhash, Option.map_some] at hplace
      cases hid : ids[i]? with
      | none => simp [hid] at hplace
      | some =>
        simp only [hid, Option.map_some, Option.some.injEq, Option.map_eq_some_iff] at hplace
        obtain ⟨e, he, rfl⟩ := hplace
        exact ⟨e, he, rfl⟩
    constructor
    · refine List.ext_getElem? fun i => ?_
      cases hhash : chain[i]? with
      | none =>
        rw [List.getElem?_eq_none_iff] at hhash ⊢
        omega
      | some hash =>
        obtain ⟨e, he, hid⟩ := hat hhash
        have hsame : e.prefixHash = hash := by simpa using List.find?_some he
        rw [eq_of_mem_zipWith hnodup (List.mem_of_find?_eq_some he) hid, hsame]
    · refine List.nodup_iff_getElem?_ne_getElem?.mpr fun i j hij hj heq => ?_
      obtain ⟨hash, hhash⟩ : ∃ hash, chain[j]? = some hash := ⟨_, List.getElem?_eq_getElem hj⟩
      obtain ⟨e, he, hid⟩ := hat hhash
      obtain ⟨e', he', hid'⟩ := hat (heq.trans hhash)
      obtain rfl : e' = e := Option.some.inj (he'.symm.trans he)
      have hi : i < ids.length := by omega
      have := (List.getElem?_inj hi hnodup).mp (hid'.trans hid.symm)
      omega
  · rintro ⟨rfl, hdistinct⟩
    refine List.ext_getElem? fun i => ?_
    rw [List.getElem?_map, List.getElem?_map]
    cases hhash : published[i]? with
    | none =>
      have hid : ids[i]? = none := by
        rw [List.getElem?_eq_none_iff] at hhash ⊢
        omega
      rw [hid]
      rfl
    | some hash =>
      have hi : i < published.length := (List.getElem?_eq_some_iff.mp hhash).1
      have hid : ids[i]? = some ids[i] := List.getElem?_eq_getElem (by omega)
      have hmem : BlockCacheEntry.mk hash ids[i] ∈ List.zipWith BlockCacheEntry.mk published ids :=
        List.mem_of_getElem? (List.getElem?_zipWith_eq_some.mpr ⟨_, _, hhash, hid, rfl⟩)
      obtain ⟨e, he⟩ : ∃ e, (List.zipWith BlockCacheEntry.mk published ids).find?
          (·.prefixHash == hash) = some e :=
        Option.isSome_iff_exists.mp (List.find?_isSome.mpr ⟨_, hmem, beq_self_eq_true hash⟩)
      have hsame : e.prefixHash = hash := by simpa using List.find?_some he
      -- the entry found has the hash, and the hash stands at one place only
      obtain ⟨j, hj⟩ := List.mem_iff_getElem?.mp (List.mem_of_find?_eq_some he)
      obtain ⟨hash', _, hhash', hid', rfl⟩ := List.getElem?_zipWith_eq_some.mp hj
      obtain rfl : hash' = hash := hsame
      obtain rfl : i = j := (List.getElem?_inj hi hdistinct).mp (hhash.trans hhash'.symm)
      rw [Option.map_some, he, hid']
      rfl

namespace KvBlocks

variable {kv : KvBlocks} {entries : List BlockCacheEntry} {tokens : List Token}

/-- A cache without entries. -/
structure Vacant (c : BlockCache) : Prop where
  byHash : ∀ hash, c.byHash hash = none
  byBlock : ∀ id, c.byBlock id = none

/-- What the two indexes of a cache say when its entries are these, the oldest first. -/
structure Holds (c : BlockCache) (entries : List BlockCacheEntry) : Prop where
  byHash : ∀ hash, (c.byHash hash).getD [] = entries.filter (·.prefixHash == hash)
  byBlock : ∀ id, (∀ e ∈ entries, e.blockId ≠ id) → c.byBlock id = none

theorem Vacant.holds {c : BlockCache} (h : Vacant c) : Holds c [] where
  byHash := fun hash => by rw [h.byHash]; rfl
  byBlock := fun id _ => h.byBlock id

/-- Publish the full blocks of the tokens under the ids, each from the hash of the one before it;
the hashes and the cache that come out of it. -/
def publishChain (kv : KvBlocks) (salt parent : Hash) (tokens : List Token) :
    List BlockId → List Hash × KvBlocks
  | [] => ([], kv)
  | id :: ids =>
    let (hash, kv') := kv.publishFullBlock parent (tokens.take kv.pool.blockSize) id salt
    let (hashes, kv'') := kv'.publishChain salt hash (tokens.drop kv.pool.blockSize) ids
    (hash :: hashes, kv'')

/-- A publication adds one entry. -/
theorem publishFullBlock_holds
    (h : Holds kv.cache entries) (parent salt : Hash) (tokens : List Token) {id : BlockId}
    (hnew : ∀ e ∈ entries, e.blockId ≠ id) :
    Holds (kv.publishFullBlock parent tokens id salt).2.cache
      (entries ++ [⟨(kv.publishFullBlock parent tokens id salt).1, id⟩]) := by
  simp only [publishFullBlock, BlockCache.assert_frame, h.byBlock id hnew]
  generalize (chainHashesFrom tokens kv.pool.blockSize kv.pool.blockSize parent
    salt).headD 0 = published
  constructor
  · intro hash
    simp only [Function.update_apply, List.filter_append]
    split
    · rename_i heq
      subst heq
      simp [h.byHash]
    · rename_i hne
      simp [h.byHash, Ne.symm hne]
  · intro id' hid
    have hne : id' ≠ id :=
      (hid _ (List.mem_append_right _ (List.mem_singleton_self _))).symm
    simp only [Function.update_of_ne hne]
    exact h.byBlock id' fun e he => hid e (List.mem_append_left _ he)

/-- The hashes of the publications, and the entries they leave. -/
theorem publishChain_holds (ids : List BlockId) :
    ∀ (kv : KvBlocks) (entries : List BlockCacheEntry) (parent salt : Hash) (tokens : List Token),
      Holds kv.cache entries → (∀ e ∈ entries, e.blockId ∉ ids) → ids.Nodup →
      (kv.publishChain salt parent tokens ids).1 =
          chainOneByOne kv.pool.blockSize salt ids.length parent tokens ∧
        (kv.publishChain salt parent tokens ids).2.pool = kv.pool ∧
        Holds (kv.publishChain salt parent tokens ids).2.cache
          (entries ++ List.zipWith BlockCacheEntry.mk
            (kv.publishChain salt parent tokens ids).1 ids) := by
  induction ids with
  | nil =>
    intro kv entries parent salt tokens h _ _
    refine ⟨rfl, rfl, ?_⟩
    rw [List.zipWith_nil_right, List.append_nil]
    exact h
  | cons id _ ih =>
    intro kv entries parent salt tokens h hnew hnodup
    obtain ⟨hid, hrest⟩ := List.nodup_cons.mp hnodup
    have hpublished := publishFullBlock_holds h parent salt (tokens.take kv.pool.blockSize)
      fun e he heq => hnew e he (heq ▸ List.mem_cons_self)
    have hpool := publishFullBlock_pool kv parent salt (tokens.take kv.pool.blockSize) id
    have hhash : (kv.publishFullBlock parent (tokens.take kv.pool.blockSize) id salt).1 =
        (chainHashesFrom (tokens.take kv.pool.blockSize) kv.pool.blockSize
          kv.pool.blockSize parent salt).headD 0 := by
      simp only [publishFullBlock]
      split <;> rfl
    rw [publishChain]
    generalize kv.publishFullBlock parent (tokens.take kv.pool.blockSize) id salt = step at *
    obtain ⟨hash, kv'⟩ := step
    obtain ⟨hhashes, hpool', hholds⟩ :=
      ih kv' _ hash salt (tokens.drop kv.pool.blockSize) hpublished
      (by
        intro e he
        rcases List.mem_append.mp he with he | he
        · exact fun hmem => hnew e he (List.mem_cons_of_mem _ hmem)
        · rw [List.mem_singleton.mp he]
          exact hid) hrest
    simp only at hhash hpool hhashes hholds ⊢
    refine ⟨?_, hpool'.trans hpool, ?_⟩
    · rw [hhashes, hpool, hhash, List.length_cons, chainOneByOne]
    · rw [List.zipWith_cons_cons, List.append_cons]
      exact hholds

/-- The lookup loop goes by the entries. -/
theorem lookupLoop_table (hashes : List Hash) :
    ∀ (kv : KvBlocks) (result : PrefixLookup), Holds kv.cache entries →
      (kv.lookupLoop result hashes).1.blockTable =
        result.blockTable ++ (firstHits entries hashes).map (·.blockId) := by
  induction hashes with
  | nil => intro kv result _; exact (List.append_nil _).symm
  | cons hash hashes ih =>
    intro kv result h
    have hbucket := h.byHash hash
    rw [lookupLoop, firstHits, ← List.head?_filter, ← hbucket]
    split
    · rename_i hnone
      rw [hnone]
      exact (List.append_nil _).symm
    · rename_i hnil
      rw [hnil]
      exact (List.append_nil _).symm
    · rename_i e tail hsome
      obtain ⟨-, -, hhash, hblock, -⟩ := lookupHit_fields kv e
      rw [hsome, ih (kv.lookupHit e) _ ⟨hhash ▸ h.byHash, hblock ▸ h.byBlock⟩]
      exact List.append_assoc _ _ _

theorem lookupPrefixCache_table (h : Holds kv.cache entries) (tokens : List Token) (salt : Hash) :
    (kv.lookupPrefixCache tokens salt).1.blockTable =
      (firstHits entries (chainHashes tokens kv.pool.blockSize salt)).map
        (·.blockId) := by
  rw [lookupPrefixCache]
  refine lookupLoop_table _ _ _ ⟨?_, ?_⟩
  · simp only [BlockCache.assert_frame]
    exact h.byHash
  · simp only [BlockCache.assert_frame]
    exact h.byBlock

/-- On any vector the lookup returns the published blocks in order if and only if the two chains
agree on it and no two blocks have the same hash. -/
theorem lookup_publishChain_iff (hvacant : Vacant kv.cache) {ids : List BlockId}
    (hids : tokens.length / kv.pool.blockSize = ids.length) (hnodup : ids.Nodup) (salt : Hash) :
    ((kv.publishChain salt 0 tokens ids).2.lookupPrefixCache tokens salt).1.blockTable = ids ↔
      chainOneByOne kv.pool.blockSize salt ids.length 0 tokens =
          chainHashes tokens kv.pool.blockSize salt ∧
        (chainHashes tokens kv.pool.blockSize salt).Nodup := by
  obtain ⟨hhashes, hpool, hholds⟩ :=
    publishChain_holds ids kv [] 0 salt tokens hvacant.holds nofun hnodup
  rw [List.nil_append, hhashes] at hholds
  rw [lookupPrefixCache_table hholds, hpool]
  exact firstHits_zipWith_iff (chainOneByOne_length ..)
    (by rw [chainHashes_length, hids]) hnodup

/-- The blocks of a vector of `n` full blocks are published on an empty cache and then looked up,
both under the salt. Without a salt or a second block the published hashes are the chain hashes of
the vector, and the lookup returns the blocks in order if and only if no two of them have the same
hash. Otherwise there are vectors whose lookup never returns them. -/
theorem lookup_published_iff {blockSize : Nat} (hbs : 0 < blockSize) (salt : Hash) (n : Nat) :
    (salt = 0 ∨ n ≤ 1 → ∀ (kv : KvBlocks) (tokens : List Token) (ids : List BlockId),
      kv.pool.blockSize = blockSize → Vacant kv.cache → tokens.length / blockSize = n →
      ids.length = n → ids.Nodup →
      (kv.publishChain salt 0 tokens ids).1 = chainHashes tokens blockSize salt ∧
        (((kv.publishChain salt 0 tokens ids).2.lookupPrefixCache tokens salt).1.blockTable = ids ↔
          (chainHashes tokens blockSize salt).Nodup)) ∧
    (salt ≠ 0 → 2 ≤ n → ∃ tokens : List Token, tokens.length / blockSize = n ∧
      ∀ (kv : KvBlocks) (ids : List BlockId), kv.pool.blockSize = blockSize → Vacant kv.cache →
        ids.length = n → ids.Nodup →
        ((kv.publishChain salt 0 tokens ids).2.lookupPrefixCache tokens salt).1.blockTable ≠
          ids) := by
  constructor
  · rintro hsalt kv tokens ids rfl hvacant hlen rfl hnodup
    have hagree := (chainOneByOne_eq_iff hbs salt ids.length).mpr hsalt tokens hlen
    refine ⟨?_, (lookup_publishChain_iff hvacant hlen hnodup salt).trans (and_iff_right hagree)⟩
    rw [(publishChain_holds ids kv [] 0 salt tokens hvacant.holds nofun hnodup).1, hagree]
  · intro hsalt hn
    obtain ⟨tokens, hlen, hne⟩ := exists_chainOneByOne_ne hbs hsalt hn
    refine ⟨tokens, hlen, ?_⟩
    rintro _ _ rfl hvacant rfl hnodup hfound
    exact hne ((lookup_publishChain_iff hvacant hlen hnodup salt).mp hfound).1

/-- One block under a salt. -/
theorem lookup_published_oneBlock :
    ((init 2 2).publishChain 7 0 [5, 6] [0]).1 = chainHashes [5, 6] 2 7 ∧
    (((init 2 2).publishChain 7 0 [5, 6] [0]).2.lookupPrefixCache [5, 6] 7).1.blockTable = [0] := by
  have h := (lookup_published_iff (by decide : 0 < 2) 7 1).1 (.inr (Nat.le_refl 1)) (init 2 2)
    [5, 6] [0] rfl ⟨fun _ => rfl, fun _ => rfl⟩ rfl rfl (by decide)
  exact ⟨h.1, h.2.mpr (by decide +kernel)⟩

/-- A pool in which a request owns both blocks. -/
def ownedPair : KvBlocks := ((init 2 2).allocateKvBlocks 2).2

/-- Two blocks under a salt: the lookup finds the first one only. -/
theorem ownedPair_salted :
    ownedPair.cache.entries = [] ∧ 0 < ownedPair.pool.refCount 0 ∧ 0 < ownedPair.pool.refCount 1 ∧
      ((ownedPair.publishChain 7 0 [1, 2, 3, 4] [0, 1]).2.lookupPrefixCache
        [1, 2, 3, 4] 7).1.blockTable = [0] ∧ (ownedPair.publishChain 7 0 [1, 2, 3, 4] [0, 1]).1 ≠
        chainHashes [1, 2, 3, 4] 2 7 := by
  decide +kernel

end KvBlocks

end CcInfer
