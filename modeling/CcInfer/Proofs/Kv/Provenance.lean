import CcInfer.Proofs.Kv.History
import CcInfer.Proofs.Kv.Publish

/-!
# `CcInfer.Proofs.Kv.Provenance`: which tokens a cached block was published for

A hit of the prefix cache is decided by one hash word. This module asks for which tokens the
block behind the word was published. A sequence starts with a lookup of its prompt, which
gives it a parent hash, and then publishes one full block after the other, each under the hash
that the publication before it returned. `ChainHistory` adds two records to `KvHistory`: for each
sequence the tokens that its parent hash stands for, and for each block the tokens up to its end.
-/

set_option autoImplicit false

namespace CcInfer

/-- A call of the Scheduler on pool and cache. -/
inductive ChainCall
  | allocate (numBlocks : Nat)
  /-- A sequence starts over the prefix hits of its prompt. -/
  | start (sequence : SequenceId) (prompt : List Token)
  /-- A sequence publishes its next full block. -/
  | publish (sequence : SequenceId) (fullBlock : List Token) (id : BlockId)
  | release (table : BlockTable)
  | evict
  deriving DecidableEq, Repr

/-- The full blocks of a sequence so far, and the hash under which it publishes the next. -/
structure Chain where
  tokens : List Token
  parentHash : Hash
  deriving DecidableEq, Repr

/-- Pool and cache after some calls, with what the calls have meant. -/
structure ChainHistory where
  history : KvHistory
  chains : SequenceId → Chain
  /-- The tokens up to the end of the block, in the sequence that published it last. -/
  origin : BlockId → Option (List Token)

namespace ChainHistory

/-- A new pool and an empty cache. -/
def init (maxBlocks blockSize : Nat) : ChainHistory where
  history := .init maxBlocks blockSize
  chains := fun _ => ⟨[], 0⟩
  origin := fun _ => none

/-- Pool and cache. -/
abbrev kv (s : ChainHistory) : KvBlocks := s.history.kv

/-- The call that pool and cache see: the salt and the seed are zero, and the parent hash is
the one that the sequence holds. -/
def kvCall (s : ChainHistory) : ChainCall → KvCall
  | .allocate numBlocks => .allocate numBlocks
  | .start _ prompt => .lookup prompt 0
  | .publish sequence fullBlock id => .publish (s.chains sequence).parentHash fullBlock id 0
  | .release table => .release table
  | .evict => .evict

/-- The tokens of a sequence once it has published `fullBlock`. -/
def extended (s : ChainHistory) (sequence : SequenceId) (fullBlock : List Token) : List Token :=
  (s.chains sequence).tokens ++ fullBlock

/-- One call. A lookup leaves the sequence at the end of its hits, a publication at the end of
the published block. -/
def step (s : ChainHistory) (call : ChainCall) : ChainHistory where
  history := s.history.step (s.kvCall call)
  chains :=
    match call with
    | .start sequence prompt =>
      let result := (s.kv.lookupPrefixCache prompt).1
      Function.update s.chains sequence
        ⟨prompt.take (result.prefixHitBlocks * s.kv.pool.blockSize), result.parentHash⟩
    | .publish sequence fullBlock id =>
      Function.update s.chains sequence ⟨s.extended sequence fullBlock,
        (s.kv.publishFullBlock (s.chains sequence).parentHash fullBlock id).1⟩
    | _ => s.chains
  origin :=
    match call with
    | .publish sequence fullBlock id =>
      Function.update s.origin id (some (s.extended sequence fullBlock))
    | _ => s.origin

/-- The state after a sequence of calls. -/
def after (s : ChainHistory) (calls : List ChainCall) : ChainHistory := calls.foldl step s

/-- The Scheduler takes exactly one block of pending tokens, and keeps the rules of pool and
cache. -/
def Permitted (s : ChainHistory) (call : ChainCall) : Prop :=
  s.history.Permitted (s.kvCall call) ∧
    match call with
    | .publish _ fullBlock _ => fullBlock.length = s.kv.pool.blockSize
    | _ => True

instance (s : ChainHistory) : DecidablePred s.Permitted
  | .allocate _ | .start _ _ | .release _ | .evict =>
    inferInstanceAs (Decidable (_ ∧ True))
  | .publish _ _ _ => inferInstanceAs (Decidable (_ ∧ _ = _))

/-- Every call of the sequence is permitted when it is made. -/
def Permits (s : ChainHistory) : List ChainCall → Prop
  | [] => True
  | call :: rest => s.Permitted call ∧ (s.step call).Permits rest

instance (calls : List ChainCall) : ∀ s : ChainHistory, Decidable (s.Permits calls) :=
  calls.rec (fun _ => inferInstanceAs (Decidable True))
    fun call _ ih s => @instDecidableAnd _ _ _ (ih (s.step call))

/-- No cached block was published for other tokens with the hash of a prefix of `tokens`. -/
def Distinct (s : ChainHistory) (tokens : List Token) : Prop :=
  ∀ e ∈ s.kv.cache.entries, ∀ seen ∈ s.origin e.blockId,
    ∀ n ≤ tokens.length / s.kv.pool.blockSize,
      PrefixCache.hashBlock 0 seen =
        PrefixCache.hashBlock 0 (tokens.take (n * s.kv.pool.blockSize)) →
      seen = tokens.take (n * s.kv.pool.blockSize)

instance (s : ChainHistory) (tokens : List Token) : Decidable (s.Distinct tokens) :=
  inferInstanceAs (Decidable (∀ e ∈ _, ∀ seen ∈ _, ∀ n ≤ _, _ → _))

end ChainHistory

/-! ### The records -/

namespace KvHistory

variable {s : KvHistory} {call : KvCall}

/-- Only a publication adds an entry to the cache. -/
theorem Consistent.byBlock_of_step (h : s.Consistent) (permitted : s.Permitted call)
    (silent : ∀ parentHash tokens id seed, call ≠ .publish parentHash tokens id seed)
    {b : BlockId} {e : BlockCacheEntry} (he : (s.step call).kv.cache.byBlock b = some e) :
    s.kv.cache.byBlock b = some e := by
  simp only [KvHistory.step] at he
  cases call with
  | allocate n =>
    rcases KvBlocks.allocateKvBlocks_spec h.inv n with
      ⟨-, blocks, kv', heq, -, hm, -⟩ | ⟨-, leak, kv', heq, -, hm⟩ <;>
    · simp only [KvHistory.perform, heq] at he
      exact hm.cached b e he
  | lookup tokens salt =>
    obtain ⟨_, _, _, heq, -, -, hm, -⟩ := KvBlocks.lookupPrefixCache_spec h.inv tokens salt
    simp only [KvHistory.perform, heq] at he
    exact hm.cached b e he
  | publish parentHash tokens id seed => exact absurd rfl (silent parentHash tokens id seed)
  | release table =>
    exact (KvBlocks.releaseRequestBlocks_spec h.inv table (h.count_le permitted)).1.cached b e he
  | evict =>
    rcases hidle : s.kv.cache.idleLru with _ | ⟨_, _⟩
    · have hsame : s.kv.evictOne = (false, s.kv) := by unfold KvBlocks.evictOne; rw [hidle]
      simpa only [KvHistory.perform, hsame] using he
    · obtain ⟨_, heq, -, -, -, -, -, -, hblock⟩ := KvBlocks.evictOne_spec h.inv hidle
      simp only [KvHistory.perform, heq, hblock, Function.update_apply] at he
      split at he
      · cases he
      · exact he

/-- No call changes the size of a block. -/
theorem Consistent.blockSize_step (h : s.Consistent) (permitted : s.Permitted call) :
    (s.step call).kv.pool.blockSize = s.kv.pool.blockSize :=
  (h.perform permitted).2.1.blockSize

end KvHistory

namespace ChainHistory

variable {s : ChainHistory} {call : ChainCall}

/-- The hashes in use are the chain hashes of the recorded tokens. -/
structure Traced (s : ChainHistory) : Prop where
  consistent : s.history.Consistent
  parent : ∀ sequence,
    (s.chains sequence).parentHash = PrefixCache.hashBlock 0 (s.chains sequence).tokens
  cached : ∀ id e, s.kv.cache.byBlock id = some e →
    ∃ seen, s.origin id = some seen ∧ e.prefixHash = PrefixCache.hashBlock 0 seen

theorem init_traced (maxBlocks : Nat) {blockSize : Nat} (hbs : 0 < blockSize) :
    (init maxBlocks blockSize).Traced where
  consistent := KvHistory.init_consistent maxBlocks hbs
  parent _ := rfl
  cached _ _ he := nomatch he

namespace Traced

/-- The hash that a publication returns is the chain hash of the extended sequence. -/
theorem published_hash (h : s.Traced) {sequence : SequenceId} {fullBlock : List Token}
    {id : BlockId} (full : fullBlock.length = s.kv.pool.blockSize) :
    (s.kv.publishFullBlock (s.chains sequence).parentHash fullBlock id).1 =
      PrefixCache.hashBlock 0 (s.extended sequence fullBlock) := by
  rw [KvBlocks.publishFullBlock_hash _ h.consistent.sized, ← full, List.take_length, h.parent,
    extended, PrefixCache.hashBlock_append]

/-- A call that publishes nothing keeps the records of the cached blocks. -/
theorem cached_of_silent (h : s.Traced) (permitted : s.history.Permitted (s.kvCall call))
    (silent : ∀ parentHash tokens id seed, s.kvCall call ≠ .publish parentHash tokens id seed)
    (origin : (s.step call).origin = s.origin) (id : BlockId) (e : BlockCacheEntry)
    (he : (s.step call).kv.cache.byBlock id = some e) :
    ∃ seen, (s.step call).origin id = some seen ∧ e.prefixHash = PrefixCache.hashBlock 0 seen := by
  rw [origin]
  exact h.cached id e (h.consistent.byBlock_of_step permitted silent he)

/-- Every permitted call keeps the records right. -/
theorem step (h : s.Traced) (permitted : s.Permitted call) : (s.step call).Traced := by
  have consistent : (s.step call).history.Consistent := h.consistent.step permitted.1
  cases call with
  | allocate | release | evict =>
    exact ⟨consistent, h.parent, h.cached_of_silent permitted.1 nofun rfl⟩
  | start _ prompt =>
    refine ⟨consistent, fun other => ?_, h.cached_of_silent permitted.1 nofun rfl⟩
    simp only [ChainHistory.step, Function.update_apply]
    split
    · obtain ⟨hits, _, _, hlookup, hprefix, -, -, -, hparent⟩ :=
        KvBlocks.lookupPrefixCache_spec h.consistent.inv prompt
      -- The hashes of the hits are a beginning of the chain hashes of the prompt.
      have hlast := PrefixCache.getLast_of_isPrefix hprefix
      rw [List.length_map] at hlast
      rw [hlookup, hparent, hlast]
    · exact h.parent other
  | publish sequence fullBlock id =>
    obtain ⟨⟨-, href, hnone⟩, full⟩ := permitted
    have hhash : (s.kv.publishFullBlock (s.chains sequence).parentHash fullBlock id).1 =
        PrefixCache.hashBlock 0 (s.extended sequence fullBlock) := h.published_hash full
    obtain ⟨-, -, -, hblock⟩ := KvBlocks.publishFullBlock_inv h.consistent.inv
      (s.chains sequence).parentHash 0 fullBlock hnone href
    refine ⟨consistent, fun other => ?_, fun b e he => ?_⟩
    · simp only [ChainHistory.step, Function.update_apply]
      split
      · exact hhash
      · exact h.parent other
    · have he' : Function.update s.kv.cache.byBlock id
          (some ⟨(s.kv.publishFullBlock (s.chains sequence).parentHash fullBlock id).1, id⟩) b =
          some e := hblock ▸ he
      simp only [ChainHistory.step, Function.update_apply] at he' ⊢
      split at he' <;> rename_i hb
      · cases he'
        exact ⟨_, if_pos hb, hhash⟩
      · rw [if_neg hb]
        exact h.cached b e he'

/-- So does a whole sequence of permitted calls. -/
theorem after (calls : List ChainCall) :
    ∀ {s : ChainHistory}, s.Traced → s.Permits calls → (s.after calls).Traced := by
  induction calls with
  | nil => exact fun h _ => h
  | cons _ _ ih => exact fun h permits => ih (h.step permits.1) permits.2

/-- The block at place `i` of a lookup was published for tokens with the hash of the first
`i + 1` blocks that were asked for. -/
theorem hit (h : s.Traced) {tokens : List Token} {i : Nat} {id : BlockId}
    (hid : (s.kv.lookupPrefixCache tokens).1.blockTable[i]? = some id) :
    i < tokens.length / s.kv.pool.blockSize ∧ ∃ e seen, s.kv.cache.byBlock id = some e ∧
      s.origin id = some seen ∧ PrefixCache.hashBlock 0 seen =
        PrefixCache.hashBlock 0 (tokens.take ((i + 1) * s.kv.pool.blockSize)) := by
  obtain ⟨hits, _, _, hlookup, hprefix, hcached, -⟩ :=
    KvBlocks.lookupPrefixCache_spec h.consistent.inv tokens
  rw [hlookup, List.getElem?_map, Option.map_eq_some_iff] at hid
  obtain ⟨_, he, rfl⟩ := hid
  obtain ⟨hi, rfl⟩ := List.getElem?_eq_some_iff.mp he
  have hbound := hprefix.length_le
  rw [List.length_map, PrefixCache.chainHashes_length] at hbound
  have hhash := List.prefix_iff_getElem?.mp hprefix i (by rwa [List.length_map])
  rw [PrefixCache.chainHashes_getElem?, if_pos (hi.trans_le hbound), List.getElem_map,
    Option.some.injEq] at hhash
  have hblock := hcached hits[i] (List.getElem_mem hi)
  obtain ⟨seen, horigin, hseen⟩ := h.cached _ _ hblock
  exact ⟨hi.trans_le hbound, hits[i], seen, hblock, horigin, hseen.symm.trans hhash.symm⟩

end Traced

/-- No call changes the size of a block. -/
theorem blockSize_after (calls : List ChainCall) :
    ∀ {s : ChainHistory}, s.Traced → s.Permits calls →
      (s.after calls).kv.pool.blockSize = s.kv.pool.blockSize := by
  induction calls with
  | nil => exact fun _ _ => rfl
  | cons _ _ ih =>
    exact fun h permits => (ih (h.step permits.1) permits.2).trans
      (h.consistent.blockSize_step permits.1.1)

/-- After any sequence of calls as the Scheduler makes them, and for any tokens: if no record of
a cached block has the hash of another prefix of the tokens, then the block at place `i` of the
lookup was published as block `i` of a sequence that starts with the first `i + 1` blocks of
the tokens. -/
theorem lookup_provenance (maxBlocks : Nat) {blockSize : Nat} (hbs : 0 < blockSize)
    (calls : List ChainCall) (permits : (init maxBlocks blockSize).Permits calls)
    (tokens : List Token) (distinct : ((init maxBlocks blockSize).after calls).Distinct tokens)
    (i : Nat) (id : BlockId)
    (hit : (((init maxBlocks blockSize).after calls).kv.lookupPrefixCache tokens).1.blockTable[i]? =
      some id) : (i + 1) * blockSize ≤ tokens.length ∧
    ((init maxBlocks blockSize).after calls).origin id =
      some (tokens.take ((i + 1) * blockSize)) := by
  have hinit := init_traced maxBlocks hbs
  have hsize : ((init maxBlocks blockSize).after calls).kv.pool.blockSize = blockSize :=
    blockSize_after calls hinit permits
  have traced := Traced.after calls hinit permits
  obtain ⟨hi, e, seen, hblock, horigin, hhash⟩ := traced.hit hit
  have hid := traced.consistent.inv.cached_id id e hblock
  have hentry : e ∈ ((init maxBlocks blockSize).after calls).kv.cache.entries :=
    (traced.consistent.inv.entries_iff e).mpr (by rw [hid]; exact hblock)
  have heq := distinct e hentry seen (by rw [hid]; exact horigin) (i + 1) hi hhash
  rw [hsize] at hi heq
  exact ⟨(Nat.le_div_iff_mul_le hbs).mp hi, by rw [horigin, heq]⟩

/-- Two sequences share their first block, and the second of them publishes another one. -/
def sharedBlock : List ChainCall :=
  [.allocate 1, .publish 0 [5, 6] 0, .start 1 [5, 6, 7, 8], .allocate 1, .publish 1 [7, 8] 1]

theorem lookup_provenance_sharedBlock : (1 + 1) * 2 ≤ ([5, 6, 7, 8, 9] : List Token).length ∧
    ((init 2 2).after sharedBlock).origin 1 =
      some (([5, 6, 7, 8, 9] : List Token).take ((1 + 1) * 2)) :=
  lookup_provenance 2 (show 0 < 2 by decide) sharedBlock (by decide +kernel) [5, 6, 7, 8, 9]
    (by decide +kernel) 1 1 (by decide +kernel)

/-- The blocks `[1, 100]` and `[2, 37]` have the same hash. After the first was published, a
lookup of the second returns its block. -/
theorem colliding_hit : (init 1 2).Permits [.allocate 1, .publish 0 [1, 100] 0] ∧
    (((init 1 2).after [.allocate 1, .publish 0 [1, 100] 0]).kv.lookupPrefixCache
      [2, 37]).1.blockTable[0]? = some 0 ∧
    ((init 1 2).after [.allocate 1, .publish 0 [1, 100] 0]).origin 0 = some [1, 100] ∧
    ([1, 100] : List Token) ≠ [2, 37].take ((0 + 1) * 2) := by
  decide +kernel

end ChainHistory

end CcInfer
