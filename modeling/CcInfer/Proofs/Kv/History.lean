import CcInfer.Proofs.Kv.Assertions
import Mathlib.Data.Prod.Lex
import Mathlib.Data.List.Nodup

/-!
# `CcInfer.Proofs.Kv.History`: pool and cache over any sequence of calls

The Scheduler is one client of pool and cache. This module forgets it and lets any client
make any calls, in any order: allocations that may fail, lookups of any tokens, publications
of owned blocks that have no entry yet, releases of references that the client holds, and
evictions. `KvHistory` keeps next to pool and cache what the calls have meant: the
references that are held, and when each block last became idle.
-/

set_option autoImplicit false

namespace CcInfer

open KvBlocks

/-- A call on pool and cache. -/
inductive KvCall
  | allocate (numBlocks : Nat)
  | lookup (tokens : List Token) (salt : Hash)
  | publish (parentHash : Hash) (tokens : List Token) (id : BlockId) (seed : Hash)
  | release (table : BlockTable)
  | evict
  deriving DecidableEq, Repr

/-- The place of a block among those that one call makes idle: `release_request_blocks`
walks through its table. -/
def KvCall.place (b : BlockId) : KvCall → Nat
  | .release table => table.idxOf b
  | _ => 0

/-- Pool and cache after some calls, with what the calls have meant. -/
structure KvHistory where
  kv : KvBlocks
  /-- The references that the callers hold, one entry for each. -/
  held : BlockTable
  /-- The number of calls. -/
  calls : Nat
  /-- When a block last became idle: in which call, and at which place of that call. -/
  idleSince : BlockId → Nat ×ₗ Nat

namespace KvHistory

/-- A new pool and an empty cache. -/
def init (maxBlocks blockSize : Nat) : KvHistory where
  kv := KvBlocks.init maxBlocks blockSize
  held := []
  calls := 0
  idleSince := fun _ => toLex (0, 0)

/-- Pool and cache after a call, and the references held then. -/
def perform (s : KvHistory) : KvCall → KvBlocks × BlockTable
  | .allocate numBlocks =>
    match s.kv.allocateKvBlocks numBlocks with
    | (.ok table, kv) => (kv, s.held ++ table)
    | (.error _, kv) => (kv, s.held)
  | .lookup tokens salt =>
    let (result, kv) := s.kv.lookupPrefixCache tokens salt
    (kv, s.held ++ result.blockTable)
  | .publish parentHash tokens id seed =>
    ((s.kv.publishFullBlock parentHash tokens id seed).2, s.held)
  | .release table => (s.kv.releaseRequestBlocks table, s.held.diff table)
  | .evict => (s.kv.evictOne.2, s.held)

/-- One call. A block that is idle after it and was not before has become idle by it. -/
def step (s : KvHistory) (call : KvCall) : KvHistory where
  kv := (s.perform call).1
  held := (s.perform call).2
  calls := s.calls + 1
  idleSince := fun b =>
    if (s.perform call).1.cache.isIdle b && !s.kv.cache.isIdle b then toLex (s.calls, call.place b)
    else s.idleSince b

/-- The state after a sequence of calls. -/
def after (s : KvHistory) (calls : List KvCall) : KvHistory := calls.foldl step s

/-- What a caller has to know before a call: a published block is full, has an owner and no
entry, and released references are held. -/
def Permitted (s : KvHistory) : KvCall → Prop
  | .publish _ tokens id _ =>
    s.kv.pool.blockSize ≤ tokens.length ∧ 0 < s.kv.pool.refCount id ∧ s.kv.cache.byBlock id = none
  | .release table => ∀ b ∈ table, table.count b ≤ s.held.count b
  | _ => True

instance (s : KvHistory) : DecidablePred s.Permitted
  | .allocate _ => inferInstanceAs (Decidable True)
  | .lookup _ _ => inferInstanceAs (Decidable True)
  | .publish _ _ _ _ => inferInstanceAs (Decidable (_ ∧ _ ∧ _))
  | .release _ => inferInstanceAs (Decidable (∀ b ∈ _, _))
  | .evict => inferInstanceAs (Decidable True)

/-- Every call of the sequence is permitted when it is made. -/
def Permits (s : KvHistory) : List KvCall → Prop
  | [] => True
  | call :: rest => s.Permitted call ∧ (s.step call).Permits rest

instance (calls : List KvCall) : ∀ s : KvHistory, Decidable (s.Permits calls) :=
  calls.rec (fun _ => inferInstanceAs (Decidable True))
    fun call _ ih s => @instDecidableAnd _ _ _ (ih (s.step call))

/-- A lookup is warm when it has tokens and every cached block that they lead to is held by
somebody. -/
def Warm (s : KvHistory) : KvCall → Prop
  | .lookup tokens salt => tokens ≠ [] ∧
    ∀ e ∈ s.kv.matched (PrefixCache.chainHashes tokens s.kv.pool.blockSize salt),
      0 < s.kv.pool.refCount e.blockId
  | _ => True

/-- Every lookup of the sequence is warm when it is made. -/
def StaysWarm (s : KvHistory) : List KvCall → Prop
  | [] => True
  | call :: rest => s.Warm call ∧ (s.step call).StaysWarm rest

/-- The failed assertions of both classes. -/
def failedAsserts (s : KvHistory) : List AssertSite :=
  s.kv.pool.failedAsserts ++ s.kv.cache.failedAsserts

end KvHistory

namespace KvBlocks

variable {kv : KvBlocks}

/-- The blocks of the idle LRU, front first. -/
def idle (kv : KvBlocks) : List BlockId := kv.cache.idleLru.map (·.blockId)

/-- `is_idle` is membership in the LRU. -/
theorem isIdle_iff (h : kv.Inv) (b : BlockId) : kv.cache.isIdle b = true ↔ b ∈ kv.idle := by
  simp only [idle, List.mem_map, BlockCache.isIdle]
  rcases hb : kv.cache.byBlock b with _ | e
  · refine iff_of_false (by simp) ?_
    rintro ⟨e, he, rfl⟩
    rw [((h.idle_iff e).mp he).1] at hb
    cases hb
  · rw [decide_eq_true_eq]
    refine ⟨fun he => ⟨e, he, h.cached_id b e hb⟩, ?_⟩
    rintro ⟨e', he', rfl⟩
    have := ((h.idle_iff e').mp he').1
    rw [hb] at this
    exact Option.some.inj this ▸ he'

theorem idle_nodup (h : kv.Inv) : kv.idle.Nodup := by
  refine h.idle_nodup.map_on fun e he e' he' heq => ?_
  have hcached := ((h.idle_iff e).mp he).1
  rw [heq, ((h.idle_iff e').mp he').1] at hcached
  exact (Option.some.inj hcached).symm

/-- A block is idle when it is in use and nobody holds it. -/
theorem mem_idle_iff (h : kv.Inv) (b : BlockId) :
    b ∈ kv.idle ↔ kv.pool.status b = .inUse ∧ kv.pool.refCount b = 0 := by
  simp only [idle, List.mem_map]
  constructor
  · rintro ⟨e, he, rfl⟩
    obtain ⟨hcached, hzero, -⟩ := (h.idle_iff e).mp he
    exact ⟨h.cached_inUse _ e hcached, hzero⟩
  · rintro ⟨hinUse, hzero⟩
    obtain ⟨e, he⟩ := Option.ne_none_iff_exists'.mp (h.unref_cached b hinUse hzero not_false)
    have hid := h.cached_id b e he
    exact ⟨e, (h.idle_iff e).mpr ⟨by rw [hid]; exact he, by rw [hid]; exact hzero, not_false⟩, hid⟩

/-- `stats().block_active` counts the referenced blocks: the others are free or idle, and
no block is both. -/
theorem blockActive_eq (h : kv.Inv) : kv.stats.blockActive =
    ((List.range kv.pool.maxBlocks).filter fun b => 0 < kv.pool.refCount b).length := by
  have hperm : (List.range kv.pool.maxBlocks).Perm (kv.pool.freeList ++ (kv.idle ++
      (List.range kv.pool.maxBlocks).filter fun b => 0 < kv.pool.refCount b)) := by
    refine (List.perm_ext_iff_of_nodup List.nodup_range ?_).mpr fun b => ?_
    · refine List.Nodup.append h.free_nodup (List.Nodup.append (idle_nodup h)
        (List.nodup_range.filter _) fun b hidle hb => ?_) fun b hfree hb => ?_
      · have hpos := (List.mem_filter.mp hb).2
        have hzero := ((mem_idle_iff h b).mp hidle).2
        simp [hzero] at hpos
      · have hstatus := ((h.free_iff b).mp hfree).2
        rcases List.mem_append.mp hb with hidle | hb
        · rw [((mem_idle_iff h b).mp hidle).1] at hstatus
          cases hstatus
        · have hpos := (List.mem_filter.mp hb).2
          simp [h.free_ref b hstatus] at hpos
    · simp only [List.mem_append, List.mem_filter, List.mem_range, h.free_iff, mem_idle_iff h,
        decide_eq_true_eq]
      constructor
      · intro hlt
        rcases hs : kv.pool.status b with _ | _
        · exact .inl ⟨hlt, rfl⟩
        · rcases Nat.eq_zero_or_pos (kv.pool.refCount b) with hzero | hpos
          · exact .inr (.inl ⟨rfl, hzero⟩)
          · exact .inr (.inr ⟨hlt, hpos⟩)
      · rintro (⟨hlt, -⟩ | ⟨hinUse, -⟩ | ⟨hlt, -⟩)
        · exact hlt
        · exact h.lt_of_inUse hinUse
        · exact hlt
  have hlen := hperm.length_eq
  simp only [List.length_range, List.length_append, idle, List.length_map] at hlen
  simp only [stats, BlockPool.numFreeBlocks]
  omega

/-! ### The order of the idle LRU -/

/-- Settling a block puts nothing into the LRU but that block, at the end. -/
theorem settle_idle (hid : ∀ b e, kv.cache.byBlock b = some e → e.blockId = b) (id : BlockId) :
    (kv.settle id).cache.byBlock = kv.cache.byBlock ∧
    ∃ new, (kv.settle id).idle = kv.idle ++ new ∧ new.Sublist [id] := by
  unfold settle
  split
  · exact ⟨rfl, [], by simp, by simp⟩
  · split
    · unfold markIdle
      rcases hb : kv.cache.byBlock id with _ | e
      · exact ⟨by simp, [], by simp [idle], by simp⟩
      · exact ⟨by simp, [id], by simp [idle, hid id e hb], .refl _⟩
    · exact ⟨rfl, [], by simp [idle], by simp⟩

/-- The second loop of `release_request_blocks` appends blocks of its table to the LRU, in
the order in which the table first names them. -/
theorem settleLoop_idle (table : BlockTable) : ∀ (kv : KvBlocks) (seen : List BlockId),
      (∀ b e, kv.cache.byBlock b = some e → e.blockId = b) →
      ∃ new, (kv.settleLoop seen table).idle = kv.idle ++ new ∧ (∀ b ∈ new, b ∈ table ∧ b ∉ seen) ∧
        new.Pairwise fun a b => table.idxOf a < table.idxOf b := by
  induction table with
  | nil => exact fun kv _ _ => ⟨[], by simp [settleLoop], by simp, .nil⟩
  | cons id rest ih =>
    intro kv seen hid
    -- A block named later than `id` and different from it moves up by one place.
    have hlater : ∀ {new : List BlockId}, (∀ b ∈ new, b ≠ id) →
        (new.Pairwise fun a b => rest.idxOf a < rest.idxOf b) →
        new.Pairwise fun a b => (id :: rest).idxOf a < (id :: rest).idxOf b := by
      intro new hne horder
      refine horder.imp_of_mem fun {a b} ha hb hlt => ?_
      rw [List.idxOf_cons_ne _ (hne a ha).symm, List.idxOf_cons_ne _ (hne b hb).symm]
      exact Nat.succ_lt_succ hlt
    unfold settleLoop
    split
    · rename_i hseen
      obtain ⟨new, hidle, hmem, horder⟩ := ih kv seen hid
      refine ⟨new, hidle, fun b hb => ⟨List.mem_cons_of_mem _ (hmem b hb).1, (hmem b hb).2⟩,
        hlater (fun b hb => ?_) horder⟩
      rintro rfl
      exact (hmem b hb).2 hseen
    · rename_i hseen
      obtain ⟨hblock, first, hfirst, hsub⟩ := settle_idle hid id
      obtain ⟨new, hidle, hmem, horder⟩ :=
        ih (kv.settle id) (id :: seen) (by rw [hblock]; exact hid)
      have hone : ∀ b ∈ first, b = id := fun b hb => List.mem_singleton.mp (hsub.subset hb)
      have hne : ∀ b ∈ new, b ≠ id := fun b hb heq => (hmem b hb).2 (heq ▸ List.mem_cons_self)
      refine ⟨first ++ new, by rw [hidle, hfirst, List.append_assoc], ?_, ?_⟩
      · intro b hb
        rcases List.mem_append.mp hb with hb | hb
        · obtain rfl := hone b hb
          exact ⟨List.mem_cons_self, hseen⟩
        · exact ⟨List.mem_cons_of_mem _ (hmem b hb).1,
            fun hc => (hmem b hb).2 (List.mem_cons_of_mem _ hc)⟩
      · refine List.pairwise_append.mpr ⟨(List.pairwise_singleton _ id).sublist hsub,
          hlater hne horder, fun a ha b hb => ?_⟩
        rw [hone a ha, List.idxOf_cons_self, List.idxOf_cons_ne _ (hne b hb).symm]
        exact Nat.succ_pos _

end KvBlocks

namespace KvHistory

variable {s : KvHistory} {call : KvCall}

/-- What holds between the calls. -/
structure Consistent (s : KvHistory) : Prop where
  inv : s.kv.Inv
  sized : 0 < s.kv.pool.blockSize
  /-- A failed allocation keeps its references for nobody; all others are held. -/
  refs : ∀ b, s.kv.pool.refCount b = s.held.count b + s.kv.pool.leaked.count b
  /-- The LRU is in the order in which its blocks became idle. -/
  order : s.kv.idle.Pairwise fun a b => s.idleSince a < s.idleSince b
  past : ∀ b ∈ s.kv.idle, (ofLex (s.idleSince b)).1 < s.calls

theorem init_consistent (maxBlocks : Nat) {blockSize : Nat} (hbs : 0 < blockSize) :
    (init maxBlocks blockSize).Consistent where
  inv := KvBlocks.init_inv maxBlocks blockSize
  sized := hbs
  refs _ := rfl
  order := .nil
  past := by simp [init, KvBlocks.idle, KvBlocks.init, BlockCache.empty]

section

variable (h : s.Consistent)
include h

/-- Held references are references. -/
theorem Consistent.count_le {table : BlockTable}
    (permitted : s.Permitted (.release table)) (b : BlockId) :
    table.count b ≤ s.kv.pool.refCount b := by
  rw [h.refs b]
  by_cases hb : b ∈ table
  · exact (permitted b hb).trans (Nat.le_add_right ..)
  · rw [List.count_eq_zero.mpr hb]
    exact Nat.zero_le _

/-- Each call keeps the invariant, and what a caller gains or gives back is what the
reference counts gain or lose. -/
theorem Consistent.perform (permitted : s.Permitted call) :
    (s.perform call).1.Inv ∧ KvBlocks.SameSize s.kv (s.perform call).1 ∧
    ∀ b, (s.perform call).1.pool.refCount b =
      (s.perform call).2.count b + (s.perform call).1.pool.leaked.count b := by
  -- All calls but publication are moves of references.
  have hmoves : ∀ {kv' : KvBlocks} {gain lose leak held' : BlockTable},
      KvBlocks.Moves s.kv kv' gain lose leak →
      (∀ b, held'.count b + lose.count b = s.held.count b + gain.count b) →
      kv'.Inv ∧ KvBlocks.SameSize s.kv kv' ∧
        ∀ b, kv'.pool.refCount b = held'.count b + kv'.pool.leaked.count b := by
    intro kv' gain lose leak held' hm hheld
    refine ⟨hm.inv, hm.size, fun b => ?_⟩
    have := hm.ref b
    have := hheld b
    have := h.refs b
    rw [hm.leaked, List.count_append]
    omega
  cases call with
  | allocate n =>
    rcases allocateKvBlocks_spec h.inv n with
      ⟨-, blocks, kv', heq, -, hm, -⟩ | ⟨-, leak, kv', heq, -, hm⟩
    · simp only [KvHistory.perform, heq]
      exact hmoves hm (by simp)
    · simp only [KvHistory.perform, heq]
      exact hmoves hm (by simp)
  | lookup tokens salt =>
    obtain ⟨_, _, _, heq, -, -, hm, -⟩ := lookupPrefixCache_spec h.inv tokens salt
    simp only [KvHistory.perform, heq]
    exact hmoves hm (by simp)
  | publish parentHash tokens _ seed =>
    obtain ⟨-, href, hnone⟩ := permitted
    obtain ⟨hinv, hpool, -⟩ := publishFullBlock_inv h.inv parentHash seed tokens hnone href
    refine ⟨hinv, ⟨by rw [KvHistory.perform, hpool], by rw [KvHistory.perform, hpool]⟩, fun b => ?_⟩
    simp only [KvHistory.perform, hpool]
    exact h.refs b
  | release table =>
    have hcount := h.count_le permitted
    refine hmoves (releaseRequestBlocks_spec h.inv table hcount).1 fun b => ?_
    have : table.count b ≤ s.held.count b := by
      by_cases hb : b ∈ table
      · exact permitted b hb
      · simp [List.count_eq_zero.mpr hb]
    show (s.held.diff table).count b + table.count b = s.held.count b + 0
    rw [List.count_diff]
    omega
  | evict =>
    rcases hidle : s.kv.cache.idleLru with _ | ⟨_, _⟩
    · have hsame : s.kv.evictOne = (false, s.kv) := by unfold evictOne; rw [hidle]
      simp only [KvHistory.perform, hsame]
      exact ⟨h.inv, .refl _, h.refs⟩
    · obtain ⟨_, heq, hinv, hsize, -, -, hleaked, href, -⟩ := evictOne_spec h.inv hidle
      simp only [KvHistory.perform, heq]
      exact ⟨hinv, hsize, fun b => by rw [href, hleaked]; exact h.refs b⟩

/-- Each call takes blocks out of the LRU without reordering it, and appends the blocks
that it makes idle. -/
theorem Consistent.idle (permitted : s.Permitted call) :
    ∃ kept new, (s.perform call).1.idle = kept ++ new ∧ kept.Sublist s.kv.idle ∧
      (∀ b ∈ new, b ∉ s.kv.idle) ∧ new.Pairwise fun a b => call.place a < call.place b := by
  have htaken : ∀ {kv' : KvBlocks}, kv'.cache.idleLru.Sublist s.kv.cache.idleLru →
      ∃ kept new, kv'.idle = kept ++ new ∧ kept.Sublist s.kv.idle ∧
        (∀ b ∈ new, b ∉ s.kv.idle) ∧ new.Pairwise fun a b => call.place a < call.place b :=
    fun {kv'} hsub => ⟨kv'.idle, [], by simp, hsub.map _, by simp, .nil⟩
  cases call with
  | allocate n =>
    refine htaken ?_
    have hsuffix := (allocateKvBlocks_quiet h.inv n).2
    rcases heq : s.kv.allocateKvBlocks n with ⟨_ | _, _⟩ <;>
    · rw [heq] at hsuffix
      simp only [KvHistory.perform, heq]
      exact hsuffix.sublist
  | lookup tokens salt =>
    exact htaken (lookupPrefixCache_asserts h.inv h.sized tokens salt).1
  | publish parentHash tokens _ seed =>
    refine htaken ?_
    obtain ⟨-, href, hnone⟩ := permitted
    rw [KvHistory.perform, (publishFullBlock_inv h.inv parentHash seed tokens hnone href).2.2.1]
  | release table =>
    obtain ⟨new, hidle, hmem, horder⟩ := settleLoop_idle table
      { s.kv with pool := s.kv.pool.releaseBlocks table } [] h.inv.cached_id
    refine ⟨s.kv.idle, new, hidle, .refl _, fun b hb hc => ?_, horder⟩
    -- A block of the table was held, so it was not idle.
    have hpos := List.count_pos_iff.mpr (hmem b hb).1
    have hzero := ((mem_idle_iff h.inv b).mp hc).2
    have := h.count_le permitted b
    omega
  | evict =>
    refine htaken ?_
    rcases hidle : s.kv.cache.idleLru with _ | ⟨e, rest⟩
    · have hsame : s.kv.evictOne = (false, s.kv) := by unfold evictOne; rw [hidle]
      simp only [KvHistory.perform, hsame, hidle]
      exact .refl _
    · obtain ⟨_, heq, -, -, hrest, -⟩ := evictOne_spec h.inv hidle
      simp only [KvHistory.perform, heq, hrest]
      exact List.sublist_cons_self e rest

/-- Every permitted call keeps it. -/
theorem Consistent.step (permitted : s.Permitted call) : (s.step call).Consistent := by
  obtain ⟨hinv, hsize, hrefs⟩ := h.perform permitted
  obtain ⟨kept, new, hidle, hsub, hnew, horder⟩ := h.idle permitted
  have hlru : (s.step call).kv.idle = kept ++ new := hidle
  have hkept : ∀ b ∈ kept, (s.step call).idleSince b = s.idleSince b := by
    intro b hb
    have hbefore := (isIdle_iff h.inv b).mpr (hsub.subset hb)
    simp [KvHistory.step, hbefore]
  have hadded : ∀ b ∈ new, (s.step call).idleSince b = toLex (s.calls, call.place b) := by
    intro b hb
    have hafter : (s.perform call).1.cache.isIdle b = true :=
      (isIdle_iff hinv b).mpr (by rw [hidle]; exact List.mem_append_right _ hb)
    have hbefore : s.kv.cache.isIdle b = false :=
      Bool.eq_false_iff.mpr fun hc => hnew b hb ((isIdle_iff h.inv b).mp hc)
    simp [KvHistory.step, hafter, hbefore]
  refine ⟨hinv, hsize.blockSize ▸ h.sized, hrefs, ?_, fun b hb => ?_⟩
  · rw [hlru]
    refine List.pairwise_append.mpr ⟨?_, ?_, fun a ha b hb => ?_⟩
    · refine (h.order.sublist hsub).imp_of_mem fun {a b} ha hb hlt => ?_
      rw [hkept a ha, hkept b hb]
      exact hlt
    · refine horder.imp_of_mem fun {a b} ha hb hlt => ?_
      rw [hadded a ha, hadded b hb]
      exact Prod.Lex.toLex_lt_toLex.mpr (.inr ⟨rfl, hlt⟩)
    · rw [hkept a ha, hadded b hb]
      exact Prod.Lex.lt_iff.mpr (.inl (h.past a (hsub.subset ha)))
  · rw [hlru] at hb
    rcases List.mem_append.mp hb with hb | hb
    · rw [hkept b hb]
      exact Nat.lt_succ_of_lt (h.past b (hsub.subset hb))
    · rw [hadded b hb]
      exact Nat.lt_succ_self _

/-- The front of the LRU has been idle longer than any other idle block, and it is the
block that `evict_one` recycles. -/
theorem Consistent.evictOne {b : BlockId} (hb : s.kv.cache.isIdle b = true) :
    ∃ victim, s.kv.evictOne.1 = true ∧ s.kv.cache.isIdle victim = true ∧
      s.kv.evictOne.2.pool.freeList = s.kv.pool.freeList ++ [victim] ∧
      s.kv.evictOne.2.cache.contains victim = false ∧
      ∀ b, s.kv.cache.isIdle b = true → b ≠ victim → s.idleSince victim < s.idleSince b := by
  have hmem := (KvBlocks.isIdle_iff h.inv b).mp hb
  rcases hidle : s.kv.cache.idleLru with _ | ⟨e, rest⟩
  · simp [KvBlocks.idle, hidle] at hmem
  · have hlist : s.kv.idle = e.blockId :: rest.map (·.blockId) := by simp [KvBlocks.idle, hidle]
    obtain ⟨_, heq, -, -, -, hfree, -, -, hblock⟩ := KvBlocks.evictOne_spec h.inv hidle
    refine ⟨e.blockId, by rw [heq], ?_, by rw [heq, hfree], ?_, fun b hb hne => ?_⟩
    · rw [KvBlocks.isIdle_iff h.inv, hlist]
      exact List.mem_cons_self
    · simp [heq, BlockCache.contains, hblock]
    · have horder := h.order
      rw [KvBlocks.isIdle_iff h.inv, hlist] at hb
      rw [hlist] at horder
      exact (List.pairwise_cons.mp horder).1 b ((List.mem_cons.mp hb).resolve_left hne)

/-- A call fails an assertion exactly when it is a lookup that is not warm. -/
theorem Consistent.step_failedAsserts (permitted : s.Permitted call) :
    (s.step call).failedAsserts = [] ↔ s.failedAsserts = [] ∧ s.Warm call := by
  have hquiet : ∀ {kv' : KvBlocks}, KvBlocks.Quiet s.kv kv' →
      (kv'.pool.failedAsserts ++ kv'.cache.failedAsserts = [] ↔ s.failedAsserts = [] ∧ True) := by
    intro kv' hq
    rw [hq.pool, hq.cache, and_true, failedAsserts]
  cases call with
  | allocate n =>
    have hq := (allocateKvBlocks_quiet h.inv n).1
    rcases heq : s.kv.allocateKvBlocks n with ⟨_ | _, _⟩ <;>
    · rw [heq] at hq
      simp only [failedAsserts, KvHistory.step, KvHistory.perform, heq]
      exact hquiet hq
  | lookup tokens salt =>
    obtain ⟨-, hcache, hpool⟩ := lookupPrefixCache_asserts h.inv h.sized tokens salt
    simp only [failedAsserts, KvHistory.step, KvHistory.perform, Warm, List.append_eq_nil_iff,
      hcache, hpool]
    tauto
  | publish parentHash _ _ seed =>
    obtain ⟨hfull, href, hnone⟩ := permitted
    exact hquiet (publishFullBlock_quiet h.inv h.sized parentHash seed hfull hnone href)
  | release =>
    exact hquiet (releaseRequestBlocks_quiet h.inv (h.count_le permitted))
  | evict => exact hquiet (evictOne_quiet h.inv)

end

/-! ### Whole sequences -/

/-- A sequence of permitted calls stays consistent, and its log is empty exactly when all
its lookups were warm. -/
theorem Consistent.after (calls : List KvCall) : ∀ {s : KvHistory}, s.Consistent → s.Permits calls →
      (s.after calls).Consistent ∧
      ((s.after calls).failedAsserts = [] ↔ s.failedAsserts = [] ∧ s.StaysWarm calls) := by
  induction calls with
  | nil => exact fun h _ => ⟨h, (and_iff_left trivial).symm⟩
  | cons _ _ ih =>
    intro s h hpermits
    obtain ⟨hcons, hlog⟩ := ih (h.step hpermits.1) hpermits.2
    refine ⟨hcons, hlog.trans ?_⟩
    rw [h.step_failedAsserts hpermits.1, and_assoc]
    rfl

/-- What holds of pool and cache after a sequence of calls. `Inv` is the representation
invariant of the lists, the indexes, the statuses and the counts. -/
structure Represented (s : KvHistory) : Prop where
  inv : s.kv.Inv
  free : ∀ b ∈ s.kv.pool.freeList, s.kv.pool.refCount b = 0 ∧ s.kv.cache.contains b = false
  idle_iff : ∀ b, s.kv.cache.contains b = true →
    (s.kv.cache.isIdle b = true ↔ s.kv.pool.refCount b = 0)
  refs : ∀ b, s.kv.pool.refCount b = s.held.count b + s.kv.pool.leaked.count b
  active : s.kv.stats.blockActive =
    ((List.range s.kv.pool.maxBlocks).filter fun b => 0 < s.kv.pool.refCount b).length
  /-- If any block is idle, `evict_one` recycles the one that became idle first. -/
  oldest : ∀ b, s.kv.cache.isIdle b = true →
    ∃ victim, s.kv.evictOne.1 = true ∧ s.kv.cache.isIdle victim = true ∧
      s.kv.evictOne.2.pool.freeList = s.kv.pool.freeList ++ [victim] ∧
      s.kv.evictOne.2.cache.contains victim = false ∧
      ∀ b, s.kv.cache.isIdle b = true → b ≠ victim → s.idleSince victim < s.idleSince b

/-- What consistency means for pool and cache. -/
theorem Consistent.represented (h : s.Consistent) : s.Represented where
  inv := h.inv
  free b hb := by
    have hstatus := ((h.inv.free_iff b).mp hb).2
    refine ⟨h.inv.free_ref b hstatus, Bool.eq_false_iff.mpr fun hc => ?_⟩
    obtain ⟨e, he⟩ := Option.isSome_iff_exists.mp hc
    rw [h.inv.cached_inUse b e he] at hstatus
    cases hstatus
  idle_iff b hb := by
    obtain ⟨e, he⟩ := Option.isSome_iff_exists.mp hb
    rw [isIdle_iff h.inv, mem_idle_iff h.inv]
    exact and_iff_right (h.inv.cached_inUse b e he)
  refs := h.refs
  active := blockActive_eq h.inv
  oldest _ hb := h.evictOne hb

/-- After any sequence of permitted calls on a new pool and an empty cache, the
representation invariant holds, `block_active` counts the referenced blocks and `evict_one`
picks the block that has been idle longest. No assertion has failed exactly when every
lookup had tokens and led to referenced blocks only. -/
theorem representation (maxBlocks : Nat) {blockSize : Nat} (hbs : 0 < blockSize)
    (calls : List KvCall) (permits : (init maxBlocks blockSize).Permits calls) :
    ((init maxBlocks blockSize).after calls).Represented ∧
    (((init maxBlocks blockSize).after calls).failedAsserts = [] ↔
      (init maxBlocks blockSize).StaysWarm calls) := by
  obtain ⟨hcons, hlog⟩ := Consistent.after calls (init_consistent maxBlocks hbs) permits
  exact ⟨hcons.represented, hlog.trans (and_iff_right rfl)⟩

/-- Two blocks are published, the second is held twice, both are released and one of them
is evicted. -/
def sharedPrefix : List KvCall :=
  [.allocate 2, .publish 0 [1, 2] 0 0, .publish 5 [3, 4] 1 0, .lookup [1, 2, 9] 0,
    .release [1, 0, 0], .evict, .allocate 3]

theorem representation_sharedPrefix : ((init 2 2).after sharedPrefix).Represented ∧
    (((init 2 2).after sharedPrefix).failedAsserts = [] ↔ (init 2 2).StaysWarm sharedPrefix) :=
  representation 2 (by decide) sharedPrefix (by decide)

/-- A block that was published and given back is idle. Looking it up again retains a block
without references, which `retain_request` asserts against. -/
theorem idle_hit_asserts :
    (init 1 2).Permits [.allocate 1, .publish 0 [1, 2] 0 0, .release [0], .lookup [1, 2] 0] ∧
    ((init 1 2).after
      [.allocate 1, .publish 0 [1, 2] 0 0, .release [0], .lookup [1, 2] 0]).failedAsserts =
        [.retainReferenced] := by
  decide

end KvHistory

end CcInfer
