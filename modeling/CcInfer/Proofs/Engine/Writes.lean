import CcInfer.Proofs.Engine.TableSizes
import CcInfer.Worker.Translate

/-!
# `CcInfer.Proofs.Engine.Writes`: items in flight and their blocks

An item in flight carries a copy of the block table of its sequence. Two facts make this
safe. The blocks of the copy stay in the table of the sequence and stay referenced until
the item is retired (`pinned`). And the positions that an item writes, if they are within its
table, lie in blocks that only its own sequence holds and that the cache does not know
(`Core.written_owned`), in slots that no other item in flight writes (`Core.slot_inj`).
-/

set_option autoImplicit false

namespace CcInfer

/-! ### Pinning -/

/-- Every block of the copied table is still in the table of the sequence, and in use. -/
theorem pinned {config : ValidConfig} {y : Sys} (h : Reachable config y) :
    ∀ item ∈ y.itemsInFlight, ∃ p ∈ y.sched.running, ∃ sc,
      (y.sched.heap p).scheduling = some sc ∧ sc.seqId = item.seqId ∧
      ∀ id ∈ item.blockTable, id ∈ sc.blockTable ∧ 1 ≤ y.sched.kv.pool.refCount id ∧
        y.sched.kv.pool.status id = .inUse := by
  obtain ⟨_, carries, -, core⟩ := h.core
  intro item hitem
  obtain ⟨f, hf, rfl⟩ := Sys.mem_itemsInFlight carries hitem
  obtain ⟨p, hp, sc, hsc, hseq⟩ := core.flights.owner core.positions hf
  refine ⟨p, hp, sc, hsc, hseq, fun id hid => ?_⟩
  have hmem : id ∈ sc.blockTable := ((core.geometry hsc).pinned f.item
    (List.mem_map_of_mem (Flights.mem_itemsOf.mpr ⟨hf, hseq.symm⟩))).subset hid
  have href : 0 < y.sched.kv.pool.refCount id :=
    core.ownership.ref_pos (core.scheduled_lt hsc) (by rwa [World.tableOf_of_some hsc])
  exact ⟨hmem, href, core.ownership.inv.inUse_of_ref href⟩

/-- A run that ends with a batch in flight, whose request was cancelled meanwhile. -/
def cancelledInFlight : Sys :=
  Sys.after ((EngineConfig.small 3 0).toValid EngineConfig.three_ok)
    (Label.submits [⟨"a", [1, 2, 3], {}, 6⟩] ++ Label.dispatch ++
      [.engine none, .engine none, .cancel "a"])

theorem pinned_cancelledInFlight :
    (cancelledInFlight.itemsInFlight.map WorkItem.blockTable = [[0, 1]] ∧
      (cancelledInFlight.sched.heap 0).status = .cancelled) ∧
    ∀ item ∈ cancelledInFlight.itemsInFlight, ∃ p ∈ cancelledInFlight.sched.running, ∃ sc,
      (cancelledInFlight.sched.heap p).scheduling = some sc ∧ sc.seqId = item.seqId ∧
      ∀ id ∈ item.blockTable, id ∈ sc.blockTable ∧ 1 ≤ cancelledInFlight.sched.kv.pool.refCount id ∧
        cancelledInFlight.sched.kv.pool.status id = .inUse :=
  ⟨by decide +kernel, pinned (Reachable.after _ _)⟩

/-! ### Written blocks -/

/-- The block that holds position `pos` of an item, as `translate` reads it. -/
def WorkItem.blockAt (item : WorkItem) (blockSize pos : Nat) : BlockId :=
  item.blockTable.getD (pos / blockSize) 0

theorem WorkItem.mem_writtenPositions {item : WorkItem} {pos : Nat} : pos ∈ item.writtenPositions ↔
      item.context ≤ pos ∧ pos < item.context + item.kvTokenCount := by
  simp [writtenPositions, List.mem_range'_1]

/-- A position that the item writes has its block in the table. -/
theorem WorkItem.Fits.index_lt {item : WorkItem} {blockSize pos : Nat}
    (h : item.Fits blockSize) (hpos : pos ∈ item.writtenPositions) :
    pos / blockSize < item.blockTable.length := by
  have hhigh := (mem_writtenPositions.mp hpos).2
  exact Nat.div_lt_of_lt_mul (by rw [Nat.mul_comm]; exact hhigh.trans_le h)

/-- A slot determines its block and its offset. -/
theorem slot_split {blockSize b b' offset offset' : Nat} (hlt : offset < blockSize)
    (hlt' : offset' < blockSize) (heq : b * blockSize + offset = b' * blockSize + offset') :
    b = b' ∧ offset = offset' := by
  have hbs := Nat.zero_lt_of_lt hlt
  have hdiv : ∀ c o, o < blockSize → (c * blockSize + o) / blockSize = c := fun c o ho => by
    rw [Nat.add_comm, Nat.add_mul_div_right _ _ hbs, Nat.div_eq_of_lt ho, Nat.zero_add]
  obtain rfl : b = b' := by rw [← hdiv b offset hlt, heq, hdiv b' offset' hlt']
  exact ⟨rfl, Nat.add_left_cancel heq⟩

namespace Core

variable {w : World} {f g : FlightItem} {p q : RequestPtr} {sc sc' : SequenceSchedulingState}
  {pos pos' : Nat}

section

variable (h : Core w) (hf : f ∈ w.flight) (hsc : (w.heap p).scheduling = some sc)
  (hseq : sc.seqId = f.seqId) (hfits : f.item.Fits w.config.kvBlockSize)
  (hpos : pos ∈ f.item.writtenPositions)
include h hf hsc hseq hfits hpos

/-- A written position lies in an unpublished block of the sequence, at the same index in
the copied table and in the table of the sequence. -/
theorem written_block : sc.firstPrivate w.config.kvBlockSize ≤ pos / w.config.kvBlockSize ∧
    ∃ hlt : pos / w.config.kvBlockSize < sc.blockTable.length,
      f.item.blockAt w.config.kvBlockSize pos =
        sc.blockTable.get ⟨pos / w.config.kvBlockSize, hlt⟩ := by
  have hbs := w.config.kvBlockSize_pos
  have hgeo := h.geometry hsc
  have hmem := item_mem hf hseq
  obtain ⟨_, _⟩ := WorkItem.mem_writtenPositions.mp hpos
  have habove := hgeo.above f.item hmem
  have hindex := hfits.index_lt hpos
  obtain ⟨_, htable⟩ := hgeo.pinned f.item hmem
  refine ⟨Nat.div_le_div_right (by omega), ?_, ?_⟩
  · rw [← htable, List.length_append]
    omega
  · simp [WorkItem.blockAt, ← htable, hindex]

/-- The block of a written position is not cached, and one table holds it, once. -/
theorem written_owned : w.kv.cache.byBlock (f.item.blockAt w.config.kvBlockSize pos) = none ∧
    f.item.blockAt w.config.kvBlockSize pos ∈ sc.blockTable ∧
    Tables.total w.tableOf w.nextPtr (f.item.blockAt w.config.kvBlockSize pos) ≤ 1 := by
  obtain ⟨hle, _, heq⟩ := h.written_block hf hsc hseq hfits hpos
  have hmem : f.item.blockAt w.config.kvBlockSize pos ∈
      sc.blockTable.drop (sc.firstPrivate w.config.kvBlockSize) := by
    rw [heq]
    exact List.mem_drop_iff_getElem.mpr
      ⟨pos / w.config.kvBlockSize - sc.firstPrivate w.config.kvBlockSize, by omega, by
        simp [Nat.add_sub_cancel' hle]⟩
  have hnone := h.ownership.unpublished p sc hsc _ hmem
  exact ⟨hnone, List.mem_of_mem_drop hmem, h.ownership.count_le_one hnone⟩

end

/-- A block with one owner is in the table of one request. -/
theorem owner_unique (h : Core w) {b : BlockId} (hb : Tables.total w.tableOf w.nextPtr b ≤ 1)
    (hsc : (w.heap p).scheduling = some sc) (hsc' : (w.heap q).scheduling = some sc')
    (hmem : b ∈ sc.blockTable) (hmem' : b ∈ sc'.blockTable) : p = q := by
  by_contra hne
  have htwo := Tables.count_add_count_le_total (f := w.tableOf) b (h.scheduled_lt hsc)
    (h.scheduled_lt hsc') hne
  rw [World.tableOf_of_some hsc, World.tableOf_of_some hsc'] at htwo
  have := List.count_pos_iff.mpr hmem
  have := List.count_pos_iff.mpr hmem'
  omega

/-- The slot of an unpublished position of a request is written by this request only, and for
this position only. -/
theorem written_slot (h : Core w) (hf : f ∈ w.flight)
    (hfits : f.item.Fits w.config.kvBlockSize) (hpos : pos ∈ f.item.writtenPositions)
    (hsc : (w.heap p).scheduling = some sc) {b : BlockId}
    (hle : sc.firstPrivate w.config.kvBlockSize ≤ pos' / w.config.kvBlockSize)
    (hb : sc.blockTable[pos' / w.config.kvBlockSize]? = some b)
    (heq : f.item.slotAt w.config.kvBlockSize pos =
      b * w.config.kvBlockSize + pos' % w.config.kvBlockSize) :
    sc.seqId = f.seqId ∧ pos = pos' := by
  have hbs := w.config.kvBlockSize_pos
  obtain ⟨_, -, sc', hsc', hseq'⟩ := h.flights.owner h.positions hf
  obtain ⟨hblock, hoffset⟩ : f.item.blockAt w.config.kvBlockSize pos = b ∧
      pos % w.config.kvBlockSize = pos' % w.config.kvBlockSize :=
    slot_split (Nat.mod_lt pos hbs) (Nat.mod_lt pos' hbs) heq
  obtain ⟨-, hmem', hone⟩ := h.written_owned hf hsc' hseq' hfits hpos
  rw [hblock] at hmem' hone
  obtain rfl := h.owner_unique hone hsc hsc' (List.mem_of_getElem? hb) hmem'
  obtain rfl : sc = sc' := by
    rw [hsc] at hsc'
    exact Option.some.inj hsc'
  refine ⟨hseq', ?_⟩
  -- the unpublished blocks of one table are distinct, so the indexes agree
  obtain ⟨hle', _, hat'⟩ := h.written_block hf hsc hseq' hfits hpos
  obtain ⟨_, hat⟩ := List.getElem?_eq_some_iff.mp hb
  have hnodup := h.ownership.unpublished_nodup (h.scheduled_lt hsc) hsc
  have hindex : pos / w.config.kvBlockSize = pos' / w.config.kvBlockSize := by
    have hdrop : pos / w.config.kvBlockSize - sc.firstPrivate w.config.kvBlockSize =
        pos' / w.config.kvBlockSize - sc.firstPrivate w.config.kvBlockSize := by
      have hi : pos / w.config.kvBlockSize - sc.firstPrivate w.config.kvBlockSize <
          (sc.blockTable.drop (sc.firstPrivate w.config.kvBlockSize)).length := by
        rw [List.length_drop]; omega
      have hj : pos' / w.config.kvBlockSize - sc.firstPrivate w.config.kvBlockSize <
          (sc.blockTable.drop (sc.firstPrivate w.config.kvBlockSize)).length := by
        rw [List.length_drop]; omega
      refine (List.Nodup.getElem_inj_iff hnodup).mp
        (show (sc.blockTable.drop _).get ⟨_, hi⟩ = (sc.blockTable.drop _).get ⟨_, hj⟩ from ?_)
      simp only [List.get_eq_getElem, List.getElem_drop, Nat.add_sub_cancel' hle,
        Nat.add_sub_cancel' hle']
      exact hat'.symm.trans (hblock.trans hat.symm)
    omega
  have := Nat.div_add_mod pos w.config.kvBlockSize
  have := Nat.div_add_mod pos' w.config.kvBlockSize
  rw [hindex, hoffset] at *
  omega

/-- Two written positions with the same slot are the same position of the same sequence. -/
theorem slot_inj (h : Core w) (hf : f ∈ w.flight) (hg : g ∈ w.flight)
    (hfits : f.item.Fits w.config.kvBlockSize) (hfits' : g.item.Fits w.config.kvBlockSize)
    (hpos : pos ∈ f.item.writtenPositions) (hpos' : pos' ∈ g.item.writtenPositions)
    (heq : f.item.slotAt w.config.kvBlockSize pos = g.item.slotAt w.config.kvBlockSize pos') :
    f.seqId = g.seqId ∧ pos = pos' := by
  obtain ⟨_, -, sc, hsc, hseq⟩ := h.flights.owner h.positions hg
  obtain ⟨hle, hlt, hat⟩ := h.written_block hg hsc hseq hfits' hpos'
  have hb : sc.blockTable[pos' / w.config.kvBlockSize]? =
      some (g.item.blockAt w.config.kvBlockSize pos') := by
    rw [hat, List.getElem?_eq_getElem hlt]
    rfl
  obtain ⟨hseq', rfl⟩ := h.written_slot hf hfits hpos hsc hle hb heq
  exact ⟨hseq'.symm.trans hseq, rfl⟩

/-- An item writes each of its slots once. -/
theorem writtenSlots_nodup (h : Core w) (hf : f ∈ w.flight)
    (hfits : f.item.Fits w.config.kvBlockSize) : (f.item.writtenSlots w.config.kvBlockSize).Nodup :=
  List.Nodup.map_on
    (fun _ hpos _ hpos' heq => (h.slot_inj hf hf hfits hfits hpos hpos' heq).2)
    List.nodup_range'

end Core

/-- A relation between the members of each class of a list, in the order of the list. -/
theorem pairwise_of_classes {α β : Type} [BEq β] [LawfulBEq β] {key : α → β}
    {R : α → α → Prop} {l : List α} (h : ∀ k, (l.filter (fun a => key a == k)).Pairwise R) :
    l.Pairwise fun a b => key a = key b → R a b := by
  induction l with
  | nil => exact .nil
  | cons a _ ih =>
    refine .cons (fun b hb heq => ?_) (ih fun k => ?_)
    · have := h (key a)
      rw [List.filter_cons_of_pos (by simp)] at this
      exact (List.pairwise_cons.mp this).1 b (List.mem_filter.mpr ⟨hb, by simp [heq]⟩)
    · have := h k
      rw [List.filter_cons] at this
      split at this
      · exact this.of_cons
      · exact this

/-- The slots that the items in flight write are pairwise distinct. -/
theorem Core.slots_nodup {w : World} (h : Core w)
    (hfits : ∀ f ∈ w.flight, f.item.Fits w.config.kvBlockSize) :
    (w.flight.flatMap fun f => f.item.writtenSlots w.config.kvBlockSize).Nodup := by
  refine List.nodup_flatMap.mpr ⟨fun f hf => h.writtenSlots_nodup hf (hfits f hf), ?_⟩
  · -- items of one sequence write disjoint ranges
    have hordered : w.flight.Pairwise fun f g => f.seqId = g.seqId →
        f.item.context + f.item.kvTokenCount ≤ g.item.context := by
      refine pairwise_of_classes fun seq => ?_
      rcases hitems : w.flight.filter (fun f => f.seqId == seq) with _ | ⟨f, _⟩
      · rw [hitems]
        exact .nil
      · rw [hitems]
        obtain ⟨hf, hseq⟩ := List.mem_filter.mp (hitems ▸ List.mem_cons_self : f ∈ _)
        obtain ⟨_, -, _, hsc, heq⟩ := h.flights.owner h.positions hf
        have hgeo := (h.geometry hsc).ordered
        rw [heq.trans (beq_iff_eq.mp hseq), World.itemsOf, hitems] at hgeo
        exact List.pairwise_map.mp hgeo
    refine (List.Pairwise.and_mem.mp hordered).imp ?_
    rintro f g ⟨hf, hg, hrange⟩ _ hslot hslot'
    obtain ⟨_, hpos, rfl⟩ := List.mem_map.mp hslot
    obtain ⟨_, hpos', heq⟩ := List.mem_map.mp hslot'
    obtain ⟨hseq, rfl⟩ := h.slot_inj hf hg (hfits f hf) (hfits g hg) hpos hpos' heq.symm
    have := hrange hseq
    rw [WorkItem.mem_writtenPositions] at hpos hpos'
    omega

/-- The block that `item` writes at `pos` belongs to its sequence alone. -/
structure Sys.WritesAlone (y : Sys) (item : WorkItem) (pos : Nat) : Prop where
  inside : pos / y.sched.config.kvBlockSize < item.blockTable.length
  ref : y.sched.kv.pool.refCount (item.blockAt y.sched.config.kvBlockSize pos) = 1
  uncached : y.sched.kv.cache.contains (item.blockAt y.sched.config.kvBlockSize pos) = false
  unlisted : ∀ e ∈ y.sched.kv.cache.entries,
    e.blockId ≠ item.blockAt y.sched.config.kvBlockSize pos
  owner : ∃ p ∈ y.sched.running, ∃ sc, (y.sched.heap p).scheduling = some sc ∧
    sc.seqId = item.seqId ∧ item.blockAt y.sched.config.kvBlockSize pos ∈ sc.blockTable ∧
    ∀ q sc', (y.sched.heap q).scheduling = some sc' →
      item.blockAt y.sched.config.kvBlockSize pos ∈ sc'.blockTable → q = p

/-- The slots of an item in flight are its own. -/
theorem Core.writesAlone {y : Sys} {fl : List FlightItem} (h : Core (World.of y.sched fl y.worker))
    {f : FlightItem} (hf : f ∈ fl) (hfits : f.item.Fits y.sched.config.kvBlockSize) {pos : Nat}
    (hpos : pos ∈ f.item.writtenPositions) : y.WritesAlone f.item pos := by
  obtain ⟨p, hp, sc, hsc, hseq⟩ := h.flights.owner h.positions hf
  obtain ⟨hnone, hmem, hone⟩ := h.written_owned hf hsc hseq hfits hpos
  have hnone : y.sched.kv.cache.byBlock (f.item.blockAt y.sched.config.kvBlockSize pos) = none :=
    hnone
  have hpos_ref := h.ownership.ref_pos (h.scheduled_lt hsc) (by
    rw [World.tableOf_of_some hsc]; exact hmem)
  have hle := h.ownership.inv.uncached_ref _ hnone
  refine ⟨hfits.index_lt hpos, Nat.le_antisymm hle hpos_ref,
    by rw [BlockCache.contains, hnone]; rfl, ?_, ?_⟩
  · intro e he heq
    have hcached := (h.ownership.inv.entries_iff e).mp he
    rw [heq, show (World.of y.sched fl y.worker).kv.cache.byBlock _ = none from hnone] at hcached
    cases hcached
  · exact ⟨p, hp, sc, hsc, hseq, hmem, fun q sc' hsc' hq => h.owner_unique hone hsc' hsc hq hmem⟩

/-- The slots that the batches in flight are mapped to; a decode that writes nothing has the slot
`-1`. -/
def Sys.slotsInFlight (y : Sys) (activeStateOf : Option (SequenceId → Option Nat)) : List Int :=
  (y.pipeline.flatMap fun b => (translate y.sched.config.kvBlockSize activeStateOf
    b.batch.items).slotMapping).filter (fun slot => 0 ≤ slot)

/-- They are the slots of the positions that the items write. -/
theorem Sys.slotsInFlight_eq (y : Sys) (activeStateOf : Option (SequenceId → Option Nat)) :
    y.slotsInFlight activeStateOf =
      (y.itemsInFlight.flatMap (·.writtenSlots y.sched.config.kvBlockSize)).map Int.ofNat := by
  simp only [slotsInFlight, List.filter_flatMap, translate_slots, itemsInFlight,
    List.map_flatMap, List.flatMap_assoc]

/-- In every reachable state, the positions that an item in flight writes are all in blocks that
its own sequence holds alone and that are not cached, exactly if its request is covered. If they
all are, no slot is mapped to two positions in flight, and every slot is one of the pool. -/
theorem writes_isolated {config : ValidConfig} {y : Sys} (h : Reachable config y)
    (activeStateOf : Option (SequenceId → Option Nat)) : (∀ item ∈ y.itemsInFlight,
      (∀ pos ∈ item.writtenPositions, y.WritesAlone item pos) ↔ y.Covered item) ∧
    ((∀ item ∈ y.itemsInFlight, y.Covered item) → (y.slotsInFlight activeStateOf).Nodup ∧
      ∀ slot ∈ y.slotsInFlight activeStateOf, slot < config.maxBlocks * config.kvBlockSize) := by
  obtain ⟨fls, carries, run, core⟩ := h.core
  have hconfig : y.sched.config = config := run.config_eq
  have hitems : y.itemsInFlight = fls.flatten.map (·.item) := Carries.items_flatMap carries
  have halone : ∀ item ∈ y.itemsInFlight, y.Covered item →
      ∀ pos ∈ item.writtenPositions, y.WritesAlone item pos := by
    intro item hitem covered pos hpos
    have hfits := ((h.tabled hitem).covers covered).2
    rw [hitems] at hitem
    obtain ⟨_, hf, rfl⟩ := List.mem_map.mp hitem
    exact core.writesAlone hf hfits hpos
  refine ⟨fun item hitem => ⟨fun alone => ?_, halone item hitem⟩, fun covered => ?_⟩
  · -- the first position of an item that is not covered is behind the end of its table
    by_contra hnot
    obtain ⟨hpos, _⟩ := (h.tabled hitem).short hnot
    have hinside := (alone item.context
      (WorkItem.mem_writtenPositions.mpr ⟨le_rfl, Nat.lt_add_of_pos_right hpos⟩)).inside
    rw [Nat.div_lt_iff_lt_mul y.sched.config.kvBlockSize_pos] at hinside
    omega
  · rw [y.slotsInFlight_eq]
    refine ⟨List.Nodup.map (fun _ _ => Int.ofNat.inj) ?_, fun slot hslot => ?_⟩
    · rw [hitems, List.flatMap_map]
      refine core.slots_nodup fun f hf => ?_
      have hitem : f.item ∈ y.itemsInFlight := hitems ▸ List.mem_map_of_mem hf
      exact ((h.tabled hitem).covers (covered f.item hitem)).2
    · obtain ⟨_, hn, rfl⟩ := List.mem_map.mp hslot
      obtain ⟨item, hitem, hn⟩ := List.mem_flatMap.mp hn
      obtain ⟨pos, hpos, rfl⟩ := List.mem_map.mp hn
      have halone := halone item hitem (covered item hitem) pos hpos
      have hinUse := core.ownership.inv.inUse_of_ref (by
        rw [show (World.of y.sched fls.flatten y.worker).kv.pool.refCount _ = 1 from halone.ref]
        exact Nat.one_pos)
      have hlt : item.blockAt y.sched.config.kvBlockSize pos < config.maxBlocks := by
        have := core.ownership.inv.lt_of_inUse hinUse
        rwa [core.ownership.maxBlocks, show (World.of y.sched fls.flatten y.worker).config = config
          from hconfig] at this
      have hoffset := Nat.mod_lt pos y.sched.config.kvBlockSize_pos
      rw [← hconfig] at hlt ⊢
      have hbound : item.slotAt y.sched.config.kvBlockSize pos <
          y.sched.config.maxBlocks * y.sched.config.kvBlockSize :=
        calc item.slotAt y.sched.config.kvBlockSize pos
            < (item.blockAt y.sched.config.kvBlockSize pos + 1) * y.sched.config.kvBlockSize := by
              rw [Nat.succ_mul]
              exact Nat.add_lt_add_left hoffset _
          _ ≤ y.sched.config.maxBlocks * y.sched.config.kvBlockSize := Nat.mul_le_mul_right _ hlt
      exact Int.ofNat_lt.mpr hbound

/-- A run that ends with a decode in flight that shares the first block of its prompt with
another request. -/
def sharedPrefix : Sys :=
  Sys.after ((EngineConfig.small 4 0).toValid EngineConfig.four_ok)
    (Label.submits [⟨"a", [1, 2, 3], {}, 6⟩] ++ Label.dispatch ++
      [.engine none, .engine none, .submit ⟨"b", [1, 2, 7], {}, 6⟩, .work true (.sampled [4]),
        .engine none] ++ Label.dispatch)

theorem writes_isolated_sharedPrefix :
    (sharedPrefix.itemsInFlight.map WorkItem.blockTable = [[0, 1], [0, 2]] ∧
      sharedPrefix.itemsInFlight.map WorkItem.writtenPositions = [[3], [2]] ∧
      sharedPrefix.slotsInFlight none = [3, 4]) ∧ (∀ item ∈ sharedPrefix.itemsInFlight,
      (∀ pos ∈ item.writtenPositions, sharedPrefix.WritesAlone item pos) ↔
        sharedPrefix.Covered item) ∧
    ((∀ item ∈ sharedPrefix.itemsInFlight, sharedPrefix.Covered item) →
      (sharedPrefix.slotsInFlight none).Nodup ∧
      ∀ slot ∈ sharedPrefix.slotsInFlight none, slot < 4 * 2) :=
  ⟨by decide +kernel, writes_isolated (Reachable.after _ _) none⟩

/-- Two positions are to be written, and there is no block for either of them. -/
theorem wrappedCount_writes_outside :
    wrappedCount.itemsInFlight.map (fun i => (i.blockTable, i.writtenPositions)) = [([], [0, 1])] ∧
    ∀ item ∈ wrappedCount.itemsInFlight, ∀ pos ∈ item.writtenPositions,
      ¬ wrappedCount.WritesAlone item pos := by
  have htables : ∀ item ∈ wrappedCount.itemsInFlight, item.blockTable = [] := by decide +kernel
  refine ⟨by decide +kernel, fun item hitem pos _ alone => ?_⟩
  have hinside := alone.inside
  rw [htables item hitem] at hinside
  exact Nat.not_lt_zero _ hinside

end CcInfer
