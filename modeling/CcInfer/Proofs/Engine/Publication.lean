import CcInfer.Invariant.Tail
import CcInfer.Proofs.Engine.Gapless

/-!
# `CcInfer.Proofs.Engine.Publication`: what is published for an active request

`retire_work` appends the tokens of an item to `pending_hash_tokens` and publishes the full
blocks among them, but only after its early return for a chunk that ends inside the prompt. So
the chain hashes of a request stand for its executed tokens as long as its prompt was not cut
into several chunks.
-/

set_option autoImplicit false

namespace CcInfer

namespace Core

variable {w w' : World} {p q : RequestPtr} {sc sc' : SequenceSchedulingState}

/-- A block in two tables has two references. -/
theorem two_tables_le (h : Core w) (hne : p ≠ q) (hp : p < w.nextPtr) (hq : q < w.nextPtr)
    (b : BlockId) : (w.tableOf p).count b + (w.tableOf q).count b ≤ w.kv.pool.refCount b := by
  have htwo := Tables.count_add_count_le_total (f := w.tableOf) b hp hq hne
  have href := h.ownership.ref b
  omega

/-- The entries of the blocks in a table stay, as long as the request keeps its table. -/
theorem entries_kept (h : Core w) (t : World.Step w w') (hsc : w.Scheduled p sc)
    (hsc' : w'.Scheduled p sc') {b : BlockId} (hb : b ∈ sc.blockTable) {e : BlockCacheEntry}
    (he : w.kv.cache.byBlock b = some e) : w'.kv.cache.byBlock b = some e := by
  have hp := h.scheduled_lt hsc
  have hmem : b ∈ w.tableOf p := by rwa [World.tableOf_of_some hsc]
  have href := h.ownership.ref_pos hp hmem
  have hcount := List.count_pos_iff.mpr hmem
  cases t with
  | blocks kv obs leak moves | grow q sc kv obs blocks running scheduled active phase moves
    | admission q rest kv hits parent blocks obs front admissible hashes cached moves =>
    exact moves.kept b e he (by simpa using href)
  | park q _ _ scheduled _ _ moves =>
    rcases eq_or_ne p q with rfl | hne
    · simp [World.Scheduled, RequestState.parked] at hsc'
    · have htwo := h.two_tables_le hne hp (h.scheduled_lt scheduled) b
      rw [World.tableOf_of_some scheduled] at htwo
      exact moves.kept b e he (by omega)
  | drop q _ _ live _ _ _ moves =>
    rcases eq_or_ne p q with rfl | hne
    · simp [World.Scheduled] at hsc'
    · have htwo := h.two_tables_le hne hp (h.positions.allocated q live) b
      exact moves.kept b e he (by omega)
  | retire _ item _ _ _ _ advanced written _ front _ scheduled seq active settles =>
    rcases Nat.eq_zero_or_pos item.kvTokenCount with hzero | hpos
    · have hsame : w.kv.publishItem advanced item written = (w.kv, advanced, []) := by
        simp [KvBlocks.publishItem, hzero]
      simpa only [World.settled, hsame] using he
    · obtain ⟨-, _, -, -, -, hkept, -⟩ :=
        h.ownership.publishItem (h.scheduled_lt scheduled) scheduled
        active (h.front_geometry front scheduled seq)
        (h.done_fits (front ▸ List.mem_cons_self) rfl) settles hpos
      exact hkept b e he
  | _ => exact he

end Core

/-! ### Chunks in the log -/

theorem mem_dispatchedItems {seq : SequenceId} {log : List Obs} {item : WorkItem} :
    item ∈ dispatchedItems seq log ↔ .dispatched item ∈ log ∧ item.seqId = seq := by
  simp only [dispatchedItems, List.mem_filter, List.mem_filterMap, beq_iff_eq]
  refine and_congr_left fun _ => ⟨?_, fun h => ⟨_, h, rfl⟩⟩
  rintro ⟨o, ho, hitem⟩
  cases o <;> cases hitem
  exact ho

/-- A chunk reaches the end of a prompt of length `promptLen`. -/
def WorkItem.Finishes (promptLen : Nat) : WorkItem → Prop
  | .prefill chunk => promptLen ≤ chunk.promptSpan.start + chunk.promptSpan.length
  | .decode _ => True

instance (promptLen : Nat) : DecidablePred (WorkItem.Finishes promptLen)
  | .prefill _ => inferInstanceAs (Decidable (_ ≤ _))
  | .decode _ => inferInstanceAs (Decidable True)

/-- No chunk of the sequence that ends before the end of the prompt was dispatched. -/
def Unchunked (seq : SequenceId) (log : List Obs) (promptLen : Nat) : Prop :=
  ∀ item ∈ dispatchedItems seq log, item.Finishes promptLen

instance (seq : SequenceId) (log : List Obs) (promptLen : Nat) :
    Decidable (Unchunked seq log promptLen) :=
  inferInstanceAs (Decidable (∀ item ∈ _, _))

theorem Unchunked.of_append {seq : SequenceId} {log obs : List Obs} {promptLen : Nat}
    (h : Unchunked seq (log ++ obs) promptLen) : Unchunked seq log promptLen := fun item hitem =>
  h item (by rw [dispatchedItems_append]; exact List.mem_append_left _ hitem)

/-! ### The published blocks of a request -/

/-- The hashed tokens of the scheduling state start behind its prefix hits, and the blocks
below its pending tokens are cached under the chain hashes of its tokens. -/
structure World.Chained (w : World) (p : RequestPtr) (sc : SequenceSchedulingState) : Prop where
  base : sc.base w.config.kvBlockSize (w.logOf p) = sc.hitBlocks * w.config.kvBlockSize
  cached : ∀ i < sc.cut / w.config.kvBlockSize, ∃ id, sc.blockTable[i]? = some id ∧
    w.kv.cache.byBlock id = some ⟨PrefixCache.hashBlock 0
      (((w.heap p).tokens sc).take ((i + 1) * w.config.kvBlockSize)), id⟩

/-- Every active request under a plain scheduling state is chained, unless its prompt was cut
into several chunks. -/
def World.Chains (w : World) : Prop :=
  ∀ p sc, w.Scheduled p sc → (w.heap p).status = .active → sc.Plain →
    Unchunked sc.seqId w.trace (w.heap p).promptTokens.length → w.Chained p sc

/-- A block that the retirement of an item completes is cached under the chain hash of the tokens
up to its end. -/
theorem World.Retirement.entry {w : World} {p : RequestPtr} (r : w.Retirement p) (core : Core w)
    (h : w.Settling r.after p r.item r.written r.token r.sc r.sc')
    (base : r.sc.base w.config.kvBlockSize (w.logOf p) = r.sc.hitBlocks * w.config.kvBlockSize)
    (wrote : 0 < r.item.kvTokenCount) {i : Nat} (new : r.sc.cut / w.config.kvBlockSize ≤ i)
    (full : (i + 1) * w.config.kvBlockSize ≤ r.sc'.cut) : ∃ id, r.sc.blockTable[i]? = some id ∧
      r.after.kv.cache.byBlock id = some ⟨PrefixCache.hashBlock 0
        (((w.heap p).tokens r.sc).take ((i + 1) * w.config.kvBlockSize)), id⟩ := by
  have geometry := r.geometry core
  have hbs := w.config.kvBlockSize_pos
  have hbefore := h.before
  rw [base] at hbefore
  obtain ⟨-, _, -, -, -, -, hhashed⟩ := core.ownership.publishItem (core.scheduled_lt r.scheduled)
    r.scheduled r.active geometry (r.fits core) r.settles wrote
  have hpending : r.sc'.pendingHashTokens =
      (w.kv.publishItem r.advanced r.item r.written).2.1.pendingHashTokens := by
    simp only [SequenceSchedulingState.leaveBootstrap_frame]
  -- block `i` is number `j` of those that are published now
  obtain ⟨j, rfl⟩ := Nat.exists_eq_add_of_le new
  have hcut : r.sc.cut / w.config.kvBlockSize * w.config.kvBlockSize = r.sc.cut := by
    refine Nat.div_mul_cancel ?_
    rw [hbefore.cut_of_dvd (Nat.dvd_mul_left ..)]
    exact Nat.dvd_mul_left ..
  have hstop : (r.sc.cut / w.config.kvBlockSize + j + 1) * w.config.kvBlockSize =
      r.sc.cut + (j + 1) * w.config.kvBlockSize := by
    rw [Nat.add_assoc, Nat.add_mul, hcut]
  have hend : r.sc'.cut = ((w.heap p).tokens r.sc).length - r.sc'.pendingHashTokens.length := by
    rw [SequenceSchedulingState.cut, h.filled]
  rw [h.wrote wrote, r.settles.parentHash, hbefore.parent_eq, ← hpending,
    List.length_drop] at hhashed
  have hentry := hhashed j (by omega)
  have hlt : r.sc.cut / w.config.kvBlockSize + j < r.sc.blockTable.length := by
    have hfits := (r.fits core).trans (Nat.mul_le_mul_right
      w.config.kvBlockSize (geometry.pinned r.item List.mem_cons_self).length_le)
    have hcontext : r.item.context = r.sc.executedFrontier := (geometry.consecutive r.active).1
    have hfilled := h.filled
    rw [h.frontier] at hfilled
    refine Nat.lt_of_succ_le (Nat.le_of_mul_le_mul_right ?_ hbs)
    rw [Nat.succ_eq_add_one, hstop]
    omega
  refine ⟨r.sc.blockTable[r.sc.cut / w.config.kvBlockSize + j], List.getElem?_eq_getElem hlt, ?_⟩
  rw [hstop, List.take_add, PrefixCache.hashBlock_append]
  rw [show r.sc.firstPrivate w.config.kvBlockSize = r.sc.cut / w.config.kvBlockSize from rfl,
    List.getD_eq_getElem?_getD, List.getElem?_eq_getElem hlt] at hentry
  exact hentry

namespace World.Chains

variable {w w' : World} {p : RequestPtr} {sc sc' : SequenceSchedulingState}
variable {obs : List Obs} {config : ValidConfig}

section

variable (h : w.Chains) (core : Core w) (t : World.Step w w')
include h core t

/-- A transaction under which the request keeps what it has hashed. -/
theorem same (hsc : w.Scheduled p sc)
    (active : (w.heap p).status = .active) (same : SameChain (w.heap p) sc (w'.heap p) sc')
    (log : lastChunk (w'.logOf p) = lastChunk (w.logOf p)) (hsc' : w'.Scheduled p sc')
    (plain : sc'.Plain)
    (whole : Unchunked sc'.seqId w'.trace (w'.heap p).promptTokens.length) : w'.Chained p sc' := by
  obtain ⟨_, htrace, -⟩ := t.logs
  rw [SequenceSchedulingState.Plain, same.admittedGenerated, same.hitBlocks] at plain
  rw [same.seqId, same.prompt, htrace] at whole
  obtain ⟨base, cached⟩ := h p sc hsc active plain whole.of_append
  refine ⟨?_, fun i hi => ?_⟩
  · rw [t.config_eq]
    simp only [SequenceSchedulingState.base, same.phase, log, same.hitBlocks,
      same.frontier] at base ⊢
    exact base
  · rw [same.cut, t.config_eq] at hi
    obtain ⟨id, hid, hentry⟩ := cached i hi
    obtain ⟨hlt, -⟩ := List.getElem?_eq_some_iff.mp hid
    obtain ⟨_, htable⟩ := same.table
    refine ⟨id, by rw [← htable, List.getElem?_append_left hlt, hid], ?_⟩
    rw [same.tokens, t.config_eq]
    exact core.entries_kept t hsc hsc' (List.mem_of_getElem? hid) hentry

/-- A transaction that touches one request at most, and leaves what this has hashed or takes
its scheduling state away. -/
theorem touched {q : RequestPtr} {st : RequestState} (heap : w'.heap = Function.update w.heap q st)
    (trace : w'.trace = w.trace ++ obs) (quiet : ∀ o ∈ obs, ∀ start, o.lastChunk start = start)
    (same : ∀ sc', st.scheduling = some sc' → st.status = .active →
      ∃ sc, w.Scheduled q sc ∧ (w.heap q).status = .active ∧ SameChain (w.heap q) sc st sc') :
    w'.Chains := by
  intro p sc' hsc' active plain whole
  have hlog : lastChunk (w'.logOf p) = lastChunk (w.logOf p) := by
    rw [World.logOf, trace, List.filter_append]
    exact lastChunk_quiet _ fun o ho => quiet o (List.mem_of_mem_filter ho)
  obtain ⟨_, hsc, hactive, hsame⟩ := SameChain.of_touched heap same hsc' active
  exact h.same core t hsc hactive hsame hlog hsc' plain whole

/-- A transaction that touches no request. -/
theorem untouched (heap : w'.heap = w.heap) (trace : w'.trace = w.trace ++ obs)
    (quiet : ∀ o ∈ obs, ∀ start, o.lastChunk start = start) : w'.Chains :=
  h.touched core t (q := 0) (heap.trans (Function.update_eq_self 0 w.heap).symm) trace quiet
    fun sc hsc active => ⟨sc, hsc, active, .refl _ _⟩

/-- Another request than the one whose transaction it is. -/
theorem other (heap : w'.heap p = w.heap p)
    (trace : w'.trace = w.trace ++ obs) (others : ∀ o ∈ obs, o.about p = false)
    (hsc' : w'.Scheduled p sc') (active : (w'.heap p).status = .active) (plain : sc'.Plain)
    (whole : Unchunked sc'.seqId w'.trace (w'.heap p).promptTokens.length) : w'.Chained p sc' := by
  have hlog : w'.logOf p = w.logOf p := by
    rw [World.logOf, trace, List.filter_append,
      List.filter_eq_nil_iff.mpr fun o ho => Bool.eq_false_iff.mp (others o ho), List.append_nil]
    rfl
  have hsc : w.Scheduled p sc' := by
    rw [World.Scheduled, ← heap]
    exact hsc'
  refine h.same core t hsc (by rw [← heap]; exact active) ?_ (by rw [hlog]) hsc' plain whole
  rw [heap]
  exact .refl _ _

end

/-- A new scheduling state has its prefix hits cached. -/
theorem admitted {hits : List BlockCacheEntry} {parent : Hash} {blocks : BlockTable}
    {seq : SequenceId} {blockSize : Nat} (size : blockSize = w'.config.kvBlockSize)
    (heap : w'.heap p = { w.heap p with scheduling := some ((w.heap p).admitScheduling
      blockSize seq ⟨hits.map (·.blockId) ++ blocks, hits.length, parent⟩) })
    (hashes : hits.map (·.prefixHash) <+:
      PrefixCache.chainHashes (w.heap p).promptTokens blockSize 0)
    (held : ∀ e ∈ hits, w'.kv.cache.byBlock e.blockId = some e)
    (prompt_pos : 0 < (w.heap p).promptTokens.length) (hsc' : w'.Scheduled p sc')
    (plain : sc'.Plain) : w'.Chained p sc' := by
  subst size
  have hbs := w'.config.kvBlockSize_pos
  have hle : hits.length ≤ (w.heap p).promptTokens.length / w'.config.kvBlockSize := by
    simpa using hashes.length_le
  have htokens : ∀ sc, sc.admittedGenerated = (w.heap p).generatedTokens.length →
      (w'.heap p).tokens sc = (w.heap p).promptTokens := fun sc hadmitted => by
    simp [RequestState.tokens, RequestState.stream, heap, hadmitted]
  rw [World.Scheduled, heap, Option.some.injEq] at hsc'
  subst hsc'
  refine ⟨View.Tailed.base_admitted ((Nat.le_div_iff_mul_le hbs).mp hle) plain prompt_pos,
    fun i hi => ?_⟩
  have hi : i < hits.length := by
    simpa [SequenceSchedulingState.cut, RequestState.admitScheduling, hbs] using hi
  -- the hash of hit `i` is chain hash `i` of the prompt
  have hhash := List.prefix_iff_getElem?.mp hashes i (by rwa [List.length_map])
  rw [PrefixCache.chainHashes_getElem?, if_pos (hi.trans_le hle), List.getElem_map,
    Option.some.injEq] at hhash
  refine ⟨hits[i].blockId, ?_, ?_⟩
  · simp only [RequestState.admitScheduling]
    rw [List.getElem?_append_left (by rwa [List.length_map]), List.getElem?_map,
      List.getElem?_eq_getElem hi, Option.map_some]
  · rw [held hits[i] (List.getElem_mem hi), htokens _ rfl, hhash]

/-- The publication of a retired item extends the cached blocks of its request. -/
theorem settled (h : w.Chains) (run : World.Run (World.init config) w) (r : w.Retirement p)
    (plain : r.sc'.Plain)
    (whole : Unchunked r.sc'.seqId r.after.trace (w.heap p).promptTokens.length) :
    r.after.Chained p r.sc' := by
  have core := run.core
  have settling := run.settling r plain
  have same := settling.same
  rw [same.seqId] at whole
  obtain ⟨hbase, hcached⟩ := h p r.sc r.scheduled r.active settling.plain whole.of_append
  have hbefore := settling.before
  have hafter := settling.after
  rw [hbase] at hbefore hafter
  refine ⟨?_, fun i hi => ?_⟩
  · rw [same.hitBlocks]
    exact settling.base.trans hbase
  · -- the first blocks were cached before, the others are published now
    have hcut' : (i + 1) * w.config.kvBlockSize ≤ r.sc'.cut :=
      (Nat.mul_le_mul_right _ hi).trans (Nat.div_mul_le_self ..)
    have hend : r.sc'.cut ≤ ((w.heap p).tokens r.sc).length := by
      rw [← settling.filled]
      exact Nat.sub_le ..
    have htake : ((r.after.heap p).tokens r.sc').take ((i + 1) * w.config.kvBlockSize) =
        ((w.heap p).tokens r.sc).take ((i + 1) * w.config.kvBlockSize) := by
      rw [settling.tokens, List.take_append_of_le_length (hcut'.trans hend)]
    rw [show r.after.config = w.config from rfl, htake, same.blockTable]
    rcases Nat.lt_or_ge i (r.sc.cut / w.config.kvBlockSize) with hold | hnew
    · obtain ⟨id, hid, hentry⟩ := hcached i hold
      exact ⟨id, hid, core.entries_kept r.step r.scheduled r.scheduled_after
        (List.mem_of_getElem? hid) hentry⟩
    · have hpos : 0 < r.item.kvTokenCount := by
        by_contra hzero
        rw [settling.idle (Nat.eq_zero_of_not_pos hzero)] at hi
        exact absurd hi (Nat.not_lt.mpr hnew)
      exact r.entry core settling hbase hpos hnew hcut'

/-- A request whose chunks all reach the end of its prompt retires no other chunk. -/
theorem not_more (run : World.Run (World.init config) w)
    {rest : List FlightItem} {chunk : PrefillChunk} {sampling : SamplingParams} {token : Token}
    (front : w.flight = ⟨.prefill chunk, sampling, .done token⟩ :: rest)
    (scheduled : w.Scheduled p sc) (seq : sc.seqId = chunk.seqId)
    (active : (w.heap p).status = .active) (plain : sc.Plain)
    (whole : Unchunked sc.seqId w.trace (w.heap p).promptTokens.length) :
    (w.heap p).promptTokens.length ≤ sc.cursor.prefillCursor + chunk.promptSpan.length := by
  have core := run.core
  have hflight : ⟨.prefill chunk, sampling, .done token⟩ ∈ w.flight := by
    rw [front]
    exact List.mem_cons_self
  have hend : (w.heap p).promptTokens.length ≤
      chunk.promptSpan.start + chunk.promptSpan.length :=
    whole (.prefill chunk) (mem_dispatchedItems.mpr ⟨run.flight_logged _ hflight, seq.symm⟩)
  have geometry := core.front_geometry front scheduled seq
  -- the chunk starts at the frontier, which is where the prefill cursor stands
  have hstart := (geometry.spans chunk List.mem_cons_self).2.1
  have hcontext : (WorkItem.prefill chunk).context = sc.executedFrontier :=
    (geometry.consecutive active).1
  have hphase := (run.flowing scheduled active plain).filling
    (World.view_items_front front scheduled seq)
  have hcursor := (geometry.prefill active (by rw [hphase]; rfl)).1
  omega

/-- Every transaction keeps the published blocks of all requests. -/
theorem step (h : w.Chains) (run : World.Run (World.init config) w)
    (t : World.Step w w') : w'.Chains := by
  have core := run.core
  have hsize := core.ownership.blockSize
  have halloc : ∀ {obs : List Obs} {leak : BlockTable}, AllocLog obs leak →
      ∀ o ∈ obs, ∀ start, o.lastChunk start = start := by
    intro obs leak logged
    cases logged <;> simp [Obs.lastChunk]
  have t₀ := t
  cases t with
  | note o quiet =>
    obtain ⟨_, _, rfl⟩ := quiet
    exact h.untouched core t₀ rfl rfl (by simp [Obs.lastChunk])
  | close | reorder | resume | preempt | process | skipStale | processFail =>
    exact h.untouched core t₀ rfl (List.append_nil _).symm (by simp)
  | register | cancel | finish | fail | park =>
    refine h.touched core t₀ rfl rfl (by simp [Obs.lastChunk]) fun _ hsc hactive => ?_
    first | cases hsc | cases hactive
  | expire =>
    exact h.touched core t₀ rfl (List.append_nil _).symm (by simp)
      fun sc' hsc' active => ⟨sc', hsc', active, rfl, rfl, rfl, rfl, rfl, rfl, rfl, rfl,
        List.prefix_rfl⟩
  | blocks _ _ _ _ logged => exact h.untouched core t₀ rfl rfl (halloc logged)
  | grow _ sc _ _ _ _ scheduled active _ _ _ logged =>
    refine h.touched core t₀ rfl rfl (halloc logged) ?_
    rintro _ ⟨⟩ -
    exact ⟨sc, scheduled, active, rfl, rfl, rfl, rfl, rfl, rfl, rfl, rfl, List.prefix_append _ _⟩
  | dispatch _ sc _ _ _ scheduled active =>
    refine h.touched core t₀ rfl rfl (by simp [Obs.lastChunk]) ?_
    rintro _ ⟨⟩ -
    exact ⟨sc, scheduled, active, rfl, rfl, rfl, rfl, rfl, rfl, rfl, rfl, List.prefix_rfl⟩
  | admission q _ _ _ _ _ _ _ admissible hashes _ _ _ _ logged _ _ held =>
    intro p sc' hsc' active plain whole
    rcases eq_or_ne p q with rfl | hne
    · exact admitted hsize (Function.update_self ..) hashes held admissible.prompt_pos hsc' plain
    · refine h.other core t₀ (Function.update_of_ne hne ..) rfl (fun o ho => ?_) hsc' active plain
        whole
      rcases List.mem_append.mp ho with ho | ho
      · exact Bool.eq_false_iff.mpr (List.filter_eq_nil_iff.mp (logged.about p) o ho)
      · rw [List.mem_singleton.mp ho]
        simp [Obs.about, hne.symm]
  | drop _ _ _ _ _ _ _ _ _ released =>
    refine h.touched core t₀ rfl rfl (fun o ho => ?_) fun _ hsc => by cases hsc
    rcases RequestState.mem_leaving released ho with ⟨_, -, rfl⟩ | ⟨_, -, rfl⟩ | rfl <;>
      exact fun _ => rfl
  | discard _ _ _ _ _ split _ scheduled seq ignored =>
    refine h.touched core t₀ rfl (List.append_nil _).symm (by simp) fun sc' hsc' active => ?_
    exact absurd active (core.discarded_inactive split scheduled seq ignored)
  | retireChunk _ chunk _ _ q sc front _ scheduled seq active more =>
    intro p sc' hsc' active' plain whole
    rcases eq_or_ne p q with rfl | hne
    · obtain rfl : sc.advanceChunk chunk (w.heap p).promptTokens.length = sc' := by
        simpa [World.Scheduled, World.setRequest] using hsc'
      refine absurd more (Nat.not_lt.mpr (not_more run front scheduled seq active plain ?_))
      simpa [World.setRequest, SequenceSchedulingState.advanceChunk] using whole
    · exact h.other core t₀ (Function.update_of_ne hne ..) (List.append_nil _).symm (by simp) hsc'
        active' plain whole
  | retire _ _ _ _ q _ _ _ _ front running scheduled seq active settles =>
    intro p sc' hsc' active' plain whole
    rcases eq_or_ne p q with rfl | hne
    · let r : w.Retirement p := ⟨_, _, _, _, _, _, _, _, front, running, scheduled, seq, active,
        settles⟩
      obtain rfl : r.sc' = sc' := Option.some.inj (r.scheduled_after.symm.trans hsc')
      refine h.settled run r plain ?_
      simpa [World.settled, RequestState.retired] using whole
    · exact h.other core t₀ (Function.update_of_ne hne ..) rfl
        (fun o ho => settles.log_others hne ho) hsc' active' plain whole

end World.Chains

/-- Every run keeps the published blocks of all requests. -/
theorem World.Run.chains {config : ValidConfig} {w : World}
    (run : World.Run (World.init config) w) : w.Chains :=
  (Runs.invariant (I := fun x => World.Run (World.init config) x ∧ x.Chains)
    (fun _ _ h t => ⟨h.1.tail t, h.2.step h.1 t⟩) ⟨.refl, fun _ _ hsc => nomatch hsc⟩ run).2

/-! ### The engine -/

/-- The tokens below the executed frontier. -/
def RequestState.executed (st : RequestState) (sc : SequenceSchedulingState) : List Token :=
  (st.promptTokens ++ st.generatedTokens).take sc.executedFrontier

/-- The pending tokens, the parent hash and the published blocks of a scheduling state are those
of its executed tokens. -/
structure Scheduler.PublishesExecuted (s : Scheduler) (p : RequestPtr)
    (sc : SequenceSchedulingState) : Prop where
  length : ((s.heap p).executed sc).length = sc.executedFrontier
  pending : sc.pendingHashTokens = ((s.heap p).executed sc).drop
    (sc.executedFrontier - sc.executedFrontier % s.config.kvBlockSize)
  parent : sc.parentHash = (PrefixCache.chainHashes ((s.heap p).executed sc)
    s.config.kvBlockSize 0).getLast?.getD 0
  cached : ∀ i < sc.executedFrontier / s.config.kvBlockSize, ∃ id hash,
    sc.blockTable[i]? = some id ∧
    (PrefixCache.chainHashes ((s.heap p).executed sc) s.config.kvBlockSize 0)[i]? = some hash ∧
    s.kv.cache.byBlock id = some ⟨hash, id⟩
  hit : ∀ prompt, (s.heap p).executed sc <+: prompt →
    sc.executedFrontier / s.config.kvBlockSize ≤ (s.kv.lookupPrefixCache prompt).1.prefixHitBlocks

/-- In every reachable state an active request that was admitted without generated tokens has
published its executed tokens, if no chunk was dispatched for it that ends before the end of its
prompt. -/
theorem executed_published {config : ValidConfig} {y : Sys} (h : Reachable config y)
    {p : RequestPtr} {sc : SequenceSchedulingState}
    (scheduled : (y.sched.heap p).scheduling = some sc)
    (active : (y.sched.heap p).status = .active) (fresh : sc.admittedGenerated = 0)
    (whole : Unchunked sc.seqId y.sched.trace (y.sched.heap p).promptTokens.length) :
    y.sched.PublishesExecuted p sc := by
  obtain ⟨_, -, run, core⟩ := h.core
  have hbs : 0 < y.sched.config.kvBlockSize := y.sched.config.kvBlockSize_pos
  have plain : sc.Plain := .inl fresh
  obtain ⟨hbase, hcached⟩ := run.chains p sc scheduled active plain whole
  obtain ⟨hfilled, htail⟩ := run.tail_of_scheduled scheduled active plain
  rw [hbase] at htail
  change Tail y.sched.config.kvBlockSize ((y.sched.heap p).tokens sc) _ sc at htail
  change sc.executedFrontier ≤ ((y.sched.heap p).tokens sc).length at hfilled
  change ∀ i < sc.cut / y.sched.config.kvBlockSize, _ at hcached
  have htokens : (y.sched.heap p).executed sc =
      ((y.sched.heap p).tokens sc).take sc.executedFrontier := by
    simp [RequestState.executed, RequestState.tokens, RequestState.stream, fresh]
  have hlength : ((y.sched.heap p).executed sc).length = sc.executedFrontier := by
    rw [htokens, List.length_take, Nat.min_eq_left hfilled]
  have hcut := htail.cut_of_dvd (Nat.dvd_mul_left ..)
  have hdiv := Nat.div_mul_le_self sc.executedFrontier y.sched.config.kvBlockSize
  have htake : ∀ n ≤ sc.executedFrontier, ((y.sched.heap p).executed sc).take n =
      ((y.sched.heap p).tokens sc).take n := fun n hn => by
    rw [htokens, List.take_take, Nat.min_eq_left hn]
  have hchain : ∀ i < sc.executedFrontier / y.sched.config.kvBlockSize,
      (i + 1) * y.sched.config.kvBlockSize ≤ sc.executedFrontier := fun i hi =>
    (Nat.mul_le_mul_right _ hi).trans hdiv
  rw [hcut, Nat.mul_div_cancel _ hbs] at hcached
  have hentry : ∀ i < sc.executedFrontier / y.sched.config.kvBlockSize,
      (PrefixCache.chainHashes ((y.sched.heap p).executed sc) y.sched.config.kvBlockSize 0)[i]? =
        some (PrefixCache.hashBlock 0 (((y.sched.heap p).tokens sc).take
          ((i + 1) * y.sched.config.kvBlockSize))) := fun i hi => by
    rw [PrefixCache.chainHashes_getElem?, hlength, if_pos hi, htake _ (hchain i hi)]
  have hpublished : ∀ i < sc.executedFrontier / y.sched.config.kvBlockSize, ∃ id hash,
      sc.blockTable[i]? = some id ∧ (PrefixCache.chainHashes ((y.sched.heap p).executed sc)
        y.sched.config.kvBlockSize 0)[i]? = some hash ∧
      y.sched.kv.cache.byBlock id = some ⟨hash, id⟩ := fun i hi => by
    obtain ⟨id, hid, hheld⟩ := hcached i hi
    exact ⟨id, _, hid, hentry i hi, hheld⟩
  have hinv : y.sched.kv.Inv := core.ownership.inv
  have hsize : y.sched.kv.pool.blockSize = y.sched.config.kvBlockSize := core.ownership.blockSize
  have hround := Nat.div_add_mod' sc.executedFrontier y.sched.config.kvBlockSize
  refine ⟨hlength, ?_, ?_, hpublished, fun prompt hprompt => ?_⟩
  · have hboundary : sc.executedFrontier - sc.executedFrontier % y.sched.config.kvBlockSize =
        sc.cut := by omega
    rw [hboundary, htail.pending, htokens]
  · rw [PrefixCache.getLast_of_isPrefix List.prefix_rfl, PrefixCache.chainHashes_length, hlength,
      htake _ hdiv, htail.parent_eq, hcut]
  · have hle := KvBlocks.le_lookupPrefixCache_hits_of_isPrefix hinv hprompt fun i hi => by
      rw [hsize, hlength] at hi
      obtain ⟨id, hash, -, hhash, hheld⟩ := hpublished i hi
      exact ⟨id, hash, by rw [hsize]; exact hhash, hheld⟩
    rwa [hsize, hlength] at hle

/-- A run in which the second request hits a block of the first one and fills the rest of its
prompt in one chunk. -/
def wholeAfterHit : Sys :=
  Sys.after ((EngineConfig.small 6 0).toValid (by decide))
    (Label.submits [⟨"a", [1, 2, 3], {}, 6⟩] ++ Label.dispatch ++ [.engine none, .engine none,
        .submit ⟨"b", [1, 2, 7, 8, 9], {}, 6⟩, .work true (.sampled [4]), .engine none] ++
      Label.turn [5, 6])

/-- The scheduling state of the second request. -/
def wholeAfterHit.second : SequenceSchedulingState :=
  ((wholeAfterHit.sched.heap 1).scheduling).getD {}

/-- Of the five executed tokens two were hit, two were published and one is pending. -/
theorem executed_published_wholeAfterHit :
    (wholeAfterHit.second.hitBlocks = 1 ∧ wholeAfterHit.second.executedFrontier = 5 ∧
      wholeAfterHit.second.pendingHashTokens = [9]) ∧
    wholeAfterHit.sched.PublishesExecuted 1 wholeAfterHit.second :=
  ⟨by decide +kernel, executed_published (y := wholeAfterHit) (Reachable.after _ _)
    (by decide +kernel) (by decide +kernel) (by decide +kernel) (by decide +kernel)⟩

/-- A prompt of two blocks in two chunks. -/
def twoChunks : Sys :=
  Sys.after ((EngineConfig.small 4 2).toValid EngineConfig.fourChunked_ok)
    (Label.submits [⟨"a", [1, 2, 3, 4], {}, 6⟩] ++ Label.turn [0] ++ Label.turn [5])

/-- The scheduling state of the request. -/
def twoChunks.first : SequenceSchedulingState :=
  ((twoChunks.sched.heap 0).scheduling).getD {}

/-- `retire_work` returns before the publication for a chunk that ends inside the prompt. Both
blocks of the prompt are executed then, but the first one is not published, the second one has
the hash of a first block, and no lookup of the prompt finds either. -/
theorem twoChunks_unpublished : Reachable ((EngineConfig.small 4 2).toValid (by decide)) twoChunks ∧
    (twoChunks.sched.heap 0).scheduling = some twoChunks.first ∧
    (twoChunks.sched.heap 0).status = .active ∧ twoChunks.first.admittedGenerated = 0 ∧
    twoChunks.first.executedFrontier = 4 ∧
    (twoChunks.sched.heap 0).executed twoChunks.first = [1, 2, 3, 4] ∧
    (PrefixCache.chainHashes [1, 2, 3, 4] 2 0).getLast?.getD 0 ≠ twoChunks.first.parentHash ∧
    (PrefixCache.chainHashes [3, 4] 2 0).getLast?.getD 0 = twoChunks.first.parentHash ∧
    (twoChunks.first.blockTable[0]?.bind twoChunks.sched.kv.cache.byBlock).isNone ∧
    (twoChunks.sched.kv.lookupPrefixCache [1, 2, 3, 4]).1.prefixHitBlocks = 0 ∧
    ¬ twoChunks.sched.PublishesExecuted 0 twoChunks.first :=
  ⟨Reachable.after _ _, by decide +kernel, by decide +kernel, by decide +kernel,
    by decide +kernel, by decide +kernel, by decide +kernel, by decide +kernel,
    by decide +kernel, by decide +kernel, fun h => absurd h.parent (by decide +kernel)⟩

end CcInfer
