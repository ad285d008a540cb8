import CcInfer.Invariant.Records
import CcInfer.Proofs.Engine.Memory

/-!
# `CcInfer.Proofs.Engine.Contents`: published blocks hold what the worker was fed

The Scheduler publishes a block with the tokens that it has collected in `pending_hash_tokens`,
at the index that it derives from their number. The worker has filled the slots of the block
before, with the tokens of chunks and with late-bound tokens. `World.Agrees` says that the two
sides agree on every cached block: the slots hold the tokens that the block was last published
with.
-/

set_option autoImplicit false

namespace CcInfer

/-! ### The log of publications -/

/-- The tokens under which an entry of the log publishes block `id`. -/
def Obs.publishedAs (id : BlockId) : Obs → Option (List Token)
  | .published _ id' _ tokens => if id' = id then some tokens else none
  | _ => none

/-- The tokens of the last publication of block `id`. -/
def lastPublished (id : BlockId) (log : List Obs) : Option (List Token) :=
  log.reverse.findSome? (Obs.publishedAs id)

section lastPublished

variable {id : BlockId} {log obs : List Obs}

theorem lastPublished_append :
    lastPublished id (log ++ obs) = (lastPublished id obs).or (lastPublished id log) := by
  rw [lastPublished, List.reverse_append, List.findSome?_append, lastPublished, lastPublished]

theorem lastPublished_quiet (h : ∀ o ∈ obs, o.publishedAs id = none) :
    lastPublished id (log ++ obs) = lastPublished id log := by
  have hnone : lastPublished id obs = none :=
    List.findSome?_eq_none_iff.mpr fun o ho => h o (List.mem_reverse.mp ho)
  rw [lastPublished_append, hnone, Option.none_or]

/-- If all publications of a block in the last entries agree, they are the last. -/
theorem lastPublished_of_unique {o : Obs} {tokens : List Token} (ho : o ∈ obs)
    (hpublished : o.publishedAs id = some tokens)
    (unique : ∀ o ∈ obs, ∀ tokens', o.publishedAs id = some tokens' → tokens' = tokens) :
    lastPublished id (log ++ obs) = some tokens := by
  have hsome : lastPublished id obs = some tokens := by
    rcases hlast : lastPublished id obs with _ | tokens'
    · have hnone := List.findSome?_eq_none_iff.mp hlast o (List.mem_reverse.mpr ho)
      rw [hpublished] at hnone
      cases hnone
    · obtain ⟨o', ho', heq⟩ := List.exists_of_findSome?_eq_some hlast
      rw [unique o' (List.mem_reverse.mp ho') tokens' heq]
  rw [lastPublished_append, hsome, Option.some_or]

end lastPublished

section Blocks

variable {log head tail : List Obs} {seq : SequenceId} {table : BlockTable} {index n : Nat}
  {tokensAt : Nat → List Token}

/-- The last publication of each of several distinct blocks. -/
theorem lastPublished_blocks (nodup : (table.drop index).Nodup) (fits : index + n ≤ table.length)
    (hhead : ∀ o ∈ head, ∀ id, o.publishedAs id = none)
    (htail : ∀ o ∈ tail, ∀ id, o.publishedAs id = none) {j : Nat} (hj : j < n) {id : BlockId}
    (hid : table[index + j]? = some id) :
    lastPublished id (log ++ (head ++ ((List.range n).map fun i =>
      .published seq (table.getD (index + i) 0) (index + i) (tokensAt i)) ++ tail)) =
      some (tokensAt j) := by
  have hget : ∀ i, table[index + i]? = (table.drop index)[i]? := fun i => by
    rw [List.getElem?_drop]
  have hself : Obs.publishedAs id (.published seq (table.getD (index + j) 0) (index + j)
      (tokensAt j)) = some (tokensAt j) := by
    rw [Obs.publishedAs, List.getD_eq_getElem?_getD, hid, Option.getD_some, if_pos rfl]
  refine lastPublished_of_unique (List.mem_append_left _ (List.mem_append_right _
    (List.mem_map.mpr ⟨j, List.mem_range.mpr hj, rfl⟩))) hself fun o ho tokens hpublished => ?_
  rw [List.mem_append, List.mem_append] at ho
  rcases ho with (ho | ho) | ho
  · rw [hhead o ho id] at hpublished
    cases hpublished
  · obtain ⟨i, hi, rfl⟩ := List.mem_map.mp ho
    rw [List.mem_range] at hi
    rw [Obs.publishedAs] at hpublished
    split at hpublished
    · rename_i heq
      -- the blocks are distinct, so it is the same one
      have hlt : i < (table.drop index).length := by rw [List.length_drop]; omega
      have hsame : (table.drop index)[i]? = (table.drop index)[j]? := by
        rw [← hget, ← hget, hid, ← heq, List.getD_eq_getElem?_getD, hget,
          List.getElem?_eq_getElem hlt, Option.getD_some]
      obtain rfl : i = j := (List.getElem?_inj hlt nodup).mp hsame
      exact (Option.some.inj hpublished).symm
    · cases hpublished
  · rw [htail o ho id] at hpublished
    cases hpublished

/-- The publication of other blocks. -/
theorem lastPublished_others (fits : index + n ≤ table.length)
    (hhead : ∀ o ∈ head, ∀ id, o.publishedAs id = none)
    (htail : ∀ o ∈ tail, ∀ id, o.publishedAs id = none) {id : BlockId}
    (hid : id ∉ table.drop index) : lastPublished id (log ++ (head ++ ((List.range n).map fun i =>
      .published seq (table.getD (index + i) 0) (index + i) (tokensAt i)) ++ tail)) =
      lastPublished id log := by
  refine lastPublished_quiet fun o ho => ?_
  rw [List.mem_append, List.mem_append] at ho
  rcases ho with (ho | ho) | ho
  · exact hhead o ho id
  · obtain ⟨i, hi, rfl⟩ := List.mem_map.mp ho
    rw [List.mem_range] at hi
    refine if_neg fun heq => hid ?_
    have hlt : index + i < table.length := by omega
    rw [← heq, List.getD_eq_getElem?_getD, List.getElem?_eq_getElem hlt, Option.getD_some]
    exact List.mem_drop_iff_getElem.mpr ⟨i, by omega, rfl⟩
  · exact htail o ho id

end Blocks

/-! ### Runs in which the two sides agree -/

/-- The entry is neither a last chunk off a block boundary nor a readmission with generated
tokens over prefix hits. -/
def Obs.regular (blockSize : Nat) : Obs → Bool
  | .finalChunk _ start _ => decide (blockSize ∣ start)
  | .admitted _ _ hits generated => generated == 0 || hits == 0
  | _ => true

/-- Every last chunk starts at a block boundary, and no request with generated tokens is
readmitted over prefix hits. -/
def Regular (blockSize : Nat) (log : List Obs) : Prop := ∀ o ∈ log, o.regular blockSize = true

instance (blockSize : Nat) (log : List Obs) : Decidable (Regular blockSize log) :=
  inferInstanceAs (Decidable (∀ o ∈ log, _))

/-- The log and the slots agree on every cached block. -/
def World.Agrees (w : World) : Prop :=
  ∀ id e, w.kv.cache.byBlock id = some e → ∃ tokens, lastPublished id w.trace = some tokens ∧
    tokens.length = w.config.kvBlockSize ∧
    ∀ j < w.config.kvBlockSize, w.slots (id * w.config.kvBlockSize + j) = tokens[j]?

section

variable {config : ValidConfig} {w : World} {p : RequestPtr} {sc : SequenceSchedulingState}

/-- In a regular run every scheduling state is plain. -/
theorem World.Run.plain (run : World.Run (World.init config) w)
    (regular : Regular w.config.kvBlockSize w.trace) (scheduled : w.Scheduled p sc) : sc.Plain := by
  have core := run.core
  have records : (w.view p).Records p := run.life (I := fun v => v.Records p)
    (fun req => .init config p req) (fun _ _ hv _ t live => hv.step t live)
    (core.scheduled_lt scheduled)
  obtain ⟨hadmitted, -⟩ := records.scheduled sc (by rw [World.view_req]; exact scheduled)
  rw [World.view_log] at hadmitted
  simpa [Obs.regular, SequenceSchedulingState.Plain] using
    regular _ (List.mem_of_mem_filter hadmitted)

/-- In a regular run the hashed tokens of a request that decodes start at a block boundary. -/
theorem World.base_aligned (regular : Regular w.config.kvBlockSize w.trace)
    (decode : sc.cursor.phase = .decode) :
    w.config.kvBlockSize ∣ sc.base w.config.kvBlockSize (w.logOf p) := by
  rw [SequenceSchedulingState.base, if_pos decode]
  rcases hlast : lastChunk (w.logOf p) with _ | _
  · exact Nat.dvd_mul_left ..
  · obtain ⟨_, _, hmem⟩ := exists_of_lastChunk hlast
    exact decide_eq_true_eq.mp (regular _ (List.mem_of_mem_filter hmem))

end

namespace World.Agrees

variable {w w' : World}
variable {p : RequestPtr} {config : ValidConfig}

/-- A transaction that publishes nothing and leaves the slots of cached blocks alone. -/
theorem kept (h : w.Agrees) (t : World.Step w w')
    (cached : ∀ b e, w'.kv.cache.byBlock b = some e → w.kv.cache.byBlock b = some e)
    {obs : List Obs} (trace : w'.trace = w.trace ++ obs)
    (quiet : ∀ o ∈ obs, ∀ id, o.publishedAs id = none)
    (slots : ∀ b e, w.kv.cache.byBlock b = some e → ∀ j < w.config.kvBlockSize,
      w'.slots (b * w.config.kvBlockSize + j) = w.slots (b * w.config.kvBlockSize + j)) :
    w'.Agrees := by
  intro id e he
  have hold := cached id e he
  obtain ⟨tokens, hlast, hlength, hslots⟩ := h id e hold
  rw [t.config_eq, trace, lastPublished_quiet fun o ho => quiet o ho id]
  exact ⟨tokens, hlast, hlength, fun j hj => (slots id e hold j hj).trans (hslots j hj)⟩

/-- The slots of a block that the retirement of an item completes. -/
theorem contents (r : w.Retirement p) (holds : w.Holds p r.sc)
    (settling : w.Settling r.after p r.item r.written r.token r.sc r.sc')
    (aligned : w.config.kvBlockSize ∣ r.sc.base w.config.kvBlockSize (w.logOf p)) {j : Nat}
    (full : r.sc.cut + (j + 1) * w.config.kvBlockSize ≤ ((w.heap p).tokens r.sc).length) :
    ∃ id, r.sc.blockTable[r.sc.cut / w.config.kvBlockSize + j]? = some id ∧
      ∀ o < w.config.kvBlockSize, w.slots (id * w.config.kvBlockSize + o) =
        (((((w.heap p).tokens r.sc).drop r.sc.cut).drop (j * w.config.kvBlockSize)).take
          w.config.kvBlockSize)[o]? := by
  have hbs := w.config.kvBlockSize_pos
  have hcut : r.sc.cut = r.sc.cut / w.config.kvBlockSize * w.config.kvBlockSize := by
    refine (Nat.div_mul_cancel ?_).symm
    rw [settling.before.cut_of_dvd aligned]
    exact Nat.dvd_mul_left ..
  -- the item was processed, so all tokens are in the slots
  have hreached : (w.heap p).stream r.sc <+: (w.reached p r.sc).1 ∧
      ((w.heap p).tokens r.sc).length ≤ (w.reached p r.sc).2 := by
    have hsplit : w.flight = [] ++ r.flight :: r.rest := r.front
    have hend := settling.filled
    rw [settling.frontier] at hend
    rw [World.reached, World.itemsOf_split hsplit r.seq, List.filter_nil, List.nil_append,
      reached_cons_done _ _ rfl, ← hend]
    obtain ⟨hstream, hlength⟩ := le_reached ((w.heap p).stream r.sc ++
      r.flight.emitted r.token)
      (r.sc.executedFrontier + r.item.kvTokenCount)
    exact ⟨(List.prefix_append _ _).trans hstream, hlength⟩
  have hslot : ∀ o < w.config.kvBlockSize, ∃ b,
      r.sc.blockTable[r.sc.cut / w.config.kvBlockSize + j]? = some b ∧
      w.slots (b * w.config.kvBlockSize + o) =
        ((w.heap p).tokens r.sc)[r.sc.cut + j * w.config.kvBlockSize + o]? := by
    intro o ho
    have hlt : r.sc.cut + j * w.config.kvBlockSize + o < ((w.heap p).tokens r.sc).length := by
      rw [Nat.succ_mul] at full
      omega
    have hpos : r.sc.cut + j * w.config.kvBlockSize + o =
        (r.sc.cut / w.config.kvBlockSize + j) * w.config.kvBlockSize + o := by
      rw [Nat.add_mul, ← hcut]
    obtain ⟨b, _, hb, hslot, htoken⟩ := holds (r.sc.cut + j * w.config.kvBlockSize + o)
      (by omega) (hlt.trans_le hreached.2)
    obtain ⟨more, hmore⟩ := hreached.1
    rw [hpos, Nat.add_comm, Nat.add_mul_div_right _ _ hbs, Nat.div_eq_of_lt ho,
      Nat.zero_add] at hb
    rw [hpos, Nat.mul_add_mod_self_right, Nat.mod_eq_of_lt ho] at hslot
    have htokens : (w.heap p).promptTokens ++ (w.reached p r.sc).1 =
        (w.heap p).tokens r.sc ++ more := by
      rw [← hmore, ← List.append_assoc, RequestState.tokens]
    rw [htokens, List.getElem?_append_left hlt] at htoken
    exact ⟨b, hb, hslot.trans htoken.symm⟩
  obtain ⟨id, hid, -⟩ := hslot 0 hbs
  refine ⟨id, hid, fun o ho => ?_⟩
  obtain ⟨b, hb, hslot⟩ := hslot o ho
  obtain rfl : b = id := Option.some.inj (hb.symm.trans hid)
  rw [hslot, List.getElem?_take_of_lt ho, List.getElem?_drop, List.getElem?_drop, Nat.add_assoc]

/-- The retirement of an item publishes what the slots hold. -/
theorem settled (h : w.Agrees) (run : World.Run (World.init config) w) (r : w.Retirement p)
    (regular : Regular w.config.kvBlockSize r.after.trace) : r.after.Agrees := by
  have core := run.core
  have hhead : ∀ o ∈ r.head, ∀ id, o.publishedAs id = none := fun o ho id => by
    obtain ⟨_, _, rfl⟩ := r.settles.mem_head ho
    rfl
  have htail : ∀ o ∈ RequestState.tailObs p (w.heap p) r.flight r.token,
      ∀ id, o.publishedAs id = none := fun o ho id => by
    rcases RequestState.mem_tailObs ho with ⟨_, rfl⟩ | rfl | ⟨rfl, -⟩ <;> rfl
  rcases Nat.eq_zero_or_pos r.item.kvTokenCount with hzero | hpos
  · -- nothing was written, so nothing is published
    have hsame : w.kv.publishItem r.advanced r.item r.written = (w.kv, r.advanced, []) := by
      simp [KvBlocks.publishItem, hzero]
    refine h.kept r.step (fun b e he => ?_) rfl (fun o ho id => ?_) (fun _ _ _ _ _ => rfl)
    · simpa only [World.settled, hsame] using he
    · rw [hsame, List.append_nil, List.mem_append] at ho
      exact ho.elim (hhead o · id) (htail o · id)
  · have hbs := w.config.kvBlockSize_pos
    have geometry := r.geometry core
    have settling := run.settling r (World.Run.plain (run.tail r.step) regular r.scheduled_after)
    have holds := run.holds p r.sc r.scheduled r.active settling.plain
    have aligned : w.config.kvBlockSize ∣ r.sc.base w.config.kvBlockSize (w.logOf p) := by
      rw [← settling.base]
      exact World.base_aligned regular (run.settled_phase r settling.plain).2
    obtain ⟨-, n, hn, hobs, hnew, -, -⟩ :=
      core.ownership.publishItem (core.scheduled_lt r.scheduled)
      r.scheduled r.active geometry (r.fits core) r.settles hpos
    rw [settling.wrote hpos] at hobs
    have nodup := core.ownership.unpublished_nodup (core.scheduled_lt r.scheduled) r.scheduled
    -- the published blocks are in the table and below the executed tokens
    have hwithin := (Nat.le_div_iff_mul_le hbs).mp hn
    have hcontext : r.item.context = r.sc.executedFrontier := (geometry.consecutive r.active).1
    have hend : r.item.context + r.item.kvTokenCount = ((w.heap p).tokens r.sc).length := by
      rw [hcontext, ← settling.frontier, settling.filled]
    have fits : r.sc.firstPrivate w.config.kvBlockSize + n ≤ r.sc.blockTable.length := by
      have htable := (r.fits core).trans (Nat.mul_le_mul_right
        w.config.kvBlockSize (geometry.pinned r.item List.mem_cons_self).length_le)
      exact Nat.le_of_mul_le_mul_right ((hwithin.trans (Nat.sub_le ..)).trans htable) hbs
    intro id e he
    have htrace : r.after.trace = w.trace ++
        (r.head ++ (w.kv.publishItem r.advanced r.item r.written).2.2 ++
          RequestState.tailObs p (w.heap p) r.flight r.token) := rfl
    rw [htrace, hobs]
    rcases hnew id e he with hold | hmem
    · obtain ⟨tokens, hlast, hlength, hslots⟩ := h id e hold
      have hid : id ∉ r.sc.blockTable.drop (r.sc.firstPrivate w.config.kvBlockSize) :=
        fun hmem => by
        rw [core.ownership.unpublished p r.sc r.scheduled id hmem] at hold
        cases hold
      exact ⟨tokens, (lastPublished_others fits hhead htail hid).trans hlast, hlength, hslots⟩
    · obtain ⟨j, hj⟩ := List.mem_iff_getElem?.mp hmem
      have hjn : j < n := by
        by_contra hge
        rw [List.getElem?_take_eq_none (Nat.not_lt.mp hge)] at hj
        cases hj
      rw [List.getElem?_take_of_lt hjn, List.getElem?_drop] at hj
      have hstop : r.sc.cut + (j + 1) * w.config.kvBlockSize ≤ ((w.heap p).tokens r.sc).length := by
        have hcut : r.sc.firstPrivate w.config.kvBlockSize * w.config.kvBlockSize = r.sc.cut := by
          refine Nat.div_mul_cancel ?_
          show w.config.kvBlockSize ∣ r.sc.cut
          rw [settling.before.cut_of_dvd aligned]
          exact Nat.dvd_mul_left ..
        have hblocks := Nat.mul_le_mul_right w.config.kvBlockSize hjn
        rw [Nat.add_mul, hcut] at hwithin
        rw [Nat.succ_eq_add_one] at hblocks
        omega
      obtain ⟨id', hid', hslots⟩ := contents r holds settling aligned hstop
      obtain rfl : id' = id := Option.some.inj (hid'.symm.trans hj)
      refine ⟨_, lastPublished_blocks nodup fits hhead htail hjn hj, ?_, hslots⟩
      have hlength : (((w.heap p).tokens r.sc).drop r.sc.cut).length =
          ((w.heap p).tokens r.sc).length - r.sc.cut := List.length_drop ..
      show List.length _ = w.config.kvBlockSize
      rw [List.length_take, List.length_drop, hlength]
      rw [Nat.succ_mul] at hstop
      omega

/-- Every transaction of a regular run keeps slots and log in agreement. -/
theorem step (h : w.Agrees) (run : World.Run (World.init config) w)
    (t : World.Step w w') (regular : Regular w'.config.kvBlockSize w'.trace) : w'.Agrees := by
  have core := run.core
  have halloc : ∀ {obs : List Obs} {leak : BlockTable}, AllocLog obs leak →
      ∀ o ∈ obs, ∀ id, o.publishedAs id = none := by
    intro obs leak logged
    cases logged <;> simp [Obs.publishedAs]
  have hcached : ∀ {f : FlightItem} {slots : Nat → Option Token}, f ∈ w.flight →
      w.SlotsAfter f slots → ∀ b e, w.kv.cache.byBlock b = some e →
      ∀ j < w.config.kvBlockSize, slots (b * w.config.kvBlockSize + j) =
        w.slots (b * w.config.kvBlockSize + j) := by
    rintro _ _ hf (rfl | ⟨hfits, rfl⟩) _ _ he _ hj
    · rfl
    · exact core.feed_cached hf hfits he hj
  have t₀ := t
  cases t with
  | note o quiet =>
    obtain ⟨_, _, rfl⟩ := quiet
    exact h.kept t₀ (fun _ _ he => he) rfl (by simp [Obs.publishedAs]) fun _ _ _ _ _ => rfl
  | register | cancel | finish | fail | dispatch =>
    exact h.kept t₀ (fun _ _ he => he) rfl (by simp [Obs.publishedAs]) fun _ _ _ _ _ => rfl
  | blocks kv obs leak moves logged
    | grow q sc kv obs blocks running scheduled active phase moves uncached logged =>
    exact h.kept t₀ moves.cached rfl (halloc logged) fun _ _ _ _ _ => rfl
  | admission _ _ _ _ _ _ _ _ _ _ _ moves _ _ logged =>
    refine h.kept t₀ moves.cached rfl (fun o ho id => ?_) fun _ _ _ _ _ => rfl
    rcases List.mem_append.mp ho with ho | ho
    · exact halloc logged o ho id
    · rw [List.mem_singleton.mp ho]
      rfl
  | park _ _ _ _ _ _ moves =>
    exact h.kept t₀ moves.cached rfl (by simp [Obs.publishedAs]) fun _ _ _ _ _ => rfl
  | drop _ _ _ _ _ _ _ moves _ released =>
    refine h.kept t₀ moves.cached rfl (fun o ho id => ?_) fun _ _ _ _ _ => rfl
    rcases RequestState.mem_leaving released ho with ⟨_, -, rfl⟩ | ⟨_, -, rfl⟩ | rfl <;> rfl
  | retire _ _ _ _ _ _ _ _ _ front running scheduled seq active settles =>
    exact h.settled run ⟨_, _, _, _, _, _, _, _, front, running, scheduled, seq, active, settles⟩
      regular
  | process _ _ f token split _ _ _ fits =>
    exact h.kept t₀ (fun _ _ he => he) (List.append_nil _).symm nofun
      (hcached (by rw [split]; simp) (.inr ⟨fits, (w.processed_fields f token).2.2.2.2⟩))
  | processFail _ _ _ _ _ split _ _ fails =>
    exact h.kept t₀ (fun _ _ he => he) (List.append_nil _).symm nofun
      (hcached (by rw [split]; simp) fails.slotsAfter)
  | _ => exact h.kept t₀ (fun _ _ he => he) (List.append_nil _).symm nofun fun _ _ _ _ _ => rfl

end World.Agrees

/-- In every regular run the log and the slots agree on every cached block. -/
theorem World.Run.agrees {config : ValidConfig} {w : World}
    (run : World.Run (World.init config) w) (regular : Regular w.config.kvBlockSize w.trace) :
    w.Agrees := by
  refine (Runs.invariant_while (G := fun x => Regular x.config.kvBlockSize x.trace)
    (I := fun x => World.Run (World.init config) x ∧ x.Agrees) (fun x y t hy => ?_)
    (fun x y h t hy => ⟨h.1.tail t, h.2.step h.1 t hy⟩) ⟨.refl, fun _ _ he => nomatch he⟩ run
    regular).2
  obtain ⟨_, htrace, -⟩ := t.logs
  rw [t.config_eq, htrace] at hy
  exact fun o ho => hy o (List.mem_append_left _ ho)

/-! ### The engine -/

/-- In every reachable state whose log is regular, the tokens that the worker fed for the slots of
a cached block are those that the block was last published with. -/
theorem published_fed {config : ValidConfig} {y : Sys} (h : Reachable config y)
    (regular : Regular config.kvBlockSize y.sched.trace) :
    ∀ id e, y.sched.kv.cache.byBlock id = some e → ∃ tokens,
      lastPublished id y.sched.trace = some tokens ∧ tokens.length = config.kvBlockSize ∧
      ∀ j < config.kvBlockSize, y.worker.slots (id * config.kvBlockSize + j) = tokens[j]? := by
  obtain ⟨_, -, run, -⟩ := h.core
  have hconfig : y.sched.config = config := run.config_eq
  rw [← hconfig] at regular ⊢
  exact run.agrees regular

/-- A run in which a prompt goes into aligned chunks, a decode fills a block, and a second request
hits a block of the first one. -/
def alignedChunks : Sys :=
  Sys.after ((EngineConfig.small 6 2).toValid (by decide))
    (Label.submits [⟨"a", [1, 2, 3, 4], {}, 8⟩] ++ Label.turn [0] ++ Label.turn [5] ++
      Label.dispatch ++ [.engine none, .engine none, .submit ⟨"b", [3, 4, 9], {}, 8⟩,
        .work true (.sampled [6]), .engine none] ++ Label.turn [7, 8])

theorem published_fed_alignedChunks :
    ((List.range 6).filterMap fun id => (alignedChunks.sched.kv.cache.byBlock id).map fun _ =>
        (id, lastPublished id alignedChunks.sched.trace)) = [(1, some [3, 4]), (2, some [5, 6])] ∧
    ∀ id e, alignedChunks.sched.kv.cache.byBlock id = some e → ∃ tokens,
      lastPublished id alignedChunks.sched.trace = some tokens ∧ tokens.length = 2 ∧
      ∀ j < 2, alignedChunks.worker.slots (id * 2 + j) = tokens[j]? :=
  ⟨by decide +kernel, published_fed (Reachable.after _ _) (by decide +kernel)⟩

/-- A prompt whose last chunk starts inside a block. -/
def splitBlock : Sys :=
  Sys.after ((EngineConfig.small 4 3).toValid (by decide))
    (Label.submits [⟨"a", [1, 2, 3, 4], {}, 8⟩] ++ Label.turn [0] ++ Label.turn [5] ++
      Label.turn [6])

/-- The tokens `4, 5` are published for the second block, whose slots hold `3, 4`. -/
theorem splitBlock_disagrees : Reachable ((EngineConfig.small 4 3).toValid (by decide)) splitBlock ∧
    (splitBlock.sched.kv.cache.byBlock 1).isSome ∧
    lastPublished 1 splitBlock.sched.trace = some [4, 5] ∧
    splitBlock.worker.slots (1 * 2 + 0) = some 3 ∧ splitBlock.worker.slots (1 * 2 + 1) = some 4 :=
  ⟨Reachable.after _ _, by decide +kernel, by decide +kernel, by decide +kernel,
    by decide +kernel⟩

end CcInfer
