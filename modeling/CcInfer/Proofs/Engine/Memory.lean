import CcInfer.Invariant.Tail
import CcInfer.Proofs.Engine.Writes

/-!
# `CcInfer.Proofs.Engine.Memory`: what the KV slots of a request hold

The worker writes KV slots when it processes an item, long before the Scheduler retires the
item and counts its positions as executed. `reached` says where the processed items of a request
end: the stream then, and the number of filled positions. From the published tokens up to there
the slots of an active request hold its tokens (`World.Holds`), under every plain scheduling
state.
-/

set_option autoImplicit false

namespace CcInfer

variable {w : World} {f : FlightItem}

/-! ### The slots that a forward pass writes -/

section Store

variable {ι α : Type} [DecidableEq ι] {key : ι}

/-- Writes elsewhere leave an entry alone. -/
theorem foldl_update_of_notMem (keys : List ι) : ∀ (values : List α) (store : ι → Option α),
    key ∉ keys → (keys.zip values).foldl
      (fun (store : ι → Option α) e => Function.update store e.1 (some e.2)) store key =
        store key := by
  induction keys with
  | nil => intro values store _; rfl
  | cons _ _ ih =>
    intro values store hkey
    obtain ⟨hne, hkeys⟩ := List.ne_and_not_mem_of_not_mem_cons hkey
    cases values with
    | nil => rfl
    | cons v values =>
      rw [List.zip_cons_cons, List.foldl_cons, ih values _ hkeys, Function.update_of_ne hne]

/-- Each of several distinct entries gets its own value. -/
theorem foldl_update_of_nodup (keys : List ι) :
    ∀ (values : List α) (store : ι → Option α) (j : Nat),
    keys.Nodup → keys[j]? = some key → j < values.length → (keys.zip values).foldl
      (fun (store : ι → Option α) e => Function.update store e.1 (some e.2)) store key =
        values[j]? := by
  induction keys with
  | nil => intro values store j _ hkey; cases hkey
  | cons k keys ih =>
    intro values store j hnodup hkey hj
    obtain ⟨hk, hnodup⟩ := List.nodup_cons.mp hnodup
    cases values with
    | nil => cases hj
    | cons v values =>
      rw [List.zip_cons_cons, List.foldl_cons]
      cases j with
      | zero =>
        obtain rfl : k = key := Option.some.inj hkey
        rw [foldl_update_of_notMem keys values _ hk, Function.update_self]
        rfl
      | succ j => exact ih values _ j hnodup hkey (Nat.lt_of_succ_lt_succ hj)

end Store

/-- Late binding leaves the slots of an item as they are. -/
theorem WorkItem.bind_writtenSlots (item : WorkItem) (latest : Option Token) (blockSize : Nat) :
    (item.bind latest).writtenSlots blockSize = item.writtenSlots blockSize := by
  simp only [writtenSlots, writtenPositions, bind_frame]
  exact List.map_congr_left fun pos _ => by simp only [slotAt, slotAt, bind_frame]

namespace Worker

variable {blockSize : Nat} {k : Worker} {item : WorkItem}

/-- A forward pass leaves the slots alone that it does not write. -/
theorem feedItem_slots_of_notMem {slot : Nat} (h : slot ∉ item.writtenSlots blockSize) :
    (feedItem blockSize k item).slots slot = k.slots slot := by
  unfold feedItem
  split
  · exact foldl_update_of_notMem _ _ _ h
  · rfl

/-- A forward pass writes the tokens of an item into the slots of its positions. -/
theorem feedItem_slots_written (nodup : (item.writtenSlots blockSize).Nodup) {j : Nat}
    (hj : j < item.kvTokenCount) (tokens : j < item.tokenIds.length) :
    (feedItem blockSize k item).slots (item.slotAt blockSize (item.context + j)) =
      item.tokenIds[j]? := by
  have hslot : (item.writtenSlots blockSize)[j]? =
      some (item.slotAt blockSize (item.context + j)) := by
    rw [WorkItem.writtenSlots, WorkItem.writtenPositions, List.getElem?_map,
      List.getElem?_range' hj, Option.map_some, Nat.one_mul]
  rw [feedItem, if_pos (Nat.zero_lt_of_lt hj)]
  exact foldl_update_of_nodup _ _ _ j nodup hslot tokens

end Worker

/-! ### The end of the processed items -/

/-- The stream and the number of filled positions when the processed items at the front are
retired, from those before. -/
def reached (stream : List Token) (n : Nat) : List FlightItem → List Token × Nat
  | [] => (stream, n)
  | f :: rest =>
    match f.fate with
    | .done token => reached (stream ++ f.emitted token) (n + f.item.kvTokenCount) rest
    | _ => (stream, n)

section reached

variable {before after : List FlightItem} {token : Token}
variable {prompt known : List Token} {latest : Option Token}

theorem reached_cons_done (stream : List Token) (n : Nat) (done : f.fate = .done token) :
    reached stream n (f :: after) =
      reached (stream ++ f.emitted token) (n + f.item.kvTokenCount) after := by
  rw [reached, done]

/-- The processed items end before an item that is not processed. -/
theorem reached_append (notDone : ∀ token, f.fate ≠ .done token) :
    ∀ (stream : List Token) (n : Nat),
    reached stream n (before ++ f :: after) = reached stream n before := by
  induction before with
  | nil =>
    intro stream n
    rw [List.nil_append]
    cases hf : f.fate with
    | done token => exact absurd hf (notDone token)
    | _ => simp only [reached, hf]
  | cons _ _ ih =>
    intro stream n
    simp only [List.cons_append, reached]
    split
    · exact ih _ _
    · rfl

/-- The items after one that is not processed do not count. -/
theorem reached_of_stopped (stopped : ∃ g ∈ before, ∀ token, g.fate ≠ .done token)
    (stream : List Token)
    (n : Nat) : reached stream n (before ++ after) = reached stream n before := by
  obtain ⟨_, hg, notDone⟩ := stopped
  obtain ⟨_, _, rfl⟩ := List.append_of_mem hg
  rw [List.append_assoc, List.cons_append, reached_append notDone, reached_append notDone]

/-- The processed items end with one behind which all are pending. -/
theorem reached_process (done : ∀ g ∈ before, ∃ token, g.fate = .done token)
    (doneNow : f.fate = .done token) (later : ∀ g ∈ after, g.fate = .pending) :
    ∀ (stream : List Token) (n : Nat), reached stream n (before ++ f :: after) =
      ((reached stream n before).1 ++ f.emitted token,
        (reached stream n before).2 + f.item.kvTokenCount) := by
  induction before with
  | nil =>
    intro stream n
    rw [List.nil_append, reached_cons_done _ _ doneNow]
    cases after with
    | nil => rfl
    | cons g => simp only [reached, later g List.mem_cons_self]
  | cons g _ ih =>
    intro stream n
    obtain ⟨_, hg⟩ := done g List.mem_cons_self
    rw [List.cons_append, reached_cons_done _ _ hg, reached_cons_done _ _ hg]
    exact ih (fun g hg => done g (List.mem_cons_of_mem _ hg)) _ _

/-- Processed items add to the stream and to the filled positions. -/
theorem le_reached : ∀ (stream : List Token) (n : Nat),
    stream <+: (reached stream n before).1 ∧ n ≤ (reached stream n before).2 := by
  induction before with
  | nil => exact fun stream n => ⟨List.prefix_rfl, le_rfl⟩
  | cons g _ ih =>
    intro stream n
    simp only [reached]
    split
    · obtain ⟨hstream, hn⟩ := ih (stream ++ g.emitted _) (n + g.item.kvTokenCount)
      exact ⟨(List.prefix_append _ _).trans hstream, (Nat.le_add_right ..).trans hn⟩
    · exact ⟨List.prefix_rfl, le_rfl⟩

/-- An item of a plan starts behind the processed items before it. -/
theorem Plan.reached_le : ∀ {s n : Nat} (stream : List Token),
    Plan prompt s n ((before ++ f :: after).map (·.item)) →
    (reached stream n before).2 ≤ f.item.context := by
  induction before with
  | nil =>
    intro s n stream plan
    exact (Continues.context_eq plan.1).ge
  | cons _ _ ih =>
    intro s n stream plan
    simp only [reached]
    split
    · exact ih _ plan.2
    · exact (Nat.le_add_right ..).trans ((le_reached stream _).2.trans (ih stream plan.2))

/-- Where all items before it are processed, the worker stands where the item continues. -/
theorem Trail.at_reached {sampler : List Token → Token → Prop}
    (done : ∀ g ∈ before, ∃ token, g.fate = .done token)
    (pending : f.fate = .pending) : ∀ {stream : List Token} {n : Nat},
    Trail sampler prompt known latest stream n (before ++ f :: after) →
    Plan prompt stream.length n ((before ++ f :: after).map (·.item)) →
    At prompt (reached stream n before).1 (reached stream n before).2 known latest ∧
      Continues prompt (reached stream n before).1.length (reached stream n before).2 f.item := by
  induction before with
  | nil =>
    intro stream n trail plan
    exact ⟨by simpa [Trail, pending, reached] using trail, plan.1⟩
  | cons g _ ih =>
    intro stream n trail plan
    obtain ⟨_, hg⟩ := done g List.mem_cons_self
    simp only [List.cons_append, Trail, hg] at trail
    rw [reached_cons_done _ _ hg]
    refine ih (fun g hg => done g (List.mem_cons_of_mem _ hg)) trail.2 ?_
    simpa [List.length_append, length_emitted] using plan.2

/-- The item that continues a sequence is fed the tokens that come next. -/
theorem At.tokenIds {stream : List Token} {n : Nat}
    (h : At prompt stream n known latest) (prompt_ne : prompt ≠ [])
    (continues : Continues prompt stream.length n f.item) (token : Token) {j : Nat}
    (hj : j < f.item.kvTokenCount) : ∃ t, (f.item.bind latest).tokenIds[j]? = some t ∧
      (prompt ++ (stream ++ f.emitted token))[n + j]? = some t := by
  obtain ⟨hknown, _, -⟩ := h.process prompt_ne continues token
  have hlength : known.length = n := by
    rw [h.known, List.length_take, Nat.min_eq_left h.filled]
  simp only [WorkItem.knownAfter, WorkItem.bind_frame, if_pos (Nat.zero_lt_of_lt hj)] at hknown
  have hlt : n + j < (prompt ++ (stream ++ f.emitted token)).length := by omega
  refine ⟨_, ?_, List.getElem?_eq_getElem hlt⟩
  have hat := congrArg (fun l => l[n + j]?) hknown
  rw [← hlength] at hat
  simp only [List.getElem?_append_right (Nat.le_add_right ..), Nat.add_sub_cancel_left] at hat
  rw [hat, hlength, List.getElem?_take_of_lt (by omega), List.getElem?_eq_getElem hlt]

end reached

/-! ### The slots of a request -/

namespace Core

variable {p : RequestPtr} {sc : SequenceSchedulingState} {latest : Option Token} {b : BlockId}
  (h : Core w) (hf : f ∈ w.flight) (hfits : f.item.Fits w.config.kvBlockSize)
include h hf hfits

/-- A forward pass leaves the unpublished positions of a request alone that it does not write
for this request. -/
theorem feed_slot (hsc : w.Scheduled p sc) {i : Nat} (hi : sc.cut ≤ i)
    (hb : sc.blockTable[i / w.config.kvBlockSize]? = some b)
    (notWritten : sc.seqId = f.seqId → i ∉ f.item.writtenPositions) :
    (Worker.feedItem w.config.kvBlockSize w.worker (f.item.bind latest)).slots
        (b * w.config.kvBlockSize + i % w.config.kvBlockSize) =
      w.slots (b * w.config.kvBlockSize + i % w.config.kvBlockSize) := by
  refine Worker.feedItem_slots_of_notMem fun hmem => ?_
  rw [WorkItem.bind_writtenSlots] at hmem
  obtain ⟨_, hpos, heq⟩ := List.mem_map.mp hmem
  obtain ⟨hseq, rfl⟩ := h.written_slot hf hfits hpos hsc (Nat.div_le_div_right hi) hb heq
  exact notWritten hseq hpos

/-- A forward pass leaves cached blocks alone. -/
theorem feed_cached {e : BlockCacheEntry} (he : w.kv.cache.byBlock b = some e) {j : Nat}
    (hj : j < w.config.kvBlockSize) :
    (Worker.feedItem w.config.kvBlockSize w.worker (f.item.bind latest)).slots
        (b * w.config.kvBlockSize + j) = w.slots (b * w.config.kvBlockSize + j) := by
  refine Worker.feedItem_slots_of_notMem fun hmem => ?_
  rw [WorkItem.bind_writtenSlots] at hmem
  obtain ⟨pos, hpos, heq⟩ := List.mem_map.mp hmem
  obtain ⟨rfl, -⟩ := slot_split (Nat.mod_lt pos w.config.kvBlockSize_pos) hj heq
  obtain ⟨_, -, _, hsc, hseq⟩ := h.flights.owner h.positions hf
  obtain ⟨hnone, -⟩ := h.written_owned hf hsc hseq hfits hpos
  rw [WorkItem.blockAt, he] at hnone
  cases hnone

/-- A forward pass writes the tokens of an item to the positions of its request. -/
theorem feed_written (hsc : w.Scheduled p sc) (hseq : sc.seqId = f.seqId) {j : Nat}
    (hj : j < f.item.kvTokenCount) {token : Token}
    (htoken : (f.item.bind latest).tokenIds[j]? = some token) :
    ∃ b, sc.blockTable[(f.item.context + j) / w.config.kvBlockSize]? = some b ∧
      (Worker.feedItem w.config.kvBlockSize w.worker (f.item.bind latest)).slots
        (b * w.config.kvBlockSize + (f.item.context + j) % w.config.kvBlockSize) = some token := by
  have hpos : f.item.context + j ∈ f.item.writtenPositions :=
    WorkItem.mem_writtenPositions.mpr ⟨Nat.le_add_right .., by omega⟩
  obtain ⟨-, hlt, hat⟩ := h.written_block hf hsc hseq hfits hpos
  have hnodup : ((f.item.bind latest).writtenSlots w.config.kvBlockSize).Nodup := by
    rw [WorkItem.bind_writtenSlots]
    exact h.writtenSlots_nodup hf hfits
  refine ⟨_, List.getElem?_eq_getElem hlt, ?_⟩
  have hslot := Worker.feedItem_slots_written (k := w.worker) hnodup (j := j)
    (by simpa only [WorkItem.bind_frame]) (List.getElem?_eq_some_iff.mp htoken).1
  simp only [htoken, WorkItem.slotAt, WorkItem.bind_frame] at hslot
  rw [← hslot]
  exact congrArg _ (congrArg (· * w.config.kvBlockSize + _) hat.symm)

end Core

/-- Where the processed items of a request end. -/
def World.reached (w : World) (p : RequestPtr) (sc : SequenceSchedulingState) :
    List Token × Nat :=
  CcInfer.reached ((w.heap p).stream sc) sc.executedFrontier (w.itemsOf sc.seqId)

/-- Behind the published tokens the slots of a request hold its tokens, up to the end of its
processed items. -/
def World.Holds (w : World) (p : RequestPtr) (sc : SequenceSchedulingState) : Prop :=
  ∀ i, sc.cut ≤ i → i < (w.reached p sc).2 → ∃ b token,
    sc.blockTable[i / w.config.kvBlockSize]? = some b ∧
    w.slots (b * w.config.kvBlockSize + i % w.config.kvBlockSize) = some token ∧
    ((w.heap p).promptTokens ++ (w.reached p sc).1)[i]? = some token

/-- The slots of these positions are the same in `w'`. -/
def World.KeepsSlots (w w' : World) (p : RequestPtr) (sc : SequenceSchedulingState) : Prop :=
  ∀ i b, sc.cut ≤ i → i < (w.reached p sc).2 →
    sc.blockTable[i / w.config.kvBlockSize]? = some b →
    w'.slots (b * w.config.kvBlockSize + i % w.config.kvBlockSize) =
      w.slots (b * w.config.kvBlockSize + i % w.config.kvBlockSize)

/-- The slots of every active request under a plain scheduling state hold its tokens. -/
def World.HoldsAll (w : World) : Prop :=
  ∀ p sc, w.Scheduled p sc → (w.heap p).status = .active → sc.Plain → w.Holds p sc

/-- The worker has run the forward pass of `f`, which fits its table, or left the slots as they
were. -/
def World.SlotsAfter (w : World) (f : FlightItem) (slots : Nat → Option Token) : Prop :=
  slots = w.slots ∨ f.item.Fits w.config.kvBlockSize ∧
    slots = (Worker.feedItem w.config.kvBlockSize w.worker
      (f.item.bind (w.latestTokens f.seqId))).slots

theorem WorkerFails.slotsAfter {k : Worker}
    (h : WorkerFails w.config.kvBlockSize w.worker f.item k) : w.SlotsAfter f k.slots := by
  cases h with
  | untouched => exact .inl rfl
  | marked => exact .inl rfl
  | fed fits =>
    refine .inr ⟨fits, ?_⟩
    rw [Worker.bindLate_eq]
    rfl

/-- The worker keeps the unpublished positions of a request that it does not write. -/
theorem Core.slot_kept {p : RequestPtr}
    {sc : SequenceSchedulingState} {slots : Nat → Option Token} {b : BlockId} {i : Nat}
    (h : Core w) (after : w.SlotsAfter f slots) (hf : f ∈ w.flight) (hsc : w.Scheduled p sc)
    (hi : sc.cut ≤ i) (hb : sc.blockTable[i / w.config.kvBlockSize]? = some b)
    (notWritten : sc.seqId = f.seqId → i ∉ f.item.writtenPositions) :
    slots (b * w.config.kvBlockSize + i % w.config.kvBlockSize) =
      w.slots (b * w.config.kvBlockSize + i % w.config.kvBlockSize) := by
  rcases after with rfl | ⟨hfits, rfl⟩
  · rfl
  · exact h.feed_slot hf hfits hsc hi hb notWritten

namespace World.Holds

variable {w' : World} {p : RequestPtr} {sc sc' : SequenceSchedulingState}

/-- The slots hold what they held, over a table that may have grown. -/
theorem same (h : w.Holds p sc) (config : w'.config = w.config) (slots : w.KeepsSlots w' p sc)
    (prompt : (w'.heap p).promptTokens = (w.heap p).promptTokens)
    (reached : w'.reached p sc' = w.reached p sc) (cut : sc.cut ≤ sc'.cut)
    (table : sc.blockTable <+: sc'.blockTable) : w'.Holds p sc' := by
  intro i hi hlt
  rw [reached] at hlt
  obtain ⟨b, token, hb, hslot, htoken⟩ := h i (cut.trans hi) hlt
  obtain ⟨hin, -⟩ := List.getElem?_eq_some_iff.mp hb
  obtain ⟨_, htable⟩ := table
  rw [config, prompt, reached]
  refine ⟨b, token, ?_, (slots i b (cut.trans hi) hlt hb).trans hslot, htoken⟩
  rw [← htable, List.getElem?_append_left hin, hb]

/-- Without items in flight and without pending tokens there is nothing to hold. -/
theorem of_idle (items : w.itemsOf sc.seqId = []) (none : sc.pendingHashTokens = []) :
    w.Holds p sc := by
  intro i hi hlt
  rw [World.reached, items] at hlt
  rw [SequenceSchedulingState.cut, none, List.length_nil, Nat.sub_zero] at hi
  exact absurd hi (Nat.not_le.mpr hlt)

end World.Holds

namespace World.HoldsAll

variable {w' : World} {p : RequestPtr} {sc : SequenceSchedulingState}
variable {q : RequestPtr} {st : RequestState} {f' : FlightItem}
variable {config : ValidConfig} {before after : List FlightItem} {token : Token}

section

variable (h : w.HoldsAll) (t : World.Step w w')
include h t

/-- A transaction under which the request keeps what it has hashed, and its items keep their
fates. -/
theorem same (hsc : w.Scheduled p sc)
    (active : (w.heap p).status = .active) {sc' : SequenceSchedulingState}
    (same : SameChain (w.heap p) sc (w'.heap p) sc')
    (reached : ∀ stream n, CcInfer.reached stream n (w'.itemsOf sc.seqId) =
      CcInfer.reached stream n (w.itemsOf sc.seqId)) (slots : w.KeepsSlots w' p sc)
    (plain : sc'.Plain) : w'.Holds p sc' := by
  rw [SequenceSchedulingState.Plain, same.admittedGenerated, same.hitBlocks] at plain
  refine (h p sc hsc active plain).same t.config_eq slots same.prompt ?_ same.cut.ge same.table
  rw [World.reached, World.reached, same.seqId, reached, same.frontier, RequestState.stream,
    RequestState.stream, same.generated, same.admittedGenerated]

/-- A transaction that touches one request object at most and no item. -/
theorem touched (heap : w'.heap = Function.update w.heap q st) (flight : w'.flight = w.flight)
    (slots : w'.slots = w.slots) (same : ∀ sc', st.scheduling = some sc' → st.status = .active →
      ∃ sc, w.Scheduled q sc ∧ (w.heap q).status = .active ∧ SameChain (w.heap q) sc st sc') :
    w'.HoldsAll := by
  intro p sc' hsc' active plain
  have hitems : ∀ seq, w'.itemsOf seq = w.itemsOf seq := fun seq => by
    rw [World.itemsOf, flight, World.itemsOf]
  obtain ⟨_, hsc, hactive, hsame⟩ := SameChain.of_touched heap same hsc' active
  exact h.same t hsc hactive hsame (fun _ _ => by rw [hitems]) (fun _ _ _ _ _ => by rw [slots])
    plain

/-- A transaction that touches no request object and no item. -/
theorem untouched (heap : w'.heap = w.heap)
    (flight : w'.flight = w.flight) (slots : w'.slots = w.slots) : w'.HoldsAll :=
  h.touched t (q := 0) (heap.trans (Function.update_eq_self 0 w.heap).symm) flight slots
    fun sc hsc active => ⟨sc, hsc, active, .refl _ _⟩

/-- A transaction about the items of another sequence. -/
theorem other (heap : w'.heap p = w.heap p) (items : w'.itemsOf sc.seqId = w.itemsOf sc.seqId)
    (slots : w.KeepsSlots w' p sc)
    (hsc' : w'.Scheduled p sc) (active : (w'.heap p).status = .active) (plain : sc.Plain) :
    w'.Holds p sc := by
  rw [World.Scheduled, heap] at hsc'
  rw [heap] at active
  refine h.same t hsc' active ?_ (fun _ _ => by rw [items]) slots plain
  rw [heap]
  exact .refl _ _

end

/-- A transaction about one scheduled request and its items. -/
theorem owned (h : w.HoldsAll) (core : Core w) (t : World.Step w w') {sc : SequenceSchedulingState}
    (heap : w'.heap = Function.update w.heap q st) (scheduled : w.Scheduled q sc)
    (items : ∀ seq, seq ≠ sc.seqId → w'.itemsOf seq = w.itemsOf seq) (slots : w'.slots = w.slots)
    (own : ∀ sc', st.scheduling = some sc' → st.status = .active → sc'.Plain → w'.Holds q sc') :
    w'.HoldsAll := by
  intro p sc' hsc' active plain
  have hheap : w'.heap p = Function.update w.heap q st p := by rw [heap]
  rcases eq_or_ne p q with rfl | hne
  · rw [Function.update_self] at hheap
    exact own sc' (by rw [← hheap]; exact hsc') (by rw [← hheap]; exact active) plain
  · rw [Function.update_of_ne hne] at hheap
    have hsc : w.Scheduled p sc' := by
      rw [World.Scheduled, ← hheap]
      exact hsc'
    have hseq : sc'.seqId ≠ sc.seqId := fun heq =>
      hne (core.positions.seq_inj _ _ _ _ hsc scheduled heq)
    exact h.other t hheap (items _ hseq) (fun _ _ _ _ _ => by rw [slots]) hsc' active plain

/-- The processed items of a request end before its item that the worker touches next. -/
theorem reached_le (run : World.Run (World.init config) w)
    (hsc : w.Scheduled p sc) (active : (w.heap p).status = .active) (plain : sc.Plain)
    (split : w.flight = before ++ f :: after)
    (hseq : sc.seqId = f.seqId) (pending : f.fate = .pending) :
    (w.reached p sc).2 ≤ f.item.context := by
  have plan := (run.flowing hsc active plain).plan
  rw [World.view_of_some hsc, World.itemsOf_split split hseq] at plan
  rw [World.reached, World.itemsOf_split split hseq, reached_append (by simp [pending])]
  exact plan.reached_le _

section

variable (h : w.HoldsAll) (run : World.Run (World.init config) w)
include h run

/-- The worker touches an item of one request, and the slots of the others stay. -/
theorem refated (t : World.Step w w')
    (split : w.flight = before ++ f :: after) (split' : w'.flight = before ++ f' :: after)
    (item : f'.item = f.item) (heap : w'.heap = w.heap) (slots : w.SlotsAfter f w'.slots)
    (own : ∀ p sc, w.Scheduled p sc → (w.heap p).status = .active → sc.Plain →
      sc.seqId = f.seqId → w'.Holds p sc) : w'.HoldsAll := by
  have core := run.core
  have hf : f ∈ w.flight := by rw [split]; simp
  have hseq' : f'.seqId = f.seqId := by rw [FlightItem.seqId, item, FlightItem.seqId]
  intro p sc hsc' active plain
  have hheap : w'.heap p = w.heap p := by rw [heap]
  have hsc : w.Scheduled p sc := by
    rw [World.Scheduled, ← hheap]
    exact hsc'
  rcases eq_or_ne sc.seqId f.seqId with hseq | hne
  · exact own p sc hsc (by rw [← hheap]; exact active) plain hseq
  · have hreplaced : w'.flight = before ++ ([f'] ++ after) := split'
    have hitems := World.itemsOf_replaced split hreplaced (by simp [hseq']) hne
    exact h.other t hheap hitems
      (fun i b hi _ hb => core.slot_kept slots hf hsc hi hb fun heq => absurd heq hne) hsc' active
      plain

/-- An item that is not processed leaves the end of the processed items where it is. -/
theorem unprocessed (t : World.Step w w') (split : w.flight = before ++ f :: after)
    (split' : w'.flight = before ++ f' :: after) (item : f'.item = f.item)
    (heap : w'.heap = w.heap) (slots : w.SlotsAfter f w'.slots) (pending : f.fate = .pending)
    (notDone : ∀ token, f'.fate ≠ .done token) : w'.HoldsAll := by
  have core := run.core
  have hf : f ∈ w.flight := by rw [split]; simp
  refine h.refated run t split split' item heap slots fun p sc hsc active plain hseq => ?_
  have hseq' : sc.seqId = f'.seqId := by rw [hseq, FlightItem.seqId, ← item, FlightItem.seqId]
  refine h.same t hsc active (by rw [heap]; exact .refl _ _) (fun stream n => ?_)
    (fun i b hi hlt hb => core.slot_kept slots hf hsc hi hb fun _ hmem => ?_) plain
  · rw [World.itemsOf_split split hseq, World.itemsOf_split split' hseq', reached_append notDone,
      reached_append (by simp [pending])]
  · have hle := reached_le run hsc active plain split hseq pending
    exact absurd (WorkItem.mem_writtenPositions.mp hmem).1 (by omega)

/-- The forward pass of an item fills its positions. -/
theorem processed (t : World.Step w w') (split : w.flight = before ++ f :: after)
    (split' : w'.flight = before ++ { f with fate := .done token } :: after)
    (heap : w'.heap = w.heap) (pending : f.fate = .pending)
    (fits : f.item.Fits w.config.kvBlockSize)
    (slots : w'.slots = (Worker.feedItem w.config.kvBlockSize w.worker
      (f.item.bind (w.latestTokens f.seqId))).slots) : w'.HoldsAll := by
  have core := run.core
  have hf : f ∈ w.flight := by rw [split]; simp
  refine h.refated run t split split' rfl heap (.inr ⟨fits, slots⟩)
    fun p sc hsc active plain hseq => ?_
  have hle := reached_le run hsc active plain split hseq pending
  have hkept : w.KeepsSlots w' p sc := fun i b hi hlt hb =>
    core.slot_kept (.inr ⟨fits, slots⟩) hf hsc hi hb fun _ hmem =>
      absurd (WorkItem.mem_writtenPositions.mp hmem).1 (by omega)
  have hitems := World.itemsOf_split split hseq
  have hitems' := World.itemsOf_split (w := w') split' hseq
  by_cases done : ∀ g ∈ before.filter (fun g => g.seqId == sc.seqId), ∃ token, g.fate = .done token
  · have flowing := run.flowing hsc active plain
    have fifo := (core.kept p (core.scheduled_lt hsc)).fates.fifo
    rw [World.view_of_some hsc, hitems] at flowing fifo
    have later : ∀ g ∈ after.filter (fun g => g.seqId == sc.seqId), g.fate = .pending :=
      fun g hg => (List.pairwise_cons.mp (List.pairwise_append.mp fifo).2.1).1 g hg pending
    obtain ⟨hat, continues⟩ := flowing.trail.at_reached done pending flowing.plan
    have hcontext := continues.context_eq
    have hold : w.reached p sc = CcInfer.reached ((w.heap p).stream sc) sc.executedFrontier
        (before.filter fun g => g.seqId == sc.seqId) := by
      rw [World.reached, hitems, reached_append (by simp [pending])]
    have hnew : w'.reached p sc = ((w.reached p sc).1 ++ f.emitted token,
        (w.reached p sc).2 + f.item.kvTokenCount) := by
      rw [World.reached, heap, hitems', reached_process done rfl later, hold]
      rfl
    rw [← hold] at hcontext
    intro i hi hlt
    rw [hnew] at hlt
    rw [t.config_eq, hnew, heap]
    rcases Nat.lt_or_ge i (w.reached p sc).2 with hbelow | habove
    · obtain ⟨b, t', hb, hslot, htoken⟩ := h p sc hsc active plain i hi hbelow
      refine ⟨b, t', hb, (hkept i b hi hbelow hb).trans hslot, ?_⟩
      obtain ⟨hin, -⟩ := List.getElem?_eq_some_iff.mp htoken
      rw [← List.append_assoc, List.getElem?_append_left hin, htoken]
    · obtain ⟨j, rfl⟩ := Nat.exists_eq_add_of_le habove
      have hj : j < f.item.kvTokenCount := Nat.lt_of_add_lt_add_left hlt
      obtain ⟨t', hids, htoken⟩ := hat.tokenIds flowing.prompt_ne continues token hj
      rw [hseq] at hids
      obtain ⟨b, hb, hslot⟩ := core.feed_written hf fits hsc hseq hj hids
      rw [hcontext, ← slots] at hslot
      rw [hcontext] at hb
      rw [← hold] at htoken
      exact ⟨b, t', hb, hslot, htoken⟩
  · -- behind a failed item nothing counts
    push Not at done
    refine h.same t hsc active (by rw [heap]; exact .refl _ _) (fun stream n => ?_) hkept plain
    rw [hitems, hitems', reached_of_stopped done, reached_of_stopped done]

/-- The retirement of a chunk moves the start of the unpublished tokens at most. -/
theorem retiredChunk (t : World.Step w w') {rest : List FlightItem}
    {chunk : PrefillChunk} {sampling : SamplingParams}
    (front : w.flight = ⟨.prefill chunk, sampling, .done token⟩ :: rest)
    (scheduled : w.Scheduled p sc) (seq : sc.seqId = chunk.seqId)
    (active : (w.heap p).status = .active)
    (more : sc.cursor.prefillCursor + chunk.promptSpan.length < (w.heap p).promptTokens.length)
    (heap : w'.heap p = { w.heap p with
      scheduling := some (sc.advanceChunk chunk (w.heap p).promptTokens.length) })
    (flight : w'.flight = rest) (slots : w'.slots = w.slots) (plain : sc.Plain) :
    w'.Holds p (sc.advanceChunk chunk (w.heap p).promptTokens.length) := by
  have core := run.core
  have hcontext : (WorkItem.prefill chunk).context = sc.executedFrontier :=
    ((core.front_geometry front scheduled seq).consecutive active).1
  have hfrontier : (sc.advanceChunk chunk (w.heap p).promptTokens.length).executedFrontier =
      sc.executedFrontier + chunk.promptSpan.length := by
    rw [SequenceSchedulingState.advanceChunk, hcontext, Nat.max_eq_right (Nat.le_add_right ..)]
  have hsample : chunk.needsSample = false := by
    have geometry :=
      (core.kept p (core.scheduled_lt scheduled)).geometry sc (by simpa using scheduled)
    have hmore := more
    rw [← World.view_req (w := w)] at hmore
    exact (run.flowing scheduled active plain).chunk_unsampled (by simpa using active) geometry
      (World.view_items_front front scheduled seq) hmore
  refine (h p sc scheduled active plain).same t.config_eq (fun _ _ _ _ _ => by rw [slots])
    (by rw [heap]) ?_ ?_ List.prefix_rfl
  · have hsplit : w.flight = [] ++ ⟨.prefill chunk, sampling, .done token⟩ :: rest := front
    have hitems := World.itemsOf_split hsplit seq
    rw [World.reached, World.reached, hitems, List.filter_nil, List.nil_append,
      reached_cons_done _ _ rfl, hfrontier, heap]
    simp only [FlightItem.emitted, WorkItem.samples, hsample, Bool.false_eq_true, if_false,
      List.append_nil, WorkItem.kvTokenCount, World.itemsOf, flight]
    rfl
  · rw [SequenceSchedulingState.cut, SequenceSchedulingState.cut, hfrontier]
    exact Nat.sub_le_sub_right (Nat.le_add_right ..) _

/-- The retirement of an item publishes its first tokens at most. -/
theorem settled (r : w.Retirement p) (plain : r.sc'.Plain) : r.after.Holds p r.sc' := by
  have settling := run.settling r plain
  have hprompt : (r.after.heap p).promptTokens = (w.heap p).promptTokens := by
    simp [World.settled, RequestState.retired]
  have hstream : (r.after.heap p).stream r.sc' = (w.heap p).stream r.sc ++ [r.token] := by
    have htokens := settling.tokens
    rw [RequestState.tokens, hprompt, RequestState.tokens, List.append_assoc] at htokens
    exact List.append_cancel_left htokens
  refine (h p r.sc r.scheduled r.active settling.plain).same r.step.config_eq
    (fun _ _ _ _ _ => rfl) hprompt ?_
    (settling.before.cut_le settling.after (by rw [settling.frontier]; exact Nat.le_add_right ..))
    (by rw [settling.same.blockTable])
  have hsplit : w.flight = [] ++ r.flight :: r.rest := r.front
  have hitems := World.itemsOf_split hsplit r.seq
  rw [World.reached, World.reached, hitems, List.filter_nil, List.nil_append,
    reached_cons_done _ _ rfl, settling.frontier, hstream, settling.same.seqId]
  simp only [FlightItem.emitted, (run.settled_phase r settling.plain).1, if_true]
  rfl

/-- Every transaction keeps the tokens in the slots. -/
theorem step (t : World.Step w w') : w'.HoldsAll := by
  have core := run.core
  have t₀ := t
  cases t with
  | note | close | reorder | blocks | resume | preempt => exact h.untouched t₀ rfl rfl rfl
  | register | cancel | finish | fail | park | drop =>
    refine h.touched t₀ rfl rfl rfl fun _ hsc hactive => ?_
    first | cases hsc | cases hactive
  | expire =>
    exact h.touched t₀ rfl rfl rfl fun sc' hsc' active =>
      ⟨sc', hsc', active, rfl, rfl, rfl, rfl, rfl, rfl, rfl, rfl, List.prefix_rfl⟩
  | grow _ sc _ _ _ _ scheduled active =>
    refine h.touched t₀ rfl rfl rfl ?_
    rintro _ ⟨⟩ -
    exact ⟨sc, scheduled, active, rfl, rfl, rfl, rfl, rfl, rfl, rfl, rfl, List.prefix_append _ _⟩
  | dispatch _ sc item _ _ scheduled active itemFor =>
    have hseq : item.seqId = sc.seqId := itemFor.seqId_eq
    refine h.owned core t₀ rfl scheduled (fun seq hne => ?_) rfl ?_
    · simp [World.itemsOf, FlightItem.seqId, hseq, hne.symm]
    · rintro _ ⟨⟩ - plain
      refine h.same t₀ scheduled active ?_ (fun stream n => ?_) (fun _ _ _ _ _ => rfl) plain
      · simp only [World.setRequest, Function.update_self]
        exact ⟨rfl, rfl, rfl, rfl, rfl, rfl, rfl, rfl, List.prefix_rfl⟩
      · -- the new item is pending
        rw [World.itemsOf, List.filter_append, List.filter_cons_of_pos (by
          simp [FlightItem.seqId, hseq]), reached_append (by simp)]
        rfl
  | admission q _ _ hits parent blocks =>
    intro p sc' hsc' active plain
    rcases eq_or_ne p q with rfl | hne
    · obtain rfl : (w.heap p).admitScheduling w.kv.pool.blockSize w.nextSeqId
          ⟨hits.map (·.blockId) ++ blocks, hits.length, parent⟩ = sc' := by
        simpa [World.Scheduled] using hsc'
      exact .of_idle (core.flights.itemsOf_fresh core.positions) rfl
    · exact h.other t₀ (Function.update_of_ne hne ..) rfl (fun _ _ _ _ _ => rfl) hsc' active plain
  | discard _ _ _ _ _ split _ scheduled seq ignored =>
    exact h.owned core t₀ rfl scheduled
      (fun _ hne => World.itemsOf_removed split rfl fun heq => hne (heq.trans seq.symm)) rfl
      fun _ _ active => absurd active (core.discarded_inactive split scheduled seq ignored)
  | retireChunk rest chunk sampling token _ _ front _ scheduled seq active more =>
    have hsplit : w.flight = [] ++ ⟨.prefill chunk, sampling, .done token⟩ :: rest := front
    refine h.owned core t₀ rfl scheduled
      (fun _ hne => World.itemsOf_removed hsplit rfl fun heq => hne (heq.trans seq.symm)) rfl ?_
    rintro _ ⟨⟩ - plain
    exact h.retiredChunk run t₀ front scheduled seq active more (Function.update_self ..) rfl rfl
      plain
  | retire rest item sampling token _ _ _ _ _ front running scheduled seq active settles =>
    have hsplit : w.flight = [] ++ ⟨item, sampling, .done token⟩ :: rest := front
    refine h.owned core t₀ rfl scheduled
      (fun _ hne => World.itemsOf_removed hsplit rfl fun heq => hne (heq.trans seq.symm)) rfl ?_
    rintro _ ⟨⟩ - plain
    exact h.settled run ⟨_, _, _, _, _, _, _, _, front, running, scheduled, seq, active, settles⟩
      plain
  | process _ _ f token split _ pending _ fits =>
    exact h.processed run t₀ split rfl rfl pending fits (w.processed_fields f token).2.2.2.2
  | skipStale _ _ _ split _ pending =>
    exact h.unprocessed run t₀ split rfl rfl rfl (.inl rfl) pending fun _ hdone => by cases hdone
  | processFail _ _ _ _ _ split _ pending fails =>
    exact h.unprocessed run t₀ split rfl rfl rfl fails.slotsAfter pending
      fun _ hdone => by cases hdone

end

end World.HoldsAll

/-- In every run the slots of an active request hold its tokens. -/
theorem World.Run.holds {config : ValidConfig}
    (run : World.Run (World.init config) w) : w.HoldsAll :=
  (Runs.invariant (I := fun x => World.Run (World.init config) x ∧ x.HoldsAll)
    (fun _ _ h t => ⟨h.1.tail t, h.2.step h.1 t⟩) ⟨.refl, fun _ _ hsc => nomatch hsc⟩ run).2

end CcInfer
