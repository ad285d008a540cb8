import CcInfer.Refine.Retire

/-!
# `CcInfer.Refine.Work`: the worker processes a batch item by item

`process_batch` binds all items of a batch against the state before the batch, runs one
forward pass, and then sorts live and stale results back into the order of the batch. The
sequences of a batch are distinct, so this is the same as processing the items one after
the other: no item of the batch reads what another one writes.
-/

set_option autoImplicit false

namespace CcInfer

open Worker

namespace World

variable (s : Scheduler) (fl : List FlightItem) (k : Worker)

theorem of_workerAssert (b : Bool) (site : AssertSite) :
    World.of s fl (k.assert b site) = World.of s fl k := by
  unfold assert
  split <;> rfl

end World

namespace Worker

/-! ### Failures -/

/-- Marks and KV writes do not read each other. -/
theorem feedItem_failed (blockSize : Nat) (k : Worker) (failed : SequenceId → Bool)
    (item : WorkItem) : feedItem blockSize { k with failedSequences := failed } item =
      { feedItem blockSize k item with failedSequences := failed } := by
  unfold feedItem
  split <;> rfl

theorem foldl_feedItem_failed (blockSize : Nat) (failed : SequenceId → Bool)
    (items : List WorkItem) : ∀ k : Worker,
    items.foldl (feedItem blockSize) { k with failedSequences := failed } =
      { items.foldl (feedItem blockSize) k with failedSequences := failed } := by
  induction items with
  | nil => intro k; rfl
  | cons _ _ ih =>
    intro k
    rw [List.foldl_cons, feedItem_failed, ih, List.foldl_cons]

theorem foldl_feedItem_failedSequences (blockSize : Nat) (items : List WorkItem) : ∀ k : Worker,
    (items.foldl (feedItem blockSize) k).failedSequences = k.failedSequences := by
  induction items with
  | nil => intro k; rfl
  | cons item _ ih =>
    intro k
    rw [List.foldl_cons, ih, (feedItem_fields blockSize k item).2.1]

/-- Binding reads the latest tokens only. -/
theorem bindLate_congr {k k' : Worker} (h : k'.latestTokens = k.latestTokens) :
    k'.bindLate = k.bindLate := by
  funext item
  rw [bindLate_eq, bindLate_eq, h]

/-- What a failing batch does to one item: nothing to a stale one, and to a live one the
mark, after its KV writes if the forward pass ran. -/
def failOne (blockSize : Nat) (stale : WorkItem → Bool) (fed : Bool) (k : Worker)
    (item : WorkItem) : Worker :=
  if stale item then k
  else if fed then (feedItem blockSize k (k.bindLate item)).failSequences [item]
  else k.failSequences [item]

/-- The forward pass runs over items that fit their tables. -/
theorem failOne_fails (blockSize : Nat) (stale : WorkItem → Bool) (fed : Bool) (k : Worker)
    (item : WorkItem) (fits : fed = true → stale item = false → item.Fits blockSize) :
    WorkerFails blockSize k item (failOne blockSize stale fed k item) := by
  unfold failOne
  split
  · exact .untouched
  · rename_i hlive
    split
    · rename_i hfed
      exact .fed (fits hfed (Bool.eq_false_iff.mpr hlive))
    · exact .marked

/-- Item by item, a failing batch feeds its live items and marks their sequences. -/
theorem foldl_failOne (blockSize : Nat) (stale : WorkItem → Bool) (fed : Bool)
    (items : List WorkItem) : ∀ k : Worker, items.foldl (failOne blockSize stale fed) k =
      (if fed then ((items.filter (fun i => !stale i)).map k.bindLate).foldl (feedItem blockSize) k
      else k).failSequences (items.filter (fun i => !stale i)) := by
  induction items with
  | nil =>
    intro k
    cases fed <;> simp [failSequences]
  | cons item _ ih =>
    intro k
    rw [List.foldl_cons, ih]
    unfold failOne
    by_cases hstale : stale item = true
    · simp [hstale]
    · cases fed with
      | false => simp [hstale, failSequences, Bool.or_assoc]
      | true =>
        have hbind : ((feedItem blockSize k (k.bindLate item)).failSequences [item]).bindLate =
            k.bindLate := bindLate_congr (feedItem_fields blockSize k (k.bindLate item)).1
        simp only [hstale, if_true, if_false, Bool.false_eq_true, hbind, List.filter_cons,
          Bool.not_false, List.map_cons, List.foldl_cons]
        simp only [failSequences, foldl_feedItem_failed, foldl_feedItem_failedSequences,
          List.any_cons, List.any_nil,
          Bool.or_false, Bool.or_assoc]

/-- `resolve_batch` answers a stale item itself. -/
theorem resolveLoop_stale {k : Worker} {item : WorkItem} (index : Nat) (rest : List WorkItem)
    (h : k.failedSequences item.seqId = true) :
    k.resolveLoop index (item :: rest) =
      { k.resolveLoop (index + 1) rest with
        staleResults := staleResult index item ::
          (k.resolveLoop (index + 1) rest).staleResults } := by
  rw [resolveLoop, if_pos h]

/-- `resolve_batch` binds a live item and keeps its place. -/
theorem resolveLoop_live {k : Worker} {item : WorkItem} (index : Nat) (rest : List WorkItem)
    (h : ¬ k.failedSequences item.seqId = true) :
    k.resolveLoop index (item :: rest) =
      { k.resolveLoop (index + 1) rest with
        items := k.bindLate item :: (k.resolveLoop (index + 1) rest).items
        originalIndices := index :: (k.resolveLoop (index + 1) rest).originalIndices } := by
  rw [resolveLoop, if_neg h]

/-- The live items of a resolved batch, bound. -/
theorem resolveLoop_items (k : Worker) (items : List WorkItem) : ∀ index : Nat,
    (k.resolveLoop index items).items =
      (items.filter (fun i => !k.failedSequences i.seqId)).map k.bindLate := by
  induction items with
  | nil => intro index; rfl
  | cons item _ ih =>
    intro index
    by_cases hstale : k.failedSequences item.seqId = true
    · simp [resolveLoop_stale _ _ hstale, hstale, ih]
    · simp [resolveLoop_live _ _ hstale, hstale, ih]

/-- The live items of a batch that passes the assertions of `translate` fit their tables. -/
theorem fits_of_translatable {k : Worker} {blockSize : Nat} {batch : ScheduledBatch}
    (h : (k.resolveBatch batch).items.all (·.translatable blockSize) = true) :
    ∀ item ∈ batch.items, k.failedSequences item.seqId = false → item.Fits blockSize := by
  intro item hitem hlive
  rw [resolveBatch, resolveLoop_items, List.all_map, List.all_eq_true] at h
  have hfits := h item (List.mem_filter.mpr ⟨hitem, by rw [hlive]; rfl⟩)
  simp only [Function.comp_apply, WorkItem.translatable, bindLate_eq, Bool.and_eq_true,
    decide_eq_true_eq, WorkItem.bind_frame] at hfits
  exact hfits.2

/-- `resolve_batch` does not read the log of assertions. -/
theorem resolveBatch_assert (k : Worker) (b : Bool) (site : AssertSite) (batch : ScheduledBatch) :
    (k.assert b site).resolveBatch batch = k.resolveBatch batch := by
  have hloop : ∀ asserts items index,
      resolveLoop { k with failedAsserts := asserts } index items = k.resolveLoop index items := by
    intro asserts items
    induction items with
    | nil => intro index; rfl
    | cons _ _ ih =>
      intro index
      simp only [resolveLoop, ih]
      rfl
  unfold assert
  split
  · rfl
  · exact hloop _ _ _

/-- Stale results come in the order of the batch. -/
theorem staleResults_sorted (k : Worker) (items : List WorkItem) : ∀ index : Nat,
    (k.resolveLoop index items).staleResults.Pairwise (fun a b => a.itemIndex ≤ b.itemIndex) ∧
    ∀ r ∈ (k.resolveLoop index items).staleResults, index ≤ r.itemIndex := by
  induction items with
  | nil => intro index; exact ⟨.nil, nofun⟩
  | cons item _ ih =>
    intro index
    obtain ⟨hsorted, hlow⟩ := ih (index + 1)
    by_cases hstale : k.failedSequences item.seqId = true
    · rw [resolveLoop_stale _ _ hstale]
      refine ⟨.cons (fun r hr => Nat.le_of_succ_le (hlow r hr)) hsorted, fun r hr => ?_⟩
      rcases List.mem_cons.mp hr with rfl | hr
      · exact le_rfl
      · exact Nat.le_of_succ_le (hlow r hr)
    · rw [resolveLoop_live _ _ hstale]
      exact ⟨hsorted, fun r hr => Nat.le_of_succ_le (hlow r hr)⟩

/-! ### Success -/

/-- The latest token reads the sampled token and the sequence of the result only. -/
theorem updateLatest_index (k : Worker) (sampling : SamplingParams) (index index' : Nat)
    (item : WorkItem) (latest : Option Token) (token : Token) :
    k.updateLatest item (itemResult sampling index (item.bind latest) token) =
      k.updateLatest item (itemResult sampling index' item token) := by
  unfold updateLatest itemResult
  simp only [WorkItem.bind_frame]

/-- An item is processed the same whichever batch it stands in. -/
theorem processItem_original (seed : SequenceId → List Token) (blockSize index : Nat)
    (sampling : SamplingParams) {original : List WorkItem} (k : Worker) (item : WorkItem)
    (latest : Option Token) (token : Token) (found : original[index]? = some item) :
    (processItem seed blockSize sampling original k (item.bind latest) index token).2 =
      (processItem seed blockSize sampling [] k (item.bind latest) 0 token).2 := by
  simp only [processItem, List.getD_nil, updateLatest_eq]
  rw [List.getD_eq_getElem?_getD, found, Option.getD_some, updateLatest_index _ _ index 0,
    updateLatest_eq]
  simp only [WorkItem.bind_frame]

end Worker

/-- The failure of an item does not depend on the log of assertions. -/
theorem WorkerFails.of_world {blockSize : Nat} {k k' : Worker} {item : WorkItem}
    (h : WorkerFails blockSize k item k') (s : Scheduler) (fl : List FlightItem) :
    WorkerFails blockSize (World.of s fl k).worker item { k' with failedAsserts := [] } := by
  have hfeed : ∀ item, { feedItem blockSize k item with failedAsserts := [] } =
      feedItem blockSize (World.of s fl k).worker item := by
    intro item
    unfold feedItem
    split <;> rfl
  cases h with
  | untouched => exact .untouched
  | marked => exact .marked
  | fed fits =>
    have hbind : k.bindLate item = (World.of s fl k).worker.bindLate item := by
      rw [bindLate_eq, bindLate_eq]
      rfl
    have : { (feedItem blockSize k (k.bindLate item)).failSequences [item] with
        failedAsserts := [] } =
        (feedItem blockSize (World.of s fl k).worker
          ((World.of s fl k).worker.bindLate item)).failSequences [item] := by
      rw [← hbind, ← hfeed]
      rfl
    rw [this]
    exact .fed fits

section

variable {s : Scheduler} {before : List FlightItem} (after : List FlightItem)
  (oldest : ∀ g ∈ before, g.fate ≠ .pending)

include oldest

/-- A batch fails item by item. -/
theorem World.run_failed (err : ErrorCode) {step : Worker → WorkItem → Worker}
    (fl : List FlightItem) : ∀ (k : Worker), (∀ f ∈ fl, f.fate = .pending) →
    (∀ f ∈ fl, ∀ k, WorkerFails s.config.kvBlockSize k f.item (step k f.item)) →
    World.Run (World.of s (before ++ fl ++ after) k)
      (World.of s (before ++ fl.map (fun f => { f with fate := .failed err }) ++ after)
        ((fl.map (·.item)).foldl step k)) := by
  induction fl generalizing before with
  | nil => intro k _ _; exact .refl
  | cons f rest ih =>
    intro k pending fails
    have hstep := World.Step.processFail (World.of s (before ++ f :: rest ++ after) k) before
      (rest ++ after) f err { step k f.item with failedAsserts := [] }
      (by simp [World.of]) oldest (pending f List.mem_cons_self)
      ((fails f List.mem_cons_self k).of_world s _)
    have hrest :=
      ih (fun (g : FlightItem) (hg : g ∈ before ++ [{ f with fate := .failed err }]) => by
        rcases List.mem_append.mp hg with hg | hg
        · exact oldest g hg
        · rw [List.mem_singleton.mp hg]; simp)
      (step k f.item) (fun g hg => pending g (List.mem_cons_of_mem _ hg))
      (fun g hg => fails g (List.mem_cons_of_mem _ hg))
    refine .head hstep ?_
    simpa [World.of, World.withWorker] using hrest

end

/-- The forward pass of one item, in the code and as a transaction. -/
theorem World.of_processItem (s : Scheduler) (fl : List FlightItem) (k : Worker) (f : FlightItem)
    (token : Token) :
    World.of s fl (processItem s.hitTokens s.config.kvBlockSize f.sampling [] k
      (k.bindLate f.item) 0 token).2 =
      (World.of s fl k).withWorker ((World.of s fl k).processed f token) := by
  obtain ⟨h1, h2, h3, h4, h5⟩ := processItem_fields s.hitTokens s.config.kvBlockSize 0
    f.sampling k (k.bindLate f.item) token
  obtain ⟨g1, g2, g3, g4, g5⟩ := (World.of s fl k).processed_fields f token
  rw [bindLate_eq] at *
  simp only [WorkItem.bind_frame] at h1 h3 h4
  have hslots : ∀ item, (feedItem s.config.kvBlockSize (World.of s fl k).worker item).slots =
      (feedItem s.config.kvBlockSize k item).slots := by
    intro item
    unfold feedItem
    split <;> rfl
  unfold World.withWorker
  rw [g1, g2, g3, g4, g5]
  unfold World.of
  rw [h1, h2, h3, h4, h5]
  congr 1
  exact (hslots _).symm

/-- What a successful batch makes of its items. A stale item takes no sampled token. -/
def settleAll (stale : SequenceId → Bool) : List FlightItem → List Token → List FlightItem
  | [], _ => []
  | f :: rest, tokens =>
    if stale f.seqId then { f with fate := .stale } :: settleAll stale rest tokens
    else { f with fate := .done (tokens.headD 0) } :: settleAll stale rest tokens.tail

section

variable (stale : SequenceId → Bool) (fl : List FlightItem)
include stale fl

theorem settleAll_items : ∀ tokens, (settleAll stale fl tokens).map (·.item) = fl.map (·.item) := by
  induction fl with
  | nil => intro tokens; rfl
  | cons _ _ ih =>
    intro tokens
    unfold settleAll
    split <;> simp [ih]

/-- Nothing is pending afterwards. -/
theorem settleAll_processed :
    ∀ tokens, ∀ f ∈ settleAll stale fl tokens, f.fate = .stale ∨ ∃ token, f.fate = .done token := by
  induction fl with
  | nil => intro tokens f hf; cases hf
  | cons _ _ ih =>
    intro tokens g hg
    unfold settleAll at hg
    split at hg
    · rcases List.mem_cons.mp hg with rfl | hg
      · exact .inl rfl
      · exact ih _ g hg
    · rcases List.mem_cons.mp hg with rfl | hg
      · exact .inr ⟨_, rfl⟩
      · exact ih _ g hg

/-- The parameters stay. -/
theorem settleAll_sampling {sampling : SamplingParams} (h : ∀ f ∈ fl, f.sampling = sampling) :
    ∀ tokens, ∀ f ∈ settleAll stale fl tokens, f.sampling = sampling := by
  induction fl with
  | nil => intro tokens f hf; cases hf
  | cons f _ ih =>
    intro tokens g hg
    have hrest := ih (fun g hg => h g (List.mem_cons_of_mem _ hg))
    unfold settleAll at hg
    split at hg <;>
    · rcases List.mem_cons.mp hg with rfl | hg
      · exact h f List.mem_cons_self
      · exact hrest _ g hg

end

/-- Live and stale results together are the results of the settled items, in some order. -/
theorem Worker.processLoop_results (seed : SequenceId → List Token) (blockSize : Nat)
    (sampling : SamplingParams) (original : List WorkItem) (k₀ : Worker) (fl : List FlightItem) :
    ∀ (k : Worker) (index : Nat) (tokens : List Token), (∀ f ∈ fl, f.sampling = sampling) →
    let resolved := k₀.resolveLoop index (fl.map (·.item))
    ((processLoop seed blockSize sampling original k resolved.items resolved.originalIndices
      tokens).1 ++ resolved.staleResults).Perm
      ((settleAll k₀.failedSequences fl tokens).mapIdx fun i f => f.result (index + i)) := by
  induction fl with
  | nil => intro k index tokens _; exact .nil
  | cons f rest ih =>
    intro k index tokens hsampling
    have hrest : ∀ g ∈ rest, g.sampling = sampling :=
      fun g hg => hsampling g (List.mem_cons_of_mem _ hg)
    have hshift : ∀ l : List FlightItem,
        l.mapIdx (fun i f => f.result (index + (i + 1))) =
          l.mapIdx (fun i f => f.result (index + 1 + i)) := by
      intro l
      simp only [Nat.add_assoc, Nat.add_comm 1]
    unfold settleAll
    rw [List.map_cons]
    by_cases hstale : k₀.failedSequences f.seqId = true
    · rw [resolveLoop_stale index _ hstale, if_pos hstale, List.mapIdx_cons, hshift]
      exact List.perm_middle.trans ((ih k (index + 1) tokens hrest).cons _)
    · have hres : (processItem seed blockSize sampling original k (k₀.bindLate f.item) index
          (tokens.headD 0)).1 =
          FlightItem.result { f with fate := .done (tokens.headD 0) } (index + 0) := by
        simp [processItem, FlightItem.result, itemResult, bindLate_eq,
          hsampling f List.mem_cons_self]
      rw [resolveLoop_live index _ hstale, if_neg hstale, List.mapIdx_cons, hshift, ← hres]
      exact (ih _ (index + 1) tokens.tail hrest).cons _

section

variable {s : Scheduler} {after : List FlightItem} {sampling : SamplingParams}
  {original : List WorkItem} {k₀ : Worker}

/-- A batch succeeds item by item. The induction goes over the items that are left; their
sequences are distinct from the ones processed, so the worker `k` still binds them as the
worker `k₀` did that resolved the batch. -/
theorem World.run_sampled (fl : List FlightItem) : ∀ (before : List FlightItem) (k : Worker)
    (index : Nat) (tokens : List Token), (∀ g ∈ before, g.fate ≠ .pending) →
    (∀ f ∈ fl, f.fate = .pending) → (∀ f ∈ fl, f.sampling = sampling) →
    (fl.map (·.seqId)).Nodup → original.drop index = fl.map (·.item) →
    k.failedSequences = k₀.failedSequences →
    (∀ f ∈ fl, k.latestTokens f.seqId = k₀.latestTokens f.seqId) →
    (∀ f ∈ fl, k₀.failedSequences f.seqId = false → f.item.Fits s.config.kvBlockSize) →
    World.Run (World.of s (before ++ fl ++ after) k)
      (World.of s (before ++ settleAll k₀.failedSequences fl tokens ++ after)
        (processLoop s.hitTokens s.config.kvBlockSize sampling original k
          (k₀.resolveLoop index (fl.map (·.item))).items
          (k₀.resolveLoop index (fl.map (·.item))).originalIndices tokens).2) := by
  induction fl with
  | nil => intros; exact .refl
  | cons f rest ih =>
    intro before k index tokens oldest pending hsampling nodup horig hfailed hlatest fits
    rw [List.map_cons] at nodup horig
    obtain ⟨hnew, nodup⟩ := List.nodup_cons.mp nodup
    have hfound : original[index]? = some f.item := by
      rw [← List.head?_drop, horig]
      rfl
    have horig' : original.drop (index + 1) = rest.map (·.item) := by
      rw [← List.drop_drop, horig]
      rfl
    have holdest : ∀ fate, fate ≠ .pending →
        ∀ g ∈ before ++ [{ f with fate := fate }], g.fate ≠ .pending := by
      intro fate hfate g hg
      rcases List.mem_append.mp hg with hg | hg
      · exact oldest g hg
      · rw [List.mem_singleton.mp hg]; exact hfate
    have hrest := fun before k tokens oldest hfailed hlatest =>
      ih before k (index + 1) tokens oldest (fun g hg => pending g (List.mem_cons_of_mem _ hg))
        (fun g hg => hsampling g (List.mem_cons_of_mem _ hg)) nodup horig' hfailed hlatest
        (fun g hg => fits g (List.mem_cons_of_mem _ hg))
    have hlatest' : ∀ g ∈ rest, k.latestTokens g.seqId = k₀.latestTokens g.seqId :=
      fun g hg => hlatest g (List.mem_cons_of_mem _ hg)
    unfold settleAll
    rw [List.map_cons]
    by_cases hstale : k₀.failedSequences f.seqId = true
    · rw [resolveLoop_stale index _ hstale, if_pos hstale]
      have hstep := World.Step.skipStale (World.of s (before ++ f :: rest ++ after) k) before
        (rest ++ after) f (by simp [World.of]) oldest (pending f List.mem_cons_self)
        (show k.failedSequences f.seqId = true from hfailed ▸ hstale)
      have hnext := hrest (before ++ [{ f with fate := .stale }]) k tokens
        (holdest .stale (by simp)) hfailed hlatest'
      refine .head hstep ?_
      simpa [World.of] using hnext
    · rw [resolveLoop_live index _ hstale, if_neg hstale]
      have hstep := World.Step.process (World.of s (before ++ f :: rest ++ after) k) before
        (rest ++ after) f (tokens.headD 0) (by simp [World.of]) oldest
        (pending f List.mem_cons_self)
        (show k.failedSequences f.seqId = false by
          rw [hfailed]; exact Bool.eq_false_iff.mpr hstale)
        (fits f List.mem_cons_self (Bool.eq_false_iff.mpr hstale))
      have hbind : k₀.bindLate f.item = k.bindLate f.item := by
        rw [bindLate_eq, bindLate_eq]
        exact congrArg (fun l => f.item.bind l) (hlatest f List.mem_cons_self).symm
      simp only [processLoop]
      rw [hbind, bindLate_eq, processItem_original _ _ _ _ _ _ _ _ hfound,
        ← bindLate_eq, ← hsampling f List.mem_cons_self]
      generalize hk : (processItem s.hitTokens s.config.kvBlockSize f.sampling [] k
        (k.bindLate f.item) 0 (tokens.headD 0)).2 = k'
      obtain ⟨h1, h2, -⟩ := processItem_fields s.hitTokens s.config.kvBlockSize 0
        f.sampling k (k.bindLate f.item) (tokens.headD 0)
      rw [hk, bindLate_eq] at h1
      simp only [WorkItem.bind_frame] at h1
      rw [hk] at h2
      have hnext := hrest (before ++ [{ f with fate := .done (tokens.headD 0) }]) k' tokens.tail
        (holdest (.done _) (by simp)) (h2.trans hfailed) (by
          intro g hg
          have hne : g.seqId ≠ f.item.seqId := fun heq =>
            hnew (List.mem_map.mpr ⟨g, hg, heq⟩)
          rw [h1, Function.update_of_ne hne]
          exact hlatest' g hg)
      refine .head hstep ?_
      rw [← World.of_processItem, hk]
      simpa [World.of, hsampling f List.mem_cons_self] using hnext

end

/-! ### A whole batch -/

theorem FlightItem.result_itemIndex (f : FlightItem) (index : Nat) :
    (f.result index).itemIndex = index := by
  unfold FlightItem.result
  split <;> rfl

/-- The results of a batch, sorted by their index, stand in the order of the batch. -/
theorem FlightItem.sorted_results {results : List WorkItemResult} {fl : List FlightItem}
    (perm : results.Perm (fl.mapIdx fun i f => f.result i)) :
    results.insertionSort (fun a b => a.itemIndex ≤ b.itemIndex) =
      fl.mapIdx fun i f => f.result i := by
  let before : WorkItemResult → WorkItemResult → Prop := fun a b => a.itemIndex ≤ b.itemIndex
  have : Std.Total before := ⟨fun a b => Nat.le_total a.itemIndex b.itemIndex⟩
  have : IsTrans WorkItemResult before := ⟨fun _ _ _ hab hbc => Nat.le_trans hab hbc⟩
  have hperm := (List.perm_insertionSort before results).trans perm
  refine List.Perm.eq_of_pairwise ?_ (List.pairwise_insertionSort before results) ?_ hperm
  · -- equal indices are equal places of the list
    intro a b ha hb hab hba
    obtain ⟨i, _, rfl⟩ := List.mem_mapIdx.mp (hperm.mem_iff.mp ha)
    obtain ⟨j, _, rfl⟩ := List.mem_mapIdx.mp hb
    have hij : i = j := by
      have := Nat.le_antisymm hab hba
      rwa [result_itemIndex, result_itemIndex] at this
    subst hij
    rfl
  · rw [List.pairwise_iff_getElem]
    intro i j hi hj hij
    simp only [before, List.getElem_mapIdx, result_itemIndex]
    exact hij.le

namespace Carries

variable {b : InFlightBatch} {fl : List FlightItem}

/-- The items of a batch that failed. -/
theorem fails (h : Carries b fl) (err : ErrorCode) : Carries { b with future := some (.error err) }
      (fl.map fun f => { f with fate := .failed err }) where
  items := by rw [List.map_map]; exact h.items
  sampling := by
    intro f hf
    obtain ⟨g, hg, rfl⟩ := List.mem_map.mp hf
    exact h.sampling g hg
  nodup := h.nodup
  pending := nofun
  failed := by
    rintro _ ⟨⟩ _ hf
    obtain ⟨_, _, rfl⟩ := List.mem_map.mp hf
    rfl
  processed := nofun

/-- The items of a batch that was processed. -/
theorem succeeds (h : Carries b fl) (stale : SequenceId → Bool) (tokens : List Token) :
    Carries { b with future := some (.ok ⟨b.batch.batchId,
        (settleAll stale fl tokens).mapIdx fun i f => f.result i⟩) }
      (settleAll stale fl tokens) where
  items := by rw [settleAll_items]; exact h.items
  sampling := settleAll_sampling stale fl h.sampling tokens
  nodup := h.nodup
  pending := nofun
  failed := nofun
  processed := by
    rintro _ ⟨⟩
    exact ⟨rfl, settleAll_processed stale fl tokens⟩

end Carries

section

variable {s : Scheduler} {before after : List FlightItem} {k : Worker} {b : InFlightBatch}
  {fl : List FlightItem} (oldest : ∀ g ∈ before, g.fate ≠ .pending) (carries : Carries b fl)
  (unresolved : b.future = none)

/-- The worker `k` answers the batch `b`, which carries `fl` and stands between `before` and
`after`, by transactions. -/
def Answers (s : Scheduler) (before after : List FlightItem) (b : InFlightBatch)
    (fl : List FlightItem) (k : Worker) (answer : Result BatchResult × Worker) : Prop :=
  ∃ fl', Carries { b with future := some answer.1 } fl' ∧
    World.Run (World.of s (before ++ fl ++ after) k) (World.of s (before ++ fl' ++ after) answer.2)

include oldest carries unresolved

/-- A failure that marks the live sequences, after the forward pass or without it. -/
theorem Answers.fail (err : ErrorCode) (fed : Bool) {k' : Worker}
    (same : World.of s (before ++ fl ++ after) k' = World.of s (before ++ fl ++ after) k)
    (fits : fed = true → ∀ item ∈ b.batch.items, k'.failedSequences item.seqId = false →
      item.Fits s.config.kvBlockSize) : Answers s before after b fl k (.error err, (if fed then
          (k'.resolveBatch b.batch).items.foldl (feedItem s.config.kvBlockSize) k'
        else k').failSequences (k'.resolveBatch b.batch).items) := by
  have hrun := World.run_failed after oldest err fl k' (carries.pending unresolved) fun f hf k =>
    failOne_fails s.config.kvBlockSize (fun i => k'.failedSequences i.seqId) fed k f.item
      fun hfed => fits hfed f.item (carries.items ▸ List.mem_map_of_mem hf)
  rw [same, foldl_failOne, carries.items] at hrun
  refine ⟨_, carries.fails err, ?_⟩
  have hmarks : ∀ (k₁ : Worker) (items : List WorkItem),
      k₁.failSequences (items.map k'.bindLate) = k₁.failSequences items := by
    intro k₁ items
    simp [failSequences, List.any_map, Function.comp_def, bindLate_eq]
  rw [resolveBatch, resolveLoop_items, hmarks]
  exact hrun

/-- The worker has stopped: nothing is touched. -/
theorem Answers.stop (err : ErrorCode) : Answers s before after b fl k (.error err, k) := by
  let same : Worker → WorkItem → Worker := fun k _ => k
  have hfails : ∀ f ∈ fl, ∀ k, WorkerFails s.config.kvBlockSize k f.item (same k f.item) :=
    fun _ _ _ => .untouched
  have hrun := World.run_failed after oldest err fl k (carries.pending unresolved) hfails
  have hk : ∀ items : List WorkItem, items.foldl same k = k := by
    intro items
    induction items with
    | nil => rfl
    | cons _ _ ih => exact ih
  rw [hk] at hrun
  exact ⟨_, carries.fails err, hrun⟩

/-- The forward pass ran: the live items are done and the others stale. -/
theorem Answers.sample (tokens : List Token) {k' : Worker}
    (same : World.of s (before ++ fl ++ after) k' = World.of s (before ++ fl ++ after) k)
    (fits : (k'.resolveBatch b.batch).items.all (·.translatable s.config.kvBlockSize) = true) :
    Answers s before after b fl k (.ok ⟨b.batch.batchId,
        ((processLoop s.hitTokens s.config.kvBlockSize b.batch.sampling b.batch.items k'
          (k'.resolveBatch b.batch).items (k'.resolveBatch b.batch).originalIndices tokens).1 ++
          (k'.resolveBatch b.batch).staleResults).insertionSort
          (fun a b => a.itemIndex ≤ b.itemIndex)⟩,
      (processLoop s.hitTokens s.config.kvBlockSize b.batch.sampling b.batch.items k'
        (k'.resolveBatch b.batch).items (k'.resolveBatch b.batch).originalIndices tokens).2) := by
  have hnodup : (fl.map (·.seqId)).Nodup := by
    have := carries.nodup
    rwa [← carries.items, List.map_map] at this
  have hrun : World.Run (World.of s (before ++ fl ++ after) k') _ :=
    World.run_sampled fl before k' 0 tokens oldest (carries.pending unresolved) carries.sampling
      hnodup (by rw [List.drop_zero, carries.items]) rfl (fun _ _ => rfl) fun f hf =>
        fits_of_translatable fits f.item (carries.items ▸ List.mem_map_of_mem hf)
  have hperm := processLoop_results s.hitTokens s.config.kvBlockSize b.batch.sampling
    b.batch.items k' fl k' 0 tokens carries.sampling
  rw [carries.items, same] at hrun
  simp only [carries.items, Nat.zero_add] at hperm
  refine ⟨settleAll k'.failedSequences fl tokens, ?_, hrun⟩
  rw [resolveBatch, FlightItem.sorted_results hperm]
  exact carries.succeeds k'.failedSequences tokens

/-- Every item is stale, and there is no forward pass. -/
theorem Answers.allStale {k' : Worker}
    (same : World.of s (before ++ fl ++ after) k' = World.of s (before ++ fl ++ after) k)
    (none_live : (k'.resolveBatch b.batch).items.isEmpty = true) : Answers s before after b fl k
      (.ok ⟨b.batch.batchId, (k'.resolveBatch b.batch).staleResults⟩, k') := by
  have hempty := List.isEmpty_iff.mp none_live
  have hanswer := Answers.sample oldest carries unresolved [] same (by rw [hempty]; rfl)
  rw [hempty] at hanswer
  simp only [processLoop, List.nil_append] at hanswer
  have hsorted : (k'.resolveBatch b.batch).staleResults.insertionSort
      (fun a b => a.itemIndex ≤ b.itemIndex) = (k'.resolveBatch b.batch).staleResults :=
    List.Pairwise.insertionSort_eq (k'.staleResults_sorted b.batch.items 0).1
  rwa [hsorted] at hanswer

/-- `process_command`, on a batch that passes the assertions of `translate`. -/
theorem Answers.processCommand (running : Bool) (outcome : Outcome)
    (translates : k.translates s.config.kvBlockSize b.batch running outcome = true) :
    Answers s before after b fl k
      (k.processCommand s.hitTokens s.config.kvBlockSize b.batch running outcome) := by
  unfold Worker.processCommand
  split
  · rename_i hrunning
    simp only [Worker.processBatch]
    generalize (List.filter _ b.batch.items).all _ = found
    -- the failed assertions are in the log of the worker only
    have hsame := World.of_workerAssert s (before ++ fl ++ after) k found .lateBound
    have hbatch := k.resolveBatch_assert found .lateBound b.batch
    subst hrunning
    split
    · rename_i hempty
      exact .allStale oldest carries unresolved hsame hempty
    · cases outcome with
      | acquireFailed err => exact .fail oldest carries unresolved err false hsame (by simp)
      | translateFailed err => exact .fail oldest carries unresolved err false hsame (by simp)
      | inferenceFailed err fed =>
        exact .fail oldest carries unresolved err fed hsame fun _ =>
          Worker.fits_of_translatable (hbatch ▸ translates)
      | sampled tokens =>
        simp only
        split
        · exact .fail oldest carries unresolved .unsupported false hsame (by simp)
        · exact .sample oldest carries unresolved tokens hsame (hbatch ▸ translates)
  · exact .stop oldest carries unresolved .serverShuttingDown

end

/-! ### Failed assertions -/

namespace Worker

theorem feedItem_asserts (blockSize : Nat) (k : Worker) (item : WorkItem) :
    (feedItem blockSize k item).failedAsserts = k.failedAsserts := by
  unfold feedItem
  split <;> rfl

theorem foldl_feedItem_asserts (blockSize : Nat) (items : List WorkItem) : ∀ k : Worker,
    (items.foldl (feedItem blockSize) k).failedAsserts = k.failedAsserts := by
  induction items with
  | nil => intro k; rfl
  | cons item _ ih => intro k; exact (ih _).trans (feedItem_asserts blockSize k item)

theorem updateLatest_asserts (k : Worker) (item : WorkItem) (r : WorkItemResult) :
    (k.updateLatest item r).failedAsserts = k.failedAsserts := by
  unfold updateLatest
  split
  · rfl
  · split
    · split <;> rfl
    · split <;> rfl

/-- The loop of the worker fails no assertion. -/
theorem processLoop_asserts (seed : SequenceId → List Token) (blockSize : Nat)
    (sampling : SamplingParams) (original items : List WorkItem) :
    ∀ (k : Worker) (indices : List Nat) (tokens : List Token),
      (processLoop seed blockSize sampling original k items indices tokens).2.failedAsserts =
        k.failedAsserts := by
  induction items with
  | nil => intro k indices tokens; rfl
  | cons _ _ ih =>
    intro k indices tokens
    cases indices with
    | nil => rfl
    | cons =>
      simp only [processLoop, processItem]
      rw [ih, updateLatest_asserts, feedItem_asserts]
      split <;> rfl

/-- A live item of the batch is late-bound, and its sequence has no token yet. -/
def Unbound (k : Worker) (items : List WorkItem) : Prop :=
  ∃ item ∈ items, k.failedSequences item.seqId = false ∧ k.lateBoundFound item = false

/-- The one assertion that the worker logs is that no live item is unbound. -/
theorem processCommand_asserts {k : Worker} {seed : SequenceId → List Token} {blockSize : Nat}
    {batch : ScheduledBatch} {running : Bool} {outcome : Outcome} {site : AssertSite}
    (h : site ∈ (k.processCommand seed blockSize batch running outcome).2.failedAsserts) :
    site ∈ k.failedAsserts ∨ k.Unbound batch.items := by
  unfold processCommand at h
  split at h
  · simp only [processBatch] at h
    generalize hfound : (batch.items.filter (fun item => !k.failedSequences item.seqId)).all
      k.lateBoundFound = found at h
    cases found with
    | false =>
      obtain ⟨item, hitem, hmissing⟩ := List.all_eq_false.mp hfound
      obtain ⟨hmem, hlive⟩ := List.mem_filter.mp hitem
      exact .inr ⟨item, hmem, by simpa using hlive, by simpa using hmissing⟩
    | true =>
      refine .inl ?_
      rw [show k.assert true .lateBound = k from rfl] at h
      split at h
      · exact h
      · cases outcome with
        | acquireFailed => exact h
        | translateFailed => exact h
        | inferenceFailed _ fed =>
          cases fed with
          | false => exact h
          | true => exact foldl_feedItem_asserts blockSize _ _ ▸ h
        | sampled =>
          simp only at h
          split at h
          · exact h
          · exact processLoop_asserts .. ▸ h
  · exact .inl h

end Worker

end CcInfer
