import CcInfer.Invariant.Geometry
import Mathlib.Data.List.TakeDrop

/-!
# `CcInfer.Invariant.Flow`: what the worker is fed and what it samples

The items of a request are dispatched before the tokens they consume exist. This module
says that they are nevertheless the items of one plain pass over the prompt, followed by one
decode after the other, and that the worker binds and samples them as such. `Plan` is about
the items alone. `Trail` follows their fates, oldest first, and compares the worker with the
tokens that the request has and will get.
-/

set_option autoImplicit false

namespace CcInfer

open RequestState

variable {prompt : List Token} {n : Nat} {item : WorkItem} {items : List WorkItem}

/-! ### Items that continue a sequence -/

/-- The item that continues a sequence with `s` sampled tokens and `n` filled positions. -/
inductive Continues (prompt : List Token) (s n : Nat) : WorkItem → Prop
  /-- A chunk of the prompt; the last one samples. -/
  | chunk (work : PrefillChunk) (unsampled : s = 0)
      (context : (WorkItem.prefill work).context = n) (start : work.promptSpan.start = n)
      (length_pos : 0 < work.promptSpan.length)
      (inside : n + work.promptSpan.length ≤ prompt.length)
      (tokens : work.tokens = (prompt.drop n).take work.promptSpan.length)
      (sample : work.needsSample = decide (prompt.length ≤ n + work.promptSpan.length)) :
      Continues prompt s n (.prefill work)
  /-- The decode of a full prefix hit. -/
  | bootstrap (work : DecodeOneToken) (unsampled : s = 0) (filled : n = prompt.length)
      (context : (WorkItem.decode work).context = n) (writeKv : work.writeKv = false)
      (lateBind : work.lateBind = false) (inputToken : work.inputToken = prompt.getLastD 0) :
      Continues prompt s n (.decode work)
  /-- A decode of the latest token. -/
  | decode (work : DecodeOneToken) (sampled : 0 < s) (filled : n + 1 = prompt.length + s)
      (context : (WorkItem.decode work).context = n) (writeKv : work.writeKv = true)
      (lateBind : work.lateBind = true) :
      Continues prompt s n (.decode work)

theorem Continues.context_eq {s : Nat} (h : Continues prompt s n item) : item.context = n := by
  cases h <;> assumption

/-- The number of tokens that an item samples. -/
def WorkItem.sampleCount (item : WorkItem) : Nat := if item.samples then 1 else 0

/-- The items continue a sequence one after the other. -/
def Plan (prompt : List Token) : Nat → Nat → List WorkItem → Prop
  | _, _, [] => True
  | s, n, item :: rest => Continues prompt s n item ∧
    Plan prompt (s + item.sampleCount) (n + item.kvTokenCount) rest

theorem plan_append : ∀ {s n : Nat}, Plan prompt s n (items ++ [item]) ↔ Plan prompt s n items ∧
      Continues prompt (s + sampleCount items) (n + writtenLength items) item := by
  induction items with
  | nil => intro s n; simp [Plan, sampleCount, writtenLength]
  | cons _ _ ih =>
    intro s n
    simp only [List.cons_append, Plan, ih, sampleCount, writtenLength, List.map_cons,
      List.sum_cons, WorkItem.sampleCount, Nat.add_assoc, and_assoc]

/-- A sampled token means that the prompt is filled. -/
theorem Plan.filled : ∀ {s n : Nat}, Plan prompt s n items → (0 < s → prompt.length ≤ n) →
    0 < s + sampleCount items → prompt.length ≤ n + writtenLength items := by
  induction items with
  | nil =>
    intro s n _ h hs
    exact h (by simpa [sampleCount] using hs)
  | cons item _ ih =>
    rintro s n ⟨hitem, hrest⟩ h hs
    have hstep : 0 < s + item.sampleCount → prompt.length ≤ n + item.kvTokenCount := by
      intro hs
      cases hitem with
      | chunk _ unsampled _ _ _ _ _ sample =>
        simp only [WorkItem.sampleCount, WorkItem.samples, sample, unsampled] at hs
        simp only [WorkItem.kvTokenCount]
        by_contra hlt
        simp [hlt] at hs
      | bootstrap | decode => omega
    have := ih hrest hstep (by
      simpa [sampleCount, WorkItem.sampleCount, Nat.add_assoc] using hs)
    simpa [writtenLength, Nat.add_assoc] using this

/-- Decodes keep the distance between the sampled tokens and the filled positions. -/
theorem Plan.decodes : ∀ {s n : Nat}, Plan prompt s n items → 0 < s → n + 1 = prompt.length + s →
    n + writtenLength items + 1 = prompt.length + (s + sampleCount items) := by
  induction items with
  | nil => intro s n _ _ h; simpa [sampleCount, writtenLength] using h
  | cons _ _ ih =>
    rintro s n ⟨hitem, hrest⟩ hs h
    cases hitem with
    | chunk | bootstrap => omega
    | decode _ _ _ _ writeKv =>
      simp only [WorkItem.sampleCount, WorkItem.samples, WorkItem.kvTokenCount, writeKv,
        if_true] at hrest
      have := ih hrest (by omega) (by omega)
      simp only [sampleCount, writtenLength, List.map_cons, List.sum_cons, WorkItem.samples,
        WorkItem.kvTokenCount, writeKv, if_true] at this ⊢
      omega

/-- Over a filled prompt every item samples. -/
theorem Plan.nil_of_unsampled {s : Nat}
    (h : Plan prompt s n items) (filled : prompt.length ≤ n) (none : sampleCount items = 0) :
    items = [] := by
  cases items with
  | nil => rfl
  | cons =>
    cases h.1 with
    | chunk => omega
    | bootstrap | decode => simp [sampleCount, WorkItem.samples] at none

/-! ### The worker along the items -/

/-- The worker's data of a sequence of which `n` positions are filled and `stream` was
sampled. -/
structure At (prompt stream : List Token) (n : Nat) (known : List Token)
    (latest : Option Token) : Prop where
  known : known = (prompt ++ stream).take n
  filled : n ≤ (prompt ++ stream).length
  latest : stream ≠ [] → latest = stream.getLast?

/-- The forward pass of the item that continues the sequence sees exactly the prompt and the
stream. -/
theorem At.context {stream known : List Token} {latest : Option Token}
    (h : At prompt stream n known latest) (pos : prompt ≠ [])
    (continues : Continues prompt stream.length n item) (samples : item.samples = true) :
    known.take (item.bind latest).position ++ (item.bind latest).tokenIds = prompt ++ stream := by
  simp only [WorkItem.bind_frame]
  cases continues with
  | chunk work unsampled context _ _ _ tokens sample =>
    obtain rfl : stream = [] := List.length_eq_zero_iff.mp unsampled
    have hend : prompt.length ≤ n + work.promptSpan.length := by
      simpa [WorkItem.samples, sample] using samples
    have hdrop : (prompt.drop n).take work.promptSpan.length = prompt.drop n :=
      List.take_of_length_le (by rw [List.length_drop]; omega)
    simp only [WorkItem.bind, WorkItem.position, WorkItem.tokenIds, context, tokens]
    rw [hdrop, h.known, List.append_nil, List.take_take, Nat.min_self, List.take_append_drop]
  | bootstrap _ unsampled filled context writeKv lateBind inputToken =>
    obtain rfl : stream = [] := List.length_eq_zero_iff.mp unsampled
    simp only [WorkItem.bind, lateBind, WorkItem.position, writeKv, WorkItem.tokenIds, context,
      inputToken, Bool.false_eq_true, if_false]
    rw [h.known, List.take_take, List.append_nil, filled, Nat.min_eq_left (Nat.sub_le ..),
      ← List.dropLast_eq_take, List.getLastD_eq_getLast?, List.getLast?_eq_some_getLast pos,
      Option.getD_some, List.dropLast_append_getLast pos]
  | decode _ sampled _ context writeKv lateBind =>
    have hne : stream ≠ [] := List.ne_nil_of_length_pos sampled
    have hn : n = (prompt ++ stream).length - 1 := by rw [List.length_append]; omega
    simp only [WorkItem.bind, lateBind, WorkItem.position, writeKv, WorkItem.tokenIds, context,
      if_true]
    rw [h.known, List.take_take, Nat.min_self, h.latest hne, List.getLast?_eq_some_getLast hne,
      Option.getD_some, hn, ← List.dropLast_eq_take, List.dropLast_append_of_ne_nil hne,
      List.append_assoc, List.dropLast_append_getLast hne]

/-- The worker after the forward pass of the item that continues the sequence. -/
theorem At.process {stream known : List Token} {latest : Option Token}
    {f : FlightItem} (h : At prompt stream n known latest) (pos : prompt ≠ [])
    (continues : Continues prompt stream.length n f.item) (token : Token) :
    At prompt (stream ++ f.emitted token) (n + f.item.kvTokenCount)
      ((f.item.bind latest).knownAfter known) (f.item.latestAfter latest token) := by
  obtain ⟨item, sampling, fate⟩ := f
  have hlatest : stream ++ FlightItem.emitted ⟨item, sampling, fate⟩ token ≠ [] →
      (item.samples = false → stream = []) →
      item.latestAfter latest token =
        (stream ++ FlightItem.emitted ⟨item, sampling, fate⟩ token).getLast? := by
    intro hne hidle
    unfold FlightItem.emitted WorkItem.latestAfter at *
    cases hs : item.samples
    · simp [hs, hidle hs] at hne
    · simp
  cases continues with
  | chunk _ unsampled _ _ length_pos inside tokens =>
    obtain rfl : stream = [] := List.length_eq_zero_iff.mp unsampled
    refine ⟨?_, ?_, fun hne => hlatest hne fun _ => rfl⟩
    · simp only [WorkItem.bind, WorkItem.knownAfter, WorkItem.kvTokenCount, length_pos, if_true,
        WorkItem.tokenIds, tokens, h.known, List.append_nil, List.nil_append]
      rw [List.take_append_of_le_length inside, List.take_add]
    · simp only [WorkItem.kvTokenCount, List.length_append]
      omega
  | bootstrap _ unsampled filled _ writeKv lateBind =>
    obtain rfl : stream = [] := List.length_eq_zero_iff.mp unsampled
    refine ⟨?_, ?_, fun hne => hlatest hne fun _ => rfl⟩
    · simp only [WorkItem.bind, lateBind, WorkItem.knownAfter, WorkItem.kvTokenCount, writeKv,
        Bool.false_eq_true, if_false, Nat.lt_irrefl, h.known, Nat.add_zero, List.append_nil,
        List.nil_append]
      rw [List.take_append_of_le_length filled.le]
    · simp only [WorkItem.kvTokenCount, writeKv, List.length_append]
      simp [filled]
  | decode work sampled filled context writeKv lateBind =>
    refine ⟨?_, ?_, fun hne => hlatest hne (by simp [WorkItem.samples])⟩
    · -- the bound token is the last of the stream, which completes the filled positions
      have hcontext := h.context pos (.decode work sampled filled context writeKv lateBind) rfl
      have hposition : (WorkItem.decode work).position = n := by
        simp [WorkItem.position, writeKv, context]
      have hknown : known.take n = known := by
        rw [h.known, List.take_take, Nat.min_self]
      simp only [WorkItem.bind_frame, hposition, hknown] at hcontext
      have hkv : (WorkItem.decode work).kvTokenCount = 1 := by
        simp [WorkItem.kvTokenCount, writeKv]
      simp only [WorkItem.knownAfter, WorkItem.bind_frame, hkv, if_pos Nat.one_pos, hcontext,
        filled, ← List.append_assoc, ← List.length_append, List.take_left]
    · simp only [WorkItem.kvTokenCount, writeKv, List.length_append]
      simp
      omega

/-- Every sampled token of the items answers the prompt and the tokens before it, and where
the processed items end the worker is at the end of them. After a failure nothing is known. -/
def Trail (sampler : List Token → Token → Prop) (prompt known : List Token)
    (latest : Option Token) : List Token → Nat → List FlightItem → Prop
  | stream, n, [] => At prompt stream n known latest
  | stream, n, f :: rest =>
    match f.fate with
    | .pending => At prompt stream n known latest
    | .done token => (f.item.samples = true → sampler (prompt ++ stream) token) ∧
      Trail sampler prompt known latest (stream ++ f.emitted token) (n + f.item.kvTokenCount) rest
    | .failed _ | .stale => True

section Trail

variable {sampler : List Token → Token → Prop} {known : List Token} {latest : Option Token}
  {before after items : List FlightItem} {f : FlightItem}

/-- The stream only grows with what is sampled. -/
theorem length_emitted (f : FlightItem) (token : Token) :
    (f.emitted token).length = f.item.sampleCount := by
  unfold FlightItem.emitted WorkItem.sampleCount
  split <;> rfl

/-- A dispatched item is fed later. -/
theorem Trail.dispatched (item : WorkItem) (sampling : SamplingParams) : ∀ {stream n},
    Trail sampler prompt known latest stream n items →
    Trail sampler prompt known latest stream n (items ++ [⟨item, sampling, .pending⟩]) := by
  induction items with
  | nil => exact fun h => h
  | cons g rest ih =>
    intro stream n h
    simp only [List.cons_append, Trail] at h ⊢
    split
    · rename_i hg; simpa [hg] using h
    · rename_i token hg
      rw [hg] at h
      exact ⟨h.1, ih h.2⟩
    · trivial
    · trivial

/-- The worker processes the oldest pending item. -/
theorem Trail.process {token : Token} (pos : prompt ≠ [])
    (oldest : ∀ g ∈ before, g.fate ≠ .pending) (later : ∀ g ∈ after, g.fate = .pending)
    (pending : f.fate = .pending) (sampled : f.item.samples = true →
      sampler (known.take (f.item.bind latest).position ++ (f.item.bind latest).tokenIds) token) :
    ∀ {stream n}, Trail sampler prompt known latest stream n (before ++ f :: after) →
    Plan prompt stream.length n ((before ++ f :: after).map (·.item)) →
    Trail sampler prompt ((f.item.bind latest).knownAfter known) (f.item.latestAfter latest token)
      stream n (before ++ { f with fate := .done token } :: after) := by
  induction before with
  | nil =>
    intro stream n h plan
    have hat : At prompt stream n known latest := by simpa [Trail, pending] using h
    refine ⟨fun hs => ?_, ?_⟩
    · rw [← hat.context pos plan.1 hs]
      exact sampled hs
    · have hat' := hat.process pos plan.1 token
      cases after with
      | nil => exact hat'
      | cons g =>
        simp only [Trail, later g List.mem_cons_self]
        exact hat'
  | cons g rest ih =>
    intro stream n h plan
    simp only [List.cons_append, Trail] at h ⊢
    split
    · rename_i hg; exact absurd hg (oldest g List.mem_cons_self)
    · rename_i token' hg
      rw [hg] at h
      refine ⟨h.1, ih (fun g hg => oldest g (List.mem_cons_of_mem _ hg)) h.2 ?_⟩
      simpa [List.length_append, length_emitted] using plan.2
    · trivial
    · trivial

/-- A failure of the oldest pending item ends what is known. -/
theorem Trail.breaks {f' : FlightItem} (known' : List Token)
    (oldest : ∀ g ∈ before, g.fate ≠ .pending)
    (broken : f'.fate = .stale ∨ ∃ err, f'.fate = .failed err) :
    ∀ {stream n}, Trail sampler prompt known latest stream n (before ++ f :: after) →
    Trail sampler prompt known' latest stream n (before ++ f' :: after) := by
  induction before with
  | nil =>
    intro stream n h
    rcases broken with hf | ⟨err, hf⟩ <;> simp [Trail, hf]
  | cons g rest ih =>
    intro stream n h
    simp only [List.cons_append, Trail] at h ⊢
    split
    · rename_i hg; exact absurd hg (oldest g List.mem_cons_self)
    · rename_i token' hg
      rw [hg] at h
      exact ⟨h.1, ih (fun g hg => oldest g (List.mem_cons_of_mem _ hg)) h.2⟩
    · trivial
    · trivial

end Trail

/-! ### Requests -/

namespace SequenceSchedulingState

/-- Admitted without generated tokens, or without prefix hits. -/
def Plain (sc : SequenceSchedulingState) : Prop := sc.admittedGenerated = 0 ∨ sc.hitBlocks = 0

end SequenceSchedulingState

/-- How far the executed positions reach in each phase. -/
def Stands (prompt stream : List Token) (frontier : Nat) : GenerationPhase → Prop
  | .prefill => stream = [] ∧ frontier < prompt.length
  | .bootstrap => stream = [] ∧ frontier = prompt.length
  | .decode => stream ≠ [] ∧ frontier + 1 = prompt.length + stream.length
  | .replayPrefill => False

namespace Stands

variable {stream : List Token} {frontier : Nat} {phase : GenerationPhase}

section

variable (h : Stands prompt stream frontier phase)
include h

theorem phase_of_isPrefill (isPrefill : phase.isPrefill = true) : phase = .prefill := by
  cases phase with
  | prefill => rfl
  | replayPrefill => exact h.elim
  | bootstrap => cases isPrefill
  | decode => cases isPrefill

theorem phase_prefill (none : stream = [])
    (below : frontier < prompt.length) : phase = .prefill := by
  cases phase with
  | prefill => rfl
  | replayPrefill => exact h.elim
  | bootstrap => exact absurd h.2 below.ne
  | decode => exact absurd none h.1

theorem phase_bootstrap (none : stream = [])
    (filled : frontier = prompt.length) : phase = .bootstrap := by
  cases phase with
  | prefill => exact absurd filled h.2.ne
  | replayPrefill => exact h.elim
  | bootstrap => rfl
  | decode => exact absurd none h.1

theorem phase_decode (some : stream ≠ []) : phase = .decode := by
  cases phase with
  | prefill => exact absurd h.1 some
  | replayPrefill => exact h.elim
  | bootstrap => exact absurd h.1 some
  | decode => rfl

end

end Stands

/-- The tokens that were appended under the scheduling state. -/
def RequestState.stream (st : RequestState) (sc : SequenceSchedulingState) : List Token :=
  st.generatedTokens.drop sc.admittedGenerated

/-- An active request under a plain scheduling state. -/
structure Flowing (sampler : List Token → Token → Prop) (v : View)
    (sc : SequenceSchedulingState) : Prop where
  prompt_ne : v.req.promptTokens ≠ []
  admitted_le : sc.admittedGenerated ≤ v.req.generatedTokens.length
  inPrompt : sc.cursor.generatedTokensInPrompt = sc.admittedGenerated - 1
  stands : Stands v.req.promptTokens (v.req.stream sc) sc.executedFrontier sc.cursor.phase
  plan : Plan v.req.promptTokens (v.req.stream sc).length sc.executedFrontier
    (v.items.map (·.item))
  trail : Trail sampler v.req.promptTokens v.known v.latest (v.req.stream sc)
    sc.executedFrontier v.items

/-- An active request under a plain scheduling state flows. -/
def View.Flows (sampler : List Token → Token → Prop) (v : View) : Prop :=
  ∀ sc, v.req.scheduling = some sc → v.req.status = .active → sc.Plain → Flowing sampler v sc

namespace Flowing

variable {p : RequestPtr} {maxBlocks blockSize : Nat} {sampler : List Token → Token → Prop}
  {v : View} {sc : SequenceSchedulingState}
variable {rest : List FlightItem} {chunk : PrefillChunk} {sampling : SamplingParams}

/-- Flowing reads the tokens of the request object, the plan of the scheduling state, and
the worker's data. -/
theorem of_same {v' : View} {sc' : SequenceSchedulingState} (h : Flowing sampler v sc)
    (prompt : v'.req.promptTokens = v.req.promptTokens)
    (generated : v'.req.generatedTokens = v.req.generatedTokens)
    (admittedGenerated : sc'.admittedGenerated = sc.admittedGenerated)
    (cursor : sc'.cursor = sc.cursor) (frontier : sc'.executedFrontier = sc.executedFrontier)
    (items : v'.items.map (·.item) = v.items.map (·.item))
    (trail : Trail sampler v.req.promptTokens v'.known v'.latest (v.req.stream sc)
      sc.executedFrontier v'.items) : Flowing sampler v' sc' := by
  have hstream : v'.req.stream sc' = v.req.stream sc := by
    rw [stream, generated, admittedGenerated, stream]
  constructor
  · rw [prompt]; exact h.prompt_ne
  · rw [admittedGenerated, generated]; exact h.admitted_le
  · rw [cursor, admittedGenerated]; exact h.inPrompt
  · rw [prompt, hstream, frontier, cursor]; exact h.stands
  · rw [prompt, hstream, frontier, items]; exact h.plan
  · rw [prompt, hstream, frontier]; exact trail

/-- A new scheduling state flows. -/
theorem admitted (req : RequestState) (log : List Obs) (seq : SequenceId) (hits : Nat)
    (parent : Hash) (table : BlockTable) (prompt_pos : 0 < req.promptTokens.length)
    (hits_le : hits * blockSize ≤ req.promptTokens.length)
    (plain : (req.admitScheduling blockSize seq ⟨table, hits, parent⟩).Plain) :
    Flowing sampler (.admitted blockSize req seq hits parent table log)
      (req.admitScheduling blockSize seq ⟨table, hits, parent⟩) := by
  have hstream : stream { req with
      scheduling := some (req.admitScheduling blockSize seq ⟨table, hits, parent⟩) }
      (req.admitScheduling blockSize seq ⟨table, hits, parent⟩) = [] :=
    List.drop_eq_nil_of_le (le_refl req.generatedTokens.length)
  refine ⟨List.ne_nil_of_length_pos prompt_pos, le_refl _, ?_, ?_, trivial, ?_⟩
  · simp only [admitScheduling, admitCursor]
    cases hg : req.generatedTokens with
    | nil => simp only [List.isEmpty_nil, if_true, List.length_nil]; split_ifs <;> rfl
    | cons =>
      simp only [List.isEmpty_cons, Bool.false_eq_true, if_false]
      split_ifs <;> rfl
  · rw [hstream]
    -- with generated tokens there are no hits, and the prompt is not empty
    rcases plain with fresh | none
    · have hfresh : req.generatedTokens.isEmpty = true :=
        List.isEmpty_iff.mpr (List.length_eq_zero_iff.mp fresh)
      simp only [admitScheduling, admitCursor, hfresh, if_true]
      split_ifs with h1 h2
      · exact ⟨rfl, h1.2⟩
      · exact ⟨rfl, le_antisymm hits_le h2⟩
      · exact ⟨rfl, not_le.mp h2⟩
    · obtain rfl : hits = 0 := none
      simp only [admitScheduling, admitCursor, Nat.zero_mul,
        Nat.lt_irrefl, false_and, if_false, Nat.not_le.mpr prompt_pos]
      exact ⟨rfl, prompt_pos⟩
  · rw [hstream]
    exact ⟨by rw [List.append_nil]; rfl, by rw [List.append_nil]; exact hits_le,
      fun hne => absurd rfl hne⟩

/-- The item that is dispatched continues the sequence. -/
theorem continues (h : Flowing sampler v sc) (active : v.req.status = .active)
    (geometry : Geometry v.req sc (v.items.map (·.item))) {item : WorkItem}
    (itemFor : ItemFor v.req sc blockSize item) : Continues v.req.promptTokens
      ((v.req.stream sc).length + sampleCount (v.items.map (·.item)))
      (sc.executedFrontier + writtenLength (v.items.map (·.item))) item := by
  have hcontext := itemFor.context_eq
  rw [geometry.reservedKv] at hcontext
  have hstands := h.stands
  cases itemFor with
  | chunk _ _ phase start_eq length_pos length_le =>
    obtain ⟨hcursor, hall⟩ := geometry.prefill active phase
    rw [hcursor, geometry.reservedPrompt, promptLength_eq_writtenLength hall] at start_eq
    have hphase := hstands.phase_of_isPrefill phase
    simp only [hphase, Stands] at hstands
    refine .chunk _ ?_ hcontext start_eq length_pos ?_ ?_ ?_
    · -- a token sampled already means that no prompt is left
      by_contra hs
      have := h.plan.filled (fun hs => by simp [hstands.1] at hs) (Nat.pos_of_ne_zero hs)
      omega
    · rw [← start_eq]; exact length_le
    · rw [start_eq]
    · simp [hphase, start_eq]
  | bootstrap phase none_reserved =>
    simp only [phase, Stands] at hstands
    rw [geometry.reservedGeneration] at none_reserved
    have hnil := h.plan.nil_of_unsampled hstands.2.ge none_reserved
    refine .bootstrap _ ?_ ?_ hcontext rfl rfl rfl
    · rw [none_reserved, hstands.1]; rfl
    · rw [hnil, hstands.2]; rfl
  | decode phase =>
    simp only [phase, Stands] at hstands
    have hpos := List.length_pos_of_ne_nil hstands.1
    exact .decode _ (by omega) (h.plan.decodes hpos hstands.2) hcontext rfl rfl

/-- A chunk in front means that the prompt is being filled. -/
theorem filling {fate : Fate} (h : Flowing sampler v sc)
    (front : v.items = ⟨.prefill chunk, sampling, fate⟩ :: rest) : sc.cursor.phase = .prefill := by
  have plan := h.plan
  rw [front] at plan
  cases plan.1 with
  | chunk _ unsampled =>
    exact h.stands.phase_prefill (List.length_eq_zero_iff.mp unsampled) (by omega)

section

variable (h : Flowing sampler v sc) (active : v.req.status = .active)
  (geometry : Geometry v.req sc (v.items.map (·.item)))
include h active geometry

/-- A chunk that leaves prompt to process does not sample. -/
theorem chunk_unsampled {fate : Fate} (front : v.items = ⟨.prefill chunk, sampling, fate⟩ :: rest)
    (more : sc.cursor.prefillCursor + chunk.promptSpan.length < v.req.promptTokens.length) :
    chunk.needsSample = false := by
  obtain ⟨hcursor, -⟩ := geometry.prefill active (by rw [h.filling front]; rfl)
  have plan := h.plan
  rw [front] at plan
  cases plan.1 with
  | chunk _ _ _ _ _ _ _ sample =>
    rw [sample, decide_eq_false_iff_not]
    omega

/-- A chunk is retired that leaves prompt to process. -/
theorem retiredChunk {token : Token}
    (front : v.items = ⟨.prefill chunk, sampling, .done token⟩ :: rest)
    (more : sc.cursor.prefillCursor + chunk.promptSpan.length < v.req.promptTokens.length) :
    Flowing sampler (v.chunkRetired sc chunk rest)
      (sc.advanceChunk chunk v.req.promptTokens.length) := by
  have hsample := h.chunk_unsampled active geometry front more
  obtain ⟨prompt_ne, admitted_le, inPrompt, stands, plan, trail⟩ := h
  rw [front] at plan trail geometry
  obtain ⟨continues, plan⟩ := plan
  obtain ⟨-, trail⟩ := trail
  cases continues with
  | chunk _ unsampled context =>
    have hnil := List.length_eq_zero_iff.mp unsampled
    have hphase := stands.phase_prefill hnil (by omega)
    obtain ⟨hcursor, -⟩ := geometry.prefill active (by rw [hphase]; rfl)
    have hfrontier : (sc.advanceChunk chunk v.req.promptTokens.length).executedFrontier =
        sc.executedFrontier + chunk.promptSpan.length := by
      simp only [SequenceSchedulingState.advanceChunk, context]
      omega
    simp only [WorkItem.sampleCount, WorkItem.samples, hsample, Bool.false_eq_true, if_false,
      Nat.add_zero] at plan
    simp only [FlightItem.emitted, WorkItem.samples, hsample, Bool.false_eq_true, if_false,
      List.append_nil] at trail
    refine ⟨prompt_ne, admitted_le, inPrompt, ?_, ?_, ?_⟩
    · rw [hfrontier]
      simp only [SequenceSchedulingState.advanceChunk, Nat.not_le.mpr more, if_false, hphase]
      exact ⟨hnil, by omega⟩
    · rw [hfrontier]; exact plan
    · rw [hfrontier]; exact trail

end

end Flowing

/-- The front item of a request is retired and reaches the tail of `retire_work`. -/
structure View.Retirement (p : RequestPtr) (blockSize : Nat) (v : View) where
  rest : List FlightItem
  item : WorkItem
  sampling : SamplingParams
  token : Token
  sc : SequenceSchedulingState
  advanced : SequenceSchedulingState
  published : SequenceSchedulingState
  written : List Token
  head : List Obs
  kept : v.Kept blockSize
  front : v.items = ⟨item, sampling, .done token⟩ :: rest
  scheduled : v.req.scheduling = some sc
  active : v.req.status = .active
  settles : Settles p v.req sc item advanced written head
  publish : Published blockSize item written advanced published

namespace View.Retirement

variable {p : RequestPtr} {blockSize : Nat} {sampler : List Token → Token → Prop} {v : View}
  (r : v.Retirement p blockSize)

/-- The item that is retired. -/
abbrev flight : FlightItem := ⟨r.item, r.sampling, .done r.token⟩

/-- The scheduling state afterwards. -/
abbrev sc' : SequenceSchedulingState := r.published.leaveBootstrap r.item

/-- The request afterwards. -/
abbrev after : View :=
  { v with
    req := v.req.retired r.sc' r.flight r.token
    items := r.rest
    log := v.log ++ (r.head ++ tailObs p v.req r.flight r.token) }

theorem geometry : Geometry v.req r.sc ((r.flight :: r.rest).map (·.item)) :=
  r.front ▸ r.kept.geometry r.sc r.scheduled

theorem same : SameSequence r.sc r.sc' := r.settles.sequence r.publish

theorem plain (h : r.sc'.Plain) : r.sc.Plain := by
  rwa [SequenceSchedulingState.Plain, r.same.admittedGenerated, r.same.hitBlocks] at h

theorem advanced_frontier :
    r.advanced.executedFrontier = r.sc.executedFrontier + r.item.kvTokenCount := by
  obtain ⟨-, -, -, hfrontier, -, -, -⟩ := r.settles.advanced
  have hcontext : r.item.context = r.sc.executedFrontier := (r.geometry.consecutive r.active).1
  rw [hfrontier, hcontext, Nat.max_eq_right (Nat.le_add_right ..)]

theorem frontier : r.sc'.executedFrontier = r.sc.executedFrontier + r.item.kvTokenCount := by
  simp only [SequenceSchedulingState.leaveBootstrap_frame, r.publish.plan.executedFrontier,
    r.advanced_frontier]

theorem emitted (samples : r.item.samples = true) : r.flight.emitted r.token = [r.token] :=
  if_pos samples

variable (h : Flowing sampler v r.sc)
include h

theorem continues :
    Continues v.req.promptTokens (v.req.stream r.sc).length r.sc.executedFrontier r.item := by
  have plan := h.plan
  rw [r.front] at plan
  exact plan.1

/-- The token of a processed item answers the prompt and the stream. -/
theorem answer (samples : r.item.samples = true) :
    sampler (v.req.promptTokens ++ v.req.stream r.sc) r.token := by
  have trail := h.trail
  rw [r.front] at trail
  exact trail.1 samples

/-- The retirement of the item that continues the sequence reaches its tail only if it
sampled; all positions before the new token are filled then. -/
theorem settled : r.item.samples = true ∧ r.sc.executedFrontier + r.item.kvTokenCount =
      v.req.promptTokens.length + (v.req.stream r.sc).length ∧
    r.advanced.cursor.generatedTokensInPrompt = r.sc.cursor.generatedTokensInPrompt ∧
    (r.advanced.cursor.phase = .decode ∨ r.advanced.cursor.phase = .bootstrap) := by
  have stands := h.stands
  have continues := r.continues h
  have geometry := r.geometry
  obtain ⟨rest, item, sampling, token, sc, advanced, published, written, head, kept, front,
    scheduled, active, settles, publish⟩ := r
  dsimp only at stands continues geometry ⊢
  cases settles with
  | last chunk final =>
    cases continues with
    | chunk _ unsampled _ _ _ _ _ sample =>
      have hnil := List.length_eq_zero_iff.mp unsampled
      have hphase := stands.phase_prefill hnil (by omega)
      obtain ⟨hcursor, -⟩ := geometry.prefill active (by rw [hphase]; rfl)
      rw [hcursor] at final
      refine ⟨?_, ?_, rfl, .inl ?_⟩
      · rw [WorkItem.samples, sample, decide_eq_true_iff]; exact final
      · rw [WorkItem.kvTokenCount, unsampled]; omega
      · simp [SequenceSchedulingState.advanceChunk, hcursor, final]
  | decode =>
    cases continues with
    | bootstrap _ unsampled filled _ writeKv =>
      have hphase := stands.phase_bootstrap (List.length_eq_zero_iff.mp unsampled) filled
      refine ⟨rfl, ?_, rfl, .inr hphase⟩
      rw [unsampled, ← filled, WorkItem.kvTokenCount, writeKv]
      rfl
    | decode _ sampled filled _ writeKv =>
      have hphase := stands.phase_decode (List.ne_nil_of_length_pos sampled)
      refine ⟨rfl, ?_, rfl, .inl hphase⟩
      rw [WorkItem.kvTokenCount, if_pos writeKv, filled]

/-- After the retirement of an item that sampled, the request decodes. -/
theorem phase : r.sc'.cursor.phase = .decode := by
  obtain ⟨hsamples, -, -, hphase⟩ := r.settled h
  rw [← r.publish.plan.cursor] at hphase
  rcases hphase with hphase | hphase <;>
    simp [SequenceSchedulingState.leaveBootstrap, hsamples, hphase]

/-- The tokens written by an item that samples are all tokens from the frontier on. -/
theorem written_eq (samples : r.item.samples = true) (wrote : 0 < r.item.kvTokenCount) :
    r.written = (v.req.promptTokens ++ v.req.stream r.sc).drop r.sc.executedFrontier := by
  have continues := r.continues h
  obtain ⟨rest, item, sampling, token, sc, advanced, published, written, head, kept, front,
    scheduled, active, settles, publish⟩ := r
  dsimp only at continues ⊢
  cases settles with
  | last chunk =>
    cases continues with
    | chunk _ unsampled _ _ _ _ tokens sample =>
      have hend : v.req.promptTokens.length ≤ sc.executedFrontier + chunk.promptSpan.length := by
        simpa [WorkItem.samples, sample] using samples
      rw [List.length_eq_zero_iff.mp unsampled, List.append_nil, tokens]
      exact List.take_of_length_le (by rw [List.length_drop]; omega)
  | decode =>
    cases continues with
    | bootstrap _ _ _ _ writeKv =>
      simp [WorkItem.kvTokenCount, writeKv] at wrote
    | decode _ sampled =>
      have hne : v.req.stream sc ≠ [] := List.ne_nil_of_length_pos sampled
      have hall : v.req.promptTokens ++ v.req.stream sc ≠ [] :=
        List.append_ne_nil_of_right_ne_nil _ hne
      have hlast : v.req.generatedTokens.getLast? =
          (v.req.promptTokens ++ v.req.stream sc).getLast? := by
        rw [List.getLast?_append_of_ne_nil _ hne, stream, List.getLast?_drop,
          if_neg fun hle => hne (List.drop_eq_nil_of_le hle)]
      have hfrontier : sc.executedFrontier =
          (v.req.promptTokens ++ v.req.stream sc).length - 1 := by
        rw [List.length_append]
        omega
      rw [hlast, hfrontier, List.getLast?_eq_some_getLast hall, List.drop_length_sub_one hall]
      rfl

/-- The token of a retired item continues the stream. -/
theorem stream : r.after.req.stream r.sc' = v.req.stream r.sc ++ [r.token] := by
  have hemitted := r.emitted (r.settled h).1
  simp only [RequestState.stream, RequestState.retired, hemitted, r.same.admittedGenerated]
  exact List.drop_append_of_le_length h.admitted_le

/-- The retirement of an item that sampled. -/
theorem flowing : Flowing sampler r.after r.sc' := by
  obtain ⟨hsamples, hfilled, hinPrompt, -⟩ := r.settled h
  have hstream := r.stream h
  have plan := h.plan
  have trail := h.trail
  rw [r.front] at plan trail
  constructor
  · exact h.prompt_ne
  · rw [r.same.admittedGenerated]
    exact h.admitted_le.trans (by simp [retired])
  · rw [r.same.admittedGenerated]
    simp only [SequenceSchedulingState.leaveBootstrap_frame, r.publish.plan.cursor, hinPrompt,
      h.inPrompt]
  · rw [r.phase h, hstream, r.frontier, hfilled]
    exact ⟨by simp, by rw [List.length_append]; rfl⟩
  · rw [hstream, r.frontier, List.length_append]
    have plan := plan.2
    simp only [WorkItem.sampleCount, hsamples, if_true] at plan
    exact plan
  · rw [hstream, r.frontier, ← r.emitted hsamples]
    exact trail.2

end View.Retirement

/-- Every transaction of a request keeps it flowing. -/
theorem View.Flows.step {p : RequestPtr} {maxBlocks blockSize : Nat}
    {sampler : List Token → Token → Prop} {params : SamplingParams → Prop} {v v' : View}
    (h : v.Flows sampler) (kept : v.Kept blockSize)
    (t : View.Step p maxBlocks blockSize sampler params v v') : v'.Flows sampler := by
  cases t with
  | expire =>
    intro sc hsc active plain
    exact (h sc hsc active plain).of_same rfl rfl rfl rfl rfl rfl (h sc hsc active plain).trail
  | cancel | fail => exact fun sc hsc ha => nomatch ha
  | finish sc => exact fun sc hsc ha => nomatch ha
  | grow sc _ scheduled active =>
    rintro _ ⟨⟩ - plain
    have flowing := h sc scheduled active plain
    exact flowing.of_same rfl rfl rfl rfl rfl rfl flowing.trail
  | dispatch sc item sampling scheduled active itemFor =>
    rintro _ ⟨⟩ - plain
    have flowing := h sc scheduled active plain
    have continues := flowing.continues active (kept.geometry sc scheduled) itemFor
    refine ⟨flowing.prompt_ne, flowing.admitted_le, flowing.inPrompt, flowing.stands, ?_,
      flowing.trail.dispatched item sampling⟩
    rw [List.map_append]
    exact plan_append.mpr ⟨flowing.plan, continues⟩
  | admission seq hits parent table admissible hits_le =>
    rintro _ ⟨⟩ - plain
    exact .admitted v.req _ seq hits parent table admissible.prompt_pos hits_le plain
  | park sc => exact fun sc hsc => nomatch hsc
  | drop => exact fun sc hsc => nomatch hsc
  | discard _ _ _ _ split _ ignored =>
    intro _ _ active
    exact absurd active (kept.discarded_inactive split ignored)
  | retireChunk _ _ _ _ sc front scheduled active more =>
    rintro _ ⟨⟩ - plain
    exact (h sc scheduled active plain).retiredChunk active (kept.geometry sc scheduled) front more
  | retire _ _ _ _ sc _ _ _ _ front scheduled active settles publish =>
    let r : v.Retirement p blockSize := ⟨_, _, _, _, _, _, _, _, _, kept, front, scheduled, active,
      settles, publish⟩
    rintro _ ⟨⟩ - plain
    exact r.flowing (h sc scheduled active (r.plain plain))
  | process _ after _ _ split oldest pending _ _ sampled =>
    intro sc hsc active plain
    have flowing := h sc hsc active plain
    have plan := flowing.plan
    have trail := flowing.trail
    have fifo := kept.fates.fifo
    rw [split] at plan trail fifo
    have later : ∀ g ∈ after, g.fate = .pending := fun g hg =>
      (List.pairwise_cons.mp (List.pairwise_append.mp fifo).2.1).1 g hg pending
    refine flowing.of_same rfl rfl rfl rfl rfl ?_
      (trail.process flowing.prompt_ne oldest later pending sampled plan)
    simp [split]
  | skipStale _ _ _ split oldest =>
    intro sc hsc active plain
    have flowing := h sc hsc active plain
    have trail := flowing.trail
    rw [split] at trail
    refine flowing.of_same rfl rfl rfl rfl rfl ?_ (trail.breaks v.known oldest (.inl rfl))
    simp [split]
  | processFail _ _ _ err known _ split oldest =>
    intro sc hsc active plain
    have flowing := h sc hsc active plain
    have trail := flowing.trail
    rw [split] at trail
    refine flowing.of_same rfl rfl rfl rfl rfl ?_ (trail.breaks known oldest (.inr ⟨err, rfl⟩))
    simp [split]

end CcInfer
