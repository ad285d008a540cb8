import CcInfer.Invariant.Flow
import CcInfer.Invariant.Records
import CcInfer.Lib.Greedy

/-!
# `CcInfer.Invariant.Limits`: the generated tokens of a request

With a deterministic sampler, the tokens that are generated for a request are a beginning of
the greedy continuation of its initial prompt, as long as no admission finds generated tokens
(`View.Generates`). Where they end is decided by the sampler, by retirement (`max_tokens`) and
by the construction of work (`max_context_len`), which counts the items in flight. `Budget` is
the invariant behind both comparisons, and `View.Limits` says that a request ends exactly where
the plain loop ends.
-/

set_option autoImplicit false

namespace CcInfer

open RequestState

variable {maxTokens : Int} {isEos : Token → Bool} {tokens : List Token}

/-- Every admission of `p` in the log was without generated tokens. -/
def FreshAdmissions (p : RequestPtr) (log : List Obs) : Prop :=
  ∀ seq hits generated, .admitted p seq hits generated ∈ log → generated = 0

/-- A request under a deterministic sampler. -/
structure View.Generates (next : List Token → Token) (p : RequestPtr) (v : View) : Prop where
  records : v.Records p
  flows : v.Flows (fun context token => token = next context)
  follows : FreshAdmissions p v.log →
    Greedy.Follows next v.req.initialPromptTokens v.req.generatedTokens

namespace View.Generates

variable {next : List Token → Token} {p : RequestPtr} {maxBlocks blockSize : Nat}
  {params : SamplingParams → Prop} {v v' : View}

theorem init (next : List Token → Token) (config : ValidConfig) (p : RequestPtr)
    (req : SchedulerRequest) : Generates next p (.fresh config p req) :=
  ⟨.init config p req, fun _ hsc => (nomatch hsc), fun _ => trivial⟩

/-- A fresh admission reads the initial prompt, and its stream are the generated tokens. -/
theorem fresh (h : Generates next p v) (fresh : FreshAdmissions p v.log)
    {sc : SequenceSchedulingState} (scheduled : v.req.scheduling = some sc) :
    sc.Plain ∧ v.req.promptTokens = v.req.initialPromptTokens ∧
    v.req.stream sc = v.req.generatedTokens := by
  obtain ⟨hmem, -, hprompt⟩ := h.records.scheduled sc scheduled
  have hzero := fresh _ _ _ hmem
  refine ⟨.inl hzero, hprompt hzero, ?_⟩
  rw [stream, hzero, List.drop_zero]

/-- The token of a settling item is the next one of the greedy continuation. -/
theorem settled (h : Generates next p v) (fresh : FreshAdmissions p v.log)
    (r : v.Retirement p blockSize) : r.item.samples = true ∧
    Greedy.Follows next v.req.initialPromptTokens (v.req.generatedTokens ++ [r.token]) := by
  obtain ⟨hplain, hprompt, hstream⟩ := h.fresh fresh r.scheduled
  have flowing := h.flows r.sc r.scheduled r.active hplain
  have hsamples := (r.settled flowing).1
  have hanswer := r.answer flowing hsamples
  rw [hprompt, hstream] at hanswer
  exact ⟨hsamples, Greedy.follows_append_singleton.mpr ⟨h.follows fresh, hanswer⟩⟩

/-- Every transaction keeps it. -/
theorem step (h : Generates next p v) (kept : v.Kept blockSize)
    (t : View.Step p maxBlocks blockSize (fun context token => token = next context) params v v')
    (live : v'.log = v.log ∨ .erased p ∉ v.log) : Generates next p v' := by
  refine ⟨h.records.step t live, h.flows.step kept t, fun hafter => ?_⟩
  obtain ⟨obs, hlog, -⟩ := t.logs
  have hfresh : FreshAdmissions p v.log := fun seq hits g hg =>
    hafter seq hits g (hlog ▸ List.mem_append_left obs hg)
  cases t with
  | retire _ _ _ _ _ _ _ _ _ front scheduled active settles publish =>
    obtain ⟨hsamples, hfollows⟩ := h.settled hfresh ⟨_, _, _, _, _, _, _, _, _, kept, front,
      scheduled, active, settles, publish⟩
    simpa [retired, FlightItem.emitted, hsamples] using hfollows
  | _ => exact h.follows hfresh

end View.Generates

/-! ### Where generation ends -/

namespace RequestState

/-- The room that the context leaves for generated tokens. The first chunked prefill samples
one token without a look at the limit; a full prefix hit looks first. -/
def contextRoom (st : RequestState) (fullHit : Bool) : Int :=
  let room := st.maxContextLen - st.initialPromptTokens.length
  if fullHit then room else max 1 room

/-- The most tokens that the request can get. -/
def tokenLimit (st : RequestState) (fullHit : Bool) : Nat :=
  (min st.sampling.maxTokens (st.contextRoom fullHit)).toNat

theorem le_contextRoom {st : RequestState} {n : Int} (fullHit : Bool)
    (h : n ≤ st.maxContextLen - st.initialPromptTokens.length) : n ≤ st.contextRoom fullHit := by
  unfold contextRoom
  cases fullHit
  · exact le_max_of_le_right h
  · exact h

/-- The prefix hits cover the whole initial prompt. -/
def fullHit (st : RequestState) (blockSize hits : Nat) : Bool :=
  hits * blockSize == st.initialPromptTokens.length

theorem tokenLimit_congr {st st' : RequestState}
    (initial : st.initialPromptTokens = st'.initialPromptTokens)
    (maxTokens : st.sampling.maxTokens = st'.sampling.maxTokens)
    (context : st.maxContextLen = st'.maxContextLen) (blockSize hits : Nat) :
    st.tokenLimit (st.fullHit blockSize hits) = st'.tokenLimit (st'.fullHit blockSize hits) := by
  unfold tokenLimit contextRoom fullHit
  rw [initial, maxTokens, context]

end RequestState

/-- The events of a request that ended with `tokens`. -/
def finishedEvents (maxTokens : Int) (isEos : Token → Bool) (tokens : List Token) :
    List SinkEvent :=
  match tokens.getLast? with
  | none => [.ok { hasToken := false, finished := true }]
  | some token =>
    if isEos token || decide (maxTokens ≤ tokens.length) then
      tokens.dropLast.map SinkEvent.ofToken ++
        [.ok { tokenId := token, hasToken := true, finished := true }]
    else tokens.map SinkEvent.ofToken ++ [.ok { hasToken := false, finished := true }]

/-- What an active request may still generate. -/
structure Budget (isEos : Token → Bool) (blockSize : Nat) (v : View)
    (sc : SequenceSchedulingState) : Prop where
  hits_le : sc.hitBlocks * blockSize ≤ sc.executedFrontier
  bootstrap : sc.cursor.phase = .bootstrap → sc.executedFrontier = sc.hitBlocks * blockSize
  running : ∀ token ∈ v.req.generatedTokens, isEos token = false
  below_max : (v.req.generatedTokens.length : Int) < v.req.sampling.maxTokens
  below_room : (v.req.generatedTokens.length + sampleCount (v.items.map (·.item)) : Int) ≤
    v.req.contextRoom (v.req.fullHit blockSize sc.hitBlocks)

/-- Where the generated tokens of a request end that was never suspended. -/
structure View.Limits (next : List Token → Token) (isEos : Token → Bool) (blockSize : Nat)
    (p : RequestPtr) (v : View) : Prop where
  eos : ∀ f ∈ v.items, f.sampling.isEos = isEos
  budget : .suspended p ∉ v.log → ∀ sc, v.req.scheduling = some sc → v.req.status = .active →
    Budget isEos blockSize v sc
  started : .suspended p ∉ v.log → ∀ seq hits generated,
    .admitted p seq hits generated ∈ v.log → v.req.generatedTokens <+:
      Greedy.loop next isEos v.req.initialPromptTokens
        (v.req.tokenLimit (v.req.fullHit blockSize hits))
  finished : .suspended p ∉ v.log → v.req.status = .finished → ∀ seq hits generated,
    .admitted p seq hits generated ∈ v.log →
      v.req.generatedTokens = Greedy.loop next isEos v.req.initialPromptTokens
        (v.req.tokenLimit (v.req.fullHit blockSize hits)) ∧
      sentEvents p v.log =
        finishedEvents v.req.sampling.maxTokens isEos v.req.generatedTokens

namespace Budget

variable {next : List Token → Token} {p : RequestPtr} {blockSize : Nat} {v v' : View}
  {sc sc' : SequenceSchedulingState}

/-- A transaction that keeps the plan of the scheduling state. -/
theorem of_same (h : Budget isEos blockSize v sc)
    (request : v'.req.generatedTokens = v.req.generatedTokens ∧
      v'.req.initialPromptTokens = v.req.initialPromptTokens ∧
      v'.req.sampling = v.req.sampling ∧ v'.req.maxContextLen = v.req.maxContextLen)
    (hits : sc'.hitBlocks = sc.hitBlocks) (cursor : sc'.cursor = sc.cursor)
    (frontier : sc'.executedFrontier = sc.executedFrontier)
    (items : v'.items.map (·.item) = v.items.map (·.item)) : Budget isEos blockSize v' sc' := by
  obtain ⟨hgenerated, hinitial, hsampling, hcontext⟩ := request
  constructor
  · rw [hits, frontier]; exact h.hits_le
  · rw [hits, frontier, cursor]; exact h.bootstrap
  · rw [hgenerated]; exact h.running
  · rw [hgenerated, hsampling]; exact h.below_max
  · simp only [contextRoom, fullHit, hgenerated, items, hcontext,
      hinitial, hits]
    exact h.below_room

/-- A fresh admission. -/
theorem admitted {req : RequestState} {maxBlocks hits : Nat} (log : List Obs) (seq : SequenceId)
    (parent : Hash) (table : BlockTable) (admissible : req.Admissible maxBlocks blockSize)
    (none_generated : req.generatedTokens = [])
    (prompt : req.promptTokens = req.initialPromptTokens) :
    Budget isEos blockSize (.admitted blockSize req seq hits parent table log)
      (req.admitScheduling blockSize seq ⟨table, hits, parent⟩) := by
  have hmax := admissible.maxTokens_pos
  have hcontext := admissible.prompt_le
  constructor
  · exact le_refl _
  · exact fun _ => rfl
  · simp [none_generated]
  · simpa [none_generated] using hmax
  · refine le_contextRoom _ ?_
    simp only [none_generated, List.length_nil, List.map_nil, sampleCount, List.sum_nil]
    rw [prompt] at hcontext
    omega

/-- The limits are compared before an item is built that samples. -/
theorem dispatched (h : Budget isEos blockSize v sc)
    (flowing : Flowing (fun context token => token = next context) v sc)
    (active : v.req.status = .active)
    (geometry : Geometry v.req sc (v.items.map (·.item)))
    (prompt : v.req.promptTokens = v.req.initialPromptTokens)
    (fresh : sc.admittedGenerated = 0) {item : WorkItem} (sampling : SamplingParams)
    (itemFor : ItemFor v.req sc blockSize item) :
    Budget isEos blockSize
      { v with
        req := { v.req with
          scheduling := some { sc with reservation := sc.reservation.reserve item } }
        items := v.items ++ [⟨item, sampling, .pending⟩] }
      { sc with reservation := sc.reservation.reserve item } := by
  have continues := flowing.continues active geometry itemFor
  have hinPrompt := flowing.inPrompt
  rw [fresh] at hinPrompt
  refine ⟨h.hits_le, h.bootstrap, h.running, h.below_max, ?_⟩
  have hcount : sampleCount ((v.items ++ [FlightItem.mk item sampling .pending]).map (·.item)) =
      sampleCount (v.items.map (·.item)) + item.sampleCount := by
    simp [sampleCount, WorkItem.sampleCount]
  rw [hcount]
  cases itemFor with
  | chunk start _ _ _ length_pos =>
    -- a chunk lies behind the hits, so that these are not the whole prompt
    cases continues with
    | chunk =>
      have hhits := h.hits_le
      have hnotFull : v.req.fullHit blockSize sc.hitBlocks = false := by
        simp only [fullHit, beq_eq_false_iff_ne, ← prompt]
        omega
      have hstream : (v.req.stream sc).length = v.req.generatedTokens.length := by
        rw [stream, fresh, List.drop_zero]
      show _ ≤ v.req.contextRoom (v.req.fullHit blockSize sc.hitBlocks)
      rw [hnotFull]
      refine le_max_of_le_left ?_
      simp only [WorkItem.sampleCount]
      split_ifs <;> omega
  | bootstrap _ none_reserved _ below_context =>
    refine le_contextRoom _ ?_
    rw [geometry.reservedGeneration] at none_reserved
    simp only [WorkItem.sampleCount, WorkItem.samples, if_true, none_reserved]
    rw [hinPrompt, prompt] at below_context
    omega
  | decode _ _ below_context =>
    refine le_contextRoom _ ?_
    rw [geometry.reservedGeneration, hinPrompt, prompt] at below_context
    simp only [WorkItem.sampleCount, WorkItem.samples, if_true]
    omega

/-- A chunk is retired that leaves prompt to process. -/
theorem retiredChunk (h : Budget isEos blockSize v sc) {rest : List FlightItem}
    {chunk : PrefillChunk} {sampling : SamplingParams} {token : Token}
    (front : v.items = ⟨.prefill chunk, sampling, .done token⟩ :: rest)
    (filling : sc.cursor.phase = .prefill)
    (more : sc.cursor.prefillCursor + chunk.promptSpan.length < v.req.promptTokens.length) :
    Budget isEos blockSize (v.chunkRetired sc chunk rest)
      (sc.advanceChunk chunk v.req.promptTokens.length) := by
  have hroom := h.below_room
  simp only [front, List.map_cons, sampleCount, List.sum_cons] at hroom
  refine ⟨h.hits_le.trans (le_max_left ..), fun hphase => ?_, h.running, h.below_max, ?_⟩
  · simp [SequenceSchedulingState.advanceChunk, Nat.not_le.mpr more, filling] at hphase
  · show _ ≤ v.req.contextRoom (v.req.fullHit blockSize sc.hitBlocks)
    simp only [sampleCount]
    omega

variable {r : v.Retirement p blockSize}

section

variable (h : Budget isEos blockSize v r.sc) (samples : r.item.samples = true)
include h samples

/-- The room that the item in front leaves. -/
theorem room_retired :
    (v.req.generatedTokens.length + (1 + sampleCount (r.rest.map (·.item)) : Nat) : Int) ≤
      v.req.contextRoom (v.req.fullHit blockSize r.sc.hitBlocks) := by
  have hroom := h.below_room
  rwa [r.front, List.map_cons, sampleCount, List.map_cons, List.sum_cons, if_pos samples] at hroom

/-- A token that is retired was in the budget. -/
theorem within : v.req.generatedTokens.length <
      v.req.tokenLimit (v.req.fullHit blockSize r.sc.hitBlocks) := by
  have hroom := h.room_retired samples
  have hmax := h.below_max
  unfold tokenLimit
  omega

/-- The retirement of an item that sampled, if the request stays active. -/
theorem retired
    (eos : r.sampling.isEos = isEos) (unfinished : v.req.tailFinished r.flight r.token = false)
    (decode : r.sc'.cursor.phase = .decode) : Budget isEos blockSize r.after r.sc' := by
  have hemitted := r.emitted samples
  simp only [RequestState.tailFinished, FlightItem.eos, samples, Bool.true_and, hemitted, eos,
    List.length_singleton, Bool.or_eq_false_iff, decide_eq_false_iff_not, not_le] at unfinished
  constructor
  · rw [r.same.hitBlocks, r.frontier]
    exact h.hits_le.trans (Nat.le_add_right ..)
  · intro hphase
    rw [decode] at hphase
    cases hphase
  · intro t ht
    simp only [RequestState.retired, hemitted, List.mem_append, List.mem_singleton] at ht
    rcases ht with ht | rfl
    · exact h.running t ht
    · exact unfinished.1
  · simpa [RequestState.retired, hemitted] using unfinished.2
  · rw [r.same.hitBlocks]
    have hroom := h.room_retired samples
    show _ ≤ v.req.contextRoom (v.req.fullHit blockSize r.sc.hitBlocks)
    simp only [RequestState.retired, hemitted, List.length_append, List.length_singleton]
    omega

/-- Retirement ends the request where the loop ends. -/
theorem ends_retired
    (follows : Greedy.Follows next v.req.initialPromptTokens (v.req.generatedTokens ++ [r.token]))
    (last : isEos r.token = true ∨
      v.req.sampling.maxTokens ≤ (v.req.generatedTokens ++ [r.token]).length) :
    v.req.generatedTokens ++ [r.token] = Greedy.loop next isEos v.req.initialPromptTokens
      (v.req.tokenLimit (v.req.fullHit blockSize r.sc.hitBlocks)) := by
  have hwithin := h.within samples
  cases heos : isEos r.token with
  | true => exact (follows.loop_stop h.running heos hwithin).symm
  | false =>
    have hmax := last.resolve_left (by simp [heos])
    have hlimit : v.req.tokenLimit (v.req.fullHit blockSize r.sc.hitBlocks) =
        (v.req.generatedTokens ++ [r.token]).length := by
      rw [List.length_append, List.length_singleton] at hmax ⊢
      unfold tokenLimit at hwithin ⊢
      omega
    rw [hlimit]
    refine (follows.loop_bound fun t ht => ?_).symm
    rcases List.mem_append.mp ht with ht | ht
    · exact h.running t ht
    · rw [List.mem_singleton.mp ht, heos]

end

/-- The comparison with the context ends the request where the loop ends. -/
theorem ends_context (h : Budget isEos blockSize v sc)
    (flowing : Flowing (fun context token => token = next context) v sc)
    (geometry : Geometry v.req sc (v.items.map (·.item)))
    (prompt : v.req.promptTokens = v.req.initialPromptTokens) (fresh : sc.admittedGenerated = 0)
    (follows : Greedy.Follows next v.req.initialPromptTokens v.req.generatedTokens)
    (reason : v.req.FinishReason sc) :
    v.req.generatedTokens = Greedy.loop next isEos v.req.initialPromptTokens
      (v.req.tokenLimit (v.req.fullHit blockSize sc.hitBlocks)) := by
  have hmax := h.below_max
  have hroom := h.below_room
  have hinPrompt := flowing.inPrompt
  rw [fresh] at hinPrompt
  obtain ⟨hphase, hreserved, hcontext⟩ := reason.resolve_left (not_le.mpr hmax)
  rw [geometry.reservedGeneration] at hreserved
  rw [hinPrompt, prompt] at hcontext
  rw [hreserved] at hroom
  have hstands := flowing.stands
  rw [stream, fresh, List.drop_zero] at hstands
  -- nothing outstanding and no room: the budget is used up
  have hlimit : v.req.tokenLimit (v.req.fullHit blockSize sc.hitBlocks) =
      v.req.generatedTokens.length := by
    simp only [tokenLimit, contextRoom] at hroom ⊢
    cases hp : sc.cursor.phase with
    | prefill | replayPrefill => simp [hp, GenerationPhase.isPrefill] at hphase
    | decode =>
      rw [hp] at hstands
      have := List.length_pos_of_ne_nil hstands.1
      split_ifs at hroom ⊢ <;> omega
    | bootstrap =>
      rw [hp] at hstands
      have hfull : v.req.fullHit blockSize sc.hitBlocks = true := by
        rw [fullHit, beq_iff_eq, ← h.bootstrap hp, hstands.2, prompt]
      rw [hfull] at hroom ⊢
      rw [hstands.1] at hroom hcontext ⊢
      simp only [if_true, List.length_nil] at hroom hcontext ⊢
      omega
  rw [hlimit]
  exact (follows.loop_bound h.running).symm

end Budget

/-- The events of a request that retirement ends. -/
theorem finishedEvents_append {token : Token}
    (last : isEos token = true ∨ maxTokens ≤ (tokens ++ [token]).length) :
    finishedEvents maxTokens isEos (tokens ++ [token]) = tokens.map SinkEvent.ofToken ++
      [.ok { tokenId := token, hasToken := true, finished := true }] := by
  simp only [finishedEvents, List.getLast?_append, List.getLast?_singleton, Option.some_or]
  rw [if_pos (by simpa using last), List.dropLast_concat]

/-- The events of a request that the context ends. -/
theorem finishedEvents_open
    (running : ∀ token ∈ tokens, isEos token = false) (below : (tokens.length : Int) < maxTokens) :
    finishedEvents maxTokens isEos tokens = tokens.map SinkEvent.ofToken ++
      [.ok { hasToken := false, finished := true }] := by
  unfold finishedEvents
  split
  · rename_i hnone
    rw [List.getLast?_eq_none_iff.mp hnone]
    rfl
  · rename_i token hsome
    rw [if_neg]
    simp [running token (List.mem_of_getLast? hsome), below]

/-- A full hit changes the loop only if the prompt fills the context. -/
theorem RequestState.loop_tokenLimit_eq_iff {st : RequestState} (next : List Token → Token)
    (isEos : Token → Bool) (prompt_le : (st.initialPromptTokens.length : Int) ≤ st.maxContextLen)
    (maxTokens_pos : 0 < st.sampling.maxTokens) (full full' : Bool) :
    Greedy.loop next isEos st.initialPromptTokens (st.tokenLimit full) =
      Greedy.loop next isEos st.initialPromptTokens (st.tokenLimit full') ↔
    (st.maxContextLen = st.initialPromptTokens.length → full = full') := by
  have hzero : st.maxContextLen = st.initialPromptTokens.length → st.tokenLimit true = 0 ∧
      st.tokenLimit false = 1 := by
    intro heq
    simp only [tokenLimit, contextRoom, heq, if_true, Bool.false_eq_true, if_false]
    omega
  have hsame : st.maxContextLen ≠ st.initialPromptTokens.length →
      st.tokenLimit true = st.tokenLimit false := by
    intro hne
    simp only [tokenLimit, contextRoom, if_true, Bool.false_eq_true, if_false]
    omega
  have hne : Greedy.loop next isEos st.initialPromptTokens 1 ≠
      Greedy.loop next isEos st.initialPromptTokens 0 := by
    simp only [Greedy.loop]
    split <;> simp
  by_cases heq : st.maxContextLen = st.initialPromptTokens.length
  · obtain ⟨h0, h1⟩ := hzero heq
    cases full <;> cases full' <;> simp [heq, h0, h1, hne, hne.symm]
  · have hlimits := hsame heq
    cases full <;> cases full' <;> simp [heq, hlimits]

/-- The events carry the tokens. -/
theorem finishedEvents_tokens (maxTokens : Int) (isEos : Token → Bool) (tokens : List Token) :
    (finishedEvents maxTokens isEos tokens).filterMap SinkEvent.token? = tokens := by
  have hopen : ∀ l : List Token, (l.map SinkEvent.ofToken).filterMap SinkEvent.token? = l := by
    intro l
    rw [List.filterMap_map]
    exact List.filterMap_some
  unfold finishedEvents
  split
  · rename_i hnone
    rw [List.getLast?_eq_none_iff.mp hnone]
    rfl
  · rename_i token hsome
    have hne : tokens ≠ [] := by
      rintro rfl
      cases hsome
    obtain rfl : tokens.getLast hne = token :=
      Option.some.inj ((List.getLast?_eq_some_getLast hne).symm.trans hsome)
    split <;> rw [List.filterMap_append, hopen]
    · exact List.dropLast_append_getLast hne
    · exact List.append_nil _

namespace View.Limits

variable {next : List Token → Token} {p : RequestPtr} {maxBlocks blockSize : Nat} {v v' : View}

theorem init (next : List Token → Token) (isEos : Token → Bool) (blockSize : Nat)
    (config : ValidConfig) (p : RequestPtr) (req : SchedulerRequest) :
    Limits next isEos blockSize p (.fresh config p req) := by
  constructor
  · exact fun f hf => absurd hf List.not_mem_nil
  all_goals simp [View.fresh, ofRequest]

section

variable (h : Limits next isEos blockSize p v)
include h

/-- A transaction that logs no admission, appends no token and does not finish the
request. -/
theorem same {obs : List Obs} (log : v'.log = v.log ++ obs)
    (neutral : ∀ seq hits generated, .admitted p seq hits generated ∉ obs)
    (request : v'.req.generatedTokens = v.req.generatedTokens ∧
      v'.req.initialPromptTokens = v.req.initialPromptTokens ∧
      v'.req.sampling = v.req.sampling ∧ v'.req.maxContextLen = v.req.maxContextLen)
    (ended : v'.req.status = .finished → v.req.status = .finished ∧ sentEvents p obs = [])
    (eos : ∀ f ∈ v'.items, f.sampling.isEos = isEos)
    (budget : .suspended p ∉ v.log → ∀ sc, v'.req.scheduling = some sc →
      v'.req.status = .active → Budget isEos blockSize v' sc) :
    Limits next isEos blockSize p v' := by
  obtain ⟨hgenerated, hinitial, hsampling, hcontext⟩ := request
  have hadmitted : ∀ {seq hits generated}, .admitted p seq hits generated ∈ v'.log →
      .admitted p seq hits generated ∈ v.log := by
    intro seq hits generated hmem
    rw [log] at hmem
    exact (List.mem_append.mp hmem).resolve_right (neutral seq hits generated)
  have hsuspended : .suspended p ∉ v'.log → .suspended p ∉ v.log :=
    mt fun hmem => log ▸ List.mem_append_left obs hmem
  have hlimit := tokenLimit_congr hinitial (by rw [hsampling]) hcontext blockSize
  refine ⟨eos, fun hs => budget (hsuspended hs), fun hs seq hits g hg => ?_,
    fun hs hf seq hits g hg => ?_⟩
  · rw [hgenerated, hinitial, hlimit]
    exact h.started (hsuspended hs) seq hits g (hadmitted hg)
  · obtain ⟨hf, hsilent⟩ := ended hf
    rw [hgenerated, hinitial, hlimit, hsampling, log, sentEvents_append, hsilent, List.append_nil]
    exact h.finished (hsuspended hs) hf seq hits g (hadmitted hg)

/-- A new fate does not change the sampling parameters of an item. -/
theorem eos_refated {before after : List FlightItem}
    {f : FlightItem} {fate : Fate} (split : v.items = before ++ f :: after) :
    ∀ g ∈ before ++ { f with fate := fate } :: after, g.sampling.isEos = isEos := by
  have heos := h.eos
  rw [split] at heos
  exact forall_mem_refated heos (heos f (by simp))

/-- What a request that was never suspended knows about the item that is retired. -/
theorem settled (generates : v.Generates next p)
    (r : v.Retirement p blockSize) (unsuspended : .suspended p ∉ v.log) : r.item.samples = true ∧
    Greedy.Follows next v.req.initialPromptTokens (v.req.generatedTokens ++ [r.token]) ∧
    r.sc'.cursor.phase = .decode ∧ Budget isEos blockSize v r.sc := by
  have hfresh : FreshAdmissions p v.log :=
    fun seq hits g hg => (generates.records.single unsuspended seq hits g hg).1
  obtain ⟨hplain, -, -⟩ := generates.fresh hfresh r.scheduled
  obtain ⟨hsamples, hfollows⟩ := generates.settled hfresh r
  exact ⟨hsamples, hfollows, r.phase (generates.flows r.sc r.scheduled r.active hplain),
    h.budget unsuspended r.sc r.scheduled r.active⟩

/-- The retirement of an item that reaches the tail of `retire_work`. -/
theorem retired (generates : v.Generates next p)
    (r : v.Retirement p blockSize) (live : r.after.log = v.log ∨ .erased p ∉ v.log) :
    Limits next isEos blockSize p r.after := by
  have records := generates.records
  have heos : ∀ f ∈ r.flight :: r.rest, f.sampling.isEos = isEos := r.front ▸ h.eos
  have hsuspended : .suspended p ∉ r.after.log → .suspended p ∉ v.log :=
    mt (List.mem_append_left _)
  have hadmitted : ∀ {seq hits g}, .admitted p seq hits g ∈ r.after.log →
      .admitted p seq hits g ∈ v.log := by
    intro seq hits g hg
    refine (List.mem_append.mp hg).resolve_right fun hg => ?_
    rcases List.mem_append.mp hg with hg | hg
    · simpa using r.settles.mem_head hg
    · simpa using RequestState.mem_tailObs hg
  have hgenerated : r.item.samples = true →
      r.after.req.generatedTokens = v.req.generatedTokens ++ [r.token] := fun hsamples =>
    congrArg (v.req.generatedTokens ++ ·) (r.emitted hsamples)
  have hlimit : ∀ hits, r.after.req.tokenLimit (r.after.req.fullHit blockSize hits) =
      v.req.tokenLimit (v.req.fullHit blockSize hits) := fun _ => rfl
  refine ⟨fun f hf => heos f (List.mem_cons_of_mem _ hf), ?_, fun hs seq hits g hg => ?_,
    fun hs hf seq hits g hg => ?_⟩
  · rintro hs _ ⟨⟩ hactive
    obtain ⟨hsamples, -, hdecode, budget⟩ := h.settled generates r (hsuspended hs)
    refine budget.retired hsamples (heos _ List.mem_cons_self) ?_ hdecode
    by_contra hf
    rw [Bool.not_eq_false] at hf
    simp [RequestState.retired, RequestState.tailStatus, hf] at hactive
  · obtain ⟨hsamples, hfollows, -, budget⟩ := h.settled generates r (hsuspended hs)
    obtain rfl := (records.single (hsuspended hs) seq hits g (hadmitted hg)).2 r.sc r.scheduled
    rw [hlimit, hgenerated hsamples]
    exact hfollows.prefix_loop_append budget.running (budget.within hsamples)
  · obtain ⟨hsamples, hfollows, -, budget⟩ := h.settled generates r (hsuspended hs)
    obtain rfl := (records.single (hsuspended hs) seq hits g (hadmitted hg)).2 r.sc r.scheduled
    have hfinished : v.req.tailFinished r.flight r.token = true := by
      by_contra hne
      have hf : v.req.tailStatus r.flight r.token = .finished := hf
      rw [RequestState.tailStatus, if_neg hne] at hf
      split at hf <;> cases hf
    have hlast : isEos r.token = true ∨
        v.req.sampling.maxTokens ≤ (v.req.generatedTokens ++ [r.token]).length := by
      simpa [RequestState.tailFinished, FlightItem.eos, FlightItem.emitted, hsamples,
        show r.sampling.isEos = isEos from heos _ List.mem_cons_self] using hfinished
    have hnot : .erased p ∉ v.log := by
      refine live.resolve_left fun heq => ?_
      have hnil := (List.append_right_eq_self.mp heq)
      simp [RequestState.tailObs, hfinished] at hnil
    rw [hlimit, hgenerated hsamples]
    refine ⟨budget.ends_retired hsamples hfollows hlast, ?_⟩
    show _ = finishedEvents v.req.sampling.maxTokens isEos _
    rw [finishedEvents_append hlast, sentEvents_append, sentEvents_append,
      r.settles.sentEvents_head, RequestState.sentEvents_tailObs, if_pos hsamples, hfinished,
      records.events hnot r.active]
    rfl

/-- Every transaction keeps the limits. -/
theorem step (generates : v.Generates next p) (kept : v.Kept blockSize)
    (t : View.Step p maxBlocks blockSize (fun context token => token = next context)
      (fun sampling => sampling.isEos = isEos) v v')
    (live : v'.log = v.log ∨ .erased p ∉ v.log) : Limits next isEos blockSize p v' := by
  have records := generates.records
  have hfresh : .suspended p ∉ v.log → FreshAdmissions p v.log :=
    fun hs seq hits g hg => (records.single hs seq hits g hg).1
  have hlog : v.log = v.log ++ [] := (List.append_nil _).symm
  cases t with
  | expire =>
    exact h.same hlog (by simp) ⟨rfl, rfl, rfl, rfl⟩ (fun hf => ⟨hf, rfl⟩) h.eos
      fun hs sc hsc hactive =>
      (h.budget hs sc hsc hactive).of_same ⟨rfl, rfl, rfl, rfl⟩ rfl rfl rfl rfl
  | cancel | fail =>
    exact h.same rfl (by simp) ⟨rfl, rfl, rfl, rfl⟩ (by simp) h.eos (by simp)
  | finish sc scheduled active reason =>
    refine ⟨h.eos, (by simp), fun hs seq hits g hg => ?_,
      fun hs _ seq hits g hg => ?_⟩
    · exact h.started (fun hmem => hs (List.mem_append_left _ hmem)) seq hits g (by simpa using hg)
    · have hs : .suspended p ∉ v.log := fun hmem => hs (List.mem_append_left _ hmem)
      have hg : .admitted p seq hits g ∈ v.log := by simpa using hg
      obtain ⟨-, hhits⟩ := records.single hs seq hits g hg
      obtain rfl := hhits sc scheduled
      obtain ⟨hplain, hprompt, -⟩ := generates.fresh (hfresh hs) scheduled
      have hadmitted := hfresh hs _ _ _ (records.scheduled sc scheduled).1
      have budget := h.budget hs sc scheduled active
      have hnot : .erased p ∉ v.log := live.resolve_left (by simp)
      refine ⟨budget.ends_context (generates.flows sc scheduled active hplain)
        (kept.geometry sc scheduled) hprompt hadmitted (generates.follows (hfresh hs)) reason, ?_⟩
      rw [finishedEvents_open budget.running budget.below_max, sentEvents_append,
        records.events hnot active]
      simp [Obs.event?]
  | grow sc _ scheduled active =>
    refine h.same hlog (by simp) ⟨rfl, rfl, rfl, rfl⟩ (fun hf => ⟨hf, rfl⟩) h.eos ?_
    rintro hs _ ⟨⟩ -
    exact (h.budget hs sc scheduled active).of_same ⟨rfl, rfl, rfl, rfl⟩ rfl rfl rfl rfl
  | dispatch sc _ sampling scheduled active itemFor shared =>
    refine h.same hlog (by simp) ⟨rfl, rfl, rfl, rfl⟩ (fun hf => ⟨hf, rfl⟩) (fun f hf => ?_) ?_
    · rcases List.mem_append.mp hf with hf | hf
      · exact h.eos f hf
      · rw [List.mem_singleton.mp hf]
        exact shared
    · rintro hs _ ⟨⟩ -
      obtain ⟨hplain, hprompt, -⟩ := generates.fresh (hfresh hs) scheduled
      exact (h.budget hs sc scheduled active).dispatched
        (generates.flows sc scheduled active hplain) active (kept.geometry sc scheduled) hprompt
        (hfresh hs _ _ _ (records.scheduled sc scheduled).1) sampling itemFor
  | admission seq _ parent table admissible =>
    have hnot : .erased p ∉ v.log := live.resolve_left (by simp)
    obtain ⟨hprompt, hfirst⟩ := records.waiting admissible.unscheduled hnot
    refine ⟨fun f hf => absurd hf List.not_mem_nil, ?_, fun hs seq' hits' g hg => ?_,
      fun _ hf => ?_⟩
    · rintro hs _ ⟨⟩ -
      have hnil := (hfirst fun hmem => hs (List.mem_append_left _ hmem)).1
      exact .admitted _ seq parent table admissible hnil (hprompt hnil)
    · have hnil := (hfirst fun hmem => hs (List.mem_append_left _ hmem)).1
      show v.req.generatedTokens <+: _
      rw [hnil]
      exact List.nil_prefix
    · exact absurd (admissible.active.symm.trans hf) (by simp)
  | park =>
    have hsuspended : .suspended p ∈ v.log ++ [.suspended p] := by simp
    constructor
    · exact fun f hf => absurd hf List.not_mem_nil
    · exact fun hs => absurd hsuspended hs
    · exact fun hs => absurd hsuspended hs
    · exact fun hs => absurd hsuspended hs
  | drop event _ last =>
    refine h.same rfl (by cases event <;> simp) ⟨rfl, rfl, rfl, rfl⟩ (fun hf => ⟨hf, ?_⟩)
      (fun f hf => absurd hf List.not_mem_nil) fun _ sc hsc => by cases hsc
    cases event with
    | none => rfl
    | some e =>
      have hf : v.req.status = .finished := hf
      rcases (last e rfl).2 with hs | hs <;> rw [hf] at hs <;> cases hs
  | discard before after f _ split _ ignored =>
    refine h.same hlog (by simp) ⟨rfl, rfl, rfl, rfl⟩ (fun hf => ⟨hf, rfl⟩)
      (fun g hg => h.eos g ?_) ?_
    · rw [split]
      exact ((List.sublist_cons_self f after).append_left before).subset hg
    · intro _ _ _ hactive
      exact absurd hactive (kept.discarded_inactive split ignored)
  | retireChunk _ _ _ _ sc front scheduled active more =>
    refine h.same hlog (by simp) ⟨rfl, rfl, rfl, rfl⟩ (fun hf => ⟨hf, rfl⟩)
      (fun f hf => h.eos f ?_) ?_
    · rw [front]
      exact List.mem_cons_of_mem _ hf
    · rintro hs _ ⟨⟩ -
      obtain ⟨hplain, hprompt, -⟩ := generates.fresh (hfresh hs) scheduled
      have flowing := generates.flows sc scheduled active hplain
      have hphase := flowing.filling front
      exact (h.budget hs sc scheduled active).retiredChunk front hphase more
  | retire _ _ _ _ _ _ _ _ _ front scheduled active settles publish =>
    exact h.retired generates ⟨_, _, _, _, _, _, _, _, _, kept, front, scheduled, active, settles,
      publish⟩ live
  | process before after f token split | skipStale before after f split
    | processFail before after f err known failed split =>
    refine h.same hlog (by simp) ⟨rfl, rfl, rfl, rfl⟩ (fun hf => ⟨hf, rfl⟩) ?_
      fun hs sc hsc ha => ?_
    · exact h.eos_refated split
    · exact (h.budget hs sc hsc ha).of_same ⟨rfl, rfl, rfl, rfl⟩ rfl rfl rfl (by simp [split])

end

end View.Limits

end CcInfer
