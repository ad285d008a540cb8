import CcInfer.Engine.EngineCore

/-!
# `CcInfer.Abstract.World`: the engine as requests that make transactions

The code moves requests between queues inside long functions and leaves its own invariants
broken in between. This module states what the engine is for at the level of one request: a
`World` is the data that matters, and `World.Step` lists the transactions a request can
make, each of them complete. Flags, timers, batch ids and counters are not part of a `World`.
-/

set_option autoImplicit false

namespace CcInfer

variable {st : RequestState} {sc : SequenceSchedulingState} {blockSize : Nat} {item : WorkItem}

/-! ### Items in flight -/

/-- What the completion channel of its batch says about an item. -/
inductive Fate
  /-- The worker has not processed the batch. -/
  | pending
  /-- The batch failed. -/
  | failed (err : ErrorCode)
  /-- The item was stale: its sequence had failed before. -/
  | stale
  /-- The forward pass ran; `token` is what the sampler wrote for the item. -/
  | done (token : Token)
  deriving DecidableEq, Repr

/-- A dispatched and not yet retired item, with the sampling parameters of its batch. -/
structure FlightItem where
  item : WorkItem
  sampling : SamplingParams
  fate : Fate
  deriving DecidableEq, Repr

namespace FlightItem

/-- The sequence of the item. -/
def seqId (f : FlightItem) : SequenceId := f.item.seqId

/-- The result entry of a processed item at place `index` of its batch. -/
def result (f : FlightItem) (index : Nat) : WorkItemResult :=
  match f.fate with
  | .done token => Worker.itemResult f.sampling index f.item token
  | _ => Worker.staleResult index f.item

/-- The token that retiring the item with sampler output `token` appends. -/
def emitted (f : FlightItem) (token : Token) : List Token :=
  if f.item.samples then [token] else []

/-- Whether the sampled token ends the sequence. -/
def eos (f : FlightItem) (token : Token) : Bool :=
  f.item.samples && f.sampling.isEos token

end FlightItem

/-- What holds of all items in flight holds of them after one has got its fate, if it holds of
that one. -/
theorem forall_mem_refated {P : FlightItem → Prop} {before after : List FlightItem}
    {f : FlightItem} {fate : Fate} (h : ∀ g ∈ before ++ f :: after, P g)
    (new : P { f with fate := fate }) : ∀ g ∈ before ++ { f with fate := fate } :: after, P g := by
  rw [List.forall_mem_append, List.forall_mem_cons] at h ⊢
  exact ⟨h.1, new, h.2.2⟩

/-! ### Requests -/

namespace RequestState

/-- The object that `submit_on_scheduler_thread` builds. -/
def ofRequest (config : ValidConfig) (req : SchedulerRequest) : RequestState where
  requestId := req.requestId
  initialPromptTokens := req.promptTokens
  promptTokens := req.promptTokens
  sampling := req.sampling
  maxContextLen :=
    if req.maxContextLen ≤ 0 then (config.defaultMaxContextLen : Int) else req.maxContextLen

/-- The object after `prepare_for_wait` and the release of its scheduling state. -/
def parked (st : RequestState) : RequestState where
  requestId := st.requestId
  initialPromptTokens := st.initialPromptTokens
  promptTokens :=
    if st.generatedTokens.isEmpty then st.promptTokens
    else st.initialPromptTokens ++ st.generatedTokens.dropLast
  status := st.status
  generatedTokens := st.generatedTokens
  sampling := st.sampling
  maxContextLen := st.maxContextLen
  sinkExpired := st.sinkExpired
  scheduling := none

/-- What `release_sequence` tells the executor about the scheduling state of the request. -/
def releaseNotes (st : RequestState) : List Obs :=
  (st.scheduling.map fun sc => Obs.releasedSequence sc.seqId).toList

/-- What is logged when a request at `p` leaves: the release of its own sequence, its last
event and the erasure. -/
theorem mem_leaving {st : RequestState} {notes : List Obs} {c : Prop}
    (released : notes = st.releaseNotes ∨ (notes = [] ∧ c)) {p : RequestPtr}
    {event : Option SinkEvent} {o : Obs}
    (ho : o ∈ notes ++ ((event.map (Obs.sent p)).toList ++ [.erased p])) :
    (∃ sc, st.scheduling = some sc ∧ o = .releasedSequence sc.seqId) ∨
      (∃ e, event = some e ∧ o = .sent p e) ∨ o = .erased p := by
  simp only [List.mem_append, Option.mem_toList, Option.map_eq_some_iff, List.mem_singleton] at ho
  rcases ho with ho | ⟨e, he, rfl⟩ | rfl
  · rcases released with rfl | ⟨rfl, -⟩
    · rw [releaseNotes, Option.mem_toList, Option.map_eq_some_iff] at ho
      obtain ⟨sc, hsc, rfl⟩ := ho
      exact .inl ⟨sc, hsc, rfl⟩
    · cases ho
  · exact .inr (.inl ⟨e, he, rfl⟩)
  · exact .inr (.inr rfl)

/-- The cursor that admission chooses over `frontier` cached tokens. -/
def admitCursor (st : RequestState) (frontier : Nat) : SequenceScheduleCursor :=
  let promptLen := st.promptTokens.length
  let fresh := st.generatedTokens.isEmpty
  let inPrompt := if fresh then 0 else st.generatedTokens.length - 1
  if 0 < frontier ∧ frontier < promptLen then
    ⟨if fresh then .prefill else .replayPrefill, frontier, inPrompt⟩
  else if promptLen ≤ frontier then
    ⟨if fresh then .bootstrap else .decode, promptLen, inPrompt⟩
  else ⟨.prefill, 0, inPrompt⟩

/-- The scheduling state that admission materializes. -/
def admitScheduling (st : RequestState) (blockSize : Nat) (seq : SequenceId)
    (lookup : PrefixLookup) : SequenceSchedulingState where
  seqId := seq
  cursor := st.admitCursor (lookup.prefixHitBlocks * blockSize)
  blockTable := lookup.blockTable
  executedFrontier := lookup.prefixHitBlocks * blockSize
  parentHash := lookup.parentHash
  hitBlocks := lookup.prefixHitBlocks
  admittedGenerated := st.generatedTokens.length

/-- The tests of `admit_one_waiting` that an admitted request has passed. -/
structure Admissible (st : RequestState) (maxBlocks blockSize : Nat) : Prop where
  unscheduled : st.scheduling = none
  active : st.status = .active
  maxTokens_pos : 0 < st.sampling.maxTokens
  prompt_pos : 0 < st.promptTokens.length
  prompt_le : (st.promptTokens.length : Int) ≤ st.maxContextLen
  context_le : st.maxContextLen ≤ (maxBlocks * blockSize : Nat)

/-- Why `build_state_work` or `admit_one_skipped` sends a terminal event: the token limit is
reached, or the next decode would exceed the context and nothing is outstanding. -/
def FinishReason (st : RequestState) (sc : SequenceSchedulingState) : Prop :=
  st.sampling.maxTokens ≤ st.generatedTokens.length ∨
  (sc.cursor.phase.isPrefill = false ∧ sc.reservation.reservedGenerationTokens = 0 ∧
    st.maxContextLen ≤ st.promptTokens.length + st.generatedTokens.length -
      sc.cursor.generatedTokensInPrompt)

end RequestState

/-- The items that `build_state_work` may dispatch for a request. -/
inductive ItemFor (st : RequestState) (sc : SequenceSchedulingState) (blockSize : Nat) :
    WorkItem → Prop
  /-- The next chunk of the prompt; the last one samples unless it replays. -/
  | chunk (start length : Nat)
      (phase : sc.cursor.phase.isPrefill = true)
      (start_eq : start = sc.cursor.prefillCursor + sc.reservation.reservedPromptTokens)
      (length_pos : 0 < length) (length_le : start + length ≤ st.promptTokens.length) :
      ItemFor st sc blockSize (.prefill
        { seqId := sc.seqId
          promptSpan := ⟨start, length⟩
          expectedContextLen := some (sc.executedFrontier + sc.reservation.reservedKvTokens)
          needsSample := decide (st.promptTokens.length ≤ start + length) &&
            !(sc.cursor.phase == .replayPrefill && !st.generatedTokens.isEmpty)
          tokens := (st.promptTokens.drop start).take length
          blockTable := sc.blockTable })
  /-- The decode of a full prefix hit: it reads the last prompt token and writes nothing. -/
  | bootstrap
      (phase : sc.cursor.phase = .bootstrap)
      (none_reserved : sc.reservation.reservedGenerationTokens = 0)
      (below_max : (st.generatedTokens.length : Int) < st.sampling.maxTokens)
      (below_context : (st.promptTokens.length + st.generatedTokens.length : Int) -
        sc.cursor.generatedTokensInPrompt < st.maxContextLen) :
      ItemFor st sc blockSize (.decode
        { seqId := sc.seqId
          inputToken := st.promptTokens.getLastD 0
          expectedContextLen := some (sc.executedFrontier + sc.reservation.reservedKvTokens)
          writeKv := false
          lateBind := false
          blockTable := sc.blockTable })
  /-- A decode of the latest token, bound by the worker. -/
  | decode
      (phase : sc.cursor.phase = .decode)
      (below_max : (st.generatedTokens.length + sc.reservation.reservedGenerationTokens : Int) <
        st.sampling.maxTokens)
      (below_context : (st.promptTokens.length + st.generatedTokens.length : Int) -
        sc.cursor.generatedTokensInPrompt + sc.reservation.reservedGenerationTokens <
        st.maxContextLen)
      (blocks : Scheduler.blockCount (sc.executedFrontier + sc.reservation.reservedKvTokens + 1)
        blockSize ≤ sc.blockTable.length) :
      ItemFor st sc blockSize (.decode
        { seqId := sc.seqId
          inputToken := 0
          expectedContextLen := some (sc.executedFrontier + sc.reservation.reservedKvTokens)
          writeKv := true
          lateBind := true
          blockTable := sc.blockTable })

theorem ItemFor.seqId_eq (h : ItemFor st sc blockSize item) : item.seqId = sc.seqId := by
  cases h <;> rfl

theorem ItemFor.blockTable_eq (h : ItemFor st sc blockSize item) :
    item.blockTable = sc.blockTable := by
  cases h <;> rfl

theorem ItemFor.context_eq (h : ItemFor st sc blockSize item) :
    item.context = sc.executedFrontier + sc.reservation.reservedKvTokens := by
  cases h <;> rfl

/-! ### Retirement of one item -/

/-- `publishLoop` on the blocks alone: the blocks afterwards, the scheduling state with its
remaining pending tokens, and what was published. -/
def KvBlocks.publishAll (kv : KvBlocks) (sc : SequenceSchedulingState) (index : Nat) :
    Nat → KvBlocks × SequenceSchedulingState × List Obs
  | 0 => (kv, sc, [])
  | fuel + 1 =>
    let blockSize := kv.pool.blockSize
    if blockSize ≤ sc.pendingHashTokens.length then
      let fullBlock := sc.pendingHashTokens.take blockSize
      let id := sc.blockTable.getD index 0
      let (hash, kv) := kv.publishFullBlock sc.parentHash fullBlock id
      let rest := kv.publishAll
        { sc with parentHash := hash, pendingHashTokens := sc.pendingHashTokens.drop blockSize }
        (index + 1) fuel
      (rest.1, rest.2.1, .published sc.seqId id index fullBlock :: rest.2.2)
    else (kv, sc, [])

/-- The publication part of retirement for an item that was retired at `sc`. -/
def KvBlocks.publishItem (kv : KvBlocks) (sc : SequenceSchedulingState) (item : WorkItem)
    (written : List Token) : KvBlocks × SequenceSchedulingState × List Obs :=
  if 0 < item.kvTokenCount then
    let pending := sc.pendingHashTokens ++ written
    kv.publishAll { sc with pendingHashTokens := pending }
      ((item.context - sc.pendingHashTokens.length) / kv.pool.blockSize) pending.length
  else (kv, sc, [])

namespace SequenceSchedulingState

/-- The scheduling state after the retirement of a chunk, before publication. -/
def advanceChunk (sc : SequenceSchedulingState) (chunk : PrefillChunk) (promptLen : Nat) :
    SequenceSchedulingState :=
  { sc with
    reservation := sc.reservation.retire (.prefill chunk)
    cursor := { sc.cursor with
      prefillCursor := sc.cursor.prefillCursor + chunk.promptSpan.length
      phase :=
        if promptLen ≤ sc.cursor.prefillCursor + chunk.promptSpan.length then .decode
        else sc.cursor.phase }
    executedFrontier := max sc.executedFrontier
      ((WorkItem.prefill chunk).context + chunk.promptSpan.length) }

/-- The scheduling state after the retirement of a decode, before publication. -/
def advanceDecode (sc : SequenceSchedulingState) (work : DecodeOneToken) :
    SequenceSchedulingState :=
  { sc with
    reservation := sc.reservation.retire (.decode work)
    executedFrontier := max sc.executedFrontier
      ((WorkItem.decode work).context + (WorkItem.decode work).kvTokenCount) }

/-- A sampled token ends the Bootstrap phase. -/
def leaveBootstrap (sc : SequenceSchedulingState) (item : WorkItem) : SequenceSchedulingState :=
  if item.samples && sc.cursor.phase == .bootstrap then
    { sc with cursor := { sc.cursor with phase := .decode } }
  else sc

section leaveBootstrap

variable (sc : SequenceSchedulingState) (item : WorkItem)

/-- Only the phase of the cursor changes. -/
@[simp] theorem leaveBootstrap_frame : (sc.leaveBootstrap item).seqId = sc.seqId ∧
    (sc.leaveBootstrap item).reservation = sc.reservation ∧
    (sc.leaveBootstrap item).blockTable = sc.blockTable ∧
    (sc.leaveBootstrap item).executedFrontier = sc.executedFrontier ∧
    (sc.leaveBootstrap item).pendingHashTokens = sc.pendingHashTokens ∧
    (sc.leaveBootstrap item).parentHash = sc.parentHash ∧
    (sc.leaveBootstrap item).cursor.generatedTokensInPrompt = sc.cursor.generatedTokensInPrompt ∧
    (sc.leaveBootstrap item).hitBlocks = sc.hitBlocks ∧
    (sc.leaveBootstrap item).admittedGenerated = sc.admittedGenerated := by
  unfold leaveBootstrap
  split <;> exact ⟨rfl, rfl, rfl, rfl, rfl, rfl, rfl, rfl, rfl⟩

end leaveBootstrap

end SequenceSchedulingState

namespace RequestState

/-- Whether the tail of `retire_work` ends the request. -/
def tailFinished (st : RequestState) (f : FlightItem) (token : Token) : Bool :=
  f.eos token ||
    decide (st.sampling.maxTokens ≤ st.generatedTokens.length + (f.emitted token).length)

/-- The status after the tail of `retire_work`; a token event to a dropped channel cancels
the request. -/
def tailStatus (st : RequestState) (f : FlightItem) (token : Token) : RequestStatus :=
  if st.tailFinished f token then .finished
  else if f.item.samples && st.sinkExpired then .cancelled
  else .active

/-- The request after the tail of `retire_work`. -/
def retired (st : RequestState) (sc : SequenceSchedulingState) (f : FlightItem)
    (token : Token) : RequestState :=
  { st with
    scheduling := some sc
    generatedTokens := st.generatedTokens ++ f.emitted token
    status := st.tailStatus f token }

/-- What the tail of `retire_work` logs for the request at `p`. -/
def tailObs (p : RequestPtr) (st : RequestState) (f : FlightItem) (token : Token) : List Obs :=
  let finished := st.tailFinished f token
  (if finished then [.statusSet p .finished] else []) ++
    if f.item.samples then
      .sent p (.ok { tokenId := token, hasToken := true, finished := finished }) ::
        (if !finished && st.sinkExpired then [.statusSet p .cancelled] else [])
    else if finished then
      [.statusSet p .finished, .sent p (.ok { hasToken := false, finished := true })]
    else []

/-- The tail of `retire_work` logs events and changes of status, and a finish only if it
ends the request. -/
theorem mem_tailObs {p : RequestPtr} {st : RequestState} {f : FlightItem} {token : Token}
    {o : Obs} (h : o ∈ tailObs p st f token) :
    (∃ event, o = .sent p event) ∨ o = .statusSet p .cancelled ∨
      (o = .statusSet p .finished ∧ st.tailFinished f token = true) := by
  unfold tailObs at h
  cases hf : st.tailFinished f token <;> cases hs : f.item.samples <;>
    cases he : st.sinkExpired <;> simp [hf, hs, he] at h <;> grind

end RequestState

end CcInfer
