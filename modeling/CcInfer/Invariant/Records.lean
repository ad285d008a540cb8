import CcInfer.Invariant.Lives

/-!
# `CcInfer.Invariant.Records`: what the log says about a request

The log of a request and its object tell the same story. The tokens that were sent are the
generated tokens; as long as the request is active no other event was sent. The scheduling
state belongs to the last admission in the log, and it reads the initial prompt unless the
request was admitted with generated tokens.
-/

set_option autoImplicit false

namespace CcInfer

open RequestState

/-- The event that was sent to `p`. -/
def Obs.event? (p : RequestPtr) : Obs → Option SinkEvent
  | .sent q event => if q == p then some event else none
  | _ => none

/-- The token that an event carries. -/
def SinkEvent.token? : SinkEvent → Option Token
  | .ok token => if token.hasToken then some token.tokenId else none
  | .error _ => none

/-- The events that were sent to `p`. -/
def sentEvents (p : RequestPtr) (log : List Obs) : List SinkEvent := log.filterMap (Obs.event? p)

/-- The token ids that were sent to `p`. -/
def sentTokens (p : RequestPtr) (log : List Obs) : List Token :=
  (sentEvents p log).filterMap SinkEvent.token?

/-- A token event that leaves the stream open. -/
def SinkEvent.ofToken (token : Token) : SinkEvent :=
  .ok { tokenId := token, hasToken := true, finished := false }

section Sent

variable (p : RequestPtr) (l l' : List Obs)

@[simp] theorem sentEvents_append : sentEvents p (l ++ l') = sentEvents p l ++ sentEvents p l' :=
  List.filterMap_append

@[simp] theorem sentTokens_append : sentTokens p (l ++ l') = sentTokens p l ++ sentTokens p l' := by
  rw [sentTokens, sentEvents_append, List.filterMap_append]
  rfl

@[simp] theorem sentEvents_nil : sentEvents p [] = [] := rfl

@[simp] theorem sentEvents_cons (o : Obs) :
    sentEvents p (o :: l) = (o.event? p).toList ++ sentEvents p l := by
  rw [sentEvents, List.filterMap_cons]
  cases o.event? p <;> rfl

/-- The events of a request are in its part of the log. -/
theorem sentEvents_filter : sentEvents p (l.filter (Obs.about p)) = sentEvents p l := by
  rw [sentEvents, List.filterMap_filter]
  refine List.filterMap_congr fun o _ => ?_
  cases o <;> simp [Obs.about, Obs.event?]

/-- The events of a retired item. -/
theorem RequestState.sentEvents_tailObs (st : RequestState) (f : FlightItem) (token : Token) :
    sentEvents p (tailObs p st f token) = if f.item.samples then
        [.ok { tokenId := token, hasToken := true, finished := st.tailFinished f token }]
      else if st.tailFinished f token then [.ok { hasToken := false, finished := true }]
      else [] := by
  unfold tailObs sentEvents
  cases st.tailFinished f token <;> cases f.item.samples <;> cases st.sinkExpired <;>
    simp [Obs.event?, List.filterMap_cons]

theorem RequestState.sentTokens_tailObs (st : RequestState) (f : FlightItem) (token : Token) :
    sentTokens p (tailObs p st f token) = f.emitted token := by
  rw [sentTokens, sentEvents_tailObs, FlightItem.emitted]
  cases f.item.samples <;> cases st.tailFinished f token <;> simp [SinkEvent.token?]

/-- A settling retirement sends nothing before its tail. -/
theorem Settles.sentEvents_head {st : RequestState} {sc advanced : SequenceSchedulingState}
    {item : WorkItem} {written : List Token} {head : List Obs}
    (h : Settles p st sc item advanced written head) : sentEvents p head = [] := by
  cases h <;> simp [sentEvents, Obs.event?]

end Sent

/-- The log of a request and its object agree. -/
structure View.Records (p : RequestPtr) (v : View) : Prop where
  tokens : sentTokens p v.log = v.req.generatedTokens
  events : .erased p ∉ v.log → v.req.status = .active →
    sentEvents p v.log = v.req.generatedTokens.map SinkEvent.ofToken
  scheduled : ∀ sc, v.req.scheduling = some sc →
    .admitted p sc.seqId sc.hitBlocks sc.admittedGenerated ∈ v.log ∧
    sc.admittedGenerated ≤ v.req.generatedTokens.length ∧
    (sc.admittedGenerated = 0 → v.req.promptTokens = v.req.initialPromptTokens)
  waiting : v.req.scheduling = none → .erased p ∉ v.log →
    (v.req.generatedTokens = [] → v.req.promptTokens = v.req.initialPromptTokens) ∧
    (.suspended p ∉ v.log → v.req.generatedTokens = [] ∧
      ∀ seq hits generated, .admitted p seq hits generated ∉ v.log)
  begun : v.req.generatedTokens ≠ [] →
    ∃ seq hits generated, .admitted p seq hits generated ∈ v.log
  single : .suspended p ∉ v.log → ∀ seq hits generated,
    .admitted p seq hits generated ∈ v.log → generated = 0 ∧
      ∀ sc, v.req.scheduling = some sc → hits = sc.hitBlocks

/-- The prefix hits and the generated tokens of an admission of `p`. -/
def Obs.admission? (p : RequestPtr) : Obs → Option (Nat × Nat)
  | .admitted q _ hits generated => if q = p then some (hits, generated) else none
  | _ => none

theorem forall_admissions {p : RequestPtr} {log : List Obs} {P : Nat → Nat → Prop}
    (h : ∀ x ∈ log.filterMap (Obs.admission? p), P x.1 x.2) :
    ∀ seq hits generated, .admitted p seq hits generated ∈ log → P hits generated :=
  fun _ hits generated hmem =>
    h (hits, generated) (List.mem_filterMap.mpr ⟨_, hmem, by simp [Obs.admission?]⟩)

/-- An entry that says nothing about the admission of `p`. -/
def Obs.neutral (p : RequestPtr) : Obs → Bool
  | .admitted q _ _ _ | .suspended q | .erased q => q != p
  | _ => true

namespace View.Records

variable {p : RequestPtr} {maxBlocks blockSize : Nat} {sampler : List Token → Token → Prop}
  {params : SamplingParams → Prop} {v v' : View}

theorem init (config : ValidConfig) (p : RequestPtr) (req : SchedulerRequest) :
    Records p (.fresh config p req) := by
  constructor <;> simp [View.fresh, ofRequest, sentTokens, sentEvents, Obs.event?]

/-- A transaction under the same admission: it may log events and append tokens. -/
theorem same (h : Records p v) {obs : List Obs} {tokens : List Token}
    (log : v'.log = v.log ++ obs) (neutral : ∀ o ∈ obs, o.neutral p = true)
    (prompt : v'.req.promptTokens = v.req.promptTokens)
    (initial : v'.req.initialPromptTokens = v.req.initialPromptTokens)
    (generated : v'.req.generatedTokens = v.req.generatedTokens ++ tokens)
    (sent : sentTokens p obs = tokens) (active : v'.req.status = .active → v.req.status = .active ∧
      sentEvents p obs = tokens.map SinkEvent.ofToken)
    (waiting : v'.req.scheduling = none → v.req.scheduling = none ∧ tokens = [])
    (scheduled : ∀ sc', v'.req.scheduling = some sc' → ∃ sc, v.req.scheduling = some sc ∧
      sc'.seqId = sc.seqId ∧ sc'.hitBlocks = sc.hitBlocks ∧
      sc'.admittedGenerated = sc.admittedGenerated) : Records p v' := by
  have hmem : ∀ o : Obs, o.neutral p = false → (o ∈ v'.log ↔ o ∈ v.log) := by
    intro o ho
    rw [log, List.mem_append]
    exact or_iff_left fun hobs => by simp [neutral o hobs] at ho
  have herased : Obs.erased p ∈ v'.log ↔ _ := hmem _ (by simp [Obs.neutral])
  have hsuspended : Obs.suspended p ∈ v'.log ↔ _ := hmem _ (by simp [Obs.neutral])
  have hadmitted : ∀ seq hits generated, Obs.admitted p seq hits generated ∈ v'.log ↔ _ :=
    fun _ _ _ => hmem _ (by simp [Obs.neutral])
  constructor
  · rw [log, sentTokens_append, h.tokens, sent, generated]
  · intro hnot hs
    obtain ⟨hs, hevents⟩ := active hs
    rw [log, sentEvents_append, h.events (mt herased.mpr hnot) hs, hevents, generated,
      List.map_append]
  · intro sc' hsc'
    obtain ⟨sc, hsc, hseq, hhits, hadm⟩ := scheduled sc' hsc'
    obtain ⟨h1, h2, h3⟩ := h.scheduled sc hsc
    rw [hseq, hhits, hadm, hadmitted, generated, prompt, initial, List.length_append]
    exact ⟨h1, h2.trans (Nat.le_add_right ..), h3⟩
  · intro hnone hnot
    obtain ⟨hnone, rfl⟩ := waiting hnone
    rw [List.append_nil] at generated
    obtain ⟨h1, h2⟩ := h.waiting hnone (mt herased.mpr hnot)
    rw [generated, prompt, initial]
    refine ⟨h1, fun hs => ?_⟩
    obtain ⟨h3, h4⟩ := h2 (mt hsuspended.mpr hs)
    exact ⟨h3, fun seq hits g hg => h4 seq hits g ((hadmitted seq hits g).mp hg)⟩
  · intro hne
    cases hsc : v'.req.scheduling with
    | none =>
      obtain ⟨-, rfl⟩ := waiting hsc
      rw [generated, List.append_nil] at hne
      obtain ⟨seq, hits, g, hg⟩ := h.begun hne
      exact ⟨seq, hits, g, (hadmitted seq hits g).mpr hg⟩
    | some sc' =>
      obtain ⟨sc, hsc, -⟩ := scheduled sc' hsc
      exact ⟨_, _, _, (hadmitted _ _ _).mpr (h.scheduled sc hsc).1⟩
  · intro hs seq hits g hg
    obtain ⟨h1, h2⟩ := h.single (mt hsuspended.mpr hs) seq hits g ((hadmitted seq hits g).mp hg)
    refine ⟨h1, fun sc' hsc' => ?_⟩
    obtain ⟨sc, hsc, -, hhits, -⟩ := scheduled sc' hsc'
    rw [hhits, h2 sc hsc]

/-- A transaction that logs nothing. -/
theorem quiet (h : Records p v) (log : v'.log = v.log)
    (prompt : v'.req.promptTokens = v.req.promptTokens)
    (initial : v'.req.initialPromptTokens = v.req.initialPromptTokens)
    (generated : v'.req.generatedTokens = v.req.generatedTokens)
    (status : v'.req.status = v.req.status)
    (waiting : v'.req.scheduling = none → v.req.scheduling = none)
    (scheduled : ∀ sc', v'.req.scheduling = some sc' → ∃ sc, v.req.scheduling = some sc ∧
      sc'.seqId = sc.seqId ∧ sc'.hitBlocks = sc.hitBlocks ∧
      sc'.admittedGenerated = sc.admittedGenerated) : Records p v' :=
  h.same (show v'.log = v.log ++ [] by rw [log, List.append_nil]) (by simp) prompt initial
    (show v'.req.generatedTokens = v.req.generatedTokens ++ [] by rw [generated, List.append_nil])
    rfl (fun hs => ⟨status ▸ hs, rfl⟩) (fun hn => ⟨waiting hn, rfl⟩) scheduled

/-- Every transaction is recorded. -/
theorem step (h : Records p v) (t : View.Step p maxBlocks blockSize sampler params v v')
    (live : v'.log = v.log ∨ .erased p ∉ v.log) : Records p v' := by
  have hlive : ∀ {o obs}, v'.log = v.log ++ (o :: obs) → .erased p ∉ v.log := by
    intro o obs hlog
    refine live.resolve_left fun heq => ?_
    rw [hlog] at heq
    simp at heq
  -- an event that carries no token, to a request that stops being active
  have closes : ∀ {obs : List Obs} {status : RequestStatus}, (∀ o ∈ obs, o.neutral p = true) →
      sentTokens p obs = [] → status ≠ .active →
      Records p { v with req := { v.req with status := status }, log := v.log ++ obs } :=
    fun hneutral hsent hstatus => h.same rfl hneutral rfl rfl (List.append_nil _).symm hsent
      (fun hs => absurd hs hstatus) (fun hn => ⟨hn, rfl⟩) (fun sc hsc => ⟨sc, hsc, rfl, rfl, rfl⟩)
  cases t with
  | cancel => exact closes (by simp [Obs.neutral]) rfl (by simp)
  | finish | fail =>
    exact closes (by simp [Obs.neutral])
      (by simp [sentTokens, sentEvents, Obs.event?, SinkEvent.token?]) (by simp)
  | grow sc blocks scheduled | dispatch sc item sampling scheduled
    | discard before after f sc split scheduled
    | retireChunk rest chunk sampling token sc front scheduled =>
    refine h.quiet rfl rfl rfl rfl rfl (by simp) ?_
    rintro _ ⟨⟩
    exact ⟨sc, scheduled, rfl, rfl, rfl⟩
  | retire _ item sampling token sc _ _ _ _ _ scheduled active settles publish =>
    refine h.same rfl ?_ rfl rfl rfl ?_ ?_ (by simp [retired]) ?_
    · intro o ho
      rcases List.mem_append.mp ho with ho | ho
      · obtain ⟨_, _, rfl⟩ := settles.mem_head ho
        rfl
      · rcases mem_tailObs ho with ⟨_, rfl⟩ | rfl | ⟨rfl, -⟩ <;> rfl
    · rw [sentTokens_append, sentTokens_tailObs, sentTokens, settles.sentEvents_head]
      rfl
    · intro hs
      have hunfinished : v.req.tailFinished ⟨item, sampling, .done token⟩ token = false := by
        by_contra hf
        rw [Bool.not_eq_false] at hf
        simp [retired, tailStatus, hf] at hs
      refine ⟨active, ?_⟩
      rw [sentEvents_append, sentEvents_tailObs, settles.sentEvents_head, hunfinished]
      unfold FlightItem.emitted
      cases item.samples <;> rfl
    · rintro _ ⟨⟩
      obtain ⟨hseq, -, hhits, hadmitted⟩ := settles.sequence publish
      exact ⟨sc, scheduled, hseq, hhits, hadmitted⟩
  | admission seq hits _ _ admissible =>
    have hnot := hlive rfl
    obtain ⟨hprompt, hfirst⟩ := h.waiting admissible.unscheduled hnot
    constructor
    · simpa [sentTokens, Obs.event?] using h.tokens
    · intro _ hs
      simpa [Obs.event?] using h.events hnot hs
    · rintro _ ⟨⟩
      exact ⟨List.mem_append_right _ (List.mem_singleton.mpr rfl), le_refl _,
        fun hzero => hprompt (List.length_eq_zero_iff.mp hzero)⟩
    · simp
    · exact fun _ => ⟨seq, hits, _, List.mem_append_right _ (List.mem_singleton.mpr rfl)⟩
    · intro hs seq' hits' g hg
      obtain ⟨hnil, hnone⟩ := hfirst fun hmem => hs (List.mem_append_left _ hmem)
      rcases List.mem_append.mp hg with hg | hg
      · exact absurd hg (hnone seq' hits' g)
      · obtain ⟨-, rfl, rfl⟩ : seq' = seq ∧ hits' = hits ∧ g = v.req.generatedTokens.length := by
          simpa using hg
        refine ⟨by rw [hnil]; rfl, ?_⟩
        rintro _ ⟨⟩
        rfl
  | park sc scheduled =>
    have hsuspended : ∀ log : List Obs, .suspended p ∈ log ++ [.suspended p] := by simp
    constructor
    · simpa [sentTokens, Obs.event?, parked] using h.tokens
    · intro _ hs
      simpa [Obs.event?, parked] using h.events (hlive rfl) hs
    · simp [parked]
    · refine fun _ _ => ⟨fun hnil => ?_, fun hs => absurd (hsuspended _) hs⟩
      have hnil : v.req.generatedTokens = [] := hnil
      obtain ⟨-, hle, hprompt⟩ := h.scheduled sc scheduled
      rw [hnil] at hle
      simp only [parked, hnil, List.isEmpty_nil, if_true]
      exact hprompt (Nat.le_zero.mp hle)
    · exact fun _ => ⟨_, _, _, List.mem_append_left _ (h.scheduled sc scheduled).1⟩
    · exact fun hs => absurd (hsuspended _) hs
  | drop event _ last =>
    have hgone : ∀ log : List Obs, .erased p ∈ log ++ ((event.map (Obs.sent p)).toList ++
        [.erased p]) := by simp
    have hsent : sentTokens p ((event.map (Obs.sent p)).toList ++ [.erased p]) = [] := by
      cases event with
      | none => rfl
      | some e =>
        have hclosing := (last e rfl).1
        cases e <;> simp_all [sentTokens, sentEvents, Obs.event?, SinkEvent.token?,
          SinkEvent.closing]
    refine ⟨?_, fun hn => absurd (hgone _) hn, (by simp), fun _ hn => absurd (hgone _) hn,
      fun hne => ?_, ?_⟩
    · simp only [sentTokens_append p v.log, hsent, List.append_nil]
      exact h.tokens
    · obtain ⟨seq, hits, g, hg⟩ := h.begun hne
      exact ⟨seq, hits, g, List.mem_append_left _ hg⟩
    · intro hs seq hits g hg
      have hs' : .suspended p ∉ v.log := fun hmem => hs (List.mem_append_left _ hmem)
      have hg' : .admitted p seq hits g ∈ v.log := by
        cases event <;> simpa using hg
      exact ⟨(h.single hs' seq hits g hg').1, (by simp)⟩
  | _ => exact h.quiet rfl rfl rfl rfl rfl id fun sc hsc => ⟨sc, hsc, rfl, rfl, rfl⟩

end View.Records

/-! ### Origin and outcome -/

section Origin

variable {p : RequestPtr} {maxBlocks blockSize : Nat} {sampler : List Token → Token → Prop}
  {params : SamplingParams → Prop} {v v' : View}

/-- What no transaction changes of a request. -/
theorem View.Step.constant (t : View.Step p maxBlocks blockSize sampler params v v') :
    v'.req.initialPromptTokens = v.req.initialPromptTokens ∧ v'.req.sampling = v.req.sampling ∧
    v'.req.maxContextLen = v.req.maxContextLen ∧
    (v.req.status = .finished → v'.req.status = .finished) := by
  cases t with
  | cancel active | fail err active
    | retire rest item sampling token sc advanced published written head front scheduled active =>
    exact ⟨rfl, rfl, rfl, fun hs => absurd (active.symm.trans hs) nofun⟩
  | finish => exact ⟨rfl, rfl, rfl, fun _ => rfl⟩
  | _ => exact ⟨rfl, rfl, rfl, id⟩

/-- What a transaction may log: no registration, an admission only of an admissible request,
and a finish only with the status, of a scheduled request. -/
theorem View.Step.logs (t : View.Step p maxBlocks blockSize sampler params v v') :
    ∃ obs, v'.log = v.log ++ obs ∧ (∀ req, .registered p req ∉ obs) ∧
    (∀ seq hits generated, .admitted p seq hits generated ∈ obs →
      v.req.Admissible maxBlocks blockSize ∧ generated = v.req.generatedTokens.length) ∧
    (.statusSet p .finished ∈ obs → v'.req.status = .finished ∧
      ∃ sc, v.req.scheduling = some sc) := by
  cases t with
  | cancel | fail | park => exact ⟨_, rfl, by simp⟩
  | finish _ scheduled => exact ⟨_, rfl, by simp [scheduled]⟩
  | admission _ _ _ _ admissible =>
    exact ⟨_, rfl, by simp [admissible]⟩
  | drop event => exact ⟨_, rfl, by cases event <;> simp⟩
  | retire _ item sampling token sc _ _ _ head _ scheduled _ settles =>
    have hobs : ∀ o ∈ head ++ tailObs p v.req ⟨item, sampling, .done token⟩ token,
        (∃ start context, o = .finalChunk p start context) ∨ (∃ event, o = .sent p event) ∨
        o = .statusSet p .cancelled ∨ (o = .statusSet p .finished ∧
          v.req.tailFinished ⟨item, sampling, .done token⟩ token = true) := fun o ho =>
      (List.mem_append.mp ho).imp settles.mem_head mem_tailObs
    refine ⟨_, rfl, fun req hmem => ?_, fun seq hits g hmem => ?_, fun hmem => ?_⟩
    · simpa using hobs _ hmem
    · simpa using hobs _ hmem
    · have hfinished : v.req.tailFinished ⟨item, sampling, .done token⟩ token = true := by
        simpa using hobs _ hmem
      exact ⟨by simp [retired, tailStatus, hfinished], sc, scheduled⟩
  | _ => exact ⟨[], (List.append_nil _).symm, by simp⟩

/-- Where a request comes from, and what its log says about its admission and its end. -/
structure View.Origin (config : ValidConfig) (p : RequestPtr) (v : View) : Prop where
  registered : ∃ req, .registered p req ∈ v.log ∧
    (∀ req', .registered p req' ∈ v.log → req' = req) ∧
    v.req.initialPromptTokens = req.promptTokens ∧ v.req.sampling = req.sampling ∧
    v.req.maxContextLen = (ofRequest config req).maxContextLen
  accepted : ∀ seq hits, .admitted p seq hits 0 ∈ v.log →
    0 < v.req.initialPromptTokens.length ∧
    (v.req.initialPromptTokens.length : Int) ≤ v.req.maxContextLen ∧ 0 < v.req.sampling.maxTokens
  finished : .statusSet p .finished ∈ v.log → v.req.status = .finished ∧
    ∃ seq hits generated, .admitted p seq hits generated ∈ v.log

theorem View.Origin.init (config : ValidConfig) (p : RequestPtr) (req : SchedulerRequest) :
    Origin config p (.fresh config p req) := by
  refine ⟨⟨req, ?_⟩, ?_, ?_⟩
  · simp [View.fresh, ofRequest]
  · simp [View.fresh]
  · simp [View.fresh]

/-- Every transaction keeps the origin. -/
theorem View.Origin.step {config : ValidConfig} (h : Origin config p v) (records : v.Records p)
    (t : View.Step p maxBlocks blockSize sampler params v v')
    (live : v'.log = v.log ∨ .erased p ∉ v.log) : Origin config p v' := by
  obtain ⟨hinitial, hsampling, hcontext, hstatus⟩ := t.constant
  obtain ⟨_, hlog, hregistered, hadmitted, hfinished⟩ := t.logs
  obtain ⟨req, hreq, hunique, hdata⟩ := h.registered
  refine ⟨⟨req, ?_, fun req' hreq' => ?_, ?_⟩, fun seq hits hg => ?_, fun hmem => ?_⟩
  · rw [hlog]
    exact List.mem_append_left _ hreq
  · rw [hlog] at hreq'
    exact hunique req' ((List.mem_append.mp hreq').resolve_right (hregistered req'))
  · rw [hinitial, hsampling, hcontext]
    exact hdata
  · rw [hinitial, hsampling, hcontext]
    rw [hlog] at hg
    rcases List.mem_append.mp hg with hg | hg
    · exact h.accepted seq hits hg
    · obtain ⟨admissible, hlength⟩ := hadmitted seq hits 0 hg
      have hnot : .erased p ∉ v.log := by
        refine live.resolve_left fun heq => ?_
        rw [hlog, List.append_right_eq_self] at heq
        simp [heq] at hg
      have hprompt := (records.waiting admissible.unscheduled hnot).1
        (List.length_eq_zero_iff.mp hlength.symm)
      rw [← hprompt]
      exact ⟨admissible.prompt_pos, admissible.prompt_le, admissible.maxTokens_pos⟩
  · rw [hlog] at hmem ⊢
    rcases List.mem_append.mp hmem with hmem | hmem
    · obtain ⟨hs, seq, hits, g, hg⟩ := h.finished hmem
      exact ⟨hstatus hs, seq, hits, g, List.mem_append_left _ hg⟩
    · obtain ⟨hs, sc, hsc⟩ := hfinished hmem
      exact ⟨hs, _, _, _, List.mem_append_left _ (records.scheduled sc hsc).1⟩

end Origin

end CcInfer
