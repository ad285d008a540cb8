import CcInfer.Invariant.Limits
import CcInfer.Refine.Reach

/-!
# `CcInfer.Proofs.Engine.Generation`: what a client receives

The sampler is taken to be a fixed function `next` of the tokens that were fed for the
sequence (`Sys.Samples`). A request then gets a beginning of the greedy continuation of its
prompt, unless it is admitted again after it has generated tokens (`stream_of_fresh`); never
suspended, it gets the tokens of the plain generation loop (`stream_eq_loop`). Prefix hits show in
the events of a request in one case only (`events_eq_iff`): a prompt as long as the context, all
of it cached, ends without the token that it would get without the cache.
-/

set_option autoImplicit false

namespace CcInfer

open RequestState

variable {y : Sys} {eos : Token} {config : ValidConfig} {next : List Token → Token} {p : RequestPtr}

/-- Every token was sampled as `next` of the tokens fed for its sequence. -/
def Sys.Samples (y : Sys) (next : List Token → Token) : Prop :=
  ∀ e ∈ y.worker.samples, e.token = next e.context

/-- All requests carry the same end-of-sequence id. -/
def Sys.SharesEos (y : Sys) (eos : Token) : Prop :=
  ∀ p req, .registered p req ∈ y.sched.trace → req.sampling.eosTokenId = eos

instance (y : Sys) (next : List Token → Token) : Decidable (y.Samples next) :=
  inferInstanceAs (Decidable (∀ e ∈ y.worker.samples, _))

/-- The request that an entry registers. -/
def Obs.request? : Obs → Option SchedulerRequest
  | .registered _ req => some req
  | _ => none

theorem Sys.SharesEos.of_requests
    (h : ∀ req ∈ y.sched.trace.filterMap Obs.request?, req.sampling.eosTokenId = eos) :
    y.SharesEos eos :=
  fun _ req hmem => h req (List.mem_filterMap.mpr ⟨_, hmem, rfl⟩)

/-- The test for the end of a sequence. -/
def isEos (eos token : Token) : Bool := ({ eosTokenId := eos } : SamplingParams).isEos token

section Lives

variable {req : SchedulerRequest}

/-- The object of a request carries what was submitted. -/
theorem Reachable.origin (h : Reachable config y) (hp : p < y.sched.nextPtr) :
    ∃ v : View, v.Origin config p ∧ v.req = y.sched.heap p ∧
      v.log = y.sched.trace.filter (Obs.about p) := by
  obtain ⟨v, ⟨horigin, -⟩, hv⟩ := h.life (I := fun v => v.Origin config p ∧ v.Records p)
    (fun req => ⟨.init config p req, .init config p req⟩)
    (fun v v' hv _ (t : View.Step p _ _ (fun _ _ => True) (fun _ => True) v v') live =>
      ⟨hv.1.step hv.2 t live, hv.2.step t live⟩)
    (fun _ _ => trivial) (fun _ _ => trivial) hp
  exact ⟨v, horigin, hv⟩

/-- The requests of an engine whose requests share the end-of-sequence id share the test. -/
theorem Reachable.shares (h : Reachable config y) {eos : Token} (shared : y.SharesEos eos)
    (q : RequestPtr) (hq : q < y.sched.nextPtr) : (y.sched.heap q).sampling.isEos = isEos eos := by
  obtain ⟨_, horigin, hreq, hlog⟩ := h.origin hq
  obtain ⟨req, hmem, -, -, hsampling, -⟩ := horigin.registered
  rw [hlog] at hmem
  have heos := shared q req (List.mem_filter.mp hmem).1
  funext token
  rw [← hreq, hsampling]
  simp only [SamplingParams.isEos, isEos, heos]

/-- The object of a registered request. -/
theorem Reachable.request (h : Reachable config y)
    (registered : .registered p req ∈ y.sched.trace) :
    (y.sched.heap p).initialPromptTokens = req.promptTokens ∧
    (y.sched.heap p).sampling = req.sampling ∧
    (y.sched.heap p).maxContextLen = (ofRequest config req).maxContextLen := by
  obtain ⟨_, horigin, hreq, hlog⟩ := h.origin (h.known registered (beq_self_eq_true p))
  obtain ⟨_, -, hunique, hdata⟩ := horigin.registered
  obtain rfl := hunique req (by
    rw [hlog]
    exact List.mem_filter.mpr ⟨registered, beq_self_eq_true p⟩)
  rw [← hreq]
  exact hdata

end Lives

/-- As long as a request is not admitted again with generated tokens, the tokens sent for it
are a beginning of the greedy continuation of its prompt. -/
theorem stream_of_fresh {config : ValidConfig} {y : Sys} (h : Reachable config y)
    {next : List Token → Token} (greedy : y.Samples next) {p : RequestPtr}
    {req : SchedulerRequest} (registered : .registered p req ∈ y.sched.trace)
    (fresh : FreshAdmissions p y.sched.trace) : sentTokens p y.sched.trace =
      Greedy.continuation next req.promptTokens (sentTokens p y.sched.trace).length := by
  obtain ⟨v, hv, hreq, hlog⟩ := h.life (View.Generates.init next config p)
    (fun v v' hv kept (t : View.Step p _ _ _ (fun _ => True) v v') live => hv.step kept t live)
    greedy (fun _ _ => trivial) (h.known registered (beq_self_eq_true p))
  have htokens := hv.records.tokens
  rw [hlog, sentTokens, sentEvents_filter] at htokens
  have hfollows := hv.follows fun seq hits g hg => by
    rw [hlog] at hg
    exact fresh seq hits g (List.mem_filter.mp hg).1
  rw [hreq, (h.request registered).1, ← hreq, ← htokens] at hfollows
  exact hfollows.eq_continuation

/-- A sampler that counts the tokens of its context. -/
def countContext (context : List Token) : Token := BitVec.ofNat 32 context.length

/-- A run of two requests in three blocks: the first is suspended after its second token, and
the second goes on until it is done. -/
def suspended : Sys :=
  Sys.after ((EngineConfig.small 3 0).toValid EngineConfig.three_ok)
    (Label.submits
      [⟨"b", [5], { maxTokens := 4 }, 6⟩, ⟨"a", [1, 2, 3, 4], { maxTokens := 2 }, 6⟩] ++
      Label.turn [1, 4] ++ Label.turn [2, 5] ++ Label.turn [5])

theorem stream_of_fresh_suspended :
    (.suspended 0 ∈ suspended.sched.trace ∧ sentTokens 0 suspended.sched.trace = [1, 2]) ∧
    sentTokens 0 suspended.sched.trace =
      Greedy.continuation countContext [5] (sentTokens 0 suspended.sched.trace).length :=
  ⟨by decide +kernel, stream_of_fresh (y := suspended) (Reachable.after _ _) (by decide +kernel)
    (show Obs.registered 0 ⟨"b", [5], { maxTokens := 4 }, 6⟩ ∈ _ by decide +kernel)
    (forall_admissions (P := fun _ generated => generated = 0) (by decide +kernel))⟩

/-- The same run, two turns later. -/
def replayed : Sys :=
  Sys.after ((EngineConfig.small 3 0).toValid EngineConfig.three_ok)
    (Label.submits
      [⟨"b", [5], { maxTokens := 4 }, 6⟩, ⟨"a", [1, 2, 3, 4], { maxTokens := 2 }, 6⟩] ++
      Label.turn [1, 4] ++ Label.turn [2, 5] ++ Label.turn [5] ++ Label.turn [2] ++ Label.turn [3])

/-- The readmission samples and sends the second token again. No assertion fails. -/
theorem replayed_resends : Reachable ((EngineConfig.small 3 0).toValid (by decide)) replayed ∧
    replayed.Samples countContext ∧
    .registered 0 ⟨"b", [5], { maxTokens := 4 }, 6⟩ ∈ replayed.sched.trace ∧
    replayed.sched.failedAsserts = [] ∧ sentTokens 0 replayed.sched.trace = [1, 2, 2, 3] ∧
    Greedy.continuation countContext [5] 4 = [1, 2, 3, 4] :=
  ⟨Reachable.after _ _, by decide +kernel, by decide +kernel, by decide +kernel,
    by decide +kernel, by decide⟩

/-! ### The plain loop -/

/-- The life of a request under a shared end-of-sequence id. -/
theorem Reachable.limits (h : Reachable config y) (greedy : y.Samples next)
    (shared : y.SharesEos eos) (hp : p < y.sched.nextPtr) :
    ∃ v : View, v.Limits next (isEos eos) config.kvBlockSize p ∧ v.Records p ∧
      v.Origin config p ∧ v.req = y.sched.heap p ∧ v.log = y.sched.trace.filter (Obs.about p) := by
  obtain ⟨v, ⟨hlimits, hgenerates, horigin⟩, hv⟩ := h.life
    (I := fun v => v.Limits next (isEos eos) config.kvBlockSize p ∧ v.Generates next p ∧
      v.Origin config p)
    (fun req => ⟨.init next _ _ config p req, .init next config p req, .init config p req⟩)
    (fun _ _ hv kept t live => ⟨hv.1.step hv.2.1 kept t live, hv.2.1.step kept t live,
      hv.2.2.step hv.2.1.records t live⟩) greedy (h.shares shared) hp
  exact ⟨v, hlimits, hgenerates.records, horigin, hv⟩

/-- A request that is admitted without prefix hits and never suspended gets the tokens of the
plain generation loop: all of them if it finishes, a beginning of them otherwise. -/
theorem stream_eq_loop {config : ValidConfig} {y : Sys} (h : Reachable config y)
    {next : List Token → Token} (greedy : y.Samples next) {eos : Token}
    (shared : y.SharesEos eos) {p : RequestPtr} {req : SchedulerRequest}
    (registered : .registered p req ∈ y.sched.trace)
    (unsuspended : .suspended p ∉ y.sched.trace)
    (cold : ∀ seq hits generated, .admitted p seq hits generated ∈ y.sched.trace → hits = 0) :
    let room := (ofRequest config req).maxContextLen - req.promptTokens.length
    let tokens := Greedy.loop next (isEos eos) req.promptTokens
      (min req.sampling.maxTokens (max 1 room)).toNat
    sentTokens p y.sched.trace <+: tokens ∧
    (.statusSet p .finished ∈ y.sched.trace → sentTokens p y.sched.trace = tokens) := by
  obtain ⟨v, hlimits, hrecords, horigin, hreq, hlog⟩ :=
    h.limits greedy shared (h.known registered (beq_self_eq_true p))
  have hmem : ∀ o : Obs, o ∈ v.log → o ∈ y.sched.trace := by
    rw [hlog]
    exact fun o ho => (List.mem_filter.mp ho).1
  have hunsuspended : .suspended p ∉ v.log := fun hs => unsuspended (hmem _ hs)
  have htokens := hrecords.tokens
  rw [hlog, sentTokens, sentEvents_filter] at htokens
  obtain ⟨hinitial, hsampling, hcontext⟩ := h.request registered
  -- without hits, the limit is the one of the plain loop
  have hlimit : ∀ hits generated seq, .admitted p seq hits generated ∈ v.log →
      v.req.tokenLimit (v.req.fullHit config.kvBlockSize hits) =
        (min req.sampling.maxTokens (max 1 ((ofRequest config req).maxContextLen -
          req.promptTokens.length))).toNat := by
    intro hits generated seq hmemlog
    obtain rfl := cold seq hits generated (hmem _ hmemlog)
    obtain rfl := (hrecords.single hunsuspended seq 0 generated hmemlog).1
    have hpos := (horigin.accepted seq 0 hmemlog).1
    have hnotFull : v.req.fullHit config.kvBlockSize 0 = false := by
      rw [fullHit, Nat.zero_mul, beq_eq_false_iff_ne]
      exact hpos.ne
    rw [hnotFull, tokenLimit, contextRoom, hreq, hinitial, hsampling,
      hcontext]
    rfl
  intro room tokens
  refine ⟨?_, fun hfinished => ?_⟩
  · by_cases hnil : v.req.generatedTokens = []
    · rw [sentTokens, htokens, hnil]
      exact List.nil_prefix
    · obtain ⟨seq, hits, generated, hadmitted⟩ := hrecords.begun hnil
      have hstarted := hlimits.started hunsuspended seq hits generated hadmitted
      rw [hlimit hits generated seq hadmitted, ← htokens, hreq, hinitial] at hstarted
      exact hstarted
  · have hmemFinished : .statusSet p .finished ∈ v.log := by
      rw [hlog]
      exact List.mem_filter.mpr ⟨hfinished, beq_self_eq_true p⟩
    obtain ⟨hstatus, seq, hits, generated, hadmitted⟩ := horigin.finished hmemFinished
    have hends := (hlimits.finished hunsuspended hstatus seq hits generated hadmitted).1
    rw [hlimit hits generated seq hadmitted, ← htokens, hreq, hinitial] at hends
    exact hends

/-- A run of two requests whose prompts are filled in chunks of two tokens, in batches that
they share. -/
def chunked : Sys :=
  Sys.after ((EngineConfig.small 4 2).toValid EngineConfig.fourChunked_ok)
    (Label.submits [⟨"a", [1, 2, 3], { maxTokens := 9 }, 5⟩, ⟨"b", [4], { maxTokens := 2 }, 6⟩] ++
      Label.turn [2, 1] ++ Label.turn [3, 2] ++ Label.turn [4] ++ Label.dispatch)

/-- The context leaves the first request two tokens. -/
theorem stream_eq_loop_chunked : (.statusSet 0 .finished ∈ chunked.sched.trace ∧
      Greedy.loop countContext (isEos (-1)) [1, 2, 3] (min 9 (max 1 (5 - 3)) : Int).toNat =
        [3, 4]) ∧ sentTokens 0 chunked.sched.trace <+:
      Greedy.loop countContext (isEos (-1)) [1, 2, 3] (min 9 (max 1 (5 - 3)) : Int).toNat ∧
    (.statusSet 0 .finished ∈ chunked.sched.trace → sentTokens 0 chunked.sched.trace =
      Greedy.loop countContext (isEos (-1)) [1, 2, 3] (min 9 (max 1 (5 - 3)) : Int).toNat) :=
  ⟨by decide +kernel, stream_eq_loop (y := chunked) (Reachable.after _ _) (by decide +kernel)
    (.of_requests (by decide +kernel))
    (show Obs.registered 0 ⟨"a", [1, 2, 3], { maxTokens := 9 }, 5⟩ ∈ _ by decide +kernel)
    (by decide +kernel)
    (forall_admissions (P := fun hits _ => hits = 0) (by decide +kernel))⟩

/-! ### The prefix cache -/

/-- A run in which `req` was registered at `p`, admitted with `hits` prefix-hit blocks, never
suspended, and finished. -/
structure Served (config : ValidConfig) (next : List Token → Token) (eos : Token)
    (req : SchedulerRequest) (hits : Nat) (y : Sys) (p : RequestPtr) : Prop where
  reachable : Reachable config y
  greedy : y.Samples next
  shared : y.SharesEos eos
  registered : .registered p req ∈ y.sched.trace
  unsuspended : .suspended p ∉ y.sched.trace
  admitted : ∃ seq generated, .admitted p seq hits generated ∈ y.sched.trace
  finished : .statusSet p .finished ∈ y.sched.trace

namespace Served

variable {req : SchedulerRequest} {hits : Nat}

/-- The number of hits decides the events only through the limit of a full hit. -/
theorem events (h : Served config next eos req hits y p) :
    let st := ofRequest config req
    sentEvents p y.sched.trace = finishedEvents req.sampling.maxTokens (isEos eos)
      (Greedy.loop next (isEos eos) req.promptTokens
        (st.tokenLimit (st.fullHit config.kvBlockSize hits))) ∧
    (req.promptTokens.length : Int) ≤ st.maxContextLen ∧ 0 < req.sampling.maxTokens := by
  obtain ⟨v, hlimits, hrecords, horigin, hreq, hlog⟩ := h.reachable.limits h.greedy h.shared
    (h.reachable.known h.registered (beq_self_eq_true p))
  have hmem : ∀ o : Obs, o.about p = true → (o ∈ v.log ↔ o ∈ y.sched.trace) := by
    intro o habout
    rw [hlog]
    exact List.mem_filter.trans (and_iff_left habout)
  obtain ⟨hinitial, hsampling, hcontext⟩ := h.reachable.request h.registered
  rw [← hreq] at hinitial hsampling hcontext
  have hunsuspended : .suspended p ∉ v.log :=
    mt (hmem (.suspended p) (beq_self_eq_true p)).mp h.unsuspended
  obtain ⟨seq, generated, hadmitted⟩ := h.admitted
  have hadmitted := (hmem (.admitted p seq hits generated) (beq_self_eq_true p)).mpr hadmitted
  have hstatus := (horigin.finished
    ((hmem (.statusSet p .finished) (beq_self_eq_true p)).mpr h.finished)).1
  obtain ⟨hends, hevents⟩ := hlimits.finished hunsuspended hstatus seq hits generated hadmitted
  obtain rfl := (hrecords.single hunsuspended seq hits generated hadmitted).1
  have haccepted := (horigin.accepted seq hits hadmitted).2
  have hlimit := tokenLimit_congr
    (show v.req.initialPromptTokens = (ofRequest config req).initialPromptTokens
      from hinitial) (by rw [hsampling]; rfl) hcontext config.kvBlockSize hits
  rw [hinitial, hsampling, hcontext] at haccepted
  refine ⟨?_, haccepted⟩
  rw [hlog, sentEvents_filter] at hevents
  rw [hevents, hends, hsampling, hinitial, hlimit]

end Served

/-- Two runs of the same request show the same events, whatever the prefix cache holds in
each, except if the prompt fills the context and it is a full hit in exactly one of them. -/
theorem events_eq_iff {config : ValidConfig} {next : List Token → Token} {eos : Token}
    {req req' : SchedulerRequest} {hits hits' : Nat} {y y' : Sys} {p p' : RequestPtr}
    (served : Served config next eos req hits y p)
    (served' : Served config next eos req' hits' y' p')
    (prompt : req'.promptTokens = req.promptTokens)
    (maxTokens : req'.sampling.maxTokens = req.sampling.maxTokens)
    (context : req'.maxContextLen = req.maxContextLen) :
    sentEvents p y.sched.trace = sentEvents p' y'.sched.trace ↔
      ((ofRequest config req).maxContextLen = req.promptTokens.length →
        (hits * config.kvBlockSize = req.promptTokens.length ↔
          hits' * config.kvBlockSize = req.promptTokens.length)) := by
  obtain ⟨hevents, hcontext, hmax⟩ := served.events
  obtain ⟨hevents', -, -⟩ := served'.events
  -- both requests read the limits off the same data
  have hlimit := tokenLimit_congr
    (show (ofRequest config req').initialPromptTokens =
      (ofRequest config req).initialPromptTokens from prompt) maxTokens
    (by simp only [ofRequest, context]) config.kvBlockSize hits'
  have hinjective : ∀ a b, finishedEvents req.sampling.maxTokens (isEos eos) a =
      finishedEvents req.sampling.maxTokens (isEos eos) b ↔ a = b := by
    refine fun a b => ⟨fun heq => ?_, fun heq => heq ▸ rfl⟩
    rw [← finishedEvents_tokens req.sampling.maxTokens (isEos eos) a, heq, finishedEvents_tokens]
  have hloop := loop_tokenLimit_eq_iff next (isEos eos) hcontext hmax
    ((ofRequest config req).fullHit config.kvBlockSize hits)
    ((ofRequest config req).fullHit config.kvBlockSize hits')
  rw [hevents, hevents', maxTokens, prompt, hlimit, hinjective]
  refine hloop.trans (imp_congr_right fun _ => ?_)
  rw [Bool.eq_iff_iff, fullHit, fullHit, beq_iff_eq, beq_iff_eq]
  rfl

/-- A small run is checked to serve a request. -/
theorem Served.after {req : SchedulerRequest} {hits : Nat} (seq : SequenceId) (ls : List Label)
    (check : (Sys.after config ls).Samples next ∧
      (∀ req ∈ (Sys.after config ls).sched.trace.filterMap Obs.request?,
        req.sampling.eosTokenId = eos) ∧ .registered p req ∈ (Sys.after config ls).sched.trace ∧
      .suspended p ∉ (Sys.after config ls).sched.trace ∧
      .admitted p seq hits 0 ∈ (Sys.after config ls).sched.trace ∧
      .statusSet p .finished ∈ (Sys.after config ls).sched.trace) :
    Served config next eos req hits (Sys.after config ls) p :=
  ⟨.after config ls, check.1, .of_requests check.2.1, check.2.2.1, check.2.2.2.1,
    ⟨seq, 0, check.2.2.2.2.1⟩, check.2.2.2.2.2⟩

/-- Four small blocks. -/
def fourBlocks : ValidConfig := (EngineConfig.small 4 0).toValid EngineConfig.four_ok

/-- A request alone, with the given limit on its context. -/
def alone (context : Int) : Sys :=
  Sys.after fourBlocks (Label.submits [⟨"b", [1, 2], {}, context⟩] ++ Label.turn [2] ++
    Label.dispatch)

/-- The same request after another one with the same prompt has published its block. -/
def warm (context : Int) (tokens : List Token) : Sys :=
  Sys.after fourBlocks (Label.submits [⟨"a", [1, 2], { maxTokens := 4 }, 8⟩] ++ Label.dispatch ++
    [.engine none, .engine none, .submit ⟨"b", [1, 2], {}, context⟩, .work true (.sampled [2]),
      .engine none] ++ Label.turn tokens ++ Label.dispatch)

theorem served_alone : Served fourBlocks countContext (-1) ⟨"b", [1, 2], {}, 3⟩ 0 (alone 3) 0 :=
  .after 1 _ (by decide +kernel)

theorem served_warm :
    Served fourBlocks countContext (-1) ⟨"b", [1, 2], {}, 3⟩ 1 (warm 3 [3, 2]) 1 :=
  .after 2 _ (by decide +kernel)

/-- With room for one token, the two runs show the same events. -/
theorem events_eq_iff_room : (sentEvents 0 (alone 3).sched.trace).length = 2 ∧
    (sentEvents 0 (alone 3).sched.trace = sentEvents 1 (warm 3 [3, 2]).sched.trace ↔
      ((3 : Int) = 2 → (0 * 2 = 2 ↔ 1 * 2 = 2))) :=
  ⟨by decide +kernel, events_eq_iff served_alone served_warm rfl rfl rfl⟩

theorem served_alone_full :
    Served fourBlocks countContext (-1) ⟨"b", [1, 2], {}, 2⟩ 0 (alone 2) 0 :=
  .after 1 _ (by decide +kernel)

theorem served_warm_full :
    Served fourBlocks countContext (-1) ⟨"b", [1, 2], {}, 2⟩ 1 (warm 2 [3]) 1 :=
  .after 2 _ (by decide +kernel)

/-- With a prompt that fills the context, the request gets a token without the cache, and
none with it. No assertion fails. -/
theorem warm_drops_token : Served fourBlocks countContext (-1) ⟨"b", [1, 2], {}, 2⟩ 0 (alone 2) 0 ∧
    Served fourBlocks countContext (-1) ⟨"b", [1, 2], {}, 2⟩ 1 (warm 2 [3]) 1 ∧
    (alone 2).sched.failedAsserts = [] ∧ (warm 2 [3]).sched.failedAsserts = [] ∧
    sentEvents 0 (alone 2).sched.trace = [.ok { tokenId := 2, hasToken := true, finished := false },
        .ok { hasToken := false, finished := true }] ∧
    sentEvents 1 (warm 2 [3]).sched.trace = [.ok { hasToken := false, finished := true }] :=
  ⟨served_alone_full, served_warm_full, by decide +kernel, by decide +kernel, by decide +kernel,
    by decide +kernel⟩

end CcInfer
