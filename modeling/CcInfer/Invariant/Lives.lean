import CcInfer.Invariant.Core

/-!
# `CcInfer.Invariant.Lives`: from the life of one request to all runs

`life` is the rule that the properties of single requests are proved with. A property of
views that holds of a new request, and that every transaction of the request keeps, holds
of every request in every world that is reached. The rule takes care of what the
transactions of other requests could change, and of the two promises of the environment:
what the sampler answers, and which sampling parameters the requests carry.
-/

set_option autoImplicit false

namespace CcInfer

variable {config : ValidConfig} {w : World} {p : RequestPtr}

open Relation

/-- The log speaks of registered requests, and tells which of them are gone. -/
structure Logged (w : World) : Prop where
  known : ∀ o ∈ w.trace, ∀ p, Obs.about p o = true → p < w.nextPtr
  erased : ∀ p, p < w.nextPtr → ((∃ id, (id, p) ∈ w.requests) ↔ .erased p ∉ w.trace)

/-- The view of a request that was just registered at `p`. -/
def View.fresh (config : ValidConfig) (p : RequestPtr) (req : SchedulerRequest) : View :=
  ⟨.ofRequest config req, [], [], none, false, [.registered p req]⟩

namespace World

variable {w' : World}

/-- The worker never forgets a sample. -/
theorem Step.samples_prefix (t : Step w w') : w.samples <+: w'.samples := by
  cases t with
  | process _ _ f token =>
    obtain ⟨-, -, -, hsamples, -⟩ := w.processed_fields f token
    exact ⟨_, hsamples.symm⟩
  | processFail _ _ _ _ _ _ _ _ fails =>
    exact ⟨[], (List.append_nil _).trans fails.fields.2.1.symm⟩
  | _ => exact List.prefix_rfl

/-- What an entry of the log says about the transaction from `w` to `w'` that wrote it. -/
def Logs (w w' : World) : Obs → Prop
  | .registered p _ => p = w.nextPtr ∧ w'.nextPtr = w.nextPtr + 1
  | .sent p _ | .statusSet p _ | .suspended p | .finalChunk p _ _ => w.Live p
  | .erased p =>
    w.Live p ∧ w'.requests = w.requests.filter (fun e => e.1 ≠ (w.heap p).requestId)
  | .admitted p seq hits _ =>
    w.waiting.head? = some p ∧ (w.heap p).Admissible w.kv.pool.maxBlocks w.kv.pool.blockSize ∧
    seq = w.nextSeqId ∧ w'.nextSeqId = w.nextSeqId + 1 ∧
    ∃ sc, w'.Scheduled p sc ∧ sc.seqId = seq ∧ sc.hitBlocks = hits
  | .dispatched item => w'.trace = w.trace ++ [.dispatched item] ∧
    ∃ p sc, w.Scheduled p sc ∧ (w.heap p).status = .active ∧
      ItemFor (w.heap p) sc w.kv.pool.blockSize item
  | .published seq _ _ _ => ∃ p sc, w.Scheduled p sc ∧ sc.seqId = seq ∧ (w.heap p).status = .active
  | .rejected _ _ | .allocate _ _ | .releasedSequence _ => True

/-- An entry about a request is about a live one, or registers it. -/
theorem Logs.live {o : Obs} (h : w.Logs w' o) (about : Obs.about p o = true) :
    w.Live p ∨ (p = w.nextPtr ∧ w'.nextPtr = w.nextPtr + 1) := by
  cases o with
  | registered => exact .inr (beq_iff_eq.mp about ▸ h)
  | sent | statusSet | suspended | finalChunk => exact .inl (beq_iff_eq.mp about ▸ h)
  | erased => exact .inl (beq_iff_eq.mp about ▸ h.1)
  | admitted =>
    exact .inl (beq_iff_eq.mp about ▸ .inl (List.mem_of_mem_head? h.1))
  | _ => cases about

/-- What a transaction logs. -/
theorem Step.logs (t : Step w w') : ∃ obs, w'.trace = w.trace ++ obs ∧ ∀ o ∈ obs, w.Logs w' o := by
  have alloc : ∀ {obs : List Obs} {leak : BlockTable}, AllocLog obs leak →
      ∀ o ∈ obs, w.Logs w' o := by
    intro obs leak logged
    cases logged <;> simp [Logs]
  cases t with
  | note o quiet =>
    obtain ⟨_, _, rfl⟩ := quiet
    exact ⟨_, rfl, by simp [Logs]⟩
  | register => exact ⟨_, rfl, by simp [Logs]⟩
  | cancel _ live => exact ⟨_, rfl, by simpa [Logs] using live⟩
  | finish p sc running | fail p err running =>
    have live : w.Live p := .inr (.inr running)
    exact ⟨_, rfl, by simpa [Logs] using live⟩
  | blocks _ _ _ _ logged => exact ⟨_, rfl, alloc logged⟩
  | grow _ _ _ _ _ _ _ _ _ _ _ logged =>
    exact ⟨_, rfl, alloc logged⟩
  | dispatch p sc _ _ _ scheduled active itemFor =>
    exact ⟨_, rfl, List.forall_mem_singleton.mpr ⟨rfl, p, sc, scheduled, active, itemFor⟩⟩
  | admission p _ _ hits parent blocks _ front admissible _ _ _ _ _ logged =>
    refine ⟨_, rfl, fun o ho => ?_⟩
    rcases List.mem_append.mp ho with ho | ho
    · exact alloc logged o ho
    · rw [List.mem_singleton.mp ho]
      exact ⟨by rw [front]; rfl, admissible, rfl, rfl, (w.heap p).admitScheduling
        w.kv.pool.blockSize w.nextSeqId ⟨hits.map (·.blockId) ++ blocks, hits.length, parent⟩,
        by simp [Scheduled], rfl, rfl⟩
  | park _ _ _ _ _ source =>
    exact ⟨_, rfl, List.forall_mem_singleton.mpr (.inr (source.imp_right And.left))⟩
  | drop _ _ _ live _ _ _ _ _ released =>
    refine ⟨_, rfl, fun o ho => ?_⟩
    rcases RequestState.mem_leaving released ho with ⟨_, -, rfl⟩ | ⟨_, -, rfl⟩ | rfl
    · trivial
    · exact live
    · exact ⟨live, rfl⟩
  | retire _ _ _ _ p sc _ _ _ _ running scheduled _ active settles =>
    refine ⟨_, rfl, fun o ho => ?_⟩
    rcases settles.mem_log ho with ⟨_, _, rfl⟩ | ⟨_, _, _, rfl⟩ |
      ⟨event, rfl⟩ | ⟨status, rfl⟩
    · exact .inr (.inr running)
    · exact ⟨p, sc, scheduled, rfl, active⟩
    · exact .inr (.inr running)
    · exact .inr (.inr running)
  | _ => exact ⟨[], (List.append_nil _).symm, nofun⟩

/-- Nothing leaves the log. -/
theorem Run.trace_prefix (run : World.Run w w') : w.trace <+: w'.trace :=
  Runs.invariant (I := fun x => w.trace <+: x.trace)
    (fun _ _ h t => by
      obtain ⟨obs, htrace, -⟩ := t.logs
      exact h.trans ⟨obs, htrace.symm⟩) List.prefix_rfl run

end World

namespace Logged

variable {w' : World}

theorem init (config : ValidConfig) : Logged (World.init config) :=
  ⟨nofun, fun _ hp => absurd hp (Nat.not_lt_zero _)⟩

/-- Every transaction keeps the log in order. -/
theorem step (h : Logged w) (core : Core w) (t : World.Step w w') : Logged w' := by
  have hp := core.positions
  obtain ⟨_, htrace, hlogs⟩ := t.logs
  refine ⟨fun o ho p about => ?_, fun p hlt => ?_⟩
  · rw [htrace, List.mem_append] at ho
    rcases ho with ho | ho
    · exact (h.known o ho p about).trans_le t.nextPtr_le
    · rcases (hlogs o ho).live about with live | ⟨rfl, hnext⟩
      · exact (hp.allocated p live).trans_le t.nextPtr_le
      · exact hnext ▸ Nat.lt_succ_self _
  -- an erasure in the log comes with a change of the registry
  · have kept : w'.requests = w.requests → w'.nextPtr = w.nextPtr →
        ((∃ id, (id, p) ∈ w'.requests) ↔ .erased p ∉ w'.trace) := by
      intro hrequests hnext
      rw [hrequests, h.erased p (hnext ▸ hlt), htrace, List.mem_append, not_or]
      refine ⟨fun hold => ⟨hold, fun hnew => ?_⟩, And.left⟩
      obtain ⟨live, hfilter⟩ := hlogs _ hnew
      obtain ⟨id, hid⟩ := (hp.registered p).mpr live
      have hmem := hid
      rw [← hrequests, hfilter] at hmem
      simp [hp.named id p hid] at hmem
    cases t with
    | register =>
      have hnew : ∀ q, .erased q ∈ w.trace → q < w.nextPtr :=
        fun q hq => h.known _ hq q (beq_self_eq_true q)
      rcases Nat.lt_succ_iff_lt_or_eq.mp hlt with hlt | rfl
      · simpa [ne_of_lt hlt] using h.erased p hlt
      · have hnot : .erased w.nextPtr ∉ w.trace := fun hq => lt_irrefl _ (hnew _ hq)
        simpa using hnot
    | drop q _ event live _ _ _ _ notes released =>
      have hgone : .erased p ∈ notes ++ ((event.map (Obs.sent q)).toList ++ [.erased q]) ↔
          p = q := by
        constructor
        · intro hmem
          rcases RequestState.mem_leaving released hmem with ⟨_, -, heq⟩ | ⟨_, -, heq⟩ | heq <;>
            cases heq
          rfl
        · rintro rfl
          simp
      rw [List.mem_append, hgone, not_or, ← h.erased p hlt]
      constructor
      · rintro ⟨id, hid⟩
        obtain ⟨hmem, hne⟩ := List.mem_filter.mp hid
        refine ⟨⟨id, hmem⟩, ?_⟩
        rintro rfl
        simp [hp.named id p hmem] at hne
      · rintro ⟨⟨id, hid⟩, hne⟩
        refine ⟨id, List.mem_filter.mpr ⟨hid, ?_⟩⟩
        simpa using fun heq => hne ((hp.name_eq_iff live id p hid).mp heq)
    | _ => exact kept rfl rfl

end Logged

theorem Logged.run (run : World.Run (World.init config) w) : Logged w :=
  (Runs.invariant (I := fun x => Core x ∧ Logged x)
    (fun _ _ h t => ⟨h.1.step t, h.2.step h.1 t⟩) ⟨.init config, .init config⟩ run).2

/-- A transaction that logs about a request finds it registered. -/
theorem Logged.live {w' : World} (h : Logged w) (core : Core w)
    (t : World.Step w w') (hp : p < w.nextPtr) :
    (w'.view p).log = (w.view p).log ∨ .erased p ∉ (w.view p).log := by
  obtain ⟨obs, htrace, hlogs⟩ := t.logs
  rw [World.view_log, World.view_log, htrace, List.filter_append]
  by_cases habout : ∃ o ∈ obs, Obs.about p o = true
  · obtain ⟨o, ho, about⟩ := habout
    have live : w.Live p := ((hlogs o ho).live about).resolve_right fun h => hp.ne h.1
    refine .inr fun hmem => ?_
    exact (h.erased p hp).mp ((core.positions.registered p).mpr live) (List.mem_filter.mp hmem).1
  · left
    rw [List.filter_eq_nil_iff.mpr fun o ho about => habout ⟨o, ho, about⟩, List.append_nil]

section Life

variable {sampler : List Token → Token → Prop} {params : SamplingParams → Prop} {I : View → Prop}

/-- The rule for properties of the life of a request. -/
theorem life (new : ∀ req, I (.fresh config p req))
    (keep : ∀ v v', I v → v.Kept config.kvBlockSize →
      View.Step p config.maxBlocks config.kvBlockSize sampler params v v' →
      (v'.log = v.log ∨ .erased p ∉ v.log) → I v')
    {w : World} (run : World.Run (World.init config) w)
    (hsampler : ∀ e ∈ w.samples, sampler e.context e.token)
    (hparams : ∀ q, q < w.nextPtr → params (w.heap q).sampling) (hp : p < w.nextPtr) :
    I (w.view p) := by
  -- the promises of the environment about a world hold in every world before it
  let G : World → Prop := fun w => (∀ e ∈ w.samples, sampler e.context e.token) ∧
    ∀ q, q < w.nextPtr → params (w.heap q).sampling
  let J : World → Prop := fun w => w.config = config ∧ Core w ∧ Logged w ∧
    (p < w.nextPtr → I (w.view p))
  have back : ∀ w w', World.Step w w' → G w' → G w := by
    rintro _ _ t ⟨hs, hq⟩
    refine ⟨fun e he => hs e (t.samples_prefix.subset he), fun q hlt => ?_⟩
    rw [← t.sampling_eq hlt]
    exact hq q (lt_of_lt_of_le hlt t.nextPtr_le)
  have keepJ : ∀ w w', J w → World.Step w w' → G w' → J w' := by
    rintro w w' ⟨hconfig, core, logged, hI⟩ t hG
    refine ⟨t.config_eq.trans hconfig, core.step t, logged.step core t, fun hp' => ?_⟩
    by_cases hold : p < w.nextPtr
    · have hmax := core.ownership.maxBlocks
      have hsize := core.ownership.blockSize
      rw [hconfig] at hmax hsize
      rcases t.view core.positions core.flights hmax hsize (congrArg _ hconfig) (back w w' t hG).2
        hG.1 p hold with heq | hstep
      · rw [heq]; exact hI hold
      · exact keep _ _ (hI hold) (hconfig ▸ core.kept p hold) hstep (logged.live core t hold)
    · cases t with
      | register req =>
        obtain rfl : p = w.nextPtr := Nat.le_antisymm (Nat.le_of_lt_succ hp') (not_lt.mp hold)
        have hnone : w.trace.filter (Obs.about w.nextPtr) = [] :=
          List.filter_eq_nil_iff.mpr fun o ho habout => hold (logged.known o ho _ habout)
        rw [World.view_of_none (by simp [RequestState.ofRequest])]
        simpa [hnone, Obs.about, View.fresh, hconfig] using new req
      | _ => exact absurd hp' hold
  exact (Runs.invariant_while (I := J) (G := G) back keepJ
    ⟨rfl, .init config, .init config, fun h => absurd h (Nat.not_lt_zero _)⟩ run
    ⟨hsampler, hparams⟩).2.2.2 hp

/-- The rule without promises of the environment. -/
theorem World.Run.life {w : World} (run : World.Run (World.init config) w)
    (new : ∀ req, I (.fresh config p req))
    (keep : ∀ v v', I v → v.Kept config.kvBlockSize →
      View.Step p config.maxBlocks config.kvBlockSize (fun _ _ => True) (fun _ => True) v v' →
      (v'.log = v.log ∨ .erased p ∉ v.log) → I v') (hp : p < w.nextPtr) : I (w.view p) :=
  CcInfer.life new keep run (fun _ _ => trivial) (fun _ _ => trivial) hp

end Life

/-! ### Below the token limit -/

/-- Once it was scheduled, an active request has generated fewer than `max_tokens` tokens. -/
def RequestState.BelowMax (st : RequestState) : Prop :=
  st.status = .active → st.scheduling.isSome = true ∨ st.generatedTokens ≠ [] →
    (st.generatedTokens.length : Int) < st.sampling.maxTokens

/-- Every transaction of a request keeps it below `max_tokens`. -/
theorem View.Step.belowMax {maxBlocks blockSize : Nat}
    {sampler : List Token → Token → Prop} {params : SamplingParams → Prop} {v v' : View}
    (t : View.Step p maxBlocks blockSize sampler params v v') (h : v.req.BelowMax) :
    v'.req.BelowMax := by
  cases t with
  | cancel | finish | fail => exact nofun
  | grow sc blocks scheduled | dispatch sc item sampling scheduled
    | discard before after f sc split scheduled
    | retireChunk rest chunk sampling token sc front scheduled | park sc scheduled =>
    exact fun ha _ => h ha (.inl (by simp [scheduled]))
  | admission _ _ _ _ admissible =>
    intro ha _
    by_cases hnil : v.req.generatedTokens = []
    · simpa [hnil] using admissible.maxTokens_pos
    · exact h ha (.inr hnil)
  | drop => exact fun ha hor => h ha (.inr (by simpa using hor))
  | retire _ item sampling token =>
    intro ha _
    -- the tail compares with `max_tokens` after it has appended the token
    have hopen : v.req.tailFinished ⟨item, sampling, .done token⟩ token = false := by
      by_contra hfinished
      rw [Bool.not_eq_false] at hfinished
      simp [RequestState.retired, RequestState.tailStatus, hfinished] at ha
    simp only [RequestState.tailFinished, Bool.or_eq_false_iff, decide_eq_false_iff_not,
      not_le] at hopen
    simpa [RequestState.retired] using hopen.2
  | expire | process | skipStale | processFail => exact h

/-- Every request of a reachable world is below `max_tokens`. -/
theorem World.Run.belowMax (run : World.Run (World.init config) w) (hp : p < w.nextPtr) :
    (w.heap p).BelowMax := by
  have hlife := run.life (I := fun v => v.req.BelowMax) (fun req => fun _ hor => by
      rcases hor with hsome | hne
      · cases hsome
      · exact absurd rfl hne)
    (fun _ _ h _ t _ => t.belowMax h) hp
  rwa [World.view_req] at hlife

end CcInfer
