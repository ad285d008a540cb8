import CcInfer.Invariant.Records
import CcInfer.Refine.Reach

/-!
# `CcInfer.Proofs.Engine.LateBinding`: the token of a late-bound decode

A decode is dispatched without its token; the worker takes the latest token of the sequence
when it resolves the batch, and asserts that there is one. The scheduler builds such a decode
in the phase Decode only. A request enters that phase when its last chunk or its bootstrap
decode is retired, and the worker recorded a token when it processed that item
(`View.Bound`).
-/

set_option autoImplicit false

namespace CcInfer

variable {p : RequestPtr} {log : List Obs} {config : ValidConfig}

/-- A decode whose token the worker binds. -/
def WorkItem.lateBound : WorkItem → Bool
  | .prefill _ => false
  | .decode work => work.lateBind

/-- The assertion of `resolve_batch` is about late-bound decodes. -/
theorem Worker.lateBoundFound_eq (k : Worker) (item : WorkItem) :
    k.lateBoundFound item = (!item.lateBound || (k.latestTokens item.seqId).isSome) := by
  cases item <;> rfl

/-- The replay prompt of every readmission of `p` with generated tokens was longer than its
prefix hits. It is the prompt of the request and all but the last generated token. -/
def LeavesReplay (blockSize : Nat) (p : RequestPtr) (log : List Obs) : Prop :=
  ∀ req seq hits generated, .registered p req ∈ log → .admitted p seq hits generated ∈ log →
    generated = 0 ∨ hits * blockSize < req.promptTokens.length + (generated - 1)

theorem LeavesReplay.earlier {blockSize : Nat} {log' : List Obs}
    (h : LeavesReplay blockSize p log') (grown : log <+: log') : LeavesReplay blockSize p log :=
  fun req seq hits generated hreq hadmitted =>
    h req seq hits generated (grown.subset hreq) (grown.subset hadmitted)

/-- An admission with generated tokens. -/
def Obs.readmits : Obs → Bool
  | .admitted _ _ _ generated => generated != 0
  | _ => false

theorem LeavesReplay.of_fresh (h : ∀ o ∈ log, o.readmits = false)
    (blockSize : Nat) (p : RequestPtr) : LeavesReplay blockSize p log :=
  fun _ _ _ _ _ hadmitted => .inl (by simpa [Obs.readmits] using h _ hadmitted)

/-! ### One request -/

/-- The worker has a token for a sequence that decodes, that has a late-bound item in flight,
or of which an item was processed. -/
def View.Bound (v : View) : Prop :=
  ∀ sc, v.req.scheduling = some sc →
    (sc.cursor.phase = .decode ∨
      ∃ f ∈ v.items, f.item.lateBound = true ∨ ∃ token, f.fate = .done token) →
    v.latest.isSome = true

/-- A request back in `waiting_` replays its prompt and all but its last token. -/
def View.Replays (p : RequestPtr) (v : View) : Prop :=
  v.req.scheduling = none → .erased p ∉ v.log → v.req.generatedTokens ≠ [] →
    v.req.promptTokens = v.req.initialPromptTokens ++ v.req.generatedTokens.dropLast

section Steps

variable {maxBlocks blockSize : Nat} {sampler : List Token → Token → Prop}
  {params : SamplingParams → Prop} {v v' : View}

/-- Every transaction keeps it. -/
theorem View.Replays.step (h : v.Replays p)
    (t : View.Step p maxBlocks blockSize sampler params v v') : v'.Replays p := by
  cases t with
  | park =>
    intro _ _ hne
    have hne : v.req.generatedTokens ≠ [] := hne
    simp [RequestState.parked, hne]
  | drop => exact fun _ hnot _ => absurd (by simp) hnot
  | cancel | fail | finish =>
    exact fun hnone hnot => h hnone fun hmem => hnot (List.mem_append_left _ hmem)
  | grow | dispatch | admission | discard | retireChunk | retire =>
    intro hnone
    cases hnone
  | _ => exact h

/-- Admission enters the phase Decode only over a full hit of a replay prompt. -/
theorem RequestState.admitCursor_decode {st : RequestState} {frontier : Nat}
    (h : (st.admitCursor frontier).phase = .decode) :
    st.generatedTokens ≠ [] ∧ st.promptTokens.length ≤ frontier := by
  unfold admitCursor at h
  cases hfresh : st.generatedTokens.isEmpty with
  | true =>
    simp only [hfresh, if_true] at h
    split_ifs at h
  | false =>
    simp only [hfresh, Bool.false_eq_true, if_false] at h
    split_ifs at h with h1 h2
    exact ⟨fun hnil => by simp [hnil] at hfresh, h2⟩

/-- The worker has a token after every processed item. -/
theorem WorkItem.latestAfter_isSome {item : WorkItem} (latest : Option Token) (token : Token)
    (tokens : ∀ work, item = .prefill work → work.tokens ≠ []) :
    (item.latestAfter latest token).isSome = true := by
  unfold latestAfter
  cases item with
  | prefill work =>
    have hlast := List.getLast?_eq_some_getLast (tokens work rfl)
    split <;> simp [hlast]
  | decode => rfl

/-- A transaction that leaves the phase, the token and the late-bound items alone. -/
theorem View.Bound.same (h : v.Bound) (latest : v'.latest = v.latest)
    (scheduled : ∀ sc', v'.req.scheduling = some sc' → ∃ sc, v.req.scheduling = some sc ∧
      (sc'.cursor.phase = .decode → sc.cursor.phase = .decode))
    (items : ∀ f' ∈ v'.items, ∃ f ∈ v.items, f.item = f'.item ∧
      ∀ token, f'.fate = .done token → f.fate = .done token) : v'.Bound := by
  intro sc' hsc' hcause
  obtain ⟨sc, hsc, hphase⟩ := scheduled sc' hsc'
  rw [latest]
  refine h sc hsc (hcause.imp hphase ?_)
  rintro ⟨f', hf', hcause⟩
  obtain ⟨f, hf, hitem, hfate⟩ := items f' hf'
  exact ⟨f, hf, hcause.imp (hitem ▸ ·) fun ⟨token, hdone⟩ => ⟨token, hfate token hdone⟩⟩

/-- A transaction keeps the tokens, unless it admits a request over a full hit of its replay
prompt. -/
theorem View.Bound.step (h : v.Bound) (kept : v.Kept blockSize)
    (t : View.Step p maxBlocks blockSize sampler params v v')
    (leaves : ∀ seq hits generated, v'.log = v.log ++ [.admitted p seq hits generated] →
      v.req.scheduling = none → v.req.generatedTokens ≠ [] →
      hits * blockSize < v.req.promptTokens.length) : v'.Bound := by
  -- an item whose fate is decided without a token
  have decided : ∀ {before after : List FlightItem} {f : FlightItem} {fate : Fate},
      v.items = before ++ f :: after → (∀ token, fate ≠ .done token) →
      ∀ f' ∈ before ++ { f with fate := fate } :: after, ∃ g ∈ v.items, g.item = f'.item ∧
        ∀ token, f'.fate = .done token → g.fate = .done token := by
    intro before after f fate hsplit hfate
    rw [hsplit]
    exact forall_mem_refated (fun f' hf' => ⟨f', hf', rfl, fun _ => id⟩)
      ⟨f, by simp, rfl, fun token hdone => absurd hdone (hfate token)⟩
  cases t with
  | grow sc _ scheduled =>
    refine h.same rfl ?_ fun f hf => ⟨f, hf, rfl, fun _ => id⟩
    rintro _ ⟨⟩
    exact ⟨sc, scheduled, id⟩
  | dispatch sc _ _ scheduled _ itemFor =>
    rintro _ ⟨⟩ hcause
    rcases hcause with hphase | ⟨f, hf, hcause⟩
    · exact h sc scheduled (.inl hphase)
    · rcases List.mem_append.mp hf with hf | hf
      · exact h sc scheduled (.inr ⟨f, hf, hcause⟩)
      · obtain rfl := List.mem_singleton.mp hf
        rcases hcause with hlate | ⟨token, hdone⟩
        · cases itemFor with
          | chunk => cases hlate
          | bootstrap => cases hlate
          | decode phase => exact h sc scheduled (.inl phase)
        · cases hdone
  | admission seq hits _ _ admissible =>
    rintro _ ⟨⟩ hcause
    rcases hcause with hphase | ⟨f, hf, -⟩
    · obtain ⟨hne, hfull⟩ := RequestState.admitCursor_decode hphase
      exact absurd (leaves seq hits _ rfl admissible.unscheduled hne) (not_lt.mpr hfull)
    · cases hf
  | park | drop => rintro _ ⟨⟩
  | discard _ _ _ sc split scheduled =>
    refine h.same rfl ?_ fun f' hf' => ⟨f', ?_, rfl, fun _ => id⟩
    · rintro _ ⟨⟩
      exact ⟨sc, scheduled, id⟩
    · rw [split]
      rcases List.mem_append.mp hf' with hf' | hf' <;> simp [hf']
  | retireChunk _ _ _ _ sc front scheduled _ more =>
    refine h.same rfl ?_ fun f' hf' => ⟨f', by rw [front]; exact List.mem_cons_of_mem _ hf', rfl,
      fun _ => id⟩
    rintro _ ⟨⟩
    refine ⟨sc, scheduled, fun hphase => ?_⟩
    simpa [SequenceSchedulingState.advanceChunk, not_le.mpr more] using hphase
  | retire _ item sampling token sc _ _ _ _ front scheduled =>
    -- the retired item was processed
    have hfront : ⟨item, sampling, .done token⟩ ∈ v.items := by rw [front]; exact List.mem_cons_self
    exact fun _ _ _ => h sc scheduled (.inr ⟨_, hfront, .inr ⟨token, rfl⟩⟩)
  | process _ _ f _ split =>
    intro sc hsc _
    refine WorkItem.latestAfter_isSome _ _ fun work hwork => ?_
    have hgeo := kept.geometry sc hsc
    have hmem : .prefill work ∈ v.items.map (·.item) :=
      List.mem_map.mpr ⟨f, by rw [split]; simp, hwork⟩
    have hpos := (hgeo.spans work hmem).1
    rw [← hgeo.tokens work hmem] at hpos
    exact List.ne_nil_of_length_pos hpos
  | skipStale before after f split | processFail before after f err known failed split =>
    exact h.same rfl (fun sc hsc => ⟨sc, hsc, id⟩) (decided split (by simp))
  | _ => exact h.same rfl (fun sc hsc => ⟨sc, hsc, id⟩) fun f hf => ⟨f, hf, rfl, fun _ => id⟩

end Steps

/-! ### All requests -/

/-- What late binding needs to know about one request. -/
structure View.Binds (config : ValidConfig) (p : RequestPtr) (v : View) : Prop where
  records : v.Records p
  origin : v.Origin config p
  replays : v.Replays p
  bound : LeavesReplay config.kvBlockSize p v.log → v.Bound

theorem View.Binds.init (config : ValidConfig) (p : RequestPtr) (req : SchedulerRequest) :
    (View.fresh config p req).Binds config p where
  records := .init config p req
  origin := .init config p req
  replays := fun _ _ hne => absurd rfl hne
  bound := fun _ _ hsc => nomatch hsc

/-- Every transaction keeps it. -/
theorem View.Binds.step {maxBlocks : Nat}
    {sampler : List Token → Token → Prop} {params : SamplingParams → Prop} {v v' : View}
    (h : v.Binds config p) (kept : v.Kept config.kvBlockSize)
    (t : View.Step p maxBlocks config.kvBlockSize sampler params v v')
    (live : v'.log = v.log ∨ .erased p ∉ v.log) : v'.Binds config p := by
  obtain ⟨obs, hlog, -, hadmitted, -⟩ := t.logs
  refine ⟨h.records.step t live, h.origin.step h.records t live, h.replays.step t, fun hafter => ?_⟩
  refine (h.bound (hafter.earlier ⟨obs, hlog.symm⟩)).step kept t ?_
  intro seq hits generated hlog' hnone hne
  -- the request was in `waiting_`, so its prompt is the replay prompt
  obtain ⟨req, hreq, -, hinitial, -⟩ := h.origin.registered
  have hnot : .erased p ∉ v.log := live.resolve_left fun heq => by simp [heq] at hlog'
  obtain rfl : obs = [.admitted p seq hits generated] := by
    rw [hlog'] at hlog
    exact (List.append_cancel_left hlog).symm
  obtain ⟨-, rfl⟩ := hadmitted seq hits generated (List.mem_singleton.mpr rfl)
  have hlength := hafter req seq hits v.req.generatedTokens.length
    (by rw [hlog]; exact List.mem_append_left _ hreq) (by rw [hlog]; simp)
  rw [h.replays hnone hnot hne, List.length_append, List.length_dropLast, hinitial]
  exact hlength.resolve_left (mt List.length_eq_zero_iff.mp hne)

/-- The worker has a token for every late-bound item in flight. -/
theorem Reachable.latest_isSome {y : Sys} (h : Reachable config y)
    (leaves : ∀ p, LeavesReplay config.kvBlockSize p y.sched.trace) {item : WorkItem}
    (hitem : item ∈ y.itemsInFlight) (late : item.lateBound = true) :
    (y.worker.latestTokens item.seqId).isSome = true := by
  obtain ⟨fls, carries, run, core⟩ := h.core
  obtain ⟨f, hf, rfl⟩ := Sys.mem_itemsInFlight carries hitem
  obtain ⟨p, -, sc, hsc, hseq⟩ := core.flights.owner core.positions hf
  have hbinds := run.life (View.Binds.init config p)
    (fun _ _ hv kept t live => hv.step kept t live) (core.scheduled_lt hsc)
  have hleaves : LeavesReplay config.kvBlockSize p
      ((World.of y.sched fls.flatten y.worker).view p).log := by
    rw [World.view_log]
    exact fun req seq hits generated hreq hadmitted => leaves p req seq hits generated
      (List.mem_filter.mp hreq).1 (List.mem_filter.mp hadmitted).1
  have hbound := hbinds.bound hleaves
  rw [World.view_of_some hsc] at hbound
  have hlatest := hbound sc hsc (.inr ⟨f, Flights.mem_itemsOf.mpr ⟨hf, hseq.symm⟩, .inl late⟩)
  rwa [hseq] at hlatest

/-- If no request was admitted with generated tokens over a full prefix hit, then the worker
has a token for every late-bound decode in flight, and the assertion of `resolve_batch` has
never failed. -/
theorem late_binding_finds {config : ValidConfig} {y : Sys} (h : Reachable config y)
    (leaves : ∀ p, LeavesReplay config.kvBlockSize p y.sched.trace) :
    (∀ item ∈ y.itemsInFlight, item.lateBound = true →
      (y.worker.latestTokens item.seqId).isSome = true) ∧ .lateBound ∉ y.worker.failedAsserts := by
  refine ⟨fun item hitem => h.latest_isSome leaves hitem, ?_⟩
  induction h with
  | init => exact List.not_mem_nil
  | @step z _ l hy t ih =>
    have hbefore := fun p => (leaves p).earlier (hy.trace_prefix t)
    intro hfails
    rcases Sys.step_asserts t hfails with hold | ⟨b, hb, -, item, hitem, -, missing⟩
    · exact ih hbefore hold
    · obtain ⟨hlate, hnone⟩ : item.lateBound = true ∧
          z.worker.latestTokens item.seqId = none := by
        simpa [Worker.lateBoundFound_eq] using missing
      have hsome := hy.latest_isSome hbefore (List.mem_flatMap.mpr ⟨b, hb, hitem⟩) hlate
      simp [hnone] at hsome

/-- Two requests decode in the same batch, behind the chunks of their prompts. -/
def decodesInFlight : Sys :=
  Sys.after ((EngineConfig.small 4 0).toValid EngineConfig.four_ok)
    (Label.submits [⟨"a", [1, 2], {}, 4⟩, ⟨"b", [3, 4], {}, 4⟩] ++ Label.turn [7, 8] ++
      Label.dispatch)

theorem late_binding_finds_decodesInFlight :
    (decodesInFlight.itemsInFlight.map fun i => (i.seqId, i.lateBound)) = [(1, true), (2, true)] ∧
    (∀ item ∈ decodesInFlight.itemsInFlight, item.lateBound = true →
      (decodesInFlight.worker.latestTokens item.seqId).isSome = true) ∧
    .lateBound ∉ decodesInFlight.worker.failedAsserts :=
  ⟨by decide +kernel,
    late_binding_finds (Reachable.after _ _) (LeavesReplay.of_fresh (by decide +kernel) _)⟩

/-- Three blocks of four tokens for three sequences. -/
def EngineConfig.wideBlocks : EngineConfig :=
  { EngineConfig.small 3 0 with kvBlockSize := 4, maxSequences := 3, maxRunningRequests := 3 }

theorem EngineConfig.wideBlocks_ok : EngineConfig.wideBlocks.validate = .ok () := by decide

/-- Three requests share the block of their prompt. Two of them take a block to decode, and the
third one is suspended. When the first one has finished, the third one is admitted again over
its whole replay prompt, whose block the second one still holds. -/
def replayHit : Sys :=
  Sys.after (EngineConfig.wideBlocks.toValid EngineConfig.wideBlocks_ok)
    (Label.submits [⟨"a", [1, 2, 3, 4], { maxTokens := 5 }, 12⟩] ++ Label.dispatch ++
      [.engine none, .engine none, .submit ⟨"b", [1, 2, 3, 4], {}, 12⟩,
        .submit ⟨"c", [1, 2, 3, 4], {}, 12⟩, .work true (.sampled [7]), .engine none] ++
      Label.turn [8, 9, 10] ++ Label.turn [11, 12] ++ Label.turn [13, 14] ++
      Label.turn [15, 16] ++ Label.turn [17, 18])

/-- The first decode after a readmission over a full hit finds no token. No other assertion has
failed before. -/
theorem replay_hit_unbound : replayHit.sched.trace.filterMap (Obs.admission? 2) = [(1, 0), (1, 1)] ∧
    replayHit.sched.failedAsserts = [] ∧ replayHit.sched.kv.pool.failedAsserts = [] ∧
    replayHit.worker.failedAsserts = [.lateBound] := by
  decide +kernel

end CcInfer
