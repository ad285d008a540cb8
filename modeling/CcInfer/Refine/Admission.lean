import CcInfer.Refine.Build

/-!
# `CcInfer.Refine.Admission`: resumption, admission and the whole of `schedule_step`

`admit_one_skipped` and `admit_one_waiting` take the front request out of its queue before
they know what becomes of it. Every branch is matched with transactions that move it in one
go: it leaves the engine, it enters `running_`, or it goes back to where it was.
-/

set_option autoImplicit false

namespace CcInfer

open Scheduler

/-! ### The accepting flag -/

/-- The scheduler with other flags of the shutdown protocol. -/
abbrev Scheduler.withFlags (s : Scheduler) (accepting : Bool) (pending : Option Nat)
    (posted : Option Bool) : Scheduler :=
  { s with accepting := accepting, storePending := pending, shutdownPosted := posted }

/-- A load of `accepting_` touches these flags only, and reads nothing else. -/
theorem Scheduler.loadAccepting_eq (s : Scheduler) : ∃ accepting pending posted,
    (∀ waiting skip kv trace,
      { s with waiting := waiting, skip := skip, kv := kv, trace := trace }.loadAccepting =
        (accepting, { s.withFlags accepting pending posted with
          waiting := waiting, skip := skip, kv := kv, trace := trace })) ∧
    s.Fewer (s.withFlags accepting pending posted) := by
  have hloads := s.moves_loadAccepting.loads
  unfold loadAccepting at hloads ⊢
  rcases hpending : s.storePending with _ | _ | _
  · exact ⟨_, s.storePending, _, fun _ _ _ _ => by simp only [hpending], .refl s⟩
  all_goals
    simp only [hpending] at hloads ⊢
    exact ⟨_, _, _, fun _ _ _ _ => rfl, hloads, fun _ => id, fun _ _ => ⟨rfl, rfl, rfl⟩⟩

/-- The batch under construction reads none of them. -/
theorem ContextOk.withFlags {s : Scheduler} {ctx : BatchBuildContext} (h : ContextOk s ctx)
    (accepting : Bool) (pending : Option Nat) (posted : Option Bool) :
    ContextOk (s.withFlags accepting pending posted) ctx :=
  ⟨h.unset, h.shared, h.nodup, h.budget, h.chunks⟩

namespace Scheduler

variable (s : Scheduler)

/-- The allocation of `admit_one_waiting`, which is skipped when no block is missing. -/
theorem allocateMissing_spec (hinv : s.kv.Inv) (n : Int) :
    (∃ blocks kv obs, (if 0 < n then s.allocateKvBlocks n.toNat else (.ok [], s)) =
        (.ok blocks, { s with kv := kv, trace := s.trace ++ obs }) ∧ blocks.length = n.toNat ∧
      s.kv.Moves kv blocks [] [] ∧ (∀ b ∈ blocks, kv.cache.byBlock b = none) ∧ AllocLog obs []) ∨
    ∃ leak kv obs, (if 0 < n then s.allocateKvBlocks n.toNat else (.ok [], s)) =
        (.error .kvBlockExhausted, { s with kv := kv, trace := s.trace ++ obs }) ∧
      s.kv.Moves kv [] [] leak ∧ AllocLog obs leak := by
  split
  · simp only [allocateKvBlocks, log]
    rcases KvBlocks.allocateKvBlocks_spec hinv n.toNat with
      ⟨hle, blocks, kv, heq, hlen, hmoves, huncached⟩ | ⟨hlt, leak, kv, heq, hleak, hmoves⟩
    · refine .inl ⟨blocks, kv, _, by rw [heq], hlen, hmoves, huncached, .call n.toNat _ [] ?_⟩
      rw [if_neg (Nat.not_lt.mpr hle)]
      rfl
    · exact .inr ⟨leak, kv, _, by rw [heq], hmoves,
        .call n.toNat _ leak (by rw [if_pos hlt, hleak])⟩
  · rename_i hzero
    refine .inl ⟨[], s.kv, [], ?_, by simp only [List.length_nil]; omega,
      .refl hinv, by simp, .none⟩
    simp

/-- `suspend_one_running` puts one request at most in front of `waiting_`, and does not read
`waiting_`. The request is one of `running_`. -/
theorem suspendOneRunning_waiting : ∃ (s' : Scheduler) (front : List RequestPtr),
      (∀ waiting, { s with waiting := waiting }.suspendOneRunning.2 =
        { s' with waiting := front ++ waiting }) ∧ s.Fewer s' := by
  rcases hfind : (s.findSmallest true).or (s.findSmallest false) with _ | p
  · refine ⟨s, [], fun waiting => ?_, .refl s⟩
    have hfind' : ({ s with waiting := waiting }.findSmallest true).or
        ({ s with waiting := waiting }.findSmallest false) = none := hfind
    simp only [suspendOneRunning, hfind', List.nil_append]
  · have hfind' : ∀ waiting, ({ s with waiting := waiting }.findSmallest true).or
        ({ s with waiting := waiting }.findSmallest false) = some p := fun _ => hfind
    rcases hsc : (s.heap p).scheduling with _ | sc
    · refine ⟨{ s with admissionPaused := !s.running.isEmpty }, [], fun waiting => ?_, .refl _,
        fun _ => id, fun _ _ => ⟨rfl, rfl, rfl⟩⟩
      simp only [suspendOneRunning, hfind', releaseAndMoveToWait, hsc, Option.isNone_none, if_true,
        List.nil_append]
    · refine ⟨{ s with
        heap := Function.update s.heap p (s.heap p).parked
        bySeqId := Function.update s.bySeqId sc.seqId none
        kv := s.kv.releaseRequestBlocks sc.blockTable
        running := s.running.erase p
        trace := s.trace ++ [.suspended p]
        admissionPaused := !(s.running.erase p).isEmpty }, [p], fun waiting => ?_,
        .updated (p := p) rfl (fun _ => id) rfl rfl rfl rfl⟩
      simp only [suspendOneRunning, hfind', releaseAndMoveToWait, hsc, Option.isNone_some,
        Bool.false_eq_true, if_false]
      rw [prepare_release (s := { s with waiting := waiting }) hsc]
      rfl

/-- So does the whole answer to a shortage. -/
theorem relieveShortage_waiting : ∃ (s' : Scheduler) (front : List RequestPtr),
      (∀ waiting, { s with waiting := waiting }.relieveShortage =
        { s' with waiting := front ++ waiting }) ∧ s.Fewer s' := by
  rcases hskip : s.skip with _ | ⟨p, rest⟩
  · obtain ⟨s', front, heq, hfewer⟩ := s.suspendOneRunning_waiting
    refine ⟨s', front, fun waiting => ?_, hfewer⟩
    have := heq waiting
    rw [hskip] at this
    simpa only [relieveShortage, evictOneSkipped] using this
  · have hrest : ∀ q ∈ rest, q ∈ s.skip := fun q hq => by
      rw [hskip]
      exact List.mem_cons_of_mem _ hq
    rcases hsc : (s.heap p).scheduling with _ | sc
    · refine ⟨{ s with skip := rest }, [p], fun waiting => ?_, .refl _, hrest,
        fun _ _ => ⟨rfl, rfl, rfl⟩⟩
      simp only [relieveShortage, evictOneSkipped, hsc, Option.isNone_none, if_true,
        List.singleton_append]
    · refine ⟨{ s with
        skip := rest
        heap := Function.update s.heap p (s.heap p).parked
        bySeqId := Function.update s.bySeqId sc.seqId none
        kv := s.kv.releaseRequestBlocks sc.blockTable
        trace := s.trace ++ [.suspended p] }, [p], fun waiting => ?_,
        .updated (p := p) rfl hrest rfl rfl rfl rfl⟩
      simp only [relieveShortage, evictOneSkipped, hsc, Option.isNone_some,
        Bool.false_eq_true, if_false]
      rw [prepare_release (s := { s with waiting := waiting, skip := rest }) hsc]
      rfl

/-- The answer to a shortage sends back a request of `skip_` or of `running_`. -/
theorem relieveShortage_fewer : s.Fewer s.relieveShortage := by
  obtain ⟨_, _, heq, hfewer⟩ := s.relieveShortage_waiting
  rw [show s.relieveShortage = _ from heq s.waiting]
  exact ⟨hfewer.flags, hfewer.skip, hfewer.same⟩

end Scheduler

/-- The answer to a shortage while the front of `waiting_` is held out: the request comes
back to the front. -/
theorem Does.relieveShortage_behind {k : Worker} {s : Scheduler} {fl : List FlightItem}
    {p : RequestPtr} {rest : List RequestPtr} : Does k { s with waiting := p :: rest } fl
      { { s with waiting := rest }.relieveShortage with
        waiting := p :: { s with waiting := rest }.relieveShortage.waiting } fl := by
  obtain ⟨_, front, heq, -⟩ := s.relieveShortage_waiting
  have hrelieve : Does k { s with waiting := p :: rest } fl _ fl := Does.relieveShortage
  rw [heq] at hrelieve ⊢
  refine hrelieve.trans (.single (fun _ => .reorder _ (p :: (front ++ rest)) ?_) fun _ => rfl)
  exact List.perm_middle.symm

namespace Builds

variable {c : Bool} {k : Worker} {base : List FlightItem} {p : RequestPtr} {s : Scheduler}
  {ctx : BatchBuildContext} {rest : List RequestPtr}

/-! ### Resumption -/

section

variable (h : Core (World.of s (base ++ ctx.flight) k)) (hctx : ContextOk s ctx)

include h hctx

/-- A preempted request is resumed and makes a step. -/
theorem resume {sc : SequenceSchedulingState} (front : s.skip = p :: rest)
    (hsc : (s.heap p).scheduling = some sc) (active : (s.heap p).status = .active)
    (room : s.running.length < s.config.maxRunningRequests) :
    Builds c k base s ctx
      ({ s with
        skip := rest
        bySeqId := Function.update s.bySeqId sc.seqId (some p)
        running := s.running ++ [p] }.buildStateWork ctx p).1
      ({ s with
        skip := rest
        bySeqId := Function.update s.bySeqId sc.seqId (some p)
        running := s.running ++ [p] }.buildStateWork ctx p).2 := by
  have hresume : Does k s (base ++ ctx.flight)
      { s with
        skip := rest
        bySeqId := Function.update s.bySeqId sc.seqId (some p)
        running := s.running ++ [p] } (base ++ ctx.flight) :=
    .single (fun _ => .resume _ p rest sc front hsc active room) fun _ => rfl
  have hrest : ∀ q ∈ rest, q ∈ s.skip := fun q hq => by
    rw [front]
    exact List.mem_cons_of_mem _ hq
  have hbuilds : Builds c k base s ctx _ ctx :=
    of_does h hctx hresume ⟨.refl _, hrest, fun _ _ => ⟨rfl, rfl, rfl⟩⟩
  refine hbuilds.trans (buildStateWork (h.run_shutIf hbuilds.run) hbuilds.ok (fun sc' hsc' => ?_)
    (List.mem_append_right _ (List.mem_singleton_self p)))
  cases hsc.symm.trans hsc'
  exact fresh_of_nil (h.skip_nil (p := p) (by simp [World.of, front]) hsc)

/-- A request of `skip_` that has reached its limit leaves with its terminal event. -/
theorem finishSkipped {sc : SequenceSchedulingState} (front : s.skip = p :: rest)
    (hsc : (s.heap p).scheduling = some sc) (active : (s.heap p).status = .active)
    (room : s.running.length < s.config.maxRunningRequests) (reason : (s.heap p).FinishReason sc) :
    Builds true k base s ctx
      ((({ s with skip := rest }.releaseSchedulingBlocks p).sendTerminalEvent p).eraseRequest p)
      ctx := by
  refine of_shut h hctx ?_
  let s₁ : Scheduler :=
    { s with
      skip := rest
      bySeqId := Function.update s.bySeqId sc.seqId (some p)
      running := s.running ++ [p]
      shutdownRequested := true }
  have hp : p ∈ s₁.running := List.mem_append_right _ (List.mem_singleton_self p)
  have hresume : Does k { s with shutdownRequested := true } (base ++ ctx.flight) s₁
      (base ++ ctx.flight) :=
    .single (fun _ => .resume _ p rest sc front hsc active room) fun _ => rfl
  have hfinish : Does k s₁ (base ++ ctx.flight) (s₁.sendTerminalEvent p) (base ++ ctx.flight) :=
    .single (fun _ => .finish _ p sc hp hsc active reason) fun _ =>
      World.of_sendTerminalEvent s₁ _ k p
  have hself : (s₁.sendTerminalEvent p).heap p = { s.heap p with status := .finished } :=
    Function.update_self ..
  have hleave : Does k (s₁.sendTerminalEvent p) (base ++ ctx.flight) _ _ := Does.leave_running hp
    (fun _ sc' hsc' => by
      have hsc' : ((s₁.sendTerminalEvent p).heap p).scheduling = some sc' := hsc'
      rw [hself] at hsc'
      cases hsc.symm.trans hsc'
      exact h.skip_idle (p := p) (by simp [World.of, front]) hsc)
    (by rw [hself]; simp) (.inr ⟨rfl, rfl⟩)
  have hnot : p ∉ s.running := by
    have := h.positions.nodup
    simp only [World.of, front] at this
    grind
  refine hresume.trans (hfinish.trans (hleave.trans (.of_eq ?_)))
  rw [eraseRequest_eq _ (by
      simp [releaseSchedulingBlocks_eq, sendTerminalEvent, sendEvent,
        setStatus, setRequest, log])]
  simp [World.of, s₁, releaseSchedulingBlocks_eq, sendTerminalEvent,
    sendEvent, setStatus, setRequest, log, hsc,
    forgotten, List.erase_append_right _ hnot]

/-- `admit_one_skipped`. A request of `skip_` is resumed or dropped, and a tidy one is dropped
for a shutdown only. -/
theorem admitOneSkipped (tidy : c = false → s.Tidy) :
    Builds c k base s ctx (s.admitOneSkipped ctx).2.1 (s.admitOneSkipped ctx).2.2 := by
  unfold Scheduler.admitOneSkipped
  rcases front : s.skip with _ | ⟨p, rest⟩
  · exact refl hctx
  · have hp : p ∈ (World.of s (base ++ ctx.flight) k).skip := by simp [World.of, front]
    obtain ⟨sc, hsc⟩ : ∃ sc, (s.heap p).scheduling = some sc :=
      Option.isSome_iff_exists.mp ((h.positions.scheduled p).mpr (.inl hp))
    have hstatus : (s.heap p).status = .active ∨ (s.heap p).status = .cancelled :=
      h.positions.queued p (.inr hp)
    have hbusy (hc : c ≠ true) : (s.heap p).status = .active ∧
        ((s.heap p).generatedTokens.length : Int) < (s.heap p).sampling.maxTokens :=
      (tidy (Bool.eq_false_iff.mpr hc)).skip p hp
    have hforget : ∀ event : SinkEvent, event.closing = true →
        Builds true k base s ctx ({ s with skip := rest }.forgotten p [] (some event)) ctx :=
      fun event last => of_shut h hctx
        (.forget_skip (s := { s with shutdownRequested := true }) front last rfl)
    simp only [Scheduler.dropWith_eq, hsc]
    split
    · exact refl hctx
    · rename_i hroom
      simp only [not_or, not_le] at hroom
      split
      · rename_i hcancelled
        obtain rfl : c = true := by
          by_contra hc
          simp [(hbusy hc).1] at hcancelled
        exact hforget _ rfl
      · rename_i hcancelled
        have active : (s.heap p).status = .active := hstatus.resolve_right hcancelled
        split
        · rename_i hmax
          obtain rfl : c = true := by
            by_contra hc
            have := (hbusy hc).2
            omega
          exact hforget _ rfl
        · obtain ⟨accepting, pending, posted, hload, hfewer⟩ := s.loadAccepting_eq
          rw [hload]
          simp only
          split
          · rename_i hcleared
            cases c with
            | true =>
              have hdrop := hforget (.error .serverShuttingDown) rfl
              exact ⟨hdrop.run, hdrop.ok.withFlags .., (by simp)⟩
            | false =>
              have hflags := (tidy rfl).flags.loads hfewer.flags
              have hclosing : s.shutdownRequested = true := (hflags.running (by simp)).resolve_left
                fun haccepting => by simp [show accepting = true from haccepting] at hcleared
              refine of_does h hctx (.forget_skip (s := s.withFlags accepting pending posted)
                front rfl hclosing) (hfewer.trans (.updated (p := p) rfl (fun q hq => ?_)
                  rfl rfl rfl rfl))
              rw [show (s.withFlags accepting pending posted).skip = _ from front]
              exact List.mem_cons_of_mem _ hq
          · let s₀ : Scheduler := s.withFlags accepting pending posted
            have hctx₀ : ContextOk s₀ ctx := hctx.withFlags ..
            split
            · rename_i hmax
              obtain rfl : c = true := by
                by_contra hc
                exact absurd hmax (not_le.mpr (hbusy hc).2)
              have hfinish := finishSkipped (s := s₀) h hctx₀ front hsc active hroom.2 (.inl hmax)
              exact ⟨hfinish.run, hfinish.ok, (by simp)⟩
            · have hresume := resume (c := c) (s := s₀) h hctx₀ front hsc active hroom.2
              exact ⟨hresume.run, hresume.ok, fun hc => hfewer.trans (hresume.fewer hc)⟩

/-! ### Admission -/

/-- The front of `waiting_` leaves with a last event. -/
theorem leave_waiting {event : SinkEvent} (front : s.waiting = p :: rest)
    (last : event.closing = true) :
    Builds c k base s ctx ({ s with waiting := rest }.forgotten p [] (some event)) ctx :=
  of_does h hctx (.forget_waiting front last) (.updated (p := p) rfl (fun _ => id) rfl rfl rfl rfl)

/-- `materialize` is an admission. -/
theorem materialize {hits : List BlockCacheEntry} {parent : Hash} {blocks : BlockTable}
    {kv : KvBlocks} {obs : List Obs} (front : s.waiting = p :: rest)
    (admissible : (s.heap p).Admissible s.kv.pool.maxBlocks s.kv.pool.blockSize)
    (hashes : hits.map (·.prefixHash) <+:
      PrefixCache.chainHashes (s.heap p).promptTokens s.kv.pool.blockSize 0)
    (cached : ∀ e ∈ hits, s.kv.cache.byBlock e.blockId = some e)
    (moves : s.kv.Moves kv (hits.map (·.blockId) ++ blocks) [] [])
    (blocks_length : hits.length + blocks.length = max hits.length
      (Scheduler.blockCount (s.heap p).promptTokens.length s.kv.pool.blockSize).toNat)
    (uncached : ∀ b ∈ blocks, kv.cache.byBlock b = none) (logged : AllocLog obs [])
    (chained : parent = (hits.map (·.prefixHash)).getLast?.getD 0)
    (room : s.running.length < s.config.maxRunningRequests ∧
      s.running.length + s.skip.length < s.config.maxSequences)
    (held : ∀ e ∈ hits, kv.cache.byBlock e.blockId = some e) : Builds c k base s ctx
      (({ s with waiting := rest, kv := kv, trace := s.trace ++ obs }.materialize p
        ⟨hits.map BlockCacheEntry.blockId ++ blocks, hits.length, parent⟩).buildStateWork ctx p).1
      (({ s with waiting := rest, kv := kv, trace := s.trace ++ obs }.materialize p
        ⟨hits.map BlockCacheEntry.blockId ++ blocks, hits.length, parent⟩).buildStateWork
          ctx p).2 := by
  have hsize : kv.pool.blockSize = s.kv.pool.blockSize := moves.size.blockSize
  have hmaterialized : Does k s (base ++ ctx.flight)
      ({ s with waiting := rest, kv := kv, trace := s.trace ++ obs }.materialize p
        ⟨hits.map BlockCacheEntry.blockId ++ blocks, hits.length, parent⟩)
          (base ++ ctx.flight) := by
    refine .single (fun _ => .admission _ p rest kv hits parent blocks obs front admissible hashes
      cached moves blocks_length uncached logged chained room held) fun _ => ?_
    simp [World.of, Scheduler.materialize, Scheduler.setScheduling, Scheduler.setRequest, hsize,
      RequestState.admitScheduling, RequestState.admitCursor]
  have hbuilds := of_does (c := c) h hctx hmaterialized
    (.updated (p := p) rfl (fun _ => id) rfl rfl rfl rfl)
  refine hbuilds.trans (buildStateWork (h.run_shutIf hbuilds.run) hbuilds.ok (fun sc hsc => ?_) ?_)
  · have hseq : sc.seqId = s.nextSeqId := by
      simp only [Scheduler.materialize, Scheduler.setScheduling, Scheduler.setRequest,
        Function.update_self, Option.some.injEq] at hsc
      rw [← hsc]
    rw [hseq]
    exact fresh_of_nil (h.flights.itemsOf_fresh h.positions)
  · exact List.mem_append_right _ (List.mem_singleton_self p)

/-- `admit_one_waiting`. -/
theorem admitOneWaiting :
    Builds c k base s ctx (s.admitOneWaiting ctx).2.1 (s.admitOneWaiting ctx).2.2 := by
  unfold Scheduler.admitOneWaiting
  rcases front : s.waiting with _ | ⟨p, rest⟩
  · exact refl hctx
  · have hp : p ∈ (World.of s (base ++ ctx.flight) k).waiting := by simp [World.of, front]
    have hnone : (s.heap p).scheduling = none := h.waiting_unscheduled hp
    have hstatus : (s.heap p).status = .active ∨ (s.heap p).status = .cancelled :=
      h.positions.queued p (.inl hp)
    simp only [hnone, Option.isNone_none, Scheduler.assert, if_true]
    split
    · exact refl hctx
    · rename_i hroom
      simp only [not_or, not_le] at hroom
      split
      · rw [Scheduler.sendEvent_erase { s with waiting := rest } hnone]
        exact leave_waiting h hctx front rfl
      · rename_i hcancelled
        split
        · rw [Scheduler.sendEvent_erase { s with waiting := rest } hnone]
          exact leave_waiting h hctx front rfl
        · rename_i hmax
          split
          · rw [Scheduler.sendEvent_erase { s with waiting := rest } hnone]
            exact leave_waiting h hctx front rfl
          · rename_i hlimits
            simp only [not_or, not_lt] at hlimits
            have hinv : s.kv.Inv := h.ownership.inv
            obtain ⟨hits, kv₁, _, hlookup, hashes, cached, hmoves₁, hblock₁, hchained⟩ :=
              s.kv.lookupPrefixCache_spec hinv (s.heap p).promptTokens
            rw [hlookup]
            simp only
            generalize hmissing :
              Scheduler.blockCount (s.heap p).promptTokens.length s.kv.pool.blockSize -
                (hits.map BlockCacheEntry.blockId).length = missing
            rcases Scheduler.allocateMissing_spec { s with waiting := rest, kv := _ }
              hmoves₁.inv missing with
              ⟨blocks, kv₂, obs, heq, hlen, hmoves₂, huncached, hlog⟩ |
              ⟨leak, kv₂, obs, heq, hmoves₂, hlog⟩
            · rw [heq]
              have hmoves : s.kv.Moves kv₂ (hits.map BlockCacheEntry.blockId ++ blocks) [] [] :=
                hmoves₁.trans hmoves₂
              obtain ⟨accepting, pending, posted, hload, hfewer⟩ := s.loadAccepting_eq
              simp only
              rw [hload]
              let s₀ : Scheduler := s.withFlags accepting pending posted
              simp only
              split
              · -- The request is refused and everything it was given goes back.
                let s₁ : Scheduler :=
                  { s₀ with
                    kv := kv₂.releaseRequestBlocks (hits.map BlockCacheEntry.blockId ++ blocks)
                    trace := s.trace ++ obs }
                rw [Scheduler.sendEvent_erase _ (by exact hnone)]
                have hback : Does k s₀ (base ++ ctx.flight) s₁ (base ++ ctx.flight) :=
                  .single (fun _ => .blocks _ _ obs [] hmoves.undo hlog) fun _ => rfl
                exact of_does h hctx (hback.trans (.forget_waiting (s := s₁) front rfl))
                  (hfewer.trans (.updated (p := p) rfl (fun _ => id) rfl rfl rfl rfl))
              · have hcount : hits.length + blocks.length = max hits.length
                    (Scheduler.blockCount (s.heap p).promptTokens.length
                      s.kv.pool.blockSize).toNat := by
                  rw [List.length_map] at hmissing
                  omega
                -- The lookup holds a reference to each hit, so the allocation evicts none of them.
                have hheld : ∀ e ∈ hits, kv₂.cache.byBlock e.blockId = some e := by
                  intro e he
                  have hgain := List.count_pos_iff.mpr (List.mem_map_of_mem (f := (·.blockId)) he)
                  have href := hmoves₁.ref e.blockId
                  refine hmoves₂.kept e.blockId e (by rw [hblock₁]; exact cached e he) ?_
                  simp only [List.count_nil] at href ⊢
                  omega
                have hbuilds := materialize (c := c) (s := s₀) h (hctx.withFlags ..) front
                  ⟨hnone, hstatus.resolve_right hcancelled, by exact not_le.mp hmax,
                    Nat.pos_of_ne_zero hlimits.1, hlimits.2.1, hlimits.2.2.1⟩
                  hashes cached hmoves hcount huncached hlog hchained hroom.2 hheld
                exact ⟨hbuilds.run, hbuilds.ok, fun hc => hfewer.trans (hbuilds.fewer hc)⟩
            · rw [heq]
              simp only [if_true]
              let s₁ : Scheduler :=
                { s with
                  kv := kv₂.releaseRequestBlocks (hits.map BlockCacheEntry.blockId)
                  trace := s.trace ++ obs }
              have hmoves : s.kv.Moves kv₂ (hits.map BlockCacheEntry.blockId) [] leak := by
                simpa using hmoves₁.trans hmoves₂
              have hback : Does k s (base ++ ctx.flight) s₁ (base ++ ctx.flight) :=
                .single (fun _ => .blocks _ _ obs leak hmoves.undo hlog) fun _ => rfl
              have hfront : Does k s₁ (base ++ ctx.flight) { s₁ with waiting := p :: rest }
                  (base ++ ctx.flight) := .of_eq (by simp [World.of, s₁, front])
              have hfewer := Scheduler.relieveShortage_fewer { s₁ with waiting := rest }
              exact of_does h hctx (hback.trans (hfront.trans .relieveShortage_behind))
                ⟨hfewer.flags, hfewer.skip, hfewer.same⟩

end

/-- The admission loop of `schedule_step`. -/
theorem admissionLoop (fuel : Nat) : ∀ (s : Scheduler) (ctx : BatchBuildContext),
    Core (World.of s (base ++ ctx.flight) k) → ContextOk s ctx → (c = false → s.Tidy) →
    Builds c k base s ctx (s.admissionLoop ctx fuel).1 (s.admissionLoop ctx fuel).2 := by
  induction fuel with
  | zero => intro s ctx _ hctx _; exact refl hctx
  | succ _ ih =>
    intro s ctx h hctx tidy
    unfold Scheduler.admissionLoop
    obtain ⟨accepting, pending, posted, hload, hfewer⟩ := s.loadAccepting_eq
    rw [hload s.waiting s.skip s.kv s.trace]
    let s₀ : Scheduler := s.withFlags accepting pending posted
    have hctx₀ : ContextOk s₀ ctx := hctx.withFlags ..
    have hflags : Builds c k base s ctx s₀ ctx := ⟨.refl, hctx₀, fun _ => hfewer⟩
    have tidy₀ : c = false → s₀.Tidy := fun hc => (tidy hc).fewer (hflags.fewer hc)
    refine hflags.trans ?_
    simp only
    split
    · have hskipped := admitOneSkipped (c := c) (s := s₀) h hctx₀ tidy₀
      rcases hr : s₀.admitOneSkipped ctx with ⟨_ | _, s₁, ctx₁⟩
      · rw [hr] at hskipped
        refine hskipped.trans ?_
        have h₁ := h.run_shutIf hskipped.run
        simp only
        split
        · exact refl hskipped.ok
        · have hwaiting := admitOneWaiting (c := c) (s := s₁) h₁ hskipped.ok
          rcases hr' : s₁.admitOneWaiting ctx₁ with ⟨_ | _, s₂, ctx₂⟩
          · rw [hr'] at hwaiting
            exact hwaiting
          · rw [hr'] at hwaiting
            exact hwaiting.trans (ih s₂ ctx₂ (h₁.run_shutIf hwaiting.run) hwaiting.ok
              fun hc => ((tidy₀ hc).fewer (hskipped.fewer hc)).fewer (hwaiting.fewer hc))
      · rw [hr] at hskipped
        exact hskipped.trans (ih s₁ ctx₁ (h.run_shutIf hskipped.run) hskipped.ok
          fun hc => (tidy₀ hc).fewer (hskipped.fewer hc))
    · exact refl hctx₀

end Builds

namespace Scheduler

variable {c : Bool} {k : Worker} {s : Scheduler} {base : List FlightItem}

section

variable (h : Core (World.of s base k))
include h

/-- Building a batch is a run of transactions that puts its items in flight. -/
theorem buildBatch_run (tidy : c = false → s.Tidy) : World.Run ((World.of s base k).shutIf c)
      ((World.of s.buildBatch.1 (base ++ s.buildBatch.2.flight) k).shutIf c) ∧
    ContextOk s.buildBatch.1 s.buildBatch.2 ∧ (c = false → s.Fewer s.buildBatch.1) := by
  let ctx : BatchBuildContext :=
    { batch := { batchId := s.nextBatchId, items := [], sampling := {} }
      tokenBudget := s.config.maxTokenBudget
      samplingSet := false }
  let s₀ : Scheduler := { s with nextBatchId := s.nextBatchId + 1 }
  have hctx : ContextOk s₀ ctx := ⟨fun _ => rfl, nofun, List.nodup_nil, Nat.zero_add _, nofun⟩
  have tidy₀ : c = false → s₀.Tidy := fun hc => ⟨(tidy hc).flags, (tidy hc).skip⟩
  have hbase : base = base ++ ctx.flight := (List.append_nil base).symm
  have h₀ : Core (World.of s₀ (base ++ ctx.flight) k) := by rw [← hbase]; exact h
  obtain ⟨s₁, hs₁, hshort⟩ : ∃ s₁, s₁ = (if s₀.blockShortagePending then
      { s₀ with blockShortagePending := false }.relieveShortage else s₀) ∧
      Builds c k base s₀ ctx s₁ ctx := by
    refine ⟨_, rfl, ?_⟩
    split
    · have hfewer := relieveShortage_fewer { s₀ with blockShortagePending := false }
      exact .of_does h₀ hctx (.relieveShortage (s := { s₀ with blockShortagePending := false }))
        ⟨hfewer.flags, hfewer.skip, hfewer.same⟩
    · exact .refl hctx
  have h₁ := h₀.run_shutIf hshort.run
  have hnodup : s₁.running.Nodup := (List.nodup_append.mp h₁.positions.nodup).2.1
  have hrunning :
      Builds c k base s₁ ctx (s₁.buildRunningBatch ctx).1 (s₁.buildRunningBatch ctx).2 :=
    .buildRunningLoop s₁.running s₁ ctx h₁ hshort.ok hnodup
      fun p hp => ⟨hp, fun _ _ => List.not_mem_nil⟩
  have hloop := Builds.admissionLoop
    ((s₁.buildRunningBatch ctx).1.skip.length + (s₁.buildRunningBatch ctx).1.waiting.length + 1)
    (s₁.buildRunningBatch ctx).1 (s₁.buildRunningBatch ctx).2 (h₁.run_shutIf hrunning.run)
    hrunning.ok fun hc => ((tidy₀ hc).fewer (hshort.fewer hc)).fewer (hrunning.fewer hc)
  have hall := hshort.trans (hrunning.trans hloop)
  have hresult : s.buildBatch = (s₁.buildRunningBatch ctx).1.admissionLoop
      (s₁.buildRunningBatch ctx).2 ((s₁.buildRunningBatch ctx).1.skip.length +
        (s₁.buildRunningBatch ctx).1.waiting.length + 1) := by
    rw [hs₁]
    rfl
  have hrun := hall.run
  rw [← hbase] at hrun
  rw [hresult]
  refine ⟨hrun, hall.ok, fun hc => ?_⟩
  have hfewer := hall.fewer hc
  exact ⟨hfewer.flags, hfewer.skip, hfewer.same⟩

/-- Every item in flight belongs to a running request, so the `erase_if` of `schedule_step`
removes nothing. -/
theorem scheduleStep_eq : s.scheduleStep = (s.buildBatch.1, s.buildBatch.2.batch) := by
  have hcore := h.run_shutIf (buildBatch_run (c := true) h nofun).1
  unfold scheduleStep
  generalize s.buildBatch = r at hcore ⊢
  obtain ⟨s', ctx⟩ := r
  have hfilter : ctx.batch.items.filter (fun item => (s'.bySeqId item.seqId).isSome) =
      ctx.batch.items := by
    refine List.filter_eq_self.mpr fun item hitem => ?_
    exact hcore.flights.flight ⟨item, ctx.batch.sampling, .pending⟩
      (List.mem_append_right _ (List.mem_map.mpr ⟨item, hitem, rfl⟩))
  simp only [hfilter, ite_self]

/-- `schedule_step` is a run of transactions that puts the items of its batch in flight, one
of a sequence at most. -/
theorem scheduleStep_shutIf (tidy : c = false → s.Tidy) : World.Run ((World.of s base k).shutIf c)
      ((World.of s.scheduleStep.1 (base ++ s.scheduleStep.2.flight) k).shutIf c) ∧
    (s.scheduleStep.2.items.map WorkItem.seqId).Nodup ∧ (c = false → s.Fewer s.scheduleStep.1) := by
  obtain ⟨hrun, hok, hfewer⟩ := buildBatch_run h tidy
  rw [scheduleStep_eq h]
  exact ⟨hrun, hok.nodup, hfewer⟩

/-- `schedule_step` where `run` calls it. -/
theorem scheduleStep_run (tidy : s.Tidy) : World.Run (World.of s base k)
      (World.of s.scheduleStep.1 (base ++ s.scheduleStep.2.flight) k) ∧
    (s.scheduleStep.2.items.map WorkItem.seqId).Nodup ∧ s.Fewer s.scheduleStep.1 := by
  obtain ⟨hrun, hnodup, hfewer⟩ := scheduleStep_shutIf (c := false) h fun _ => tidy
  exact ⟨hrun, hnodup, hfewer rfl⟩

end

end Scheduler

end CcInfer
