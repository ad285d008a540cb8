import CcInfer.Refine.Reach

/-!
# `CcInfer.Proofs.Engine.Events`: the events of a request

A request gets token events while it is active, and then at most one event that ends its
stream. `View.Events` says which part of this has happened, for each status a request can
have, and after its erasure. It is a property of the life of one request.
-/

set_option autoImplicit false

namespace CcInfer

open RequestState

namespace Obs

/-- An event that ends the stream of the request at `p`. -/
def terminal (p : RequestPtr) : Obs → Bool
  | .sent q event => q == p && event.terminal
  | _ => false

/-- A token event for the request at `p`. -/
def token (p : RequestPtr) : Obs → Bool
  | .sent q (.ok token) => q == p && token.hasToken
  | _ => false

/-- After this, no token event may follow: the stream has ended, or the request was
cancelled or has failed. -/
def silences (p : RequestPtr) : Obs → Bool
  | .statusSet q status => q == p && (status == .cancelled || status == .failed)
  | o => o.terminal p

variable {p : RequestPtr} {o : Obs}

theorem about_of_terminal (h : o.terminal p = true) : o.about p = true := by
  cases o with
  | sent => exact (Bool.and_eq_true_iff.mp h).1
  | _ => cases h

theorem about_of_token (h : o.token p = true) : o.about p = true := by
  cases o with
  | sent q event =>
    cases event with
    | ok => exact (Bool.and_eq_true_iff.mp h).1
    | error => cases h
  | _ => cases h

theorem about_of_silences (h : o.silences p = true) : o.about p = true := by
  cases o with
  | statusSet => exact (Bool.and_eq_true_iff.mp h).1
  | sent => exact about_of_terminal h
  | _ => cases h

end Obs

/-- The number of terminal events for `p` in a log. -/
def terminals (p : RequestPtr) (log : List Obs) : Nat := log.countP (Obs.terminal p)

theorem terminals_append (p : RequestPtr) (l l' : List Obs) :
    terminals p (l ++ l') = terminals p l + terminals p l' := List.countP_append

/-- What the log of a request says about its events. -/
structure View.Events (p : RequestPtr) (v : View) : Prop where
  ordered : v.log.Pairwise fun o o' => o.silences p = true → o'.token p = false
  active : .erased p ∉ v.log → v.req.status = .active → ∀ o ∈ v.log, o.silences p = false
  ended : .erased p ∉ v.log → v.req.status = .finished ∨ v.req.status = .failed →
    terminals p v.log = 1
  cancelled : .erased p ∉ v.log → v.req.status = .cancelled →
    terminals p v.log = 0 ∧ .statusSet p .cancelled ∈ v.log
  gone : .erased p ∈ v.log → terminals p v.log = 1 ∨
    (terminals p v.log = 0 ∧ .statusSet p .cancelled ∈ v.log)

theorem terminals_eq_zero {p : RequestPtr} {log : List Obs}
    (h : ∀ o ∈ log, o.silences p = false) : terminals p log = 0 := by
  refine List.countP_eq_zero.mpr fun o ho hterminal => ?_
  have := h o ho
  cases o <;> simp_all [Obs.silences, Obs.terminal]

namespace View.Events

variable {p : RequestPtr} {maxBlocks blockSize : Nat} {sampler : List Token → Token → Prop}
  {params : SamplingParams → Prop} {v v' : View}

/-- A transaction that logs nothing and keeps the status. -/
theorem quiet (h : Events p v) (log : v'.log = v.log) (status : v'.req.status = v.req.status) :
    Events p v' := by
  obtain ⟨h1, h2, h3, h4, h5⟩ := h
  rw [← log] at h1 h2 h3 h4 h5
  rw [← status] at h2 h3 h4
  exact ⟨h1, h2, h3, h4, h5⟩

/-- A transaction that logs no event and no status. -/
theorem note (h : Events p v) {obs : List Obs} (log : v'.log = v.log ++ obs)
    (status : v'.req.status = v.req.status)
    (neutral : ∀ o ∈ obs, o.silences p = false ∧ o.terminal p = false ∧ o.token p = false ∧
      o ≠ .erased p) : Events p v' := by
  have hzero : terminals p obs = 0 :=
    List.countP_eq_zero.mpr fun o ho => Bool.eq_false_iff.mp (neutral o ho).2.1
  have herased : .erased p ∉ obs := fun hmem => (neutral _ hmem).2.2.2 rfl
  have hiff : .erased p ∈ v'.log ↔ .erased p ∈ v.log := by
    rw [log, List.mem_append]
    exact or_iff_left herased
  have hcount : terminals p v'.log = terminals p v.log := by
    rw [log, terminals_append, hzero, Nat.add_zero]
  have hsub : ∀ o ∈ v.log, o ∈ v'.log := fun o ho => log ▸ List.mem_append_left _ ho
  refine ⟨?_, ?_, ?_, ?_, ?_⟩
  · rw [log]
    refine List.pairwise_append.mpr ⟨h.ordered, ?_, fun o _ o' ho' _ => (neutral o' ho').2.2.1⟩
    exact List.pairwise_of_forall_mem_list fun o _ o' ho' _ => (neutral o' ho').2.2.1
  · intro hnot hactive o ho
    rw [log, List.mem_append] at ho
    exact ho.elim (h.active (mt hiff.mpr hnot) (status ▸ hactive) o) fun ho => (neutral o ho).1
  · rw [hiff, hcount, status]
    exact h.ended
  · rw [hiff, hcount, status]
    exact fun hnot hs => (h.cancelled hnot hs).imp id (hsub _)
  · rw [hiff, hcount]
    exact fun hmem => (h.gone hmem).imp id (And.imp id (hsub _))

/-- A transaction of an active request. Nothing that it logs meets an event before it. -/
theorem leave (h : Events p v) (live : .erased p ∉ v.log) (active : v.req.status = .active)
    {obs : List Obs} (log : v'.log = v.log ++ obs) (none_erased : .erased p ∉ obs)
    (pairwise : obs.Pairwise fun o o' => o.silences p = true → o'.token p = false)
    (stays : v'.req.status = .active → ∀ o ∈ obs, o.silences p = false)
    (ends : v'.req.status = .finished ∨ v'.req.status = .failed → terminals p obs = 1)
    (stops : v'.req.status = .cancelled →
      terminals p obs = 0 ∧ .statusSet p .cancelled ∈ obs) : Events p v' := by
  have hquiet := h.active live active
  have hcount : terminals p v'.log = terminals p obs := by
    rw [log, terminals_append, terminals_eq_zero hquiet, Nat.zero_add]
  have hnot : .erased p ∉ v'.log := by
    rw [log, List.mem_append]
    exact not_or.mpr ⟨live, none_erased⟩
  refine ⟨?_, fun _ hs o ho => ?_, fun _ hs => hcount.trans (ends hs), fun _ hs => ?_,
    fun hmem => absurd hmem hnot⟩
  · rw [log]
    refine List.pairwise_append.mpr ⟨h.ordered, pairwise, fun o ho o' _ hsilent => ?_⟩
    rw [hquiet o ho] at hsilent
    cases hsilent
  · rw [log, List.mem_append] at ho
    exact ho.elim (hquiet o) (stays hs o)
  · obtain ⟨hzero, hmem⟩ := stops hs
    exact ⟨hcount.trans hzero, log ▸ List.mem_append_right _ hmem⟩

end View.Events

/-! ### Retirement -/

section Tail

variable (p : RequestPtr) (st : RequestState) (f : FlightItem) (token : Token)

theorem RequestState.tailObs_terminals : terminals p (tailObs p st f token) =
    if st.tailFinished f token then 1 else 0 := by
  unfold tailObs terminals
  cases st.tailFinished f token <;> cases f.item.samples <;> cases st.sinkExpired <;>
    simp [Obs.terminal, SinkEvent.terminal]

theorem RequestState.tailObs_ordered : (tailObs p st f token).Pairwise
    fun o o' => o.silences p = true → o'.token p = false := by
  unfold tailObs
  cases st.tailFinished f token <;> cases f.item.samples <;> cases st.sinkExpired <;>
    simp [Obs.silences, Obs.terminal, Obs.token, SinkEvent.terminal]

theorem RequestState.tailObs_erased : .erased p ∉ tailObs p st f token := by
  unfold tailObs
  cases st.tailFinished f token <;> cases f.item.samples <;> cases st.sinkExpired <;> simp

/-- The status after the tail tells what it logged. -/
theorem RequestState.tailObs_status : (st.tailStatus f token = .active →
      ∀ o ∈ tailObs p st f token, o.silences p = false) ∧
    (st.tailStatus f token = .finished ∨ st.tailStatus f token = .failed →
      terminals p (tailObs p st f token) = 1) ∧ (st.tailStatus f token = .cancelled →
      terminals p (tailObs p st f token) = 0 ∧
      .statusSet p .cancelled ∈ tailObs p st f token) := by
  rw [tailObs_terminals]
  unfold tailObs tailStatus
  cases st.tailFinished f token <;> cases f.item.samples <;> cases st.sinkExpired <;>
    simp [Obs.silences, Obs.terminal, SinkEvent.terminal]

end Tail

namespace View.Events

variable {p : RequestPtr} {maxBlocks blockSize : Nat} {sampler : List Token → Token → Prop}
  {params : SamplingParams → Prop} {v v' : View}

theorem init (config : ValidConfig) (p : RequestPtr) (req : SchedulerRequest) :
    Events p (.fresh config p req) := by
  constructor <;> simp [View.fresh, ofRequest, Obs.silences, Obs.terminal]

/-- Every transaction keeps the events in order. -/
theorem step (h : Events p v) (t : View.Step p maxBlocks blockSize sampler params v v')
    (live : v'.log = v.log ∨ .erased p ∉ v.log) : Events p v' := by
  have hlive : ∀ {o obs}, v'.log = v.log ++ (o :: obs) → .erased p ∉ v.log := by
    intro o obs hlog
    refine live.resolve_left fun heq => ?_
    rw [hlog] at heq
    simp at heq
  cases t with
  | cancel active =>
    exact h.leave (hlive rfl) active rfl (by simp) (by simp) (by simp) (by simp)
      (by simp [terminals, Obs.terminal])
  | finish sc scheduled active | fail err active =>
    exact h.leave (hlive rfl) active rfl (by simp) (by simp [Obs.token]) (by simp)
      (by simp [terminals, Obs.terminal, SinkEvent.terminal]) (by simp)
  | admission | park => exact h.note rfl rfl (by simp [Obs.silences, Obs.terminal, Obs.token])
  | drop event _ last silent =>
    -- the erasure is logged last, so the events before it decide
    have hnot : .erased p ∉ v.log :=
      live.resolve_left fun heq => by cases event <;> simp at heq
    have hgone : ∀ log : List Obs, .erased p ∈ log ++ ((event.map (Obs.sent p)).toList ++
        [.erased p]) := by simp
    have hcount : terminals p ((event.map (Obs.sent p)).toList ++ [.erased p]) =
        if event.isSome then 1 else 0 := by
      cases event with
      | none => rfl
      | some e =>
        have hclosing := (last e rfl).1
        cases e <;> simp_all [terminals, Obs.terminal, SinkEvent.closing, SinkEvent.terminal]
    have htoken : ∀ o ∈ (event.map (Obs.sent p)).toList ++ [.erased p], o.token p = false := by
      cases event with
      | none => simp [Obs.token]
      | some e =>
        have hclosing := (last e rfl).1
        cases e <;> simp_all [Obs.token, SinkEvent.closing]
    refine ⟨?_, fun hn => absurd (hgone _) hn, fun hn => absurd (hgone _) hn,
      fun hn => absurd (hgone _) hn, fun _ => ?_⟩
    · refine List.pairwise_append.mpr ⟨h.ordered, ?_, fun o _ o' ho' _ => htoken o' ho'⟩
      exact List.pairwise_of_forall_mem_list fun o _ o' ho' _ => htoken o' ho'
    · simp only [terminals_append p v.log, hcount]
      cases event with
      | some e =>
        left
        rcases (last e rfl).2 with hs | hs
        · rw [terminals_eq_zero (h.active hnot hs)]
          rfl
        · rw [(h.cancelled hnot hs).1]
          rfl
      | none =>
        rcases hs : v.req.status with _ | _ | _ | _
        · exact absurd hs (silent rfl)
        · exact .inl (by rw [h.ended hnot (.inl hs)]; rfl)
        · obtain ⟨hzero, hmem⟩ := h.cancelled hnot hs
          exact .inr ⟨by rw [hzero]; rfl, List.mem_append_left _ hmem⟩
        · exact .inl (by rw [h.ended hnot (.inr hs)]; rfl)
  | retire _ item sampling token _ _ _ _ head _ _ active settles =>
    obtain ⟨hstays, hends, hstops⟩ :=
      tailObs_status p v.req ⟨item, sampling, .done token⟩ token
    have hhead : ∀ o ∈ head, o.silences p = false ∧ o.terminal p = false ∧ o.token p = false ∧
        o ≠ .erased p := by
      cases settles <;> simp [Obs.silences, Obs.terminal, Obs.token]
    have hcount : terminals p (head ++ tailObs p v.req
        ⟨item, sampling, .done token⟩ token) = terminals p (tailObs p v.req
        ⟨item, sampling, .done token⟩ token) := by
      rw [terminals_append, show terminals p head = 0 from List.countP_eq_zero.mpr fun o ho =>
        Bool.eq_false_iff.mp (hhead o ho).2.1, Nat.zero_add]
    rcases live with hlog | hnot
    · -- nothing was logged, so the request is still active
      have hnil : tailObs p v.req ⟨item, sampling, .done token⟩ token = [] := by
        simp at hlog
        exact hlog.2
      refine h.quiet hlog (Eq.trans ?_ active.symm)
      rw [hnil] at hends hstops
      show v.req.tailStatus _ token = .active
      rcases hs : v.req.tailStatus ⟨item, sampling, .done token⟩ token with _ | _ | _ | _
      · rfl
      · cases hends (.inl hs)
      · cases (hstops hs).2
      · cases hends (.inr hs)
    · refine h.leave hnot active rfl ?_ ?_ ?_ (fun hs => hcount.trans (hends hs)) fun hs => ?_
      · exact fun hmem => (List.mem_append.mp hmem).elim (fun hm => (hhead _ hm).2.2.2 rfl)
          (tailObs_erased p _ _ _)
      · refine List.pairwise_append.mpr ⟨?_, tailObs_ordered .., ?_⟩
        · exact List.pairwise_of_forall_mem_list fun o _ o' ho' _ => (hhead o' ho').2.2.1
        · intro o ho o' _ hsilent
          rw [(hhead o ho).1] at hsilent
          cases hsilent
      · intro hs o ho
        exact (List.mem_append.mp ho).elim (fun ho => (hhead o ho).1) (hstays hs o)
      · exact ⟨hcount.trans (hstops hs).1, List.mem_append_right _ (hstops hs).2⟩
  | _ => exact h.quiet rfl rfl

end View.Events

/-- The terminal events of a request are in its part of the log. -/
theorem terminals_filter (p : RequestPtr) (log : List Obs) :
    terminals p (log.filter (Obs.about p)) = terminals p log := by
  refine (List.countP_filter ..).trans (List.countP_congr fun o _ => ?_)
  rw [Bool.and_eq_true_iff]
  exact and_iff_left_of_imp Obs.about_of_terminal

/-- At most one closing event. -/
theorem View.Events.terminals_le {p : RequestPtr} {v : View} (h : v.Events p) :
    terminals p v.log ≤ 1 := by
  by_cases herased : .erased p ∈ v.log
  · rcases h.gone herased with hone | ⟨hzero, -⟩
    · exact hone.le
    · exact hzero.trans_le (Nat.zero_le 1)
  · rcases hs : v.req.status with _ | _ | _ | _
    · exact (terminals_eq_zero (h.active herased hs)).trans_le (Nat.zero_le 1)
    · exact (h.ended herased (.inl hs)).le
    · exact (h.cancelled herased hs).1.trans_le (Nat.zero_le 1)
    · exact (h.ended herased (.inr hs)).le

/-- A request gets at most one terminal event and no token event after it, nor after it was
cancelled or has failed; and a request that left the registry without a cancellation has
got its terminal event. -/
theorem one_terminal_event {config : ValidConfig} {y : Sys} (h : Reachable config y)
    {p : RequestPtr} {req : SchedulerRequest} (registered : .registered p req ∈ y.sched.trace) :
    terminals p y.sched.trace ≤ 1 ∧
    (y.sched.trace.Pairwise fun o o' => o.silences p = true → o'.token p = false) ∧
    ((∀ id, (id, p) ∉ y.sched.requests) → .statusSet p .cancelled ∉ y.sched.trace →
      terminals p y.sched.trace = 1) := by
  obtain ⟨fls, -, run, -⟩ := h.core
  have hlogged := Logged.run run
  have hp : p < y.sched.nextPtr := hlogged.known _ registered p (beq_self_eq_true p)
  have hevents := run.life (I := View.Events p) (View.Events.init config p)
    (fun _ _ hv _ t live => hv.step t live) hp
  have hlog : (World.view (World.of y.sched fls.flatten y.worker) p).log =
      y.sched.trace.filter (Obs.about p) := World.view_log
  refine ⟨?_, ?_, fun hgone hnot => ?_⟩
  · rw [← terminals_filter, ← hlog]
    exact hevents.terminals_le
  · have hordered := hevents.ordered
    rw [hlog, List.pairwise_filter] at hordered
    refine hordered.imp fun {o o'} hpair hsilent => ?_
    by_contra htoken
    exact htoken (hpair (Obs.about_of_silences hsilent)
      (Obs.about_of_token (by simpa using htoken)) hsilent)
  · have herased : .erased p ∈ y.sched.trace := by
      by_contra hnot
      obtain ⟨id, hid⟩ := (hlogged.erased p hp).mpr hnot
      exact hgone id hid
    have hmem : .erased p ∈ y.sched.trace.filter (Obs.about p) :=
      List.mem_filter.mpr ⟨herased, beq_self_eq_true p⟩
    rcases hevents.gone (hlog ▸ hmem) with hone | ⟨-, hcancelled⟩
    · rwa [hlog, terminals_filter] at hone
    · rw [hlog] at hcancelled
      exact absurd (List.mem_filter.mp hcancelled).1 hnot

/-- A run of one request that gets two tokens, and then leaves. -/
def twoTokens : Sys :=
  Sys.after ((EngineConfig.small 3 0).toValid EngineConfig.three_ok)
    (Label.submits [⟨"a", [1], { maxTokens := 2 }, 6⟩] ++ Label.turn [2] ++ Label.turn [3])

theorem one_terminal_event_twoTokens :
    (twoTokens.sched.requests = [] ∧ .statusSet 0 .cancelled ∉ twoTokens.sched.trace) ∧
    terminals 0 twoTokens.sched.trace ≤ 1 ∧
    (twoTokens.sched.trace.Pairwise fun o o' => o.silences 0 = true → o'.token 0 = false) ∧
    ((∀ id, (id, 0) ∉ twoTokens.sched.requests) → .statusSet 0 .cancelled ∉ twoTokens.sched.trace →
      terminals 0 twoTokens.sched.trace = 1) :=
  ⟨by decide +kernel, one_terminal_event (Reachable.after _ _)
    (show Obs.registered 0 ⟨"a", [1], { maxTokens := 2 }, 6⟩ ∈ _ by decide +kernel)⟩

end CcInfer
