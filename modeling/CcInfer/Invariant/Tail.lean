import CcInfer.Invariant.Flow
import CcInfer.Invariant.Lives

/-!
# `CcInfer.Invariant.Tail`: which tokens a scheduling state has hashed

A scheduling state keeps the tokens after its last published block in `pending_hash_tokens`
and the hash up to there in `parent_hash`. Retirement adds the tokens of the last chunk of
the prompt and of every decode to the pending ones, and drops the chunks before the last. `base`
is where the hashed tokens start behind the prefix hits, and `Tail` says what is pending and what
the parent hash has taken in, however the prompt was cut into chunks (`World.Run.tailed`).
-/

set_option autoImplicit false

namespace CcInfer

open SequenceSchedulingState RequestState

variable {p : RequestPtr} {blockSize : Nat} {sc : SequenceSchedulingState}
variable {sampler : List Token → Token → Prop} {v : View} {config : ValidConfig} {w : World}
  {st st' : RequestState}

/-! ### The last chunk -/

/-- Where the last chunk since the last admission started, from where it started before. -/
def Obs.lastChunk (start : Option Nat) : Obs → Option Nat
  | .admitted _ _ _ _ => none
  | .finalChunk _ start _ => some start
  | _ => start

/-- Where the last chunk of the prompt started, if it was retired since the last admission. -/
def lastChunk (log : List Obs) : Option Nat := log.foldl Obs.lastChunk none

theorem lastChunk_append (log obs : List Obs) :
    lastChunk (log ++ obs) = obs.foldl Obs.lastChunk (lastChunk log) := List.foldl_append

/-- Entries that are about no admission and no last chunk. -/
theorem lastChunk_quiet (log : List Obs) {obs : List Obs}
    (h : ∀ o ∈ obs, ∀ start, o.lastChunk start = start) :
    lastChunk (log ++ obs) = lastChunk log := by
  rw [lastChunk_append]
  induction obs with
  | nil => rfl
  | cons o _ ih =>
    rw [List.foldl_cons, h o List.mem_cons_self]
    exact ih fun o' ho' => h o' (List.mem_cons_of_mem _ ho')

/-- The last chunk is in the log. -/
theorem exists_of_lastChunk {log : List Obs} {start : Nat} (h : lastChunk log = some start) :
    ∃ p context, .finalChunk p start context ∈ log := by
  induction log using List.reverseRecOn with
  | nil => cases h
  | append_singleton log o ih =>
    rw [lastChunk_append, List.foldl_cons, List.foldl_nil] at h
    by_cases hfinal : ∃ p s context, o = .finalChunk p s context
    · obtain ⟨p, s, context, rfl⟩ := hfinal
      obtain rfl : s = start := Option.some.inj h
      exact ⟨p, context, by simp⟩
    · -- any other entry keeps the last chunk or forgets it
      have hbefore : lastChunk log = some start := by
        cases o with
        | finalChunk p s context => exact absurd ⟨p, s, context, rfl⟩ hfinal
        | admitted => cases h
        | _ => exact h
      obtain ⟨p, context, hmem⟩ := ih hbefore
      exact ⟨p, context, List.mem_append_left _ hmem⟩

/-! ### Pending tokens and parent hash -/

/-- The first position behind the prefix hits whose token is hashed. Before the last chunk is
retired nothing is. -/
def SequenceSchedulingState.base (sc : SequenceSchedulingState) (blockSize : Nat)
    (log : List Obs) : Nat :=
  if sc.cursor.phase = .decode then (lastChunk log).getD (sc.hitBlocks * blockSize)
  else sc.executedFrontier

/-- The end of the published tokens. -/
def SequenceSchedulingState.cut (sc : SequenceSchedulingState) : Nat :=
  sc.executedFrontier - sc.pendingHashTokens.length

/-- What is pending and what the parent hash stands for, over the tokens of a sequence. -/
structure Tail (blockSize : Nat) (tokens : List Token) (base : Nat)
    (sc : SequenceSchedulingState) : Prop where
  hits_le : sc.hitBlocks * blockSize ≤ sc.executedFrontier
  whole : ∃ n, sc.executedFrontier = base + n * blockSize + sc.pendingHashTokens.length
  short : sc.pendingHashTokens.length < blockSize
  pending : sc.pendingHashTokens = (tokens.take sc.executedFrontier).drop sc.cut
  parent : sc.parentHash = PrefixCache.hashBlock
    (PrefixCache.hashBlock 0 (tokens.take (sc.hitBlocks * blockSize)))
    ((tokens.take sc.cut).drop base)

namespace Tail

variable {base : Nat} {tokens : List Token}

theorem cut_eq (h : Tail blockSize tokens base sc) : ∃ n, sc.cut = base + n * blockSize := by
  obtain ⟨n, _⟩ := h.whole
  exact ⟨n, by rw [cut]; omega⟩

/-- Over an aligned base the cut is the last block boundary below the frontier. -/
theorem cut_of_dvd (h : Tail blockSize tokens base sc) (aligned : blockSize ∣ base) :
    sc.cut = sc.executedFrontier / blockSize * blockSize := by
  obtain ⟨m, rfl⟩ := aligned
  obtain ⟨n, hn⟩ := h.whole
  have hfrontier : sc.executedFrontier =
      sc.pendingHashTokens.length + blockSize * (m + n) := by
    rw [hn, Nat.mul_add, Nat.mul_comm n]
    omega
  have hpos : 0 < blockSize := Nat.zero_lt_of_lt h.short
  rw [cut, hfrontier, Nat.add_mul_div_left _ _ hpos,
    Nat.div_eq_of_lt h.short, Nat.zero_add, Nat.mul_comm (m + n)]
  omega

/-- The cut moves on with the frontier. -/
theorem cut_le {tokens' : List Token} {sc' : SequenceSchedulingState}
    (h : Tail blockSize tokens base sc) (h' : Tail blockSize tokens' base sc')
    (frontier : sc.executedFrontier ≤ sc'.executedFrontier) : sc.cut ≤ sc'.cut := by
  obtain ⟨_, hn⟩ := h.cut_eq
  obtain ⟨_, hm⟩ := h'.cut_eq
  have hshort := h'.short
  rw [hn, hm]
  refine Nat.add_le_add_left (Nat.mul_le_mul_right _ (Nat.le_of_lt_succ ?_)) _
  -- one block more would end behind the frontier
  refine Nat.lt_of_mul_lt_mul_right (a := blockSize) ?_
  rw [Nat.succ_mul]
  unfold cut at hn hm
  obtain ⟨-, _⟩ := h.whole
  omega

/-- If the hashed tokens start behind the prefix hits, the parent hash has taken in all tokens
below the cut. -/
theorem parent_eq (h : Tail blockSize tokens (sc.hitBlocks * blockSize) sc) :
    sc.parentHash = PrefixCache.hashBlock 0 (tokens.take sc.cut) := by
  obtain ⟨_, _⟩ := h.cut_eq
  have hle : sc.hitBlocks * blockSize ≤ sc.cut := by omega
  have hprefix : tokens.take (sc.hitBlocks * blockSize) =
      (tokens.take sc.cut).take (sc.hitBlocks * blockSize) := by
    rw [List.take_take, Nat.min_eq_left hle]
  rw [h.parent, ← PrefixCache.hashBlock_append, hprefix, List.take_append_drop]

/-- Nothing is pending, and the parent hash is that of the prefix hits. -/
theorem of_nil (hbs : 0 < blockSize) (hits_le : sc.hitBlocks * blockSize ≤ sc.executedFrontier)
    (pending : sc.pendingHashTokens = []) (parent : sc.parentHash =
      PrefixCache.hashBlock 0 (tokens.take (sc.hitBlocks * blockSize))) :
    Tail blockSize tokens sc.executedFrontier sc := by
  have hcut : sc.cut = sc.executedFrontier := by
    rw [cut, pending, List.length_nil, Nat.sub_zero]
  refine ⟨hits_le, ⟨0, by rw [pending]; simp⟩, by rw [pending]; exact hbs, ?_, ?_⟩
  · rw [pending, hcut, List.drop_take_self]
  · rw [parent, hcut, List.drop_take_self]
    rfl

/-- Further tokens change nothing. -/
theorem append (h : Tail blockSize tokens base sc) (filled : sc.executedFrontier ≤ tokens.length)
    (more : List Token) : Tail blockSize (tokens ++ more) base sc := by
  have hcut : sc.cut ≤ tokens.length := (Nat.sub_le ..).trans filled
  refine ⟨h.hits_le, h.whole, h.short, ?_, ?_⟩
  · rw [List.take_append_of_le_length filled]
    exact h.pending
  · rw [List.take_append_of_le_length hcut,
      List.take_append_of_le_length (h.hits_le.trans filled)]
    exact h.parent

/-- Pending and written tokens are all tokens from the cut on. -/
theorem pending_append (h : Tail blockSize tokens base sc)
    (filled : sc.executedFrontier ≤ tokens.length) {written : List Token}
    (tail : written = tokens.drop sc.executedFrontier) :
    sc.pendingHashTokens ++ written = tokens.drop sc.cut := by
  have hle : sc.cut ≤ (tokens.take sc.executedFrontier).length := by
    rw [List.length_take, cut]
    omega
  rw [h.pending, tail, ← List.drop_append_of_le_length hle, List.take_append_drop]

/-- The published scheduling state of a retired item, whose tokens fill the sequence. -/
theorem published (h : Tail blockSize tokens base sc) (hbs : 0 < blockSize) {item : WorkItem}
    {written : List Token} {advanced published : SequenceSchedulingState}
    (frontier : advanced.executedFrontier = sc.executedFrontier + item.kvTokenCount)
    (filled : sc.executedFrontier + item.kvTokenCount = tokens.length)
    (tail : 0 < item.kvTokenCount → written = tokens.drop sc.executedFrontier)
    (pending : advanced.pendingHashTokens = sc.pendingHashTokens)
    (parent : advanced.parentHash = sc.parentHash) (hits : advanced.hitBlocks = sc.hitBlocks)
    (publish : Published blockSize item written advanced published) :
    Tail blockSize tokens base published := by
  obtain ⟨n, hn⟩ := h.whole
  have hfrontier : published.executedFrontier = tokens.length :=
    publish.plan.executedFrontier.trans (frontier.trans filled)
  have hhits : published.hitBlocks = sc.hitBlocks := publish.plan.hitBlocks.trans hits
  have hchained := publish.chained hbs
  have hits_le : published.hitBlocks * blockSize ≤ published.executedFrontier := by
    rw [hhits, hfrontier, ← filled]
    exact h.hits_le.trans (Nat.le_add_right ..)
  rcases Nat.eq_zero_or_pos item.kvTokenCount with hzero | hpos
  · -- nothing was written, so nothing becomes pending
    have hsame : published.pendingHashTokens = sc.pendingHashTokens :=
      (publish.idle hzero).trans pending
    have hF : published.executedFrontier = sc.executedFrontier := by omega
    have hcut : published.cut = sc.cut := by
      rw [cut, hF, hsame, cut]
    refine ⟨hits_le, ⟨n, by rw [hF, hsame]; exact hn⟩, by rw [hsame]; exact h.short, ?_, ?_⟩
    · rw [hsame, hF, hcut]
      exact h.pending
    · rw [hchained, hzero, if_neg (lt_irrefl 0), hhits, hcut, parent]
      exact h.parent
  · obtain ⟨m, hm, hrest⟩ := publish.pending hpos
    have hall : advanced.pendingHashTokens ++ written = tokens.drop sc.cut := by
      rw [pending]
      exact h.pending_append (by omega) (tail hpos)
    rw [hall, List.length_drop] at hm
    rw [hall, List.drop_drop] at hrest
    have hcutle : sc.cut = base + n * blockSize := by
      rw [cut]
      omega
    have hlength : published.pendingHashTokens.length =
        tokens.length - (sc.cut + m * blockSize) := by
      rw [hrest, List.length_drop]
    have hcutlen : sc.cut ≤ tokens.length := by omega
    have hcut : published.cut = sc.cut + m * blockSize := by
      rw [cut, hfrontier, hlength]
      omega
    refine ⟨hits_le, ⟨n + m, ?_⟩, publish.short hpos hbs, ?_, ?_⟩
    · rw [hfrontier, hlength, Nat.add_mul]
      omega
    · rw [hfrontier, List.take_length, hcut]
      exact hrest
    · rw [hchained, if_pos hpos, hall, parent, h.parent, hhits, hcut, List.length_drop, hlength,
        ← PrefixCache.hashBlock_append]
      have htake : tokens.length - sc.cut - (tokens.length - (sc.cut + m * blockSize)) =
          m * blockSize := by omega
      rw [htake, List.take_add, List.drop_append_of_le_length]
      rw [List.length_take]
      omega

end Tail

/-! ### Requests -/

/-- The tokens that a scheduling state takes in. -/
def RequestState.tokens (st : RequestState) (sc : SequenceSchedulingState) : List Token :=
  st.promptTokens ++ st.stream sc

theorem Stands.frontier_le {prompt stream : List Token} {frontier : Nat} {phase : GenerationPhase}
    (h : Stands prompt stream frontier phase) : frontier ≤ (prompt ++ stream).length := by
  rw [List.length_append]
  cases phase with
  | prefill | bootstrap => exact h.2.le.trans (Nat.le_add_right ..)
  | decode =>
    have := h.2
    omega
  | replayPrefill => exact h.elim

/-- The retirement of the item that continues the sequence appends its token. -/
theorem View.Retirement.tokens (r : v.Retirement p blockSize) (h : Flowing sampler v r.sc) :
    r.after.req.tokens r.sc' = v.req.tokens r.sc ++ [r.token] := by
  rw [RequestState.tokens, r.stream h, ← List.append_assoc]
  rfl

/-- The hashed tokens of a scheduling state of the request. -/
structure View.Tailed (blockSize : Nat) (v : View) (sc : SequenceSchedulingState) : Prop where
  tail : Tail blockSize (v.req.tokens sc) (sc.base blockSize v.log) sc
  bootstrap : sc.cursor.phase = .bootstrap →
    sc.executedFrontier = sc.hitBlocks * blockSize ∧ lastChunk v.log = none

/-- An active request has hashed the tokens that `Tail` says, under a plain scheduling
state. -/
def View.Tails (blockSize : Nat) (v : View) : Prop :=
  ∀ sc, v.req.scheduling = some sc → v.req.status = .active → sc.Plain → v.Tailed blockSize sc

namespace View.Tailed

variable {v' : View} {sc' : SequenceSchedulingState}
variable {req : RequestState} {log : List Obs} {seq : SequenceId} {hits : Nat} {parent : Hash}
  {table : BlockTable}

/-- The hashed tokens depend on a few fields only. -/
theorem of_same (h : v.Tailed blockSize sc) (prompt : v'.req.promptTokens = v.req.promptTokens)
    (generated : v'.req.generatedTokens = v.req.generatedTokens)
    (admitted : sc'.admittedGenerated = sc.admittedGenerated)
    (hits : sc'.hitBlocks = sc.hitBlocks) (phase : sc'.cursor.phase = sc.cursor.phase)
    (frontier : sc'.executedFrontier = sc.executedFrontier)
    (pending : sc'.pendingHashTokens = sc.pendingHashTokens)
    (parent : sc'.parentHash = sc.parentHash) (log : lastChunk v'.log = lastChunk v.log) :
    v'.Tailed blockSize sc' := by
  have htokens : v'.req.tokens sc' = v.req.tokens sc := by
    simp only [tokens, stream, prompt, generated, admitted]
  have hbase : sc'.base blockSize v'.log = sc.base blockSize v.log := by
    simp only [base, phase, log, hits, frontier]
  have hcut : sc'.cut = sc.cut := by
    simp only [cut, frontier, pending]
  obtain ⟨⟨_, _, _, _, _⟩, _⟩ := h
  refine ⟨⟨?_, ?_, ?_, ?_, ?_⟩, ?_⟩
  · rwa [hits, frontier]
  · rwa [frontier, hbase, pending]
  · rwa [pending]
  · rwa [pending, htokens, frontier, hcut]
  · rwa [parent, htokens, hits, hcut, hbase]
  · rwa [phase, frontier, hits, log]

/-- A plain scheduling state starts with nothing hashed but its prefix hits: it never starts in
the decode phase. -/
theorem base_admitted (hits_le : hits * blockSize ≤ req.promptTokens.length)
    (plain : (req.admitScheduling blockSize seq ⟨table, hits, parent⟩).Plain)
    (prompt_pos : 0 < req.promptTokens.length) :
    (req.admitScheduling blockSize seq ⟨table, hits, parent⟩).base blockSize log =
      hits * blockSize := by
  have hflowing : Flowing (fun _ _ => True) _ _ :=
    .admitted req [] seq hits parent table prompt_pos hits_le plain
  have hstands := hflowing.stands
  refine if_neg fun hdecode => ?_
  rw [hdecode] at hstands
  exact hstands.1 (List.drop_eq_nil_of_le le_rfl)

/-- A new scheduling state has hashed its prefix hits. -/
theorem admitted (hbs : 0 < blockSize) (hits_le : hits * blockSize ≤ req.promptTokens.length)
    (chained : parent = PrefixCache.hashBlock 0 (req.promptTokens.take (hits * blockSize)))
    (plain : (req.admitScheduling blockSize seq ⟨table, hits, parent⟩).Plain)
    (prompt_pos : 0 < req.promptTokens.length) :
    View.Tailed blockSize (.admitted blockSize req seq hits parent table
        (log ++ [.admitted p seq hits req.generatedTokens.length]))
      (req.admitScheduling blockSize seq ⟨table, hits, parent⟩) := by
  have hlast : lastChunk (log ++ [.admitted p seq hits req.generatedTokens.length]) = none := by
    rw [lastChunk_append]
    rfl
  refine ⟨?_, fun _ => ⟨rfl, hlast⟩⟩
  rw [base_admitted hits_le plain prompt_pos]
  have hnone : (req.admitScheduling blockSize seq ⟨table, hits, parent⟩).pendingHashTokens = [] :=
    rfl
  refine Tail.of_nil hbs (by exact le_rfl) hnone ?_
  simp only [admitScheduling, tokens]
  rw [List.take_append_of_le_length hits_le]
  exact chained

/-- A chunk before the last one leaves nothing pending. -/
theorem retiredChunk (h : v.Tailed blockSize sc) (hbs : 0 < blockSize) {chunk : PrefillChunk}
    {items : List FlightItem} (phase : sc.cursor.phase = .prefill)
    (more : sc.cursor.prefillCursor + chunk.promptSpan.length < v.req.promptTokens.length) :
    View.Tailed blockSize (v.chunkRetired sc chunk items)
      (sc.advanceChunk chunk v.req.promptTokens.length) := by
  have hphase : (sc.advanceChunk chunk v.req.promptTokens.length).cursor.phase = .prefill := by
    simp only [advanceChunk, Nat.not_le.mpr more, if_false, phase]
  have hbase : ∀ log, (sc.advanceChunk chunk v.req.promptTokens.length).base blockSize log =
      (sc.advanceChunk chunk v.req.promptTokens.length).executedFrontier := fun log => by
    rw [base, hphase]
    rfl
  have hold : sc.base blockSize v.log = sc.executedFrontier := by
    rw [base, phase]
    rfl
  have htail := h.tail
  rw [hold] at htail
  -- in the prefill phase the hashed tokens start at the frontier, so there are none
  obtain ⟨_, _⟩ := htail.whole
  have hnil : sc.pendingHashTokens = [] := List.length_eq_zero_iff.mp (by omega)
  have hcut : sc.cut = sc.executedFrontier := by
    rw [cut, hnil, List.length_nil, Nat.sub_zero]
  refine ⟨?_, fun hboot => ?_⟩
  · rw [hbase]
    refine Tail.of_nil hbs (htail.hits_le.trans (Nat.le_max_left ..)) hnil ?_
    have hparent := htail.parent
    rw [hcut, List.drop_take_self] at hparent
    exact hparent
  · rw [hphase] at hboot
    cases hboot

end View.Tailed

/-- A sampled token that ends the Bootstrap phase changes nothing that is hashed. -/
theorem Tail.leaveBootstrap {base : Nat} {tokens : List Token} (h : Tail blockSize tokens base sc)
    (item : WorkItem) : Tail blockSize tokens base (sc.leaveBootstrap item) := by
  obtain ⟨_, _, _, pending, parent⟩ := h
  unfold cut at pending parent
  constructor <;>
    simpa only [cut, leaveBootstrap_frame]

namespace View.Tailed

variable {r : v.Retirement p blockSize}

/-- The tail of `retire_work` logs no last chunk. -/
theorem lastChunk_tailObs (log : List Obs) (st : RequestState) (f : FlightItem) (token : Token) :
    lastChunk (log ++ tailObs p st f token) = lastChunk log := by
  refine lastChunk_quiet log fun o ho start => ?_
  rcases mem_tailObs ho with ⟨_, rfl⟩ | rfl | ⟨rfl, -⟩ <;> rfl

/-- The hashed tokens go on from where they started. -/
theorem base_retired (h : v.Tailed blockSize r.sc) (flowing : Flowing sampler v r.sc) :
    r.sc'.base blockSize r.after.log = r.sc.base blockSize v.log := by
  have continues := r.continues flowing
  rw [base, if_pos (r.phase flowing), r.same.hitBlocks]
  show (lastChunk (v.log ++ (r.head ++ _))).getD _ = _
  rw [← List.append_assoc, lastChunk_tailObs]
  obtain ⟨rest, item, sampling, token, sc, advanced, published, written, head, kept, front,
    scheduled, active, settles, publish⟩ := r
  dsimp only at h flowing continues ⊢
  cases settles with
  | last chunk =>
    -- the last chunk starts at the frontier, where the prefill phase hashes from
    have hphase := flowing.filling front
    cases continues with
    | chunk _ _ _ start =>
      rw [base, hphase, lastChunk_append]
      exact start
  | decode =>
    rw [List.append_nil]
    cases continues with
    | bootstrap _ unsampled filled =>
      have hphase := flowing.stands.phase_bootstrap (List.length_eq_zero_iff.mp unsampled) filled
      obtain ⟨hfrontier, hnone⟩ := h.bootstrap hphase
      rw [base, hphase, hnone]
      exact hfrontier.symm
    | decode _ sampled =>
      have hphase := flowing.stands.phase_decode (List.ne_nil_of_length_pos sampled)
      rw [base, if_pos hphase]

/-- The retirement of the item that continues the sequence fills it, and takes all tokens below
the new cut into the parent hash. -/
theorem settled (h : v.Tailed blockSize r.sc) (hbs : 0 < blockSize)
    (flowing : Flowing sampler v r.sc) : r.published.executedFrontier = (v.req.tokens r.sc).length ∧
    (0 < r.item.kvTokenCount →
      r.sc.pendingHashTokens ++ r.written = (v.req.tokens r.sc).drop r.sc.cut) ∧
    Tail blockSize (v.req.tokens r.sc) (r.sc.base blockSize v.log) r.published := by
  obtain ⟨hsamples, hfilled, -, -⟩ := r.settled flowing
  obtain ⟨-, -, -, -, hpending, hhits, -⟩ := r.settles.advanced
  have hlength : r.sc.executedFrontier + r.item.kvTokenCount = (v.req.tokens r.sc).length := by
    rw [tokens, List.length_append]
    exact hfilled
  have hwritten : 0 < r.item.kvTokenCount →
      r.written = (v.req.tokens r.sc).drop r.sc.executedFrontier := r.written_eq flowing hsamples
  refine ⟨?_, fun hpos => h.tail.pending_append (by omega) (hwritten hpos),
    h.tail.published hbs r.advanced_frontier hlength hwritten hpending r.settles.parentHash hhits
      r.publish⟩
  rw [r.publish.plan.executedFrontier, r.advanced_frontier, hlength]

/-- The retirement of an item that sampled. -/
theorem retired (h : v.Tailed blockSize r.sc) (hbs : 0 < blockSize)
    (flowing : Flowing sampler v r.sc) : r.after.Tailed blockSize r.sc' := by
  obtain ⟨hend, -, htail⟩ := h.settled hbs flowing
  refine ⟨?_, fun hboot => ?_⟩
  · rw [h.base_retired flowing, r.tokens flowing]
    exact (htail.append hend.le [r.token]).leaveBootstrap r.item
  · rw [r.phase flowing] at hboot
    cases hboot

end View.Tailed

/-- Every transaction of a request keeps what it has hashed. -/
theorem View.Tails.step {maxBlocks : Nat} {params : SamplingParams → Prop} {v' : View}
    (h : v.Tails blockSize) (hbs : 0 < blockSize) (flows : v.Flows sampler)
    (kept : v.Kept blockSize)
    (t : View.Step p maxBlocks blockSize sampler params v v') : v'.Tails blockSize := by
  cases t with
  | expire | process | skipStale | processFail =>
    intro sc hsc active plain
    exact (h sc hsc active plain).of_same rfl rfl rfl rfl rfl rfl rfl rfl rfl
  | cancel | fail => exact fun sc hsc ha => nomatch ha
  | finish sc => exact fun sc hsc ha => nomatch ha
  | grow sc blocks scheduled active | dispatch sc item sampling scheduled active =>
    rintro _ ⟨⟩ - plain
    exact (h sc scheduled active plain).of_same rfl rfl rfl rfl rfl rfl rfl rfl rfl
  | admission _ _ _ _ admissible hits_le _ chained =>
    rintro _ ⟨⟩ - plain
    exact .admitted hbs hits_le chained plain admissible.prompt_pos
  | park sc => exact fun sc hsc => nomatch hsc
  | drop => exact fun sc hsc => nomatch hsc
  | discard _ _ _ _ split _ ignored =>
    intro _ _ active
    exact absurd active (kept.discarded_inactive split ignored)
  | retireChunk _ _ _ _ sc front scheduled active more =>
    rintro _ ⟨⟩ - plain
    have hphase := (flows sc scheduled active plain).filling front
    exact (h sc scheduled active plain).retiredChunk hbs hphase more
  | retire _ _ _ _ sc _ _ _ _ front scheduled active settles publish =>
    let r : v.Retirement p blockSize := ⟨_, _, _, _, _, _, _, _, _, kept, front, scheduled, active,
      settles, publish⟩
    rintro _ ⟨⟩ - plain
    exact (h sc scheduled active (r.plain plain)).retired (r := r) hbs
      (flows sc scheduled active (r.plain plain))

/-- Every request of a reachable world flows, and has hashed the tokens that `Tail` says. -/
theorem World.Run.tailed (run : World.Run (World.init config) w) (hp : p < w.nextPtr) :
    (w.view p).Flows (fun _ _ => True) ∧ (w.view p).Tails config.kvBlockSize :=
  run.life (I := fun v => v.Flows (fun _ _ => True) ∧ v.Tails config.kvBlockSize)
    (fun _ => ⟨fun _ hsc => (nomatch hsc), fun _ hsc => (nomatch hsc)⟩)
    (fun _ _ h kept t _ => ⟨h.1.step kept t, h.2.step config.kvBlockSize_pos h.1 kept t⟩) hp

/-! ### The retirement of an item -/

/-- The part of the log that is about the request. -/
def World.logOf (w : World) (p : RequestPtr) : List Obs := w.trace.filter (Obs.about p)

section

section

variable (run : World.Run (World.init config) w) (scheduled : w.Scheduled p sc)
  (active : (w.heap p).status = .active) (plain : sc.Plain)
include run scheduled active plain

/-- An active request flows under a plain scheduling state. -/
theorem World.Run.flowing : Flowing (fun _ _ => True) (w.view p) sc := by
  have core := run.core
  obtain ⟨flows, -⟩ := run.tailed (core.scheduled_lt scheduled)
  exact flows sc (by rw [World.view_req]; exact scheduled) (by rw [World.view_req]; exact active)
    plain

/-- What an active request has hashed under a plain scheduling state. -/
theorem World.Run.tail_of_scheduled : sc.executedFrontier ≤ ((w.heap p).tokens sc).length ∧
    Tail w.config.kvBlockSize ((w.heap p).tokens sc)
      (sc.base w.config.kvBlockSize (w.logOf p)) sc := by
  have core := run.core
  obtain ⟨-, tails⟩ := run.tailed (core.scheduled_lt scheduled)
  have hconfig : w.config = config := run.config_eq
  have hstands := (run.flowing scheduled active plain).stands.frontier_le
  have htail := (tails sc (by rw [World.view_req]; exact scheduled)
    (by rw [World.view_req]; exact active) plain).tail
  rw [World.view_req] at hstands htail
  rw [World.view_log, ← hconfig] at htail
  exact ⟨hstands, htail⟩

end

end

/-- The scheduling state `sc'` of `st'` has hashed what `sc` has, over a table that may have
grown. -/
structure SameChain (st : RequestState) (sc : SequenceSchedulingState) (st' : RequestState)
    (sc' : SequenceSchedulingState) : Prop where
  prompt : st'.promptTokens = st.promptTokens
  generated : st'.generatedTokens = st.generatedTokens
  seqId : sc'.seqId = sc.seqId
  hitBlocks : sc'.hitBlocks = sc.hitBlocks
  admittedGenerated : sc'.admittedGenerated = sc.admittedGenerated
  phase : sc'.cursor.phase = sc.cursor.phase
  frontier : sc'.executedFrontier = sc.executedFrontier
  pending : sc'.pendingHashTokens = sc.pendingHashTokens
  table : sc.blockTable <+: sc'.blockTable

theorem SameChain.refl (st : RequestState) (sc : SequenceSchedulingState) : SameChain st sc st sc :=
  ⟨rfl, rfl, rfl, rfl, rfl, rfl, rfl, rfl, List.prefix_rfl⟩

theorem SameChain.tokens {sc' : SequenceSchedulingState}
    (h : SameChain st sc st' sc') : st'.tokens sc' = st.tokens sc := by
  simp only [RequestState.tokens, RequestState.stream, h.prompt, h.generated, h.admittedGenerated]

theorem SameChain.cut {sc' : SequenceSchedulingState}
    (h : SameChain st sc st' sc') : sc'.cut = sc.cut := by
  simp only [SequenceSchedulingState.cut, h.frontier, h.pending]

/-- A transaction that touches one request object at most, and leaves what this has hashed or
takes its scheduling state away, leaves what every request has hashed. -/
theorem SameChain.of_touched {w' : World} {q : RequestPtr}
    (heap : w'.heap = Function.update w.heap q st)
    (same : ∀ sc', st.scheduling = some sc' → st.status = .active →
      ∃ sc, w.Scheduled q sc ∧ (w.heap q).status = .active ∧ SameChain (w.heap q) sc st sc')
    {sc' : SequenceSchedulingState} (hsc' : w'.Scheduled p sc')
    (active : (w'.heap p).status = .active) : ∃ sc, w.Scheduled p sc ∧
      (w.heap p).status = .active ∧ SameChain (w.heap p) sc (w'.heap p) sc' := by
  have hheap : w'.heap p = Function.update w.heap q st p := by rw [heap]
  rw [World.Scheduled, hheap] at hsc'
  rw [hheap] at active ⊢
  rcases eq_or_ne p q with rfl | hne
  · rw [Function.update_self] at hsc' active ⊢
    exact same sc' hsc' active
  · rw [Function.update_of_ne hne] at hsc' active ⊢
    exact ⟨sc', hsc', active, .refl _ _⟩

/-- What the retirement of `item` does to the hashed tokens of the request at `p`, whose
scheduling state was `sc` and is `sc'`. -/
structure World.Settling (w w' : World) (p : RequestPtr) (item : WorkItem) (written : List Token)
    (token : Token) (sc sc' : SequenceSchedulingState) : Prop where
  plain : sc.Plain
  same : SameSequence sc sc'
  before : Tail w.config.kvBlockSize ((w.heap p).tokens sc)
    (sc.base w.config.kvBlockSize (w.logOf p)) sc
  after : Tail w.config.kvBlockSize ((w.heap p).tokens sc)
    (sc.base w.config.kvBlockSize (w.logOf p)) sc'
  filled : sc'.executedFrontier = ((w.heap p).tokens sc).length
  frontier : sc'.executedFrontier = sc.executedFrontier + item.kvTokenCount
  wrote : 0 < item.kvTokenCount →
    sc.pendingHashTokens ++ written = ((w.heap p).tokens sc).drop sc.cut
  idle : item.kvTokenCount = 0 → sc'.cut = sc.cut
  base : sc'.base w.config.kvBlockSize (w'.logOf p) = sc.base w.config.kvBlockSize (w.logOf p)
  tokens : (w'.heap p).tokens sc' = (w.heap p).tokens sc ++ [token]

/-- The front item of the flight is retired and reaches the tail of `retire_work`. -/
structure World.Retirement (w : World) (p : RequestPtr) where
  rest : List FlightItem
  item : WorkItem
  sampling : SamplingParams
  token : Token
  sc : SequenceSchedulingState
  advanced : SequenceSchedulingState
  written : List Token
  head : List Obs
  front : w.flight = ⟨item, sampling, .done token⟩ :: rest
  running : p ∈ w.running
  scheduled : w.Scheduled p sc
  seq : sc.seqId = item.seqId
  active : (w.heap p).status = .active
  settles : Settles p (w.heap p) sc item advanced written head

namespace World.Retirement

variable (r : w.Retirement p)

/-- The item that is retired. -/
abbrev flight : FlightItem := ⟨r.item, r.sampling, .done r.token⟩

/-- The scheduling state afterwards. -/
abbrev sc' : SequenceSchedulingState :=
  (w.kv.publishItem r.advanced r.item r.written).2.1.leaveBootstrap r.item

/-- The world afterwards. -/
abbrev after : World :=
  w.settled p r.flight r.token r.advanced r.written r.head r.rest

theorem step : World.Step w r.after :=
  .retire w r.rest r.item r.sampling r.token p r.sc r.advanced r.written r.head r.front r.running
    r.scheduled r.seq r.active r.settles

theorem scheduled_after : r.after.Scheduled p r.sc' := by
  simp [World.Scheduled, World.settled, retired]

theorem geometry (core : Core w) : Geometry (w.heap p) r.sc
    (r.item :: (r.rest.filter fun g => g.seqId == r.sc.seqId).map (·.item)) :=
  core.front_geometry r.front r.scheduled r.seq

/-- The item was processed, so it fits its table. -/
theorem fits (core : Core w) : r.item.Fits w.config.kvBlockSize :=
  core.done_fits (f := r.flight) (r.front ▸ List.mem_cons_self) rfl

/-- The same in the view of the request. -/
def view (core : Core w) : (w.view p).Retirement p w.config.kvBlockSize where
  rest := r.rest.filter fun g => g.seqId == r.sc.seqId
  item := r.item
  sampling := r.sampling
  token := r.token
  sc := r.sc
  advanced := r.advanced
  published := (w.kv.publishItem r.advanced r.item r.written).2.1
  written := r.written
  head := r.head
  kept := core.kept p (core.scheduled_lt r.scheduled)
  front := World.view_items_front r.front r.scheduled r.seq
  scheduled := by rw [World.view_req]; exact r.scheduled
  active := by rw [World.view_req]; exact r.active
  settles := by rw [World.view_req]; exact r.settles
  publish := core.ownership.blockSize ▸ w.kv.publishItem_published r.advanced r.item r.written

theorem logOf_after : r.after.logOf p =
    w.logOf p ++ (r.head ++ tailObs p (w.heap p) r.flight r.token) := by
  simp [World.logOf, World.settled, r.settles.head_about, KvBlocks.publishItem_about,
    tailObs_self]

end World.Retirement

/-- The retirement of the oldest item of an active request under a plain scheduling state. -/
theorem World.Run.settling
    (run : World.Run (World.init config) w) (r : w.Retirement p) (plain : r.sc'.Plain) :
    w.Settling r.after p r.item r.written r.token r.sc r.sc' := by
  have core := run.core
  have hbs := w.config.kvBlockSize_pos
  obtain ⟨-, -, -, -, hpending, -, -⟩ := r.settles.advanced
  let rv := r.view core
  have hplain : r.sc.Plain := rv.plain plain
  obtain ⟨flows, tails⟩ := run.tailed (core.scheduled_lt r.scheduled)
  have hconfig : w.config = config := run.config_eq
  rw [← hconfig] at tails
  have flowing := flows r.sc rv.scheduled rv.active hplain
  have tailed := tails r.sc rv.scheduled rv.active hplain
  obtain ⟨hend, hwrote, hafter⟩ := tailed.settled (r := rv) hbs flowing
  have hbase : r.sc'.base _ ((w.view p).log ++
      (r.head ++ tailObs p (w.view p).req r.flight r.token)) = _ :=
    tailed.base_retired (r := rv) flowing
  have htokens : ((w.view p).req.retired r.sc' r.flight r.token).tokens r.sc' = _ :=
    rv.tokens flowing
  have hbefore := tailed.tail
  rw [World.view_req] at hend hwrote hafter hbase htokens hbefore
  rw [World.view_log] at hafter hbase hbefore
  refine ⟨hplain, rv.same, hbefore, hafter.leaveBootstrap r.item, ?_, rv.frontier, hwrote,
    fun hzero => ?_, ?_, ?_⟩
  · simp only [leaveBootstrap_frame]
    exact hend
  · have hsame : r.sc'.pendingHashTokens = r.sc.pendingHashTokens := by
      simp only [leaveBootstrap_frame, ← hpending]
      exact rv.publish.idle hzero
    have hfrontier : r.sc'.executedFrontier = r.sc.executedFrontier := by
      rw [show r.sc'.executedFrontier = _ from rv.frontier]
      exact congrArg (r.sc.executedFrontier + ·) hzero
    rw [cut, hfrontier, hsame]
    rfl
  · rw [r.logOf_after]
    exact hbase
  · rw [show r.after.heap p = _ from Function.update_self ..]
    exact htokens

/-- An item that reaches the tail of `retire_work` sampled, and its request decodes. -/
theorem World.Run.settled_phase
    (run : World.Run (World.init config) w) (r : w.Retirement p) (plain : r.sc.Plain) :
    r.item.samples = true ∧ r.sc'.cursor.phase = .decode := by
  have flowing := run.flowing r.scheduled r.active plain
  let rv := r.view run.core
  exact ⟨(rv.settled flowing).1, rv.phase flowing⟩

end CcInfer
