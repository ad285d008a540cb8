import CcInfer.Cache.StateCache
import CcInfer.Proofs.State.Storage
import Mathlib.Data.List.Perm.Basic

/-!
# `CcInfer.Proofs.State.Slots`: who owns a GDN state

`StatePool.Owned pool held` accounts for every state of a pool: the mutable ones are in their free
list or belong to one sequence, the snapshots are in their free list or in the list `held` of those
that somebody outside the pool holds. Each function of the pool keeps the account, and says what it
does to `held`. No function changes a state that it has no business with (`Keeps`).
-/

set_option autoImplicit false

namespace CcInfer.Gdn.StatePool

/-- The states of the sequences. -/
def active (pool : StatePool) : List Nat := pool.activeBySeq.entries.map Sigma.snd

/-- The account of the states of a pool, of whose snapshots `held` are in other hands. -/
structure Owned (pool : StatePool) (held : List Nat) : Prop where
  numStates : pool.storage.numStates = pool.maxActive + pool.maxSnapshots
  kind : ∀ state : Nat,
    (pool.states state).kind = if state < pool.maxActive then .mutable else .snapshot
  mutable : (pool.mutableFreeList ++ pool.active).Perm (List.range pool.maxActive)
  snapshots : (pool.snapshotFreeList ++ held).Perm (List.range' pool.maxActive pool.maxSnapshots)
  status : ∀ state : Nat, state < pool.maxActive + pool.maxSnapshots →
    ((pool.states state).status = .inUse ↔ state ∈ pool.active ∨ state ∈ held)
  asserts : pool.failedAsserts = []

/-- Two pools of the same size, with the same content of every state outside `touched`. -/
structure Keeps (pool pool' : StatePool) (touched : Nat → Prop) : Prop where
  maxActive : pool'.maxActive = pool.maxActive
  maxSnapshots : pool'.maxSnapshots = pool.maxSnapshots
  numLayers : pool'.storage.numLayers = pool.storage.numLayers
  content : ∀ state, ¬ touched state → pool'.storage.content state = pool.storage.content state

variable {pool : StatePool} {held : List Nat}

theorem setStatus_kind (pool : StatePool) (state state' : Nat) (status : StateStatus) :
    ((pool.setStatus state status).states state').kind = (pool.states state').kind := by
  simp only [setStatus, Function.update_apply]
  split
  · rename_i heq
    rw [heq]
  · rfl

theorem setStatus_status (pool : StatePool) (state state' : Nat) (status : StateStatus) :
    ((pool.setStatus state status).states state').status =
      if state' = state then status else (pool.states state').status := by
  simp only [setStatus, Function.update_apply]
  split <;> rfl

theorem Keeps.refl (pool : StatePool) (touched : Nat → Prop) : Keeps pool pool touched :=
  ⟨rfl, rfl, rfl, fun _ _ => rfl⟩

namespace Owned

variable (h : Owned pool held)
variable {state : Nat}

include h

theorem mem_mutable :
    state ∈ pool.mutableFreeList ∨ state ∈ pool.active ↔ state < pool.maxActive := by
  rw [← List.mem_append, h.mutable.mem_iff, List.mem_range]

theorem mem_snapshots : state ∈ pool.snapshotFreeList ∨ state ∈ held ↔
    pool.maxActive ≤ state ∧ state < pool.maxActive + pool.maxSnapshots := by
  rw [← List.mem_append, h.snapshots.mem_iff, List.mem_range'_1]

theorem mutable_nodup : (pool.mutableFreeList ++ pool.active).Nodup :=
  h.mutable.nodup_iff.mpr List.nodup_range

theorem snapshots_nodup : (pool.snapshotFreeList ++ held).Nodup :=
  h.snapshots.nodup_iff.mpr List.nodup_range'

/-- A state in the free list of its kind is free. -/
theorem status_of_mem_mutableFreeList (hmem : state ∈ pool.mutableFreeList) :
    (pool.states state).status = .free := by
  have hlt : state < pool.maxActive := h.mem_mutable.mp (.inl hmem)
  have hnot : ¬ (state ∈ pool.active ∨ state ∈ held) := by
    rintro (hactive | hheld)
    · exact (List.nodup_append.mp h.mutable_nodup).2.2 _ hmem _ hactive rfl
    · have := h.mem_snapshots.mp (.inr hheld)
      omega
  cases hstatus : (pool.states state).status with
  | free => rfl
  | inUse => exact absurd ((h.status state (by omega)).mp hstatus) hnot

/-- What is on the free list is free. -/
theorem status_of_mem_snapshotFreeList (hmem : state ∈ pool.snapshotFreeList) :
    (pool.states state).status = .free := by
  have hrange := h.mem_snapshots.mp (.inl hmem)
  have hnot : ¬ (state ∈ pool.active ∨ state ∈ held) := by
    rintro (hactive | hheld)
    · have := h.mem_mutable.mp (.inr hactive)
      omega
    · exact (List.nodup_append.mp h.snapshots_nodup).2.2 _ hmem _ hheld rfl
  cases hstatus : (pool.states state).status with
  | free => rfl
  | inUse => exact absurd ((h.status state (by omega)).mp hstatus) hnot

end Owned

/-- The order in which the snapshots are held does not matter. -/
theorem Owned.perm (h : Owned pool held) {held' : List Nat} (hperm : held.Perm held') :
    Owned pool held' :=
  ⟨h.numStates, h.kind, h.mutable, (hperm.symm.append_left _).trans h.snapshots,
    fun state hlt => (h.status state hlt).trans (or_congr_right hperm.mem_iff), h.asserts⟩

/-! ### The mutable states -/

/-- The entries of a map around one of them. -/
theorem exists_entries_eq {α β : Type} [DecidableEq α] {s : AList fun _ : α => β} {a : α} {b : β}
    (h : s.lookup a = some b) : ∃ front behind, a ∉ front.keys ∧
      s.entries = front ++ ⟨a, b⟩ :: behind ∧ (s.erase a).entries = front ++ behind := by
  have hmem : a ∈ s := AList.lookup_isSome.mp (by rw [h]; rfl)
  obtain ⟨b', front, behind, hfront, hentries, herase⟩ := List.exists_of_kerase hmem
  have hlookup : s.lookup a = some b' := AList.mem_lookup_iff.mpr (by
    rw [hentries]
    exact List.mem_append_right _ List.mem_cons_self)
  obtain rfl : b' = b := Option.some.inj (hlookup.symm.trans h)
  exact ⟨front, behind, hfront, hentries, herase⟩

/-- The entries of a map, one of them first. -/
theorem perm_cons_erase {α β : Type} [DecidableEq α] {s : AList fun _ : α => β} {a : α} {b : β}
    (h : s.lookup a = some b) : s.entries.Perm (⟨a, b⟩ :: (s.erase a).entries) := by
  obtain ⟨_, _, -, hentries, herase⟩ := exists_entries_eq h
  rw [herase, hentries]
  exact List.perm_middle

/-- `acquire_active` keeps the account and every snapshot. A sequence that had no state gets one of
zeroes. -/
theorem Owned.acquireActive (h : Owned pool held) (seq : SequenceId) (device : Device) :
    Owned (pool.acquireActive seq device).2 held ∧
      Keeps pool (pool.acquireActive seq device).2 (· < pool.maxActive) ∧
      (pool.acquireActive seq device).2.snapshotFreeList = pool.snapshotFreeList ∧
      (pool.activeStateOf seq = none → (pool.acquireActive seq device).1 = .ok () →
        ∃ state, (pool.acquireActive seq device).2.activeStateOf seq = some state ∧
          StateStorage.AllZero ((pool.acquireActive seq device).2.storage.content state)) := by
  rw [StatePool.acquireActive, activeStateOf]
  cases hseq : pool.activeBySeq.lookup seq with
  | some => exact ⟨h, Keeps.refl _ _, rfl, nofun⟩
  | none =>
    cases hfree : pool.mutableFreeList with
    | nil => exact ⟨h, Keeps.refl _ _, rfl, nofun⟩
    | cons state rest =>
      have hmem : state ∈ pool.mutableFreeList := hfree ▸ List.mem_cons_self
      have hlt : state < pool.maxActive := h.mem_mutable.mp (.inl hmem)
      have hassert : (pool.assert (decide ((pool.states state).status = .free) &&
          decide ((pool.states state).kind = .mutable)) .acquireActive) = pool := by
        rw [h.status_of_mem_mutableFreeList hmem, h.kind, if_pos hlt]
        rfl
      have hlt' : state < pool.storage.numStates := by
        rw [h.numStates]
        exact Nat.lt_add_right _ hlt
      obtain ⟨honly, -, hzero⟩ := pool.storage.zeroState_spec hlt' device
      have hmutable := h.mutable
      rw [hfree] at hmutable
      simp only [hassert]
      generalize pool.storage.zeroState state device = zeroed at *
      have hcontent : ∀ state', ¬ state' < pool.maxActive →
          zeroed.2.content state' = pool.storage.content state' := fun state' hge =>
        honly.content state' fun heq => hge (heq ▸ hlt)
      obtain ⟨result, storage⟩ := zeroed
      cases result with
      | error =>
        refine ⟨⟨honly.numStates.trans h.numStates, h.kind, ?_, h.snapshots, h.status, h.asserts⟩,
          ⟨rfl, rfl, honly.numLayers, hcontent⟩, rfl, nofun⟩
        exact ((List.perm_append_singleton state rest).append_right _).trans hmutable
      | ok =>
        have hactive : (pool.activeBySeq.insert seq state).entries.map Sigma.snd =
            state :: pool.active := by
          have hnot : seq ∉ pool.activeBySeq := fun hmem => by
            rw [← AList.lookup_isSome, hseq] at hmem
            cases hmem
          rw [AList.entries_insert_of_notMem hnot]
          rfl
        refine ⟨⟨honly.numStates.trans h.numStates,
          fun state' => (setStatus_kind ..).trans (h.kind state'), ?_, h.snapshots, ?_, h.asserts⟩,
          ⟨rfl, rfl, honly.numLayers, hcontent⟩, rfl, fun _ _ => ⟨state, ?_, hzero rfl⟩⟩
        · rw [active, hactive]
          exact List.perm_middle.trans hmutable
        · intro state' hlt'
          rw [active, hactive, List.mem_cons, setStatus_status]
          split
          · rename_i heq
            exact ⟨fun _ => .inl (.inl heq), fun _ => rfl⟩
          · rename_i hne
            rw [h.status state' hlt', or_iff_right hne]
        · exact AList.lookup_insert _

/-- `release_active` keeps the account and every content. -/
theorem Owned.releaseActive (h : Owned pool held) (seq : SequenceId) :
    Owned (pool.releaseActive seq) held ∧ (pool.releaseActive seq).storage = pool.storage ∧
      (pool.releaseActive seq).maxActive = pool.maxActive ∧
      (pool.releaseActive seq).maxSnapshots = pool.maxSnapshots ∧
      (pool.releaseActive seq).snapshotFreeList = pool.snapshotFreeList := by
  rw [StatePool.releaseActive]
  cases hseq : pool.activeBySeq.lookup seq with
  | none => exact ⟨h, rfl, rfl, rfl, rfl⟩
  | some state =>
    have hperm : (pool.activeBySeq.entries.map Sigma.snd).Perm
        (state :: (pool.activeBySeq.erase seq).entries.map Sigma.snd) :=
      (perm_cons_erase hseq).map Sigma.snd
    have hmem : state ∈ pool.active := hperm.mem_iff.mpr List.mem_cons_self
    have hlt : state < pool.maxActive := h.mem_mutable.mp (.inr hmem)
    have hinUse : (pool.states state).status = .inUse := (h.status state (by omega)).mpr (.inl hmem)
    have hkind := h.kind state
    rw [if_pos hlt] at hkind
    have hnodup := hperm.nodup_iff.mp (List.nodup_append.mp h.mutable_nodup).2.1
    simp only [StatePool.assert, hlt, hinUse, hkind, decide_true, Bool.and_self, if_true]
    refine ⟨⟨h.numStates, fun state' => (setStatus_kind ..).trans (h.kind state'), ?_,
      h.snapshots, ?_,
      h.asserts⟩, rfl, rfl, rfl, rfl⟩
    · rw [List.append_assoc]
      exact (hperm.symm.append_left _).trans h.mutable
    · intro state' hlt'
      rw [setStatus_status]
      split
      · rename_i heq
        subst heq
        have hnot := (List.nodup_cons.mp hnodup).1
        have hheld : state' ∉ held := fun hheld =>
          Nat.not_le_of_lt hlt (h.mem_snapshots.mp (.inr hheld)).1
        exact ⟨nofun, fun hor => (hor.elim hnot hheld).elim⟩
      · rename_i hne
        have hiff : state' ∈ pool.active ↔
            state' ∈ (pool.activeBySeq.erase seq).entries.map Sigma.snd := by
          rw [active, hperm.mem_iff, List.mem_cons, or_iff_right hne]
        exact (h.status state' hlt').trans (or_congr_left hiff)

/-! ### The snapshots -/

/-- `acquire_snapshot` hands the first free snapshot out, if there is one. -/
theorem Owned.acquireSnapshot (h : Owned pool held) :
    (pool.snapshotFreeList = [] ∧ pool.acquireSnapshot = (.error .maxSequencesReached, pool)) ∨
      ∃ state rest pool', pool.snapshotFreeList = state :: rest ∧
        pool.acquireSnapshot = (.ok state, pool') ∧ Owned pool' (held ++ [state]) ∧
        pool'.storage = pool.storage ∧ pool'.maxActive = pool.maxActive ∧
        pool'.maxSnapshots = pool.maxSnapshots ∧ pool'.snapshotFreeList = rest := by
  cases hfree : pool.snapshotFreeList with
  | nil => exact .inl ⟨rfl, by rw [StatePool.acquireSnapshot, hfree]⟩
  | cons state rest =>
    have hmem : state ∈ pool.snapshotFreeList := hfree ▸ List.mem_cons_self
    have hrange := h.mem_snapshots.mp (.inl hmem)
    have hkind := h.kind state
    rw [if_neg (by omega)] at hkind
    have hassert : (pool.assert (decide ((pool.states state).status = .free) &&
        decide ((pool.states state).kind = .snapshot)) .acquireSnapshot) = pool := by
      rw [h.status_of_mem_snapshotFreeList hmem, hkind]
      rfl
    refine .inr ⟨state, rest, { pool.setStatus state .inUse with snapshotFreeList := rest }, rfl,
      ?_, ⟨h.numStates, fun state' => (setStatus_kind ..).trans (h.kind state'), h.mutable, ?_, ?_,
        h.asserts⟩, rfl, rfl, rfl, rfl⟩
    · rw [StatePool.acquireSnapshot, hfree]
      simp only [hassert]
    · have hsnapshots := h.snapshots
      rw [hfree] at hsnapshots
      rw [← List.append_assoc]
      exact (List.perm_append_singleton state (rest ++ held)).trans hsnapshots
    · intro state' hlt'
      rw [List.mem_append, List.mem_singleton, setStatus_status]
      split
      · rename_i heq
        exact ⟨fun _ => .inr (.inr heq), fun _ => rfl⟩
      · rename_i hne
        rw [h.status state' hlt', or_iff_left hne]
        rfl

/-- `release_snapshot` takes a held snapshot back. -/
theorem Owned.releaseSnapshot (h : Owned pool held) {state : Nat} (hmem : state ∈ held) :
    ∃ pool', pool.releaseSnapshot state = (.ok (), pool') ∧ Owned pool' (held.erase state) ∧
      pool'.storage = pool.storage ∧ pool'.maxActive = pool.maxActive ∧
      pool'.maxSnapshots = pool.maxSnapshots ∧
      pool'.snapshotFreeList = pool.snapshotFreeList ++ [state] := by
  have hrange := h.mem_snapshots.mp (.inr hmem)
  have hinUse : (pool.states state).status = .inUse := (h.status state (by omega)).mpr (.inr hmem)
  have hkind := h.kind state
  rw [if_neg (by omega)] at hkind
  have hsnapshot : pool.isSnapshot state = true := by
    simp only [isSnapshot, Bool.and_eq_true, decide_eq_true_eq]
    omega
  refine ⟨{ pool.setStatus state .free with
    snapshotFreeList := pool.snapshotFreeList ++ [state] }, ?_,
    ⟨h.numStates, fun state' => (setStatus_kind ..).trans (h.kind state'), h.mutable, ?_, ?_,
      h.asserts⟩, rfl, rfl, rfl, rfl⟩
  · simp only [StatePool.releaseSnapshot, hsnapshot, Int.toNat_natCast, StatePool.assert, hinUse,
      hkind, decide_true, Bool.and_self, if_true, Bool.not_true, Bool.false_eq_true, if_false]
  · rw [List.append_assoc]
    exact ((List.perm_cons_erase hmem).symm.append_left _).trans h.snapshots
  · intro state' hlt'
    rw [setStatus_status]
    have hnodup := (List.nodup_append.mp h.snapshots_nodup).2.1
    split
    · rename_i heq
      subst heq
      have hactive : state' ∉ pool.active := fun hactive => by
        have := h.mem_mutable.mp (.inr hactive)
        omega
      exact ⟨nofun, fun hor => (hor.elim hactive (hnodup.not_mem_erase)).elim⟩
    · rename_i hne
      rw [h.status state' hlt', List.mem_erase_of_ne hne]
      rfl

/-! ### Copies -/

theorem isActive_iff (pool : StatePool) (state : Int) :
    pool.isActive state = true ↔ 0 ≤ state ∧ state < pool.maxActive := by
  rw [isActive, Bool.and_eq_true, decide_eq_true_eq, decide_eq_true_eq]

theorem isSnapshot_iff (pool : StatePool) (state : Int) : pool.isSnapshot state = true ↔
      pool.maxActive ≤ state ∧ state < pool.maxActive + pool.maxSnapshots := by
  rw [isSnapshot, Bool.and_eq_true, decide_eq_true_eq, decide_eq_true_eq]

/-- Another storage of the same size does not touch the account. -/
theorem Owned.withStorage (h : Owned pool held) {storage : StateStorage}
    (hsize : storage.numStates = pool.storage.numStates) :
    Owned { pool with storage := storage } held :=
  ⟨hsize.trans h.numStates, h.kind, h.mutable, h.snapshots, h.status, h.asserts⟩

/-- What a copy between a mutable state and a snapshot does. The source and the destination are
given by the integers of the caller. -/
structure Copies (pool pool' : StatePool) (held : List Nat) (result : Result Unit)
    (src dst activeState snapshotState : Int) (device : Device) : Prop where
  owned : Owned pool' held
  keeps : Keeps pool pool' fun state => pool.isActive activeState = true ∧
    pool.isSnapshot snapshotState = true ∧ (state : Int) = dst
  activeBySeq : pool'.activeBySeq = pool.activeBySeq
  snapshotFreeList : pool'.snapshotFreeList = pool.snapshotFreeList
  ok_iff : result = .ok () ↔ pool.isActive activeState = true ∧
    pool.isSnapshot snapshotState = true ∧ device.Serves pool.storage.numLayers
  copied : result = .ok () → pool'.storage.content dst.toNat = pool.storage.content src.toNat

/-- The part that the two copies share: the tests of the arguments and the call of `copy_state`. -/
theorem Owned.copies (h : Owned pool held) (src dst activeState snapshotState : Int)
    (hends : (src = activeState ∧ dst = snapshotState) ∨ (src = snapshotState ∧ dst = activeState))
    (device : Device) {out : Result Unit × StatePool}
    (hout : out = if !pool.isActive activeState then (.error .invalidArgument, pool)
      else if !pool.isSnapshot snapshotState then (.error .invalidArgument, pool)
      else ((pool.storage.copyState src dst device).1,
        { pool with storage := (pool.storage.copyState src dst device).2 })) :
    Copies pool out.2 held out.1 src dst activeState snapshotState device := by
  by_cases hactive : pool.isActive activeState = true
  · by_cases hsnapshot : pool.isSnapshot snapshotState = true
    · rw [hactive, hsnapshot] at hout
      subst hout
      have hactiveRange := (isActive_iff pool activeState).mp hactive
      have hsnapshotRange := (isSnapshot_iff pool snapshotState).mp hsnapshot
      have hsize := h.numStates
      obtain ⟨src', rfl⟩ := Int.eq_ofNat_of_zero_le (a := src) (by omega)
      obtain ⟨dst', rfl⟩ := Int.eq_ofNat_of_zero_le (a := dst) (by omega)
      have hsrc : src' < pool.storage.numStates := by omega
      have hdst : dst' < pool.storage.numStates := by omega
      obtain ⟨honly, hok, hcopied⟩ := pool.storage.copyState_spec hsrc hdst device
      refine ⟨h.withStorage honly.numStates, ⟨rfl, rfl, honly.numLayers, fun state hstate => ?_⟩,
        rfl, rfl, hok.trans ⟨fun hserves => ⟨hactive, hsnapshot, hserves⟩, fun hall => hall.2.2⟩,
        hcopied⟩
      exact honly.content state fun heq => hstate ⟨hactive, hsnapshot, congrArg _ heq⟩
    · rw [Bool.not_eq_true] at hsnapshot
      rw [hactive, hsnapshot] at hout
      subst hout
      exact ⟨h, Keeps.refl _ _, rfl, rfl,
        ⟨nofun, fun hall => absurd (hsnapshot.symm.trans hall.2.1) Bool.false_ne_true⟩, nofun⟩
  · rw [Bool.not_eq_true] at hactive
    rw [hactive] at hout
    subst hout
    exact ⟨h, Keeps.refl _ _, rfl, rfl,
      ⟨nofun, fun hall => absurd (hactive.symm.trans hall.1) Bool.false_ne_true⟩, nofun⟩

theorem Owned.copyActiveToSnapshot (h : Owned pool held) (activeState snapshotState : Int)
    (device : Device) :
    Copies pool (pool.copyActiveToSnapshot activeState snapshotState device).2 held
      (pool.copyActiveToSnapshot activeState snapshotState device).1 activeState snapshotState
      activeState snapshotState device :=
  h.copies _ _ _ _ (.inl ⟨rfl, rfl⟩) device rfl

theorem Owned.restoreSnapshotToActive (h : Owned pool held) (snapshotState activeState : Int)
    (device : Device) :
    Copies pool (pool.restoreSnapshotToActive snapshotState activeState device).2 held
      (pool.restoreSnapshotToActive snapshotState activeState device).1 snapshotState activeState
      activeState snapshotState device :=
  h.copies _ _ _ _ (.inr ⟨rfl, rfl⟩) device rfl

end CcInfer.Gdn.StatePool
