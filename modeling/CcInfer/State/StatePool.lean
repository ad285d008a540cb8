import CcInfer.Base.Types
import Mathlib.Data.List.Range

/-!
# `CcInfer.State.StatePool`: the active states of the sequences

The embedding of `StatePool` of `state/state_pool.cpp`, which hands out one mutable state to
every sequence that a hybrid model runs. `Worker::process_batch` acquires the state of each item
and `Worker::release_sequence` gives it back.
-/

set_option autoImplicit false

namespace CcInfer

/-- `StateId`: an index into the metadata array of `StatePool`. -/
abbrev StateId := Nat

/-- `StatePool`. Every mutable state is either free or held by one sequence. -/
structure StatePool where
  maxActive : Nat
  mutableFreeList : List StateId
  /-- `active_by_seq_`. -/
  activeBySeq : List (SequenceId × StateId)
  states : (mutableFreeList ++ activeBySeq.map Prod.snd).Perm (List.range maxActive)
  sequences : (activeBySeq.map Prod.fst).Nodup

namespace StatePool

variable (pool : StatePool) (seq : SequenceId)

/-- `StatePool::create`. -/
def create (maxActive maxSnapshots : Int) (storage : Result Unit) : Result StatePool :=
  if maxActive ≤ 0 ∨ maxSnapshots < 0 then .error .invalidArgument
  else
    match storage with
    | .error err => .error err
    | .ok () => .ok
      { maxActive := maxActive.toNat
        mutableFreeList := List.range maxActive.toNat
        activeBySeq := []
        states := by simp
        sequences := List.nodup_nil }

/-- The sequences that hold a state. -/
def holders : List SequenceId := pool.activeBySeq.map Prod.fst

/-- Every state is free or held. -/
theorem free_add_held : pool.mutableFreeList.length + pool.holders.length = pool.maxActive := by
  have hlen := pool.states.length_eq
  simpa [holders] using hlen

/-- `StatePool::acquire_active`, where `zero` is the result of `zero_state`. -/
def acquireActive (zero : Result Unit) : Result Unit × StatePool :=
  if held : seq ∈ pool.holders then (.ok (), pool)
  else
    match hfree : pool.mutableFreeList with
    | [] => (.error .maxSequencesReached, pool)
    | state :: rest =>
      match zero with
      | .error err =>
        (.error err,
          { pool with
            mutableFreeList := rest ++ [state]
            states := by
              refine .trans ?_ (hfree ▸ pool.states)
              exact (List.perm_append_singleton state rest).append_right _ })
      | .ok () =>
        (.ok (),
          { pool with
            mutableFreeList := rest
            activeBySeq := (seq, state) :: pool.activeBySeq
            states := by
              refine .trans ?_ (hfree ▸ pool.states)
              exact List.perm_middle
            sequences := List.nodup_cons.mpr ⟨held, pool.sequences⟩ })

/-- `StatePool::release_active`. -/
def releaseActive : StatePool :=
  match hfound : pool.activeBySeq.find? (·.1 == seq) with
  | none => pool
  | some entry =>
    { pool with
      mutableFreeList := pool.mutableFreeList ++ [entry.2]
      activeBySeq := pool.activeBySeq.erase entry
      states := by
        refine .trans ?_ pool.states
        have hperm := (List.perm_cons_erase (List.mem_of_find?_eq_some hfound)).map Prod.snd
        rw [List.append_assoc]
        exact hperm.symm.append_left _
      sequences := pool.sequences.sublist (List.erase_sublist.map _) }

/-- A sequence holds a state after `acquire_active` only if it held one or asked for it. -/
theorem mem_holders_acquireActive {zero : Result Unit} {seq' : SequenceId}
    (h : seq' ∈ (pool.acquireActive seq zero).2.holders) : seq' = seq ∨ seq' ∈ pool.holders := by
  unfold acquireActive at h
  split at h
  · exact .inr h
  · split at h
    · exact .inr h
    · split at h
      · exact .inr h
      · simpa [holders] using h

/-- A free state is enough for `acquire_active`. -/
theorem acquireActive_ok (free : pool.holders.length < pool.maxActive) :
    (pool.acquireActive seq (.ok ())).1 = .ok () := by
  unfold acquireActive
  split
  · rfl
  · split
    · rename_i hnil
      have hsum := pool.free_add_held
      rw [hnil, List.length_nil] at hsum
      omega
    · rfl

/-- A sequence that holds a state is served from it. -/
theorem acquireActive_held (held : seq ∈ pool.holders) (zero : Result Unit) :
    pool.acquireActive seq zero = (.ok (), pool) := dif_pos held

@[simp] theorem acquireActive_maxActive (zero : Result Unit) :
    (pool.acquireActive seq zero).2.maxActive = pool.maxActive := by
  unfold acquireActive
  split
  · rfl
  · split
    · rfl
    · split <;> rfl

@[simp] theorem releaseActive_maxActive : (pool.releaseActive seq).maxActive = pool.maxActive := by
  unfold releaseActive
  split <;> rfl

/-- `release_active` takes the state of the sequence away, and no other. -/
theorem mem_holders_releaseActive {seq' : SequenceId} :
    seq' ∈ (pool.releaseActive seq).holders ↔ seq' ∈ pool.holders ∧ seq' ≠ seq := by
  unfold releaseActive
  split
  · rename_i hnone
    have hnot : seq ∉ pool.holders := by
      intro hmem
      obtain ⟨entry, hentry, rfl⟩ := List.mem_map.mp hmem
      simpa using List.find?_eq_none.mp hnone entry hentry
    exact ⟨fun hmem => ⟨hmem, fun heq => hnot (heq ▸ hmem)⟩, And.left⟩
  · rename_i entry hfound
    have hkey : entry.1 = seq := by simpa using List.find?_some hfound
    have hperm : pool.holders.Perm (seq :: (pool.activeBySeq.erase entry).map Prod.fst) := by
      have := (List.perm_cons_erase (List.mem_of_find?_eq_some hfound)).map Prod.fst
      rwa [List.map_cons, hkey] at this
    have hnot := (List.nodup_cons.mp (hperm.nodup_iff.mp pool.sequences)).1
    rw [hperm.mem_iff, List.mem_cons]
    constructor
    · exact fun hmem => ⟨.inr hmem, fun heq => hnot (heq ▸ hmem)⟩
    · rintro ⟨heq | hmem, hne⟩
      · exact absurd heq hne
      · exact hmem

end StatePool

end CcInfer
