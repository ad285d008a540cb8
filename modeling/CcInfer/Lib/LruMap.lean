import Mathlib.Data.List.Nodup

/-!
# `CcInfer.Lib.LruMap`: a bounded map with eviction of the least recent key

An `LruMap κ ν capacity` lists its keys with their values, the least recent one first. No key stands
in it twice and there is room for it, so that a map which breaks either rule cannot be built. The
values do not change: a key keeps the value it was inserted with until it is evicted.
-/

set_option autoImplicit false

namespace CcInfer

/-- Keys with values, the least recent key first. -/
structure LruMap (κ ν : Type) (capacity : Nat) where
  entries : List (κ × ν)
  nodup : (entries.map Prod.fst).Nodup
  bound : entries.length ≤ capacity

namespace LruMap

variable {κ ν : Type} {capacity : Nat}

/-- The map without keys. -/
def empty : LruMap κ ν capacity := ⟨[], List.nodup_nil, Nat.zero_le _⟩

variable (m : LruMap κ ν capacity)

/-- The keys, the least recent first. -/
def keys : List κ := m.entries.map Prod.fst

/-- Without the least recent key. -/
def evict : LruMap κ ν capacity where
  entries := m.entries.tail
  nodup := by
    rw [List.map_tail]
    exact m.nodup.tail
  bound := by
    have := m.bound
    rw [List.length_tail]
    omega

theorem entries_evict : m.evict.entries = m.entries.tail := rfl

/-- With room for one more key: without the least recent one if the map is full. -/
def makeRoom : LruMap κ ν capacity := if m.entries.length < capacity then m else m.evict

theorem makeRoom_length (h : 0 < capacity) : m.makeRoom.entries.length < capacity := by
  unfold makeRoom
  split
  · assumption
  · have := m.bound
    rw [evict, List.length_tail]
    omega

theorem mem_of_mem_makeRoom {e : κ × ν} (h : e ∈ m.makeRoom.entries) : e ∈ m.entries := by
  unfold makeRoom at h
  split at h
  · exact h
  · exact List.mem_of_mem_tail h

theorem mem_keys_of_mem_makeRoom {k : κ} (h : k ∈ m.makeRoom.keys) : k ∈ m.keys := by
  obtain ⟨_, he, rfl⟩ := List.mem_map.mp h
  exact List.mem_map_of_mem (m.mem_of_mem_makeRoom he)

/-- With a new key, the most recent one. -/
def insert (k : κ) (v : ν) (new : k ∉ m.keys) (room : 0 < capacity) : LruMap κ ν capacity where
  entries := m.makeRoom.entries ++ [(k, v)]
  nodup := by
    rw [List.map_append]
    refine List.nodup_append.mpr ⟨m.makeRoom.nodup, List.nodup_singleton _, ?_⟩
    intro a ha b hb heq
    obtain rfl : b = k := List.mem_singleton.mp hb
    exact new (m.mem_keys_of_mem_makeRoom (heq ▸ ha))
  bound := by
    have := m.makeRoom_length room
    rw [List.length_append, List.length_singleton]
    omega

theorem entries_insert {k : κ} {v : ν} (new : k ∉ m.keys) (room : 0 < capacity) :
    (m.insert k v new room).entries = m.makeRoom.entries ++ [(k, v)] := rfl

variable [DecidableEq κ]

/-- With a key moved to the most recent end; an absent key changes nothing. -/
def touch (k : κ) : LruMap κ ν capacity where
  entries := m.entries.filter (·.1 ≠ k) ++ m.entries.filter (·.1 = k)
  nodup := by
    have hperm : (m.entries.filter (·.1 ≠ k) ++ m.entries.filter (·.1 = k)).Perm m.entries := by
      refine List.perm_append_comm.trans ?_
      simpa using List.filter_append_perm (fun e : κ × ν => decide (e.1 = k)) m.entries
    exact (hperm.map Prod.fst).nodup_iff.mpr m.nodup
  bound := by
    have hperm := List.filter_append_perm (fun e : κ × ν => decide (e.1 = k)) m.entries
    have := hperm.length_eq
    have := m.bound
    simp only [List.length_append, decide_not] at *
    omega

theorem entries_touch (k : κ) : (m.touch k).entries =
    m.entries.filter (·.1 ≠ k) ++ m.entries.filter (·.1 = k) := rfl

theorem mem_touch {k : κ} {e : κ × ν} : e ∈ (m.touch k).entries ↔ e ∈ m.entries := by
  by_cases h : e.1 = k <;> simp [touch, h]

/-! ### Steps and runs -/

/-- What happened to a map. -/
inductive Label (κ ν : Type)
  /-- A new key went in. -/
  | insert (k : κ) (v : ν)
  /-- An insertion found its key there. -/
  | keep (k : κ)
  /-- An insertion was refused. -/
  | refuse (k : κ)
  /-- A key was asked for. -/
  | get (k : κ)
  /-- The least recent key was thrown out, if there was one. -/
  | evict

/-- One step of a map. -/
inductive Step : LruMap κ ν capacity → Label κ ν → LruMap κ ν capacity → Prop
  | insert {m : LruMap κ ν capacity} {k : κ} {v : ν} (new : k ∉ m.keys) (room : 0 < capacity) :
    Step m (.insert k v) (m.insert k v new room)
  | keep {m : LruMap κ ν capacity} {k : κ} (present : k ∈ m.keys) : Step m (.keep k) m
  | refuse {m : LruMap κ ν capacity} {k : κ} : Step m (.refuse k) m
  | refuseFull {m : LruMap κ ν capacity} {k : κ} (new : k ∉ m.keys)
    (full : m.entries.length = capacity) : Step m (.refuse k) m.evict
  | get {m : LruMap κ ν capacity} {k : κ} : Step m (.get k) (m.touch k)
  | evict {m : LruMap κ ν capacity} : Step m .evict m.evict

/-- A sequence of steps, from the empty map on. -/
inductive Run : List (Label κ ν) → LruMap κ ν capacity → Prop
  | nil : Run [] empty
  | snoc {labels : List (Label κ ν)} {label : Label κ ν} {m m' : LruMap κ ν capacity}
    (run : Run labels m) (step : Step m label m') : Run (labels ++ [label]) m'

/-- The value of the last insertion of a key. -/
def lastInserted (labels : List (Label κ ν)) (k : κ) : Option ν :=
  labels.foldl (fun last label =>
    match label with
    | .insert k' v => if k' = k then some v else last
    | _ => last) none

theorem lastInserted_snoc (labels : List (Label κ ν)) (label : Label κ ν) (k : κ) :
    lastInserted (labels ++ [label]) k =
      match label with
      | .insert k' v => if k' = k then some v else lastInserted labels k
      | _ => lastInserted labels k := by
  rw [lastInserted, List.foldl_append]
  rfl

/-- A key that is there has the value of its last insertion. -/
theorem Run.lastInserted_eq {labels : List (Label κ ν)} {m : LruMap κ ν capacity}
    (run : Run labels m) {k : κ} {v : ν} (h : (k, v) ∈ m.entries) :
    lastInserted labels k = some v := by
  induction run with
  | nil => cases h
  | snoc _ step ih =>
    rw [lastInserted_snoc]
    cases step with
    | @insert k' _ new =>
      rcases List.mem_append.mp h with hold | hnew
      · have hmem := mem_of_mem_makeRoom _ hold
        have hne : k' ≠ k := fun heq => new (heq ▸ List.mem_map_of_mem hmem)
        simp only [if_neg hne]
        exact ih hmem
      · cases List.mem_singleton.mp hnew
        exact if_pos rfl
    | keep => exact ih h
    | refuse => exact ih h
    | refuseFull | evict => exact ih (List.mem_of_mem_tail h)
    | get => exact ih ((mem_touch _).mp h)

end LruMap

end CcInfer
