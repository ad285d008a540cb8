import CcInfer.State.StateStorage

/-!
# `CcInfer.Proofs.State.Storage`: what zeroing and copying do to the states

The slots of a tensor lie side by side, so a write to one slot leaves every other as it is
(`slot_write_ne`). A loop over the tensors therefore changes one state only, whether or not a device
call fails on the way (`OnlyState`), and if none fails the state is the one that was to be written
(`zeroState_spec`, `copyState_spec`).
-/

set_option autoImplicit false

namespace CcInfer.Gdn

/-- The first `n` device calls succeed. -/
def Device.Serves (device : Device) (n : Nat) : Prop := ∀ call < n, device call = none

namespace StateLayer

variable {numStates : Nat} (layer : StateLayer numStates)

theorem length_data : layer.data.length = numStates * layer.stateBytes :=
  (Nat.mul_div_cancel' layer.whole).symm

@[simp] theorem stateBytes_write (state : Nat) (bytes : List UInt8) :
    (layer.write state bytes).stateBytes = layer.stateBytes := by
  rw [stateBytes, stateBytes, write, List.length_mapIdx]

theorem slot_getElem? (state i : Nat) : (layer.slot state)[i]? =
      if i < layer.stateBytes then layer.data[state * layer.stateBytes + i]? else none := by
  rw [slot, List.getElem?_take, List.getElem?_drop]

theorem write_getElem? (state : Nat) (bytes : List UInt8) (i : Nat) :
    (layer.write state bytes).data[i]? = layer.data[i]?.map fun byte =>
      if state * layer.stateBytes ≤ i ∧ i < (state + 1) * layer.stateBytes then
        bytes.getD (i - state * layer.stateBytes) 0 else byte := by
  rw [write, List.getElem?_mapIdx]

/-- A slot inside the tensor has its full length. -/
theorem slot_length {state : Nat} (h : state < numStates) :
    (layer.slot state).length = layer.stateBytes := by
  have hend : (state + 1) * layer.stateBytes ≤ numStates * layer.stateBytes :=
    Nat.mul_le_mul_right _ h
  rw [Nat.add_mul, Nat.one_mul] at hend
  rw [slot, List.length_take, List.length_drop, length_data]
  omega

/-- A write is read back. -/
theorem slot_write_self {state : Nat} (h : state < numStates) {bytes : List UInt8}
    (hlen : bytes.length = layer.stateBytes) : (layer.write state bytes).slot state = bytes := by
  refine List.ext_getElem? fun i => ?_
  rw [slot_getElem?, stateBytes_write, write_getElem?]
  split
  · rename_i hi
    have hend : (state + 1) * layer.stateBytes ≤ numStates * layer.stateBytes :=
      Nat.mul_le_mul_right _ h
    rw [Nat.add_mul, Nat.one_mul] at hend
    rw [List.getElem?_eq_getElem (by rw [length_data]; omega), Option.map_some,
      if_pos ⟨by omega, by rw [Nat.add_mul, Nat.one_mul]; omega⟩, Nat.add_sub_cancel_left,
      List.getD_eq_getElem?_getD, List.getElem?_eq_getElem (by omega), Option.getD_some]
  · rw [List.getElem?_eq_none (by omega)]

/-- It touches no other slot. -/
theorem slot_write_ne {state state' : Nat} (h : state' ≠ state) (bytes : List UInt8) :
    (layer.write state bytes).slot state' = layer.slot state' := by
  refine List.ext_getElem? fun i => ?_
  rw [slot_getElem?, slot_getElem?, stateBytes_write, write_getElem?]
  split
  · rename_i hi
    -- the byte lies before the written slot or behind it
    have hout : ¬ (state * layer.stateBytes ≤ state' * layer.stateBytes + i ∧
        state' * layer.stateBytes + i < (state + 1) * layer.stateBytes) := by
      rintro ⟨_, hlt⟩
      rcases Nat.lt_or_gt_of_ne h with hbefore | hbehind
      · have := Nat.mul_le_mul_right layer.stateBytes hbefore
        rw [Nat.succ_mul] at this
        omega
      · have := Nat.mul_le_mul_right layer.stateBytes hbehind
        rw [Nat.succ_mul] at this
        rw [Nat.add_mul, Nat.one_mul] at hlt
        omega
    simp only [if_neg hout, Option.map_id']
  · rfl

end StateLayer

namespace StateStorage

section Loop

variable {numStates : Nat} (bytes : StateLayer numStates → List UInt8) (state : Nat)
  (device : Device)

theorem writeLayers_length (call : Nat) (layers : List (StateLayer numStates)) :
    (writeLayers bytes state device call layers).2.length = layers.length := by
  induction layers generalizing call with
  | nil => rfl
  | cons _ _ ih =>
    rw [writeLayers]
    cases device call with
    | none => exact congrArg (· + 1) (ih (call + 1))
    | some => rfl

/-- A write succeeds if the device serves every layer. -/
theorem writeLayers_ok_iff (call : Nat) (layers : List (StateLayer numStates)) :
    (writeLayers bytes state device call layers).1 = .ok () ↔
      ∀ i < layers.length, device (call + i) = none := by
  induction layers generalizing call with
  | nil => exact ⟨fun _ i hi => absurd hi (Nat.not_lt_zero i), fun _ => rfl⟩
  | cons _ _ ih =>
    rw [writeLayers]
    cases hcall : device call with
    | some =>
      constructor
      · intro h
        cases h
      · intro h
        have hnone := h 0 (Nat.zero_lt_succ _)
        rw [Nat.add_zero, hcall] at hnone
        cases hnone
    | none =>
      refine (ih (call + 1)).trans ⟨fun h i hi => ?_, fun h i hi => ?_⟩
      · cases i with
        | zero => exact hcall
        | succ i =>
          have hnone := h i (Nat.lt_of_succ_lt_succ hi)
          rwa [Nat.add_right_comm] at hnone
      · rw [Nat.add_right_comm]
        exact h (i + 1) (Nat.succ_lt_succ hi)

/-- No layer touches another state. -/
theorem writeLayers_slot_ne {state' : Nat} (h : state' ≠ state) (call : Nat)
    (layers : List (StateLayer numStates)) :
    (writeLayers bytes state device call layers).2.map (·.slot state') =
      layers.map (·.slot state') := by
  induction layers generalizing call with
  | nil => rfl
  | cons layer _ ih =>
    rw [writeLayers]
    cases device call with
    | none => simp only [List.map_cons, layer.slot_write_ne h, ih]
    | some => simp only [List.map_cons, layer.slot_write_ne h]

/-- A loop without failure writes the slot of every tensor. -/
theorem writeLayers_slot (hstate : state < numStates)
    (hlen : ∀ layer, (bytes layer).length = layer.stateBytes) (call : Nat)
    (layers : List (StateLayer numStates))
    (hok : (writeLayers bytes state device call layers).1 = .ok ()) :
    (writeLayers bytes state device call layers).2.map (·.slot state) = layers.map bytes := by
  induction layers generalizing call with
  | nil => rfl
  | cons layer _ ih =>
    rw [writeLayers] at hok ⊢
    cases hcall : device call with
    | some =>
      rw [hcall] at hok
      cases hok
    | none =>
      rw [hcall] at hok
      simp only [List.map_cons, layer.slot_write_self hstate (hlen layer), ih (call + 1) hok]

end Loop

section Create

variable {config : ModelConfig} {maxStates : Int} {device : Result Unit}

/-- A created storage has the states that were asked for, and two tensors for each GDN layer. -/
theorem create_eq_ok {storage : StateStorage} (h : create config maxStates device = .ok storage) :
    storage.numStates = maxStates.toNat ∧ storage.recurrentLayers.length = countGdnLayers config ∧
      storage.convLayers.length = countGdnLayers config := by
  unfold create at h
  split at h
  · cases h
  · simp only at h
    split at h
    · cases h
    · obtain ⟨_, -, h⟩ := Fallible.bind_eq_ok_iff.mp h
      obtain ⟨_, -, h⟩ := Fallible.bind_eq_ok_iff.mp h
      obtain ⟨-, -, h⟩ := Fallible.bind_eq_ok_iff.mp h
      obtain rfl := Except.ok.inj h
      exact ⟨rfl, List.length_replicate, List.length_replicate⟩

variable (config maxStates) in
/-- The sizes of the two tensors are positive, and their bytes can be counted. -/
def Sized : Prop :=
  (∀ dim ∈ recurrentShape config maxStates ++ convShape config maxStates, 0 < dim) ∧
    (recurrentShape config maxStates).prod * 4 ≤ sizeMax ∧
    (convShape config maxStates).prod * 2 ≤ sizeMax

theorem sized_iff : Sized config maxStates ↔
    (∃ n, checkedNbytesDense 4 .float32 (recurrentShape config maxStates) = .ok n) ∧
      ∃ n, checkedNbytesDense 4 .bfloat16 (convShape config maxStates) = .ok n := by
  have hrecurrent : recurrentShape config maxStates ≠ [] ∧
      (recurrentShape config maxStates).length ≤ 4 := ⟨List.cons_ne_nil _ _, le_rfl⟩
  have hconv : convShape config maxStates ≠ [] ∧ (convShape config maxStates).length ≤ 4 :=
    ⟨List.cons_ne_nil _ _, Nat.le_succ 3⟩
  rw [exists_checkedNbytesDense_iff, exists_checkedNbytesDense_iff, Sized, List.forall_mem_append]
  simp only [hrecurrent, hconv, DType.size]
  tauto

/-- The storage of a Qwen3.5 model is created exactly if there is a GDN layer, the sizes are those
of a tensor and the device grants them. -/
theorem exists_create_iff (harch : config.arch = .qwen35) :
    (∃ storage, create config maxStates device = .ok storage) ↔
      0 < countGdnLayers config ∧ Sized config maxStates ∧ device = .ok () := by
  rw [sized_iff, create]
  by_cases hstates : maxStates ≤ 0
  · rw [if_pos (Or.inr hstates)]
    refine iff_of_false (fun ⟨_, h⟩ => by cases h) ?_
    rintro ⟨-, ⟨⟨_, hn⟩, -⟩, -⟩
    have hpos := (checkedNbytesDense_eq_ok_iff.mp hn).2.1 maxStates List.mem_cons_self
    omega
  · rw [if_neg (by simp [harch, hstates])]
    simp only
    by_cases hlayers : countGdnLayers config = 0
    · rw [if_pos hlayers]
      exact iff_of_false (fun ⟨_, h⟩ => by cases h) fun h => by omega
    · rw [if_neg hlayers]
      simp only [Fallible.bind_eq_ok_iff]
      constructor
      · rintro ⟨_, recurrentBytes, hrecurrent, convBytes, hconv, _, hdevice, -⟩
        exact ⟨by omega, ⟨⟨recurrentBytes, hrecurrent⟩, convBytes, hconv⟩, hdevice⟩
      · rintro ⟨-, ⟨⟨recurrentBytes, hrecurrent⟩, convBytes, hconv⟩, hdevice⟩
        exact ⟨_, recurrentBytes, hrecurrent, convBytes, hconv, (), hdevice, rfl⟩

end Create

/-- Another storage of the same size with the same states, up to one. -/
structure OnlyState (storage storage' : StateStorage) (state : Nat) : Prop where
  numStates : storage'.numStates = storage.numStates
  numLayers : storage'.numLayers = storage.numLayers
  content : ∀ state' ≠ state, storage'.content state' = storage.content state'

variable (storage : StateStorage)

/-- A write touches one state, failed or not. -/
theorem writeState_only (bytes : StateLayer storage.numStates → List UInt8) (state : Nat)
    (device : Device) : OnlyState storage (storage.writeState bytes state device).2 state := by
  have hlen := writeLayers_length bytes state device
  have hslots := fun state' (h : state' ≠ state) => writeLayers_slot_ne bytes state device h
  unfold writeState
  split
  · rename_i err recurrent hloop
    have hlen := hlen 0 storage.recurrentLayers
    have hslots := fun state' h => hslots state' h 0 storage.recurrentLayers
    rw [hloop] at hlen hslots
    exact ⟨rfl, by rw [numLayers, numLayers, hlen],
      fun state' h => by simp only [content, List.map_append, hslots state' h]⟩
  · rename_i recurrent hloop
    have hlen' := hlen 0 storage.recurrentLayers
    have hslots' := fun state' h => hslots state' h 0 storage.recurrentLayers
    rw [hloop] at hlen' hslots'
    refine ⟨rfl, by simp only [numLayers]; rw [hlen', hlen], fun state' h => ?_⟩
    simp only [content, List.map_append]
    rw [hslots' state' h, hslots state' h]

/-- It succeeds if the device serves every call. -/
theorem writeState_ok_iff (bytes : StateLayer storage.numStates → List UInt8) (state : Nat)
    (device : Device) :
    (storage.writeState bytes state device).1 = .ok () ↔ device.Serves storage.numLayers := by
  have hrecurrent := writeLayers_ok_iff bytes state device 0 storage.recurrentLayers
  have hconv := writeLayers_ok_iff bytes state device storage.recurrentLayers.length
    storage.convLayers
  simp only [Nat.zero_add] at hrecurrent
  unfold writeState
  split
  · rename_i err recurrent hloop
    rw [hloop] at hrecurrent
    constructor
    · intro h
      cases h
    · intro hserves
      exact nomatch hrecurrent.mpr fun i hi => hserves i (Nat.lt_add_right _ hi)
  · rename_i recurrent hloop
    rw [hloop] at hrecurrent
    refine hconv.trans ⟨fun h call hcall => ?_, fun hserves i hi => hserves _ ?_⟩
    · rcases Nat.lt_or_ge call storage.recurrentLayers.length with hlt | hge
      · exact hrecurrent.mp rfl call hlt
      · obtain ⟨i, rfl⟩ := Nat.exists_eq_add_of_le hge
        exact h i (Nat.lt_of_add_lt_add_left hcall)
    · exact Nat.add_lt_add_left hi _

/-- Then the state holds what was written. -/
theorem writeState_content {bytes : StateLayer storage.numStates → List UInt8} {state : Nat}
    (hstate : state < storage.numStates)
    (hlen : ∀ layer, (bytes layer).length = layer.stateBytes) {device : Device}
    (hok : (storage.writeState bytes state device).1 = .ok ()) :
    (storage.writeState bytes state device).2.content state =
      (storage.recurrentLayers ++ storage.convLayers).map bytes := by
  have hslots := writeLayers_slot bytes state device hstate hlen
  unfold writeState at hok ⊢
  split at hok
  · cases hok
  · rename_i recurrent hloop
    have hslots' := hslots 0 storage.recurrentLayers
    rw [hloop] at hslots'
    simp only [content, List.map_append]
    rw [hslots' rfl, hslots _ _ hok]

/-- A forward pass overwrites one state. -/
theorem overwrite_only (state : Nat) (recurrent conv : Nat → List UInt8) :
    OnlyState storage (storage.overwrite state recurrent conv) state where
  numStates := rfl
  numLayers := by simp only [numLayers, overwrite, List.length_mapIdx]
  content := fun state' h => by
    have hlayers : ∀ (layers : List (StateLayer storage.numStates)) (bytes : Nat → List UInt8),
        (layers.mapIdx fun i layer => layer.write state (bytes i)).map (·.slot state') =
          layers.map (·.slot state') := by
      intro layers bytes
      refine List.ext_getElem? fun i => ?_
      rw [List.getElem?_map, List.getElem?_mapIdx, List.getElem?_map, Option.map_map]
      exact congrArg (Option.map · _) (funext fun layer => layer.slot_write_ne h (bytes i))
    rw [content, content, List.map_append, List.map_append]
    exact congrArg₂ (· ++ ·) (hlayers _ recurrent) (hlayers _ conv)

/-- Every byte of a content is zero. -/
def AllZero (content : List (List UInt8)) : Prop := ∀ slot ∈ content, ∀ byte ∈ slot, byte = 0

/-- `zero_state` changes its state only, and zeroes it unless a device call fails. -/
theorem zeroState_spec {state : Nat} (hstate : state < storage.numStates) (device : Device) :
    OnlyState storage (storage.zeroState state device).2 state ∧
      ((storage.zeroState state device).1 = .ok () ↔ device.Serves storage.numLayers) ∧
      ((storage.zeroState state device).1 = .ok () →
        AllZero ((storage.zeroState state device).2.content state)) := by
  have hrange : ¬ ((state : Int) < 0 ∨ (storage.numStates : Int) ≤ state) := by omega
  rw [zeroState, if_neg hrange, Int.toNat_natCast]
  refine ⟨writeState_only .., writeState_ok_iff .., fun hok => ?_⟩
  rw [storage.writeState_content hstate (fun layer => List.length_replicate) hok]
  intro slot hslot byte hbyte
  obtain ⟨_, -, rfl⟩ := List.mem_map.mp hslot
  exact List.eq_of_mem_replicate hbyte

/-- `copy_state` changes its destination only, which is the source then unless a device call
fails. -/
theorem copyState_spec {src dst : Nat} (hsrc : src < storage.numStates)
    (hdst : dst < storage.numStates) (device : Device) :
    OnlyState storage (storage.copyState src dst device).2 dst ∧
      ((storage.copyState src dst device).1 = .ok () ↔ device.Serves storage.numLayers) ∧
      ((storage.copyState src dst device).1 = .ok () →
        (storage.copyState src dst device).2.content dst = storage.content src) := by
  have hrange : ¬ ((src : Int) < 0 ∨ (storage.numStates : Int) ≤ src ∨ (dst : Int) < 0 ∨
      (storage.numStates : Int) ≤ dst) := by omega
  rw [copyState, if_neg hrange, Int.toNat_natCast, Int.toNat_natCast]
  exact ⟨writeState_only .., writeState_ok_iff .., fun hok =>
    storage.writeState_content hdst (fun layer => layer.slot_length hsrc) hok⟩

end StateStorage

end CcInfer.Gdn
