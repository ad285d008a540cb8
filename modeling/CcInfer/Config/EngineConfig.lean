import CcInfer.Base.Types

/-!
# `CcInfer.Config.EngineConfig`: the resource limits and their validation

The embedding of `config/engine_config.cpp`. `EngineConfig` is the record as the command
line fills it, with signed fields. `main` calls `validate` and stops on an error, so the
Scheduler only ever sees a record that passed. `ValidConfig` is such a record: natural
numbers together with the facts `validate` established, so that no later proof has to
carry them as hypotheses.
-/

set_option autoImplicit false

namespace CcInfer

/-- `EngineConfig`. -/
structure EngineConfig where
  deviceId : Int := 0
  maxBlocks : Int := 1024
  kvBlockSize : Int := 128
  maxSequences : Int := 64
  maxRunningRequests : Int := 16
  maxConcurrentBatches : Int := 2
  maxPendingRequests : Int := 256
  maxTokenBudget : Int := 4096
  maxSeqPrefillTokens : Int := 512
  defaultMaxContextLen : Int := 2048
  statePrefixCacheBlocks : Int := 3
  deriving DecidableEq, Repr

/-- `EngineConfig::validate`. -/
def EngineConfig.validate (c : EngineConfig) : Result Unit :=
  if c.deviceId < 0 ∨ c.maxBlocks ≤ 0 ∨ c.kvBlockSize ≤ 0 ∨ c.maxSequences ≤ 0 ∨
      c.maxRunningRequests ≤ 0 ∨ c.maxRunningRequests > c.maxSequences ∨
      c.maxConcurrentBatches ≤ 0 ∨ c.maxPendingRequests ≤ 0 ∨ c.maxTokenBudget ≤ 0 ∨
      c.maxSeqPrefillTokens < 0 ∨ c.defaultMaxContextLen ≤ 0 ∨ c.statePrefixCacheBlocks < 0 then
    .error .invalidArgument
  else
    let maxContextCapacity := c.maxBlocks * c.kvBlockSize
    if maxContextCapacity ≤ 0 ∨ maxContextCapacity > 2 ^ 31 - 1 ∨
        c.defaultMaxContextLen > maxContextCapacity then
      .error .invalidArgument
    else .ok ()

/-- A configuration that passed `validate`, with the fields the Scheduler reads. -/
structure ValidConfig where
  maxBlocks : Nat
  kvBlockSize : Nat
  maxSequences : Nat
  maxRunningRequests : Nat
  maxConcurrentBatches : Nat
  maxPendingRequests : Nat
  maxTokenBudget : Nat
  maxSeqPrefillTokens : Nat
  defaultMaxContextLen : Nat
  maxBlocks_pos : 0 < maxBlocks
  kvBlockSize_pos : 0 < kvBlockSize
  maxRunning_pos : 0 < maxRunningRequests
  maxRunning_le : maxRunningRequests ≤ maxSequences
  maxConcurrentBatches_pos : 0 < maxConcurrentBatches
  maxPending_pos : 0 < maxPendingRequests
  maxTokenBudget_pos : 0 < maxTokenBudget
  defaultMaxContextLen_pos : 0 < defaultMaxContextLen
  defaultMaxContextLen_le : defaultMaxContextLen ≤ maxBlocks * kvBlockSize
  capacity_le : maxBlocks * kvBlockSize ≤ 2 ^ 31 - 1

/-- The facts behind a successful `validate`, as one conjunction over the signed fields. -/
theorem EngineConfig.validate_ok {c : EngineConfig} (h : c.validate = .ok ()) :
    (0 < c.maxBlocks ∧ 0 < c.kvBlockSize ∧ 0 < c.maxSequences ∧ 0 < c.maxRunningRequests ∧
      c.maxRunningRequests ≤ c.maxSequences ∧ 0 < c.maxConcurrentBatches ∧
      0 < c.maxPendingRequests ∧ 0 < c.maxTokenBudget ∧ 0 ≤ c.maxSeqPrefillTokens ∧
      0 < c.defaultMaxContextLen) ∧ c.defaultMaxContextLen ≤ c.maxBlocks * c.kvBlockSize ∧
    c.maxBlocks * c.kvBlockSize ≤ 2 ^ 31 - 1 := by
  unfold validate at h
  split at h
  · cases h
  · rename_i hfields
    simp only at h
    split at h
    · cases h
    · rename_i hcapacity
      simp only [not_or, not_lt, not_le] at hfields hcapacity
      omega

/-- The configuration the Scheduler is constructed with, once `main` has validated it. -/
def EngineConfig.toValid (c : EngineConfig) (h : c.validate = .ok ()) : ValidConfig :=
  have hv := validate_ok h
  -- `toNat` is faithful here, as the two factors of the capacity are positive.
  have hmul : (c.maxBlocks.toNat * c.kvBlockSize.toNat : Nat) =
      (c.maxBlocks * c.kvBlockSize).toNat := by
    rw [Int.toNat_mul (by omega) (by omega)]
  { maxBlocks := c.maxBlocks.toNat
    kvBlockSize := c.kvBlockSize.toNat
    maxSequences := c.maxSequences.toNat
    maxRunningRequests := c.maxRunningRequests.toNat
    maxConcurrentBatches := c.maxConcurrentBatches.toNat
    maxPendingRequests := c.maxPendingRequests.toNat
    maxTokenBudget := c.maxTokenBudget.toNat
    maxSeqPrefillTokens := c.maxSeqPrefillTokens.toNat
    defaultMaxContextLen := c.defaultMaxContextLen.toNat
    maxBlocks_pos := by omega
    kvBlockSize_pos := by omega
    maxRunning_pos := by omega
    maxRunning_le := by omega
    maxConcurrentBatches_pos := by omega
    maxPending_pos := by omega
    maxTokenBudget_pos := by omega
    defaultMaxContextLen_pos := by omega
    defaultMaxContextLen_le := by rw [hmul]; omega
    capacity_le := by rw [hmul]; omega }

end CcInfer
