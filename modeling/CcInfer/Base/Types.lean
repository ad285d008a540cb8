import Mathlib.Data.Rat.Defs
import Mathlib.Algebra.Order.Ring.Rat

/-!
# `CcInfer.Base.Types`: the values that cross component boundaries

The embedding of `base/error.h`, `base/types.h` and `block/block_table.h`: error codes,
work items, batches, their results, and the request that the HTTP side hands to the
Scheduler. The rest of the development speaks about these types only.
-/

set_option autoImplicit false

namespace CcInfer

/-- `static_cast<int32_t>`. It is also what an `int` operation with the exact result `n` leaves: a
sum that does not fit wraps. -/
def toInt32 (n : Int) : Int := (BitVec.ofInt 32 n).toInt

/-- What fits an `int` is kept. -/
theorem toInt32_of_fits {n : Int} (hlo : -2 ^ 31 ≤ n) (hhi : n < 2 ^ 31) : toInt32 n = n := by
  rw [toInt32, BitVec.toInt_ofInt]
  exact Int.bmod_eq_of_le hlo hhi

/-- `int32_t` token ids. -/
abbrev Token := BitVec 32

/-- `SequenceId`: the key of a scheduling state, fresh at every admission. -/
abbrev SequenceId := Nat

/-- `BlockId`: an index into the metadata array of `BlockPool`. -/
abbrev BlockId := Nat

/-- `BlockTable`: the block ids of a sequence, in position order. The `shared_count_` hint
is left out, as no modelled function reads it. -/
abbrev BlockTable := List BlockId

/-- `BlockTable::token_capacity`. -/
def BlockTable.tokenCapacity (table : BlockTable) (blockSize : Nat) : Nat :=
  table.length * blockSize

/-- `ErrorCode` of `base/error.h`. -/
inductive ErrorCode
  | ok
  | cudaOutOfMemory
  | cudaLaunchFailed
  | cudaInvalidValue
  | cudaRuntimeError
  | cublasError
  | invalidArgument
  | modelLoadFailed
  | modelConfigInvalid
  | modelShapeMismatch
  | modelUnsupportedArch
  | modelUnsupportedDType
  | kvBlockExhausted
  | requestTooLong
  | requestCancelled
  | serverShuttingDown
  | maxSequencesReached
  | requestQueueFull
  | channelClosed
  | channelCancelled
  | channelError
  | networkBindFailed
  | unsupported
  | internalError
  deriving DecidableEq, Repr

/-- `Result<T>`, that is `std::expected<T, ErrorCode>`. -/
abbrev Result (α : Type) := Except ErrorCode α

/-- The `assert` statements of the modelled functions, one constructor per statement. -/
inductive AssertSite
  /-- `BlockPool::allocate`: the popped block is free with no reference. -/
  | allocateFree
  /-- `BlockPool::allocate_blocks`: at least one block is asked for. -/
  | allocateCount
  /-- `BlockPool::retain_request`: the block is in the pool, in use and referenced. -/
  | retainReferenced
  /-- `BlockPool::release_request`: the block is in the pool, in use and referenced. -/
  | releaseReferenced
  /-- `BlockPool::recycle`: the block is in the pool, in use and unreferenced. -/
  | recycleUnreferenced
  /-- `BlockCache::lookup_prefix_cache`: there are tokens, and blocks have a size. -/
  | lookupTokens
  /-- `BlockCache::lookup_prefix_cache`: the hit entry is indexed by its block. -/
  | lookupIndexed
  /-- `BlockCache::lookup_prefix_cache`: an unreferenced hit is in the idle LRU. -/
  | lookupIdle
  /-- `BlockCache::publish_full_block`: the tokens fill a block. -/
  | publishFull
  /-- `BlockCache::publish_full_block`: a cached block keeps its hash. -/
  | publishSameHash
  /-- `BlockCache::publish_full_block`: the block is in the pool and somebody owns it. -/
  | publishOwned
  /-- `BlockCache::mark_idle`: the block is cached, unreferenced and not yet idle. -/
  | markIdle
  /-- `BlockCache::evict_one`: the victim is unreferenced. -/
  | evictUnreferenced
  /-- `BlockCache::erase_entry`: the entry is in both indexes. -/
  | eraseEntryIndexed
  /-- `admit_one_waiting`: "a scheduled request should never be in waiting_". -/
  | admitUnscheduled
  /-- `erase_request`: "release_scheduling_blocks must be called before erase". -/
  | eraseUnscheduled
  /-- `build_state_work`: a Bootstrap decode has a prompt token to read. -/
  | bootstrapPrompt
  /-- `update_from_output`: the result matches the batch, entry by entry. -/
  | outputMatchesBatch
  /-- `retire_work`: the chunk result continues the prefill cursor. -/
  | retireCursor
  /-- `retire_work`: a chunk before the last one samples nothing. -/
  | retireNoSample
  /-- `retire_work`: the last chunk samples, unless it replays. -/
  | retireSampled
  /-- `retire_work`: a decode consumes one token. -/
  | retireDecode
  /-- `retire_work`: the published block index is inside the table. -/
  | publishIndex
  /-- `resolve_batch`: a late-bound token was produced by an earlier batch. -/
  | lateBound
  deriving DecidableEq, Repr

/-- `WorkKind`. -/
inductive WorkKind
  | prefillChunk
  | decodeOneToken
  deriving DecidableEq, Repr

/-- `RequestStatus`: the lifecycle of a request in the Scheduler. -/
inductive RequestStatus
  | active
  | finished
  | cancelled
  | failed
  deriving DecidableEq, Repr

/-- `TokenSpan`. -/
structure TokenSpan where
  start : Nat
  length : Nat
  deriving DecidableEq, Repr

/-- `PrefillChunk`. -/
structure PrefillChunk where
  seqId : SequenceId
  promptSpan : TokenSpan
  expectedContextLen : Option Nat
  needsSample : Bool
  tokens : List Token
  blockTable : BlockTable
  deriving DecidableEq, Repr

/-- `DecodeOneToken`. A Bootstrap decode has `writeKv = false`: it samples from the last
cached prompt token and writes nothing. -/
structure DecodeOneToken where
  seqId : SequenceId
  inputToken : Token
  expectedContextLen : Option Nat
  writeKv : Bool
  lateBind : Bool
  blockTable : BlockTable
  deriving DecidableEq, Repr

/-- `WorkItem`. -/
inductive WorkItem
  | prefill (work : PrefillChunk)
  | decode (work : DecodeOneToken)
  deriving DecidableEq, Repr

namespace WorkItem

/-- `work_sequence_id`. -/
def seqId : WorkItem → SequenceId
  | prefill w => w.seqId
  | decode w => w.seqId

/-- `work_kind`. -/
def kind : WorkItem → WorkKind
  | prefill _ => .prefillChunk
  | decode _ => .decodeOneToken

/-- `work_token_count`. -/
def tokenCount : WorkItem → Nat
  | prefill w => w.promptSpan.length
  | decode _ => 1

/-- The prompt tokens that the item consumes. -/
def promptTokenCount : WorkItem → Nat
  | prefill w => w.promptSpan.length
  | decode _ => 0

/-- `kv_token_count` of `scheduler.cpp`: the positions the item writes. -/
def kvTokenCount : WorkItem → Nat
  | prefill w => w.promptSpan.length
  | decode w => if w.writeKv then 1 else 0

/-- `expected_context_len.value_or(0)`, read by the translator and by `retire_work`. -/
def context : WorkItem → Nat
  | prefill w => w.expectedContextLen.getD 0
  | decode w => w.expectedContextLen.getD 0

/-- The item's snapshot of the block table. -/
def blockTable : WorkItem → BlockTable
  | prefill w => w.blockTable
  | decode w => w.blockTable

/-- `sample_flags` of the translator: a chunk samples when it says so, a decode always. -/
def samples : WorkItem → Bool
  | prefill w => w.needsSample
  | decode _ => true

end WorkItem

/-- `SamplingParams`. The `seed` is left out, as nothing reads it; `top_p` and
`temperature` are finite floats and only compared, so they are rationals. -/
structure SamplingParams where
  maxTokens : Int := 256
  topK : Int := 0
  topP : Rat := 1
  temperature : Rat := 0
  eosTokenId : Token := -1
  deriving DecidableEq, Repr

/-- The `greedy` test of `ModelRunner::inference`. -/
def SamplingParams.greedy (p : SamplingParams) : Bool :=
  p.topK == 0 && decide (1 ≤ p.topP) && decide (p.temperature ≤ 0)

/-- The end-of-sequence test of `ModelRunner::inference`; a negative id disables it. -/
def SamplingParams.isEos (p : SamplingParams) (token : Token) : Bool :=
  decide (0 ≤ p.eosTokenId.toInt) && token == p.eosTokenId

/-- `ScheduledBatch`. -/
structure ScheduledBatch where
  batchId : Nat
  items : List WorkItem
  sampling : SamplingParams
  deriving DecidableEq, Repr

/-- `WorkItemResult`. -/
structure WorkItemResult where
  itemIndex : Nat
  seqId : SequenceId
  kind : WorkKind
  sampledTokens : List Token
  tokensConsumed : Nat
  eos : Bool
  stale : Bool
  deriving DecidableEq, Repr

/-- `BatchResult`. -/
structure BatchResult where
  batchId : Nat
  items : List WorkItemResult
  deriving DecidableEq, Repr

/-- `GeneratedToken`. -/
structure GeneratedToken where
  tokenId : Token := -1
  hasToken : Bool := false
  finished : Bool := false
  deriving DecidableEq, Repr

/-- What `send_event` carries to a sink. -/
abbrev SinkEvent := Result GeneratedToken

/-- `SchedulerRequest`. The sink is identified with the request it belongs to. -/
structure SchedulerRequest where
  requestId : String
  promptTokens : List Token
  sampling : SamplingParams
  maxContextLen : Int := 0
  deriving DecidableEq, Repr

end CcInfer
