import CcInfer.Model.RopeTable
import CcInfer.Proofs.Checkpoint.GgufLoaders
import CcInfer.Proofs.Checkpoint.GgufReserve
import CcInfer.Proofs.Checkpoint.SafetensorsCopy
import CcInfer.Proofs.Checkpoint.TensorData
import CcInfer.Proofs.Engine.Conservation
import CcInfer.Proofs.Engine.Contents
import CcInfer.Proofs.Engine.Events
import CcInfer.Proofs.Engine.Failures
import CcInfer.Proofs.Engine.Idle
import CcInfer.Proofs.Engine.Indexes
import CcInfer.Proofs.Engine.LateBinding
import CcInfer.Proofs.Engine.ModelRange
import CcInfer.Proofs.Engine.Publication
import CcInfer.Proofs.Engine.Releases
import CcInfer.Proofs.Engine.Reservations
import CcInfer.Proofs.Engine.Shutdown
import CcInfer.Proofs.Engine.Termination
import CcInfer.Proofs.Http.ContentLength
import CcInfer.Proofs.Http.Framing
import CcInfer.Proofs.Http.Streaming
import CcInfer.Proofs.Kv.Provenance
import CcInfer.Proofs.Kv.Salt
import CcInfer.Proofs.Model.LayerIndices
import CcInfer.Proofs.Quant.Bfloat16
import CcInfer.Proofs.Quant.Half
import CcInfer.Proofs.State.FailedSnapshot
import CcInfer.Proofs.Tokenizer.Boundary
import CcInfer.Proofs.Tokenizer.Loaders
import CcInfer.Proofs.Tokenizer.Merges
import CcInfer.Proofs.Tokenizer.SpecialText
import CcInfer.Proofs.Worker.Handoff
import CcInfer.Proofs.Worker.Routing
import CcInfer.Proofs.Http.ServerShutdown
