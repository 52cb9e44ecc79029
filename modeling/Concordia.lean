import Concordia.Lib.LittleEndian
import Concordia.Lib.Framing
import Concordia.Lib.FoldHash
import Concordia.Lib.Writer
import Concordia.Lib.Overwrite
import Concordia.Lib.Keyed
import Concordia.Lib.TSys
import Concordia.Lib.Fallible
import Concordia.Lib.Paged
import Concordia.Lib.Ring
import Concordia.Lib.Bitmap
import Concordia.Aof.Record
import Concordia.Aof.Log
import Concordia.Aof.Durability
import Concordia.Delta.State
import Concordia.Delta.Pages
import Concordia.Delta.Replay
import Concordia.Runtime.Basic
import Concordia.Runtime.Session
import Concordia.Runtime.Soundness
import Concordia.Runtime.Faults
import Concordia.Runtime.Reopen
import Concordia.Runtime.Restore
import Concordia.Gpu.Kernel
import Concordia.Gpu.OneBlock
import Concordia.Gpu.Blocks
import Concordia.Kimi.Manager
import Concordia.Kimi.Regions
import Concordia.Kimi.Identity
import Concordia.Kimi.Orderly
import Concordia.Kimi.Relocation
import Concordia.Kimi.Device
import Concordia.Kimi.DirtyScan
import Concordia.Kimi.Effects
import Concordia.Kimi.Checkpoint
import Concordia.Kimi.KvRestore
import Concordia.Nccl.Recovery
import Concordia.Nccl.Rendezvous
import Concordia.Nccl.Agreement
import Concordia.Replay.Snapshot
import Concordia.Replay.Regions
import Concordia.Replay.Reconstruct
import Concordia.Replay.Validate
import Concordia.Replay.Recording
import Concordia.Lib.Lts
import Concordia.Ptx.BasicBlocks
import Concordia.Ptx.Blocks
import Concordia.Ptx.NormalForm
import Concordia.Ptx.Normalize
import Concordia.Sass.Types
import Concordia.Lib.FirstFit
import Concordia.Sass.Regalloc
import Concordia.Sass.LinearScan
import Concordia.Sass.Allocation
import Concordia.Sass.Scheduler
import Concordia.Sass.Hazards
import Concordia.Sass.Isel
import Concordia.Lib.BitFields
import Concordia.Sass.Encoding
import Concordia.Sass.Selected
import Concordia.Sass.Disassembler
import Concordia.Sass.RoundTrip
import Concordia.Lib.Extents
import Concordia.Vmm.State
import Concordia.Vmm.Bookkeeping
import Concordia.Lib.Text
import Concordia.Tmatmul.Interpreter
import Concordia.Tmatmul.Codegen
import Concordia.Tmatmul.Assembly
import Concordia.Tmatmul.Allocator
import Concordia.Tmatmul.Dataflow
import Concordia.Tmatmul.Spilling
import Concordia.Lib.Liveness
import Concordia.Runtime.DeltaHistory
import Concordia.Runtime.FailedRestore
import Concordia.Lib.Align
import Concordia.Lib.Transducer
import Concordia.Instrument.LiveState
import Concordia.Instrument.SafePoints
import Concordia.Instrument.Agreement
import Concordia.Instrument.EntryBodies
import Concordia.Lifter.Operand
import Concordia.Lifter.Ptx
import Concordia.Lifter.Lower
import Concordia.Lib.Accumulate
import Concordia.Lifter.Declared
import Concordia.Lifter.Pairs
import Concordia.Lifter.Spelling
import Concordia.Lifter.Predicates
import Concordia.Lib.Fields
import Concordia.Instrument.CtxResume
import Concordia.Lib.Chunks
import Concordia.Checkpoint.BlockState
import Concordia.Nccl.ActiveRing
import Concordia.Lib.Template
import Concordia.Lib.UnixPath
import Concordia.Runtime.RankPath
import Concordia.Lib.FnMap
import Concordia.Replay.Player
import Concordia.Replay.Buffers
import Concordia.Replay.Seek
import Concordia.Replay.Remap
import Concordia.Replay.ReplayAll
import Concordia.Replay.Reset
import Concordia.Replay.Debug
import Concordia.GpuRr.Recorder
import Concordia.GpuRr.Replayer
import Concordia.GpuRr.Breakpoints
import Concordia.Cuda.ContextStack
import Concordia.Lib.Bfs
import Concordia.Modes.Unreachable
import Concordia.Ptx.Predicates
import Concordia.Ptx.PredicateTraces
import Concordia.Debug.SassPtxMapper
import Concordia.Modes.Statements
import Concordia.Sass.PtxSubset
import Concordia.Host.StreamK
import Concordia.Host.Bindings
import Concordia.Lifter.BasicBlocks
import Concordia.Host.PtxText
import Concordia.Gpu.Counters
import Concordia.Lib.Leb128
import Concordia.Debug.Dwarf
