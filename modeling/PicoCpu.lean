import PicoCpu.Word
import PicoCpu.Alu
import PicoCpu.Ir
import PicoCpu.Cpu
import PicoCpu.Flags
import PicoCpu.FlagsEager
import PicoCpu.Lib.Granule
import PicoCpu.Lib.GranuleCache
import PicoCpu.Lib.Piecewise
import PicoCpu.Memory.Provider
import PicoCpu.Memory.DirectMapped
import PicoCpu.Memory.L3Cache
import PicoCpu.Memory.ShadowPages
import PicoCpu.Memory.Overlay
import PicoCpu.Memory.Chain
import PicoCpu.Lib.Effect
import PicoCpu.Machine
import PicoCpu.Handlers.Operand
import PicoCpu.Handlers.DataMov
import PicoCpu.Handlers.Arithmetic
import PicoCpu.Handlers.Logical
import PicoCpu.Handlers.ShiftRotate
import PicoCpu.Handlers.BitManip
import PicoCpu.Handlers.ControlFlow
import PicoCpu.Handlers.StringOps
import PicoCpu.HostFp
import PicoCpu.Handlers.Lanes
import PicoCpu.Handlers.Misc
import PicoCpu.Handlers.Sse
import PicoCpu.Handlers.SseFp
import PicoCpu.Handlers.Sse4Aes
import PicoCpu.Handlers.X87
import PicoCpu.Handlers.Bmi
import PicoCpu.Handlers.Phase10
import PicoCpu.Handlers.Avx
import PicoCpu.Handlers.Avx512
import PicoCpu.Handlers.Gather
import PicoCpu.Lib.Parse
import PicoCpu.Decoder.Prefixes
import PicoCpu.Decoder.TwoByte
import PicoCpu.Decoder.Vex
import PicoCpu.Decoder.Decode
import PicoCpu.Decoder.Bound
import PicoCpu.Decoder.Shape
import PicoCpu.BlockCache
import PicoCpu.Execute
import PicoCpu.Decoder.Clauses
import PicoCpu.Decoder.Accepted
import PicoCpu.Normal
import PicoCpu.Peephole
import PicoCpu.AluExact
import PicoCpu.StringPrefixes
import PicoCpu.Lib.Related
import PicoCpu.Lib.NearestEven
import PicoCpu.SoftFloat.Wide
import PicoCpu.SoftFloat.Float80
import PicoCpu.SoftFloat.Contract
import PicoCpu.SoftFloat.AddSub
import PicoCpu.SoftFloat.MulDiv
import PicoCpu.SoftFloat.Special
import PicoCpu.Oblivious
import PicoCpu.Memory.FakeMemory
import PicoCpu.Memory.CacheErrors
import PicoCpu.Memory.FailedReads
import PicoCpu.Memory.Protection
import PicoCpu.Memory.Heap
import PicoCpu.Memory.StubHeap
import PicoCpu.Decoder.EntryPoints
import PicoCpu.Oblivious.Integer
import PicoCpu.Oblivious.Flow
import PicoCpu.Oblivious.Vector
import PicoCpu.Oblivious.Handlers
import PicoCpu.Snapshot
import PicoCpu.Transparency
import PicoCpu.LazySync
import PicoCpu.Rewind
import PicoCpu.CodeCache
import PicoCpu.Discipline
import PicoCpu.Discipline.Scalar
import PicoCpu.Discipline.Vector
import PicoCpu.Discipline.Handlers
import PicoCpu.Faults
import PicoCpu.DroppedFailures
import PicoCpu.Dispatcher
import PicoCpu.BoundedRuns
import PicoCpu.Course
import PicoCpu.RunResults
import PicoCpu.PreciseFaults
import PicoCpu.HookHalts
import PicoCpu.RegisterForms
import PicoCpu.Aes
import PicoCpu.Lib.LaneMachine
import PicoCpu.Lib.Sha1
import PicoCpu.Lib.Sha256
import PicoCpu.Sha
import PicoCpu.Sha1
import PicoCpu.Sha256
import PicoCpu.VexForms
import PicoCpu.VexHalves
import PicoCpu.SseFrame
import PicoCpu.UpperBits
import PicoCpu.Decoder.Evex
import PicoCpu.Host.Unwind
import PicoCpu.Host.LoaderBounds
import PicoCpu.Host.Relocations
import PicoCpu.OperandRuns
import PicoCpu.IntegerValues
import PicoCpu.Division
import PicoCpu.Lib.WideProduct
import PicoCpu.Multiplication
import PicoCpu.Conditions
import PicoCpu.Lib.BitSteps
import PicoCpu.Shifts
import PicoCpu.MemoryAccess
import PicoCpu.DoubleShifts
import PicoCpu.Stack
import PicoCpu.StringRuns
import PicoCpu.StringRestart
import PicoCpu.EvexMasking
import PicoCpu.Lib.SetBits
import PicoCpu.DepositExtract
import PicoCpu.VectorRuns
import PicoCpu.Lib.BinaryPoly
import PicoCpu.CarrylessCrc
import PicoCpu.KeyAssist
import PicoCpu.Lib.ShiftCounts
import PicoCpu.PackedShifts
import PicoCpu.PackedOrders
import PicoCpu.BitFields
import PicoCpu.BitCounts
import PicoCpu.BitInstructions
import PicoCpu.EvexStores
import PicoCpu.ScatterRestart
import PicoCpu.EvexBroadcast
import PicoCpu.Gathers
import PicoCpu.Lib.Bisection
import PicoCpu.Host.FunctionLookup
import PicoCpu.Lib.SignedOps
import PicoCpu.PackedProducts
import PicoCpu.ElementMoves
import PicoCpu.Lib.BinaryFormat
import PicoCpu.FloatToInteger
import PicoCpu.SoftFloat.Doubles
import PicoCpu.Lib.BinaryOrder
import PicoCpu.SoftFloat.DoubleOrder
import PicoCpu.SoftFloat.Scale
import PicoCpu.Lib.BinaryNearest
import PicoCpu.SoftFloat.ExtendedImages
import PicoCpu.X87Arith
import PicoCpu.Lib.ElementStrings
import PicoCpu.StringCompares
import PicoCpu.Breakpoints
import PicoCpu.Syscalls
import PicoCpu.Host.UnwindWalk
import PicoCpu.Host.ChainedUnwind
import PicoCpu.Host.RaiseException
import PicoCpu.Host.ImageAccess
import PicoCpu.Lib.Recency
import PicoCpu.Memory.L3Replacement
import PicoCpu.ImportStubs
import PicoCpu.BlockDecoding
import PicoCpu.Reset
import PicoCpu.SoftFloat.ShiftDivide
import PicoCpu.Lib.Loops
import PicoCpu.Stepping
import PicoCpu.BlockReplays
import PicoCpu.CachedRuns
import PicoCpu.Sessions
import PicoCpu.Slices
import PicoCpu.ModifiedCode
import PicoCpu.Lib.Asked
import PicoCpu.Decoder.Widths
import PicoCpu.AccessSizes
import PicoCpu.AccessSizes.Scalar
import PicoCpu.AccessSizes.Vector
import PicoCpu.AccessSizes.Handlers
import PicoCpu.MirroredRuns
import PicoCpu.Host.LiveProcess
import PicoCpu.ChainRuns
import PicoCpu.Lib.Interleavings
import PicoCpu.Logger
import PicoCpu.LoggerRuns
import PicoCpu.LoggerOrder
import PicoCpu.Host.ImageTables
import PicoCpu.ImportCalls
import PicoCpu.Host.ImageLayout
