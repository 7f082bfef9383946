import Couv.Run
import Couv.Sequence
import Couv.Store
import Couv.Ring
import Couv.NgxQueue
import Couv.View
import Couv.BinFloat
import Couv.Numeral
import Couv.Value
import Couv.Sockaddr
import Couv.BufferMem
import Couv.BufferCodec
import Couv.Buffer
import Couv.BufferOp
import Couv.BufferRefine
import Couv.BufferLaws
import Couv.World
import Couv.Coroutine
import Couv.HandleOps
import Couv.Requests
import Couv.InputEvents
import Couv.System
import Couv.Steps
import Couv.Lifecycle
import Couv.RegistryKeys
import Couv.Anchoring
import Couv.Stack
import Couv.CallbackThread
import Couv.InputQueue
import Couv.Delivery
import Couv.Taken
import Couv.NodeTypes
import Couv.UdpAddress
import Couv.Pending
import Couv.KeyWrites
import Couv.Cleanup
import Couv.Args
import Couv.Rollback
import Couv.ResumeTarget
import Couv.Completion
import Couv.Progress
import Couv.RefCount
import Couv.BlockHeap
import Couv.BlockCount
import Couv.BlockLife
import Couv.NodeLife
import Couv.SockaddrClass
import Couv.Fs
import Couv.FsPaths
import Couv.CHeap
import Couv.ReqBlocks
import Couv.ReqRelease
import Couv.ByteDigits
import Couv.IntCodec
import Couv.IntMethods
import Couv.IndexCheck
import Couv.LuaValues
import Couv.InFlight
import Couv.BufferFits
import Couv.FailedAlloc
import Couv.BufferCopy
import Couv.Concat
import Couv.RoundTrip
import Couv.LuaStack
import Couv.ClassCheck
import Couv.FsRejected
import Couv.AsyncFail
import Couv.CExpr
import Couv.CodecRange
import Couv.StringsStay
import Couv.Readdir
import Couv.FsStat
import Couv.LuaNumber
import Couv.FloatMethods
import Couv.RingOps
import Couv.NgxQueueRun
import Couv.BufferStores
import Couv.InputData
import Couv.SockaddrRoundTrip
import Couv.StreamBytes
import Couv.SentBytes
import Couv.CallbackRun
import Couv.StackCode
import Couv.StackRun
import Couv.Dispatch
