import Ixy.Lib.Bytes
import Ixy.Lib.Ring
import Ixy.Lib.Prog
import Ixy.Lib.Safe
import Ixy.Lib.Ends
import Ixy.Lib.Discipline
import Ixy.Lib.Part
import Ixy.Lib.Expand
import Ixy.Lib.Threads
import Ixy.Lib.Run
import Ixy.Lib.Reach
import Ixy.Lib.FreeStack
import Ixy.Lib.Reentrant
import Ixy.Lib.Fifo
import Ixy.Memory.Mempool
import Ixy.Memory.Conservation
import Ixy.Memory.Pagemap
import Ixy.Memory.Dma
import Ixy.Memory.Layout
import Ixy.Memory.HugeFiles
import Ixy.Memory.HugeFileLeak
import Ixy.Memory.HugeFileSharing
import Ixy.Allocator.Bounds
import Ixy.Allocator.Spinlock
import Ixy.Allocator.SpinProgress
import Ixy.Allocator.RecursiveLock
import Ixy.Allocator.Stack
import Ixy.Allocator.Tree
import Ixy.Allocator.Fallback
import Ixy.Allocator.Shared
import Ixy.Allocator.Parent
import Ixy.Driver.Device
import Ixy.Driver.Interference
import Ixy.Driver.RxRing
import Ixy.Driver.Rx
import Ixy.Driver.RxProtocol
import Ixy.Driver.RxBuffers
import Ixy.Driver.RxFrames
import Ixy.Driver.TxRing
import Ixy.Driver.Tx
import Ixy.Driver.TxClean
import Ixy.Driver.TxFifo
import Ixy.Driver.QueueArea
import Ixy.Driver.Registers
import Ixy.Driver.Stats
import Ixy.Driver.Init
import Ixy.Driver.Cpp
import Ixy.Driver.Startup
import Ixy.Driver.RegisterUse
import Ixy.Driver.RegisterRun
import Ixy.App.Pktgen
import Ixy.App.PktgenSend
import Ixy.App.Fwd
import Ixy.App.FwdLoop
import Ixy.App.FwdFrames
