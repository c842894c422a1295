import StarOS.AtParser
import StarOS.AuthManager
import StarOS.BigEndian
import StarOS.Buddy
import StarOS.BuddyPool
import StarOS.BuddyRuns
import StarOS.Buf
import StarOS.ByteFields
import StarOS.ByteMem
import StarOS.Capabilities
import StarOS.Channel
import StarOS.Clock
import StarOS.ClockCounts
import StarOS.ClockRate
import StarOS.ClockTree
import StarOS.ClockUse
import StarOS.Counting
import StarOS.CryptoRng
import StarOS.DmaPool
import StarOS.Eapol
import StarOS.Elf
import StarOS.Error
import StarOS.FdtBounds
import StarOS.FdtLayout
import StarOS.FdtLookup
import StarOS.FdtMemory
import StarOS.FdtParser
import StarOS.Forest
import StarOS.Hci
import StarOS.Heap
import StarOS.HeapRuns
import StarOS.Ipv4
import StarOS.Ipv6
import StarOS.KernelAlloc
import StarOS.KyberKem
import StarOS.KyberNtt
import StarOS.KyberReduce
import StarOS.L2cap
import StarOS.L2capFrames
import StarOS.L2capPeers
import StarOS.L2capTable
import StarOS.Links
import StarOS.Loops
import StarOS.MemoryMap
import StarOS.MessageQueue
import StarOS.Nesting
import StarOS.NetDev
import StarOS.Ntt
import StarOS.OfAddress
import StarOS.OfCells
import StarOS.Packed
import StarOS.Packet
import StarOS.PageTable
import StarOS.Physical
import StarOS.PhysicalConcurrent
import StarOS.PhysicalPages
import StarOS.PhysicalRuns
import StarOS.QmiClients
import StarOS.Radix
import StarOS.RamFs
import StarOS.Region
import StarOS.Resource
import StarOS.ResourceRanges
import StarOS.ResourceRuns
import StarOS.ResourceSteps
import StarOS.ResourceTree
import StarOS.Rfcomm
import StarOS.Ring
import StarOS.Runs
import StarOS.RwLock
import StarOS.Scan
import StarOS.Scheduler
import StarOS.SchedulerLedger
import StarOS.SchedulerOrder
import StarOS.Sdp
import StarOS.Signals
import StarOS.SkBuff
import StarOS.SkBuffShared
import StarOS.Slab
import StarOS.SlabRuns
import StarOS.Slots
import StarOS.Task
import StarOS.Tlb
import StarOS.VirtualMemory
import StarOS.VirtualMemoryRuns
import StarOS.Word
import StarOS.Xray
import StarOS.Shifts
import StarOS.SleepQueue
import StarOS.H4Uart
import StarOS.Timekeeping
import StarOS.EventQueue
import StarOS.DriverBus
import StarOS.I2cClients
import StarOS.IrqRegistry
import StarOS.OfIrq
import StarOS.SwapSort
import StarOS.Compositor
import StarOS.TwoWire
import StarOS.I2cAlgo
import StarOS.MessageData
import StarOS.SharedMemory
import StarOS.TaskQuota
import StarOS.PhysicalFree
import StarOS.HeapComplete
import StarOS.SchedulerCalls
import StarOS.SchedulerStats
import StarOS.ElfAccepts
import StarOS.RamFsNames
import StarOS.RamFsIo
import StarOS.SignalDelivery
import StarOS.Syscalls
import StarOS.BootImage
import StarOS.DtProperties
import StarOS.Iommu
import StarOS.KyberInverse
import StarOS.Bits
import StarOS.KyberCompress
import StarOS.KyberEncoding
import StarOS.Shake
import StarOS.Ipv4Checksum
import StarOS.RngStream
import StarOS.Ipv6Text
import StarOS.RfcommData
import StarOS.SdpAttrs
import StarOS.ResourceSpace
import StarOS.ResourceMove
import StarOS.ResourceInsert
import StarOS.Rsn
import StarOS.Readers
import StarOS.Uuid
import StarOS.Vless
import StarOS.WsFrames
import StarOS.QmiFrames
import StarOS.HitTest
import StarOS.LoopCycles
import StarOS.OfIrqWalk
import StarOS.Threads
import StarOS.Mutex
import StarOS.Semaphore
import StarOS.Tickets
import StarOS.Klog
import StarOS.XorShift
import StarOS.Kaslr
import StarOS.TextGrid
import StarOS.Font
import StarOS.DisplayServer
import StarOS.KyberSampling
import StarOS.InputManager
import StarOS.Cores
import StarOS.IrqLocks
