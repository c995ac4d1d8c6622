import Maturin.RangeActionMap.Refine
import Maturin.Memory.Entry
import Maturin.Memory.World
import Maturin.Memory.Translate
import Maturin.Memory.PageMap
import Maturin.Memory.MemorySet
import Maturin.Memory.Backed
import Maturin.Memory.PageTable
import Maturin.Memory.Coherent
import Maturin.Memory.Fault
import Maturin.Memory.NewArea
import Maturin.Memory.Space
import Maturin.Memory.NewSpace
import Maturin.Memory.Write
import Maturin.Memory.Coherence
import Maturin.Memory.Teardown
import Maturin.Syscall.Mmap
import Maturin.Syscall.MapSafety
import Maturin.Alloc.BitAlloc
import Maturin.Alloc.Cascade
import Maturin.File.FdManager
import Maturin.File.FdTable
import Maturin.File.Descriptors
import Maturin.Alloc.Ownership
import Maturin.Signal.Handle
import Maturin.Signal.Delivery
import Maturin.Base.Slice
import Maturin.Lib.Ring
import Maturin.File.VirtFile
import Maturin.File.RingBuffer
import Maturin.File.Pipe
import Maturin.Memory.Fork
import Maturin.Memory.Spaces
import Maturin.Memory.Files
import Maturin.Memory.Backing
import Maturin.Signal.Slot
import Maturin.Task.TimeStat
import Maturin.Task.CpuTime
import Maturin.Task.Timer
import Maturin.Poll.Bitset
import Maturin.Poll.Select
import Maturin.Poll.Epoll
import Maturin.Task.WaitingBoard
import Maturin.Task.Kernel
import Maturin.Task.Steps
import Maturin.Task.Places
import Maturin.Task.Tree
import Maturin.Task.Wait
import Maturin.Task.Futex
import Maturin.File.Disk
import Maturin.File.Link
import Maturin.File.Unlink
import Maturin.File.Rename
import Maturin.Memory.Isolation
import Maturin.Memory.Tlb
import Maturin.Syscall.UserBuffer
import Maturin.Lib.Bitflags
import Maturin.Signal.Kill
import Maturin.Syscall.Flags
import Maturin.Syscall.Dispatch
import Maturin.Lib.Throughout
import Maturin.Task.Heap
import Maturin.File.Vfs
import Maturin.File.PipeEnds
import Maturin.File.Open
import Maturin.Syscall.WorkingDir
import Maturin.Memory.Contents
import Maturin.Memory.Flat
import Maturin.Memory.FirstTouch
import Maturin.Memory.Image
import Maturin.Memory.Spare
import Maturin.Memory.Overwrite
import Maturin.Loader.InitStack
import Maturin.Loader.Loader
import Maturin.Loader.Layout
import Maturin.Loader.Loads
import Maturin.Loader.ProcessEntry
import Maturin.Loader.Stack
import Maturin.Loader.Relocate
import Maturin.RangeActionMap.FirstFit
import Maturin.File.Dup
import Maturin.Memory.Object
import Maturin.File.FatFile
import Maturin.Syscall.Msync
import Maturin.Memory.FillFrame
import Maturin.Memory.Touch
import Maturin.Task.CloneTid
import Maturin.RangeActionMap.Strict
import Maturin.Syscall.CleanMmap
import Maturin.File.FatSeek
import Maturin.File.ReadOnly
import Maturin.File.BaseFile
import Maturin.Syscall.Vectored
import Maturin.Syscall.Position
import Maturin.File.VirtCursor
import Maturin.File.VirtOpen
import Maturin.Syscall.OwnFlags
import Maturin.Poll.Readiness
import Maturin.Socket.Handshake
import Maturin.Socket.Isolation
import Maturin.Signal.Return
import Maturin.Task.Fork
import Maturin.Task.Threads
import Maturin.Task.Exec
import Maturin.Syscall.Unlinkat
import Maturin.Syscall.ReadLink
import Maturin.Poll.LongBitset
import Maturin.Poll.Intact
import Maturin.Poll.Timeout
import Maturin.Poll.EpollWait
import Maturin.Poll.Nested
import Maturin.Signal.Calls
import Maturin.Signal.Willing
import Maturin.Signal.Actions
import Maturin.Signal.Guards
import Maturin.Signal.Fault
import Maturin.Task.Wake
import Maturin.Socket.Ports
import Maturin.Drivers.DiskArray
import Maturin.Loader.Alignment
import Maturin.Trap.KernelStack
import Maturin.Task.Transparent
import Maturin.Fat.Run
import Maturin.Lib.FifoLock
import Maturin.Sync.Downgrade
import Maturin.Sync.Fairness
