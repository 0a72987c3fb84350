import UnoOS.Dev.Console
import UnoOS.Dev.ConsoleRuns
import UnoOS.Dev.Virtio
import UnoOS.Dev.VirtioChains
import UnoOS.Dev.VirtioDesc
import UnoOS.Dev.VirtioProtocol
import UnoOS.Dev.VirtioRuns
import UnoOS.Fs.Bitmap
import UnoOS.Fs.BitmapLaws
import UnoOS.Fs.BlockIndex
import UnoOS.Fs.BufCache
import UnoOS.Fs.BufCacheLaws
import UnoOS.Fs.BufCacheRuns
import UnoOS.Fs.BufCoherence
import UnoOS.Fs.BufStaleStart
import UnoOS.Fs.DataCalls
import UnoOS.Fs.DataSplit
import UnoOS.Fs.Dir
import UnoOS.Fs.DirMap
import UnoOS.Fs.EntryBytes
import UnoOS.Fs.Failures
import UnoOS.Fs.FileData
import UnoOS.Fs.FreeTree
import UnoOS.Fs.Icache
import UnoOS.Fs.IcacheRace
import UnoOS.Fs.IndexTree
import UnoOS.Fs.Inode
import UnoOS.Fs.InodeLaws
import UnoOS.Fs.Layout
import UnoOS.Fs.Locate
import UnoOS.Fs.OutOfSpace
import UnoOS.Fs.Ownership
import UnoOS.Fs.Path
import UnoOS.Fs.PathSplit
import UnoOS.Fs.PathWalk
import UnoOS.Fs.ReadFrame
import UnoOS.Fs.Records
import UnoOS.Fs.Room
import UnoOS.Fs.SlotFrames
import UnoOS.Fs.SlotRefs
import UnoOS.Fs.State
import UnoOS.Kernel.CpuProc
import UnoOS.Kernel.DescriptorCalls
import UnoOS.Kernel.FailedCalls
import UnoOS.Kernel.File
import UnoOS.Kernel.FileContents
import UnoOS.Kernel.FileCounts
import UnoOS.Kernel.FileFailures
import UnoOS.Kernel.FileOpen
import UnoOS.Kernel.FileRefs
import UnoOS.Kernel.Hrrn
import UnoOS.Kernel.HrrnAccounts
import UnoOS.Kernel.HrrnClock
import UnoOS.Kernel.HrrnMoves
import UnoOS.Kernel.HrrnPass
import UnoOS.Kernel.InodeRefs
import UnoOS.Kernel.Pipe
import UnoOS.Kernel.PipeClose
import UnoOS.Kernel.PipeCounts
import UnoOS.Kernel.PipePages
import UnoOS.Kernel.PipeSlots
import UnoOS.Kernel.Print
import UnoOS.Kernel.Proc
import UnoOS.Kernel.ProcCollect
import UnoOS.Kernel.ProcLocks
import UnoOS.Kernel.ProcMoves
import UnoOS.Kernel.ProcNotify
import UnoOS.Kernel.ProcOrder
import UnoOS.Kernel.ProcPlaces
import UnoOS.Kernel.ProcTable
import UnoOS.Kernel.Semaphore
import UnoOS.Kernel.Sleep
import UnoOS.Kernel.SleepRuns
import UnoOS.Kernel.SpinRuns
import UnoOS.Kernel.SpinSafety
import UnoOS.Kernel.State
import UnoOS.Kernel.WriteCounts
import UnoOS.Lib.Bytes
import UnoOS.Lib.Census
import UnoOS.Lib.Downward
import UnoOS.Lib.Exclusive
import UnoOS.Lib.Exec
import UnoOS.Lib.First
import UnoOS.Lib.Loop
import UnoOS.Lib.Memory
import UnoOS.Lib.Outcome
import UnoOS.Lib.Postorder
import UnoOS.Lib.Radix
import UnoOS.Lib.Ring
import UnoOS.Lib.SlotTable
import UnoOS.Lib.Straight
import UnoOS.Lib.Tenancy
import UnoOS.Lib.Trail
import UnoOS.Lib.Transition
import UnoOS.Lib.Window
import UnoOS.Mem.Entries
import UnoOS.Mem.Frames
import UnoOS.Mem.KernelTable
import UnoOS.Mem.Kvm
import UnoOS.Mem.KvmLaws
import UnoOS.Mem.Layout
import UnoOS.Mem.PageMap
import UnoOS.Mem.PageTable
import UnoOS.Mem.Pmem
import UnoOS.Mem.PmemInit
import UnoOS.Mem.PmemLaws
import UnoOS.Mem.PmemRuns
import UnoOS.Mem.Release
import UnoOS.Mem.Remap
import UnoOS.Mem.Spaces
import UnoOS.Mem.State
import UnoOS.Mem.Unmap
import UnoOS.Mem.UpperHalf
import UnoOS.Mkfs.AllocLaws
import UnoOS.Mkfs.BlockSearch
import UnoOS.Mkfs.Main
import UnoOS.Trap.Hart
import UnoOS.Trap.ThreadRuns
import UnoOS.Trap.ThreadViews
import UnoOS.Trap.Timer
import UnoOS.Trap.Trampoline
import UnoOS.Trap.UserRuns
import UnoOS.Trap.UserSafety
import UnoOS.Trap.UserSystem
import UnoOS.Trap.UserViews
import UnoOS.Trap.Vectors
import UnoOS.User.PrintfAgrees
import UnoOS.User.Userlib
import UnoOS.Uvm.ArgvStack
import UnoOS.Uvm.Births
import UnoOS.Uvm.Boot
import UnoOS.Uvm.Bounds
import UnoOS.Uvm.Copies
import UnoOS.Uvm.CopyExact
import UnoOS.Uvm.CopyRuns
import UnoOS.Uvm.CopyStr
import UnoOS.Uvm.CopyUser
import UnoOS.Uvm.DestroySpace
import UnoOS.Uvm.Elsewhere
import UnoOS.Uvm.EnoughMemory
import UnoOS.Uvm.ExecArgs
import UnoOS.Uvm.ExecEnds
import UnoOS.Uvm.ExecFailure
import UnoOS.Uvm.ExecImage
import UnoOS.Uvm.ExecLoads
import UnoOS.Uvm.ExecMemory
import UnoOS.Uvm.FaultRuns
import UnoOS.Uvm.Faults
import UnoOS.Uvm.ForkRuns
import UnoOS.Uvm.Forks
import UnoOS.Uvm.HeapRuns
import UnoOS.Uvm.Isolation
import UnoOS.Uvm.Lifecycle
import UnoOS.Uvm.LoadImage
import UnoOS.Uvm.LoadSegments
import UnoOS.Uvm.NewImage
import UnoOS.Uvm.Proc
import UnoOS.Uvm.ProcExec
import UnoOS.Uvm.SavedCopies
import UnoOS.Uvm.SavedFrames
import UnoOS.Uvm.Segments
import UnoOS.Uvm.SpaceCalls
import UnoOS.Uvm.SpaceRuns
import UnoOS.Uvm.State
import UnoOS.Uvm.SysExec
import UnoOS.Uvm.SysProc
import UnoOS.Uvm.Teardown
import UnoOS.Uvm.Untouched
import UnoOS.Uvm.UserText
import UnoOS.Uvm.Uvm
import UnoOS.Uvm.ValidAddr
