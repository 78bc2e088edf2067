import Buenos.Fs.Sfs.DelayedDelete
import Buenos.Fs.Sfs.Isolation
import Buenos.Fs.Sfs.Handles
import Buenos.Fs.Sfs.Mounting
import Buenos.Fs.Vfs.Operations
import Buenos.Fs.Vfs.Locks
import Buenos.Fs.Vfs.Mounts
import Buenos.Fs.Vfs.Pathnames
import Buenos.Kernel.SleepQueue
import Buenos.Kernel.Conditions
import Buenos.Kernel.Semaphore
import Buenos.Kernel.ReadyList
import Buenos.Kernel.SleepTime
import Buenos.Fs.Vfs.Unmount
import Buenos.Fs.Vfs.Creation
import Buenos.Vm.PagetableMap
import Buenos.Vm.Pagepool
import Buenos.Proc.Children
import Buenos.Proc.TlbCoherence
import Buenos.Proc.Heaps
import Buenos.Proc.Frames
import Buenos.Proc.Files
import Buenos.Proc.Confinement
import Buenos.Proc.UserCopy
import Buenos.Proc.Preparing
import Buenos.Proc.HeapLimit
import Buenos.Proc.Loading
import Buenos.Proc.FailedStart
import Buenos.Proc.ElfTable
import Buenos.Proc.Arguments
import Buenos.Proc.FileIo
import Buenos.Userland.Free
import Buenos.Userland.Shell
import Buenos.Lib.FormatScan
import Buenos.Lib.FormatVersions
import Buenos.Drivers.Bootargs
import Buenos.Util.Findnset
import Buenos.Util.WriteRun
import Buenos.Net.Accounting
import Buenos.Net.Ports
import Buenos.Net.Sending
import Buenos.Util.Interchange
import Buenos.Fs.Sfs.Grammar
import Buenos.Fs.Sfs.FileArray
import Buenos.Fs.Sfs.Listing
import Buenos.Fs.Sfs.CreateExact
import Buenos.Drivers.TtyInput
import Buenos.Drivers.Disk
import Buenos.Drivers.NicWakeups
import Buenos.Fs.Sfs.Names
import Buenos.Net.Network
import Buenos.Vm.Boot
import Buenos.Proc.Isolation
import Buenos.Proc.Image
import Buenos.Kernel.Fairness
import Buenos.Fs.Vfs.Refinement
import Buenos.Drivers.BlockDevice
import Buenos.Lib.Atoi
