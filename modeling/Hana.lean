import Hana.Mm.Vm.Cow
import Hana.Proc.WaitStatus
import Hana.Drivers.VirtioIsr
import Hana.Fs.PipeRefs
import Hana.Fs.Getdents
import Hana.Fs.Read
import Hana.Io.BlkWait
import Hana.Io.BlkList
import Hana.Io.BlkLocks
import Hana.Proc.SchedWake
import Hana.Proc.SchedIdle
import Hana.Proc.SchedGuard
import Hana.Proc.Views
import Hana.Mm.Buddy.Buddies
import Hana.Mm.Buddy.Sizes
import Hana.Fs.Locks
import Hana.Fs.Chdir
import Hana.Proc.Confine
import Hana.Mm.Vma.Fault
import Hana.Mm.Vma.Choice
import Hana.Mm.Vma.Removal
import Hana.Proc.Stacks
import Hana.Proc.Heap
import Hana.Proc.Exec.Failure
import Hana.Proc.Exec.InitialStack
import Hana.Fs.NextFd
import Hana.Fs.Openat
import Hana.Fs.PipeFailure
import Hana.Fs.Tty
import Hana.Net.Delivery
import Hana.Fs.DevPath
import Hana.Tools.Memmove
