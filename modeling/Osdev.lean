import Osdev.Bitmap.Exact
import Osdev.Clock
import Osdev.Input
import Osdev.EarlyMem.Zones
import Osdev.Exec.Contain
import Osdev.Exec.Contents
import Osdev.Exec.Layout
import Osdev.FrameAlloc.Exclusive
import Osdev.Heap.Safety
import Osdev.IntervalTree.Gap
import Osdev.Irq.Dispatch
import Osdev.Pages.Chain
import Osdev.Pages.Safety
import Osdev.RbTree.Absent
import Osdev.Sched.Priority
import Osdev.Time
import Osdev.Vfs.Access
import Osdev.Vfs.Clone
import Osdev.Vfs.Enumerate
import Osdev.Vfs.FdTable
import Osdev.Vfs.Invalidate
import Osdev.Vfs.Open
import Osdev.Vfs.Symlink
import Osdev.Vm.EarlyReserved
import Osdev.Vm.FileVnode
import Osdev.Vm.Sequence
