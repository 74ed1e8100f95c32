import Paravirt.Lib.Steps
import Paravirt.Lib.Tiling
import Paravirt.Lib.X86
import Paravirt.Lib.DList
import Paravirt.Lib.Dyadic
import Paravirt.Zone
import Paravirt.ZoneInv
import Paravirt.ZoneRun
import Paravirt.Mm
import Paravirt.MmInv
import Paravirt.MmMap
import Paravirt.VmArea
import Paravirt.Asm
import Paravirt.Trap
import Paravirt.Switch
import Paravirt.Stub
import Paravirt.MachPage
import Paravirt.MachMap
import Paravirt.MapBatch
import Paravirt.MapLookup
import Paravirt.MachRefine
import Paravirt.VmAlloc
import Paravirt.Elf
import Paravirt.TaskLoad
import Paravirt.DemandLoad
import Paravirt.Fault
import Paravirt.Exec
import Paravirt.ExecArgs
import Paravirt.Sched
import Paravirt.Wakeup
import Paravirt.Yield
import Paravirt.Sleep
import Paravirt.Runflag
import Paravirt.Kill
import Paravirt.Vanish
import Paravirt.VmFail
import Paravirt.Coalesce
import Paravirt.Unmap
import Paravirt.Remove
import Paravirt.NewPages
import Paravirt.TaskCopy
import Paravirt.Kstack
import Paravirt.Vq
import Paravirt.Keyring
import Paravirt.Usercopy
import Paravirt.Readline
import Paravirt.Table
import Paravirt.Ppfs
import Paravirt.DoubleFree
import Paravirt.ZoneSetup
import Paravirt.VmZero
import Paravirt.Pgdir
import Paravirt.Loader
import Paravirt.Ls
import Paravirt.Console
import Paravirt.UserStack
import Paravirt.VmaList
import Paravirt.Lib.Extents
import Paravirt.Lib.Seqlock
import Paravirt.Lib.Spsc
import Paravirt.Lmm
import Paravirt.Heap
import Paravirt.XenTime
import Paravirt.XenEvents
import Paravirt.ConsolePrint
import Paravirt.ConsoleRing
import Paravirt.Lib.DFamily
import Paravirt.Queues
import Paravirt.QueueRun
import Paravirt.Wait
import Paravirt.Refs
import Paravirt.Tasks
