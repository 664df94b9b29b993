import Am335xKernel.Drivers.NurseCall
import Am335xKernel.Drivers.Pwm.StoreRace
import Am335xKernel.Drivers.ExtWatchdog
import Am335xKernel.Drivers.Light
import Am335xKernel.Fs.Cramfs.Read
import Am335xKernel.Net.Filter.Check
import Am335xKernel.Drivers.Cpdma.ChannelRuns
import Am335xKernel.Drivers.CpswAleMap
import Am335xKernel.Arch.EdmaRuns
import Am335xKernel.Mtd.UbiRuns
import Am335xKernel.Kernel.IdrWalk
import Am335xKernel.Kernel.Plist
import Am335xKernel.Kernel.Div64
import Am335xKernel.Kernel.LruCache
import Am335xKernel.Kernel.RbtreeWalk
import Am335xKernel.Kernel.PageAllocRuns
import Am335xKernel.Kernel.IdaRuns
import Am335xKernel.Ipc.SemAtomic
import Am335xKernel.Fs.Locks.PosixRuns
import Am335xKernel.Fs.Locks.Deadlock
import Am335xKernel.Kernel.TimerNext
import Am335xKernel.Drivers.Pwm.BeepInterval
import Am335xKernel.Mm.PercpuRuns
import Am335xKernel.Mm.SwapCountRuns
import Am335xKernel.Mm.SharedPolicyRuns
import Am335xKernel.Mm.MemblockRuns
import Am335xKernel.Drivers.Pwm.Rounding
import Am335xKernel.Drivers.Pwm.DutyRange
import Am335xKernel.Net.Filter.Nlattr
import Am335xKernel.Mtd.OmapEcc
import Am335xKernel.Drivers.Cppi41
import Am335xKernel.Scripts.Kconfig
import Am335xKernel.Drivers.TouchScreen
import Am335xKernel.Kernel.RadixTreePreload
import Am335xKernel.Kernel.IntMath
import Am335xKernel.Kernel.RoundJiffies
import Am335xKernel.Fs.Locks.Flock
import Am335xKernel.Kernel.Resource
import Am335xKernel.Mm.MemblockFind
