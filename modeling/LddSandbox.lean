import LddSandbox.Schemes.Mem
import LddSandbox.Schemes.Threads
import LddSandbox.Schemes.CInt
import LddSandbox.Kernel.UserCopy
import LddSandbox.Stream.Abstract
import LddSandbox.Stream.Device
import LddSandbox.Stream.Locking
import LddSandbox.Stream.Linear
import LddSandbox.Stream.History
import LddSandbox.Schemes.Waking
import LddSandbox.Stream.Wakeup
import LddSandbox.Stream.Poll
import LddSandbox.RamDisk.Transfer
import LddSandbox.RamDisk.Faithful
import LddSandbox.RamDisk.Bounds
import LddSandbox.RamDisk.Cutting
import LddSandbox.Schemes.Commute
import LddSandbox.RamDisk.Parallel
import LddSandbox.Message.Abstract
import LddSandbox.Message.Drivers
import LddSandbox.Message.Refine
import LddSandbox.Message.Race
import LddSandbox.Schemes.Confined
import LddSandbox.Message.Isolation
import LddSandbox.Message.Torn
import LddSandbox.Ioctl.Commands
import LddSandbox.Ioctl.Registers
import LddSandbox.Kernel.Calls
import LddSandbox.Kernel.Loader
import LddSandbox.Load.CharDev
import LddSandbox.Load.RamDisk
import LddSandbox.Load.Clean
import LddSandbox.Kernel.DevNum
import LddSandbox.Load.AutoNode
import LddSandbox.Platform.Driver
import LddSandbox.Platform.Bus
import LddSandbox.Platform.Probe
import LddSandbox.Platform.Numbers
import LddSandbox.Platform.Modules
import LddSandbox.Platform.Lifetime
import LddSandbox.Schemes.Sections
import LddSandbox.Stream.Discipline
import LddSandbox.Stream.Within
import LddSandbox.Stream.Readiness
import LddSandbox.Stream.Lasting
import LddSandbox.Ioctl.Reset
import LddSandbox.Stream.Intact
import LddSandbox.Message.Faults
import LddSandbox.Message.RoundTrip
import LddSandbox.Schemes.Debts
import LddSandbox.Stream.Rest
import LddSandbox.Schemes.Stutter
import LddSandbox.Stream.Alike
import LddSandbox.Stream.Asking
import LddSandbox.Stream.Counts
import LddSandbox.Load.Simple
import LddSandbox.Kernel.Service
import LddSandbox.Ioctl.Panel
import LddSandbox.RamDisk.Agree
import LddSandbox.Load.Sessions
import LddSandbox.Load.PlatformDriver
import LddSandbox.Load.PlatformSessions
import LddSandbox.Schemes.Commits
import LddSandbox.Message.Contained
import LddSandbox.Ioctl.Concurrent
import LddSandbox.Schemes.Forgets
import LddSandbox.Load.AutoSessions
import LddSandbox.Schemes.Counter
import LddSandbox.Load.Opens
import LddSandbox.Kernel.Pinned
import LddSandbox.Load.StreamSessions
import LddSandbox.Kernel.Static
import LddSandbox.Load.ChrdevSessions
import LddSandbox.Message.Rows
import LddSandbox.Schemes.Slices
import LddSandbox.Message.Separate
import LddSandbox.Message.Turns
