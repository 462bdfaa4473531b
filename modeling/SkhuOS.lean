import SkhuOS.Foundation.Transition
import SkhuOS.Foundation.RingBuffer
import SkhuOS.Foundation.LittleEndian
import SkhuOS.Foundation.Window
import SkhuOS.Foundation.WriteBack
import SkhuOS.Foundation.ServedQueue
import SkhuOS.Foundation.Allocation
import SkhuOS.Foundation.Sheet
import SkhuOS.Foundation.Text
import SkhuOS.Common.Type
import SkhuOS.Common.String
import SkhuOS.Common.Print
import SkhuOS.Common.Scrolling
import SkhuOS.Lib.LinkedList
import SkhuOS.Lib.Queue
import SkhuOS.Lib.InitializeMemory
import SkhuOS.Proc.Process
import SkhuOS.Proc.Roster
import SkhuOS.Proc.Plan
import SkhuOS.Proc.Refine
import SkhuOS.Proc.Settled
import SkhuOS.Proc.Sync
import SkhuOS.Drivers.Keyboard
import SkhuOS.Drivers.DiskWait
import SkhuOS.Proc.System
import SkhuOS.Proc.Placement
import SkhuOS.Proc.Steps
import SkhuOS.Proc.Deed
import SkhuOS.Proc.RoundRobin
import SkhuOS.Proc.Bystander
import SkhuOS.Proc.Sleep
import SkhuOS.Drivers.DiskProtocol
import SkhuOS.Shell.Shell
import SkhuOS.Shell.Editor
import SkhuOS.Shell.EditorScreen
import SkhuOS.Shell.NewFile
import SkhuOS.Proc.Exit
import SkhuOS.Proc.Slots
import SkhuOS.Proc.KeyQueue
import SkhuOS.Foundation.Transducer
import SkhuOS.Drivers.Typing
import SkhuOS.Drivers.PIC
import SkhuOS.Arch.HandlerImp
import SkhuOS.Syscall.Syscall
import SkhuOS.Foundation.Blocks
import SkhuOS.Common.Paging
import SkhuOS.Loader.Page
import SkhuOS.Foundation.FifoLock
import SkhuOS.Proc.UserAccess
import SkhuOS.Proc.Locking
import SkhuOS.Proc.FreshContext
import SkhuOS.FS.FAT
import SkhuOS.FS.Search
import SkhuOS.FS.Volume
import SkhuOS.FS.Effects
import SkhuOS.FS.Format
import SkhuOS.FS.Names
import SkhuOS.FS.Runs
import SkhuOS.FS.Faults
import SkhuOS.FS.Confined
import SkhuOS.FS.Copies
import SkhuOS.FS.WriteBacks
import SkhuOS.FS.Integrity
import SkhuOS.FS.Clusters
import SkhuOS.FS.Naming
import SkhuOS.FS.Isolation
import SkhuOS.FS.Reopen
import SkhuOS.FS.Mirror
import SkhuOS.Drivers.DiskHolding
import SkhuOS.Arch.Descriptor
import SkhuOS.Arch.Instruction
import SkhuOS.Arch.ContextSwitching
import SkhuOS.Loader.IdentityMap
import SkhuOS.Loader.Image
import SkhuOS.Loader.Boot
import SkhuOS.Tools.ImageMaker
import SkhuOS.Proc.LockMove
import SkhuOS.Lib.ListFamily
import SkhuOS.Lib.QueueRuns
import SkhuOS.Drivers.PIT
import SkhuOS.Common.Number
import SkhuOS.Boot.BootLoader
import SkhuOS.Proc.WakeExpired
import SkhuOS.FS.EmptyFormat
import SkhuOS.Proc.StackPages
import SkhuOS.Proc.Cpu
import SkhuOS.Proc.KernelStack
import SkhuOS.Proc.InterruptFlag
import SkhuOS.Arch.Handler
import SkhuOS.Arch.Switch
import SkhuOS.Proc.Contexts
import SkhuOS.Arch.Computer
import SkhuOS.Arch.Survival
import SkhuOS.Foundation.Device
import SkhuOS.Drivers.Drive
import SkhuOS.Drivers.DriveTransfers
import SkhuOS.Drivers.DriveCalls
import SkhuOS.Boot.PowerOn
import SkhuOS.FS.Folder
import SkhuOS.FS.OneMount
import SkhuOS.Common.Monitor
import SkhuOS.FS.Remount
import SkhuOS.Shell.Terminal
import SkhuOS.Shell.CommandLine
import SkhuOS.Shell.Desk
import SkhuOS.Shell.TerminalRun
import SkhuOS.Shell.SavedText
