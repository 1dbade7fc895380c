import LinuxLikeOS.Transition
import LinuxLikeOS.ParentForest
import LinuxLikeOS.Bytes
import LinuxLikeOS.FileSystem
import LinuxLikeOS.Console
import LinuxLikeOS.Descriptors
import LinuxLikeOS.ProcessTable
import LinuxLikeOS.ReadBounds
import LinuxLikeOS.ReadLog
import LinuxLikeOS.SequentialReads
import LinuxLikeOS.DirectoryListing
import LinuxLikeOS.DescriptorRefinement
import LinuxLikeOS.DescriptorSharing
import LinuxLikeOS.TerminalInput
import LinuxLikeOS.Paging
import LinuxLikeOS.Kernel
import LinuxLikeOS.Isolation
import LinuxLikeOS.ContextSwitch
import LinuxLikeOS.ProcessForest
import LinuxLikeOS.Nesting
import LinuxLikeOS.Sheet
import LinuxLikeOS.Rendering
import LinuxLikeOS.LineEditing
import LinuxLikeOS.TerminalIsolation
import LinuxLikeOS.Effects
import LinuxLikeOS.Interrupt
import LinuxLikeOS.Output
import LinuxLikeOS.LineInput
import LinuxLikeOS.CommandLine
import LinuxLikeOS.VideoMapping
import LinuxLikeOS.Checked
import LinuxLikeOS.ReadData
import LinuxLikeOS.NameLookup
import LinuxLikeOS.GetArgs
import LinuxLikeOS.Executables
import LinuxLikeOS.SlotAllocation
import LinuxLikeOS.ScreenAccess
import LinuxLikeOS.KeyBuffer
import LinuxLikeOS.WaitingRead
import LinuxLikeOS.BackgroundShells
import LinuxLikeOS.Deletion
import LinuxLikeOS.BootPaging
import LinuxLikeOS.RtcRate
import LinuxLikeOS.RtcRead
import LinuxLikeOS.DriverCalls
import LinuxLikeOS.CorruptImages
import LinuxLikeOS.DentryCopy
import LinuxLikeOS.Numbers
import LinuxLikeOS.Printf
import LinuxLikeOS.MemoryRoutines
import LinuxLikeOS.CatLs
import LinuxLikeOS.SystemCallEntry
import LinuxLikeOS.RoundRobin
import LinuxLikeOS.BitFields
import LinuxLikeOS.InterruptTables
import LinuxLikeOS.InterruptController
import LinuxLikeOS.Tlb
import LinuxLikeOS.ShellProgram
import LinuxLikeOS.Keystrokes
import LinuxLikeOS.Counter
import LinuxLikeOS.Pingpong
