import Netbas.CopyOnWrite
import Netbas.RunList
import Netbas.Semaphores
import Netbas.MsgPorts
import Netbas.ThreadIds
import Netbas.AddressSpaces
import Netbas.Waitpid
import Netbas.Pipes
import Netbas.Clock
import Netbas.Relocation
import Netbas.Drivers
import Netbas.UnixStream
import Netbas.PortNames
import Netbas.SymbolTables
import Netbas.Keystrokes
import Netbas.RamSizes
import Netbas.FrameBlocks
import Netbas.HeapLimit
import Netbas.SlabRecords
import Netbas.Unmapping
import Netbas.IdentityMaps
import Netbas.Translation
import Netbas.LowMemory
import Netbas.Installs
import Netbas.SleepTimers
import Netbas.Scheduler
import Netbas.SelectResults
import Netbas.ProcEntries
import Netbas.IrqLines
import Netbas.VtSequences
import Netbas.IoPermissions
import Netbas.Descriptors
import Netbas.KernelLog
import Netbas.EnvTable
import Netbas.NumberParsing
import Netbas.EnvPage
import Netbas.LineInput
import Netbas.IntegerFormat
import Netbas.UserStack
import Netbas.SharedFiles
import Netbas.Directories
import Netbas.BlockFiles
import Netbas.Fifo
import Netbas.RawFiles
import Netbas.BufferContents
import Netbas.Fat12
import Netbas.FatChains
import Netbas.PipeCreation
import Netbas.RamDisk
import Netbas.RamTrees
import Netbas.Signals
