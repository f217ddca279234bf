import ProcProcessTable.CText
import ProcProcessTable.Scanf
import ProcProcessTable.LineLoop
import ProcProcessTable.MemPool
import ProcProcessTable.LinuxFormatFlags
import ProcProcessTable.BlessIntoProc
import ProcProcessTable.MaskStability
import ProcProcessTable.LinuxReadFile
import ProcProcessTable.LinuxScrapers
import ProcProcessTable.LinuxRow
import ProcProcessTable.LinuxFrame
import ProcProcessTable.LinuxRefinement
import ProcProcessTable.LinuxPublished
import ProcProcessTable.LinuxRowValues
import ProcProcessTable.LinuxBless
import ProcProcessTable.LinuxTable
import ProcProcessTable.StatRoundTrip
import ProcProcessTable.LinuxObject
import ProcProcessTable.FlagSoundness
import ProcProcessTable.PoolDiscipline
import ProcProcessTable.TableObjects
import ProcProcessTable.PublishedProcesses
import ProcProcessTable.RowIndependence
import ProcProcessTable.ArraySplit
import ProcProcessTable.CommandLines
import ProcProcessTable.OsInitialize
import ProcProcessTable.PublishedNumbers
import ProcProcessTable.StatusOrder
import ProcProcessTable.CygwinStat
import ProcProcessTable.Descendants
import ProcProcessTable.Killfam
import ProcProcessTable.Initialize
import ProcProcessTable.Killall
import ProcProcessTable.TtyCache
import ProcProcessTable.ObjectCalls
import ProcProcessTable.LinuxScan
import ProcProcessTable.CarriedState
import ProcProcessTable.WindowsOwners
import ProcProcessTable.StructLayout
import ProcProcessTable.ProcFsScan
import ProcProcessTable.ProcFsPorts
import ProcProcessTable.LineScanners
import ProcProcessTable.InitializedValues
import ProcProcessTable.LinuxStatOutcome
import ProcProcessTable.PublishedState
import ProcProcessTable.ReadFileExact
import ProcProcessTable.ElapsedTime
import ProcProcessTable.CharArray
import ProcProcessTable.ArgumentLoop
import ProcProcessTable.ObstackPrintf
import ProcProcessTable.CallRows
import ProcProcessTable.TtyKeys
import ProcProcessTable.DirectoryWalk
import ProcProcessTable.TtyWalk
import ProcProcessTable.UserIds
import ProcProcessTable.ScanLoop
import ProcProcessTable.OpenBsdTable
import ProcProcessTable.BsdProcFs
import ProcProcessTable.NetBsdScan
import ProcProcessTable.DecOsfPages
import ProcProcessTable.AixArguments
import ProcProcessTable.AixScan
import ProcProcessTable.AixRows
import ProcProcessTable.AixGetprocs
import ProcProcessTable.WindowsTime
import ProcProcessTable.DecimalText
import ProcProcessTable.NetBsdTimes
import ProcProcessTable.BsdiTable
import ProcProcessTable.BsdiCpuTime
import ProcProcessTable.FreeBsdKvmTable
import ProcProcessTable.FreeBsdScan
import ProcProcessTable.AixDecoding
import ProcProcessTable.DarwinArguments
import ProcProcessTable.DarwinTable
import ProcProcessTable.DarwinThreads
import ProcProcessTable.DarwinCpuUsage
import ProcProcessTable.IoctlScan
import ProcProcessTable.IoctlPorts
import ProcProcessTable.OpenDescriptors
import ProcProcessTable.KillallSignals
import ProcProcessTable.ProcessSetters
import ProcProcessTable.HeapBlocks
import ProcProcessTable.Obstack
import ProcProcessTable.ObstackLayout
import ProcProcessTable.ObstackInvariant
import ProcProcessTable.ObstackOperations
import ProcProcessTable.PoolProgram
import ProcProcessTable.ObstackRefinement
import ProcProcessTable.LinuxPrograms
import ProcProcessTable.LinuxRequests
import ProcProcessTable.LinuxOnObstack
import ProcProcessTable.Interleaving
import ProcProcessTable.TableThreads
import ProcProcessTable.ThreadSafety
import ProcProcessTable.ThreadSteps
import ProcProcessTable.ThreadRuns
import ProcProcessTable.ThreadProgress
import ProcProcessTable.PagedRead
import ProcProcessTable.HpuxTable
import ProcProcessTable.AixPages
import ProcProcessTable.OnceThreads
import ProcProcessTable.OnceRuns
import ProcProcessTable.SunOsTable
import ProcProcessTable.DescribedProcesses
