import HxClog.Lib.Transition
import HxClog.Lib.Ring
import HxClog.Lib.Fifo
import HxClog.Lib.C
import HxClog.Lib.Decimal
import HxClog.Lib.Scan
import HxClog.Lib.Json
import HxClog.Lib.Posix
import HxClog.Lib.Sweep
import HxClog.Lib.Folding
import HxClog.Engine
import HxClog.EngineSound
import HxClog.Threads
import HxClog.EnqueueSound
import HxClog.Moves
import HxClog.ControlSound
import HxClog.Effects
import HxClog.FifoSound
import HxClog.LosslessSound
import HxClog.FlushSound
import HxClog.Format
import HxClog.FormatSound
import HxClog.Dispatch
import HxClog.JsonSound
import HxClog.Names
import HxClog.NamesSound
import HxClog.FileSink
import HxClog.Cleanup
import HxClog.ArraysSound
import HxClog.CleanupSound
import HxClog.PassesSound
import HxClog.RetentionSound
import HxClog.Retention
import HxClog.RetentionFaults
import HxClog.RecognizerSound
import HxClog.Dup
import HxClog.DupSound
import HxClog.DupFolding
import HxClog.Lib.Slots
import HxClog.Sinks
import HxClog.Routing
import HxClog.SinksSound
import HxClog.RoutingSound
import HxClog.ReconfigureSound
import HxClog.Lib.Lifetime
import HxClog.LifecycleSound
import HxClog.OrderSound
import HxClog.Underway
import HxClog.UnderwaySound
import HxClog.WakeupSound
import HxClog.Lib.Dotted
import HxClog.Registry
import HxClog.RegistrySound
import HxClog.LookupSound
import HxClog.Lib.Lines
import HxClog.Ini
import HxClog.IniSound
import HxClog.ReadBack
import HxClog.ReadBackSound
import HxClog.Stats
import HxClog.StatsSound
import HxClog.Lib.Pool
import HxClog.DupThreads
import HxClog.DupThreadsSound
import HxClog.FailedStart
import HxClog.FailedStartSound
import HxClog.Rotate
import HxClog.RotateSound
import HxClog.Retry
import HxClog.DayFolders
import HxClog.Overwrite
import HxClog.Fork
import HxClog.ForkSound
import HxClog.IniComments
import HxClog.Message
import HxClog.JsonLines
import HxClog.Context
import HxClog.JsonUtf8
import HxClog.Allocator
import HxClog.SessionsSound
import HxClog.Lib.Stamped
import HxClog.FormatCache
import HxClog.FormatCacheSound
import HxClog.ArchiveDates
import HxClog.FileCalls
import HxClog.SizeTruth
import HxClog.Logbook
import HxClog.LogbookSound
import HxClog.Fitting
import HxClog.DaySeparation
import HxClog.Buckets
import HxClog.SizeLimit
import HxClog.Lib.Grouping
import HxClog.Reopening
import HxClog.Healing
import HxClog.Lib.Walk
import HxClog.Reentry
import HxClog.Lib.Block
import HxClog.CrashRing
import HxClog.NetSink
import HxClog.NetFraming
import HxClog.NetReports
import HxClog.Compressing
import HxClog.Lib.OrderedMap
import HxClog.ContextTable
import HxClog.ContextSnapshot
import HxClog.BraceFormat
import HxClog.Lib.Calendar
import HxClog.CrashTime
import HxClog.IniSizes
import HxClog.ArchiveNames
import HxClog.BufferGrowth
import HxClog.SlotArray
import HxClog.RotationOrder
import HxClog.Lib.Descent
import HxClog.Lib.WaitFor
import HxClog.Reentrant
import HxClog.ReentrantMoves
import HxClog.ReentrantSound
import HxClog.Progress
import HxClog.ProgressSound
import HxClog.NewestKept
import HxClog.Lib.Framed
import HxClog.JsonLog
import HxClog.TornRing
import HxClog.Signals
import HxClog.SignalsSound
import HxClog.ChainedSignals
import HxClog.WritePath
import HxClog.Lib.Form
import HxClog.CrashReport
