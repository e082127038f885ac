import Crinit.Lib.Interleave
import Crinit.Lib.Since
import Crinit.Lib.Script
import Crinit.Lib.Locks
import Crinit.Lib.Calendar
import Crinit.Lib.Scanner
import Crinit.Task
import Crinit.TaskDB
import Crinit.Frame
import Crinit.Lib.OrderedMap
import Crinit.TaskTable
import Crinit.Removal
import Crinit.SpawnSafety
import Crinit.FailedStart
import Crinit.World
import Crinit.Dispatch
import Crinit.Commands
import Crinit.NotifyKeys
import Crinit.Features
import Crinit.WaitInhibit
import Crinit.AddSeries
import Crinit.AddTask
import Crinit.System
import Crinit.SingleInstance
import Crinit.PidTracking
import Crinit.Discipline
import Crinit.Signals
import Crinit.MainLoop
import Crinit.SpawnInhibit
import Crinit.StopMode
import Crinit.TimerPool
import Crinit.CommandChain
import Crinit.StopSticky
import Crinit.TaskCopies
import Crinit.RespawnBound
import Crinit.TriggerStart
import Crinit.RtimMsg
import Crinit.RtimRoundTrip
import Crinit.Connection
import Crinit.Answers
import Crinit.StatusReply
import Crinit.Reception
import Crinit.WorkerPool
import Crinit.ElosFilters
import Crinit.Timer
import Crinit.TimerSound
import Crinit.TimerNoSkip
import Crinit.TimerParser
import Crinit.TimerText
import Crinit.TimerReading
import Crinit.TimerDocumented
import Crinit.TimerMatching
import Crinit.TimerStep
import Crinit.TimerAdd
import Crinit.Lib.SwapRemove
import Crinit.TimerRefs
import Crinit.TimerLifetime
import Crinit.Lib.Numeral
import Crinit.Lib.Collect
import Crinit.ConfInteger
import Crinit.Argv
import Crinit.ArgvBuffer
import Crinit.Credentials
import Crinit.Signature
import Crinit.Handlers
import Crinit.Provides
import Crinit.Quoting
import Crinit.ParsedList
import Crinit.Lib.Slots
import Crinit.EnvSet
import Crinit.EnvSetMap
import Crinit.EnvExpansion
import Crinit.Unescape
import Crinit.Lib.Replace
import Crinit.StopExpansion
import Crinit.Lib.QuoteSplit
import Crinit.KernelCmdline
import Crinit.TaskConf
import Crinit.Includes
import Crinit.DepsOverride
import Crinit.ArrayKeys
import Crinit.Lib.CText
import Crinit.Lib.Getopt
import Crinit.Launcher
import Crinit.Lib.Privilege
import Crinit.LaunchPrivileges
import Crinit.UnmountList
import Crinit.IoRedirect
import Crinit.Lib.CondVar
import Crinit.DryPool
import Crinit.EventLog
import Crinit.TimerSlots
import Crinit.ElosRegister
import Crinit.ElosReconnect
import Crinit.TaskLoop
import Crinit.TaskImage
import Crinit.DeepCopy
import Crinit.GlobalCgroups
import Crinit.Lib.CallTree
import Crinit.LockPaths
import Crinit.LockElos
import Crinit.LockBalance
import Crinit.GracePeriod
import Crinit.FileSeries
import Crinit.IntrusiveList
import Crinit.CgroupControllers
import Crinit.Disable
