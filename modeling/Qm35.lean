import Qm35.Ring.Retention
import Qm35.Ring.Read
import Qm35.Ring.Standing
import Qm35.Ring.Uninit
import Qm35.Uci.Buffers
import Qm35.Hsspi.Receive
import Qm35.Hsspi.Core
import Qm35.Hsspi.Ownership
import Qm35.Hsspi.Quiescence
import Qm35.Hsspi.Waiting
import Qm35.Driver.BusExclusion
import Qm35.Uci.Session
import Qm35.Lib.Trace
import Qm35.Lib.OneCpu
import Qm35.Rom.Common
import Qm35.Rom.Said
import Qm35.Rom.Unstitch
import Qm35.Rom.A0
import Qm35.Rom.B0
import Qm35.Rom.C0
import Qm35.Rom.Flash
import Qm35.Coredump.Model
import Qm35.Rom.Stitch
import Qm35.Coredump.Reassembly
import Qm35.Coredump.Status
import Qm35.Coredump.Stall
import Qm35.Coredump.Reads
import Qm35.Log.Model
import Qm35.Log.Parse
import Qm35.Log.Decode
import Qm35.Log.Table
import Qm35.Log.Rendezvous
import Qm35.Rom.Heard
import Qm35.Rom.Fresh
import Qm35.Rom.Bounds
import Qm35.Rom.DbgCert
import Qm35.Rom.Probe
import Qm35.Rom.Operations
import Qm35.Driver.SsIrq
import Qm35.Driver.Power
import Qm35.Driver.Packets
import Qm35.Driver.Locks
import Qm35.Driver.Teardown
import Qm35.Hsspi.SsReady
import Qm35.Hsspi.Retry
import Qm35.Uci.Write
import Qm35.Uci.Read
import Qm35.Rom.Chunks
import Qm35.Rom.Identity
import Qm35.Driver.Regulators
import Qm35.Rom.Ready
import Qm35.Rom.Response
import Qm35.Lib.Meter
import Qm35.Rom.Budget
import Qm35.Lib.Ledger
import Qm35.Rom.Heap
import Qm35.Rom.Load
import Qm35.Lib.Along
import Qm35.Hsspi.Progress
import Qm35.Hsspi.Bus
import Qm35.Hsspi.Wakeup
import Qm35.Lib.Script
import Qm35.Rom.Transcript
import Qm35.Lib.Journal
import Qm35.Ring.Refine
import Qm35.Coredump.Transfer
import Qm35.Rom.DebugFiles
import Qm35.Lib.Cutting
import Qm35.Uci.Stream
import Qm35.Rom.LoadTranscript
import Qm35.Driver.CtrlState
import Qm35.Driver.RegulatorRaces
import Qm35.Lib.WaitQueue
import Qm35.Log.TraceFile
import Qm35.Log.TraceSessions
import Qm35.Uci.Waiting
