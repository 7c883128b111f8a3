import PlcFirmware.Infra.CInt
import PlcFirmware.Infra.CString
import PlcFirmware.Infra.Machine
import PlcFirmware.Infra.Runs
import PlcFirmware.Infra.Stages
import PlcFirmware.Infra.Ledger
import PlcFirmware.Infra.Simulation
import PlcFirmware.Infra.Alarms
import PlcFirmware.Infra.DeltaList
import PlcFirmware.Infra.Cells
import PlcFirmware.Infra.Ring
import PlcFirmware.Infra.Deque
import PlcFirmware.Infra.FreeList
import PlcFirmware.Infra.Slots
import PlcFirmware.Infra.BitTable
import PlcFirmware.Infra.SerialNumber
import PlcFirmware.Infra.Segments
import PlcFirmware.Infra.Cyclic
import PlcFirmware.Infra.DownCounter
import PlcFirmware.Infra.While
import PlcFirmware.Flash.Basic
import PlcFirmware.Flash.WriteDate
import PlcFirmware.Flash.Prefix
import PlcFirmware.Flash.Write
import PlcFirmware.Flash.Lock
import PlcFirmware.Download.Basic
import PlcFirmware.Download.Receive
import PlcFirmware.Download.Sector
import PlcFirmware.Download.Ack
import PlcFirmware.Download.Window
import PlcFirmware.Download.Frame
import PlcFirmware.Download.RecvError
import PlcFirmware.Download.Framing
import PlcFirmware.Download.LengthError
import PlcFirmware.Download.Twin
import PlcFirmware.Download.Transfer
import PlcFirmware.Malloc.Basic
import PlcFirmware.Malloc.Search
import PlcFirmware.Malloc.Spec
import PlcFirmware.Malloc.Requests
import PlcFirmware.Malloc.Highest
import PlcFirmware.Malloc.CommInit
import PlcFirmware.Malloc.AllOrNothing
import PlcFirmware.Malloc.Invariant
import PlcFirmware.Malloc.Free
import PlcFirmware.Malloc.Realloc
import PlcFirmware.Usmart.Str
import PlcFirmware.Usmart.Cmd
import PlcFirmware.Usmart.Aparm
import PlcFirmware.Usmart.Number
import PlcFirmware.Usmart.Str2num
import PlcFirmware.Usmart.Command
import PlcFirmware.Usmart.Arguments
import PlcFirmware.Usmart.Reading
import PlcFirmware.Usmart.Fname
import PlcFirmware.Usmart.Stored
import PlcFirmware.Usmart.Fparam
import PlcFirmware.Usmart.RoundTrip
import PlcFirmware.Usmart.Scan
import PlcFirmware.Usmart.ParmTable
import PlcFirmware.Usmart.Accepted
import PlcFirmware.Usmart.NameBuffers
import PlcFirmware.Usmart.Counting
import PlcFirmware.Usmart.Prototype
import PlcFirmware.Ucos.Queue
import PlcFirmware.Ucos.PrioTable
import PlcFirmware.Ucos.Core
import PlcFirmware.Ucos.Calls
import PlcFirmware.Ucos.Lists
import PlcFirmware.Ucos.QueueCalls
import PlcFirmware.Ucos.Pools
import PlcFirmware.Ucos.System
import PlcFirmware.Ucos.Preempt
import PlcFirmware.Ucos.FreeLists
import PlcFirmware.Ucos.Whole
import PlcFirmware.Ucos.CallOk
import PlcFirmware.Ucos.Scheduling
import PlcFirmware.Ucos.Pends
import PlcFirmware.Ucos.OtherEvents
import PlcFirmware.Ucos.Ticks
import PlcFirmware.Ucos.Waiting
import PlcFirmware.Ucos.Undeleted
import PlcFirmware.Ucos.Semaphore
import PlcFirmware.Ucos.QueueRuns
import PlcFirmware.Ucos.Refine
import PlcFirmware.SysArch.Elapsed
import PlcFirmware.SysArch.Timeout
import PlcFirmware.SysArch.Mbox
import PlcFirmware.SysArch.Valid
import PlcFirmware.SysArch.Apart
import PlcFirmware.SysArch.Fifo
import PlcFirmware.Lwip.TcpReceive
import PlcFirmware.Lwip.RecvPath
import PlcFirmware.Lwip.RecvStream
import PlcFirmware.Lwip.RecvEvents
import PlcFirmware.Lwip.RecvWindow
import PlcFirmware.Lwip.Timers
import PlcFirmware.Lwip.TcpipThread
import PlcFirmware.Eth.Rx
import PlcFirmware.Eth.Drain
import PlcFirmware.Eth.Input
import PlcFirmware.Eth.Tx
import PlcFirmware.Eth.Output
import PlcFirmware.Sockets.Basic
import PlcFirmware.Sockets.Invariant
import PlcFirmware.Sockets.Client
import PlcFirmware.Sockets.Server
import PlcFirmware.Sockets.FileName
import PlcFirmware.Serial.Receive
import PlcFirmware.Serial.Framing
import PlcFirmware.Serial.Interleaving
import PlcFirmware.Delay.Basic
import PlcFirmware.Delay.Millis
