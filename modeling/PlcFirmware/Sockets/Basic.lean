import PlcFirmware.Infra.Machine
import PlcFirmware.Infra.Slots

/-!
# The two services and their sockets

The client service (`Init_Client`) and the server service (`Socket_init`) are six tasks, which share the
table of sockets of lwIP. A task is known by where it is in its function. A step is a console command,
or a task making its next call: a socket function and what is done at once with its result,
`OSTaskCreate`, or `OSTaskDel`. Steps come in any order.

The network, the memory of lwIP and the number of tasks decide whether a call succeeds; the input says
so.
-/

namespace PlcFirmware.Sockets

open Infra

/-! ## Sockets -/

/-- Who made a socket: `socket` in one of the services, or `accept`. -/
inductive Origin
  | client
  | server
  | accepted
  deriving DecidableEq

/-- What is behind a descriptor. The port is 0 until `bind`. -/
structure Sock where
  origin : Origin
  localPort : Nat
  listening : Bool
  deriving DecidableEq

/-- `sockets`; `NUM_SOCKETS` is 4. -/
abbrev Table := Slots Sock 4

/-- `SERVER_PORT` -/
def serverPort : Nat := 8000

/-- `lwip_socket` -/
def lwipSocket (ok : Bool) (origin : Origin) (t : Table) : Table × Int :=
  if ok then t.alloc ⟨origin, 0, false⟩ else (t, -1)

/-- `lwip_close` -/
def lwipClose (s : Int) (t : Table) : Table := t.close s

/-- `lwip_bind`. A port which is in use is `ERR_USE`. -/
def lwipBind (ok : Bool) (s : Int) (port : Nat) (t : Table) : Table × Int :=
  if (t.get s).isSome ∧ ok ∧ ¬t.any (·.localPort = port) then
    (t.modify s fun sock => { sock with localPort := port }, 0)
  else (t, -1)

/-- `lwip_listen` -/
def lwipListen (ok : Bool) (s : Int) (t : Table) : Table × Int :=
  if (t.get s).isSome ∧ ok then (t.modify s fun sock => { sock with listening := true }, 0)
  else (t, -1)

/-- The end of `lwip_accept`: a client has connected, or the call fails. -/
def lwipAccept (ok : Bool) (s : Int) (t : Table) : Table × Int :=
  match t.get s with
  | some sock => if sock.listening ∧ ok then t.alloc ⟨.accepted, sock.localPort, false⟩ else (t, -1)
  | none => (t, -1)

/-! ## The tasks -/

/-- Before which call `Init_Client_task` is. -/
inductive InitClientTask
  | close
  | socket
  | create
  | del
  deriving DecidableEq

/-- Before which call `Connect_Server_task` is. -/
inductive ConnectServerTask
  | connect
  | close
  | create
  | del
  deriving DecidableEq

/-- Before which call `Rev_Server_File_task` is. -/
inductive RevServerFileTask
  | recv
  | close
  | del
  deriving DecidableEq

/-- Before which call `Socket_task` is. -/
inductive SocketTask
  | socket
  | bind
  | listen
  | create
  | del
  deriving DecidableEq

/-- Before which call `Connect_client_task` is, or in which it waits. -/
inductive ConnectClientTask
  | accept
  | accepting (s : Int)
  | create
  | del
  deriving DecidableEq

/-- Before which call `Rev_file_task` is; it takes `sock_conn` when it starts. -/
inductive RevFileTask
  | start
  | recv (sockConn : Int)
  | close (sockConn : Int)
  | create
  | del
  deriving DecidableEq

/-- The sockets, the three global descriptors, and the tasks which exist. -/
structure Sys where
  sockets : Table
  sockConnect : Int
  sockFd : Int
  sockConn : Int
  initClient : Option InitClientTask
  connectServer : Option ConnectServerTask
  revServerFile : Option RevServerFileTask
  socket : Option SocketTask
  connectClient : Option ConnectClientTask
  revFile : Option RevFileTask

/-- The globals are cleared and no task is there. -/
def Sys.boot : Sys := ⟨.empty, 0, 0, 0, none, none, none, none, none, none⟩

/-- `OSTaskCreate`. There is one task at a priority. -/
def osTaskCreate {α : Type} (ok : Bool) (start : α) (task : Option α) : Option α :=
  if task.isNone ∧ ok then some start else task

/--
What a step shows: what the client service does with `sock_connect`, what `Socket_task` stores in
`sock_fd`, and the socket on which `Connect_client_task` begins to wait.
-/
inductive Event
  | clientSocket (sockConnect : Int)
  | clientClose (sock : Option Sock)
  | serverSocket (sockFd : Int)
  | serverAccept (sock : Option Sock)

/-- `close(sock_connect)` -/
def Sys.closeConnect (s : Sys) : Sys × List Event :=
  ({ s with sockets := lwipClose s.sockConnect s.sockets },
    [.clientClose (s.sockets.get s.sockConnect)])

def initClientTask (ok : Bool) (s : Sys) : Sys × List Event :=
  match s.initClient with
  | none => (s, [])
  | some .close =>
    let (s, events) := s.closeConnect
    ({ s with initClient := some .socket }, events)
  | some .socket =>
    let (t, sockConnect) := lwipSocket ok .client s.sockets
    ({ s with
        sockets := t
        sockConnect := sockConnect
        initClient := some (if sockConnect = -1 then .del else .create) },
      [.clientSocket sockConnect])
  | some .create =>
    ({ s with
        connectServer := osTaskCreate ok .connect s.connectServer
        initClient := some .del }, [])
  | some .del => ({ s with initClient := none }, [])

def connectServerTask (ok : Bool) (s : Sys) : Sys × List Event :=
  match s.connectServer with
  | none => (s, [])
  | some .connect => ({ s with connectServer := some (if ok then .create else .close) }, [])
  | some .close =>
    let (s, events) := s.closeConnect
    ({ s with connectServer := some .del }, events)
  | some .create =>
    ({ s with
        revServerFile := osTaskCreate ok .recv s.revServerFile
        connectServer := some .del }, [])
  | some .del => ({ s with connectServer := none }, [])

/-- Whether the loop over `recv` goes on is up to the peer. -/
def revServerFileTask (ok : Bool) (s : Sys) : Sys × List Event :=
  match s.revServerFile with
  | none => (s, [])
  | some .recv => if ok then (s, []) else ({ s with revServerFile := some .close }, [])
  | some .close =>
    let (s, events) := s.closeConnect
    ({ s with revServerFile := some .del }, events)
  | some .del => ({ s with revServerFile := none }, [])

def socketTask (ok : Bool) (s : Sys) : Sys × List Event :=
  match s.socket with
  | none => (s, [])
  | some .socket =>
    let (t, sockFd) := lwipSocket ok .server s.sockets
    ({ s with
        sockets := t
        sockFd := sockFd
        socket := some (if sockFd = -1 then .del else .bind) },
      [.serverSocket sockFd])
  | some .bind =>
    let (t, err) := lwipBind ok s.sockFd serverPort s.sockets
    ({ s with sockets := t, socket := some (if err < 0 then .del else .listen) }, [])
  | some .listen =>
    let (t, err) := lwipListen ok s.sockFd s.sockets
    ({ s with sockets := t, socket := some (if err < 0 then .del else .create) }, [])
  | some .create =>
    ({ s with
        connectClient := osTaskCreate ok .accept s.connectClient
        socket := some .del }, [])
  | some .del => ({ s with socket := none }, [])

/-- The value which `accept` returns is not looked at. -/
def connectClientTask (ok : Bool) (s : Sys) : Sys × List Event :=
  match s.connectClient with
  | none => (s, [])
  | some .accept =>
    ({ s with connectClient := some (.accepting s.sockFd) },
      [.serverAccept (s.sockets.get s.sockFd)])
  | some (.accepting fd) =>
    let (t, sockConn) := lwipAccept ok fd s.sockets
    ({ s with sockets := t, sockConn := sockConn, connectClient := some .create }, [])
  | some .create =>
    ({ s with
        revFile := osTaskCreate ok .start s.revFile
        connectClient := some .del }, [])
  | some .del => ({ s with connectClient := none }, [])

/-- Whether the loop over `recv` goes on is up to the peer. -/
def revFileTask (ok : Bool) (s : Sys) : Sys × List Event :=
  match s.revFile with
  | none => (s, [])
  | some .start => ({ s with revFile := some (.recv s.sockConn) }, [])
  | some (.recv sockConn) =>
    if ok then (s, []) else ({ s with revFile := some (.close sockConn) }, [])
  | some (.close sockConn) =>
    ({ s with sockets := lwipClose sockConn s.sockets, revFile := some .create }, [])
  | some .create =>
    ({ s with
        connectClient := osTaskCreate ok .accept s.connectClient
        revFile := some .del }, [])
  | some .del => ({ s with revFile := none }, [])

/-! ## The system -/

inductive Task
  | initClient
  | connectServer
  | revServerFile
  | socket
  | connectClient
  | revFile
  deriving DecidableEq

inductive Input
  | initClient (ok : Bool)
  | socketInit (ok : Bool)
  | task (t : Task) (ok : Bool)
  deriving DecidableEq

/-- `Init_Client`, `Socket_init`, or the next call of a task. -/
def Sys.step (s : Sys) : Input → Sys × List Event
  | .initClient ok => ({ s with initClient := osTaskCreate ok .close s.initClient }, [])
  | .socketInit ok => ({ s with socket := osTaskCreate ok .socket s.socket }, [])
  | .task .initClient ok => initClientTask ok s
  | .task .connectServer ok => connectServerTask ok s
  | .task .revServerFile ok => revServerFileTask ok s
  | .task .socket ok => socketTask ok s
  | .task .connectClient ok => connectClientTask ok s
  | .task .revFile ok => revFileTask ok s

/-- Runs of the two services. -/
def services : Machine Sys Input Event := ⟨Sys.step⟩

end PlcFirmware.Sockets
