import PlcFirmware.Infra.Machine
import PlcFirmware.Lwip.TcpReceive

/-!
# The receiving path of a socket

What is between a segment of a TCP connection and `recv`: the pcb with the data it was refused, the mailbox
`recvmbox`, the counter `rcvevent`, and the rest of a buffer in `lastdata`. The thread of the stack has the
higher priority, so that what it does with a segment, a timer or a message is one step. The task which reads
gets on from one access of what they share to the next, and the steps of the thread come anywhere between.

The mailbox is a list, and a message to the thread with its answer is a place of the reader. `sys_mbox_valid`
says of a full mailbox what it says of one which does not exist, and both sides ask it.
-/

namespace PlcFirmware.Lwip

open Infra

/-! ## The connection for the stack -/

/-- The error codes which the path knows. -/
inductive ErrT
  | ok
  | mem
  | timeout
  | wouldblock
  | abrt
  | rst
  | clsd
  | conn
  deriving DecidableEq

/-- Their values. -/
def ErrT.code : ErrT → Int
  | .ok => 0
  | .mem => -1
  | .timeout => -3
  | .wouldblock => -7
  | .abrt => -10
  | .rst => -11
  | .clsd => -12
  | .conn => -13

/-- `ERR_IS_FATAL`; `ERR_ISCONN` is -9. -/
def ErrT.fatal (e : ErrT) : Bool := e.code < -9

/-- `DEFAULT_TCP_RECVMBOX_SIZE`, which is `MAX_QUEUE_ENTRIES` -/
def defaultTcpRecvmboxSize : Nat := 20

/-- `struct netconn`, with `rcvevent` of its socket. Before `accept` the socket is negative and counts. -/
structure Netconn where
  recvmbox : List (Option Pbuf)
  lastErr : ErrT
  socket : Int
  rcvevent : Int
  recvTimeout : Nat

/-- `sys_mbox_valid` of `recvmbox` -/
def Netconn.sysMboxValid (conn : Netconn) : Bool := conn.recvmbox.length < defaultTcpRecvmboxSize

/-- `NETCONN_SET_SAFE_ERR` -/
def Netconn.setSafeErr (err : ErrT) (conn : Netconn) : Netconn :=
  if conn.lastErr.fatal then conn else { conn with lastErr := err }

/-- `event_callback` with `NETCONN_EVT_RCVPLUS` -/
def Netconn.rcvplus (conn : Netconn) : Netconn :=
  if conn.socket < 0 then { conn with socket := conn.socket - 1 }
  else { conn with rcvevent := conn.rcvevent + 1 }

/-- `event_callback` with `NETCONN_EVT_RCVMINUS` -/
def Netconn.rcvminus (conn : Netconn) : Netconn :=
  if conn.socket < 0 then conn else { conn with rcvevent := conn.rcvevent - 1 }

/--
`recv_tcp`; `none` is the end of the stream. What comes to a full mailbox is thrown away, and the window is
opened as if it had been read.
-/
def recvTcp (sent : Bool) (p : Option Pbuf) (pcb : TcpPcb) (conn : Netconn) : TcpPcb × Netconn × ErrT :=
  if conn.sysMboxValid then
    let conn := conn.setSafeErr .ok
    -- `sys_mbox_trypost`
    if conn.recvmbox.length < defaultTcpRecvmboxSize then
      (pcb, Netconn.rcvplus { conn with recvmbox := conn.recvmbox ++ [p] }, .ok)
    else (pcb, conn, .mem)
  else
    match p with
    | some p => (tcpRecved sent p.payload.length pcb, conn, .ok)
    | none => (pcb, conn, .ok)

/-- `err_tcp`, what is about receiving -/
def errTcp (err : ErrT) (conn : Netconn) : Netconn :=
  let conn := Netconn.rcvplus { conn with lastErr := err }
  if conn.sysMboxValid then { conn with recvmbox := conn.recvmbox ++ [none] } else conn

/-- The window without the FIN, and `TCP_EVENT_CLOSED`. Nobody looks at what it returns. -/
def tcpEventClosed (pcb : TcpPcb) (conn : Netconn) : TcpPcb × Netconn :=
  let pcb := { pcb with rcvWnd := if pcb.rcvWnd ≠ tcpWnd then (pcb.rcvWnd + 1) % 2 ^ 16 else pcb.rcvWnd }
  match recvTcp false none pcb conn with
  | (pcb, conn, _) => (pcb, conn)

/-- `tcp_process_refused_data` -/
def tcpProcessRefusedData (sent : Bool) (refused : Pbuf) (pcb : TcpPcb) (conn : Netconn) :
    TcpPcb × Netconn :=
  let pcb := { pcb with refusedData := none }
  match recvTcp sent (some refused) pcb conn with
  | (pcb, conn, .ok) => if refused.fin then tcpEventClosed pcb conn else (pcb, conn)
  | (pcb, conn, _) => ({ pcb with refusedData := some refused }, conn)

/-- If there is refused data, it is presented again. -/
def tcpAgain (sent : Bool) (pcb : TcpPcb) (conn : Netconn) : TcpPcb × Netconn :=
  match pcb.refusedData with
  | some refused => tcpProcessRefusedData sent refused pcb conn
  | none => (pcb, conn)

/-- `TCP_EVENT_RECV` in `tcp_input`, where `tcp_output` does nothing: what is refused is kept. -/
def tcpEventRecv (recvData : Option Pbuf) (pcb : TcpPcb) (conn : Netconn) : TcpPcb × Netconn :=
  match recvData with
  | none => (pcb, conn)
  | some p =>
    match recvTcp false (some p) pcb conn with
    | (pcb, conn, .ok) => (pcb, conn)
    | (pcb, conn, _) => ({ pcb with refusedData := some p }, conn)

/-- The flag `TF_GOT_FIN` in `tcp_input`: the end waits for refused data. -/
def tcpGotFin (pcb : TcpPcb) (conn : Netconn) : TcpPcb × Netconn :=
  match pcb.refusedData with
  | some p => ({ pcb with refusedData := some { p with fin := true } }, conn)
  | none => tcpEventClosed pcb conn

/-- `tcp_input` with a segment of the connection; without a pcb the connection is reset. -/
def tcpInput (sent : Bool) (seg : TcpSeg) (pcb : TcpPcb) (conn : Netconn) :
    Option TcpPcb × Netconn :=
  let (pcb, conn) := tcpAgain sent pcb conn
  if pcb.refusedData ≠ none ∧ seg.tcplen > 0 then (some pcb, conn)
  else
    match tcpProcess sent pcb seg with
    | none => (none, errTcp .rst conn)
    | some r =>
      let (pcb, conn) := tcpEventRecv r.recvData r.pcb conn
      let (pcb, conn) := if r.gotFin then tcpGotFin pcb conn else (pcb, conn)
      (some (tcpOutput sent pcb), conn)

/-- `tcp_fasttmr`, for this pcb -/
def tcpFasttmr (sent : Bool) (pcb : TcpPcb) (conn : Netconn) : TcpPcb × Netconn :=
  let pcb :=
    if pcb.ackDelay then
      { tcpOutput sent (tcpAckNow pcb) with ackDelay := false, ackNow := false }
    else pcb
  tcpAgain sent pcb conn

/-- `tcp_keepalive` and `tcp_zero_window_probe`, if there is memory for the probe. -/
def tcpProbe (pcb : TcpPcb) : TcpPcb :=
  { pcb with rcvAnnRightEdge := pcb.rcvNxt + BitVec.ofNat 32 pcb.rcvAnnWnd }

/-- The loop of `do_recv`, in at most `fuel` rounds. -/
def doRecvLoop (sent : Bool) : Nat → Nat → TcpPcb → TcpPcb
  | 0, _, pcb => pcb
  | fuel + 1, remaining, pcb =>
    let recved := if remaining > 0xffff then 0xffff else remaining
    let pcb := tcpRecved sent recved pcb
    let remaining := remaining - recved
    if remaining ≠ 0 then doRecvLoop sent fuel remaining pcb else pcb

/-- `do_recv` -/
def doRecv (sent : Bool) (len : Nat) (pcb : TcpPcb) : TcpPcb := doRecvLoop sent (len + 1) len pcb

/-! ## The reader -/

/-- The variables of `lwip_recvfrom`: two flags, what is left of `len`, and what has been copied. -/
structure Locals where
  dontwait : Bool
  peek : Bool
  len : Nat
  mem : List UInt8

/-- Where the reader is. -/
inductive Place
  /-- not in a call -/
  | idle
  /-- at the top of the loop of `lwip_recvfrom` -/
  | top (v : Locals)
  /-- in `netconn_recv_data` -/
  | recvData (v : Locals)
  /-- in `sys_arch_mbox_fetch` -/
  | fetch (v : Locals)
  /-- waits for `do_recv`, with the end of the stream in hand -/
  | eof (v : Locals)
  /-- behind that -/
  | closed (v : Locals)
  /-- has fetched data -/
  | got (v : Locals) (p : Pbuf)
  /-- before the copy -/
  | copy (v : Locals)
  /-- waits for `do_recv` of `netconn_recved`, and then returns -/
  | recved (v : Locals)

/-- The path: what the thread and the reader share, `lastdata`, and all that has been read so far. -/
structure RecvPath where
  pcb : Option TcpPcb
  conn : Netconn
  lastdata : Option Pbuf
  lastoffset : Nat
  place : Place
  read : List UInt8

/-- What `recv` does: it returns bytes, or 0 because of `ERR_CLSD`, or -1. -/
inductive RecvOut
  | returned (peek : Bool) (data : List UInt8)
  | closed
  | failed (err : ErrT)
  deriving DecidableEq

namespace RecvPath

/-- `netconn_recv_tcp_pbuf` has failed, or would wait: what has been copied is returned anyway. -/
def fail (v : Locals) (err : ErrT) (s : RecvPath) : RecvPath × List RecvOut :=
  if v.mem ≠ [] then ({ s with place := .recved v }, [])
  else ({ s with place := .idle }, [if err = .clsd then .closed else .failed err])

/-- What `lwip_recvfrom` keeps of the buffer, unless it peeks. -/
def leave (peek : Bool) (buflen copylen : Nat) (s : RecvPath) : RecvPath :=
  if peek then s
  else if buflen - copylen > 0 then { s with lastoffset := s.lastoffset + copylen }
  else { s with lastdata := none, lastoffset := 0 }

/-- The part of the loop of `lwip_recvfrom` behind `netconn_recv_tcp_pbuf`. -/
def copyOut (v : Locals) (p : Pbuf) (s : RecvPath) : RecvPath × List RecvOut :=
  let buflen := p.payload.length - s.lastoffset
  let copylen := if v.len > buflen then buflen else v.len
  let mem := v.mem ++ (p.payload.drop s.lastoffset).take copylen
  let w := { v with len := v.len - copylen, mem := mem }
  let done := w.len = 0 ∨ p.push = true ∨ s.conn.rcvevent ≤ 0 ∨ v.peek = true
  let s := s.leave v.peek buflen copylen
  if done then
    if mem ≠ [] then ({ s with place := .recved w }, [])
    else ({ s with place := .idle }, [.returned v.peek []])
  else ({ s with place := .top w }, [])

/-- The reader goes on to its next access. -/
def go (s : RecvPath) : RecvPath × List RecvOut :=
  match s.place with
  | .top v =>
    if s.lastdata ≠ none then ({ s with place := .copy v }, [])
    else if v.dontwait = true ∧ s.conn.rcvevent ≤ 0 then s.fail v .wouldblock
    else ({ s with place := .recvData v }, [])
  | .recvData v =>
    if s.conn.sysMboxValid = false then s.fail v .conn
    else if s.conn.lastErr.fatal then s.fail v s.conn.lastErr else ({ s with place := .fetch v }, [])
  | .fetch v =>
    match s.conn.recvmbox with
    | [] => (s, [])
    | none :: rest =>
      ({ s with conn := { s.conn with recvmbox := rest }, place := .eof v }, [])
    | some p :: rest =>
      ({ s with conn := { s.conn with recvmbox := rest }, place := .got v p }, [])
  | .closed v => fail v .clsd { s with conn := s.conn.rcvminus.setSafeErr .clsd }
  | .got v p =>
    ({ s with conn := s.conn.rcvminus, lastdata := some p, place := .copy v }, [])
  | .copy v =>
    match s.lastdata with
    | none => (s, [])
    | some p => s.copyOut v p
  | .idle | .eof _ | .recved _ => (s, [])

/-- The thread handles the message which the reader waits for. -/
def answer (sent : Bool) (s : RecvPath) : RecvPath × List RecvOut :=
  match s.place with
  | .eof v => ({ s with pcb := s.pcb.map (doRecv sent 1), place := .closed v }, [])
  | .recved v =>
    ({ s with
        pcb := s.pcb.map (doRecv sent v.mem.length)
        place := .idle
        read := if v.peek then s.read else s.read ++ v.mem }, [.returned v.peek v.mem])
  | _ => (s, [])

end RecvPath

/-- A step: of the network and the timers, of the thread, or of the reader. -/
inductive RecvInput
  | segment (seg : TcpSeg) (sent : Bool)
  | fasttmr (sent : Bool)
  | output
  | probe
  | abort
  | accept (s : Nat)
  | call (dontwait peek : Bool) (len : Nat)
  | go
  | answer (sent : Bool)
  | timeout

/-- A step which is not possible in the state does nothing. -/
def RecvPath.step (s : RecvPath) : RecvInput → RecvPath × List RecvOut
  | .segment seg sent =>
    match s.pcb with
    | some pcb =>
      let (pcb, conn) := tcpInput sent seg pcb s.conn
      ({ s with pcb := pcb, conn := conn }, [])
    | none => (s, [])
  | .fasttmr sent =>
    match s.pcb with
    | some pcb =>
      let (pcb, conn) := tcpFasttmr sent pcb s.conn
      ({ s with pcb := some pcb, conn := conn }, [])
    | none => (s, [])
  | .output => ({ s with pcb := s.pcb.map (tcpOutput true) }, [])
  | .probe => ({ s with pcb := s.pcb.map tcpProbe }, [])
  | .abort =>
    -- the pcb is given up after a timeout, or is aborted
    match s.pcb with
    | some _ => ({ s with pcb := none, conn := errTcp .abrt s.conn }, [])
    | none => (s, [])
  | .accept socket =>
    if s.conn.socket < 0 then
      ({ s with
          conn := { s.conn with
            rcvevent := s.conn.rcvevent + (-1 - s.conn.socket), socket := socket } }, [])
    else (s, [])
  | .call dontwait peek len =>
    match s.place with
    | .idle =>
      if s.conn.socket < 0 then (s, [])
      else ({ s with place := .top ⟨dontwait, peek, len, []⟩ }, [])
    | _ => (s, [])
  | .go => s.go
  | .answer sent => s.answer sent
  | .timeout =>
    match s.place with
    | .fetch v =>
      if s.conn.recvTimeout ≠ 0 then
        RecvPath.fail v .timeout { s with conn := s.conn.setSafeErr .timeout }
      else (s, [])
    | _ => (s, [])

/-- The path as a machine. -/
def recvPath : Machine RecvPath RecvInput RecvOut := ⟨RecvPath.step⟩

/-- A connection as it is established, with the whole window announced. -/
def RecvPath.start (irs : BitVec 32) (mss recvTimeout : Nat) (socket : Int) : RecvPath where
  pcb := some
    { state := .established
      rcvNxt := irs
      rcvWnd := tcpWnd
      rcvAnnWnd := tcpWnd
      rcvAnnRightEdge := irs + BitVec.ofNat 32 tcpWnd
      mss := mss
      ackDelay := false
      ackNow := false
      refusedData := none }
  conn := ⟨[], .ok, socket, 0, recvTimeout⟩
  lastdata := none
  lastoffset := 0
  place := .idle
  read := []

end PlcFirmware.Lwip
