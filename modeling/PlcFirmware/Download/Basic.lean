import PlcFirmware.Infra.CInt
import PlcFirmware.Infra.Machine
import PlcFirmware.Infra.Cells
import PlcFirmware.Flash.WriteDate

/-!
# The two download receivers

`Rev_file_task` (server side) and `Rev_Server_File_task` (client side) read frames from a socket

    station | sequence high | sequence low | length high | length low | payload

and answer each with one byte. Both are a `while (1)` with two receive loops in it, one for the
header and one for the payload. Every pass through any of the three loops starts with a `recv`, so
a task is a machine whose input is the result of the `recv` it waits in: `receive` runs the code
from there to the next `recv`, to the end of the receive loops, or to a `break`.

The two texts differ in the type of `newLength` (`u16` against `s16`), in the client leaving its
loop after an error reply, and in the client's `g_fileSize`. What is printed is left out.
-/

namespace PlcFirmware.Download

open Infra Flash

/-! ## The state of a task -/

/-- `RECV_BUF_SIZE` -/
def recvBufSize : Nat := 1405

/-- `DATA_MAX_LENGTH` -/
def dataMaxLength : Nat := 1405

/-- `PLC_NUMBER` -/
def plcNumber : UInt8 := 1

/-- The result of a `recv`: `-1`, or the bytes it delivered. No bytes is the result `0`. -/
inductive RecvResult
  | error
  | data (bytes : List UInt8)
  deriving DecidableEq

namespace RecvResult

/-- The `int` which `recv` returns. -/
def value : RecvResult → Int
  | error => -1
  | data bytes => bytes.length

/-- What it wrote to the buffer. -/
def bytes : RecvResult → List UInt8
  | error => []
  | data bytes => bytes

end RecvResult

/-- Which `recv` a task waits in: the first of a frame, the one of the header loop, the one of the
payload loop. `closed` is behind the `close`. -/
inductive Pc
  | first
  | header
  | payload
  | closed
  deriving DecidableEq

/--
The variables of a task. `calls` counts the HAL calls made so far, to look up their results.

`receiveData` is indexed from the start of the array; indices from the size of the array on stand
for whatever memory is behind it.
-/
structure RxState where
  pc : Pc
  receiveData : Nat → UInt8
  newLength : Int
  lastLength : Nat
  flag : Bool
  gFileSize : Nat
  calls : Nat

namespace RxState

/-- `receiveData[1]*256+receiveData[2]` -/
def seq (s : RxState) : Nat := (s.receiveData 1).toNat * 256 + (s.receiveData 2).toNat

/-- `receiveData[3]*256+receiveData[4]` -/
def declared (s : RxState) : Nat := (s.receiveData 3).toNat * 256 + (s.receiveData 4).toNat

end RxState

/-- What a task does that can be seen from outside. `recv` is the call, with its window. -/
inductive Event
  | recv (offset length : Nat)
  | flash (op : FlashOp)
  | send (b : UInt8)
  | close
  deriving DecidableEq

/-- Flash calls and replies. -/
def Event.isAct : Event → Bool
  | .flash _ => true
  | .send _ => true
  | _ => false

inductive Receiver
  | server
  | client
  deriving DecidableEq

namespace Receiver

/-- The type of `newLength`: `u16` in `Rev_file_task`, `s16` in `Rev_Server_File_task`. -/
def toLength : Receiver → Int → Int
  | server => u16
  | client => s16

def bufSize : Receiver → Nat
  | server => recvBufSize
  | client => dataMaxLength

@[simp] theorem bufSize_eq (rx : Receiver) : rx.bufSize = 1405 := by cases rx <;> rfl

end Receiver

/-! ## The receive loops -/

/-- Where the code gets to after a `recv`: the next `recv`, a complete frame, or a `break`. -/
inductive Progress
  | wait (s : RxState)
  | frame (s : RxState)
  | quit

/-- `if(flag==1) break;` -/
def testFlag (s : RxState) : Progress :=
  if s.flag then .quit else .frame s

/-- `while(newLength != (receiveData[3]*256+receiveData[4]+5))` -/
def testPayload (s : RxState) : Progress :=
  if s.newLength ≠ s.declared + 5 then .wait { s with pc := .payload } else testFlag s

/-- `if(0!=receiveData[1]*256+receiveData[2])` around the payload loop -/
def testSeq (s : RxState) : Progress :=
  if s.seq ≠ 0 then testPayload s else testFlag s

/-- `while(newLength < 5)` -/
def testHeader (s : RxState) : Progress :=
  if s.newLength < 5 then .wait { s with pc := .header } else testSeq s

/-- The assignment from `recv(sock, receiveData+offset, ...)` to `newLength`, added to `offset`. -/
def RxState.take (s : RxState) (rx : Receiver) (offset : Nat) (r : RecvResult) : RxState :=
  { s with
    receiveData := store s.receiveData offset r.bytes
    newLength := rx.toLength (offset + r.value) }

/-- `lastLength=newLength` -/
def RxState.advance (s : RxState) : RxState := { s with lastLength := (u16 s.newLength).toNat }

@[simp] theorem RxState.advance_newLength (s : RxState) : s.advance.newLength = s.newLength := rfl

@[simp] theorem RxState.advance_declared (s : RxState) : s.advance.declared = s.declared := rfl

/-- The code from a `recv` which returned `r` on. -/
def receive (rx : Receiver) (s : RxState) (r : RecvResult) : Progress :=
  match s.pc with
  | .first =>
    let s := s.take rx 0 r
    if s.newLength ≤ 0 ∨ s.newLength > rx.bufSize then .quit else testHeader s.advance
  | .header =>
    let s := s.take rx s.lastLength r
    -- the loop is left here, but the payload loop behind it may be entered
    if s.newLength = s.lastLength ∨ s.newLength > rx.bufSize then testSeq { s with flag := true }
    else testHeader s.advance
  | .payload =>
    let s := s.take rx s.lastLength r
    if s.newLength = s.lastLength ∨ s.newLength > rx.bufSize then testFlag { s with flag := true }
    else testPayload s.advance
  | .closed => .quit

/-! ## Handling a frame -/

/-- The flash calls and the reply for a frame, whether the code leaves its loop after it, and the
variables it changes. -/
structure Handled where
  ops : List FlashOp
  reply : UInt8
  leaves : Bool
  gFileSize : Nat
  calls : Nat

/-- `writeAddress=ADDR_FLASH_SECTOR_5+((receiveData[1]*256+receiveData[2])-1)*1400` -/
def RxState.writeAddress (s : RxState) : Nat := addrAdd addrFlashSector5 ((s.seq - 1) * 1400)

/-- `receiveData+5` -/
def RxState.payload (s : RxState) : Nat → UInt8 := fun i => s.receiveData (5 + i)

/-- `newLength-5`, converted to the `u16` parameter of `STMFLASH_WriteDate`. -/
def RxState.payloadLength (s : RxState) : Nat := (u16 (s.newLength - 5)).toNat

/-- What `Rev_file_task` does with a frame. -/
def revFileFrame (hal : Nat → HalStatus) (s : RxState) : Handled :=
  if s.receiveData 0 ≠ plcNumber then ⟨[], 0x03, false, s.gFileSize, s.calls⟩
  else if s.seq = 0 then
    let c := stmflashEraseSector addrFlashSector5 hal s.calls
    ⟨c.ops, 0x00, false, s.gFileSize, c.calls⟩
  else if s.declared ≠ s.newLength - 5 then ⟨[], 0x04, false, s.gFileSize, s.calls⟩
  -- for frame 188 only 344 bytes are left in the sector
  else if s.seq = 188 ∧ s.newLength - 5 > 344 then ⟨[], 0x05, false, s.gFileSize, s.calls⟩
  else
    let c := stmflashWriteDate s.payload hal s.writeAddress s.payloadLength s.calls
    ⟨c.ops, 0x01, false, s.gFileSize, c.calls⟩

/-- What `Rev_Server_File_task` does with a frame. -/
def revServerFileFrame (hal : Nat → HalStatus) (s : RxState) : Handled :=
  if s.receiveData 0 ≠ 1 then ⟨[], 0x03, true, s.gFileSize, s.calls⟩
  else if s.seq = 0 then
    let c := stmflashEraseSector addrFlashSector5 hal s.calls
    ⟨c.ops, 0x00, false, s.declared, c.calls⟩
  else if s.declared ≠ s.newLength - 5 then ⟨[], 0x04, true, s.gFileSize, s.calls⟩
  else if s.seq = 188 ∧ s.newLength - 5 > 344 then ⟨[], 0x05, true, s.gFileSize, s.calls⟩
  else
    let c := stmflashWriteDate s.payload hal s.writeAddress s.payloadLength s.calls
    ⟨c.ops, 0x01, false, s.gFileSize, c.calls⟩

def Receiver.onFrame : Receiver → (Nat → HalStatus) → RxState → Handled
  | server => revFileFrame
  | client => revServerFileFrame

/-! ## The machine -/

/-- `memset(receiveData, 0, ...)` at the head of the loop, before the first `recv` of a frame. -/
def RxState.restart (s : RxState) (rx : Receiver) : RxState :=
  { s with pc := .first, receiveData := fill s.receiveData 0 0 rx.bufSize }

/-- The window of the `recv` in which the task waits. The length is converted to `size_t`. -/
def RxState.window (s : RxState) (rx : Receiver) : Nat × Nat :=
  match s.pc with
  | .first => (0, rx.bufSize)
  | _ => (s.lastLength, (u32 (rx.bufSize - s.lastLength)).toNat)

def RxState.recvCall (s : RxState) (rx : Receiver) : Event :=
  .recv (s.window rx).1 (s.window rx).2

/-- The events of a handled frame. -/
def Handled.events (h : Handled) : List Event := h.ops.map .flash ++ [.send h.reply]

def RxState.handle (s : RxState) (rx : Receiver) (h : Handled) : RxState × List Event :=
  let s := { s with gFileSize := h.gFileSize, calls := h.calls }
  if h.leaves then ({ s with pc := .closed }, h.events ++ [.close])
  else (s.restart rx, h.events ++ [(s.restart rx).recvCall rx])

/-- A task, as a machine which reads the results of its `recv` calls. -/
def Receiver.task (rx : Receiver) (hal : Nat → HalStatus) : Machine RxState RecvResult Event where
  step s r :=
    match s.pc with
    | .closed => (s, [])
    | _ =>
      match receive rx s r with
      | .wait s' => (s', [s'.recvCall rx])
      | .frame s' => s'.handle rx (rx.onFrame hal s')
      | .quit => ({ s with pc := .closed }, [.close])

/-- `Rev_file_task` -/
abbrev revFileTask (hal : Nat → HalStatus) : Machine RxState RecvResult Event :=
  Receiver.server.task hal

/-- `Rev_Server_File_task` -/
abbrev revServerFileTask (hal : Nat → HalStatus) : Machine RxState RecvResult Event :=
  Receiver.client.task hal

/-- A task in its first `recv`. -/
def RxState.start (rx : Receiver) : RxState :=
  RxState.restart
    { pc := .first, receiveData := fun _ => 0, newLength := 0, lastLength := 0, flag := false,
      gFileSize := 0, calls := 0 } rx

/-- All events of a task from its start on. -/
def Receiver.events (rx : Receiver) (hal : Nat → HalStatus) (rs : List RecvResult) : List Event :=
  (RxState.start rx).recvCall rx :: (rx.task hal).trace (RxState.start rx) rs

/-- The steps of a task from its start on. -/
def Receiver.steps (rx : Receiver) (hal : Nat → HalStatus) (rs : List RecvResult) :
    List (RxState × RecvResult) :=
  (rx.task hal).transitions (RxState.start rx) rs

/-- `recv` delivers at most as many bytes as it was asked for. -/
def Fits (rx : Receiver) (s : RxState) (r : RecvResult) : Prop :=
  s.pc ≠ .closed → r.bytes.length ≤ (s.window rx).2

instance (rx : Receiver) (s : RxState) (r : RecvResult) : Decidable (Fits rx s r) :=
  inferInstanceAs (Decidable (_ → _))

end PlcFirmware.Download
