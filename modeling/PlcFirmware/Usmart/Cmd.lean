import PlcFirmware.Usmart.Str

/-!
# `usmart.c` and `usmart_config.c`

The table of registered functions, `usmart_cmd_rec`, which finds the function of a line and stores the
arguments, and `usmart_exe`, which calls it. A function is known by its place in the table; a call is
the place and the arguments. What is printed is left out, and so is `rval`, which is only printed.
-/

namespace PlcFirmware.Usmart

open Infra

/-- `usmart_nametab` -/
def usmartNametab : List (List UInt8) :=
  ["u32 read_addr(u32 addr)",
    "void write_addr(u32 addr,u32 val)",
    "void led_out(int n)",
    "u32 LAN8720_ReadPHY(u16 reg)",
    "void Init_Client(void)",
    "void Socket_init(void)",
    "void Send_File_Name(char* fileName)",
    "void Pause_Download(void)",
    "void Continue_Download(void)",
    "void Stop_Download(void)",
    "void STMFLASH_EraseSector(u32 WriteAddr)"].map bytes

/-- `usmart_dev` at the start. -/
def UsmartDev.start : UsmartDev := ⟨0, 0, fun _ => false, fun _ => 0⟩

/-- The loop of `usmart_cmd_rec` over the table, from entry `i` on. -/
def findFunction (r : Fname) : (i : Nat) → List (List UInt8) → Except Status Nat
  | _, [] => .error .noFuncFind
  | i, f :: funs =>
    let s := usmartGetFname f
    if s.res ≠ .ok then .error s.res
    else if s.fname = r.fname then
      if s.pnum > r.pnum then .error .parmErr else .ok i
    else findFunction r (i + 1) funs

/-- `usmart_cmd_rec` on a line with `behind` in memory behind its `NUL`. -/
def usmartCmdRec (funs : List (List UInt8)) (str behind : List UInt8) (d : UsmartDev) : Outcome :=
  let r := usmartGetFname str
  if r.res ≠ .ok then .ret r.res 0 d
  else
    match findFunction r 0 funs with
    | .error sta => .ret sta 0 d
    | .ok id =>
      match usmartGetFparam str behind { d with id := id } with
      | .ret .ok parn d => .ret .ok parn { d with pnum := parn }
      | out => out

/-- An element of `temp`: a number, or the address of a byte of `usmart_dev.mem`. -/
inductive Passed
  | num (v : UInt32)
  | addr (a : Nat)
  deriving DecidableEq

/-- Four bytes of memory as a number. -/
def UsmartDev.u32At (d : UsmartDev) (a : Nat) : UInt32 :=
  (d.mem a).toUInt32 + ((d.mem (a + 1)).toUInt32 <<< 8) + ((d.mem (a + 2)).toUInt32 <<< 16)
    + ((d.mem (a + 3)).toUInt32 <<< 24)

/-- `temp[i]` -/
def UsmartDev.temp (d : UsmartDev) (i : Nat) : Passed :=
  if d.parmtype i then .addr (d.parmAt i) else .num (d.u32At (d.parmAt i))

/--
`usmart_exe`: the function which is called and its arguments. `temp` is filled for the parameters of
the prototype, and as many elements are passed as arguments were stored; `none` in the list is an
element which has not been assigned.
-/
def usmartExe (funs : List (List UInt8)) (d : UsmartDev) : Option (Nat × List (Option Passed)) :=
  match funs[d.id]? with
  | none => none
  | some f =>
    let pnum := (usmartGetFname f).pnum
    if d.pnum ≤ maxParm then
      some (d.id, (List.range d.pnum).map fun i => if i < pnum then some (d.temp i) else none)
    else none

end PlcFirmware.Usmart
