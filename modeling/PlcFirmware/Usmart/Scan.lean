import PlcFirmware.Usmart.Cmd

/-!
# `usmart_scan`

A received line goes to `usmart_cmd_rec`, and where that finds no call in it to `usmart_sys_cmd_exe`.
Each of these functions, and `usmart_exe`, has arrays of `MAX_FNAME_LEN` bytes for names, which the
scanners fill through a bare pointer. What is noted here of each call of a scanner is how many bytes it
writes there. Behind a write outside of an array the program is modelled as if there had been room.

A line lies in `USART_RX_BUF` with a `NUL` behind it, and behind that lies what `behind` holds, as far
as memory can be read. `usmart_get_aparm` gets there when a string is open at the `NUL`.
-/

namespace PlcFirmware.Usmart

/-- `USART_REC_LEN` -/
def usartRecLen : Nat := 200

/-- `MAX_FNAME_LEN` -/
def maxFnameLen : Nat := 30

/-- A line as `USART_RX_BUF` holds it, with the place for the `NUL` left. -/
structure Line where
  text : List UInt8
  fits : text.length < usartRecLen
  nul : 0 ∉ text

/-- `rfname` and `sfname` of `usmart_cmd_rec`, `sfname` of `usmart_exe` and of
`usmart_sys_cmd_exe`. -/
inductive NameBuffer
  | recRfname
  | recSfname
  | exeSfname
  | sysSfname
  deriving DecidableEq

/-- A call of a scanner fills a name buffer from its start on. -/
structure NameWrite where
  buffer : NameBuffer
  count : Nat
  deriving DecidableEq

/-- The call of `usmart_get_fname` on `str` which writes the name to `buffer`. -/
def fnameWrite (buffer : NameBuffer) (str : List UInt8) : NameWrite :=
  ⟨buffer, (usmartGetFname str).fname.length + 1⟩

/-! ## `usmart_get_cmdname` -/

/-- The loop of `usmart_get_cmdname`, with the result 0 as `true`. `nlen` is the length of what has
been copied. -/
def cmdnameLoop (maxlen : Nat) (cmdname : List UInt8) : List UInt8 → Bool × List UInt8
  | [] => (true, cmdname)
  | c :: str =>
    if c = ch ' ' then (true, cmdname)
    else
      let cmdname := cmdname ++ [c]
      if cmdname.length ≥ maxlen then (false, cmdname) else cmdnameLoop maxlen cmdname str

/-- `usmart_get_cmdname` -/
def usmartGetCmdname (maxlen : Nat) (str : List UInt8) : Bool × List UInt8 :=
  cmdnameLoop maxlen [] str

/-- The call of `usmart_get_cmdname`: the `NUL` is only written where the name is accepted. -/
def cmdnameWrite (r : Bool × List UInt8) : NameWrite :=
  ⟨.sysSfname, if r.1 then r.2.length + 1 else r.2.length⟩

/-! ## `usmart_sys_cmd_exe` -/

/-- `sys_cmd_tab` -/
def sysCmdTab : List (List UInt8) := ["?", "help", "list", "id", "hex", "dec", "runtime"].map bytes

/-- `SP_TYPE_DEC` and `SP_TYPE_HEX` -/
inductive SpType
  | dec
  | hex
  deriving DecidableEq

/-- The fields of `usmart_dev` which the system commands set. -/
structure Display where
  sptype : SpType
  runtimeflag : UInt8

/-- What `usmart_sys_cmd_exe` does and returns; `none` where it reads on to the end of memory. -/
structure SysCmd where
  writes : List NameWrite
  sta : Option Status
  display : Display

/--
The argument of `hex`, `dec` and `runtime`. `value` is what is done with a number, `bare` what is done
without one.
-/
def SysCmd.ofArg (s : Display) (value : UInt32 → Display) (bare : Option Display) (a : Aparm) :
    Status × Display :=
  if a.ptype = .number then
    match usmartStr2num a.fparm, bare with
    | (0, res), _ => (.ok, value res)
    | (4, _), some s => (.ok, s)
    | _, _ => (.parmErr, s)
  else (.parmErr, s)

/-- `usmart_sys_cmd_exe` on a line with `behind` in memory behind its `NUL`. -/
def usmartSysCmdExe (str behind : List UInt8) (s : Display) : SysCmd :=
  let r := usmartGetCmdname maxFnameLen str
  let name := cmdnameWrite r
  if r.1 = false then ⟨[name], some .funcErr, s⟩
  else
    let arg := usmartGetAparm (str.drop r.2.length ++ 0 :: behind)
    let withArg (value : UInt32 → Display) (bare : Option Display) : SysCmd :=
      let e := SysCmd.ofArg s value bare arg.1
      ⟨[name, ⟨.sysSfname, written arg⟩], if arg.2 then some e.1 else none, if arg.2 then e.2 else s⟩
    match sysCmdTab.idxOf r.2 with
    | 0 | 1 | 2 => ⟨[name], some .ok, s⟩
    | 3 => ⟨name :: usmartNametab.map (fnameWrite .sysSfname), some .ok, s⟩
    | 4 => withArg (fun _ => s) (some { s with sptype := .hex })
    | 5 => withArg (fun _ => s) (some { s with sptype := .dec })
    | 6 => withArg (fun res => { s with runtimeflag := res.toUInt8 }) none
    | _ => ⟨[name], some .funcErr, s⟩

/-! ## The scan -/

/-- The names which the loop of `usmart_cmd_rec` over the table writes to `sfname`. -/
def tableWrites (r : Fname) : List (List UInt8) → List NameWrite
  | [] => []
  | f :: funs =>
    let s := usmartGetFname f
    fnameWrite .recSfname f :: if s.res ≠ .ok ∨ s.fname = r.fname then [] else tableWrites r funs

/-- The names which `usmart_cmd_rec` writes. -/
def cmdRecWrites (str : List UInt8) : List NameWrite :=
  let r := usmartGetFname str
  fnameWrite .recRfname str :: if r.res ≠ .ok then [] else tableWrites r usmartNametab

/-- The name which `usmart_exe` writes. -/
def exeWrites (d : UsmartDev) : List NameWrite :=
  ((usmartNametab[d.id]?).map (fnameWrite .exeSfname)).toList

/--
`usmart_cmd_rec` with its status. `past` is what it returns and leaves where `usmart_get_fparam` reads
to the end of memory or writes outside of `tstr`.
-/
def cmdRec (past : Status × UsmartDev) (str behind : List UInt8) (d : UsmartDev) :
    Status × UsmartDev :=
  match usmartCmdRec usmartNametab str behind d with
  | .ret sta _ d => (sta, d)
  | _ => past

/-- What `usmart_scan` does with a line: the names written, the status reported and the call. -/
structure Scan where
  writes : List NameWrite
  sta : Option Status
  call : Option (Nat × List (Option Passed))
  dev : UsmartDev
  display : Display

/-- `usmart_scan` on a line which has been received. -/
def usmartScan (past : Status × UsmartDev) (str behind : List UInt8) (d : UsmartDev) (s : Display) :
    Scan :=
  let (sta, d) := cmdRec past str behind d
  if sta = .ok then
    ⟨cmdRecWrites str ++ exeWrites d, some .ok, usmartExe usmartNametab d, d, s⟩
  else
    let e := usmartSysCmdExe str behind s
    ⟨cmdRecWrites str ++ e.writes, if e.sta = some .funcErr then some sta else e.sta, none, d,
      e.display⟩

end PlcFirmware.Usmart
