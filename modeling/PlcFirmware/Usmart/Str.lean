import Mathlib.Logic.Function.Basic
import PlcFirmware.Infra.CString

/-!
# `usmart_str.c`

The scanners of the console. A C string is the list of its bytes before the `NUL`, and a pointer into
it is the list from there on, so that the empty list is a pointer to the `NUL`. `usmart_get_aparm` and
`usmart_get_fparam` step over the `NUL` where a string is open. They are given memory from the pointer
on, with the `NUL` among its bytes, as far as it can be read.

The `u8` counters of the scanners are natural numbers: a line has at most 199 characters, so none of
them wraps. The offset which `usmart_get_aparm` returns is taken modulo 256 where it is used, for it can
wrap behind the line. The lengths in `plentbl` and their sums are bytes as in the source.
-/

namespace PlcFirmware.Usmart

open Infra

/-- The byte of a character. -/
def ch (c : Char) : UInt8 := UInt8.ofNat c.toNat

/-- The bytes of a string literal. -/
def bytes (s : String) : List UInt8 := s.toList.map ch

theorem ne_of_kind {kind : UInt8 → Bool} {c d : UInt8} (hc : kind c = true) (hd : kind d = false) :
    c ≠ d := by
  rintro rfl
  exact Bool.noConfusion (hc.symm.trans hd)

/-- `USMART_OK`, `USMART_FUNCERR`, `USMART_PARMERR`, `USMART_PARMOVER`, `USMART_NOFUNCFIND` -/
inductive Status
  | ok
  | funcErr
  | parmErr
  | parmOver
  | noFuncFind
  deriving DecidableEq

/-! ## `usmart_str2num` -/

def isDigit (c : UInt8) : Bool := ch '0' ≤ c && c ≤ ch '9'

def isUpperHex (c : UInt8) : Bool := ch 'A' ≤ c && c ≤ ch 'F'

def isSign (c : UInt8) : Bool := c == ch '-' || c == ch '+'

/-- `usmart_pow` -/
def usmartPow (m : UInt32) : Nat → UInt32
  | 0 => 1
  | n + 1 => usmartPow m n * m

/-- What the first loop of `usmart_str2num` has found out. -/
structure NumScan where
  str : List UInt8
  bnum : Nat
  hexdec : UInt32
  flag : Nat

/--
The first loop of `usmart_str2num`, with `p` the list that is read. Signs are read off `str`, which
moves along with `p` as long as `bnum` is 0. `none` is the error 1.
-/
def str2numScan (s : NumScan) : List UInt8 → Option NumScan
  | [] => some s
  | c :: p =>
    let sign := s.str.headD 0
    if isDigit c || (isSign sign && s.bnum == 0) || isUpperHex c || (c == ch 'X' && s.bnum == 1) then
      let s := if ch 'A' ≤ c then { s with hexdec := 16 } else s
      if sign = ch '-' then str2numScan { s with flag := 2, str := s.str.drop 1 } p
      else if sign = ch '+' then str2numScan { s with flag := 1, str := s.str.drop 1 } p
      else str2numScan { s with bnum := s.bnum + 1 } p
    else none

/-- The value of a digit. -/
def digitValue (c : UInt8) : UInt32 :=
  if isDigit c then c.toUInt32 - (ch '0').toUInt32 else c.toUInt32 - (ch 'A').toUInt32 + 10

/-- The last loop of `usmart_str2num`, from `bnum` on. -/
def str2numDigits (hexdec : UInt32) : (bnum : Nat) → (res : UInt32) → List UInt8 → UInt32
  | _, res, [] => res
  | bnum, res, c :: p =>
    str2numDigits hexdec (bnum - 1) (res + digitValue c * usmartPow hexdec (bnum - 1)) p

/-- `usmart_str2num`: the error code, and the number where it is 0. -/
def usmartStr2num (str : List UInt8) : Nat × UInt32 :=
  match str2numScan ⟨str, 0, 10, 0⟩ str with
  | none => (1, 0)
  | some s =>
    let number (bnum : Nat) (p : List UInt8) : Nat × UInt32 :=
      let res := str2numDigits s.hexdec bnum 0 p
      (0, if s.flag = 2 then -res else res)
    if s.hexdec = 16 then
      if s.bnum < 3 then (2, 0)
      else if s.str.headD 0 = ch '0' ∧ (s.str.drop 1).headD 0 = ch 'X' then
        number (s.bnum - 2) (s.str.drop 2)
      else (3, 0)
    else if s.bnum = 0 then (4, 0)
    else number s.bnum s.str

/-! ## `usmart_get_fname` -/

/-- `usmart_search_nextc` -/
def usmartSearchNextc (str : List UInt8) : UInt8 :=
  ((str.drop 1).dropWhile (· == ch ' ')).headD 0

/-- The first loop of `usmart_get_fname`: the characters recorded of the return type. -/
def fnameReturnType (fpname : List UInt8) : List UInt8 → List UInt8
  | [] => fpname
  | c :: str =>
    if c ≠ ch ' ' ∧ fpname.length < 5 then
      if fpname.length = 4 ∧ c ≠ ch '*' then fpname else fnameReturnType (fpname ++ [c]) str
    else if fpname.length = 5 then fpname
    else fnameReturnType fpname str

/-- The second loop of `usmart_get_fname`: the last blank or star in front of the name. -/
def fnameOffset : (res offset : Nat) → List UInt8 → Nat
  | _, offset, [] => offset
  | res, offset, c :: str =>
    if c = ch '(' then offset
    else
      let next := str.headD 0
      let nchar := usmartSearchNextc str
      if (next = ch ' ' ∨ next = ch '*') ∧ nchar ≠ ch '(' ∧ nchar ≠ ch '*' then
        fnameOffset (res + 1) (res + 1) str
      else fnameOffset (res + 1) offset str

/-- The variables of the main loop of `usmart_get_fname`. `nchar` is set inside a string. -/
structure FnameScan where
  fover : Nat := 0
  nchar : Bool := false
  fname : List UInt8 := []
  temp : Nat := 1
  pcnt : Nat := 0
  fpname : List UInt8 := []
  parmnum : Nat := 0

/-- The second half of the loop body: a character of the name or of a parameter. -/
def FnameScan.take (s : FnameScan) (c : UInt8) : FnameScan :=
  if s.fover = 0 then
    if c ≠ ch ' ' then { s with fname := s.fname ++ [c] } else s
  else
    let s :=
      if c = ch ',' then { s with temp := 1, pcnt := s.pcnt + 1 }
      else if c ≠ ch ' ' ∧ c ≠ ch '(' then
        { s with
          fpname := if s.pcnt = 0 ∧ s.fpname.length < 5 then s.fpname ++ [c] else s.fpname
          temp := s.temp + 1 }
      else s
    -- the first character of a parameter in the outer bracket
    if s.fover = 1 ∧ s.temp = 2 then { s with temp := s.temp + 1, parmnum := s.parmnum + 1 } else s

/-- The main loop of `usmart_get_fname`. -/
def fnameLoop (s : FnameScan) : List UInt8 → Status × FnameScan
  | [] => (.funcErr, s)
  | c :: str =>
    if c = ch '(' ∧ s.nchar = false then fnameLoop ({ s with fover := s.fover + 1 }.take c) str
    else if c = ch ')' ∧ s.nchar = false then
      if s.fover = 0 then (.funcErr, s)
      else if s.fover = 1 then (.ok, { s with fover := 0 })
      else fnameLoop ({ s with fover := s.fover - 1 }.take c) str
    else if c = ch '"' then fnameLoop ({ s with nchar := !s.nchar }.take c) str
    else fnameLoop (s.take c) str

/-- What `usmart_get_fname` returns. `rval` is not assigned for a blank string. -/
structure Fname where
  res : Status
  fname : List UInt8
  pnum : Nat
  rval : Option Nat

/-- `usmart_get_fname` -/
def usmartGetFname (str : List UInt8) : Fname :=
  let fpname := fnameReturnType [] str
  let rval := if fpname = [] then none else some (if fpname = bytes "void" then 0 else 1)
  let offset := fnameOffset 0 0 str
  let (res, s) := fnameLoop {} (if offset = 0 then str else str.drop (offset + 1))
  let parmnum := if s.parmnum = 1 ∧ s.fpname = bytes "void" then 0 else s.parmnum
  ⟨res, s.fname, parmnum, rval⟩

/-! ## `usmart_get_aparm` -/

/-- The type of a parameter: `0`, `1` and `0XFF`. -/
inductive Ptype
  | number
  | string
  | error
  deriving DecidableEq

/-- The variables of `usmart_get_aparm`. -/
structure Aparm where
  i : Nat := 0
  fparm : List UInt8 := []
  ptype : Ptype := .number
  string : Bool := false
  enout : Bool := false

/-- The characters of a number. -/
def isNumChar (c : UInt8) : Bool :=
  isDigit c || isSign c || (ch 'a' ≤ c && c ≤ ch 'f') || isUpperHex c || c == ch 'X' || c == ch 'x'

/-- Lower case letters are copied in upper case. -/
def toUpper (c : UInt8) : UInt8 := if ch 'a' ≤ c then c - 0x20 else c

/--
The loop of `usmart_get_aparm` on the bytes of memory. The second component is `false` where memory ends
in front of the end of the loop.
-/
def aparmLoop (a : Aparm) : List UInt8 → Aparm × Bool
  | [] => (a, false)
  | c :: str =>
    -- set behind a comma, to leave the loop at the next argument
    let enout := a.enout || (c == ch ',' && !a.string)
    if (c = ch ')' ∨ c = 0) ∧ a.string = false then (a, true)
    else if a.ptype = .number then
      if isNumChar c then
        if enout then (a, true)
        else aparmLoop { a with i := a.i + 1, fparm := a.fparm ++ [toUpper c], enout := enout } str
      else if c = ch '"' then
        if enout then (a, true)
        else aparmLoop { a with i := a.i + 1, ptype := .string, string := true, enout := enout } str
      else if c ≠ ch ' ' ∧ c ≠ ch ',' then ({ a with ptype := .error }, true)
      else aparmLoop { a with i := a.i + 1, enout := enout } str
    else
      let string := a.string && c != ch '"'
      if enout then (a, true)
      else if string then
        if c = ch '\\' then
          -- the next character is copied whatever it is, the `NUL` included
          match str with
          | [] => (a, false)
          | c :: str =>
            aparmLoop { a with i := a.i + 2, fparm := a.fparm ++ [c], string := string } str
        else aparmLoop { a with i := a.i + 1, fparm := a.fparm ++ [c], string := string } str
      else aparmLoop { a with i := a.i + 1, string := string } str

/-- `usmart_get_aparm` -/
def usmartGetAparm (str : List UInt8) : Aparm × Bool := aparmLoop {} str

/-- The bytes written to `fparm`: the `NUL` is written behind the loop. -/
def written (r : Aparm × Bool) : Nat := r.1.fparm.length + if r.2 then 1 else 0

/-! ## `usmart_get_fparam` -/

/-- `MAX_PARM` -/
def maxParm : Nat := 10

/-- `PARM_LEN` -/
def parmLen : Nat := 200

/--
The fields of `usmart_dev` which the parser fills. `mem` holds `plentbl` at `0 .. 9` and `parm` right
behind it; `parmtype` is given by its bits.
-/
structure UsmartDev where
  pnum : Nat
  id : Nat
  parmtype : Nat → Bool
  mem : Nat → UInt8

namespace UsmartDev

/-- `usmart_get_parmpos` -/
def parmpos (d : UsmartDev) : (num : Nat) → UInt8
  | 0 => 0
  | i + 1 => d.parmpos i + d.mem i

/-- The index in `mem` of the argument `n`. -/
def parmAt (d : UsmartDev) (n : Nat) : Nat := maxParm + (d.parmpos n).toNat

/-- The bytes of a number in memory. -/
def numBytes (v : UInt32) : List UInt8 :=
  [v.toUInt8, (v >>> 8).toUInt8, (v >>> 16).toUInt8, (v >>> 24).toUInt8]

/-- An argument is stored behind the ones before it, then its type and its length are noted. -/
def put (d : UsmartDev) (n : Nat) (isString : Bool) (bs : List UInt8) : UsmartDev :=
  { d with
    parmtype := Function.update d.parmtype n isString
    mem := Function.update (store d.mem (d.parmAt n) bs) n (UInt8.ofNat bs.length) }

/-- The lengths are cleared. -/
def clearLens (d : UsmartDev) : UsmartDev := { d with mem := fill d.mem 0 0 maxParm }

end UsmartDev

/-- A write of `usmart_get_fparam`: the argument `n` at `pos` in `parm`, and its length in
`plentbl[n]`. -/
structure ArgStore where
  n : Nat
  pos : Nat
  bs : List UInt8
  deriving DecidableEq

/-- How a parser function ends: with a status, the number of arguments and what it has stored, at the
end of memory, with a write outside of `tstr`, or not at all. -/
inductive Outcome
  | ret (sta : Status) (parn : Nat) (d : UsmartDev)
  | overread
  | overwrite
  | outOfFuel

/-- `*str==')'||*str=='\0'` -/
def atEnd (str : List UInt8) : Bool := str.headD 0 == ch ')' || str.headD 0 == 0

/-- The loop of `usmart_get_fparam`, with `n` arguments stored. -/
def fparamLoop : (fuel n : Nat) → UsmartDev → List UInt8 → List ArgStore × Outcome
  | 0, _, _, _ => ([], .outOfFuel)
  | fuel + 1, n, d, str =>
    let (a, ended) := usmartGetAparm str
    if parmLen + 1 < written (a, ended) then ([], .overwrite)
    else if ended = false then ([], .overread)
    else
      let str := str.drop (a.i % 256)
      let next (n : Nat) (d : UsmartDev) : List ArgStore × Outcome :=
        if atEnd str then ([], .ret .ok n d) else fparamLoop fuel n d str
      let stored (isString : Bool) (bs : List UInt8) : List ArgStore × Outcome :=
        let e := d.put n isString bs
        let (stores, out) :=
          if n + 1 > maxParm then ([], .ret .parmOver (n + 1) e) else next (n + 1) e
        (⟨n, (d.parmpos n).toNat, bs⟩ :: stores, out)
      match a.ptype with
      | .number =>
        if a.fparm = [] then next n d
        else
          match usmartStr2num a.fparm with
          | (0, res) => stored false (UsmartDev.numBytes res)
          | _ => ([], .ret .parmErr n d)
      | .string => stored true (cString a.fparm ++ [0])
      | .error => ([], .ret .parmErr n d)

/-- Where the search for a bracket ends: behind it, at the `NUL`, or at the end of memory. -/
inductive Seek
  | found (str : List UInt8)
  | nul
  | memEnd

/-- `while(*str!='(')`. The `NUL` is only tested behind a step. -/
def toParen : List UInt8 → Seek
  | [] => .memEnd
  | c :: str =>
    if c = ch '(' then .found str
    else
      match str.head? with
      | none => .memEnd
      | some next => if next = 0 then .nul else toParen str

/--
`usmart_get_fparam` on a line with `behind` in memory behind its `NUL`: the writes to `plentbl` and
`parm`, and the outcome. Each round of the loop reads on or stores an argument, unless it leaves
everything as it was; so the fuel is enough (`fparamLoop_enough`).
-/
def fparamRun (str behind : List UInt8) (d : UsmartDev) : List ArgStore × Outcome :=
  match toParen (str ++ 0 :: behind) with
  | .found str => fparamLoop (str.length + maxParm + 2) 0 d.clearLens str
  | .nul => ([], .ret .funcErr 0 d.clearLens)
  | .memEnd => ([], .overread)

/-- `usmart_get_fparam` -/
def usmartGetFparam (str behind : List UInt8) (d : UsmartDev) : Outcome := (fparamRun str behind d).2

/-- The arguments which `usmart_get_fparam` writes. -/
def usmartGetFparamStores (str behind : List UInt8) (d : UsmartDev) : List ArgStore :=
  (fparamRun str behind d).1

end PlcFirmware.Usmart
