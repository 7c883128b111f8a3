import Mathlib.Data.List.Forall2
import Mathlib.Data.List.Nodup
import PlcFirmware.Usmart.Fname
import PlcFirmware.Usmart.Fparam
import PlcFirmware.Usmart.ParmTable

/-!
# The console round trip

A command which is typed as it should be is performed if and only if `usmart_get_fname` finds the end
of its argument list and counts enough parameters in it (`performed_iff`). A quote inside of a string
is what can keep it from that: without one the command is performed.
-/

namespace PlcFirmware.Usmart

open Infra

/-! ## `usmart_get_fparam` -/

theorem behindParen_line {name : List UInt8} (hname : ∀ c ∈ name, isIdentChar c = true)
    (rest : List UInt8) : behindParen (name ++ ch '(' :: rest) = some rest := by
  induction name with
  | nil => rw [List.nil_append, behindParen, if_pos rfl]
  | cons c name ih =>
    rw [List.cons_append, behindParen,
      if_neg (isPlain_of_isIdentChar (hname c List.mem_cons_self)).bracket,
      ih fun c h => hname c (List.mem_cons_of_mem _ h)]

namespace Command

variable {funs : List (List UInt8)}

theorem zero_notMem_line (c : Command funs) : 0 ∉ c.line := by
  have hargs : ∀ args : List Arg, 0 ∉ moreArgs args := by
    intro args
    induction args with
    | nil => decide
    | cons a args ih =>
      rw [moreArgs, List.mem_cons, List.mem_append]
      exact fun h => h.elim (by decide) fun h => h.elim a.zero_notMem_written ih
  rw [line, List.mem_append, List.mem_cons]
  rintro (h | h | h)
  · exact ne_of_kind (c.registered.ident.2.2 0 h) (by decide) rfl
  · exact absurd h (by decide)
  · cases hlist : c.args with
    | nil => rw [hlist] at h; exact absurd h (by decide)
    | cons a args =>
      rw [hlist, argList, List.mem_append] at h
      exact h.elim a.zero_notMem_written (hargs args)

/-- The arguments of the line are found, whatever lies behind it. -/
theorem memArgs_eq (c : Command funs) (behind : List UInt8) :
    memArgs c.line behind = ⟨c.args.map Arg.value, .complete⟩ := by
  have hbehind : behindParen c.line = some (argList c.args) :=
    behindParen_line c.registered.ident.2.2 _
  have hargs : lineArgs c.line = ⟨c.args.map Arg.value, .complete⟩ := by
    rw [lineArgs, hbehind]
    exact readArgs_argList c.args
  rw [← hargs]
  exact memArgs_line c.short c.zero_notMem_line (.inr (by rw [hargs]; exact ArgsEnd.noConfusion))

/-- The values are stored, whatever has been there before. -/
theorem getFparam_line (c : Command funs) (behind : List UInt8) (d : UsmartDev) :
    ∃ d', usmartGetFparam c.line behind d = .ret .ok c.args.length d' ∧
      d'.Stored (c.args.map Arg.value) ∧ d'.id = d.id := by
  have hfew : (c.args.map Arg.value).length ≤ maxParm := by rw [List.length_map]; exact c.few
  have hfits : storedSize (c.args.map Arg.value) ≤ parmLen := by
    rw [storedSize, List.flatMap_map]
    exact c.fits
  have hfew' : (memArgs c.line behind).values.length ≤ maxParm := by rw [c.memArgs_eq]; exact hfew
  have hret := usmartGetFparam_few hfew' d
  rw [c.memArgs_eq, List.length_map] at hret
  have hpacked := putAll_clearLens_packed d hfew (Nat.lt_of_le_of_lt hfits (by decide))
  exact ⟨_, hret, .of_packed hpacked hfits, putAll_id _ _ _⟩

end Command

/-! ## `usmart_cmd_rec` -/

/-- The entry with the name of the line is found behind entries with other names. -/
theorem findFunction_eq {r : Fname} {f : List UInt8} (hres : (usmartGetFname f).res = .ok)
    (hname : (usmartGetFname f).fname = r.fname) (funs : List (List UInt8)) : ∀ id i : Nat,
    funs[id]? = some f →
    (∀ g ∈ funs.take id, (usmartGetFname g).res = .ok ∧ (usmartGetFname g).fname ≠ r.fname) →
    findFunction r i funs
      = if (usmartGetFname f).pnum > r.pnum then .error .parmErr else .ok (i + id) := by
  induction funs with
  | nil => intro id i hf; cases hf
  | cons g funs ih =>
    intro id i hf hbefore
    cases id with
    | zero =>
      obtain rfl : g = f := by simpa using hf
      rw [findFunction]
      simp only [hres, hname, ne_eq, not_true_eq_false, if_false, if_true]
      rw [Nat.add_zero]
    | succ id =>
      obtain ⟨h1, h2⟩ := hbefore g (by rw [List.take_succ_cons]; exact List.mem_cons_self)
      rw [findFunction]
      simp only [h1, h2, ne_eq, not_true_eq_false, if_false]
      rw [ih id (i + 1) (by simpa using hf) fun g h => hbefore g (by
        rw [List.take_succ_cons]; exact List.mem_cons_of_mem _ h)]
      rw [show i + 1 + id = i + (id + 1) by omega]

namespace Command

variable {funs : List (List UInt8)}

/-- The line is not accepted. -/
theorem cmdRec_of_none (c : Command funs) (behind : List UInt8) (d : UsmartDev)
    (h : closesArgs c.args = none) : usmartCmdRec funs c.line behind d = .ret .funcErr 0 d := by
  have hf := usmartGetFname_line c.registered.ident.2.2 c.args
  rw [h] at hf
  have hf : (usmartGetFname c.line).res = .funcErr := hf
  simp [usmartCmdRec, hf]

/-- The line is accepted, and the function is found unless too few parameters are counted. -/
theorem findFunction_line (c : Command funs) {n : Nat} (h : closesArgs c.args = some n) :
    (usmartGetFname c.line).res = .ok ∧ findFunction (usmartGetFname c.line) 0 funs
      = if c.args.length > n then .error .parmErr else .ok c.id := by
  have hf := usmartGetFname_line c.registered.ident.2.2 c.args
  rw [h] at hf
  obtain ⟨hres, hname, hpnum⟩ : (usmartGetFname c.line).res = .ok ∧
    (usmartGetFname c.line).fname = c.name ∧ (usmartGetFname c.line).pnum = n := hf
  obtain ⟨f, hat, hfres, hfname, hfpnum⟩ := c.registered.proto
  have hfind := findFunction_eq (r := usmartGetFname c.line) hfres (by rw [hfname, hname]) funs
    c.id 0 hat (by rw [hname]; exact c.registered.before)
  rw [hfpnum, hpnum, Nat.zero_add] at hfind
  exact ⟨hres, hfind⟩

theorem cmdRec_of_lt (c : Command funs) (behind : List UInt8) (d : UsmartDev) {n : Nat}
    (h : closesArgs c.args = some n) (hlt : n < c.args.length) :
    usmartCmdRec funs c.line behind d = .ret .parmErr 0 d := by
  obtain ⟨hres, hfind⟩ := c.findFunction_line h
  rw [if_pos hlt] at hfind
  simp [usmartCmdRec, hres, hfind]

theorem cmdRec_of_le (c : Command funs) {behind : List UInt8} (d : UsmartDev) {n : Nat}
    (h : closesArgs c.args = some n) (hle : c.args.length ≤ n) {d' : UsmartDev}
    (hparam : usmartGetFparam c.line behind { d with id := c.id } = .ret .ok c.args.length d') :
    usmartCmdRec funs c.line behind d = .ret .ok c.args.length { d' with pnum := c.args.length } := by
  obtain ⟨hres, hfind⟩ := c.findFunction_line h
  rw [if_neg (Nat.not_lt_of_le hle)] at hfind
  simp [usmartCmdRec, hres, hfind, hparam]

/-! ## `usmart_exe` -/

/-- The function is called with the values which are stored. -/
theorem exe_of_stored (c : Command funs) {d : UsmartDev} (hid : d.id = c.id)
    (hpnum : d.pnum = c.args.length) (hs : d.Stored (c.args.map Arg.value)) :
    ∃ passed, usmartExe funs d = some (c.id, passed) ∧
      List.Forall₂ (fun a p => a.value.IsPassed d p) c.args passed := by
  obtain ⟨f, hat, _, _, hfpnum⟩ := c.registered.proto
  refine ⟨(List.range c.args.length).map fun i =>
    if i < c.args.length then some (d.temp i) else none, ?_, ?_⟩
  · rw [usmartExe, hid, hat]
    simp only [hfpnum, hpnum, if_pos c.few]
  · refine List.forall₂_iff_get.mpr ⟨by simp, fun i h1 h2 => ?_⟩
    have htemp := hs.temp_isPassed i (by rw [List.length_map]; exact h1)
    simpa [h1] using htemp

/-! ## The command -/

theorem performed_of_closes (c : Command funs) (behind : List UInt8) (d : UsmartDev) {n : Nat}
    (h : closesArgs c.args = some n) (hle : c.args.length ≤ n) : c.Performed behind d := by
  obtain ⟨d', hparam, hs, hid⟩ := c.getFparam_line behind { d with id := c.id }
  have hs' : UsmartDev.Stored { d' with pnum := c.args.length } (c.args.map Arg.value) :=
    ⟨hs.few, hs.fits, hs.types, hs.lens, hs.parm⟩
  obtain ⟨passed, hexe, hpassed⟩ :=
    c.exe_of_stored (d := { d' with pnum := c.args.length }) hid rfl hs'
  exact ⟨_, passed, c.cmdRec_of_le d h hle hparam, hexe, hpassed⟩

theorem not_performed_of_none (c : Command funs) (behind : List UInt8) (d : UsmartDev)
    (h : closesArgs c.args = none) : ¬c.Performed behind d := by
  rintro ⟨d', _, hrec, _⟩
  rw [c.cmdRec_of_none behind d h] at hrec
  injection hrec with hsta
  exact Status.noConfusion hsta

/-- A command is performed, whatever has been stored before it and lies behind it, if and only if the
bracket is closed and all its arguments have begun by then, with each quote switching between inside and
outside. -/
theorem performed_iff (c : Command funs) (behind : List UInt8) (d : UsmartDev) :
    c.Performed behind d ↔ ∃ n, closesArgs c.args = some n ∧ c.args.length ≤ n := by
  constructor
  · intro hperf
    cases h : closesArgs c.args with
    | none => exact absurd hperf (c.not_performed_of_none behind d h)
    | some n =>
      refine ⟨n, rfl, Nat.le_of_not_lt fun hlt => ?_⟩
      obtain ⟨d', _, hrec, _⟩ := hperf
      rw [c.cmdRec_of_lt behind d h hlt] at hrec
      injection hrec with hsta
      exact Status.noConfusion hsta
  · rintro ⟨n, h, hle⟩
    exact c.performed_of_closes behind d h hle

end Command

/-! ## Commands without quotes in their strings -/

/-- The functions of `usmart_nametab`, with the number of parameters of their C declarations. -/
def usmartNametabDecls : List (List UInt8 × Nat) :=
  [("read_addr", 1), ("write_addr", 2), ("led_out", 1), ("LAN8720_ReadPHY", 1), ("Init_Client", 0),
    ("Socket_init", 0), ("Send_File_Name", 1), ("Pause_Download", 0), ("Continue_Download", 0),
    ("Stop_Download", 0), ("STMFLASH_EraseSector", 1)].map fun p => (bytes p.1, p.2)

/-- `usmart_get_fname` finds the names and the numbers of parameters in the prototypes. -/
theorem usmartNametab_parsed :
    (usmartNametab.map fun f => ((usmartGetFname f).res, (usmartGetFname f).fname,
      (usmartGetFname f).pnum)) = usmartNametabDecls.map fun p => (.ok, p.1, p.2) := by
  decide +kernel

theorem usmartNametab_registered (id : Nat) (h : id < usmartNametabDecls.length) :
    Registered usmartNametab id usmartNametabDecls[id].1 usmartNametabDecls[id].2 := by
  have hlen : usmartNametabDecls.length = usmartNametab.length := by
    rw [← List.length_map, ← usmartNametab_parsed, List.length_map]
  have hparsed : ∀ (i : Nat) (hi : i < usmartNametabDecls.length),
      ((usmartGetFname (usmartNametab.get ⟨i, hlen ▸ hi⟩)).res,
        (usmartGetFname (usmartNametab.get ⟨i, hlen ▸ hi⟩)).fname,
        (usmartGetFname (usmartNametab.get ⟨i, hlen ▸ hi⟩)).pnum)
        = (.ok, usmartNametabDecls[i].1, usmartNametabDecls[i].2) := by
    intro i hi
    have hat := List.getElem_of_eq usmartNametab_parsed (i := i)
      (by rw [List.length_map, ← hlen]; exact hi)
    rwa [List.getElem_map, List.getElem_map] at hat
  have hident : (usmartNametabDecls.all fun p =>
      !p.1.isEmpty && p.1.length.blt 30 && p.1.all isIdentChar) = true := by decide
  have hnames : (usmartNametabDecls.map Prod.fst).Nodup := by decide
  refine ⟨?_, ?_, ?_⟩
  · have hp := List.all_eq_true.mp hident _ (List.getElem_mem h)
    simpa only [Bool.and_eq_true, Bool.not_eq_true', List.isEmpty_eq_false_iff, Nat.blt_eq,
      List.all_eq_true, and_assoc] using hp
  · have hp := hparsed id h
    simp only [Prod.mk.injEq] at hp
    exact ⟨usmartNametab.get ⟨id, hlen ▸ h⟩, List.getElem?_eq_getElem _, hp.1, hp.2.1, hp.2.2⟩
  · intro f hf
    obtain ⟨j, hj, rfl⟩ := List.mem_take_iff_getElem.mp hf
    have hp := hparsed j (by omega)
    simp only [Prod.mk.injEq] at hp
    refine ⟨hp.1, fun heq => ?_⟩
    have hname : usmartNametabDecls[j].1 = usmartNametabDecls[id].1 := hp.2.1.symm.trans heq
    have hj' : j < (usmartNametabDecls.map Prod.fst).length := by rw [List.length_map]; omega
    have hid : id < (usmartNametabDecls.map Prod.fst).length := by rw [List.length_map]; exact h
    have hinj : (usmartNametabDecls.map Prod.fst)[j] = (usmartNametabDecls.map Prod.fst)[id] → j = id :=
      (List.Nodup.getElem_inj_iff hnames).mp
    rw [List.getElem_map, List.getElem_map] at hinj
    have := hinj hname
    omega

/-- `Send_File_Name` with a string. -/
def sendFileName (s : List UInt8) (noNul : 0 ∉ s)
    (short : (bytes "Send_File_Name" ++ ch '(' :: argList [.str s noNul]).length ≤ 199) :
    Command usmartNametab where
  id := 6
  name := bytes "Send_File_Name"
  args := [.str s noNul]
  registered := usmartNametab_registered 6 (by decide)
  few := Nat.le_of_ble_eq_true rfl
  fits := by
    have h := length_le_escape s
    simp only [argList, moreArgs, Arg.written, List.length_append, List.length_cons] at short
    simp only [List.flatMap_cons, List.flatMap_nil, List.append_nil, Arg.value, Value.stored,
      List.length_append, List.length_cons, List.length_nil]
    unfold parmLen
    omega
  short := short

/-- A quote in a string, escaped as it should be, keeps the end of the line from being found. -/
theorem quoted_not_performed :
    ¬ ∀ (funs : List (List UInt8)) (c : Command funs) (behind : List UInt8) (d : UsmartDev),
      c.Performed behind d := by
  intro h
  have hperf := h _ (sendFileName (bytes "a\"b") (by decide) (by decide)) [] .start
  exact Command.not_performed_of_none _ _ _ (by decide) hperf

/-- With commas, brackets and an escaped backslash the line is read back. -/
theorem performed_iff_sendFileName :
    (sendFileName (bytes "a,(\\b )") (by decide) (by decide)).Performed [] .start ↔
      ∃ n, closesArgs (sendFileName (bytes "a,(\\b )") (by decide) (by decide)).args = some n ∧
        (sendFileName (bytes "a,(\\b )") (by decide) (by decide)).args.length ≤ n :=
  Command.performed_iff _ _ _

end PlcFirmware.Usmart
