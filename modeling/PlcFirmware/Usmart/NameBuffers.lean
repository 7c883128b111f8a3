import PlcFirmware.Usmart.Aparm
import PlcFirmware.Usmart.Scan
import PlcFirmware.Usmart.Fname

/-!
# The name buffers

`usmart_get_cmdname` is given the size of the array which it fills, `usmart_get_fname` and
`usmart_get_aparm` are not. What they copy of a line is described here apart from the flags and
counters with which they read it.

* `nameText`, `nameLength` — the name which a line begins with
* `argBytes` — the bytes which an argument takes, its `NUL` included
* `usmartScan_inBounds_iff` — which lines are processed without a write outside of a name buffer
-/

namespace PlcFirmware.Usmart

/-! ## The name of a line -/

/-- A blank or a star behind which neither a bracket nor a star comes next. -/
def isMark (c : UInt8) (text : List UInt8) : Bool :=
  let next := (text.dropWhile (· == ch ' ')).headD 0
  (c == ch ' ' || c == ch '*') && next != ch '(' && next != ch '*'

/-- The text behind the last mark in front of the first bracket. -/
def behindMark : List UInt8 → Option (List UInt8)
  | [] => none
  | c :: text =>
    if c = ch '(' then none
    else
      match behindMark text with
      | some name => some name
      | none => if isMark c text then some text else none

/-- The text from the name on. The first character of a line is no mark. -/
def nameText : List UInt8 → List UInt8
  | [] => []
  | c :: text => if c = ch '(' then c :: text else (behindMark text).getD (c :: text)

/-- The characters of the name, blanks left out, up to the first bracket outside of quotes. -/
def nameLength : (inQuotes : Bool) → List UInt8 → Nat
  | _, [] => 0
  | inQuotes, c :: text =>
    if inQuotes = false ∧ (c = ch '(' ∨ c = ch ')') then 0
    else (if c = ch ' ' then 0 else 1) + nameLength (inQuotes ^^ (c == ch '"')) text

/-- The second loop of `usmart_get_fname` finds the last mark. -/
theorem fnameOffset_behindMark (text : List UInt8) : ∀ (c : UInt8) (res offset : Nat), c ≠ ch '(' →
    match behindMark text with
    | some name => ∃ k, fnameOffset res offset (c :: text) = res + 1 + k ∧ text.drop (k + 1) = name
    | none => fnameOffset res offset (c :: text) = offset := by
  induction text with
  | nil =>
    intro c res offset hc
    rw [behindMark, fnameOffset, if_neg hc]
    rfl
  | cons d text ih =>
    intro c res offset hc
    have hmark : (((d :: text).headD 0 = ch ' ' ∨ (d :: text).headD 0 = ch '*') ∧
        usmartSearchNextc (d :: text) ≠ ch '(' ∧ usmartSearchNextc (d :: text) ≠ ch '*') ↔
        isMark d text = true := by
      simp [isMark, usmartSearchNextc, and_assoc]
    rw [behindMark, fnameOffset, if_neg hc]
    simp only [hmark]
    by_cases hd : d = ch '('
    · subst hd
      have hno : isMark (ch '(') text = false := by simp +decide [isMark]
      rw [if_pos rfl, hno, if_neg Bool.false_ne_true, fnameOffset, if_pos rfl]
    rw [if_neg hd]
    cases hm : isMark d text with
    | true =>
      have hrest := ih d (res + 1) (res + 1) hd
      rw [if_pos rfl]
      cases hb : behindMark text with
      | none =>
        rw [hb] at hrest
        exact ⟨0, hrest, rfl⟩
      | some name =>
        rw [hb] at hrest
        obtain ⟨k, hk, hname⟩ := hrest
        exact ⟨k + 1, hk.trans (by omega), hname⟩
    | false =>
      have hrest := ih d (res + 1) offset hd
      rw [if_neg Bool.false_ne_true]
      cases hb : behindMark text with
      | none =>
        rw [hb] at hrest
        exact hrest
      | some name =>
        rw [hb] at hrest
        obtain ⟨k, hk, hname⟩ := hrest
        exact ⟨k + 1, hk.trans (by omega), hname⟩

/-- The main loop of `usmart_get_fname` starts at the name. -/
theorem drop_fnameOffset (str : List UInt8) :
    (if fnameOffset 0 0 str = 0 then str else str.drop (fnameOffset 0 0 str + 1)) = nameText str := by
  cases str with
  | nil => rfl
  | cons c text =>
    by_cases hc : c = ch '('
    · rw [fnameOffset, nameText, if_pos hc, if_pos hc, if_pos rfl]
    · have hmark := fnameOffset_behindMark text c 0 0 hc
      rw [nameText, if_neg hc]
      cases hb : behindMark text with
      | none =>
        rw [hb] at hmark
        rw [if_pos hmark, Option.getD_none]
      | some name =>
        rw [hb] at hmark
        obtain ⟨k, hk, hname⟩ := hmark
        rw [if_neg (by omega), hk, Option.getD_some, ← hname, Nat.zero_add, Nat.add_comm 1 k,
          List.drop_succ_cons]

/-- A character in front of the arguments is copied, unless it is a blank. -/
theorem take_name {s : FnameScan} (hs : s.fover = 0) (c : UInt8) :
    (s.take c).fover = 0 ∧ (s.take c).nchar = s.nchar ∧
      (s.take c).fname.length = s.fname.length + if c = ch ' ' then 0 else 1 := by
  rw [FnameScan.take, if_pos hs]
  by_cases hb : c = ch ' '
  · rw [if_neg (not_not_intro hb), if_pos hb]
    exact ⟨hs, rfl, rfl⟩
  · rw [if_pos hb, if_neg hb]
    exact ⟨hs, rfl, List.length_append⟩

/-- In the arguments nothing is copied. -/
theorem take_args {s : FnameScan} (hs : s.fover ≠ 0) (c : UInt8) :
    (s.take c).fover = s.fover ∧ (s.take c).fname = s.fname := by
  rw [FnameScan.take, if_neg hs]
  dsimp only
  split_ifs <;> exact ⟨rfl, rfl⟩

/-- The loop in the arguments leaves the name as it is. -/
theorem fnameLoop_args_fname (text : List UInt8) : ∀ (s : FnameScan), 1 ≤ s.fover →
    (fnameLoop s text).2.fname = s.fname := by
  induction text with
  | nil => intro s _; rfl
  | cons c text ih =>
    intro s hs
    rw [fnameLoop_cons hs]
    by_cases hzero : depthAfter s.fover s.nchar c = 0
    · rw [if_pos hzero]
    · obtain ⟨hf, hn⟩ := take_args (s := { s with
        fover := depthAfter s.fover s.nchar c
        nchar := s.nchar ^^ (c == ch '"') }) hzero c
      rw [if_neg hzero, ih _ (hf ▸ Nat.pos_of_ne_zero hzero), hn]

/-- The loop in front of the arguments copies the name. -/
theorem fnameLoop_nameLength (text : List UInt8) : ∀ (s : FnameScan), s.fover = 0 →
    (fnameLoop s text).2.fname.length = s.fname.length + nameLength s.nchar text := by
  induction text with
  | nil => intro s _; rfl
  | cons c text ih =>
    intro s hs
    rw [fnameLoop]
    by_cases ho : c = ch '(' ∧ s.nchar = false
    · obtain ⟨hf, hn⟩ := take_args (s := { s with fover := s.fover + 1 }) (Nat.succ_ne_zero _) c
      rw [if_pos ho, fnameLoop_args_fname _ _ (hf ▸ Nat.succ_pos _), hn, nameLength,
        if_pos ⟨ho.2, .inl ho.1⟩]
      rfl
    by_cases hp : c = ch ')' ∧ s.nchar = false
    · rw [if_neg ho, if_pos hp, if_pos hs, nameLength, if_pos ⟨hp.2, .inr hp.1⟩]
      rfl
    have hin : ¬(s.nchar = false ∧ (c = ch '(' ∨ c = ch ')')) :=
      fun h => h.2.elim (fun hc => ho ⟨hc, h.1⟩) (fun hc => hp ⟨hc, h.1⟩)
    have hcopy : ∀ t : FnameScan, t.fover = 0 → t.fname = s.fname →
        t.nchar = (s.nchar ^^ (c == ch '"')) → (fnameLoop (t.take c) text).2.fname.length
          = s.fname.length + nameLength s.nchar (c :: text) := by
      intro t ht hname hnchar
      obtain ⟨hf, hn, hlen⟩ := take_name ht c
      rw [ih _ hf, hn, hlen, hname, hnchar, nameLength, if_neg hin, Nat.add_assoc]
    rw [if_neg ho, if_neg hp]
    by_cases hq : c = ch '"'
    · rw [if_pos hq]
      exact hcopy _ hs rfl (by rw [hq, beq_self_eq_true, Bool.xor_true])
    · rw [if_neg hq]
      exact hcopy _ hs rfl (by rw [beq_eq_false_iff_ne.mpr hq, Bool.xor_false])

/-- `usmart_get_fname` writes the characters of the name, and a `NUL`. -/
theorem fnameWrite_count (buffer : NameBuffer) (str : List UInt8) :
    (fnameWrite buffer str).count = nameLength false (nameText str) + 1 := by
  have hloop := fnameLoop_nameLength (nameText str) {} rfl
  rw [fnameWrite, usmartGetFname]
  dsimp only
  rw [drop_fnameOffset, hloop]
  exact congrArg (· + 1) (Nat.zero_add _)

/-! ## The argument of a system command -/

/-- A character behind which the argument ends: a comma, a closing bracket, the `NUL`. -/
def isArgEnd (c : UInt8) : Bool := c == ch ',' || c == ch ')' || c == 0

/--
The bytes which a string takes, from behind its opening quote. A backslash is not copied, the character
behind it is. The `NUL` is added at the end of the argument, which need not follow on the quote.
-/
def stringBytes : List UInt8 → Nat
  | [] => 0
  | c :: text =>
    if c = ch '"' then if text.any isArgEnd then 1 else 0
    else if c = ch '\\' then
      match text with
      | [] => 0
      | _ :: text => stringBytes text + 1
    else stringBytes text + 1

theorem stringBytes_quote (text : List UInt8) :
    stringBytes (ch '"' :: text) = if text.any isArgEnd then 1 else 0 := by
  rw [stringBytes.eq_def]
  exact if_pos rfl

theorem stringBytes_escape (c : UInt8) (text : List UInt8) :
    stringBytes (ch '\\' :: c :: text) = stringBytes text + 1 := by
  rw [stringBytes.eq_def]
  dsimp only
  rw [if_neg (by decide), if_pos rfl]

theorem stringBytes_copy {c : UInt8} (hq : c ≠ ch '"') (hb : c ≠ ch '\\') (text : List UInt8) :
    stringBytes (c :: text) = stringBytes text + 1 := by
  rw [stringBytes.eq_def]
  dsimp only
  rw [if_neg hq, if_neg hb]

/-- The characters of a number, and blanks, which are skipped. -/
def isNumPart (c : UInt8) : Bool := isNumChar c || c == ch ' '

/-- The bytes which an argument takes: the characters of a number, and of a string if one follows on
them. -/
def argBytes (text : List UInt8) : Nat :=
  (text.takeWhile isNumPart).countP isNumChar +
    match text.dropWhile isNumPart with
    | [] => 1
    | c :: rest => if c = ch '"' then stringBytes rest else 1

/-- Behind the closing quote nothing is copied. -/
theorem written_closed (text : List UInt8) : ∀ (a : Aparm), a.ptype = .string → a.string = false →
    a.enout = false →
    written (aparmLoop a text) = a.fparm.length + if text.any isArgEnd then 1 else 0 := by
  induction text with
  | nil => intro a _ _ _; rfl
  | cons c text ih =>
    intro a hp hs he
    rw [List.any_cons]
    cases hc : isArgEnd c with
    | false =>
      simp only [isArgEnd, Bool.or_eq_false_iff, beq_eq_false_iff_ne] at hc
      rw [aparmLoop_behind hp he hs hc.2 hc.1.2 hc.1.1, ih { a with i := a.i + 1 } hp hs he, Bool.false_or]
    | true =>
      have hstop : aparmLoop a (c :: text) = (a, true) := by
        simp only [isArgEnd, Bool.or_eq_true, beq_iff_eq, or_assoc] at hc
        obtain rfl | hc := hc
        · exact aparmLoop_closed_comma hp hs text
        · exact aparmLoop_end hs hc text
      rw [hstop]
      rfl

/-- A string is copied up to its closing quote, wherever that is. -/
theorem written_string : ∀ (text : List UInt8) (a : Aparm), a.ptype = .string → a.string = true →
    a.enout = false → written (aparmLoop a text) = a.fparm.length + stringBytes text
  | [], a, _, _, _ => rfl
  | c :: text, a, hp, hs, he => by
    by_cases hq : c = ch '"'
    · subst hq
      rw [aparmLoop_endQuote hp he, stringBytes_quote]
      exact written_closed text { a with i := a.i + 1, string := false } hp rfl he
    by_cases hb : c = ch '\\'
    · subst hb
      cases text with
      | nil =>
        rw [aparmLoop_escape_end hp he hs]
        rfl
      | cons c text =>
        rw [aparmLoop_escape hp he hs,
          written_string text { a with i := a.i + 2, fparm := a.fparm ++ [c] } hp hs he,
          stringBytes_escape, List.length_append, List.length_singleton]
        omega
    · rw [aparmLoop_copy hp he hs hq hb,
        written_string text { a with i := a.i + 1, fparm := a.fparm ++ [c] } hp hs he,
        stringBytes_copy hq hb, List.length_append, List.length_singleton]
      omega

/-- Behind a comma the next argument is looked for, and nothing is copied. -/
theorem written_comma (text : List UInt8) : ∀ (a : Aparm), a.ptype = .number → a.string = false →
    a.enout = true → 0 ∈ text → written (aparmLoop a text) = a.fparm.length + 1 := by
  induction text with
  | nil => intro a _ _ _ h; cases h
  | cons c text ih =>
    intro a hp hs he hnul
    by_cases h0 : c = 0
    · rw [aparmLoop_end hs (.inr h0)]
      rfl
    have hnul' : 0 ∈ text := (List.mem_cons.mp hnul).resolve_left (Ne.symm h0)
    obtain rfl | hc | rfl | rfl | rfl | hc := charCases c
    · rw [aparmLoop_end hs (.inl rfl)]
      rfl
    · rw [aparmLoop_next hp hs he (.inl hc)]
      rfl
    · rw [aparmLoop_next hp hs he (.inr rfl)]
      rfl
    · rw [aparmLoop_blank hp hs]
      exact ih { a with i := a.i + 1 } hp hs he hnul'
    · rw [aparmLoop_comma hp hs]
      exact ih { a with i := a.i + 1, enout := true } hp hs rfl hnul'
    · rw [aparmLoop_other hp hs h0 hc]
      rfl

/-- A character which belongs to no number ends the argument, unless it is a quote. -/
theorem argBytes_end {c : UInt8} (hc : isNumPart c = false) (hq : c ≠ ch '"') (text : List UInt8) :
    argBytes (c :: text) = 1 := by
  rw [argBytes, List.takeWhile_cons_of_neg (by simp [hc]), List.dropWhile_cons_of_neg (by simp [hc])]
  simp [hq]

/-- `usmart_get_aparm` writes the bytes of the argument. -/
theorem written_argBytes (text : List UInt8) : ∀ (a : Aparm), a.ptype = .number →
    a.string = false → a.enout = false → 0 ∈ text →
    written (aparmLoop a text) = a.fparm.length + argBytes text := by
  induction text with
  | nil => intro a _ _ _ h; cases h
  | cons c text ih =>
    intro a hp hs he hnul
    by_cases h0 : c = 0
    · subst h0
      rw [aparmLoop_end hs (.inr rfl), argBytes_end (by decide) (by decide)]
      rfl
    have hnul' : 0 ∈ text := (List.mem_cons.mp hnul).resolve_left (Ne.symm h0)
    obtain rfl | hc | rfl | rfl | rfl | hc := charCases c
    · rw [aparmLoop_end hs (.inl rfl), argBytes_end (by decide) (by decide)]
      rfl
    · have hpart : isNumPart c = true := by rw [isNumPart, hc, Bool.true_or]
      rw [aparmLoop_num hp hs he hc,
        ih { a with i := a.i + 1, fparm := a.fparm ++ [toUpper c] } hp hs he hnul', argBytes, argBytes,
        List.takeWhile_cons_of_pos hpart, List.dropWhile_cons_of_pos hpart,
        List.countP_cons_of_pos hc, List.length_append, List.length_singleton]
      omega
    · rw [aparmLoop_quote hp hs he,
        written_string text { a with i := a.i + 1, ptype := .string, string := true } rfl rfl he]
      simp +decide [argBytes]
    · rw [aparmLoop_blank hp hs, ih { a with i := a.i + 1 } hp hs he hnul', argBytes, argBytes,
        List.takeWhile_cons_of_pos (by decide), List.dropWhile_cons_of_pos (by decide),
        List.countP_cons_of_neg (by decide)]
    · rw [aparmLoop_comma hp hs, written_comma text { a with i := a.i + 1, enout := true } hp hs rfl
        hnul', argBytes_end (by decide) (by decide)]
    · have hpart : isNumPart c = false := by
        rw [isNumPart, hc.num, Bool.false_or, beq_eq_false_iff_ne.mpr hc.blank]
      rw [aparmLoop_other hp hs h0 hc, argBytes_end hpart hc.quote]
      rfl

/-! ## The system commands -/

/-- The first word of a line. -/
def firstWord (str : List UInt8) : List UInt8 := str.takeWhile (· != ch ' ')

theorem firstWord_cons {c : UInt8} (hc : c ≠ ch ' ') (str : List UInt8) :
    firstWord (c :: str) = c :: firstWord str :=
  List.takeWhile_cons_of_pos (bne_iff_ne.mpr hc)

/-- `usmart_get_cmdname` copies the first word if there is room for it and a `NUL`. -/
theorem cmdnameLoop_fits (maxlen : Nat) (str : List UInt8) : ∀ (cmdname : List UInt8),
    cmdname.length + (firstWord str).length < maxlen →
    cmdnameLoop maxlen cmdname str = (true, cmdname ++ firstWord str) := by
  induction str with
  | nil =>
    intro cmdname _
    rw [cmdnameLoop, firstWord, List.takeWhile_nil, List.append_nil]
  | cons c str ih =>
    intro cmdname hlen
    rw [cmdnameLoop]
    by_cases hc : c = ch ' '
    · rw [if_pos hc, firstWord, List.takeWhile_cons_of_neg (by simp [hc]), List.append_nil]
    · have hsum : (cmdname ++ [c]).length + (firstWord str).length < maxlen := by
        rw [firstWord_cons hc, List.length_cons] at hlen
        rw [List.length_append, List.length_singleton]
        omega
      rw [if_neg hc]
      dsimp only
      rw [if_neg (by omega), ih _ hsum, firstWord_cons hc, List.append_assoc, List.singleton_append]

/-- And otherwise it stops when its array is full. -/
theorem cmdnameLoop_full (maxlen : Nat) (str : List UInt8) : ∀ (cmdname : List UInt8),
    cmdname.length < maxlen → maxlen ≤ cmdname.length + (firstWord str).length →
    (cmdnameLoop maxlen cmdname str).1 = false ∧
      (cmdnameLoop maxlen cmdname str).2.length = maxlen := by
  induction str with
  | nil =>
    intro cmdname hlt hle
    rw [firstWord, List.takeWhile_nil, List.length_nil] at hle
    omega
  | cons c str ih =>
    intro cmdname hlt hle
    by_cases hc : c = ch ' '
    · rw [firstWord, List.takeWhile_cons_of_neg (by simp [hc]), List.length_nil] at hle
      omega
    have hlen : (cmdname ++ [c]).length = cmdname.length + 1 := List.length_append
    rw [firstWord_cons hc, List.length_cons] at hle
    rw [cmdnameLoop, if_neg hc]
    dsimp only
    by_cases hfull : (cmdname ++ [c]).length ≥ maxlen
    · rw [if_pos hfull]
      exact ⟨rfl, Nat.le_antisymm (hlen.trans_le hlt) hfull⟩
    · rw [if_neg hfull]
      exact ih _ (by omega) (by omega)

/-- The only scanner which is told the size of its array keeps to it. -/
theorem cmdnameWrite_le (maxlen : Nat) (hpos : 0 < maxlen) (str : List UInt8) :
    (cmdnameWrite (usmartGetCmdname maxlen str)).count ≤ maxlen := by
  rw [cmdnameWrite, usmartGetCmdname]
  by_cases hlen : (firstWord str).length < maxlen
  · rw [cmdnameLoop_fits maxlen str [] (by rwa [List.length_nil, Nat.zero_add]), if_pos rfl]
    exact hlen
  · obtain ⟨hres, hfull⟩ := cmdnameLoop_full maxlen str [] hpos (by rw [List.length_nil]; omega)
    rw [hres, if_neg Bool.false_ne_true, hfull]

/-- The commands which take an argument. -/
def argCommands : List (List UInt8) := ["hex", "dec", "runtime"].map bytes

/-- The registered functions have short names. -/
theorem fnameWrite_nametab (buffer : NameBuffer) :
    ∀ f ∈ usmartNametab, (fnameWrite buffer f).count ≤ maxFnameLen := by
  have hlen : ∀ f ∈ usmartNametab, nameLength false (nameText f) + 1 ≤ maxFnameLen := by
    decide +kernel
  intro f hf
  rw [fnameWrite_count]
  exact hlen f hf

theorem argCommands_idxOf (cmdname : List UInt8) :
    cmdname ∈ argCommands ↔ 4 ≤ sysCmdTab.idxOf cmdname ∧ sysCmdTab.idxOf cmdname ≤ 6 := by
  constructor
  · have hidx : ∀ name ∈ argCommands, 4 ≤ sysCmdTab.idxOf name ∧ sysCmdTab.idxOf name ≤ 6 := by decide
    exact hidx cmdname
  · rintro ⟨h4, h6⟩
    have htab : ∀ i : Fin sysCmdTab.length, 4 ≤ i.val → sysCmdTab.get i ∈ argCommands := by decide
    have hlt : sysCmdTab.idxOf cmdname < sysCmdTab.length := Nat.lt_succ_of_le h6
    rw [← List.getElem_idxOf hlt]
    exact htab ⟨_, hlt⟩ h4

theorem usmartGetCmdname_short {str : List UInt8} (hlen : (firstWord str).length < maxFnameLen) :
    usmartGetCmdname maxFnameLen str = (true, firstWord str) :=
  cmdnameLoop_fits maxFnameLen str [] (by rwa [List.length_nil, Nat.zero_add])

theorem usmartGetCmdname_long {str : List UInt8} (hlen : ¬(firstWord str).length < maxFnameLen) :
    (usmartGetCmdname maxFnameLen str).1 = false :=
  (cmdnameLoop_full maxFnameLen str [] (by decide) (by rw [List.length_nil]; omega)).1

/-- The bytes which the argument takes in `sfname`. -/
theorem written_arg (str behind : List UInt8) :
    written (usmartGetAparm (str ++ 0 :: behind)) = argBytes (str ++ 0 :: behind) := by
  rw [usmartGetAparm, written_argBytes _ {} rfl rfl rfl (by simp)]
  exact Nat.zero_add _

/-- `usmart_sys_cmd_exe` stays inside of `sfname` as long as the argument of its command does. -/
theorem usmartSysCmdExe_inBounds_iff (str behind : List UInt8) (s : Display) :
    (∀ w ∈ (usmartSysCmdExe str behind s).writes, w.count ≤ maxFnameLen) ↔
      (firstWord str ∈ argCommands →
        argBytes (str.drop (firstWord str).length ++ 0 :: behind) ≤ maxFnameLen) := by
  have hname := cmdnameWrite_le maxFnameLen (by decide) str
  have hone : ∀ w ∈ [cmdnameWrite (usmartGetCmdname maxFnameLen str)], w.count ≤ maxFnameLen :=
    fun w hw => List.mem_singleton.mp hw ▸ hname
  have hshort : ∀ name ∈ argCommands, name.length < maxFnameLen := by decide
  rw [usmartSysCmdExe]
  dsimp only
  by_cases hlen : (firstWord str).length < maxFnameLen
  · rw [usmartGetCmdname_short hlen] at hone hname ⊢
    rw [if_neg Bool.noConfusion]
    have harg : (∀ w ∈ [cmdnameWrite (true, firstWord str), ⟨.sysSfname, written (usmartGetAparm
        (str.drop (firstWord str).length ++ 0 :: behind))⟩], w.count ≤ maxFnameLen) ↔
        argBytes (str.drop (firstWord str).length ++ 0 :: behind) ≤ maxFnameLen := by
      simp [hname, written_arg]
    have hother : ∀ ws : List NameWrite, (∀ w ∈ ws, w.count ≤ maxFnameLen) →
        firstWord str ∉ argCommands → ((∀ w ∈ ws, w.count ≤ maxFnameLen) ↔
          (firstWord str ∈ argCommands →
            argBytes (str.drop (firstWord str).length ++ 0 :: behind) ≤ maxFnameLen)) :=
      fun ws hws hno => iff_of_true hws fun hmem => absurd hmem hno
    have hthis : firstWord str ∈ argCommands → ((∀ w ∈ [cmdnameWrite (true, firstWord str),
        ⟨.sysSfname, written (usmartGetAparm (str.drop (firstWord str).length ++ 0 :: behind))⟩],
          w.count ≤ maxFnameLen) ↔ (firstWord str ∈ argCommands →
            argBytes (str.drop (firstWord str).length ++ 0 :: behind) ≤ maxFnameLen)) :=
      fun hmem => harg.trans ⟨fun h _ => h, fun h => h hmem⟩
    have hidx := argCommands_idxOf (firstWord str)
    dsimp only
    split
    · next h => exact hother _ hone (by rw [hidx]; omega)
    · next h => exact hother _ hone (by rw [hidx]; omega)
    · next h => exact hother _ hone (by rw [hidx]; omega)
    · next h =>
      refine hother _ ?_ (by rw [hidx]; omega)
      intro w hw
      obtain rfl | hw := List.mem_cons.mp hw
      · exact hname
      · obtain ⟨f, hf, rfl⟩ := List.mem_map.mp hw
        exact fnameWrite_nametab _ f hf
    · next h => exact hthis (hidx.mpr (by omega))
    · next h => exact hthis (hidx.mpr (by omega))
    · next h => exact hthis (hidx.mpr (by omega))
    · next h4 h5 h6 =>
      refine hother _ hone fun hmem => ?_
      obtain h | h | h : sysCmdTab.idxOf (firstWord str) = 4 ∨ sysCmdTab.idxOf (firstWord str) = 5 ∨
          sysCmdTab.idxOf (firstWord str) = 6 := by
        have hrange := hidx.mp hmem
        omega
      · exact h4 h
      · exact h5 h
      · exact h6 h
  · rw [if_pos (usmartGetCmdname_long hlen)]
    exact iff_of_true hone fun hmem => absurd (hshort _ hmem) hlen

/-! ## The line -/

theorem tableWrites_le (r : Fname) (funs : List (List UInt8))
    (hfuns : ∀ f ∈ funs, (fnameWrite .recSfname f).count ≤ maxFnameLen) :
    ∀ w ∈ tableWrites r funs, w.count ≤ maxFnameLen := by
  induction funs with
  | nil => exact fun _ h => absurd h List.not_mem_nil
  | cons f funs ih =>
    intro w hw
    obtain ⟨hf, hrest⟩ := List.forall_mem_cons.mp hfuns
    rw [tableWrites] at hw
    obtain rfl | hw := List.mem_cons.mp hw
    · exact hf
    · split_ifs at hw
      · cases hw
      · exact ih hrest w hw

/-- `usmart_cmd_rec` writes the name of the line to `rfname`, and names of the table to `sfname`. -/
theorem cmdRecWrites_inBounds_iff (str : List UInt8) :
    (∀ w ∈ cmdRecWrites str, w.count ≤ maxFnameLen) ↔
      nameLength false (nameText str) < maxFnameLen := by
  have htable : ∀ w ∈ (if (usmartGetFname str).res ≠ .ok then [] else
      tableWrites (usmartGetFname str) usmartNametab), w.count ≤ maxFnameLen := by
    split_ifs
    · exact fun _ h => absurd h List.not_mem_nil
    · exact tableWrites_le _ _ (fnameWrite_nametab _)
  rw [cmdRecWrites, List.forall_mem_cons, fnameWrite_count]
  exact and_iff_left htable

theorem exeWrites_le (d : UsmartDev) : ∀ w ∈ exeWrites d, w.count ≤ maxFnameLen := by
  intro w hw
  rw [exeWrites, Option.mem_toList, Option.map_eq_some_iff] at hw
  obtain ⟨f, hf, rfl⟩ := hw
  exact fnameWrite_nametab _ f (List.mem_of_getElem? hf)

/--
The name buffers hold what is written to them if and only if the name of the line has less than
`MAX_FNAME_LEN` characters and, where the line is not taken for a call and its first word is a command
with an argument, the argument takes at most `MAX_FNAME_LEN` bytes.
-/
theorem usmartScan_inBounds_iff (line : Line) (behind : List UInt8) (past : Status × UsmartDev)
    (d : UsmartDev) (s : Display) :
    (∀ w ∈ (usmartScan past line.text behind d s).writes, w.count ≤ maxFnameLen) ↔
      nameLength false (nameText line.text) < maxFnameLen ∧
        ((cmdRec past line.text behind d).1 ≠ .ok → firstWord line.text ∈ argCommands →
          argBytes (line.text.drop (firstWord line.text).length ++ 0 :: behind) ≤ maxFnameLen) := by
  rw [usmartScan]
  dsimp only
  by_cases hok : (cmdRec past line.text behind d).1 = .ok
  · rw [if_pos hok, List.forall_mem_append, cmdRecWrites_inBounds_iff]
    exact and_congr_right' (iff_of_true (exeWrites_le _) fun h => absurd hok h)
  · rw [if_neg hok, List.forall_mem_append, cmdRecWrites_inBounds_iff,
      usmartSysCmdExe_inBounds_iff]
    exact and_congr_right' ⟨fun h _ => h, fun h => h hok⟩

/-- A line of forty letters: the name is too long for `rfname`. -/
def lettersLine : Line := ⟨List.replicate 40 (ch 'a'), by decide, by decide⟩

/-- `hex` and forty digits with blanks between them: the name is the last digit, but the blanks are not
copied with the argument. -/
def digitsLine : Line :=
  ⟨bytes "hex" ++ (List.replicate 40 [ch ' ', ch '1']).flatten, by decide, by decide⟩

theorem long_line_overruns :
    ⟨.recRfname, 41⟩ ∈
        (usmartScan (.ok, .start) lettersLine.text [] .start ⟨.hex, 0⟩).writes ∧
      (∀ w ∈ cmdRecWrites digitsLine.text, w.count ≤ maxFnameLen) ∧
      ⟨.sysSfname, 41⟩ ∈
        (usmartScan (.ok, .start) digitsLine.text [] .start ⟨.hex, 0⟩).writes ∧
      maxFnameLen < 41 := by
  decide +kernel

end PlcFirmware.Usmart
