import PlcFirmware.Usmart.Command

/-!
# The arguments of a line

`usmart_get_fparam` calls `usmart_get_aparm` until the arguments are at their end, and stores what it
gets. `memArgs` is what the calls find, in the line and in the memory behind it, and how they end.

As long as no string is open at the `NUL`, the calls taken together read the text behind the bracket
once from the left: `readArgs` is this reading. A number is complete at the next argument or at the end,
not at its comma: a character behind the comma which fits nowhere takes it back.

* `usmartGetFparam_eq` — `usmart_get_fparam` stores what the calls find
* `memArgs_line` — and this is what `readArgs` finds in a line which is not left
-/

namespace PlcFirmware.Usmart

open Infra

/-! ## Reading in one pass -/

/-- Where in an argument the reading is, with what has been copied of the argument. -/
inductive ArgState
  /-- In a number, or in front of an argument. -/
  | number (ds : List UInt8)
  /-- Behind the comma of a number. -/
  | comma (ds : List UInt8)
  /-- In a string. -/
  | string (s : List UInt8)
  /-- Behind a backslash in a string. -/
  | escaped (s : List UInt8)
  /-- Behind the closing quote of a string. -/
  | closed (s : List UInt8)

/-- How the reading ends. -/
inductive ArgsEnd
  /-- At a bracket or at a `NUL`, outside of strings. -/
  | complete
  /-- At something which is no argument. -/
  | malformed
  /-- At the `NUL`, in front of the first bracket. -/
  | noParen
  /-- Inside a string at the end of the line, or at the end of memory. -/
  | overread
  /-- At an argument which is too long for `tstr`. -/
  | overwrite
  /-- Not at all. -/
  | endless
  deriving DecidableEq

/-- The values which are found, and how the reading ends behind them. -/
structure ArgsRead where
  values : List Value
  ending : ArgsEnd

/-- A value in front of those which follow. -/
def ArgsRead.cons (v : Value) (r : ArgsRead) : ArgsRead := { r with values := v :: r.values }

/-- A number in front of the values which follow: none for an empty one, and the reading stops at one
which `usmart_str2num` does not take. -/
def ArgsRead.consNumber (ds : List UInt8) (r : ArgsRead) : ArgsRead :=
  if ds = [] then r
  else
    match usmartStr2num ds with
    | (0, v) => r.cons (.num v)
    | _ => ⟨[], .malformed⟩

/-- The reading of the text behind a bracket. -/
def readArgs : ArgState → List UInt8 → ArgsRead
  | .number ds, [] => .consNumber ds ⟨[], .complete⟩
  | .comma ds, [] => .consNumber ds ⟨[], .complete⟩
  | .string _, [] => ⟨[], .overread⟩
  | .escaped _, [] => ⟨[], .overread⟩
  | .closed s, [] => ⟨[.text s], .complete⟩
  | .number ds, c :: str =>
    if c = ch ')' then .consNumber ds ⟨[], .complete⟩
    else if isNumChar c then readArgs (.number (ds ++ [toUpper c])) str
    else if c = ch '"' then readArgs (.string ds) str
    else if c = ch ' ' then readArgs (.number ds) str
    else if c = ch ',' then readArgs (.comma ds) str
    else ⟨[], .malformed⟩
  | .comma ds, c :: str =>
    if c = ch ')' then .consNumber ds ⟨[], .complete⟩
    else if isNumChar c then .consNumber ds (readArgs (.number [toUpper c]) str)
    else if c = ch '"' then .consNumber ds (readArgs (.string []) str)
    else if c = ch ' ' ∨ c = ch ',' then readArgs (.comma ds) str
    else ⟨[], .malformed⟩
  | .string s, c :: str =>
    if c = ch '"' then readArgs (.closed s) str
    else if c = ch '\\' then readArgs (.escaped s) str
    else readArgs (.string (s ++ [c])) str
  | .escaped s, c :: str => readArgs (.string (s ++ [c])) str
  | .closed s, c :: str =>
    if c = ch ')' then ⟨[.text s], .complete⟩
    else if c = ch ',' then (readArgs (.comma []) str).cons (.text s)
    else readArgs (.closed s) str

section Steps

variable (ds s str : List UInt8)

theorem readArgs_number_cons (c : UInt8) : readArgs (.number ds) (c :: str)
    = if c = ch ')' then .consNumber ds ⟨[], .complete⟩
      else if isNumChar c then readArgs (.number (ds ++ [toUpper c])) str
      else if c = ch '"' then readArgs (.string ds) str
      else if c = ch ' ' then readArgs (.number ds) str
      else if c = ch ',' then readArgs (.comma ds) str
      else ⟨[], .malformed⟩ := rfl

theorem readArgs_comma_cons (c : UInt8) : readArgs (.comma ds) (c :: str)
    = if c = ch ')' then .consNumber ds ⟨[], .complete⟩
      else if isNumChar c then .consNumber ds (readArgs (.number [toUpper c]) str)
      else if c = ch '"' then .consNumber ds (readArgs (.string []) str)
      else if c = ch ' ' ∨ c = ch ',' then readArgs (.comma ds) str
      else ⟨[], .malformed⟩ := rfl

theorem readArgs_string_cons (c : UInt8) : readArgs (.string s) (c :: str)
    = if c = ch '"' then readArgs (.closed s) str
      else if c = ch '\\' then readArgs (.escaped s) str
      else readArgs (.string (s ++ [c])) str := rfl

theorem readArgs_closed_cons (c : UInt8) : readArgs (.closed s) (c :: str)
    = if c = ch ')' then ⟨[.text s], .complete⟩
      else if c = ch ',' then (readArgs (.comma []) str).cons (.text s)
      else readArgs (.closed s) str := rfl

theorem readArgs_paren : readArgs (.number ds) (ch ')' :: str) = .consNumber ds ⟨[], .complete⟩ := by
  rw [readArgs_number_cons, if_pos rfl]

theorem readArgs_num {c : UInt8} (hc : isNumChar c = true) :
    readArgs (.number ds) (c :: str) = readArgs (.number (ds ++ [toUpper c])) str := by
  rw [readArgs_number_cons, if_neg (isPlain_of_isNumChar hc).paren, if_pos hc]

theorem readArgs_quote : readArgs (.number ds) (ch '"' :: str) = readArgs (.string ds) str := by
  rw [readArgs_number_cons, if_neg (by decide), if_neg (by decide), if_pos rfl]

theorem readArgs_blank : readArgs (.number ds) (ch ' ' :: str) = readArgs (.number ds) str := by
  rw [readArgs_number_cons, if_neg (by decide), if_neg (by decide), if_neg (by decide), if_pos rfl]

theorem readArgs_comma : readArgs (.number ds) (ch ',' :: str) = readArgs (.comma ds) str := by
  rw [readArgs_number_cons, if_neg (by decide), if_neg (by decide), if_neg (by decide),
    if_neg (by decide), if_pos rfl]

theorem readArgs_other {c : UInt8} (hc : IsOther c) :
    readArgs (.number ds) (c :: str) = ⟨[], .malformed⟩ := by
  rw [readArgs_number_cons, if_neg hc.paren, hc.num, if_neg Bool.false_ne_true, if_neg hc.quote,
    if_neg hc.blank, if_neg hc.comma]

theorem readArgs_next_paren :
    readArgs (.comma ds) (ch ')' :: str) = .consNumber ds ⟨[], .complete⟩ := by
  rw [readArgs_comma_cons, if_pos rfl]

/-- The next argument is read as if the number had not been there. -/
theorem readArgs_next {c : UInt8} (hc : isNumChar c = true ∨ c = ch '"') :
    readArgs (.comma ds) (c :: str) = .consNumber ds (readArgs (.number []) (c :: str)) := by
  obtain hc | rfl := hc
  · rw [readArgs_num _ _ hc, readArgs_comma_cons, if_neg (isPlain_of_isNumChar hc).paren, if_pos hc]
    rfl
  · rw [readArgs_quote, readArgs_comma_cons, if_neg (by decide), if_neg (by decide), if_pos rfl]

theorem readArgs_next_skip {c : UInt8} (hc : c = ch ' ' ∨ c = ch ',') :
    readArgs (.comma ds) (c :: str) = readArgs (.comma ds) str := by
  have hplain : c ≠ ch ')' ∧ isNumChar c = false ∧ c ≠ ch '"' := by
    obtain rfl | rfl := hc <;> decide
  rw [readArgs_comma_cons, if_neg hplain.1, hplain.2.1, if_neg Bool.false_ne_true,
    if_neg hplain.2.2, if_pos hc]

theorem readArgs_next_other {c : UInt8} (hc : IsOther c) :
    readArgs (.comma ds) (c :: str) = ⟨[], .malformed⟩ := by
  rw [readArgs_comma_cons, if_neg hc.paren, hc.num, if_neg Bool.false_ne_true, if_neg hc.quote,
    if_neg (not_or.mpr ⟨hc.blank, hc.comma⟩)]

theorem readArgs_endQuote : readArgs (.string s) (ch '"' :: str) = readArgs (.closed s) str := by
  rw [readArgs_string_cons, if_pos rfl]

theorem readArgs_backslash : readArgs (.string s) (ch '\\' :: str) = readArgs (.escaped s) str := by
  rw [readArgs_string_cons, if_neg (by decide), if_pos rfl]

theorem readArgs_copy {c : UInt8} (hq : c ≠ ch '"') (hb : c ≠ ch '\\') :
    readArgs (.string s) (c :: str) = readArgs (.string (s ++ [c])) str := by
  rw [readArgs_string_cons, if_neg hq, if_neg hb]

theorem readArgs_closed_paren : readArgs (.closed s) (ch ')' :: str) = ⟨[.text s], .complete⟩ := by
  rw [readArgs_closed_cons, if_pos rfl]

theorem readArgs_closed_comma :
    readArgs (.closed s) (ch ',' :: str) = (readArgs (.comma []) str).cons (.text s) := by
  rw [readArgs_closed_cons, if_neg (by decide), if_pos rfl]

theorem readArgs_behind {c : UInt8} (h1 : c ≠ ch ')') (h2 : c ≠ ch ',') :
    readArgs (.closed s) (c :: str) = readArgs (.closed s) str := by
  rw [readArgs_closed_cons, if_neg h1, if_neg h2]

end Steps

/-- At the end of the arguments there is nothing to read. -/
theorem readArgs_of_atEnd {str : List UInt8} (hnul : 0 ∉ str) (h : atEnd str = true) :
    readArgs (.number []) str = ⟨[], .complete⟩ := by
  cases str with
  | nil => rfl
  | cons c str =>
    rw [atEnd, List.headD_cons, Bool.or_eq_true, beq_iff_eq, beq_iff_eq] at h
    obtain rfl | rfl := h
    · exact readArgs_paren [] str
    · exact absurd List.mem_cons_self hnul

/-! ## One call of `usmart_get_aparm` -/

/-- The argument of a call in front of the values which are read behind it. -/
def Aparm.deliver (a : Aparm) (r : ArgsRead) : ArgsRead :=
  match a.ptype with
  | .number => .consNumber a.fparm r
  | .string => r.cons (.text (cString a.fparm))
  | .error => ⟨[], .malformed⟩

/-- A call goes on to the end of a memory which ends with the line, for a string is open there. -/
structure Leaves (a : Aparm) (str : List UInt8) (r : ArgsRead) (b : Aparm) : Prop where
  run : aparmLoop a (str ++ [0]) = (b, false)
  copied : b.fparm.length ≤ a.fparm.length + str.length + 1
  read : r = ⟨[], .overread⟩

/-- A call stops behind `pre` in the text `str` of a line, whatever lies behind the line, with an
argument in front of what is read from there on. It has not copied more than it has read. -/
structure StopsBehind (a : Aparm) (str : List UInt8) (r : ArgsRead) (b : Aparm)
    (pre rest : List UInt8) : Prop where
  split : str = pre ++ rest
  run : ∀ behind, aparmLoop a (str ++ 0 :: behind) = (b, true)
  offset : b.i = a.i + pre.length
  copied : b.fparm.length ≤ a.fparm.length + pre.length
  read : r = b.deliver (readArgs (.number []) rest)

/-- A call agrees with the reading `r` of the text. -/
def Delivers (a : Aparm) (str : List UInt8) (r : ArgsRead) : Prop :=
  (∃ b, Leaves a str r b) ∨ ∃ b pre rest, StopsBehind a str r b pre rest

theorem Delivers.stop {a b : Aparm} {str : List UInt8} {r : ArgsRead}
    (h : ∀ behind, aparmLoop a (str ++ 0 :: behind) = (b, true)) (hi : b.i = a.i)
    (hf : b.fparm = a.fparm) (hr : r = b.deliver (readArgs (.number []) str)) : Delivers a str r :=
  .inr ⟨b, [], str, rfl, h, by simp [hi], by simp [hf], hr⟩

/-- A call which reads `pre`, copying no more than that, agrees if it agrees from there on. -/
theorem Delivers.step {a b : Aparm} {str : List UInt8} {r : ArgsRead} (pre : List UInt8)
    (h : ∀ mem, aparmLoop a (pre ++ mem) = aparmLoop b mem) (hi : b.i = a.i + pre.length)
    (hf : b.fparm.length ≤ a.fparm.length + pre.length) (hb : Delivers b str r) :
    Delivers a (pre ++ str) r := by
  obtain ⟨c, hc⟩ | ⟨c, pre', rest, hc⟩ := hb
  · have hcopied := hc.copied
    refine .inl ⟨c, ?_, ?_, hc.read⟩
    · rw [List.append_assoc, h, hc.run]
    · rw [List.length_append]; omega
  · have hcopied := hc.copied
    refine .inr ⟨c, pre ++ pre', rest, by rw [hc.split, List.append_assoc], fun behind => ?_, ?_, ?_,
      hc.read⟩
    · rw [List.append_assoc, h, hc.run]
    · rw [hc.offset, hi, List.length_append]; omega
    · rw [List.length_append]; omega

/-- At the end of the line a call stops in front of the `NUL`, unless a string is open. -/
theorem Delivers.nul {a : Aparm} {r : ArgsRead} (hs : a.string = false)
    (hr : r = a.deliver ⟨[], .complete⟩) : Delivers a [] r :=
  Delivers.stop (fun behind => aparmLoop_end hs (.inr rfl) behind) rfl rfl hr

/-- Behind the closing quote. -/
theorem delivers_closed (str : List UInt8) : 0 ∉ str → ∀ (a : Aparm), a.ptype = .string →
    a.string = false → a.enout = false → 0 ∉ a.fparm →
    Delivers a str (readArgs (.closed a.fparm) str) := by
  induction str with
  | nil =>
    intro _ a hp hs _ hf
    refine Delivers.nul hs ?_
    simp only [Aparm.deliver, hp, cString_of_notMem hf]
    rfl
  | cons c str ih =>
    intro hnul a hp hs he hf
    obtain ⟨h0, hstr⟩ := not_or.mp (List.mem_cons.not.mp hnul)
    by_cases hc : c = ch ')'
    · subst hc
      refine Delivers.stop (fun behind => aparmLoop_end hs (.inl rfl) _) rfl rfl ?_
      simp only [Aparm.deliver, hp, cString_of_notMem hf, readArgs_closed_paren, readArgs_paren]
      rfl
    by_cases hcomma : c = ch ','
    · -- the comma is left for the next call, which reads past it
      subst hcomma
      refine Delivers.stop (fun behind => aparmLoop_closed_comma hp hs _) rfl rfl ?_
      simp only [Aparm.deliver, hp, cString_of_notMem hf, readArgs_closed_comma, readArgs_comma]
    · refine Delivers.step [c] (aparmLoop_behind hp he hs (Ne.symm h0) hc hcomma) rfl (by simp) ?_
      rw [readArgs_behind _ _ hc hcomma]
      exact ih hstr { a with i := a.i + 1 } hp hs he hf

/-- Inside a string. A backslash takes the next character with it, so two may be read at once. -/
theorem delivers_string (str : List UInt8) (hnul : 0 ∉ str) (a : Aparm) (hp : a.ptype = .string)
    (hs : a.string = true) (he : a.enout = false) (hf : 0 ∉ a.fparm) :
    Delivers a str (readArgs (.string a.fparm) str) := by
  match str with
  | [] =>
    -- the `NUL` is copied
    refine .inl ⟨_, aparmLoop_copy hp he hs (by decide) (by decide) [], ?_, rfl⟩
    simp
  | c :: str =>
    obtain ⟨h0, hstr⟩ := not_or.mp (List.mem_cons.not.mp hnul)
    by_cases hq : c = ch '"'
    · subst hq
      refine Delivers.step [ch '"'] (aparmLoop_endQuote hp he) rfl (by simp) ?_
      rw [readArgs_endQuote]
      exact delivers_closed str hstr { a with i := a.i + 1, string := false } hp rfl he hf
    by_cases hb : c = ch '\\'
    · subst hb
      rw [readArgs_backslash]
      match str with
      | [] =>
        refine .inl ⟨_, aparmLoop_escape hp he hs 0 [], ?_, rfl⟩
        simp
      | c :: str =>
        obtain ⟨hc, hstr⟩ := not_or.mp (List.mem_cons.not.mp hstr)
        refine Delivers.step [ch '\\', c] (aparmLoop_escape hp he hs c) rfl (by simp) ?_
        rw [readArgs]
        exact delivers_string str hstr { a with i := a.i + 2, fparm := a.fparm ++ [c] } hp hs he
          (zero_notMem_append hf (Ne.symm hc))
    · refine Delivers.step [c] (aparmLoop_copy hp he hs hq hb) rfl (by simp) ?_
      rw [readArgs_copy _ _ hq hb]
      exact delivers_string str hstr { a with i := a.i + 1, fparm := a.fparm ++ [c] } hp hs he
        (zero_notMem_append hf (Ne.symm h0))

/-- Behind a comma, with a number in front of it or not. -/
theorem delivers_comma (str : List UInt8) : 0 ∉ str → ∀ (a : Aparm), a.ptype = .number →
    a.string = false → a.enout = true → Delivers a str (readArgs (.comma a.fparm) str) := by
  induction str with
  | nil =>
    intro _ a hp hs _
    refine Delivers.nul hs ?_
    simp only [Aparm.deliver, hp]
    rfl
  | cons c str ih =>
    intro hnul a hp hs he
    obtain ⟨h0, hstr⟩ := not_or.mp (List.mem_cons.not.mp hnul)
    obtain rfl | hc | rfl | rfl | rfl | hc := charCases c
    · refine Delivers.stop (fun behind => aparmLoop_end hs (.inl rfl) _) rfl rfl ?_
      simp only [Aparm.deliver, hp, readArgs_next_paren, readArgs_paren]
      rfl
    · refine Delivers.stop (fun behind => aparmLoop_next hp hs he (.inl hc) _) rfl rfl ?_
      simp only [Aparm.deliver, hp, readArgs_next _ _ (.inl hc)]
    · refine Delivers.stop (fun behind => aparmLoop_next hp hs he (.inr rfl) _) rfl rfl ?_
      simp only [Aparm.deliver, hp, readArgs_next _ _ (.inr rfl)]
    · refine Delivers.step [ch ' '] (aparmLoop_blank hp hs) rfl (by simp) ?_
      rw [readArgs_next_skip _ _ (.inl rfl)]
      exact ih hstr { a with i := a.i + 1 } hp hs he
    · refine Delivers.step [ch ','] (aparmLoop_comma hp hs) rfl (by simp) ?_
      rw [readArgs_next_skip _ _ (.inr rfl)]
      exact ih hstr { a with i := a.i + 1, enout := true } hp hs rfl
    · refine Delivers.stop (fun behind => aparmLoop_other hp hs (Ne.symm h0) hc _) rfl rfl ?_
      rw [readArgs_next_other _ _ hc]
      rfl

/-- At the start of an argument, or in a number. -/
theorem delivers_number (str : List UInt8) : 0 ∉ str → ∀ (a : Aparm), a.ptype = .number →
    a.string = false → a.enout = false → 0 ∉ a.fparm →
    Delivers a str (readArgs (.number a.fparm) str) := by
  induction str with
  | nil =>
    intro _ a hp hs _ _
    refine Delivers.nul hs ?_
    simp only [Aparm.deliver, hp]
    rfl
  | cons c str ih =>
    intro hnul a hp hs he hf
    obtain ⟨h0, hstr⟩ := not_or.mp (List.mem_cons.not.mp hnul)
    obtain rfl | hc | rfl | rfl | rfl | hc := charCases c
    · refine Delivers.stop (fun behind => aparmLoop_end hs (.inl rfl) _) rfl rfl ?_
      simp only [Aparm.deliver, hp, readArgs_paren]
      rfl
    · refine Delivers.step [c] (aparmLoop_num hp hs he hc) rfl (by simp) ?_
      rw [readArgs_num _ _ hc]
      exact ih hstr { a with i := a.i + 1, fparm := a.fparm ++ [toUpper c] } hp hs he
        (zero_notMem_append hf (toUpper_ne_zero (Ne.symm h0)))
    · refine Delivers.step [ch '"'] (aparmLoop_quote hp hs he) rfl (by simp) ?_
      rw [readArgs_quote]
      exact delivers_string str hstr { a with i := a.i + 1, ptype := .string, string := true } rfl rfl
        he hf
    · refine Delivers.step [ch ' '] (aparmLoop_blank hp hs) rfl (by simp) ?_
      rw [readArgs_blank]
      exact ih hstr { a with i := a.i + 1 } hp hs he hf
    · refine Delivers.step [ch ','] (aparmLoop_comma hp hs) rfl (by simp) ?_
      rw [readArgs_comma]
      exact delivers_comma str hstr { a with i := a.i + 1, enout := true } hp hs rfl
    · refine Delivers.stop (fun behind => aparmLoop_other hp hs (Ne.symm h0) hc _) rfl rfl ?_
      rw [readArgs_other _ _ hc]
      rfl

/-- In front of an argument a call does not stop without having read something. -/
theorem aparm_progress {str : List UInt8} (hnul : 0 ∉ str) {a : Aparm}
    (h : usmartGetAparm (str ++ [0]) = (a, true)) (hend : atEnd str = false)
    (hp : a.ptype ≠ .error) : 0 < a.i := by
  have hstep : ∀ (b : Aparm) (str : List UInt8) (r : ArgsRead), b.i = 1 →
      aparmLoop b (str ++ [0]) = (a, true) → Delivers b str r → 0 < a.i := by
    intro b str r hb hr hdel
    obtain ⟨e, he⟩ | ⟨e, pre, rest, he⟩ := hdel
    · exact Bool.noConfusion (Prod.mk.inj (he.run.symm.trans hr)).2
    · have hi := he.offset
      rw [(Prod.mk.inj ((he.run []).symm.trans hr)).1] at hi
      omega
  -- the first character is read, or it is an error
  cases str with
  | nil => exact Bool.noConfusion hend
  | cons c str =>
    obtain ⟨h0, hstr⟩ := not_or.mp (List.mem_cons.not.mp hnul)
    rw [usmartGetAparm, List.cons_append] at h
    obtain rfl | hc | rfl | rfl | rfl | hc := charCases c
    · exact Bool.noConfusion hend
    · rw [aparmLoop_num rfl rfl rfl hc] at h
      exact hstep _ _ _ rfl h (delivers_number str hstr _ rfl rfl rfl
        (zero_notMem_append List.not_mem_nil (toUpper_ne_zero (Ne.symm h0))))
    · rw [aparmLoop_quote rfl rfl rfl] at h
      exact hstep _ _ _ rfl h (delivers_string str hstr _ rfl rfl rfl List.not_mem_nil)
    · rw [aparmLoop_blank rfl rfl] at h
      exact hstep _ _ _ rfl h (delivers_number str hstr _ rfl rfl rfl List.not_mem_nil)
    · rw [aparmLoop_comma rfl rfl] at h
      exact hstep _ _ _ rfl h (delivers_comma str hstr _ rfl rfl rfl)
    · rw [aparmLoop_other rfl rfl (Ne.symm h0) hc] at h
      obtain rfl := (Prod.mk.inj h).1
      exact absurd rfl hp

/-- A call which stops in the line: its argument, and the text which it leaves for the next. -/
structure Round (str : List UInt8) (a : Aparm) : Prop where
  run : ∀ behind, usmartGetAparm (str ++ 0 :: behind) = (a, true)
  offset : a.i ≤ str.length
  copied : a.fparm.length ≤ str.length
  read : readArgs (.number []) str = a.deliver (readArgs (.number []) (str.drop a.i))
  rest : a.ptype ≠ .error → if atEnd (str.drop a.i)
    then readArgs (.number []) (str.drop a.i) = ⟨[], .complete⟩
    else (str.drop a.i).length < str.length

theorem aparm_round {str : List UInt8} (hnul : 0 ∉ str) :
    (∃ b, Leaves {} str (readArgs (.number []) str) b) ∨ ∃ a, Round str a := by
  refine (delivers_number str hnul {} rfl rfl rfl List.not_mem_nil).imp_right ?_
  rintro ⟨a, pre, rest, h⟩
  have hprog : atEnd str = false → a.ptype ≠ .error → 0 < a.i := aparm_progress hnul (h.run [])
  have hi := h.offset
  have hcopied := h.copied
  have hlen : str.length = pre.length + rest.length := by rw [h.split, List.length_append]
  simp only [List.length_nil, Nat.zero_add] at hi hcopied
  have hdrop : str.drop a.i = rest := by rw [hi, h.split, List.drop_left]
  refine ⟨a, h.run, by omega, by omega, by rw [hdrop]; exact h.read, fun hp => ?_⟩
  rw [hdrop]
  split
  · next hend =>
    exact readArgs_of_atEnd (fun h0 => hnul (h.split ▸ List.mem_append_right _ h0)) hend
  · next hend =>
    have hpos : 0 < pre.length := by
      cases pre with
      | nil =>
        have hstr : str = rest := h.split
        exact hi ▸ hprog (by rw [hstr]; simpa using hend) hp
      | cons => exact Nat.succ_pos _
    omega

/-! ## All the calls -/

/-- What the calls of `usmart_get_aparm` find from a place in memory on. -/
def readMem : (fuel : Nat) → List UInt8 → ArgsRead
  | 0, _ => ⟨[], .endless⟩
  | fuel + 1, mem =>
    let (a, ended) := usmartGetAparm mem
    if parmLen + 1 < written (a, ended) then ⟨[], .overwrite⟩
    else if ended = false then ⟨[], .overread⟩
    else
      let mem := mem.drop (a.i % 256)
      a.deliver (if atEnd mem then ⟨[], .complete⟩ else readMem fuel mem)

/-- What is read behind an argument matters only as far as the argument is one. -/
theorem deliver_congr {a : Aparm} {r s : ArgsRead} (h : (a.deliver r).ending ≠ .overread)
    (hs : r.ending ≠ .overread → s = r) : a.deliver s = a.deliver r := by
  unfold Aparm.deliver at h ⊢
  split
  · next hp =>
    rw [hp] at h
    simp only at h
    unfold ArgsRead.consNumber at h ⊢
    split
    · next hnil =>
      rw [if_pos hnil] at h
      rw [hs h]
    · next hnil =>
      rw [if_neg hnil] at h
      split
      · next v hv =>
        rw [hv] at h
        rw [hs h]
      · rfl
  · next hp =>
    rw [hp] at h
    rw [hs h]
  · rfl

/-- In a line which is not left the calls find what `readArgs` finds. -/
theorem readMem_line {behind : List UInt8} (fuel : Nat) : ∀ str : List UInt8, 0 ∉ str →
    str.length < fuel → str.length ≤ parmLen →
    behind = [] ∨ (readArgs (.number []) str).ending ≠ .overread →
    readMem fuel (str ++ 0 :: behind) = readArgs (.number []) str := by
  induction fuel with
  | zero => intro str _ hf; exact absurd hf (Nat.not_lt_zero _)
  | succ fuel ih =>
    intro str hnul hf hlen hstays
    unfold parmLen at hlen
    obtain ⟨b, hb⟩ | ⟨a, ha⟩ := aparm_round hnul
    · have hcopied := hb.copied
      rw [List.length_nil] at hcopied
      obtain rfl := hstays.resolve_right fun h => h (congrArg ArgsRead.ending hb.read)
      have hfits : ¬parmLen + 1 < written (b, false) := by
        have hwritten : written (b, false) = b.fparm.length := rfl
        rw [hwritten, parmLen]
        omega
      rw [readMem, usmartGetAparm, hb.run, hb.read]
      dsimp only
      rw [if_neg hfits, if_pos rfl]
    · have hcopied := ha.copied
      have hoffset := ha.offset
      have hfits : ¬parmLen + 1 < written (a, true) := by
        have hwritten : written (a, true) = a.fparm.length + 1 := rfl
        rw [hwritten, parmLen]
        omega
      have hdrop : (str ++ 0 :: behind).drop (a.i % 256) = str.drop a.i ++ 0 :: behind := by
        rw [Nat.mod_eq_of_lt (by omega), List.drop_append_of_le_length hoffset]
      have hatEnd : atEnd (str.drop a.i ++ 0 :: behind) = atEnd (str.drop a.i) := by
        cases str.drop a.i <;> rfl
      rw [readMem, ha.run]
      dsimp only
      rw [if_neg hfits, if_neg Bool.noConfusion, hdrop, hatEnd, ha.read]
      by_cases hp : a.ptype = .error
      · simp only [Aparm.deliver, hp]
      -- the reading goes on with a shorter text, unless the arguments are at their end
      have hrest := ha.rest hp
      by_cases hend : atEnd (str.drop a.i) = true
      · rw [if_pos hend] at hrest ⊢
        rw [hrest]
      · rw [if_neg hend] at hrest ⊢
        have hnul' : 0 ∉ str.drop a.i := fun h => hnul (List.mem_of_mem_drop h)
        have ih := ih (str.drop a.i) hnul' (by omega) (by unfold parmLen; omega)
        obtain hb | hstays := hstays
        · rw [ih (.inl hb)]
        · rw [ha.read] at hstays
          exact deliver_congr hstays fun h => ih (.inr h)

/-! ## The loop of `usmart_get_fparam` -/

/-- How the function ends when it has stored `n` values and there are no more. -/
def ArgsEnd.outcome (n : Nat) (d : UsmartDev) : ArgsEnd → Outcome
  | .complete => .ret .ok n d
  | .malformed => .ret .parmErr n d
  | .noParen => .ret .funcErr n d
  | .overread => .overread
  | .overwrite => .overwrite
  | .endless => .outOfFuel

/-- The values are stored one behind the other, up to the eleventh, with `n` stored before. -/
def UsmartDev.storeArgs (n : Nat) (d : UsmartDev) : List Value → ArgsEnd → Outcome
  | [], e => e.outcome n d
  | v :: vs, e =>
    let d := d.put n v.isString v.stored
    if n + 1 > maxParm then .ret .parmOver (n + 1) d else storeArgs (n + 1) d vs e

/-- The writes of these values. -/
def UsmartDev.storesOf (n : Nat) (d : UsmartDev) : List Value → List ArgStore
  | [] => []
  | v :: vs =>
    ⟨n, (d.parmpos n).toNat, v.stored⟩ ::
      if n + 1 > maxParm then [] else storesOf (n + 1) (d.put n v.isString v.stored) vs

theorem fparamLoop_eq (fuel : Nat) : ∀ (n : Nat) (d : UsmartDev) (mem : List UInt8),
    fparamLoop fuel n d mem = (d.storesOf n (readMem fuel mem).values,
      d.storeArgs n (readMem fuel mem).values (readMem fuel mem).ending) := by
  induction fuel with
  | zero => intro n d mem; rfl
  | succ fuel ih =>
    intro n d mem
    rw [fparamLoop, readMem]
    obtain ⟨a, ended⟩ := usmartGetAparm mem
    simp only
    split
    · rfl
    split
    · rfl
    -- what is done behind the argument
    have hnext : ∀ (n : Nat) (d : UsmartDev) (mem : List UInt8),
        (if atEnd mem then ([], .ret .ok n d) else fparamLoop fuel n d mem)
          = (d.storesOf n (if atEnd mem then ⟨[], .complete⟩ else readMem fuel mem).values,
            d.storeArgs n (if atEnd mem then ⟨[], .complete⟩ else readMem fuel mem).values
              (if atEnd mem then ⟨[], .complete⟩ else readMem fuel mem).ending) := by
      intro n d mem
      split
      · rfl
      · exact ih n d mem
    cases hp : a.ptype with
    | error =>
      simp only [Aparm.deliver, hp]
      rfl
    | string =>
      simp only [Aparm.deliver, hp, ArgsRead.cons, UsmartDev.storesOf, UsmartDev.storeArgs, hnext,
        Value.stored, Value.isString]
      split <;> rfl
    | number =>
      simp only [Aparm.deliver, hp, ArgsRead.consNumber]
      by_cases hnil : a.fparm = []
      · simp only [if_pos hnil]
        exact hnext n d _
      · simp only [if_neg hnil]
        obtain ⟨code, v⟩ := usmartStr2num a.fparm
        cases code with
        | zero =>
          simp only [ArgsRead.cons, UsmartDev.storesOf, UsmartDev.storeArgs, hnext, Value.stored,
            Value.isString]
          split <;> rfl
        | succ => rfl

/-- With enough fuel a further round changes nothing: a loop which has not ended by then comes back to the
same place with the same arguments stored. -/
theorem fparamLoop_enough (fuel : Nat) : ∀ (n : Nat) (d : UsmartDev) (mem : List UInt8),
    mem.length + (maxParm + 1 - n) < fuel → fparamLoop (fuel + 1) n d mem = fparamLoop fuel n d mem := by
  induction fuel with
  | zero => intro n d mem h; exact absurd h (Nat.not_lt_zero _)
  | succ fuel ih =>
    intro n d mem hfuel
    obtain ⟨a, ended, hr⟩ : ∃ a ended, usmartGetAparm mem = (a, ended) := ⟨_, _, rfl⟩
    have hlen : (mem.drop (a.i % 256)).length = mem.length - a.i % 256 := List.length_drop
    rw [fparamLoop, fparamLoop, hr]
    dsimp only
    split
    · rfl
    next hfits =>
    split
    · rfl
    next hended =>
    -- behind one more argument there are fewer rounds left
    have hstored : ∀ e : UsmartDev, (if n + 1 > maxParm then ([], .ret .parmOver (n + 1) e)
        else if atEnd (mem.drop (a.i % 256)) then ([], .ret .ok (n + 1) e)
        else fparamLoop (fuel + 1) (n + 1) e (mem.drop (a.i % 256)))
          = if n + 1 > maxParm then ([], .ret .parmOver (n + 1) e)
            else if atEnd (mem.drop (a.i % 256)) then ([], .ret .ok (n + 1) e)
            else fparamLoop fuel (n + 1) e (mem.drop (a.i % 256)) := by
      intro e
      split
      · rfl
      split
      · rfl
      · exact ih _ _ _ (by omega)
    cases hp : a.ptype with
    | error => rfl
    | string => simp only [hstored]
    | number =>
      by_cases hnil : a.fparm = []
      · simp only [if_pos hnil]
        split
        · rfl
        next hend =>
        by_cases hi : a.i % 256 = 0
        · -- the offset has wrapped around, and the next round is this one again
          rw [hi, List.drop_zero] at hend ⊢
          rw [fparamLoop, hr]
          dsimp only
          rw [if_neg hfits, if_neg hended, hp]
          dsimp only
          rw [if_pos hnil, hi, List.drop_zero, if_neg hend]
        · have hpos : 0 < mem.length := by
            refine List.length_pos_iff.mpr fun hmem => hended ?_
            rw [hmem] at hr
            exact (Prod.mk.inj hr).2.symm
          exact ih _ _ _ (by omega)
      · simp only [if_neg hnil, hstored]

/-- The values which are put without regard to their number. -/
def UsmartDev.putAll (n : Nat) (d : UsmartDev) : List Value → UsmartDev
  | [] => d
  | v :: vs => (d.put n v.isString v.stored).putAll (n + 1) vs

theorem storeArgs_of_le (e : ArgsEnd) (vs : List Value) : ∀ (n : Nat) (d : UsmartDev),
    n + vs.length ≤ maxParm →
    d.storeArgs n vs e = e.outcome (n + vs.length) (d.putAll n vs) := by
  induction vs with
  | nil => intro n d _; rfl
  | cons v vs ih =>
    intro n d hn
    rw [List.length_cons] at hn ⊢
    rw [UsmartDev.storeArgs]
    rw [if_neg (by omega), ih (n + 1) _ (by omega), Nat.add_right_comm, Nat.add_assoc]
    rfl

/-- With an eleventh value the function stops behind it. -/
theorem storeArgs_of_gt (e : ArgsEnd) (vs : List Value) : ∀ (n : Nat) (d : UsmartDev),
    n ≤ maxParm → maxParm < n + vs.length →
    ∃ d', d.storeArgs n vs e = .ret .parmOver (maxParm + 1) d' := by
  induction vs with
  | nil => intro n d hn hgt; rw [List.length_nil] at hgt; omega
  | cons v vs ih =>
    intro n d hn hgt
    rw [List.length_cons] at hgt
    rw [UsmartDev.storeArgs]
    by_cases h : n + 1 > maxParm
    · obtain rfl : n = maxParm := by omega
      rw [if_pos h]
      exact ⟨_, rfl⟩
    · rw [if_neg h]
      exact ih (n + 1) _ (by omega) (by omega)

/-! ## The line -/

/-- What the calls find behind the bracket of a line, with `behind` in memory behind its `NUL`. -/
def memArgs (line behind : List UInt8) : ArgsRead :=
  match toParen (line ++ 0 :: behind) with
  | .found mem => readMem (mem.length + maxParm + 2) mem
  | .nul => ⟨[], .noParen⟩
  | .memEnd => ⟨[], .overread⟩

/-- `usmart_get_fparam` stores the arguments. -/
theorem fparamRun_eq (line behind : List UInt8) (d : UsmartDev) : fparamRun line behind d
    = (d.clearLens.storesOf 0 (memArgs line behind).values,
      d.clearLens.storeArgs 0 (memArgs line behind).values (memArgs line behind).ending) := by
  rw [fparamRun, memArgs]
  cases toParen (line ++ 0 :: behind) with
  | found mem => exact fparamLoop_eq _ _ _ _
  | nul => rfl
  | memEnd => rfl

theorem usmartGetFparam_eq (line behind : List UInt8) (d : UsmartDev) : usmartGetFparam line behind d
    = d.clearLens.storeArgs 0 (memArgs line behind).values (memArgs line behind).ending :=
  congrArg Prod.snd (fparamRun_eq line behind d)

theorem usmartGetFparamStores_eq (line behind : List UInt8) (d : UsmartDev) :
    usmartGetFparamStores line behind d = d.clearLens.storesOf 0 (memArgs line behind).values :=
  congrArg Prod.fst (fparamRun_eq line behind d)

/-- The text of a line from behind its first `(` on, as far as there is one. -/
def behindParen : List UInt8 → Option (List UInt8)
  | [] => none
  | c :: str => if c = ch '(' then some str else behindParen str

/-- The arguments in the text of a line. The search for a bracket steps over the `NUL` of an empty
line. -/
def lineArgs (line : List UInt8) : ArgsRead :=
  match behindParen line with
  | some text => readArgs (.number []) text
  | none => ⟨[], if line = [] then .overread else .noParen⟩

theorem behindParen_length_lt {line text : List UInt8} (h : behindParen line = some text) :
    text.length < line.length := by
  induction line with
  | nil => cases h
  | cons c str ih =>
    rw [behindParen] at h
    split at h
    · cases h; exact Nat.lt_succ_self _
    · exact Nat.lt_succ_of_lt (ih h)

theorem behindParen_subset {line text : List UInt8} (h : behindParen line = some text) :
    text ⊆ line := by
  induction line with
  | nil => cases h
  | cons c str ih =>
    rw [behindParen] at h
    split at h
    · cases h; exact List.subset_cons_self _ _
    · exact fun x hx => List.mem_cons_of_mem _ (ih h hx)

/-- The search for a bracket in a line which is not empty. -/
theorem toParen_line (behind : List UInt8) {line : List UInt8} (hne : line ≠ []) (hnul : 0 ∉ line) :
    toParen (line ++ 0 :: behind) = match behindParen line with
      | some text => .found (text ++ 0 :: behind)
      | none => .nul := by
  induction line with
  | nil => exact absurd rfl hne
  | cons c line ih =>
    obtain ⟨_, hline⟩ := not_or.mp (List.mem_cons.not.mp hnul)
    rw [List.cons_append, toParen, behindParen]
    by_cases hc : c = ch '('
    · rw [if_pos hc, if_pos hc]
    · rw [if_neg hc, if_neg hc]
      cases line with
      | nil => rfl
      | cons next line =>
        have hnext : next ≠ 0 := fun h => hline (h ▸ List.mem_cons_self)
        rw [← ih (List.cons_ne_nil _ _) hline, List.cons_append, List.head?_cons]
        exact if_neg hnext

/-- **In a line which is not left the calls find the arguments of the line.** -/
theorem memArgs_line {line behind : List UInt8} (hlen : line.length ≤ 199) (hnul : 0 ∉ line)
    (hstays : behind = [] ∨ (lineArgs line).ending ≠ .overread) :
    memArgs line behind = lineArgs line := by
  by_cases hne : line = []
  · subst hne
    obtain rfl := hstays.resolve_right fun h => h rfl
    rfl
  rw [memArgs, toParen_line behind hne hnul]
  rw [lineArgs] at hstays ⊢
  cases htext : behindParen line with
  | none =>
    simp only
    rw [if_neg hne]
  | some text =>
    rw [htext] at hstays
    have hlt := behindParen_length_lt htext
    refine readMem_line _ text (fun h => hnul (behindParen_subset htext h)) ?_ ?_ hstays
    · rw [List.length_append]
      omega
    · unfold parmLen
      omega

end PlcFirmware.Usmart
