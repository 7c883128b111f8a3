import PlcFirmware.Usmart.Arguments

/-!
# How `usmart_get_fparam` reads the arguments of a command

Each argument is read back, and then the reading goes on behind the comma. A number is complete when the
next argument begins, a string at its comma.
-/

namespace PlcFirmware.Usmart

/-! ## One argument -/

/-- The variables of `usmart_get_aparm` behind an argument. -/
def Arg.scanned (a : Arg) : Aparm where
  i := a.written.length
  fparm :=
    match a with
    | .dec _ _ _ => a.written.map toUpper
    | .hex _ _ _ => a.written.map toUpper
    | .str s _ => s
  ptype := if a.value.isString then .string else .number

theorem Arg.isNumChar_written (a : Arg) (h : a.value.isString = false) :
    ∀ c ∈ a.written, isNumChar c = true := by
  cases a with
  | dec digits =>
    intro c hc
    obtain ⟨d, _, rfl⟩ := List.mem_map.mp hc
    exact isNumChar_decDigit d
  | hex digits =>
    intro c hc
    obtain rfl | hc := List.mem_cons.mp hc
    · decide
    obtain rfl | hc := List.mem_cons.mp hc
    · decide
    obtain ⟨d, _, rfl⟩ := List.mem_map.mp hc
    exact isNumChar_hexDigit d.1 d.2
  | str => exact Bool.noConfusion h

theorem readArgs_nums {t : List UInt8} (ht : ∀ c ∈ t, isNumChar c = true) (rest : List UInt8) :
    ∀ ds : List UInt8,
    readArgs (.number ds) (t ++ rest) = readArgs (.number (ds ++ t.map toUpper)) rest := by
  induction t with
  | nil => intro ds; rw [List.nil_append, List.map_nil, List.append_nil]
  | cons c t ih =>
    intro ds
    rw [List.cons_append, readArgs_num _ _ (ht c List.mem_cons_self),
      ih fun c h => ht c (List.mem_cons_of_mem _ h), List.map_cons, List.append_assoc,
      List.singleton_append]

/-- The escaped string is copied without the backslashes. -/
theorem readArgs_escaped (s rest : List UInt8) : ∀ copied : List UInt8,
    readArgs (.string copied) (escape s ++ rest) = readArgs (.string (copied ++ s)) rest := by
  induction s with
  | nil => intro copied; rw [List.append_nil]; rfl
  | cons c s ih =>
    intro copied
    have hcopied : copied ++ c :: s = copied ++ [c] ++ s := by simp
    by_cases hc : c = ch '"' ∨ c = ch '\\'
    · have hesc : escape (c :: s) = ch '\\' :: c :: escape s := by
        rw [escape, List.flatMap_cons, if_pos hc]; rfl
      rw [hesc, List.cons_append, List.cons_append, readArgs_backslash, readArgs, ih, hcopied]
    · have hesc : escape (c :: s) = c :: escape s := by
        rw [escape, List.flatMap_cons, if_neg hc]; rfl
      rw [not_or] at hc
      rw [hesc, List.cons_append, readArgs_copy _ _ hc.1 hc.2, ih, hcopied]

/-- What has been copied stands for the value. -/
def Aparm.Reads (a : Aparm) : Value → Prop
  | .num v => a.ptype = .number ∧ a.fparm ≠ [] ∧ usmartStr2num a.fparm = (0, v)
  | .text s => a.ptype = .string ∧ a.fparm = s

theorem Arg.scanned_reads (a : Arg) : a.scanned.Reads a.value := by
  cases a with
  | dec digits ne_nil =>
    have hupper : (digits.map decDigit).map toUpper = digits.map decDigit := by
      simp [toUpper_decDigit]
    refine ⟨rfl, ?_, ?_⟩
    · simp [Arg.scanned, Arg.written, ne_nil]
    · rw [Arg.scanned, Arg.written, hupper]
      exact usmartStr2num_dec ne_nil
  | hex digits ne_nil =>
    have hupper : (digits.map fun d => hexDigit d.1 d.2).map toUpper
        = (digits.map Prod.snd).map (hexDigit true) := by
      simp [toUpper_hexDigit]
    refine ⟨rfl, by simp [Arg.scanned, Arg.written], ?_⟩
    rw [Arg.scanned, Arg.written, List.map_cons, List.map_cons, hupper]
    exact usmartStr2num_hex (by simpa using ne_nil)
  | str s => exact ⟨rfl, rfl⟩

/-- What has been copied of a number makes the value. -/
theorem Arg.consNumber_scanned {a : Arg} (h : a.value.isString = false) (r : ArgsRead) :
    ArgsRead.consNumber a.scanned.fparm r = r.cons a.value := by
  have hreads := a.scanned_reads
  cases hv : a.value with
  | num v =>
    rw [hv] at hreads
    obtain ⟨_, hne, hnum⟩ := hreads
    rw [ArgsRead.consNumber, if_neg hne, hnum]
    rfl
  | text s =>
    rw [hv] at h
    exact Bool.noConfusion h

theorem Arg.value_scanned {a : Arg} (h : a.value.isString = true) :
    a.value = .text a.scanned.fparm := by
  have hreads := a.scanned_reads
  cases hv : a.value with
  | num v =>
    rw [hv] at h
    exact Bool.noConfusion h
  | text s =>
    rw [hv] at hreads
    rw [hreads.2]

/-- A written number is read up to its end. -/
theorem readArgs_writtenNumber {a : Arg} (h : a.value.isString = false) (rest : List UInt8) :
    readArgs (.number []) (a.written ++ rest) = readArgs (.number a.scanned.fparm) rest := by
  have hnums := readArgs_nums (a.isNumChar_written h) rest []
  cases a with
  | dec => exact hnums
  | hex => exact hnums
  | str => exact Bool.noConfusion h

/-- A written string is read up to its closing quote. -/
theorem readArgs_writtenString {a : Arg} (h : a.value.isString = true) (rest : List UInt8) :
    readArgs (.number []) (a.written ++ rest) = readArgs (.closed a.scanned.fparm) rest := by
  cases a with
  | dec => exact Bool.noConfusion h
  | hex => exact Bool.noConfusion h
  | str s =>
    rw [Arg.written, List.cons_append, List.append_assoc, readArgs_quote, readArgs_escaped,
      List.singleton_append, readArgs_endQuote]
    rfl

/-! ## The list of arguments -/

/-- The last argument. -/
theorem readArgs_last (a : Arg) :
    readArgs (.number []) (a.written ++ [ch ')']) = ⟨[a.value], .complete⟩ := by
  cases hv : a.value.isString with
  | false =>
    rw [readArgs_writtenNumber hv, readArgs_paren, Arg.consNumber_scanned hv]
    rfl
  | true => rw [readArgs_writtenString hv, readArgs_closed_paren, Arg.value_scanned hv]

/-- Behind a comma the next argument is read. -/
theorem readArgs_comma_next {next : List UInt8} (hnext : StartsArg next) (ds : List UInt8) :
    readArgs (.comma ds) next = .consNumber ds (readArgs (.number []) next) := by
  obtain ⟨c, rest, rfl, hc⟩ := hnext
  exact readArgs_next ds rest hc

/-- An argument with another one behind it. -/
theorem readArgs_more (a : Arg) {next : List UInt8} (hnext : StartsArg next) :
    readArgs (.number []) (a.written ++ ch ',' :: next)
      = (readArgs (.number []) next).cons a.value := by
  cases hv : a.value.isString with
  | false =>
    rw [readArgs_writtenNumber hv, readArgs_comma, readArgs_comma_next hnext,
      Arg.consNumber_scanned hv]
  | true =>
    -- nothing has been copied behind the comma
    rw [readArgs_writtenString hv, readArgs_closed_comma, readArgs_comma_next hnext,
      Arg.value_scanned hv, ArgsRead.consNumber, if_pos rfl]

theorem startsArg_argList (a : Arg) (args : List Arg) : StartsArg (argList (a :: args)) := by
  obtain ⟨c, rest, h, hc⟩ := a.startsArg
  exact ⟨c, rest ++ moreArgs args, by rw [argList, h, List.cons_append], hc⟩

/-- All the arguments are read back. -/
theorem readArgs_argList (args : List Arg) :
    readArgs (.number []) (argList args) = ⟨args.map Arg.value, .complete⟩ := by
  cases args with
  | nil => exact readArgs_paren [] []
  | cons a args =>
    induction args generalizing a with
    | nil => exact readArgs_last a
    | cons b args ih =>
      have hwritten : argList (a :: b :: args) = a.written ++ ch ',' :: argList (b :: args) := rfl
      rw [hwritten, readArgs_more a (startsArg_argList b args), ih b]
      rfl

theorem length_le_escape (s : List UInt8) : s.length ≤ (escape s).length := by
  induction s with
  | nil => exact Nat.le_refl _
  | cons c s ih =>
    rw [escape, List.flatMap_cons, List.length_append, List.length_cons]
    have h : 1 ≤ (if c = ch '"' ∨ c = ch '\\' then [ch '\\', c] else [c]).length := by
      split <;> simp
    unfold escape at ih
    omega

end PlcFirmware.Usmart
