import PlcFirmware.Usmart.Accepted
import PlcFirmware.Usmart.NameBuffers

/-!
# Two counts of the arguments

`usmart_cmd_rec` compares the parameters of a prototype with what `usmart_get_fname` counts in the
line, and stores what `usmart_get_fparam` finds there. The two do not read a line in the same way: a
comma in a string lets `usmart_get_fname` count one more. And where a string is open at the end of the line
for `usmart_get_aparm`, the arguments go on in the memory behind it.

* `storedEnough_iff` — the lines which are not accepted with too few arguments
-/

namespace PlcFirmware.Usmart

/-! ## What the main loop of `usmart_get_fname` keeps -/

/-- The loop adds to the name, and to what is recorded of the first parameter, up to its comma. -/
structure FnameScan.Grows (s t : FnameScan) : Prop where
  fname : s.fname <+: t.fname
  fpname : s.fpname <+: t.fpname
  behindFirst : s.pcnt ≠ 0 → t.fpname = s.fpname ∧ t.pcnt ≠ 0

theorem FnameScan.Grows.refl (s : FnameScan) : s.Grows s :=
  ⟨List.prefix_refl _, List.prefix_refl _, fun h => ⟨rfl, h⟩⟩

theorem FnameScan.Grows.trans {s t u : FnameScan} (h1 : s.Grows t) (h2 : t.Grows u) : s.Grows u where
  fname := h1.fname.trans h2.fname
  fpname := h1.fpname.trans h2.fpname
  behindFirst := by
    intro h
    obtain ⟨heq1, hne⟩ := h1.behindFirst h
    obtain ⟨heq2, hne⟩ := h2.behindFirst hne
    exact ⟨heq2.trans heq1, hne⟩

theorem take_grows (s : FnameScan) (c : UInt8) : s.Grows (s.take c) := by
  obtain ⟨fover, nchar, fname, temp, pcnt, fpname, parmnum⟩ := s
  unfold FnameScan.take
  dsimp only
  split_ifs
  all_goals
    refine ⟨?_, ?_, fun h => ?_⟩
    · first
        | exact List.prefix_refl _
        | exact List.prefix_append _ _
    · first
        | exact List.prefix_refl _
        | exact List.prefix_append _ _
    · simp_all

theorem fnameLoop_grows (text : List UInt8) : ∀ s : FnameScan, s.Grows (fnameLoop s text).2 := by
  induction text with
  | nil => exact FnameScan.Grows.refl
  | cons c text ih =>
    intro s
    -- the body of the loop changes only `fover` and `nchar` in front of `take`
    have hnext : ∀ t : FnameScan, t.fname = s.fname → t.fpname = s.fpname → t.pcnt = s.pcnt →
        s.Grows (fnameLoop (t.take c) text).2 := by
      intro t h1 h2 h3
      have ht := (take_grows t c).trans (ih _)
      exact ⟨h1 ▸ ht.fname, h2 ▸ ht.fpname, h2 ▸ h3 ▸ ht.behindFirst⟩
    rw [fnameLoop]
    split_ifs
    · exact hnext _ rfl rfl rfl
    · exact .refl s
    · exact ⟨List.prefix_refl _, List.prefix_refl _, fun h => ⟨rfl, h⟩⟩
    · exact hnext _ rfl rfl rfl
    · exact hnext _ rfl rfl rfl
    · exact hnext _ rfl rfl rfl

/-! ## The name of a line -/

/-- The name, as far as there are only letters, digits and blanks in front of the bracket. -/
def lineName (str : List UInt8) : List UInt8 :=
  ((nameText str).takeWhile (· != ch '(')).filter (· != ch ' ')

/-- The parameters counted behind the first bracket, if that is closed. -/
def lineCount (str : List UInt8) : Option Nat := (behindParen str).bind (closes 1 false true 0)

theorem behindParen_cons {c : UInt8} (hc : c ≠ ch '(') (text : List UInt8) :
    behindParen (c :: text) = behindParen text := by
  rw [behindParen, if_neg hc]

theorem behindParen_behindMark (text : List UInt8) : ∀ {name : List UInt8},
    behindMark text = some name → behindParen name = behindParen text := by
  induction text with
  | nil => intro name h; cases h
  | cons c text ih =>
    intro name h
    rw [behindMark] at h
    by_cases hc : c = ch '('
    · rw [if_pos hc] at h; cases h
    rw [if_neg hc] at h
    rw [behindParen_cons hc]
    cases hb : behindMark text with
    | some later =>
      rw [hb] at h
      cases h
      exact ih hb
    | none =>
      rw [hb] at h
      simp only at h
      split at h
      · cases h; rfl
      · cases h

/-- What is skipped in front of the name contains no bracket. -/
theorem behindParen_nameText (str : List UInt8) : behindParen (nameText str) = behindParen str := by
  cases str with
  | nil => rfl
  | cons c text =>
    rw [nameText]
    split
    · rfl
    · next hc =>
      cases hb : behindMark text with
      | none => rfl
      | some name => rw [Option.getD_some, behindParen_behindMark _ hb, behindParen_cons hc]

theorem takeWhile_front {c : UInt8} (hc : c ≠ ch '(') (text : List UInt8) :
    (c :: text).takeWhile (· != ch '(') = c :: text.takeWhile (· != ch '(') :=
  List.takeWhile_cons_of_pos (bne_iff_ne.mpr hc)

theorem eq_of_behindParen {text : List UInt8} : ∀ {rest : List UInt8},
    behindParen text = some rest → text = text.takeWhile (· != ch '(') ++ ch '(' :: rest := by
  induction text with
  | nil => intro rest h; cases h
  | cons c text ih =>
    intro rest h
    by_cases hc : c = ch '('
    · rw [behindParen, if_pos hc] at h
      cases h
      rw [List.takeWhile_cons_of_neg (by simp [hc]), hc]
      rfl
    · rw [behindParen_cons hc] at h
      rw [takeWhile_front hc, List.cons_append, ← ih h]

theorem front_of_lineName {str : List UInt8} (hident : ∀ c ∈ lineName str, isIdentChar c = true) :
    ∀ c ∈ (nameText str).takeWhile (· != ch '('), isIdentChar c = true ∨ c = ch ' ' := by
  intro c hc
  by_cases hb : c = ch ' '
  · exact .inr hb
  · exact .inl (hident c (List.mem_filter.mpr ⟨hc, bne_iff_ne.mpr hb⟩))

/-- An accepted text with nothing but letters and digits in its name has its bracket behind them. -/
theorem front_of_ok (text : List UInt8) : ∀ s : FnameScan, s.fover = 0 → s.nchar = false →
    (fnameLoop s text).1 = .ok → (∀ c ∈ (fnameLoop s text).2.fname, isIdentChar c = true) →
    (behindParen text).isSome ∧
      ∀ c ∈ text.takeWhile (· != ch '('), isIdentChar c = true ∨ c = ch ' ' := by
  induction text with
  | nil => intro s _ _ hok; cases hok
  | cons c text ih =>
    intro s h0 hn hok hident
    by_cases ho : c = ch '('
    · rw [behindParen, if_pos ho, List.takeWhile_cons_of_neg (by simp [ho])]
      exact ⟨rfl, fun _ h => absurd h List.not_mem_nil⟩
    by_cases hp : c = ch ')'
    · rw [fnameLoop, if_neg fun h => ho h.1, if_pos ⟨hp, hn⟩, if_pos h0] at hok
      cases hok
    -- a quote would be a character of the name
    have hcopied : ∀ t : FnameScan, t.fover = 0 → c ≠ ch ' ' →
        c ∈ (fnameLoop (t.take c) text).2.fname := by
      intro t ht hb
      have htake : (t.take c).fname = t.fname ++ [c] := by
        rw [FnameScan.take, if_pos ht, if_pos hb]
      exact (fnameLoop_grows text (t.take c)).fname.subset (by rw [htake]; simp)
    have hq : c ≠ ch '"' := by
      intro hq
      rw [fnameLoop, if_neg fun h => ho h.1, if_neg fun h => hp h.1, if_pos hq] at hident
      have hmem := hident c (hcopied _ h0 (by rw [hq]; decide))
      rw [hq] at hmem
      exact absurd hmem (by decide)
    rw [fnameLoop, if_neg fun h => ho h.1, if_neg fun h => hp h.1, if_neg hq] at hok hident
    obtain ⟨hf, hnc, _⟩ := take_name h0 c
    obtain ⟨hsome, hfront⟩ := ih _ hf (hnc.trans hn) hok hident
    rw [behindParen_cons ho, takeWhile_front ho]
    refine ⟨hsome, fun d hd => ?_⟩
    obtain rfl | hd := List.mem_cons.mp hd
    · by_cases hb : d = ch ' '
      · exact .inr hb
      · exact .inl (hident d (hcopied _ h0 hb))
    · exact hfront d hd

/-! ## The count of `usmart_get_fname` -/

/-- What is recorded of the first parameter: up to five characters, without blanks. -/
theorem take_record {s : FnameScan} (hs : s.fover = 1) (c : UInt8) :
    (s.take c).fover = 1 ∧ (s.take c).nchar = s.nchar ∧
      (s.take c).pcnt = (if c = ch ',' then s.pcnt + 1 else s.pcnt) ∧
      (s.take c).fpname = if c ≠ ch ',' ∧ c ≠ ch ' ' ∧ c ≠ ch '(' ∧ s.pcnt = 0 ∧ s.fpname.length < 5
        then s.fpname ++ [c] else s.fpname := by
  obtain ⟨fover, nchar, fname, temp, pcnt, fpname, parmnum⟩ := s
  obtain rfl : fover = 1 := hs
  by_cases hcomma : c = ch ','
  · subst hcomma
    simp [FnameScan.take]
  by_cases hc : c ≠ ch ' ' ∧ c ≠ ch '('
  · simp only [FnameScan.take, if_neg hcomma, if_pos hc, Nat.one_ne_zero, if_false]
    split_ifs <;> simp_all
  · simp only [FnameScan.take, if_neg hcomma, if_neg hc, Nat.one_ne_zero, if_false]
    split_ifs <;> simp_all

/-- A character in the outer bracket which is no bracket is taken. -/
theorem fnameLoop_outer {s : FnameScan} (h1 : s.fover = 1) (hn : s.nchar = false) {c : UInt8}
    (ho : c ≠ ch '(') (hc : c ≠ ch ')') (text : List UInt8) :
    fnameLoop s (c :: text) = fnameLoop ({ s with nchar := c == ch '"' }.take c) text := by
  have hdepth : depthAfter s.fover s.nchar c = 1 := by
    rw [depthAfter, hn, if_neg Bool.false_ne_true, if_neg ho, if_neg hc, h1]
  rw [fnameLoop_cons (Nat.le_of_eq h1.symm), hdepth, if_neg Nat.one_ne_zero, hn, Bool.false_xor,
    ← h1]

/-- The arguments of a line do not begin like `void`. -/
theorem fpname_of_read (text : List UInt8) : ∀ s : FnameScan, s.fover = 1 → s.nchar = false →
    s.pcnt = 0 → s.fpname = [] → (readArgs (.number []) text).ending ≠ .malformed →
    (fnameLoop s text).2.fpname ≠ bytes "void" := by
  have hempty : [] ≠ bytes "void" := by decide
  -- the first character of a number or of a string is recorded
  have hrecord : ∀ (c : UInt8) (text : List UInt8) (s : FnameScan), s.fover = 1 → s.nchar = false →
      s.pcnt = 0 → s.fpname = [] → isNumChar c = true ∨ c = ch '"' →
      (fnameLoop s (c :: text)).2.fpname ≠ bytes "void" := by
    intro c text s h1 hn h0 hfp hc heq
    obtain ⟨hbegin, hdepth, hv⟩ := first_char hc
    have hplain : c ≠ ch ',' ∧ c ≠ ch ' ' ∧ c ≠ ch '(' := by
      simpa [isBegin, and_assoc] using hbegin
    have hparen : c ≠ ch ')' := by
      rintro rfl
      exact absurd hdepth (by decide)
    rw [fnameLoop_outer h1 hn hplain.2.2 hparen] at heq
    obtain ⟨_, _, _, hfp'⟩ := take_record (s := { s with nchar := c == ch '"' }) h1 c
    have hgrow := (fnameLoop_grows text ({ s with nchar := c == ch '"' }.take c)).fpname
    rw [hfp', heq, if_pos ⟨hplain.1, hplain.2.1, hplain.2.2, h0, by rw [hfp]; decide⟩, hfp] at hgrow
    exact hv (List.cons_prefix_cons.mp hgrow).1
  induction text with
  | nil => intro s _ _ _ hfp _; rw [fnameLoop, hfp]; exact hempty
  | cons c text ih =>
    intro s h1 hn h0 hfp hread
    obtain rfl | hc | rfl | rfl | rfl | hc := charCases c
    · rw [fnameLoop, if_neg (by simp +decide), if_pos ⟨rfl, hn⟩, if_neg (by omega), if_pos h1, hfp]
      exact hempty
    · exact hrecord c text s h1 hn h0 hfp (.inl hc)
    · exact hrecord _ text s h1 hn h0 hfp (.inr rfl)
    · obtain ⟨h1', hn', h0', hfp'⟩ := take_record (s := { s with nchar := false }) h1 (ch ' ')
      rw [readArgs_blank] at hread
      rw [fnameLoop_outer h1 hn (by decide) (by decide)]
      exact ih _ h1' hn' (h0'.trans (if_neg (by decide) |>.trans h0))
        (hfp'.trans (if_neg (fun h => h.2.1 rfl) |>.trans hfp)) hread
    · -- nothing is recorded behind a comma
      obtain ⟨_, _, h0', hfp'⟩ := take_record (s := { s with nchar := false }) h1 (ch ',')
      rw [fnameLoop_outer h1 hn (by decide) (by decide)]
      have hgrow := (fnameLoop_grows text ({ s with nchar := false }.take (ch ','))).behindFirst
        (by rw [h0', if_pos rfl]; exact Nat.succ_ne_zero _)
      rw [if_neg fun h => h.1 rfl] at hfp'
      have hnil := hgrow.1.trans (hfp'.trans hfp)
      exact fun heq => hempty (hnil.symm.trans heq)
    · rw [readArgs_other _ _ hc] at hread
      exact absurd rfl hread

/-- What `usmart_get_fname` finds in a line whose name has only letters, digits and blanks. -/
theorem usmartGetFname_counts {str text : List UInt8} (htext : behindParen str = some text)
    (hident : ∀ c ∈ lineName str, isIdentChar c = true) :
    match lineCount str with
    | some n => (usmartGetFname str).res = .ok ∧ (usmartGetFname str).fname = lineName str ∧
        ((lineArgs str).ending ≠ .malformed → (usmartGetFname str).pnum = n)
    | none => (usmartGetFname str).res = .funcErr := by
  have hsplit := eq_of_behindParen ((behindParen_nameText str).trans htext)
  have hloop : fnameLoop {} (nameText str) = fnameLoop { fname := lineName str, fover := 1 } text := by
    have hfront := fnameLoop_front (front_of_lineName hident) text {} rfl rfl rfl
    rw [← hsplit] at hfront
    exact hfront
  have hcloses := fnameLoop_closes text { fname := lineName str, fover := 1 }
    ⟨Nat.le_refl _, Nat.le_refl _, fun h => absurd h (Nat.ne_of_beq_eq_false rfl)⟩
  have hvoid := fpname_of_read text { fname := lineName str, fover := 1 } rfl rfl rfl rfl
  rw [lineCount, htext, Option.bind_some, lineArgs, htext]
  simp only [usmartGetFname, drop_fnameOffset, hloop]
  simp only [beq_self_eq_true] at hcloses
  cases hcl : closes 1 false true 0 text with
  | none =>
    rw [hcl] at hcloses
    exact hcloses
  | some n =>
    rw [hcl] at hcloses
    obtain ⟨t, hret, hcount, hname, _⟩ := hcloses
    rw [hret] at hvoid ⊢
    exact ⟨rfl, hname, fun hread => by rw [if_neg fun h => hvoid hread h.2, hcount]⟩

/-- A line which has been accepted with such a name is described by `usmartGetFname_counts`. -/
theorem counts_of_ok {str : List UInt8} (hres : (usmartGetFname str).res = .ok)
    (hident : ∀ c ∈ (usmartGetFname str).fname, isIdentChar c = true) :
    ∃ text n, behindParen str = some text ∧ lineCount str = some n ∧
      (usmartGetFname str).fname = lineName str ∧
      ((lineArgs str).ending ≠ .malformed → (usmartGetFname str).pnum = n) := by
  have hfront := front_of_ok (nameText str) {} rfl rfl
  simp only [usmartGetFname, drop_fnameOffset] at hres hident
  obtain ⟨hsome, hfront⟩ := hfront hres hident
  rw [behindParen_nameText] at hsome
  obtain ⟨text, htext⟩ := Option.isSome_iff_exists.mp hsome
  have hname : ∀ c ∈ lineName str, isIdentChar c = true := by
    intro c hc
    obtain ⟨hc, hb⟩ := List.mem_filter.mp hc
    exact (hfront c hc).resolve_right (bne_iff_ne.mp hb)
  have hcounts := usmartGetFname_counts htext hname
  cases hcount : lineCount str with
  | none =>
    rw [hcount] at hcounts
    simp only [usmartGetFname, drop_fnameOffset] at hcounts
    rw [hres] at hcounts
    cases hcounts
  | some n =>
    rw [hcount] at hcounts
    exact ⟨text, n, htext, rfl, hcounts.2⟩

/-! ## The two counts -/

/-- A table of prototypes. Their names have only letters, digits and underscores. -/
structure Nametab where
  funs : List (List UInt8)
  ident : ∀ f ∈ funs, ∀ c ∈ (usmartGetFname f).fname, isIdentChar c = true

/-- The function of the line has no more parameters than `usmart_get_fname` counts in it. -/
structure Called (t : Nametab) (line : Line) (f : List UInt8) (id count : Nat) : Prop where
  named : Matches t.funs (lineName line.text) id f
  counted : lineCount line.text = some count
  enough : (usmartGetFname f).pnum ≤ count

/-- The function is called, but with fewer arguments than it has parameters. -/
structure Miscounted (t : Nametab) (line : Line) (behind f : List UInt8) (id count : Nat) : Prop where
  called : Called t line f id count
  complete : (memArgs line.text behind).ending = .complete
  few : (memArgs line.text behind).values.length ≤ maxParm
  short : (memArgs line.text behind).values.length < (usmartGetFname f).pnum

/-- An argument is too long for `tstr`. -/
structure Overruns (t : Nametab) (line : Line) (behind f : List UInt8) (id count : Nat) : Prop where
  called : Called t line f id count
  few : (memArgs line.text behind).values.length ≤ maxParm
  long : (memArgs line.text behind).ending = .overwrite

theorem Matches.mem {funs : List (List UInt8)} {name f : List UInt8} {id : Nat}
    (h : Matches funs name id f) : f ∈ funs := List.mem_of_getElem? h.entry

/-- What stops the reading of the text stops the calls. -/
theorem lineArgs_ne_malformed {line : Line} {behind : List UInt8}
    (h : (memArgs line.text behind).ending ≠ .malformed) :
    (lineArgs line.text).ending ≠ .malformed := by
  have hfits := line.fits
  unfold usartRecLen at hfits
  intro hend
  rw [memArgs_line (by omega) line.nul (.inr (by rw [hend]; exact ArgsEnd.noConfusion))] at h
  exact h hend

/-- `usmart_get_fparam` is called for exactly these lines, as far as their arguments can be read. -/
theorem selected_iff_called {t : Nametab} {line : Line} {behind : List UInt8}
    (h : (memArgs line.text behind).ending ≠ .malformed) {id : Nat} :
    Selected t.funs line id ↔ ∃ f count, Called t line f id count := by
  have hread := lineArgs_ne_malformed h
  constructor
  · intro hsel
    obtain ⟨f, hmatch, hle⟩ := findFunction_ok_iff.mp hsel.found
    have hident := t.ident f hmatch.mem
    rw [hmatch.fname] at hident
    obtain ⟨text, n, _, hcount, hname, hpnum⟩ := counts_of_ok hsel.scanned hident
    rw [hpnum hread] at hle
    rw [hname] at hmatch
    exact ⟨f, n, hmatch, hcount, hle⟩
  · rintro ⟨f, count, hcalled⟩
    have hident := t.ident f hcalled.named.mem
    rw [hcalled.named.fname] at hident
    have hcounted := hcalled.counted
    rw [lineCount] at hcounted
    obtain ⟨text, htext, _⟩ := Option.bind_eq_some_iff.mp hcounted
    have hcounts := usmartGetFname_counts htext hident
    rw [hcalled.counted] at hcounts
    obtain ⟨hres, hname, hpnum⟩ := hcounts
    exact ⟨hres, findFunction_ok_iff.mpr
      ⟨f, hname ▸ hcalled.named, (hpnum hread).symm ▸ hcalled.enough⟩⟩

/-- A line which is miscounted is accepted. -/
theorem Miscounted.accepted {t : Nametab} {line : Line} {behind f : List UInt8} {id count : Nat}
    (h : Miscounted t line behind f id count) (d : UsmartDev) :
    ∃ d', usmartCmdRec t.funs line.text behind d
        = .ret .ok (memArgs line.text behind).values.length d' ∧ d'.id = id := by
  have hread : (memArgs line.text behind).ending ≠ .malformed := by
    rw [h.complete]
    exact ArgsEnd.noConfusion
  exact ((selected_iff_called hread).mpr ⟨f, count, h.called⟩).cmdRec_ok h.complete h.few d

/-- The line is not accepted with fewer arguments than the prototype has parameters, and `tstr` is not
left. -/
structure StoredEnough (t : Nametab) (line : Line) (behind : List UInt8) (d : UsmartDev) : Prop where
  tstr : usmartCmdRec t.funs line.text behind d ≠ .overwrite
  enough : ∀ parn d', usmartCmdRec t.funs line.text behind d = .ret .ok parn d' →
    ∃ f, t.funs[d'.id]? = some f ∧ (usmartGetFname f).pnum ≤ parn

/-- **An accepted line has as many arguments as the prototype has parameters, if and only if it is not
miscounted.** -/
theorem storedEnough_iff (t : Nametab) (line : Line) (behind : List UInt8) (d : UsmartDev) :
    StoredEnough t line behind d ↔ ∀ f id count,
      ¬Miscounted t line behind f id count ∧ ¬Overruns t line behind f id count := by
  constructor
  · refine fun h f id count => ⟨fun hmis => ?_, fun hover => ?_⟩
    · obtain ⟨d', hret, hid⟩ := hmis.accepted d
      obtain ⟨g, hg, hle⟩ := h.enough _ _ hret
      rw [hid] at hg
      obtain rfl : f = g := Option.some.inj (hmis.called.named.entry.symm.trans hg)
      exact absurd hmis.short (Nat.not_lt_of_le hle)
    · have hread : (memArgs line.text behind).ending ≠ .malformed := by
        rw [hover.long]
        exact ArgsEnd.noConfusion
      have hsel := (selected_iff_called hread).mpr ⟨f, count, hover.called⟩
      exact h.tstr ((cmdRec_overwrite_iff d).mpr ⟨⟨id, hsel⟩, hover.few, hover.long⟩)
  · intro h
    refine ⟨fun hover => ?_, fun parn d' hret => ?_⟩
    · obtain ⟨⟨id, hsel⟩, hfew, hend⟩ := (cmdRec_overwrite_iff d).mp hover
      obtain ⟨f, count, hcalled⟩ :=
        (selected_iff_called (by rw [hend]; exact ArgsEnd.noConfusion)).mp hsel
      exact (h f id count).2 ⟨hcalled, hfew, hend⟩
    · obtain ⟨hacc, rfl⟩ := accepted_of_ok hret
      have hread : (memArgs line.text behind).ending ≠ .malformed := by
        rw [hacc.complete]
        exact ArgsEnd.noConfusion
      obtain ⟨f, count, hcalled⟩ := (selected_iff_called hread).mp hacc.selected
      refine ⟨f, hcalled.named.entry, Nat.le_of_not_lt fun hshort => ?_⟩
      exact (h f d'.id count).1 ⟨hcalled, hacc.complete, hacc.few, hshort⟩

/-- The registered functions. -/
def registered : Nametab where
  funs := usmartNametab
  ident := by
    intro f hf
    have hmem := List.mem_map_of_mem (f := fun f => ((usmartGetFname f).res, (usmartGetFname f).fname,
      (usmartGetFname f).pnum)) hf
    rw [usmartNametab_parsed] at hmem
    obtain ⟨decl, hdecl, heq⟩ := List.mem_map.mp hmem
    have hident : (usmartNametabDecls.all fun p => p.1.all isIdentChar) = true := by decide
    rw [← (Prod.mk.inj (Prod.mk.inj heq).2).1]
    exact List.all_eq_true.mp (List.all_eq_true.mp hident decl hdecl)

/-- One argument with a comma in it. -/
def commaString : Line := ⟨bytes "write_addr(\"a,b\")", by decide, by decide⟩

theorem commaString_accepted_short : ∃ d',
    usmartCmdRec registered.funs commaString.text [] .start = .ret .ok 1 d' ∧
      ∀ f, registered.funs[d'.id]? = some f → ¬(usmartGetFname f).pnum ≤ 1 := by
  obtain ⟨f, hnamed, hpnum⟩ := (usmartNametab_registered 1 (by decide)).matches
  have htwo : (usmartGetFname f).pnum = 2 := hpnum
  have hone : (memArgs commaString.text []).values.length = 1 := by decide +kernel
  have hmis : Miscounted registered commaString [] f 1 2 :=
    ⟨⟨hnamed, by decide, Nat.le_of_eq htwo⟩, by decide +kernel, by rw [hone]; decide,
      by rw [hone, htwo]; decide⟩
  obtain ⟨d', hret, hid⟩ := hmis.accepted .start
  rw [hone] at hret
  refine ⟨d', hret, fun f hf hle => ?_⟩
  rw [hid] at hf
  obtain rfl := Option.some.inj (hmis.called.named.entry.symm.trans hf)
  rw [htwo] at hle
  exact absurd hle (by decide)

end PlcFirmware.Usmart
