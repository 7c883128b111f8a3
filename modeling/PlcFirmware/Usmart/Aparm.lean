import PlcFirmware.Usmart.Cmd

/-!
# The steps of `usmart_get_aparm`

What the loop does with the next character, by the kind of the character and by where it stands.
-/

namespace PlcFirmware.Usmart

/-- None of the characters which separate names and arguments. -/
structure IsPlain (c : UInt8) : Prop where
  bracket : c ≠ ch '('
  paren : c ≠ ch ')'
  quote : c ≠ ch '"'
  blank : c ≠ ch ' '
  comma : c ≠ ch ','

/-- A kind of characters to which none of those which separate belongs. -/
theorem isPlain_of_kind {kind : UInt8 → Bool} {c : UInt8} (hc : kind c = true)
    (h : ([ch '(', ch ')', ch '"', ch ' ', ch ','].any kind) = false) : IsPlain c := by
  simp only [List.any_cons, List.any_nil, Bool.or_false, Bool.or_eq_false_iff] at h
  obtain ⟨h1, h2, h3, h4, h5⟩ := h
  exact ⟨ne_of_kind hc h1, ne_of_kind hc h2, ne_of_kind hc h3, ne_of_kind hc h4, ne_of_kind hc h5⟩

theorem isPlain_of_isNumChar {c : UInt8} (hc : isNumChar c = true) : IsPlain c :=
  isPlain_of_kind hc (by decide)

/-- The characters which are not told apart by what they mean outside of a string. -/
structure IsOther (c : UInt8) : Prop where
  paren : c ≠ ch ')'
  num : isNumChar c = false
  quote : c ≠ ch '"'
  blank : c ≠ ch ' '
  comma : c ≠ ch ','

theorem charCases (c : UInt8) : c = ch ')' ∨ isNumChar c = true ∨ c = ch '"' ∨ c = ch ' ' ∨
    c = ch ',' ∨ IsOther c := by
  by_cases h1 : c = ch ')'
  · exact .inl h1
  by_cases h2 : isNumChar c = true
  · exact .inr (.inl h2)
  by_cases h3 : c = ch '"'
  · exact .inr (.inr (.inl h3))
  by_cases h4 : c = ch ' '
  · exact .inr (.inr (.inr (.inl h4)))
  by_cases h5 : c = ch ','
  · exact .inr (.inr (.inr (.inr (.inl h5))))
  · exact .inr (.inr (.inr (.inr (.inr ⟨h1, by simpa using h2, h3, h4, h5⟩))))

theorem toUpper_ne_zero {c : UInt8} (hc : c ≠ 0) : toUpper c ≠ 0 := by
  rw [toUpper]
  split
  · next hle =>
    intro hzero
    have hblank : c = ch ' ' := by
      have hsum : c - 0x20 + 0x20 = 0 + 0x20 := congrArg (· + 0x20) hzero
      rwa [UInt8.sub_add_cancel] at hsum
    rw [hblank] at hle
    exact absurd hle (by decide)
  · exact hc

/-- A round of the loop. -/
theorem aparmLoop_cons (a : Aparm) (c : UInt8) (str : List UInt8) : aparmLoop a (c :: str) =
    let enout := a.enout || (c == ch ',' && !a.string)
    if (c = ch ')' ∨ c = 0) ∧ a.string = false then (a, true)
    else if a.ptype = .number then
      if isNumChar c then
        if enout then (a, true)
        else aparmLoop { a with i := a.i + 1, fparm := a.fparm ++ [toUpper c], enout := enout } str
      else if c = ch '"' then
        if enout then (a, true)
        else aparmLoop { a with i := a.i + 1, ptype := .string, string := true, enout := enout } str
      else if c ≠ ch ' ' ∧ c ≠ ch ',' then ({ a with ptype := .error }, true)
      else aparmLoop { a with i := a.i + 1, enout := enout } str
    else
      let string := a.string && c != ch '"'
      if enout then (a, true)
      else if string then
        if c = ch '\\' then
          match str with
          | [] => (a, false)
          | c :: str => aparmLoop { a with i := a.i + 2, fparm := a.fparm ++ [c], string := string } str
        else aparmLoop { a with i := a.i + 1, fparm := a.fparm ++ [c], string := string } str
      else aparmLoop { a with i := a.i + 1, string := string } str := by
  cases str <;> rfl

/-- The loop stops at a bracket and at the `NUL`, unless a string is open. -/
theorem aparmLoop_end {a : Aparm} (hs : a.string = false) {c : UInt8} (hc : c = ch ')' ∨ c = 0)
    (str : List UInt8) : aparmLoop a (c :: str) = (a, true) := by
  rw [aparmLoop_cons]
  exact if_pos ⟨hc, hs⟩

/-! ## Numbers -/

section Number

variable {a : Aparm} (hp : a.ptype = .number) (hs : a.string = false)

include hp hs

theorem aparmLoop_num {c : UInt8} (he : a.enout = false) (hc : isNumChar c = true)
    (str : List UInt8) : aparmLoop a (c :: str)
      = aparmLoop { a with i := a.i + 1, fparm := a.fparm ++ [toUpper c] } str := by
  have hplain := isPlain_of_isNumChar hc
  have h0 : c ≠ 0 := ne_of_kind hc (by decide)
  simp [aparmLoop_cons, hp, hs, he, hc, h0, hplain.paren, beq_eq_false_iff_ne.mpr hplain.comma]

theorem aparmLoop_quote (he : a.enout = false) (str : List UInt8) :
    aparmLoop a (ch '"' :: str)
      = aparmLoop { a with i := a.i + 1, ptype := .string, string := true } str := by
  have h : (ch '"' == ch ',') = false := by decide
  simp +decide [aparmLoop_cons, hp, hs, he, h]

/-- Behind a comma the next argument is left where it begins. -/
theorem aparmLoop_next {c : UInt8} (he : a.enout = true) (hc : isNumChar c = true ∨ c = ch '"')
    (str : List UInt8) : aparmLoop a (c :: str) = (a, true) := by
  have hkind : c ≠ ch ')' ∧ c ≠ 0 := by
    obtain hc | rfl := hc
    · exact ⟨(isPlain_of_isNumChar hc).paren, ne_of_kind hc (by decide)⟩
    · decide
  obtain hc | rfl := hc
  · simp [aparmLoop_cons, hp, hs, he, hc, hkind]
  · simp +decide [aparmLoop_cons, hp, hs, he]

theorem aparmLoop_blank (str : List UInt8) :
    aparmLoop a (ch ' ' :: str) = aparmLoop { a with i := a.i + 1 } str := by
  have h : (ch ' ' == ch ',') = false := by decide
  simp +decide [aparmLoop_cons, hp, hs, h]

theorem aparmLoop_comma (str : List UInt8) :
    aparmLoop a (ch ',' :: str) = aparmLoop { a with i := a.i + 1, enout := true } str := by
  simp +decide [aparmLoop_cons, hp, hs]

theorem aparmLoop_other {c : UInt8} (h0 : c ≠ 0) (hc : IsOther c) (str : List UInt8) :
    aparmLoop a (c :: str) = ({ a with ptype := .error }, true) := by
  simp [aparmLoop_cons, hp, hs, h0, hc.paren, hc.num, hc.quote, hc.blank, hc.comma]

end Number

/-! ## Strings -/

section String

variable {a : Aparm} (hp : a.ptype = .string) (he : a.enout = false)

include hp he

theorem aparmLoop_endQuote (str : List UInt8) :
    aparmLoop a (ch '"' :: str) = aparmLoop { a with i := a.i + 1, string := false } str := by
  simp +decide [aparmLoop_cons, hp, he]

/-- Inside a string everything is copied, the `NUL` as well. -/
theorem aparmLoop_copy {c : UInt8} (hs : a.string = true) (hq : c ≠ ch '"') (hb : c ≠ ch '\\')
    (str : List UInt8) : aparmLoop a (c :: str)
      = aparmLoop { a with i := a.i + 1, fparm := a.fparm ++ [c] } str := by
  have h : (c != ch '"') = true := bne_iff_ne.mpr hq
  simp [aparmLoop_cons, hp, hs, he, h, hb]

theorem aparmLoop_escape (hs : a.string = true) (c : UInt8) (str : List UInt8) :
    aparmLoop a (ch '\\' :: c :: str)
      = aparmLoop { a with i := a.i + 2, fparm := a.fparm ++ [c] } str := by
  have h : (ch '\\' != ch '"') = true := by decide
  simp +decide [aparmLoop_cons, hp, hs, he, h]

theorem aparmLoop_escape_end (hs : a.string = true) : aparmLoop a [ch '\\'] = (a, false) := by
  simp +decide [aparmLoop_cons, hp, hs, he]

theorem aparmLoop_behind {c : UInt8} (hs : a.string = false) (h0 : c ≠ 0) (h1 : c ≠ ch ')')
    (h2 : c ≠ ch ',') (str : List UInt8) :
    aparmLoop a (c :: str) = aparmLoop { a with i := a.i + 1 } str := by
  simp [aparmLoop_cons, hp, hs, he, h0, h1, h2]

omit he in
theorem aparmLoop_closed_comma (hs : a.string = false) (str : List UInt8) :
    aparmLoop a (ch ',' :: str) = (a, true) := by
  simp +decide [aparmLoop_cons, hp, hs]

end String

end PlcFirmware.Usmart
