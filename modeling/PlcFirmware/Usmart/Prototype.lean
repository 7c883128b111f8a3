import PlcFirmware.Usmart.Counting

/-!
# Prototypes

A prototype as C has it: a type, a name and the parameters in brackets, with blanks as one likes.
`usmart_get_fname` finds the name and counts the parameters of each. For `void` it looks at the first
characters only, and blanks do not count among them: `void_t` is taken for `void`, and so is a single
parameter `vo id`.

* `prototype_read_iff` — the prototypes which are read as C has them
-/

namespace PlcFirmware.Usmart

/-! ## The text -/

/-- The text without its blanks. -/
def squeeze (text : List UInt8) : List UInt8 := text.filter (· != ch ' ')

/-- The text is the word `void`, with blanks around it. -/
def isVoid (text : List UInt8) : Bool :=
  let word := text.dropWhile (· == ch ' ')
  word.take 4 == bytes "void" && (word.drop 4).all (· == ch ' ')

/-- A character of a return type. -/
def isTypeChar (c : UInt8) : Bool := isIdentChar c || c == ch ' ' || c == ch '*'

/-- A character of a parameter. -/
def isParamChar (c : UInt8) : Bool :=
  c != 0 && c != ch '(' && c != ch ')' && c != ch '"' && c != ch ','

/-- The parameters with commas between them. -/
def paramList : List (List UInt8) → List UInt8
  | [] => []
  | q :: qs => q ++ qs.flatMap fun q => ch ',' :: q

/-- A prototype. There are blanks behind the name, in front of the parameters and behind the
brackets; all others are in the type and in the parameters. -/
structure Prototype where
  type : List UInt8
  name : List UInt8
  params : List (List UInt8)
  gap : Nat
  inner : Nat
  trailing : Nat
  type_chars : ∀ c ∈ type, isTypeChar c = true
  type_begins : ∃ c rest, squeeze type = c :: rest ∧ isIdentChar c = true
  type_ends : ∃ init c, type = init ++ [c] ∧ (c = ch ' ' ∨ c = ch '*')
  name_ident : name ≠ [] ∧ name.length ≤ 29 ∧ ∀ c ∈ name, isIdentChar c = true
  params_chars : ∀ q ∈ params, ∀ c ∈ q, isParamChar c = true
  params_nonempty : ∀ q ∈ params, squeeze q ≠ []
  fits : (type ++ name ++ List.replicate gap (ch ' ') ++ ch '(' ::
    (List.replicate inner (ch ' ') ++ paramList params ++ ch ')' ::
      List.replicate trailing (ch ' '))).length ≤ 199

namespace Prototype

/-- What is between the brackets and behind them. -/
def tail (p : Prototype) : List UInt8 :=
  List.replicate p.inner (ch ' ') ++ paramList p.params ++ ch ')' ::
    List.replicate p.trailing (ch ' ')

/-- The name, the blanks behind it and the brackets. -/
def declarator (p : Prototype) : List UInt8 :=
  p.name ++ List.replicate p.gap (ch ' ') ++ ch '(' :: p.tail

/-- The string in the table. -/
def text (p : Prototype) : List UInt8 := p.type ++ p.declarator

/-- The number of parameters: none for a single `void`. -/
def paramCount (p : Prototype) : Nat :=
  match p.params with
  | [q] => if isVoid q then 0 else 1
  | params => params.length

/-- `usmart_get_fname` reads the prototype as it is meant. -/
structure Read (p : Prototype) : Prop where
  res : (usmartGetFname p.text).res = .ok
  fname : (usmartGetFname p.text).fname = p.name
  pnum : (usmartGetFname p.text).pnum = p.paramCount
  rval : (usmartGetFname p.text).rval = some (if isVoid p.type then 0 else 1)

end Prototype

/-! ## The return type -/

/-- The first four characters other than blanks are `void`, and the next is no star. -/
def startsVoid (text : List UInt8) : Bool :=
  (squeeze text).take 4 == bytes "void" && (squeeze text)[4]? != some (ch '*')

/-- What the first loop of `usmart_get_fname` records: four characters, and a star behind them. -/
theorem fnameReturnType_eq (str : List UInt8) : ∀ fpname : List UInt8, fpname.length ≤ 4 →
    fnameReturnType fpname str = (fpname ++ squeeze str).take 4 ++
      if (fpname ++ squeeze str)[4]? = some (ch '*') then [ch '*'] else [] := by
  have hfull : ∀ (str fpname : List UInt8), fpname.length = 5 →
      fnameReturnType fpname str = fpname := by
    intro str fpname h
    cases str with
    | nil => rfl
    | cons c str => rw [fnameReturnType, if_neg (by omega), if_pos h]
  induction str with
  | nil =>
    intro fpname h
    have hnone : (fpname ++ squeeze [])[4]? = none := by
      rw [squeeze, List.filter_nil, List.append_nil]
      exact List.getElem?_eq_none h
    rw [fnameReturnType, hnone, if_neg (by simp), squeeze, List.filter_nil,
      List.append_nil, List.append_nil, List.take_of_length_le h]
  | cons c str ih =>
    intro fpname h
    by_cases hb : c = ch ' '
    · have hskip : squeeze (c :: str) = squeeze str := List.filter_cons_of_neg (by simp [hb])
      rw [fnameReturnType, if_neg fun hc => hc.1 hb, if_neg (by omega), ih fpname h, hskip]
    have hkeep : squeeze (c :: str) = c :: squeeze str :=
      List.filter_cons_of_pos (bne_iff_ne.mpr hb)
    rw [fnameReturnType, if_pos ⟨hb, by omega⟩, hkeep]
    by_cases h4 : fpname.length = 4
    · have hat : (fpname ++ c :: squeeze str)[4]? = some c := by
        rw [List.getElem?_append_right (by omega), h4]
        rfl
      have htake : (fpname ++ c :: squeeze str).take 4 = fpname := by
        rw [← h4, List.take_left]
      rw [hat, htake]
      by_cases hstar : c = ch '*'
      · rw [if_neg fun hc => hc.2 hstar, hfull _ _ (by simp [h4]), hstar, if_pos rfl]
      · rw [if_pos ⟨h4, hstar⟩, if_neg fun hc => hstar (Option.some.inj hc), List.append_nil]
    · rw [if_neg fun hc => h4 hc.1, ih _ (by rw [List.length_append, List.length_singleton]; omega),
        List.append_assoc, List.singleton_append]

theorem fnameReturnType_void_iff (str : List UInt8) :
    fnameReturnType [] str = bytes "void" ↔ startsVoid str = true := by
  have heq := fnameReturnType_eq str [] (Nat.zero_le _)
  rw [List.nil_append] at heq
  rw [heq, startsVoid, Bool.and_eq_true, beq_iff_eq, bne_iff_ne]
  by_cases hstar : (squeeze str)[4]? = some (ch '*')
  · -- five characters are recorded
    rw [if_pos hstar]
    refine iff_of_false (fun h => ?_) fun h => h.2 hstar
    have hlen : 4 < (squeeze str).length := List.getElem?_eq_some_iff.mp hstar |>.1
    have h5 := congrArg List.length h
    rw [List.length_append, List.length_take, Nat.min_eq_left (Nat.le_of_lt hlen)] at h5
    exact absurd h5 (by decide)
  · rw [if_neg hstar, List.append_nil]
    exact ⟨fun h => ⟨h, hstar⟩, fun h => h.1⟩

theorem skip_blank (text : List UInt8) :
    (ch ' ' :: text).dropWhile (· == ch ' ') = text.dropWhile (· == ch ' ') :=
  List.dropWhile_cons_of_pos (beq_self_eq_true _)

theorem skip_other {c : UInt8} (hc : c ≠ ch ' ') (text : List UInt8) :
    (c :: text).dropWhile (· == ch ' ') = c :: text :=
  List.dropWhile_cons_of_neg (by simpa using hc)

theorem squeeze_of_isVoid {text : List UInt8} (h : isVoid text = true) :
    squeeze text = bytes "void" := by
  have hdrop : ∀ text : List UInt8, squeeze (text.dropWhile (· == ch ' ')) = squeeze text := by
    intro text
    induction text with
    | nil => rfl
    | cons c text ih =>
      by_cases hc : c = ch ' '
      · rw [hc, skip_blank, ih]
        exact (List.filter_cons_of_neg (by simp)).symm
      · rw [skip_other hc]
  simp only [isVoid, Bool.and_eq_true, beq_iff_eq] at h
  obtain ⟨htake, hrest⟩ := h
  have hblank : squeeze ((text.dropWhile (· == ch ' ')).drop 4) = [] :=
    List.filter_eq_nil_iff.mpr fun c hc => by
      simpa using beq_iff_eq.mp (List.all_eq_true.mp hrest c hc)
  rw [← hdrop, ← List.take_append_drop 4 (text.dropWhile _), htake, squeeze, List.filter_append]
  rw [squeeze] at hblank
  rw [hblank]
  decide

theorem squeeze_append (a b : List UInt8) : squeeze (a ++ b) = squeeze a ++ squeeze b :=
  List.filter_append a b

theorem squeeze_blanks (n : Nat) : squeeze (List.replicate n (ch ' ')) = [] :=
  List.filter_eq_nil_iff.mpr fun c hc => by simp [List.eq_of_mem_replicate hc]

theorem squeeze_name {name : List UInt8} (h : ∀ c ∈ name, isIdentChar c = true) :
    squeeze name = name :=
  List.filter_eq_self.mpr fun c hc => bne_iff_ne.mpr (isPlain_of_isIdentChar (h c hc)).blank

namespace Prototype

variable (p : Prototype)

theorem startsVoid_of_isVoid (h : isVoid p.type = true) : startsVoid p.text = true := by
  obtain ⟨hne, _, hident⟩ := p.name_ident
  obtain ⟨c, name, hname⟩ := List.exists_cons_of_ne_nil hne
  have hc := hident c (by rw [hname]; exact List.mem_cons_self)
  have hsq : squeeze p.text = bytes "void" ++ c :: (name ++ squeeze (List.replicate p.gap (ch ' ') ++
      ch '(' :: p.tail)) := by
    rw [text, declarator, List.append_assoc, squeeze_append, squeeze_append, squeeze_of_isVoid h,
      squeeze_name hident, hname, List.cons_append]
  rw [startsVoid, hsq, Bool.and_eq_true, beq_iff_eq, bne_iff_ne]
  refine ⟨rfl, fun hstar => ?_⟩
  have hat : (bytes "void" ++ c :: (name ++ squeeze (List.replicate p.gap (ch ' ') ++
      ch '(' :: p.tail)))[4]? = some c := rfl
  rw [hat] at hstar
  exact absurd (Option.some.inj hstar) (ne_of_kind hc (by decide))

/-- The type is not empty, so the first loop records something. -/
theorem rval_eq : (usmartGetFname p.text).rval = some (if startsVoid p.text then 0 else 1) := by
  obtain ⟨c, rest, hsq, _⟩ := p.type_begins
  have hne : fnameReturnType [] p.text ≠ [] := by
    rw [fnameReturnType_eq _ _ (Nat.zero_le _), List.nil_append, text, squeeze_append, hsq]
    exact List.cons_ne_nil _ _
  rw [usmartGetFname]
  simp only [if_neg hne, fnameReturnType_void_iff]

/-! ## The name -/

theorem isMark_of_space {c : UInt8} (hc : c = ch ' ' ∨ c = ch '*') {text : List UInt8}
    (hnext : (text.dropWhile (· == ch ' ')).headD 0 ≠ ch '(' ∧
      (text.dropWhile (· == ch ' ')).headD 0 ≠ ch '*') : isMark c text = true := by
  simp only [isMark, Bool.and_eq_true, Bool.or_eq_true, beq_iff_eq, bne_iff_ne]
  exact ⟨⟨hc, hnext.1⟩, hnext.2⟩

/-- Between the name and its bracket there is no mark. -/
theorem behindMark_gap (n : Nat) (rest : List UInt8) :
    behindMark (List.replicate n (ch ' ') ++ ch '(' :: rest) = none := by
  induction n with
  | zero => rw [List.replicate_zero, List.nil_append, behindMark, if_pos rfl]
  | succ n ih =>
    have hskip : ∀ m : Nat, ((List.replicate m (ch ' ') ++ ch '(' :: rest).dropWhile
        (· == ch ' ')).headD 0 = ch '(' := by
      intro m
      induction m with
      | zero => rfl
      | succ m ihm => rw [List.replicate_succ, List.cons_append, skip_blank, ihm]
    have hno : isMark (ch ' ') (List.replicate n (ch ' ') ++ ch '(' :: rest) = false := by
      simp only [isMark, hskip, bne_self_eq_false, Bool.and_false, Bool.false_and]
    rw [List.replicate_succ, List.cons_append, behindMark, if_neg (by decide), ih, hno]
    rfl

/-- There is none in a name either. -/
theorem behindMark_name {name : List UInt8} (hident : ∀ c ∈ name, isIdentChar c = true)
    {text : List UInt8} (h : behindMark text = none) : behindMark (name ++ text) = none := by
  induction name with
  | nil => exact h
  | cons c name ih =>
    have hc := hident c List.mem_cons_self
    have hno : isMark c (name ++ text) = false := by
      have hblank := beq_eq_false_iff_ne.mpr (isPlain_of_isIdentChar hc).blank
      have hstar := beq_eq_false_iff_ne.mpr (ne_of_kind hc (d := ch '*') (by decide))
      simp only [isMark, hblank, hstar, Bool.false_or, Bool.false_and]
    rw [List.cons_append, behindMark, if_neg (isPlain_of_isIdentChar hc).bracket,
      ih fun d hd => hident d (List.mem_cons_of_mem _ hd), hno]
    rfl

/-- The last mark is found behind whatever is in front of it. -/
theorem behindMark_append {text name : List UInt8} (h : behindMark text = some name)
    {front : List UInt8} (hfront : ∀ c ∈ front, c ≠ ch '(') :
    behindMark (front ++ text) = some name := by
  induction front with
  | nil => exact h
  | cons c front ih =>
    rw [List.cons_append, behindMark, if_neg (hfront c List.mem_cons_self),
      ih fun d hd => hfront d (List.mem_cons_of_mem _ hd)]

theorem type_ne_bracket {c : UInt8} (hc : c ∈ p.type) : c ≠ ch '(' :=
  ne_of_kind (p.type_chars c hc) (by decide)

/-- `usmart_get_fname` looks for the brackets from the name on. -/
theorem nameText_text : nameText p.text = p.declarator := by
  obtain ⟨init, m, htype, hm⟩ := p.type_ends
  obtain ⟨hne, _, hident⟩ := p.name_ident
  obtain ⟨d, name, hname⟩ := List.exists_cons_of_ne_nil hne
  have hd := hident d (by rw [hname]; exact List.mem_cons_self)
  -- the last character of the type is the last mark
  have hmark : behindMark (m :: p.declarator) = some p.declarator := by
    have hhead : (p.declarator.dropWhile (· == ch ' ')).headD 0 = d := by
      rw [declarator, hname, List.cons_append, List.cons_append,
        skip_other (isPlain_of_isIdentChar hd).blank]
      rfl
    have hno : behindMark p.declarator = none := by
      rw [declarator, List.append_assoc]
      exact behindMark_name hident (behindMark_gap _ _)
    have hbracket : m ≠ ch '(' := p.type_ne_bracket (by rw [htype]; simp)
    rw [behindMark, if_neg hbracket, hno]
    simp only
    rw [if_pos (isMark_of_space hm (by
      rw [hhead]
      exact ⟨(isPlain_of_isIdentChar hd).bracket, ne_of_kind hd (by decide)⟩))]
  -- it is not the first character of the text
  cases init with
  | nil =>
    obtain ⟨c, rest, hsq, hc⟩ := p.type_begins
    rw [htype, List.nil_append] at hsq
    have hmem : c ∈ squeeze [m] := by rw [hsq]; exact List.mem_cons_self
    obtain rfl : c = m := List.mem_singleton.mp (List.mem_filter.mp hmem).1
    obtain rfl | rfl := hm
    · exact absurd hc (by decide)
    · exact absurd hc (by decide)
  | cons c init =>
    have hfirst : c ≠ ch '(' := p.type_ne_bracket (by rw [htype]; simp)
    have hfront : ∀ x ∈ init, x ≠ ch '(' := fun x hx =>
      p.type_ne_bracket (by rw [htype]; simp [hx])
    have htext : p.text = c :: (init ++ m :: p.declarator) := by
      rw [text, htype]
      simp
    rw [htext, nameText, if_neg hfirst, behindMark_append hmark hfront, Option.getD_some]

end Prototype

/-! ## The parameters -/

/-- The characters of a parameter are none of those which separate. -/
theorem paramChar_ne {c : UInt8} (h : isParamChar c = true) :
    c ≠ ch '(' ∧ c ≠ ch ')' ∧ c ≠ ch '"' ∧ c ≠ ch ',' := by
  simp only [isParamChar, Bool.and_eq_true, bne_iff_ne] at h
  exact ⟨h.1.1.1.2, h.1.1.2, h.1.2, h.2⟩

theorem isParamChar_blanks (n : Nat) : ∀ c ∈ List.replicate n (ch ' '), isParamChar c = true := by
  intro c hc
  rw [List.eq_of_mem_replicate hc]
  decide

theorem squeeze_blank (q : List UInt8) : squeeze (ch ' ' :: q) = squeeze q :=
  List.filter_cons_of_neg (by simp)

theorem squeeze_cons {c : UInt8} (hc : c ≠ ch ' ') (q : List UInt8) :
    squeeze (c :: q) = c :: squeeze q :=
  List.filter_cons_of_pos (bne_iff_ne.mpr hc)

/-- A parameter begins with its first character other than a blank. -/
theorem closes_param {q : List UInt8} (hq : ∀ c ∈ q, isParamChar c = true) (tail : List UInt8) :
    ∀ (fresh : Bool) (count : Nat), closes 1 false fresh count (q ++ tail)
      = closes 1 false (fresh && (squeeze q).isEmpty)
          (if fresh && !(squeeze q).isEmpty then count + 1 else count) tail := by
  induction q with
  | nil => intro fresh count; simp [squeeze]
  | cons c q ih =>
    intro fresh count
    obtain ⟨ho, hp, hquote, hcomma⟩ := paramChar_ne (hq c List.mem_cons_self)
    have hdepth : depthAfter 1 false c = 1 := by
      rw [depthAfter, if_neg Bool.false_ne_true, if_neg ho, if_neg hp]
    rw [List.cons_append, closes, hdepth]
    simp only [Nat.one_ne_zero, if_false, beq_eq_false_iff_ne.mpr hquote, Bool.xor_false,
      beq_eq_false_iff_ne.mpr hcomma, Bool.false_or, beq_self_eq_true, Bool.and_true]
    rw [ih fun d hd => hq d (List.mem_cons_of_mem _ hd)]
    by_cases hb : c = ch ' '
    · have hbegin : isBegin c = false := by rw [hb]; decide
      rw [hb, squeeze_blank, ← hb, hbegin]
      simp
    · have hbegin : isBegin c = true := by simp [isBegin, hcomma, hb, ho]
      rw [squeeze_cons hb, hbegin]
      simp

/-- Each parameter behind a comma counts. -/
theorem closes_moreParams (rest : List UInt8) (qs : List (List UInt8))
    (hqs : ∀ q ∈ qs, squeeze q ≠ [] ∧ ∀ c ∈ q, isParamChar c = true) : ∀ count : Nat,
    closes 1 false false count ((qs.flatMap fun q => ch ',' :: q) ++ ch ')' :: rest)
      = some (count + qs.length) := by
  induction qs with
  | nil => intro count; simp +decide [closes]
  | cons q qs ih =>
    intro count
    obtain ⟨hne, hq⟩ := hqs q List.mem_cons_self
    have hdepth : depthAfter 1 false (ch ',') = 1 := by decide
    have hquote : (ch ',' == ch '"') = false := by decide
    rw [List.flatMap_cons, List.append_assoc, List.cons_append, closes, hdepth]
    simp only [Nat.one_ne_zero, if_false, hquote, Bool.xor_false, beq_self_eq_true, Bool.true_or,
      Bool.false_and, Bool.false_eq_true]
    rw [closes_param hq, List.isEmpty_eq_false_iff.mpr hne]
    simp only [Bool.and_false, Bool.not_false, Bool.and_self, if_true]
    rw [ih fun q hq => hqs q (List.mem_cons_of_mem _ hq), List.length_cons]
    congr 1
    omega

/-- The parameters are counted up to the closing bracket. -/
theorem closes_paramList (n : Nat) (rest : List UInt8) (qs : List (List UInt8))
    (hqs : ∀ q ∈ qs, squeeze q ≠ [] ∧ ∀ c ∈ q, isParamChar c = true) :
    closes 1 false true 0 (List.replicate n (ch ' ') ++ paramList qs ++ ch ')' :: rest)
      = some qs.length := by
  rw [List.append_assoc, closes_param (isParamChar_blanks n), squeeze_blanks]
  simp only [List.isEmpty_nil, Bool.and_self, Bool.not_true, Bool.and_false, Bool.false_eq_true,
    if_false]
  cases qs with
  | nil => simp +decide [paramList, closes]
  | cons q qs =>
    obtain ⟨hne, hq⟩ := hqs q List.mem_cons_self
    rw [paramList, List.append_assoc, closes_param hq, List.isEmpty_eq_false_iff.mpr hne]
    simp only [Bool.and_false, Bool.not_false, Bool.and_self, if_true]
    rw [closes_moreParams rest qs fun q hq => hqs q (List.mem_cons_of_mem _ hq), List.length_cons]
    congr 1
    omega

/-- Five characters are recorded of the first parameter. -/
theorem fnameLoop_param {q : List UInt8} (hq : ∀ c ∈ q, isParamChar c = true) :
    ∀ s : FnameScan, s.fover = 1 → s.nchar = false → s.pcnt = 0 → s.fpname.length ≤ 5 →
    ∃ t : FnameScan, t.fover = 1 ∧ t.nchar = false ∧ t.fpname = (s.fpname ++ squeeze q).take 5 ∧
      ∀ tail, fnameLoop s (q ++ tail) = fnameLoop t tail := by
  induction q with
  | nil =>
    intro s h1 hn _ hlen
    refine ⟨s, h1, hn, ?_, fun _ => rfl⟩
    rw [squeeze, List.filter_nil, List.append_nil, List.take_of_length_le hlen]
  | cons c q ih =>
    intro s h1 hn h0 hlen
    obtain ⟨ho, hp, hquote, hcomma⟩ := paramChar_ne (hq c List.mem_cons_self)
    obtain ⟨h1', hn', h0', hfp'⟩ := take_record (s := { s with nchar := c == ch '"' }) h1 c
    rw [if_neg hcomma] at h0'
    have hlen' : ({ s with nchar := c == ch '"' }.take c).fpname.length ≤ 5 := by
      rw [hfp']
      split
      · next h => rw [List.length_append, List.length_singleton]; exact h.2.2.2.2
      · exact hlen
    obtain ⟨t, ht1, htn, htfp, hloop⟩ := ih (fun d hd => hq d (List.mem_cons_of_mem _ hd)) _ h1'
      (hn'.trans (beq_eq_false_iff_ne.mpr hquote)) (h0'.trans h0) hlen'
    refine ⟨t, ht1, htn, ?_, fun tail => ?_⟩
    · rw [htfp, hfp']
      by_cases hb : c = ch ' '
      · rw [if_neg fun h => h.2.1 hb, hb, squeeze_blank]
      · rw [squeeze_cons hb]
        by_cases hfull : s.fpname.length < 5
        · rw [if_pos ⟨hcomma, hb, ho, h0, hfull⟩, List.append_assoc, List.singleton_append]
        · have hfive : 5 ≤ s.fpname.length := Nat.le_of_not_lt hfull
          rw [if_neg fun h => hfull h.2.2.2.2, List.take_append_of_le_length hfive,
            List.take_append_of_le_length hfive]
    · rw [List.cons_append, fnameLoop_outer h1 hn ho hp, hloop]

namespace Prototype

variable (p : Prototype)

/-- The main loop on the prototype. -/
theorem fnameLoop_declarator : ∃ t, fnameLoop {} p.declarator = (.ok, t) ∧
    t.parmnum = p.params.length ∧ t.fname = p.name ∧
    ∀ q, p.params = [q] → t.fpname = (squeeze q).take 5 := by
  have hident := p.name_ident.2.2
  have hfront : fnameLoop {} p.declarator = fnameLoop { fname := p.name, fover := 1 } p.tail := by
    have hchars : ∀ c ∈ p.name ++ List.replicate p.gap (ch ' '),
        isIdentChar c = true ∨ c = ch ' ' := fun c hc =>
      (List.mem_append.mp hc).imp (hident c) List.eq_of_mem_replicate
    have h := fnameLoop_front hchars p.tail {} rfl rfl rfl
    have hname : (p.name ++ List.replicate p.gap (ch ' ')).filter (· != ch ' ') = p.name := by
      have hsq := squeeze_append p.name (List.replicate p.gap (ch ' '))
      rwa [squeeze_blanks, squeeze_name hident, List.append_nil] at hsq
    rw [hname] at h
    exact h
  have hcloses := fnameLoop_closes p.tail { fname := p.name, fover := 1 }
    ⟨Nat.le_refl _, Nat.le_refl _, fun h => absurd h (Nat.ne_of_beq_eq_false rfl)⟩
  have hcount : closes 1 false true 0 p.tail = some p.params.length :=
    closes_paramList _ _ _ fun q hq => ⟨p.params_nonempty q hq, p.params_chars q hq⟩
  simp only [beq_self_eq_true, hcount] at hcloses
  obtain ⟨t, hret, hparmnum, hname, _⟩ := hcloses
  refine ⟨t, hfront.trans hret, hparmnum, hname, fun q hq => ?_⟩
  have hchars : ∀ c ∈ List.replicate p.inner (ch ' ') ++ q, isParamChar c = true := fun c hc =>
    (List.mem_append.mp hc).elim (isParamChar_blanks _ c)
      (p.params_chars q (by rw [hq]; exact List.mem_cons_self) c)
  obtain ⟨u, hu1, hun, hufp, hloop⟩ := fnameLoop_param hchars { fname := p.name, fover := 1 } rfl rfl
    rfl (Nat.zero_le _)
  have htail : p.tail = List.replicate p.inner (ch ' ') ++ q ++ ch ')' ::
      List.replicate p.trailing (ch ' ') := by
    rw [tail, hq, paramList, List.flatMap_nil, List.append_nil]
  have hend : ∀ rest, fnameLoop u (ch ')' :: rest) = (.ok, { u with fover := 0 }) := by
    intro rest
    rw [fnameLoop, if_neg fun h => absurd h.1 (by decide), if_pos ⟨rfl, hun⟩, if_neg (by omega),
      if_pos hu1]
  rw [htail, hloop, hend, Prod.mk.injEq] at hret
  rw [← hret.2, hufp, squeeze_append, squeeze_blanks]
  rfl

/-! ## What is read -/

/-- A prototype in which `void` is not mistaken: one whose first four characters are `void`, blanks left
out and no star behind them, has the type `void`, and a single parameter with these characters is
`void`. -/
structure Plain (p : Prototype) : Prop where
  type : startsVoid p.text = true → isVoid p.type = true
  param : ∀ q, p.params = [q] → squeeze q = bytes "void" → isVoid q = true

theorem pnum_eq_iff : (usmartGetFname p.text).pnum = p.paramCount ↔
    ∀ q, p.params = [q] → squeeze q = bytes "void" → isVoid q = true := by
  obtain ⟨t, hret, hparmnum, _, hfp⟩ := p.fnameLoop_declarator
  have hpnum : (usmartGetFname p.text).pnum
      = if t.parmnum = 1 ∧ t.fpname = bytes "void" then 0 else t.parmnum := by
    simp only [usmartGetFname, drop_fnameOffset, nameText_text, hret]
  rw [hpnum, hparmnum, paramCount]
  obtain hparams | ⟨q, hparams⟩ | ⟨q, r, qs, hparams⟩ : p.params = [] ∨ (∃ q, p.params = [q]) ∨
      ∃ q r qs, p.params = q :: r :: qs := by
    cases p.params with
    | nil => exact .inl rfl
    | cons q qs =>
      cases qs with
      | nil => exact .inr (.inl ⟨q, rfl⟩)
      | cons r qs => exact .inr (.inr ⟨q, r, qs, rfl⟩)
  · simp [hparams]
  · have hvoid : (squeeze q).take 5 = bytes "void" ↔ squeeze q = bytes "void" := by
      refine ⟨fun h => ?_, fun h => by rw [h]; rfl⟩
      have hlen : (squeeze q).length ≤ 5 := by
        have h4 := congrArg List.length h
        rw [List.length_take] at h4
        have hfour : (bytes "void").length = 4 := rfl
        omega
      rwa [List.take_of_length_le hlen] at h
    simp only [hfp q hparams, hparams, hvoid, List.length_singleton, true_and, List.cons.injEq, and_true, forall_eq']
    by_cases hsq : squeeze q = bytes "void"
    · cases hq : isVoid q <;> simp [hsq]
    · have hq : isVoid q = false := by
        refine Bool.eq_false_iff.mpr fun hq => hsq (squeeze_of_isVoid hq)
      simp [hsq, hq]
  · simp [hparams]

/-- **A prototype is read as C has it if and only if `void` is not mistaken in it.** -/
theorem prototype_read_iff (p : Prototype) : p.Read ↔ p.Plain := by
  obtain ⟨t, hret, _, hname, _⟩ := p.fnameLoop_declarator
  have hrval := p.rval_eq
  constructor
  · intro h
    refine ⟨fun hstarts => ?_, p.pnum_eq_iff.mp h.pnum⟩
    have heq := hrval.symm.trans h.rval
    rw [if_pos hstarts] at heq
    by_contra hno
    rw [if_neg hno] at heq
    exact absurd (Option.some.inj heq) (by decide)
  · intro h
    have hsame : startsVoid p.text = isVoid p.type :=
      Bool.eq_iff_iff.mpr ⟨h.type, p.startsVoid_of_isVoid⟩
    refine ⟨?_, ?_, p.pnum_eq_iff.mpr h.param, by rw [hrval, hsame]⟩
    · simp only [usmartGetFname, drop_fnameOffset, nameText_text, hret]
    · simp only [usmartGetFname, drop_fnameOffset, nameText_text, hret, hname]

/-- A type whose name begins with `void`. -/
def voidT : Prototype where
  type := bytes "void_t "
  name := bytes "f"
  params := [bytes "int x"]
  gap := 0
  inner := 0
  trailing := 0
  type_chars := List.all_eq_true.mp rfl
  type_begins := ⟨_, _, rfl, rfl⟩
  type_ends := ⟨bytes "void_t", ch ' ', rfl, .inl rfl⟩
  name_ident := ⟨List.cons_ne_nil _ _, Nat.le_of_ble_eq_true rfl, List.all_eq_true.mp rfl⟩
  params_chars := by
    intro q hq
    rw [List.mem_singleton.mp hq]
    exact List.all_eq_true.mp rfl
  params_nonempty := by
    intro q hq
    rw [List.mem_singleton.mp hq]
    exact List.cons_ne_nil _ _
  fits := Nat.le_of_ble_eq_true rfl

theorem voidT_not_read : (usmartGetFname (bytes "void_t f(int x)")).rval = some 0 ∧ ¬voidT.Read := by
  have hrval : (usmartGetFname (bytes "void_t f(int x)")).rval = some 0 := by decide +kernel
  exact ⟨hrval, fun h => absurd (hrval.symm.trans h.rval) (by decide +kernel)⟩

end Prototype

end PlcFirmware.Usmart
