import PlcFirmware.Usmart.Command

/-!
# How `usmart_get_fname` reads a line

The function name is taken as it stands, and the parameters are counted up to the bracket which closes
the one behind the name. Brackets inside a string do not count, but every quote starts or ends one,
also a quote behind a backslash.
-/

namespace PlcFirmware.Usmart

/-! ## Closing the bracket -/

/-- The depth of the brackets behind `c`. -/
def depthAfter (depth : Nat) (inString : Bool) (c : UInt8) : Nat :=
  if inString then depth
  else if c = ch '(' then depth + 1
  else if c = ch ')' then depth - 1
  else depth

/-- The characters with which a parameter begins. -/
def isBegin (c : UInt8) : Bool := c != ch ',' && c != ch ' ' && c != ch '('

/--
The number of parameters which have begun when the bracket is closed, as far as it is. `fresh` is set
behind the bracket and behind each comma, until a parameter begins; only those in the outer bracket
count.
-/
def closes : (depth : Nat) → (inString fresh : Bool) → (count : Nat) → List UInt8 → Option Nat
  | _, _, _, _, [] => none
  | depth, inString, fresh, count, c :: text =>
    let depth := depthAfter depth inString c
    if depth = 0 then some count
    else
      closes depth (inString ^^ (c == ch '"')) (c == ch ',' || (fresh && !isBegin c))
        (if fresh && isBegin c && depth == 1 then count + 1 else count) text

/-! ## The main loop -/

/-- The loop in the arguments. -/
structure FnameScan.Scanning (s : FnameScan) : Prop where
  depth : 1 ≤ s.fover
  pos : 1 ≤ s.temp
  /-- A parameter which began in an inner bracket; in the outer one it has been counted. -/
  inner : s.temp = 2 → 2 ≤ s.fover

/-- The character in the arguments: where it takes `fover` and `nchar`, and what `take` does then. -/
theorem fnameLoop_cons {s : FnameScan} (hs : 1 ≤ s.fover) (c : UInt8) (text : List UInt8) :
    fnameLoop s (c :: text)
      = if depthAfter s.fover s.nchar c = 0 then (.ok, { s with fover := 0 })
        else fnameLoop ({ s with
          fover := depthAfter s.fover s.nchar c
          nchar := s.nchar ^^ (c == ch '"') }.take c) text := by
  obtain ⟨fover, nchar, fname, temp, pcnt, fpname, parmnum⟩ := s
  have hpos : ¬fover = 0 := Nat.ne_of_gt hs
  cases nchar with
  | true =>
    by_cases hq : c = ch '"'
    · subst hq; simp [fnameLoop, depthAfter, hpos]
    · have hq' : (c == ch '"') = false := beq_eq_false_iff_ne.mpr hq
      simp [fnameLoop, depthAfter, hpos, hq, hq']
  | false =>
    by_cases ho : c = ch '('
    · subst ho
      have hq : (ch '(' == ch '"') = false := by decide
      simp [fnameLoop, depthAfter, hq]
    by_cases hc : c = ch ')'
    · subst hc
      have hq : (ch ')' == ch '"') = false := by decide
      by_cases h1 : fover = 1
      · simp +decide [fnameLoop, depthAfter, h1]
      · have h2 : ¬fover - 1 = 0 := by omega
        simp +decide [fnameLoop, depthAfter, hpos, hq, h1, h2]
    by_cases hq : c = ch '"'
    · subst hq; simp +decide [fnameLoop, depthAfter, hpos]
    · have hq' : (c == ch '"') = false := beq_eq_false_iff_ne.mpr hq
      simp [fnameLoop, depthAfter, hpos, ho, hc, hq, hq']

/-- A comma: the next parameter may begin. -/
theorem take_comma {s : FnameScan} (hpos : ¬s.fover = 0) :
    s.take (ch ',') = { s with temp := 1, pcnt := s.pcnt + 1 } := by
  simp [FnameScan.take, hpos]

/-- The first character of a parameter in the outer bracket. -/
theorem take_first {s : FnameScan} {c : UInt8} (hf : s.fover = 1) (ht : s.temp = 1)
    (hcomma : ¬c = ch ',') (hc : c ≠ ch ' ' ∧ c ≠ ch '(') :
    s.take c = { s with
      fpname := if s.pcnt = 0 ∧ s.fpname.length < 5 then s.fpname ++ [c] else s.fpname
      temp := 3
      parmnum := s.parmnum + 1 } := by
  simp [FnameScan.take, hf, ht, hcomma, hc]

/-- Another character of a parameter. -/
theorem take_inner {s : FnameScan} {c : UInt8} (hpos : ¬s.fover = 0)
    (hcount : ¬(s.fover = 1 ∧ s.temp + 1 = 2)) (hcomma : ¬c = ch ',')
    (hc : c ≠ ch ' ' ∧ c ≠ ch '(') :
    s.take c = { s with
      fpname := if s.pcnt = 0 ∧ s.fpname.length < 5 then s.fpname ++ [c] else s.fpname
      temp := s.temp + 1 } := by
  simp only [FnameScan.take, if_neg hpos, if_neg hcomma, if_pos hc, if_neg hcount]

/-- A blank or a bracket, which leaves everything as it is. -/
theorem take_blank {s : FnameScan} {c : UInt8} (hpos : ¬s.fover = 0)
    (hcount : ¬(s.fover = 1 ∧ s.temp = 2)) (hcomma : ¬c = ch ',')
    (hc : ¬(c ≠ ch ' ' ∧ c ≠ ch '(')) : s.take c = s := by
  simp only [FnameScan.take, if_neg hpos, if_neg hcomma, if_neg hc, if_neg hcount]

theorem prefix_fpname (s : FnameScan) (c : UInt8) :
    s.fpname <+: if s.pcnt = 0 ∧ s.fpname.length < 5 then s.fpname ++ [c] else s.fpname := by
  split
  · exact List.prefix_append _ _
  · exact List.prefix_refl _

/-- A character of the arguments: the parameter which begins with it is counted. -/
theorem take_scanning {s : FnameScan} {c : UInt8} (hd : 1 ≤ s.fover) (ht : 1 ≤ s.temp)
    (h2 : s.temp = 2 → 2 ≤ s.fover ∨ isBegin c = true) :
    (s.take c).Scanning ∧ (s.take c).fover = s.fover ∧ (s.take c).nchar = s.nchar ∧
      (s.take c).fname = s.fname ∧ s.fpname <+: (s.take c).fpname ∧
      ((s.take c).temp == 1) = (c == ch ',' || ((s.temp == 1) && !isBegin c)) ∧
      (s.take c).parmnum
        = if (s.temp == 1) && isBegin c && s.fover == 1 then s.parmnum + 1 else s.parmnum := by
  have hpos : ¬s.fover = 0 := Nat.ne_of_gt hd
  by_cases hcomma : c = ch ','
  · subst hcomma
    have hb : isBegin (ch ',') = false := by decide
    rw [take_comma hpos]
    exact ⟨⟨hd, Nat.le_refl _, fun h => absurd h (by simp)⟩, rfl, rfl, rfl, List.prefix_refl _,
      by simp, by simp [hb]⟩
  have hcomma' : (c == ch ',') = false := beq_eq_false_iff_ne.mpr hcomma
  by_cases hbegin : isBegin c = true
  · have hc : c ≠ ch ' ' ∧ c ≠ ch '(' := by
      simp only [isBegin, Bool.and_eq_true, bne_iff_ne, ne_eq] at hbegin
      exact ⟨hbegin.1.2, hbegin.2⟩
    by_cases hcount : s.fover = 1 ∧ s.temp + 1 = 2
    · have htemp : s.temp = 1 := by omega
      rw [take_first hcount.1 htemp hcomma hc]
      exact ⟨⟨hd, by simp, fun h => absurd h (by simp)⟩, rfl, rfl, rfl, prefix_fpname s c,
        by simp [hbegin, hcomma'], by simp [hbegin, htemp, hcount.1]⟩
    · have hne : (s.temp + 1 == 1) = false := beq_eq_false_iff_ne.mpr (by omega)
      have hnot : ¬(s.temp = 1 ∧ s.fover = 1) := by omega
      rw [take_inner hpos hcount hcomma hc]
      refine ⟨⟨hd, Nat.succ_le_succ (Nat.zero_le _), fun h => ?_⟩, rfl, rfl, rfl,
        prefix_fpname s c, ?_, ?_⟩
      · have h : s.temp + 1 = 2 := h
        show 2 ≤ s.fover
        omega
      · simp [hbegin, hcomma', hne]
      · simp [hbegin]; omega
  · have hc : ¬(c ≠ ch ' ' ∧ c ≠ ch '(') := fun h => hbegin (by simp [isBegin, hcomma, h.1, h.2])
    have hcount : ¬(s.fover = 1 ∧ s.temp = 2) := fun h => by
      obtain h' | h' := h2 h.2
      · omega
      · exact hbegin h'
    have hbegin' : isBegin c = false := by simpa using hbegin
    rw [take_blank hpos hcount hcomma hc]
    refine ⟨⟨hd, ht, fun h => ?_⟩, rfl, rfl, rfl, List.prefix_refl _, ?_, ?_⟩
    · omega
    · simp [hbegin', hcomma']
    · simp [hbegin']

/-- The loop accepts the arguments if and only if their bracket is closed, and counts them. -/
theorem fnameLoop_closes (text : List UInt8) : ∀ (s : FnameScan), s.Scanning →
    match closes s.fover s.nchar (s.temp == 1) s.parmnum text with
    | some n => ∃ t, fnameLoop s text = (.ok, t) ∧ t.parmnum = n ∧ t.fname = s.fname ∧
        s.fpname <+: t.fpname
    | none => (fnameLoop s text).1 = .funcErr := by
  induction text with
  | nil => intro s _; rfl
  | cons c text ih =>
    intro s hs
    rw [fnameLoop_cons hs.depth, closes]
    by_cases hzero : depthAfter s.fover s.nchar c = 0
    · simp only [if_pos hzero]
      exact ⟨_, rfl, rfl, rfl, List.prefix_refl _⟩
    · simp only [if_neg hzero]
      -- a bracket which leads back to the outer level is itself a character of a parameter
      have hinner : s.temp = 2 → 2 ≤ depthAfter s.fover s.nchar c ∨ isBegin c = true := by
        intro h
        have h2 := hs.inner h
        unfold depthAfter at hzero ⊢
        by_cases hc : c = ch ')'
        · exact .inr (by rw [hc]; decide)
        · left; split
          · exact h2
          · split <;> omega
      obtain ⟨hscan, hf, hn, hname, hfp, ht, hp⟩ := take_scanning (c := c) (s := { s with
          fover := depthAfter s.fover s.nchar c
          nchar := s.nchar ^^ (c == ch '"') }) (Nat.pos_of_ne_zero hzero) hs.pos hinner
      have hrest := ih _ hscan
      rw [hf, hn, ht, hp] at hrest
      simp only at hrest
      cases hcl : closes (depthAfter s.fover s.nchar c) (s.nchar ^^ (c == ch '"'))
          (c == ch ',' || ((s.temp == 1) && !isBegin c))
          (if ((s.temp == 1) && isBegin c && depthAfter s.fover s.nchar c == 1) = true
            then s.parmnum + 1 else s.parmnum) text with
      | none => rw [hcl] at hrest; exact hrest
      | some n =>
        rw [hcl] at hrest
        obtain ⟨t, h1, h2, h3, h4⟩ := hrest
        exact ⟨t, h1, h2, h3.trans hname, hfp.trans h4⟩

/-! ## The name -/

/-- The name is not looked for behind a blank or a star, for there is none. -/
theorem fnameOffset_name {name : List UInt8} (hname : ∀ c ∈ name, isIdentChar c = true)
    (rest : List UInt8) : ∀ res, fnameOffset res 0 (name ++ ch '(' :: rest) = 0 := by
  induction name with
  | nil => intro res; rw [List.nil_append, fnameOffset, if_pos rfl]
  | cons c name ih =>
    intro res
    have hc := hname c List.mem_cons_self
    have hname' : ∀ c ∈ name, isIdentChar c = true := fun c h => hname c (List.mem_cons_of_mem _ h)
    have hnext : (name ++ ch '(' :: rest).headD 0 ≠ ch ' ' ∧
        (name ++ ch '(' :: rest).headD 0 ≠ ch '*' := by
      cases name with
      | nil => rw [List.nil_append, List.headD_cons]; decide
      | cons c' name =>
        have hc' := hname' c' List.mem_cons_self
        exact ⟨(isPlain_of_isIdentChar hc').blank, ne_of_kind hc' (by decide)⟩
    rw [List.cons_append, fnameOffset, if_neg (isPlain_of_isIdentChar hc).bracket, if_neg]
    · exact ih hname' _
    · exact fun h => h.1.elim hnext.1 hnext.2

/-- The name is copied without blanks, and behind the bracket the arguments begin. -/
theorem fnameLoop_front {front : List UInt8}
    (hfront : ∀ c ∈ front, isIdentChar c = true ∨ c = ch ' ') (rest : List UInt8) :
    ∀ (s : FnameScan), s.fover = 0 → s.nchar = false → s.temp = 1 →
    fnameLoop s (front ++ ch '(' :: rest)
      = fnameLoop { s with fname := s.fname ++ front.filter (· != ch ' '), fover := 1 } rest := by
  induction front with
  | nil =>
    rintro ⟨_, _, fname, _, pcnt, fpname, parmnum⟩ rfl rfl rfl
    simp +decide [fnameLoop, FnameScan.take]
  | cons c front ih =>
    rintro ⟨_, _, fname, _, pcnt, fpname, parmnum⟩ rfl rfl rfl
    have ih := ih fun c h => hfront c (List.mem_cons_of_mem _ h)
    obtain hc | rfl := hfront c List.mem_cons_self
    · have hc := isPlain_of_isIdentChar hc
      have hkeep : (c :: front).filter (· != ch ' ') = c :: front.filter (· != ch ' ') :=
        List.filter_cons_of_pos (bne_iff_ne.mpr hc.blank)
      rw [List.cons_append, fnameLoop, if_neg (fun h => hc.bracket h.1),
        if_neg (fun h => hc.paren h.1), if_neg hc.quote]
      simp only [FnameScan.take, if_true, if_pos hc.blank]
      rw [ih _ rfl rfl rfl, hkeep]
      simp only [List.append_assoc, List.singleton_append]
    · have hblank : ch ' ' ≠ ch '(' ∧ ch ' ' ≠ ch ')' ∧ ch ' ' ≠ ch '"' := by decide
      rw [List.cons_append, fnameLoop, if_neg (fun h => hblank.1 h.1),
        if_neg (fun h => hblank.2.1 h.1), if_neg hblank.2.2]
      simp only [FnameScan.take, if_true, ne_eq, not_true_eq_false, if_false]
      rw [ih _ rfl rfl rfl, List.filter_cons_of_neg (by decide)]

theorem fnameLoop_name {name : List UInt8} (hname : ∀ c ∈ name, isIdentChar c = true)
    (rest : List UInt8) (s : FnameScan) (h0 : s.fover = 0) (hn : s.nchar = false)
    (h1 : s.temp = 1) : fnameLoop s (name ++ ch '(' :: rest)
      = fnameLoop { s with fname := s.fname ++ name, fover := 1 } rest := by
  rw [fnameLoop_front (fun c h => .inl (hname c h)) rest s h0 hn h1, List.filter_eq_self.mpr]
  exact fun c h => bne_iff_ne.mpr (isPlain_of_isIdentChar (hname c h)).blank

/-! ## The line of a command -/

/-- The number of parameters of a written argument list, as far as its bracket is closed. -/
def closesArgs (args : List Arg) : Option Nat := closes 1 false true 0 (argList args)

/-- The first character of an argument begins a parameter, and is neither a bracket nor a letter of a
type. -/
theorem first_char {c : UInt8} (hc : isNumChar c = true ∨ c = ch '"') :
    isBegin c = true ∧ depthAfter 1 false c = 1 ∧ c ≠ ch 'v' := by
  obtain hc | rfl := hc
  · have hplain := isPlain_of_isNumChar hc
    have hbegin : isBegin c = true := by
      simp only [isBegin, Bool.and_eq_true, bne_iff_ne]
      exact ⟨⟨hplain.comma, hplain.blank⟩, hplain.bracket⟩
    have hdepth : depthAfter 1 false c = 1 := by
      rw [depthAfter, if_neg Bool.false_ne_true, if_neg hplain.bracket, if_neg hplain.paren]
    exact ⟨hbegin, hdepth, ne_of_kind hc (by decide)⟩
  · decide

/-- The arguments behind the bracket. A list of one argument is not taken for `void`, which does not
begin like an argument. -/
theorem fnameLoop_argList (args : List Arg) (name : List UInt8) :
    match closesArgs args with
    | some n => ∃ t, fnameLoop { fname := name, fover := 1 } (argList args) = (.ok, t) ∧
        t.parmnum = n ∧ t.fname = name ∧ t.fpname ≠ bytes "void"
    | none => (fnameLoop { fname := name, fover := 1 } (argList args)).1 = .funcErr := by
  cases args with
  | nil =>
    have hcl : closesArgs [] = some 0 := by decide
    rw [hcl]
    have hloop : fnameLoop { fname := name, fover := 1 } (argList [])
        = (.ok, { fname := name }) := by
      rw [argList, fnameLoop_cons (Nat.le_refl _)]
      exact if_pos rfl
    exact ⟨_, hloop, rfl, rfl, (by decide : [] ≠ bytes "void")⟩
  | cons a args =>
    obtain ⟨c, text, hw, hc⟩ := a.startsArg
    have hargs : argList (a :: args) = c :: (text ++ moreArgs args) := by
      rw [argList, hw, List.cons_append]
    obtain ⟨hbegin, hdepth, hvoid⟩ := first_char hc
    have hcomma : c ≠ ch ',' := ne_of_kind hbegin (by decide)
    -- the first character is counted and recorded, and the loop goes on from there
    have htake : FnameScan.take { fname := name, fover := 1, nchar := false ^^ (c == ch '"') } c
        = ⟨1, false ^^ (c == ch '"'), name, 3, 0, [c], 1⟩ := by
      have hc : c ≠ ch ' ' ∧ c ≠ ch '(' :=
        ⟨ne_of_kind hbegin (by decide), ne_of_kind hbegin (by decide)⟩
      exact take_first rfl rfl hcomma hc
    have hscan := fnameLoop_closes (text ++ moreArgs args)
      ⟨1, false ^^ (c == ch '"'), name, 3, 0, [c], 1⟩
      ⟨Nat.le_refl _, by simp, fun h => absurd h (by simp)⟩
    have hcl : closesArgs (a :: args)
        = closes 1 (false ^^ (c == ch '"')) false 1 (text ++ moreArgs args) := by
      rw [closesArgs, hargs, closes]
      simp [hdepth, hbegin, beq_eq_false_iff_ne.mpr hcomma]
    rw [hcl, hargs, fnameLoop_cons (Nat.le_refl _), hdepth, if_neg Nat.one_ne_zero, htake]
    simp only at hscan
    cases h : closes 1 (false ^^ (c == ch '"')) false 1 (text ++ moreArgs args) with
    | none =>
      rw [show ((3 : Nat) == 1) = false from rfl, h] at hscan
      exact hscan
    | some n =>
      rw [show ((3 : Nat) == 1) = false from rfl, h] at hscan
      obtain ⟨t, h1, h2, h3, h4⟩ := hscan
      refine ⟨t, h1, h2, h3, fun hv => ?_⟩
      rw [hv] at h4
      exact hvoid (List.cons_prefix_cons.mp h4).1

/-- `usmart_get_fname` on the line of a command. -/
theorem usmartGetFname_line {name : List UInt8} (hname : ∀ c ∈ name, isIdentChar c = true)
    (args : List Arg) :
    match closesArgs args with
    | some n => (usmartGetFname (name ++ ch '(' :: argList args)).res = .ok ∧
        (usmartGetFname (name ++ ch '(' :: argList args)).fname = name ∧
        (usmartGetFname (name ++ ch '(' :: argList args)).pnum = n
    | none => (usmartGetFname (name ++ ch '(' :: argList args)).res = .funcErr := by
  have hloop := fnameLoop_argList args name
  have hname' := fnameLoop_name hname (argList args) {} rfl rfl rfl
  rw [show ({} : FnameScan).fname ++ name = name from rfl] at hname'
  simp only [usmartGetFname, fnameOffset_name hname, if_true, hname']
  cases h : closesArgs args with
  | none => rw [h] at hloop; exact hloop
  | some n =>
    rw [h] at hloop
    obtain ⟨t, h1, h2, h3, h4⟩ := hloop
    rw [h1]
    exact ⟨rfl, h3, by simp [h4, h2]⟩

end PlcFirmware.Usmart
