import PlcFirmware.Usmart.Arguments
import PlcFirmware.Usmart.Scan

/-!
# How `usmart_get_fparam` reads a line

`usmart_get_aparm` does not test for the `NUL` inside a string: it relies on `usmart_get_fname`, which
has accepted the line, having seen the closing quote. But `usmart_get_fname` takes every quote for the
end or the start of a string, also one behind a backslash or behind a closed string, and
`usmart_get_aparm` does not.

`leavesOpen` reads the text behind the bracket in one pass, as the calls of `usmart_get_aparm` do
together, and says whether the text ends inside a string. `fparam_safe_iff` shows that this is all
that can go wrong: a memory which ends with the `NUL` is left in this case only.
-/

namespace PlcFirmware.Usmart

open Infra

/-! ## Reading in one pass -/

/-- Where in an argument the reading is. -/
inductive Reading
  /-- In a number, with the digits copied so far, or in front of an argument. -/
  | number (digits : List UInt8)
  /-- In a string. -/
  | string
  /-- Behind a backslash in a string. -/
  | escaped
  /-- Behind the closing quote of a string. -/
  | closed

/-- A string is open. -/
def Reading.isOpen : Reading → Bool
  | .number _ => false
  | .string => true
  | .escaped => true
  | .closed => false

/-- A number which `usmart_str2num` takes. -/
def IsNumber (digits : List UInt8) : Prop := (usmartStr2num digits).1 = 0

instance (digits : List UInt8) : Decidable (IsNumber digits) := inferInstanceAs (Decidable (_ = _))

/-- The arguments stored behind a number: none is added for an empty one, and the reading stops at a
malformed one and at the eleventh. -/
def countNumber (ds : List UInt8) (n : Nat) : Option Nat :=
  if ds = [] then some n else if IsNumber ds ∧ n < maxParm then some (n + 1) else none

/-- The arguments stored behind a string: the reading stops at the eleventh. -/
def countString (n : Nat) : Option Nat := if n < maxParm then some (n + 1) else none

/--
The reading behind the character `c`, with the number of arguments stored. It stops at a `)` outside
of a string and at a character which fits in no argument.
-/
def Reading.next (n : Nat) (c : UInt8) : Reading → Option (Reading × Nat)
  | .number ds =>
    if c = ch ')' then none
    else if isNumChar c then some (.number (ds ++ [toUpper c]), n)
    else if c = ch '"' then some (.string, n)
    else if c = ch ' ' then some (.number ds, n)
    else if c = ch ',' then (countNumber ds n).map fun n => (.number [], n)
    else none
  | .string =>
    if c = ch '"' then some (.closed, n)
    else if c = ch '\\' then some (.escaped, n)
    else some (.string, n)
  | .escaped => some (.string, n)
  | .closed =>
    if c = ch ')' then none
    else if c = ch ',' then (countString n).map fun n => (.number [], n)
    else some (.closed, n)

/-- The text ends inside a string, read with `n` arguments stored. -/
def leavesOpen (r : Reading) (n : Nat) : List UInt8 → Bool
  | [] => r.isOpen
  | c :: str =>
    match r.next n c with
    | none => false
    | some (r, n) => leavesOpen r n str

theorem leavesOpen_of_some {r r' : Reading} {n n' : Nat} {c : UInt8} (str : List UInt8)
    (h : r.next n c = some (r', n')) : leavesOpen r n (c :: str) = leavesOpen r' n' str := by
  rw [leavesOpen, h]

theorem leavesOpen_of_none {r : Reading} {n : Nat} {c : UInt8} (str : List UInt8)
    (h : r.next n c = none) : leavesOpen r n (c :: str) = false := by
  rw [leavesOpen, h]

/-- Behind a comma an argument begins, unless the reading has stopped. -/
theorem leavesOpen_of_map {r : Reading} {n : Nat} {c : UInt8} (str : List UInt8)
    {count : Option Nat} (h : r.next n c = count.map fun n => (.number [], n)) :
    leavesOpen r n (c :: str) = count.any fun n => leavesOpen (.number []) n str := by
  rw [leavesOpen, h]
  cases count <;> rfl

section

variable (n : Nat) (ds str : List UInt8)

theorem leavesOpen_paren : leavesOpen (.number ds) n (ch ')' :: str) = false :=
  leavesOpen_of_none str (by rw [Reading.next, if_pos rfl])

theorem leavesOpen_num {c : UInt8} (hc : isNumChar c = true) :
    leavesOpen (.number ds) n (c :: str) = leavesOpen (.number (ds ++ [toUpper c])) n str := by
  refine leavesOpen_of_some str ?_
  rw [Reading.next, if_neg (isPlain_of_isNumChar hc).paren, if_pos hc]

theorem leavesOpen_quote :
    leavesOpen (.number ds) n (ch '"' :: str) = leavesOpen .string n str := by
  refine leavesOpen_of_some str ?_
  rw [Reading.next, if_neg (by decide), if_neg (by decide), if_pos rfl]

theorem leavesOpen_blank :
    leavesOpen (.number ds) n (ch ' ' :: str) = leavesOpen (.number ds) n str := by
  refine leavesOpen_of_some str ?_
  rw [Reading.next, if_neg (by decide), if_neg (by decide), if_neg (by decide), if_pos rfl]

theorem leavesOpen_comma : leavesOpen (.number ds) n (ch ',' :: str)
    = (countNumber ds n).any fun n => leavesOpen (.number []) n str := by
  refine leavesOpen_of_map str ?_
  rw [Reading.next, if_neg (by decide), if_neg (by decide), if_neg (by decide),
    if_neg (by decide), if_pos rfl]

theorem leavesOpen_other {c : UInt8} (hc : IsOther c) :
    leavesOpen (.number ds) n (c :: str) = false := by
  refine leavesOpen_of_none str ?_
  rw [Reading.next, if_neg hc.paren, hc.num, if_neg Bool.false_ne_true, if_neg hc.quote,
    if_neg hc.blank, if_neg hc.comma]

end

/-! ## The reading with the values -/

/-- The reading gets to an open string with at most ten arguments stored. -/
def ArgsRead.opens (n : Nat) (r : ArgsRead) : Bool :=
  r.ending = .overread && n + r.values.length ≤ maxParm

theorem opens_cons (n : Nat) (v : Value) (r : ArgsRead) :
    (r.cons v).opens n = (countString n).any fun n => r.opens n := by
  have hlen : n + (r.cons v).values.length = n + 1 + r.values.length := by
    rw [ArgsRead.cons, List.length_cons]
    omega
  rw [ArgsRead.opens, hlen, countString]
  split
  · rfl
  · have hfull : ¬n + 1 + r.values.length ≤ maxParm := by omega
    rw [decide_eq_false hfull, Bool.and_false, Option.any_none]

theorem opens_consNumber (n : Nat) (ds : List UInt8) (r : ArgsRead) :
    (ArgsRead.consNumber ds r).opens n = (countNumber ds n).any fun n => r.opens n := by
  rw [ArgsRead.consNumber, countNumber]
  by_cases hnil : ds = []
  · rw [if_pos hnil, if_pos hnil, Option.any_some]
  · rw [if_neg hnil, if_neg hnil]
    by_cases hnum : IsNumber ds
    · rw [show usmartStr2num ds = (0, (usmartStr2num ds).2) from Prod.ext hnum rfl]
      simp only [hnum, true_and]
      exact opens_cons n _ r
    · simp only [hnum, false_and, if_false, Option.any_none]
      split
      · next v hv => exact absurd (congrArg Prod.fst hv) hnum
      · rfl

theorem opens_of_ending {r : ArgsRead} (h : r.ending ≠ .overread) (n : Nat) :
    r.opens n = false := by
  rw [ArgsRead.opens, decide_eq_false h, Bool.false_and]

theorem complete_ne : ArgsEnd.complete ≠ .overread := by decide

theorem any_eq_false {count : Option Nat} {p : Nat → Bool} (h : ∀ n, p n = false) :
    count.any p = false := by
  cases count with
  | none => rfl
  | some n => exact h n

theorem countNumber_le {ds : List UInt8} {n m : Nat} (hn : n ≤ maxParm)
    (h : countNumber ds n = some m) : m ≤ maxParm := by
  unfold countNumber at h
  split_ifs at h with h1 h2
  · cases h; exact hn
  · cases h; exact h2.2

/-- Both readings of a text agree on whether a string is open, from every place in an argument. -/
structure SameOpen (str : List UInt8) : Prop where
  number : ∀ n ≤ maxParm, ∀ ds,
    leavesOpen (.number ds) n str = (readArgs (.number ds) str).opens n
  comma : ∀ n ≤ maxParm, ∀ ds, ((countNumber ds n).any fun n => leavesOpen (.number []) n str)
    = (readArgs (.comma ds) str).opens n
  string : ∀ n ≤ maxParm, ∀ s, leavesOpen .string n str = (readArgs (.string s) str).opens n
  escaped : ∀ n ≤ maxParm, ∀ s, leavesOpen .escaped n str = (readArgs (.escaped s) str).opens n
  closed : ∀ n ≤ maxParm, ∀ s, leavesOpen .closed n str = (readArgs (.closed s) str).opens n

theorem sameOpen_nil : SameOpen [] where
  number n _ ds := by
    rw [readArgs, opens_consNumber, any_eq_false fun n => opens_of_ending complete_ne n]
    rfl
  comma n _ ds := by
    rw [readArgs, opens_consNumber, any_eq_false fun n => opens_of_ending complete_ne n]
    exact any_eq_false fun _ => rfl
  string n hn s := by simp [leavesOpen, readArgs, Reading.isOpen, ArgsRead.opens, hn]
  escaped n hn s := by simp [leavesOpen, readArgs, Reading.isOpen, ArgsRead.opens, hn]
  closed n _ s := by
    rw [readArgs, opens_of_ending complete_ne]
    rfl

/-- A number which is complete at a comma is counted there, or at the next argument. -/
theorem SameOpen.comma_cons {c : UInt8} {str : List UInt8} (h : SameOpen str)
    (hnumber : ∀ n ≤ maxParm, ∀ ds,
      leavesOpen (.number ds) n (c :: str) = (readArgs (.number ds) (c :: str)).opens n)
    (n : Nat) (hn : n ≤ maxParm) (ds : List UInt8) :
    ((countNumber ds n).any fun n => leavesOpen (.number []) n (c :: str))
      = (readArgs (.comma ds) (c :: str)).opens n := by
  have hnext : isNumChar c = true ∨ c = ch '"' →
      ((countNumber ds n).any fun n => leavesOpen (.number []) n (c :: str))
        = (readArgs (.comma ds) (c :: str)).opens n := by
    intro hc
    rw [readArgs_next _ _ hc, opens_consNumber]
    cases hcount : countNumber ds n with
    | none => rfl
    | some m => exact hnumber m (countNumber_le hn hcount) []
  obtain rfl | hc | rfl | rfl | rfl | hc := charCases c
  · rw [readArgs_next_paren, opens_consNumber,
      any_eq_false fun n => opens_of_ending complete_ne n]
    exact any_eq_false fun n => leavesOpen_paren n [] str
  · exact hnext (.inl hc)
  · exact hnext (.inr rfl)
  · rw [readArgs_next_skip _ _ (.inl rfl), ← h.comma n hn]
    simp only [leavesOpen_blank]
  · rw [readArgs_next_skip _ _ (.inr rfl), ← h.comma n hn]
    simp only [leavesOpen_comma, countNumber, if_true, Option.any_some]
  · rw [readArgs_next_other _ _ hc, opens_of_ending (by decide)]
    exact any_eq_false fun n => leavesOpen_other n [] str hc

theorem SameOpen.number_cons {c : UInt8} {str : List UInt8} (h : SameOpen str) (n : Nat)
    (hn : n ≤ maxParm) (ds : List UInt8) :
    leavesOpen (.number ds) n (c :: str) = (readArgs (.number ds) (c :: str)).opens n := by
  obtain rfl | hc | rfl | rfl | rfl | hc := charCases c
  · rw [leavesOpen_paren, readArgs_paren, opens_consNumber]
    exact (any_eq_false fun n => opens_of_ending complete_ne n).symm
  · rw [leavesOpen_num _ _ _ hc, readArgs_num _ _ hc, h.number n hn]
  · rw [leavesOpen_quote, readArgs_quote, h.string n hn]
  · rw [leavesOpen_blank, readArgs_blank, h.number n hn]
  · rw [leavesOpen_comma, readArgs_comma, h.comma n hn]
  · rw [leavesOpen_other _ _ _ hc, readArgs_other _ _ hc, opens_of_ending (by decide)]

theorem SameOpen.string_cons {c : UInt8} {str : List UInt8} (h : SameOpen str) (n : Nat)
    (hn : n ≤ maxParm) (s : List UInt8) :
    leavesOpen .string n (c :: str) = (readArgs (.string s) (c :: str)).opens n := by
  by_cases hq : c = ch '"'
  · subst hq
    rw [readArgs_endQuote, ← h.closed n hn]
    exact leavesOpen_of_some str (by rw [Reading.next, if_pos rfl])
  by_cases hb : c = ch '\\'
  · subst hb
    rw [readArgs_backslash, ← h.escaped n hn]
    exact leavesOpen_of_some str (by rw [Reading.next, if_neg hq, if_pos rfl])
  · rw [readArgs_copy _ _ hq hb, ← h.string n hn]
    exact leavesOpen_of_some str (by rw [Reading.next, if_neg hq, if_neg hb])

theorem SameOpen.closed_cons {c : UInt8} {str : List UInt8} (h : SameOpen str) (n : Nat)
    (hn : n ≤ maxParm) (s : List UInt8) :
    leavesOpen .closed n (c :: str) = (readArgs (.closed s) (c :: str)).opens n := by
  by_cases hc : c = ch ')'
  · subst hc
    rw [readArgs_closed_paren, opens_of_ending complete_ne]
    exact leavesOpen_of_none str (by rw [Reading.next, if_pos rfl])
  by_cases hcomma : c = ch ','
  · subst hcomma
    rw [readArgs_closed_comma, opens_cons,
      leavesOpen_of_map str (by rw [Reading.next, if_neg hc, if_pos rfl])]
    unfold countString
    split
    · next hlt =>
      have hnext := h.comma (n + 1) hlt []
      rwa [countNumber, if_pos rfl] at hnext
    · rfl
  · rw [readArgs_behind _ _ hc hcomma, ← h.closed n hn]
    exact leavesOpen_of_some str (by rw [Reading.next, if_neg hc, if_neg hcomma])

theorem sameOpen (str : List UInt8) : SameOpen str := by
  induction str with
  | nil => exact sameOpen_nil
  | cons c str ih =>
    refine ⟨ih.number_cons, ih.comma_cons ih.number_cons, ih.string_cons, ?_, ih.closed_cons⟩
    intro n hn s
    rw [readArgs, ← ih.string n hn]
    exact leavesOpen_of_some str rfl

/-! ## The loop of `usmart_get_fparam` -/

/-- The function returns, or leaves the line where a string is open. -/
def Ends (out : Outcome) (isOpen : Bool) : Prop :=
  if isOpen then out = .overread else ∃ sta parn d, out = .ret sta parn d

theorem Ends.ret (sta : Status) (parn : Nat) (d : UsmartDev) : Ends (.ret sta parn d) false :=
  ⟨sta, parn, d, rfl⟩

theorem Ends.returns_iff {out : Outcome} {isOpen : Bool} (h : Ends out isOpen) :
    (∃ sta parn d, out = .ret sta parn d) ↔ isOpen = false := by
  cases isOpen with
  | false => exact iff_of_true h rfl
  | true =>
    have h : out = .overread := h
    subst h
    exact iff_of_false (fun ⟨_, _, _, h⟩ => Outcome.noConfusion h) Bool.noConfusion

/-- The ends of a text behind a bracket. -/
def ArgsEnd.ofText : ArgsEnd → Bool
  | .complete => true
  | .malformed => true
  | .overread => true
  | .noParen => false
  | .overwrite => false
  | .endless => false

theorem consNumber_ofText {r : ArgsRead} (h : r.ending.ofText = true) (ds : List UInt8) :
    (ArgsRead.consNumber ds r).ending.ofText = true := by
  rw [ArgsRead.consNumber]
  split
  · exact h
  · split
    · exact h
    · rfl

theorem readArgs_ofText (str : List UInt8) : ∀ st : ArgState,
    (readArgs st str).ending.ofText = true := by
  induction str with
  | nil =>
    intro st
    cases st with
    | number ds => exact consNumber_ofText rfl ds
    | comma ds => exact consNumber_ofText rfl ds
    | string s => rfl
    | escaped s => rfl
    | closed s => rfl
  | cons c str ih =>
    intro st
    cases st with
    | number ds =>
      rw [readArgs]
      split_ifs
      · exact consNumber_ofText rfl ds
      · exact ih _
      · exact ih _
      · exact ih _
      · exact ih _
      · rfl
    | comma ds =>
      rw [readArgs]
      split_ifs
      · exact consNumber_ofText rfl ds
      · exact consNumber_ofText (ih _) ds
      · exact consNumber_ofText (ih _) ds
      · exact ih _
      · rfl
    | string s =>
      rw [readArgs]
      split_ifs
      · exact ih _
      · exact ih _
      · exact ih _
    | escaped s => exact ih _
    | closed s =>
      rw [readArgs]
      split_ifs
      · rfl
      · exact ih (.comma [])
      · exact ih _

/-- The values are stored, and then the function returns or leaves the line. -/
theorem storeArgs_ends {e : ArgsEnd} (he : e.ofText = true) (vs : List Value) :
    ∀ (n : Nat) (d : UsmartDev), n ≤ maxParm →
      Ends (d.storeArgs n vs e) (ArgsRead.opens n ⟨vs, e⟩) := by
  induction vs with
  | nil =>
    intro n d hn
    cases e with
    | complete => exact Ends.ret _ _ _
    | malformed => exact Ends.ret _ _ _
    | overread =>
      have hopen : ArgsRead.opens n ⟨[], .overread⟩ = true := by simp [ArgsRead.opens, hn]
      rw [hopen]
      exact rfl
    | noParen => cases he
    | overwrite => cases he
    | endless => cases he
  | cons v vs ih =>
    intro n d hn
    have hopens := opens_cons n v ⟨vs, e⟩
    rw [ArgsRead.cons] at hopens
    rw [hopens, UsmartDev.storeArgs, countString]
    by_cases hlt : n < maxParm
    · rw [if_pos hlt, if_neg (by omega)]
      exact ih (n + 1) _ hlt
    · rw [if_neg hlt, if_pos (by omega)]
      exact Ends.ret _ _ _

/-- The text behind the first bracket of a line. -/
def argumentText (line : List UInt8) : List UInt8 := (behindParen line).getD []

theorem fparam_ends (line : Line) (d : UsmartDev) (hne : line.text ≠ []) :
    Ends (usmartGetFparam line.text [] d)
      (leavesOpen (.number []) 0 (argumentText line.text)) := by
  have hfits := line.fits
  unfold usartRecLen at hfits
  rw [usmartGetFparam_eq, memArgs_line (by omega) line.nul (.inl rfl), lineArgs, argumentText]
  cases behindParen line.text with
  | some text =>
    simp only [Option.getD_some]
    rw [(sameOpen text).number 0 (Nat.zero_le _)]
    exact storeArgs_ends (readArgs_ofText text _) _ _ _ (Nat.zero_le _)
  | none =>
    simp only [if_neg hne]
    exact Ends.ret _ _ _

/-- With memory which ends behind the `NUL` of a line which `usmart_get_fname` has accepted, the function
returns, and so has left neither the line nor `tstr`, if and only if no string is open at the end of the
line. -/
theorem fparam_safe_iff (line : Line) (d : UsmartDev) (hacc : (usmartGetFname line.text).res = .ok) :
    (∃ sta parn d', usmartGetFparam line.text [] d = .ret sta parn d') ↔
      leavesOpen (.number []) 0 (argumentText line.text) = false := by
  have hne : line.text ≠ [] := by
    intro hnil
    rw [hnil] at hacc
    exact Status.noConfusion hacc
  exact (fparam_ends line d hne).returns_iff

/-- A call with a number. -/
def ledOutFive : Line := ⟨bytes "led_out(5)", by decide, by decide⟩

theorem fparam_safe_iff_ledOutFive :
    (∃ sta parn d', usmartGetFparam ledOutFive.text [] .start = .ret sta parn d') ↔
      leavesOpen (.number []) 0 (argumentText ledOutFive.text) = false :=
  fparam_safe_iff _ _ (by decide)

/-- The string is one backslash. -/
def escapedQuote : Line := ⟨bytes "Send_File_Name(\"\\\")", by decide, by decide⟩

/-- `usmart_get_fname` sees a closing quote where `usmart_get_aparm` reads an escaped one. -/
theorem fparam_leaves_line :
    ¬ ∀ (line : Line) (d : UsmartDev), (usmartGetFname line.text).res = .ok →
      ∃ sta parn d', usmartGetFparam line.text [] d = .ret sta parn d' := by
  intro h
  have hret := h escapedQuote .start (by decide)
  have hends := fparam_ends escapedQuote .start (by decide)
  have hopen := hends.returns_iff.mp hret
  revert hopen
  decide

end PlcFirmware.Usmart
