import PlcFirmware.Usmart.Aparm
import PlcFirmware.Usmart.Number

/-!
# Commands

What a user of the console means and types: a registered function with arguments, each of them a
number or a string in one of its written forms, and the line they make. `Command.Performed` says
that the console does what is meant.
-/

namespace PlcFirmware.Usmart

open Infra

/-! ## Arguments -/

/-- A value which a function gets. -/
inductive Value
  | num (v : UInt32)
  | text (s : List UInt8)

namespace Value

def isString : Value → Bool
  | .num _ => false
  | .text _ => true

/-- The bytes of the value in memory. -/
def stored : Value → List UInt8
  | .num v => UsmartDev.numBytes v
  | .text s => s ++ [0]

/-- The element of `temp` is the number, or the address of the string. -/
def IsPassed (d : UsmartDev) : Value → Option Passed → Prop
  | .num v, p => p = some (.num v)
  | .text s, p => ∃ a, p = some (.addr a) ∧ HoldsAt d.mem a (s ++ [0])

end Value

/-- A string between quotes: a backslash in front of every quote and every backslash. -/
def escape (s : List UInt8) : List UInt8 :=
  s.flatMap fun c => if c = ch '"' ∨ c = ch '\\' then [ch '\\', c] else [c]

/-- The text begins like an argument: with a character of a number or with a quote. -/
def StartsArg (text : List UInt8) : Prop :=
  ∃ c rest, text = c :: rest ∧ (isNumChar c = true ∨ c = ch '"')

/-- An argument in one of its written forms. A hexadecimal digit comes with its case. -/
inductive Arg
  | dec (digits : List (Fin 10)) (ne_nil : digits ≠ []) (fits : decValue digits < 2 ^ 32)
  | hex (digits : List (Bool × Fin 16)) (ne_nil : digits ≠ [])
      (fits : hexValue (digits.map Prod.snd) < 2 ^ 32)
  | str (s : List UInt8) (noNul : 0 ∉ s)

namespace Arg

/-- What is typed. -/
def written : Arg → List UInt8
  | .dec digits _ _ => digits.map decDigit
  | .hex digits _ _ => ch '0' :: ch 'X' :: digits.map fun d => hexDigit d.1 d.2
  | .str s _ => ch '"' :: (escape s ++ [ch '"'])

theorem startsArg (a : Arg) : StartsArg a.written := by
  cases a with
  | dec digits ne_nil =>
    cases digits with
    | nil => exact absurd rfl ne_nil
    | cons d digits => exact ⟨_, _, rfl, .inl (isNumChar_decDigit d)⟩
  | hex digits => exact ⟨_, _, rfl, .inl (by decide)⟩
  | str s => exact ⟨_, _, rfl, .inr rfl⟩

theorem zero_notMem_written (a : Arg) : 0 ∉ a.written := by
  cases a with
  | dec digits =>
    intro h
    obtain ⟨d, _, h0⟩ := List.mem_map.mp h
    exact ne_of_kind (isNumChar_decDigit d) (by decide) h0
  | hex digits =>
    rw [written, List.mem_cons, List.mem_cons]
    rintro (h | h | h)
    · exact absurd h (by decide)
    · exact absurd h (by decide)
    · obtain ⟨d, _, h0⟩ := List.mem_map.mp h
      exact ne_of_kind (isNumChar_hexDigit d.1 d.2) (by decide) h0
  | str s noNul =>
    have hescape : 0 ∉ escape s := by
      intro h
      obtain ⟨c, hc, h0⟩ := List.mem_flatMap.mp h
      have hne : 0 ≠ c := fun heq => noNul (heq ▸ hc)
      split at h0
      · simp only [List.mem_cons, List.not_mem_nil, or_false] at h0
        exact h0.elim (by decide) hne
      · exact hne (List.mem_singleton.mp h0)
    rw [written, List.mem_cons, List.mem_append]
    exact fun h => h.elim (by decide) fun h => h.elim hescape (by decide)

/-- What is meant. -/
def value : Arg → Value
  | .dec digits _ _ => .num (UInt32.ofNat (decValue digits))
  | .hex digits _ _ => .num (UInt32.ofNat (hexValue (digits.map Prod.snd)))
  | .str s _ => .text s

end Arg

/-- The arguments behind the first one, and the closing bracket. -/
def moreArgs : List Arg → List UInt8
  | [] => [ch ')']
  | a :: args => ch ',' :: (a.written ++ moreArgs args)

/-- The arguments with commas between them, and the closing bracket. -/
def argList : List Arg → List UInt8
  | [] => [ch ')']
  | a :: args => a.written ++ moreArgs args

/-! ## Lines -/

/-- A letter, a digit or an underscore. -/
def isIdentChar (c : UInt8) : Bool :=
  isDigit c || (ch 'a' ≤ c && c ≤ ch 'z') || (ch 'A' ≤ c && c ≤ ch 'Z') || c == ch '_'

theorem isPlain_of_isIdentChar {c : UInt8} (hc : isIdentChar c = true) : IsPlain c :=
  isPlain_of_kind hc (by decide)

/--
Entry `id` of the table is a prototype of `name` with `k` parameters, and no entry in front of it has
this name. The name fits in `MAX_FNAME_LEN` bytes.
-/
structure Registered (funs : List (List UInt8)) (id : Nat) (name : List UInt8) (k : Nat) : Prop where
  ident : name ≠ [] ∧ name.length < 30 ∧ ∀ c ∈ name, isIdentChar c = true
  proto : ∃ f, funs[id]? = some f ∧ (usmartGetFname f).res = .ok ∧ (usmartGetFname f).fname = name ∧
    (usmartGetFname f).pnum = k
  before : ∀ f ∈ funs.take id, (usmartGetFname f).res = .ok ∧ (usmartGetFname f).fname ≠ name

/-- A call of a registered function, as it is typed. -/
structure Command (funs : List (List UInt8)) where
  id : Nat
  name : List UInt8
  args : List Arg
  registered : Registered funs id name args.length
  few : args.length ≤ maxParm
  fits : (args.flatMap fun a => a.value.stored).length ≤ parmLen
  short : (name ++ ch '(' :: argList args).length ≤ 199

namespace Command

variable {funs : List (List UInt8)}

/-- The line. -/
def line (c : Command funs) : List UInt8 := c.name ++ ch '(' :: argList c.args

/-- `usmart_cmd_rec` accepts the line, with `behind` in memory behind it, and `usmart_exe` then calls the
function with the values. -/
def Performed (c : Command funs) (behind : List UInt8) (d : UsmartDev) : Prop :=
  ∃ d' passed, usmartCmdRec funs c.line behind d = .ret .ok c.args.length d' ∧
    usmartExe funs d' = some (c.id, passed) ∧
    List.Forall₂ (fun a p => a.value.IsPassed d' p) c.args passed

end Command

end PlcFirmware.Usmart
