import Mathlib.Data.Set.List
import PlcFirmware.Usmart.Number

/-!
# What `usmart_str2num` takes

The numbers which `usmart_str2num` takes are described as signs and a numeral behind them, apart from
the pointers and counters with which it reads them. Its first loop is left in front of the numeral: up
to there `p` and `str` are moved together, and behind it `str` stays and the characters are counted.

* `usmartStr2num_spec` — which strings are taken, with which value, and the error codes
-/

namespace PlcFirmware.Usmart

/-! ## Numerals -/

/-- Decimal digits, or `0X` and hexadecimal digits in upper case. -/
inductive Numeral
  | dec (digits : List (Fin 10)) (ne_nil : digits ≠ [])
  | hex (digits : List (Fin 16)) (ne_nil : digits ≠ [])

namespace Numeral

def text : Numeral → List UInt8
  | .dec digits _ => digits.map decDigit
  | .hex digits _ => ch '0' :: ch 'X' :: digits.map (hexDigit true)

def value : Numeral → Nat
  | .dec digits _ => decValue digits
  | .hex digits _ => hexValue digits

theorem usmartStr2num_text (m : Numeral) : usmartStr2num m.text = (0, UInt32.ofNat m.value) := by
  cases m with
  | dec digits ne_nil => exact usmartStr2num_dec ne_nil
  | hex digits ne_nil => exact usmartStr2num_hex ne_nil

/-- A numeral does not begin with a sign. -/
theorem isSign_text (m : Numeral) (rest : List UInt8) : isSign ((m.text ++ rest).headD 0) = false := by
  cases m with
  | dec digits ne_nil =>
    cases digits with
    | nil => exact absurd rfl ne_nil
    | cons d digits => exact (by decide : ∀ d, isSign (decDigit d) = false) d
  | hex digits => exact (by decide : isSign (ch '0') = false)

end Numeral

/-- The value is negated if the last sign is a minus. -/
def signed (signs : List UInt8) (v : UInt32) : UInt32 :=
  if signs.getLast? = some (ch '-') then -v else v

/-! ## The first loop -/

theorem sign_cases {c : UInt8} (hc : isSign c = true) : c = ch '-' ∨ c = ch '+' := by
  simpa [isSign] using hc

/-- `flag` behind some signs. -/
def signFlag : (flag : Nat) → List UInt8 → Nat
  | flag, [] => flag
  | _, c :: signs => signFlag (if c = ch '-' then 2 else 1) signs

theorem signFlag_eq_two_iff (signs : List UInt8) : ∀ flag,
    signFlag flag signs = 2 ↔ signs = [] ∧ flag = 2 ∨ signs.getLast? = some (ch '-') := by
  induction signs with
  | nil => simp [signFlag]
  | cons c signs ih =>
    intro flag
    rw [signFlag, ih]
    cases signs with
    | nil => by_cases hc : c = ch '-' <;> simp [hc]
    | cons d signs => simp

/-- In the signs `str` is moved along with `p`. -/
theorem str2numScan_signs {signs : List UInt8} (hs : ∀ c ∈ signs, isSign c = true)
    (p : List UInt8) : ∀ flag, str2numScan ⟨signs ++ p, 0, 10, flag⟩ (signs ++ p)
      = str2numScan ⟨p, 0, 10, signFlag flag signs⟩ p := by
  induction signs with
  | nil => intro flag; rfl
  | cons c signs ih =>
    intro flag
    have hc := hs c List.mem_cons_self
    have ih := ih fun c h => hs c (List.mem_cons_of_mem _ h)
    have hletter : ¬ch 'A' ≤ c := by
      obtain rfl | rfl := sign_cases hc <;> decide
    rw [List.cons_append, str2numScan]
    simp only [List.headD_cons, hc, beq_self_eq_true, Bool.and_true, Bool.or_true, Bool.true_or,
      if_true, if_neg hletter, List.drop_succ_cons, List.drop_zero, signFlag]
    obtain rfl | rfl := sign_cases hc
    · rw [if_pos rfl, ih, if_pos rfl]
    · rw [if_neg (by decide), if_pos rfl, ih, if_neg (by decide)]

/-- The characters behind the signs which the loop takes, with `bnum` of them read. -/
def takes : (bnum : Nat) → List UInt8 → Bool
  | _, [] => true
  | bnum, c :: p =>
    (isDigit c || isUpperHex c || (c == ch 'X' && bnum == 1)) && takes (bnum + 1) p

/-- Behind the signs `str` stays. -/
theorem str2numScan_takes (p : List UInt8) : ∀ (s : NumScan), isSign (s.str.headD 0) = false →
    str2numScan s p
      = if takes s.bnum p then
          some { s with
            bnum := s.bnum + p.length
            hexdec := if p.any (ch 'A' ≤ ·) then 16 else s.hexdec }
        else none := by
  induction p with
  | nil => intro s _; rfl
  | cons c p ih =>
    intro s hsign
    have hne : s.str.headD 0 ≠ ch '-' ∧ s.str.headD 0 ≠ ch '+' := by
      simpa [isSign] using hsign
    rw [str2numScan, takes]
    simp only [hsign, Bool.false_and, Bool.or_false]
    cases hc : isDigit c || isUpperHex c || (c == ch 'X' && s.bnum == 1) with
    | false => rw [if_neg Bool.false_ne_true, Bool.false_and, if_neg Bool.false_ne_true]
    | true =>
      rw [if_pos rfl, Bool.true_and, if_neg hne.1, if_neg hne.2]
      by_cases hl : ch 'A' ≤ c
      · rw [if_pos hl, ih { s with hexdec := 16, bnum := s.bnum + 1 } hsign]
        simp only [hl, decide_true, List.any_cons, Bool.true_or, if_true, ite_self,
          List.length_cons, Nat.add_assoc, Nat.add_comm 1]
      · rw [if_neg hl, ih { s with bnum := s.bnum + 1 } hsign]
        simp only [hl, decide_false, List.any_cons, Bool.false_or, List.length_cons,
          Nat.add_assoc, Nat.add_comm 1]

/-! ## Behind the signs -/

/-- What `usmart_str2num` makes of the characters behind the signs. -/
def str2numBody (p : List UInt8) : Nat × UInt32 :=
  if takes 0 p = false then (1, 0)
  else if p.any (ch 'A' ≤ ·) then
    if p.length < 3 then (2, 0)
    else if p.headD 0 = ch '0' ∧ (p.drop 1).headD 0 = ch 'X' then
      (0, str2numDigits 16 (p.length - 2) 0 (p.drop 2))
    else (3, 0)
  else if p.length = 0 then (4, 0)
  else (0, str2numDigits 10 p.length 0 p)

theorem signed_zero (signs : List UInt8) : signed signs 0 = 0 := by
  unfold signed
  split <;> rfl

/-- The signs are read first; they decide on the sign of the number and on nothing else. -/
theorem usmartStr2num_signs {signs p : List UInt8} (hs : ∀ c ∈ signs, isSign c = true)
    (hp : isSign (p.headD 0) = false) :
    usmartStr2num (signs ++ p) = ((str2numBody p).1, signed signs (str2numBody p).2) := by
  have hflag : signFlag 0 signs = 2 ↔ signs.getLast? = some (ch '-') := by
    rw [signFlag_eq_two_iff]
    simp
  have hnumber : ∀ v : UInt32, (0, if signFlag 0 signs = 2 then -v else v)
      = ((0, v).1, signed signs (0, v).2) := by
    intro v
    simp only [hflag, signed]
  have herror : ∀ code : Nat, (code, (0 : UInt32)) = ((code, 0).1, signed signs (code, 0).2) := by
    intro code
    simp only [signed_zero]
  rw [usmartStr2num, str2numScan_signs hs, str2numScan_takes p _ hp, str2numBody]
  cases takes 0 p with
  | false => exact herror 1
  | true =>
    simp only [if_true, Bool.true_eq_false, if_false, Nat.zero_add]
    cases p.any (ch 'A' ≤ ·) with
    | true =>
      simp only [if_true]
      split
      · exact herror 2
      · split
        · exact hnumber _
        · exact herror 3
    | false =>
      simp only [Bool.false_eq_true, if_false, show ¬(10 : UInt32) = 16 by decide]
      split
      · exact herror 4
      · exact hnumber _

/-! ## Numerals are what is taken -/

theorem takes_tail {bnum : Nat} {c : UInt8} {p : List UInt8} (h : takes bnum (c :: p) = true) :
    takes (bnum + 1) p = true := by
  rw [takes, Bool.and_eq_true] at h
  exact h.2

/-- From the third character on only digits are taken. -/
theorem digits_of_takes {p : List UInt8} : ∀ bnum, 2 ≤ bnum → takes bnum p = true →
    ∀ c ∈ p, (isDigit c || isUpperHex c) = true := by
  induction p with
  | nil => intro _ _ _ c hc; cases hc
  | cons c p ih =>
    intro bnum hb h
    have hone : (bnum == 1) = false := beq_eq_false_iff_ne.mpr (by omega)
    rw [takes, hone, Bool.and_false, Bool.or_false, Bool.and_eq_true] at h
    intro d hd
    obtain rfl | hd := List.mem_cons.mp hd
    · exact h.1
    · exact ih (bnum + 1) (by omega) h.2 d hd

theorem exists_decDigit {c : UInt8} (hc : isDigit c = true) : ∃ d, decDigit d = c := by
  have hall : ∀ n : Fin 256, isDigit (UInt8.ofNat n) = true → ∃ d, decDigit d = UInt8.ofNat n := by
    decide +kernel
  have hat := hall ⟨c.toNat, c.toNat_lt⟩
  rw [UInt8.ofNat_toNat] at hat
  exact hat hc

theorem exists_hexDigit {c : UInt8} (hc : (isDigit c || isUpperHex c) = true) :
    ∃ d, hexDigit true d = c := by
  have hall : ∀ n : Fin 256, (isDigit (UInt8.ofNat n) || isUpperHex (UInt8.ofNat n)) = true →
      ∃ d, hexDigit true d = UInt8.ofNat n := by
    decide +kernel
  have hat := hall ⟨c.toNat, c.toNat_lt⟩
  rw [UInt8.ofNat_toNat] at hat
  exact hat hc

theorem exists_map {α β : Type} {f : α → β} {p : List β} (h : ∀ c ∈ p, ∃ d, f d = c) :
    ∃ ds : List α, ds.map f = p := by
  have hrange : p ∈ Set.range (List.map f) := by
    rw [Set.range_list_map]
    exact h
  exact hrange

/-- Where there is no letter, all characters are decimal digits. -/
theorem isDigit_of_takes {p : List UInt8} : ∀ bnum, takes bnum p = true →
    p.any (ch 'A' ≤ ·) = false → ∀ c ∈ p, isDigit c = true := by
  induction p with
  | nil => intro _ _ _ c hc; cases hc
  | cons c p ih =>
    intro bnum h hletter d hd
    rw [takes, Bool.and_eq_true] at h
    rw [List.any_cons, Bool.or_eq_false_iff, decide_eq_false_iff_not] at hletter
    obtain rfl | hd := List.mem_cons.mp hd
    · have hupper : isUpperHex d = false := by
        rw [isUpperHex, decide_eq_false hletter.1, Bool.false_and]
      have hx : (d == ch 'X') = false := by
        refine beq_eq_false_iff_ne.mpr ?_
        rintro rfl
        exact hletter.1 (by decide)
      simpa [hupper, hx] using h.1
    · exact ih (bnum + 1) h.2 hletter.2 d hd

/-- The characters behind the signs are taken as a number only if they are a numeral. -/
theorem numeral_of_body {p : List UInt8} (h : (str2numBody p).1 = 0) : ∃ m : Numeral, p = m.text := by
  rw [str2numBody] at h
  cases ht : takes 0 p with
  | false => rw [ht] at h; cases h
  | true =>
    rw [ht, if_neg (by decide)] at h
    cases hl : p.any (ch 'A' ≤ ·) with
    | false =>
      rw [hl, if_neg Bool.false_ne_true] at h
      obtain ⟨ds, rfl⟩ := exists_map fun c hc => exists_decDigit (isDigit_of_takes 0 ht hl c hc)
      cases ds with
      | nil => cases h
      | cons d ds => exact ⟨.dec (d :: ds) (List.cons_ne_nil _ _), rfl⟩
    | true =>
      rw [hl, if_pos rfl] at h
      match p with
      | [] => cases hl
      | [c] => cases h
      | [c, x] => cases h
      | c :: x :: e :: p =>
        rw [if_neg (by simp)] at h
        simp only [List.headD_cons, List.drop_succ_cons, List.drop_zero] at h
        by_cases hprefix : c = ch '0' ∧ x = ch 'X'
        · obtain ⟨rfl, rfl⟩ := hprefix
          have hdigits := digits_of_takes 2 (Nat.le_refl 2) (takes_tail (takes_tail ht))
          obtain ⟨ds, hds⟩ := exists_map fun c hc => exists_hexDigit (hdigits c hc)
          refine ⟨.hex ds ?_, by rw [Numeral.text, hds]⟩
          rintro rfl
          cases hds
        · rw [if_neg hprefix] at h
          cases h

/-! ## The result -/

/-- The string is a numeral with signs in front of it. -/
structure Numeral.Written (m : Numeral) (signs str : List UInt8) : Prop where
  allSigns : ∀ c ∈ signs, isSign c = true
  text : str = signs ++ m.text

theorem noSigns : ∀ c ∈ ([] : List UInt8), isSign c = true := by
  intro c hc
  cases hc

theorem Numeral.Written.usmartStr2num_eq {m : Numeral} {signs str : List UInt8}
    (h : m.Written signs str) : usmartStr2num str = (0, signed signs (UInt32.ofNat m.value)) := by
  have hp : isSign (m.text.headD 0) = false := by
    have hat := m.isSign_text []
    rwa [List.append_nil] at hat
  have hbody := usmartStr2num_signs noSigns hp
  rw [List.nil_append, m.usmartStr2num_text] at hbody
  have hfst := congrArg Prod.fst hbody
  have hsnd := congrArg Prod.snd hbody
  simp only [signed, List.getLast?_nil, reduceCtorEq, if_false] at hfst hsnd
  rw [h.text, usmartStr2num_signs h.allSigns hp, ← hfst, ← hsnd]

/-- The string cut behind its signs. -/
theorem exists_signs (str : List UInt8) :
    ∃ signs p, str = signs ++ p ∧ (∀ c ∈ signs, isSign c = true) ∧ isSign (p.headD 0) = false := by
  induction str with
  | nil => exact ⟨[], [], rfl, noSigns, (by decide : isSign 0 = false)⟩
  | cons c str ih =>
    cases hc : isSign c with
    | false => exact ⟨[], c :: str, rfl, noSigns, hc⟩
    | true =>
      obtain ⟨signs, p, rfl, hs, hp⟩ := ih
      refine ⟨c :: signs, p, rfl, fun d hd => ?_, hp⟩
      obtain rfl | hd := List.mem_cons.mp hd
      · exact hc
      · exact hs d hd

theorem str2numBody_le (p : List UInt8) : (str2numBody p).1 ≤ 4 := by
  unfold str2numBody
  split_ifs <;> simp

theorem str2numBody_eq_four_iff {p : List UInt8} : (str2numBody p).1 = 4 ↔ p = [] := by
  constructor
  · intro h
    unfold str2numBody at h
    split_ifs at h
    all_goals first
      | exact List.length_eq_zero_iff.mp ‹_›
      | cases h
  · rintro rfl
    rfl

/-- **What `usmart_str2num` takes**, and the codes for what it does not take. -/
theorem usmartStr2num_spec (str : List UInt8) :
    ((usmartStr2num str).1 = 0 ↔ ∃ (signs : List UInt8) (m : Numeral), m.Written signs str) ∧
      (∀ (signs : List UInt8) (m : Numeral), m.Written signs str →
        (usmartStr2num str).2 = signed signs (UInt32.ofNat m.value)) ∧
      (usmartStr2num str).1 ≤ 4 ∧
      ((usmartStr2num str).1 = 4 ↔ ∀ c ∈ str, isSign c = true) := by
  obtain ⟨signs, p, rfl, hs, hp⟩ := exists_signs str
  have heq := usmartStr2num_signs hs hp
  refine ⟨⟨fun h => ?_, fun ⟨_, m, h⟩ => ?_⟩, fun _ m h => ?_, ?_, ?_⟩
  · rw [heq] at h
    obtain ⟨m, rfl⟩ := numeral_of_body h
    exact ⟨signs, m, hs, rfl⟩
  · rw [h.usmartStr2num_eq]
  · rw [h.usmartStr2num_eq]
  · rw [heq]
    exact str2numBody_le p
  · rw [heq, str2numBody_eq_four_iff]
    constructor
    · rintro rfl c hc
      exact hs c (by simpa using hc)
    · intro hall
      cases p with
      | nil => rfl
      | cons c p =>
        have hc := hall c (List.mem_append_right _ List.mem_cons_self)
        exact absurd (hc.symm.trans hp) Bool.true_eq_false.mp

/-- Two signs, of which the last counts, and `0XFF`. -/
example : usmartStr2num (bytes "+-0XFF") = (0, -255) := by decide

end PlcFirmware.Usmart
