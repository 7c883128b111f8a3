import Mathlib.Data.Nat.Digits.Defs
import PlcFirmware.Usmart.Str

/-!
# Numbers on the console

The digits of a number as they are written, and that `usmart_str2num` reads the number back. Leading
zeros are allowed; the powers of the base in front of them wrap around, but are multiplied by 0.
-/

namespace PlcFirmware.Usmart

/-- A decimal digit. -/
def decDigit (d : Fin 10) : UInt8 := ch '0' + UInt8.ofNat d

/-- A hexadecimal digit, in upper or in lower case. -/
def hexDigit (upper : Bool) (d : Fin 16) : UInt8 :=
  if d < 10 then ch '0' + UInt8.ofNat d
  else (if upper then ch 'A' else ch 'a') + UInt8.ofNat (d - 10)

/-! ## Digits -/

theorem isDigit_decDigit : ∀ d, isDigit (decDigit d) = true := by decide

theorem isNumChar_decDigit (d : Fin 10) : isNumChar (decDigit d) = true := by
  simp only [isNumChar, isDigit_decDigit, Bool.true_or]

theorem decDigit_lt : ∀ d, ¬ch 'A' ≤ decDigit d := by decide

theorem toUpper_decDigit : ∀ d, toUpper (decDigit d) = decDigit d := by decide

theorem digitValue_decDigit : ∀ d, digitValue (decDigit d) = UInt32.ofNat d := by decide

theorem isNumChar_hexDigit : ∀ upper d, isNumChar (hexDigit upper d) = true := by decide

theorem isHex_hexDigit : ∀ d,
    (isDigit (hexDigit true d) || isUpperHex (hexDigit true d)) = true := by decide

theorem toUpper_hexDigit : ∀ upper d, toUpper (hexDigit upper d) = hexDigit true d := by decide

theorem digitValue_hexDigit : ∀ d, digitValue (hexDigit true d) = UInt32.ofNat d := by decide

/-! ## The value -/

theorem usmartPow_ofNat (b n : Nat) : usmartPow (UInt32.ofNat b) n = UInt32.ofNat (b ^ n) := by
  induction n with
  | zero => rfl
  | succ n ih => rw [usmartPow, ih, Nat.pow_succ, UInt32.ofNat_mul]

/-- The last loop adds the value of the digits, the first of them being the highest. -/
theorem str2numDigits_map {α : Type} {digit : α → UInt8} {val : α → Nat}
    (hval : ∀ d, digitValue (digit d) = UInt32.ofNat (val d)) (b : Nat) (ds : List α) :
    ∀ res, str2numDigits (UInt32.ofNat b) ds.length res (ds.map digit)
      = res + UInt32.ofNat (Nat.ofDigits b (ds.map val).reverse) := by
  induction ds with
  | nil => intro res; simp [str2numDigits]
  | cons d ds ih =>
    intro res
    rw [List.map_cons, List.length_cons, str2numDigits, Nat.add_sub_cancel, ih, hval,
      usmartPow_ofNat, ← UInt32.ofNat_mul, UInt32.add_assoc, ← UInt32.ofNat_add, List.map_cons,
      List.reverse_cons, Nat.ofDigits_append, Nat.ofDigits_singleton, List.length_reverse,
      List.length_map, Nat.mul_comm, Nat.add_comm]

/-! ## The scan -/

/-- Behind a character which is no sign, the scan counts the digits. -/
theorem str2numScan_digits (p : List UInt8) : ∀ (s : NumScan), isSign (s.str.headD 0) = false →
    (∀ c ∈ p, (isDigit c || isUpperHex c) = true ∧ (ch 'A' ≤ c → s.hexdec = 16)) →
    str2numScan s p = some { s with bnum := s.bnum + p.length } := by
  induction p with
  | nil => intro s _ _; rfl
  | cons c p ih =>
    intro s hsign hp
    obtain ⟨hc, hhex⟩ := hp c List.mem_cons_self
    have hne : s.str.headD 0 ≠ ch '-' ∧ s.str.headD 0 ≠ ch '+' := by
      simpa [isSign] using hsign
    have hkeep : (if ch 'A' ≤ c then { s with hexdec := 16 } else s) = s := by
      split
      · rw [← hhex ‹_›]
      · rfl
    have hdigit : (isDigit c || (isSign (s.str.headD 0) && s.bnum == 0) || isUpperHex c ||
        (c == ch 'X' && s.bnum == 1)) = true := by
      rw [hsign, Bool.false_and, Bool.or_false, hc, Bool.true_or]
    rw [str2numScan, if_pos hdigit, hkeep]
    simp only [if_neg hne.1, if_neg hne.2]
    rw [ih { s with bnum := s.bnum + 1 } hsign fun c h => hp c (List.mem_cons_of_mem _ h)]
    simp only [List.length_cons, Nat.add_assoc, Nat.add_comm 1]

/-- The value of decimal digits. -/
def decValue (ds : List (Fin 10)) : Nat := Nat.ofDigits 10 (ds.map Fin.val).reverse

/-- The value of hexadecimal digits. -/
def hexValue (ds : List (Fin 16)) : Nat := Nat.ofDigits 16 (ds.map Fin.val).reverse

theorem usmartStr2num_dec {ds : List (Fin 10)} (hne : ds ≠ []) :
    usmartStr2num (ds.map decDigit) = (0, UInt32.ofNat (decValue ds)) := by
  have hsign : isSign ((ds.map decDigit).headD 0) = false := by
    cases ds with
    | nil => exact absurd rfl hne
    | cons d ds => exact (by decide : ∀ d, isSign (decDigit d) = false) d
  have hscan := str2numScan_digits (ds.map decDigit) ⟨ds.map decDigit, 0, 10, 0⟩ hsign (by
    intro c hc
    obtain ⟨d, _, rfl⟩ := List.mem_map.mp hc
    exact ⟨by rw [isDigit_decDigit, Bool.true_or], fun h => absurd h (decDigit_lt d)⟩)
  have hpos : ¬(0 + (ds.map decDigit).length = 0) := by
    rw [List.length_map, Nat.zero_add]
    exact fun h => hne (List.length_eq_zero_iff.mp h)
  rw [usmartStr2num, hscan]
  simp only [if_neg hpos]
  rw [if_neg (by decide), if_neg (by decide), Nat.zero_add, List.length_map]
  rw [show (10 : UInt32) = UInt32.ofNat 10 from rfl, str2numDigits_map digitValue_decDigit,
    UInt32.zero_add, decValue]

theorem usmartStr2num_hex {ds : List (Fin 16)} (hne : ds ≠ []) :
    usmartStr2num (ch '0' :: ch 'X' :: ds.map (hexDigit true))
      = (0, UInt32.ofNat (hexValue ds)) := by
  have hscan := str2numScan_digits (ds.map (hexDigit true))
    ⟨ch '0' :: ch 'X' :: ds.map (hexDigit true), 2, 16, 0⟩ (by rw [List.headD_cons]; decide) (by
    intro c hc
    obtain ⟨d, _, rfl⟩ := List.mem_map.mp hc
    exact ⟨isHex_hexDigit d, fun _ => rfl⟩)
  -- the `0` is counted as a digit, the `X` sets the base
  have hprefix : str2numScan ⟨ch '0' :: ch 'X' :: ds.map (hexDigit true), 0, 10, 0⟩
      (ch '0' :: ch 'X' :: ds.map (hexDigit true))
      = str2numScan ⟨ch '0' :: ch 'X' :: ds.map (hexDigit true), 2, 16, 0⟩
        (ds.map (hexDigit true)) := by
    simp +decide [str2numScan]
  have hpos : ¬(2 + (ds.map (hexDigit true)).length < 3) := by
    have := List.length_pos_iff.mpr hne
    rw [List.length_map]; omega
  rw [usmartStr2num, hprefix, hscan]
  simp only [if_neg hpos, if_true, List.headD_cons, List.drop_succ_cons, List.drop_zero, and_self]
  rw [if_neg (by decide), Nat.add_sub_cancel_left, List.length_map]
  rw [show (16 : UInt32) = UInt32.ofNat 16 from rfl, str2numDigits_map digitValue_hexDigit,
    UInt32.zero_add, hexValue]

end PlcFirmware.Usmart
