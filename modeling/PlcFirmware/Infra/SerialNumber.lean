import Mathlib.Algebra.Ring.Int.Defs
import Mathlib.Algebra.Ring.Nat

/-!
# Serial numbers

A counter of `w` bits which wraps numbers the positions of an unbounded sequence. Two numbers are compared by
the sign of their difference, which is right as long as the positions are near.

* `toInt_serial_sub`, `toNat_serial_sub` — the difference of two numbers is the distance of their positions
* `serial_inj` — near positions have different numbers
-/

namespace PlcFirmware.Infra

variable {w : Nat}

/-- The number of the position `n`, where `b` is the number of the position 0. -/
def serial (b : BitVec w) (n : Int) : BitVec w := b + BitVec.ofInt w n

/-- The distance fits a signed number of `w` bits. -/
def Near (w : Nat) (m n : Int) : Prop := -2 ^ w ≤ 2 * (m - n) ∧ 2 * (m - n) < 2 ^ w

variable {b : BitVec w} {m n : Int}

theorem serial_zero : serial b 0 = b := by
  rw [serial]
  exact BitVec.add_zero b

theorem serial_add (k : Nat) : serial b n + BitVec.ofNat w k = serial b (n + k) := by
  rw [serial, serial, BitVec.ofInt_add, BitVec.add_assoc, BitVec.ofInt_natCast]

theorem serial_sub (k : Nat) : serial b n - BitVec.ofNat w k = serial b (n - k) := by
  rw [BitVec.sub_eq_iff_eq_add, serial_add, Int.sub_add_cancel]

theorem serial_sub_serial : serial b m - serial b n = BitVec.ofInt w (m - n) := by
  have hsum : serial b m = serial b n + BitVec.ofInt w (m - n) := by
    rw [serial, serial, BitVec.add_assoc, ← BitVec.ofInt_add, Int.add_comm, Int.sub_add_cancel]
  rw [hsum, BitVec.add_comm, BitVec.add_sub_cancel]

/-- **The difference of two numbers is the distance of their positions.** -/
theorem toInt_serial_sub (h : Near w m n) : (serial b m - serial b n).toInt = m - n := by
  rw [serial_sub_serial, BitVec.toInt_ofInt]
  obtain ⟨hlo, hhi⟩ := h
  have hpow : ((2 ^ w : Nat) : Int) = 2 ^ w := by rw [Int.natCast_pow]; rfl
  exact Int.bmod_eq_of_le (by omega) (by omega)

/-- The same without a sign. -/
theorem toNat_serial_sub {i j : Nat} (hle : j ≤ i) (h : i - j < 2 ^ w) :
    (serial b i - serial b j).toNat = i - j := by
  rw [serial_sub_serial, ← Int.ofNat_sub hle, BitVec.ofInt_natCast, BitVec.toNat_ofNat,
    Nat.mod_eq_of_lt h]

/-- Near positions have different numbers. -/
theorem serial_inj (h : Near w m n) : serial b m = serial b n ↔ m = n := by
  refine ⟨fun heq => ?_, fun heq => by rw [heq]⟩
  have hsub := toInt_serial_sub (b := b) h
  rw [heq, BitVec.sub_self, BitVec.toInt_zero] at hsub
  omega

end PlcFirmware.Infra
