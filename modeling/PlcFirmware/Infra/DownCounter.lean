import Mathlib.Data.Nat.Basic

/-!
# Counters which run down

A counter of period `p` runs down to 0, one at a time, and starts again at `p - 1`. What can be said of
the time between two readings of it is that it is the steps from one to the other and any number of
periods more.

* `downAt_succ` — the next value
* `downSteps_le` — the steps between two readings are not more than the time between them
-/

namespace PlcFirmware.Infra

/-- The counter at time `t`, if it is `v` at time 0. -/
def downAt (p v t : Nat) : Nat := (v + (p - 1) * t) % p

/-- The steps from `a` down to `b`, over 0 if need be. -/
def downSteps (p a b : Nat) : Nat := if b ≤ a then a - b else a + p - b

variable {p v : Nat}

theorem downAt_lt (hp : 0 < p) (t : Nat) : downAt p v t < p := Nat.mod_lt _ hp

theorem downAt_succ (hp : 0 < p) (t : Nat) :
    downAt p v (t + 1) = if downAt p v t = 0 then p - 1 else downAt p v t - 1 := by
  have hlt := downAt_lt (v := v) hp t
  have hnext : downAt p v (t + 1) = (downAt p v t + (p - 1)) % p := by
    rw [downAt, downAt, Nat.mul_succ, ← Nat.add_assoc, Nat.mod_add_mod]
  rw [hnext]
  split
  · next h => rw [h, Nat.zero_add, Nat.mod_eq_of_lt (by omega)]
  · next h =>
    have hsub : downAt p v t + (p - 1) = downAt p v t - 1 + p := by omega
    rw [hsub, Nat.add_mod_right, Nat.mod_eq_of_lt (by omega)]

/-- The readings a time `d` apart: each step in it adds one, or starts again from 0 with a period. -/
theorem downSteps_le (hp : 0 < p) (t d : Nat) :
    downSteps p (downAt p v t) (downAt p v (t + d)) ≤ d := by
  induction d with
  | zero => rw [Nat.add_zero, downSteps, if_pos (Nat.le_refl _), Nat.sub_self]
  | succ d ih =>
    have ha := downAt_lt (v := v) hp t
    have hb := downAt_lt (v := v) hp (t + d)
    rw [← Nat.add_assoc, downAt_succ hp]
    unfold downSteps at ih ⊢
    split at ih <;> split <;> split <;> omega

end PlcFirmware.Infra
