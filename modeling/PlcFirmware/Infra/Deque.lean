import PlcFirmware.Infra.Ring

/-!
# Circular buffers with two ends

A value can also be put in front of the others, into the cell before `qOut`, and all values can be
thrown away.

* `Ok.pushFront` and `Ok.flush` — the places stay cells with the entries between them
-/

namespace PlcFirmware.Infra.Ring

variable {r : Ring}

/-- The place before `i`. -/
def prev (r : Ring) (i : Nat) : Nat := (if i = 0 then r.size else i) - 1

/-- A value has been put into the cell before `qOut`. -/
def pushFront (r : Ring) : Ring := { r with entries := r.entries + 1, qOut := r.prev r.qOut }

/-- All values have been thrown away. -/
def flush (r : Ring) : Ring := { r with entries := 0, qIn := 0, qOut := 0 }

theorem prev_lt {i : Nat} (h : i < r.size) : r.prev i < r.size := by
  unfold prev
  split <;> omega

/-- One place on from the place before is the place itself. -/
theorem prev_add {i : Nat} (h : i < r.size) (n : Nat) :
    (r.prev i + (n + 1)) % r.size = (i + n) % r.size := by
  unfold prev
  split
  · next h0 =>
    subst h0
    rw [show r.size - 1 + (n + 1) = n + r.size by omega, Nat.add_mod_right, Nat.zero_add]
  · rw [show i - 1 + (n + 1) = i + n by omega]

theorem Ok.pushFront (h : r.Ok) (hroom : r.entries < r.size) : r.pushFront.Ok where
  out_lt := prev_lt h.out_lt
  le := hroom
  in_eq := by
    show r.qIn = (r.prev r.qOut + (r.entries + 1)) % r.size
    rw [prev_add h.out_lt, h.in_eq]

theorem Ok.flush (h : r.Ok) : r.flush.Ok where
  out_lt := Nat.zero_lt_of_lt h.out_lt
  le := Nat.zero_le _
  in_eq := (Nat.zero_mod _).symm

end PlcFirmware.Infra.Ring
