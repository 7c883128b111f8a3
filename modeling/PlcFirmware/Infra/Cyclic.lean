import Mathlib.Algebra.Group.Fin.Basic
import Mathlib.Algebra.Ring.Nat

/-!
# Places on a cycle

The elements of `Fin n` in a cycle, each chained to the next. Counted from `d`, place `j` is
`d + Fin.ofNat n j`; the first `n` places are all elements, each once.

* `place_next`, `next_place` — one place on
* `exists_place`, `place_inj` — the first `n` places
-/

namespace PlcFirmware.Infra

variable {n : Nat} [NeZero n] {d : Fin n} {i j : Nat}

theorem place_zero : d + Fin.ofNat n 0 = d := by
  apply Fin.ext
  simp

theorem place_next (d : Fin n) (j : Nat) : d + Fin.ofNat n j + 1 = d + Fin.ofNat n (j + 1) := by
  rw [add_assoc]
  congr 1
  apply Fin.ext
  simp [Fin.val_add]

theorem next_place (d : Fin n) (j : Nat) : d + 1 + Fin.ofNat n j = d + Fin.ofNat n (j + 1) := by
  rw [add_right_comm, place_next]

/-- The cycle is closed. -/
theorem place_self : d + Fin.ofNat n n = d := by
  apply Fin.ext
  simp

/-- Every element is at some place. -/
theorem exists_place (d e : Fin n) : ∃ j < n, d + Fin.ofNat n j = e := by
  refine ⟨(e - d).val, (e - d).isLt, ?_⟩
  rw [Fin.ofNat_eq_cast, Fin.cast_val_eq_self, add_sub_cancel]

/-- The first `n` places are different. -/
theorem place_inj (hi : i < n) (hj : j < n) (h : d + Fin.ofNat n i = d + Fin.ofNat n j) : i = j := by
  have hval := congrArg Fin.val (add_left_cancel h)
  simpa [Nat.mod_eq_of_lt hi, Nat.mod_eq_of_lt hj] using hval

/-- Place `j` is reached in `j` steps. -/
theorem iterate_place (d : Fin n) (j : Nat) : (fun e => e + 1)^[j] d = d + Fin.ofNat n j := by
  induction j with
  | zero => exact place_zero.symm
  | succ j ih => rw [Function.iterate_succ_apply', ih, place_next]

theorem place_ne (hpos : 0 < j) (hj : j < n) : d + Fin.ofNat n j ≠ d := by
  intro h
  have hzero : j = 0 := place_inj hj (hpos.trans hj) (h.trans place_zero.symm)
  omega

end PlcFirmware.Infra
