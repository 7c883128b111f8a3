import Mathlib.Algebra.Ring.Nat
import Mathlib.Data.List.Basic
import Mathlib.Data.List.GetD
import PlcFirmware.Infra.Cells

/-!
# Sequences in buffers of one size

A sequence lies in buffers of `size` cells, one after the other: its cell `i` is cell `i % size` of buffer
`i / size`. A loop which fills or reads the buffers keeps a buffer and an offset in it, which may be the
end of the buffer.

* `flatten_windows` — stretches one after the other are one stretch
* `window_overBuffers` — a stretch within one buffer
* `flatMap_window` — the buffers, cut to a length, one after the other
-/

namespace PlcFirmware.Infra

variable {α : Type _}

/-- The values of `n` cells from `start` on. -/
def window (f : Nat → α) (start n : Nat) : List α := (List.range' start n).map f

/-- The sequence which lies in the buffers. -/
def overBuffers (size : Nat) (f : Nat → Nat → α) (i : Nat) : α := f (i / size) (i % size)

variable {f : Nat → α} {start m n : Nat}

@[simp] theorem window_zero : window f start 0 = [] := rfl

@[simp] theorem length_window : (window f start n).length = n := by simp [window]

theorem window_append (f : Nat → α) (start m n : Nat) :
    window f start m ++ window f (start + m) n = window f start (m + n) := by
  rw [window, window, ← List.map_append, List.range'_append_1]
  rfl

theorem window_congr {g : Nat → α} {other : Nat} (h : ∀ j < n, f (start + j) = g (other + j)) :
    window f start n = window g other n := by
  rw [window, window, List.range'_eq_map_range, List.range'_eq_map_range, List.map_map, List.map_map]
  exact List.map_congr_left fun j hj => h j (List.mem_range.mp hj)

theorem take_window : (window f start n).take m = window f start (min m n) := by
  refine List.ext_getElem (by simp) fun j h1 h2 => ?_
  simp only [window, List.getElem_take, List.getElem_map, List.getElem_range']

/-- What a stretch holds is what is read from it. -/
theorem HoldsAt.window_eq {vs : List α} (h : HoldsAt f start vs) : window f start vs.length = vs := by
  refine List.ext_getElem length_window fun j h1 h2 => ?_
  simp only [window, List.getElem_map, List.getElem_range', Nat.one_mul]
  exact h j h2

/-- The values are read in stretches of these lengths. -/
def windows (f : Nat → α) : Nat → List Nat → List (List α)
  | _, [] => []
  | start, n :: ns => window f start n :: windows f (start + n) ns

theorem map_length_windows (f : Nat → α) (start : Nat) (ns : List Nat) :
    (windows f start ns).map List.length = ns := by
  induction ns generalizing start with
  | nil => rfl
  | cons n ns ih => rw [windows, List.map_cons, length_window, ih]

theorem flatten_windows (f : Nat → α) (start : Nat) (ns : List Nat) :
    (windows f start ns).flatten = window f start ns.sum := by
  induction ns generalizing start with
  | nil => rfl
  | cons n ns ih => rw [windows, List.flatten_cons, ih, window_append, List.sum_cons]

/-! ## Buffers -/

variable {size : Nat} {b : Nat → Nat → α} {s offset : Nat}

theorem overBuffers_of_lt (h : offset < size) : overBuffers size b (s * size + offset) = b s offset := by
  have hsize : 0 < size := Nat.zero_lt_of_lt h
  rw [overBuffers, Nat.add_comm, Nat.add_mul_div_right _ _ hsize, Nat.add_mul_mod_self_right,
    Nat.div_eq_of_lt h, Nat.mod_eq_of_lt h, Nat.zero_add]

/-- **A stretch within one buffer is one of the sequence.** -/
theorem window_overBuffers (h : offset + n ≤ size) :
    window (b s) offset n = window (overBuffers size b) (s * size + offset) n := by
  refine window_congr fun j hj => ?_
  rw [Nat.add_assoc, overBuffers_of_lt (by omega)]

/-- **The buffers one after the other, cut to a length, are the sequence.** -/
theorem flatMap_window (b : Nat → Nat → α) (size total k : Nat) :
    ((List.range k).flatMap fun s => window (b s) 0 (min size (total - s * size))) =
      window (overBuffers size b) 0 (min total (k * size)) := by
  induction k with
  | zero => simp
  | succ k ih =>
    have hfits : 0 + min size (total - k * size) ≤ size := by
      rw [Nat.zero_add]
      exact Nat.min_le_left _ _
    have hcut := window_overBuffers (b := b) (s := k) hfits
    rw [Nat.add_zero] at hcut
    rw [List.range_succ, List.flatMap_append, ih, List.flatMap_singleton, hcut, Nat.succ_mul]
    by_cases hk : k * size ≤ total
    · have hjoin := window_append (overBuffers size b) 0 (k * size) (min size (total - k * size))
      rw [Nat.zero_add] at hjoin
      rw [Nat.min_eq_right hk, hjoin]
      congr 1
      omega
    · -- nothing is left for the buffer
      rw [show total - k * size = 0 by omega, Nat.min_zero, window_zero, List.append_nil,
        Nat.min_eq_left (by omega), Nat.min_eq_left (by omega)]

/-- The whole buffers one after the other. -/
theorem flatMap_window_full (b : Nat → Nat → α) (size k : Nat) :
    ((List.range k).flatMap fun s => window (b s) 0 size) =
      window (overBuffers size b) 0 (k * size) := by
  have hcut := flatMap_window b size (k * size) k
  rw [Nat.min_self] at hcut
  rw [← hcut]
  refine List.flatMap_congr fun s hs => ?_
  have hle : (s + 1) * size ≤ k * size := Nat.mul_le_mul_right _ (List.mem_range.mp hs)
  rw [Nat.succ_mul] at hle
  rw [Nat.min_eq_left (by omega)]

end PlcFirmware.Infra
