import Mathlib.Data.List.Basic
import Mathlib.Logic.Function.Basic

/-!
# Circular buffers

A circular buffer of `size` cells keeps the number of its entries and the places where the next one
goes in and the next one comes out. A place moves on by one and is compared with the end, so that
nothing is divided. The cells themselves are a function of their own.

* `contents_push` — a push adds the value at the end of the contents
* `contents_pop` — a pop takes the first value off the contents
-/

namespace PlcFirmware.Infra

/-- The control block of a circular buffer. -/
structure Ring where
  size : Nat
  entries : Nat
  qIn : Nat
  qOut : Nat
  deriving DecidableEq

namespace Ring

variable {α : Type _} {r : Ring} {f : Nat → α}

/-- An empty buffer. -/
def empty (size : Nat) : Ring := ⟨size, 0, 0, 0⟩

/-- The place behind `i`. -/
def next (r : Ring) (i : Nat) : Nat := if i + 1 = r.size then 0 else i + 1

/-- A value has been put into cell `qIn`. -/
def push (r : Ring) : Ring := { r with entries := r.entries + 1, qIn := r.next r.qIn }

/-- The value has been taken from cell `qOut`. -/
def pop (r : Ring) : Ring := { r with entries := r.entries - 1, qOut := r.next r.qOut }

@[simp] theorem size_push (r : Ring) : r.push.size = r.size := rfl

@[simp] theorem size_pop (r : Ring) : r.pop.size = r.size := rfl

/-- The values in the buffer, the oldest first. -/
def contents (r : Ring) (f : Nat → α) : List α :=
  (List.range r.entries).map fun i => f ((r.qOut + i) % r.size)

/-- The places are cells, and the entries lie between them. -/
structure Ok (r : Ring) : Prop where
  out_lt : r.qOut < r.size
  le : r.entries ≤ r.size
  in_eq : r.qIn = (r.qOut + r.entries) % r.size

@[simp] theorem length_contents : (r.contents f).length = r.entries := by simp [contents]

theorem contents_empty (size : Nat) (f : Nat → α) : (empty size).contents f = [] := rfl

theorem contents_eq_nil (h : r.entries = 0) : r.contents f = [] := by simp [contents, h]

theorem ok_empty {size : Nat} (h : 0 < size) : (empty size).Ok where
  out_lt := h
  le := Nat.zero_le _
  in_eq := (Nat.zero_mod _).symm

theorem next_eq {i : Nat} (h : i < r.size) : r.next i = (i + 1) % r.size := by
  unfold next
  split
  · next hi => rw [hi, Nat.mod_self]
  · rw [Nat.mod_eq_of_lt (by omega)]

theorem Ok.in_lt (h : r.Ok) : r.qIn < r.size := by
  rw [h.in_eq]
  exact Nat.mod_lt _ (Nat.zero_lt_of_lt h.out_lt)

theorem Ok.push (h : r.Ok) (hroom : r.entries < r.size) : r.push.Ok where
  out_lt := h.out_lt
  le := hroom
  in_eq := by
    show r.next r.qIn = (r.qOut + (r.entries + 1)) % r.size
    rw [next_eq h.in_lt, h.in_eq, Nat.mod_add_mod, Nat.add_assoc]

theorem Ok.pop (h : r.Ok) (hpos : 0 < r.entries) : r.pop.Ok where
  out_lt := by
    show r.next r.qOut < r.size
    rw [next_eq h.out_lt]
    exact Nat.mod_lt _ (Nat.zero_lt_of_lt h.out_lt)
  le := Nat.le_trans (Nat.sub_le _ _) h.le
  in_eq := by
    show r.qIn = (r.next r.qOut + (r.entries - 1)) % r.size
    rw [next_eq h.out_lt, Nat.mod_add_mod, h.in_eq]
    congr 1
    omega

/-- Different entries are in different cells. -/
theorem place_ne {out size i n : Nat} (hi : i < n) (hn : n < size) :
    (out + i) % size ≠ (out + n) % size := by
  intro h
  have hd : size ∣ (out + n) - (out + i) :=
    Nat.dvd_of_mod_eq_zero (Nat.sub_mod_eq_zero_of_mod_eq h.symm)
  have := Nat.le_of_dvd (by omega) hd
  omega

/-- **A value put into cell `qIn` is behind the others.** -/
theorem contents_push (h : r.Ok) (hroom : r.entries < r.size) (x : α) :
    r.push.contents (Function.update f r.qIn x) = r.contents f ++ [x] := by
  show (List.range (r.entries + 1)).map _ = _
  rw [List.range_succ, List.map_append]
  congr 1
  · refine List.map_congr_left fun i hi => ?_
    have hne : (r.qOut + i) % r.size ≠ r.qIn := by
      rw [h.in_eq]
      exact place_ne (List.mem_range.mp hi) hroom
    exact Function.update_of_ne hne _ _
  · show [Function.update f r.qIn x ((r.qOut + r.entries) % r.size)] = [x]
    rw [← h.in_eq, Function.update_self]

/-- **The value in cell `qOut` is the first, the others stay.** -/
theorem contents_pop (h : r.Ok) (hpos : 0 < r.entries) :
    r.contents f = f r.qOut :: r.pop.contents f := by
  obtain ⟨n, hn⟩ : ∃ n, r.entries = n + 1 := ⟨r.entries - 1, by omega⟩
  have hpop : r.pop.entries = n := by show r.entries - 1 = n; omega
  unfold contents
  rw [hpop, hn, List.range_succ_eq_map, List.map_cons, List.map_map]
  congr 1
  · rw [Nat.add_zero, Nat.mod_eq_of_lt h.out_lt]
  · refine List.map_congr_left fun i _ => ?_
    show f ((r.qOut + (i + 1)) % r.size) = f ((r.next r.qOut + i) % r.size)
    rw [next_eq h.out_lt, Nat.mod_add_mod, Nat.add_assoc, Nat.add_comm 1 i]

end Ring

end PlcFirmware.Infra
