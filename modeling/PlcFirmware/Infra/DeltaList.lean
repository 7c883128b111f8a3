import Mathlib.Algebra.GroupWithZero.Nat
import Mathlib.Data.List.Sort
import PlcFirmware.Infra.Machine

/-!
# Delta lists

A list of things which are due at some time, each with how long it is due after the one before it. Only
the first entry is touched when time passes.

* `due` — what a delta list means: the things with the times at which they are due
* `due_insert`, `due_remove`, `due_pass` — the operations on deltas are those on times
-/

namespace PlcFirmware.Infra.DeltaList

variable {α : Type _}

/-- The things with the times at which they are due, if the time is `t` now. -/
def due : (t : Nat) → List (Nat × α) → List (Nat × α)
  | _, [] => []
  | t, (d, a) :: l => (t + d, a) :: due (t + d) l

/-- Put a thing into the list which is due in time `d`, behind those which are due no later. -/
def insert (d : Nat) (a : α) : List (Nat × α) → List (Nat × α)
  | [] => [(d, a)]
  | (e, b) :: l => if d < e then (d, a) :: (e - d, b) :: l else (e, b) :: insert (d - e) a l

/-- Take out the first thing which `p` finds; the next one takes over its delta. -/
def remove (p : α → Bool) : List (Nat × α) → List (Nat × α)
  | [] => []
  | (d, a) :: l =>
    if p a then
      match l with
      | [] => []
      | (e, b) :: l => (e + d, b) :: l
    else (d, a) :: remove p l

variable {t d : Nat} {a : α} {l : List (Nat × α)}

@[simp] theorem due_nil : due t ([] : List (Nat × α)) = [] := rfl

@[simp] theorem due_cons : due t ((d, a) :: l) = (t + d, a) :: due (t + d) l := rfl

theorem insert_of_lt {x : Nat × α} (h : d < x.1) :
    insert d a (x :: l) = (d, a) :: (x.1 - d, x.2) :: l := if_pos h

theorem insert_of_ge {x : Nat × α} (h : ¬d < x.1) :
    insert d a (x :: l) = x :: insert (d - x.1) a l := if_neg h

theorem remove_of_not {p : α → Bool} {x : Nat × α} (h : ¬p x.2) :
    remove p (x :: l) = x :: remove p l := if_neg h

theorem remove_last {p : α → Bool} {x : Nat × α} (h : p x.2) : remove p [x] = [] := if_pos h

theorem remove_first {p : α → Bool} {x y : Nat × α} (h : p x.2) :
    remove p (x :: y :: l) = (y.1 + x.1, y.2) :: l := if_pos h

@[simp] theorem length_due (t : Nat) (l : List (Nat × α)) : (due t l).length = l.length := by
  induction l generalizing t with
  | nil => rfl
  | cons x l ih => exact congrArg (· + 1) (ih _)

/-- What is due has not been due before. -/
theorem le_of_mem_due {x : Nat × α} (h : x ∈ due t l) : t ≤ x.1 := by
  induction l generalizing t with
  | nil => cases h
  | cons y l ih =>
    rcases List.mem_cons.mp h with rfl | h
    · exact Nat.le_add_right ..
    · exact (Nat.le_add_right ..).trans (ih h)

/-- **A thing goes in behind those which are due no later.** -/
theorem due_insert (t d : Nat) (a : α) (l : List (Nat × α)) :
    due t (insert d a l) = (due t l).orderedInsert (·.1 < ·.1) (t + d, a) := by
  induction l generalizing t d with
  | nil => rfl
  | cons y l ih =>
    obtain ⟨e, b⟩ := y
    unfold insert
    by_cases h : d < e
    · have hback : t + d + (e - d) = t + e := by omega
      rw [if_pos h, due_cons, due_cons, due_cons, hback, List.orderedInsert_cons,
        if_pos (Nat.add_lt_add_left h t)]
    · have hback : t + e + (d - e) = t + d := by omega
      rw [if_neg h, due_cons, due_cons, ih, hback, List.orderedInsert_cons,
        if_neg fun hn => h (Nat.lt_of_add_lt_add_left hn)]

/-- **Taking a thing out leaves the times of the others.** -/
theorem due_remove (t : Nat) (p : α → Bool) (l : List (Nat × α)) :
    due t (remove p l) = (due t l).eraseP (p ·.2) := by
  induction l generalizing t with
  | nil => rfl
  | cons y l ih =>
    obtain ⟨d, a⟩ := y
    unfold remove
    by_cases h : p a
    · rw [if_pos h, due_cons, List.eraseP_cons_of_pos (p := fun x : Nat × α => p x.2) h]
      cases l with
      | nil => rfl
      | cons z l =>
        obtain ⟨e, b⟩ := z
        have hback : t + (e + d) = t + d + e := by omega
        rw [due_cons, due_cons, hback]
    · rw [if_neg h, due_cons, due_cons, List.eraseP_cons_of_neg (p := fun x : Nat × α => p x.2) h, ih]

/-- **Time which passes is taken from the first delta.** -/
theorem due_pass {w : Nat} (h : w ≤ d) : due (t + w) ((d - w, a) :: l) = due t ((d, a) :: l) := by
  have hback : t + w + (d - w) = t + d := by omega
  rw [due_cons, due_cons, hback]

/-! ## How long the list is in time -/

/-- How long after now the last thing is due. -/
def span (l : List (Nat × α)) : Nat := (l.map Prod.fst).sum

@[simp] theorem span_cons (x : Nat × α) : span (x :: l) = x.1 + span l := rfl

/-- A thing which is put in lasts no longer than the list, or than the thing itself. -/
theorem span_insert (d : Nat) (a : α) (l : List (Nat × α)) : span (insert d a l) ≤ max (span l) d := by
  induction l generalizing d with
  | nil => exact le_max_right ..
  | cons x l ih =>
    by_cases h : d < x.1
    · rw [insert_of_lt h, span_cons, span_cons, span_cons]
      omega
    · have hrest := ih (d - x.1)
      rw [insert_of_ge h, span_cons, span_cons]
      omega

theorem span_remove (p : α → Bool) (l : List (Nat × α)) : span (remove p l) ≤ span l := by
  induction l with
  | nil => exact le_rfl
  | cons x l ih =>
    by_cases h : p x.2
    · cases l with
      | nil =>
        rw [remove_last h]
        exact Nat.zero_le _
      | cons y l =>
        rw [remove_first h, span_cons, span_cons, span_cons]
        omega
    · rw [remove_of_not h, span_cons, span_cons]
      omega

end PlcFirmware.Infra.DeltaList
