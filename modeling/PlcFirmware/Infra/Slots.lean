import Mathlib.Data.List.FinRange

/-!
# Tables of descriptors

A table with `n` places. A descriptor is an integer; those outside `0 .. n - 1` are at no place. A new
entry is given the first free place, and closing a descriptor makes its place free again.

* `alloc_spec` — what a new entry does to the table
* `get_close` and `get_modify` — what the other operations do to it
-/

namespace PlcFirmware.Infra

/-- `n` places, each free or with an entry. -/
structure Slots (α : Type _) (n : Nat) where
  entry : Fin n → Option α

namespace Slots

variable {α : Type _} {n : Nat}

/-- All places are free. -/
def empty : Slots α n := ⟨fun _ => none⟩

/-- What is at a descriptor. -/
def get (t : Slots α n) (d : Int) : Option α :=
  if h : 0 ≤ d ∧ d.toNat < n then t.entry ⟨d.toNat, h.2⟩ else none

/-- Something is done to the place of a descriptor. -/
def change (t : Slots α n) (d : Int) (f : Option α → Option α) : Slots α n :=
  ⟨fun i => if (i : Int) = d then f (t.entry i) else t.entry i⟩

/-- The place is free again. -/
def close (t : Slots α n) (d : Int) : Slots α n := t.change d fun _ => none

/-- The entry is changed. -/
def modify (t : Slots α n) (d : Int) (f : α → α) : Slots α n := t.change d (Option.map f)

/-- A new entry at the first free place, or `-1`. -/
def alloc (t : Slots α n) (a : α) : Slots α n × Int :=
  match (List.finRange n).find? fun i => (t.entry i).isNone with
  | some i => (t.change i fun _ => some a, i)
  | none => (t, -1)

/-- An entry satisfies the predicate. -/
def any (t : Slots α n) (p : α → Bool) : Bool :=
  (List.finRange n).any fun i => (t.entry i).any p

variable {t : Slots α n} {a : α} {d e : Int}

theorem get_coe (t : Slots α n) (i : Fin n) : t.get i = t.entry i := by
  simp [get]

theorem exists_place (h : t.get d = some a) : ∃ i : Fin n, (i : Int) = d ∧ t.entry i = some a := by
  unfold get at h
  split at h
  · next hd => exact ⟨⟨d.toNat, hd.2⟩, by simpa using hd.1, h⟩
  · cases h

theorem get_change (f : Option α → Option α) (hf : f none = none ∨ ∃ i : Fin n, (i : Int) = d) :
    (t.change d f).get e = if e = d then f (t.get e) else t.get e := by
  by_cases he : 0 ≤ e ∧ e.toNat < n
  · have hcoe : ((e.toNat : Nat) : Int) = e := Int.toNat_of_nonneg he.1
    simp only [get, dif_pos he, change, hcoe]
  · simp only [get, dif_neg he]
    rcases hf with hf | ⟨i, rfl⟩
    · rw [hf, ite_self]
    · rw [if_neg]
      rintro rfl
      exact he ⟨by omega, by simp⟩

theorem get_close (t : Slots α n) (d e : Int) :
    (t.close d).get e = if e = d then none else t.get e := get_change _ (.inl rfl)

theorem get_modify (t : Slots α n) (f : α → α) (d e : Int) :
    (t.modify d f).get e = if e = d then (t.get e).map f else t.get e := get_change _ (.inl rfl)

/-- **A new entry** leaves a full table as it is, and otherwise goes to a place which is free. -/
theorem alloc_spec (t : Slots α n) (a : α) :
    t.alloc a = (t, -1) ∨
      (t.alloc a).2 ≠ -1 ∧ t.get (t.alloc a).2 = none ∧
        ∀ e, (t.alloc a).1.get e = if e = (t.alloc a).2 then some a else t.get e := by
  unfold alloc
  split
  · next i hfind =>
    refine .inr ⟨by omega, ?_, fun e => get_change (fun _ => some a) (.inr ⟨i, rfl⟩)⟩
    rw [get_coe]
    simpa using List.find?_some hfind
  · exact .inl rfl

theorem get_neg_one (t : Slots α n) : t.get (-1) = none := dif_neg (by omega)

theorem any_eq_true {p : α → Bool} :
    t.any p = true ↔ ∃ d a, t.get d = some a ∧ p a = true := by
  simp only [any, List.any_eq_true, List.mem_finRange, true_and, Option.any_eq_true]
  constructor
  · rintro ⟨i, a, ha, hp⟩
    exact ⟨i, a, by rw [get_coe, ha], hp⟩
  · rintro ⟨d, a, hd, hp⟩
    obtain ⟨i, -, hi⟩ := exists_place hd
    exact ⟨i, a, hi, hp⟩

end Slots

end PlcFirmware.Infra
