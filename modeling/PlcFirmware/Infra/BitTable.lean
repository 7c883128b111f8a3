import Mathlib.Data.BitVec
import Mathlib.Logic.Function.Basic

/-!
# Sets as two-level bit tables

A set of pairs `(y, x)` is a table of rows, row `y` with bit `x`, and a group word whose bit `y` says
that row `y` is not zero. The group makes the smallest pair a matter of two lookups.

* `mem_insert`, `mem_erase` — what the bit operations do to the set
* `Ok.insert`, `Ok.erase` — they keep the group in step with the rows
* `Ok.first` — the lowest bit of the group and the lowest bit of its row are the smallest pair
-/

namespace PlcFirmware.Infra

/-- The lowest bit which is set. -/
structure IsLowest {w : Nat} (b : BitVec w) (i : Nat) : Prop where
  set : b.getLsbD i = true
  below : ∀ j < i, b.getLsbD j = false

theorem IsLowest.unique {w : Nat} {b : BitVec w} {i j : Nat} (hi : IsLowest b i)
    (hj : IsLowest b j) : i = j := by
  rcases Nat.lt_trichotomy i j with h | h | h
  · have := hj.below i h
    rw [hi.set] at this
    cases this
  · exact h
  · have := hi.below j h
    rw [hj.set] at this
    cases this

/-- A word which is not zero has a bit. -/
theorem exists_getLsbD {w : Nat} {b : BitVec w} (h : b ≠ 0#w) : ∃ i, b.getLsbD i = true := by
  by_contra hn
  refine h (BitVec.eq_of_getLsbD_eq fun i _ => ?_)
  rw [BitVec.getLsbD_zero]
  exact Bool.eq_false_iff.mpr fun hb => hn ⟨i, hb⟩

theorem ne_zero_of_getLsbD {w i : Nat} {b : BitVec w} (h : b.getLsbD i = true) : b ≠ 0#w := by
  rintro rfl
  simp at h

theorem eq_zero_iff {w : Nat} {b : BitVec w} : b = 0#w ↔ ∀ i, b.getLsbD i = false := by
  constructor
  · rintro rfl i
    exact BitVec.getLsbD_zero
  · intro h
    by_contra hne
    obtain ⟨i, hi⟩ := exists_getLsbD hne
    rw [h i] at hi
    cases hi

/-- **No bit of `b` lies outside `k`.** -/
theorem and_not_eq_zero_iff {w : Nat} {b k : BitVec w} :
    b &&& ~~~k = 0#w ↔ ∀ i, b.getLsbD i = true → k.getLsbD i = true := by
  rw [eq_zero_iff]
  refine forall_congr' fun i => ?_
  rw [BitVec.getLsbD_and, BitVec.getLsbD_not]
  constructor
  · intro h hb
    rw [hb, Bool.true_and, decide_eq_true (BitVec.lt_of_getLsbD hb), Bool.true_and] at h
    simpa using h
  · intro h
    cases hb : b.getLsbD i with
    | false => rfl
    | true => rw [h hb, Bool.not_true, Bool.and_false, Bool.and_false]

/-- Rows of bits under a group word. -/
structure BitTable (n w : Nat) where
  grp : BitVec n
  tbl : Fin n → BitVec w

namespace BitTable

variable {n w : Nat} {b : BitTable n w}

/-- The empty set. -/
def empty : BitTable n w := ⟨0#n, fun _ => 0#w⟩

/-- Is the pair in the set? -/
def mem (b : BitTable n w) (y : Fin n) (x : Nat) : Bool := (b.tbl y).getLsbD x

/-- `grp |= 1 << y; tbl[y] |= 1 << x` -/
def insert (b : BitTable n w) (y : Fin n) (x : Nat) : BitTable n w where
  grp := b.grp ||| BitVec.twoPow n y
  tbl := Function.update b.tbl y (b.tbl y ||| BitVec.twoPow w x)

/-- `tbl[y] &= ~(1 << x); if (tbl[y] == 0) grp &= ~(1 << y)` -/
def erase (b : BitTable n w) (y : Fin n) (x : Nat) : BitTable n w :=
  let row := b.tbl y &&& ~~~BitVec.twoPow w x
  { grp := if row = 0#w then b.grp &&& ~~~BitVec.twoPow n y else b.grp
    tbl := Function.update b.tbl y row }

/-- The group says which rows are not zero. -/
def Ok (b : BitTable n w) : Prop := ∀ y : Fin n, b.grp.getLsbD y = true ↔ b.tbl y ≠ 0#w

@[simp] theorem mem_empty (y : Fin n) (x : Nat) : (empty : BitTable n w).mem y x = false := by
  simp [mem, empty]

theorem ok_empty : (empty : BitTable n w).Ok := by simp [Ok, empty]

/-- **A set bit is a further pair.** -/
theorem mem_insert {y y' : Fin n} {x x' : Nat} (hx : x < w) :
    (b.insert y x).mem y' x' = if y' = y ∧ x' = x then true else b.mem y' x' := by
  by_cases hy : y' = y
  · subst hy
    by_cases hxx : x' = x
    · subst hxx
      simp [mem, insert, hx]
    · have hne : x ≠ x' := fun h => hxx h.symm
      simp [mem, insert, hxx, hne]
  · simp [mem, insert, hy]

/-- **A cleared bit is one pair less.** -/
theorem mem_erase {y y' : Fin n} {x x' : Nat} :
    (b.erase y x).mem y' x' = if y' = y ∧ x' = x then false else b.mem y' x' := by
  by_cases hy : y' = y
  · subst hy
    by_cases hxx : x' = x
    · subst hxx
      cases hb : (b.tbl y').getLsbD x' with
      | false => simp [mem, erase, hb]
      | true => simp [mem, erase, BitVec.lt_of_getLsbD hb]
    · have hlt : (b.tbl y').getLsbD x' = true → x' < w := BitVec.lt_of_getLsbD
      simpa [mem, erase, hxx] using fun h => ⟨hlt h, Or.inr (Ne.symm hxx)⟩
  · simp [mem, erase, hy]

theorem Ok.insert (h : b.Ok) {y : Fin n} {x : Nat} (hx : x < w) : (b.insert y x).Ok := by
  intro y'
  by_cases hy : y' = y
  · subst hy
    have hbit : ((b.insert y' x).tbl y').getLsbD x = true := by
      simp [BitTable.insert, hx]
    refine iff_of_true ?_ (ne_zero_of_getLsbD hbit)
    simp [BitTable.insert]
  · have hne : (y' : Nat) ≠ y := fun h => hy (Fin.ext h)
    simpa [BitTable.insert, hy, hne] using h y'

theorem Ok.erase (h : b.Ok) {y : Fin n} {x : Nat} : (b.erase y x).Ok := by
  intro y'
  by_cases hy : y' = y
  · subst hy
    by_cases hrow : b.tbl y' &&& ~~~BitVec.twoPow w x = 0#w
    · simp [BitTable.erase, hrow]
    · have hne : b.tbl y' ≠ 0#w := by
        intro h0
        exact hrow (by rw [h0, BitVec.zero_and])
      simp only [BitTable.erase, if_neg hrow, Function.update_self]
      exact iff_of_true ((h y').mpr hne) hrow
  · have hne : (y' : Nat) ≠ y := fun h => hy (Fin.ext h)
    have htbl : (b.erase y x).tbl y' = b.tbl y' := by simp [BitTable.erase, hy]
    have hgrp : (b.erase y x).grp.getLsbD y' = b.grp.getLsbD y' := by
      unfold BitTable.erase
      dsimp only
      split
      · simp [hne]
      · rfl
    rw [htbl, hgrp]
    exact h y'

/-- The group is zero if and only if the set is empty. -/
theorem Ok.grp_eq_zero (h : b.Ok) : b.grp = 0#n ↔ ∀ y x, b.mem y x = false := by
  constructor
  · intro h0 y x
    have hrow : b.tbl y = 0#w := by
      by_contra hne
      have := (h y).mpr hne
      rw [h0, BitVec.getLsbD_zero] at this
      cases this
    simp [mem, hrow]
  · intro hmem
    by_contra hne
    obtain ⟨i, hi⟩ := exists_getLsbD hne
    obtain ⟨x, hx⟩ := exists_getLsbD ((h ⟨i, BitVec.lt_of_getLsbD hi⟩).mp hi)
    have := hmem ⟨i, BitVec.lt_of_getLsbD hi⟩ x
    rw [mem, hx] at this
    cases this

/-- **The lowest bit of the group and the lowest bit of its row are the smallest pair.** -/
theorem Ok.first (h : b.Ok) {y : Fin n} {x : Nat} (hy : IsLowest b.grp y)
    (hx : IsLowest (b.tbl y) x) :
    b.mem y x = true ∧ ∀ y' x', y' < y ∨ (y' = y ∧ x' < x) → b.mem y' x' = false := by
  refine ⟨hx.set, ?_⟩
  rintro y' x' (hlt | ⟨rfl, hlt⟩)
  · have hrow : b.tbl y' = 0#w := by
      by_contra hne
      have := (h y').mpr hne
      rw [hy.below y' hlt] at this
      cases this
    simp [mem, hrow]
  · exact hx.below x' hlt

end BitTable

end PlcFirmware.Infra
