import Mathlib.Data.List.Pairwise
import PlcFirmware.Infra.Cells

/-!
# Disjoint runs of cells

A table of `size` cells is divided into runs of consecutive cells, no two of which meet, and the cells
in none of them. `Marks f R` says that the cells `f` show the runs `R`: a cell holds the length of
the run it is in, and `0` if it is in none.

* `Marks.insert` — filling free cells with the length of the run they make adds the run
* `Marks.without` — clearing the cells of a run takes it away
* `Run.Highest` — the last place where a run of a given length is free
-/

namespace PlcFirmware.Infra

/-- The cells from `start` on, `len` of them. -/
structure Run where
  start : Nat
  len : Nat
  deriving DecidableEq

namespace Run

/-- The cell is in the run. -/
def Covers (r : Run) (i : Nat) : Prop := r.start ≤ i ∧ i < r.start + r.len

/-- One run lies before the other. -/
def Apart (r s : Run) : Prop := r.start + r.len ≤ s.start ∨ s.start + s.len ≤ r.start

theorem Apart.symm {r s : Run} (h : r.Apart s) : s.Apart r := Or.symm h

instance : Std.Symm Run.Apart := ⟨fun _ _ h => h.symm⟩

theorem Apart.not_covers {r s : Run} (h : r.Apart s) {i : Nat} (hr : r.Covers i) : ¬s.Covers i := by
  rintro ⟨h1, h2⟩
  obtain ⟨h3, h4⟩ := hr
  rcases h with h | h <;> omega

/-- Runs which share no cell lie one before the other. -/
theorem apart_of_not_covers {r s : Run} (hs : 0 < s.len) (hr : 0 < r.len)
    (h : ∀ i, r.Covers i → ¬s.Covers i) : r.Apart s := by
  by_cases hrs : r.start + r.len ≤ s.start
  · exact Or.inl hrs
  by_cases hsr : s.start + s.len ≤ r.start
  · exact Or.inr hsr
  -- otherwise the later start is in both
  exact absurd ⟨by omega, by omega⟩ (h (max r.start s.start) ⟨by omega, by omega⟩)

/-- The run is in the table and its cells hold `0`. -/
def Free (f : Nat → Nat) (size : Nat) (r : Run) : Prop :=
  r.start + r.len ≤ size ∧ ∀ i, r.Covers i → f i = 0

/-- The run is free, and none of the same length which starts later is. -/
structure Highest (f : Nat → Nat) (size : Nat) (r : Run) : Prop where
  free : r.Free f size
  highest : ∀ s : Run, s.len = r.len → s.Free f size → s.start ≤ r.start

theorem Highest.unique {f : Nat → Nat} {size : Nat} {r s : Run} (hr : r.Highest f size)
    (hs : s.Highest f size) (hlen : s.len = r.len) : s = r := by
  have h1 := hr.highest s hlen hs.free
  have h2 := hs.highest r hlen.symm hr.free
  obtain ⟨start, len⟩ := s
  cases hlen
  rw [show start = r.start from Nat.le_antisymm h1 h2]

end Run

/-- Runs in a table of `size` cells, no two of which share a cell. -/
structure RunSet (size : Nat) where
  runs : List Run
  pos : ∀ r ∈ runs, 0 < r.len
  inRange : ∀ r ∈ runs, r.start + r.len ≤ size
  apart : runs.Pairwise Run.Apart

namespace RunSet

variable {size : Nat} {R : RunSet size} {r s : Run} {f : Nat → Nat}

/-- No runs. -/
def empty (size : Nat) : RunSet size := ⟨[], by simp, by simp, .nil⟩

/-- One more run. -/
def insert (R : RunSet size) (r : Run) (hpos : 0 < r.len) (hrange : r.start + r.len ≤ size)
    (hapart : ∀ s ∈ R.runs, r.Apart s) : RunSet size where
  runs := r :: R.runs
  pos := List.forall_mem_cons.mpr ⟨hpos, R.pos⟩
  inRange := List.forall_mem_cons.mpr ⟨hrange, R.inRange⟩
  apart := List.pairwise_cons.mpr ⟨hapart, R.apart⟩

/-- The runs which start elsewhere. -/
def without (R : RunSet size) (start : Nat) : RunSet size where
  runs := R.runs.filter (·.start ≠ start)
  pos := fun r hr => R.pos r (List.mem_filter.mp hr).1
  inRange := fun r hr => R.inRange r (List.mem_filter.mp hr).1
  apart := R.apart.filter _

theorem mem_without {start : Nat} : s ∈ (R.without start).runs ↔ s ∈ R.runs ∧ s.start ≠ start := by
  simp [without]

theorem apart_of_ne (hr : r ∈ R.runs) (hs : s ∈ R.runs) (hne : s.start ≠ r.start) : s.Apart r :=
  R.apart.forall hs hr fun h => hne (by rw [h])

/-- A run is given by where it starts. -/
theorem eq_of_start (hr : r ∈ R.runs) (hs : s ∈ R.runs) (h : s.start = r.start) : s = r := by
  by_contra hne
  have hap := R.apart.forall hs hr hne
  have := R.pos r hr
  have := R.pos s hs
  rcases hap with hap | hap <;> omega

/-- The cells show the runs. -/
structure Marks (f : Nat → Nat) (R : RunSet size) : Prop where
  covered : ∀ r ∈ R.runs, ∀ i, r.Covers i → f i = r.len
  free : ∀ i < size, (∀ r ∈ R.runs, ¬r.Covers i) → f i = 0

theorem marks_empty (h : ∀ i < size, f i = 0) : Marks f (empty size) where
  covered := by simp [empty]
  free := fun i hi _ => h i hi

/-- A stretch of cells with `0` meets no run. -/
theorem Marks.apart_of_zero (h : Marks f R) (hpos : 0 < r.len) (hz : ∀ i, r.Covers i → f i = 0) :
    ∀ s ∈ R.runs, r.Apart s := by
  intro s hs
  refine Run.apart_of_not_covers (R.pos s hs) hpos fun i hi hsi => ?_
  have := h.covered s hs i hsi
  have := R.pos s hs
  have := hz i hi
  omega

theorem fill_eq (f : Nat → Nat) (r : Run) (v i : Nat) (h : r.Covers i) :
    fill f r.start v r.len i = v := (fill_apply ..).trans (if_pos h)

theorem fill_ne (f : Nat → Nat) (r : Run) (v i : Nat) (h : ¬r.Covers i) :
    fill f r.start v r.len i = f i := (fill_apply ..).trans (if_neg h)

/-- **Filling free cells with their number makes them a run.** -/
theorem Marks.insert (h : Marks f R) (hpos : 0 < r.len) (hrange : r.start + r.len ≤ size)
    (hapart : ∀ s ∈ R.runs, r.Apart s) :
    Marks (fill f r.start r.len r.len) (R.insert r hpos hrange hapart) where
  covered := by
    intro s hs i hi
    rcases List.mem_cons.mp hs with rfl | hs
    · exact fill_eq f s _ i hi
    · rw [fill_ne f r _ i ((hapart s hs).symm.not_covers hi)]
      exact h.covered s hs i hi
  free := by
    intro i hi hnone
    rw [fill_ne f r _ i (hnone r List.mem_cons_self)]
    exact h.free i hi fun s hs => hnone s (List.mem_cons_of_mem _ hs)

/-- **Clearing the cells of a run takes it away.** -/
theorem Marks.without (h : Marks f R) (hr : r ∈ R.runs) :
    Marks (fill f r.start 0 r.len) (R.without r.start) where
  covered := by
    intro s hs i hi
    obtain ⟨hs, hne⟩ := mem_without.mp hs
    rw [fill_ne f r _ i ((apart_of_ne hr hs hne).not_covers hi)]
    exact h.covered s hs i hi
  free := by
    intro i hi hnone
    by_cases hc : r.Covers i
    · exact fill_eq f r _ i hc
    · rw [fill_ne f r _ i hc]
      refine h.free i hi fun s hs hsi => ?_
      by_cases hst : s.start = r.start
      · exact hc (eq_of_start hr hs hst ▸ hsi)
      · exact hnone s (mem_without.mpr ⟨hs, hst⟩) hsi

end RunSet

end PlcFirmware.Infra
