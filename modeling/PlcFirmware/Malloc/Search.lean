import PlcFirmware.Infra.Runs
import PlcFirmware.Malloc.Basic

/-!
# The search of `my_mem_malloc`

The table is read once, from its end downwards, with a counter of the free cells directly above. The
counter stands at the length of the free stretch which starts at the cell just read and ends at a cell
in use or at the end of the table, so it reaches the length asked for at the highest free run first.

* `search_eq_some_iff` — the loop finds the highest run
-/

namespace PlcFirmware.Malloc

open Infra

variable {map : Nat → Nat} {tblsize nmemb k cmemb : Nat}

/-- What is known when the cells from `k` on have been read and the counter stands at `cmemb`. -/
structure Scanned (map : Nat → Nat) (tblsize nmemb k cmemb : Nat) : Prop where
  /-- The stretch ends at the end of the table or at a cell in use. -/
  ends : k + cmemb = tblsize ∨ k + cmemb < tblsize ∧ map (k + cmemb) ≠ 0
  free : ∀ i, k ≤ i → i < k + cmemb → map i = 0
  short : cmemb < nmemb
  none : ∀ r : Run, r.len = nmemb → r.Free map tblsize → r.start < k

theorem scanned_start (map : Nat → Nat) (tblsize : Nat) (hpos : 0 < nmemb) :
    Scanned map tblsize nmemb tblsize 0 where
  ends := .inl rfl
  free := fun i h1 h2 => by omega
  short := hpos
  none := fun r hlen hfree => by
    have := hfree.1
    omega

/-- **A free cell makes the stretch one longer.** -/
theorem Scanned.free_cell (h : Scanned map tblsize nmemb (k + 1) cmemb) (h0 : map k = 0)
    (hne : cmemb + 1 ≠ nmemb) : Scanned map tblsize nmemb k (cmemb + 1) where
  ends := by
    rw [show k + (cmemb + 1) = k + 1 + cmemb by omega]
    exact h.ends
  free := fun i h1 h2 => by
    rcases Nat.eq_or_lt_of_le h1 with rfl | h1
    · exact h0
    · exact h.free i h1 (by omega)
  short := by
    have := h.short
    omega
  none := fun r hlen hfree => by
    have hlt := h.none r hlen hfree
    have hshort := h.short
    have hin := hfree.1
    refine Nat.lt_of_le_of_ne (by omega) fun hk => ?_
    -- a run from `k` on does not fit below the end of the stretch
    rcases h.ends with hend | ⟨hend, hused⟩
    · omega
    · exact hused (hfree.2 (k + 1 + cmemb) ⟨by omega, by omega⟩)

/-- **A cell in use starts the count again.** -/
theorem Scanned.used_cell (h : Scanned map tblsize nmemb (k + 1) cmemb) (h0 : map k ≠ 0) :
    Scanned map tblsize nmemb k 0 where
  ends := by
    refine .inr ⟨?_, h0⟩
    rcases h.ends with hend | ⟨hend, -⟩ <;> omega
  free := fun i h1 h2 => by omega
  short := Nat.lt_of_le_of_lt (Nat.zero_le _) h.short
  none := fun r hlen hfree => by
    have hlt := h.none r hlen hfree
    have hshort := h.short
    refine Nat.lt_of_le_of_ne (by omega) fun hk => ?_
    exact h0 (hfree.2 k ⟨by omega, by omega⟩)

/-- When the counter reaches `nmemb`, the cell just read starts the highest run. -/
theorem Scanned.found (h : Scanned map tblsize nmemb (k + 1) cmemb) (h0 : map k = 0)
    (heq : cmemb + 1 = nmemb) : Run.Highest map tblsize ⟨k, nmemb⟩ where
  free := by
    refine ⟨?_, fun i hi => ?_⟩
    · show k + nmemb ≤ tblsize
      rcases h.ends with hend | ⟨hend, -⟩ <;> omega
    · obtain ⟨h1, h2⟩ := hi
      rcases Nat.eq_or_lt_of_le h1 with rfl | h1
      · exact h0
      · exact h.free i h1 (by simp only at h2; omega)
  highest := fun s hlen hfree => Nat.le_of_lt_succ (h.none s hlen hfree)

/-- **The loop stops at the highest run, or there is none.** -/
theorem search_cases (h : Scanned map tblsize nmemb k cmemb) :
    (search map nmemb k cmemb = none ∧ ∀ r : Run, r.len = nmemb → ¬r.Free map tblsize) ∨
      ∃ s, search map nmemb k cmemb = some s ∧ Run.Highest map tblsize ⟨s, nmemb⟩ := by
  induction k generalizing cmemb with
  | zero => exact .inl ⟨rfl, fun r hlen hfree => absurd (h.none r hlen hfree) (Nat.not_lt_zero _)⟩
  | succ offset ih =>
    rw [search]
    by_cases h0 : map offset = 0
    · rw [if_pos h0]
      by_cases heq : cmemb + 1 = nmemb
      · rw [if_pos heq]
        exact .inr ⟨offset, rfl, h.found h0 heq⟩
      · rw [if_neg heq]
        exact ih (h.free_cell h0 heq)
    · have hshort := h.short
      rw [if_neg h0, if_neg (by omega)]
      exact ih (h.used_cell h0)

/-- **The search finds the highest run and no other.** -/
theorem search_eq_some_iff (map : Nat → Nat) (tblsize s : Nat) (hpos : 0 < nmemb) :
    search map nmemb tblsize 0 = some s ↔ Run.Highest map tblsize ⟨s, nmemb⟩ := by
  rcases search_cases (scanned_start map tblsize hpos) with ⟨hs, hnone⟩ | ⟨s', hs, hhigh⟩
  · rw [hs]
    exact iff_of_false nofun fun h => hnone _ rfl h.free
  · rw [hs, Option.some.injEq]
    refine ⟨fun h => h ▸ hhigh, fun h => ?_⟩
    exact congrArg Run.start (h.unique hhigh rfl)

theorem search_eq_none_iff (map : Nat → Nat) (tblsize : Nat) (hpos : 0 < nmemb) :
    search map nmemb tblsize 0 = none ↔ ∀ r : Run, r.len = nmemb → ¬r.Free map tblsize := by
  rcases search_cases (scanned_start map tblsize hpos) with ⟨hs, hnone⟩ | ⟨s', hs, hhigh⟩
  · exact iff_of_true hs hnone
  · rw [hs]
    exact iff_of_false nofun fun h => h _ rfl hhigh.free

end PlcFirmware.Malloc
