import PlcFirmware.Malloc.Invariant

/-!
# Which cells `my_mem_free` clears

The function takes any offset into the pool. It reads the number of cells to clear from the cell of
that offset, which holds the same number in all blocks of an allocation, and clears from there on. At
the first block this is the allocation. At a later block it starts too late and ends too late by the
same number of cells: it reaches into what is behind, which is another allocation, a free stretch or
the end of the table.

* `freeOk_iff` — when a call clears one allocation or nothing
-/

namespace PlcFirmware.Malloc

open Infra

variable {L : Layout} {memx : Pool} {s : Session} {offset : Nat}

/-! ## The cells which are written -/

/-- The cells which `my_mem_free` writes: `nmemb` from `index` on. -/
def MallcoDev.clearedRun (d : MallcoDev) (memx : Pool) (offset : Nat) : Run :=
  ⟨offset / 64, (s32 (d.memmap memx (offset / 64))).toNat⟩

theorem myMemFree_accepted {d : MallcoDev} (hr : d.memrdy memx = true)
    (ho : offset < memsize memx) :
    myMemFree memx offset d = (d.marked memx (d.clearedRun memx offset) 0, 0) := by
  rw [memsize_eq] at ho
  simp only [myMemFree, hr, memsize_eq, memblksize_eq, Bool.true_eq_false, if_false, if_pos ho,
    MallcoDev.marked, MallcoDev.clearedRun]

/-- A call of `my_mem_free` leaves the tables alone, or clears the cells of one live allocation: no cell
of a different one, and none behind the table. -/
structure FreeOk (L : Layout) (s : Session) (memx : Pool) (offset : Nat) : Prop where
  one : (myMemFree memx offset s.dev).1.memmap = s.dev.memmap ∨ ∃ a ∈ s.live memx,
    (∀ q i, (q = memx ∧ (a.run L memx).Covers i →
        (myMemFree memx offset s.dev).1.memmap q i = 0) ∧
      (¬(q = memx ∧ (a.run L memx).Covers i) →
        (myMemFree memx offset s.dev).1.memmap q i = s.dev.memmap q i)) ∧
    ∀ b ∈ s.live memx, b.ptr ≠ a.ptr → (s.dev.clearedRun memx offset).Apart (b.run L memx)
  inTable : (s.dev.clearedRun memx offset).start + (s.dev.clearedRun memx offset).len ≤
    memtblsize memx

/-- The block of the offset is free, or the first of a live allocation. -/
def FirstBlock (L : Layout) (s : Session) (memx : Pool) (offset : Nat) : Prop :=
  s.dev.memmap memx (offset / 64) = 0 ∨ ∃ a ∈ s.live memx, (a.run L memx).start = offset / 64

/-! ## The cell of the offset -/

theorem index_lt (ho : offset < memsize memx) : offset / 64 < memtblsize memx := by
  rw [memsize_eq] at ho
  omega

namespace Holds

variable {map : Nat → Nat} {allocs : List Alloc} {i : Nat}

/-- **A cell in use is in the run of a live allocation**, and holds its length. -/
theorem of_used (h : Holds L memx map allocs) (hi : i < memtblsize memx) (hne : map i ≠ 0) :
    ∃ a ∈ allocs, (a.run L memx).Covers i ∧ map i = (a.run L memx).len := by
  obtain ⟨R, hR, hm⟩ := h.marks
  by_contra hnone
  refine hne (hm.free i hi fun r hr hc => ?_)
  obtain ⟨a, ha, rfl⟩ := List.mem_map.mp (hR ▸ hr)
  exact hnone ⟨a, ha, hc, hm.covered _ hr i hc⟩

theorem covered (h : Holds L memx map allocs) {a : Alloc} (ha : a ∈ allocs)
    (hc : (a.run L memx).Covers i) : map i = (a.run L memx).len := by
  obtain ⟨R, hR, hm⟩ := h.marks
  exact hm.covered _ (by rw [hR]; exact List.mem_map_of_mem ha) i hc

/-- Allocations at different addresses are apart. -/
theorem apart_of_ne (h : Holds L memx map allocs) {a b : Alloc} (ha : a ∈ allocs) (hb : b ∈ allocs)
    (hne : b.ptr ≠ a.ptr) : (b.run L memx).Apart (a.run L memx) := by
  obtain ⟨R, hR, -⟩ := h.marks
  have h1 := h.ptr_eq a ha
  have h2 := h.ptr_eq b hb
  refine R.apart_of_ne ?_ ?_ fun heq => hne (by rw [h1, h2, heq])
  · rw [hR]
    exact List.mem_map_of_mem ha
  · rw [hR]
    exact List.mem_map_of_mem hb

/-- The allocation of a cell is the only one. -/
theorem run_eq (h : Holds L memx map allocs) {a b : Alloc} (ha : a ∈ allocs) (hb : b ∈ allocs)
    (hca : (a.run L memx).Covers i) (hcb : (b.run L memx).Covers i) :
    b.run L memx = a.run L memx := by
  obtain ⟨R, hR, -⟩ := h.marks
  have hra : a.run L memx ∈ R.runs := hR ▸ List.mem_map_of_mem ha
  have hrb : b.run L memx ∈ R.runs := hR ▸ List.mem_map_of_mem hb
  refine RunSet.eq_of_start hra hrb ?_
  by_contra hne
  exact (RunSet.apart_of_ne hra hrb hne).not_covers hcb hca

end Holds

/-- The number read from a cell of an allocation is its length. -/
theorem clearedRun_eq (h : Holds L memx (s.dev.memmap memx) (s.live memx)) {a : Alloc}
    (ha : a ∈ s.live memx) (hc : (a.run L memx).Covers (offset / 64)) :
    s.dev.clearedRun memx offset = ⟨offset / 64, (a.run L memx).len⟩ := by
  obtain ⟨-, hin, -⟩ := h.at_ptr ha
  have htbl := memtblsize_le memx
  rw [MallcoDev.clearedRun, h.covered ha hc, s32_id (by omega) (by omega), Int.toNat_natCast]

/-! ## When one allocation is cleared -/

/-- **A call at the first block of an allocation clears it, a call at a free block does nothing.** -/
theorem freeOk_of_firstBlock (h : Inv L s) (hr : s.dev.memrdy memx = true)
    (ho : offset < memsize memx) (hfirst : FirstBlock L s memx offset) :
    FreeOk L s memx offset := by
  have hholds := (h memx).1 hr
  have hfree := myMemFree_accepted hr ho
  rcases hfirst with h0 | ⟨a, ha, hstart⟩
  · have hrun : s.dev.clearedRun memx offset = ⟨offset / 64, 0⟩ := by
      rw [MallcoDev.clearedRun, h0]
      rfl
    refine ⟨.inl ?_, ?_⟩
    · rw [hfree, hrun]
      exact Function.update_eq_self _ _
    · rw [hrun]
      exact Nat.le_of_lt (index_lt ho)
  · obtain ⟨hpos, hin, hcell⟩ := hholds.at_ptr ha
    have hrun : s.dev.clearedRun memx offset = a.run L memx := by
      rw [clearedRun_eq hholds ha ⟨by omega, by omega⟩, ← hstart]
    refine ⟨.inr ⟨a, ha, fun q i => ?_, fun b hb hne => ?_⟩, by rw [hrun]; exact hin⟩
    · rw [hfree, hrun]
      refine ⟨?_, fun hout => ?_⟩
      · rintro ⟨rfl, hc⟩
        rw [marked_memmap_self, RunSet.fill_eq _ _ _ _ hc]
      · by_cases hq : q = memx
        · subst hq
          rw [marked_memmap_self, RunSet.fill_ne _ _ _ _ fun hc => hout ⟨rfl, hc⟩]
        · rw [marked_memmap_ne hq]
    · rw [hrun]
      exact (hholds.apart_of_ne ha hb hne).symm

/-- **A call at a later block clears the wrong cells**: the first ones of the allocation stay. -/
theorem firstBlock_of_freeOk (h : Inv L s) (hr : s.dev.memrdy memx = true)
    (ho : offset < memsize memx) (hok : FreeOk L s memx offset) : FirstBlock L s memx offset := by
  have hholds := (h memx).1 hr
  by_contra hnot
  obtain ⟨hused, hlater⟩ := not_or.mp hnot
  obtain ⟨a, ha, hc, hlen⟩ := hholds.of_used (index_lt ho) hused
  have hrun := clearedRun_eq hholds ha hc
  have hstart : (a.run L memx).start < offset / 64 :=
    Nat.lt_of_le_of_ne hc.1 fun heq => hlater ⟨a, ha, heq⟩
  have hpos : 0 < (a.run L memx).len := (hholds.at_ptr ha).1
  have hcleared : (myMemFree memx offset s.dev).1.memmap memx (offset / 64) = 0 := by
    rw [myMemFree_accepted hr ho, hrun, marked_memmap_self]
    exact RunSet.fill_eq _ ⟨offset / 64, (a.run L memx).len⟩ _ _
      ⟨Nat.le_refl _, Nat.lt_add_of_pos_right hpos⟩
  have hkept : (myMemFree memx offset s.dev).1.memmap memx (a.run L memx).start =
      (a.run L memx).len := by
    rw [myMemFree_accepted hr ho, hrun, marked_memmap_self,
      RunSet.fill_ne _ ⟨offset / 64, (a.run L memx).len⟩ _ _ fun hcov => ?_]
    · exact (hholds.at_ptr ha).2.2
    · exact absurd hcov.1 (Nat.not_le_of_lt hstart)
  rcases hok.one with hsame | ⟨b, hb, hcells, -⟩
  · rw [hsame] at hcleared
    exact hused hcleared
  · -- the one allocation has to be the one of the cell, but its first cell is not cleared
    have hcb : (b.run L memx).Covers (offset / 64) := by
      by_contra hcb
      rw [(hcells memx (offset / 64)).2 fun hand => hcb hand.2] at hcleared
      exact hused hcleared
    have heq := hholds.run_eq ha hb hc hcb
    have hzero := (hcells memx (a.run L memx).start).1
      ⟨rfl, by rw [heq]; exact ⟨Nat.le_refl _, Nat.lt_add_of_pos_right hpos⟩⟩
    omega

theorem freeOk_iff (h : Inv L s) (hr : s.dev.memrdy memx = true) (ho : offset < memsize memx) :
    FreeOk L s memx offset ↔ FirstBlock L s memx offset :=
  ⟨firstBlock_of_freeOk h hr ho, freeOk_of_firstBlock h hr ho⟩

/--
**In every state which valid calls lead to, a call of `my_mem_free` with an offset it accepts leaves the
tables alone or clears one live allocation if and only if** the block of the offset is free or the first
of an allocation.
-/
theorem myMemFree_clears_one_iff (h : Reachable L s) (hr : s.dev.memrdy memx = true)
    (ho : offset < memsize memx) :
    (myMemFree memx offset s.dev).2 = 0 ∧
      (FreeOk L s memx offset ↔ FirstBlock L s memx offset) :=
  ⟨by rw [myMemFree_accepted hr ho], freeOk_iff h.inv hr ho⟩

/-- Two allocations of 128 bytes in `SRAMIN`, at the blocks 958 and 956. -/
def twoAllocs : Session :=
  (session exampleLayout).run (Session.start (fun _ _ => 0) (fun _ => 0) [.sramin])
    [.mymalloc .sramin 128, .mymalloc .sramin 128]

theorem reachable_twoAllocs : Reachable exampleLayout twoAllocs :=
  ⟨_, _, _, _, rfl, by decide +kernel⟩

theorem myMemFree_clears_one_iff_twoAllocs :
    (myMemFree .sramin (956 * 64) twoAllocs.dev).2 = 0 ∧
      (FreeOk exampleLayout twoAllocs .sramin (956 * 64) ↔
        FirstBlock exampleLayout twoAllocs .sramin (956 * 64)) :=
  myMemFree_clears_one_iff reachable_twoAllocs (by decide +kernel) (by decide)

/-- The second block of the lower allocation: the upper one loses its first cell. The second block of the
upper one: a cell behind the table is cleared. -/
theorem not_freeOk_twoAllocs :
    Reachable exampleLayout twoAllocs ∧ twoAllocs.dev.memrdy .sramin = true ∧
      (957 * 64 < memsize .sramin ∧ ¬FreeOk exampleLayout twoAllocs .sramin (957 * 64) ∧
        twoAllocs.dev.memmap .sramin 958 = 2 ∧
          (myMemFree .sramin (957 * 64) twoAllocs.dev).1.memmap .sramin 958 = 0) ∧
      959 * 64 < memsize .sramin ∧ ¬FreeOk exampleLayout twoAllocs .sramin (959 * 64) ∧
        (twoAllocs.dev.clearedRun .sramin (959 * 64)).Covers (memtblsize .sramin) := by
  have hinv := reachable_twoAllocs.inv
  have hr : twoAllocs.dev.memrdy .sramin = true := by decide +kernel
  refine ⟨reachable_twoAllocs, hr, ⟨by decide, ?_, by decide +kernel, by decide +kernel⟩, by decide,
    ?_, by decide +kernel, by decide +kernel⟩
  · rw [freeOk_iff hinv hr (by decide)]
    rintro (h | ⟨a, ha, hstart⟩)
    · exact absurd h (by decide +kernel)
    · have hall : ∀ a ∈ twoAllocs.live .sramin, (a.run exampleLayout .sramin).start ≠ 957 := by
        decide +kernel
      exact hall a ha hstart
  · intro h
    exact absurd h.inTable (by decide +kernel)

end PlcFirmware.Malloc
