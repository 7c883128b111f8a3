import PlcFirmware.Malloc.Search

/-!
# What the functions do with the tables

One lemma for each function: `my_mem_malloc` fails or marks a free run of the table, and
`my_mem_free` at the start of a run clears it. A function never touches the table of another pool.
-/

namespace PlcFirmware.Malloc

open Infra

variable {L : Layout} {memx q : Pool} {size : UInt32} {d : MallcoDev}

/-- The number of blocks for a request. -/
def blocks (size : Nat) : Nat := (size + 63) / 64

theorem blocks_eq (size : Nat) : (size / 64 + if size % 64 ≠ 0 then 1 else 0) = blocks size := by
  unfold blocks
  split <;> omega

theorem le_blocks (size : Nat) : size ≤ blocks size * 64 := by
  unfold blocks
  omega

theorem blocks_pos {size : Nat} (h : 0 < size) : 0 < blocks size := by
  unfold blocks
  omega

/-! ## `my_mem_init` -/

@[simp] theorem myMemInit_memmap_self (d : MallcoDev) :
    (myMemInit memx d).memmap memx = fill (d.memmap memx) 0 0 (memtblsize memx) := by
  simp [myMemInit]

theorem myMemInit_memmap_ne (h : q ≠ memx) (d : MallcoDev) :
    (myMemInit memx d).memmap q = d.memmap q := by
  simp [myMemInit, h]

theorem myMemInit_memrdy (d : MallcoDev) :
    (myMemInit memx d).memrdy = Function.update d.memrdy memx true := rfl

theorem ready_of_memrdy (h : d.memrdy memx = true) : d.ready memx = d := by
  rw [MallcoDev.ready, if_pos h]

theorem ready_of_not_memrdy (h : d.memrdy memx = false) : d.ready memx = myMemInit memx d := by
  rw [MallcoDev.ready, if_neg (by rw [h]; decide)]

theorem ready_memmap_ne (h : q ≠ memx) (d : MallcoDev) :
    (d.ready memx).memmap q = d.memmap q := by
  cases hr : d.memrdy memx with
  | true => rw [ready_of_memrdy hr]
  | false => rw [ready_of_not_memrdy hr, myMemInit_memmap_ne h]

theorem ready_memrdy (d : MallcoDev) (memx : Pool) :
    (d.ready memx).memrdy = Function.update d.memrdy memx true := by
  cases hr : d.memrdy memx with
  | true => rw [ready_of_memrdy hr, ← hr, Function.update_eq_self]
  | false => rw [ready_of_not_memrdy hr, myMemInit_memrdy]

/-! ## `my_mem_malloc` -/

/-- The table after marking a run. -/
def MallcoDev.marked (d : MallcoDev) (memx : Pool) (r : Run) (v : Nat) : MallcoDev :=
  { d with memmap := Function.update d.memmap memx (fill (d.memmap memx) r.start v r.len) }

@[simp] theorem marked_memmap_self (r : Run) (v : Nat) :
    (d.marked memx r v).memmap memx = fill (d.memmap memx) r.start v r.len := by
  simp [MallcoDev.marked]

theorem marked_memmap_ne (h : q ≠ memx) (r : Run) (v : Nat) :
    (d.marked memx r v).memmap q = d.memmap q := by
  simp [MallcoDev.marked, h]

@[simp] theorem marked_memrdy (r : Run) (v : Nat) : (d.marked memx r v).memrdy = d.memrdy := rfl

/-- **`my_mem_malloc` fails, or marks a run of free cells which is long enough.** -/
theorem myMemMalloc_cases (memx : Pool) (size : UInt32) (d : MallcoDev) :
    myMemMalloc memx size d = (d.ready memx, 0xFFFFFFFF) ∨
    ∃ r : Run, r.len = blocks size.toNat ∧ 0 < r.len ∧ r.start + r.len ≤ memtblsize memx ∧
      (∀ i, r.Covers i → (d.ready memx).memmap memx i = 0) ∧
      myMemMalloc memx size d = ((d.ready memx).marked memx r r.len, r.start * 64) := by
  by_cases h0 : size = 0
  · exact Or.inl (by simp only [myMemMalloc, h0, if_true])
  have hpos : 0 < size.toNat := by
    refine Nat.pos_of_ne_zero fun h => h0 ?_
    exact UInt32.toNat_inj.mp (by simpa using h)
  cases hs : search ((d.ready memx).memmap memx) (blocks size.toNat) (memtblsize memx) 0 with
  | none =>
    exact Or.inl (by simp only [myMemMalloc, if_neg h0, memblksize_eq, blocks_eq, hs])
  | some offset =>
    have hhigh := (search_eq_some_iff _ _ offset (blocks_pos hpos)).mp hs
    have hmalloc : myMemMalloc memx size d =
        ((d.ready memx).marked memx ⟨offset, blocks size.toNat⟩ (blocks size.toNat),
          offset * 64) := by
      simp only [myMemMalloc, if_neg h0, memblksize_eq, blocks_eq, hs]
      rfl
    exact Or.inr ⟨⟨offset, blocks size.toNat⟩, rfl, blocks_pos hpos, hhigh.free.1, hhigh.free.2, hmalloc⟩

/-- `mymalloc` returns `NULL`, or the address of the run which it marks. -/
theorem mymalloc_cases (L : Layout) (memx : Pool) (size : UInt32) (d : MallcoDev) :
    mymalloc L memx size d = (d.ready memx, 0) ∨
    ∃ r : Run, r.len = blocks size.toNat ∧ 0 < r.len ∧ r.start + r.len ≤ memtblsize memx ∧
      (∀ i, r.Covers i → (d.ready memx).memmap memx i = 0) ∧
      mymalloc L memx size d =
        ((d.ready memx).marked memx r r.len, L.membase memx + r.start * 64) := by
  rcases myMemMalloc_cases memx size d with h | ⟨r, h1, h2, h3, h4, h⟩
  · exact Or.inl (by simp only [mymalloc, h, if_true])
  · have hsize := memtblsize_le memx
    have hfits := L.membase_fits memx
    rw [memsize_eq] at hfits
    refine Or.inr ⟨r, h1, h2, h3, h4, ?_⟩
    simp only [mymalloc, h]
    rw [if_neg (by omega), Nat.mod_eq_of_lt (by omega)]

/-! ## `myfree` and `myrealloc` -/

/-- **Freeing the address of a run clears its cells.** -/
theorem myfree_run {r : Run} (hr : d.memrdy memx = true) (hin : r.start + r.len ≤ memtblsize memx)
    (hpos : 0 < r.len) (hlen : d.memmap memx r.start = r.len) :
    myfree L memx (L.membase memx + r.start * 64) d = d.marked memx r 0 := by
  have hsize := memtblsize_le memx
  have hbase := L.membase_pos memx
  have hoff : (u32 ((L.membase memx + r.start * 64 : Nat) - L.membase memx)).toNat =
      r.start * 64 := by
    rw [u32_id (by omega) (by omega)]
    omega
  have hs32 : (s32 (r.len : Int)).toNat = r.len := by
    rw [s32_id (by omega) (by omega)]
    exact Int.toNat_natCast _
  have hidx : r.start * 64 / 64 = r.start := by omega
  rw [myfree, if_neg (by omega), hoff]
  simp only [myMemFree, hr, memsize_eq, memblksize_eq, hidx, hlen, hs32]
  rw [if_neg (by decide), if_pos (by omega)]
  rfl

/-- `myrealloc` returns `NULL`, or the address of a new run to which `size` bytes are copied; the old
address is freed then. -/
theorem myrealloc_cases (L : Layout) (memx : Pool) (ptr : Nat) (size : UInt32) (d : MallcoDev) :
    myrealloc L memx ptr size d = (d.ready memx, 0) ∨
    ∃ r : Run, r.len = blocks size.toNat ∧ 0 < r.len ∧
      r.start + r.len ≤ memtblsize memx ∧
      (∀ i, r.Covers i → (d.ready memx).memmap memx i = 0) ∧
      myrealloc L memx ptr size d =
        (myfree L memx ptr { (d.ready memx).marked memx r r.len with
            mem := mymemcpy d.mem (L.membase memx + r.start * 64) ptr size.toNat },
          L.membase memx + r.start * 64) := by
  rcases myMemMalloc_cases memx size d with h | ⟨r, h1, h2, h3, h4, h⟩
  · exact Or.inl (by simp only [myrealloc, h, if_true])
  · have hsize := memtblsize_le memx
    have hfits := L.membase_fits memx
    rw [memsize_eq] at hfits
    refine Or.inr ⟨r, h1, h2, h3, h4, ?_⟩
    have hmem : (d.ready memx).mem = d.mem := by
      cases hr : d.memrdy memx with
      | true => rw [ready_of_memrdy hr]
      | false => rw [ready_of_not_memrdy hr]; rfl
    simp only [myrealloc, h]
    rw [if_neg (by omega), Nat.mod_eq_of_lt (by omega), ← hmem]
    rfl

end PlcFirmware.Malloc
