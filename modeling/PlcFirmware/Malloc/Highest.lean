import PlcFirmware.Malloc.Spec

/-!
# The run which `my_mem_malloc` takes

* `myMemMalloc_highest` — what `my_mem_malloc` returns and marks
-/

namespace PlcFirmware.Malloc

open Infra

variable {memx : Pool}

/-- The `u32` arithmetic of `nmemb` does not wrap. -/
theorem nmemb_toNat (size : UInt32) :
    (size / 64 + if size % 64 ≠ 0 then 1 else 0).toNat = blocks size.toNat := by
  have hmod : size % 64 ≠ 0 ↔ size.toNat % 64 ≠ 0 := by
    rw [Ne, ← UInt32.toNat_inj]
    simp
  have hlt := size.toNat_lt
  rw [← blocks_eq, UInt32.toNat_add]
  simp only [hmod]
  split <;> simp <;> omega

/-- What a request for `n` blocks makes of a pool which is ready. -/
structure MallocOk (memx : Pool) (n : Nat) (d : MallcoDev) (r : MallcoDev × Nat) : Prop where
  fails : r.2 = 0xFFFFFFFF ↔ ∀ s : Run, s.len = n → ¬s.Free (d.memmap memx) (memtblsize memx)
  unchanged : r.2 = 0xFFFFFFFF → r.1 = d
  succeeds : r.2 ≠ 0xFFFFFFFF → ∃ s, Run.Highest (d.memmap memx) (memtblsize memx) ⟨s, n⟩ ∧
    r.2 = 64 * s ∧ r.1.memrdy = d.memrdy ∧ r.1.mem = d.mem ∧
      ∀ q i, r.1.memmap q i = if q = memx ∧ s ≤ i ∧ i < s + n then n else d.memmap q i

theorem myMemMalloc_ready_eq (memx : Pool) (size : UInt32) (d : MallcoDev) (hsize : 0 < size) :
    myMemMalloc memx size d =
      match search ((d.ready memx).memmap memx) (blocks size.toNat) (memtblsize memx) 0 with
      | some s => ((d.ready memx).marked memx ⟨s, blocks size.toNat⟩ (blocks size.toNat), s * 64)
      | none => (d.ready memx, 0xFFFFFFFF) := by
  have h0 : size ≠ 0 := by
    rintro rfl
    exact absurd hsize (by decide)
  simp only [myMemMalloc, if_neg h0, memblksize_eq, blocks_eq]
  rfl

theorem myMemMalloc_ok (memx : Pool) (size : UInt32) (d : MallcoDev) (hsize : 0 < size) :
    MallocOk memx (blocks size.toNat) (d.ready memx) (myMemMalloc memx size d) := by
  have hpos : 0 < blocks size.toNat := blocks_pos hsize
  have htbl := memtblsize_le memx
  rw [myMemMalloc_ready_eq memx size d hsize]
  generalize d.ready memx = e
  cases hs : search (e.memmap memx) (blocks size.toNat) (memtblsize memx) 0 with
  | none =>
    have hnone := (search_eq_none_iff _ _ hpos).mp hs
    exact ⟨iff_of_true rfl hnone, fun _ => rfl, fun h => absurd rfl h⟩
  | some s =>
    have hhigh := (search_eq_some_iff _ _ s hpos).mp hs
    have hin : s + blocks size.toNat ≤ memtblsize memx := hhigh.free.1
    have hne : s * 64 ≠ 0xFFFFFFFF := by omega
    refine ⟨iff_of_false hne fun h => h _ rfl hhigh.free, fun h => absurd h hne, fun _ => ?_⟩
    refine ⟨s, hhigh, Nat.mul_comm _ _, rfl, rfl, fun q i => ?_⟩
    by_cases hq : q = memx
    · subst hq
      simp only [marked_memmap_self, fill_apply, true_and]
    · rw [if_neg fun h => hq h.1]
      exact congrFun (marked_memmap_ne hq _ _) i

/--
**`my_mem_malloc` returns `0xFFFFFFFF` and leaves the table alone exactly if no run of `n` cells is
free; otherwise it marks the highest free run, and nothing else.** A pool which is not initialised yet
is initialised first.
-/
theorem myMemMalloc_highest (memx : Pool) (size : UInt32) (d : MallcoDev) (hsize : 0 < size) :
    (d.memrdy memx = true →
        MallocOk memx (blocks size.toNat) d (myMemMalloc memx size d)) ∧
      (d.memrdy memx = false →
        MallocOk memx (blocks size.toNat) (myMemInit memx d) (myMemMalloc memx size d)) := by
  have h := myMemMalloc_ok memx size d hsize
  constructor
  · intro hr
    rw [ready_of_memrdy hr] at h
    exact h
  · intro hr
    rw [ready_of_not_memrdy hr] at h
    exact h

/-- Pools in which the last of 960 cells is in use. -/
def topUsed : MallcoDev := ⟨fun _ i => if i = 959 then 1 else 0, fun _ => true, fun _ => 0⟩

/-- The theorem at a request of 65 bytes. -/
theorem myMemMalloc_highest_topUsed :
    MallocOk .sramin 2 topUsed (myMemMalloc .sramin 65 topUsed) ∧
      (myMemMalloc .sramin 65 topUsed).2 = 64 * 957 :=
  ⟨(myMemMalloc_highest .sramin 65 topUsed (by decide)).1 rfl, by decide +kernel⟩

end PlcFirmware.Malloc
