import PlcFirmware.Malloc.Free

/-!
# What `myrealloc` keeps

The new block is marked while the old one still is, so the two are apart. The copy is as long as the new
block asks for. Behind the end of the old block it may read what it has just written, but the bytes of
the old block themselves are read before anything is written over them, because nothing is.

* `mymemcpy_out`, `mymemcpy_in` — what a copy leaves alone and what it copies
* `myrealloc_keeps` — the bytes, the cells and the other allocations after `myrealloc`
-/

namespace PlcFirmware.Malloc

open Infra

variable {L : Layout} {memx : Pool} {s : Session} {allocs : List Alloc}

/-! ## `mymemcpy` -/

/-- **Bytes outside the destination stay.** -/
theorem mymemcpy_out (mem : Nat → UInt8) (des src n : Nat) (hfits : des + n ≤ 4294967296) {x : Nat}
    (hx : x < des ∨ des + n ≤ x) : mymemcpy mem des src n x = mem x := by
  induction n generalizing mem des src with
  | zero => rfl
  | succ n ih =>
    rw [mymemcpy]
    cases n with
    | zero => exact Function.update_of_ne (by omega) _ _
    | succ n =>
      rw [Nat.mod_eq_of_lt (show des + 1 < 4294967296 by omega), ih _ _ _ (by omega) (by omega),
        Function.update_of_ne (by omega)]

/-- **A source byte outside the destination arrives.** -/
theorem mymemcpy_in (mem : Nat → UInt8) (des src n : Nat) (hfits : des + n ≤ 4294967296) {i : Nat}
    (hi : i < n) (hsrc : src + i < 4294967296) (hx : src + i < des ∨ des + n ≤ src + i) :
    mymemcpy mem des src n (des + i) = mem (src + i) := by
  induction n generalizing mem des src i with
  | zero => exact absurd hi (Nat.not_lt_zero i)
  | succ n ih =>
    rw [mymemcpy]
    cases n with
    | zero =>
      obtain rfl : i = 0 := by omega
      exact Function.update_self _ _ _
    | succ n =>
      rw [Nat.mod_eq_of_lt (show des + 1 < 4294967296 by omega)]
      cases i with
      | zero =>
        -- the first byte is written, and the others go behind it
        rw [mymemcpy_out _ _ _ _ (by omega) (by omega)]
        exact Function.update_self _ _ _
      | succ i =>
        rw [Nat.mod_eq_of_lt (show src + 1 < 4294967296 by omega),
          show des + (i + 1) = des + 1 + i by omega, show src + (i + 1) = src + 1 + i by omega,
          ih _ _ _ (by omega) (by omega) (by omega) (by omega), Function.update_of_ne (by omega)]

/-! ## Where the bytes of an allocation are -/

/-- No two pools overlap. -/
def Layout.Apart (L : Layout) : Prop :=
  ∀ p q, p ≠ q → L.membase p + memsize p ≤ L.membase q ∨ L.membase q + memsize q ≤ L.membase p

/-- An allocation lies in its pool. -/
theorem Holds.inPool {map : Nat → Nat} (h : Holds L memx map allocs) {a : Alloc} (ha : a ∈ allocs) :
    L.membase memx ≤ a.ptr ∧ a.ptr + blocks a.size * 64 ≤ L.membase memx + memsize memx := by
  have hptr := h.ptr_eq a ha
  have hin : (a.run L memx).start + blocks a.size ≤ memtblsize memx := (h.at_ptr ha).2.1
  have hsize := memsize_eq memx
  omega

/-- Runs which are apart are apart as bytes. -/
theorem bytes_apart {map : Nat → Nat} (h : Holds L memx map allocs) {b : Alloc} (hb : b ∈ allocs)
    {r : Run} (hap : r.Apart (b.run L memx)) :
    L.membase memx + r.start * 64 + r.len * 64 ≤ b.ptr ∨
      b.ptr + blocks b.size * 64 ≤ L.membase memx + r.start * 64 := by
  have hptr := h.ptr_eq b hb
  have hlen : (b.run L memx).len = blocks b.size := rfl
  rcases hap with hap | hap
  · exact .inl (by omega)
  · exact .inr (by omega)

/-! ## The state after `myrealloc` -/

/-- What holds when `myrealloc` has moved the allocation `a` to `q`: `live` are the allocations before
the call, `d` and `e` the states before and after it. -/
structure Moved (L : Layout) (memx : Pool) (live : Pool → List Alloc) (a : Alloc) (size q : Nat)
    (d e : MallcoDev) : Prop where
  copied : ∀ i, i < min (blocks a.size * 64) size → e.mem (q + i) = d.mem (a.ptr + i)
  freed : ∀ i, (a.run L memx).Covers i → e.memmap memx i = 0
  marked : ∀ i, (Alloc.run L memx ⟨q, size⟩).Covers i → e.memmap memx i = blocks size
  holds : Holds L memx (e.memmap memx) (⟨q, size⟩ :: drop (live memx) a.ptr)
  others : ∀ b ∈ live memx, b.ptr ≠ a.ptr →
    (∀ i, (b.run L memx).Covers i → e.memmap memx i = d.memmap memx i) ∧
      ∀ i < blocks b.size * 64, e.mem (b.ptr + i) = d.mem (b.ptr + i)
  cells : ∀ p, p ≠ memx → e.memmap p = d.memmap p
  bytes : L.Apart → ∀ p, p ≠ memx → ∀ b ∈ live p, ∀ i < blocks b.size * 64,
    e.mem (b.ptr + i) = d.mem (b.ptr + i)

/-- **`myrealloc` does nothing, or moves the allocation.** -/
theorem myrealloc_moved {d : MallcoDev} {live : Pool → List Alloc} (h : Inv L ⟨d, live⟩) {a : Alloc}
    (ha : a ∈ live memx) (size : UInt32) :
    myrealloc L memx a.ptr size d = (d, 0) ∨
      (myrealloc L memx a.ptr size d).2 ≠ 0 ∧
        Moved L memx live a size.toNat (myrealloc L memx a.ptr size d).2 d
          (myrealloc L memx a.ptr size d).1 := by
  have hr : d.memrdy memx = true := h.memrdy_of_mem (s := ⟨d, live⟩) ha
  have hholds : Holds L memx (d.memmap memx) (live memx) := (h memx).1 hr
  rcases myrealloc_live hr hholds ha size with he | ⟨r, hlen, hpos, hin, hfree, he⟩
  · exact .inl he
  refine .inr ?_
  rw [he]
  have hbase := L.membase_pos memx
  have hbasefits := L.membase_fits memx
  have hmemsize := memsize_eq memx
  have hsize : size.toNat ≤ r.len * 64 := hlen ▸ le_blocks size.toNat
  have hfits : L.membase memx + r.start * 64 + size.toNat ≤ 4294967296 := by omega
  have hapart : ∀ b ∈ live memx, r.Apart (b.run L memx) := fun b hb => hholds.apart hpos hfree hb
  have hmem : ∀ x, x < L.membase memx + r.start * 64 ∨
      L.membase memx + r.start * 64 + r.len * 64 ≤ x →
      mymemcpy d.mem (L.membase memx + r.start * 64) a.ptr size.toNat x = d.mem x :=
    fun x hx => mymemcpy_out _ _ _ _ hfits (by omega)
  have hrun : Alloc.run L memx ⟨L.membase memx + r.start * 64, size.toNat⟩ = r := by
    unfold Alloc.run
    rw [← hlen, Nat.add_sub_cancel_left, Nat.mul_div_cancel _ (by omega)]
  refine ⟨by omega, ?copied, ?freed, ?marked, ?holds, ?others, ?cells, ?bytes⟩
  case copied =>
    intro i hi
    have hap := bytes_apart hholds ha (hapart a ha)
    have hin := hholds.inPool ha
    exact mymemcpy_in _ _ _ _ hfits (by omega) (by omega) (by omega)
  case freed =>
    intro i hi
    rw [moved_memmap_self, RunSet.fill_eq _ _ _ _ hi]
  case marked =>
    intro i hi
    rw [hrun] at hi
    rw [moved_memmap_self, RunSet.fill_ne _ _ _ _ ((hapart a ha).not_covers hi),
      RunSet.fill_eq _ _ _ _ hi, hlen]
  case holds =>
    rw [moved_memmap_self]
    exact hholds.moved ha hlen hpos hin hfree
  case others =>
    intro b hb hne
    constructor
    · intro i hi
      rw [moved_memmap_self, RunSet.fill_ne _ _ _ _ ((hholds.apart_of_ne ha hb hne).not_covers hi),
        RunSet.fill_ne _ _ _ _ ((hapart b hb).symm.not_covers hi)]
    · intro i hi
      have hap := bytes_apart hholds hb (hapart b hb)
      exact hmem _ (by omega)
  case cells => exact fun p hp => moved_memmap_ne hp _ _ _ _ _
  case bytes =>
    intro hL p hp b hb i hi
    have hrp : d.memrdy p = true := h.memrdy_of_mem (s := ⟨d, live⟩) hb
    have hinp := ((h p).1 hrp).inPool hb
    have hap := hL p memx hp
    exact hmem _ (by omega)

/--
**In every state which valid calls lead to, whatever the memory holds, `myrealloc` of a live allocation
returns `NULL` and changes nothing, or moves the allocation**: its bytes are at the new address as far as
they fit, its cells are free, and all other allocations keep their cells and bytes.
-/
theorem myrealloc_keeps (h : Reachable L s) (mem : Nat → UInt8) {a : Alloc}
    (ha : a ∈ s.live memx) (size : UInt32) :
    let d : MallcoDev := { s.dev with mem := mem }
    ((myrealloc L memx a.ptr size d).2 = 0 → (myrealloc L memx a.ptr size d).1 = d) ∧
      ((myrealloc L memx a.ptr size d).2 ≠ 0 →
        Moved L memx s.live a size.toNat (myrealloc L memx a.ptr size d).2 d
          (myrealloc L memx a.ptr size d).1) := by
  intro d
  have hinv : Inv L ⟨d, s.live⟩ := fun p => h.inv p
  rcases myrealloc_moved hinv ha size with he | ⟨hne, hmoved⟩
  · rw [he]
    exact ⟨fun _ => rfl, fun h => absurd rfl h⟩
  · exact ⟨fun h0 => absurd h0 hne, fun _ => hmoved⟩

/-- The upper one of two allocations of 128 bytes is moved below the lower one and grows. -/
theorem myrealloc_keeps_twoAllocs :
    Moved exampleLayout .sramin twoAllocs.live ⟨0x2002EF80, 128⟩ 200 0x2002EE00
      { twoAllocs.dev with mem := fun x => UInt8.ofNat x }
      (myrealloc exampleLayout .sramin 0x2002EF80 200
        { twoAllocs.dev with mem := fun x => UInt8.ofNat x }).1 := by
  have hq : (myrealloc exampleLayout .sramin 0x2002EF80 200
      { twoAllocs.dev with mem := fun x => UInt8.ofNat x }).2 = 0x2002EE00 := by decide +kernel
  have hlive : (⟨0x2002EF80, 128⟩ : Alloc) ∈ twoAllocs.live .sramin := by
    obtain ⟨⟨ptr, size⟩, ha, rfl, rfl⟩ :
        ∃ a ∈ twoAllocs.live .sramin, a.ptr = 0x2002EF80 ∧ a.size = 128 := by decide +kernel
    exact ha
  have h := (myrealloc_keeps reachable_twoAllocs (fun x => UInt8.ofNat x) hlive 200).2
    (by rw [hq]; exact nofun)
  rw [hq] at h
  exact h

end PlcFirmware.Malloc
