import Mathlib.Data.List.Range
import Mathlib.Data.List.Perm.Subperm
import PlcFirmware.Flash.WriteDate
import PlcFirmware.Infra.While

/-!
# `STMFLASH_Write`

The function goes over the range first and erases the sector of every word which is not blank, then it
programs the words. A round of the first loop which erases does not go on to the next word: that word is
read again. The loop ends because a sector which is erased has no word left which is not blank, so no
sector is erased twice.

The cache is not modelled, and the calls of `FLASH_WaitForLastOperation` inside the first loop, whose
result nobody reads.

* `scanLoop_ends` — the first loop ends, with what it has erased
* `programLoop_ends` — the second loop ends, with what it has written
* `stmflashWrite_spec` — both together
-/

namespace PlcFirmware.Flash

open Infra

/-- `STMFLASH_ReadWord` -/
def stmflashReadWord (f : Image) (faddr : Nat) : Nat := wordAt f faddr

/-- The variables of `STMFLASH_Write`, the flash, and the HAL calls made so far. `left` is set by a
`break`. -/
structure Writing where
  flash : Image
  addrx : Nat
  writeAddr : Nat
  p : Nat
  calls : Nat
  ops : List FlashOp
  left : Bool

/-- A HAL call which erases or programs. -/
def Writing.call (s : Writing) (op : FlashOp) : Writing :=
  { s with flash := op.apply s.flash, calls := s.calls + 1, ops := s.ops ++ [op] }

section Loops

variable (pBuffer : Nat → UInt32) (hal : Nat → HalStatus) (endaddr : Nat)

/-- `while(addrx<endaddr)` -/
def scanLoop : While Writing where
  cond s := !s.left && decide (s.addrx < endaddr)
  body s :=
    if stmflashReadWord s.flash s.addrx ≠ 0xFFFFFFFF then
      let op := FlashOp.erase (stmflashGetFlashSector s.addrx) (hal s.calls)
      if hal s.calls ≠ .ok then { s.call op with left := true } else s.call op
    else { s with addrx := addrAdd s.addrx 4 }

/-- `while(WriteAddr<endaddr)` -/
def programLoop : While Writing where
  cond s := !s.left && decide (s.writeAddr < endaddr)
  body s :=
    let op := FlashOp.program .word s.writeAddr (pBuffer s.p).toNat (hal s.calls)
    if hal s.calls ≠ .ok then { s.call op with left := true }
    else { s.call op with writeAddr := addrAdd s.writeAddr 4, p := s.p + 1 }

/-- `STMFLASH_Write`, started before HAL call `calls` with the flash `f`, ends in `u`. `wait` is what
the last `FLASH_WaitForLastOperation` returns. -/
def StmflashWriteEnds (wait : HalStatus) (writeAddr numToWrite calls : Nat) (f : Image)
    (u : Writing) : Prop :=
  let start : Writing := ⟨f, writeAddr, writeAddr, 0, calls, [], false⟩
  if writeAddr < stm32FlashBase ∨ writeAddr % 4 ≠ 0 then u = start
  else
    let endaddr := addrAdd writeAddr (numToWrite * 4)
    ∃ s t : Writing,
      (if writeAddr < 0x1FF00000 then
        (scanLoop hal endaddr).Ends { start with ops := [.unlock] } s
      else s = { start with ops := [.unlock] }) ∧
      (if wait = .ok then
        (programLoop pBuffer hal endaddr).Ends { s with left := false } t
      else t = s) ∧
      u = { t with ops := t.ops ++ [.lock] }

end Loops

/-! ## Words and sectors -/

variable {f g : Image} {a : Nat}

/-- **A word is blank if its bytes are.** -/
theorem wordAt_blank_iff : wordAt f a = 0xFFFFFFFF ↔ ∀ i < 4, f (a + i) = 0xFF := by
  have hbyte : ∀ x, f x = 0xFF ↔ (f x).toNat = 255 := fun x => UInt8.toNat_inj.symm
  constructor
  · intro h i hi
    have h0 := (f a).toNat_lt
    have h1 := (f (a + 1)).toNat_lt
    have h2 := (f (a + 2)).toNat_lt
    have h3 := (f (a + 3)).toNat_lt
    unfold wordAt at h
    rw [hbyte]
    rcases i with _ | _ | _ | _ | i
    · rw [Nat.add_zero]
      omega
    · rw [Nat.zero_add]
      omega
    · rw [show 0 + 1 + 1 = 2 from rfl]
      omega
    · rw [show 0 + 1 + 1 + 1 = 3 from rfl]
      omega
    · omega
  · intro h
    have h0 := h 0 (by decide)
    rw [Nat.add_zero] at h0
    rw [wordAt, h0, h 1 (by decide), h 2 (by decide), h 3 (by decide)]
    rfl

/-- A word is put together from its bytes. -/
theorem wordAt_of_bytes {v : Nat} (hv : v < 4294967296) (h : ∀ i < 4, f (a + i) = byteAt v i) :
    wordAt f a = v := by
  have h0 := h 0 (by decide)
  rw [Nat.add_zero] at h0
  rw [wordAt, h0, h 1 (by decide), h 2 (by decide), h 3 (by decide)]
  simp only [byteAt, UInt8.toNat_ofNat']
  omega

theorem image_wordAt_congr (h : ∀ i < 4, f (a + i) = g (a + i)) : wordAt f a = wordAt g a := by
  have h0 := h 0 (by decide)
  rw [Nat.add_zero] at h0
  rw [wordAt, h0, h 1 (by decide), h 2 (by decide), h 3 (by decide)]
  rfl

/-- **An aligned word is in one sector.** -/
theorem inSector_word {s i : Nat} (halign : a % 4 = 0) (hi : i < 4) :
    InSector s (a + i) ↔ InSector s a := by
  have hlt : ∀ b, b % 4 = 0 → (a + i < b ↔ a < b) := fun b hb => by omega
  have hsector : stmflashGetFlashSector (a + i) = stmflashGetFlashSector a := by
    simp only [stmflashGetFlashSector, hlt _ (show addrFlashSector1 % 4 = 0 from rfl),
      hlt _ (show addrFlashSector2 % 4 = 0 from rfl), hlt _ (show addrFlashSector3 % 4 = 0 from rfl),
      hlt _ (show addrFlashSector4 % 4 = 0 from rfl), hlt _ (show addrFlashSector5 % 4 = 0 from rfl),
      hlt _ (show addrFlashSector6 % 4 = 0 from rfl), hlt _ (show addrFlashSector7 % 4 = 0 from rfl),
      hlt _ (show addrFlashSector8 % 4 = 0 from rfl), hlt _ (show addrFlashSector9 % 4 = 0 from rfl),
      hlt _ (show addrFlashSector10 % 4 = 0 from rfl),
      hlt _ (show addrFlashSector11 % 4 = 0 from rfl)]
  have hbase : stm32FlashBase ≤ a + i ↔ stm32FlashBase ≤ a := by
    unfold stm32FlashBase
    omega
  rw [InSector, InSector, hsector, hbase, hlt flashEnd rfl]

theorem ite_lt {c : Prop} [Decidable c] {x y n : Nat} (hx : x < n) (hy : y < n) :
    (if c then x else y) < n := by
  split
  · exact hx
  · exact hy

theorem stmflashGetFlashSector_lt (addr : Nat) : stmflashGetFlashSector addr < 12 := by
  unfold stmflashGetFlashSector
  repeat' apply ite_lt
  all_goals decide

/-! ## The first loop -/

/-- The sectors which the calls have erased. -/
def erased (ops : List FlashOp) : List Nat :=
  ops.filterMap fun
    | .erase sector .ok => some sector
    | _ => none

@[simp] theorem erased_append_erase (ops : List FlashOp) (sector : Nat) :
    erased (ops ++ [.erase sector .ok]) = erased ops ++ [sector] := by
  simp [erased]

@[simp] theorem erased_append_program (ops : List FlashOp) (type : ProgramType) (addr data : Nat)
    (status : HalStatus) : erased (ops ++ [.program type addr data status]) = erased ops := by
  simp [erased]

@[simp] theorem erased_append_lock (ops : List FlashOp) : erased (ops ++ [.lock]) = erased ops := by
  simp [erased]

/-- The flash after the sectors have been erased. -/
def afterErase (f : Image) (sectors : List Nat) : Image := fun a =>
  if ∃ s ∈ sectors, InSector s a then 0xFF else f a

theorem afterErase_append (f : Image) (sectors : List Nat) (s a : Nat) :
    afterErase f (sectors ++ [s]) a = if InSector s a then 0xFF else afterErase f sectors a := by
  unfold afterErase
  by_cases hs : InSector s a
  · rw [if_pos hs, if_pos ⟨s, List.mem_append_right _ (List.mem_singleton_self s), hs⟩]
  · rw [if_neg hs]
    have hiff : (∃ x ∈ sectors ++ [s], InSector x a) ↔ ∃ x ∈ sectors, InSector x a := by
      constructor
      · rintro ⟨x, hx, hin⟩
        rcases List.mem_append.mp hx with hx | hx
        · exact ⟨x, hx, hin⟩
        · rw [List.mem_singleton.mp hx] at hin
          exact absurd hin hs
      · rintro ⟨x, hx, hin⟩
        exact ⟨x, List.mem_append_left _ hx, hin⟩
    simp only [hiff]

theorem wordAt_afterErase (f : Image) (sectors : List Nat) (halign : a % 4 = 0) :
    wordAt (afterErase f sectors) a =
      if ∃ s ∈ sectors, InSector s a then 0xFFFFFFFF else wordAt f a := by
  by_cases h : ∃ s ∈ sectors, InSector s a
  · rw [if_pos h, wordAt_blank_iff]
    obtain ⟨s, hs, hin⟩ := h
    exact fun i hi => if_pos ⟨s, hs, (inSector_word halign hi).mpr hin⟩
  · rw [if_neg h]
    refine image_wordAt_congr fun i hi => if_neg ?_
    rintro ⟨s, hs, hin⟩
    exact h ⟨s, hs, (inSector_word halign hi).mp hin⟩

/-- The range to be written. -/
structure Range (w e : Nat) : Prop where
  aligned : w % 4 = 0
  aligned_end : e % 4 = 0
  base : stm32FlashBase ≤ w
  inFlash : e ≤ flashEnd

/-- A word of the range which is not blank. -/
structure Dirty (f : Image) (w e a : Nat) : Prop where
  ge : w ≤ a
  lt : a < e
  aligned : a % 4 = 0
  dirty : wordAt f a ≠ 0xFFFFFFFF

theorem Range.inSector {w e : Nat} (h : Range w e) (hge : w ≤ a) (hlt : a < e) :
    InSector (stmflashGetFlashSector a) a :=
  ⟨Nat.le_trans h.base hge, Nat.lt_of_lt_of_le hlt h.inFlash, rfl⟩

/-- What holds in every round of the first loop. -/
structure Scanning (f : Image) (w e : Nat) (s : Writing) : Prop where
  left : s.left = false
  ge : w ≤ s.addrx
  le : s.addrx ≤ e
  aligned : s.addrx % 4 = 0
  writeAddr : s.writeAddr = w
  p : s.p = 0
  flash : s.flash = afterErase f (erased s.ops)
  nodup : (erased s.ops).Nodup
  dirty : ∀ x ∈ erased s.ops, ∃ a, Dirty f w e a ∧ stmflashGetFlashSector a = x
  blank : ∀ a, w ≤ a → a < s.addrx → a % 4 = 0 → wordAt s.flash a = 0xFFFFFFFF

variable {hal : Nat → HalStatus} {w e : Nat} {s : Writing}

/-- No more sectors are erased than there are. -/
theorem Scanning.length_le (h : Scanning f w e s) : (erased s.ops).length ≤ 12 := by
  have hsub : erased s.ops ⊆ List.range 12 := by
    intro x hx
    obtain ⟨a, -, rfl⟩ := h.dirty x hx
    exact List.mem_range.mpr (stmflashGetFlashSector_lt a)
  have hle := (h.nodup.subperm hsub).length_le
  rwa [List.length_range] at hle

/-- **A round at a word which is not blank erases a sector which has not been erased yet.** -/
theorem Scanning.erase (h : Scanning f w e s) (hr : Range w e) (hlt : s.addrx < e)
    (hdirty : wordAt s.flash s.addrx ≠ 0xFFFFFFFF) :
    Scanning f w e (s.call (.erase (stmflashGetFlashSector s.addrx) .ok)) := by
  have hin := hr.inSector h.ge hlt
  have hword := wordAt_afterErase f (erased s.ops) h.aligned
  rw [← h.flash] at hword
  have hnone : ¬∃ x ∈ erased s.ops, InSector x s.addrx := fun hex =>
    hdirty (hword.trans (if_pos hex))
  have hnew : stmflashGetFlashSector s.addrx ∉ erased s.ops := fun hmem => hnone ⟨_, hmem, hin⟩
  rw [if_neg hnone] at hword
  have hflash : ∀ a, (s.call (.erase (stmflashGetFlashSector s.addrx) .ok)).flash a =
      if InSector (stmflashGetFlashSector s.addrx) a then 0xFF else s.flash a := fun _ => rfl
  refine ⟨h.left, h.ge, h.le, h.aligned, h.writeAddr, h.p, ?_, ?_, ?_, ?_⟩
  · funext a
    rw [hflash, h.flash]
    simp only [Writing.call, erased_append_erase, afterErase_append]
  · simp only [Writing.call, erased_append_erase]
    exact List.nodup_append.mpr ⟨h.nodup, List.pairwise_singleton _ _, fun x hx y hy => by
      rw [List.mem_singleton.mp hy]
      exact fun heq => hnew (heq ▸ hx)⟩
  · intro x hx
    simp only [Writing.call, erased_append_erase] at hx
    rcases List.mem_append.mp hx with hx | hx
    · exact h.dirty x hx
    · refine ⟨s.addrx, ⟨h.ge, hlt, h.aligned, hword ▸ hdirty⟩, (List.mem_singleton.mp hx).symm⟩
  · -- what is blank stays blank
    intro a hge hlt halign
    have hblank := wordAt_blank_iff.mp (h.blank a hge hlt halign)
    refine wordAt_blank_iff.mpr fun i hi => ?_
    rw [hflash, hblank i hi, ite_self]

/-- **A round at a blank word goes on to the next.** -/
theorem Scanning.next (h : Scanning f w e s) (hr : Range w e) (hlt : s.addrx < e)
    (hblank : wordAt s.flash s.addrx = 0xFFFFFFFF) :
    Scanning f w e { s with addrx := addrAdd s.addrx 4 } := by
  have hge := h.ge
  have halign := h.aligned
  have hend := hr.aligned_end
  have hfl := hr.inFlash
  have hadd : addrAdd s.addrx 4 = s.addrx + 4 := addrAdd_of_lt (by unfold flashEnd at hfl; omega)
  rw [hadd]
  refine ⟨h.left, by simp only; omega, by simp only; omega, by simp only; omega, h.writeAddr, h.p,
    h.flash, h.nodup, h.dirty, fun a hwa halt ha => ?_⟩
  simp only at halt
  rcases Nat.lt_or_ge a s.addrx with hbefore | hat
  · exact h.blank a hwa hbefore ha
  · rw [show a = s.addrx by omega]
    exact hblank

/-- What the first loop lowers: sectors come before words. -/
def scanMeasure (e : Nat) (s : Writing) : Nat :=
  (12 - (erased s.ops).length) * (e + 1) + (e - s.addrx)

theorem scan_round (hal_ok : ∀ k, hal k = .ok) (hr : Range w e) (h : Scanning f w e s)
    (hcond : (scanLoop hal e).cond s = true) :
    Scanning f w e ((scanLoop hal e).body s) ∧
      scanMeasure e ((scanLoop hal e).body s) < scanMeasure e s := by
  simp only [scanLoop, h.left, Bool.not_false, Bool.true_and, decide_eq_true_eq] at hcond
  by_cases hdirty : wordAt s.flash s.addrx ≠ 0xFFFFFFFF
  · have hbody : (scanLoop hal e).body s =
        s.call (.erase (stmflashGetFlashSector s.addrx) .ok) := by
      simp only [scanLoop, stmflashReadWord, if_pos hdirty, hal_ok, ne_eq, not_true_eq_false,
        if_false]
    have hnext := h.erase hr hcond hdirty
    have hlength := hnext.length_le
    rw [hbody]
    refine ⟨hnext, ?_⟩
    simp only [scanMeasure, Writing.call, erased_append_erase, List.length_append,
      List.length_singleton] at hlength ⊢
    rw [show 12 - (erased s.ops).length = 12 - ((erased s.ops).length + 1) + 1 by omega,
      Nat.succ_mul]
    omega
  · have hbody : (scanLoop hal e).body s = { s with addrx := addrAdd s.addrx 4 } := by
      simp only [scanLoop, stmflashReadWord, if_neg hdirty]
    have hnext := h.next hr hcond (not_not.mp hdirty)
    have hle := hnext.le
    have hadd : s.addrx < addrAdd s.addrx 4 := by
      have hfl := hr.inFlash
      unfold flashEnd at hfl
      rw [addrAdd_of_lt (by omega)]
      omega
    rw [hbody]
    refine ⟨hnext, Nat.add_lt_add_left ?_ _⟩
    simp only at hle ⊢
    omega

/-- **The first loop ends. Every word of the range is blank then, and a sector has been erased exactly if
one was not.** -/
theorem scanLoop_ends (hal_ok : ∀ k, hal k = .ok) (hr : Range w e) (h : Scanning f w e s) :
    ∃ t, (scanLoop hal e).Ends s t ∧ Scanning f w e t ∧ t.addrx = e ∧
      ∀ x, x ∈ erased t.ops ↔ ∃ a, Dirty f w e a ∧ stmflashGetFlashSector a = x := by
  obtain ⟨t, hends, ht, hstop⟩ := While.ends_of_measure (L := scanLoop hal e) (scanMeasure e)
    (fun s hs hc => scan_round hal_ok hr hs hc) h
  have heq : t.addrx = e := by
    have hle := ht.le
    simp only [scanLoop, ht.left, Bool.not_false, Bool.true_and, decide_eq_false_iff_not] at hstop
    omega
  refine ⟨t, hends, ht, heq, fun x => ⟨ht.dirty x, ?_⟩⟩
  rintro ⟨a, hd, rfl⟩
  -- the word is blank now, so its sector has been erased
  have hblank := ht.blank a hd.ge (heq ▸ hd.lt) hd.aligned
  rw [ht.flash, wordAt_afterErase f _ hd.aligned] at hblank
  split at hblank
  · next hex =>
    obtain ⟨x, hx, -, -, hsec⟩ := hex
    exact hsec ▸ hx
  · exact absurd hblank hd.dirty

/-! ## The second loop -/

variable {pBuffer : Nat → UInt32}

/-- What holds in every round of the second loop, with the flash `g` before it. -/
structure Programming (pBuffer : Nat → UInt32) (g : Image) (es : List Nat) (w e : Nat)
    (s : Writing) : Prop where
  left : s.left = false
  writeAddr : s.writeAddr = w + 4 * s.p
  le : s.writeAddr ≤ e
  erased : erased s.ops = es
  flash : ∀ a, s.flash a = if w ≤ a ∧ a < s.writeAddr then
    byteAt (pBuffer ((a - w) / 4)).toNat ((a - w) % 4) else g a

theorem program_round {es : List Nat} (hal_ok : ∀ k, hal k = .ok) (hr : Range w e)
    (hblank : ∀ a, w ≤ a → a < e → g a = 0xFF) (h : Programming pBuffer g es w e s)
    (hcond : (programLoop pBuffer hal e).cond s = true) :
    Programming pBuffer g es w e ((programLoop pBuffer hal e).body s) ∧
      e - ((programLoop pBuffer hal e).body s).writeAddr < e - s.writeAddr := by
  simp only [programLoop, h.left, Bool.not_false, Bool.true_and, decide_eq_true_eq] at hcond
  have hbody : (programLoop pBuffer hal e).body s =
      { s.call (.program .word s.writeAddr (pBuffer s.p).toNat .ok) with
        writeAddr := addrAdd s.writeAddr 4
        p := s.p + 1 } := by
    simp only [programLoop, hal_ok, ne_eq, not_true_eq_false, if_false]
  have hw := h.writeAddr
  have halign := hr.aligned
  have hend := hr.aligned_end
  have hfl := hr.inFlash
  have hadd : addrAdd s.writeAddr 4 = s.writeAddr + 4 :=
    addrAdd_of_lt (by unfold flashEnd at hfl; omega)
  rw [hbody, hadd]
  refine ⟨⟨h.left, by simp only; omega, by simp only; omega, ?_, fun a => ?_⟩, by simp only; omega⟩
  · simp only [Writing.call, erased_append_program, h.erased]
  · simp only [Writing.call]
    have hwidth : ProgramType.word.width = 4 := rfl
    rw [apply_program_ok, h.flash]
    by_cases hat : s.writeAddr ≤ a ∧ a < s.writeAddr + ProgramType.word.width
    · -- the word which is written: its bytes were blank
      rw [if_pos hat]
      rw [hwidth] at hat
      rw [if_neg (by omega), if_pos (by omega), hblank a (by omega) (by omega), erased_and,
        show (a - w) / 4 = s.p by omega, show (a - w) % 4 = a - s.writeAddr by omega]
    · rw [if_neg hat]
      rw [hwidth] at hat
      by_cases hbefore : w ≤ a ∧ a < s.writeAddr
      · rw [if_pos hbefore, if_pos (by omega)]
      · rw [if_neg hbefore, if_neg (by omega)]

/-- **The second loop ends, with the buffer in the range.** -/
theorem programLoop_ends {es : List Nat} (hal_ok : ∀ k, hal k = .ok) (hr : Range w e)
    (hblank : ∀ a, w ≤ a → a < e → g a = 0xFF) (h : Programming pBuffer g es w e s) :
    ∃ t, (programLoop pBuffer hal e).Ends s t ∧ erased t.ops = es ∧
      ∀ a, t.flash a = if w ≤ a ∧ a < e then
        byteAt (pBuffer ((a - w) / 4)).toNat ((a - w) % 4) else g a := by
  obtain ⟨t, hends, ht, hstop⟩ := While.ends_of_measure (L := programLoop pBuffer hal e)
    (fun s => e - s.writeAddr) (fun s hs hc => program_round hal_ok hr hblank hs hc) h
  have heq : t.writeAddr = e := by
    have hle := ht.le
    simp only [programLoop, ht.left, Bool.not_false, Bool.true_and, decide_eq_false_iff_not] at hstop
    omega
  exact ⟨t, hends, ht.erased, heq ▸ ht.flash⟩

/-! ## The function -/

/-- What `STMFLASH_Write` leaves, with the flash `f` before it. -/
structure Written (pBuffer : Nat → UInt32) (writeAddr numToWrite : Nat) (f : Image) (u : Writing) :
    Prop where
  words : ∀ i < numToWrite, stmflashReadWord u.flash (writeAddr + 4 * i) = (pBuffer i).toNat
  once : (erased u.ops).Nodup
  sectors : ∀ x, x ∈ erased u.ops ↔ ∃ i < numToWrite,
    stmflashGetFlashSector (writeAddr + 4 * i) = x ∧
      stmflashReadWord f (writeAddr + 4 * i) ≠ 0xFFFFFFFF
  others : ∀ a, a % 4 = 0 → (a < writeAddr ∨ writeAddr + 4 * numToWrite ≤ a) →
    stmflashReadWord u.flash a =
      if ∃ x ∈ erased u.ops, InSector x a then 0xFFFFFFFF else stmflashReadWord f a

theorem dirty_iff {numToWrite : Nat} (halign : w % 4 = 0) (x : Nat) :
    (∃ a, Dirty f w (w + 4 * numToWrite) a ∧ stmflashGetFlashSector a = x) ↔
      ∃ i < numToWrite, stmflashGetFlashSector (w + 4 * i) = x ∧
        stmflashReadWord f (w + 4 * i) ≠ 0xFFFFFFFF := by
  constructor
  · rintro ⟨a, hd, rfl⟩
    obtain ⟨hge, hlt, ha, hdirty⟩ := hd
    have heq : w + 4 * ((a - w) / 4) = a := by omega
    exact ⟨(a - w) / 4, by omega, by rw [heq], by rw [heq]; exact hdirty⟩
  · rintro ⟨i, hi, rfl, hdirty⟩
    exact ⟨w + 4 * i, ⟨by omega, by omega, by omega, hdirty⟩, rfl⟩

/-- Nothing has been read yet. -/
theorem scanning_start (f : Image) (hr : Range w e) (hle : w ≤ e) (calls : Nat) :
    Scanning f w e ⟨f, w, w, 0, calls, [.unlock], false⟩ := by
  refine ⟨rfl, Nat.le_refl _, hle, hr.aligned, rfl, rfl, ?_, .nil, ?_, ?_⟩
  · funext a
    exact (if_neg (by rintro ⟨x, hx, -⟩; cases hx)).symm
  · intro x hx
    cases hx
  · intro a hge hlt _
    exact absurd hlt (Nat.not_lt.mpr hge)

/-- When the first loop has come to the end, the range is blank. -/
theorem Scanning.blank_byte (hs : Scanning f w e s) (hr : Range w e) (heq : s.addrx = e)
    (hge : w ≤ a) (hlt : a < e) : s.flash a = 0xFF := by
  have halign := hr.aligned
  have halign_end := hr.aligned_end
  have hword := hs.blank (a / 4 * 4) (by omega) (by omega) (by omega)
  have hbyte := wordAt_blank_iff.mp hword (a % 4) (by omega)
  rwa [show a / 4 * 4 + a % 4 = a by omega] at hbyte

/-- The second loop begins where the first has left. -/
theorem Scanning.programming (hs : Scanning f w e s) :
    Programming pBuffer s.flash (erased s.ops) w e { s with left := false } := by
  have hle : w ≤ e := hs.ge.trans hs.le
  refine ⟨rfl, by simp only [hs.writeAddr, hs.p]; omega, by simp only [hs.writeAddr]; omega, rfl,
    fun a => ?_⟩
  simp only [hs.writeAddr]
  rw [if_neg (by omega)]

/-- The two loops, one after the other. -/
theorem stmflashWriteEnds_of_loops {calls numToWrite : Nat} {t : Writing}
    (hr : Range w (w + 4 * numToWrite))
    (hscan : (scanLoop hal (w + 4 * numToWrite)).Ends
      ⟨f, w, w, 0, calls, [.unlock], false⟩ s)
    (hprogram : (programLoop pBuffer hal (w + 4 * numToWrite)).Ends { s with left := false } t) :
    StmflashWriteEnds pBuffer hal .ok w numToWrite calls f { t with ops := t.ops ++ [.lock] } := by
  have halign := hr.aligned
  have hbase := hr.base
  have hend := hr.inFlash
  unfold flashEnd at hend
  have hendaddr : addrAdd w (numToWrite * 4) = w + 4 * numToWrite := by
    rw [Nat.mul_comm, addrAdd_of_lt (by omega)]
  unfold StmflashWriteEnds
  rw [if_neg (by omega)]
  refine ⟨s, t, ?_, ?_, rfl⟩
  · rw [if_pos (by omega), hendaddr]
    exact hscan
  · rw [if_pos rfl, hendaddr]
    exact hprogram

/-- What the two loops have left. -/
theorem written_of_loops {numToWrite : Nat} {t : Writing} (halign : w % 4 = 0)
    (hs : Scanning f w (w + 4 * numToWrite) s)
    (hsectors : ∀ x, x ∈ erased s.ops ↔
      ∃ a, Dirty f w (w + 4 * numToWrite) a ∧ stmflashGetFlashSector a = x)
    (herased : erased t.ops = erased s.ops)
    (hflash : ∀ a, t.flash a = if w ≤ a ∧ a < w + 4 * numToWrite then
      byteAt (pBuffer ((a - w) / 4)).toNat ((a - w) % 4) else s.flash a) :
    Written pBuffer w numToWrite f { t with ops := t.ops ++ [.lock] } := by
  refine ⟨fun i hi => ?_, ?_, fun x => ?_, fun a ha hout => ?_⟩
  · refine wordAt_of_bytes (pBuffer i).toNat_lt fun j hj => ?_
    rw [hflash, if_pos (by omega), show (w + 4 * i + j - w) / 4 = i by omega,
      show (w + 4 * i + j - w) % 4 = j by omega]
  · rw [erased_append_lock, herased]
    exact hs.nodup
  · rw [erased_append_lock, herased, hsectors, dirty_iff halign]
  · have hword : wordAt t.flash a = wordAt (afterErase f (erased s.ops)) a := by
      refine image_wordAt_congr fun i hi => ?_
      rw [hflash, if_neg (by omega), hs.flash]
    rw [erased_append_lock, herased]
    exact hword.trans (wordAt_afterErase f _ ha)

/--
**`STMFLASH_Write` ends if the HAL calls succeed**: the range holds the buffer, a sector has been erased,
once, exactly if it held a word of the range which was not blank, and every word outside the range is
blank if its sector was erased and unchanged if not.
-/
theorem stmflashWrite_spec (pBuffer : Nat → UInt32) {hal : Nat → HalStatus}
    (hal_ok : ∀ k, hal k = .ok) (calls : Nat) (f : Image) {writeAddr numToWrite : Nat}
    (halign : writeAddr % 4 = 0) (hbase : stm32FlashBase ≤ writeAddr)
    (hend : writeAddr + 4 * numToWrite ≤ flashEnd) :
    ∃ u, StmflashWriteEnds pBuffer hal .ok writeAddr numToWrite calls f u ∧
      Written pBuffer writeAddr numToWrite f u := by
  have hr : Range writeAddr (writeAddr + 4 * numToWrite) := ⟨halign, by omega, hbase, hend⟩
  obtain ⟨s, hscan, hs, heq, hsectors⟩ :=
    scanLoop_ends hal_ok hr (scanning_start f hr (Nat.le_add_right _ _) calls)
  have hblank : ∀ a, writeAddr ≤ a → a < writeAddr + 4 * numToWrite → s.flash a = 0xFF :=
    fun a hge hlt => hs.blank_byte hr heq hge hlt
  obtain ⟨t, hprogram, herased, hflash⟩ := programLoop_ends hal_ok hr hblank hs.programming
  exact ⟨_, stmflashWriteEnds_of_loops hr hscan hprogram,
    written_of_loops halign hs hsectors herased hflash⟩

/-- Two words across the border of the sectors 4 and 5, in a flash of zeros. -/
theorem stmflashWrite_spec_border :
    ∃ u, StmflashWriteEnds (fun i => UInt32.ofNat i) (fun _ => .ok) .ok 0x0803FFFC 2 0
        (fun _ => 0) u ∧
      Written (fun i => UInt32.ofNat i) 0x0803FFFC 2 (fun _ => 0) u :=
  stmflashWrite_spec (fun i => UInt32.ofNat i) (fun _ => rfl) 0 (fun _ => 0) (by decide) (by decide)
    (by decide)

end PlcFirmware.Flash
