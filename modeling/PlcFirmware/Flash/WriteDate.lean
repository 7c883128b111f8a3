import PlcFirmware.Flash.Basic

/-!
# `STMFLASH_EraseSector` and `STMFLASH_WriteDate`

`hal k` is the status which call `k` to `HAL_FLASHEx_Erase` or `HAL_FLASH_Program` returns, counted
from the start of the task.

`STMFLASH_WriteDate` writes words while at least four bytes are left and single bytes after that. A
word which fails ends the word loop only, so the byte loop goes on at the same address; a byte which
fails ends the function. The two loops share the counter `number`.

* `stmflashWriteDate_apply` — the flash afterwards
* `stmflashWriteDate_stores` — which bytes are stored by a successful call
* `stmflashWriteDate_ret_iff` — when that is all of them
-/

namespace PlcFirmware.Flash

/-- The HAL calls of a driver function, the value it returns and the count of HAL calls after it. -/
structure Call where
  ops : List FlashOp
  ret : Nat
  calls : Nat

/-- One more HAL call in front. -/
def Call.cons (op : FlashOp) (c : Call) : Call := { c with ops := op :: c.ops }

@[simp] theorem Call.cons_ops (op : FlashOp) (c : Call) : (c.cons op).ops = op :: c.ops := rfl

@[simp] theorem Call.cons_ret (op : FlashOp) (c : Call) : (c.cons op).ret = c.ret := rfl

/-- `STMFLASH_EraseSector`. The status is only printed. -/
def stmflashEraseSector (writeAddr : Nat) (hal : Nat → HalStatus) (calls : Nat) : Call :=
  { ops := [.unlock, .erase (stmflashGetFlashSector writeAddr) (hal calls), .lock]
    ret := 0
    calls := calls + 1 }

/-- Pointer and address arithmetic is modulo `2^32`. -/
def addrAdd (addr n : Nat) : Nat := (addr + n) % 4294967296

section Loops

variable (pBuffer : Nat → UInt8) (hal : Nat → HalStatus)

/--
`while (number)`, the byte loop.

The first argument is the 16-bit pattern of `number`; `number--` is its predecessor, also where the
signed value is negative.
-/
def writeBytes : (number writeAddr p calls : Nat) → Call
  | 0, writeAddr, _, calls => ⟨[], writeAddr, calls⟩
  | number + 1, writeAddr, p, calls =>
    let op := FlashOp.program .byte writeAddr (pBuffer p).toNat (hal calls)
    if hal calls = .ok then (writeBytes number (addrAdd writeAddr 1) (p + 1) (calls + 1)).cons op
    else ⟨[op], writeAddr, calls + 1⟩

/-- The word at `p`, least byte first. -/
def wordAt (p : Nat) : Nat :=
  (pBuffer (p + 3)).toNat * 2 ^ 24 + (pBuffer (p + 2)).toNat * 2 ^ 16
    + (pBuffer (p + 1)).toNat * 2 ^ 8 + (pBuffer p).toNat

/--
`while (number > 3)`, the word loop, and the byte loop after it.

The 16-bit pattern stands for a signed value above 3 when it is in `4 .. 32767`.
-/
def writeWords : (number writeAddr p calls : Nat) → Call
  | number + 4, writeAddr, p, calls =>
    if number + 4 < 32768 then
      let op := FlashOp.program .word writeAddr (wordAt pBuffer p) (hal calls)
      -- a word which fails ends the loop, and its bytes are tried one by one
      if hal calls = .ok then (writeWords number (addrAdd writeAddr 4) (p + 4) (calls + 1)).cons op
      else (writeBytes pBuffer hal (number + 4) writeAddr p (calls + 1)).cons op
    else writeBytes pBuffer hal (number + 4) writeAddr p calls
  | number, writeAddr, p, calls => writeBytes pBuffer hal number writeAddr p calls

/-- `STMFLASH_WriteDate`, with `numToWrite` a 16-bit value. -/
def stmflashWriteDate (writeAddr numToWrite calls : Nat) : Call :=
  let c := writeWords pBuffer hal numToWrite writeAddr 0 calls
  { c with ops := .unlock :: c.ops ++ [.lock] }

/-! ## What the loops do -/

theorem addrAdd_of_lt {addr n : Nat} (h : addr + n < 4294967296) : addrAdd addr n = addr + n :=
  Nat.mod_eq_of_lt h

/--
What the calls of a loop do that starts at `addr` with the `n` bytes from `p` on: the address it
reaches, the bytes it stores and the range of its calls.
-/
structure Writes (n addr p : Nat) (c : Call) : Prop where
  ret_ge : addr ≤ c.ret
  ret_le : c.ret ≤ addr + n
  stores : ∀ a b, (∃ op ∈ c.ops, op.stores a = some b) ↔
    addr ≤ a ∧ a < c.ret ∧ b = pBuffer (p + (a - addr))
  apply : ∀ f a, applyAll f c.ops a =
    if addr ≤ a ∧ a < c.ret then f a &&& pBuffer (p + (a - addr)) else f a
  range : ∀ op ∈ c.ops, ∃ type a data status, op = .program type a data status ∧
    addr ≤ a ∧ a + type.width ≤ addr + n

variable {pBuffer} {hal}

theorem Writes.nil {n addr p : Nat} (calls : Nat) : Writes pBuffer n addr p ⟨[], addr, calls⟩ where
  ret_ge := Nat.le_refl _
  ret_le := Nat.le_add_right _ _
  stores := by intro a b; simp only [List.not_mem_nil, false_and, exists_false, false_iff]; omega
  apply := by intro f a; rw [if_neg (by simp only []; omega)]; rfl
  range := by simp

/-- A call which succeeds stores its bytes; the rest of the loop goes on behind them. -/
theorem Writes.cons_ok {n addr p : Nat} {c : Call} (type : ProgramType) {data : Nat}
    (hdata : ∀ i < type.width, byteAt data i = pBuffer (p + i))
    (hc : Writes pBuffer n (addr + type.width) (p + type.width) c) :
    Writes pBuffer (n + type.width) addr p (c.cons (.program type addr data .ok)) where
  ret_ge := Nat.le_trans (Nat.le_add_right _ _) hc.ret_ge
  ret_le := by have := hc.ret_le; rw [Call.cons_ret]; omega
  stores := by
    intro a b
    have hge := hc.ret_ge
    rw [Call.cons_ops, Call.cons_ret]
    simp only [List.mem_cons, exists_eq_or_imp]
    rw [hc.stores, stores_program_ok]
    -- the cell belongs to this call, or to the rest of the loop
    by_cases hin : addr ≤ a ∧ a < addr + type.width
    · rw [if_pos hin, hdata _ (by omega)]
      constructor
      · rintro (h | h)
        · exact ⟨hin.1, by omega, (Option.some.inj h).symm⟩
        · omega
      · rintro ⟨-, -, rfl⟩
        exact Or.inl rfl
    · rw [if_neg hin]
      constructor
      · rintro (h | ⟨h1, h2, h3⟩)
        · cases h
        · refine ⟨by omega, h2, ?_⟩
          rw [h3, show p + type.width + (a - (addr + type.width)) = p + (a - addr) by omega]
      · rintro ⟨h1, h2, h3⟩
        refine Or.inr ⟨by omega, h2, ?_⟩
        rw [h3, show p + type.width + (a - (addr + type.width)) = p + (a - addr) by omega]
  apply := by
    intro f a
    have hge := hc.ret_ge
    rw [Call.cons_ops, Call.cons_ret, applyAll_cons, hc.apply, apply_program_ok]
    by_cases hin : addr ≤ a ∧ a < addr + type.width
    · rw [if_neg (by omega), if_pos hin, if_pos (by omega), hdata _ (by omega)]
    · rw [if_neg hin]
      by_cases hret : addr + type.width ≤ a ∧ a < c.ret
      · rw [if_pos hret, if_pos (by omega),
          show p + type.width + (a - (addr + type.width)) = p + (a - addr) by omega]
      · rw [if_neg hret, if_neg (by omega)]
  range := by
    intro op hop
    rcases List.mem_cons.mp hop with rfl | hop
    · exact ⟨type, addr, data, .ok, rfl, Nat.le_refl _, by omega⟩
    · obtain ⟨t, a, d, s, rfl, h1, h2⟩ := hc.range op hop
      exact ⟨t, a, d, s, rfl, by omega, by omega⟩

/-- A call which fails stores nothing. -/
theorem Writes.cons_fail {n addr p : Nat} {c : Call} {type : ProgramType} {data : Nat}
    {status : HalStatus} (hs : status ≠ .ok) (hn : type.width ≤ n) (hc : Writes pBuffer n addr p c) :
    Writes pBuffer n addr p (c.cons (.program type addr data status)) where
  ret_ge := hc.ret_ge
  ret_le := hc.ret_le
  stores := by
    intro a b
    rw [Call.cons_ops, Call.cons_ret]
    simp only [List.mem_cons, exists_eq_or_imp, stores_program_fail hs, hc.stores, reduceCtorEq,
      false_or]
  apply := by
    intro f a
    rw [Call.cons_ops, Call.cons_ret, applyAll_cons, apply_program_fail hs, hc.apply]
  range := by
    intro op hop
    rcases List.mem_cons.mp hop with rfl | hop
    · exact ⟨type, addr, data, status, rfl, Nat.le_refl _, by omega⟩
    · exact hc.range op hop

variable (pBuffer) (hal) in
theorem writeBytes_writes (n : Nat) : ∀ (addr p calls : Nat), addr + n < 4294967296 →
    Writes pBuffer n addr p (writeBytes pBuffer hal n addr p calls) := by
  induction n with
  | zero => intro addr p calls _; exact Writes.nil calls
  | succ n ih =>
    intro addr p calls hlt
    simp only [writeBytes]
    by_cases hk : hal calls = .ok
    · rw [if_pos hk, hk, addrAdd_of_lt (by omega)]
      refine Writes.cons_ok .byte ?_ (ih (addr + 1) (p + 1) (calls + 1) (by omega))
      intro i hi
      obtain rfl : i = 0 := by simpa [ProgramType.width] using hi
      exact byteAt_zero _
    · rw [if_neg hk]
      exact (Writes.nil (calls + 1)).cons_fail hk (Nat.le_add_left 1 n)

theorem wordAt_byteAt (p : Nat) : ∀ i < 4, byteAt (wordAt pBuffer p) i = pBuffer (p + i) := by
  intro i hi
  rw [wordAt, byteAt_word _ _ _ _ hi]
  rcases i with _ | _ | _ | _ | i
  · rfl
  · rfl
  · rfl
  · rfl
  · omega

variable (pBuffer) (hal) in
theorem writeWords_writes (n addr p calls : Nat) (hlt : addr + n < 4294967296) :
    Writes pBuffer n addr p (writeWords pBuffer hal n addr p calls) := by
  fun_induction writeWords pBuffer hal n addr p calls with
  | case1 number addr p calls hpos op hk ih =>
    rw [addrAdd_of_lt (by omega)] at ih ⊢
    simp only [op, hk]
    exact Writes.cons_ok .word (wordAt_byteAt p) (ih (by omega))
  | case2 number addr p calls hpos op hk =>
    exact (writeBytes_writes pBuffer hal (number + 4) addr p (calls + 1) hlt).cons_fail hk
      (Nat.le_add_left 4 number)
  | case3 number addr p calls hneg => exact writeBytes_writes pBuffer hal (number + 4) addr p calls hlt
  | case4 number addr p calls hsmall => exact writeBytes_writes pBuffer hal number addr p calls hlt

/-! ## When all bytes are written -/

theorem writeBytes_ret_iff (n : Nat) : ∀ (addr p calls : Nat), addr + n < 4294967296 →
    ((writeBytes pBuffer hal n addr p calls).ret = addr + n ↔
      ∀ i < n, hal (calls + i) = .ok) := by
  induction n with
  | zero => intro addr p calls _; simp [writeBytes]
  | succ n ih =>
    intro addr p calls hlt
    simp only [writeBytes]
    by_cases hk : hal calls = .ok
    · rw [if_pos hk, addrAdd_of_lt (by omega), Call.cons_ret]
      rw [show addr + (n + 1) = addr + 1 + n by omega, ih (addr + 1) (p + 1) (calls + 1) (by omega)]
      constructor
      · intro h i hi
        rcases i with _ | i
        · exact hk
        · rw [show calls + (i + 1) = calls + 1 + i by omega]
          exact h i (by omega)
      · intro h i hi
        rw [show calls + 1 + i = calls + (i + 1) by omega]
        exact h (i + 1) (by omega)
    · rw [if_neg hk]
      constructor
      · intro h; simp at h
      · intro h; exact absurd (h 0 (by omega)) hk

/--
No byte call fails: `w` words are written, and then either the word loop is through and the last
bytes succeed, or word `w` fails and all the bytes left succeed one by one.
-/
def NoByteFails (hal : Nat → HalStatus) (n calls : Nat) : Prop :=
  ∃ w ≤ n / 4, (∀ i < w, hal (calls + i) = .ok) ∧
    ((w = n / 4 ∧ ∀ i < n % 4, hal (calls + w + i) = .ok) ∨
      (w < n / 4 ∧ hal (calls + w) ≠ .ok ∧ ∀ i < n - 4 * w, hal (calls + w + 1 + i) = .ok))

theorem noByteFails_of_lt {n calls : Nat} (hn : n < 4) :
    NoByteFails hal n calls ↔ ∀ i < n, hal (calls + i) = .ok := by
  constructor
  · rintro ⟨w, hw, -, ⟨-, h⟩ | ⟨hlt, -⟩⟩
    · obtain rfl : w = 0 := by omega
      intro i hi
      exact h i (by omega)
    · omega
  · intro h
    exact ⟨0, by omega, by omega, Or.inl ⟨by omega, fun i hi => h i (by omega)⟩⟩

theorem noByteFails_ok {n calls : Nat} (hk : hal calls = .ok) :
    NoByteFails hal (n + 4) calls ↔ NoByteFails hal n (calls + 1) := by
  constructor
  · rintro ⟨w, hw, hall, h⟩
    rcases w with _ | w
    · -- the call at hand succeeds, so it is one of the words
      rcases h with ⟨h0, -⟩ | ⟨-, h0, -⟩
      · omega
      · exact absurd hk h0
    · refine ⟨w, by omega, fun i hi => ?_, ?_⟩
      · rw [show calls + 1 + i = calls + (i + 1) by omega]
        exact hall (i + 1) (by omega)
      · rw [show calls + 1 + w = calls + (w + 1) by omega]
        rcases h with ⟨h1, h2⟩ | ⟨h1, h2, h3⟩
        · exact Or.inl ⟨by omega, fun i hi => h2 i (by omega)⟩
        · exact Or.inr ⟨by omega, h2, fun i hi => h3 i (by omega)⟩
  · rintro ⟨w, hw, hall, h⟩
    refine ⟨w + 1, by omega, fun i hi => ?_, ?_⟩
    · rcases i with _ | i
      · exact hk
      · rw [show calls + (i + 1) = calls + 1 + i by omega]
        exact hall i (by omega)
    · rw [show calls + 1 + w = calls + (w + 1) by omega] at h
      rcases h with ⟨h1, h2⟩ | ⟨h1, h2, h3⟩
      · exact Or.inl ⟨by omega, fun i hi => h2 i (by omega)⟩
      · exact Or.inr ⟨by omega, h2, fun i hi => h3 i (by omega)⟩

theorem noByteFails_fail {n calls : Nat} (hk : hal calls ≠ .ok) :
    NoByteFails hal (n + 4) calls ↔ ∀ i < n + 4, hal (calls + 1 + i) = .ok := by
  constructor
  · rintro ⟨w, hw, hall, h⟩
    obtain rfl : w = 0 := by
      rcases w with _ | w
      · rfl
      · exact absurd (hall 0 (by omega)) hk
    rcases h with ⟨h0, -⟩ | ⟨-, -, h⟩
    · omega
    · intro i hi
      exact h i (by omega)
  · intro h
    exact ⟨0, by omega, by omega, Or.inr ⟨by omega, hk, fun i hi => h i (by omega)⟩⟩

/-- Below `32768` bytes the whole buffer is written just when no byte call fails. -/
theorem writeWords_ret_iff (n addr p calls : Nat) (hn : n < 32768) (hlt : addr + n < 4294967296) :
    (writeWords pBuffer hal n addr p calls).ret = addr + n ↔ NoByteFails hal n calls := by
  fun_induction writeWords pBuffer hal n addr p calls with
  | case1 number addr p calls hpos op hk ih =>
    rw [addrAdd_of_lt (by omega)] at ih ⊢
    rw [noByteFails_ok hk, ← ih (by omega) (by omega), Call.cons_ret]
    rw [show addr + (number + 4) = addr + 4 + number by omega]
  | case2 number addr p calls hpos op hk =>
    rw [noByteFails_fail hk]
    exact writeBytes_ret_iff (number + 4) addr p (calls + 1) hlt
  | case3 number addr p calls hneg => omega
  | case4 number addr p calls hsmall =>
    have hn4 : number < 4 := by
      refine Nat.not_le.mp fun h4 => ?_
      exact hsmall (number - 4) (by omega)
    rw [noByteFails_of_lt hn4]
    exact writeBytes_ret_iff number addr p calls hlt

/-! ## `STMFLASH_WriteDate` -/

variable {writeAddr n calls : Nat}

/-- **The bytes stored are those up to the address returned.** -/
theorem stmflashWriteDate_stores (hlt : writeAddr + n < 4294967296) (a : Nat) (b : UInt8) :
    (∃ op ∈ (stmflashWriteDate pBuffer hal writeAddr n calls).ops, op.stores a = some b) ↔
      writeAddr ≤ a ∧ a < (stmflashWriteDate pBuffer hal writeAddr n calls).ret ∧
        b = pBuffer (a - writeAddr) := by
  have h := (writeWords_writes pBuffer hal n writeAddr 0 calls hlt).stores a b
  rw [Nat.zero_add] at h
  have hun : FlashOp.unlock.stores a = none := rfl
  have hlo : FlashOp.lock.stores a = none := rfl
  simpa [stmflashWriteDate, or_and_right, exists_or, hun, hlo] using h

/-- **The flash afterwards: the data is ANDed in up to the address returned.** -/
theorem stmflashWriteDate_apply (hlt : writeAddr + n < 4294967296) (f : Image) (a : Nat) :
    applyAll f (stmflashWriteDate pBuffer hal writeAddr n calls).ops a =
      if writeAddr ≤ a ∧ a < (stmflashWriteDate pBuffer hal writeAddr n calls).ret then
        f a &&& pBuffer (a - writeAddr)
      else f a := by
  have h := (writeWords_writes pBuffer hal n writeAddr 0 calls hlt).apply f a
  rw [Nat.zero_add] at h
  simp only [stmflashWriteDate, List.cons_append, applyAll_cons, apply_unlock, applyAll_append,
    apply_lock, applyAll_nil]
  exact h

/-- Every program call lies in the range to be written. -/
theorem stmflashWriteDate_range (hlt : writeAddr + n < 4294967296) {op : FlashOp}
    (hop : op ∈ (stmflashWriteDate pBuffer hal writeAddr n calls).ops) :
    op = .unlock ∨ op = .lock ∨ ∃ type a data status, op = .program type a data status ∧
      writeAddr ≤ a ∧ a + type.width ≤ writeAddr + n := by
  simp only [stmflashWriteDate, List.cons_append, List.mem_cons, List.mem_append,
    List.not_mem_nil, or_false] at hop
  rcases hop with rfl | hop | rfl
  · exact Or.inl rfl
  · exact Or.inr (Or.inr ((writeWords_writes pBuffer hal n writeAddr 0 calls hlt).range op hop))
  · exact Or.inr (Or.inl rfl)

theorem writeBytes_first {n p : Nat} (hn : 0 < n) :
    ∃ type data status, FlashOp.program type writeAddr data status ∈
      (writeBytes pBuffer hal n writeAddr p calls).ops := by
  obtain ⟨n, rfl⟩ := Nat.exists_eq_add_of_le' hn
  refine ⟨.byte, (pBuffer p).toNat, hal calls, ?_⟩
  rw [writeBytes]
  by_cases hk : hal calls = .ok
  · rw [if_pos hk]; exact List.mem_cons_self
  · rw [if_neg hk]; exact List.mem_cons_self

variable (pBuffer) (hal) (writeAddr) (calls) in
/-- Where there is something to write, the first program call is at the start address. -/
theorem stmflashWriteDate_first (hn : 0 < n) :
    ∃ type data status, FlashOp.program type writeAddr data status ∈
      (stmflashWriteDate pBuffer hal writeAddr n calls).ops := by
  suffices h : ∀ p, ∃ type data status, FlashOp.program type writeAddr data status ∈
      (writeWords pBuffer hal n writeAddr p calls).ops by
    obtain ⟨type, data, status, h⟩ := h 0
    exact ⟨type, data, status, by simp [stmflashWriteDate, h]⟩
  intro p
  fun_cases writeWords pBuffer hal n writeAddr p calls with
  | case1 => exact ⟨_, _, _, List.mem_cons_self⟩
  | case2 => exact ⟨_, _, _, List.mem_cons_self⟩
  | case3 => exact writeBytes_first hn
  | case4 => exact writeBytes_first hn

/-- **The address returned is the end of the range just when no byte call fails.** -/
theorem stmflashWriteDate_ret_iff (hn : n < 32768) (hlt : writeAddr + n < 4294967296) :
    (stmflashWriteDate pBuffer hal writeAddr n calls).ret = writeAddr + n ↔
      NoByteFails hal n calls :=
  writeWords_ret_iff n writeAddr 0 calls hn hlt

theorem stmflashWriteDate_ret_ge (hlt : writeAddr + n < 4294967296) :
    writeAddr ≤ (stmflashWriteDate pBuffer hal writeAddr n calls).ret :=
  (writeWords_writes pBuffer hal n writeAddr 0 calls hlt).ret_ge

theorem stmflashWriteDate_ret_le (hlt : writeAddr + n < 4294967296) :
    (stmflashWriteDate pBuffer hal writeAddr n calls).ret ≤ writeAddr + n :=
  (writeWords_writes pBuffer hal n writeAddr 0 calls hlt).ret_le

/-! ## What is read of the buffer -/

theorem writeBytes_congr {p q : Nat → UInt8} (n : Nat) : ∀ (addr k calls : Nat),
    (∀ i < n, p (k + i) = q (k + i)) →
    writeBytes p hal n addr k calls = writeBytes q hal n addr k calls := by
  induction n with
  | zero => intro addr k calls _; rfl
  | succ n ih =>
    intro addr k calls h
    have hk : p k = q k := h 0 (by omega)
    have htail := ih (addrAdd addr 1) (k + 1) (calls + 1) fun i hi => by
      rw [show k + 1 + i = k + (i + 1) by omega]
      exact h (i + 1) (by omega)
    simp only [writeBytes, hk, htail]

theorem wordAt_congr {p q : Nat → UInt8} {n k : Nat} (h : ∀ i < n + 4, p (k + i) = q (k + i)) :
    wordAt p k = wordAt q k := by
  unfold wordAt
  rw [h 1 (by omega), h 2 (by omega), h 3 (by omega), show p k = q k from h 0 (by omega)]

theorem writeWords_congr {p q : Nat → UInt8} (n addr k calls : Nat)
    (h : ∀ i < n, p (k + i) = q (k + i)) :
    writeWords p hal n addr k calls = writeWords q hal n addr k calls := by
  fun_induction writeWords p hal n addr k calls with
  | case1 number addr k calls hpos op hk ih =>
    have hw := wordAt_congr h
    rw [writeWords, if_pos hpos, ← hw, if_pos hk, ih fun i hi => by
      rw [show k + 4 + i = k + (i + 4) by omega]
      exact h (i + 4) (by omega)]
  | case2 number addr k calls hpos op hk =>
    have hw := wordAt_congr h
    rw [writeWords, if_pos hpos, ← hw, if_neg hk, writeBytes_congr (number + 4) _ _ _ h]
  | case3 number addr k calls hneg =>
    rw [writeWords, if_neg hneg, writeBytes_congr (number + 4) _ _ _ h]
  | case4 number addr k calls hsmall =>
    rw [writeWords.eq_def]
    split
    · next hn => exact absurd rfl (hsmall _)
    · exact writeBytes_congr number _ _ _ h

/-- Only the bytes to be written are read. -/
theorem stmflashWriteDate_congr {p q : Nat → UInt8} {n : Nat} (h : ∀ i < n, p i = q i)
    (writeAddr calls : Nat) :
    stmflashWriteDate p hal writeAddr n calls = stmflashWriteDate q hal writeAddr n calls := by
  unfold stmflashWriteDate
  rw [writeWords_congr n writeAddr 0 calls (by simpa using h)]

end Loops

end PlcFirmware.Flash
