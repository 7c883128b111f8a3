import PlcFirmware.Flash.WriteDate
import PlcFirmware.Infra.CInt
import PlcFirmware.Infra.While

/-!
# `STMFLASH_WriteDate` writes a prefix

The counter `number` is a signed 16-bit value loaded from an unsigned one. Here the two loops run on that
value as the source has them; they end, and what they do is `stmflashWriteDate`, which counts the 16-bit
pattern down. From 32768 bytes on the value is negative at first, so that there are no words, and the
byte loop takes it down through the wrap.

Addresses are modulo `2^32` as well: the word at an aligned address does not wrap, the range may.

* `writeDateEnds` — the loops end
* `stmflashWriteDate_prefix` — the flash afterwards, and the address returned
-/

namespace PlcFirmware.Flash

open Infra

/-! ## The loops -/

/-- The variables of `STMFLASH_WriteDate`, and the HAL calls made so far. `left` is set by a `break`. -/
structure Progress where
  number : Int
  writeAddr : Nat
  p : Nat
  calls : Nat
  ops : List FlashOp
  left : Bool

/-- A call which succeeds: `WriteAddr+=n; pBuffer+=n; number-=n`. -/
def Progress.wrote (s : Progress) (op : FlashOp) (n : Nat) : Progress where
  number := s16 (s.number - n)
  writeAddr := addrAdd s.writeAddr n
  p := s.p + n
  calls := s.calls + 1
  ops := s.ops ++ [op]
  left := s.left

/-- A call which fails. -/
def Progress.failed (s : Progress) (op : FlashOp) : Progress :=
  { s with calls := s.calls + 1, ops := s.ops ++ [op], left := true }

section Loops

variable (pBuffer : Nat → UInt8) (hal : Nat → HalStatus)

/-- `while (number > 3)` -/
def wordLoop : While Progress where
  cond s := !s.left && decide (3 < s.number)
  body s :=
    let op := FlashOp.program .word s.writeAddr (wordAt pBuffer s.p) (hal s.calls)
    if hal s.calls = .ok then s.wrote op 4 else s.failed op

/-- `while (number)` -/
def byteLoop : While Progress where
  cond s := !s.left && decide (s.number ≠ 0)
  body s :=
    let op := FlashOp.program .byte s.writeAddr (pBuffer s.p).toNat (hal s.calls)
    if hal s.calls = .ok then s.wrote op 1 else s.failed op

/-- The two loops one after the other. -/
def LoopsEnd (s u : Progress) : Prop :=
  ∃ t, (wordLoop pBuffer hal).Ends s t ∧ (byteLoop pBuffer hal).Ends { t with left := false } u

/-- `STMFLASH_WriteDate`, started before HAL call `calls`, ends with these calls and this address. -/
def WriteDateEnds (writeAddr numToWrite calls : Nat) (c : Call) : Prop :=
  ∃ u, LoopsEnd pBuffer hal ⟨s16 numToWrite, writeAddr, 0, calls, [.unlock], false⟩ u ∧
    c = ⟨u.ops ++ [.lock], u.writeAddr, u.calls⟩

/-- The loops have got from the first state to the second with the calls of `c`. -/
structure Made (s : Progress) (c : Call) (u : Progress) : Prop where
  ops : u.ops = s.ops ++ c.ops
  writeAddr : u.writeAddr = c.ret
  calls : u.calls = c.calls

variable {pBuffer} {hal} {s u : Progress} {n : Nat}

theorem Made.cons {c : Call} {op : FlashOp} {t : Progress} (h : Made t c u)
    (ht : t.ops = s.ops ++ [op]) : Made s (c.cons op) u where
  ops := by rw [h.ops, ht, List.append_assoc]; rfl
  writeAddr := h.writeAddr
  calls := h.calls

/-! ## They end -/

theorem s16_pred (n : Nat) : s16 (s16 (n + 1 : Nat) - (1 : Nat)) = s16 n := by
  unfold s16
  omega

theorem s16_sub_four (n : Nat) : s16 (s16 (n + 4 : Nat) - (4 : Nat)) = s16 n := by
  unfold s16
  omega

/-- The pattern stands for a value above 3 between 4 and 32767. -/
theorem three_lt_s16_iff (hn : n < 65536) : 3 < s16 n ↔ 4 ≤ n ∧ n < 32768 := by
  unfold s16
  omega

theorem s16_ne_zero_iff (hn : n < 65536) : s16 n ≠ 0 ↔ 0 < n := by
  unfold s16
  omega

theorem wordLoop_cond (hn : n < 65536) (hnum : s.number = s16 n) (hleft : s.left = false) :
    (wordLoop pBuffer hal).cond s = decide (4 ≤ n ∧ n < 32768) := by
  simp only [wordLoop, hnum, hleft, Bool.not_false, Bool.true_and, three_lt_s16_iff hn]

theorem byteLoop_cond (hn : n < 65536) (hnum : s.number = s16 n) (hleft : s.left = false) :
    (byteLoop pBuffer hal).cond s = decide (0 < n) := by
  simp only [byteLoop, hnum, hleft, Bool.not_false, Bool.true_and, s16_ne_zero_iff hn]

variable (pBuffer) (hal) in
/-- **The byte loop ends**, also where the counter is negative. -/
theorem byteLoop_ends (hn : n < 65536) (hnum : s.number = s16 n) (hleft : s.left = false) :
    ∃ u, (byteLoop pBuffer hal).Ends s u ∧
      Made s (writeBytes pBuffer hal n s.writeAddr s.p s.calls) u := by
  induction n generalizing s with
  | zero =>
    refine ⟨s, .stop ?_, ⟨(List.append_nil _).symm, rfl, rfl⟩⟩
    rw [byteLoop_cond hn hnum hleft]
    rfl
  | succ n ih =>
    have hcond : (byteLoop pBuffer hal).cond s = true := by
      rw [byteLoop_cond hn hnum hleft]
      exact decide_eq_true n.succ_pos
    rw [writeBytes]
    by_cases hk : hal s.calls = .ok
    · -- the next round has one byte less
      have hbody : (byteLoop pBuffer hal).body s =
          s.wrote (.program .byte s.writeAddr (pBuffer s.p).toNat (hal s.calls)) 1 := by
        simp only [byteLoop, if_pos hk]
      have hnext : (s.wrote (.program .byte s.writeAddr (pBuffer s.p).toNat (hal s.calls)) 1).number =
          s16 n := by
        rw [← s16_pred n, ← hnum]
        rfl
      obtain ⟨u, hends, hmade⟩ := ih (by omega) hnext hleft
      rw [if_pos hk]
      exact ⟨u, .round hcond (hbody ▸ hends), hmade.cons rfl⟩
    · have hbody : (byteLoop pBuffer hal).body s =
          s.failed (.program .byte s.writeAddr (pBuffer s.p).toNat (hal s.calls)) := by
        simp only [byteLoop, if_neg hk]
      rw [if_neg hk]
      refine ⟨_, .round hcond (.stop ?_), hbody ▸ ⟨rfl, rfl, rfl⟩⟩
      rw [hbody]
      rfl

/-- The word loop does nothing if the counter is at most 3 or negative. -/
theorem loopsEnd_of_bytes (hn : n < 65536) (hnum : s.number = s16 n) (hleft : s.left = false)
    (hle : ¬(4 ≤ n ∧ n < 32768)) :
    ∃ u, LoopsEnd pBuffer hal s u ∧
      Made s (writeBytes pBuffer hal n s.writeAddr s.p s.calls) u := by
  have hcond : (wordLoop pBuffer hal).cond s = false := by
    rw [wordLoop_cond hn hnum hleft]
    exact decide_eq_false hle
  obtain ⟨u, hends, hmade⟩ :=
    byteLoop_ends pBuffer hal (s := { s with left := false }) hn hnum rfl
  exact ⟨u, ⟨s, .stop hcond, hends⟩, ⟨hmade.ops, hmade.writeAddr, hmade.calls⟩⟩

variable (pBuffer) (hal) in
/-- **The two loops end**, with the calls of `writeWords`. -/
theorem loopsEnd_writeWords (addr p calls : Nat) (hn : n < 65536) :
    ∀ s : Progress, s.number = s16 n → s.left = false → s.writeAddr = addr → s.p = p →
      s.calls = calls →
      ∃ u, LoopsEnd pBuffer hal s u ∧ Made s (writeWords pBuffer hal n addr p calls) u := by
  fun_induction writeWords pBuffer hal n addr p calls with
  | case1 number addr p calls hpos op hk ih =>
    rintro s hnum hleft rfl rfl rfl
    have hcond : (wordLoop pBuffer hal).cond s = true := by
      rw [wordLoop_cond hn hnum hleft]
      exact decide_eq_true ⟨Nat.le_add_left 4 number, hpos⟩
    have hbody : (wordLoop pBuffer hal).body s = s.wrote op 4 := by
      simp only [wordLoop, if_pos hk, op]
    have hnext : (s.wrote op 4).number = s16 number := by
      rw [← s16_sub_four number, ← hnum]
      rfl
    obtain ⟨u, ⟨t, hwords, hbytes⟩, hmade⟩ :=
      ih (by omega) (s.wrote op 4) hnext hleft rfl rfl rfl
    exact ⟨u, ⟨t, .round hcond (hbody ▸ hwords), hbytes⟩, hmade.cons rfl⟩
  | case2 number addr p calls hpos op hk =>
    rintro s hnum hleft rfl rfl rfl
    have hcond : (wordLoop pBuffer hal).cond s = true := by
      rw [wordLoop_cond hn hnum hleft]
      exact decide_eq_true ⟨Nat.le_add_left 4 number, hpos⟩
    have hbody : (wordLoop pBuffer hal).body s = s.failed op := by
      simp only [wordLoop, if_neg hk, op]
    have hstop : (wordLoop pBuffer hal).cond (s.failed op) = false := rfl
    -- the byte loop goes on with the counter as it is
    obtain ⟨u, hends, hmade⟩ := byteLoop_ends pBuffer hal
      (s := { s.failed op with left := false }) hn hnum rfl
    exact ⟨u, ⟨s.failed op, .round hcond (by rw [hbody]; exact .stop hstop), hends⟩, hmade.cons rfl⟩
  | case3 number addr p calls hneg =>
    rintro s hnum hleft rfl rfl rfl
    exact loopsEnd_of_bytes hn hnum hleft fun h => hneg h.2
  | case4 number addr p calls hsmall =>
    rintro s hnum hleft rfl rfl rfl
    refine loopsEnd_of_bytes hn hnum hleft fun h => ?_
    exact hsmall (number - 4) (by omega)

variable (pBuffer) (hal) in
/-- **`STMFLASH_WriteDate` ends**, and does what `stmflashWriteDate` says. -/
theorem writeDateEnds (writeAddr calls : Nat) (hn : n < 65536) :
    WriteDateEnds pBuffer hal writeAddr n calls
      (stmflashWriteDate pBuffer hal writeAddr n calls) := by
  obtain ⟨u, hends, hmade⟩ := loopsEnd_writeWords pBuffer hal writeAddr 0 calls hn
    ⟨s16 n, writeAddr, 0, calls, [.unlock], false⟩ rfl rfl rfl rfl rfl
  refine ⟨u, hends, ?_⟩
  rw [hmade.ops, hmade.writeAddr, hmade.calls]
  rfl

/-! ## Which bytes are written -/

/-- How far `a` is behind `addr`, modulo `2^32`. -/
def ahead (addr a : Nat) : Nat := (a + 4294967296 - addr) % 4294967296

theorem addrAdd_lt (addr n : Nat) : addrAdd addr n < 4294967296 := by
  unfold addrAdd
  omega

theorem addrAdd_zero {addr : Nat} (ha : addr < 4294967296) : addrAdd addr 0 = addr := by
  unfold addrAdd
  omega

variable (pBuffer) in
/-- The calls write the first `k` of the `n` bytes from `p` on, to `addr` and behind it. -/
structure Prefix (n addr p : Nat) (c : Call) (k : Nat) : Prop where
  le : k ≤ n
  ret : c.ret = addrAdd addr k
  apply : ∀ f a, a < 4294967296 → applyAll f c.ops a =
    if ahead addr a < k then f a &&& pBuffer (p + ahead addr a) else f a
  all : (∀ type a data status, FlashOp.program type a data status ∈ c.ops → status = .ok) → k = n

theorem Prefix.nil {addr p calls : Nat} (ha : addr < 4294967296) :
    Prefix pBuffer 0 addr p ⟨[], addr, calls⟩ 0 where
  le := Nat.le_refl _
  ret := (addrAdd_zero ha).symm
  apply := fun _ _ _ => (if_neg (Nat.not_lt_zero _)).symm
  all := fun _ => rfl

theorem Prefix.cons_ok {addr p k data : Nat} {c : Call} (type : ProgramType)
    (ha : addr + type.width ≤ 4294967296) (hn : n + type.width < 65540)
    (hdata : ∀ i < type.width, byteAt data i = pBuffer (p + i))
    (hc : Prefix pBuffer n (addrAdd addr type.width) (p + type.width) c k) :
    Prefix pBuffer (n + type.width) addr p (c.cons (.program type addr data .ok))
      (k + type.width) where
  le := Nat.add_le_add_right hc.le _
  ret := by
    rw [Call.cons_ret, hc.ret]
    unfold addrAdd
    omega
  apply := by
    intro f a hlt
    have hle := hc.le
    have hwidth : 0 < type.width := by cases type <;> decide
    rw [Call.cons_ops, applyAll_cons, hc.apply _ a hlt, apply_program_ok]
    -- the bytes of this call are the next ones, those of the others come behind them
    by_cases hin : ahead addr a < type.width
    · have hcell : addr ≤ a ∧ a < addr + type.width := by
        unfold ahead at hin
        omega
      have hrest : ¬ahead (addrAdd addr type.width) a < k := by
        unfold ahead addrAdd at *
        omega
      have hoff : a - addr = ahead addr a := by
        unfold ahead
        omega
      rw [if_neg hrest, if_pos hcell, if_pos (by omega), hoff, hdata _ hin]
    · have hcell : ¬(addr ≤ a ∧ a < addr + type.width) := by
        unfold ahead at hin
        omega
      have hoff : ahead addr a = ahead (addrAdd addr type.width) a + type.width := by
        unfold ahead addrAdd at *
        omega
      rw [if_neg hcell, hoff]
      by_cases hk : ahead (addrAdd addr type.width) a < k
      · rw [if_pos hk, if_pos (by omega), show p + type.width + ahead (addrAdd addr type.width) a =
          p + (ahead (addrAdd addr type.width) a + type.width) by omega]
      · rw [if_neg hk, if_neg (by omega)]
  all := by
    intro hall
    rw [hc.all fun t a d st hop => hall t a d st (List.mem_cons_of_mem _ hop)]

theorem Prefix.cons_fail {addr p k data : Nat} {c : Call} {type : ProgramType} {status : HalStatus}
    (hs : status ≠ .ok) (hc : Prefix pBuffer n addr p c k) :
    Prefix pBuffer n addr p (c.cons (.program type addr data status)) k where
  le := hc.le
  ret := hc.ret
  apply := by
    intro f a hlt
    rw [Call.cons_ops, applyAll_cons, apply_program_fail hs, hc.apply f a hlt]
  all := fun hall => absurd (hall _ _ _ _ List.mem_cons_self) hs

variable (pBuffer) (hal) in
theorem writeBytes_prefix (hn : n < 65536) : ∀ addr p calls, addr < 4294967296 →
    ∃ k, Prefix pBuffer n addr p (writeBytes pBuffer hal n addr p calls) k := by
  induction n with
  | zero => exact fun addr p calls ha => ⟨0, .nil ha⟩
  | succ n ih =>
    intro addr p calls ha
    rw [writeBytes]
    by_cases hk : hal calls = .ok
    · obtain ⟨k, hc⟩ := ih (by omega) (addrAdd addr 1) (p + 1) (calls + 1) (addrAdd_lt addr 1)
      simp only [hk]
      refine ⟨k + 1, Prefix.cons_ok .byte (by simp only [ProgramType.width]; omega)
        (by simp only [ProgramType.width]; omega) ?_ hc⟩
      intro i hi
      obtain rfl : i = 0 := by simpa [ProgramType.width] using hi
      exact byteAt_zero _
    · simp only [if_neg hk]
      refine ⟨0, Nat.zero_le _, (addrAdd_zero ha).symm, fun f a hlt => ?_, fun hall => ?_⟩
      · rw [applyAll_cons, apply_program_fail hk, if_neg (Nat.not_lt_zero _), applyAll_nil]
      · exact absurd (hall _ _ _ _ List.mem_cons_self) hk

variable (pBuffer) (hal) in
theorem writeWords_prefix (n addr p calls : Nat) (hn : n < 65536) (ha : addr < 4294967296)
    (halign : addr % 4 = 0) :
    ∃ k, Prefix pBuffer n addr p (writeWords pBuffer hal n addr p calls) k := by
  fun_induction writeWords pBuffer hal n addr p calls with
  | case1 number addr p calls hpos op hk ih =>
    obtain ⟨k, hc⟩ := ih (by omega) (addrAdd_lt addr 4) (by unfold addrAdd; omega)
    simp only [op, hk]
    exact ⟨k + 4, Prefix.cons_ok .word (by simp only [ProgramType.width]; omega)
      (by simp only [ProgramType.width]; omega) (wordAt_byteAt p) hc⟩
  | case2 number addr p calls hpos op hk =>
    obtain ⟨k, hc⟩ := writeBytes_prefix pBuffer hal hn addr p (calls + 1) ha
    exact ⟨k, hc.cons_fail hk⟩
  | case3 number addr p calls hneg => exact writeBytes_prefix pBuffer hal hn addr p calls ha
  | case4 number addr p calls hsmall => exact writeBytes_prefix pBuffer hal hn addr p calls ha

theorem ahead_addrAdd {addr i : Nat} (ha : addr < 4294967296) (hi : i < 4294967296) :
    ahead addr (addrAdd addr i) = i := by
  unfold ahead addrAdd
  omega

theorem addrAdd_ahead {addr a : Nat} (ha : addr < 4294967296) (hlt : a < 4294967296) :
    addrAdd addr (ahead addr a) = a := by
  unfold ahead addrAdd
  omega

end Loops

/--
**`STMFLASH_WriteDate` ends for every length, and whatever calls fail, it returns the end of what it has
written**: into erased flash at an aligned address, a prefix of the buffer, all of it if no call fails.
-/
theorem stmflashWriteDate_prefix (pBuffer : Nat → UInt8) (hal : Nat → HalStatus)
    (writeAddr : UInt32) (numToWrite : UInt16) (calls : Nat) (f : Image)
    (halign : writeAddr.toNat % 4 = 0)
    (herased : ∀ i < numToWrite.toNat, f (addrAdd writeAddr.toNat i) = 0xFF) :
    ∃ c, WriteDateEnds pBuffer hal writeAddr.toNat numToWrite.toNat calls c ∧
      ∃ k ≤ numToWrite.toNat, c.ret = addrAdd writeAddr.toNat k ∧
        (∀ i < k, applyAll f c.ops (addrAdd writeAddr.toNat i) = pBuffer i) ∧
        (∀ a < 4294967296, (∀ i < k, a ≠ addrAdd writeAddr.toNat i) → applyAll f c.ops a = f a) ∧
        ((∀ type a data status, FlashOp.program type a data status ∈ c.ops → status = .ok) →
          k = numToWrite.toNat) := by
  have hn := numToWrite.toNat_lt
  have ha := writeAddr.toNat_lt
  obtain ⟨k, h⟩ := writeWords_prefix pBuffer hal numToWrite.toNat writeAddr.toNat 0 calls hn ha halign
  have hle := h.le
  have happly : ∀ a, applyAll f (stmflashWriteDate pBuffer hal writeAddr.toNat numToWrite.toNat
      calls).ops a = applyAll f
        (writeWords pBuffer hal numToWrite.toNat writeAddr.toNat 0 calls).ops a := by
    intro a
    simp only [stmflashWriteDate, List.cons_append, applyAll_cons, apply_unlock, applyAll_append,
      apply_lock, applyAll_nil]
  refine ⟨_, writeDateEnds pBuffer hal writeAddr.toNat calls hn, k, hle, h.ret, ?_, ?_, ?_⟩
  · intro i hi
    rw [happly, h.apply f _ (addrAdd_lt _ _), ahead_addrAdd ha (by omega), if_pos hi,
      herased i (by omega), erased_and, Nat.zero_add]
  · intro a hlt hout
    rw [happly, h.apply f a hlt, if_neg fun hk => hout _ hk (addrAdd_ahead ha hlt).symm]
  · refine fun hall => h.all fun type a data status hop => hall type a data status ?_
    exact List.mem_cons_of_mem _ (List.mem_append_left _ hop)

/-- The second of two words fails; three of its bytes are written one by one. -/
theorem stmflashWriteDate_prefix_example :
    ∃ c, WriteDateEnds UInt8.ofNat (fun k => if k = 1 ∨ k = 5 then .error else .ok) 0x08040000 8 0 c ∧
      ∃ k ≤ 8, c.ret = addrAdd 0x08040000 k ∧
        (∀ i < k, applyAll (fun _ => 0xFF) c.ops (addrAdd 0x08040000 i) = UInt8.ofNat i) ∧
        (∀ a < 4294967296, (∀ i < k, a ≠ addrAdd 0x08040000 i) →
          applyAll (fun _ => 0xFF) c.ops a = 0xFF) ∧
        ((∀ type a data status, FlashOp.program type a data status ∈ c.ops → status = .ok) →
          k = 8) :=
  stmflashWriteDate_prefix UInt8.ofNat (fun k => if k = 1 ∨ k = 5 then .error else .ok) 0x08040000 8 0
    (fun _ => 0xFF) (by decide) fun _ _ => rfl

end PlcFirmware.Flash
