import Mathlib.Algebra.Group.Nat.Defs
import Mathlib.Data.Nat.Basic

/-!
# Flash memory and the HAL calls on it

The flash is a function from addresses to bytes. What a driver function does to it is the list of
HAL calls it makes, each with the status the HAL returned (`FlashOp`); what such a call leaves in the
flash is `FlashOp.apply`. An erase sets its sector to `0xFF`, programming ANDs the data into the
flash, and a call which fails changes nothing.
-/

namespace PlcFirmware.Flash

/-! ## Sectors -/

/-- `STM32_FLASH_BASE` -/
def stm32FlashBase : Nat := 0x08000000

/-- The first address behind the main flash (2 MB). -/
def flashEnd : Nat := 0x08200000

def addrFlashSector1 : Nat := 0x08008000
def addrFlashSector2 : Nat := 0x08010000
def addrFlashSector3 : Nat := 0x08018000
def addrFlashSector4 : Nat := 0x08020000
def addrFlashSector5 : Nat := 0x08040000
def addrFlashSector6 : Nat := 0x08080000
def addrFlashSector7 : Nat := 0x080C0000
def addrFlashSector8 : Nat := 0x08100000
def addrFlashSector9 : Nat := 0x08140000
def addrFlashSector10 : Nat := 0x08180000
def addrFlashSector11 : Nat := 0x081C0000

/-- The number of the sector which holds the address; `FLASH_SECTOR_n` is `n`. -/
def stmflashGetFlashSector (addr : Nat) : Nat :=
  if addr < addrFlashSector1 then 0
  else if addr < addrFlashSector2 then 1
  else if addr < addrFlashSector3 then 2
  else if addr < addrFlashSector4 then 3
  else if addr < addrFlashSector5 then 4
  else if addr < addrFlashSector6 then 5
  else if addr < addrFlashSector7 then 6
  else if addr < addrFlashSector8 then 7
  else if addr < addrFlashSector9 then 8
  else if addr < addrFlashSector10 then 9
  else if addr < addrFlashSector11 then 10
  else 11

/-- The address is in the main flash, in sector `s`. -/
def InSector (s addr : Nat) : Prop :=
  stm32FlashBase ≤ addr ∧ addr < flashEnd ∧ stmflashGetFlashSector addr = s

instance (s addr : Nat) : Decidable (InSector s addr) :=
  inferInstanceAs (Decidable (_ ∧ _ ∧ _))

/-- From sector 5 on, the first five comparisons fail. -/
theorem stmflashGetFlashSector_of_ge {addr : Nat} (h : addrFlashSector5 ≤ addr) :
    stmflashGetFlashSector addr =
      if addr < addrFlashSector6 then 5
      else if addr < addrFlashSector7 then 6
      else if addr < addrFlashSector8 then 7
      else if addr < addrFlashSector9 then 8
      else if addr < addrFlashSector10 then 9
      else if addr < addrFlashSector11 then 10
      else 11 := by
  have below : ∀ b, b ≤ addrFlashSector5 → ¬ addr < b := fun b hb =>
    Nat.not_lt.mpr (Nat.le_trans hb h)
  unfold stmflashGetFlashSector
  rw [if_neg (below _ (by decide)), if_neg (below _ (by decide)), if_neg (below _ (by decide)),
    if_neg (below _ (by decide)), if_neg (below _ (by decide))]

theorem stmflashGetFlashSector_of_lt {addr : Nat} (h : addr < addrFlashSector5) :
    stmflashGetFlashSector addr ≤ 4 := by
  unfold stmflashGetFlashSector
  repeat' split
  all_goals decide

/-- **Sector 5 is `[0x08040000, 0x08080000)`.** -/
theorem inSector_five {addr : Nat} :
    InSector 5 addr ↔ addrFlashSector5 ≤ addr ∧ addr < addrFlashSector6 := by
  constructor
  · rintro ⟨-, -, hs⟩
    have h5 : addrFlashSector5 ≤ addr := by
      refine Nat.not_lt.mp fun hlt => ?_
      have := stmflashGetFlashSector_of_lt hlt
      omega
    refine ⟨h5, Nat.not_le.mp fun h6 => ?_⟩
    rw [stmflashGetFlashSector_of_ge h5, if_neg (Nat.not_lt.mpr h6)] at hs
    revert hs
    repeat' split
    all_goals decide
  · rintro ⟨h5, h6⟩
    refine ⟨Nat.le_trans (by decide) h5, Nat.lt_trans h6 (by decide), ?_⟩
    rw [stmflashGetFlashSector_of_ge h5, if_pos h6]

theorem stmflashGetFlashSector_five : stmflashGetFlashSector addrFlashSector5 = 5 := by decide

/-! ## HAL calls -/

/-- `HAL_StatusTypeDef` -/
inductive HalStatus
  | ok
  | error
  | busy
  | timeout
  deriving DecidableEq, Repr

/-- `FLASH_TYPEPROGRAM_BYTE` and `FLASH_TYPEPROGRAM_WORD` -/
inductive ProgramType
  | byte
  | word
  deriving DecidableEq, Repr

/-- The number of bytes which a program call writes. -/
def ProgramType.width : ProgramType → Nat
  | .byte => 1
  | .word => 4

/-- A call of the flash HAL. Erase and program calls carry the status they returned. -/
inductive FlashOp
  | unlock
  | lock
  | erase (sector : Nat) (status : HalStatus)
  | program (type : ProgramType) (addr data : Nat) (status : HalStatus)
  deriving DecidableEq, Repr

/-- Byte `i` of a little-endian value. -/
def byteAt (data i : Nat) : UInt8 := UInt8.ofNat (data / 256 ^ i)

theorem byteAt_zero (b : UInt8) : byteAt b.toNat 0 = b := by simp [byteAt]

theorem byteAt_word (b0 b1 b2 b3 : UInt8) {i : Nat} (hi : i < 4) :
    byteAt (b3.toNat * 2 ^ 24 + b2.toNat * 2 ^ 16 + b1.toNat * 2 ^ 8 + b0.toNat) i =
      [b0, b1, b2, b3].getD i 0 := by
  have h0 := b0.toNat_lt
  have h1 := b1.toNat_lt
  have h2 := b2.toNat_lt
  have h3 := b3.toNat_lt
  apply UInt8.toNat_inj.mp
  rcases i with _ | _ | _ | _ | i
  · simp [byteAt]
  · simp [byteAt]; omega
  · simp [byteAt]; omega
  · simp [byteAt]; omega
  · omega

/-- The byte which a successful program call puts at an address, if it covers it. -/
def FlashOp.stores : FlashOp → Nat → Option UInt8
  | .program type addr data .ok, a =>
    if addr ≤ a ∧ a < addr + type.width then some (byteAt data (a - addr)) else none
  | _, _ => none

/-! ## What the calls leave in the flash -/

/-- The content of the flash. -/
abbrev Image := Nat → UInt8

/-- The flash after a HAL call. -/
def FlashOp.apply (f : Image) (op : FlashOp) : Image := fun a =>
  match op with
  | .erase sector .ok => if InSector sector a then 0xFF else f a
  | op =>
    match op.stores a with
    | some b => f a &&& b
    | none => f a

/-- The flash after a list of HAL calls. -/
def applyAll (f : Image) (ops : List FlashOp) : Image := ops.foldl FlashOp.apply f

@[simp] theorem applyAll_nil (f : Image) : applyAll f [] = f := rfl

@[simp] theorem applyAll_cons (f : Image) (op : FlashOp) (ops : List FlashOp) :
    applyAll f (op :: ops) = applyAll (op.apply f) ops := rfl

theorem applyAll_append (f : Image) (xs ys : List FlashOp) :
    applyAll f (xs ++ ys) = applyAll (applyAll f xs) ys := List.foldl_append

@[simp] theorem apply_unlock (f : Image) : FlashOp.unlock.apply f = f := rfl

@[simp] theorem apply_lock (f : Image) : FlashOp.lock.apply f = f := rfl

theorem stores_program_ok (type : ProgramType) (addr data a : Nat) :
    (FlashOp.program type addr data .ok).stores a =
      if addr ≤ a ∧ a < addr + type.width then some (byteAt data (a - addr)) else none := rfl

theorem apply_program_ok (f : Image) (type : ProgramType) (addr data a : Nat) :
    (FlashOp.program type addr data .ok).apply f a =
      if addr ≤ a ∧ a < addr + type.width then f a &&& byteAt data (a - addr) else f a := by
  by_cases h : addr ≤ a ∧ a < addr + type.width
  · simp only [FlashOp.apply, stores_program_ok, if_pos h]
  · simp only [FlashOp.apply, stores_program_ok, if_neg h]

theorem stores_program_fail {type : ProgramType} {addr data a : Nat} {status : HalStatus}
    (h : status ≠ .ok) : (FlashOp.program type addr data status).stores a = none := by
  cases status <;> first | rfl | contradiction

theorem apply_program_fail {f : Image} {type : ProgramType} {addr data : Nat} {status : HalStatus}
    (h : status ≠ .ok) : (FlashOp.program type addr data status).apply f = f := by
  cases status <;> first | rfl | contradiction

/-- Programming a byte of erased flash writes it. -/
theorem erased_and (b : UInt8) : 0xFF &&& b = b := by
  rw [UInt8.and_comm]
  exact UInt8.and_neg_one

theorem apply_erase_ok (f : Image) (sector a : Nat) :
    (FlashOp.erase sector .ok).apply f a = if InSector sector a then 0xFF else f a := rfl

end PlcFirmware.Flash
