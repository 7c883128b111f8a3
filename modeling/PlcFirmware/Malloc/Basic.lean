import Mathlib.Logic.Function.Basic
import PlcFirmware.Infra.CInt
import PlcFirmware.Infra.Cells

/-!
# The memory pools

`malloc.c` manages three pools in blocks of 64 bytes. A pool has a table `memmap` with a cell for each
block: `0` for a free block, and for a block in use the number of blocks of its allocation. A request
is searched from the top of the table down and marked; `my_mem_free` reads the number of blocks from
the first cell.

The tables are arrays of their own behind the pools, so `memmap` and the bytes `mem` are separate.
A cell index beyond the table stands for whatever is behind it.
-/

namespace PlcFirmware.Malloc

open Infra

/-- `SRAMIN`, `SRAMEX` and `SRAMDTCM` -/
inductive Pool
  | sramin
  | sramex
  | sramdtcm
  deriving DecidableEq

/-- `MEM1_BLOCK_SIZE`, `MEM2_BLOCK_SIZE`, `MEM3_BLOCK_SIZE` -/
def memblksize : Pool → Nat
  | .sramin => 64
  | .sramex => 64
  | .sramdtcm => 64

/-- `MEM1_MAX_SIZE`, `MEM2_MAX_SIZE`, `MEM3_MAX_SIZE` -/
def memsize : Pool → Nat
  | .sramin => 60 * 1024
  | .sramex => 28912 * 1024
  | .sramdtcm => 60 * 1024

/-- `MEM1_ALLOC_TABLE_SIZE`, `MEM2_ALLOC_TABLE_SIZE`, `MEM3_ALLOC_TABLE_SIZE` -/
def memtblsize : Pool → Nat
  | .sramin => 60 * 1024 / 64
  | .sramex => 28912 * 1024 / 64
  | .sramdtcm => 60 * 1024 / 64

@[simp] theorem memblksize_eq (p : Pool) : memblksize p = 64 := by cases p <;> rfl

theorem memsize_eq (p : Pool) : memsize p = memtblsize p * 64 := by cases p <;> rfl

theorem memtblsize_le (p : Pool) : memtblsize p ≤ 462592 := by cases p <;> decide

/-- Where the linker puts `mem1base`. The other two pools are at fixed addresses. -/
structure Layout where
  mem1base : Nat
  pos : 0 < mem1base
  fits : mem1base + 60 * 1024 ≤ 4294967296

/-- `mallco_dev.membase` -/
def Layout.membase (L : Layout) : Pool → Nat
  | .sramin => L.mem1base
  | .sramex => 0xC01F4000
  | .sramdtcm => 0x20000000

theorem Layout.membase_pos (L : Layout) (p : Pool) : 0 < L.membase p := by
  cases p
  · exact L.pos
  · exact Nat.zero_lt_succ _
  · exact Nat.zero_lt_succ _

theorem Layout.membase_fits (L : Layout) (p : Pool) : L.membase p + memsize p ≤ 4294967296 := by
  have := L.fits
  cases p <;> simp only [membase, memsize] <;> omega

/-- `mallco_dev` with the tables it points to, and the memory. -/
structure MallcoDev where
  memmap : Pool → Nat → Nat
  memrdy : Pool → Bool
  mem : Nat → UInt8

/-! ## The functions -/

/-- `mymemcpy`, byte by byte upwards. -/
def mymemcpy (mem : Nat → UInt8) : (des src n : Nat) → (Nat → UInt8)
  | _, _, 0 => mem
  | des, src, n + 1 =>
    mymemcpy (Function.update mem des (mem src)) ((des + 1) % 4294967296) ((src + 1) % 4294967296) n

/-- `my_mem_init`: all bytes of the table are cleared. -/
def myMemInit (memx : Pool) (d : MallcoDev) : MallcoDev :=
  { d with
    memmap := Function.update d.memmap memx (fill (d.memmap memx) 0 0 (memtblsize memx))
    memrdy := Function.update d.memrdy memx true }

/-- `if(!mallco_dev.memrdy[memx])mallco_dev.init(memx);` -/
def MallcoDev.ready (d : MallcoDev) (memx : Pool) : MallcoDev :=
  if d.memrdy memx then d else myMemInit memx d

/--
The search loop of `my_mem_malloc`: the first argument is one above `offset`, the second is `cmemb`,
the number of free cells directly above.
-/
def search (map : Nat → Nat) (nmemb : Nat) : (k cmemb : Nat) → Option Nat
  | 0, _ => none
  | offset + 1, cmemb =>
    let cmemb := if map offset = 0 then cmemb + 1 else 0
    if cmemb = nmemb then some offset else search map nmemb offset cmemb

/-- `my_mem_malloc` -/
def myMemMalloc (memx : Pool) (size : UInt32) (d : MallcoDev) : MallcoDev × Nat :=
  let d := d.ready memx
  if size = 0 then (d, 0xFFFFFFFF)
  else
    let nmemb := size.toNat / memblksize memx + if size.toNat % memblksize memx ≠ 0 then 1 else 0
    match search (d.memmap memx) nmemb (memtblsize memx) 0 with
    | some offset =>
      ({ d with
          memmap := Function.update d.memmap memx (fill (d.memmap memx) offset nmemb nmemb) },
        offset * memblksize memx)
    | none => (d, 0xFFFFFFFF)

/-- `my_mem_free` -/
def myMemFree (memx : Pool) (offset : Nat) (d : MallcoDev) : MallcoDev × Nat :=
  if d.memrdy memx = false then (myMemInit memx d, 1)
  else if offset < memsize memx then
    let index := offset / memblksize memx
    -- every cell of a run holds its length, so from here on that many are cleared
    let nmemb := (s32 (d.memmap memx index)).toNat
    ({ d with memmap := Function.update d.memmap memx (fill (d.memmap memx) index 0 nmemb) }, 0)
  else (d, 2)

/-- `myfree`. The difference of the addresses is a `u32`. -/
def myfree (L : Layout) (memx : Pool) (ptr : Nat) (d : MallcoDev) : MallcoDev :=
  if ptr = 0 then d else (myMemFree memx (u32 (ptr - L.membase memx)).toNat d).1

/-- `mymalloc` -/
def mymalloc (L : Layout) (memx : Pool) (size : UInt32) (d : MallcoDev) : MallcoDev × Nat :=
  let (d, offset) := myMemMalloc memx size d
  if offset = 0xFFFFFFFF then (d, 0) else (d, (L.membase memx + offset) % 4294967296)

/-- `myrealloc` -/
def myrealloc (L : Layout) (memx : Pool) (ptr : Nat) (size : UInt32) (d : MallcoDev) :
    MallcoDev × Nat :=
  let (d, offset) := myMemMalloc memx size d
  if offset = 0xFFFFFFFF then (d, 0)
  else
    let new := (L.membase memx + offset) % 4294967296
    let d := { d with mem := mymemcpy d.mem new ptr size.toNat }
    (myfree L memx ptr d, new)

end PlcFirmware.Malloc
