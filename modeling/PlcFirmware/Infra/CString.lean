import Mathlib.Data.List.TakeWhile
import PlcFirmware.Infra.Cells

/-!
# C strings in memory

Memory from a pointer on is the list of its bytes, as far as it can be read. What the functions of
`string.h` find there is `cString`, the bytes in front of the first `NUL`; what they write is a list of
bytes over the start of the memory.
-/

namespace PlcFirmware.Infra

/-- The bytes in front of the first `NUL`. -/
def cString (mem : List UInt8) : List UInt8 := mem.takeWhile (· != 0)

def strlen (mem : List UInt8) : Nat := (cString mem).length

/-- What `strncpy` writes: `n` bytes, with zeros behind a shorter string. -/
def strncpy (src : List UInt8) (n : Nat) : List UInt8 :=
  (cString src).take n ++ List.replicate (n - strlen src) 0

/-- What `memset` writes. -/
def memset (c : UInt8) (n : Nat) : List UInt8 := List.replicate n c

/-- The bytes are written over the start of the memory. -/
def overwrite (mem bs : List UInt8) : List UInt8 := bs ++ mem.drop bs.length

/-- `n` bytes of memory from `a` on. -/
def readFrom (mem : Nat → UInt8) : (a n : Nat) → List UInt8
  | _, 0 => []
  | a, n + 1 => mem a :: readFrom mem (a + 1) n

theorem cString_of_notMem {s : List UInt8} (hs : 0 ∉ s) : cString s = s := by
  refine List.takeWhile_eq_self_iff.mpr fun c hc => ?_
  rw [bne_iff_ne]
  rintro rfl
  exact hs hc

theorem zero_notMem_append {s : List UInt8} {c : UInt8} (hs : 0 ∉ s) (hc : c ≠ 0) :
    0 ∉ s ++ [c] := by
  simp [hs, Ne.symm hc]

end PlcFirmware.Infra
