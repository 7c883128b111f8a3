/-!
# C integer conversions

A C expression over small integer types is computed in `int` and then converted when it is stored.
The models compute in `Int` or `Nat` and write the conversion where the source stores the value.
-/

namespace PlcFirmware.Infra

/-- Conversion to an unsigned 16-bit type. -/
def u16 (x : Int) : Int := x % 65536

/-- Conversion to a signed 16-bit type. -/
def s16 (x : Int) : Int := (x + 32768) % 65536 - 32768

/-- Conversion to an unsigned 32-bit type. -/
def u32 (x : Int) : Int := x % 4294967296

/-- Conversion to a signed 32-bit type. -/
def s32 (x : Int) : Int := (x + 2147483648) % 4294967296 - 2147483648

theorem u16_id {x : Int} (h0 : 0 ≤ x) (h1 : x < 65536) : u16 x = x := by
  unfold u16; omega

theorem s16_id {x : Int} (h0 : -32768 ≤ x) (h1 : x < 32768) : s16 x = x := by
  unfold s16; omega

theorem u32_id {x : Int} (h0 : 0 ≤ x) (h1 : x < 4294967296) : u32 x = x := by
  unfold u32; omega

theorem s32_id {x : Int} (h0 : -2147483648 ≤ x) (h1 : x < 2147483648) : s32 x = x := by
  unfold s32; omega

end PlcFirmware.Infra
