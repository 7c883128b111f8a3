import Mathlib.Algebra.Ring.Nat
import PlcFirmware.Infra.DownCounter
import PlcFirmware.SysArch.Elapsed

/-!
# `delay.c`

`delay_us` reads `SysTick->VAL` over and over and adds up the steps from one reading to the next. How
much time passes between two readings is not up to it: an interrupt may take any number of periods. So
the readings are a list, and the loop is left at one of them or not at all.

* `delayUs_elapsed` — the time which has passed when the loop is left
-/

namespace PlcFirmware.Delay

open Infra

/-- `fac_us`, `fac_ms` and `SysTick->LOAD` -/
structure DelayConfig where
  facUs : UInt32
  facMs : UInt16
  load : UInt32

/-- `delay_init`. What is written to `SysTick->LOAD` fits in the 24 bits of the register. -/
def delayInit (sysclk : UInt8) : DelayConfig where
  facUs := sysclk.toUInt32
  facMs := (1000 / SysArch.osTicksPerSec).toUInt16
  load := sysclk.toUInt32 * (1000000 / SysArch.osTicksPerSec)

/-! ## `delay_us` -/

/-- The variables of the loop of `delay_us`. -/
structure Ticking where
  told : UInt32
  tcnt : UInt32

/-- A reading of the counter in the loop. -/
def Ticking.read (reload tnow : UInt32) (s : Ticking) : Ticking where
  told := tnow
  tcnt := s.tcnt + if tnow < s.told then s.told - tnow else reload - tnow + s.told

/-- The loop of `delay_us` on the readings of the counter: the number of readings with which it is
left. -/
def delayLoop (reload ticks : UInt32) : Ticking → List UInt32 → Option Nat
  | _, [] => none
  | s, tnow :: readings =>
    if tnow ≠ s.told then
      let s := s.read reload tnow
      if s.tcnt ≥ ticks then some 1 else (delayLoop reload ticks s readings).map (· + 1)
    else (delayLoop reload ticks s readings).map (· + 1)

/-- `delay_us`, with `told` the reading in front of the loop. -/
def delayUs (cfg : DelayConfig) (nus told : UInt32) (readings : List UInt32) : Option Nat :=
  delayLoop cfg.load (nus * cfg.facUs) ⟨told, 0⟩ readings

/-! ## `delay_ms` -/

/-- `OSRunning` and `OSIntNesting` -/
structure OsState where
  running : Bool
  intNesting : UInt8

/-- A task may be suspended. -/
def OsState.inTask (os : OsState) : Bool := os.running && os.intNesting == 0

/-- `delay_ms`: the ticks which the kernel is asked for, and the number of readings with which
`delay_us` is left. -/
def delayMs (cfg : DelayConfig) (os : OsState) (nms : UInt16) (told : UInt32)
    (readings : List UInt32) : Option UInt16 × Option Nat :=
  let ticks := if os.inTask ∧ nms ≥ cfg.facMs then some (nms / cfg.facMs) else none
  let nms := if os.inTask then nms % cfg.facMs else nms
  (ticks, delayUs cfg (nms.toUInt32 * 1000) told readings)

/-! ## SysTick -/

/-- The counter runs freely from `start` at time 0, in counts. -/
structure SysTick where
  load : UInt32
  start : UInt32
  start_le : start ≤ load

namespace SysTick

/-- `SysTick->VAL` at time `t`. -/
def val (c : SysTick) (t : Nat) : UInt32 :=
  UInt32.ofNat (downAt (c.load.toNat + 1) c.start.toNat t)

/-- The readings behind time `t`, with the time in front of each of them. -/
def readings (c : SysTick) : (t : Nat) → (gaps : List Nat) → List UInt32
  | _, [] => []
  | t, g :: gaps => c.val (t + g) :: c.readings (t + g) gaps

theorem val_toNat (c : SysTick) (t : Nat) :
    (c.val t).toNat = downAt (c.load.toNat + 1) c.start.toNat t := by
  have hlt := downAt_lt (v := c.start.toNat) (Nat.succ_pos c.load.toNat) t
  have hload := c.load.toNat_lt
  exact UInt32.toNat_ofNat_of_lt' (Nat.lt_of_lt_of_le hlt hload)

theorem val_le (c : SysTick) (t : Nat) : (c.val t).toNat ≤ c.load.toNat := by
  rw [val_toNat]
  exact Nat.le_of_lt_succ (downAt_lt (Nat.succ_pos _) t)

theorem val_succ (c : SysTick) (t : Nat) : (c.val (t + 1)).toNat
    = if (c.val t).toNat = 0 then c.load.toNat else (c.val t).toNat - 1 := by
  rw [val_toNat, val_toNat, downAt_succ (Nat.succ_pos _), Nat.succ_sub_one]

end SysTick

/-! ## The time which passes -/

/-- What is added for a reading is not more than the time since the one before. Behind the end of a
period it is one less than the steps, and whole periods are missed. -/
theorem read_tcnt_le (c : SysTick) {s : Ticking} {t g : Nat} (hs : s.told = c.val t)
    (hne : c.val (t + g) ≠ s.told) :
    (s.read c.load (c.val (t + g))).tcnt.toNat ≤ s.tcnt.toNat + g := by
  have hsteps := downSteps_le (v := c.start.toNat) (Nat.succ_pos c.load.toNat) t g
  rw [← c.val_toNat, ← c.val_toNat] at hsteps
  have htold := c.val_le t
  have hnow := c.val_le (t + g)
  have hload := c.load.toNat_lt
  have hadded : (if c.val (t + g) < c.val t then c.val t - c.val (t + g)
      else c.load - c.val (t + g) + c.val t).toNat ≤ g := by
    split
    · next h =>
      have h := UInt32.lt_iff_toNat_lt.mp h
      rw [downSteps, if_pos (Nat.le_of_lt h)] at hsteps
      rwa [UInt32.toNat_sub_of_le _ _ (UInt32.le_iff_toNat_le.mpr (Nat.le_of_lt h))]
    · next h =>
      have hlt : (c.val t).toNat < (c.val (t + g)).toNat := by
        refine Nat.lt_of_le_of_ne (Nat.le_of_not_lt fun h' => h (UInt32.lt_iff_toNat_lt.mpr h')) ?_
        exact fun h' => hne (hs ▸ (UInt32.toNat_inj.mp h').symm)
      rw [downSteps, if_neg (Nat.not_le_of_lt hlt)] at hsteps
      rw [UInt32.toNat_add, UInt32.toNat_sub_of_le _ _ (UInt32.le_iff_toNat_le.mpr hnow)]
      omega
  rw [Ticking.read, hs]
  refine Nat.le_trans ?_ (Nat.add_le_add_left hadded _)
  rw [UInt32.toNat_add]
  exact Nat.mod_le _ _

/-- The loop is left when the ticks which are missing have passed. -/
theorem delayLoop_elapsed (c : SysTick) (ticks : UInt32) (gaps : List Nat) :
    ∀ (s : Ticking) (t n : Nat), s.told = c.val t →
    delayLoop c.load ticks s (c.readings t gaps) = some n →
    ticks.toNat ≤ s.tcnt.toNat + (gaps.take n).sum := by
  induction gaps with
  | nil => intro s t n _ h; cases h
  | cons g gaps ih =>
    intro s t n hs h
    rw [SysTick.readings, delayLoop] at h
    split at h
    · next hne =>
      have hread := read_tcnt_le c hs hne
      dsimp only at h
      split at h
      · next hge =>
        cases h
        rw [List.take_succ_cons, List.take_zero, List.sum_singleton]
        exact Nat.le_trans (UInt32.le_iff_toNat_le.mp hge) hread
      · obtain ⟨m, hm, rfl⟩ := Option.map_eq_some_iff.mp h
        have hrest := ih _ _ m rfl hm
        rw [List.take_succ_cons, List.sum_cons]
        omega
    · next heq =>
      obtain ⟨m, hm, rfl⟩ := Option.map_eq_some_iff.mp h
      have hrest := ih _ (t + g) m (not_not.mp heq).symm hm
      rw [List.take_succ_cons, List.sum_cons]
      omega

/-- **When `delay_us` is left, the ticks have passed**, as long as they fit in 32 bits. -/
theorem delayUs_elapsed (c : SysTick) (facUs nus : UInt32) (facMs : UInt16)
    (hfits : nus.toNat * facUs.toNat < 2 ^ 32) (t : Nat) (gaps : List Nat) (n : Nat)
    (h : delayUs ⟨facUs, facMs, c.load⟩ nus (c.val t) (c.readings t gaps) = some n) :
    nus.toNat * facUs.toNat ≤ (gaps.take n).sum := by
  have hle := delayLoop_elapsed c _ gaps _ t n rfl h
  rw [UInt32.toNat_mul, Nat.mod_eq_of_lt hfits] at hle
  simpa using hle

/-- The counter is read at 9, at 5 and, in the next period but one, at 2. -/
theorem delayUs_elapsed_two_readings :
    let c : SysTick := ⟨9, 9, by decide⟩
    delayUs ⟨2, 1, c.load⟩ 3 (c.val 0) (c.readings 0 [4, 13, 1]) = some 2 ∧
      (3 : UInt32).toNat * (2 : UInt32).toNat ≤ ([4, 13, 1].take 2).sum :=
  ⟨by decide, delayUs_elapsed ⟨9, 9, by decide⟩ 2 3 1 (by decide) 0 [4, 13, 1] 2 (by decide)⟩

end PlcFirmware.Delay
