import PlcFirmware.Delay.Basic

/-!
# Delays of milliseconds

Outside of a task `delay_ms` leaves it all to `delay_us`, which multiplies the microseconds by
`fac_us` in 32 bits. With 216 counts in a microsecond the product fits up to 19884 ms; beyond that the
loop is left too early if the counter is read often enough.

* `delayMs_elapsed_iff` — the delays which are kept
-/

namespace PlcFirmware.Delay

/-! ## Reading at every count -/

section EveryCount

variable {c : SysTick} {s : Ticking} {t : Nat} (hs : s.told = c.val t)

include hs

/-- The counter has gone down by one, which is counted. -/
theorem read_next (hv : (c.val t).toNat ≠ 0) :
    c.val (t + 1) ≠ s.told ∧ (s.read c.load (c.val (t + 1))).tcnt = s.tcnt + 1 := by
  have hval := c.val_succ t
  rw [if_neg hv] at hval
  have hlt : c.val (t + 1) < c.val t := UInt32.lt_iff_toNat_lt.mpr (by omega)
  have hone : c.val t - c.val (t + 1) = 1 := by
    apply UInt32.toNat_inj.mp
    rw [UInt32.toNat_sub_of_le _ _ (UInt32.le_of_lt hlt), show (1 : UInt32).toNat = 1 from rfl]
    omega
  refine ⟨fun h => absurd (h.trans hs) (UInt32.ne_of_lt hlt), ?_⟩
  rw [Ticking.read, hs]
  simp only [if_pos hlt, hone]

/-- The counter has started again, which is not counted. -/
theorem read_again (hload : c.load ≠ 0) (hv : (c.val t).toNat = 0) :
    c.val (t + 1) ≠ s.told ∧ (s.read c.load (c.val (t + 1))).tcnt = s.tcnt ∧
      (c.val (t + 1)).toNat ≠ 0 := by
  have hval : c.val (t + 1) = c.load := by
    apply UInt32.toNat_inj.mp
    rw [c.val_succ t, if_pos hv]
  have hzero : c.val t = 0 := UInt32.toNat_inj.mp hv
  have hnot : ¬c.load < 0 := by
    rw [UInt32.lt_iff_toNat_lt]
    exact Nat.not_lt_zero _
  rw [Ticking.read, hval, hs, hzero]
  refine ⟨hload, ?_, fun h => hload (UInt32.toNat_inj.mp h)⟩
  simp only [if_neg hnot, UInt32.sub_self, UInt32.add_zero]

end EveryCount

theorem delayLoop_leave {reload ticks tnow : UInt32} {s : Ticking} (hne : tnow ≠ s.told)
    (hge : (s.read reload tnow).tcnt ≥ ticks) (readings : List UInt32) :
    delayLoop reload ticks s (tnow :: readings) = some 1 := by
  rw [delayLoop, if_pos hne]
  exact if_pos hge

theorem delayLoop_stay {reload ticks tnow : UInt32} {s : Ticking} (hne : tnow ≠ s.told)
    (hlt : ¬(s.read reload tnow).tcnt ≥ ticks) (readings : List UInt32) :
    delayLoop reload ticks s (tnow :: readings)
      = (delayLoop reload ticks (s.read reload tnow) readings).map (· + 1) := by
  rw [delayLoop, if_pos hne]
  exact if_neg hlt

theorem toNat_succ {a b : UInt32} {m : Nat} (h : a.toNat + (m + 1) = b.toNat) :
    (a + 1).toNat = a.toNat + 1 := by
  have hb := b.toNat_lt
  rw [UInt32.toNat_add, show (1 : UInt32).toNat = 1 from rfl, Nat.mod_eq_of_lt (by omega)]

/-- If the counter is read at every count, the loop is left after two readings for each tick at the
latest. -/
theorem delayLoop_everyCount (c : SysTick) (hload : c.load ≠ 0) (ticks : UInt32) (m : Nat) :
    ∀ (t : Nat) (s : Ticking), s.told = c.val t → 0 < m → s.tcnt.toNat + m = ticks.toNat →
    ∃ n ≤ 2 * m, delayLoop c.load ticks s (c.readings t (List.replicate n 1)) = some n := by
  induction m with
  | zero => intro t s _ hm; exact absurd hm (Nat.lt_irrefl 0)
  | succ m ih =>
    -- a reading which counts is the last one, or there is one tick less to go
    have hcount : ∀ (t : Nat) (s : Ticking), s.told = c.val t → (c.val t).toNat ≠ 0 →
        s.tcnt.toNat + (m + 1) = ticks.toNat → ∃ n ≤ 2 * m + 1,
          delayLoop c.load ticks s (c.readings t (List.replicate n 1)) = some n := by
      intro t s hs hv hm
      obtain ⟨hne, htcnt⟩ := read_next hs hv
      have hsucc := toNat_succ hm
      by_cases h0 : m = 0
      · refine ⟨1, by omega, delayLoop_leave hne ?_ _⟩
        rw [ge_iff_le, UInt32.le_iff_toNat_le, htcnt, hsucc]
        omega
      · obtain ⟨n, hn, hloop⟩ := ih (t + 1) (s.read c.load (c.val (t + 1))) rfl
          (Nat.pos_of_ne_zero h0) (by rw [htcnt, hsucc]; omega)
        refine ⟨n + 1, by omega, ?_⟩
        rw [List.replicate_succ, SysTick.readings, delayLoop_stay hne, hloop, Option.map_some]
        rw [ge_iff_le, UInt32.le_iff_toNat_le, htcnt, hsucc]
        omega
    intro t s hs _ hm
    by_cases hv : (c.val t).toNat = 0
    · obtain ⟨hne, htcnt, hv'⟩ := read_again hs hload hv
      obtain ⟨n, hn, hloop⟩ := hcount (t + 1) (s.read c.load (c.val (t + 1))) rfl hv'
        (by rw [htcnt]; exact hm)
      refine ⟨n + 1, by omega, ?_⟩
      rw [List.replicate_succ, SysTick.readings, delayLoop_stay hne, hloop, Option.map_some]
      rw [ge_iff_le, UInt32.le_iff_toNat_le, htcnt]
      omega
    · obtain ⟨n, hn, hloop⟩ := hcount t s hs hv hm
      exact ⟨n, by omega, hloop⟩

/-! ## `delay_ms` -/

/-- The system clock as `main` sets it. -/
def mainConfig : DelayConfig := delayInit 216

/-- When `delay_ms` returns, `nms` milliseconds have passed, whatever the counter shows at the start
and whenever it is read. -/
def KeepsMillis (os : OsState) (nms : UInt16) : Prop :=
  ∀ c : SysTick, c.load = mainConfig.load → ∀ (t : Nat) (gaps : List Nat) (n : Nat),
    (delayMs mainConfig os nms (c.val t) (c.readings t gaps)).2 = some n →
    nms.toNat * 1000 * 216 ≤ (gaps.take n).sum

theorem mainConfig_eq : mainConfig = ⟨216, 1, 216000⟩ := rfl

/-- Outside of a task the whole delay is left to `delay_us`. -/
theorem delayMs_outside {os : OsState} (h : os.inTask = false) (cfg : DelayConfig) (nms : UInt16)
    (told : UInt32) (readings : List UInt32) :
    delayMs cfg os nms told readings = (none, delayUs cfg (nms.toUInt32 * 1000) told readings) := by
  simp [delayMs, h]

theorem micros_toNat (nms : UInt16) : (nms.toUInt32 * 1000).toNat = nms.toNat * 1000 := by
  have hlt := nms.toNat_lt
  rw [UInt32.toNat_mul, UInt16.toNat_toUInt32, show (1000 : UInt32).toNat = 1000 from rfl,
    Nat.mod_eq_of_lt (by omega)]

theorem keepsMillis_of_le {os : OsState} (hos : os.inTask = false) {nms : UInt16}
    (h : nms.toNat ≤ 19884) : KeepsMillis os nms := by
  intro c hload t gaps n hn
  rw [delayMs_outside hos, mainConfig_eq] at hn
  rw [mainConfig_eq] at hload
  have hfits : (nms.toUInt32 * 1000).toNat * (216 : UInt32).toNat < 2 ^ 32 := by
    rw [micros_toNat, show (216 : UInt32).toNat = 216 from rfl]
    omega
  have hle := delayUs_elapsed c 216 _ 1 hfits t gaps n (by rw [hload]; exact hn)
  rwa [micros_toNat] at hle

/-- What is left of the product is not 0: it has too few factors 2. -/
theorem ticks_pos {n : Nat} (hpos : 0 < n) (hlt : n < 65536) :
    0 < n * 216000 % 4294967296 := by
  have hsmall : n * 64 < 4294967296 := by omega
  have hodd : Nat.Coprime 4294967296 3375 := by decide
  refine Nat.pos_of_ne_zero fun hzero => ?_
  have hdvd : 4294967296 ∣ n * 64 * 3375 := by
    rw [Nat.mul_assoc]
    exact Nat.dvd_of_mod_eq_zero hzero
  have hle := Nat.le_of_dvd (Nat.mul_pos hpos (by decide)) (hodd.dvd_of_dvd_mul_right hdvd)
  exact absurd hsmall (Nat.not_lt_of_le hle)

/-- The product wraps around, and the counter which is read at every count reaches what is left of it
in less than a full turn more. -/
theorem not_keepsMillis_of_lt {os : OsState} (hos : os.inTask = false) {nms : UInt16}
    (h : 19884 < nms.toNat) : ¬KeepsMillis os nms := by
  intro hkeeps
  have hlt := nms.toNat_lt
  let c : SysTick := ⟨216000, 216000, UInt32.le_refl _⟩
  have hticks : (nms.toUInt32 * 1000 * 216).toNat = nms.toNat * 216000 % 4294967296 := by
    rw [UInt32.toNat_mul, micros_toNat, show (216 : UInt32).toNat = 216 from rfl, Nat.mul_assoc]
  obtain ⟨n, hn, hloop⟩ := delayLoop_everyCount c (by decide) (nms.toUInt32 * 1000 * 216)
    (nms.toNat * 216000 % 4294967296) 0 ⟨c.val 0, 0⟩ rfl (ticks_pos (by omega) hlt)
    (by rw [hticks]; exact Nat.zero_add _)
  have hle := hkeeps c rfl 0 (List.replicate n 1) n (by
    rw [delayMs_outside hos, mainConfig_eq]; exact hloop)
  rw [List.take_replicate, Nat.min_self, List.sum_replicate_nat, Nat.mul_one] at hle
  have hmod := Nat.mod_lt (nms.toNat * 216000) (by decide : 0 < 4294967296)
  have hdiv := Nat.div_add_mod (nms.toNat * 216000) (4294967296)
  have hturn : 1 ≤ nms.toNat * 216000 / 4294967296 := by omega
  omega

/-- **Outside of a task `delay_ms` keeps the delays up to 19884 ms, and no longer ones.** -/
theorem delayMs_elapsed_iff (os : OsState) (hos : os.inTask = false) (nms : UInt16) :
    KeepsMillis os nms ↔ nms.toNat ≤ 19884 := by
  refine ⟨fun hkeeps => Nat.le_of_not_lt fun h => ?_, keepsMillis_of_le hos⟩
  exact not_keepsMillis_of_lt hos h hkeeps

theorem delayMs_elapsed_iff_half_second :
    KeepsMillis ⟨false, 0⟩ 500 ↔ (500 : UInt16).toNat ≤ 19884 :=
  delayMs_elapsed_iff ⟨false, 0⟩ rfl 500

/-- A delay of 20 s before the kernel runs. -/
theorem twenty_seconds_not_kept : ¬KeepsMillis ⟨false, 0⟩ 20000 :=
  not_keepsMillis_of_lt rfl (by decide)

end PlcFirmware.Delay
