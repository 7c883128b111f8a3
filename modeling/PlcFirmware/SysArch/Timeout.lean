import PlcFirmware.SysArch.Elapsed

/-!
# Timeouts in ticks

lwIP gives its timeouts in milliseconds, the kernel takes ticks, with 0 for waiting without an end. The
product is computed in 32 bits, and the kernel call gets the low 16 bits of the quotient, although
`OSQPend` and `OSSemPend` take 32.

* `ticks_exact_iff` — the timeouts which are converted as they should be
-/

namespace PlcFirmware.SysArch

open Ucos

/-- `sys_arch_mbox_fetch` pends for `n` ticks, whatever the mailbox, the clock and the kernel do. -/
def FetchPends (timeout : UInt32) (n : Nat) : Prop :=
  ∃ ticks : UInt16, ticks.toNat = n ∧ ∀ (np : NullPointer) (osTime : UInt32)
    (osqPend : UInt16 → Pended),
    sysArchMboxFetch np timeout osTime osqPend = mboxFetchReturn np osTime (osqPend ticks)

/-- `sys_arch_sem_wait` pends for `n` ticks. -/
def SemWaitPends (timeout : UInt32) (n : Nat) : Prop :=
  ∃ ticks : UInt16, ticks.toNat = n ∧ ∀ (osTime : UInt32) (osSemPend : UInt16 → Pended),
    sysArchSemWait timeout osTime osSemPend
      = sysArchSemWait timeout osTime fun _ => osSemPend ticks

/-- The ticks of a timeout, computed without a limit; a timeout is at least one tick. -/
def exactTicks (timeout : UInt32) : Nat := max 1 (timeout.toNat * osTicksPerSec.toNat / 1000)

/-! ## The ticks passed -/

/-- A kernel which times out for one number of ticks only. -/
def timesOutFor (ticks : UInt16) : UInt16 → Pended := fun t =>
  ⟨0, if t = ticks then .timeout else .none, 0⟩

theorem timesOutFor_eq_timeout_iff {ticks t : UInt16} :
    (timesOutFor ticks t).perr = .timeout ↔ t = ticks := by
  unfold timesOutFor
  by_cases h : t = ticks
  · exact iff_of_true (if_pos h) h
  · exact iff_of_false (by rw [if_neg h]; exact OsErr.noConfusion) h

theorem semWait_eq_timeout_iff {timeout osTime : UInt32} {osSemPend : UInt16 → Pended} :
    sysArchSemWait timeout osTime osSemPend = sysArchTimeout ↔
      (osSemPend (ucosTimeout timeout)).perr = .timeout := by
  rw [sysArchSemWait]
  split
  · next h => exact iff_of_true rfl h
  · next h => exact iff_of_false (millis_ne_timeout _) h

theorem fetchPends_iff {timeout : UInt32} {n : Nat} :
    FetchPends timeout n ↔ (ucosTimeout timeout).toNat = n := by
  constructor
  · rintro ⟨ticks, rfl, h⟩
    have hout := (congrArg Prod.snd (h ⟨1, by decide⟩ 0 (timesOutFor ticks))).trans
      (mboxFetchReturn_eq_timeout_iff.mpr (timesOutFor_eq_timeout_iff.mpr rfl))
    rw [timesOutFor_eq_timeout_iff.mp (mboxFetchReturn_eq_timeout_iff.mp hout)]
  · rintro rfl
    exact ⟨ucosTimeout timeout, rfl, fun _ _ _ => rfl⟩

theorem semWaitPends_iff {timeout : UInt32} {n : Nat} :
    SemWaitPends timeout n ↔ (ucosTimeout timeout).toNat = n := by
  constructor
  · rintro ⟨ticks, rfl, h⟩
    have hout := (h 0 (timesOutFor ticks)).trans
      (semWait_eq_timeout_iff.mpr (timesOutFor_eq_timeout_iff.mpr rfl))
    rw [timesOutFor_eq_timeout_iff.mp (semWait_eq_timeout_iff.mp hout)]
  · rintro rfl
    exact ⟨ucosTimeout timeout, rfl, fun _ _ => rfl⟩

/-- As long as they fit in 16 bits the ticks are the milliseconds. -/
theorem ucosTimeout_of_le {timeout : UInt32} (h0 : timeout ≠ 0) (h : timeout.toNat ≤ 65535) :
    (ucosTimeout timeout).toNat = timeout.toNat := by
  have hpos : timeout.toNat ≠ 0 := fun h => h0 (UInt32.toNat_inj.mp h)
  have hmul : (timeout * osTicksPerSec).toNat = timeout.toNat * 1000 := by
    rw [UInt32.toNat_mul, show osTicksPerSec.toNat = 1000 from rfl]
    omega
  have hticks : timeout * osTicksPerSec / 1000 = timeout := by
    apply UInt32.toNat_inj.mp
    rw [UInt32.toNat_div, hmul, show (1000 : UInt32).toNat = 1000 from rfl,
      Nat.mul_div_cancel _ (by decide)]
  have hone : ¬timeout < 1 := by
    rw [UInt32.lt_iff_toNat_lt, show (1 : UInt32).toNat = 1 from rfl]
    omega
  rw [ucosTimeout, if_pos h0]
  simp only [hticks, if_neg hone]
  rw [UInt32.toNat_toUInt16, Nat.mod_eq_of_lt (by omega)]

theorem exactTicks_eq {timeout : UInt32} (h0 : timeout ≠ 0) :
    exactTicks timeout = timeout.toNat := by
  have hpos : timeout.toNat ≠ 0 := fun h => h0 (UInt32.toNat_inj.mp h)
  rw [exactTicks, show osTicksPerSec.toNat = 1000 from rfl, Nat.mul_div_cancel _ (by decide)]
  omega

/-- **A timeout is converted exactly if and only if it is at most 65535 ms.** -/
theorem ticks_exact_iff (timeout : UInt32) (h0 : timeout ≠ 0) :
    FetchPends timeout (exactTicks timeout) ∧ SemWaitPends timeout (exactTicks timeout) ↔
      timeout.toNat ≤ 65535 := by
  rw [fetchPends_iff, semWaitPends_iff, and_self, exactTicks_eq h0]
  constructor
  · intro h
    have hlt := (ucosTimeout timeout).toNat_lt
    omega
  · exact ucosTimeout_of_le h0

theorem ticks_exact_iff_second :
    FetchPends 1000 (exactTicks 1000) ∧ SemWaitPends 1000 (exactTicks 1000) ↔
      (1000 : UInt32).toNat ≤ 65535 :=
  ticks_exact_iff 1000 (by decide)

/-- A timeout of 65536 ms is passed as 0, for which the kernel waits without an end. -/
theorem long_timeout_not_exact :
    FetchPends 65536 0 ∧ SemWaitPends 65536 0 ∧
      ¬(FetchPends 65536 (exactTicks 65536) ∧ SemWaitPends 65536 (exactTicks 65536)) := by
  have hzero : (ucosTimeout 65536).toNat = 0 := by decide
  refine ⟨fetchPends_iff.mpr hzero, semWaitPends_iff.mpr hzero, fun h => ?_⟩
  exact absurd (fetchPends_iff.mp h.1) (by decide)

end PlcFirmware.SysArch
