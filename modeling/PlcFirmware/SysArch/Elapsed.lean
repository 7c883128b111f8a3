import PlcFirmware.Ucos.Queue

/-!
# Waiting times

`sys_arch_mbox_fetch` and `sys_arch_sem_wait` read `OSTime` before and after they pend, and return the
milliseconds in between. Each computes the difference with a branch of its own for a clock that has
wrapped. The kernel call in the middle is a parameter: it gets the timeout in ticks and comes back
with a message, an error and the clock.

* `elapsed_exact_iff` — when both return the time which was waited
-/

namespace PlcFirmware.SysArch

open Ucos

/-- `&pvNullPointer`, which stands for a `NULL` message in the kernel. -/
structure NullPointer where
  addr : Ptr
  ne_zero : addr ≠ 0

/-- The message for the kernel: `NULL` is replaced. -/
def NullPointer.wrap (np : NullPointer) (msg : Ptr) : Ptr := if msg = 0 then np.addr else msg

/-- The message from the kernel: `NULL` is put back. -/
def NullPointer.unwrap (np : NullPointer) (temp : Ptr) : Ptr := if temp = np.addr then 0 else temp

/-- `SYS_ARCH_TIMEOUT` -/
def sysArchTimeout : UInt32 := 0xffffffff

/-- `OS_TICKS_PER_SEC` -/
def osTicksPerSec : UInt32 := 1000

/-- A timeout in ticks, at least one; `0` stays `0`. The kernel gets its low 16 bits. -/
def ucosTimeout (timeout : UInt32) : UInt16 :=
  if timeout ≠ 0 then
    let ticks := timeout * osTicksPerSec / 1000
    (if ticks < 1 then 1 else ticks).toUInt16
  else 0

/-- What `OSQPend` and `OSSemPend` come back with, and `OSTime` then. -/
structure Pended where
  pmsg : Ptr
  perr : OsErr
  osTime : UInt32

/-- `sys_arch_mbox_fetch` behind `OSQPend`: `*msg` and the return value. -/
def mboxFetchReturn (np : NullPointer) (timeout : UInt32) (p : Pended) : Ptr × UInt32 :=
  let msg := np.unwrap p.pmsg
  if p.perr = .timeout then (msg, sysArchTimeout)
  else
    let timeoutNew :=
      if p.osTime > timeout then p.osTime - timeout else 0xffffffff - timeout + p.osTime
    (msg, timeoutNew * 1000 / osTicksPerSec + 1)

/-- `sys_arch_mbox_fetch`, with `osTime` the clock at entry. -/
def sysArchMboxFetch (np : NullPointer) (timeout osTime : UInt32) (osqPend : UInt16 → Pended) :
    Ptr × UInt32 :=
  mboxFetchReturn np osTime (osqPend (ucosTimeout timeout))

/-- `sys_arch_sem_wait`, with `osTime` the clock at entry. -/
def sysArchSemWait (timeout osTime : UInt32) (osSemPend : UInt16 → Pended) : UInt32 :=
  let p := osSemPend (ucosTimeout timeout)
  if p.perr = .timeout then sysArchTimeout
  else
    let timeoutNew :=
      if p.osTime ≥ osTime then p.osTime - osTime else 0xffffffff - osTime + p.osTime
    timeoutNew * 1000 / osTicksPerSec + 1

/-! ## The difference of the clock -/

/-- Ticks in milliseconds, as long as the product fits. -/
theorem millis_eq {n : UInt32} (h : n.toNat ≤ 4294967) :
    (n * 1000 / osTicksPerSec + 1).toNat = n.toNat + 1 := by
  have hmul : (n * 1000).toNat = n.toNat * 1000 := by
    rw [UInt32.toNat_mul, show (1000 : UInt32).toNat = 1000 from rfl]
    omega
  rw [UInt32.toNat_add, UInt32.toNat_div, hmul, show osTicksPerSec.toNat = 1000 from rfl,
    Nat.mul_div_cancel _ (by decide), show (1 : UInt32).toNat = 1 from rfl]
  omega

/-- No number of ticks reads as a timeout. -/
theorem millis_ne_timeout (n : UInt32) : n * 1000 / osTicksPerSec + 1 ≠ sysArchTimeout := by
  intro h
  have hlt := (n * 1000).toNat_lt
  have heq : (n * 1000 / osTicksPerSec + 1).toNat = 4294967295 := by rw [h]; rfl
  rw [UInt32.toNat_add, UInt32.toNat_div, show osTicksPerSec.toNat = 1000 from rfl,
    show (1 : UInt32).toNat = 1 from rfl] at heq
  omega

/-- The branch for a clock which has wrapped is one tick short. -/
theorem wrapped_eq {s d : UInt32} (hd : d ≠ 0) :
    (0xffffffff - s + (s + d)).toNat = d.toNat - 1 := by
  have h0 : d.toNat ≠ 0 := fun h => hd (UInt32.toNat_inj.mp h)
  have hs := s.toNat_lt
  have hlt := d.toNat_lt
  rw [UInt32.toNat_add, UInt32.toNat_sub, UInt32.toNat_add,
    show (0xffffffff : UInt32).toNat = 4294967295 from rfl]
  omega

/-- What a wait of `d` ticks may return. -/
def Exact (d r : UInt32) : Prop :=
  d.toNat ≤ r.toNat ∧ r.toNat ≤ d.toNat + 1 ∧ r ≠ sysArchTimeout

instance (d r : UInt32) : Decidable (Exact d r) := inferInstanceAs (Decidable (_ ∧ _ ∧ _))

theorem exact_of_toNat {d r : UInt32} (hd : d.toNat < 4294967)
    (h : r.toNat = d.toNat ∨ r.toNat = d.toNat + 1) : Exact d r := by
  refine ⟨by omega, by omega, ?_⟩
  rintro rfl
  have : sysArchTimeout.toNat = 4294967295 := rfl
  omega

/-- For a wait which is not empty either branch is good enough. -/
theorem exact_of_ne_zero {s d : UInt32} (hd : d.toNat < 4294967) (h0 : d ≠ 0) (ahead : Prop)
    [Decidable ahead] :
    Exact d ((if ahead then s + d - s else 0xffffffff - s + (s + d)) * 1000 / osTicksPerSec + 1) := by
  have hpos : d.toNat ≠ 0 := fun h => h0 (UInt32.toNat_inj.mp h)
  split
  · have hsub : s + d - s = d := by rw [UInt32.add_comm, UInt32.add_sub_cancel]
    rw [hsub]
    exact exact_of_toNat hd (Or.inr (millis_eq (Nat.le_of_lt hd)))
  · have hw := wrapped_eq (s := s) h0
    refine exact_of_toNat hd (Or.inl ?_)
    rw [millis_eq (by omega), hw]
    omega

/-- **The caller tells a timeout by the return value.** -/
theorem mboxFetchReturn_eq_timeout_iff {np : NullPointer} {timeout : UInt32} {p : Pended} :
    (mboxFetchReturn np timeout p).2 = sysArchTimeout ↔ p.perr = .timeout := by
  unfold mboxFetchReturn
  split
  · next h => exact iff_of_true rfl h
  · next h => exact iff_of_false (millis_ne_timeout _) h

theorem mboxFetchReturn_msg {np : NullPointer} {timeout : UInt32} {p : Pended} :
    (mboxFetchReturn np timeout p).1 = np.unwrap p.pmsg := by
  unfold mboxFetchReturn
  split
  · rfl
  · rfl

/-! ## The two functions -/

section Obtained

variable (np : NullPointer) (timeout s d : UInt32) (pmsg : Ptr)

/-- A message or a semaphore obtained after `d` ticks. -/
def obtained : UInt16 → Pended := fun _ => ⟨pmsg, .none, s + d⟩

variable {np timeout s d pmsg}

theorem semWait_obtained : sysArchSemWait timeout s (obtained s d pmsg) =
    (if s + d ≥ s then s + d - s else 0xffffffff - s + (s + d)) * 1000 / osTicksPerSec + 1 := rfl

theorem mboxFetch_obtained : (sysArchMboxFetch np timeout s (obtained s d pmsg)).2 =
    (if s + d > s then s + d - s else 0xffffffff - s + (s + d)) * 1000 / osTicksPerSec + 1 := rfl

/-- **`sys_arch_sem_wait` always returns the time.** -/
theorem semWait_exact (hd : d.toNat < 4294967) :
    Exact d (sysArchSemWait timeout s (obtained s d pmsg)) := by
  rw [semWait_obtained]
  by_cases h0 : d = 0
  · subst h0
    rw [UInt32.add_zero, if_pos (UInt32.le_refl s), UInt32.sub_self]
    decide
  · exact exact_of_ne_zero hd h0 _

/-- Without a tick in between, `sys_arch_mbox_fetch` takes the clock for wrapped. -/
theorem mboxFetch_zero :
    (sysArchMboxFetch np timeout s (obtained s 0 pmsg)).2 = 4294967 := by
  rw [mboxFetch_obtained, UInt32.add_zero, if_neg (UInt32.lt_irrefl s), UInt32.sub_add_cancel]
  decide

/-- **`sys_arch_mbox_fetch` returns the time if there is one.** -/
theorem mboxFetch_exact_iff (hd : d.toNat < 4294967) :
    Exact d (sysArchMboxFetch np timeout s (obtained s d pmsg)).2 ↔ d ≠ 0 := by
  by_cases h0 : d = 0
  · subst h0
    rw [mboxFetch_zero]
    exact ⟨fun h => absurd h.2.1 (by decide), fun h => absurd rfl h⟩
  · refine iff_of_true ?_ h0
    rw [mboxFetch_obtained]
    exact exact_of_ne_zero hd h0 _

/-- **Both functions return the time waited if and only if at least one tick has passed.** -/
theorem elapsed_exact_iff (np : NullPointer) (timeout s d : UInt32) (pmsg : Ptr)
    (hd : d.toNat < 4294967) :
    Exact d (sysArchMboxFetch np timeout s (obtained s d pmsg)).2 ∧
        Exact d (sysArchSemWait timeout s (obtained s d pmsg)) ↔
      d ≠ 0 := by
  rw [mboxFetch_exact_iff hd]
  exact and_iff_left (semWait_exact hd)

theorem elapsed_exact_iff_one_tick :
    Exact 1 (sysArchMboxFetch ⟨4, by decide⟩ 0 0xffffffff (obtained 0xffffffff 1 8)).2 ∧
        Exact 1 (sysArchSemWait 0 0xffffffff (obtained 0xffffffff 1 8)) ↔
      (1 : UInt32) ≠ 0 :=
  elapsed_exact_iff ⟨4, by decide⟩ 0 0xffffffff 1 8 (by decide)

/-- A message which is there already at tick 7. -/
theorem fetch_at_once_not_exact :
    ¬Exact 0 (sysArchMboxFetch ⟨4, by decide⟩ 100 7 (obtained 7 0 8)).2 := by
  rw [mboxFetch_zero]
  exact fun h => absurd h.2.1 (by decide)

end Obtained

end PlcFirmware.SysArch
