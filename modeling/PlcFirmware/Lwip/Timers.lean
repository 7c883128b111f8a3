import PlcFirmware.Infra.Alarms
import PlcFirmware.Infra.DeltaList
import PlcFirmware.SysArch.Elapsed

/-!
# Timeouts of the TCP/IP stack

`timers.c`: the list of timeouts, of which each holds the milliseconds after the one before it, as 32-bit
numbers. The list is the one and only, and the thread of the stack alone uses it. A timeout is allocated
in a pool of its own, so that `memp_malloc` fails when the pool is as long as the list.

* `entries_sysTimeout`, `entries_sysUntimeout` — the loops over the list are operations on a delta list
* `Alike.step` — the list does what alarms do
* `timeouts_run` — no timeout is lost, called twice, early or out of order, over any run
-/

namespace PlcFirmware.Lwip

open Infra SysArch

/-- `struct sys_timeo` -/
structure SysTimeo (H A : Type _) where
  time : UInt32
  h : H
  arg : A

variable {H A : Type _}

/-- The loop of `sys_timeout`, from `t` on. -/
def sysTimeoutLoop (timeout : SysTimeo H A) : List (SysTimeo H A) → List (SysTimeo H A)
  | [] => []
  | t :: next =>
    let timeout := { timeout with time := timeout.time - t.time }
    match next with
    | [] => [t, timeout]
    | u :: rest =>
      if u.time > timeout.time then
        t :: timeout :: { u with time := u.time - timeout.time } :: rest
      else t :: sysTimeoutLoop timeout (u :: rest)

/-- `sys_timeout`; the pool has room for `pool` timeouts. -/
def sysTimeout (pool : Nat) (msecs : UInt32) (handler : H) (arg : A) (nextTimeout : List (SysTimeo H A)) :
    List (SysTimeo H A) :=
  if nextTimeout.length ≥ pool then nextTimeout
  else
    let timeout := ⟨msecs, handler, arg⟩
    match nextTimeout with
    | [] => [timeout]
    | t :: rest =>
      if t.time > msecs then timeout :: { t with time := t.time - msecs } :: rest
      else sysTimeoutLoop timeout (t :: rest)

section

variable [DecidableEq H] [DecidableEq A]

/-- `sys_untimeout` -/
def sysUntimeout (handler : H) (arg : A) : List (SysTimeo H A) → List (SysTimeo H A)
  | [] => []
  | t :: next =>
    if t.h = handler ∧ t.arg = arg then
      match next with
      | [] => []
      | u :: rest => { u with time := u.time + t.time } :: rest
    else t :: sysUntimeout handler arg next

end

/--
One round of `sys_timeouts_mbox_fetch`: what `sys_arch_mbox_fetch` returns is `timeNeeded`, and the
timeout whose handler is called, if there is one.
-/
def sysTimeoutsMboxFetch (timeNeeded : UInt32) (nextTimeout : List (SysTimeo H A)) :
    List (SysTimeo H A) × Option (SysTimeo H A) :=
  match nextTimeout with
  | [] => ([], none)
  | t :: next =>
    let timeNeeded := if t.time > 0 then timeNeeded else sysArchTimeout
    if timeNeeded = sysArchTimeout then (next, some t)
    else
      ({ t with time := if timeNeeded < t.time then t.time - timeNeeded else 0 } :: next, none)

/-- A call of the module, by the thread of the stack. -/
inductive TimerCall (H A : Type _)
  | sysTimeout (msecs : UInt32) (handler : H) (arg : A)
  | sysUntimeout (handler : H) (arg : A)
  | fetch (timeNeeded : UInt32)

/-- The module as a machine; its outputs are the handlers which are called. -/
def timers (H A : Type _) [DecidableEq H] [DecidableEq A] (pool : Nat) :
    Machine (List (SysTimeo H A)) (TimerCall H A) (H × A) where
  step nextTimeout
    | .sysTimeout msecs handler arg => (sysTimeout pool msecs handler arg nextTimeout, [])
    | .sysUntimeout handler arg => (sysUntimeout handler arg nextTimeout, [])
    | .fetch timeNeeded =>
      let r := sysTimeoutsMboxFetch timeNeeded nextTimeout
      (r.1, (r.2.map fun t => (t.h, t.arg)).toList)

/-! ## The list as a delta list -/

/-- The entry of a delta list. -/
def SysTimeo.entry (t : SysTimeo H A) : Nat × H × A := (t.time.toNat, t.h, t.arg)

/-- The list as a delta list. -/
def entries (l : List (SysTimeo H A)) : List (Nat × H × A) := l.map SysTimeo.entry

/-- The last timeout of the list is due within 32 bits. -/
def Fits (l : List (SysTimeo H A)) : Prop := DeltaList.span (entries l) < 2 ^ 32

variable {l : List (SysTimeo H A)} {t u : SysTimeo H A}

@[simp] theorem entries_cons : entries (t :: l) = t.entry :: entries l := rfl

theorem toNat_sub_of_ge {a b : UInt32} (h : ¬b > a) : (a - b).toNat = a.toNat - b.toNat :=
  UInt32.toNat_sub_of_le a b (UInt32.not_lt.mp h)

/-- **The loop of `sys_timeout` puts the timeout in behind those which are due no later.** -/
theorem entries_sysTimeoutLoop (timeout t : SysTimeo H A) (l : List (SysTimeo H A))
    (h : ¬t.time > timeout.time) :
    entries (sysTimeoutLoop timeout (t :: l)) =
      DeltaList.insert timeout.time.toNat (timeout.h, timeout.arg) (entries (t :: l)) := by
  induction l generalizing timeout t with
  | nil =>
    have hsub : (timeout.time - t.time).toNat = timeout.time.toNat - t.entry.1 := toNat_sub_of_ge h
    have hge : ¬timeout.time.toNat < t.entry.1 := fun hn => h (UInt32.lt_iff_toNat_lt.mpr hn)
    rw [entries_cons, DeltaList.insert_of_ge hge, ← hsub]
    rfl
  | cons u l ih =>
    have hsub : (timeout.time - t.time).toNat = timeout.time.toNat - t.entry.1 := toNat_sub_of_ge h
    have hge : ¬timeout.time.toNat < t.entry.1 := fun hn => h (UInt32.lt_iff_toNat_lt.mpr hn)
    rw [entries_cons, DeltaList.insert_of_ge hge, ← hsub]
    unfold sysTimeoutLoop
    dsimp only
    split
    · next hlt =>
      have hlt' : (timeout.time - t.time).toNat < u.entry.1 := UInt32.lt_iff_toNat_lt.mp hlt
      have hrest : (u.time - (timeout.time - t.time)).toNat = u.entry.1 - (timeout.time - t.time).toNat :=
        toNat_sub_of_ge (UInt32.not_lt.mpr (UInt32.le_of_lt hlt))
      rw [entries_cons (t := u), DeltaList.insert_of_lt hlt', ← hrest]
      rfl
    · next hlt =>
      rw [entries_cons, ih ⟨timeout.time - t.time, timeout.h, timeout.arg⟩ u hlt]

/-- **`sys_timeout`**, if there is room in the pool. -/
theorem entries_sysTimeout {pool : Nat} (hroom : l.length < pool) (msecs : UInt32) (handler : H)
    (arg : A) :
    entries (sysTimeout pool msecs handler arg l) =
      DeltaList.insert msecs.toNat (handler, arg) (entries l) := by
  unfold sysTimeout
  rw [if_neg (Nat.not_le.mpr hroom)]
  cases l with
  | nil => rfl
  | cons t l =>
    dsimp only
    split
    · next hlt =>
      have hlt' : msecs.toNat < t.entry.1 := UInt32.lt_iff_toNat_lt.mp hlt
      have hrest : (t.time - msecs).toNat = t.entry.1 - msecs.toNat :=
        toNat_sub_of_ge (UInt32.not_lt.mpr (UInt32.le_of_lt hlt))
      rw [entries_cons (t := t), DeltaList.insert_of_lt hlt', ← hrest]
      rfl
    · next hge => exact entries_sysTimeoutLoop ⟨msecs, handler, arg⟩ t l hge

section

variable [DecidableEq H] [DecidableEq A]

/-- **`sys_untimeout`.** The sum of two deltas is no later than the last timeout, so that it fits. -/
theorem entries_sysUntimeout (hfits : Fits l) (handler : H) (arg : A) :
    entries (sysUntimeout handler arg l) =
      DeltaList.remove (fun x => x = (handler, arg)) (entries l) := by
  induction l with
  | nil => rfl
  | cons t l ih =>
    unfold sysUntimeout
    rw [entries_cons]
    by_cases hfound : t.h = handler ∧ t.arg = arg
    · have hp : (fun x : H × A => decide (x = (handler, arg))) t.entry.2 := by
        rw [decide_eq_true_iff]
        exact Prod.ext hfound.1 hfound.2
      rw [if_pos hfound]
      cases l with
      | nil =>
        exact (DeltaList.remove_last hp).symm
      | cons u l =>
        have hsum : t.time.toNat + (u.time.toNat + DeltaList.span (entries l)) < 2 ^ 32 := hfits
        have hadd : (u.time + t.time).toNat = u.entry.1 + t.entry.1 := by
          rw [UInt32.toNat_add]
          exact Nat.mod_eq_of_lt (by omega)
        rw [entries_cons (t := u),
          DeltaList.remove_first (p := fun x : H × A => decide (x = (handler, arg))) hp, ← hadd]
        rfl
    · have hp : ¬(fun x : H × A => decide (x = (handler, arg))) t.entry.2 := by
        rw [decide_eq_true_iff]
        exact fun heq => hfound ⟨congrArg Prod.fst heq, congrArg Prod.snd heq⟩
      have hrest : Fits l := Nat.lt_of_le_of_lt (Nat.le_add_left ..) hfits
      rw [if_neg hfound, DeltaList.remove_of_not hp, entries_cons, ih hrest]

end

/--
What a round can do: call the first timeout, when it is due or nothing came in time, or take the time
which was waited from its delta.
-/
theorem fetch_cases (timeNeeded : UInt32) (t : SysTimeo H A) (l : List (SysTimeo H A)) :
    ((t.time.toNat = 0 ∨ timeNeeded = sysArchTimeout) ∧
      sysTimeoutsMboxFetch timeNeeded (t :: l) = (l, some t)) ∨
    (t.time.toNat ≠ 0 ∧ timeNeeded ≠ sysArchTimeout ∧ ∃ time : UInt32,
      time.toNat = t.time.toNat - min timeNeeded.toNat t.time.toNat ∧
        sysTimeoutsMboxFetch timeNeeded (t :: l) = ({ t with time := time } :: l, none)) := by
  unfold sysTimeoutsMboxFetch
  dsimp only
  by_cases hpos : t.time > 0
  · have hne : t.time.toNat ≠ 0 := Nat.ne_of_gt (UInt32.lt_iff_toNat_lt.mp hpos)
    rw [if_pos hpos]
    by_cases hnone : timeNeeded = sysArchTimeout
    · rw [if_pos hnone]
      exact Or.inl ⟨Or.inr hnone, rfl⟩
    · rw [if_neg hnone]
      refine Or.inr ⟨hne, hnone, _, ?_, rfl⟩
      split
      · next hlt =>
        have hle : timeNeeded.toNat ≤ t.time.toNat := (UInt32.lt_iff_toNat_lt.mp hlt).le
        rw [Nat.min_eq_left hle]
        exact toNat_sub_of_ge (UInt32.not_lt.mpr (UInt32.le_of_lt hlt))
      · next hge =>
        have hle : t.time.toNat ≤ timeNeeded.toNat :=
          Nat.not_lt.mp fun hn => hge (UInt32.lt_iff_toNat_lt.mpr hn)
        rw [Nat.min_eq_right hle, Nat.sub_self]
        rfl
  · have hzero : t.time.toNat = 0 :=
      Nat.eq_zero_of_not_pos fun hn => hpos (UInt32.lt_iff_toNat_lt.mpr hn)
    rw [if_neg hpos, if_pos rfl]
    exact Or.inl ⟨Or.inl hzero, rfl⟩

/-! ## The list as alarms -/

/-- The list means the alarms which are pending. -/
structure Alike (l : List (SysTimeo H A)) (s : Alarms (H × A)) : Prop where
  fits : Fits l
  due : DeltaList.due s.clock (entries l) = s.pending

/-- What a call is for the alarms. -/
def TimerCall.ask : TimerCall H A → Alarms.Input (H × A)
  | sysTimeout msecs handler arg => .set msecs.toNat (handler, arg)
  | sysUntimeout handler arg => .cancel (handler, arg)
  | fetch timeNeeded => .wait (if timeNeeded = sysArchTimeout then none else some timeNeeded.toNat)

namespace Alike

variable {s : Alarms (H × A)}

theorem length (h : Alike l s) : s.pending.length = l.length := by
  rw [← h.due, DeltaList.length_due, entries, List.length_map]

/-- The first timeout is called. -/
theorem call (h : Alike (t :: l) s) : s.pending = (s.clock + t.entry.1, t.h, t.arg) ::
    DeltaList.due (s.clock + t.entry.1) (entries l) ∧
      Alike l ⟨s.clock + t.entry.1, DeltaList.due (s.clock + t.entry.1) (entries l)⟩ :=
  ⟨h.due.symm, Nat.lt_of_le_of_lt (Nat.le_add_left ..) h.fits, rfl⟩

/-- A message has come, after no more than the first delta. -/
theorem pass (h : Alike (t :: l) s) (time : UInt32) {w : Nat} (hw : w ≤ t.entry.1)
    (htime : time.toNat = t.entry.1 - w) :
    Alike ({ t with time := time } :: l) ⟨s.clock + w, s.pending⟩ := by
  have hentry : SysTimeo.entry { t with time := time } = (t.entry.1 - w, t.entry.2) :=
    congrArg (fun n => (n, t.h, t.arg)) htime
  constructor
  · have hfits := h.fits
    unfold Fits at hfits ⊢
    rw [entries_cons, DeltaList.span_cons] at hfits ⊢
    rw [hentry]
    omega
  · rw [entries_cons, hentry]
    exact (DeltaList.due_pass hw).trans h.due

variable [DecidableEq H] [DecidableEq A] {pool : Nat}

/-- **A call does what it does for the alarms.** -/
theorem step (h : Alike l s) (c : TimerCall H A) :
    Alike ((timers H A pool).step l c).1 (Alarms.step pool s c.ask).1 ∧
      ((timers H A pool).step l c).2 =
        ((Alarms.step pool s c.ask).2.filterMap Alarms.Event.ring).map Prod.snd := by
  cases c with
  | sysTimeout msecs handler arg =>
    show Alike (sysTimeout pool msecs handler arg l) _ ∧ _
    unfold TimerCall.ask Alarms.step
    dsimp only
    by_cases hroom : l.length < pool
    · rw [if_pos (h.length.trans_lt hroom)]
      have hins := entries_sysTimeout hroom msecs handler arg
      refine ⟨⟨?_, ?_⟩, rfl⟩
      · refine Nat.lt_of_le_of_lt (hins ▸ DeltaList.span_insert _ _ _) ?_
        exact max_lt h.fits msecs.toNat_lt
      · rw [hins, DeltaList.due_insert, h.due]
    · rw [if_neg fun hn => hroom (h.length ▸ hn)]
      unfold sysTimeout
      rw [if_pos (Nat.not_lt.mp hroom)]
      exact ⟨h, rfl⟩
  | sysUntimeout handler arg =>
    have hrem := entries_sysUntimeout h.fits handler arg
    refine ⟨⟨?_, ?_⟩, ?_⟩
    · exact Nat.lt_of_le_of_lt (hrem ▸ DeltaList.span_remove _ _) h.fits
    · show DeltaList.due s.clock (entries (sysUntimeout handler arg l)) = _
      rw [hrem, DeltaList.due_remove, h.due]
      rfl
    · unfold TimerCall.ask Alarms.step
      dsimp only
      cases s.pending.find? (·.2 = (handler, arg)) <;> rfl
  | fetch timeNeeded =>
    show Alike (sysTimeoutsMboxFetch timeNeeded l).1 _ ∧
      ((sysTimeoutsMboxFetch timeNeeded l).2.map fun t => (t.h, t.arg)).toList = _
    obtain ⟨clock, pending⟩ := s
    cases l with
    | nil =>
      have hnil : [] = pending := h.due
      subst hnil
      exact ⟨⟨h.fits, rfl⟩, rfl⟩
    | cons t l =>
      obtain ⟨hpending, hrest⟩ := h.call
      dsimp only at hpending hrest
      subst hpending
      unfold TimerCall.ask Alarms.step
      dsimp only
      rcases fetch_cases timeNeeded t l with ⟨hdue, hcall⟩ | ⟨hne, hcame, time, htime, hpass⟩
      · rw [hcall]
        dsimp only
        by_cases hnone : timeNeeded = sysArchTimeout
        · rw [if_pos hnone]
          exact ⟨hrest, rfl⟩
        · have hzero : clock = clock + t.entry.1 := by
            have : t.entry.1 = 0 := hdue.resolve_right hnone
            omega
          rw [if_neg hnone]
          dsimp only
          rw [if_pos hzero]
          exact ⟨hrest, rfl⟩
      · have hlate : ¬clock = clock + t.entry.1 := by
          have : t.entry.1 ≠ 0 := hne
          omega
        have hmin : min (clock + timeNeeded.toNat) (clock + t.entry.1) =
            clock + min timeNeeded.toNat t.entry.1 := Nat.add_min_add_left ..
        rw [hpass, if_neg hcame]
        dsimp only
        rw [if_neg hlate, hmin]
        exact ⟨h.pass time (min_le_right ..) htime, rfl⟩

/-- A run does what it does for the alarms. -/
theorem run (h : Alike l s) (cs : List (TimerCall H A)) :
    Alike ((timers H A pool).run l cs) ((Alarms.machine (H × A) pool).run s (cs.map TimerCall.ask)) ∧
      (timers H A pool).trace l cs = (((Alarms.machine (H × A) pool).trace s
        (cs.map TimerCall.ask)).filterMap Alarms.Event.ring).map Prod.snd := by
  induction cs generalizing l s with
  | nil => exact ⟨h, rfl⟩
  | cons c cs ih =>
    obtain ⟨hstep, hout⟩ := h.step c
    obtain ⟨hrun, htrace⟩ := ih hstep
    refine ⟨hrun, ?_⟩
    rw [List.map_cons, Machine.trace_cons, Machine.trace_cons, List.filterMap_append, List.map_append,
      htrace, hout]
    rfl

end Alike

/-! ## Runs -/

/--
**Timeouts are exact.** Over any run of calls from the empty list, the handlers which are called are the
alarms which ring: in the order of the times for which they were set, those for the same time in the order
in which they were set, none late by the clock of the waits. The list holds what is pending, and every
timeout which was set has been called, or cancelled, or is in the list, and none twice.
-/
theorem timeouts_run [DecidableEq H] [DecidableEq A] (pool : Nat) (cs : List (TimerCall H A)) :
    let alarms := Alarms.machine (H × A) pool
    let s := alarms.run ⟨0, []⟩ (cs.map TimerCall.ask)
    let events := alarms.trace ⟨0, []⟩ (cs.map TimerCall.ask)
    let rings := events.filterMap Alarms.Event.ring
    (timers H A pool).trace [] cs = rings.map Prod.snd ∧
      DeltaList.due s.clock (entries ((timers H A pool).run [] cs)) = s.pending ∧
      rings.Pairwise (·.1 ≤ ·.1) ∧ (∀ x ∈ rings, x.1 ≤ s.clock) ∧ (∀ x ∈ s.pending, s.clock ≤ x.1) ∧
      ∀ x, s.pending.countP (· = x) + (events.map (Alarms.Event.ends x)).sum =
        (events.map (Alarms.Event.sets x)).sum := by
  intro alarms s events rings
  have hstart : Alike ([] : List (SysTimeo H A)) ⟨0, []⟩ := ⟨Nat.two_pow_pos 32, rfl⟩
  have hnone : Alarms.Ok (⟨0, []⟩ : Alarms (H × A)) := ⟨List.Pairwise.nil, fun x hx => by cases hx⟩
  obtain ⟨halike, htrace⟩ := hstart.run cs
  have hrings := hnone.run (n := pool) (cs.map TimerCall.ask)
  refine ⟨htrace, halike.due, hrings.sorted, fun x hx => (hrings.range x hx).2, hrings.ok.clock_le,
    fun x => ?_⟩
  have hkept := Alarms.run_kept (n := pool) ⟨0, []⟩ (cs.map TimerCall.ask) x
  rw [List.countP_nil, Nat.zero_add] at hkept
  exact hkept

end PlcFirmware.Lwip
