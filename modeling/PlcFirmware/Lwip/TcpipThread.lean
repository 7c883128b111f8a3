import PlcFirmware.Lwip.Timers

/-!
# The timers of the TCP/IP thread

`tcpip_thread` waits for messages with the timeouts of the stack in between. Fragments are reassembled,
the ARP table ages, and TCP has a timer of its own, which runs only while there are connections. A message
or a handler may register connections and remove them.

* `Holds.step` — what is armed after each message and each handler
* `timers_stay_armed` — the timers over any run: armed, once each, and called on every full period
-/

namespace PlcFirmware.Lwip

open Infra SysArch

/-- The handlers of `timers.c`. -/
inductive TmrHandler
  | ipReassTimer
  | arpTimer
  | tcpipTcpTimer
  deriving DecidableEq

/-- `IP_TMR_INTERVAL`, `ARP_TMR_INTERVAL` and `TCP_TMR_INTERVAL` -/
def TmrHandler.interval : TmrHandler → UInt32
  | ipReassTimer => 1000
  | arpTimer => 5000
  | tcpipTcpTimer => 250

/-- `MEMP_NUM_SYS_TIMEOUT` -/
def mempNumSysTimeout : Nat := 8

/--
What the timers know of the stack: `pcbs` is the number of connections in `tcp_active_pcbs` and
`tcp_tw_pcbs`.
-/
structure Tcpip where
  nextTimeout : List (SysTimeo TmrHandler Unit)
  tcpipTcpTimerActive : Bool
  pcbs : Nat

/-- `sys_timeout`, with a handler and `NULL`. -/
def Tcpip.arm (s : Tcpip) (handler : TmrHandler) : Tcpip :=
  { s with nextTimeout := sysTimeout mempNumSysTimeout handler.interval handler () s.nextTimeout }

/-- `sys_timeouts_init`, with the stack as `lwip_init` leaves it. -/
def Tcpip.init : Tcpip := ((⟨[], false, 0⟩ : Tcpip).arm .ipReassTimer).arm .arpTimer

/-- `tcp_timer_needed` -/
def Tcpip.tcpTimerNeeded (s : Tcpip) : Tcpip :=
  if !s.tcpipTcpTimerActive ∧ s.pcbs > 0 then
    { s with tcpipTcpTimerActive := true }.arm .tcpipTcpTimer
  else s

/-- What the processing of a message or a handler does to the lists of connections. -/
inductive PcbAct
  /-- `TCP_REG` to one of the two lists -/
  | reg
  /-- `TCP_REG` to another list -/
  | regOther
  /-- A connection is taken out of its list. -/
  | rmv
  deriving DecidableEq

/-- What it does to the timers. -/
def PcbAct.act (s : Tcpip) : PcbAct → Tcpip
  | reg => { s with pcbs := s.pcbs + 1 }.tcpTimerNeeded
  | regOther => s.tcpTimerNeeded
  | rmv => { s with pcbs := s.pcbs - 1 }

/-- A handler: what it does to the connections, and then it arms itself again. -/
def TmrHandler.run (s : Tcpip) (acts : List PcbAct) : TmrHandler → Tcpip
  | ipReassTimer => (acts.foldl PcbAct.act s).arm .ipReassTimer
  | arpTimer => (acts.foldl PcbAct.act s).arm .arpTimer
  | tcpipTcpTimer =>
    let s := acts.foldl PcbAct.act s
    if s.pcbs > 0 then s.arm .tcpipTcpTimer else { s with tcpipTcpTimerActive := false }

/-- What can be seen of a round: the time which the list has counted, and a handler which is called. -/
inductive Tcpip.Event
  | passed (msecs : Nat)
  | called (handler : TmrHandler)

/-- How much time the list counts in a round. -/
def timePassed (timeNeeded : UInt32) : List (SysTimeo TmrHandler Unit) → Nat
  | [] => timeNeeded.toNat
  | t :: _ => if timeNeeded = sysArchTimeout then t.time.toNat else min timeNeeded.toNat t.time.toNat

/--
A round of `sys_timeouts_mbox_fetch`, with the handler which it calls, or with the message which
`tcpip_thread` processes.
-/
def Tcpip.step (s : Tcpip) (timeNeeded : UInt32) (acts : List PcbAct) : Tcpip × List Tcpip.Event :=
  let passed := Tcpip.Event.passed (timePassed timeNeeded s.nextTimeout)
  let r := sysTimeoutsMboxFetch timeNeeded s.nextTimeout
  let s := { s with nextTimeout := r.1 }
  match r.2 with
  | some t => (t.h.run s acts, [passed, .called t.h])
  | none => (acts.foldl PcbAct.act s, [passed])

/-- The thread as a machine. -/
def tcpip : Machine Tcpip (UInt32 × List PcbAct) Tcpip.Event where
  step s i := s.step i.1 i.2

/-! ## What is armed -/

/-- The times at which the handler is due, if the time is `clock` now. -/
def times (clock : Nat) (handler : TmrHandler) (l : List (SysTimeo TmrHandler Unit)) : List Nat :=
  ((DeltaList.due clock (entries l)).filter (·.2.1 = handler)).map Prod.fst

variable {clock : Nat} {s : Tcpip} {l : List (SysTimeo TmrHandler Unit)}

/-- A handler which is armed is due after its interval. -/
theorem times_sysTimeout (clock : Nat) (hroom : l.length < mempNumSysTimeout)
    (handler h : TmrHandler) :
    (times clock h (sysTimeout mempNumSysTimeout handler.interval handler () l)).Perm
      ((if handler = h then [clock + handler.interval.toNat] else []) ++ times clock h l) := by
  have hperm := ((List.perm_orderedInsert (fun x y : Nat × TmrHandler × Unit => x.1 < y.1)
    (clock + handler.interval.toNat, handler, ()) (DeltaList.due clock (entries l))).filter
      (·.2.1 = h)).map Prod.fst
  unfold times
  rw [entries_sysTimeout hroom, DeltaList.due_insert]
  refine hperm.trans (List.Perm.of_eq ?_)
  by_cases heq : handler = h
  · rw [List.filter_cons_of_pos (by simpa using heq), if_pos heq]
    rfl
  · rw [List.filter_cons_of_neg (by simpa using heq), if_neg heq]
    rfl

/-- The first timeout is called. -/
theorem times_cons (clock : Nat) (t : SysTimeo TmrHandler Unit) (h : TmrHandler) :
    times clock h (t :: l) =
      (if t.h = h then [clock + t.time.toNat] else []) ++ times (clock + t.time.toNat) h l := by
  unfold times
  rw [entries_cons, DeltaList.due_cons]
  by_cases heq : t.h = h
  · have hkeep : decide (t.entry.2.1 = h) = true := decide_eq_true heq
    rw [List.filter_cons, if_pos hkeep, if_pos heq]
    rfl
  · have hskip : ¬decide (t.entry.2.1 = h) = true := fun hn => heq (of_decide_eq_true hn)
    rw [List.filter_cons, if_neg hskip, if_neg heq]
    rfl

/-- How many timeouts there are. -/
theorem length_times (clock : Nat) (l : List (SysTimeo TmrHandler Unit)) :
    l.length = (times clock .ipReassTimer l).length + (times clock .arpTimer l).length +
      (times clock .tcpipTcpTimer l).length := by
  induction l generalizing clock with
  | nil => rfl
  | cons t l ih =>
    have hrest := ih (clock + t.time.toNat)
    rw [times_cons, times_cons, times_cons, List.length_cons, hrest]
    cases t.h <;> simp <;> omega

/-! ## The invariant -/

/-- How often a handler has been called. -/
def callsOf (h : TmrHandler) (calls : List (Nat × TmrHandler)) : List Nat :=
  (calls.filter (·.2 = h)).map Prod.fst

/-- The full periods of a handler, `n` of them. -/
def periods (h : TmrHandler) (n : Nat) : List Nat :=
  (List.range n).map fun k => h.interval.toNat * (k + 1)

theorem callsOf_append (h handler : TmrHandler) (calls : List (Nat × TmrHandler)) (clock : Nat) :
    callsOf h (calls ++ [(clock, handler)]) =
      callsOf h calls ++ if handler = h then [clock] else [] := by
  unfold callsOf
  rw [List.filter_append, List.map_append]
  by_cases heq : handler = h
  · rw [if_pos heq, List.filter_cons, if_pos (decide_eq_true heq)]
    rfl
  · rw [if_neg heq, List.filter_cons, if_neg fun hn => heq (of_decide_eq_true hn)]
    rfl

theorem periods_succ (h : TmrHandler) (n : Nat) :
    periods h (n + 1) = periods h n ++ [h.interval.toNat * (n + 1)] := by
  unfold periods
  rw [List.range_succ, List.map_append]
  rfl

/--
What holds at the time `clock`, when handlers have been called as `calls` tells, and `out` is called just
now.
-/
structure Holds (out : Option TmrHandler) (s : Tcpip) (clock : Nat) (calls : List (Nat × TmrHandler)) :
    Prop where
  fits : Fits s.nextTimeout
  /-- A periodic handler is due once, at the end of the next period. -/
  periodic : ∀ h, h ≠ .tcpipTcpTimer → times clock h s.nextTimeout =
    if out = some h then [] else [h.interval.toNat * ((callsOf h calls).length + 1)]
  called : ∀ h, h ≠ .tcpipTcpTimer → callsOf h calls = periods h (callsOf h calls).length
  /-- The timer of TCP is due once if it is active. -/
  tcp : (times clock .tcpipTcpTimer s.nextTimeout).length =
    if s.tcpipTcpTimerActive = true ∧ out ≠ some .tcpipTcpTimer then 1 else 0
  /-- It is active while there are connections, and while it is called. -/
  active : s.pcbs > 0 ∨ out = some .tcpipTcpTimer → s.tcpipTcpTimerActive = true
  past : ∀ x ∈ calls, x.1 ≤ clock

namespace Holds

variable {out : Option TmrHandler} {calls : List (Nat × TmrHandler)}

/-- There are no more than three timeouts. -/
theorem room (h : Holds out s clock calls) : s.nextTimeout.length < mempNumSysTimeout := by
  have hone : ∀ handler, handler ≠ TmrHandler.tcpipTcpTimer →
      (times clock handler s.nextTimeout).length ≤ 1 := by
    intro handler hne
    rw [h.periodic handler hne]
    split <;> simp
  have htcp : (times clock .tcpipTcpTimer s.nextTimeout).length ≤ 1 := by
    rw [h.tcp]
    split <;> simp
  have hip := hone .ipReassTimer (by decide)
  have harp := hone .arpTimer (by decide)
  rw [length_times clock s.nextTimeout, mempNumSysTimeout]
  omega

theorem fits_arm (h : Holds out s clock calls) (handler : TmrHandler) :
    Fits (s.arm handler).nextTimeout := by
  have hins := entries_sysTimeout h.room handler.interval handler ()
  refine Nat.lt_of_le_of_lt (hins ▸ DeltaList.span_insert _ _ _) ?_
  exact max_lt h.fits handler.interval.toNat_lt

/-- Another handler is armed; the times of this one stay. -/
theorem times_arm_ne (h : Holds out s clock calls) {handler handler' : TmrHandler}
    (hne : handler ≠ handler') :
    (times clock handler' (s.arm handler).nextTimeout).Perm (times clock handler' s.nextTimeout) := by
  have hperm := times_sysTimeout clock h.room handler handler'
  rw [if_neg hne, List.nil_append] at hperm
  exact hperm

/-- The handler itself is due after its interval. -/
theorem times_arm_self (h : Holds out s clock calls) {handler : TmrHandler}
    (hnone : times clock handler s.nextTimeout = []) :
    times clock handler (s.arm handler).nextTimeout = [clock + handler.interval.toNat] := by
  have hperm := times_sysTimeout clock h.room handler handler
  rw [if_pos rfl, hnone, List.append_nil] at hperm
  exact List.perm_singleton.mp hperm

/-- A permutation of none or one is none or one. -/
theorem eq_of_perm {c : Prop} [Decidable c] {x : Nat} {l : List Nat}
    (h : l.Perm (if c then [] else [x])) : l = if c then [] else [x] := by
  by_cases hc : c
  · rw [if_pos hc] at h ⊢
    exact List.perm_nil.mp h
  · rw [if_neg hc] at h ⊢
    exact List.perm_singleton.mp h

/-- **`tcp_timer_needed`** starts the timer if it is off and there are connections. -/
theorem tcpTimerNeeded (h : Holds out s clock calls) (n : Nat) :
    Holds out ({ s with pcbs := n } : Tcpip).tcpTimerNeeded clock calls := by
  unfold Tcpip.tcpTimerNeeded
  by_cases hneed : (!s.tcpipTcpTimerActive) = true ∧ n > 0
  · rw [if_pos hneed]
    have hoff : s.tcpipTcpTimerActive = false := by simpa using hneed.1
    have hout : out ≠ some .tcpipTcpTimer := fun heq => by
      rw [h.active (Or.inr heq)] at hoff
      cases hoff
    have hnone : times clock .tcpipTcpTimer s.nextTimeout = [] := by
      rw [← List.length_eq_zero_iff, h.tcp, if_neg]
      rw [hoff]
      exact fun hn => Bool.false_ne_true hn.1
    refine ⟨h.fits_arm _, fun handler hne => ?_, h.called, ?_, fun _ => rfl, h.past⟩
    · have hperm := h.times_arm_ne hne.symm
      rw [h.periodic handler hne] at hperm
      exact eq_of_perm hperm
    · have hself := h.times_arm_self hnone
      show (times clock .tcpipTcpTimer (s.arm .tcpipTcpTimer).nextTimeout).length = _
      rw [hself, if_pos ⟨rfl, hout⟩]
      rfl
  · rw [if_neg hneed]
    refine ⟨h.fits, h.periodic, h.called, h.tcp, fun hor => ?_, h.past⟩
    rcases hor with hpos | heq
    · have hon : ¬(!s.tcpipTcpTimerActive) = true := fun hn => hneed ⟨hn, hpos⟩
      simpa using hon
    · exact h.active (Or.inr heq)

/-- **Connections come and go.** -/
theorem act (h : Holds out s clock calls) (a : PcbAct) : Holds out (a.act s) clock calls := by
  cases a with
  | reg => exact h.tcpTimerNeeded (s.pcbs + 1)
  | regOther => exact h.tcpTimerNeeded s.pcbs
  | rmv =>
    refine ⟨h.fits, h.periodic, h.called, h.tcp, fun hor => h.active (hor.imp_left fun hpos => ?_),
      h.past⟩
    exact Nat.lt_of_lt_of_le hpos (Nat.sub_le ..)

theorem acts (h : Holds out s clock calls) (as : List PcbAct) :
    Holds out (as.foldl PcbAct.act s) clock calls := by
  induction as generalizing s with
  | nil => exact h
  | cons a as ih => exact ih (h.act a)

/-- **The first timeout is taken out to be called**, a periodic one at the end of its period. -/
theorem call (h : Holds none s clock calls) {t : SysTimeo TmrHandler Unit}
    (hlist : s.nextTimeout = t :: l) :
    Holds (some t.h) { s with nextTimeout := l } (clock + t.time.toNat) calls ∧
      (t.h ≠ .tcpipTcpTimer →
        clock + t.time.toNat = t.h.interval.toNat * ((callsOf t.h calls).length + 1)) := by
  have hfits : Fits l := by
    have := h.fits
    rw [hlist] at this
    exact Nat.lt_of_le_of_lt (Nat.le_add_left ..) this
  have hperiodic := h.periodic
  have htcp := h.tcp
  simp only [hlist, times_cons] at hperiodic htcp
  have hcalled : t.h = .tcpipTcpTimer → s.tcpipTcpTimerActive = true ∧
      (times (clock + t.time.toNat) .tcpipTcpTimer l).length = 0 := by
    intro heq
    rw [if_pos heq, List.length_append] at htcp
    by_cases hon : s.tcpipTcpTimerActive = true
    · rw [if_pos ⟨hon, (Option.some_ne_none _).symm⟩] at htcp
      exact ⟨hon, Nat.add_eq_left.mp htcp⟩
    · rw [if_neg fun hn => hon hn.1] at htcp
      cases Nat.eq_zero_of_add_eq_zero_right htcp
  refine ⟨⟨hfits, fun handler hne => ?_, h.called, ?_, fun hor => ?_,
    fun x hx => (h.past x hx).trans (Nat.le_add_right ..)⟩, fun hne => ?_⟩
  · have hold := hperiodic handler hne
    by_cases heq : t.h = handler
    · rw [if_pos heq, if_neg (Option.some_ne_none _).symm] at hold
      rw [if_pos (congrArg some heq)]
      exact (List.cons.inj hold).2
    · rw [if_neg heq, if_neg (Option.some_ne_none _).symm] at hold
      rw [if_neg fun hn => heq (Option.some.inj hn)]
      exact hold
  · show (times (clock + t.time.toNat) .tcpipTcpTimer l).length = _
    by_cases heq : t.h = .tcpipTcpTimer
    · rw [if_neg fun hn => hn.2 (congrArg some heq)]
      exact (hcalled heq).2
    · have hne : some t.h ≠ some .tcpipTcpTimer := fun hn => heq (Option.some.inj hn)
      rw [if_neg heq, List.nil_append] at htcp
      rw [htcp]
      exact if_congr (and_congr_right fun _ => iff_of_true (Option.some_ne_none _).symm hne) rfl rfl
  · rcases hor with hpos | heq
    · exact h.active (Or.inl hpos)
    · exact (hcalled (Option.some.inj heq)).1
  · have hold := hperiodic t.h hne
    rw [if_pos rfl, if_neg (Option.some_ne_none _).symm] at hold
    exact (List.cons.inj hold).1

theorem past_append (h : Holds out s clock calls) (handler : TmrHandler) :
    ∀ x ∈ calls ++ [(clock, handler)], x.1 ≤ clock := by
  intro x hx
  rcases List.mem_append.mp hx with hx | hx
  · exact h.past x hx
  · rw [List.mem_singleton.mp hx]

/-- **A periodic handler arms itself again**, for the end of its next period. -/
theorem rearm {handler : TmrHandler} (h : Holds (some handler) s clock calls)
    (hne : handler ≠ .tcpipTcpTimer)
    (hclock : clock = handler.interval.toNat * ((callsOf handler calls).length + 1)) :
    Holds none (s.arm handler) clock (calls ++ [(clock, handler)]) := by
  have hnone : times clock handler s.nextTimeout = [] := by
    rw [h.periodic handler hne, if_pos rfl]
  refine ⟨h.fits_arm _, fun handler' hne' => ?_, fun handler' hne' => ?_, ?_, fun hor => ?_,
    h.past_append handler⟩
  · rw [if_neg (Option.some_ne_none _).symm, callsOf_append]
    by_cases heq : handler = handler'
    · subst heq
      rw [h.times_arm_self hnone, if_pos rfl, List.length_append, hclock]
      rfl
    · have hperm := h.times_arm_ne heq
      rw [h.periodic handler' hne', if_neg fun hn => heq (Option.some.inj hn)] at hperm
      rw [if_neg heq, List.append_nil]
      exact List.perm_singleton.mp hperm
  · rw [callsOf_append]
    by_cases heq : handler = handler'
    · subst heq
      rw [if_pos rfl, List.length_append, List.length_singleton, periods_succ, ← h.called handler hne,
        ← hclock]
    · rw [if_neg heq, List.append_nil]
      exact h.called handler' hne'
  · have hperm := h.times_arm_ne hne
    rw [hperm.length_eq, h.tcp]
    exact if_congr (and_congr_right fun _ =>
      iff_of_true (fun hn => hne (Option.some.inj hn)) (Option.some_ne_none _).symm) rfl rfl
  · rcases hor with hpos | heq
    · exact h.active (Or.inl hpos)
    · cases heq

/-- **The timer of TCP goes on while there are connections.** -/
theorem retcp (h : Holds (some .tcpipTcpTimer) s clock calls) :
    Holds none (if s.pcbs > 0 then s.arm .tcpipTcpTimer else { s with tcpipTcpTimerActive := false })
      clock (calls ++ [(clock, .tcpipTcpTimer)]) := by
  have hnone : times clock .tcpipTcpTimer s.nextTimeout = [] := by
    rw [← List.length_eq_zero_iff, h.tcp, if_neg fun hn => hn.2 rfl]
  have hon := h.active (Or.inr rfl)
  have hcalls : ∀ handler, handler ≠ TmrHandler.tcpipTcpTimer →
      callsOf handler (calls ++ [(clock, .tcpipTcpTimer)]) = callsOf handler calls := by
    intro handler hne
    rw [callsOf_append, if_neg hne.symm, List.append_nil]
  have hperiodic : ∀ handler, handler ≠ TmrHandler.tcpipTcpTimer → times clock handler s.nextTimeout =
      [handler.interval.toNat * ((callsOf handler calls).length + 1)] := by
    intro handler hne
    rw [h.periodic handler hne, if_neg fun hn => hne (Option.some.inj hn).symm]
  split
  · refine ⟨h.fits_arm _, fun handler hne => ?_, fun handler hne => ?_, ?_, fun _ => hon,
      h.past_append _⟩
    · have hperm := h.times_arm_ne hne.symm
      rw [hperiodic handler hne] at hperm
      rw [if_neg (Option.some_ne_none _).symm, hcalls handler hne]
      exact List.perm_singleton.mp hperm
    · rw [hcalls handler hne]
      exact h.called handler hne
    · rw [h.times_arm_self hnone, if_pos ⟨hon, (Option.some_ne_none _).symm⟩]
      rfl
  · next hpcbs =>
    refine ⟨h.fits, fun handler hne => ?_, fun handler hne => ?_, ?_, fun hor => ?_,
      h.past_append _⟩
    · rw [if_neg (Option.some_ne_none _).symm, hcalls handler hne]
      exact hperiodic handler hne
    · rw [hcalls handler hne]
      exact h.called handler hne
    · show (times clock .tcpipTcpTimer s.nextTimeout).length = _
      rw [hnone, if_neg fun hn => Bool.false_ne_true hn.1]
      rfl
    · rcases hor with hpos | heq
      · exact absurd hpos hpcbs
      · cases heq

/-- A message has come before the first timeout. -/
theorem pass (h : Holds out s clock calls) {t : SysTimeo TmrHandler Unit}
    (hlist : s.nextTimeout = t :: l) {time : UInt32} {w : Nat} (hw : w ≤ t.time.toNat)
    (htime : time.toNat = t.time.toNat - w) :
    Holds out { s with nextTimeout := { t with time := time } :: l } (clock + w) calls := by
  have hnow : Alike s.nextTimeout ⟨clock, DeltaList.due clock (entries s.nextTimeout)⟩ := ⟨h.fits, rfl⟩
  rw [hlist] at hnow
  have hlater := hnow.pass time hw htime
  have htimes : ∀ handler, times (clock + w) handler ({ t with time := time } :: l) =
      times clock handler s.nextTimeout := by
    intro handler
    unfold times
    rw [hlater.due, hlist]
  refine ⟨hlater.fits, fun handler hne => ?_, h.called, ?_, h.active,
    fun x hx => (h.past x hx).trans (Nat.le_add_right ..)⟩
  · exact (htimes handler).trans (h.periodic handler hne)
  · exact (congrArg List.length (htimes _)).trans h.tcp

end Holds

/-! ## Rounds -/

/-- What is seen of a run: the clock of the list, and the handlers which have been called, with the time. -/
structure Seen where
  clock : Nat
  calls : List (Nat × TmrHandler)

/-- An event is noted. -/
def Seen.note (seen : Seen) : Tcpip.Event → Seen
  | .passed msecs => { seen with clock := seen.clock + msecs }
  | .called handler => { seen with calls := seen.calls ++ [(seen.clock, handler)] }

/-- **One round.** -/
theorem Holds.step {seen : Seen} (h : Holds none s seen.clock seen.calls) (timeNeeded : UInt32)
    (acts : List PcbAct) :
    let r := s.step timeNeeded acts
    Holds none r.1 (r.2.foldl Seen.note seen).clock (r.2.foldl Seen.note seen).calls := by
  obtain ⟨clock, calls⟩ := seen
  dsimp only at h
  cases hlist : s.nextTimeout with
  | nil =>
    have := h.periodic .ipReassTimer (by decide)
    rw [hlist, if_neg (Option.some_ne_none _).symm] at this
    cases this
  | cons t l =>
    unfold Tcpip.step
    rw [hlist]
    rcases fetch_cases timeNeeded t l with ⟨hdue, hcall⟩ | ⟨hne, hcame, time, htime, hpass⟩
    · have hpassed : timePassed timeNeeded (t :: l) = t.time.toNat := by
        unfold timePassed
        dsimp only
        split
        · rfl
        · next hn => rw [hdue.resolve_right hn, Nat.min_zero]
      obtain ⟨hout, hperiod⟩ := h.call hlist
      rw [hcall, hpassed]
      have hacts := hout.acts acts
      show Holds none (t.h.run _ acts) (clock + t.time.toNat) (calls ++ [(clock + t.time.toNat, t.h)])
      cases hh : t.h with
      | ipReassTimer =>
        rw [hh] at hacts hperiod
        exact hacts.rearm (by decide) (hperiod (by decide))
      | arpTimer =>
        rw [hh] at hacts hperiod
        exact hacts.rearm (by decide) (hperiod (by decide))
      | tcpipTcpTimer =>
        rw [hh] at hacts
        exact hacts.retcp
    · have hpassed : timePassed timeNeeded (t :: l) = min timeNeeded.toNat t.time.toNat := if_neg hcame
      rw [hpass, hpassed]
      exact (h.pass hlist (min_le_right ..) htime).acts acts

theorem Holds.init : Holds none Tcpip.init 0 [] := by
  refine ⟨?_, fun handler hne => ?_, fun handler hne => ?_, ?_, fun hor => ?_, fun x hx => by cases hx⟩
  · show DeltaList.span (entries Tcpip.init.nextTimeout) < 2 ^ 32
    decide
  · cases handler
    case tcpipTcpTimer => exact absurd rfl hne
    all_goals decide
  · cases handler <;> rfl
  · decide
  · rcases hor with hpos | heq
    · exact absurd hpos (by decide)
    · cases heq

/-- The invariant holds along every run. -/
theorem Holds.run (is : List (UInt32 × List PcbAct)) :
    let seen := (tcpip.trace .init is).foldl Seen.note ⟨0, []⟩
    Holds none (tcpip.run .init is) seen.clock seen.calls :=
  tcpip.run_observed (P := fun s seen => Holds none s seen.clock seen.calls) Seen.note
    (fun _ _ i h => h.step i.1 i.2) (r := ⟨0, []⟩) .init is

/-! ## Runs -/

theorem length_times_eq (clock : Nat) (handler : TmrHandler) (l : List (SysTimeo TmrHandler Unit)) :
    (times clock handler l).length = l.countP (·.h = handler) := by
  induction l generalizing clock with
  | nil => rfl
  | cons t l ih =>
    rw [times_cons, List.length_append, ih, List.countP_cons, Nat.add_comm]
    by_cases heq : t.h = handler <;> simp [heq]

theorem le_of_mem_times {h : TmrHandler} {n : Nat} (hn : n ∈ times clock h l) : clock ≤ n := by
  obtain ⟨x, hx, rfl⟩ := List.mem_map.mp hn
  exact DeltaList.le_of_mem_due (List.mem_filter.mp hx).1

/-- The end of the last period is not to come. -/
theorem Holds.last_le {out : Option TmrHandler} {calls : List (Nat × TmrHandler)}
    (h : Holds out s clock calls) {handler : TmrHandler} (hne : handler ≠ .tcpipTcpTimer) :
    handler.interval.toNat * (callsOf handler calls).length ≤ clock := by
  cases hn : (callsOf handler calls).length with
  | zero => exact Nat.zero_le _
  | succ n =>
    have hmem : handler.interval.toNat * (n + 1) ∈ callsOf handler calls := by
      rw [h.called handler hne, hn, periods_succ]
      exact List.mem_append_right _ (List.mem_singleton_self _)
    obtain ⟨x, hx, hclock⟩ := List.mem_map.mp hmem
    rw [← hclock]
    exact h.past x (List.mem_filter.mp hx).1

/--
**The timers of the stack stay armed.** Over any run of messages, which come when they want and register
and remove connections as they want: the timers of the fragments and of ARP are armed once each, and have
been called at the end of every full period by the clock of the list, at no other time; the timer of TCP
is armed once if it is active, and it is while there are connections; and the pool is never empty.
-/
theorem timers_stay_armed (is : List (UInt32 × List PcbAct)) :
    let s := tcpip.run .init is
    let seen := (tcpip.trace .init is).foldl Seen.note ⟨0, []⟩
    (∀ h, h ≠ .tcpipTcpTimer → s.nextTimeout.countP (·.h = h) = 1 ∧
      ∃ n, callsOf h seen.calls = periods h n ∧
        h.interval.toNat * n ≤ seen.clock ∧ seen.clock ≤ h.interval.toNat * (n + 1)) ∧
    s.nextTimeout.countP (·.h = .tcpipTcpTimer) = (if s.tcpipTcpTimerActive then 1 else 0) ∧
    (s.pcbs > 0 → s.tcpipTcpTimerActive = true) ∧
    s.nextTimeout.length < mempNumSysTimeout := by
  intro s seen
  have h : Holds none s seen.clock seen.calls := Holds.run is
  refine ⟨fun handler hne => ?_, ?_, fun hpos => h.active (Or.inl hpos), h.room⟩
  · have hdue := h.periodic handler hne
    rw [if_neg (Option.some_ne_none _).symm] at hdue
    refine ⟨?_, (callsOf handler seen.calls).length, h.called handler hne, ?_, ?_⟩
    · rw [← length_times_eq seen.clock, hdue]
      rfl
    · exact h.last_le hne
    · refine le_of_mem_times (h := handler) (l := s.nextTimeout) ?_
      rw [hdue]
      exact List.mem_singleton_self _
  · rw [← length_times_eq seen.clock, h.tcp]
    exact if_congr (and_iff_left (Option.some_ne_none _).symm) rfl rfl

end PlcFirmware.Lwip
