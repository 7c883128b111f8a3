import PlcFirmware.Ucos.Ticks

/-!
# The two models of the queues

The mailboxes rest on a model of `os_q.c` which knows the wait lists as sets and a task by whether it
pends on a queue. The kernel with its scheduler, down to the bits of the lists, refines it: each function
does to the kernel what the simpler model says.

* `Os.abs` — the kernel of the simpler model
* `queues_refine` — the functions of the queues, and a tick, in every state which can be reached
-/

namespace PlcFirmware.Ucos

open Infra

/-- The type of an event, as far as the simpler model knows it. -/
def ObjType.abs : ObjType → EventType
  | .unused => .unused
  | .q => .q
  | .mbox | .sem | .mutex => .other

/-- A task: whether it pends on a queue, and what it has got. -/
def Tcb.abs (tcb : Tcb) : OsTcb where
  osTcbStat := tcb.osTcbStat &&& statQ ≠ 0#8
  osTcbStatPend := tcb.osTcbStatPend
  osTcbDly := tcb.osTcbDly
  osTcbMsg := tcb.osTcbMsg
  ready := tcb.osTcbStat &&& statQ = 0#8

/-- An event of the simpler model. -/
def Event.abs (ev : Event) : OsEvent := ⟨ev.osEventType.abs, ev.osEventPtr, ev.wait.has⟩

/-- The kernel of the simpler model. -/
def Os.abs (s : Os) : Kernel where
  osEvent e := (s.osEvent e).abs
  osQ := s.osQ
  storage := s.storage
  osEventFreeList := s.osEventFreeList
  osQFreeList := s.osQFreeList
  osTcb p := (s.osTcb p).abs
  osTime := s.osTime

/-- The error codes which the simpler model knows. -/
def Err.abs : Err → OsErr
  | .eventType => .eventType
  | .timeout => .timeout
  | .pendAbort => .pendAbort
  | .qFull => .qFull
  | _ => .none

variable {s : Os} {e : Nat}

/-! ## The steps of the functions -/

theorem ObjType.abs_eq_q {t : ObjType} : t.abs = .q ↔ t = .q := by
  cases t <;> decide

theorem abs_type (s : Os) (e : Nat) : s.abs.type e ≠ .q ↔ (s.osEvent e).osEventType ≠ .q :=
  not_congr ObjType.abs_eq_q

@[simp] theorem abs_queue (s : Os) (e : Nat) : s.abs.queue e = s.queue e := rfl

@[simp] theorem abs_tbl (s : Os) (e : Nat) : s.abs.tbl e = (s.osEvent e).wait.has := rfl

@[simp] theorem abs_storage (s : Os) : s.abs.storage = s.storage := rfl

theorem abs_setTcb (s : Os) (p : Prio) (tcb : Tcb) :
    (s.setTcb p tcb).abs = s.abs.setTcb p tcb.abs := by
  have h : (fun q => (Function.update s.osTcb p tcb q).abs) =
      Function.update (fun q => (s.osTcb q).abs) p tcb.abs := by
    funext q
    by_cases hq : q = p
    · subst hq
      rw [Function.update_self, Function.update_self]
    · rw [Function.update_of_ne hq, Function.update_of_ne hq]
  simp only [Os.abs, Os.setTcb, Kernel.setTcb, h]

theorem abs_update (s : Os) (e : Nat) (ev : Event) :
    (fun e' => (Function.update s.osEvent e ev e').abs) = Function.update s.abs.osEvent e ev.abs := by
  funext e'
  by_cases he : e' = e
  · subst he
    rw [Function.update_self, Function.update_self]
  · rw [Function.update_of_ne he, Function.update_of_ne he]
    rfl

theorem abs_setWait (s : Os) (e : Nat) (wait : PrioTbl) (p : Prio) (b : Bool)
    (h : wait.has = Function.update (s.osEvent e).wait.has p b) :
    (s.setWait e wait).abs = s.abs.setTbl e p b := by
  have hev : Event.abs { s.osEvent e with wait := wait } =
      { s.abs.osEvent e with osEventTbl := Function.update (s.abs.tbl e) p b } := by
    unfold Event.abs
    rw [h]
    rfl
  have hupd := abs_update s e { s.osEvent e with wait := wait }
  rw [hev] at hupd
  simp only [Os.abs, Os.setWait, Kernel.setTbl] at hupd ⊢
  rw [hupd]

theorem abs_makeReady (s : Os) (p : Prio) : (s.makeReady p).abs = s.abs := rfl

theorem abs_makeUnready (s : Os) (p : Prio) : (s.makeUnready p).abs = s.abs := rfl

theorem has_drop_eq (t : PrioTbl) (p : Prio) : (t.drop p).has = Function.update t.has p false := by
  funext q
  rw [PrioTbl.has_drop]
  by_cases hq : q = p
  · subst hq
    simp
  · rw [if_neg hq, Function.update_of_ne hq]

theorem has_put_eq (t : PrioTbl) (p : Prio) : (t.put p).has = Function.update t.has p true := by
  funext q
  rw [PrioTbl.has_put]
  by_cases hq : q = p
  · subst hq
    simp
  · rw [if_neg hq, Function.update_of_ne hq]

/-- The last assignment of `OS_EventTaskRemove` is not seen in the simpler model. -/
theorem abs_osEventTaskRemove (s : Os) (p : Prio) (e : Nat) :
    (s.osEventTaskRemove p e).abs = s.abs.setTbl e p false := by
  unfold Os.osEventTaskRemove
  rw [abs_setTcb, abs_setWait s e _ p false (has_drop_eq _ p)]
  have hsame : Function.update (s.abs.setTbl e p false).osTcb p
      (Tcb.abs { s.osTcb p with osTcbEventPtr := 0 }) = (s.abs.setTbl e p false).osTcb :=
    Function.update_eq_self p _
  unfold Kernel.setTcb
  rw [hsame]

theorem hpt_abs (h : Lists s) (e : Nat) :
    hpt (s.abs.tbl e) =
      if (s.osEvent e).wait.grp = 0#8 then none else some (s.osEvent e).wait.highest :=
  hpt_has (h.wait e)

/-- **`OS_EventTaskRdy`.** -/
theorem abs_osEventTaskRdy (h : Lists s) (hne : (s.osEvent e).wait.grp ≠ 0#8) (pmsg : Ptr)
    (stat : PendStat) :
    (s.osEventTaskRdy e pmsg statQ stat).abs = s.abs.osEventTaskRdy e pmsg stat := by
  have hhpt := hpt_abs h e
  rw [if_neg hne] at hhpt
  have htcb : Tcb.abs { s.osTcb (s.osEvent e).wait.highest with
      osTcbDly := 0
      osTcbMsg := pmsg
      osTcbStat := (s.osTcb (s.osEvent e).wait.highest).osTcbStat &&& ~~~statQ
      osTcbStatPend := stat } = ⟨false, stat, 0, pmsg, true⟩ := by
    have hzero : (s.osTcb (s.osEvent e).wait.highest).osTcbStat &&& ~~~statQ &&& statQ = 0#8 := by
      rw [BitVec.and_assoc, show ~~~statQ &&& statQ = 0#8 by decide, BitVec.and_zero]
    simp [Tcb.abs, hzero]
  unfold Os.osEventTaskRdy Kernel.osEventTaskRdy
  rw [hhpt]
  dsimp only
  rw [abs_osEventTaskRemove]
  split
  · rw [abs_makeReady, abs_setTcb, htcb]
  · rw [abs_setTcb, htcb]

theorem abs_osEventTaskRdyAll (h : Lists s) (htype : (s.osEvent e).osEventType = .q) (pmsg : Ptr)
    (stat : PendStat) (rounds : Nat) :
    (Os.osEventTaskRdyAll e pmsg statQ stat rounds s).1.abs =
      Kernel.osEventTaskRdyAll e pmsg stat rounds s.abs := by
  induction rounds generalizing s with
  | zero => rfl
  | succ rounds ih =>
    have hhpt := hpt_abs h e
    unfold Os.osEventTaskRdyAll Kernel.osEventTaskRdyAll
    split
    · next hempty =>
      rw [hhpt, if_pos hempty]
    · next hne =>
      rw [hhpt, if_neg hne]
      have hmsk : statQ = (s.osEvent e).osEventType.stat := by rw [htype]; rfl
      have hlists := h.osEventTaskRdy hne pmsg stat
      rw [← hmsk] at hlists
      dsimp only
      rw [ih hlists, abs_osEventTaskRdy h hne]
      rw [(Moves.osEventTaskRdy ..).type, htype]

/-! ## The functions -/

/-- **`OSQPost`.** -/
theorem abs_osQPost (h : Lists s) (e : Nat) (pmsg : Ptr) :
    ((osQPost e pmsg s).os.abs, (osQPost e pmsg s).res.map fun r => r.err.abs) =
      ((osqPost e pmsg s.abs).1, some (osqPost e pmsg s.abs).2) := by
  unfold osQPost osQPostOpt osQPostOptSection osqPost
  by_cases htype : (s.osEvent e).osEventType ≠ .q
  · rw [if_pos htype, if_pos ((abs_type s e).mpr htype)]
    rfl
  · rw [if_neg htype, if_neg fun hn => htype ((abs_type s e).mp hn)]
    have hhpt := hpt_abs h e
    by_cases hempty : (s.osEvent e).wait.grp = 0#8
    · rw [if_pos hempty] at hhpt
      rw [if_neg (not_not.mpr hempty), hhpt, if_neg (not_not.mpr rfl)]
      dsimp only
      rw [abs_queue]
      split
      · rfl
      · rw [if_neg Bool.false_ne_true]
        rfl
    · rw [if_neg hempty] at hhpt
      rw [if_pos hempty, hhpt, if_pos (Option.some_ne_none _), if_neg Bool.false_ne_true]
      dsimp only
      rw [if_neg Bool.false_ne_true]
      show ((s.osEventTaskRdy e pmsg statQ .ok).abs, _) = _
      rw [abs_osEventTaskRdy h hempty]
      rfl

/-- **`OSQCreate`.** -/
theorem abs_osQCreate (hnest : s.osIntNesting = 0) (start size : Nat) :
    ((osQCreate start size s).os.abs, (osQCreate start size s).res.map Res.val) =
      ((osqCreate start size s.abs).1, some (osqCreate start size s.abs).2) := by
  unfold osQCreate osQCreateFill osqCreate
  rw [if_neg (by rw [hnest]; exact lt_irrefl 0)]
  have hev : s.abs.osEventFreeList = s.osEventFreeList := rfl
  have hq : s.abs.osQFreeList = s.osQFreeList := rfl
  rw [hev, hq]
  cases s.osEventFreeList with
  | nil => rfl
  | cons pevent events =>
    cases s.osQFreeList with
    | nil => rfl
    | cons pq queues =>
      have hev : Event.abs ⟨.q, 0, pq, BitTable.empty⟩ = ⟨.q, pq, fun _ => false⟩ :=
        congrArg (OsEvent.mk .q pq) (funext fun _ => PrioTbl.has_empty)
      have hupd := abs_update s pevent ⟨.q, 0, pq, BitTable.empty⟩
      rw [hev] at hupd
      simp only [Os.abs, Os.done] at hupd ⊢
      rw [hupd]
      rfl

theorem abs_freed (s : Os) (e : Nat) :
    ((s.freeQ e).freeEvent e).abs =
      { s.abs with
        osQFreeList := (s.abs.osEvent e).osEventPtr :: s.abs.osQFreeList
        osEvent := Function.update s.abs.osEvent e { s.abs.osEvent e with osEventType := .unused }
        osEventFreeList := e :: s.abs.osEventFreeList } := by
  have hupd := abs_update s e { s.osEvent e with osEventType := .unused, osEventCnt := 0 }
  simp only [Os.abs, Os.freeQ, Os.freeEvent] at hupd ⊢
  rw [hupd]
  rfl

/-- **`OSQDel` with `OS_DEL_ALWAYS`.** -/
theorem abs_osQDel (h : Lists s) (hnest : s.osIntNesting = 0) (e : Nat) :
    ((osQDel e .always s).os.abs, (osQDel e .always s).res.map fun r => r.err.abs) =
      ((osqDel e s.abs).1, some (osqDel e s.abs).2) := by
  unfold osQDel osQDelSection osqDel
  by_cases htype : (s.osEvent e).osEventType ≠ .q
  · rw [if_pos htype, if_pos ((abs_type s e).mpr htype)]
    rfl
  · rw [if_neg htype, if_neg fun hn => htype ((abs_type s e).mp hn),
      if_neg (by rw [hnest]; exact lt_irrefl 0)]
    have hall := abs_osEventTaskRdyAll h (not_not.mp htype) 0 .abort 64
    have hfreed := abs_freed (Os.osEventTaskRdyAll e 0 statQ .abort 64 s).1 e
    rw [hall] at hfreed
    dsimp only
    split
    · exact Prod.ext hfreed rfl
    · exact Prod.ext hfreed rfl

/-- A pend writes the control block of its task twice. -/
theorem pendWait_eq (s : Os) (msk : BitVec 8) (e timeout : Nat) :
    s.pendWait msk e timeout = ((s.setTcb s.osPrioCur
      { s.osTcb s.osPrioCur with
        osTcbStat := (s.osTcb s.osPrioCur).osTcbStat ||| msk
        osTcbStatPend := .ok
        osTcbDly := timeout
        osTcbEventPtr := e }).setWait e ((s.osEvent e).wait.put s.osPrioCur)).makeUnready
          s.osPrioCur := by
  simp only [Os.pendWait, Os.osEventTaskWait, Os.setTcb, Function.update_self, Function.update_idem]

theorem abs_pendWait (s : Os) (e timeout : Nat) :
    (s.pendWait statQ e timeout).abs = (s.abs.setTcb s.osPrioCur
      { s.abs.osTcb s.osPrioCur with
        osTcbStat := true, osTcbStatPend := .ok, osTcbDly := timeout, ready := false }).setTbl
        e s.osPrioCur true := by
  have hq : ((s.osTcb s.osPrioCur).osTcbStat ||| statQ) &&& statQ ≠ 0#8 := by
    rw [BitVec.and_or_distrib_right, BitVec.and_self]
    exact or_ne_zero (by decide)
  have htcb : Tcb.abs { s.osTcb s.osPrioCur with
      osTcbStat := (s.osTcb s.osPrioCur).osTcbStat ||| statQ
      osTcbStatPend := .ok
      osTcbDly := timeout
      osTcbEventPtr := e } = { s.abs.osTcb s.osPrioCur with
        osTcbStat := true, osTcbStatPend := .ok, osTcbDly := timeout, ready := false } := by
    simp [Tcb.abs, hq]
    rfl
  rw [pendWait_eq, abs_makeUnready]
  refine (abs_setWait _ e _ s.osPrioCur true (has_put_eq _ _)).trans ?_
  rw [abs_setTcb, htcb]

/-- **`OSQPend` up to `OS_Sched`.** -/
theorem abs_osQPend (hnest : s.osIntNesting = 0) (hlock : s.osLockNesting = 0) (e timeout : Nat) :
    ((osQPend e timeout s).os.abs, (osQPend e timeout s).res.map fun r => (r.val, r.err.abs)) =
      ((osqPendEnter s.osPrioCur e timeout s.abs).1,
        (osqPendEnter s.osPrioCur e timeout s.abs).2.map fun r => (r.1.toNat, r.2)) := by
  unfold osQPend osQPendSection osqPendEnter
  by_cases htype : (s.osEvent e).osEventType ≠ .q
  · rw [if_pos htype, if_pos ((abs_type s e).mpr htype)]
    rfl
  · rw [if_neg htype, if_neg fun hn => htype ((abs_type s e).mp hn),
      if_neg (by rw [hnest]; exact lt_irrefl 0), if_neg (by rw [hlock]; exact lt_irrefl 0)]
    dsimp only
    rw [abs_queue]
    split
    · rfl
    · exact Prod.ext (abs_pendWait s e timeout) rfl

/-- The end of a pend writes the control block of its task up to three times. -/
theorem osQPendLeave_os (e : Nat) (s : Os) :
    (osQPendLeave e s).os =
      (if (s.osTcb s.osPrioCur).osTcbStatPend = .timedOut then s.osEventTaskRemove s.osPrioCur e
        else s).setTcb s.osPrioCur
          { s.osTcb s.osPrioCur with
            osTcbStat := 0#8, osTcbStatPend := .ok, osTcbMsg := 0, osTcbEventPtr := 0 } := by
  unfold osQPendLeave Os.pendEnd
  dsimp only [Os.done]
  split
  · simp only [Os.osEventTaskRemove, Os.setWait, Os.setTcb, Function.update_self, Function.update_idem]
  · simp only [Os.setTcb, Function.update_self, Function.update_idem]

/-- **`OSQPend` from behind `OS_Sched` on.** Its task is ready. -/
theorem abs_osQPendLeave (hready : (s.osTcb s.osPrioCur).osTcbStat = 0#8) (e : Nat) :
    ((osQPendLeave e s).os.abs, (osQPendLeave e s).res.map fun r => (r.val, r.err.abs)) =
      ((osqPendLeave s.osPrioCur e s.abs).1,
        some ((osqPendLeave s.osPrioCur e s.abs).2.1.toNat, (osqPendLeave s.osPrioCur e s.abs).2.2)) := by
  have htcb : Tcb.abs { s.osTcb s.osPrioCur with
      osTcbStat := 0#8, osTcbStatPend := .ok, osTcbMsg := 0, osTcbEventPtr := 0 } =
      { s.abs.osTcb s.osPrioCur with osTcbStat := false, osTcbStatPend := .ok, osTcbMsg := 0 } := by
    simp [Tcb.abs, Os.abs, hready]
  have hpend : (s.abs.osTcb s.osPrioCur).osTcbStatPend = (s.osTcb s.osPrioCur).osTcbStatPend := rfl
  rw [osQPendLeave_os, abs_setTcb, htcb]
  unfold osQPendLeave osqPendLeave Os.pendEnd
  dsimp only
  rw [hpend]
  cases hstat : (s.osTcb s.osPrioCur).osTcbStatPend with
  | ok => rfl
  | timedOut =>
    rw [if_pos rfl, abs_osEventTaskRemove]
    rfl
  | abort => rfl

/-! ## A tick -/

/-- A tick, for a task which pends on a queue if at all. -/
theorem Tcb.abs_tick {tcb : Tcb}
    (hq : tcb.osTcbStat &&& statPendAny ≠ 0#8 → tcb.osTcbStat &&& statQ ≠ 0#8) :
    tcb.tick.abs = tcb.abs.tick := by
  have hclear : tcb.osTcbStat &&& ~~~statPendAny &&& statQ = 0#8 := by
    rw [BitVec.and_assoc, show ~~~statPendAny &&& statQ = 0#8 by decide, BitVec.and_zero]
  have hpend : tcb.osTcbStat &&& statPendAny ≠ 0#8 ↔ tcb.osTcbStat &&& statQ ≠ 0#8 := by
    refine ⟨hq, fun h h0 => h ?_⟩
    rw [show statQ = statPendAny &&& statQ by decide, ← BitVec.and_assoc, h0, BitVec.zero_and]
  have hdly : tcb.abs.osTcbDly = tcb.osTcbDly := rfl
  unfold Tcb.tick OsTcb.tick
  rw [hdly]
  by_cases h0 : tcb.osTcbDly = 0
  · rw [if_pos h0, if_pos h0]
  · rw [if_neg h0, if_neg h0]
    by_cases h1 : tcb.osTcbDly = 1
    · rw [if_pos (by rw [h1]), if_pos h1]
      simp [Tcb.abs, Tcb.woken, hclear, hpend]
    · rw [if_neg (by omega), if_neg h1]
      rfl

/-! ## Reachable states -/

/-- The kernel and the simpler model do the same in a state. -/
structure Refines (y : Sys) : Prop where
  post : ∀ e pmsg,
    ((osQPost e pmsg y.os).os.abs, (osQPost e pmsg y.os).res.map fun r => r.err.abs) =
      ((osqPost e pmsg y.os.abs).1, some (osqPost e pmsg y.os.abs).2)
  create : y.os.osIntNesting = 0 → ∀ start size,
    ((osQCreate start size y.os).os.abs, (osQCreate start size y.os).res.map Res.val) =
      ((osqCreate start size y.os.abs).1, some (osqCreate start size y.os.abs).2)
  del : y.os.osIntNesting = 0 → ∀ e,
    ((osQDel e .always y.os).os.abs, (osQDel e .always y.os).res.map fun r => r.err.abs) =
      ((osqDel e y.os.abs).1, some (osqDel e y.os.abs).2)
  pend : y.os.osIntNesting = 0 → y.os.osLockNesting = 0 → ∀ e timeout,
    ((osQPend e timeout y.os).os.abs,
      (osQPend e timeout y.os).res.map fun r => (r.val, r.err.abs)) =
      ((osqPendEnter y.os.osPrioCur e timeout y.os.abs).1,
        (osqPendEnter y.os.osPrioCur e timeout y.os.abs).2.map fun r => (r.1.toNat, r.2))
  leave : y.atTask = true → ∀ type e, y.cont y.os.osPrioCur = .leave type e →
    ((osQPendLeave e y.os).os.abs, (osQPendLeave e y.os).res.map fun r => (r.val, r.err.abs)) =
      ((osqPendLeave y.os.osPrioCur e y.os.abs).1,
        some ((osqPendLeave y.os.osPrioCur e y.os.abs).2.1.toNat,
          (osqPendLeave y.os.osPrioCur e y.os.abs).2.2))
  tick : ∀ p, y.os.osTcbPrioTbl p = true → p ≠ idlePrio →
    ((y.os.osTcb p).osTcbStat &&& statPendAny ≠ 0#8 → (y.os.osTcb p).osTcbStat &&& statQ ≠ 0#8) →
    y.os.osTimeTick.abs.osTcb p = (osTimeTick y.os.abs).osTcb p

/--
**The queues of the kernel are those of the simpler model.** In every state which the system can reach a
call changes the queues, their wait lists and the tasks as the simpler model says, with its result and its
error; and so does a tick, for a task which pends on nothing but queues.
-/
theorem queues_refine (prios : List Prio) (is : List Input)
    (hG : ∀ t ∈ cpu.transitions (Cpu.start prios) is, t.1.Allows t.2) :
    Refines (cpu.run (Cpu.start prios) is).sys := by
  let y := (cpu.run (Cpu.start prios) is).sys
  have h : SysOk (cpu.run (Cpu.start prios) is).whole := SysOk.run hG
  have hlists : Lists y.os := h.good.lists.congr rfl rfl rfl (fun _ => rfl) fun _ => rfl
  exact
    { post := fun e pmsg => abs_osQPost hlists e pmsg
      create := fun hnest start size => abs_osQCreate hnest start size
      del := fun hnest e => abs_osQDel hlists hnest e
      pend := fun hnest hlock e timeout => abs_osQPend hnest hlock e timeout
      leave := by
        intro htask type e hcont
        obtain ⟨hnest, hpend⟩ := of_decide_eq_true htask
        have hready : y.os.rdy.has y.os.osPrioCur = true := h.leave_ready hnest hpend hcont
        exact abs_osQPendLeave ((hlists.task _).ready_iff.mp hready).2.1 e
      tick := fun p htbl hne hq => by
        have htick := h.good.tick_tcb htbl hne
        unfold Cpu.whole Sys.withFree at htick
        rw [Os.osTimeTick_withFree] at htick
        exact (congrArg Tcb.abs htick).trans (Tcb.abs_tick hq) }

/-- Task 10 creates a queue and pends on it, an interrupt posts it a message, and the task runs again. -/
def takeRun : List Input :=
  [.pendSv, .call (.qCreate 1 4), .go, .go, .call (.qPend 1 5), .go, .go, .pendSv, .intEnter,
    .call (.qPostOpt 1 7 ⟨false, false, false⟩), .intExit, .pendSv]

theorem queues_refine_takeRun :
    let y := (cpu.run (Cpu.start [10]) takeRun).sys
    (osQPendLeave 1 y.os).res = some ⟨.none, 7⟩ ∧
      (osqPendLeave y.os.osPrioCur 1 y.os.abs).2.1.toNat = 7 := by
  intro y
  have hres : (osQPendLeave 1 y.os).res = some ⟨.none, 7⟩ := by decide
  have h := (queues_refine [10] takeRun (by decide)).leave (by decide) .q 1 (by decide)
  have hsnd := congrArg Prod.snd h
  dsimp only at hsnd
  rw [hres] at hsnd
  exact ⟨hres, (congrArg Prod.fst (Option.some.inj hsnd)).symm⟩

end PlcFirmware.Ucos
