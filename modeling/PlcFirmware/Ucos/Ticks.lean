import PlcFirmware.Ucos.Waiting

/-!
# Delays and timeouts

A delay, and the timeout of a pend, counts the ticks down. Whatever tasks and interrupts do in the
meantime, the task gets on with the tick on which its delay runs out, and not before: unless its event is
posted, aborted or deleted, its delay resumed, or the task deleted.

* `Call.sameTimer` — no other call touches the timer of a task
* `Good.tick_tcb` — a tick counts it down once
* `timeouts_exact` — the whole run
-/

namespace PlcFirmware.Ucos

open Infra

variable {s s' s'' : Os} {p q : Prio} {pevent : Nat} {y : Sys}

/-! ## A tick -/

/-- What `OSTimeTick` writes into the control block of a task. -/
def Tcb.tick (tcb : Tcb) : Tcb :=
  if tcb.osTcbDly = 0 then tcb
  else if tcb.osTcbDly - 1 = 0 then tcb.woken
  else { tcb with osTcbDly := tcb.osTcbDly - 1 }

theorem tickTask_tcb_self (s : Os) (p : Prio) : (s.tickTask p).osTcb p = (s.osTcb p).tick := by
  unfold Os.tickTask Tcb.tick
  dsimp only
  split
  · rfl
  · split
    · exact osTcb_wake s p
    · exact osTcb_setTcb _

theorem SameAt.tickTask (s : Os) (h : p ≠ q) : SameAt s (s.tickTask q) p := by
  unfold Os.tickTask
  exact .ite (.refl s p) (.ite (.wake s h) (.setTcb s _ h))

/-- The tasks of the list are ticked once each, and no others. -/
theorem foldl_tickTask_tcb (l : List Prio) (hl : l.Nodup) (s : Os) (p : Prio) :
    (l.foldl Os.tickTask s).osTcb p = if p ∈ l then (s.osTcb p).tick else s.osTcb p := by
  induction l generalizing s with
  | nil => rfl
  | cons q l ih =>
    obtain ⟨hq, hl⟩ := List.nodup_cons.mp hl
    rw [List.foldl_cons, ih hl]
    by_cases hp : p = q
    · subst hp
      rw [if_neg hq, if_pos List.mem_cons_self, tickTask_tcb_self]
    · have hmem : p ∈ q :: l ↔ p ∈ l := by rw [List.mem_cons, or_iff_right hp]
      rw [(SameAt.tickTask s hp).tcb, if_congr hmem rfl rfl]

/-- **A tick reaches every task but the idle task.** -/
theorem Good.tick_tcb (h : Good s) (hp : s.osTcbPrioTbl p = true) (hne : p ≠ idlePrio) :
    (s.osTimeTick).osTcb p = (s.osTcb p).tick := by
  unfold Os.osTimeTick
  rw [foldl_tickTask_tcb _ (h.pools.task_nodup.sublist (List.takeWhile_sublist _)),
    if_pos (h.pools.takeWhile_idle.mpr ⟨hne, hp⟩)]

/-! ## What leaves the timer of a task alone -/

/-- The task is delayed as it was, and waits for what it waited for. -/
structure SameTimer (s s' : Os) (p : Prio) : Prop where
  tbl : s'.osTcbPrioTbl p = s.osTcbPrioTbl p
  dly : (s'.osTcb p).osTcbDly = (s.osTcb p).osTcbDly
  ptr : (s'.osTcb p).osTcbEventPtr = (s.osTcb p).osTcbEventPtr
  pends : (s'.osTcb p).osTcbStat &&& statPendAny = (s.osTcb p).osTcbStat &&& statPendAny

namespace SameTimer

theorem refl (s : Os) (p : Prio) : SameTimer s s p := ⟨rfl, rfl, rfl, rfl⟩

theorem trans (h : SameTimer s s' p) (h' : SameTimer s' s'' p) : SameTimer s s'' p :=
  ⟨h'.tbl.trans h.tbl, h'.dly.trans h.dly, h'.ptr.trans h.ptr, h'.pends.trans h.pends⟩

theorem of_same (h : SameAt s s' p) : SameTimer s s' p :=
  ⟨h.tbl, by rw [h.tcb], by rw [h.tcb], by rw [h.tcb]⟩

/-- No control block has changed. -/
theorem of_tcb (htcb : s'.osTcb = s.osTcb) (htbl : s'.osTcbPrioTbl = s.osTcbPrioTbl) :
    SameTimer s s' p :=
  ⟨by rw [htbl], by rw [htcb], by rw [htcb], by rw [htcb]⟩

/-- The bit of the suspension is none of the timer. -/
theorem setStat {stat : BitVec 8}
    (h : stat &&& statPendAny = (s.osTcb q).osTcbStat &&& statPendAny) :
    SameTimer s (s.setTcb q { s.osTcb q with osTcbStat := stat }) p := by
  by_cases hp : p = q
  · subst hp
    refine ⟨rfl, ?_, ?_, ?_⟩
    · rw [osTcb_setTcb]
    · rw [osTcb_setTcb]
    · rw [osTcb_setTcb]
      exact h
  · exact of_same (.setTcb s _ hp)

/-- A task which gets something from another event is another task. -/
theorem rdy (h : Lists s) (hne : (s.osEvent pevent).wait.grp ≠ 0#8)
    (hp : (s.osTcb p).osTcbEventPtr ≠ pevent) (pmsg : Ptr) (msk : BitVec 8) (stat : PendStat) :
    SameTimer s (s.osEventTaskRdy pevent pmsg msk stat) p := by
  refine of_same (.osEventTaskRdy s pevent pmsg msk stat fun heq => hp ?_)
  have hwait := h.highest_waits hne
  rw [← heq] at hwait
  exact ((h.task p).waiting pevent hwait).ptr

theorem rdyAll (h : Lists s) (hp : (s.osTcb p).osTcbEventPtr ≠ pevent) {msk : BitVec 8}
    (hmsk : (s.osEvent pevent).osEventType.stat = msk) (pmsg : Ptr) (stat : PendStat) (rounds : Nat) :
    SameTimer s (Os.osEventTaskRdyAll pevent pmsg msk stat rounds s).1 p := by
  induction rounds generalizing s with
  | zero => exact refl s p
  | succ rounds ih =>
    unfold Os.osEventTaskRdyAll
    split
    · exact refl s p
    · next hne =>
      have hone := rdy h hne hp pmsg msk stat
      refine hone.trans (ih ?_ ?_ ?_)
      · subst hmsk
        exact h.osEventTaskRdy hne pmsg stat
      · rw [hone.ptr]
        exact hp
      · rw [(Moves.osEventTaskRdy s pevent pmsg msk stat).type, hmsk]

end SameTimer

/-! ## Calls -/

/-- A call which ends the delay of the task, or the task. -/
def Call.Wakes (s : Os) (p : Prio) : Call → Prop
  | semDel pevent _ | semPendAbort pevent _ | semPost pevent | qDel pevent _ | qPendAbort pevent _
  | qPostOpt pevent _ _ => pevent = (s.osTcb p).osTcbEventPtr
  | timeDlyResume prio => prio = p
  | taskDel prio => prio.getD s.osPrioCur = p
  | _ => False

instance (s : Os) (p : Prio) (c : Call) : Decidable (c.Wakes s p) :=
  match c with
  | .semDel pevent _ | .semPendAbort pevent _ | .semPost pevent | .qDel pevent _
  | .qPendAbort pevent _ | .qPostOpt pevent _ _ =>
    inferInstanceAs (Decidable (pevent = (s.osTcb p).osTcbEventPtr))
  | .timeDlyResume prio => inferInstanceAs (Decidable (prio = p))
  | .taskDel prio => inferInstanceAs (Decidable (prio.getD s.osPrioCur = p))
  | .semAccept _ | .semCreate _ | .semPend _ _ | .semSet _ _ | .qAccept _ | .qCreate _ _ | .qFlush _
  | .qPend _ _ | .timeDly _ | .taskSuspend _ | .taskResume _ | .taskCreate _ | .schedLock
  | .schedUnlock => isFalse id

/-- A delayed task does not run, unless the scheduler is locked. -/
theorem Caller.ne_of_dly (h : Caller s) (hnest : ¬s.osIntNesting > 0) (hlock : ¬s.osLockNesting > 0)
    (hdly : (s.osTcb p).osTcbDly ≠ 0) : p ≠ s.osPrioCur := by
  rintro rfl
  have hready := (h.run (Nat.eq_zero_of_not_pos hnest) (Nat.eq_zero_of_not_pos hlock)).1
  exact hdly ((h.good.lists.task _).ready_iff.mp hready).2.2

namespace SameTimer

theorem semDel (h : Lists s) (hp : pevent ≠ (s.osTcb p).osTcbEventPtr) (opt : DelOpt) :
    SameTimer s (osSemDel pevent opt s).os p := by
  unfold osSemDel osSemDelSection
  split
  · exact refl s p
  · next htype =>
    have hmsk : (s.osEvent pevent).osEventType.stat = statSem := by rw [not_not.mp htype]; rfl
    split
    · exact refl s p
    · cases opt with
      | noPend =>
        dsimp only
        split
        · exact refl s p
        · exact of_tcb rfl rfl
      | always =>
        have hall := rdyAll h hp.symm hmsk 0 .abort 64
        dsimp only
        split
        · exact hall.trans (of_tcb rfl rfl)
        · exact hall.trans (of_tcb rfl rfl)
      | other => exact refl s p

theorem qDel (h : Lists s) (hp : pevent ≠ (s.osTcb p).osTcbEventPtr) (opt : DelOpt) :
    SameTimer s (osQDel pevent opt s).os p := by
  unfold osQDel osQDelSection
  split
  · exact refl s p
  · next htype =>
    have hmsk : (s.osEvent pevent).osEventType.stat = statQ := by rw [not_not.mp htype]; rfl
    split
    · exact refl s p
    · cases opt with
      | noPend =>
        dsimp only
        split
        · exact refl s p
        · exact of_tcb rfl rfl
      | always =>
        have hall := rdyAll h hp.symm hmsk 0 .abort 64
        dsimp only
        split
        · exact hall.trans (of_tcb rfl rfl)
        · exact hall.trans (of_tcb rfl rfl)
      | other => exact refl s p

theorem pendWait (hp : p ≠ s.osPrioCur) (msk : BitVec 8) (pevent timeout : Nat) :
    SameTimer s (s.pendWait msk pevent timeout) p := by
  refine ⟨rfl, ?_, ?_, ?_⟩ <;> simp [Os.pendWait, Os.osEventTaskWait, Os.setTcb, Os.setWait,
    Os.makeUnready, hp]

theorem semPend (h : Caller s) (hdly : (s.osTcb p).osTcbDly ≠ 0) (pevent timeout : Nat) :
    SameTimer s (osSemPend pevent timeout s).os p := by
  unfold osSemPend osSemPendSection
  split
  · exact refl s p
  · split
    · exact refl s p
    · next hnest =>
      split
      · exact refl s p
      · next hlock =>
        dsimp only
        split
        · exact of_tcb rfl rfl
        · exact pendWait (h.ne_of_dly hnest hlock hdly) statSem pevent timeout

theorem qPend (h : Caller s) (hdly : (s.osTcb p).osTcbDly ≠ 0) (pevent timeout : Nat) :
    SameTimer s (osQPend pevent timeout s).os p := by
  unfold osQPend osQPendSection
  split
  · exact refl s p
  · split
    · exact refl s p
    · next hnest =>
      split
      · exact refl s p
      · next hlock =>
        split
        · exact of_tcb rfl rfl
        · exact pendWait (h.ne_of_dly hnest hlock hdly) statQ pevent timeout

theorem semPendAbort (h : Lists s) (hp : pevent ≠ (s.osTcb p).osTcbEventPtr) (broadcast : Bool) :
    SameTimer s (osSemPendAbort pevent broadcast s).os p := by
  unfold osSemPendAbort osSemPendAbortSection
  split
  · exact refl s p
  · next htype =>
    have hmsk : (s.osEvent pevent).osEventType.stat = statSem := by rw [not_not.mp htype]; rfl
    split
    · next hne =>
      split
      · exact rdyAll h hp.symm hmsk 0 .abort 64
      · exact rdy h hne hp.symm 0 statSem .abort
    · exact refl s p

theorem qPendAbort (h : Lists s) (hp : pevent ≠ (s.osTcb p).osTcbEventPtr) (broadcast : Bool) :
    SameTimer s (osQPendAbort pevent broadcast s).os p := by
  unfold osQPendAbort osQPendAbortSection
  split
  · exact refl s p
  · next htype =>
    have hmsk : (s.osEvent pevent).osEventType.stat = statQ := by rw [not_not.mp htype]; rfl
    split
    · next hne =>
      split
      · exact rdyAll h hp.symm hmsk 0 .abort 64
      · exact rdy h hne hp.symm 0 statQ .abort
    · exact refl s p

theorem semPost (h : Lists s) (hp : pevent ≠ (s.osTcb p).osTcbEventPtr) :
    SameTimer s (osSemPost pevent s).os p := by
  unfold osSemPost osSemPostSection
  split
  · exact refl s p
  · split
    · next hne => exact rdy h hne hp.symm 0 statSem .ok
    · dsimp only
      split
      · exact of_tcb rfl rfl
      · exact refl s p

theorem qPostOpt (h : Lists s) (hp : pevent ≠ (s.osTcb p).osTcbEventPtr) (pmsg : Ptr)
    (opt : PostOpt) : SameTimer s (osQPostOpt pevent pmsg opt s).os p := by
  unfold osQPostOpt osQPostOptSection
  split
  · exact refl s p
  · next htype =>
    have hmsk : (s.osEvent pevent).osEventType.stat = statQ := by rw [not_not.mp htype]; rfl
    split
    · next hne =>
      have hrdy : SameTimer s (if opt.broadcast
          then (Os.osEventTaskRdyAll pevent pmsg statQ .ok 64 s).1
          else s.osEventTaskRdy pevent pmsg statQ .ok) p := by
        split
        · exact rdyAll h hp.symm hmsk pmsg .ok 64
        · exact rdy h hne hp.symm pmsg statQ .ok
      dsimp only
      split
      · exact hrdy
      · exact hrdy
    · dsimp only
      split
      · exact refl s p
      · split
        · exact of_tcb rfl rfl
        · exact of_tcb rfl rfl

theorem timeDly (h : Caller s) (hdly : (s.osTcb p).osTcbDly ≠ 0) (ticks : Nat) :
    SameTimer s (osTimeDly ticks s).os p := by
  unfold osTimeDly
  split
  · exact refl s p
  · next hnest =>
    split
    · exact refl s p
    · next hlock =>
      have hp := h.ne_of_dly hnest hlock hdly
      split
      · exact of_same ((SameAt.makeUnready s hp).trans (.setTcb _ _ hp))
      · exact refl s p

theorem timeDlyResume (hp : q ≠ p) : SameTimer s (osTimeDlyResume q s).os p := by
  have hwake : SameTimer s (s.wake q) p := of_same (.wake s hp.symm)
  unfold osTimeDlyResume
  split
  · exact refl s p
  · split
    · exact refl s p
    · split
      · exact refl s p
      · dsimp only
        split
        · exact hwake
        · exact hwake

theorem taskSuspend (prio : Option Prio) : SameTimer s (osTaskSuspend prio s).os p := by
  unfold osTaskSuspend
  dsimp only
  generalize prio.getD s.osPrioCur = q
  have hsusp : SameTimer s ((s.makeUnready q).setTcb q
      { (s.makeUnready q).osTcb q with
        osTcbStat := ((s.makeUnready q).osTcb q).osTcbStat ||| statSuspend }) p := by
    refine (of_tcb rfl rfl : SameTimer s (s.makeUnready q) p).trans (setStat ?_)
    rw [BitVec.and_or_distrib_right, show statSuspend &&& statPendAny = 0#8 by decide, BitVec.or_zero]
  split
  · exact refl s p
  · split
    · exact hsusp
    · exact hsusp

theorem taskResume (prio : Prio) : SameTimer s (osTaskResume prio s).os p := by
  unfold osTaskResume
  have hres : SameTimer s (s.setTcb prio
      { s.osTcb prio with osTcbStat := (s.osTcb prio).osTcbStat &&& ~~~statSuspend }) p := by
    refine setStat ?_
    rw [BitVec.and_assoc, show ~~~statSuspend &&& statPendAny = statPendAny by decide]
  split
  · exact refl s p
  · dsimp only
    split
    · split
      · split
        · exact hres.trans (of_tcb rfl rfl)
        · exact hres
      · exact hres
    · exact refl s p

theorem taskCreate (hp : s.osTcbPrioTbl p = true) (prio : Prio) :
    SameTimer s (osTaskCreate prio s).os p := by
  unfold osTaskCreate
  split
  · exact refl s p
  · split
    · exact refl s p
    · next hnew =>
      have hne : p ≠ prio := fun he => hnew (he ▸ hp)
      split
      · exact refl s p
      · exact of_same (.osTcbInit s hne)

theorem taskDel {prio : Option Prio} (hp : prio.getD s.osPrioCur ≠ p) :
    SameTimer s (osTaskDel prio s).os p := by
  unfold osTaskDel
  split
  · exact refl s p
  · split
    · exact refl s p
    · dsimp only
      generalize prio.getD s.osPrioCur = q at hp ⊢
      split
      · exact refl s p
      · have hremove : SameAt s (if ((s.makeUnready q).osTcb q).osTcbEventPtr ≠ 0
            then (s.makeUnready q).osEventTaskRemove q ((s.makeUnready q).osTcb q).osTcbEventPtr
            else s.makeUnready q) p :=
          .ite ((SameAt.makeUnready s hp.symm).trans (.osEventTaskRemove _ _ hp.symm))
            (.makeUnready s hp.symm)
        exact of_same (hremove.trans (.forget _ hp.symm))

end SameTimer

/-- **No other call touches the timer of a task.** -/
theorem Call.sameTimer (h : Caller s) (htbl : s.osTcbPrioTbl p = true)
    (hdly : (s.osTcb p).osTcbDly ≠ 0) {c : Call} (hc : ¬c.Wakes s p) :
    SameTimer s (c.exec s).os p := by
  cases c with
  | semAccept pevent =>
    show SameTimer s (osSemAccept pevent s).os p
    unfold osSemAccept osSemAcceptSection
    split
    · exact .refl s p
    · dsimp only
      split
      · exact .of_tcb rfl rfl
      · exact .refl s p
  | semCreate cnt =>
    show SameTimer s (osSemCreate cnt s).os p
    unfold osSemCreate osSemCreateFill
    split
    · exact .refl s p
    · split
      · exact .refl s p
      · exact .of_tcb rfl rfl
  | semDel pevent opt => exact .semDel h.good.lists hc opt
  | semPend pevent timeout => exact .semPend h hdly pevent timeout
  | semPendAbort pevent broadcast => exact .semPendAbort h.good.lists hc broadcast
  | semPost pevent => exact .semPost h.good.lists hc
  | semSet pevent cnt =>
    show SameTimer s (osSemSet pevent cnt s).os p
    unfold osSemSet osSemSetSection
    split
    · exact .refl s p
    · split
      · exact .of_tcb rfl rfl
      · split
        · exact .of_tcb rfl rfl
        · exact .refl s p
  | qAccept pevent =>
    show SameTimer s (osQAccept pevent s).os p
    unfold osQAccept osQAcceptSection
    split
    · exact .refl s p
    · split
      · exact .of_tcb rfl rfl
      · exact .refl s p
  | qCreate start size =>
    show SameTimer s (osQCreate start size s).os p
    unfold osQCreate osQCreateFill
    split
    · exact .refl s p
    · split
      · exact .of_tcb rfl rfl
      · exact .refl s p
  | qDel pevent opt => exact .qDel h.good.lists hc opt
  | qFlush pevent =>
    show SameTimer s (osQFlush pevent s).os p
    unfold osQFlush
    split
    · exact .refl s p
    · exact .of_tcb rfl rfl
  | qPend pevent timeout => exact .qPend h hdly pevent timeout
  | qPendAbort pevent broadcast => exact .qPendAbort h.good.lists hc broadcast
  | qPostOpt pevent pmsg opt => exact .qPostOpt h.good.lists hc pmsg opt
  | timeDly ticks => exact .timeDly h hdly ticks
  | timeDlyResume prio => exact .timeDlyResume hc
  | taskSuspend prio => exact .taskSuspend prio
  | taskResume prio => exact .taskResume prio
  | taskCreate prio => exact .taskCreate htbl prio
  | taskDel prio => exact .taskDel hc
  | schedLock =>
    show SameTimer s (osSchedLock s).os p
    unfold osSchedLock
    split
    · exact .of_tcb rfl rfl
    · exact .refl s p
  | schedUnlock =>
    show SameTimer s (osSchedUnlock s).os p
    unfold osSchedUnlock
    split
    · dsimp only
      split
      · exact .of_tcb rfl rfl
      · exact .of_tcb rfl rfl
    · exact .refl s p

/-! ## Steps -/

/-- A call which ends the delay of the task, or the task. -/
def Sys.Disturbs (y : Sys) (p : Prio) : Input → Prop
  | .call c => c.Wakes y.os p
  | _ => False

instance (y : Sys) (p : Prio) (i : Input) : Decidable (y.Disturbs p i) :=
  match i with
  | .call c => inferInstanceAs (Decidable (c.Wakes y.os p))
  | .go | .intEnter | .tick | .intExit | .pendSv => isFalse id

/-- `OSTimeTick` is called by an interrupt. -/
def Sys.isTick (y : Sys) (i : Input) : Bool := i = .tick ∧ y.os.osIntNesting > 0

theorem Untouched.sameTimer (h : Untouched s s') (p : Prio) : SameTimer s s' p :=
  .of_tcb h.tcb h.tbl

/-- The task which runs goes on. It is not delayed, if it is behind `OS_Sched`. -/
theorem SysOk.sameTimer_go (h : SysOk y) (htask : y.atTask = true)
    (hdly : (y.os.osTcb p).osTcbDly ≠ 0) : SameTimer y.os y.go.1.os p := by
  obtain ⟨hnest, hpend⟩ := of_decide_eq_true htask
  unfold Sys.go
  dsimp only
  cases hcont : y.cont y.os.osPrioCur with
  | run => exact .refl y.os p
  | sched => exact (Untouched.osSched y.os).sameTimer p
  | pend type pevent => exact (Untouched.osSched y.os).sameTimer p
  | leave type pevent =>
    have hne : p ≠ y.os.osPrioCur := by
      rintro rfl
      have hready := h.leave_ready hnest hpend hcont
      exact hdly ((h.good.lists.task _).ready_iff.mp hready).2.2
    exact .of_same ((pendLeave_rest type pevent y.os).same p hne)

/-- **A step which neither ticks nor disturbs the task leaves its timer alone.** -/
theorem SysOk.sameTimer {i : Input} (h : SysOk y) (hi : y.Allows i)
    (htbl : y.os.osTcbPrioTbl p = true) (hdly : (y.os.osTcb p).osTcbDly ≠ 0)
    (hno : ¬y.Disturbs p i) (htick : y.isTick i = false) : SameTimer y.os (y.step i).1.os p := by
  cases i with
  | call c =>
    unfold Sys.step
    dsimp only
    split
    · next hnest =>
      have hcaller := h.caller (fun hn => absurd hn (Nat.ne_of_gt hnest)) hi.1
      exact c.sameTimer hcaller htbl hdly hno
    · next hnest =>
      split
      · next hc =>
        obtain ⟨hn, hp⟩ := of_decide_eq_true hc.1
        have hcaller := h.caller (fun _ => ⟨hp, hc.2⟩) hi.1
        exact c.sameTimer hcaller htbl hdly hno
      · exact .refl y.os p
  | go =>
    unfold Sys.step
    dsimp only
    split
    · next hc => exact h.sameTimer_go hc hdly
    · exact .refl y.os p
  | intEnter => exact (Untouched.osIntEnter y.os).sameTimer p
  | tick =>
    have hnest : ¬y.os.osIntNesting > 0 := fun hn => by
      rw [Sys.isTick, decide_eq_false_iff_not] at htick
      exact htick ⟨rfl, hn⟩
    unfold Sys.step
    dsimp only
    rw [if_neg hnest]
    exact .refl y.os p
  | intExit =>
    unfold Sys.step
    dsimp only
    split
    · exact (Untouched.osIntExit y.os).sameTimer p
    · exact .refl y.os p
  | pendSv =>
    unfold Sys.step
    dsimp only
    split
    · exact (Untouched.pendSvHandler y.os).sameTimer p
    · exact .refl y.os p

/-! ## Runs -/

theorem Good.ne_idle (h : Good s) (hdly : (s.osTcb p).osTcbDly ≠ 0) : p ≠ idlePrio := by
  rintro rfl
  exact hdly ((h.lists.task _).ready_iff.mp h.idle_ready).2.2

/-- The delay of the task after `k` ticks. -/
structure Counts (s s' : Os) (p : Prio) (k : Nat) : Prop where
  tbl : s'.osTcbPrioTbl p = true
  dly : (s'.osTcb p).osTcbDly + k = (s.osTcb p).osTcbDly
  ptr : (s'.osTcb p).osTcbEventPtr = (s.osTcb p).osTcbEventPtr
  pends : (s'.osTcb p).osTcbStat &&& statPendAny = (s.osTcb p).osTcbStat &&& statPendAny

theorem Counts.trans {k k' : Nat} (h : Counts s s' p k) (h' : Counts s' s'' p k') :
    Counts s s'' p (k' + k) :=
  ⟨h'.tbl, by rw [← h.dly, ← h'.dly, Nat.add_assoc], h'.ptr.trans h.ptr, h'.pends.trans h.pends⟩

/-- A tick which is not the last. -/
theorem Good.counts_tick (h : Good s) (htbl : s.osTcbPrioTbl p = true)
    (hdly : 1 < (s.osTcb p).osTcbDly) : Counts s s.osTimeTick p 1 := by
  have hpos : (s.osTcb p).osTcbDly ≠ 0 := Nat.ne_of_gt (Nat.zero_lt_of_lt hdly)
  have htcb := h.tick_tcb htbl (h.ne_idle hpos)
  unfold Tcb.tick at htcb
  rw [if_neg hpos, if_neg (Nat.sub_ne_zero_of_lt hdly)] at htcb
  refine ⟨?_, ?_, by rw [htcb], by rw [htcb]⟩
  · rw [(osTimeTick_moves s).tbl]
    exact htbl
  · rw [htcb]
    exact Nat.sub_add_cancel hdly.le

/-- **One step of a run in which the delay does not run out.** -/
theorem SysOk.counts_step {i : Input} (h : SysOk y) (hi : y.Allows i)
    (htbl : y.os.osTcbPrioTbl p = true) (hno : ¬y.Disturbs p i)
    (hk : (if y.isTick i then 1 else 0) < (y.os.osTcb p).osTcbDly) :
    Counts y.os (y.step i).1.os p (if y.isTick i then 1 else 0) := by
  by_cases htick : y.isTick i = true
  · obtain ⟨rfl, hnest⟩ := of_decide_eq_true htick
    rw [if_pos htick] at hk ⊢
    have hos : (y.step .tick).1.os = y.os.osTimeTick := by
      unfold Sys.step
      dsimp only
      rw [if_pos hnest]
    rw [hos]
    exact h.good.counts_tick htbl hk
  · rw [if_neg htick] at hk ⊢
    have hsame := h.sameTimer hi htbl (Nat.ne_of_gt hk) hno (Bool.eq_false_iff.mpr htick)
    exact ⟨hsame.tbl.trans htbl, hsame.dly, hsame.ptr, hsame.pends⟩

/-- What a step carries out disturbs the task. -/
def Cpu.Disturbs (y : Cpu) (p : Prio) (i : Input) : Prop := ∃ j ∈ y.performs i, y.sys.Disturbs p j

instance (y : Cpu) (p : Prio) (i : Input) : Decidable (y.Disturbs p i) :=
  inferInstanceAs (Decidable (∃ j ∈ y.performs i, y.sys.Disturbs p j))

/-- How many ticks there are in a run. -/
def Cpu.ticks (y : Cpu) (is : List Input) : Nat :=
  (cpu.transitions y is).countP fun t => t.1.sys.isTick t.2

theorem Cpu.ticks_cons (y : Cpu) (i : Input) (is : List Input) :
    y.ticks (i :: is) = (y.step i).1.ticks is + if y.sys.isTick i then 1 else 0 := by
  unfold Cpu.ticks
  rw [Machine.transitions_cons, List.countP_cons]
  rfl

/-- What carries out a tick is a tick. -/
theorem Cpu.performs_tick {y : Cpu} {i j : Input} (hj : y.performs i = some j) : j = .tick ↔ i = .tick := by
  cases i with
  | call c =>
    refine iff_of_false ?_ Input.noConfusion
    rintro rfl
    unfold Cpu.performs at hj
    dsimp only at hj
    split at hj
    · cases hj
    · split at hj <;> cases hj
  | go =>
    refine iff_of_false ?_ Input.noConfusion
    rintro rfl
    unfold Cpu.performs Cpu.resumes at hj
    dsimp only at hj
    split at hj
    · split at hj <;> cases hj
    · cases hj
  | tick => exact iff_of_true (Option.some.inj hj).symm rfl
  | intEnter => cases hj; exact iff_of_false Input.noConfusion Input.noConfusion
  | intExit => cases hj; exact iff_of_false Input.noConfusion Input.noConfusion
  | pendSv => cases hj; exact iff_of_false Input.noConfusion Input.noConfusion

theorem Sys.Alike.tcb {x z : Sys} (hz : x.Alike z) :
    z.os.osTcb = x.os.osTcb ∧ z.os.osTcbPrioTbl = x.os.osTcbPrioTbl := by
  obtain ⟨l, q, -, -, rfl⟩ := hz
  exact ⟨rfl, rfl⟩

/-- **One step, with preemption inside the calls.** -/
theorem Cpu.counts_step {y : Cpu} {i : Input} (hstaged : y.Staged) (h : SysOk y.whole) (hi : y.Allows i)
    (htbl : y.sys.os.osTcbPrioTbl p = true) (hno : ¬y.Disturbs p i)
    (hk : (if y.sys.isTick i then 1 else 0) < (y.sys.os.osTcb p).osTcbDly) :
    Counts y.sys.os (y.step i).1.sys.os p (if y.sys.isTick i then 1 else 0) := by
  have hseen := Cpu.step_seen hstaged hi
  cases hj : y.performs i with
  | none =>
    have hsilent : y.sys.isTick i = false := by
      refine decide_eq_false fun htick => ?_
      rw [htick.1] at hj
      cases hj
    rw [hj] at hseen
    rw [hsilent]
    cases hseen with
    | nothing hx _ =>
      have htcb : (y.step i).1.sys.os.osTcb = y.sys.os.osTcb := hx.tcb.1
      have htbl' : (y.step i).1.sys.os.osTcbPrioTbl = y.sys.os.osTcbPrioTbl := hx.tcb.2
      exact ⟨by rw [htbl']; exact htbl, by rw [htcb]; rfl, by rw [htcb], by rw [htcb]⟩
  | some j =>
    have hasked : ∀ z, y.whole.Alike z → z.Allows j := fun z hz => hi.whole hj hz
    have hsame : y.sys.isTick i = y.sys.isTick j :=
      decide_eq_decide.mpr (and_congr_left fun _ => (Cpu.performs_tick hj).symm)
    have hno' : ¬y.sys.Disturbs p j := fun hd => hno ⟨j, hj, hd⟩
    rw [hj] at hseen
    rw [hsame] at hk ⊢
    cases hseen with
    | step hz hx _ =>
      have hone := hasked _ hz
      have hsys := h.alike hz
      obtain ⟨l, q, rfl⟩ := hz.eq_withFree
      have hcounts := hsys.counts_step hone htbl hno' hk
      have htcb : (y.step i).1.sys.os.osTcb = _ := hx.tcb.1
      have htbl' : (y.step i).1.sys.os.osTcbPrioTbl = _ := hx.tcb.2
      refine ⟨?_, ?_, ?_, ?_⟩
      · rw [htbl']
        exact hcounts.tbl
      · rw [htcb]
        exact hcounts.dly
      · rw [htcb]
        exact hcounts.ptr
      · rw [htcb]
        exact hcounts.pends

theorem Cpu.counts {y : Cpu} {is : List Input} (hstaged : y.Staged) (h : SysOk y.whole)
    (hG : ∀ t ∈ cpu.transitions y is, t.1.Allows t.2) (htbl : y.sys.os.osTcbPrioTbl p = true)
    (hno : ∀ t ∈ cpu.transitions y is, ¬t.1.Disturbs p t.2)
    (hk : y.ticks is < (y.sys.os.osTcb p).osTcbDly) :
    Counts y.sys.os (cpu.run y is).sys.os p (y.ticks is) := by
  induction is generalizing y with
  | nil => exact ⟨htbl, rfl, rfl, rfl⟩
  | cons i is ih =>
    rw [Machine.transitions_cons, List.forall_mem_cons] at hG hno
    rw [Cpu.ticks_cons] at hk ⊢
    have hone : Counts y.sys.os (y.step i).1.sys.os p (if y.sys.isTick i then 1 else 0) :=
      Cpu.counts_step hstaged h hG.1 htbl hno.1 (Nat.lt_of_le_of_lt (Nat.le_add_left ..) hk)
    have hdly := hone.dly
    have hleft : (y.step i).1.ticks is < ((y.step i).1.sys.os.osTcb p).osTcbDly := by omega
    have hok : SysOk (y.step i).1.whole :=
      (Cpu.step_seen hstaged hG.1).keeps (fun _ _ hz h => h.alike hz) (fun _ _ h hi => h.step hi) h
        fun j hj z hz => hG.1.whole hj hz
    exact hone.trans (ih hstaged.step hok hG.2 hone.tbl hno.2 hleft)

/-- The last tick of a delay. -/
theorem Good.last_tick (h : Good s) (htbl : s.osTcbPrioTbl p = true)
    (hdly : (s.osTcb p).osTcbDly = 1) :
    (s.osTimeTick.osTcb p) = (s.osTcb p).woken ∧
      ((s.osTcb p).osTcbStat &&& statSuspend = 0#8 → s.osTimeTick.ableToRun p) := by
  have hpos : (s.osTcb p).osTcbDly ≠ 0 := by rw [hdly]; exact Nat.one_ne_zero
  have htcb := h.tick_tcb htbl (h.ne_idle hpos)
  unfold Tcb.tick at htcb
  rw [if_neg hpos, if_pos (by rw [hdly])] at htcb
  refine ⟨htcb, fun hsusp => ⟨?_, ?_, ?_⟩⟩
  · rw [(osTimeTick_moves s).tbl]
    exact htbl
  · rw [htcb]
    refine (clear_eq_zero_iff (h.lists.task p).stat_le).mpr ?_
    rw [BitVec.and_assoc, show ~~~statPendAny &&& statSuspend = statSuspend by decide]
    exact hsusp
  · rw [htcb]
    rfl

/--
**Delays and timeouts are exact.** In every run from a state in which the task is delayed, undisturbed,
it is delayed by what is left after the ticks, and cannot run. The tick on which nothing is left makes it
ready, if it is not suspended; if it pends, that is a timeout.
-/
theorem timeouts_exact (prios : List Prio) (is js : List Input)
    (hG : ∀ t ∈ cpu.transitions (Cpu.start prios) (is ++ js), t.1.Allows t.2) {p : Prio}
    (htbl : (cpu.run (Cpu.start prios) is).sys.os.osTcbPrioTbl p = true)
    (hno : ∀ t ∈ cpu.transitions (cpu.run (Cpu.start prios) is) js, ¬t.1.Disturbs p t.2)
    (hk : (cpu.run (Cpu.start prios) is).ticks js <
      ((cpu.run (Cpu.start prios) is).sys.os.osTcb p).osTcbDly) :
    let y := cpu.run (Cpu.start prios) is
    let s := (cpu.run y js).sys.os
    ((s.osTcb p).osTcbDly + y.ticks js = (y.sys.os.osTcb p).osTcbDly ∧ ¬s.ableToRun p) ∧
      ((s.osTcb p).osTcbDly = 1 →
        (s.osTimeTick.osTcb p).osTcbDly = 0 ∧
        ((s.osTcb p).osTcbStat &&& statSuspend = 0#8 → s.osTimeTick.ableToRun p) ∧
        ((y.sys.os.osTcb p).osTcbStat &&& statPendAny ≠ 0#8 →
          (s.osTimeTick.osTcb p).osTcbStatPend = .timedOut)) := by
  intro y s
  rw [Machine.transitions_append] at hG
  obtain ⟨hG₁, hG₂⟩ := List.forall_mem_append.mp hG
  obtain ⟨hstaged, hpend⟩ := PendOk.run hG₁
  have hcounts := Cpu.counts hstaged hpend.sys hG₂ htbl hno hk
  have hrun : s = (cpu.run (Cpu.start prios) (is ++ js)).sys.os := by rw [Machine.run_append]
  have hgood : ∃ l q, Good (s.withFree l q) := by
    rw [hrun]
    exact ⟨_, _, (SysOk.run (by rwa [Machine.transitions_append])).good⟩
  have hdly := hcounts.dly
  refine ⟨⟨hdly, fun hable => ?_⟩, fun hone => ?_⟩
  · have hzero : (s.osTcb p).osTcbDly = 0 := hable.2.2
    have hk' : y.ticks js < (y.sys.os.osTcb p).osTcbDly := hk
    have hdly' : (s.osTcb p).osTcbDly + y.ticks js = (y.sys.os.osTcb p).osTcbDly := hdly
    omega
  · obtain ⟨l, q, hgood⟩ := hgood
    have hlast := hgood.last_tick (p := p) hcounts.tbl hone
    rw [Os.osTimeTick_withFree] at hlast
    obtain ⟨htcb, hready⟩ : s.osTimeTick.osTcb p = (s.osTcb p).woken ∧
      ((s.osTcb p).osTcbStat &&& statSuspend = 0#8 → s.osTimeTick.ableToRun p) := hlast
    refine ⟨by rw [htcb]; rfl, hready, fun hpend => ?_⟩
    rw [htcb]
    refine if_pos ?_
    rw [hcounts.pends]
    exact hpend

/-- Task 10 waits for a semaphore, for three ticks. -/
def waitRun : List Input :=
  [.pendSv, .call (.semCreate 0), .go, .call (.semPend 1 3), .go, .go, .pendSv]

/-- Task 12 makes another semaphore, with a tick in between, and posts it. -/
def otherRun : List Input :=
  [.call (.semCreate 0), .intEnter, .tick, .intExit, .go, .call (.semPost 2), .intEnter, .tick, .intExit, .go]

theorem timeouts_exact_otherRun :
    let y := cpu.run (Cpu.start [10, 12]) waitRun
    let s := (cpu.run y otherRun).sys.os
    ¬s.ableToRun 10 ∧ s.osTimeTick.ableToRun 10 ∧
      (s.osTimeTick.osTcb 10).osTcbStatPend = .timedOut := by
  have h := timeouts_exact [10, 12] waitRun otherRun (by decide) (p := 10) (by decide) (by decide)
    (by decide)
  exact ⟨h.1.2, (h.2 (by decide)).2.1 (by decide), (h.2 (by decide)).2.2 (by decide)⟩

end PlcFirmware.Ucos
