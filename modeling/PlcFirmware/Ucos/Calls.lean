import PlcFirmware.Ucos.Core

/-!
# Semaphores, delays and tasks

`os_sem.c`, `os_time.c` and `os_task.c`. A call is divided where it leaves its critical section:
`Ret.cont` is what is left of it, `OS_Sched` or the rest of a pend. A call by an interrupt runs the same
code; the functions find out themselves by `OSIntNesting`.

A call tests the type of its event before it enters its critical section, and a creation takes its control
block before it fills it: what follows is a definition of its own, since a task can be preempted in
between. `OSIntNesting` and `OSLockNesting` are tested in front of the section too. They stand in it here,
because no switch comes with the scheduler locked, so that they are the same whenever the task runs.

`OS_ARG_CHK_EN` is 0: the arguments are not checked but where it says so. The creation of a task is one
step, with what `OS_TCBInit` does between its critical sections.
-/

namespace PlcFirmware.Ucos

open Infra

/-- Error codes. -/
inductive Err
  | none
  | eventType
  | pendIsr
  | pendLocked
  | pendAbort
  | timeout
  | semOvf
  | qFull
  | qEmpty
  | taskWaiting
  | delIsr
  | invalidOpt
  | prioInvalid
  | prioExist
  | taskNotExist
  | taskNotSuspended
  | taskSuspendPrio
  | taskResumePrio
  | taskCreateIsr
  | taskNoMoreTcb
  | taskDelIsr
  | taskDelIdle
  | timeNotDly
  deriving DecidableEq

/-- What is left of a call after its critical section. -/
inductive Cont
  /-- Nothing, the task runs its own code. -/
  | run
  /-- `OS_Sched` -/
  | sched
  /-- A pend on the event, from `OS_Sched` on. -/
  | pend (type : ObjType) (pevent : Nat)
  /-- A pend on the event, from behind `OS_Sched` on. -/
  | leave (type : ObjType) (pevent : Nat)
  deriving DecidableEq

/-- The result of a call: the error code and the value. -/
structure Res where
  err : Err
  val : Nat
  deriving DecidableEq

/-- A call has left its critical section. Without a result its task is suspended. -/
structure Ret where
  os : Os
  res : Option Res
  cont : Cont

/-- A call which ends in its critical section. -/
def Os.done (s : Os) (err : Err) (val : Nat) : Ret := ⟨s, some ⟨err, val⟩, .run⟩

/-- A call which goes on to `OS_Sched`. -/
def Os.thenSched (s : Os) (err : Err) (val : Nat) : Ret := ⟨s, some ⟨err, val⟩, .sched⟩

/-! ## Pends -/

/-- What `OSSemPend` and `OSQPend` do before `OS_Sched` when their task must wait. -/
def Os.pendWait (s : Os) (msk : BitVec 8) (pevent timeout : Nat) : Os :=
  let tcb := s.osTcb s.osPrioCur
  (s.setTcb s.osPrioCur
    { tcb with
      osTcbStat := tcb.osTcbStat ||| msk
      osTcbStatPend := .ok
      osTcbDly := timeout }).osEventTaskWait pevent

/-- What they do behind `OS_Sched`. -/
def Os.pendEnd (s : Os) (pevent : Nat) : Os :=
  let cur := s.osPrioCur
  let s :=
    if (s.osTcb cur).osTcbStatPend = .timedOut then s.osEventTaskRemove cur pevent else s
  s.setTcb cur { s.osTcb cur with osTcbStat := 0#8, osTcbStatPend := .ok, osTcbEventPtr := 0 }

/-- The error code of a pend which has waited. -/
def PendStat.err : PendStat → Err
  | .ok => .none
  | .abort => .pendAbort
  | .timedOut => .timeout

/-! ## Semaphores -/

/-- `OS_DEL_NO_PEND`, `OS_DEL_ALWAYS` and any other value. -/
inductive DelOpt
  | noPend
  | always
  | other
  deriving DecidableEq

/-- Change the count of an event. -/
def Os.setCnt (s : Os) (pevent cnt : Nat) : Os :=
  { s with osEvent := Function.update s.osEvent pevent { s.osEvent pevent with osEventCnt := cnt } }

/-- The event goes back to the free list. -/
def Os.freeEvent (s : Os) (pevent : Nat) : Os :=
  { s with
    osEvent := Function.update s.osEvent pevent
      { s.osEvent pevent with osEventType := .unused, osEventCnt := 0 }
    osEventFreeList := pevent :: s.osEventFreeList }

/-- The critical section of `OSSemAccept` -/
def osSemAcceptSection (pevent : Nat) (s : Os) : Ret :=
  let cnt := (s.osEvent pevent).osEventCnt
  if cnt > 0 then (s.setCnt pevent (cnt - 1)).done .none cnt else s.done .none cnt

/-- `OSSemAccept` -/
def osSemAccept (pevent : Nat) (s : Os) : Ret :=
  if (s.osEvent pevent).osEventType ≠ .sem then s.done .none 0
  else osSemAcceptSection pevent s

/-- What `OSSemCreate` writes into the control block which it has taken. -/
def osSemCreateFill (cnt : UInt16) (pevent : Nat) (s : Os) : Ret :=
  { s with
    osEvent := Function.update s.osEvent pevent ⟨.sem, cnt.toNat, 0, BitTable.empty⟩ }.done
      .none pevent

/-- `OSSemCreate` -/
def osSemCreate (cnt : UInt16) (s : Os) : Ret :=
  if s.osIntNesting > 0 then s.done .none 0
  else
    match s.osEventFreeList with
    | [] => s.done .none 0
    | pevent :: rest => osSemCreateFill cnt pevent { s with osEventFreeList := rest }

/-- The critical section of `OSSemDel` -/
def osSemDelSection (pevent : Nat) (opt : DelOpt) (s : Os) : Ret :=
  if s.osIntNesting > 0 then s.done .delIsr pevent
  else
    let tasksWaiting := (s.osEvent pevent).wait.grp ≠ 0#8
    match opt with
    | .noPend =>
      if tasksWaiting then s.done .taskWaiting pevent else (s.freeEvent pevent).done .none 0
    | .always =>
      let s := (Os.osEventTaskRdyAll pevent 0 statSem .abort 64 s).1.freeEvent pevent
      if tasksWaiting then s.thenSched .none 0 else s.done .none 0
    | .other => s.done .invalidOpt pevent

/-- `OSSemDel` -/
def osSemDel (pevent : Nat) (opt : DelOpt) (s : Os) : Ret :=
  if (s.osEvent pevent).osEventType ≠ .sem then s.done .eventType pevent
  else osSemDelSection pevent opt s

/-- The critical section of `OSSemPend` -/
def osSemPendSection (pevent timeout : Nat) (s : Os) : Ret :=
  if s.osIntNesting > 0 then s.done .pendIsr 0
  else if s.osLockNesting > 0 then s.done .pendLocked 0
  else
    let cnt := (s.osEvent pevent).osEventCnt
    if cnt > 0 then (s.setCnt pevent (cnt - 1)).done .none 0
    else ⟨s.pendWait statSem pevent timeout, none, .pend .sem pevent⟩

/-- `OSSemPend` up to `OS_Sched` -/
def osSemPend (pevent timeout : Nat) (s : Os) : Ret :=
  if (s.osEvent pevent).osEventType ≠ .sem then s.done .eventType 0
  else osSemPendSection pevent timeout s

/-- `OSSemPend` from behind `OS_Sched` on -/
def osSemPendLeave (pevent : Nat) (s : Os) : Ret :=
  (s.pendEnd pevent).done (s.osTcb s.osPrioCur).osTcbStatPend.err 0

/-- The critical section of `OSSemPendAbort` -/
def osSemPendAbortSection (pevent : Nat) (broadcast : Bool) (s : Os) : Ret :=
  if (s.osEvent pevent).wait.grp ≠ 0#8 then
    if broadcast then
      let r := Os.osEventTaskRdyAll pevent 0 statSem .abort 64 s
      r.1.thenSched .pendAbort r.2
    else (s.osEventTaskRdy pevent 0 statSem .abort).thenSched .pendAbort 1
  else s.done .none 0

/-- `OSSemPendAbort`, with `OS_PEND_OPT_BROADCAST` or not -/
def osSemPendAbort (pevent : Nat) (broadcast : Bool) (s : Os) : Ret :=
  if (s.osEvent pevent).osEventType ≠ .sem then s.done .eventType 0
  else osSemPendAbortSection pevent broadcast s

/-- The critical section of `OSSemPost` -/
def osSemPostSection (pevent : Nat) (s : Os) : Ret :=
  if (s.osEvent pevent).wait.grp ≠ 0#8 then
    (s.osEventTaskRdy pevent 0 statSem .ok).thenSched .none 0
  else
    let cnt := (s.osEvent pevent).osEventCnt
    if cnt < 65535 then (s.setCnt pevent (cnt + 1)).done .none 0 else s.done .semOvf 0

/-- `OSSemPost` -/
def osSemPost (pevent : Nat) (s : Os) : Ret :=
  if (s.osEvent pevent).osEventType ≠ .sem then s.done .eventType 0
  else osSemPostSection pevent s

/-- The critical section of `OSSemSet` -/
def osSemSetSection (pevent : Nat) (cnt : UInt16) (s : Os) : Ret :=
  if (s.osEvent pevent).osEventCnt > 0 then (s.setCnt pevent cnt.toNat).done .none 0
  else if (s.osEvent pevent).wait.grp = 0#8 then (s.setCnt pevent cnt.toNat).done .none 0
  else s.done .taskWaiting 0

/-- `OSSemSet` -/
def osSemSet (pevent : Nat) (cnt : UInt16) (s : Os) : Ret :=
  if (s.osEvent pevent).osEventType ≠ .sem then s.done .eventType 0
  else osSemSetSection pevent cnt s

/-! ## Delays -/

/-- `OSTimeDly` -/
def osTimeDly (ticks : Nat) (s : Os) : Ret :=
  if s.osIntNesting > 0 then s.done .none 0
  else if s.osLockNesting > 0 then s.done .none 0
  else if ticks > 0 then
    let cur := s.osPrioCur
    let s := s.makeUnready cur
    (s.setTcb cur { s.osTcb cur with osTcbDly := ticks }).thenSched .none 0
  else s.done .none 0

/-- `OSTimeDlyResume` -/
def osTimeDlyResume (prio : Prio) (s : Os) : Ret :=
  if prio ≥ idlePrio then s.done .prioInvalid 0
  else if s.osTcbPrioTbl prio = false then s.done .taskNotExist 0
  else if (s.osTcb prio).osTcbDly = 0 then s.done .timeNotDly 0
  else
    let s := s.wake prio
    if (s.osTcb prio).osTcbStat &&& statSuspend = 0#8 then s.thenSched .none 0 else s.done .none 0

/-! ## Tasks -/

/-- `OSTaskSuspend`; `none` is `OS_PRIO_SELF`. -/
def osTaskSuspend (prio : Option Prio) (s : Os) : Ret :=
  let prio := prio.getD s.osPrioCur
  if s.osTcbPrioTbl prio = false then s.done .taskSuspendPrio 0
  else
    let s := s.makeUnready prio
    let s := s.setTcb prio
      { s.osTcb prio with osTcbStat := (s.osTcb prio).osTcbStat ||| statSuspend }
    if prio = s.osPrioCur then s.thenSched .none 0 else s.done .none 0

/-- `OSTaskResume` -/
def osTaskResume (prio : Prio) (s : Os) : Ret :=
  if s.osTcbPrioTbl prio = false then s.done .taskResumePrio 0
  else
    let tcb := s.osTcb prio
    if tcb.osTcbStat &&& statSuspend ≠ 0#8 then
      let stat := tcb.osTcbStat &&& ~~~statSuspend
      let s := s.setTcb prio { tcb with osTcbStat := stat }
      if stat &&& statPendAny = 0#8 then
        if tcb.osTcbDly = 0 then (s.makeReady prio).thenSched .none 0 else s.done .none 0
      else s.done .none 0
    else s.done .taskNotSuspended 0

/-- `OS_TCBInit` with a free control block: the task is the first of `OSTCBList` and ready. -/
def Os.osTcbInit (s : Os) (prio : Prio) : Os :=
  ({ s with
      osTcbPrioTbl := Function.update s.osTcbPrioTbl prio true
      osTcbList := prio :: s.osTcbList
      osTcbFree := s.osTcbFree - 1 }.setTcb prio Tcb.init).makeReady prio

/-- `OSTaskCreate` -/
def osTaskCreate (prio : Prio) (s : Os) : Ret :=
  if s.osIntNesting > 0 then s.done .taskCreateIsr 0
  else if s.osTcbPrioTbl prio = true then s.done .prioExist 0
  else if s.osTcbFree = 0 then s.done .taskNoMoreTcb 0
  else (s.osTcbInit prio).thenSched .none 0

/-- `OSTaskDel`; `none` is `OS_PRIO_SELF`. -/
def osTaskDel (prio : Option Prio) (s : Os) : Ret :=
  if s.osIntNesting > 0 then s.done .taskDelIsr 0
  else if prio = some idlePrio then s.done .taskDelIdle 0
  else
    let prio := prio.getD s.osPrioCur
    if s.osTcbPrioTbl prio = false then s.done .taskNotExist 0
    else
      let s := s.makeUnready prio
      let pevent := (s.osTcb prio).osTcbEventPtr
      let s := if pevent ≠ 0 then s.osEventTaskRemove prio pevent else s
      let s := s.setTcb prio
        { s.osTcb prio with osTcbDly := 0, osTcbStat := 0#8, osTcbStatPend := .ok }
      { s with
        osTcbPrioTbl := Function.update s.osTcbPrioTbl prio false
        osTcbList := s.osTcbList.erase prio
        osTcbFree := s.osTcbFree + 1 }.thenSched .none 0

/-! ## The lock of the scheduler -/

/-- `OSSchedLock` -/
def osSchedLock (s : Os) : Ret :=
  if s.osIntNesting = 0 ∧ s.osLockNesting < 255 then
    { s with osLockNesting := s.osLockNesting + 1 }.done .none 0
  else s.done .none 0

/-- `OSSchedUnlock` -/
def osSchedUnlock (s : Os) : Ret :=
  if s.osIntNesting = 0 ∧ s.osLockNesting > 0 then
    let s := { s with osLockNesting := s.osLockNesting - 1 }
    if s.osLockNesting = 0 then s.thenSched .none 0 else s.done .none 0
  else s.done .none 0

end PlcFirmware.Ucos
