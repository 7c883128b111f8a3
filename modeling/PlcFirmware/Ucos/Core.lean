import Mathlib.Data.Nat.Basic
import PlcFirmware.Ucos.PrioTable

/-!
# The kernel with its scheduler

The state which `os_core.c`, `os_task.c`, `os_time.c`, `os_sem.c` and `os_q.c` share, down to the bits
of the ready list, and the functions of `os_core.c`. A task is known by its priority; `osPrioCur` stands
for `OSTCBCur` too. `pendSv` is the bit which `OSCtxSw` sets: the switch itself is done by the exception.
-/

namespace PlcFirmware.Ucos

open Infra

/-- `OSEventType` -/
inductive ObjType
  | unused
  | mbox
  | q
  | sem
  | mutex
  deriving DecidableEq

/-- `OS_STAT_SEM` -/
def statSem : BitVec 8 := 0x01#8

/-- `OS_STAT_MBOX` -/
def statMbox : BitVec 8 := 0x02#8

/-- `OS_STAT_Q` -/
def statQ : BitVec 8 := 0x04#8

/-- `OS_STAT_SUSPEND` -/
def statSuspend : BitVec 8 := 0x08#8

/-- `OS_STAT_MUTEX` -/
def statMutex : BitVec 8 := 0x10#8

/-- `OS_STAT_FLAG` -/
def statFlag : BitVec 8 := 0x20#8

/-- `OS_STAT_PEND_ANY` -/
def statPendAny : BitVec 8 := statSem ||| statMbox ||| statQ ||| statMutex ||| statFlag

/-- `OS_TASK_IDLE_PRIO` -/
def idlePrio : Prio := ⟨63, by decide⟩

/-- `OS_TCB` -/
structure Tcb where
  osTcbStat : BitVec 8
  osTcbStatPend : PendStat
  osTcbDly : Nat
  osTcbMsg : Ptr
  osTcbEventPtr : Nat

/-- What `OS_TCBInit` writes. -/
def Tcb.init : Tcb := ⟨0#8, .ok, 0, 0, 0⟩

/-- `OS_EVENT`. `wait` is `OSEventGrp` and `OSEventTbl`. -/
structure Event where
  osEventType : ObjType
  osEventCnt : Nat
  osEventPtr : Nat
  wait : PrioTbl

/-- The state of the kernel, with the storage of the queues. `rdy` is `OSRdyGrp` and `OSRdyTbl`. -/
structure Os where
  osTcb : Prio → Tcb
  osTcbPrioTbl : Prio → Bool
  osTcbList : List Prio
  osTcbFree : Nat
  rdy : PrioTbl
  osEvent : Nat → Event
  osEventFreeList : List Nat
  osQ : Nat → OsQ
  osQFreeList : List Nat
  storage : Nat → Nat → Ptr
  osIntNesting : Nat
  osLockNesting : Nat
  osPrioCur : Prio
  osPrioHighRdy : Prio
  pendSv : Bool
  osTime : UInt32

/-! ## Changing a task, an event, the ready list -/

/-- Change the control block of a task. -/
def Os.setTcb (s : Os) (prio : Prio) (tcb : Tcb) : Os :=
  { s with osTcb := Function.update s.osTcb prio tcb }

/-- Change the wait list of an event. -/
def Os.setWait (s : Os) (pevent : Nat) (wait : PrioTbl) : Os :=
  { s with osEvent := Function.update s.osEvent pevent { s.osEvent pevent with wait := wait } }

/-- `OSRdyGrp |= OSTCBBitY; OSRdyTbl[OSTCBY] |= OSTCBBitX` -/
def Os.makeReady (s : Os) (prio : Prio) : Os := { s with rdy := s.rdy.put prio }

/-- The task is taken out of the ready list. -/
def Os.makeUnready (s : Os) (prio : Prio) : Os := { s with rdy := s.rdy.drop prio }

/-! ## Events -/

/-- `OS_EventTaskRemove` -/
def Os.osEventTaskRemove (s : Os) (prio : Prio) (pevent : Nat) : Os :=
  (s.setWait pevent ((s.osEvent pevent).wait.drop prio)).setTcb prio
    { s.osTcb prio with osTcbEventPtr := 0 }

/--
`OS_EventTaskRdy`: the first task of the wait list gets the message; it is ready if it is not
suspended.
-/
def Os.osEventTaskRdy (s : Os) (pevent : Nat) (pmsg : Ptr) (msk : BitVec 8) (pendStat : PendStat) :
    Os :=
  let prio := (s.osEvent pevent).wait.highest
  let stat := (s.osTcb prio).osTcbStat &&& ~~~msk
  let s := s.setTcb prio
    { s.osTcb prio with
      osTcbDly := 0
      osTcbMsg := pmsg
      osTcbStat := stat
      osTcbStatPend := pendStat }
  let s := if stat &&& statSuspend = 0#8 then s.makeReady prio else s
  s.osEventTaskRemove prio pevent

/-- `OS_EventTaskWait` -/
def Os.osEventTaskWait (s : Os) (pevent : Nat) : Os :=
  let cur := s.osPrioCur
  let s := s.setTcb cur { s.osTcb cur with osTcbEventPtr := pevent }
  let s := s.setWait pevent ((s.osEvent pevent).wait.put cur)
  s.makeUnready cur

/--
`while (pevent->OSEventGrp != 0u)`, with the number of rounds; there are 64 bits in a wait list.
-/
def Os.osEventTaskRdyAll (pevent : Nat) (pmsg : Ptr) (msk : BitVec 8) (pendStat : PendStat) :
    (rounds : Nat) → Os → Os × Nat
  | 0, s => (s, 0)
  | rounds + 1, s =>
    if (s.osEvent pevent).wait.grp = 0#8 then (s, 0)
    else
      let r :=
        osEventTaskRdyAll pevent pmsg msk pendStat rounds
          (s.osEventTaskRdy pevent pmsg msk pendStat)
      (r.1, r.2 + 1)

/-! ## The scheduler -/

/-- `OS_SchedNew` -/
def Os.osSchedNew (s : Os) : Os := { s with osPrioHighRdy := s.rdy.highest }

/-- `OS_Sched` -/
def Os.osSched (s : Os) : Os :=
  if s.osIntNesting = 0 ∧ s.osLockNesting = 0 then
    let s := s.osSchedNew
    if s.osPrioHighRdy ≠ s.osPrioCur then { s with pendSv := true } else s
  else s

/-- `PendSV_Handler` -/
def Os.pendSvHandler (s : Os) : Os := { s with osPrioCur := s.osPrioHighRdy, pendSv := false }

/-- `OSIntEnter` -/
def Os.osIntEnter (s : Os) : Os :=
  if s.osIntNesting < 255 then { s with osIntNesting := s.osIntNesting + 1 } else s

/-- `OSIntExit`. `OSIntCtxSw` does what `OSCtxSw` does, so that the rest is `OS_Sched`. -/
def Os.osIntExit (s : Os) : Os :=
  (if s.osIntNesting > 0 then { s with osIntNesting := s.osIntNesting - 1 } else s).osSched

/-! ## Time -/

/--
The end of a delay, of `OSTimeTick` and of `OSTimeDlyResume`. The task stays in the wait list of its
event until it runs.
-/
def Os.wake (s : Os) (prio : Prio) : Os :=
  let tcb := s.osTcb prio
  let pending := tcb.osTcbStat &&& statPendAny ≠ 0#8
  let stat := if pending then tcb.osTcbStat &&& ~~~statPendAny else tcb.osTcbStat
  let s := s.setTcb prio
    { tcb with
      osTcbDly := 0
      osTcbStat := stat
      osTcbStatPend := if pending then .timedOut else .ok }
  if stat &&& statSuspend = 0#8 then s.makeReady prio else s

/-- What `OSTimeTick` does with a task. -/
def Os.tickTask (s : Os) (prio : Prio) : Os :=
  let tcb := s.osTcb prio
  if tcb.osTcbDly = 0 then s
  else if tcb.osTcbDly - 1 = 0 then s.wake prio
  else s.setTcb prio { tcb with osTcbDly := tcb.osTcbDly - 1 }

/-- `OSTimeTick`: the tasks of `OSTCBList` up to the idle task. -/
def Os.osTimeTick (s : Os) : Os :=
  (s.osTcbList.takeWhile (· ≠ idlePrio)).foldl Os.tickTask { s with osTime := s.osTime + 1 }

end PlcFirmware.Ucos
