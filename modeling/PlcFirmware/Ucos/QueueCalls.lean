import PlcFirmware.Infra.Deque
import PlcFirmware.Ucos.Calls

/-!
# Queues on the kernel with its scheduler

`os_q.c` once more, on the bits of the lists and divided where a call leaves its critical section.
`OSQFlush` does not check the type of its event: here it is the queue which it must be.
-/

namespace PlcFirmware.Ucos

open Infra

/-- The queue of an event. -/
def Os.queue (s : Os) (pevent : Nat) : OsQ := s.osQ (s.osEvent pevent).osEventPtr

/-- Change the control block of the buffer of an event. -/
def Os.setRing (s : Os) (pevent : Nat) (ring : Ring) : Os :=
  { s with
    osQ := Function.update s.osQ (s.osEvent pevent).osEventPtr { s.queue pevent with ring := ring } }

/-- Write a cell of the storage of the queue. -/
def Os.setCell (s : Os) (pevent : Nat) (i : Nat) (pmsg : Ptr) : Os :=
  { s with
    storage := Function.update s.storage (s.queue pevent).osqStart
      (Function.update (s.storage (s.queue pevent).osqStart) i pmsg) }

/-- The message in cell `OSQOut`. -/
def Os.oldest (s : Os) (pevent : Nat) : Ptr :=
  s.storage (s.queue pevent).osqStart (s.queue pevent).ring.qOut

/-- The critical section of `OSQAccept` -/
def osQAcceptSection (pevent : Nat) (s : Os) : Ret :=
  if (s.queue pevent).ring.entries > 0 then
    (s.setRing pevent (s.queue pevent).ring.pop).done .none (s.oldest pevent).toNat
  else s.done .qEmpty 0

/-- `OSQAccept` -/
def osQAccept (pevent : Nat) (s : Os) : Ret :=
  if (s.osEvent pevent).osEventType ≠ .q then s.done .eventType 0
  else osQAcceptSection pevent s

/-- What `OSQCreate` writes into the control blocks which it has taken. -/
def osQCreateFill (start size pevent pq : Nat) (s : Os) : Ret :=
  { s with
    osQ := Function.update s.osQ pq ⟨start, Ring.empty size⟩
    osEvent := Function.update s.osEvent pevent ⟨.q, 0, pq, BitTable.empty⟩ }.done .none pevent

/-- `OSQCreate`. Without a free `OS_Q` the event goes back to the list. -/
def osQCreate (start size : Nat) (s : Os) : Ret :=
  if s.osIntNesting > 0 then s.done .none 0
  else
    match s.osEventFreeList, s.osQFreeList with
    | pevent :: events, pq :: queues =>
      osQCreateFill start size pevent pq { s with osEventFreeList := events, osQFreeList := queues }
    | _, _ => s.done .none 0

/-- The `OS_Q` of the event goes back to its list. -/
def Os.freeQ (s : Os) (pevent : Nat) : Os :=
  { s with osQFreeList := (s.osEvent pevent).osEventPtr :: s.osQFreeList }

/-- The critical section of `OSQDel` -/
def osQDelSection (pevent : Nat) (opt : DelOpt) (s : Os) : Ret :=
  if s.osIntNesting > 0 then s.done .delIsr pevent
  else
    let tasksWaiting := (s.osEvent pevent).wait.grp ≠ 0#8
    match opt with
    | .noPend =>
      if tasksWaiting then s.done .taskWaiting pevent
      else ((s.freeQ pevent).freeEvent pevent).done .none 0
    | .always =>
      let s := (Os.osEventTaskRdyAll pevent 0 statQ .abort 64 s).1
      let s := (s.freeQ pevent).freeEvent pevent
      if tasksWaiting then s.thenSched .none 0 else s.done .none 0
    | .other => s.done .invalidOpt pevent

/-- `OSQDel` -/
def osQDel (pevent : Nat) (opt : DelOpt) (s : Os) : Ret :=
  if (s.osEvent pevent).osEventType ≠ .q then s.done .eventType pevent
  else osQDelSection pevent opt s

/-- `OSQFlush` -/
def osQFlush (pevent : Nat) (s : Os) : Ret :=
  if (s.osEvent pevent).osEventType ≠ .q then s.done .none 0
  else (s.setRing pevent (s.queue pevent).ring.flush).done .none 0

/-- The critical section of `OSQPend` -/
def osQPendSection (pevent timeout : Nat) (s : Os) : Ret :=
  if s.osIntNesting > 0 then s.done .pendIsr 0
  else if s.osLockNesting > 0 then s.done .pendLocked 0
  else if (s.queue pevent).ring.entries > 0 then
    (s.setRing pevent (s.queue pevent).ring.pop).done .none (s.oldest pevent).toNat
  else ⟨s.pendWait statQ pevent timeout, none, .pend .q pevent⟩

/-- `OSQPend` up to `OS_Sched` -/
def osQPend (pevent timeout : Nat) (s : Os) : Ret :=
  if (s.osEvent pevent).osEventType ≠ .q then s.done .eventType 0
  else osQPendSection pevent timeout s

/-- `OSQPend` from behind `OS_Sched` on -/
def osQPendLeave (pevent : Nat) (s : Os) : Ret :=
  let tcb := s.osTcb s.osPrioCur
  let pmsg := if tcb.osTcbStatPend = .ok then tcb.osTcbMsg else 0
  let s := s.pendEnd pevent
  (s.setTcb s.osPrioCur { s.osTcb s.osPrioCur with osTcbMsg := 0 }).done tcb.osTcbStatPend.err
    pmsg.toNat

/-- The critical section of `OSQPendAbort` -/
def osQPendAbortSection (pevent : Nat) (broadcast : Bool) (s : Os) : Ret :=
  if (s.osEvent pevent).wait.grp ≠ 0#8 then
    if broadcast then
      let r := Os.osEventTaskRdyAll pevent 0 statQ .abort 64 s
      r.1.thenSched .pendAbort r.2
    else (s.osEventTaskRdy pevent 0 statQ .abort).thenSched .pendAbort 1
  else s.done .none 0

/-- `OSQPendAbort`, with `OS_PEND_OPT_BROADCAST` or not -/
def osQPendAbort (pevent : Nat) (broadcast : Bool) (s : Os) : Ret :=
  if (s.osEvent pevent).osEventType ≠ .q then s.done .eventType 0
  else osQPendAbortSection pevent broadcast s

/-- The options of `OSQPostOpt`. -/
structure PostOpt where
  broadcast : Bool
  front : Bool
  noSched : Bool
  deriving DecidableEq

/-- The critical section of `OSQPostOpt` -/
def osQPostOptSection (pevent : Nat) (pmsg : Ptr) (opt : PostOpt) (s : Os) : Ret :=
  if (s.osEvent pevent).wait.grp ≠ 0#8 then
    let s :=
      if opt.broadcast then (Os.osEventTaskRdyAll pevent pmsg statQ .ok 64 s).1
      else s.osEventTaskRdy pevent pmsg statQ .ok
    if opt.noSched then s.done .none 0 else s.thenSched .none 0
  else
    let ring := (s.queue pevent).ring
    if ring.entries ≥ ring.size then s.done .qFull 0
    else if opt.front then
      ((s.setCell pevent ring.pushFront.qOut pmsg).setRing pevent ring.pushFront).done .none 0
    else ((s.setCell pevent ring.qIn pmsg).setRing pevent ring.push).done .none 0

/--
`OSQPostOpt`. A full queue refuses the message, a task in wait takes it at once, or all of them do.
-/
def osQPostOpt (pevent : Nat) (pmsg : Ptr) (opt : PostOpt) (s : Os) : Ret :=
  if (s.osEvent pevent).osEventType ≠ .q then s.done .eventType 0
  else osQPostOptSection pevent pmsg opt s

/-- `OSQPost` -/
def osQPost (pevent : Nat) (pmsg : Ptr) (s : Os) : Ret :=
  osQPostOpt pevent pmsg ⟨false, false, false⟩ s

end PlcFirmware.Ucos
