import PlcFirmware.Infra.Ring

/-!
# Message queues of the kernel

`os_q.c`, and what it uses of `os_core.c`. Tasks are known by their priority. A pointer to an event
control block is a number, `0` is `NULL`; `OSEventPtr` of a queue is the place of its `OS_Q` in
`OSQTbl`. The storage of a queue is an array outside the kernel, known by its owner.

A call which suspends its task is divided there: `osqPendEnter` is `OSQPend` up to `OS_Sched`,
`osqPendLeave` is the rest, when the task runs again. Everything between `OS_ENTER_CRITICAL` and
`OS_EXIT_CRITICAL` is one step.
-/

namespace PlcFirmware.Ucos

open Infra

/-- Priorities `0 .. OS_LOWEST_PRIO`. -/
abbrev Prio := Fin 64

/-- A message, or any other pointer. -/
abbrev Ptr := UInt32

/-- `OS_EVENT_TYPE_UNUSED`, `OS_EVENT_TYPE_Q` and the types of other objects. -/
inductive EventType
  | unused
  | q
  | other
  deriving DecidableEq

/-- `OS_EVENT`. The wait list has a bit for each priority. -/
structure OsEvent where
  osEventType : EventType
  osEventPtr : Nat
  osEventTbl : Prio → Bool

/-- `OS_Q`: whose storage `OSQStart` points to, and where the messages are in it. -/
structure OsQ where
  osqStart : Nat
  ring : Ring

/-- `OS_STAT_PEND_OK`, `OS_STAT_PEND_TO` and `OS_STAT_PEND_ABORT` -/
inductive PendStat
  | ok
  | timedOut
  | abort
  deriving DecidableEq

/-- `OS_TCB`. `osTcbStat` is the bit `OS_STAT_Q`, `ready` the bit of the task in `OSRdyTbl`. -/
structure OsTcb where
  osTcbStat : Bool
  osTcbStatPend : PendStat
  osTcbDly : Nat
  osTcbMsg : Ptr
  ready : Bool

/-- Error codes of the queue functions. -/
inductive OsErr
  | none
  | eventType
  | timeout
  | pendAbort
  | qFull
  deriving DecidableEq

/-- The state of the kernel, with the storage of the queues. -/
structure Kernel where
  osEvent : Nat → OsEvent
  osQ : Nat → OsQ
  storage : Nat → Nat → Ptr
  osEventFreeList : List Nat
  osQFreeList : List Nat
  osTcb : Prio → OsTcb
  osTime : UInt32

/--
The kernel after `OSInit`: 30 free event control blocks, 10 free queues, all tasks ready, and nothing
but zeros at address `0`.
-/
def Kernel.osInit : Kernel where
  osEvent := fun _ => ⟨.unused, 0, fun _ => false⟩
  osQ := fun _ => ⟨0, Ring.empty 0⟩
  storage := fun _ _ => 0
  osEventFreeList := (List.range 30).map (· + 1)
  osQFreeList := List.range 10
  osTcb := fun _ => ⟨false, .ok, 0, 0, true⟩
  osTime := 0

/-! ## Wait lists -/

/-- The task of highest priority in a wait list; `none` is `OSEventGrp == 0`. -/
def hpt (tbl : Prio → Bool) : Option Prio := (List.finRange 64).find? tbl

theorem hpt_eq_none {tbl : Prio → Bool} : hpt tbl = none ↔ ∀ t, tbl t = false := by
  simp [hpt]

theorem hpt_some {tbl : Prio → Bool} {t : Prio} (h : hpt tbl = some t) : tbl t = true :=
  List.find?_some h

/-- The queue of an event. -/
def Kernel.queue (k : Kernel) (pevent : Nat) : OsQ := k.osQ (k.osEvent pevent).osEventPtr

/-- `OSEventType` of an event. -/
def Kernel.type (k : Kernel) (pevent : Nat) : EventType := (k.osEvent pevent).osEventType

/-- The wait list of an event. -/
def Kernel.tbl (k : Kernel) (pevent : Nat) : Prio → Bool := (k.osEvent pevent).osEventTbl

/-- Set or clear the bit of a task in the wait list of an event. -/
def Kernel.setTbl (k : Kernel) (pevent : Nat) (prio : Prio) (b : Bool) : Kernel :=
  { k with
    osEvent := Function.update k.osEvent pevent
      { k.osEvent pevent with osEventTbl := Function.update (k.tbl pevent) prio b } }

/-- Change the control block of a task. -/
def Kernel.setTcb (k : Kernel) (prio : Prio) (tcb : OsTcb) : Kernel :=
  { k with osTcb := Function.update k.osTcb prio tcb }

section Fields

variable {k : Kernel} {pevent : Nat} {prio : Prio}

@[simp] theorem tbl_setTbl_self (b : Bool) :
    (k.setTbl pevent prio b).tbl pevent = Function.update (k.tbl pevent) prio b := by
  simp [Kernel.setTbl, Kernel.tbl]

@[simp] theorem type_setTbl (b : Bool) : (k.setTbl pevent prio b).type = k.type := by
  funext e
  by_cases h : e = pevent
  · subst h; simp [Kernel.setTbl, Kernel.type]
  · simp [Kernel.setTbl, Kernel.type, h]

@[simp] theorem queue_setTbl (b : Bool) : (k.setTbl pevent prio b).queue = k.queue := by
  funext e
  by_cases h : e = pevent
  · subst h; simp [Kernel.setTbl, Kernel.queue]
  · simp [Kernel.setTbl, Kernel.queue, h]

@[simp] theorem storage_setTbl (b : Bool) : (k.setTbl pevent prio b).storage = k.storage := rfl

@[simp] theorem osTcb_setTbl (b : Bool) : (k.setTbl pevent prio b).osTcb = k.osTcb := rfl

@[simp] theorem osEventFreeList_setTbl (b : Bool) :
    (k.setTbl pevent prio b).osEventFreeList = k.osEventFreeList := rfl

@[simp] theorem tbl_setTcb (tcb : OsTcb) : (k.setTcb prio tcb).tbl = k.tbl := rfl

@[simp] theorem type_setTcb (tcb : OsTcb) : (k.setTcb prio tcb).type = k.type := rfl

@[simp] theorem queue_setTcb (tcb : OsTcb) : (k.setTcb prio tcb).queue = k.queue := rfl

@[simp] theorem storage_setTcb (tcb : OsTcb) : (k.setTcb prio tcb).storage = k.storage := rfl

@[simp] theorem osTcb_setTcb_self (tcb : OsTcb) : (k.setTcb prio tcb).osTcb prio = tcb := by
  simp [Kernel.setTcb]

@[simp] theorem osEventFreeList_setTcb (tcb : OsTcb) :
    (k.setTcb prio tcb).osEventFreeList = k.osEventFreeList := rfl

/-- Change the control block of the buffer of an event. -/
def Kernel.setRing (k : Kernel) (pevent : Nat) (ring : Ring) : Kernel :=
  { k with
    osQ := Function.update k.osQ (k.osEvent pevent).osEventPtr { k.queue pevent with ring := ring } }

@[simp] theorem queue_setRing_self (ring : Ring) :
    (k.setRing pevent ring).queue pevent = { k.queue pevent with ring := ring } := by
  simp [Kernel.setRing, Kernel.queue]

@[simp] theorem tbl_setRing (ring : Ring) : (k.setRing pevent ring).tbl = k.tbl := rfl

@[simp] theorem type_setRing (ring : Ring) : (k.setRing pevent ring).type = k.type := rfl

@[simp] theorem storage_setRing (ring : Ring) : (k.setRing pevent ring).storage = k.storage := rfl

@[simp] theorem osTcb_setRing (ring : Ring) : (k.setRing pevent ring).osTcb = k.osTcb := rfl

@[simp] theorem osEventFreeList_setRing (ring : Ring) :
    (k.setRing pevent ring).osEventFreeList = k.osEventFreeList := rfl

/-- Change the storage of an owner. -/
def Kernel.setStorage (k : Kernel) (owner : Nat) (cells : Nat → Ptr) : Kernel :=
  { k with storage := Function.update k.storage owner cells }

@[simp] theorem storage_setStorage_self (owner : Nat) (cells : Nat → Ptr) :
    (k.setStorage owner cells).storage owner = cells := by
  simp [Kernel.setStorage]

@[simp] theorem queue_setStorage (owner : Nat) (cells : Nat → Ptr) :
    (k.setStorage owner cells).queue = k.queue := rfl

@[simp] theorem tbl_setStorage (owner : Nat) (cells : Nat → Ptr) :
    (k.setStorage owner cells).tbl = k.tbl := rfl

@[simp] theorem type_setStorage (owner : Nat) (cells : Nat → Ptr) :
    (k.setStorage owner cells).type = k.type := rfl

@[simp] theorem osTcb_setStorage (owner : Nat) (cells : Nat → Ptr) :
    (k.setStorage owner cells).osTcb = k.osTcb := rfl

end Fields

/-- `OS_EventTaskRdy`: the first task of the wait list gets the message and is ready. -/
def Kernel.osEventTaskRdy (k : Kernel) (pevent : Nat) (pmsg : Ptr) (pendStat : PendStat) : Kernel :=
  match hpt (k.tbl pevent) with
  | none => k
  | some prio =>
    (k.setTcb prio
      { osTcbStat := false
        osTcbStatPend := pendStat
        osTcbDly := 0
        osTcbMsg := pmsg
        ready := true }).setTbl pevent prio false

/-- `while (pevent->OSEventGrp != 0u)`; there are 64 bits in a wait list. -/
def Kernel.osEventTaskRdyAll (pevent : Nat) (pmsg : Ptr) (pendStat : PendStat) :
    (rounds : Nat) → Kernel → Kernel
  | 0, k => k
  | rounds + 1, k =>
    match hpt (k.tbl pevent) with
    | none => k
    | some _ => osEventTaskRdyAll pevent pmsg pendStat rounds (k.osEventTaskRdy pevent pmsg pendStat)

/-! ## The functions -/

/-- `OSQCreate`. Without a free `OS_Q` the event goes back to the list. -/
def osqCreate (start size : Nat) (k : Kernel) : Kernel × Nat :=
  match k.osEventFreeList, k.osQFreeList with
  | pevent :: events, pq :: queues =>
    ({ k with
        osEventFreeList := events
        osQFreeList := queues
        osQ := Function.update k.osQ pq ⟨start, Ring.empty size⟩
        osEvent := Function.update k.osEvent pevent ⟨.q, pq, fun _ => false⟩ }, pevent)
  | _, _ => (k, 0)

/-- `OSQDel` with `OS_DEL_ALWAYS` -/
def osqDel (pevent : Nat) (k : Kernel) : Kernel × OsErr :=
  if k.type pevent ≠ .q then (k, .eventType)
  else
    let k := Kernel.osEventTaskRdyAll pevent 0 .abort 64 k
    ({ k with
        osQFreeList := (k.osEvent pevent).osEventPtr :: k.osQFreeList
        osEvent := Function.update k.osEvent pevent { k.osEvent pevent with osEventType := .unused }
        osEventFreeList := pevent :: k.osEventFreeList }, .none)

/-- `OSQPost` -/
def osqPost (pevent : Nat) (pmsg : Ptr) (k : Kernel) : Kernel × OsErr :=
  if k.type pevent ≠ .q then (k, .eventType)
  else if hpt (k.tbl pevent) ≠ none then (k.osEventTaskRdy pevent pmsg .ok, .none)
  else
    let q := k.queue pevent
    if q.ring.entries ≥ q.ring.size then (k, .qFull)
    else
      let cells := Function.update (k.storage q.osqStart) q.ring.qIn pmsg
      ((k.setRing pevent q.ring.push).setStorage q.osqStart cells, .none)

/--
`OSQPend` by the task `prio` up to `OS_Sched`: the message and the error, or `none` if the task is
suspended.
-/
def osqPendEnter (prio : Prio) (pevent : Nat) (timeout : Nat) (k : Kernel) :
    Kernel × Option (Ptr × OsErr) :=
  if k.type pevent ≠ .q then (k, some (0, .eventType))
  else
    let q := k.queue pevent
    if q.ring.entries > 0 then
      (k.setRing pevent q.ring.pop, some (k.storage q.osqStart q.ring.qOut, .none))
    else
      ((k.setTcb prio
        { k.osTcb prio with
          osTcbStat := true, osTcbStatPend := .ok, osTcbDly := timeout, ready := false }).setTbl
          pevent prio true, none)

/-- `OSQPend` from `OS_Sched` on: the message and the error. -/
def osqPendLeave (prio : Prio) (pevent : Nat) (k : Kernel) : Kernel × Ptr × OsErr :=
  let tcb := k.osTcb prio
  let k' := k.setTcb prio { tcb with osTcbStat := false, osTcbStatPend := .ok, osTcbMsg := 0 }
  match tcb.osTcbStatPend with
  | .ok => (k', tcb.osTcbMsg, .none)
  | .abort => (k', 0, .pendAbort)
  | .timedOut => (k'.setTbl pevent prio false, 0, .timeout)

/-- What `OSQQuery` tells of a queue. `sys_mbox_valid` reads no more than this. -/
structure OsQData where
  osNMsgs : Nat
  osQSize : Nat

/-- `OSQQuery`. The data is left as it is if the event is not a queue. -/
def osqQuery (pevent : Nat) (data : OsQData) (k : Kernel) : OsErr × OsQData :=
  if k.type pevent ≠ .q then (.eventType, data)
  else (.none, ⟨(k.queue pevent).ring.entries, (k.queue pevent).ring.size⟩)

/-- What `OSTimeTick` does with a task. -/
def OsTcb.tick (tcb : OsTcb) : OsTcb :=
  if tcb.osTcbDly = 0 then tcb
  else if tcb.osTcbDly = 1 then
    -- the task stays in the wait list until it runs
    { tcb with
      osTcbDly := 0
      osTcbStat := false
      osTcbStatPend := if tcb.osTcbStat then .timedOut else .ok
      ready := true }
  else { tcb with osTcbDly := tcb.osTcbDly - 1 }

/-- `OSTimeTick` -/
def osTimeTick (k : Kernel) : Kernel :=
  { k with osTime := k.osTime + 1, osTcb := fun prio => (k.osTcb prio).tick }

end PlcFirmware.Ucos
