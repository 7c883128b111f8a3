import PlcFirmware.Infra.Machine
import PlcFirmware.Ucos.Pools

/-!
# Tasks and interrupts on the kernel

The machine whose steps are calls of the kernel up to the end of their critical sections, in every order
which the processor allows. A task calls the kernel when it runs its own code, and goes on with what is
left of its call when it runs again. An interrupt can come between any two steps, and others within it.
`PendSV` comes when no interrupt is active; until then the task does not get on.

A call is one step here from its first test on. In `Preempt` a task can be preempted in between.

A task which deletes itself while it holds the scheduler locked runs on without a control block, as the
code lets it.
-/

namespace PlcFirmware.Ucos

open Infra

/-- A call of the kernel. -/
inductive Call
  | semAccept (pevent : Nat)
  | semCreate (cnt : UInt16)
  | semDel (pevent : Nat) (opt : DelOpt)
  | semPend (pevent timeout : Nat)
  | semPendAbort (pevent : Nat) (broadcast : Bool)
  | semPost (pevent : Nat)
  | semSet (pevent : Nat) (cnt : UInt16)
  | qAccept (pevent : Nat)
  | qCreate (start size : Nat)
  | qDel (pevent : Nat) (opt : DelOpt)
  | qFlush (pevent : Nat)
  | qPend (pevent timeout : Nat)
  | qPendAbort (pevent : Nat) (broadcast : Bool)
  | qPostOpt (pevent : Nat) (pmsg : Ptr) (opt : PostOpt)
  | timeDly (ticks : Nat)
  | timeDlyResume (prio : Prio)
  | taskSuspend (prio : Option Prio)
  | taskResume (prio : Prio)
  | taskCreate (prio : Prio)
  | taskDel (prio : Option Prio)
  | schedLock
  | schedUnlock
  deriving DecidableEq

/-- What a call does before it leaves its critical section. -/
def Call.exec : Call → Os → Ret
  | semAccept pevent => osSemAccept pevent
  | semCreate cnt => osSemCreate cnt
  | semDel pevent opt => osSemDel pevent opt
  | semPend pevent timeout => osSemPend pevent timeout
  | semPendAbort pevent broadcast => osSemPendAbort pevent broadcast
  | semPost pevent => osSemPost pevent
  | semSet pevent cnt => osSemSet pevent cnt
  | qAccept pevent => osQAccept pevent
  | qCreate start size => osQCreate start size
  | qDel pevent opt => osQDel pevent opt
  | qFlush pevent => osQFlush pevent
  | qPend pevent timeout => osQPend pevent timeout
  | qPendAbort pevent broadcast => osQPendAbort pevent broadcast
  | qPostOpt pevent pmsg opt => osQPostOpt pevent pmsg opt
  | timeDly ticks => osTimeDly ticks
  | timeDlyResume prio => osTimeDlyResume prio
  | taskSuspend prio => osTaskSuspend prio
  | taskResume prio => osTaskResume prio
  | taskCreate prio => osTaskCreate prio
  | taskDel prio => osTaskDel prio
  | schedLock => osSchedLock
  | schedUnlock => osSchedUnlock

/-- The kernel, and where each task is in a call. -/
structure Sys where
  os : Os
  cont : Prio → Cont

/-- A step of the processor. -/
inductive Input
  /-- A call, by an interrupt if one is active, or else by the task which runs. -/
  | call (c : Call)
  /-- The task which runs goes on with its call. -/
  | go
  | intEnter
  /-- `OSTimeTick`, by an interrupt. -/
  | tick
  | intExit
  | pendSv
  deriving DecidableEq

/-- What a call has returned. -/
inductive Out
  /-- From its critical section; `none` is an interrupt. -/
  | ret (caller : Option Prio) (c : Call) (r : Res)
  /-- A pend which has waited. -/
  | left (caller : Prio) (type : ObjType) (pevent : Nat) (r : Res)
  deriving DecidableEq

/-- A new task starts at the beginning of its code. -/
def Sys.started (cont : Prio → Cont) (c : Call) (r : Ret) : Prio → Cont :=
  match c with
  | .taskCreate prio => if r.res.map Res.err = some .none then Function.update cont prio .run else cont
  | _ => cont

/-- No interrupt is active, and no switch is pending. -/
def Sys.atTask (y : Sys) : Bool := y.os.osIntNesting = 0 ∧ y.os.pendSv = false

/-- A call by the task which runs. -/
def Sys.callTask (y : Sys) (c : Call) : Sys × List Out :=
  let r := c.exec y.os
  (⟨r.os, Function.update (Sys.started y.cont c r) y.os.osPrioCur r.cont⟩,
    (r.res.map (Out.ret (some y.os.osPrioCur) c)).toList)

/-- A call by an interrupt; there `OS_Sched` does nothing. -/
def Sys.callIsr (y : Sys) (c : Call) : Sys × List Out :=
  let r := c.exec y.os
  ({ y with os := r.os }, (r.res.map (Out.ret none c)).toList)

/-- The rest of a pend. -/
def pendLeave : ObjType → Nat → Os → Ret
  | .q, pevent => osQPendLeave pevent
  | _, pevent => osSemPendLeave pevent

/-- The task which runs goes on with its call. -/
def Sys.go (y : Sys) : Sys × List Out :=
  let cur := y.os.osPrioCur
  match y.cont cur with
  | .run => (y, [])
  | .sched => (⟨y.os.osSched, Function.update y.cont cur .run⟩, [])
  | .pend type pevent => (⟨y.os.osSched, Function.update y.cont cur (.leave type pevent)⟩, [])
  | .leave type pevent =>
    let r := pendLeave type pevent y.os
    (⟨r.os, Function.update y.cont cur r.cont⟩,
      (r.res.map (Out.left cur type pevent)).toList)

/-- A step which is not possible in the state does nothing. -/
def Sys.step (y : Sys) : Input → Sys × List Out
  | .call c =>
    if y.os.osIntNesting > 0 then y.callIsr c
    else if y.atTask ∧ y.cont y.os.osPrioCur = .run then y.callTask c
    else (y, [])
  | .go => if y.atTask then y.go else (y, [])
  | .intEnter => ({ y with os := y.os.osIntEnter }, [])
  | .tick => if y.os.osIntNesting > 0 then ({ y with os := y.os.osTimeTick }, []) else (y, [])
  | .intExit => if y.os.osIntNesting > 0 then ({ y with os := y.os.osIntExit }, []) else (y, [])
  | .pendSv =>
    if y.os.osIntNesting = 0 ∧ y.os.pendSv then ({ y with os := y.os.pendSvHandler }, []) else (y, [])

/-- The kernel as a machine. -/
def ucos : Machine Sys Input Out where
  step := Sys.step

/-! ## What is asked of the system -/

/-- Nobody suspends the idle task, and no post leaves out `OS_Sched`. -/
def Call.Sane (c : Call) (s : Os) : Prop :=
  match c with
  | .taskSuspend prio => prio.getD s.osPrioCur ≠ idlePrio
  | .qPostOpt _ _ opt => opt.noSched = false
  | _ => True

instance (c : Call) (s : Os) : Decidable (c.Sane s) := by
  unfold Call.Sane
  cases c <;> exact inferInstance

/-- What is asked of a step. -/
def Sys.Allows (y : Sys) : Input → Prop
  | .call c => (y.os.osIntNesting = 0 → y.os.osPrioCur ≠ idlePrio) ∧ c.Sane y.os
  | _ => True

instance (y : Sys) (i : Input) : Decidable (y.Allows i) :=
  match i with
  | .call _ => inferInstanceAs (Decidable (_ ∧ _))
  | .go | .intEnter | .tick | .intExit | .pendSv => isTrue trivial

/-! ## The start -/

/-- The kernel before the first task, with all control blocks free. -/
def Os.blank : Os where
  osTcb := fun _ => Tcb.init
  osTcbPrioTbl := fun _ => false
  osTcbList := []
  osTcbFree := osMaxTcbs
  rdy := BitTable.empty
  osEvent := fun _ => ⟨.unused, 0, 0, BitTable.empty⟩
  osEventFreeList := (List.range osMaxEvents).map (· + 1)
  osQ := fun _ => ⟨0, Ring.empty 0⟩
  osQFreeList := List.range osMaxQs
  storage := fun _ _ => 0
  osIntNesting := 0
  osLockNesting := 0
  osPrioCur := ⟨0, by decide⟩
  osPrioHighRdy := ⟨0, by decide⟩
  pendSv := false
  osTime := 0

/-- `OSInit` creates the idle task, and `main` the tasks of the list, as far as there is room. -/
def Os.osInit (prios : List Prio) : Os :=
  prios.foldl (fun s prio => (osTaskCreate prio s).os) (Os.blank.osTcbInit idlePrio)

/-- `OSStart`; `OSStartHighRdy` ends with `PendSV`. -/
def Os.osStart (s : Os) : Os :=
  let s := s.osSchedNew
  { s with osPrioCur := s.osPrioHighRdy, pendSv := true }

/-- The system when multitasking begins. -/
def Sys.start (prios : List Prio) : Sys := ⟨(Os.osInit prios).osStart, fun _ => .run⟩

end PlcFirmware.Ucos
