import PlcFirmware.Ucos.System

/-!
# Preemption inside a call

In `System` a call is one step up to the end of its critical section. On the processor its task can be
preempted before: a call tests the type of its event, and enters the section then; `OSSemCreate` and
`OSQCreate` take a control block in a section, and `OSQCreate` the second one in another, before they fill
them. Here each of these is a step, and what is done between two of them is in no section.

A call by an interrupt stays one step. Interrupts neither create nor delete, so that those which come
within it change no type. `OSTaskCreate`, `OSTaskDel` and `OSTimeTick`, which leave the section on their way
as well, stay one step too.

* `cpu` — the machine
* `Cpu.performs` — the step of `System` which a step carries out
* `Cpu.Allows` — what is asked of a step: the type which has been tested is still the type
-/

namespace PlcFirmware.Ucos

open Infra

/-- The event whose type a call tests, and the type. `OSQFlush` does not test. -/
def Call.tests : Call → Option (Nat × ObjType)
  | semAccept pevent | semDel pevent _ | semPend pevent _ | semPendAbort pevent _ | semPost pevent
  | semSet pevent _ => some (pevent, .sem)
  | qAccept pevent | qDel pevent _ | qPend pevent _ | qPendAbort pevent _ | qPostOpt pevent _ _ =>
    some (pevent, .q)
  | _ => none

/-- The test of the type. -/
def Call.passes (c : Call) (s : Os) : Bool :=
  match c.tests with
  | some (pevent, type) => (s.osEvent pevent).osEventType = type
  | none => false

/-- Does the call create an object? -/
def Call.creates : Call → Bool
  | semCreate _ | qCreate _ _ => true
  | _ => false

/-- What a call does behind the test. -/
def Call.critical : Call → Os → Ret
  | semAccept pevent => osSemAcceptSection pevent
  | semDel pevent opt => osSemDelSection pevent opt
  | semPend pevent timeout => osSemPendSection pevent timeout
  | semPendAbort pevent broadcast => osSemPendAbortSection pevent broadcast
  | semPost pevent => osSemPostSection pevent
  | semSet pevent cnt => osSemSetSection pevent cnt
  | qAccept pevent => osQAcceptSection pevent
  | qDel pevent opt => osQDelSection pevent opt
  | qPend pevent timeout => osQPendSection pevent timeout
  | qPendAbort pevent broadcast => osQPendAbortSection pevent broadcast
  | qPostOpt pevent pmsg opt => osQPostOptSection pevent pmsg opt
  | c => c.exec

/-- Where a task is in a call which it has begun. -/
inductive Stage
  /-- Behind the test of the type, in front of the critical section. -/
  | tested (c : Call)
  /-- `OSSemCreate` with its event. -/
  | semCreate (cnt : UInt16) (pevent : Nat)
  /-- `OSQCreate` with its event. -/
  | qCreate (start size pevent : Nat)
  /-- `OSQCreate` with its event and its `OS_Q`. -/
  | qFill (start size pevent pq : Nat)
  deriving DecidableEq

/-- The event which a creation has in hand. -/
def Stage.event : Stage → Option Nat
  | tested _ => none
  | semCreate _ pevent | qCreate _ _ pevent | qFill _ _ pevent _ => some pevent

/-- The `OS_Q` which a creation has in hand. -/
def Stage.queue : Stage → Option Nat
  | qFill _ _ _ pq => some pq
  | _ => none

/-- The kernel, and where each task is in a call: before its last critical section or behind. -/
structure Cpu where
  sys : Sys
  stage : Prio → Option Stage

/-- What the call of a task does first, if more than one step is needed. -/
def Call.begins (s : Os) : Call → Option (Stage × Os)
  | semCreate cnt =>
    match s.osEventFreeList with
    | [] => none
    | pevent :: rest => some (.semCreate cnt pevent, { s with osEventFreeList := rest })
  | qCreate start size =>
    match s.osEventFreeList with
    | [] => none
    | pevent :: rest => some (.qCreate start size pevent, { s with osEventFreeList := rest })
  | c => if c.passes s then some (.tested c, s) else none

/-- A new task is in no call. -/
def Cpu.started (stage : Prio → Option Stage) (c : Call) (r : Ret) : Prio → Option Stage :=
  match c with
  | .taskCreate prio =>
    if r.res.map Res.err = some .none then Function.update stage prio none else stage
  | _ => stage

/-- A call of the task which runs leaves its last critical section. -/
def Cpu.finish (y : Cpu) (c : Call) (r : Ret) : Cpu × List Out :=
  let cur := y.sys.os.osPrioCur
  (⟨⟨r.os, Function.update (Sys.started y.sys.cont c r) cur r.cont⟩,
    Function.update (Cpu.started y.stage c r) cur none⟩, (r.res.map (Out.ret (some cur) c)).toList)

/-- The task which runs calls the kernel. -/
def Cpu.callTask (y : Cpu) (c : Call) : Cpu × List Out :=
  match c.begins y.sys.os with
  | some (stage, os) =>
    (⟨{ y.sys with os := os }, Function.update y.stage y.sys.os.osPrioCur (some stage)⟩, [])
  | none => y.finish c (c.exec y.sys.os)

/-- The task which runs goes on with its call. -/
def Cpu.go (y : Cpu) : Cpu × List Out :=
  let s := y.sys.os
  match y.stage s.osPrioCur with
  | none => ({ y with sys := y.sys.go.1 }, y.sys.go.2)
  | some (.tested c) => y.finish c (c.critical s)
  | some (.semCreate cnt pevent) => y.finish (.semCreate cnt) (osSemCreateFill cnt pevent s)
  | some (.qCreate start size pevent) =>
    match s.osQFreeList with
    | [] =>
      y.finish (.qCreate start size)
        ({ s with osEventFreeList := pevent :: s.osEventFreeList }.done .none 0)
    | pq :: queues =>
      (⟨{ y.sys with os := { s with osQFreeList := queues } },
        Function.update y.stage s.osPrioCur (some (.qFill start size pevent pq))⟩, [])
  | some (.qFill start size pevent pq) =>
    y.finish (.qCreate start size) (osQCreateFill start size pevent pq s)

/-- Everything but the calls of the tasks is as in `System`. -/
def Cpu.step (y : Cpu) (i : Input) : Cpu × List Out :=
  match i with
  | .call c =>
    if y.sys.os.osIntNesting > 0 then ({ y with sys := (y.sys.callIsr c).1 }, (y.sys.callIsr c).2)
    else if y.sys.atTask ∧ y.sys.cont y.sys.os.osPrioCur = .run ∧
        y.stage y.sys.os.osPrioCur = none then y.callTask c
    else (y, [])
  | .go => if y.sys.atTask then y.go else (y, [])
  | i => ({ y with sys := (y.sys.step i).1 }, (y.sys.step i).2)

/-- The kernel with preemption inside its calls. -/
def cpu : Machine Cpu Input Out where
  step := Cpu.step

/-- The system when multitasking begins. -/
def Cpu.start (prios : List Prio) : Cpu := ⟨.start prios, fun _ => none⟩

/-! ## What a step carries out -/

/-- What a step carries out when its task goes on: nothing where it takes a block or puts one back. -/
def Cpu.resumes (y : Cpu) : Option Input :=
  match y.stage y.sys.os.osPrioCur with
  | none => some .go
  | some (.tested c) => some (.call c)
  | some (.semCreate cnt _) => some (.call (.semCreate cnt))
  | some (.qCreate _ _ _) => none
  | some (.qFill start size _ _) => some (.call (.qCreate start size))

/--
The step of `System` which a step carries out. A test, a control block which has been taken and a creation
which finds none carry out nothing.
-/
def Cpu.performs (y : Cpu) (i : Input) : Option Input :=
  match i with
  | .call c =>
    if y.sys.os.osIntNesting > 0 then some (.call c)
    else if y.stage y.sys.os.osPrioCur = none ∧ c.creates = false ∧ c.begins y.sys.os = none then
      some (.call c)
    else none
  | .go => if y.sys.atTask then y.resumes else none
  | i => some i

/-- The task which runs has begun no call, or the event still has the type which it has tested. -/
def Cpu.Current (y : Cpu) : Prop :=
  match y.stage y.sys.os.osPrioCur with
  | some (.tested c) => c.passes y.sys.os = true
  | _ => True

/--
What is asked of a step. Of what it carries out this is what `System` asks; a critical section begins when
its event has the type which has been tested; and no task is created anew whose predecessor has been
deleted with a control block in hand.
-/
def Cpu.Allows (y : Cpu) (i : Input) : Prop :=
  (∀ j ∈ y.performs i, y.sys.Allows j) ∧
    match i with
    | .call (.taskCreate prio) => (y.stage prio).bind Stage.event = none
    | .go => y.Current
    | _ => True

instance (y : Cpu) : Decidable y.Current := by
  unfold Cpu.Current
  split <;> exact inferInstance

instance (y : Cpu) (i : Input) : Decidable (y.Allows i) :=
  match i with
  | .call (.taskCreate _) | .go => inferInstanceAs (Decidable (_ ∧ _))
  | .call (.semAccept _) | .call (.semCreate _) | .call (.semDel _ _) | .call (.semPend _ _)
  | .call (.semPendAbort _ _) | .call (.semPost _) | .call (.semSet _ _) | .call (.qAccept _)
  | .call (.qCreate _ _) | .call (.qDel _ _) | .call (.qFlush _) | .call (.qPend _ _)
  | .call (.qPendAbort _ _) | .call (.qPostOpt _ _ _) | .call (.timeDly _) | .call (.timeDlyResume _)
  | .call (.taskSuspend _) | .call (.taskResume _) | .call (.taskDel _) | .call .schedLock
  | .call .schedUnlock | .intEnter | .tick | .intExit | .pendSv => inferInstanceAs (Decidable (_ ∧ True))

end PlcFirmware.Ucos
