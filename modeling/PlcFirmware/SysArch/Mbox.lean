import PlcFirmware.Infra.CInt
import PlcFirmware.Infra.Machine
import PlcFirmware.SysArch.Elapsed

/-!
# Mailboxes

The mailbox functions of `sys_arch.c`, and the system they make: any number of mailboxes over one
kernel, producers in the loop of `sys_mbox_post` and tasks in `sys_arch_mbox_fetch`. A mailbox is
known by a number. It is the pointer `pQ` and the storage for its queue.

A step of the system is a call, one round of the loop of a producer, the rest of a fetch when its
task runs again, or a clock tick; steps come in any order.
-/

namespace PlcFirmware.SysArch

open Infra Ucos

/-- `MAX_QUEUE_ENTRIES` -/
def maxQueueEntries : Int := 20

/-- `ERR_OK` and `ERR_MEM` -/
inductive ErrT
  | ok
  | mem
  deriving DecidableEq

/-- A task which is suspended in `sys_arch_mbox_fetch`, with `OSTime` at its entry. -/
structure Fetch where
  mbox : Nat
  pevent : Nat
  timeout : UInt32

/-- The system. A producer in `sys_mbox_post` has a mailbox and a message. -/
structure Sys where
  kernel : Kernel
  pQ : Nat → Nat
  posting : Nat → Option (Nat × Ptr)
  fetching : Prio → Option Fetch

/-- The mailboxes are cleared, and no producer or task is in a function. -/
def Sys.start : Sys := ⟨Kernel.osInit, fun _ => 0, fun _ => none, fun _ => none⟩

/-! ## The functions -/

/-- `sys_mbox_new` -/
def sysMboxNew (mbox : Nat) (size : Int) (s : Sys) : Sys × ErrT :=
  let size := if size > maxQueueEntries then maxQueueEntries else size
  let (k, pQ) := osqCreate mbox (u16 size).toNat s.kernel
  ({ s with kernel := k, pQ := Function.update s.pQ mbox pQ }, if pQ ≠ 0 then .ok else .mem)

/-- `sys_mbox_free`. `mbox=NULL` sets the parameter only. -/
def sysMboxFree (mbox : Nat) (s : Sys) : Sys :=
  { s with kernel := (osqDel (s.pQ mbox) s.kernel).1 }

/-- `sys_mbox_set_invalid`. `mbox=NULL` sets the parameter only. -/
def sysMboxSetInvalid (_mbox : Nat) (s : Sys) : Sys := s

/-- `sys_mbox_trypost`, and a round of the loop of `sys_mbox_post`. -/
def sysMboxTrypost (np : NullPointer) (mbox : Nat) (msg : Ptr) (s : Sys) : Sys × ErrT :=
  let (k, err) := osqPost (s.pQ mbox) (np.wrap msg) s.kernel
  ({ s with kernel := k }, if err ≠ .none then .mem else .ok)

/-- `sys_mbox_valid`. `ucErr` is `OS_ERR_EVENT_TYPE`, which is 1, for what is not a queue. -/
def sysMboxValid (mbox : Nat) (s : Sys) : Nat :=
  let (ucErr, data) := osqQuery (s.pQ mbox) ⟨0, 0⟩ s.kernel
  if (ucErr = .none ∨ ucErr = .eventType) ∧ data.osNMsgs < data.osQSize then 1 else 0

/-! ## The system -/

inductive Input
  | new (mbox : Nat) (size : Int)
  | free (mbox : Nat)
  | setInvalid (mbox : Nat)
  | post (producer mbox : Nat) (msg : Ptr)
  | retry (producer : Nat)
  | trypost (mbox : Nat) (msg : Ptr)
  | fetch (task : Prio) (mbox : Nat) (timeout : UInt32)
  | resume (task : Prio)
  | tick

/-- What a step shows: results of calls, and the messages a mailbox has taken. -/
inductive Event
  | created (mbox pQ : Nat)
  | freed (mbox : Nat)
  | invalidated (mbox : Nat)
  | accepted (mbox : Nat) (msg : Ptr)
  | tried (mbox : Nat) (err : ErrT)
  | fetched (task : Prio) (mbox : Nat) (msg : Ptr) (ret : UInt32)

/-- The event of a post which has been taken. -/
def acceptedIf (mbox : Nat) (msg : Ptr) : ErrT → List Event
  | .ok => [.accepted mbox msg]
  | .mem => []

/-- A task calls `sys_arch_mbox_fetch`. -/
def Sys.fetch (np : NullPointer) (task : Prio) (mbox : Nat) (timeout : UInt32) (s : Sys) :
    Sys × List Event :=
  match osqPendEnter task (s.pQ mbox) (ucosTimeout timeout).toNat s.kernel with
  | (k, some (temp, err)) =>
    let (msg, ret) := mboxFetchReturn np s.kernel.osTime ⟨temp, err, k.osTime⟩
    ({ s with kernel := k }, [.fetched task mbox msg ret])
  | (k, none) =>
    ({ s with
        kernel := k
        fetching := Function.update s.fetching task (some ⟨mbox, s.pQ mbox, s.kernel.osTime⟩) }, [])

/-- A task in `sys_arch_mbox_fetch` runs again and comes to its end. -/
def Sys.resume (np : NullPointer) (task : Prio) (f : Fetch) (s : Sys) : Sys × List Event :=
  let (k, temp, err) := osqPendLeave task f.pevent s.kernel
  let (msg, ret) := mboxFetchReturn np f.timeout ⟨temp, err, k.osTime⟩
  ({ s with kernel := k, fetching := Function.update s.fetching task none },
    [.fetched task f.mbox msg ret])

/-- A step. What a producer or a task cannot do where it is leaves the system as it is. -/
def Sys.step (np : NullPointer) (s : Sys) : Input → Sys × List Event
  | .new mbox size =>
    let s := (sysMboxNew mbox size s).1
    (s, [.created mbox (s.pQ mbox)])
  | .free mbox => (sysMboxFree mbox s, [.freed mbox])
  | .setInvalid mbox => (sysMboxSetInvalid mbox s, [.invalidated mbox])
  | .post producer mbox msg =>
    match s.posting producer with
    | some _ => (s, [])
    | none => ({ s with posting := Function.update s.posting producer (some (mbox, msg)) }, [])
  | .retry producer =>
    match s.posting producer with
    | none => (s, [])
    | some (mbox, msg) =>
      let (s, err) := sysMboxTrypost np mbox msg s
      (if err = .ok then { s with posting := Function.update s.posting producer none } else s,
        acceptedIf mbox msg err)
  | .trypost mbox msg =>
    let (s, err) := sysMboxTrypost np mbox msg s
    (s, acceptedIf mbox msg err ++ [.tried mbox err])
  | .fetch task mbox timeout =>
    match s.fetching task with
    | some _ => (s, [])
    | none => s.fetch np task mbox timeout
  | .resume task =>
    match s.fetching task with
    | some f => if (s.kernel.osTcb task).ready then s.resume np task f else (s, [])
    | none => (s, [])
  | .tick => ({ s with kernel := osTimeTick s.kernel }, [])

/-- Histories of the system. -/
def system (np : NullPointer) : Machine Sys Input Event := ⟨Sys.step np⟩

end PlcFirmware.SysArch
