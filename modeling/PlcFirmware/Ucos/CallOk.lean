import PlcFirmware.Ucos.System

/-!
# What a call does to the kernel

Every call, by a task or by an interrupt, keeps the meaning of the lists and the control blocks in their
pools, and leaves the idle task ready. It changes neither the task which runs nor the nesting of the
interrupts, and where it does not go on to `OS_Sched` no task has become ready.

* `Good` — the state of the kernel between two critical sections
* `CallOk` — what a call does
* `Call.exec_ok` — every call does
-/

namespace PlcFirmware.Ucos

open Infra

/-- The lists, the pools and the idle task are as they should be, and no task is lost. -/
structure Good (s : Os) : Prop where
  lists : Lists s
  kept : ∀ p, Kept s p
  pools : Pools s
  idle_ready : s.rdy.has idlePrio = true
  idle_ptr : (s.osTcb idlePrio).osTcbEventPtr = 0

/-- What no call changes; a task is taken out of the wait list of its event, but not put into one. -/
structure Effect (s s' : Os) : Prop where
  nesting : s'.osIntNesting = s.osIntNesting
  lock : s'.osLockNesting = s.osLockNesting
  cur : s'.osPrioCur = s.osPrioCur
  high : s'.osPrioHighRdy = s.osPrioHighRdy
  pendSv : s'.pendSv = s.pendSv
  ptr : ∀ p, (s'.osTcb p).osTcbEventPtr = 0 ∨
    (s'.osTcb p).osTcbEventPtr = (s.osTcb p).osTcbEventPtr

variable {s s' s'' : Os} {p q : Prio} {pevent : Nat}

namespace Effect

theorem refl (s : Os) : Effect s s := ⟨rfl, rfl, rfl, rfl, rfl, fun _ => Or.inr rfl⟩

theorem trans (h : Effect s s') (h' : Effect s' s'') : Effect s s'' where
  nesting := h'.nesting.trans h.nesting
  lock := h'.lock.trans h.lock
  cur := h'.cur.trans h.cur
  high := h'.high.trans h.high
  pendSv := h'.pendSv.trans h.pendSv
  ptr p := by
    rcases h'.ptr p with h0 | heq
    · exact Or.inl h0
    · rw [heq]
      exact h.ptr p

/-- Tasks have moved between the lists, none into a wait list. -/
theorem of_moves (h : Moves s s') (hptr : ∀ p, (s'.osTcb p).osTcbEventPtr = 0 ∨
    (s'.osTcb p).osTcbEventPtr = (s.osTcb p).osTcbEventPtr) : Effect s s' :=
  ⟨h.nesting, h.lock, h.cur, h.high, h.pendSv, hptr⟩

/-- The event of the only task touched is the same, or none. -/
theorem ptr_of_same (hsame : ∀ q, q ≠ p → SameAt s s' q)
    (hp : (s'.osTcb p).osTcbEventPtr = 0 ∨
      (s'.osTcb p).osTcbEventPtr = (s.osTcb p).osTcbEventPtr) (q : Prio) :
    (s'.osTcb q).osTcbEventPtr = 0 ∨ (s'.osTcb q).osTcbEventPtr = (s.osTcb q).osTcbEventPtr := by
  by_cases hq : q = p
  · rw [hq]
    exact hp
  · exact Or.inr (by rw [(hsame q hq).tcb])

theorem osEventTaskRdy (s : Os) (pevent : Nat) (pmsg : Ptr) (msk : BitVec 8) (stat : PendStat) :
    Effect s (s.osEventTaskRdy pevent pmsg msk stat) :=
  of_moves (Moves.osEventTaskRdy s pevent pmsg msk stat)
    (ptr_of_same (fun _ hq => SameAt.osEventTaskRdy s pevent pmsg msk stat hq)
      (Or.inl (by rw [osTcb_osEventTaskRdy])))

theorem osEventTaskRdyAll (pevent : Nat) (pmsg : Ptr) (msk : BitVec 8) (stat : PendStat)
    (rounds : Nat) (s : Os) : Effect s (Os.osEventTaskRdyAll pevent pmsg msk stat rounds s).1 := by
  induction rounds generalizing s with
  | zero => exact refl s
  | succ rounds ih =>
    unfold Os.osEventTaskRdyAll
    split
    · exact refl s
    · exact (osEventTaskRdy s pevent pmsg msk stat).trans (ih _)

theorem wake (s : Os) (p : Prio) : Effect s (s.wake p) :=
  of_moves (Moves.wake s p)
    (ptr_of_same (fun _ hq => SameAt.wake s hq) (Or.inr (by rw [osTcb_wake]; rfl)))

theorem setTcb (s : Os) {tcb : Tcb} (hptr : tcb.osTcbEventPtr = 0 ∨
    tcb.osTcbEventPtr = (s.osTcb p).osTcbEventPtr) : Effect s (s.setTcb p tcb) :=
  of_moves (Moves.setTcb s p tcb)
    (ptr_of_same (fun _ hq => SameAt.setTcb s tcb hq) (by rw [osTcb_setTcb]; exact hptr))

theorem makeReady (s : Os) (p : Prio) : Effect s (s.makeReady p) :=
  ⟨rfl, rfl, rfl, rfl, rfl, fun _ => Or.inr rfl⟩

theorem makeUnready (s : Os) (p : Prio) : Effect s (s.makeUnready p) :=
  ⟨rfl, rfl, rfl, rfl, rfl, fun _ => Or.inr rfl⟩

theorem osEventTaskRemove (s : Os) (p : Prio) (pevent : Nat) :
    Effect s (s.osEventTaskRemove p pevent) :=
  of_moves (Moves.osEventTaskRemove s p pevent)
    (ptr_of_same (fun _ hq => SameAt.osEventTaskRemove s pevent hq)
      (Or.inl (by simp [Os.osEventTaskRemove])))

theorem setCnt (s : Os) (pevent cnt : Nat) : Effect s (s.setCnt pevent cnt) :=
  ⟨rfl, rfl, rfl, rfl, rfl, fun _ => Or.inr rfl⟩

theorem setRing (s : Os) (pevent : Nat) (ring : Ring) : Effect s (s.setRing pevent ring) :=
  ⟨rfl, rfl, rfl, rfl, rfl, fun _ => Or.inr rfl⟩

theorem setCell (s : Os) (pevent i : Nat) (pmsg : Ptr) : Effect s (s.setCell pevent i pmsg) :=
  ⟨rfl, rfl, rfl, rfl, rfl, fun _ => Or.inr rfl⟩

theorem freeEvent (s : Os) (pevent : Nat) : Effect s (s.freeEvent pevent) :=
  ⟨rfl, rfl, rfl, rfl, rfl, fun _ => Or.inr rfl⟩

theorem freeQ (s : Os) (pevent : Nat) : Effect s ((s.freeQ pevent).freeEvent pevent) :=
  ⟨rfl, rfl, rfl, rfl, rfl, fun _ => Or.inr rfl⟩

end Effect

/-! ## Functions which keep the kernel good -/

/-- Counts and buffers do not matter to the lists. -/
theorem Lists.congr (h : Lists s) (hrdy : s'.rdy = s.rdy) (htcb : s'.osTcb = s.osTcb)
    (htbl : s'.osTcbPrioTbl = s.osTcbPrioTbl)
    (hwait : ∀ e, (s'.osEvent e).wait = (s.osEvent e).wait)
    (htype : ∀ e, (s'.osEvent e).osEventType = (s.osEvent e).osEventType) : Lists s' where
  rdy := by rw [hrdy]; exact h.rdy
  wait e := by rw [hwait]; exact h.wait e
  task p := (h.task p).congr
    ⟨by rw [htcb], by rw [htbl], by rw [hrdy], fun e => by rw [hwait], htype⟩

/-- An event on which nobody waits can become another object. -/
theorem Lists.retype (h : Lists s) (pevent : Nat) (hrdy : s'.rdy = s.rdy) (htcb : s'.osTcb = s.osTcb)
    (htbl : s'.osTcbPrioTbl = s.osTcbPrioTbl)
    (hother : ∀ e, e ≠ pevent → s'.osEvent e = s.osEvent e)
    (hok : (s'.osEvent pevent).wait.Ok)
    (hempty : ∀ p, (s'.osEvent pevent).wait.has p = false) : Lists s' where
  rdy := by rw [hrdy]; exact h.rdy
  wait e := by
    by_cases he : e = pevent
    · rw [he]
      exact hok
    · rw [hother e he]
      exact h.wait e
  task p := by
    refine ⟨?_, ?_, fun e he => ?_⟩
    · rw [hrdy, htcb, htbl]
      exact (h.task p).ready_iff
    · rw [htcb]
      exact (h.task p).stat_le
    · have hep : e ≠ pevent := by
        rintro rfl
        rw [hempty p] at he
        cases he
      rw [hother e hep] at he
      have hw := (h.task p).waiting e he
      refine ⟨?_, ?_, hw.ne_zero, ?_, ?_, ?_⟩
      · rw [htbl]; exact hw.tbl
      · rw [hother e hep]; exact hw.type
      · rw [htcb]; exact hw.ptr
      · rw [htcb, hother e hep]; exact hw.stat
      · rw [htcb]; exact hw.timedOut

namespace Good

theorem idle_tbl (h : Good s) : s.osTcbPrioTbl idlePrio = true :=
  ((h.lists.task idlePrio).ready_iff.mp h.idle_ready).1

/-- The idle task waits for nothing. -/
theorem idle_wait (h : Good s) (e : Nat) : (s.osEvent e).wait.has idlePrio = false :=
  (h.lists.task idlePrio).wait_false_of_zero h.idle_ptr e

/-- There is always a task which is ready. -/
theorem highest (h : Good s) :
    s.rdy.has s.rdy.highest = true ∧ ∀ p < s.rdy.highest, s.rdy.has p = false := by
  refine PrioTbl.highest_spec h.lists.rdy fun h0 => ?_
  have := (PrioTbl.grp_eq_zero h.lists.rdy).mp h0 idlePrio
  rw [h.idle_ready] at this
  cases this

/-- Nobody waits on a free event. -/
theorem unused_wait (h : Good s) {e : Nat} (he : e ∈ s.osEventFreeList) (p : Prio) :
    (s.osEvent e).wait.has p = false := by
  cases hw : (s.osEvent e).wait.has p with
  | false => rfl
  | true => exact absurd ((h.lists.task p).waiting e hw).type ((h.pools.event.mem_iff e).mp he).2

/-- Counts and buffers do not matter. -/
theorem congr (h : Good s) (hrdy : s'.rdy = s.rdy) (htcb : s'.osTcb = s.osTcb)
    (hpools : SamePools s s') (hwait : ∀ e, (s'.osEvent e).wait = (s.osEvent e).wait) : Good s' :=
  ⟨h.lists.congr hrdy htcb hpools.tbl hwait hpools.type,
    fun p => by unfold Kept; rw [htcb, hwait]; exact h.kept p, h.pools.congr hpools,
    by rw [hrdy]; exact h.idle_ready, by rw [htcb]; exact h.idle_ptr⟩

theorem setCnt (h : Good s) (pevent cnt : Nat) : Good (s.setCnt pevent cnt) := by
  refine h.congr rfl rfl (SamePools.setCnt s pevent cnt) fun e => ?_
  by_cases he : e = pevent
  · subst he
    simp [Os.setCnt]
  · simp [Os.setCnt, he]

theorem setRing (h : Good s) (pevent : Nat) (ring : Ring) : Good (s.setRing pevent ring) :=
  h.congr rfl rfl (SamePools.setRing s pevent ring) fun _ => rfl

theorem setCell (h : Good s) (pevent i : Nat) (pmsg : Ptr) : Good (s.setCell pevent i pmsg) :=
  h.congr rfl rfl (SamePools.setCell s pevent i pmsg) fun _ => rfl

/-- A function which moves a task other than the idle task between the lists. -/
theorem moved (h : Good s) (hlists : Lists s') (hkept : ∀ p, Kept s' p) (hmoves : Moves s s')
    (hsame : SameAt s s' idlePrio) : Good s' :=
  ⟨hlists, hkept, h.pools.congr hmoves.samePools, by rw [hsame.rdy]; exact h.idle_ready,
    by rw [hsame.tcb]; exact h.idle_ptr⟩

theorem osEventTaskRdy (h : Good s) (hne : (s.osEvent pevent).wait.grp ≠ 0#8) {msk : BitVec 8}
    (hmsk : (s.osEvent pevent).osEventType.stat = msk) (pmsg : Ptr) (stat : PendStat) :
    Good (s.osEventTaskRdy pevent pmsg msk stat) := by
  subst hmsk
  refine h.moved (h.lists.osEventTaskRdy hne pmsg stat)
    (Kept.osEventTaskRdy h.kept h.lists hne pmsg stat) (Moves.osEventTaskRdy ..)
    (SameAt.osEventTaskRdy s pevent pmsg _ stat ?_)
  intro hidle
  have := h.lists.highest_waits hne
  rw [← hidle, h.idle_wait pevent] at this
  cases this

theorem osEventTaskRdyAll (h : Good s) {msk : BitVec 8}
    (hmsk : (s.osEvent pevent).osEventType.stat = msk) (pmsg : Ptr) (stat : PendStat)
    (rounds : Nat) : Good (Os.osEventTaskRdyAll pevent pmsg msk stat rounds s).1 := by
  induction rounds generalizing s with
  | zero => exact h
  | succ rounds ih =>
    unfold Os.osEventTaskRdyAll
    split
    · exact h
    · next hne =>
      refine ih (h.osEventTaskRdy hne hmsk pmsg stat) ?_
      rw [(Moves.osEventTaskRdy s pevent pmsg _ stat).type, hmsk]

/-- An object other than a queue, on which nobody waits, is deleted. -/
theorem freeEvent (h : Good s) (pevent : Nat) (htype : (s.osEvent pevent).osEventType ≠ .unused)
    (hq : (s.osEvent pevent).osEventType ≠ .q) (hempty : (s.osEvent pevent).wait.grp = 0#8) :
    Good (s.freeEvent pevent) := by
  have hwait : ((s.freeEvent pevent).osEvent pevent).wait = (s.osEvent pevent).wait := by
    simp [Os.freeEvent]
  have hother : ∀ e, e ≠ pevent → (s.freeEvent pevent).osEvent e = s.osEvent e :=
    fun e he => Function.update_of_ne he _ _
  refine ⟨h.lists.retype pevent rfl rfl rfl hother ?_ ?_,
    Kept.retype h.kept pevent rfl hother ((PrioTbl.grp_eq_zero (h.lists.wait pevent)).mp hempty),
    h.pools.freeEvent htype hq, h.idle_ready, h.idle_ptr⟩
  · rw [hwait]
    exact h.lists.wait pevent
  · rw [hwait]
    exact (PrioTbl.grp_eq_zero (h.lists.wait pevent)).mp hempty

/-- A queue, on which nobody waits, is deleted. -/
theorem freeQ (h : Good s) (htype : (s.osEvent pevent).osEventType = .q)
    (hempty : (s.osEvent pevent).wait.grp = 0#8) : Good ((s.freeQ pevent).freeEvent pevent) := by
  have hwait : (((s.freeQ pevent).freeEvent pevent).osEvent pevent).wait = (s.osEvent pevent).wait := by
    simp [Os.freeEvent, Os.freeQ]
  have hother : ∀ e, e ≠ pevent →
      ((s.freeQ pevent).freeEvent pevent).osEvent e = s.osEvent e :=
    fun e he => Function.update_of_ne he _ _
  refine ⟨h.lists.retype pevent rfl rfl rfl hother ?_ ?_,
    Kept.retype h.kept pevent rfl hother ((PrioTbl.grp_eq_zero (h.lists.wait pevent)).mp hempty),
    h.pools.freeQ htype, h.idle_ready, h.idle_ptr⟩
  · rw [hwait]
    exact h.lists.wait pevent
  · rw [hwait]
    exact (PrioTbl.grp_eq_zero (h.lists.wait pevent)).mp hempty

end Good

/-! ## Calls -/

/-- `OS_Sched` is still to be called. -/
def Cont.due : Cont → Bool
  | .sched | .pend _ _ => true
  | .run | .leave _ _ => false

/-- The event on which a pend waits. -/
def Cont.event : Cont → Option Nat
  | .pend _ pevent | .leave _ pevent => some pevent
  | .run | .sched => none

/-- The object for which a task waits. -/
def Cont.waits : Cont → Option (ObjType × Nat)
  | .pend type pevent | .leave type pevent => some (type, pevent)
  | .run | .sched => none

/-- What a task can pend for is there: a semaphore with a count, a queue with messages. -/
def Os.Available (s : Os) (e : Nat) : Prop :=
  ((s.osEvent e).osEventType = .sem ∧ (s.osEvent e).osEventCnt > 0) ∨
    ((s.osEvent e).osEventType = .q ∧ (s.queue e).ring.entries > 0)

/-- What is there does not depend on the lists. -/
theorem Moves.available (h : Moves s s') (e : Nat) : s'.Available e ↔ s.Available e := by
  unfold Os.Available Os.queue
  rw [h.type, h.cnt, h.eventPtr, h.q]

/-- What a call does. -/
structure CallOk (s : Os) (r : Ret) : Prop where
  good : Good r.os
  nesting : r.os.osIntNesting = s.osIntNesting
  cur : r.os.osPrioCur = s.osPrioCur
  high : r.os.osPrioHighRdy = s.osPrioHighRdy
  pendSv : r.os.pendSv = s.pendSv
  lock : s.osIntNesting ≠ 0 → r.os.osLockNesting = s.osLockNesting
  /-- Only a pend puts its task into a wait list. -/
  ptr : ∀ p, (r.os.osTcb p).osTcbEventPtr = 0 ∨
    (r.os.osTcb p).osTcbEventPtr = (s.osTcb p).osTcbEventPtr ∨
    (p = s.osPrioCur ∧ r.cont.event = some (r.os.osTcb p).osTcbEventPtr)
  /-- A pend which waits has put its task into the wait list, and does not wait for what is there. -/
  enters : ∀ t e, r.cont.waits = some (t, e) →
    (r.os.osEvent e).wait.has s.osPrioCur = true ∧ (r.os.osEvent e).osEventType = t ∧
      ¬r.os.Available e
  /-- Only a task can wait, and not with the scheduler locked. -/
  waits : r.cont.event ≠ none → s.osIntNesting = 0 ∧ s.osLockNesting = 0 ∧ r.os.osLockNesting = 0
  /-- Without `OS_Sched` no task has become ready. -/
  quiet : r.cont.due = false → s.osIntNesting = 0 → r.os.osLockNesting = 0 →
    s.osLockNesting = 0 ∧ ∀ p, r.os.rdy.has p = true → s.rdy.has p = true
  /-- Nor has the task which runs stopped to be ready. -/
  stays : r.cont.due = false → s.osIntNesting = 0 → r.os.osLockNesting = 0 →
    s.rdy.has s.osPrioCur = true → r.os.rdy.has s.osPrioCur = true

namespace CallOk

/-- A call which ends in its critical section and makes no task ready. -/
theorem done (hg : Good s') (he : Effect s s') (hrdy : s'.rdy = s.rdy) (err : Err) (val : Nat) :
    CallOk s (s'.done err val) where
  good := hg
  nesting := he.nesting
  cur := he.cur
  high := he.high
  pendSv := he.pendSv
  lock _ := he.lock
  ptr p := (he.ptr p).imp id Or.inl
  enters _ _ h := by cases h
  waits h := absurd rfl h
  quiet _ _ hl := ⟨he.lock ▸ hl, fun p hp => by rw [← hrdy]; exact hp⟩
  stays _ _ _ hr := by
    show s'.rdy.has s.osPrioCur = true
    rw [hrdy]
    exact hr

/-- A call which changes nothing. -/
theorem same (hg : Good s) (err : Err) (val : Nat) : CallOk s (s.done err val) :=
  done hg (Effect.refl s) rfl err val

/-- A call which goes on to `OS_Sched`. -/
theorem sched (hg : Good s') (he : Effect s s') (err : Err) (val : Nat) :
    CallOk s (s'.thenSched err val) where
  good := hg
  nesting := he.nesting
  cur := he.cur
  high := he.high
  pendSv := he.pendSv
  lock _ := he.lock
  ptr p := (he.ptr p).imp id Or.inl
  enters _ _ h := by cases h
  waits h := absurd rfl h
  quiet h := by cases h
  stays h := by cases h

end CallOk

theorem Good.taskCreate (h : Good s) (prio : Prio) : CallOk s (osTaskCreate prio s) := by
  unfold osTaskCreate
  split
  · exact .same h _ _
  · split
    · exact .same h _ _
    · next htbl =>
      have htbl : s.osTcbPrioTbl prio = false := by simpa using htbl
      split
      · exact .same h _ _
      · next hfree =>
        have hidle : idlePrio ≠ prio := by
          rintro rfl
          rw [h.idle_tbl] at htbl
          cases htbl
        have hgood : Good (s.osTcbInit prio) := by
          refine ⟨h.lists.osTcbInit htbl, Kept.touch h.kept
            (fun q hq => SameAt.osTcbInit s hq) (Kept.of_stat 0#8
            (by simp [Os.osTcbInit, Os.makeReady, Os.setTcb, Tcb.init]) BitVec.zero_and),
            h.pools.osTcbInit htbl hfree, ?_, ?_⟩
          · show (s.rdy.put prio).has idlePrio = true
            rw [PrioTbl.has_put, if_neg hidle]
            exact h.idle_ready
          · show (Function.update s.osTcb prio Tcb.init idlePrio).osTcbEventPtr = 0
            rw [Function.update_of_ne hidle]
            exact h.idle_ptr
        refine CallOk.sched (s := s) hgood ⟨rfl, rfl, rfl, rfl, rfl, fun p => ?_⟩ _ _
        show (Function.update s.osTcb prio Tcb.init p).osTcbEventPtr = 0 ∨
          (Function.update s.osTcb prio Tcb.init p).osTcbEventPtr = (s.osTcb p).osTcbEventPtr
        by_cases hp : p = prio
        · subst hp
          rw [Function.update_self]
          exact Or.inl rfl
        · rw [Function.update_of_ne hp]
          exact Or.inr rfl

/-- What is known when a call begins. -/
structure Caller (s : Os) : Prop where
  good : Good s
  run : s.osIntNesting = 0 → s.osLockNesting = 0 →
    s.rdy.has s.osPrioCur = true ∧ (s.osTcb s.osPrioCur).osTcbEventPtr = 0
  busy : s.osIntNesting = 0 → s.osPrioCur ≠ idlePrio

namespace Caller

theorem semAccept (h : Caller s) (pevent : Nat) : CallOk s (osSemAccept pevent s) := by
  unfold osSemAccept osSemAcceptSection
  split
  · exact .same h.good _ _
  · dsimp only
    split
    · exact .done (h.good.setCnt _ _) (.setCnt s _ _) rfl _ _
    · exact .same h.good _ _

theorem semCreate (h : Caller s) (cnt : UInt16) : CallOk s (osSemCreate cnt s) := by
  unfold osSemCreate osSemCreateFill
  split
  · exact .same h.good _ _
  · split
    · exact .same h.good _ _
    · next pevent rest hfree =>
      have hgood : Good { s with
          osEventFreeList := rest
          osEvent := Function.update s.osEvent pevent ⟨.sem, cnt.toNat, 0, BitTable.empty⟩ } := by
        refine ⟨h.good.lists.retype pevent rfl rfl rfl
          (fun e he => Function.update_of_ne he _ _) ?_ ?_,
          Kept.retype h.good.kept pevent rfl (fun e he => Function.update_of_ne he _ _)
            (h.good.unused_wait (by rw [hfree]; exact List.mem_cons_self)),
          ?_, h.good.idle_ready, h.good.idle_ptr⟩
        · simp [BitTable.ok_empty]
        · simp
        · exact h.good.pools.takeEvent hfree .update rfl rfl (by simp) (by simp)
      exact CallOk.done (s := s) hgood ⟨rfl, rfl, rfl, rfl, rfl, fun _ => Or.inr rfl⟩ rfl _ _

theorem semDel (h : Caller s) (pevent : Nat) (opt : DelOpt) : CallOk s (osSemDel pevent opt s) := by
  unfold osSemDel osSemDelSection
  split
  · exact .same h.good _ _
  · next htype =>
    have htype := not_not.mp htype
    split
    · exact .same h.good _ _
    · cases opt with
      | noPend =>
        dsimp only
        split
        · exact .same h.good _ _
        · next hempty =>
          exact .done (h.good.freeEvent pevent (by rw [htype]; decide) (by rw [htype]; decide)
            (not_not.mp hempty)) (.freeEvent s pevent) rfl _ _
      | always =>
        have hmsk : (s.osEvent pevent).osEventType.stat = statSem := by rw [htype]; rfl
        have hall := h.good.osEventTaskRdyAll hmsk 0 .abort 64
        have heff := Effect.osEventTaskRdyAll pevent 0 statSem .abort 64 s
        have htype' := (Moves.osEventTaskRdyAll pevent 0 statSem .abort 64 s).type pevent
        have hempty := h.good.lists.osEventTaskRdyAll_empty hmsk 0 .abort 64 0
          (le_refl _) (fun p hp => absurd hp (Nat.not_lt_zero _))
        have hgood := hall.freeEvent pevent (by rw [htype', htype]; decide)
          (by rw [htype', htype]; decide) hempty
        dsimp only
        split
        · exact .sched hgood (heff.trans (.freeEvent _ pevent)) _ _
        · next hno =>
          refine .done hgood (heff.trans (.freeEvent _ pevent)) ?_ _ _
          have h0 := not_not.mp hno
          show (Os.osEventTaskRdyAll pevent 0 statSem .abort (63 + 1) s).1.rdy = s.rdy
          rw [Os.osEventTaskRdyAll, if_pos h0]
      | other => exact .same h.good _ _

/-- Before the pend, its task is taken out of the ready list and put into the wait list. -/
theorem pendWait (h : Caller s) {t : ObjType} (htype : (s.osEvent pevent).osEventType = t)
    (hstat : t.stat ≠ 0#8) (hnone : ¬s.Available pevent) (hnest : s.osIntNesting = 0) (hlock : s.osLockNesting = 0)
    (timeout : Nat) :
    CallOk s ⟨s.pendWait t.stat pevent timeout, none, .pend t pevent⟩ := by
  obtain ⟨hrun, hptr⟩ := h.run hnest hlock
  have hmoves := Moves.pendWait s t.stat pevent timeout
  have hne : pevent ≠ 0 := by
    have hused : (s.osEvent pevent).osEventType ≠ .unused := by
      rw [htype]
      rintro rfl
      exact hstat rfl
    exact Nat.one_le_iff_ne_zero.mp (h.good.pools.event.used_all pevent hused).1
  subst htype
  have hsame : ∀ q, q ≠ s.osPrioCur →
      SameAt s (s.pendWait (s.osEvent pevent).osEventType.stat pevent timeout) q := by
    intro q hq
    refine (((SameAt.setTcb s _ hq).trans (.setTcb _ _ hq)).trans (.setWait ?_)).trans
      (.makeUnready _ hq)
    exact PrioTbl.has_put.trans (if_neg hq)
  have hidle : idlePrio ≠ s.osPrioCur := (h.busy hnest).symm
  refine ⟨h.good.moved (h.good.lists.pendWait hne hstat hrun hptr timeout)
      (Kept.pendWait h.good.kept _ pevent timeout) hmoves (hsame _ hidle),
    hmoves.nesting, hmoves.cur, hmoves.high, hmoves.pendSv, fun _ => hmoves.lock, fun p => ?_,
    fun t' e he => ?_, fun _ => ⟨hnest, hlock, hmoves.lock.trans hlock⟩, (by intro hd; cases hd),
    (by intro hd; cases hd)⟩
  · by_cases hp : p = s.osPrioCur
    · subst hp
      exact Or.inr (Or.inr ⟨rfl, by simp [Cont.event, Os.pendWait, Os.osEventTaskWait, Os.setTcb]⟩)
    · exact Or.inr (Or.inl (by rw [(hsame p hp).tcb]))
  · cases he
    refine ⟨?_, hmoves.type pevent, ?_⟩
    · show (((_ : Os).setWait pevent _).osEvent pevent).wait.has s.osPrioCur = true
      rw [wait_setWait, if_pos rfl]
      exact PrioTbl.has_put.trans (if_pos rfl)
    · rw [hmoves.available]
      exact hnone

theorem semPend (h : Caller s) (pevent timeout : Nat) : CallOk s (osSemPend pevent timeout s) := by
  unfold osSemPend osSemPendSection
  split
  · exact .same h.good _ _
  · next htype =>
    split
    · exact .same h.good _ _
    · next hnest =>
      split
      · exact .same h.good _ _
      · next hlock =>
        dsimp only
        split
        · exact .done (h.good.setCnt _ _) (.setCnt s _ _) rfl _ _
        · next hcnt =>
          have htype := not_not.mp htype
          refine h.pendWait htype (by decide) ?_ (Nat.eq_zero_of_not_pos hnest)
            (Nat.eq_zero_of_not_pos hlock) timeout
          rintro (⟨-, hpos⟩ | ⟨hq, -⟩)
          · exact hcnt hpos
          · rw [htype] at hq
            cases hq

/-- Tasks which wait are made ready, one or all of them. -/
theorem rdy (h : Caller s) {t : ObjType} (htype : (s.osEvent pevent).osEventType = t)
    (hne : (s.osEvent pevent).wait.grp ≠ 0#8) (pmsg : Ptr) (stat : PendStat) (err : Err) (val : Nat) :
    CallOk s ((s.osEventTaskRdy pevent pmsg t.stat stat).thenSched err val) :=
  .sched (h.good.osEventTaskRdy hne (by rw [htype]) pmsg stat) (.osEventTaskRdy ..) _ _

theorem rdyAll (h : Caller s) {t : ObjType} (htype : (s.osEvent pevent).osEventType = t) (pmsg : Ptr)
    (stat : PendStat) (err : Err) (val : Nat) :
    CallOk s ((Os.osEventTaskRdyAll pevent pmsg t.stat stat 64 s).1.thenSched err val) :=
  .sched (h.good.osEventTaskRdyAll (by rw [htype]) pmsg stat 64) (.osEventTaskRdyAll ..) _ _

theorem semPendAbort (h : Caller s) (pevent : Nat) (broadcast : Bool) :
    CallOk s (osSemPendAbort pevent broadcast s) := by
  unfold osSemPendAbort osSemPendAbortSection
  split
  · exact .same h.good _ _
  · next htype =>
    split
    · next hne =>
      split
      · exact h.rdyAll (t := .sem) (not_not.mp htype) 0 .abort _ _
      · exact h.rdy (t := .sem) (not_not.mp htype) hne 0 .abort _ _
    · exact .same h.good _ _

theorem semPost (h : Caller s) (pevent : Nat) : CallOk s (osSemPost pevent s) := by
  unfold osSemPost osSemPostSection
  split
  · exact .same h.good _ _
  · next htype =>
    split
    · next hne => exact h.rdy (t := .sem) (not_not.mp htype) hne 0 .ok _ _
    · dsimp only
      split
      · exact .done (h.good.setCnt _ _) (.setCnt s _ _) rfl _ _
      · exact .same h.good _ _

theorem semSet (h : Caller s) (pevent : Nat) (cnt : UInt16) : CallOk s (osSemSet pevent cnt s) := by
  unfold osSemSet osSemSetSection
  split
  · exact .same h.good _ _
  · split
    · exact .done (h.good.setCnt _ _) (.setCnt s _ _) rfl _ _
    · split
      · exact .done (h.good.setCnt _ _) (.setCnt s _ _) rfl _ _
      · exact .same h.good _ _

theorem qAccept (h : Caller s) (pevent : Nat) : CallOk s (osQAccept pevent s) := by
  unfold osQAccept osQAcceptSection
  split
  · exact .same h.good _ _
  · split
    · exact .done (h.good.setRing _ _) (.setRing s _ _) rfl _ _
    · exact .same h.good _ _

theorem qCreate (h : Caller s) (start size : Nat) : CallOk s (osQCreate start size s) := by
  unfold osQCreate osQCreateFill
  split
  · exact .same h.good _ _
  · split
    · next pevent events pq queues hfree hqfree =>
      have hgood : Good { s with
          osEventFreeList := events
          osQFreeList := queues
          osQ := Function.update s.osQ pq ⟨start, Ring.empty size⟩
          osEvent := Function.update s.osEvent pevent ⟨.q, 0, pq, BitTable.empty⟩ } := by
        refine ⟨h.good.lists.retype pevent rfl rfl rfl
          (fun e he => Function.update_of_ne he _ _) ?_ ?_,
          Kept.retype h.good.kept pevent rfl (fun e he => Function.update_of_ne he _ _)
            (h.good.unused_wait (by rw [hfree]; exact List.mem_cons_self)),
          ?_, h.good.idle_ready, h.good.idle_ptr⟩
        · simp [BitTable.ok_empty]
        · simp
        · exact h.good.pools.takeQ hfree hqfree .update rfl rfl (by simp) (by simp)
      exact CallOk.done (s := s) hgood ⟨rfl, rfl, rfl, rfl, rfl, fun _ => Or.inr rfl⟩ rfl _ _
    · exact .same h.good _ _

theorem qDel (h : Caller s) (pevent : Nat) (opt : DelOpt) : CallOk s (osQDel pevent opt s) := by
  unfold osQDel osQDelSection
  split
  · exact .same h.good _ _
  · next htype =>
    have htype := not_not.mp htype
    split
    · exact .same h.good _ _
    · cases opt with
      | noPend =>
        dsimp only
        split
        · exact .same h.good _ _
        · next hempty =>
          exact .done (h.good.freeQ htype (not_not.mp hempty)) (.freeQ s pevent) rfl _ _
      | always =>
        have hmsk : (s.osEvent pevent).osEventType.stat = statQ := by rw [htype]; rfl
        have hall := h.good.osEventTaskRdyAll hmsk 0 .abort 64
        have heff := Effect.osEventTaskRdyAll pevent 0 statQ .abort 64 s
        have htype' := (Moves.osEventTaskRdyAll pevent 0 statQ .abort 64 s).type pevent
        have hempty := h.good.lists.osEventTaskRdyAll_empty hmsk 0 .abort 64 0
          (le_refl _) (fun p hp => absurd hp (Nat.not_lt_zero _))
        have hgood := hall.freeQ (htype'.trans htype) hempty
        dsimp only
        split
        · exact .sched hgood (heff.trans (.freeQ _ pevent)) _ _
        · next hno =>
          refine .done hgood (heff.trans (.freeQ _ pevent)) ?_ _ _
          have h0 := not_not.mp hno
          show (Os.osEventTaskRdyAll pevent 0 statQ .abort (63 + 1) s).1.rdy = s.rdy
          rw [Os.osEventTaskRdyAll, if_pos h0]
      | other => exact .same h.good _ _

theorem qFlush (h : Caller s) (pevent : Nat) : CallOk s (osQFlush pevent s) := by
  unfold osQFlush
  split
  · exact .same h.good _ _
  · exact .done (h.good.setRing _ _) (.setRing s _ _) rfl _ _

theorem qPend (h : Caller s) (pevent timeout : Nat) : CallOk s (osQPend pevent timeout s) := by
  unfold osQPend osQPendSection
  split
  · exact .same h.good _ _
  · next htype =>
    split
    · exact .same h.good _ _
    · next hnest =>
      split
      · exact .same h.good _ _
      · next hlock =>
        split
        · exact .done (h.good.setRing _ _) (.setRing s _ _) rfl _ _
        · next hentries =>
          have htype := not_not.mp htype
          refine h.pendWait htype (by decide) ?_ (Nat.eq_zero_of_not_pos hnest)
            (Nat.eq_zero_of_not_pos hlock) timeout
          rintro (⟨hsem, -⟩ | ⟨-, hpos⟩)
          · rw [htype] at hsem
            cases hsem
          · exact hentries hpos

theorem qPendAbort (h : Caller s) (pevent : Nat) (broadcast : Bool) :
    CallOk s (osQPendAbort pevent broadcast s) := by
  unfold osQPendAbort osQPendAbortSection
  split
  · exact .same h.good _ _
  · next htype =>
    split
    · next hne =>
      split
      · exact h.rdyAll (t := .q) (not_not.mp htype) 0 .abort _ _
      · exact h.rdy (t := .q) (not_not.mp htype) hne 0 .abort _ _
    · exact .same h.good _ _

theorem qPostOpt (h : Caller s) (pevent : Nat) (pmsg : Ptr) {opt : PostOpt}
    (hopt : opt.noSched = false) : CallOk s (osQPostOpt pevent pmsg opt s) := by
  unfold osQPostOpt osQPostOptSection
  split
  · exact .same h.good _ _
  · next htype =>
    split
    · next hne =>
      dsimp only
      rw [hopt]
      rw [if_neg Bool.false_ne_true]
      split
      · exact h.rdyAll (t := .q) (not_not.mp htype) pmsg .ok _ _
      · exact h.rdy (t := .q) (not_not.mp htype) hne pmsg .ok _ _
    · dsimp only
      split
      · exact .same h.good _ _
      · split
        · exact .done ((h.good.setCell _ _ _).setRing _ _)
            ((Effect.setCell s _ _ _).trans (.setRing _ _ _)) rfl _ _
        · exact .done ((h.good.setCell _ _ _).setRing _ _)
            ((Effect.setCell s _ _ _).trans (.setRing _ _ _)) rfl _ _

theorem timeDly (h : Caller s) (ticks : Nat) : CallOk s (osTimeDly ticks s) := by
  unfold osTimeDly
  split
  · exact .same h.good _ _
  · next hnest =>
    split
    · exact .same h.good _ _
    · next hlock =>
      have hnest := Nat.eq_zero_of_not_pos hnest
      split
      · next hticks =>
        obtain ⟨-, hptr⟩ := h.run hnest (Nat.eq_zero_of_not_pos hlock)
        have hidle : idlePrio ≠ s.osPrioCur := (h.busy hnest).symm
        have hgood := h.good.moved (h.good.lists.delay hptr hticks)
          (Kept.setTcb (Kept.makeUnready h.good.kept _) id rfl)
          ((Moves.makeUnready s _).trans (.setTcb _ _ _))
          ((SameAt.makeUnready s hidle).trans (.setTcb _ _ hidle))
        have heff : Effect s ((s.makeUnready s.osPrioCur).setTcb s.osPrioCur
            { s.osTcb s.osPrioCur with osTcbDly := ticks }) :=
          (Effect.makeUnready s _).trans (.setTcb _ (Or.inr rfl))
        exact .sched hgood heff _ _
      · exact .same h.good _ _

theorem timeDlyResume (h : Caller s) (prio : Prio) : CallOk s (osTimeDlyResume prio s) := by
  unfold osTimeDlyResume
  split
  · exact .same h.good _ _
  · next hprio =>
    have hidle : idlePrio ≠ prio := fun he => hprio (le_of_eq he)
    split
    · exact .same h.good _ _
    · next htbl =>
      split
      · exact .same h.good _ _
      · next hdly =>
        have hgood : Good (s.wake prio) := h.good.moved
          (h.good.lists.wake (Bool.not_eq_false .. ▸ htbl) hdly) (Kept.wake h.good.kept prio)
          (Moves.wake s prio) (.wake s hidle)
        dsimp only
        split
        · exact .sched hgood (.wake s prio) _ _
        · next hsusp =>
          refine .done hgood (.wake s prio) ?_ _ _
          rw [osTcb_wake] at hsusp
          rw [rdy_wake, if_neg hsusp]

theorem taskSuspend (h : Caller s) {prio : Option Prio} (hp : prio.getD s.osPrioCur ≠ idlePrio) :
    CallOk s (osTaskSuspend prio s) := by
  unfold osTaskSuspend
  dsimp only
  generalize hq : prio.getD s.osPrioCur = q at hp ⊢
  have hidle : idlePrio ≠ q := hp.symm
  have hgood := h.good.moved (h.good.lists.suspend (p := q))
    (Kept.setTcb (Kept.makeUnready h.good.kept q) Kept.pendAny_suspend rfl)
    ((Moves.makeUnready s _).trans (.setTcb _ _ _))
    ((SameAt.makeUnready s hidle).trans (.setTcb _ _ hidle))
  have heff : Effect s ((s.makeUnready q).setTcb q
      { s.osTcb q with osTcbStat := (s.osTcb q).osTcbStat ||| statSuspend }) :=
    (Effect.makeUnready s _).trans (.setTcb _ (Or.inr rfl))
  split
  · exact .same h.good _ _
  · split
    · exact .sched hgood heff _ _
    · next hne =>
      -- another task than the one which runs: it is the only call which makes a task unready and
      -- does not go on to `OS_Sched`
      have hhas : ∀ p, (s.rdy.drop q).has p = if p = q then false else s.rdy.has p :=
        fun p => PrioTbl.has_drop
      refine ⟨hgood, heff.nesting, heff.cur, heff.high, heff.pendSv, fun _ => heff.lock,
        fun p => (heff.ptr p).imp id Or.inl, (by intro _ _ hw; cases hw), fun hw => absurd rfl hw,
        fun _ _ hl => ⟨heff.lock ▸ hl, fun p hp => ?_⟩, fun _ _ _ hr => ?_⟩
      · have hp' : (s.rdy.drop q).has p = true := hp
        rw [hhas] at hp'
        split at hp'
        · cases hp'
        · exact hp'
      · show (s.rdy.drop q).has s.osPrioCur = true
        rw [hhas, if_neg (fun he => hne he.symm)]
        exact hr

theorem taskResume (h : Caller s) (prio : Prio) : CallOk s (osTaskResume prio s) := by
  unfold osTaskResume
  split
  · exact .same h.good _ _
  · next htbl =>
    have htbl : s.osTcbPrioTbl prio = true := by simpa using htbl
    dsimp only
    split
    · next hsusp =>
      have hlists := h.good.lists.resume htbl hsusp rfl
      have hidle : prio ≠ idlePrio := by
        rintro rfl
        have hstat := ((h.good.lists.task _).ready_iff.mp h.good.idle_ready).2.1
        rw [hstat, BitVec.zero_and] at hsusp
        exact hsusp rfl
      have heff : Effect s (s.setTcb prio { s.osTcb prio with
          osTcbStat := (s.osTcb prio).osTcbStat &&& ~~~statSuspend }) := .setTcb s (Or.inr rfl)
      have hmoves := Moves.setTcb s prio { s.osTcb prio with
        osTcbStat := (s.osTcb prio).osTcbStat &&& ~~~statSuspend }
      have hsame := SameAt.setTcb s { s.osTcb prio with
        osTcbStat := (s.osTcb prio).osTcbStat &&& ~~~statSuspend } hidle.symm
      have hkept : ∀ q, Kept (s.setTcb prio { s.osTcb prio with
          osTcbStat := (s.osTcb prio).osTcbStat &&& ~~~statSuspend }) q :=
        Kept.setTcb h.good.kept Kept.pendAny_resume rfl
      split
      · next hpend =>
        split
        · next hdly =>
          rw [if_pos ⟨hpend, hdly⟩] at hlists
          exact .sched (h.good.moved hlists (Kept.makeReady hkept _) (hmoves.trans (.makeReady _ _))
            (hsame.trans (.makeReady _ hidle.symm))) (heff.trans (.makeReady _ _)) _ _
        · next hdly =>
          rw [if_neg (fun hc => hdly hc.2)] at hlists
          exact .done (h.good.moved hlists hkept hmoves hsame) heff rfl _ _
      · next hpend =>
        rw [if_neg (fun hc => hpend hc.1)] at hlists
        exact .done (h.good.moved hlists hkept hmoves hsame) heff rfl _ _
    · exact .same h.good _ _

theorem taskDel (h : Caller s) (prio : Option Prio) : CallOk s (osTaskDel prio s) := by
  unfold osTaskDel
  split
  · exact .same h.good _ _
  · next hnest =>
    split
    · exact .same h.good _ _
    · next hprio =>
      have hidle : idlePrio ≠ prio.getD s.osPrioCur := by
        cases prio with
        | none => exact (h.busy (Nat.eq_zero_of_not_pos hnest)).symm
        | some q => exact fun he => hprio (congrArg some he.symm)
      dsimp only
      generalize prio.getD s.osPrioCur = q at hidle ⊢
      split
      · exact .same h.good _ _
      · next htbl =>
        have htbl : s.osTcbPrioTbl q = true := by simpa using htbl
        -- out of the ready list, and out of the wait list
        obtain ⟨s₁, hs₁⟩ : ∃ s₁, s₁ = if (s.osTcb q).osTcbEventPtr ≠ 0
            then (s.makeUnready q).osEventTaskRemove q (s.osTcb q).osTcbEventPtr
            else s.makeUnready q := ⟨_, rfl⟩
        have hmoves : Moves s s₁ := by
          rw [hs₁]
          exact .ite ((Moves.makeUnready s q).trans (.osEventTaskRemove _ q _)) (.makeUnready s q)
        have heff : Effect s s₁ := by
          rw [hs₁]
          split
          · exact (Effect.makeUnready s q).trans (.osEventTaskRemove _ q _)
          · exact .makeUnready s q
        have hother : ∀ p, p ≠ q → SameAt s s₁ p := by
          intro p hp
          rw [hs₁]
          exact .ite ((SameAt.makeUnready s hp).trans (.osEventTaskRemove _ _ hp))
            (.makeUnready s hp)
        have hsame := hother idlePrio hidle
        rw [osTcb_makeUnready, ← hs₁]
        have hgood : Good { s₁.setTcb q { s₁.osTcb q with
              osTcbDly := 0, osTcbStat := 0#8, osTcbStatPend := .ok } with
            osTcbPrioTbl := Function.update s₁.osTcbPrioTbl q false
            osTcbList := s₁.osTcbList.erase q
            osTcbFree := s₁.osTcbFree + 1 } := by
          refine ⟨h.good.lists.delete hs₁ rfl rfl rfl rfl, ?_,
            h.good.pools.delete htbl hidle.symm ?_ ?_ ?_ ⟨hmoves.freeList, hmoves.qFree⟩
              fun e => ⟨hmoves.type e, hmoves.eventPtr e⟩, ?_, ?_⟩
          · refine Kept.touch h.good.kept (fun p hp => (hother p hp).trans (.forget s₁ hp))
              (Kept.of_stat (p := q) 0#8 ?_ BitVec.zero_and)
            simp [Os.setTcb]
          · rw [hmoves.tbl]
          · rw [hmoves.list]
          · rw [hmoves.free]
          · exact hsame.rdy.trans h.good.idle_ready
          · show (Function.update s₁.osTcb q _ idlePrio).osTcbEventPtr = 0
            rw [Function.update_of_ne hidle, hsame.tcb]
            exact h.good.idle_ptr
        refine CallOk.sched (s := s) hgood ⟨heff.nesting, heff.lock, heff.cur, heff.high, heff.pendSv,
          fun p => ?_⟩ _ _
        show (Function.update s₁.osTcb q _ p).osTcbEventPtr = 0 ∨
          (Function.update s₁.osTcb q _ p).osTcbEventPtr = (s.osTcb p).osTcbEventPtr
        by_cases hp : p = q
        · subst hp
          rw [Function.update_self]
          exact heff.ptr p
        · rw [Function.update_of_ne hp]
          exact heff.ptr p

theorem schedLock (h : Caller s) : CallOk s (osSchedLock s) := by
  unfold osSchedLock
  split
  · next hc =>
    have hgood : Good { s with osLockNesting := s.osLockNesting + 1 } :=
      h.good.congr rfl rfl ⟨rfl, rfl, rfl, rfl, rfl, fun _ => rfl, fun _ => rfl⟩ fun _ => rfl
    exact ⟨hgood, rfl, rfl, rfl, rfl, fun hn => absurd hc.1 hn, fun _ => Or.inr (Or.inl rfl),
      (by intro _ _ hw; cases hw), fun hw => absurd rfl hw,
      fun _ _ hl => absurd hl (Nat.succ_ne_zero _), fun _ _ hl => absurd hl (Nat.succ_ne_zero _)⟩
  · exact .same h.good _ _

theorem schedUnlock (h : Caller s) : CallOk s (osSchedUnlock s) := by
  unfold osSchedUnlock
  split
  · next hc =>
    have hgood : Good { s with osLockNesting := s.osLockNesting - 1 } :=
      h.good.congr rfl rfl ⟨rfl, rfl, rfl, rfl, rfl, fun _ => rfl, fun _ => rfl⟩ fun _ => rfl
    dsimp only
    split
    · exact ⟨hgood, rfl, rfl, rfl, rfl, fun hn => absurd hc.1 hn, fun _ => Or.inr (Or.inl rfl),
      (by intro _ _ hw; cases hw), fun hw => absurd rfl hw,
        (by intro hd; cases hd), (by intro hd; cases hd)⟩
    · next hl =>
      exact ⟨hgood, rfl, rfl, rfl, rfl, fun hn => absurd hc.1 hn, fun _ => Or.inr (Or.inl rfl),
      (by intro _ _ hw; cases hw), fun hw => absurd rfl hw,
        fun _ _ h0 => absurd h0 hl, fun _ _ h0 => absurd h0 hl⟩
  · exact .same h.good _ _

end Caller

/-- **What every call does.** -/
theorem Call.exec_ok (h : Caller s) {c : Call} (hc : c.Sane s) : CallOk s (c.exec s) := by
  cases c with
  | semAccept pevent => exact h.semAccept pevent
  | semCreate cnt => exact h.semCreate cnt
  | semDel pevent opt => exact h.semDel pevent opt
  | semPend pevent timeout => exact h.semPend pevent timeout
  | semPendAbort pevent broadcast => exact h.semPendAbort pevent broadcast
  | semPost pevent => exact h.semPost pevent
  | semSet pevent cnt => exact h.semSet pevent cnt
  | qAccept pevent => exact h.qAccept pevent
  | qCreate start size => exact h.qCreate start size
  | qDel pevent opt => exact h.qDel pevent opt
  | qFlush pevent => exact h.qFlush pevent
  | qPend pevent timeout => exact h.qPend pevent timeout
  | qPendAbort pevent broadcast => exact h.qPendAbort pevent broadcast
  | qPostOpt pevent pmsg opt => exact h.qPostOpt pevent pmsg hc
  | timeDly ticks => exact h.timeDly ticks
  | timeDlyResume prio => exact h.timeDlyResume prio
  | taskSuspend prio => exact h.taskSuspend hc
  | taskResume prio => exact h.taskResume prio
  | taskCreate prio => exact h.good.taskCreate prio
  | taskDel prio => exact h.taskDel prio
  | schedLock => exact h.schedLock
  | schedUnlock => exact h.schedUnlock

end PlcFirmware.Ucos
