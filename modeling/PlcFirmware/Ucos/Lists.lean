import PlcFirmware.Ucos.Calls

/-!
# What the lists of the kernel mean

A task is in the ready list if and only if its control block says that it is neither delayed, nor
pending, nor suspended; a task in the wait list of an event pends on that event, or its delay has run out
and it has not run since.

* `TaskOk` — the meaning of the lists for one task
* `Lists.osEventTaskRdy`, `Lists.osEventTaskWait`, `Lists.wake` and so on — the functions keep it
* `Lists.tick` — so does a tick, for all tasks
* `Kept` — no task which pends is lost
-/

namespace PlcFirmware.Ucos

open Infra

/-- The bit of `OSTCBStat` of a task which pends on an object. -/
def ObjType.stat : ObjType → BitVec 8
  | .unused => 0#8
  | .mbox => statMbox
  | .q => statQ
  | .sem => statSem
  | .mutex => statMutex

theorem ObjType.stat_le (t : ObjType) : t.stat &&& ~~~(statPendAny ||| statSuspend) = 0#8 := by
  cases t <;> rfl

/-- The bit of an object is one of `OS_STAT_PEND_ANY`. -/
theorem ObjType.stat_pendAny {t : ObjType} (h : t.stat ≠ 0#8) : t.stat &&& statPendAny ≠ 0#8 := by
  cases t
  case unused => exact absurd rfl h
  all_goals decide

/-- What is known of a task in the wait list of an event. -/
structure Waits (s : Os) (p : Prio) (e : Nat) : Prop where
  tbl : s.osTcbPrioTbl p = true
  type : (s.osEvent e).osEventType ≠ .unused
  ne_zero : e ≠ 0
  ptr : (s.osTcb p).osTcbEventPtr = e
  stat : (s.osTcb p).osTcbStat &&& ~~~((s.osEvent e).osEventType.stat ||| statSuspend) = 0#8
  timedOut : (s.osTcb p).osTcbStat &&& statPendAny = 0#8 →
    (s.osTcb p).osTcbStatPend = .timedOut ∧ (s.osTcb p).osTcbDly = 0

/-- The meaning of the lists for one task. -/
structure TaskOk (s : Os) (p : Prio) : Prop where
  ready_iff : s.rdy.has p = true ↔
    s.osTcbPrioTbl p = true ∧ (s.osTcb p).osTcbStat = 0#8 ∧ (s.osTcb p).osTcbDly = 0
  stat_le : (s.osTcb p).osTcbStat &&& ~~~(statPendAny ||| statSuspend) = 0#8
  waiting : ∀ e, (s.osEvent e).wait.has p = true → Waits s p e

/-- A task which pends is in the wait list of its event. -/
def Kept (s : Os) (p : Prio) : Prop :=
  (s.osTcb p).osTcbStat &&& statPendAny ≠ 0#8 →
    (s.osEvent (s.osTcb p).osTcbEventPtr).wait.has p = true

/-- The lists are bit tables in step, and mean what they should. -/
structure Lists (s : Os) : Prop where
  rdy : s.rdy.Ok
  wait : ∀ e, (s.osEvent e).wait.Ok
  task : ∀ p, TaskOk s p

/-! ## Bits of `OSTCBStat` -/

/-- Without the bits of `m` nothing is left but those of `k`. -/
theorem clear_eq_zero_iff {b m k : BitVec 8} (h : b &&& ~~~(m ||| k) = 0#8) :
    b &&& ~~~m = 0#8 ↔ b &&& ~~~m &&& k = 0#8 := by
  constructor
  · intro h0
    rw [h0, BitVec.zero_and]
  · intro h0
    rw [and_not_eq_zero_iff] at h ⊢
    intro i hb
    have hmk := h i hb
    rw [BitVec.getLsbD_or, Bool.or_eq_true] at hmk
    rcases hmk with hm | hk
    · exact hm
    · -- the bit would be left in the last word
      have hbit := eq_zero_iff.mp h0 i
      rw [BitVec.getLsbD_and, BitVec.getLsbD_and, BitVec.getLsbD_not, hb, hk,
        decide_eq_true (BitVec.lt_of_getLsbD hb)] at hbit
      simpa using hbit

/-- Clearing bits adds none. -/
theorem clear_le {b m k : BitVec 8} (h : b &&& ~~~k = 0#8) : b &&& ~~~m &&& ~~~k = 0#8 := by
  rw [and_not_eq_zero_iff] at h ⊢
  intro i hb
  rw [BitVec.getLsbD_and, Bool.and_eq_true] at hb
  exact h i hb.1

/-- Further bits within `k` are no bits outside it. -/
theorem set_le {b m k : BitVec 8} (h : b &&& ~~~k = 0#8) (hm : m &&& ~~~k = 0#8) :
    (b ||| m) &&& ~~~k = 0#8 := by
  rw [and_not_eq_zero_iff] at h hm ⊢
  intro i hb
  rw [BitVec.getLsbD_or, Bool.or_eq_true] at hb
  rcases hb with hb | hb
  · exact h i hb
  · exact hm i hb

/-- Bits which are not set need not be cleared. -/
theorem clear_of_disjoint {b m : BitVec 8} (h : b &&& m = 0#8) : b &&& ~~~m = b := by
  refine BitVec.eq_of_getLsbD_eq fun i hi => ?_
  have hbit := eq_zero_iff.mp h i
  rw [BitVec.getLsbD_and] at hbit
  rw [BitVec.getLsbD_and, BitVec.getLsbD_not, decide_eq_true hi, Bool.true_and]
  cases hm : m.getLsbD i with
  | false => rw [Bool.not_false, Bool.and_true]
  | true =>
    rw [hm, Bool.and_true] at hbit
    rw [hbit, Bool.false_and]

theorem or_ne_zero {b m : BitVec 8} (hm : m ≠ 0#8) : b ||| m ≠ 0#8 := by
  obtain ⟨i, hi⟩ := exists_getLsbD hm
  refine ne_zero_of_getLsbD (i := i) ?_
  rw [BitVec.getLsbD_or, hi, Bool.or_true]

/-! ## What a function leaves alone -/

/-- Nothing has changed for the task. -/
structure SameAt (s s' : Os) (p : Prio) : Prop where
  tcb : s'.osTcb p = s.osTcb p
  tbl : s'.osTcbPrioTbl p = s.osTcbPrioTbl p
  rdy : s'.rdy.has p = s.rdy.has p
  wait : ∀ e, (s'.osEvent e).wait.has p = (s.osEvent e).wait.has p
  type : ∀ e, (s'.osEvent e).osEventType = (s.osEvent e).osEventType

theorem TaskOk.congr {s s' : Os} {p : Prio} (h : TaskOk s p) (hs : SameAt s s' p) :
    TaskOk s' p where
  ready_iff := by rw [hs.rdy, hs.tbl, hs.tcb]; exact h.ready_iff
  stat_le := by rw [hs.tcb]; exact h.stat_le
  waiting := by
    intro e he
    rw [hs.wait] at he
    have hw := h.waiting e he
    refine ⟨?_, ?_, hw.ne_zero, ?_, ?_, ?_⟩
    · rw [hs.tbl]; exact hw.tbl
    · rw [hs.type]; exact hw.type
    · rw [hs.tcb]; exact hw.ptr
    · rw [hs.tcb, hs.type]; exact hw.stat
    · rw [hs.tcb]; exact hw.timedOut

/-- Nothing has changed but the control blocks of the tasks, the ready list and the wait lists. -/
structure Moves (s s' : Os) : Prop where
  tbl : s'.osTcbPrioTbl = s.osTcbPrioTbl
  list : s'.osTcbList = s.osTcbList
  free : s'.osTcbFree = s.osTcbFree
  event : ∀ e, { s'.osEvent e with wait := BitTable.empty } =
    { s.osEvent e with wait := BitTable.empty }
  freeList : s'.osEventFreeList = s.osEventFreeList
  q : s'.osQ = s.osQ
  qFree : s'.osQFreeList = s.osQFreeList
  storage : s'.storage = s.storage
  nesting : s'.osIntNesting = s.osIntNesting
  lock : s'.osLockNesting = s.osLockNesting
  cur : s'.osPrioCur = s.osPrioCur
  high : s'.osPrioHighRdy = s.osPrioHighRdy
  pendSv : s'.pendSv = s.pendSv

namespace Moves

variable {s s' s'' : Os}

theorem refl (s : Os) : Moves s s := ⟨rfl, rfl, rfl, fun _ => rfl, rfl, rfl, rfl, rfl, rfl, rfl, rfl, rfl, rfl⟩

theorem trans (h : Moves s s') (h' : Moves s' s'') : Moves s s'' where
  tbl := h'.tbl.trans h.tbl
  list := h'.list.trans h.list
  free := h'.free.trans h.free
  event e := (h'.event e).trans (h.event e)
  freeList := h'.freeList.trans h.freeList
  q := h'.q.trans h.q
  qFree := h'.qFree.trans h.qFree
  storage := h'.storage.trans h.storage
  nesting := h'.nesting.trans h.nesting
  lock := h'.lock.trans h.lock
  cur := h'.cur.trans h.cur
  high := h'.high.trans h.high
  pendSv := h'.pendSv.trans h.pendSv

theorem type (h : Moves s s') (e : Nat) :
    (s'.osEvent e).osEventType = (s.osEvent e).osEventType := by
  have := congrArg Event.osEventType (h.event e)
  exact this

theorem cnt (h : Moves s s') (e : Nat) :
    (s'.osEvent e).osEventCnt = (s.osEvent e).osEventCnt := by
  have := congrArg Event.osEventCnt (h.event e)
  exact this

theorem eventPtr (h : Moves s s') (e : Nat) :
    (s'.osEvent e).osEventPtr = (s.osEvent e).osEventPtr := by
  have := congrArg Event.osEventPtr (h.event e)
  exact this

theorem setTcb (s : Os) (p : Prio) (tcb : Tcb) : Moves s (s.setTcb p tcb) :=
  ⟨rfl, rfl, rfl, fun _ => rfl, rfl, rfl, rfl, rfl, rfl, rfl, rfl, rfl, rfl⟩

theorem makeReady (s : Os) (p : Prio) : Moves s (s.makeReady p) :=
  ⟨rfl, rfl, rfl, fun _ => rfl, rfl, rfl, rfl, rfl, rfl, rfl, rfl, rfl, rfl⟩

theorem makeUnready (s : Os) (p : Prio) : Moves s (s.makeUnready p) :=
  ⟨rfl, rfl, rfl, fun _ => rfl, rfl, rfl, rfl, rfl, rfl, rfl, rfl, rfl, rfl⟩

theorem setWait (s : Os) (pevent : Nat) (wait : PrioTbl) : Moves s (s.setWait pevent wait) := by
  refine ⟨rfl, rfl, rfl, fun e => ?_, rfl, rfl, rfl, rfl, rfl, rfl, rfl, rfl, rfl⟩
  by_cases he : e = pevent
  · subst he
    simp [Os.setWait]
  · simp [Os.setWait, he]

theorem ite {c : Prop} [Decidable c] (h : Moves s s') (h' : Moves s s'') :
    Moves s (if c then s' else s'') := by
  split
  · exact h
  · exact h'

theorem osEventTaskRemove (s : Os) (p : Prio) (pevent : Nat) :
    Moves s (s.osEventTaskRemove p pevent) :=
  (setWait s pevent _).trans (setTcb _ p _)

theorem osEventTaskRdy (s : Os) (pevent : Nat) (pmsg : Ptr) (msk : BitVec 8) (stat : PendStat) :
    Moves s (s.osEventTaskRdy pevent pmsg msk stat) :=
  ((setTcb s _ _).trans (ite (makeReady _ _) (refl _))).trans (osEventTaskRemove _ _ pevent)

theorem osEventTaskWait (s : Os) (pevent : Nat) : Moves s (s.osEventTaskWait pevent) :=
  ((setTcb s _ _).trans (setWait _ pevent _)).trans (makeUnready _ _)

theorem pendWait (s : Os) (msk : BitVec 8) (pevent timeout : Nat) :
    Moves s (s.pendWait msk pevent timeout) :=
  (setTcb s _ _).trans (osEventTaskWait _ pevent)

theorem pendEnd (s : Os) (pevent : Nat) : Moves s (s.pendEnd pevent) :=
  (ite (osEventTaskRemove s _ pevent) (refl s)).trans (setTcb _ _ _)

theorem wake (s : Os) (p : Prio) : Moves s (s.wake p) :=
  (setTcb s p _).trans (ite (makeReady _ p) (refl _))

theorem tickTask (s : Os) (p : Prio) : Moves s (s.tickTask p) := by
  unfold Os.tickTask
  exact ite (refl s) (ite (wake s p) (setTcb s p _))

theorem osEventTaskRdyAll (pevent : Nat) (pmsg : Ptr) (msk : BitVec 8) (stat : PendStat)
    (rounds : Nat) (s : Os) : Moves s (Os.osEventTaskRdyAll pevent pmsg msk stat rounds s).1 := by
  induction rounds generalizing s with
  | zero => exact refl s
  | succ rounds ih =>
    unfold Os.osEventTaskRdyAll
    split
    · exact refl s
    · exact (osEventTaskRdy s pevent pmsg msk stat).trans (ih _)

end Moves

namespace SameAt

variable {s s' s'' : Os} {p q : Prio}

theorem refl (s : Os) (p : Prio) : SameAt s s p := ⟨rfl, rfl, rfl, fun _ => rfl, fun _ => rfl⟩

theorem trans (h : SameAt s s' p) (h' : SameAt s' s'' p) : SameAt s s'' p where
  tcb := h'.tcb.trans h.tcb
  tbl := h'.tbl.trans h.tbl
  rdy := h'.rdy.trans h.rdy
  wait e := (h'.wait e).trans (h.wait e)
  type e := (h'.type e).trans (h.type e)

theorem ite {c : Prop} [Decidable c] (h : SameAt s s' p) (h' : SameAt s s'' p) :
    SameAt s (if c then s' else s'') p := by
  split
  · exact h
  · exact h'

theorem setTcb (s : Os) (tcb : Tcb) (h : p ≠ q) : SameAt s (s.setTcb q tcb) p :=
  ⟨Function.update_of_ne h _ _, rfl, rfl, fun _ => rfl, fun _ => rfl⟩

theorem makeReady (s : Os) (h : p ≠ q) : SameAt s (s.makeReady q) p :=
  ⟨rfl, rfl, by rw [Os.makeReady, PrioTbl.has_put, if_neg h], fun _ => rfl, fun _ => rfl⟩

theorem makeUnready (s : Os) (h : p ≠ q) : SameAt s (s.makeUnready q) p :=
  ⟨rfl, rfl, by rw [Os.makeUnready, PrioTbl.has_drop, if_neg h], fun _ => rfl, fun _ => rfl⟩

theorem osTcbInit (s : Os) (h : p ≠ q) : SameAt s (s.osTcbInit q) p :=
  ⟨Function.update_of_ne h _ _, Function.update_of_ne h _ _, PrioTbl.has_put.trans (if_neg h),
    fun _ => rfl, fun _ => rfl⟩

/-- The last step of `OSTaskDel` -/
theorem forget (s : Os) {tcb : Tcb} {l : List Prio} {n : Nat} (h : p ≠ q) :
    SameAt s { s.setTcb q tcb with
      osTcbPrioTbl := Function.update s.osTcbPrioTbl q false
      osTcbList := l
      osTcbFree := n } p :=
  ⟨Function.update_of_ne h _ _, Function.update_of_ne h _ _, rfl, fun _ => rfl, fun _ => rfl⟩

theorem setWait {pevent : Nat} {wait : PrioTbl} (h : wait.has p = (s.osEvent pevent).wait.has p) :
    SameAt s (s.setWait pevent wait) p := by
  refine ⟨rfl, rfl, rfl, fun e => ?_, fun e => ?_⟩
  · by_cases he : e = pevent
    · subst he
      simpa [Os.setWait] using h
    · simp [Os.setWait, he]
  · exact (Moves.setWait s pevent wait).type e

theorem osEventTaskRemove (s : Os) (pevent : Nat) (h : p ≠ q) :
    SameAt s (s.osEventTaskRemove q pevent) p :=
  (setWait (by rw [PrioTbl.has_drop, if_neg h])).trans (setTcb _ _ h)

end SameAt

/-! ## Wait lists -/

section WaitLists

variable {s : Os} {p q : Prio} {pevent : Nat}

@[simp] theorem osTcb_setTcb (tcb : Tcb) : (s.setTcb p tcb).osTcb p = tcb :=
  Function.update_self ..

@[simp] theorem osTcb_setWait (wait : PrioTbl) : (s.setWait pevent wait).osTcb = s.osTcb := rfl

@[simp] theorem osTcb_makeReady : (s.makeReady p).osTcb = s.osTcb := rfl

@[simp] theorem osTcb_makeUnready : (s.makeUnready p).osTcb = s.osTcb := rfl

@[simp] theorem osEvent_setTcb (tcb : Tcb) : (s.setTcb p tcb).osEvent = s.osEvent := rfl

@[simp] theorem osEvent_makeReady : (s.makeReady p).osEvent = s.osEvent := rfl

@[simp] theorem osEvent_makeUnready : (s.makeUnready p).osEvent = s.osEvent := rfl

@[simp] theorem osTcbPrioTbl_setTcb (tcb : Tcb) :
    (s.setTcb p tcb).osTcbPrioTbl = s.osTcbPrioTbl := rfl

@[simp] theorem osTcbPrioTbl_setWait (wait : PrioTbl) :
    (s.setWait pevent wait).osTcbPrioTbl = s.osTcbPrioTbl := rfl

@[simp] theorem rdy_setTcb (tcb : Tcb) : (s.setTcb p tcb).rdy = s.rdy := rfl

@[simp] theorem rdy_setWait (wait : PrioTbl) : (s.setWait pevent wait).rdy = s.rdy := rfl

theorem wait_setWait (wait : PrioTbl) (e : Nat) :
    ((s.setWait pevent wait).osEvent e).wait = if e = pevent then wait else (s.osEvent e).wait := by
  by_cases he : e = pevent
  · subst he
    simp [Os.setWait]
  · simp [Os.setWait, he]

/-- A task is in the wait list of one event only, the one of `OSTCBEventPtr`. -/
theorem TaskOk.wait_false (h : TaskOk s p) (hptr : (s.osTcb p).osTcbEventPtr = 0 ∨
    (s.osTcb p).osTcbEventPtr = pevent) {e : Nat} (he : e ≠ pevent) :
    (s.osEvent e).wait.has p = false := by
  cases hw : (s.osEvent e).wait.has p with
  | false => rfl
  | true =>
    have hwaits := h.waiting e hw
    rcases hptr with hptr | hptr
    · exact absurd (hwaits.ptr.symm.trans hptr) hwaits.ne_zero
    · exact absurd (hwaits.ptr.symm.trans hptr) he

theorem TaskOk.wait_false_of_zero (h : TaskOk s p) (hptr : (s.osTcb p).osTcbEventPtr = 0) (e : Nat) :
    (s.osEvent e).wait.has p = false := by
  cases hw : (s.osEvent e).wait.has p with
  | false => rfl
  | true =>
    have hwaits := h.waiting e hw
    exact absurd (hwaits.ptr.symm.trans hptr) hwaits.ne_zero

/-- The wait list of an event without the task, and the others. -/
theorem wait_osEventTaskRemove (s : Os) (p : Prio) (pevent e : Nat) :
    ((s.osEventTaskRemove p pevent).osEvent e).wait =
      if e = pevent then (s.osEvent pevent).wait.drop p else (s.osEvent e).wait := by
  unfold Os.osEventTaskRemove
  rw [osEvent_setTcb, wait_setWait]

/-- **`OS_EventTaskRemove` takes the task out of the only list it is in.** -/
theorem Lists.osEventTaskRemove (h : Lists s) (hptr : (s.osTcb p).osTcbEventPtr = 0 ∨
    (s.osTcb p).osTcbEventPtr = pevent) : Lists (s.osEventTaskRemove p pevent) where
  rdy := h.rdy
  wait e := by
    rw [wait_osEventTaskRemove]
    split
    · exact PrioTbl.ok_drop (h.wait pevent)
    · exact h.wait e
  task q := by
    by_cases hq : q = p
    · subst hq
      have ht := h.task q
      refine ⟨?_, ?_, fun e he => ?_⟩
      · simpa [Os.osEventTaskRemove] using ht.ready_iff
      · simpa [Os.osEventTaskRemove] using ht.stat_le
      · rw [wait_osEventTaskRemove] at he
        by_cases hep : e = pevent
        · rw [if_pos hep, PrioTbl.has_drop, if_pos rfl] at he
          cases he
        · rw [if_neg hep, ht.wait_false hptr hep] at he
          cases he
    · exact (h.task q).congr (SameAt.osEventTaskRemove s pevent hq)

/-- The first task of a wait list. -/
theorem Lists.highest_waits (h : Lists s) (hne : (s.osEvent pevent).wait.grp ≠ 0#8) :
    (s.osEvent pevent).wait.has (s.osEvent pevent).wait.highest = true :=
  (PrioTbl.highest_spec (h.wait pevent) hne).1

/-- The control block which `OS_EventTaskRdy` leaves behind. -/
theorem osTcb_osEventTaskRdy (s : Os) (pevent : Nat) (pmsg : Ptr) (msk : BitVec 8) (stat : PendStat) :
    (s.osEventTaskRdy pevent pmsg msk stat).osTcb (s.osEvent pevent).wait.highest =
      { osTcbDly := 0
        osTcbMsg := pmsg
        osTcbStat := (s.osTcb (s.osEvent pevent).wait.highest).osTcbStat &&& ~~~msk
        osTcbStatPend := stat
        osTcbEventPtr := 0 } := by
  unfold Os.osEventTaskRdy
  dsimp only
  split <;> simp [Os.osEventTaskRemove]

theorem SameAt.osEventTaskRdy (s : Os) (pevent : Nat) (pmsg : Ptr) (msk : BitVec 8)
    (stat : PendStat) (h : p ≠ (s.osEvent pevent).wait.highest) :
    SameAt s (s.osEventTaskRdy pevent pmsg msk stat) p :=
  ((SameAt.setTcb s _ h).trans (.ite (.makeReady _ h) (.refl _ p))).trans
    (.osEventTaskRemove _ pevent h)

/-- The wait list of the event without its first task, and the others. -/
theorem wait_osEventTaskRdy (s : Os) (pevent : Nat) (pmsg : Ptr) (msk : BitVec 8) (stat : PendStat)
    (e : Nat) :
    ((s.osEventTaskRdy pevent pmsg msk stat).osEvent e).wait =
      if e = pevent then (s.osEvent pevent).wait.drop (s.osEvent pevent).wait.highest
      else (s.osEvent e).wait := by
  unfold Os.osEventTaskRdy
  dsimp only
  rw [wait_osEventTaskRemove]
  split <;> split <;> rfl

theorem rdy_osEventTaskRdy (s : Os) (pevent : Nat) (pmsg : Ptr) (msk : BitVec 8) (stat : PendStat) :
    (s.osEventTaskRdy pevent pmsg msk stat).rdy =
      if (s.osTcb (s.osEvent pevent).wait.highest).osTcbStat &&& ~~~msk &&& statSuspend = 0#8
      then s.rdy.put (s.osEvent pevent).wait.highest else s.rdy := by
  unfold Os.osEventTaskRdy
  dsimp only
  split <;> rfl

/-- **`OS_EventTaskRdy` moves the first task of a wait list to the ready list, if it may run.** -/
theorem Lists.osEventTaskRdy (h : Lists s) (hne : (s.osEvent pevent).wait.grp ≠ 0#8) (pmsg : Ptr)
    (stat : PendStat) :
    Lists (s.osEventTaskRdy pevent pmsg (s.osEvent pevent).osEventType.stat stat) := by
  have hwait := h.highest_waits hne
  have hw := (h.task _).waiting pevent hwait
  have hzero := clear_eq_zero_iff hw.stat
  refine ⟨?_, fun e => ?_, fun q => ?_⟩
  · rw [rdy_osEventTaskRdy]
    split
    · exact PrioTbl.ok_put h.rdy
    · exact h.rdy
  · rw [wait_osEventTaskRdy]
    split
    · exact PrioTbl.ok_drop (h.wait pevent)
    · exact h.wait e
  · by_cases hq : q = (s.osEvent pevent).wait.highest
    · subst hq
      refine ⟨?_, ?_, fun e he => ?_⟩
      · rw [osTcb_osEventTaskRdy, (Moves.osEventTaskRdy ..).tbl, hw.tbl, rdy_osEventTaskRdy, hzero]
        split
        · next hs => simp [PrioTbl.has_put, hs]
        · next hs =>
          -- suspended, and so it was before
          refine iff_of_false ?_ (fun hr => hs hr.2.1)
          intro hr
          obtain ⟨-, h0, -⟩ := (h.task _).ready_iff.mp hr
          rw [h0, BitVec.zero_and, BitVec.zero_and] at hs
          exact hs rfl
      · rw [osTcb_osEventTaskRdy]
        exact clear_le (h.task _).stat_le
      · rw [wait_osEventTaskRdy] at he
        by_cases hep : e = pevent
        · rw [if_pos hep, PrioTbl.has_drop, if_pos rfl] at he
          cases he
        · rw [if_neg hep, (h.task _).wait_false (Or.inr hw.ptr) hep] at he
          cases he
    · exact (h.task q).congr (SameAt.osEventTaskRdy s pevent pmsg _ stat hq)

end WaitLists

/-! ## Tasks -/

section Tasks

variable {s s' : Os} {p q : Prio} {pevent : Nat}

/-- Only one task has been touched, and for it the lists mean what they should. -/
theorem Lists.touch (h : Lists s) (hrdy : s'.rdy.Ok) (hwait : ∀ e, (s'.osEvent e).wait.Ok)
    (hsame : ∀ q, q ≠ p → SameAt s s' q) (hp : TaskOk s' p) : Lists s' where
  rdy := hrdy
  wait := hwait
  task q := by
    by_cases hq : q = p
    · rw [hq]
      exact hp
    · exact (h.task q).congr (hsame q hq)

/-- **A task which runs goes into the wait list of an event.** -/
theorem Lists.pendWait (h : Lists s) (hne : pevent ≠ 0)
    (htype : (s.osEvent pevent).osEventType.stat ≠ 0#8)
    (hrun : s.rdy.has s.osPrioCur = true) (hptr : (s.osTcb s.osPrioCur).osTcbEventPtr = 0)
    (timeout : Nat) :
    Lists (s.pendWait (s.osEvent pevent).osEventType.stat pevent timeout) := by
  obtain ⟨htbl, hstat, -⟩ := (h.task _).ready_iff.mp hrun
  have hwaits := (h.task _).wait_false_of_zero hptr
  have hwait : ∀ e, ((s.pendWait (s.osEvent pevent).osEventType.stat pevent timeout).osEvent e).wait =
      if e = pevent then (s.osEvent pevent).wait.put s.osPrioCur else (s.osEvent e).wait :=
    fun e => wait_setWait _ e
  have htcb : (s.pendWait (s.osEvent pevent).osEventType.stat pevent timeout).osTcb s.osPrioCur =
      { s.osTcb s.osPrioCur with
        osTcbStat := (s.osEvent pevent).osEventType.stat
        osTcbStatPend := .ok
        osTcbDly := timeout
        osTcbEventPtr := pevent } := by
    simp [Os.pendWait, Os.osEventTaskWait, hstat, Os.setTcb]
  refine h.touch (p := s.osPrioCur) (PrioTbl.ok_drop h.rdy) (fun e => ?_) (fun q hq => ?_)
    ⟨?_, ?_, fun e he => ?_⟩
  · rw [hwait]
    split
    · exact PrioTbl.ok_put (h.wait pevent)
    · exact h.wait e
  · refine (((SameAt.setTcb s _ hq).trans (.setTcb _ _ hq)).trans (.setWait ?_)).trans
      (.makeUnready _ hq)
    exact PrioTbl.has_put.trans (if_neg hq)
  · rw [htcb]
    refine iff_of_false ?_ (fun hr => htype hr.2.1)
    show (s.rdy.drop s.osPrioCur).has s.osPrioCur ≠ true
    simp [PrioTbl.has_drop]
  · rw [htcb]
    exact ObjType.stat_le _
  · rw [hwait] at he
    by_cases hep : e = pevent
    · subst hep
      have hevent := (Moves.pendWait s (s.osEvent e).osEventType.stat e timeout).type e
      refine ⟨htbl, ?_, hne, ?_, ?_, ?_⟩
      · rw [hevent]
        intro h0
        rw [h0] at htype
        exact htype rfl
      · rw [htcb]
      · rw [htcb, hevent]
        exact and_not_eq_zero_iff.mpr fun i hi => by rw [BitVec.getLsbD_or, hi, Bool.true_or]
      · rw [htcb]
        intro h0
        exact absurd h0 (ObjType.stat_pendAny htype)
    · rw [if_neg hep, hwaits e] at he
      cases he

/-- A task which runs and is still in a wait list has waited too long. -/
theorem TaskOk.timedOut_of_ptr (h : TaskOk s p) (hrun : s.rdy.has p = true) {e : Nat}
    (he : (s.osEvent e).wait.has p = true) : (s.osTcb p).osTcbStatPend = .timedOut := by
  obtain ⟨-, hstat, -⟩ := h.ready_iff.mp hrun
  refine ((h.waiting e he).timedOut ?_).1
  rw [hstat, BitVec.zero_and]

/-- **The rest of a pend takes the task out of the wait list, if it still is in one.** -/
theorem Lists.pendEnd (h : Lists s) (hrun : s.rdy.has s.osPrioCur = true)
    (hptr : (s.osTcb s.osPrioCur).osTcbEventPtr = 0 ∨
      (s.osTcb s.osPrioCur).osTcbEventPtr = pevent) :
    Lists (s.pendEnd pevent) := by
  -- in either case the task is in no wait list before the last assignments
  have hcases : ∃ s₁, Lists s₁ ∧ s₁.rdy = s.rdy ∧ (∀ e, (s₁.osEvent e).wait.has s.osPrioCur = false) ∧
      s.pendEnd pevent = s₁.setTcb s.osPrioCur { s₁.osTcb s.osPrioCur with
        osTcbStat := 0#8, osTcbStatPend := .ok, osTcbEventPtr := 0 } := by
    by_cases hto : (s.osTcb s.osPrioCur).osTcbStatPend = .timedOut
    · have h₁ := h.osEventTaskRemove hptr
      refine ⟨s.osEventTaskRemove s.osPrioCur pevent, h₁, rfl, ?_, by rw [Os.pendEnd, if_pos hto]⟩
      exact (h₁.task _).wait_false_of_zero (by simp [Os.osEventTaskRemove])
    · refine ⟨s, h, rfl, fun e => ?_, by rw [Os.pendEnd, if_neg hto]⟩
      exact Bool.eq_false_iff.mpr fun he => hto ((h.task _).timedOut_of_ptr hrun he)
  obtain ⟨s₁, h₁, hrdy, hwait, heq⟩ := hcases
  rw [heq]
  have hrun₁ := ((h₁.task s.osPrioCur).ready_iff).mp (by rw [hrdy]; exact hrun)
  refine h₁.touch (p := s.osPrioCur) h₁.rdy h₁.wait (fun q hq => .setTcb _ _ hq) ⟨?_, ?_, fun e he => ?_⟩
  · rw [osTcb_setTcb, osTcbPrioTbl_setTcb, rdy_setTcb]
    exact iff_of_true (by rw [hrdy]; exact hrun) ⟨hrun₁.1, rfl, hrun₁.2.2⟩
  · rw [osTcb_setTcb]
    exact BitVec.zero_and
  · rw [osEvent_setTcb, hwait e] at he
    cases he

/-- The control block at the end of a delay. -/
def Tcb.woken (tcb : Tcb) : Tcb :=
  { tcb with
    osTcbDly := 0
    osTcbStat := tcb.osTcbStat &&& ~~~statPendAny
    osTcbStatPend := if tcb.osTcbStat &&& statPendAny ≠ 0#8 then .timedOut else .ok }

theorem wake_eq (s : Os) (p : Prio) :
    s.wake p =
      if (s.osTcb p).woken.osTcbStat &&& statSuspend = 0#8
      then (s.setTcb p (s.osTcb p).woken).makeReady p else s.setTcb p (s.osTcb p).woken := by
  have hstat : (if (s.osTcb p).osTcbStat &&& statPendAny ≠ 0#8
      then (s.osTcb p).osTcbStat &&& ~~~statPendAny else (s.osTcb p).osTcbStat) =
      (s.osTcb p).osTcbStat &&& ~~~statPendAny := by
    split
    · rfl
    · next h => exact (clear_of_disjoint (not_not.mp h)).symm
  unfold Os.wake
  dsimp only
  rw [hstat]
  rfl

@[simp] theorem osTcb_wake (s : Os) (p : Prio) : (s.wake p).osTcb p = (s.osTcb p).woken := by
  rw [wake_eq]
  split <;> simp

theorem rdy_wake (s : Os) (p : Prio) :
    (s.wake p).rdy =
      if (s.osTcb p).woken.osTcbStat &&& statSuspend = 0#8 then s.rdy.put p else s.rdy := by
  rw [wake_eq]
  split <;> rfl

theorem SameAt.wake (s : Os) (h : q ≠ p) : SameAt s (s.wake p) q :=
  (SameAt.setTcb s _ h).trans (.ite (.makeReady _ h) (.refl _ q))

theorem osEvent_wake (s : Os) (p : Prio) : (s.wake p).osEvent = s.osEvent := by
  rw [wake_eq]
  split <;> rfl

/-- A task becomes ready. -/
theorem Lists.ready (h : Lists s) (htbl : s.osTcbPrioTbl p = true) {tcb : Tcb}
    (hstat : tcb.osTcbStat = 0#8) (hdly : tcb.osTcbDly = 0)
    (hwaits : ∀ e, (s.osEvent e).wait.has p = true → Waits (s.setTcb p tcb) p e) :
    Lists ((s.setTcb p tcb).makeReady p) := by
  refine h.touch (p := p) (PrioTbl.ok_put h.rdy) h.wait
    (fun q hq => (SameAt.setTcb s tcb hq).trans (.makeReady _ hq)) ⟨?_, ?_, fun e he => ?_⟩
  · rw [osTcb_makeReady, osTcb_setTcb]
    exact iff_of_true (by simp [Os.makeReady, PrioTbl.has_put]) ⟨htbl, hstat, hdly⟩
  · rw [osTcb_makeReady, osTcb_setTcb, hstat]
    exact BitVec.zero_and
  · have hw := hwaits e he
    exact ⟨hw.tbl, hw.type, hw.ne_zero, hw.ptr, hw.stat, hw.timedOut⟩

/-- A task which is not ready does not become so. -/
theorem Lists.unready (h : Lists s) (hnot : s.rdy.has p ≠ true) {tcb : Tcb}
    (hwhy : tcb.osTcbStat = 0#8 → tcb.osTcbDly ≠ 0)
    (hle : tcb.osTcbStat &&& ~~~(statPendAny ||| statSuspend) = 0#8)
    (hwaits : ∀ e, (s.osEvent e).wait.has p = true → Waits (s.setTcb p tcb) p e) :
    Lists (s.setTcb p tcb) := by
  refine h.touch (p := p) h.rdy h.wait (fun q hq => .setTcb s tcb hq) ⟨?_, ?_, hwaits⟩
  · rw [osTcb_setTcb]
    exact iff_of_false hnot (fun hr => hwhy hr.2.1 hr.2.2)
  · rw [osTcb_setTcb]
    exact hle

/-- **The end of a delay makes the task ready, if it is not suspended.** -/
theorem Lists.wake (h : Lists s) (htbl : s.osTcbPrioTbl p = true) (hdly : (s.osTcb p).osTcbDly ≠ 0) :
    Lists (s.wake p) := by
  have hzero : (s.osTcb p).woken.osTcbStat = 0#8 ↔
      (s.osTcb p).woken.osTcbStat &&& statSuspend = 0#8 := clear_eq_zero_iff (h.task p).stat_le
  have hwaits : ∀ e, (s.osEvent e).wait.has p = true →
      Waits (s.setTcb p (s.osTcb p).woken) p e := by
    intro e he
    -- the task has waited for the event, or its delay would be over
    have hw := (h.task p).waiting e he
    have hpend : (s.osTcb p).osTcbStat &&& statPendAny ≠ 0#8 := fun h0 => hdly (hw.timedOut h0).2
    refine ⟨hw.tbl, hw.type, hw.ne_zero, ?_, ?_, fun _ => ?_⟩
    · rw [osTcb_setTcb]
      exact hw.ptr
    · rw [osTcb_setTcb]
      exact clear_le hw.stat
    · rw [osTcb_setTcb]
      exact ⟨if_pos hpend, rfl⟩
  rw [wake_eq]
  split
  · next hs => exact h.ready htbl (hzero.mpr hs) rfl hwaits
  · next hs =>
    refine h.unready (fun hr => hdly ((h.task p).ready_iff.mp hr).2.2) (fun h0 => ?_)
      (clear_le (h.task p).stat_le) hwaits
    exact absurd (hzero.mp h0) hs

/-- A change of the control block which keeps the status, the event and whether there is a delay. -/
theorem Lists.setTcb (h : Lists s) {tcb : Tcb} (hstat : tcb.osTcbStat = (s.osTcb p).osTcbStat)
    (hpend : tcb.osTcbStatPend = (s.osTcb p).osTcbStatPend)
    (hdly : tcb.osTcbDly = 0 ↔ (s.osTcb p).osTcbDly = 0)
    (hptr : tcb.osTcbEventPtr = (s.osTcb p).osTcbEventPtr) : Lists (s.setTcb p tcb) := by
  refine h.touch (p := p) h.rdy h.wait (fun q hq => .setTcb s tcb hq) ⟨?_, ?_, fun e he => ?_⟩
  · rw [osTcb_setTcb, osTcbPrioTbl_setTcb, rdy_setTcb, hstat, hdly]
    exact (h.task p).ready_iff
  · rw [osTcb_setTcb, hstat]
    exact (h.task p).stat_le
  · have hw := (h.task p).waiting e he
    refine ⟨hw.tbl, hw.type, hw.ne_zero, ?_, ?_, ?_⟩
    · rw [osTcb_setTcb, hptr]
      exact hw.ptr
    · rw [osTcb_setTcb, hstat]
      exact hw.stat
    · rw [osTcb_setTcb, hstat, hpend, hdly]
      exact hw.timedOut

theorem Lists.tickTask (h : Lists s) (htbl : s.osTcbPrioTbl p = true) : Lists (s.tickTask p) := by
  unfold Os.tickTask
  dsimp only
  by_cases h0 : (s.osTcb p).osTcbDly = 0
  · rw [if_pos h0]
    exact h
  · rw [if_neg h0]
    by_cases h1 : (s.osTcb p).osTcbDly - 1 = 0
    · rw [if_pos h1]
      exact h.wake htbl h0
    · rw [if_neg h1]
      exact h.setTcb rfl rfl (iff_of_false h1 h0) rfl

/-- **A tick keeps the meaning of the lists.** -/
theorem Lists.tick (h : Lists s) (l : List Prio) (hl : ∀ p ∈ l, s.osTcbPrioTbl p = true) :
    Lists (l.foldl Os.tickTask s) := by
  induction l generalizing s with
  | nil => exact h
  | cons p l ih =>
    refine ih (h.tickTask (hl p List.mem_cons_self)) fun q hq => ?_
    rw [(Moves.tickTask s p).tbl]
    exact hl q (List.mem_cons_of_mem p hq)

/-- **`OSTaskSuspend` takes the task out of the ready list.** -/
theorem Lists.suspend (h : Lists s) :
    Lists ((s.makeUnready p).setTcb p
      { s.osTcb p with osTcbStat := (s.osTcb p).osTcbStat ||| statSuspend }) := by
  refine h.touch (p := p) (PrioTbl.ok_drop h.rdy) h.wait
    (fun q hq => (SameAt.makeUnready s hq).trans (.setTcb _ _ hq)) ⟨?_, ?_, fun e he => ?_⟩
  · rw [osTcb_setTcb]
    refine iff_of_false ?_ (fun hr => or_ne_zero (by decide) hr.2.1)
    show (s.rdy.drop p).has p ≠ true
    simp [PrioTbl.has_drop]
  · rw [osTcb_setTcb]
    exact set_le (h.task p).stat_le (by decide)
  · have hw := (h.task p).waiting e he
    refine ⟨hw.tbl, hw.type, hw.ne_zero, ?_, ?_, ?_⟩
    · rw [osTcb_setTcb]
      exact hw.ptr
    · rw [osTcb_setTcb]
      refine set_le hw.stat (and_not_eq_zero_iff.mpr fun i hi => ?_)
      rw [BitVec.getLsbD_or, hi, Bool.or_true]
    · rw [osTcb_setTcb]
      intro hs
      refine hw.timedOut (eq_zero_iff.mpr fun i => ?_)
      have hbit := eq_zero_iff.mp hs i
      rw [BitVec.getLsbD_and, BitVec.getLsbD_or] at hbit
      rw [BitVec.getLsbD_and]
      cases hb : (s.osTcb p).osTcbStat.getLsbD i with
      | false => rfl
      | true => rwa [hb, Bool.true_or] at hbit

/-- **The end of a suspension makes the task ready, if it neither pends nor is delayed.** -/
theorem Lists.resume (h : Lists s) (htbl : s.osTcbPrioTbl p = true)
    (hsusp : (s.osTcb p).osTcbStat &&& statSuspend ≠ 0#8) {tcb : Tcb}
    (htcb : tcb = { s.osTcb p with osTcbStat := (s.osTcb p).osTcbStat &&& ~~~statSuspend }) :
    if tcb.osTcbStat &&& statPendAny = 0#8 ∧ tcb.osTcbDly = 0
    then Lists ((s.setTcb p tcb).makeReady p) else Lists (s.setTcb p tcb) := by
  have hle : (s.osTcb p).osTcbStat &&& ~~~(statSuspend ||| statPendAny) = 0#8 := by
    rw [BitVec.or_comm]
    exact (h.task p).stat_le
  have hzero := clear_eq_zero_iff hle
  have hwaits : ∀ e, (s.osEvent e).wait.has p = true → Waits (s.setTcb p tcb) p e := by
    intro e he
    have hw := (h.task p).waiting e he
    subst htcb
    refine ⟨hw.tbl, hw.type, hw.ne_zero, ?_, ?_, ?_⟩
    · rw [osTcb_setTcb]
      exact hw.ptr
    · rw [osTcb_setTcb]
      exact clear_le hw.stat
    · rw [osTcb_setTcb]
      intro hs
      apply hw.timedOut
      rw [BitVec.and_assoc, BitVec.and_comm (~~~statSuspend)] at hs
      exact hs
  subst htcb
  split
  · next hc => exact h.ready htbl (hzero.mpr hc.1) hc.2 hwaits
  · next hc =>
    refine h.unready ?_ (fun h0 hd => hc ⟨hzero.mp h0, hd⟩) (clear_le (h.task p).stat_le) hwaits
    intro hr
    rw [((h.task p).ready_iff.mp hr).2.1, BitVec.zero_and] at hsusp
    exact hsusp rfl

/-- **A new task is ready.** -/
theorem Lists.osTcbInit (h : Lists s) (htbl : s.osTcbPrioTbl p = false) :
    Lists (s.osTcbInit p) := by
  refine h.touch (p := p) (PrioTbl.ok_put h.rdy) h.wait (fun q hq => ?_) ⟨?_, ?_, fun e he => ?_⟩
  · exact .osTcbInit s hq
  · simp [Os.osTcbInit, Os.makeReady, Os.setTcb, PrioTbl.has_put, Tcb.init]
  · simp [Os.osTcbInit, Os.makeReady, Os.setTcb, Tcb.init]
  · have hw := ((h.task p).waiting e he).tbl
    rw [htbl] at hw
    cases hw

/-- **`OSTimeDly` takes the task which runs out of the ready list.** -/
theorem Lists.delay (h : Lists s) (hptr : (s.osTcb p).osTcbEventPtr = 0) {ticks : Nat}
    (hticks : 0 < ticks) :
    Lists ((s.makeUnready p).setTcb p { s.osTcb p with osTcbDly := ticks }) := by
  refine h.touch (p := p) (PrioTbl.ok_drop h.rdy) h.wait
    (fun q hq => (SameAt.makeUnready s hq).trans (.setTcb _ _ hq)) ⟨?_, ?_, fun e he => ?_⟩
  · rw [osTcb_setTcb]
    refine iff_of_false ?_ (fun hr => Nat.ne_of_gt hticks hr.2.2)
    show (s.rdy.drop p).has p ≠ true
    simp [PrioTbl.has_drop]
  · rw [osTcb_setTcb]
    exact (h.task p).stat_le
  · have hno := (h.task p).wait_false_of_zero hptr e
    rw [show (s.osEvent e).wait.has p = true from he] at hno
    cases hno

/-- **A deleted task is in no list.** -/
theorem Lists.delete (h : Lists s)
    (hs' : s' = if (s.osTcb p).osTcbEventPtr ≠ 0
      then (s.makeUnready p).osEventTaskRemove p (s.osTcb p).osTcbEventPtr else s.makeUnready p)
    {s'' : Os} (htbl : s''.osTcbPrioTbl = Function.update s'.osTcbPrioTbl p false)
    (hrdy : s''.rdy = s'.rdy) (hevent : s''.osEvent = s'.osEvent)
    (htcb : s''.osTcb = Function.update s'.osTcb p
      { s'.osTcb p with osTcbDly := 0, osTcbStat := 0#8, osTcbStatPend := .ok }) : Lists s'' := by
  have hwaits : ∀ e, (s'.osEvent e).wait.has p = false := by
    intro e
    subst hs'
    split
    · rw [wait_osEventTaskRemove]
      split
      · rw [PrioTbl.has_drop, if_pos rfl]
      · next he => exact (h.task p).wait_false (Or.inr rfl) he
    · next hz => exact (h.task p).wait_false_of_zero (not_not.mp hz) e
  have hrdy' : s'.rdy = s.rdy.drop p := by
    subst hs'
    split <;> rfl
  have hsame : ∀ q, q ≠ p → SameAt s s' q := by
    intro q hq
    subst hs'
    exact .ite ((SameAt.makeUnready s hq).trans (.osEventTaskRemove _ _ hq)) (.makeUnready s hq)
  have hwaitOk : ∀ e, (s'.osEvent e).wait.Ok := by
    intro e
    subst hs'
    split
    · rw [wait_osEventTaskRemove]
      split
      · exact PrioTbl.ok_drop (h.wait _)
      · exact h.wait e
    · exact h.wait e
  refine h.touch (p := p) ?_ (fun e => by rw [hevent]; exact hwaitOk e) (fun q hq => ?_)
    ⟨?_, ?_, fun e he => ?_⟩
  · rw [hrdy, hrdy']
    exact PrioTbl.ok_drop h.rdy
  · refine (hsame q hq).trans ⟨?_, ?_, by rw [hrdy], fun e => by rw [hevent], fun e => by rw [hevent]⟩
    · rw [htcb, Function.update_of_ne hq]
    · rw [htbl, Function.update_of_ne hq]
  · rw [hrdy, hrdy', htbl, Function.update_self]
    simp [PrioTbl.has_drop]
  · rw [htcb, Function.update_self]
    exact BitVec.zero_and
  · rw [hevent, hwaits e] at he
    cases he

/-- All tasks of a wait list made ready. -/
theorem Lists.osEventTaskRdyAll (h : Lists s) {msk : BitVec 8}
    (hmsk : (s.osEvent pevent).osEventType.stat = msk) (pmsg : Ptr) (stat : PendStat) (rounds : Nat) :
    Lists (Os.osEventTaskRdyAll pevent pmsg msk stat rounds s).1 := by
  induction rounds generalizing s with
  | zero => exact h
  | succ rounds ih =>
    unfold Os.osEventTaskRdyAll
    split
    · exact h
    · next hne =>
      subst hmsk
      refine ih (h.osEventTaskRdy hne pmsg stat) ?_
      rw [(Moves.osEventTaskRdy s pevent pmsg _ stat).type]

/-- Each round takes the first task out, so that after 64 rounds nobody waits. -/
theorem Lists.osEventTaskRdyAll_empty (h : Lists s) {msk : BitVec 8}
    (hmsk : (s.osEvent pevent).osEventType.stat = msk) (pmsg : Ptr) (stat : PendStat) (rounds n : Nat)
    (hn : 64 ≤ rounds + n) (hbelow : ∀ p : Prio, p.val < n → (s.osEvent pevent).wait.has p = false) :
    ((Os.osEventTaskRdyAll pevent pmsg msk stat rounds s).1.osEvent pevent).wait.grp = 0#8 := by
  induction rounds generalizing s n with
  | zero =>
    refine (PrioTbl.grp_eq_zero (h.wait pevent)).mpr fun p => hbelow p ?_
    have := p.isLt
    omega
  | succ rounds ih =>
    unfold Os.osEventTaskRdyAll
    split
    · next h0 => exact h0
    · next hne =>
      have hspec := PrioTbl.highest_spec (h.wait pevent) hne
      subst hmsk
      refine ih (h.osEventTaskRdy hne pmsg stat) ?_ (n + 1) (by omega) fun p hp => ?_
      · rw [(Moves.osEventTaskRdy s pevent pmsg _ stat).type]
      · rw [wait_osEventTaskRdy, if_pos rfl, PrioTbl.has_drop]
        split
        · rfl
        · next hne' =>
          -- a task before the first one does not wait, and the first one is behind the last round's
          refine hspec.2 p (lt_of_le_of_ne ?_ hne')
          by_contra hlt
          have hhigh : (s.osEvent pevent).wait.highest.val < n := by
            have := Fin.lt_def.mp (not_le.mp hlt)
            omega
          rw [hbelow _ hhigh] at hspec
          cases hspec.1

end Tasks

/-! ## No task is lost -/

namespace Kept

variable {s s' : Os} {p q : Prio} {pevent : Nat}

theorem congr (h : Kept s p) (hs : SameAt s s' p) : Kept s' p := by
  unfold Kept
  rw [hs.tcb, hs.wait]
  exact h

/-- Only one task has been touched, and it is not lost. -/
theorem touch (h : ∀ q, Kept s q) (hsame : ∀ q, q ≠ p → SameAt s s' q) (hp : Kept s' p) (q : Prio) :
    Kept s' q := by
  by_cases hq : q = p
  · rw [hq]
    exact hp
  · exact (h q).congr (hsame q hq)

/-- A task which does not pend cannot be lost. -/
theorem of_stat (stat : BitVec 8) (h : (s.osTcb p).osTcbStat = stat)
    (hstat : stat &&& statPendAny = 0#8) : Kept s p := by
  intro hpend
  rw [h] at hpend
  exact absurd hstat hpend

/-- A change of the control block which makes no task pend. -/
theorem setTcb (h : ∀ q, Kept s q) {tcb : Tcb}
    (hstat : tcb.osTcbStat &&& statPendAny ≠ 0#8 → (s.osTcb p).osTcbStat &&& statPendAny ≠ 0#8)
    (hptr : tcb.osTcbEventPtr = (s.osTcb p).osTcbEventPtr) : ∀ q, Kept (s.setTcb p tcb) q := by
  refine touch h (fun q hq => .setTcb s tcb hq) fun hpend => ?_
  rw [osTcb_setTcb] at hpend ⊢
  rw [hptr]
  exact h p (hstat hpend)

theorem makeReady (h : ∀ q, Kept s q) (p : Prio) : ∀ q, Kept (s.makeReady p) q := h

theorem makeUnready (h : ∀ q, Kept s q) (p : Prio) : ∀ q, Kept (s.makeUnready p) q := h

/-- To suspend a task does not make it pend. -/
theorem pendAny_suspend {b : BitVec 8} (h : (b ||| statSuspend) &&& statPendAny ≠ 0#8) :
    b &&& statPendAny ≠ 0#8 := by
  rw [BitVec.and_comm, BitVec.and_or_distrib_left,
    show statPendAny &&& statSuspend = 0#8 by decide, BitVec.or_zero, BitVec.and_comm] at h
  exact h

/-- Nor does to resume it. -/
theorem pendAny_resume {b : BitVec 8} (h : b &&& ~~~statSuspend &&& statPendAny ≠ 0#8) :
    b &&& statPendAny ≠ 0#8 := by
  rw [BitVec.and_assoc, show ~~~statSuspend &&& statPendAny = statPendAny by decide] at h
  exact h

/-- The bit of the object is the only one of `OS_STAT_PEND_ANY` which is set. -/
theorem clear_pendAny {b m : BitVec 8} (h : b &&& ~~~(m ||| statSuspend) = 0#8) :
    b &&& ~~~m &&& statPendAny = 0#8 := by
  have hsub := and_not_eq_zero_iff.mp h
  refine eq_zero_iff.mpr fun i => ?_
  rw [BitVec.getLsbD_and, BitVec.getLsbD_and, BitVec.getLsbD_not]
  cases hb : b.getLsbD i with
  | false => rfl
  | true =>
    have hor := hsub i hb
    rw [BitVec.getLsbD_or] at hor
    cases hm : m.getLsbD i with
    | true => rw [Bool.not_true, Bool.and_false, Bool.and_false, Bool.false_and]
    | false =>
      rw [hm, Bool.false_or] at hor
      -- the other bit is the one of a suspension
      have hdis : statSuspend &&& statPendAny = 0#8 := by decide
      have hi := eq_zero_iff.mp hdis i
      rw [BitVec.getLsbD_and, hor, Bool.true_and] at hi
      rw [hi, Bool.and_false]

theorem osEventTaskRdy (h : ∀ q, Kept s q) (hl : Lists s) (hne : (s.osEvent pevent).wait.grp ≠ 0#8)
    (pmsg : Ptr) (stat : PendStat) :
    ∀ q, Kept (s.osEventTaskRdy pevent pmsg (s.osEvent pevent).osEventType.stat stat) q :=
  touch h (fun _ hq => .osEventTaskRdy s pevent pmsg _ stat hq)
    (of_stat _ (by rw [osTcb_osEventTaskRdy])
      (clear_pendAny ((hl.task _).waiting pevent (hl.highest_waits hne)).stat))

theorem wake (h : ∀ q, Kept s q) (p : Prio) : ∀ q, Kept (s.wake p) q := by
  have hstat : ((s.wake p).osTcb p).osTcbStat = (s.osTcb p).osTcbStat &&& ~~~statPendAny := by
    rw [osTcb_wake]
    rfl
  refine touch h (fun _ hq => .wake s hq) (of_stat _ hstat ?_)
  rw [BitVec.and_assoc, show ~~~statPendAny &&& statPendAny = 0#8 by decide, BitVec.and_zero]

theorem tickTask (h : ∀ q, Kept s q) (p : Prio) : ∀ q, Kept (s.tickTask p) q := by
  unfold Os.tickTask
  dsimp only
  split
  · exact h
  · split
    · exact wake h p
    · exact setTcb h id rfl

theorem pendWait (h : ∀ q, Kept s q) (msk : BitVec 8) (pevent timeout : Nat) :
    ∀ q, Kept (s.pendWait msk pevent timeout) q := by
  refine touch (p := s.osPrioCur) h (fun q hq => ?_) fun _ => ?_
  · exact (((SameAt.setTcb s _ hq).trans (.setTcb _ _ hq)).trans
      (.setWait (PrioTbl.has_put.trans (if_neg hq)))).trans (.makeUnready _ hq)
  · have hptr : ((s.pendWait msk pevent timeout).osTcb s.osPrioCur).osTcbEventPtr = pevent := by
      simp [Os.pendWait, Os.osEventTaskWait, Os.setTcb]
    rw [hptr]
    show (((_ : Os).setWait pevent _).osEvent pevent).wait.has s.osPrioCur = true
    rw [wait_setWait, if_pos rfl]
    exact PrioTbl.has_put.trans (if_pos rfl)

theorem pendEnd (h : ∀ q, Kept s q) (pevent : Nat) : ∀ q, Kept (s.pendEnd pevent) q := by
  refine touch h (fun q hq => ?_) (of_stat (p := s.osPrioCur) 0#8 ?_ BitVec.zero_and)
  · exact (SameAt.ite (.osEventTaskRemove s pevent hq) (.refl s q)).trans (.setTcb _ _ hq)
  · unfold Os.pendEnd
    dsimp only
    rw [osTcb_setTcb]

/-- An event on which nobody waits can become another object. -/
theorem retype (h : ∀ q, Kept s q) (pevent : Nat) (htcb : s'.osTcb = s.osTcb)
    (hother : ∀ e, e ≠ pevent → s'.osEvent e = s.osEvent e)
    (hnone : ∀ p, (s.osEvent pevent).wait.has p = false) (q : Prio) : Kept s' q := by
  intro hpend
  rw [htcb] at hpend ⊢
  have hwait := h q hpend
  rw [hother _ ?_]
  · exact hwait
  · intro he
    rw [he, hnone q] at hwait
    cases hwait

end Kept

end PlcFirmware.Ucos
