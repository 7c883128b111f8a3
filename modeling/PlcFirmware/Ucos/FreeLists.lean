import PlcFirmware.Ucos.Preempt

/-!
# Who reads the free lists

Only a creation by a task reads the free lists of the events and of the `OS_Q`. Every other step does the
same whatever blocks are in them, and may put some in front.

* `Sys.step_withFree` — a step does the same with other free lists
-/

namespace PlcFirmware.Ucos

open Infra

/-- The kernel with other free lists. -/
def Os.withFree (events queues : List Nat) (s : Os) : Os :=
  { s with osEventFreeList := events, osQFreeList := queues }

/-- The result of a call with other free lists. -/
def Ret.withFree (events queues : List Nat) (r : Ret) : Ret := { r with os := r.os.withFree events queues }

/-- The system with other free lists. -/
def Sys.withFree (events queues : List Nat) (y : Sys) : Sys :=
  { y with os := y.os.withFree events queues }

variable {s : Os} {y : Sys} {l q : List Nat} {p : Prio} {e : Nat}

/-! ## The functions of the kernel -/

namespace Os

@[simp] theorem osTcb_withFree : (s.withFree l q).osTcb = s.osTcb := rfl
@[simp] theorem osTcbList_withFree : (s.withFree l q).osTcbList = s.osTcbList := rfl
@[simp] theorem osEvent_withFree : (s.withFree l q).osEvent = s.osEvent := rfl
@[simp] theorem osIntNesting_withFree : (s.withFree l q).osIntNesting = s.osIntNesting := rfl
@[simp] theorem osPrioCur_withFree : (s.withFree l q).osPrioCur = s.osPrioCur := rfl

theorem osEventTaskRdy_withFree {pmsg : Ptr} {msk : BitVec 8} {st : PendStat} :
    (s.withFree l q).osEventTaskRdy e pmsg msk st = (s.osEventTaskRdy e pmsg msk st).withFree l q := by
  unfold osEventTaskRdy
  dsimp only [osEvent_withFree, osTcb_withFree]
  split <;> rfl

theorem osEventTaskRdyAll_withFree {pmsg : Ptr} {msk : BitVec 8} {st : PendStat} (rounds : Nat) :
    osEventTaskRdyAll e pmsg msk st rounds (s.withFree l q) =
      ((osEventTaskRdyAll e pmsg msk st rounds s).1.withFree l q,
        (osEventTaskRdyAll e pmsg msk st rounds s).2) := by
  induction rounds generalizing s with
  | zero => rfl
  | succ rounds ih =>
    unfold osEventTaskRdyAll
    rw [osEvent_withFree, osEventTaskRdy_withFree, ih]
    split <;> rfl

theorem osSched_withFree : (s.withFree l q).osSched = s.osSched.withFree l q := by
  unfold osSched
  rw [apply_ite (withFree l q)]
  dsimp only
  rw [apply_ite (withFree l q)]
  rfl

theorem osIntEnter_withFree : (s.withFree l q).osIntEnter = s.osIntEnter.withFree l q := by
  unfold osIntEnter
  rw [apply_ite (withFree l q)]
  rfl

theorem osIntExit_withFree : (s.withFree l q).osIntExit = s.osIntExit.withFree l q := by
  unfold osIntExit
  rw [← osSched_withFree, apply_ite (withFree l q)]
  rfl

theorem wake_withFree : (s.withFree l q).wake p = (s.wake p).withFree l q := by
  unfold wake
  dsimp only
  rw [apply_ite (withFree l q)]
  rfl

theorem tickTask_withFree : (s.withFree l q).tickTask p = (s.tickTask p).withFree l q := by
  unfold tickTask
  dsimp only
  rw [apply_ite (withFree l q), apply_ite (withFree l q), ← wake_withFree]
  rfl

theorem osTimeTick_withFree : (s.withFree l q).osTimeTick = s.osTimeTick.withFree l q := by
  unfold osTimeTick
  rw [osTcbList_withFree]
  have hcongr : ∀ (ps : List Prio) (s : Os),
      ps.foldl tickTask (s.withFree l q) = (ps.foldl tickTask s).withFree l q := by
    intro ps
    induction ps with
    | nil => exact fun _ => rfl
    | cons p ps ih =>
      intro s
      rw [List.foldl_cons, tickTask_withFree, ih, List.foldl_cons]
  exact hcongr _ { s with osTime := s.osTime + 1 }

theorem pendEnd_withFree : (s.withFree l q).pendEnd e = (s.pendEnd e).withFree l q := by
  have h := apply_ite (withFree l q) ((s.osTcb s.osPrioCur).osTcbStatPend = .timedOut)
    (s.osEventTaskRemove s.osPrioCur e) s
  exact congrArg (fun s' : Os => s'.setTcb s.osPrioCur
    { s'.osTcb s.osPrioCur with osTcbStat := 0#8, osTcbStatPend := .ok, osTcbEventPtr := 0 }) h.symm

end Os

/-! ## The calls -/

/-- The function does the same with other free lists, but for what it puts in front of them. -/
def Blind (f : Os → Ret) (s : Os) : Prop :=
  ∃ events queues : List Nat, ∀ l q,
    f (s.withFree l q) = (f s).withFree (events ++ l) (queues ++ q)

theorem Blind.of_eq {f : Os → Ret} (h : ∀ l q, f (s.withFree l q) = (f s).withFree l q) : Blind f s :=
  ⟨[], [], h⟩

/-- A case distinction which does not look at the free lists. -/
theorem Blind.ite {c : Os → Prop} [DecidablePred c] {f g : Os → Ret}
    (hc : ∀ l q, c (s.withFree l q) ↔ c s) (hf : c s → Blind f s) (hg : ¬c s → Blind g s) :
    Blind (fun s => if c s then f s else g s) s := by
  by_cases h : c s
  · obtain ⟨events, queues, hfs⟩ := hf h
    refine ⟨events, queues, fun l q => ?_⟩
    dsimp only
    rw [if_pos h, if_pos ((hc l q).mpr h)]
    exact hfs l q
  · obtain ⟨events, queues, hgs⟩ := hg h
    refine ⟨events, queues, fun l q => ?_⟩
    dsimp only
    rw [if_neg h, if_neg fun h' => h ((hc l q).mp h')]
    exact hgs l q

theorem blind_semDel (opt : DelOpt) : Blind (osSemDelSection e opt) s := by
  refine .ite (fun _ _ => Iff.rfl) (fun _ => .of_eq fun _ _ => rfl) fun _ => ?_
  cases opt with
  | noPend =>
    exact .ite (fun _ _ => Iff.rfl) (fun _ => .of_eq fun _ _ => rfl) fun _ => ⟨[e], [], fun _ _ => rfl⟩
  | always =>
    refine .ite (fun _ _ => Iff.rfl) (fun _ => ⟨[e], [], fun l q => ?_⟩) fun _ => ⟨[e], [], fun l q => ?_⟩
    · dsimp only
      rw [Os.osEventTaskRdyAll_withFree]
      rfl
    · dsimp only
      rw [Os.osEventTaskRdyAll_withFree]
      rfl
  | other => exact .of_eq fun _ _ => rfl

theorem blind_qDel (opt : DelOpt) : Blind (osQDelSection e opt) s := by
  refine .ite (fun _ _ => Iff.rfl) (fun _ => .of_eq fun _ _ => rfl) fun _ => ?_
  cases opt with
  | noPend =>
    exact .ite (fun _ _ => Iff.rfl) (fun _ => .of_eq fun _ _ => rfl)
      fun _ => ⟨[e], [(s.osEvent e).osEventPtr], fun _ _ => rfl⟩
  | always =>
    have hall : ∀ l q, Os.osEventTaskRdyAll e 0 statQ .abort 64 (s.withFree l q) =
        ((Os.osEventTaskRdyAll e 0 statQ .abort 64 s).1.withFree l q,
          (Os.osEventTaskRdyAll e 0 statQ .abort 64 s).2) :=
      fun l q => Os.osEventTaskRdyAll_withFree 64
    -- the `OS_Q` is read behind the loop
    let pq := ((Os.osEventTaskRdyAll e 0 statQ .abort 64 s).1.osEvent e).osEventPtr
    refine .ite (fun _ _ => Iff.rfl) (fun _ => ⟨[e], [pq], fun l q => ?_⟩)
      fun _ => ⟨[e], [pq], fun l q => ?_⟩
    · dsimp only
      rw [hall]
      rfl
    · dsimp only
      rw [hall]
      rfl
  | other => exact .of_eq fun _ _ => rfl

theorem blind_semPend (timeout : Nat) : Blind (osSemPendSection e timeout) s :=
  .ite (fun _ _ => Iff.rfl) (fun _ => .of_eq fun _ _ => rfl) fun _ =>
    .ite (fun _ _ => Iff.rfl) (fun _ => .of_eq fun _ _ => rfl) fun _ =>
      .ite (fun _ _ => Iff.rfl) (fun _ => .of_eq fun _ _ => rfl) fun _ => .of_eq fun _ _ => rfl

theorem blind_qPend (timeout : Nat) : Blind (osQPendSection e timeout) s :=
  .ite (fun _ _ => Iff.rfl) (fun _ => .of_eq fun _ _ => rfl) fun _ =>
    .ite (fun _ _ => Iff.rfl) (fun _ => .of_eq fun _ _ => rfl) fun _ =>
      .ite (fun _ _ => Iff.rfl) (fun _ => .of_eq fun _ _ => rfl) fun _ => .of_eq fun _ _ => rfl

theorem blind_semPendAbort (broadcast : Bool) : Blind (osSemPendAbortSection e broadcast) s := by
  refine .ite (fun _ _ => Iff.rfl) (fun _ => ?_) fun _ => .of_eq fun _ _ => rfl
  refine .ite (fun _ _ => Iff.rfl) (fun _ => .of_eq fun l q => ?_) fun _ => .of_eq fun l q => ?_
  · dsimp only
    rw [Os.osEventTaskRdyAll_withFree]
    rfl
  · rw [Os.osEventTaskRdy_withFree]
    rfl

theorem blind_qPendAbort (broadcast : Bool) : Blind (osQPendAbortSection e broadcast) s := by
  refine .ite (fun _ _ => Iff.rfl) (fun _ => ?_) fun _ => .of_eq fun _ _ => rfl
  refine .ite (fun _ _ => Iff.rfl) (fun _ => .of_eq fun l q => ?_) fun _ => .of_eq fun l q => ?_
  · dsimp only
    rw [Os.osEventTaskRdyAll_withFree]
    rfl
  · rw [Os.osEventTaskRdy_withFree]
    rfl

theorem blind_semPost : Blind (osSemPostSection e) s := by
  refine .ite (fun _ _ => Iff.rfl) (fun _ => .of_eq fun l q => ?_) fun _ => ?_
  · rw [Os.osEventTaskRdy_withFree]
    rfl
  · exact .ite (fun _ _ => Iff.rfl) (fun _ => .of_eq fun _ _ => rfl) fun _ => .of_eq fun _ _ => rfl

theorem blind_qPostOpt (pmsg : Ptr) (opt : PostOpt) : Blind (osQPostOptSection e pmsg opt) s := by
  refine .ite (fun _ _ => Iff.rfl) (fun _ => ?_) fun _ => ?_
  · have hrdy : ∀ l q, (if opt.broadcast then
        (Os.osEventTaskRdyAll e pmsg statQ .ok 64 (s.withFree l q)).1
        else (s.withFree l q).osEventTaskRdy e pmsg statQ .ok) =
          (if opt.broadcast then (Os.osEventTaskRdyAll e pmsg statQ .ok 64 s).1
            else s.osEventTaskRdy e pmsg statQ .ok).withFree l q := by
      intro l q
      rw [Os.osEventTaskRdyAll_withFree, Os.osEventTaskRdy_withFree, apply_ite (Os.withFree l q)]
    refine .ite (fun _ _ => Iff.rfl) (fun _ => .of_eq fun l q => ?_) fun _ => .of_eq fun l q => ?_
    · rw [hrdy]
      rfl
    · rw [hrdy]
      rfl
  · refine .ite (fun _ _ => Iff.rfl) (fun _ => .of_eq fun _ _ => rfl) fun _ => ?_
    exact .ite (fun _ _ => Iff.rfl) (fun _ => .of_eq fun _ _ => rfl) fun _ => .of_eq fun _ _ => rfl

theorem blind_semSet (cnt : UInt16) : Blind (osSemSetSection e cnt) s :=
  .ite (fun _ _ => Iff.rfl) (fun _ => .of_eq fun _ _ => rfl) fun _ =>
    .ite (fun _ _ => Iff.rfl) (fun _ => .of_eq fun _ _ => rfl) fun _ => .of_eq fun _ _ => rfl

theorem blind_timeDlyResume : Blind (osTimeDlyResume p) s := by
  refine .ite (fun _ _ => Iff.rfl) (fun _ => .of_eq fun _ _ => rfl) fun _ => ?_
  refine .ite (fun _ _ => Iff.rfl) (fun _ => .of_eq fun _ _ => rfl) fun _ => ?_
  refine .ite (fun _ _ => Iff.rfl) (fun _ => .of_eq fun _ _ => rfl) fun _ => ?_
  refine .ite (fun l q => ?_) (fun _ => .of_eq fun l q => ?_) fun _ => .of_eq fun l q => ?_
  · rw [Os.wake_withFree]
    rfl
  · rw [Os.wake_withFree]
    rfl
  · rw [Os.wake_withFree]
    rfl

theorem blind_taskDel (prio : Option Prio) : Blind (osTaskDel prio) s := by
  refine .ite (fun _ _ => Iff.rfl) (fun _ => .of_eq fun _ _ => rfl) fun _ => ?_
  refine .ite (fun _ _ => Iff.rfl) (fun _ => .of_eq fun _ _ => rfl) fun _ => ?_
  refine .ite (fun _ _ => Iff.rfl) (fun _ => .of_eq fun _ _ => rfl) fun _ => .of_eq fun l q => ?_
  let p := prio.getD s.osPrioCur
  have h := apply_ite (Os.withFree l q) ((s.osTcb p).osTcbEventPtr ≠ 0)
    ((s.makeUnready p).osEventTaskRemove p (s.osTcb p).osTcbEventPtr) (s.makeUnready p)
  exact congrArg (fun s' : Os =>
    let s' := s'.setTcb p
      { s'.osTcb p with osTcbDly := 0, osTcbStat := 0#8, osTcbStatPend := .ok }
    { s' with
      osTcbPrioTbl := Function.update s'.osTcbPrioTbl p false
      osTcbList := s'.osTcbList.erase p
      osTcbFree := s'.osTcbFree + 1 }.thenSched .none 0) h.symm

/-- **A critical section is blind for the free lists.** -/
theorem Call.blind_critical (c : Call) (hc : c.creates = false) : Blind c.critical s := by
  cases c with
  | semAccept pevent =>
    exact .ite (fun _ _ => Iff.rfl) (fun _ => .of_eq fun _ _ => rfl) fun _ => .of_eq fun _ _ => rfl
  | semCreate cnt => cases hc
  | semDel pevent opt => exact blind_semDel opt
  | semPend pevent timeout => exact blind_semPend timeout
  | semPendAbort pevent broadcast => exact blind_semPendAbort broadcast
  | semPost pevent => exact blind_semPost
  | semSet pevent cnt => exact blind_semSet cnt
  | qAccept pevent =>
    exact .ite (fun _ _ => Iff.rfl) (fun _ => .of_eq fun _ _ => rfl) fun _ => .of_eq fun _ _ => rfl
  | qCreate start size => cases hc
  | qDel pevent opt => exact blind_qDel opt
  | qFlush pevent =>
    exact .ite (fun _ _ => Iff.rfl) (fun _ => .of_eq fun _ _ => rfl) fun _ => .of_eq fun _ _ => rfl
  | qPend pevent timeout => exact blind_qPend timeout
  | qPendAbort pevent broadcast => exact blind_qPendAbort broadcast
  | qPostOpt pevent pmsg opt => exact blind_qPostOpt pmsg opt
  | timeDly ticks =>
    refine .ite (fun _ _ => Iff.rfl) (fun _ => .of_eq fun _ _ => rfl) fun _ => ?_
    refine .ite (fun _ _ => Iff.rfl) (fun _ => .of_eq fun _ _ => rfl) fun _ => ?_
    exact .ite (fun _ _ => Iff.rfl) (fun _ => .of_eq fun _ _ => rfl) fun _ => .of_eq fun _ _ => rfl
  | timeDlyResume prio => exact blind_timeDlyResume
  | taskSuspend prio =>
    refine .ite (fun _ _ => Iff.rfl) (fun _ => .of_eq fun _ _ => rfl) fun _ => ?_
    exact .ite (fun _ _ => Iff.rfl) (fun _ => .of_eq fun _ _ => rfl) fun _ => .of_eq fun _ _ => rfl
  | taskResume prio =>
    refine .ite (fun _ _ => Iff.rfl) (fun _ => .of_eq fun _ _ => rfl) fun _ => ?_
    refine .ite (fun _ _ => Iff.rfl) (fun _ => ?_) fun _ => .of_eq fun _ _ => rfl
    refine .ite (fun _ _ => Iff.rfl) (fun _ => ?_) fun _ => .of_eq fun _ _ => rfl
    exact .ite (fun _ _ => Iff.rfl) (fun _ => .of_eq fun _ _ => rfl) fun _ => .of_eq fun _ _ => rfl
  | taskCreate prio =>
    refine .ite (fun _ _ => Iff.rfl) (fun _ => .of_eq fun _ _ => rfl) fun _ => ?_
    refine .ite (fun _ _ => Iff.rfl) (fun _ => .of_eq fun _ _ => rfl) fun _ => ?_
    exact .ite (fun _ _ => Iff.rfl) (fun _ => .of_eq fun _ _ => rfl) fun _ => .of_eq fun _ _ => rfl
  | taskDel prio => exact blind_taskDel prio
  | schedLock =>
    exact .ite (fun _ _ => Iff.rfl) (fun _ => .of_eq fun _ _ => rfl) fun _ => .of_eq fun _ _ => rfl
  | schedUnlock =>
    refine .ite (fun _ _ => Iff.rfl) (fun _ => ?_) fun _ => .of_eq fun _ _ => rfl
    exact .ite (fun _ _ => Iff.rfl) (fun _ => .of_eq fun _ _ => rfl) fun _ => .of_eq fun _ _ => rfl

/-- **A call is, but for a creation by a task.** -/
theorem Call.blind_exec (c : Call) (hc : c.creates = true → s.osIntNesting ≠ 0) : Blind c.exec s := by
  cases c with
  | semCreate cnt =>
    exact .ite (fun _ _ => Iff.rfl) (fun _ => .of_eq fun _ _ => rfl)
      fun h => absurd (Nat.pos_of_ne_zero (hc rfl)) h
  | qCreate start size =>
    exact .ite (fun _ _ => Iff.rfl) (fun _ => .of_eq fun _ _ => rfl)
      fun h => absurd (Nat.pos_of_ne_zero (hc rfl)) h
  | semAccept pevent =>
    exact .ite (fun _ _ => Iff.rfl) (fun _ => .of_eq fun _ _ => rfl)
      fun _ => (Call.semAccept pevent).blind_critical rfl
  | semDel pevent opt =>
    exact .ite (fun _ _ => Iff.rfl) (fun _ => .of_eq fun _ _ => rfl) fun _ => blind_semDel opt
  | semPend pevent timeout =>
    exact .ite (fun _ _ => Iff.rfl) (fun _ => .of_eq fun _ _ => rfl) fun _ => blind_semPend timeout
  | semPendAbort pevent broadcast =>
    exact .ite (fun _ _ => Iff.rfl) (fun _ => .of_eq fun _ _ => rfl) fun _ => blind_semPendAbort broadcast
  | semPost pevent =>
    exact .ite (fun _ _ => Iff.rfl) (fun _ => .of_eq fun _ _ => rfl) fun _ => blind_semPost
  | semSet pevent cnt =>
    exact .ite (fun _ _ => Iff.rfl) (fun _ => .of_eq fun _ _ => rfl) fun _ => blind_semSet cnt
  | qAccept pevent =>
    exact .ite (fun _ _ => Iff.rfl) (fun _ => .of_eq fun _ _ => rfl)
      fun _ => (Call.qAccept pevent).blind_critical rfl
  | qDel pevent opt =>
    exact .ite (fun _ _ => Iff.rfl) (fun _ => .of_eq fun _ _ => rfl) fun _ => blind_qDel opt
  | qPend pevent timeout =>
    exact .ite (fun _ _ => Iff.rfl) (fun _ => .of_eq fun _ _ => rfl) fun _ => blind_qPend timeout
  | qPendAbort pevent broadcast =>
    exact .ite (fun _ _ => Iff.rfl) (fun _ => .of_eq fun _ _ => rfl) fun _ => blind_qPendAbort broadcast
  | qPostOpt pevent pmsg opt =>
    exact .ite (fun _ _ => Iff.rfl) (fun _ => .of_eq fun _ _ => rfl) fun _ => blind_qPostOpt pmsg opt
  | qFlush pevent => exact (Call.qFlush pevent).blind_critical rfl
  | timeDly ticks => exact (Call.timeDly ticks).blind_critical rfl
  | timeDlyResume prio => exact blind_timeDlyResume
  | taskSuspend prio => exact (Call.taskSuspend prio).blind_critical rfl
  | taskResume prio => exact (Call.taskResume prio).blind_critical rfl
  | taskCreate prio => exact (Call.taskCreate prio).blind_critical rfl
  | taskDel prio => exact blind_taskDel prio
  | schedLock => exact Call.schedLock.blind_critical rfl
  | schedUnlock => exact Call.schedUnlock.blind_critical rfl

/-! ## The steps -/

theorem pendLeave_withFree (type : ObjType) :
    pendLeave type e (s.withFree l q) = (pendLeave type e s).withFree l q := by
  have hsem : osSemPendLeave e (s.withFree l q) = (osSemPendLeave e s).withFree l q := by
    unfold osSemPendLeave
    rw [Os.pendEnd_withFree]
    rfl
  cases type with
  | q =>
    show osQPendLeave e (s.withFree l q) = (osQPendLeave e s).withFree l q
    unfold osQPendLeave
    dsimp only
    rw [Os.pendEnd_withFree]
    rfl
  | unused => exact hsem
  | mbox => exact hsem
  | sem => exact hsem
  | mutex => exact hsem

theorem Sys.go_withFree : (y.withFree l q).go = (y.go.1.withFree l q, y.go.2) := by
  unfold Sys.go
  dsimp only [Sys.withFree, Os.osPrioCur_withFree]
  cases y.cont y.os.osPrioCur with
  | run => rfl
  | sched => exact congrArg (fun os : Os => ((⟨os, _⟩ : Sys), _)) Os.osSched_withFree
  | pend type pevent => exact congrArg (fun os : Os => ((⟨os, _⟩ : Sys), _)) Os.osSched_withFree
  | leave type pevent =>
    dsimp only
    rw [pendLeave_withFree]
    rfl

/-- A call of the task which runs, with other free lists. -/
theorem Sys.callTask_withFree (c : Call) (hc : c.creates = false) : ∃ events queues : List Nat, ∀ l q,
    (y.withFree l q).callTask c =
      ((y.callTask c).1.withFree (events ++ l) (queues ++ q), (y.callTask c).2) := by
  obtain ⟨events, queues, hblind⟩ := c.blind_exec (s := y.os) fun h => by rw [hc] at h; cases h
  refine ⟨events, queues, fun l q => ?_⟩
  unfold Sys.callTask
  dsimp only [Sys.withFree]
  rw [hblind]
  rfl

theorem Sys.callIsr_withFree (c : Call) (hnest : y.os.osIntNesting ≠ 0) :
    ∃ events queues : List Nat, ∀ l q,
      (y.withFree l q).callIsr c =
        ((y.callIsr c).1.withFree (events ++ l) (queues ++ q), (y.callIsr c).2) := by
  obtain ⟨events, queues, hblind⟩ := c.blind_exec (s := y.os) fun _ => hnest
  refine ⟨events, queues, fun l q => ?_⟩
  unfold Sys.callIsr
  dsimp only [Sys.withFree]
  rw [hblind]
  rfl

/-- **A step which is no creation by a task does the same with other free lists.** -/
theorem Sys.step_withFree (i : Input)
    (hi : ∀ c, i = .call c → c.creates = true → y.os.osIntNesting ≠ 0) :
    ∃ events queues : List Nat, ∀ l q,
      (y.withFree l q).step i = ((y.step i).1.withFree (events ++ l) (queues ++ q), (y.step i).2) := by
  cases i with
  | call c =>
    unfold Sys.step
    dsimp only
    by_cases hnest : y.os.osIntNesting > 0
    · obtain ⟨events, queues, h⟩ := y.callIsr_withFree c (Nat.ne_of_gt hnest)
      refine ⟨events, queues, fun l q => ?_⟩
      rw [if_pos hnest, ← h]
      exact if_pos hnest
    · by_cases htask : y.atTask ∧ y.cont y.os.osPrioCur = .run
      · have hc : c.creates = false := Bool.eq_false_iff.mpr fun h =>
          hnest (Nat.pos_of_ne_zero (hi c rfl h))
        obtain ⟨events, queues, h⟩ := y.callTask_withFree c hc
        refine ⟨events, queues, fun l q => ?_⟩
        rw [if_neg hnest, if_pos htask, ← h]
        exact (if_neg hnest).trans (if_pos htask)
      · refine ⟨[], [], fun l q => ?_⟩
        rw [if_neg hnest, if_neg htask]
        exact (if_neg hnest).trans (if_neg htask)
  | go =>
    refine ⟨[], [], fun l q => ?_⟩
    show (if y.atTask then (y.withFree l q).go else (y.withFree l q, [])) = _
    rw [Sys.go_withFree]
    unfold Sys.step
    dsimp only
    split <;> rfl
  | intEnter =>
    exact ⟨[], [], fun l q =>
      congrArg (fun os : Os => (({ y with os := os } : Sys), ([] : List Out))) Os.osIntEnter_withFree⟩
  | tick =>
    refine ⟨[], [], fun l q => ?_⟩
    show (if y.os.osIntNesting > 0 then ({ y with os := (y.os.withFree l q).osTimeTick }, [])
      else (y.withFree l q, [])) = _
    rw [Os.osTimeTick_withFree]
    unfold Sys.step
    dsimp only
    split <;> rfl
  | intExit =>
    refine ⟨[], [], fun l q => ?_⟩
    show (if y.os.osIntNesting > 0 then ({ y with os := (y.os.withFree l q).osIntExit }, [])
      else (y.withFree l q, [])) = _
    rw [Os.osIntExit_withFree]
    unfold Sys.step
    dsimp only
    split <;> rfl
  | pendSv =>
    refine ⟨[], [], fun l q => ?_⟩
    show (if y.os.osIntNesting = 0 ∧ y.os.pendSv then
      ({ y with os := (y.os.withFree l q).pendSvHandler }, []) else (y.withFree l q, [])) = _
    unfold Sys.step
    dsimp only
    split <;> rfl

end PlcFirmware.Ucos
