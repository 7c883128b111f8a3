import PlcFirmware.Ucos.Scheduling

/-!
# Tasks in a pend

A task in a pend on an event is in its wait list, or something has been handed to it and it has not run
since. What is handed to it stays with it, whatever other tasks and interrupts do.

* `Pends`, `Handed` — where a task in a pend is
* `Keeps` — nothing is handed to it, and nothing taken away
* `Call.keeps` — only a post to its event hands something to a task
-/

namespace PlcFirmware.Ucos

open Infra

/-- A task in a pend on the event. -/
def Pends (s : Os) (e : Nat) (p : Prio) : Prop :=
  (s.osEvent e).wait.has p = true ∨ (s.osTcb p).osTcbEventPtr = 0 ∧ (s.osTcb p).osTcbDly = 0

/-- What a task in a pend waits for has been handed to it. -/
def Handed (s : Os) (p : Prio) : Prop :=
  (s.osTcb p).osTcbEventPtr = 0 ∧ (s.osTcb p).osTcbStatPend = .ok

instance (s : Os) (p : Prio) : Decidable (Handed s p) := inferInstanceAs (Decidable (_ ∧ _))

/-- To a task in a pend on the event nothing has been handed, and nothing taken away from it. -/
structure Keeps (s s' : Os) (e : Nat) (p : Prio) : Prop where
  pends : Pends s e p → Pends s' e p
  handed : Pends s e p → (Handed s' p ↔ Handed s p)
  msg : Pends s e p → Handed s p → (s'.osTcb p).osTcbMsg = (s.osTcb p).osTcbMsg
  wait : (s'.osEvent e).wait.has p = true → (s.osEvent e).wait.has p = true
  tbl : s'.osTcbPrioTbl p = s.osTcbPrioTbl p

variable {s s' s'' : Os} {p q : Prio} {e pevent : Nat}

/-- A task in the wait list has been handed nothing. -/
theorem Lists.not_handed (h : Lists s) (hw : (s.osEvent e).wait.has p = true) : ¬Handed s p := by
  have hwaits := (h.task p).waiting e hw
  exact fun hh => hwaits.ne_zero (hwaits.ptr.symm.trans hh.1)

namespace Keeps

theorem refl (s : Os) (e : Nat) (p : Prio) : Keeps s s e p := ⟨id, fun _ => Iff.rfl, fun _ _ => rfl, id, rfl⟩

theorem trans (h : Keeps s s' e p) (h' : Keeps s' s'' e p) : Keeps s s'' e p where
  pends hp := h'.pends (h.pends hp)
  handed hp := (h'.handed (h.pends hp)).trans (h.handed hp)
  msg hp hh := (h'.msg (h.pends hp) ((h.handed hp).mpr hh)).trans (h.msg hp hh)
  wait hw := h.wait (h'.wait hw)
  tbl := h'.tbl.trans h.tbl

/-- The fields which matter have not changed. -/
theorem congr (hptr : (s'.osTcb p).osTcbEventPtr = (s.osTcb p).osTcbEventPtr)
    (hdly : (s'.osTcb p).osTcbDly = (s.osTcb p).osTcbDly)
    (hpend : (s'.osTcb p).osTcbStatPend = (s.osTcb p).osTcbStatPend)
    (hmsg : (s'.osTcb p).osTcbMsg = (s.osTcb p).osTcbMsg)
    (hwait : (s'.osEvent e).wait.has p = (s.osEvent e).wait.has p)
    (htbl : s'.osTcbPrioTbl p = s.osTcbPrioTbl p) : Keeps s s' e p where
  pends := by
    unfold Pends
    rw [hptr, hdly, hwait]
    exact id
  handed _ := by
    unfold Handed
    rw [hptr, hpend]
  msg _ _ := hmsg
  wait hw := by rw [← hwait]; exact hw
  tbl := htbl

/-- Nothing has happened to the task. -/
theorem of_same (h : SameAt s s' p) (e : Nat) : Keeps s s' e p :=
  congr (by rw [h.tcb]) (by rw [h.tcb]) (by rw [h.tcb]) (by rw [h.tcb]) (h.wait e) h.tbl

/-- Only counts and buffers have changed. -/
theorem of_tcb (htcb : s'.osTcb = s.osTcb) (hwait : (s'.osEvent e).wait = (s.osEvent e).wait)
    (htbl : s'.osTcbPrioTbl = s.osTcbPrioTbl) : Keeps s s' e p :=
  congr (by rw [htcb]) (by rw [htcb]) (by rw [htcb]) (by rw [htcb]) (by rw [hwait]) (by rw [htbl])

/-- A change of the control block which leaves the fields which matter. -/
theorem setTcb {tcb : Tcb} (hptr : tcb.osTcbEventPtr = (s.osTcb q).osTcbEventPtr)
    (hdly : tcb.osTcbDly = (s.osTcb q).osTcbDly)
    (hpend : tcb.osTcbStatPend = (s.osTcb q).osTcbStatPend)
    (hmsg : tcb.osTcbMsg = (s.osTcb q).osTcbMsg) : Keeps s (s.setTcb q tcb) e p := by
  by_cases hp : p = q
  · subst hp
    refine congr ?_ ?_ ?_ ?_ rfl rfl
    · rw [osTcb_setTcb, hptr]
    · rw [osTcb_setTcb, hdly]
    · rw [osTcb_setTcb, hpend]
    · rw [osTcb_setTcb, hmsg]
  · exact of_same (.setTcb s _ hp) e

theorem setCnt (s : Os) (pevent cnt : Nat) : Keeps s (s.setCnt pevent cnt) e p := by
  refine of_tcb rfl ?_ rfl
  by_cases he : e = pevent
  · subst he
    simp [Os.setCnt]
  · simp [Os.setCnt, he]

/-- A task which waits is taken out of the wait list, and gets no more than the status of the pend. -/
theorem rdy (h : Lists s) (hne : (s.osEvent pevent).wait.grp ≠ 0#8) (pmsg : Ptr) (msk : BitVec 8)
    (stat : PendStat) (hother : e = pevent → stat ≠ .ok) :
    Keeps s (s.osEventTaskRdy pevent pmsg msk stat) e p := by
  by_cases hp : p = (s.osEvent pevent).wait.highest
  · have hmono : ((s.osEventTaskRdy pevent pmsg msk stat).osEvent e).wait.has p = true →
        (s.osEvent e).wait.has p = true := by
      rw [wait_osEventTaskRdy]
      split
      · rw [PrioTbl.has_drop, if_pos hp]
        exact fun hw => by cases hw
      · exact id
    have htbl : (s.osEventTaskRdy pevent pmsg msk stat).osTcbPrioTbl p = s.osTcbPrioTbl p := by
      rw [(Moves.osEventTaskRdy s pevent pmsg msk stat).tbl]
    have hwait := h.highest_waits hne
    rw [← hp] at hwait
    have hw := (h.task p).waiting pevent hwait
    have htcb := osTcb_osEventTaskRdy s pevent pmsg msk stat
    rw [← hp] at htcb
    by_cases he : e = pevent
    · have hno : ¬Handed s p := h.not_handed hwait
      refine ⟨fun _ => Or.inr (by rw [htcb]; exact ⟨rfl, rfl⟩), fun _ => iff_of_false ?_ hno,
        fun _ hh => absurd hh hno, hmono, htbl⟩
      intro hh
      have hstat := hh.2
      rw [htcb] at hstat
      exact hother he hstat
    · -- it waits for another event
      have hno : ¬Pends s e p := by
        rintro (hin | ⟨h0, -⟩)
        · rw [(h.task p).wait_false (Or.inr hw.ptr) he] at hin
          cases hin
        · exact hw.ne_zero (hw.ptr.symm.trans h0)
      exact ⟨fun hin => absurd hin hno, fun hin => absurd hin hno, fun hin => absurd hin hno,
        hmono, htbl⟩
  · exact of_same (.osEventTaskRdy s pevent pmsg msk stat hp) e

theorem rdyAll (h : Lists s) (hmsk : (s.osEvent pevent).osEventType.stat = msk) (pmsg : Ptr)
    (stat : PendStat) (hother : e = pevent → stat ≠ .ok) (rounds : Nat) :
    Keeps s (Os.osEventTaskRdyAll pevent pmsg msk stat rounds s).1 e p := by
  induction rounds generalizing s with
  | zero => exact refl s e p
  | succ rounds ih =>
    unfold Os.osEventTaskRdyAll
    split
    · exact refl s e p
    · next hne =>
      refine (rdy h hne pmsg msk stat hother).trans (ih ?_ ?_)
      · subst hmsk
        exact h.osEventTaskRdy hne pmsg stat
      · rw [(Moves.osEventTaskRdy s pevent pmsg msk stat).type, hmsk]

/-- The end of a delay is not the end of a pend whose task has been handed something. -/
theorem wake (h : Lists s) (hdly : (s.osTcb q).osTcbDly ≠ 0) : Keeps s (s.wake q) e p := by
  by_cases hp : p = q
  · subst hp
    have hptr : ((s.wake p).osTcb p).osTcbEventPtr = (s.osTcb p).osTcbEventPtr := by
      rw [osTcb_wake]
      rfl
    have hin : Pends s e p → (s.osEvent e).wait.has p = true :=
      fun hpend => hpend.resolve_right fun hd => hdly hd.2
    have hno : Pends s e p → ¬Handed s p := fun hpend => h.not_handed (hin hpend)
    refine ⟨fun hpend => Or.inl ?_, fun hpend => iff_of_false ?_ (hno hpend),
      fun hpend hh => absurd hh (hno hpend), fun hw => by rwa [osEvent_wake] at hw,
      by rw [(Moves.wake s p).tbl]⟩
    · rw [osEvent_wake]
      exact hin hpend
    · intro hh
      have hw := (h.task p).waiting e (hin hpend)
      exact hw.ne_zero (hw.ptr.symm.trans (hptr.symm.trans hh.1))
  · exact of_same (.wake s hp) e

theorem tickTask (h : Lists s) (q : Prio) : Keeps s (s.tickTask q) e p := by
  unfold Os.tickTask
  dsimp only
  split
  · exact refl s e p
  · next hdly =>
    split
    · exact wake h hdly
    · next h1 =>
      by_cases hp : p = q
      · subst hp
        -- a task whose delay still runs has been handed nothing
        have hin : Pends s e p → (s.osEvent e).wait.has p = true :=
          fun hpend => hpend.resolve_right fun hd => hdly hd.2
        refine ⟨fun hpend => Or.inl (hin hpend), fun _ => ?_, fun _ _ => ?_, id, rfl⟩
        · unfold Handed
          rw [osTcb_setTcb]
        · rw [osTcb_setTcb]
      · exact of_same (.setTcb s _ hp) e

end Keeps

/-! ## Calls -/

/-- The event to which a call posts. -/
def Call.postsTo : Call → Option Nat
  | .semPost pevent | .qPostOpt pevent _ _ => some pevent
  | _ => none

/-- Only the task itself goes into a wait list. -/
theorem SameAt.pendWait (s : Os) (msk : BitVec 8) (pevent timeout : Nat) (h : p ≠ s.osPrioCur) :
    SameAt s (s.pendWait msk pevent timeout) p :=
  (((SameAt.setTcb s _ h).trans (.setTcb _ _ h)).trans
    (.setWait (PrioTbl.has_put.trans (if_neg h)))).trans (.makeUnready _ h)

namespace Keeps

theorem freeEvent (s : Os) (pevent : Nat) : Keeps s (s.freeEvent pevent) e p := by
  refine of_tcb rfl ?_ rfl
  by_cases he : e = pevent
  · subst he
    simp [Os.freeEvent]
  · simp [Os.freeEvent, he]

theorem freeQ (s : Os) (pevent : Nat) : Keeps s ((s.freeQ pevent).freeEvent pevent) e p :=
  have h : Keeps s (s.freeQ pevent) e p := of_tcb rfl rfl rfl
  h.trans (freeEvent _ pevent)

/-- A free event, on which nobody waits, becomes an object, on which nobody waits yet. -/
theorem create (h : Good s) (hfree : pevent ∈ s.osEventFreeList) {ev : Event}
    (htcb : s'.osTcb = s.osTcb) (hev : s'.osEvent = Function.update s.osEvent pevent ev)
    (hempty : ev.wait = BitTable.empty) (htbl : s'.osTcbPrioTbl = s.osTcbPrioTbl) :
    Keeps s s' e p := by
  refine congr (by rw [htcb]) (by rw [htcb]) (by rw [htcb]) (by rw [htcb]) ?_ (by rw [htbl])
  rw [hev]
  by_cases he : e = pevent
  · subst he
    rw [h.unused_wait hfree p, Function.update_self, hempty]
    exact PrioTbl.has_empty
  · rw [Function.update_of_ne he]

end Keeps

section Calls

theorem keeps_semDel (h : Caller s) (opt : DelOpt) : Keeps s (osSemDel pevent opt s).os e p := by
  unfold osSemDel osSemDelSection
  split
  · exact .refl s e p
  · next htype =>
    split
    · exact .refl s e p
    · cases opt with
      | noPend =>
        dsimp only
        split
        · exact .refl s e p
        · exact .freeEvent s pevent
      | always =>
        have hmsk : (s.osEvent pevent).osEventType.stat = statSem := by rw [not_not.mp htype]; rfl
        have hall := (Keeps.rdyAll (p := p) (e := e) h.good.lists hmsk 0 .abort
          (fun _ => by decide) 64).trans (.freeEvent _ pevent)
        dsimp only
        split
        · exact hall
        · exact hall
      | other => exact .refl s e p

theorem keeps_qDel (h : Caller s) (opt : DelOpt) : Keeps s (osQDel pevent opt s).os e p := by
  unfold osQDel osQDelSection
  split
  · exact .refl s e p
  · next htype =>
    split
    · exact .refl s e p
    · cases opt with
      | noPend =>
        dsimp only
        split
        · exact .refl s e p
        · exact .freeQ s pevent
      | always =>
        have hmsk : (s.osEvent pevent).osEventType.stat = statQ := by rw [not_not.mp htype]; rfl
        have hall := (Keeps.rdyAll (p := p) (e := e) h.good.lists hmsk 0 .abort
          (fun _ => by decide) 64).trans (.freeQ _ pevent)
        dsimp only
        split
        · exact hall
        · exact hall
      | other => exact .refl s e p

/-- Both aborts give the status of an abort to one task or to all. -/
theorem keeps_abort (h : Caller s) {t : ObjType} (htype : (s.osEvent pevent).osEventType = t)
    (hne : (s.osEvent pevent).wait.grp ≠ 0#8) :
    Keeps s (Os.osEventTaskRdyAll pevent 0 t.stat .abort 64 s).1 e p ∧
      Keeps s (s.osEventTaskRdy pevent 0 t.stat .abort) e p :=
  ⟨.rdyAll h.good.lists (by rw [htype]) 0 .abort (fun _ => by decide) 64,
    .rdy h.good.lists hne 0 _ .abort (fun _ => by decide)⟩

theorem keeps_semPendAbort (h : Caller s) (broadcast : Bool) :
    Keeps s (osSemPendAbort pevent broadcast s).os e p := by
  unfold osSemPendAbort osSemPendAbortSection
  split
  · exact .refl s e p
  · next htype =>
    split
    · next hne =>
      obtain ⟨hall, hone⟩ := keeps_abort (e := e) (p := p) h (t := .sem) (not_not.mp htype) hne
      split
      · exact hall
      · exact hone
    · exact .refl s e p

theorem keeps_qPendAbort (h : Caller s) (broadcast : Bool) : Keeps s (osQPendAbort pevent broadcast s).os e p := by
  unfold osQPendAbort osQPendAbortSection
  split
  · exact .refl s e p
  · next htype =>
    split
    · next hne =>
      obtain ⟨hall, hone⟩ := keeps_abort (e := e) (p := p) h (t := .q) (not_not.mp htype) hne
      split
      · exact hall
      · exact hone
    · exact .refl s e p

theorem keeps_semPost (h : Caller s) (hpost : e = pevent → (s.osEvent e).wait.grp = 0#8) :
    Keeps s (osSemPost pevent s).os e p := by
  unfold osSemPost osSemPostSection
  split
  · exact .refl s e p
  · split
    · next hne =>
      refine .rdy h.good.lists hne 0 _ .ok fun he => absurd (hpost he) ?_
      rw [he]
      exact hne
    · dsimp only
      split
      · exact .setCnt s _ _
      · exact .refl s e p

theorem keeps_qPostOpt (h : Caller s) (pmsg : Ptr) {opt : PostOpt}
    (hpost : e = pevent → (s.osEvent e).wait.grp = 0#8) :
    Keeps s (osQPostOpt pevent pmsg opt s).os e p := by
  unfold osQPostOpt osQPostOptSection
  split
  · exact .refl s e p
  · next htype =>
    have hmsk : (s.osEvent pevent).osEventType.stat = statQ := by rw [not_not.mp htype]; rfl
    split
    · next hne =>
      have hok : e = pevent → PendStat.ok ≠ .ok := by
        rintro rfl
        exact absurd (hpost rfl) hne
      have hboth : Keeps s (if opt.broadcast then (Os.osEventTaskRdyAll pevent pmsg statQ .ok 64 s).1
          else s.osEventTaskRdy pevent pmsg statQ .ok) e p := by
        split
        · exact .rdyAll h.good.lists hmsk pmsg .ok hok 64
        · exact .rdy h.good.lists hne pmsg _ .ok hok
      dsimp only
      split
      · exact hboth
      · exact hboth
    · dsimp only
      split
      · exact .refl s e p
      · split
        · exact .of_tcb rfl rfl rfl
        · exact .of_tcb rfl rfl rfl

theorem keeps_semPend (hself : s.osIntNesting = 0 → p ≠ s.osPrioCur) (timeout : Nat) :
    Keeps s (osSemPend pevent timeout s).os e p := by
  unfold osSemPend osSemPendSection
  split
  · exact .refl s e p
  · split
    · exact .refl s e p
    · next hnest =>
      split
      · exact .refl s e p
      · dsimp only
        split
        · exact .setCnt s _ _
        · exact .of_same (.pendWait s _ _ _ (hself (Nat.eq_zero_of_not_pos hnest))) e

theorem keeps_qPend (hself : s.osIntNesting = 0 → p ≠ s.osPrioCur) (timeout : Nat) :
    Keeps s (osQPend pevent timeout s).os e p := by
  unfold osQPend osQPendSection
  split
  · exact .refl s e p
  · split
    · exact .refl s e p
    · next hnest =>
      split
      · exact .refl s e p
      · split
        · exact .of_tcb rfl rfl rfl
        · exact .of_same (.pendWait s _ _ _ (hself (Nat.eq_zero_of_not_pos hnest))) e

theorem keeps_semCreate (h : Caller s) (cnt : UInt16) :
    Keeps s (osSemCreate cnt s).os e p := by
  unfold osSemCreate osSemCreateFill
  split
  · exact .refl s e p
  · split
    · exact .refl s e p
    · next hfree => exact .create h.good (by rw [hfree]; exact List.mem_cons_self) rfl rfl rfl rfl

theorem keeps_qCreate (h : Caller s) (start size : Nat) :
    Keeps s (osQCreate start size s).os e p := by
  unfold osQCreate osQCreateFill
  split
  · exact .refl s e p
  · split
    · next hfree _ => exact .create h.good (by rw [hfree]; exact List.mem_cons_self) rfl rfl rfl rfl
    · exact .refl s e p

theorem keeps_timeDly (hself : s.osIntNesting = 0 → p ≠ s.osPrioCur) (ticks : Nat) :
    Keeps s (osTimeDly ticks s).os e p := by
  unfold osTimeDly
  split
  · exact .refl s e p
  · next hnest =>
    split
    · exact .refl s e p
    · split
      · have hp := hself (Nat.eq_zero_of_not_pos hnest)
        exact .of_same ((SameAt.makeUnready s hp).trans (.setTcb _ _ hp)) e
      · exact .refl s e p

theorem keeps_timeDlyResume (h : Caller s) (prio : Prio) : Keeps s (osTimeDlyResume prio s).os e p := by
  unfold osTimeDlyResume
  split
  · exact .refl s e p
  · split
    · exact .refl s e p
    · split
      · exact .refl s e p
      · next hdly =>
        have hwake := Keeps.wake (e := e) (p := p) h.good.lists hdly
        dsimp only
        split
        · exact hwake
        · exact hwake

theorem keeps_taskSuspend (prio : Option Prio) : Keeps s (osTaskSuspend prio s).os e p := by
  unfold osTaskSuspend
  dsimp only
  generalize prio.getD s.osPrioCur = q
  have hunready : Keeps s (s.makeUnready q) e p := .of_tcb rfl rfl rfl
  have hsusp : Keeps s ((s.makeUnready q).setTcb q
      { s.osTcb q with osTcbStat := (s.osTcb q).osTcbStat ||| statSuspend }) e p :=
    hunready.trans (.setTcb rfl rfl rfl rfl)
  split
  · exact .refl s e p
  · split
    · exact hsusp
    · exact hsusp

theorem keeps_taskResume (prio : Prio) : Keeps s (osTaskResume prio s).os e p := by
  unfold osTaskResume
  have hres : Keeps s (s.setTcb prio { s.osTcb prio with
      osTcbStat := (s.osTcb prio).osTcbStat &&& ~~~statSuspend }) e p := .setTcb rfl rfl rfl rfl
  split
  · exact .refl s e p
  · dsimp only
    split
    · split
      · split
        · exact hres.trans (.of_tcb rfl rfl rfl)
        · exact hres
      · exact hres
    · exact .refl s e p

theorem keeps_taskCreate {prio : Prio}
    (hnew : p = prio → (osTaskCreate prio s).res.map Res.err ≠ some .none) :
    Keeps s (osTaskCreate prio s).os e p := by
  unfold osTaskCreate at hnew ⊢
  split
  · exact .refl s e p
  · next hnest =>
    rw [if_neg hnest] at hnew
    split
    · exact .refl s e p
    · next htbl =>
      rw [if_neg htbl] at hnew
      split
      · exact .refl s e p
      · next hfree =>
        rw [if_neg hfree] at hnew
        have hp : p ≠ prio := fun he => hnew he rfl
        exact .of_same (.osTcbInit s hp) e

theorem keeps_taskDel (hself : s.osIntNesting = 0 → p ≠ s.osPrioCur) {prio : Option Prio}
    (hdel : prio ≠ some p) : Keeps s (osTaskDel prio s).os e p := by
  unfold osTaskDel
  split
  · exact .refl s e p
  · next hnest =>
    split
    · exact .refl s e p
    · have hp : p ≠ prio.getD s.osPrioCur := by
        cases prio with
        | none => exact hself (Nat.eq_zero_of_not_pos hnest)
        | some q => exact fun he => hdel (congrArg some he.symm)
      dsimp only
      generalize prio.getD s.osPrioCur = q at hp ⊢
      split
      · exact .refl s e p
      · have hremove : SameAt s (if ((s.makeUnready q).osTcb q).osTcbEventPtr ≠ 0
            then (s.makeUnready q).osEventTaskRemove q ((s.makeUnready q).osTcb q).osTcbEventPtr
            else s.makeUnready q) p :=
          .ite ((SameAt.makeUnready s hp).trans (.osEventTaskRemove _ _ hp)) (.makeUnready s hp)
        exact .of_same (hremove.trans (.forget _ hp)) e

/-- **Only a post to its event hands something to a task in a pend.** -/
theorem Call.keeps (h : Caller s) {c : Call} (hself : s.osIntNesting = 0 → p ≠ s.osPrioCur)
    (hpost : c.postsTo = some e → (s.osEvent e).wait.grp = 0#8 ∨ (c.exec s).os = s) (hdel : c ≠ .taskDel (some p))
    (hnew : c = .taskCreate p → (c.exec s).res.map Res.err ≠ some .none) :
    Keeps s (c.exec s).os e p := by
  cases c with
  | semAccept pevent =>
    show Keeps s (osSemAccept pevent s).os e p
    unfold osSemAccept osSemAcceptSection
    split
    · exact .refl s e p
    · dsimp only
      split
      · exact .setCnt s _ _
      · exact .refl s e p
  | semCreate cnt => exact keeps_semCreate h cnt
  | semDel pevent opt => exact keeps_semDel h opt
  | semPend pevent timeout => exact keeps_semPend hself timeout
  | semPendAbort pevent broadcast => exact keeps_semPendAbort h broadcast
  | semPost pevent =>
    by_cases hsame : (osSemPost pevent s).os = s
    · show Keeps s (osSemPost pevent s).os e p
      rw [hsame]
      exact .refl s e p
    · exact keeps_semPost h fun he => (hpost (congrArg some he.symm)).resolve_right hsame
  | semSet pevent cnt =>
    show Keeps s (osSemSet pevent cnt s).os e p
    unfold osSemSet osSemSetSection
    split
    · exact .refl s e p
    · split
      · exact .setCnt s _ _
      · split
        · exact .setCnt s _ _
        · exact .refl s e p
  | qAccept pevent =>
    show Keeps s (osQAccept pevent s).os e p
    unfold osQAccept osQAcceptSection
    split
    · exact .refl s e p
    · split
      · exact .of_tcb rfl rfl rfl
      · exact .refl s e p
  | qCreate start size => exact keeps_qCreate h start size
  | qDel pevent opt => exact keeps_qDel h opt
  | qFlush pevent =>
    show Keeps s (osQFlush pevent s).os e p
    unfold osQFlush
    split
    · exact .refl s e p
    · exact .of_tcb rfl rfl rfl
  | qPend pevent timeout => exact keeps_qPend hself timeout
  | qPendAbort pevent broadcast => exact keeps_qPendAbort h broadcast
  | qPostOpt pevent pmsg opt =>
    by_cases hsame : (osQPostOpt pevent pmsg opt s).os = s
    · show Keeps s (osQPostOpt pevent pmsg opt s).os e p
      rw [hsame]
      exact .refl s e p
    · exact keeps_qPostOpt h pmsg fun he => (hpost (congrArg some he.symm)).resolve_right hsame
  | timeDly ticks => exact keeps_timeDly hself ticks
  | timeDlyResume prio => exact keeps_timeDlyResume h prio
  | taskSuspend prio => exact keeps_taskSuspend prio
  | taskResume prio => exact keeps_taskResume prio
  | taskCreate prio =>
    refine keeps_taskCreate fun he => ?_
    exact hnew (congrArg Call.taskCreate he.symm)
  | taskDel prio => exact keeps_taskDel hself fun he => hdel (congrArg Call.taskDel he)
  | schedLock =>
    show Keeps s (osSchedLock s).os e p
    unfold osSchedLock
    split
    · exact .of_tcb rfl rfl rfl
    · exact .refl s e p
  | schedUnlock =>
    show Keeps s (osSchedUnlock s).os e p
    unfold osSchedUnlock
    split
    · dsimp only
      split
      · exact .of_tcb rfl rfl rfl
      · exact .of_tcb rfl rfl rfl
    · exact .refl s e p

end Calls

end PlcFirmware.Ucos
