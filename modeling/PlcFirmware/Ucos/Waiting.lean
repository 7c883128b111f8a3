import PlcFirmware.Ucos.OtherEvents

/-!
# Where the tasks in a pend are

In every state which the system can reach, a task in a pend is in the wait list of the object which it
waits for, or something has been handed to it; and the object for which it waits is not there.

* `PendOk` — the invariant
* `PendOk.step` — every step keeps it
* `nobody_waits_in_vain` — no task waits for a semaphore with a count or for a queue with messages
-/

namespace PlcFirmware.Ucos

open Infra

theorem Cont.waits_of_event {c : Cont} {e : Nat} (h : c.event = some e) :
    ∃ t, c.waits = some (t, e) := by
  cases c with
  | run => cases h
  | sched => cases h
  | pend type pevent =>
    cases h
    exact ⟨type, rfl⟩
  | leave type pevent =>
    cases h
    exact ⟨type, rfl⟩

/-- The tasks in a pend are where they should be. -/
structure PendOk (y : Sys) : Prop where
  sys : SysOk y
  pends : ∀ p t e, (y.cont p).waits = some (t, e) → Pends y.os e p
  type : ∀ p t e, (y.cont p).waits = some (t, e) → (y.os.osEvent e).wait.has p = true →
    (y.os.osEvent e).osEventType = t
  vain : ∀ p e, y.os.Available e → (y.os.osEvent e).wait.has p = false

variable {y : Sys} {s s' s'' : Os} {p q : Prio} {c : Call} {e pevent : Nat}

/-! ## Calls -/

/-- A task in a pend is where it should be, and nobody else has put it into a wait list. -/
structure Stays (s s' : Os) (e : Nat) (p : Prio) : Prop where
  pends : Pends s e p → Pends s' e p
  wait : (s'.osEvent e).wait.has p = true → (s.osEvent e).wait.has p = true

theorem Keeps.stays (h : Keeps s s' e p) : Stays s s' e p := ⟨h.pends, h.wait⟩

namespace Stays

theorem refl (s : Os) (e : Nat) (p : Prio) : Stays s s e p := ⟨id, id⟩

theorem trans (h : Stays s s' e p) (h' : Stays s' s'' e p) : Stays s s'' e p :=
  ⟨h'.pends ∘ h.pends, h.wait ∘ h'.wait⟩

/-- What is given to one task of a wait list does not put another out of place. -/
theorem rdy (s : Os) (pevent : Nat) (pmsg : Ptr) (msk : BitVec 8) (stat : PendStat) :
    Stays s (s.osEventTaskRdy pevent pmsg msk stat) e p := by
  by_cases hhigh : p = (s.osEvent pevent).wait.highest
  · refine ⟨fun _ => Or.inr ?_, fun hw => ?_⟩
    · subst hhigh
      rw [osTcb_osEventTaskRdy]
      exact ⟨rfl, rfl⟩
    · rw [wait_osEventTaskRdy] at hw
      split at hw
      · rw [PrioTbl.has_drop, if_pos hhigh] at hw
        cases hw
      · exact hw
  · exact (Keeps.of_same (.osEventTaskRdy s pevent pmsg msk stat hhigh) e).stays

theorem rdyAll (s : Os) (pevent : Nat) (pmsg : Ptr) (msk : BitVec 8) (stat : PendStat)
    (rounds : Nat) : Stays s (Os.osEventTaskRdyAll pevent pmsg msk stat rounds s).1 e p := by
  induction rounds generalizing s with
  | zero => exact refl s e p
  | succ rounds ih =>
    unfold Os.osEventTaskRdyAll
    split
    · exact refl s e p
    · exact (rdy s pevent pmsg msk stat).trans (ih _)

/-- Whatever a post gives, and to whom. -/
theorem post (hc : c.postsTo = some pevent) : Stays s (c.exec s).os e p := by
  cases c with
  | semPost pevent' =>
    show Stays s (osSemPost pevent' s).os e p
    unfold osSemPost osSemPostSection
    split
    · exact refl s e p
    · split
      · exact rdy s pevent' 0 _ _
      · dsimp only
        split
        · exact (Keeps.setCnt s _ _).stays
        · exact refl s e p
  | qPostOpt pevent' pmsg opt =>
    show Stays s (osQPostOpt pevent' pmsg opt s).os e p
    unfold osQPostOpt osQPostOptSection
    split
    · exact refl s e p
    · split
      · have hboth : Stays s (if opt.broadcast
            then (Os.osEventTaskRdyAll pevent' pmsg statQ .ok 64 s).1
            else s.osEventTaskRdy pevent' pmsg statQ .ok) e p := by
          split
          · exact rdyAll s pevent' pmsg _ .ok 64
          · exact rdy s pevent' pmsg _ .ok
        dsimp only
        split
        · exact hboth
        · exact hboth
      · dsimp only
        split
        · exact refl s e p
        · split
          · exact ⟨id, id⟩
          · exact ⟨id, id⟩
  | _ => cases hc

/-- A deleted task waits for nothing. -/
theorem taskDel (h : Lists (osTaskDel (some p) s).os) : Stays s (osTaskDel (some p) s).os e p := by
  unfold osTaskDel at h ⊢
  split
  · exact refl s e p
  · next hnest =>
    rw [if_neg hnest] at h
    split
    · exact refl s e p
    · next hidle =>
      rw [if_neg hidle] at h
      dsimp only [Option.getD_some] at h ⊢
      split
      · exact refl s e p
      · next htbl =>
        rw [if_neg htbl] at h
        refine ⟨fun _ => Or.inr ⟨?_, by simp [Os.thenSched, Os.setTcb]⟩, fun hw => ?_⟩
        · show ((Os.setTcb _ p _).osTcb p).osTcbEventPtr = 0
          rw [osTcb_setTcb]
          show (Os.osTcb (if _ then _ else _) p).osTcbEventPtr = 0
          split
          · simp [Os.osEventTaskRemove]
          · next hptr => exact not_not.mp hptr
        · have hw' := ((h.task p).waiting e hw).tbl
          simp [Os.thenSched, Os.setTcb] at hw'

end Stays

/-- **A call leaves every task in a pend where it should be.** -/
theorem Call.stays (h : Caller s) (hc : c.Sane s) (hself : s.osIntNesting = 0 → p ≠ s.osPrioCur)
    (hnew : c = .taskCreate p → (c.exec s).res.map Res.err ≠ some .none) :
    Stays s (c.exec s).os e p := by
  by_cases hpost : c.postsTo = some e
  · exact .post hpost
  · by_cases hdel : c = .taskDel (some p)
    · have hgood := (Call.exec_ok h hc).good.lists
      subst hdel
      exact .taskDel hgood
    · exact (Call.keeps h hself (fun he => absurd he hpost) hdel hnew).stays

/-- Does the call delete an object? -/
def Call.deletes : Call → Bool
  | .semDel _ _ | .qDel _ _ => true
  | _ => false

/-- The object of the event is the same, or the call has deleted it. -/
def Retains (c : Call) (s s' : Os) (e : Nat) : Prop :=
  (s'.osEvent e).osEventType = (s.osEvent e).osEventType ∨
    ((s'.osEvent e).osEventType = .unused ∧ c.deletes = true)

namespace Retains

theorem of_pools (h : SamePools s s') : Retains c s s' e := Or.inl (h.type e)

theorem freeEvent (hc : c.deletes = true) (h : SamePools s s') (pevent : Nat) :
    Retains c s (s'.freeEvent pevent) e := by
  by_cases he : e = pevent
  · subst he
    exact Or.inr ⟨by simp [Os.freeEvent], hc⟩
  · refine Or.inl ?_
    show (Function.update s'.osEvent pevent _ e).osEventType = _
    rw [Function.update_of_ne he]
    exact h.type e

theorem refl (c : Call) (s : Os) (e : Nat) : Retains c s s e := Or.inl rfl

theorem semDel (hc : c.deletes = true) (opt : DelOpt) : Retains c s (osSemDel pevent opt s).os e := by
  unfold osSemDel osSemDelSection
  split
  · exact refl c s e
  · split
    · exact refl c s e
    · cases opt with
      | noPend =>
        dsimp only
        split
        · exact refl c s e
        · exact freeEvent hc (Moves.refl s).samePools pevent
      | always =>
        have hall : Retains c s ((Os.osEventTaskRdyAll pevent 0 statSem .abort 64 s).1.freeEvent pevent) e :=
          freeEvent hc (Moves.osEventTaskRdyAll ..).samePools pevent
        dsimp only
        split
        · exact hall
        · exact hall
      | other => exact refl c s e

theorem qDel (hc : c.deletes = true) (opt : DelOpt) : Retains c s (osQDel pevent opt s).os e := by
  unfold osQDel osQDelSection
  split
  · exact refl c s e
  · split
    · exact refl c s e
    · cases opt with
      | noPend =>
        dsimp only
        split
        · exact refl c s e
        · exact freeEvent (s := s) hc (Moves.refl s).samePools pevent
      | always =>
        have hall : Retains c s
            (((Os.osEventTaskRdyAll pevent 0 statQ .abort 64 s).1.freeQ pevent).freeEvent pevent) e :=
          freeEvent (s := s) hc (Moves.osEventTaskRdyAll ..).samePools pevent
        dsimp only
        split
        · exact hall
        · exact hall
      | other => exact refl c s e

end Retains

/-- **A call about an event leaves its object, or deletes it.** -/
theorem Call.retains (hc : c.event = some pevent) : Retains c s (c.exec s).os e := by
  cases c with
  | semAccept _ =>
    simp only [Call.exec, osSemAccept, osSemAcceptSection]
    split
    · exact .refl _ s e
    · split
      · exact .of_pools (.setCnt s _ _)
      · exact .refl _ s e
  | semDel _ opt => exact .semDel rfl opt
  | semPend _ timeout =>
    simp only [Call.exec, osSemPend, osSemPendSection]
    split
    · exact .refl _ s e
    · split
      · exact .refl _ s e
      · split
        · exact .refl _ s e
        · split
          · exact .of_pools (.setCnt s _ _)
          · exact .of_pools (Moves.pendWait ..).samePools
  | semPendAbort _ broadcast =>
    simp only [Call.exec, osSemPendAbort, osSemPendAbortSection]
    split
    · exact .refl _ s e
    · split
      · split
        · exact .of_pools (Moves.osEventTaskRdyAll ..).samePools
        · exact .of_pools (Moves.osEventTaskRdy ..).samePools
      · exact .refl _ s e
  | semPost _ =>
    simp only [Call.exec, osSemPost, osSemPostSection]
    split
    · exact .refl _ s e
    · split
      · exact .of_pools (Moves.osEventTaskRdy ..).samePools
      · split
        · exact .of_pools (.setCnt s _ _)
        · exact .refl _ s e
  | semSet _ cnt =>
    simp only [Call.exec, osSemSet, osSemSetSection]
    split
    · exact .refl _ s e
    · split
      · exact .of_pools (.setCnt s _ _)
      · split
        · exact .of_pools (.setCnt s _ _)
        · exact .refl _ s e
  | qAccept _ =>
    simp only [Call.exec, osQAccept, osQAcceptSection]
    split
    · exact .refl _ s e
    · split
      · exact .of_pools (.setRing s _ _)
      · exact .refl _ s e
  | qDel _ opt => exact .qDel rfl opt
  | qFlush _ =>
    simp only [Call.exec, osQFlush]
    split
    · exact .refl _ s e
    · exact .of_pools (.setRing s _ _)
  | qPend _ timeout =>
    simp only [Call.exec, osQPend, osQPendSection]
    split
    · exact .refl _ s e
    · split
      · exact .refl _ s e
      · split
        · exact .refl _ s e
        · split
          · exact .of_pools (.setRing s _ _)
          · exact .of_pools (Moves.pendWait ..).samePools
  | qPendAbort _ broadcast =>
    simp only [Call.exec, osQPendAbort, osQPendAbortSection]
    split
    · exact .refl _ s e
    · split
      · split
        · exact .of_pools (Moves.osEventTaskRdyAll ..).samePools
        · exact .of_pools (Moves.osEventTaskRdy ..).samePools
      · exact .refl _ s e
  | qPostOpt pevent' pmsg opt =>
    simp only [Call.exec, osQPostOpt, osQPostOptSection]
    split
    · exact .refl _ s e
    · split
      · have hboth : Retains (.qPostOpt pevent' pmsg opt) s (if opt.broadcast
            then (Os.osEventTaskRdyAll pevent' pmsg statQ .ok 64 s).1
            else s.osEventTaskRdy pevent' pmsg statQ .ok) e := by
          split
          · exact .of_pools (Moves.osEventTaskRdyAll ..).samePools
          · exact .of_pools (Moves.osEventTaskRdy ..).samePools
        split
        · exact hboth
        · exact hboth
      · split
        · exact .refl _ s e
        · split
          · exact .of_pools ((SamePools.setCell s _ _ _).trans (.setRing _ _ _))
          · exact .of_pools ((SamePools.setCell s _ _ _).trans (.setRing _ _ _))
  | _ => cases hc

/-- An object on which a task goes on waiting stays what it is. -/
theorem Call.type_waits (h : Caller s) (hc : c.Sane s) (hw : (s.osEvent e).wait.has p = true)
    (hw' : ((c.exec s).os.osEvent e).wait.has p = true) :
    ((c.exec s).os.osEvent e).osEventType = (s.osEvent e).osEventType := by
  by_cases hev : c.event = some e
  · refine (Call.retains hev).resolve_right fun hunused => ?_
    exact (((Call.exec_ok h hc).good.lists.task p).waiting e hw').type hunused.1
  · exact (Call.sameEvent h.good.pools (fun _ => ((h.good.lists.task p).waiting e hw).type) hev).type

/-! ## What is there -/

/-- What is there has been there before, or nobody has waited for it. -/
def Offers (s s' : Os) (e : Nat) : Prop :=
  s'.Available e → s.Available e ∨ (s.osEvent e).wait.grp = 0#8

theorem SameEvent.available (h : SameEvent s s' e) : s'.Available e → s.Available e := by
  unfold Os.Available
  rw [h.type, h.cnt]
  rintro (hsem | ⟨hq, hpos⟩)
  · exact Or.inl hsem
  · rw [h.queue hq] at hpos
    exact Or.inr ⟨hq, hpos⟩

namespace Offers

theorem of_moves (h : Moves s s') : Offers s s' e := fun ha => Or.inl ((h.available e).mp ha)

theorem refl (s : Os) (e : Nat) : Offers s s e := Or.inl

theorem freeEvent (s s' : Os) (e : Nat) : Offers s (s'.freeEvent e) e := by
  rintro (⟨hsem, -⟩ | ⟨hq, -⟩)
  · simp [Os.freeEvent] at hsem
  · simp [Os.freeEvent] at hq

theorem semDel (opt : DelOpt) : Offers s (osSemDel e opt s).os e := by
  unfold osSemDel osSemDelSection
  split
  · exact refl s e
  · split
    · exact refl s e
    · cases opt with
      | noPend =>
        dsimp only
        split
        · exact refl s e
        · exact freeEvent s s e
      | always =>
        dsimp only
        split
        · exact freeEvent s _ e
        · exact freeEvent s _ e
      | other => exact refl s e

theorem qDel (opt : DelOpt) : Offers s (osQDel e opt s).os e := by
  unfold osQDel osQDelSection
  split
  · exact refl s e
  · split
    · exact refl s e
    · cases opt with
      | noPend =>
        dsimp only
        split
        · exact refl s e
        · exact freeEvent s _ e
      | always =>
        dsimp only
        split
        · exact freeEvent s _ e
        · exact freeEvent s _ e
      | other => exact refl s e

theorem qPostOpt (pmsg : Ptr) (opt : PostOpt) : Offers s (osQPostOpt e pmsg opt s).os e := by
  unfold osQPostOpt osQPostOptSection
  split
  · exact refl s e
  · split
    · have hboth : Offers s (if opt.broadcast then (Os.osEventTaskRdyAll e pmsg statQ .ok 64 s).1
          else s.osEventTaskRdy e pmsg statQ .ok) e := by
        split
        · exact of_moves (.osEventTaskRdyAll ..)
        · exact of_moves (.osEventTaskRdy ..)
      dsimp only
      split
      · exact hboth
      · exact hboth
    · next hempty => exact fun _ => Or.inr (not_not.mp hempty)

end Offers

/-- **Nothing is put where a task waits for it.** -/
theorem Call.offers (hc : c.event = some e) : Offers s (c.exec s).os e := by
  cases c with
  | semAccept pevent =>
    cases hc
    simp only [Call.exec, osSemAccept, osSemAcceptSection]
    split
    · exact .refl s e
    · next htype =>
      split
      · next hpos => exact fun _ => Or.inl (Or.inl ⟨not_not.mp htype, hpos⟩)
      · exact .refl s e
  | semDel pevent opt => cases hc; exact .semDel opt
  | semPend pevent timeout =>
    cases hc
    simp only [Call.exec, osSemPend, osSemPendSection]
    split
    · exact .refl s e
    · next htype =>
      split
      · exact .refl s e
      · split
        · exact .refl s e
        · split
          · next hpos => exact fun _ => Or.inl (Or.inl ⟨not_not.mp htype, hpos⟩)
          · exact .of_moves (.pendWait ..)
  | semPendAbort pevent broadcast =>
    cases hc
    simp only [Call.exec, osSemPendAbort, osSemPendAbortSection]
    split
    · exact .refl s e
    · split
      · split
        · exact .of_moves (.osEventTaskRdyAll ..)
        · exact .of_moves (.osEventTaskRdy ..)
      · exact .refl s e
  | semPost pevent =>
    cases hc
    simp only [Call.exec, osSemPost, osSemPostSection]
    split
    · exact .refl s e
    · split
      · exact .of_moves (.osEventTaskRdy ..)
      · next hempty => exact fun _ => Or.inr (not_not.mp hempty)
  | semSet pevent cnt =>
    cases hc
    simp only [Call.exec, osSemSet, osSemSetSection]
    split
    · exact .refl s e
    · next htype =>
      split
      · next hpos => exact fun _ => Or.inl (Or.inl ⟨not_not.mp htype, hpos⟩)
      · split
        · next hempty => exact fun _ => Or.inr hempty
        · exact .refl s e
  | qAccept pevent =>
    cases hc
    simp only [Call.exec, osQAccept, osQAcceptSection]
    split
    · exact .refl s e
    · next htype =>
      split
      · next hpos => exact fun _ => Or.inl (Or.inr ⟨not_not.mp htype, hpos⟩)
      · exact .refl s e
  | qDel pevent opt => cases hc; exact .qDel opt
  | qFlush pevent =>
    cases hc
    simp only [Call.exec, osQFlush]
    split
    · exact .refl s e
    · next htype =>
      rintro (⟨hsem, -⟩ | ⟨-, hpos⟩)
      · have hq : (s.osEvent e).osEventType = .sem := hsem
        exact absurd (hq.symm.trans (not_not.mp htype)) (by decide)
      · simp [Os.done, Os.queue, Os.setRing, Ring.flush] at hpos
  | qPend pevent timeout =>
    cases hc
    simp only [Call.exec, osQPend, osQPendSection]
    split
    · exact .refl s e
    · next htype =>
      split
      · exact .refl s e
      · split
        · exact .refl s e
        · split
          · next hpos => exact fun _ => Or.inl (Or.inr ⟨not_not.mp htype, hpos⟩)
          · exact .of_moves (.pendWait ..)
  | qPendAbort pevent broadcast =>
    cases hc
    simp only [Call.exec, osQPendAbort, osQPendAbortSection]
    split
    · exact .refl s e
    · split
      · split
        · exact .of_moves (.osEventTaskRdyAll ..)
        · exact .of_moves (.osEventTaskRdy ..)
      · exact .refl s e
  | qPostOpt pevent pmsg opt => cases hc; exact .qPostOpt pmsg opt
  | _ => cases hc

/-- Only the task which runs goes into a wait list. -/
theorem Call.wait_mono (h : Caller s) (hc : c.Sane s)
    (hself : s.osIntNesting = 0 → p ≠ s.osPrioCur)
    (hw : ((c.exec s).os.osEvent e).wait.has p = true) : (s.osEvent e).wait.has p = true := by
  by_cases hnew : c = .taskCreate p
  · subst hnew
    have hsame : (osTaskCreate p s).os.osEvent = s.osEvent := by
      unfold osTaskCreate
      split
      · rfl
      · split
        · rfl
        · split <;> rfl
    rw [← hsame]
    exact hw
  · exact (Call.stays h hc hself fun he => absurd he hnew).wait hw

/-! ## Steps -/

theorem wait_pendEnd (hw : ((s.pendEnd pevent).osEvent e).wait.has p = true) :
    (s.osEvent e).wait.has p = true := by
  unfold Os.pendEnd at hw
  dsimp only at hw
  rw [osEvent_setTcb] at hw
  split at hw
  · rw [wait_osEventTaskRemove] at hw
    split at hw
    · next he =>
      rw [PrioTbl.has_drop] at hw
      split at hw
      · cases hw
      · rw [he]
        exact hw
    · exact hw
  · exact hw

/-- The rest of a pend touches no task but its own, and nobody goes into a wait list. -/
structure Rest (s : Os) (r : Ret) : Prop where
  moves : Moves s r.os
  same : ∀ p, p ≠ s.osPrioCur → SameAt s r.os p
  wait : ∀ e p, (r.os.osEvent e).wait.has p = true → (s.osEvent e).wait.has p = true
  cont : r.cont = .run
  err : r.res.map Res.err = some (s.osTcb s.osPrioCur).osTcbStatPend.err

theorem pendLeave_rest (type : ObjType) (pevent : Nat) (s : Os) :
    Rest s (pendLeave type pevent s) := by
  have hsem : Rest s (osSemPendLeave pevent s) :=
    ⟨.pendEnd s pevent, fun _ hp => .pendEnd s pevent hp, fun _ _ => wait_pendEnd, rfl, rfl⟩
  cases type with
  | q =>
    have hcur : (s.pendEnd pevent).osPrioCur = s.osPrioCur := (Moves.pendEnd s pevent).cur
    refine ⟨(Moves.pendEnd s pevent).trans (.setTcb _ _ _), fun p hp => ?_,
      fun _ _ => wait_pendEnd, rfl, rfl⟩
    exact (SameAt.pendEnd s pevent hp).trans (.setTcb _ _ (by rw [hcur]; exact hp))
  | unused => exact hsem
  | mbox => exact hsem
  | sem => exact hsem
  | mutex => exact hsem

/-- No task and no event has been touched. -/
structure Untouched (s s' : Os) : Prop where
  tcb : s'.osTcb = s.osTcb
  tbl : s'.osTcbPrioTbl = s.osTcbPrioTbl
  event : s'.osEvent = s.osEvent
  q : s'.osQ = s.osQ
  storage : s'.storage = s.storage

namespace Untouched

theorem keeps (h : Untouched s s') (e : Nat) (p : Prio) : Keeps s s' e p :=
  .of_tcb h.tcb (by rw [h.event]) h.tbl

theorem osSched (s : Os) : Untouched s s.osSched := by
  unfold Os.osSched Os.osSchedNew
  split
  · dsimp only
    split
    · exact ⟨rfl, rfl, rfl, rfl, rfl⟩
    · exact ⟨rfl, rfl, rfl, rfl, rfl⟩
  · exact ⟨rfl, rfl, rfl, rfl, rfl⟩

theorem osIntEnter (s : Os) : Untouched s s.osIntEnter := by
  unfold Os.osIntEnter
  split
  · exact ⟨rfl, rfl, rfl, rfl, rfl⟩
  · exact ⟨rfl, rfl, rfl, rfl, rfl⟩

theorem osIntExit (s : Os) : Untouched s s.osIntExit := by
  unfold Os.osIntExit
  have h := osSched (if s.osIntNesting > 0 then { s with osIntNesting := s.osIntNesting - 1 } else s)
  refine ⟨h.tcb.trans ?_, h.tbl.trans ?_, h.event.trans ?_, h.q.trans ?_, h.storage.trans ?_⟩ <;>
    split <;> rfl

theorem pendSvHandler (s : Os) : Untouched s s.pendSvHandler := ⟨rfl, rfl, rfl, rfl, rfl⟩

end Untouched

/-- Nothing is handed to a task by a tick. -/
theorem keeps_tick (h : Good s) : Keeps s s.osTimeTick e p := by
  have hgood : Good { s with osTime := s.osTime + 1 } :=
    h.congr rfl rfl ⟨rfl, rfl, rfl, rfl, rfl, fun _ => rfl, fun _ => rfl⟩ fun _ => rfl
  have hl : ∀ q ∈ s.osTcbList.takeWhile (· ≠ idlePrio), s.osTcbPrioTbl q = true :=
    fun q hq => (h.pools.takeWhile_idle.mp hq).2
  have h₀ : Keeps s { s with osTime := s.osTime + 1 } e p := .of_tcb rfl rfl rfl
  refine h₀.trans ?_
  unfold Os.osTimeTick
  have hlists := hgood.lists
  have htbl : ∀ q ∈ s.osTcbList.takeWhile (· ≠ idlePrio),
      ({ s with osTime := s.osTime + 1 } : Os).osTcbPrioTbl q = true := hl
  generalize ({ s with osTime := s.osTime + 1 } : Os) = s₀ at hlists htbl ⊢
  generalize s.osTcbList.takeWhile (· ≠ idlePrio) = l at htbl ⊢
  induction l generalizing s₀ with
  | nil => exact .refl s₀ e p
  | cons q l ih =>
    have hq := htbl q List.mem_cons_self
    refine (Keeps.tickTask hlists q).trans (ih _ (hlists.tickTask hq) fun q' hq' => ?_)
    rw [(Moves.tickTask s₀ q).tbl]
    exact htbl q' (List.mem_cons_of_mem q hq')

theorem osTimeTick_moves (s : Os) : Moves { s with osTime := s.osTime + 1 } s.osTimeTick := by
  unfold Os.osTimeTick
  generalize ({ s with osTime := s.osTime + 1 } : Os) = s₀
  generalize s.osTcbList.takeWhile (· ≠ idlePrio) = l
  induction l generalizing s₀ with
  | nil => exact .refl s₀
  | cons q l ih => exact (Moves.tickTask s₀ q).trans (ih _)

/-- What is left of their calls to the tasks when one of them, or an interrupt, has made a call. -/
structure Called (y : Sys) (c : Call) (y' : Sys) : Prop where
  caller : Caller y.os
  sane : c.Sane y.os
  os : y'.os = (c.exec y.os).os
  /-- Another task, the one which has made the call, and a new one. -/
  cont : ∀ p,
    (y'.cont p = y.cont p ∧ (y.os.osIntNesting = 0 → p ≠ y.os.osPrioCur) ∧
      (c = .taskCreate p → (c.exec y.os).res.map Res.err ≠ some .none)) ∨
    (p = y.os.osPrioCur ∧ y.os.osIntNesting = 0 ∧ y.cont p = .run ∧
      y'.cont p = (c.exec y.os).cont) ∨
    (y'.cont p = .run ∧ y.os.osTcbPrioTbl p = false ∧ p ≠ y.os.osPrioCur)

/-- No task is created by an interrupt. -/
theorem taskCreate_isr (hnest : s.osIntNesting ≠ 0) :
    (osTaskCreate p s).res.map Res.err ≠ some .none := by
  unfold osTaskCreate
  rw [if_pos (Nat.pos_of_ne_zero hnest)]
  show some Err.taskCreateIsr ≠ some .none
  decide

/-- A new task has not existed before. -/
theorem taskCreate_tbl (hres : (osTaskCreate p s).res.map Res.err = some .none) :
    s.osTcbPrioTbl p = false := by
  unfold osTaskCreate at hres
  split at hres
  · cases hres
  · split at hres
    · cases hres
    · next htbl => exact Bool.eq_false_iff.mpr htbl

theorem SysOk.calledIsr (h : SysOk y) (hnest : y.os.osIntNesting ≠ 0) (hc : c.Sane y.os) :
    Called y c (y.callIsr c).1 where
  caller := h.caller (fun h0 => absurd h0 hnest) (fun h0 => absurd h0 hnest)
  sane := hc
  os := rfl
  cont p := by
    refine Or.inl ⟨rfl, fun h0 => absurd h0 hnest, ?_⟩
    rintro rfl
    exact taskCreate_isr hnest

theorem SysOk.calledTask (h : SysOk y) (hnest : y.os.osIntNesting = 0) (hpend : y.os.pendSv = false)
    (hcont : y.cont y.os.osPrioCur = .run) (hbusy : y.os.osPrioCur ≠ idlePrio) (hc : c.Sane y.os) :
    Called y c (y.callTask c).1 where
  caller := h.caller (fun _ => ⟨hpend, hcont⟩) (fun _ => hbusy)
  sane := hc
  os := rfl
  cont p := by
    have hset : (y.callTask c).1.cont p = Function.update (Sys.started y.cont c (c.exec y.os))
      y.os.osPrioCur (c.exec y.os).cont p := rfl
    by_cases hp : p = y.os.osPrioCur
    · refine Or.inr (Or.inl ⟨hp, hnest, by rw [hp]; exact hcont, ?_⟩)
      rw [hset, hp, Function.update_self]
    · rw [hset, Function.update_of_ne hp]
      rcases started_cases y.cont c (c.exec y.os) p with ⟨hsame, hnew⟩ | ⟨rfl, hres, hrun⟩
      · exact Or.inl ⟨hsame, fun _ => hp, hnew⟩
      · exact Or.inr (Or.inr ⟨hrun, taskCreate_tbl hres, hp⟩)

namespace PendOk

/-- A step in which no task enters or leaves a pend and no event changes its object. -/
theorem congr {y' : Sys} (h : PendOk y) (hsys : SysOk y')
    (hcont : ∀ p x, (y'.cont p).waits = some x → (y.cont p).waits = some x)
    (hstays : ∀ p e, Stays y.os y'.os e p)
    (htype : ∀ p e, (y.os.osEvent e).wait.has p = true → (y'.os.osEvent e).wait.has p = true →
      (y'.os.osEvent e).osEventType = (y.os.osEvent e).osEventType)
    (hoffers : ∀ e, y'.os.Available e → y.os.Available e) : PendOk y' where
  sys := hsys
  pends p t e hc := (hstays p e).pends (h.pends p t e (hcont p _ hc))
  type p t e hc hw := by
    have hold := (hstays p e).wait hw
    rw [htype p e hold hw]
    exact h.type p t e (hcont p _ hc) hold
  vain p e ha := Bool.eq_false_iff.mpr fun hw => by
    have hold := (hstays p e).wait hw
    rw [h.vain p e (hoffers e ha)] at hold
    cases hold

/-- A call has been made, by a task or by an interrupt. -/
theorem called {y' : Sys} (h : PendOk y) (hsys : SysOk y') (hc : Called y c y') : PendOk y' := by
  have hcall := Call.exec_ok hc.caller hc.sane
  refine ⟨hsys, fun p t e hw => ?_, fun p t e hw hin => ?_,
    fun p e ha => Bool.eq_false_iff.mpr fun hin => ?_⟩
  · rw [hc.os]
    rcases hc.cont p with ⟨hcont, hp, hnew⟩ | ⟨rfl, -, -, hcont⟩ | ⟨hcont, -⟩
    · rw [hcont] at hw
      exact (Call.stays hc.caller hc.sane hp hnew).pends (h.pends p t e hw)
    · rw [hcont] at hw
      exact Or.inl (hcall.enters t e hw).1
    · rw [hcont] at hw
      cases hw
  · rw [hc.os] at hin ⊢
    rcases hc.cont p with ⟨hcont, hp, hnew⟩ | ⟨rfl, -, -, hcont⟩ | ⟨hcont, -⟩
    · rw [hcont] at hw
      have hin₀ := (Call.stays hc.caller hc.sane hp hnew).wait hin
      exact (Call.type_waits hc.caller hc.sane hin₀ hin).trans (h.type p t e hw hin₀)
    · rw [hcont] at hw
      exact (hcall.enters t e hw).2.1
    · rw [hcont] at hw
      cases hw
  · rw [hc.os] at ha hin
    by_cases hself : y.os.osIntNesting = 0 → p ≠ y.os.osPrioCur
    · have hold := Call.wait_mono hc.caller hc.sane hself hin
      have hused := ((h.sys.good.lists.task p).waiting e hold).type
      by_cases hev : c.event = some e
      · rcases Call.offers hev ha with hav | hempty
        · rw [h.vain p e hav] at hold
          cases hold
        · rw [(PrioTbl.grp_eq_zero (h.sys.good.lists.wait e)).mp hempty p] at hold
          cases hold
      · rw [h.vain p e ((Call.sameEvent h.sys.good.pools (fun _ => hused) hev).available ha)] at hold
        cases hold
    · -- the task has entered a pend, and its object is not there
      have hp : p = y.os.osPrioCur := by
        by_contra hne
        exact hself fun _ => hne
      subst hp
      have hw := (hcall.good.lists.task y.os.osPrioCur).waiting e hin
      rcases hc.cont y.os.osPrioCur with ⟨-, hne, -⟩ | ⟨-, -, hrun, -⟩ | ⟨-, -, hne⟩
      · exact hself hne
      · have hptr : (y.os.osTcb y.os.osPrioCur).osTcbEventPtr = 0 :=
          (h.sys.ptr _).resolve_right (by rw [hrun]; exact (Option.some_ne_none _).symm)
        rcases hcall.ptr y.os.osPrioCur with h0 | hsame | ⟨-, hev⟩
        · exact hw.ne_zero (hw.ptr.symm.trans h0)
        · exact hw.ne_zero (hw.ptr.symm.trans (hsame.trans hptr))
        · rw [hw.ptr] at hev
          obtain ⟨t, ht⟩ := Cont.waits_of_event hev
          exact (hcall.enters t e ht).2.2 ha
      · exact hne rfl

/-- `OS_Sched`, an interrupt or a switch. -/
theorem untouched (h : PendOk y) {y' : Sys} (hsys : SysOk y')
    (hcont : ∀ p, (y'.cont p).waits = (y.cont p).waits) (hos : Untouched y.os y'.os) : PendOk y' := by
  refine h.congr hsys (fun p x => by rw [hcont]; exact id) (fun p e => (hos.keeps e p).stays)
    (fun p e _ _ => by rw [hos.event]) fun e => ?_
  unfold Os.Available Os.queue
  rw [hos.event, hos.q]
  exact id

/-- The task which runs has gone on, and still waits for what it has waited for. -/
theorem waits_update {cont : Cont} (hcont : cont.waits = (y.cont y.os.osPrioCur).waits) (p : Prio) :
    (Function.update y.cont y.os.osPrioCur cont p).waits = (y.cont p).waits := by
  by_cases hp : p = y.os.osPrioCur
  · rw [hp, Function.update_self]
    exact hcont
  · rw [Function.update_of_ne hp]

theorem go (h : PendOk y) (htask : y.atTask = true) : PendOk y.go.1 := by
  have hsys := h.sys.go htask
  unfold Sys.go at hsys ⊢
  dsimp only at hsys ⊢
  have hsched : ∀ cont : Cont, cont.waits = (y.cont y.os.osPrioCur).waits →
      SysOk ⟨y.os.osSched, Function.update y.cont y.os.osPrioCur cont⟩ →
      PendOk ⟨y.os.osSched, Function.update y.cont y.os.osPrioCur cont⟩ := by
    exact fun cont hcont hsys => h.untouched hsys (waits_update hcont) (.osSched y.os)
  cases hcont : y.cont y.os.osPrioCur with
  | run => exact h
  | sched =>
    rw [hcont] at hsys hsched
    exact hsched _ rfl hsys
  | pend type pevent =>
    rw [hcont] at hsys hsched
    exact hsched _ rfl hsys
  | leave type pevent =>
    rw [hcont] at hsys
    have hrest := pendLeave_rest type pevent y.os
    have hself : ∀ p x, (Function.update y.cont y.os.osPrioCur
        (pendLeave type pevent y.os).cont p).waits = some x →
        p ≠ y.os.osPrioCur ∧ (y.cont p).waits = some x := by
      intro p x hx
      by_cases hp : p = y.os.osPrioCur
      · rw [hp, Function.update_self, hrest.cont] at hx
        cases hx
      · rw [Function.update_of_ne hp] at hx
        exact ⟨hp, hx⟩
    refine ⟨hsys, fun p t e hw => ?_, fun p t e hw hin => ?_,
      fun p e ha => Bool.eq_false_iff.mpr fun hin => ?_⟩
    · obtain ⟨hp, hold⟩ := hself p _ hw
      exact (Keeps.of_same (hrest.same p hp) e).pends (h.pends p t e hold)
    · obtain ⟨hp, hold⟩ := hself p _ hw
      have hin₀ : (y.os.osEvent e).wait.has p = true := by
        rw [← (hrest.same p hp).wait e]
        exact hin
      exact (hrest.moves.type e).trans (h.type p t e hold hin₀)
    · have hav := (hrest.moves.available e).mp ha
      have hin₀ := hrest.wait e p hin
      rw [h.vain p e hav] at hin₀
      cases hin₀

theorem tick (h : PendOk y) (hnest : y.os.osIntNesting ≠ 0) :
    PendOk { y with os := y.os.osTimeTick } :=
  h.congr (h.sys.tick hnest) (fun _ _ => id) (fun _ _ => (keeps_tick h.sys.good).stays)
    (fun _ e _ _ => (osTimeTick_moves y.os).type e)
    fun e => ((osTimeTick_moves y.os).available e).mp

/-- **Every step keeps the invariant.** -/
theorem step {i : Input} (h : PendOk y) (hi : y.Allows i) : PendOk (y.step i).1 := by
  cases i with
  | call c =>
    unfold Sys.step
    dsimp only
    split
    · next hnest =>
      have hnest := Nat.ne_of_gt hnest
      exact h.called (h.sys.callIsr hnest hi.2) (h.sys.calledIsr hnest hi.2)
    · next hnest =>
      split
      · next hc =>
        obtain ⟨hn, hp⟩ := of_decide_eq_true hc.1
        exact h.called (h.sys.callTask hn hp hc.2 (hi.1 hn) hi.2)
          (h.sys.calledTask hn hp hc.2 (hi.1 hn) hi.2)
      · exact h
  | go =>
    unfold Sys.step
    dsimp only
    split
    · next hc => exact h.go hc
    · exact h
  | intEnter => exact h.untouched h.sys.intEnter (fun _ => rfl) (.osIntEnter y.os)
  | tick =>
    unfold Sys.step
    dsimp only
    split
    · next hnest => exact h.tick (Nat.ne_of_gt hnest)
    · exact h
  | intExit =>
    unfold Sys.step
    dsimp only
    split
    · next hnest => exact h.untouched (h.sys.intExit hnest) (fun _ => rfl) (.osIntExit y.os)
    · exact h
  | pendSv =>
    unfold Sys.step
    dsimp only
    split
    · next hc => exact h.untouched (h.sys.switch hc.1 hc.2) (fun _ => rfl) (.pendSvHandler y.os)
    · exact h

/-- In the beginning no task is in a pend. -/
theorem start (prios : List Prio) : PendOk (Sys.start prios) :=
  ⟨.start prios, (by intro _ _ _ h; cases h), (by intro _ _ _ h; cases h), fun p e _ =>
    ((Ready.osInit prios).good.lists.task p).wait_false_of_zero ((Ready.osInit prios).ptr p) e⟩

/-- The order of the free lists is of no account. -/
theorem alike {z : Sys} (h : PendOk y) (hz : y.Alike z) : PendOk z := by
  have hsys := h.sys.alike hz
  obtain ⟨l, q, -, -, rfl⟩ := hz
  exact h.untouched hsys (fun _ => rfl) ⟨rfl, rfl, rfl, rfl, rfl⟩

/-- The invariant holds along every run. -/
theorem run {prios : List Prio} {is : List Input}
    (hG : ∀ t ∈ cpu.transitions (Cpu.start prios) is, t.1.Allows t.2) :
    (cpu.run (Cpu.start prios) is).Staged ∧ PendOk (cpu.run (Cpu.start prios) is).whole :=
  Cpu.run_whole (fun _ _ hz h => h.alike hz) (fun _ _ h hi => h.step hi) (fun _ hp => absurd rfl hp)
    (by rw [Cpu.whole_start]; exact .start prios) hG

end PendOk

/-! ## Runs -/

/--
**Nobody waits in vain.** In every state which the system can reach no task is in the wait list of a
semaphore with a count, or of a queue with messages.
-/
theorem nobody_waits_in_vain (prios : List Prio) (is : List Input)
    (hG : ∀ t ∈ cpu.transitions (Cpu.start prios) is, t.1.Allows t.2) {e : Nat}
    (ha : (cpu.run (Cpu.start prios) is).sys.os.Available e) (p : Prio) :
    ((cpu.run (Cpu.start prios) is).sys.os.osEvent e).wait.has p = false :=
  (PendOk.run hG).2.vain p e ha

/-- The interrupt posts twice, and the second time nobody waits any more. -/
theorem nobody_waits_in_vain_pendRun :
    ((cpu.run (Cpu.start [10])
      (pendRun.take 12 ++ [.call (.semPost 1)])).sys.os.osEvent 1).wait.has 10 = false := by
  have ha : (cpu.run (Cpu.start [10])
      (pendRun.take 12 ++ [.call (.semPost 1)])).sys.os.Available 1 :=
    Or.inl ⟨by decide, by decide⟩
  exact nobody_waits_in_vain [10] _ (by decide) ha 10

end PlcFirmware.Ucos
