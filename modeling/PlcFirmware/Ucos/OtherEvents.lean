import PlcFirmware.Ucos.Pends

/-!
# Calls about other events

A call changes the count, the buffer and the object of no event but the one it is about.

* `SameEvent` — an event which a call is not about
* `Call.sameEvent` — what every call does to it
-/

namespace PlcFirmware.Ucos

open Infra

/-- The event which a call is about. -/
def Call.event : Call → Option Nat
  | .semAccept pevent | .semDel pevent _ | .semPend pevent _ | .semPendAbort pevent _
  | .semPost pevent | .semSet pevent _ | .qAccept pevent | .qDel pevent _ | .qFlush pevent
  | .qPend pevent _ | .qPendAbort pevent _ | .qPostOpt pevent _ _ => some pevent
  | _ => none

/-- No other queue has the same storage. -/
def Os.Own (s : Os) (e : Nat) : Prop :=
  ∀ e', e' ≠ e → (s.osEvent e').osEventType = .q →
    (s.queue e').osqStart ≠ (s.queue e).osqStart

/-- The object of the event and what it holds are the same. -/
structure SameEvent (s s' : Os) (e : Nat) : Prop where
  type : (s'.osEvent e).osEventType = (s.osEvent e).osEventType
  cnt : (s'.osEvent e).osEventCnt = (s.osEvent e).osEventCnt
  ptr : (s'.osEvent e).osEventPtr = (s.osEvent e).osEventPtr
  queue : (s.osEvent e).osEventType = .q → s'.queue e = s.queue e
  cells : (s.osEvent e).osEventType = .q → s.Own e →
    s'.storage (s.queue e).osqStart = s.storage (s.queue e).osqStart

variable {s s' s'' : Os} {e pevent : Nat}

namespace SameEvent

theorem refl (s : Os) (e : Nat) : SameEvent s s e := ⟨rfl, rfl, rfl, fun _ => rfl, fun _ _ => rfl⟩

/-- Nothing but control blocks of tasks and the ready list has changed. -/
theorem of_eq (hevent : s'.osEvent = s.osEvent) (hq : s'.osQ = s.osQ)
    (hcells : s'.storage = s.storage) : SameEvent s s' e :=
  ⟨by rw [hevent], by rw [hevent], by rw [hevent], fun _ => by unfold Os.queue; rw [hevent, hq],
    fun _ _ => by rw [hcells]⟩

/-- Tasks have moved between the lists. -/
theorem of_moves (h : Moves s s') (e : Nat) : SameEvent s s' e :=
  ⟨h.type e, h.cnt e, h.eventPtr e, fun _ => by unfold Os.queue; rw [h.eventPtr, h.q],
    fun _ _ => by rw [h.storage]⟩

/-- A further change which leaves the event alone, as tasks have moved before. -/
theorem after (h : Moves s s') (h' : s''.osEvent e = s'.osEvent e) (hq : s''.osQ = s'.osQ)
    (hcells : s''.storage = s'.storage) : SameEvent s s'' e where
  type := by rw [h']; exact h.type e
  cnt := by rw [h']; exact h.cnt e
  ptr := by rw [h']; exact h.eventPtr e
  queue _ := by unfold Os.queue; rw [h', hq, h.eventPtr, h.q]
  cells _ _ := by rw [hcells, h.storage]

theorem setCnt (s : Os) (cnt : Nat) (he : e ≠ pevent) : SameEvent s (s.setCnt pevent cnt) e :=
  .after (.refl s) (Function.update_of_ne he _ _) rfl rfl

/-- Two queues have different control blocks. -/
theorem setRing (h : Pools s) (htype : (s.osEvent pevent).osEventType = .q) (ring : Ring)
    (he : e ≠ pevent) : SameEvent s (s.setRing pevent ring) e where
  type := rfl
  cnt := rfl
  ptr := rfl
  queue hq := Function.update_of_ne (fun heq => he (h.q_one e pevent hq htype heq)) _ _
  cells _ _ := rfl

theorem setCell (htype : (s.osEvent pevent).osEventType = .q) (i : Nat) (pmsg : Ptr)
    (he : e ≠ pevent) : SameEvent s (s.setCell pevent i pmsg) e where
  type := rfl
  cnt := rfl
  ptr := rfl
  queue _ := rfl
  cells _ hown := Function.update_of_ne (fun heq => hown pevent he.symm htype heq.symm) _ _

end SameEvent

/-- An event which is in use is not in the free list. -/
theorem Pools.used_ne (h : Pools s) (hused : (s.osEvent e).osEventType ≠ .unused) {rest : List Nat}
    (hfree : s.osEventFreeList = pevent :: rest) : e ≠ pevent := by
  rintro rfl
  exact ((h.event.mem_iff e).mp (by rw [hfree]; exact List.mem_cons_self)).2 hused

/-! ## Calls -/

section Calls

theorem same_semDel (he : e ≠ pevent) (opt : DelOpt) : SameEvent s (osSemDel pevent opt s).os e := by
  unfold osSemDel osSemDelSection
  split
  · exact .refl s e
  · split
    · exact .refl s e
    · cases opt with
      | noPend =>
        dsimp only
        split
        · exact .refl s e
        · exact .after (.refl s) (Function.update_of_ne he _ _) rfl rfl
      | always =>
        have hall : SameEvent s
            ((Os.osEventTaskRdyAll pevent 0 statSem .abort 64 s).1.freeEvent pevent) e :=
          .after (.osEventTaskRdyAll ..) (Function.update_of_ne he _ _) rfl rfl
        dsimp only
        split
        · exact hall
        · exact hall
      | other => exact .refl s e

theorem same_qDel (he : e ≠ pevent) (opt : DelOpt) : SameEvent s (osQDel pevent opt s).os e := by
  unfold osQDel osQDelSection
  split
  · exact .refl s e
  · split
    · exact .refl s e
    · cases opt with
      | noPend =>
        dsimp only
        split
        · exact .refl s e
        · exact .after (.refl s) (Function.update_of_ne he _ _) rfl rfl
      | always =>
        have hall : SameEvent s
            (((Os.osEventTaskRdyAll pevent 0 statQ .abort 64 s).1.freeQ pevent).freeEvent pevent) e :=
          .after (.osEventTaskRdyAll ..) (Function.update_of_ne he _ _) rfl rfl
        dsimp only
        split
        · exact hall
        · exact hall
      | other => exact .refl s e

theorem same_semPend (he : e ≠ pevent) (timeout : Nat) :
    SameEvent s (osSemPend pevent timeout s).os e := by
  unfold osSemPend osSemPendSection
  split
  · exact .refl s e
  · split
    · exact .refl s e
    · split
      · exact .refl s e
      · dsimp only
        split
        · exact .setCnt s _ he
        · exact .of_moves (.pendWait ..) e

theorem same_qPend (h : Pools s) (he : e ≠ pevent) (timeout : Nat) :
    SameEvent s (osQPend pevent timeout s).os e := by
  unfold osQPend osQPendSection
  split
  · exact .refl s e
  · next htype =>
    split
    · exact .refl s e
    · split
      · exact .refl s e
      · split
        · exact .setRing h (not_not.mp htype) _ he
        · exact .of_moves (.pendWait ..) e

/-- Tasks which wait get something, or the status of an abort. -/
theorem same_semPendAbort (broadcast : Bool) : SameEvent s (osSemPendAbort pevent broadcast s).os e := by
  unfold osSemPendAbort osSemPendAbortSection
  split
  · exact .refl s e
  · split
    · split
      · exact .of_moves (.osEventTaskRdyAll ..) e
      · exact .of_moves (.osEventTaskRdy ..) e
    · exact .refl s e

theorem same_qPendAbort (broadcast : Bool) : SameEvent s (osQPendAbort pevent broadcast s).os e := by
  unfold osQPendAbort osQPendAbortSection
  split
  · exact .refl s e
  · split
    · split
      · exact .of_moves (.osEventTaskRdyAll ..) e
      · exact .of_moves (.osEventTaskRdy ..) e
    · exact .refl s e

theorem same_semPost (he : e ≠ pevent) : SameEvent s (osSemPost pevent s).os e := by
  unfold osSemPost osSemPostSection
  split
  · exact .refl s e
  · split
    · exact .of_moves (.osEventTaskRdy ..) e
    · dsimp only
      split
      · exact .setCnt s _ he
      · exact .refl s e

theorem same_qPostOpt (h : Pools s) (he : e ≠ pevent) (pmsg : Ptr) (opt : PostOpt) :
    SameEvent s (osQPostOpt pevent pmsg opt s).os e := by
  unfold osQPostOpt osQPostOptSection
  split
  · exact .refl s e
  · next htype =>
    have htype := not_not.mp htype
    have hput : ∀ i ring, SameEvent s ((s.setCell pevent i pmsg).setRing pevent ring) e := by
      intro i ring
      have hcell := SameEvent.setCell htype i pmsg he
      have hring : SameEvent s (s.setRing pevent ring) e := .setRing h htype ring he
      exact ⟨rfl, rfl, rfl, hring.queue, hcell.cells⟩
    split
    · have hboth : SameEvent s (if opt.broadcast
          then (Os.osEventTaskRdyAll pevent pmsg statQ .ok 64 s).1
          else s.osEventTaskRdy pevent pmsg statQ .ok) e := by
        split
        · exact .of_moves (.osEventTaskRdyAll ..) e
        · exact .of_moves (.osEventTaskRdy ..) e
      dsimp only
      split
      · exact hboth
      · exact hboth
    · dsimp only
      split
      · exact .refl s e
      · split
        · exact hput _ _
        · exact hput _ _

theorem same_semCreate (h : Pools s) (hused : (s.osEvent e).osEventType ≠ .unused) (cnt : UInt16) :
    SameEvent s (osSemCreate cnt s).os e := by
  unfold osSemCreate osSemCreateFill
  split
  · exact .refl s e
  · split
    · exact .refl s e
    · next hfree =>
      exact .after (.refl s) (Function.update_of_ne (h.used_ne hused hfree) _ _) rfl rfl

theorem same_qCreate (h : Pools s) (hused : (s.osEvent e).osEventType ≠ .unused) (start size : Nat) :
    SameEvent s (osQCreate start size s).os e := by
  unfold osQCreate osQCreateFill
  split
  · exact .refl s e
  · split
    · next pevent events pq queues hfree hqfree =>
      have hne := h.used_ne hused hfree
      have hev : Function.update s.osEvent pevent ⟨.q, 0, pq, BitTable.empty⟩ e = s.osEvent e :=
        Function.update_of_ne hne _ _
      refine ⟨?_, ?_, ?_, fun hq => ?_, fun _ _ => rfl⟩
      · exact congrArg Event.osEventType hev
      · exact congrArg Event.osEventCnt hev
      · exact congrArg Event.osEventPtr hev
      · -- the `OS_Q` was free
        have hpq : (s.osEvent e).osEventPtr ≠ pq := by
          rintro rfl
          exact ((h.q.mem_iff _).mp (by rw [hqfree]; exact List.mem_cons_self)).2 ⟨e, hq, rfl⟩
        show Function.update s.osQ pq _
          (Function.update s.osEvent pevent ⟨.q, 0, pq, BitTable.empty⟩ e).osEventPtr = s.queue e
        rw [hev, Function.update_of_ne hpq]
        rfl
    · exact .refl s e

theorem same_taskDel (prio : Option Prio) : SameEvent s (osTaskDel prio s).os e := by
  unfold osTaskDel
  split
  · exact .refl s e
  · split
    · exact .refl s e
    · dsimp only
      generalize prio.getD s.osPrioCur = q
      split
      · exact .refl s e
      · have hmoves : Moves s (if ((s.makeUnready q).osTcb q).osTcbEventPtr ≠ 0
            then (s.makeUnready q).osEventTaskRemove q ((s.makeUnready q).osTcb q).osTcbEventPtr
            else s.makeUnready q) :=
          .ite ((Moves.makeUnready s q).trans (.osEventTaskRemove _ q _)) (.makeUnready s q)
        exact .after hmoves rfl rfl rfl

/-- **A call leaves the other events alone.** -/
theorem Call.sameEvent (h : Pools s) {c : Call}
    (hused : c.creates = true → (s.osEvent e).osEventType ≠ .unused) (hc : c.event ≠ some e) :
    SameEvent s (c.exec s).os e := by
  have hne : ∀ {pevent}, some pevent ≠ some e → e ≠ pevent := fun hn he => hn (congrArg some he.symm)
  cases c with
  | semAccept pevent =>
    show SameEvent s (osSemAccept pevent s).os e
    unfold osSemAccept osSemAcceptSection
    split
    · exact .refl s e
    · dsimp only
      split
      · exact .setCnt s _ (hne hc)
      · exact .refl s e
  | semCreate cnt => exact same_semCreate h (hused rfl) cnt
  | semDel pevent opt => exact same_semDel (hne hc) opt
  | semPend pevent timeout => exact same_semPend (hne hc) timeout
  | semPendAbort pevent broadcast => exact same_semPendAbort broadcast
  | semPost pevent => exact same_semPost (hne hc)
  | semSet pevent cnt =>
    show SameEvent s (osSemSet pevent cnt s).os e
    unfold osSemSet osSemSetSection
    split
    · exact .refl s e
    · split
      · exact .setCnt s _ (hne hc)
      · split
        · exact .setCnt s _ (hne hc)
        · exact .refl s e
  | qAccept pevent =>
    show SameEvent s (osQAccept pevent s).os e
    unfold osQAccept osQAcceptSection
    split
    · exact .refl s e
    · next htype =>
      split
      · exact .setRing h (not_not.mp htype) _ (hne hc)
      · exact .refl s e
  | qCreate start size => exact same_qCreate h (hused rfl) start size
  | qDel pevent opt => exact same_qDel (hne hc) opt
  | qFlush pevent =>
    show SameEvent s (osQFlush pevent s).os e
    unfold osQFlush
    split
    · exact .refl s e
    · next htype => exact .setRing h (not_not.mp htype) _ (hne hc)
  | qPend pevent timeout => exact same_qPend h (hne hc) timeout
  | qPendAbort pevent broadcast => exact same_qPendAbort broadcast
  | qPostOpt pevent pmsg opt => exact same_qPostOpt h (hne hc) pmsg opt
  | timeDly ticks =>
    show SameEvent s (osTimeDly ticks s).os e
    unfold osTimeDly
    split
    · exact .refl s e
    · split
      · exact .refl s e
      · split
        · exact .of_eq rfl rfl rfl
        · exact .refl s e
  | timeDlyResume prio =>
    show SameEvent s (osTimeDlyResume prio s).os e
    unfold osTimeDlyResume
    split
    · exact .refl s e
    · split
      · exact .refl s e
      · split
        · exact .refl s e
        · dsimp only
          split
          · exact .of_moves (.wake s prio) e
          · exact .of_moves (.wake s prio) e
  | taskSuspend prio =>
    show SameEvent s (osTaskSuspend prio s).os e
    unfold osTaskSuspend
    dsimp only
    split
    · exact .refl s e
    · split
      · exact .of_eq rfl rfl rfl
      · exact .of_eq rfl rfl rfl
  | taskResume prio =>
    show SameEvent s (osTaskResume prio s).os e
    unfold osTaskResume
    split
    · exact .refl s e
    · dsimp only
      split
      · split
        · split
          · exact .of_eq rfl rfl rfl
          · exact .of_eq rfl rfl rfl
        · exact .of_eq rfl rfl rfl
      · exact .refl s e
  | taskCreate prio =>
    show SameEvent s (osTaskCreate prio s).os e
    unfold osTaskCreate
    split
    · exact .refl s e
    · split
      · exact .refl s e
      · split
        · exact .refl s e
        · exact .of_eq rfl rfl rfl
  | taskDel prio => exact same_taskDel prio
  | schedLock =>
    show SameEvent s (osSchedLock s).os e
    unfold osSchedLock
    split
    · exact .of_eq rfl rfl rfl
    · exact .refl s e
  | schedUnlock =>
    show SameEvent s (osSchedUnlock s).os e
    unfold osSchedUnlock
    split
    · dsimp only
      split
      · exact .of_eq rfl rfl rfl
      · exact .of_eq rfl rfl rfl
    · exact .refl s e

end Calls

end PlcFirmware.Ucos
