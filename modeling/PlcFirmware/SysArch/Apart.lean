import PlcFirmware.SysArch.Valid

/-!
# Mailboxes apart

Each queue has a control block and an `OS_Q` of its own, and a task is in the wait list of no queue but
the one it fetches from. So a call on one mailbox leaves the queue of another one as it is, as long as
the two do not share their storage.

* `Sound.run` — both hold along every history
* `Elsewhere` — what the kernel functions leave as it is, one lemma for each
-/

namespace PlcFirmware.Ucos

open Infra

variable {k k' : Kernel} {pevent e : Nat} {t prio : Prio}

@[simp] theorem osEvent_setTcb_eq (tcb : OsTcb) : (k.setTcb prio tcb).osEvent = k.osEvent := rfl

theorem osEvent_setTbl_of_ne (h : pevent ≠ e) (b : Bool) :
    (k.setTbl e prio b).osEvent pevent = k.osEvent pevent :=
  Function.update_of_ne h _ _

theorem tbl_setTbl_of_ne (h : pevent ≠ e) (b : Bool) :
    (k.setTbl e prio b).tbl pevent = k.tbl pevent := by
  unfold Kernel.tbl
  rw [osEvent_setTbl_of_ne h]

theorem osTcb_setTcb_of_ne (h : t ≠ prio) (tcb : OsTcb) : (k.setTcb prio tcb).osTcb t = k.osTcb t :=
  Function.update_of_ne h _ _

@[simp] theorem osEventPtr_setTbl (b : Bool) :
    ((k.setTbl e prio b).osEvent pevent).osEventPtr = (k.osEvent pevent).osEventPtr := by
  by_cases h : pevent = e
  · subst h; simp [Kernel.setTbl]
  · rw [osEvent_setTbl_of_ne h]

/-- Clearing a bit which is not set changes nothing. -/
theorem osEvent_setTbl_false (h : k.tbl e prio = false) :
    (k.setTbl e prio false).osEvent = k.osEvent := by
  have htbl : Function.update (k.tbl e) prio false = k.tbl e := by
    rw [← h]
    exact Function.update_eq_self prio _
  unfold Kernel.setTbl
  rw [htbl]
  exact Function.update_eq_self e _

/-- What holds of each round of `OS_EventTaskRdy` holds when they are through. -/
theorem osEventTaskRdyAll_induct {P : Kernel → Prop} {pmsg : Ptr} {pendStat : PendStat}
    (hround : ∀ k, P k → P (k.osEventTaskRdy e pmsg pendStat)) (rounds : Nat) (h : P k) :
    P (Kernel.osEventTaskRdyAll e pmsg pendStat rounds k) := by
  induction rounds generalizing k with
  | zero => exact h
  | succ rounds ih =>
    unfold Kernel.osEventTaskRdyAll
    cases hpt (k.tbl e) with
    | none => exact h
    | some prio => exact ih (hround k h)

/-! ## Which queue has which `OS_Q` -/

/-- The queues have the same `OS_Q` and the same storage as before. -/
structure SameQueues (k k' : Kernel) : Prop where
  blocks : SameBlocks k k'
  ptr : ∀ e, (k'.osEvent e).osEventPtr = (k.osEvent e).osEventPtr
  free : k'.osQFreeList = k.osQFreeList
  start : ∀ e, (k'.queue e).osqStart = (k.queue e).osqStart

namespace SameQueues

theorem refl (k : Kernel) : SameQueues k k := ⟨⟨rfl, rfl⟩, fun _ => rfl, rfl, fun _ => rfl⟩

theorem trans {k₁ k₂ : Kernel} (h₁ : SameQueues k k₁) (h₂ : SameQueues k₁ k₂) : SameQueues k k₂ where
  blocks := ⟨h₂.blocks.1.trans h₁.blocks.1, h₂.blocks.2.trans h₁.blocks.2⟩
  ptr := fun e => (h₂.ptr e).trans (h₁.ptr e)
  free := h₂.free.trans h₁.free
  start := fun e => (h₂.start e).trans (h₁.start e)

theorem osEventTaskRdy (k : Kernel) (e : Nat) (pmsg : Ptr) (pendStat : PendStat) :
    SameQueues k (k.osEventTaskRdy e pmsg pendStat) := by
  unfold Kernel.osEventTaskRdy
  cases hpt (k.tbl e) with
  | none => exact refl k
  | some prio => exact ⟨⟨by simp, by simp⟩, by simp, rfl, by simp⟩

theorem osEventTaskRdyAll (k : Kernel) (e : Nat) (pmsg : Ptr) (pendStat : PendStat) (rounds : Nat) :
    SameQueues k (Kernel.osEventTaskRdyAll e pmsg pendStat rounds k) :=
  osEventTaskRdyAll_induct (fun k' h => h.trans (osEventTaskRdy k' e pmsg pendStat)) rounds (refl k)

theorem setRing (k : Kernel) (e : Nat) (ring : Ring) : SameQueues k (k.setRing e ring) where
  blocks := ⟨rfl, rfl⟩
  ptr := fun _ => rfl
  free := rfl
  start := by
    intro e'
    by_cases h : (k.osEvent e').osEventPtr = (k.osEvent e).osEventPtr
    · simp [Kernel.setRing, Kernel.queue, h]
    · simp [Kernel.setRing, Kernel.queue, h]

theorem osqPost (e : Nat) (pmsg : Ptr) (k : Kernel) : SameQueues k (osqPost e pmsg k).1 := by
  unfold Ucos.osqPost
  split
  · exact refl k
  split
  · exact osEventTaskRdy k e pmsg .ok
  simp only []
  split
  · exact refl k
  · exact (setRing k e _).trans ⟨⟨rfl, rfl⟩, fun _ => rfl, rfl, fun _ => rfl⟩

theorem osqPendEnter (prio : Prio) (e timeout : Nat) (k : Kernel) :
    SameQueues k (osqPendEnter prio e timeout k).1 := by
  unfold Ucos.osqPendEnter
  split
  · exact refl k
  simp only []
  split
  · exact setRing k e _
  · exact ⟨⟨by simp, by simp⟩, by simp, rfl, by simp⟩

theorem osqPendLeave (prio : Prio) (e : Nat) (k : Kernel) :
    SameQueues k (osqPendLeave prio e k).1 := by
  cases h : (k.osTcb prio).osTcbStatPend with
  | ok => simp only [Ucos.osqPendLeave, h]; exact ⟨⟨rfl, rfl⟩, fun _ => rfl, rfl, fun _ => rfl⟩
  | abort => simp only [Ucos.osqPendLeave, h]; exact ⟨⟨rfl, rfl⟩, fun _ => rfl, rfl, fun _ => rfl⟩
  | timedOut => simp only [Ucos.osqPendLeave, h]; exact ⟨⟨by simp, by simp⟩, by simp, rfl, by simp⟩

end SameQueues

/-- A queue which `OSQCreate` has made is new, and has a free `OS_Q` and the storage it was given. -/
theorem osqCreate_queues (start size : Nat) (k : Kernel) :
    osqCreate start size k = (k, 0) ∨
    ∃ pevent events pq queues, k.osEventFreeList = pevent :: events ∧ k.osQFreeList = pq :: queues ∧
      osqCreate start size k =
        ({ k with
            osEventFreeList := events
            osQFreeList := queues
            osQ := Function.update k.osQ pq ⟨start, Ring.empty size⟩
            osEvent := Function.update k.osEvent pevent ⟨.q, pq, fun _ => false⟩ }, pevent) := by
  unfold osqCreate
  cases hev : k.osEventFreeList with
  | nil => exact Or.inl rfl
  | cons pevent events =>
    cases hq : k.osQFreeList with
    | nil => exact Or.inl rfl
    | cons pq queues => exact Or.inr ⟨pevent, events, pq, queues, rfl, rfl, rfl⟩

/-- Each queue has a control block and an `OS_Q` of its own, and neither is free. -/
structure BlocksApart (k : Kernel) : Prop where
  events : k.osEventFreeList.Nodup
  queues : k.osQFreeList.Nodup
  free : ∀ e ∈ k.osEventFreeList, k.type e ≠ .q
  used : ∀ e, k.type e = .q → (k.osEvent e).osEventPtr ∉ k.osQFreeList
  own : ∀ e e', k.type e = .q → k.type e' = .q →
    (k.osEvent e).osEventPtr = (k.osEvent e').osEventPtr → e = e'

namespace BlocksApart

theorem of_sameQueues (h : BlocksApart k) (hs : SameQueues k k') : BlocksApart k' where
  events := by rw [hs.blocks.2]; exact h.events
  queues := by rw [hs.free]; exact h.queues
  free := by rw [hs.blocks.2, hs.blocks.1]; exact h.free
  used := by
    intro e he
    rw [hs.blocks.1] at he
    rw [hs.ptr, hs.free]
    exact h.used e he
  own := by
    intro e e' he he' hp
    rw [hs.blocks.1] at he he'
    rw [hs.ptr, hs.ptr] at hp
    exact h.own e e' he he' hp

/-- The block of a queue is not free. -/
theorem not_mem_free (h : BlocksApart k) (he : k.type e = .q) : e ∉ k.osEventFreeList :=
  fun hmem => h.free e hmem he

theorem osqCreate (h : BlocksApart k) (start size : Nat) : BlocksApart (osqCreate start size k).1 := by
  rcases osqCreate_queues start size k with hfail | ⟨pevent, events, pq, queues, hev, hpq, heq⟩
  · rw [hfail]
    exact h
  rw [heq]
  have hevents := h.events
  have hqueues := h.queues
  rw [hev, List.nodup_cons] at hevents
  rw [hpq, List.nodup_cons] at hqueues
  -- an older queue has neither the block nor the `OS_Q` of the new one
  have hold : ∀ e, e ≠ pevent → k.type e = .q →
      (k.osEvent e).osEventPtr ≠ pq ∧ (k.osEvent e).osEventPtr ∉ queues := by
    intro e hne he
    have hused := h.used e he
    rw [hpq, List.mem_cons, not_or] at hused
    exact hused
  refine ⟨hevents.2, hqueues.2, ?_, ?_, ?_⟩
  · intro e he
    have hne : e ≠ pevent := fun heq => hevents.1 (heq ▸ he)
    have hfree := h.free e (by rw [hev]; exact List.mem_cons_of_mem _ he)
    simpa [Kernel.type, hne] using hfree
  · intro e he
    by_cases hne : e = pevent
    · subst hne
      simpa using hqueues.1
    · simp only [Kernel.type, Function.update_of_ne hne] at he ⊢
      exact (hold e hne he).2
  · intro e e' he he' hp
    by_cases hne : e = pevent
    · by_cases hne' : e' = pevent
      · exact hne.trans hne'.symm
      · subst hne
        simp only [Kernel.type, Function.update_of_ne hne', Function.update_self] at he' hp
        exact absurd hp.symm (hold e' hne' he').1
    · by_cases hne' : e' = pevent
      · subst hne'
        simp only [Kernel.type, Function.update_of_ne hne, Function.update_self] at he hp
        exact absurd hp (hold e hne he).1
      · simp only [Kernel.type, Function.update_of_ne hne, Function.update_of_ne hne'] at he he' hp
        exact h.own e e' he he' hp

theorem osqDel (h : BlocksApart k) (e : Nat) : BlocksApart (osqDel e k).1 := by
  unfold Ucos.osqDel
  split
  · exact h
  next hq =>
  have hsame := SameQueues.osEventTaskRdyAll k e 0 .abort 64
  have h' : BlocksApart (Kernel.osEventTaskRdyAll e 0 .abort 64 k) := h.of_sameQueues hsame
  have he : (Kernel.osEventTaskRdyAll e 0 .abort 64 k).type e = .q := by
    rw [hsame.blocks.1]
    exact not_not.mp hq
  generalize Kernel.osEventTaskRdyAll e 0 .abort 64 k = k' at h' he
  refine ⟨List.nodup_cons.mpr ⟨h'.not_mem_free he, h'.events⟩,
    List.nodup_cons.mpr ⟨h'.used e he, h'.queues⟩, ?_, ?_, ?_⟩
  · intro e' hmem
    by_cases hne : e' = e
    · subst hne
      simp [Kernel.type]
    · have hfree := h'.free e' ((List.mem_cons.mp hmem).resolve_left hne)
      simpa [Kernel.type, hne] using hfree
  · intro e' he'
    have hne : e' ≠ e := by
      rintro rfl
      simp [Kernel.type] at he'
    simp only [Kernel.type, Function.update_of_ne hne] at he' ⊢
    exact fun hmem => (List.mem_cons.mp hmem).elim (fun hp => hne (h'.own e' e he' he hp))
      (h'.used e' he')
  · intro e₁ e₂ he₁ he₂ hp
    have hne₁ : e₁ ≠ e := by
      rintro rfl
      simp [Kernel.type] at he₁
    have hne₂ : e₂ ≠ e := by
      rintro rfl
      simp [Kernel.type] at he₂
    simp only [Kernel.type, Function.update_of_ne hne₁, Function.update_of_ne hne₂] at he₁ he₂ hp
    exact h'.own e₁ e₂ he₁ he₂ hp

theorem osInit : BlocksApart Kernel.osInit where
  events := by decide
  queues := by decide
  free := fun _ _ => by simp [Kernel.type, Kernel.osInit]
  used := fun _ he => by simp [Kernel.type, Kernel.osInit] at he
  own := fun _ _ he _ _ => by simp [Kernel.type, Kernel.osInit] at he

end BlocksApart

/-! ## What stays as it is -/

/-- The queue of an event is as before. -/
structure Elsewhere (k k' : Kernel) (pevent : Nat) : Prop where
  osEvent : k'.osEvent pevent = k.osEvent pevent
  queue : k'.queue pevent = k.queue pevent
  cells : k'.storage (k.queue pevent).osqStart = k.storage (k.queue pevent).osqStart

/-- The two queues do not share their storage. -/
def Distinct (k : Kernel) (pevent e : Nat) : Prop :=
  k.type e = .q → (k.queue e).osqStart ≠ (k.queue pevent).osqStart

namespace Elsewhere

theorem refl (k : Kernel) (pevent : Nat) : Elsewhere k k pevent := ⟨rfl, rfl, rfl⟩

theorem trans {k₁ k₂ : Kernel} (h₁ : Elsewhere k k₁ pevent) (h₂ : Elsewhere k₁ k₂ pevent) :
    Elsewhere k k₂ pevent where
  osEvent := h₂.osEvent.trans h₁.osEvent
  queue := h₂.queue.trans h₁.queue
  cells := by
    rw [← h₁.queue, h₂.cells, h₁.queue]
    exact h₁.cells

/-- Only control blocks have changed, and not that of the event. -/
theorem of_osEvent (hev : k'.osEvent pevent = k.osEvent pevent) (hq : k'.osQ = k.osQ)
    (hs : k'.storage = k.storage) : Elsewhere k k' pevent :=
  ⟨hev, by unfold Kernel.queue; rw [hev, hq], by rw [hs]⟩

theorem osEventTaskRdy (hne : e ≠ pevent) (pmsg : Ptr) (pendStat : PendStat) :
    Elsewhere k (k.osEventTaskRdy e pmsg pendStat) pevent := by
  unfold Kernel.osEventTaskRdy
  cases hpt (k.tbl e) with
  | none => exact refl k pevent
  | some prio => exact of_osEvent (by rw [osEvent_setTbl_of_ne hne.symm]; rfl) rfl rfl

theorem osEventTaskRdyAll (hne : e ≠ pevent) (pmsg : Ptr) (pendStat : PendStat) (rounds : Nat) :
    Elsewhere k (Kernel.osEventTaskRdyAll e pmsg pendStat rounds k) pevent :=
  osEventTaskRdyAll_induct (P := fun k' => Elsewhere k k' pevent)
    (fun _ h => h.trans (osEventTaskRdy hne pmsg pendStat)) rounds (refl k pevent)

theorem setRing (h : BlocksApart k) (hq : k.type pevent = .q) (he : k.type e = .q) (hne : e ≠ pevent)
    (ring : Ring) : Elsewhere k (k.setRing e ring) pevent := by
  have hptr : (k.osEvent pevent).osEventPtr ≠ (k.osEvent e).osEventPtr :=
    fun heq => hne (h.own e pevent he hq heq.symm)
  exact ⟨rfl, by simp [Kernel.setRing, Kernel.queue, hptr], rfl⟩

/-- `OSQPost` on another queue. -/
theorem osqPost (h : BlocksApart k) (hq : k.type pevent = .q) (hne : e ≠ pevent)
    (hd : Distinct k pevent e) (pmsg : Ptr) : Elsewhere k (osqPost e pmsg k).1 pevent := by
  unfold Ucos.osqPost
  split
  · exact refl k pevent
  next he =>
  split
  · exact osEventTaskRdy hne pmsg .ok
  simp only []
  split
  · exact refl k pevent
  · have hother := hd (not_not.mp he)
    have hring := setRing h hq (not_not.mp he) hne (k.queue e).ring.push
    refine hring.trans ⟨rfl, rfl, ?_⟩
    rw [hring.queue]
    exact Function.update_of_ne hother.symm _ _

/-- `OSQPend` on another queue. -/
theorem osqPendEnter (h : BlocksApart k) (hq : k.type pevent = .q) (hne : e ≠ pevent) (prio : Prio)
    (timeout : Nat) : Elsewhere k (osqPendEnter prio e timeout k).1 pevent := by
  unfold Ucos.osqPendEnter
  split
  · exact refl k pevent
  next he =>
  simp only []
  split
  · exact setRing h hq (not_not.mp he) hne _
  · exact of_osEvent (by rw [osEvent_setTbl_of_ne hne.symm]; rfl) rfl rfl

/-- A task which is not in the wait list of the queue comes out of `OSQPend`, on whatever queue. -/
theorem osqPendLeave (ht : k.tbl pevent prio = false) (e : Nat) :
    Elsewhere k (osqPendLeave prio e k).1 pevent := by
  cases h : (k.osTcb prio).osTcbStatPend with
  | ok => simp only [Ucos.osqPendLeave, h]; exact of_osEvent rfl rfl rfl
  | abort => simp only [Ucos.osqPendLeave, h]; exact of_osEvent rfl rfl rfl
  | timedOut =>
    simp only [Ucos.osqPendLeave, h]
    refine of_osEvent ?_ rfl rfl
    by_cases hne : pevent = e
    · subst hne
      rw [osEvent_setTbl_false (by simpa using ht)]
      rfl
    · rw [osEvent_setTbl_of_ne hne]
      rfl

/-- `OSQDel` of another queue. -/
theorem osqDel (hne : e ≠ pevent) : Elsewhere k (osqDel e k).1 pevent := by
  unfold Ucos.osqDel
  split
  · exact refl k pevent
  · exact (osEventTaskRdyAll hne 0 .abort 64).trans
      (of_osEvent (Function.update_of_ne hne.symm _ _) rfl rfl)

/-- `OSQCreate` of another queue. -/
theorem osqCreate (h : BlocksApart k) (hq : k.type pevent = .q) (start size : Nat) :
    Elsewhere k (osqCreate start size k).1 pevent := by
  rcases osqCreate_queues start size k with hfail | ⟨pevent', events, pq, queues, hev, hpq, heq⟩
  · rw [hfail]
    exact refl k pevent
  have hne : pevent ≠ pevent' := by
    rintro rfl
    exact h.not_mem_free hq (by rw [hev]; exact List.mem_cons_self)
  have hptr : (k.osEvent pevent).osEventPtr ≠ pq := by
    intro hp
    exact h.used pevent hq (by rw [hpq, hp]; exact List.mem_cons_self)
  rw [heq]
  exact ⟨Function.update_of_ne hne _ _, by simp [Kernel.queue, hne, hptr], rfl⟩

end Elsewhere

/-! ## The control blocks of the tasks -/

theorem tcb_osEventTaskRdy (ht : k.tbl e t = false) (pmsg : Ptr) (pendStat : PendStat) :
    (k.osEventTaskRdy e pmsg pendStat).osTcb t = k.osTcb t ∧
      (k.osEventTaskRdy e pmsg pendStat).tbl e t = false := by
  unfold Kernel.osEventTaskRdy
  cases hh : hpt (k.tbl e) with
  | none => exact ⟨rfl, ht⟩
  | some prio =>
    have hne : t ≠ prio := by
      rintro rfl
      rw [hpt_some hh] at ht
      cases ht
    exact ⟨by rw [osTcb_setTbl, osTcb_setTcb_of_ne hne], by simp [hne, ht]⟩

/-- `OSQPost` and `OSQDel` leave a task alone which does not wait for the queue. -/
theorem osTcb_osqPost (ht : k.tbl e t = false) (pmsg : Ptr) :
    (osqPost e pmsg k).1.osTcb t = k.osTcb t := by
  unfold osqPost
  split
  · rfl
  split
  · exact (tcb_osEventTaskRdy ht pmsg .ok).1
  simp only []
  split
  · rfl
  · rfl

theorem osTcb_osqDel (ht : k.tbl e t = false) : (osqDel e k).1.osTcb t = k.osTcb t := by
  unfold osqDel
  split
  · rfl
  · exact (osEventTaskRdyAll_induct
      (P := fun k' => k'.osTcb t = k.osTcb t ∧ k'.tbl e t = false)
      (fun k' h => ⟨(tcb_osEventTaskRdy h.2 0 .abort).1.trans h.1, (tcb_osEventTaskRdy h.2 0 .abort).2⟩)
      64 ⟨rfl, ht⟩).1

theorem osTcb_osqPendEnter (hne : t ≠ prio) (e timeout : Nat) :
    (osqPendEnter prio e timeout k).1.osTcb t = k.osTcb t := by
  unfold osqPendEnter
  split
  · rfl
  simp only []
  split
  · rfl
  · exact osTcb_setTcb_of_ne hne _

theorem osTcb_osqPendLeave (hne : t ≠ prio) (e : Nat) :
    (osqPendLeave prio e k).1.osTcb t = k.osTcb t := by
  cases h : (k.osTcb prio).osTcbStatPend with
  | ok => simp only [osqPendLeave, h]; exact osTcb_setTcb_of_ne hne _
  | abort => simp only [osqPendLeave, h]; exact osTcb_setTcb_of_ne hne _
  | timedOut => simp only [osqPendLeave, h]; exact osTcb_setTcb_of_ne hne _

theorem osTcb_osqCreate (start size : Nat) (k : Kernel) :
    (osqCreate start size k).1.osTcb = k.osTcb := by
  rcases osqCreate_queues start size k with hfail | ⟨_, _, _, _, -, -, heq⟩
  · rw [hfail]
  · rw [heq]

end PlcFirmware.Ucos

namespace PlcFirmware.SysArch

open Infra Ucos

variable {np : NullPointer} {s : Sys} {k k' : Kernel} {fetching : Prio → Option Fetch} {e : Nat}
  {t : Prio}

/-! ## Who waits for what -/

/-- A task in a wait list is suspended, or its timeout has run out and it has not run since. -/
def InWait (tcb : OsTcb) : Prop :=
  (tcb.ready = false ∧ tcb.osTcbStat = true) ∨ (tcb.osTcbStatPend = .timedOut ∧ tcb.osTcbDly = 0)

/-- A task is in the wait list of the queue it fetches from, of no other. -/
def Waiting (k : Kernel) (fetching : Prio → Option Fetch) : Prop :=
  ∀ e t, k.tbl e t = true → ∃ f, fetching t = some f ∧ f.pevent = e ∧ InWait (k.osTcb t)

namespace Waiting

/-- The wait lists have become shorter, and who is in one still has not been touched. -/
theorem of_tbl (h : Waiting k fetching)
    (hk : ∀ e t, k'.tbl e t = true → k.tbl e t = true ∧ k'.osTcb t = k.osTcb t) :
    Waiting k' fetching := by
  intro e t ht
  obtain ⟨htbl, htcb⟩ := hk e t ht
  obtain ⟨f, hf, hp, hw⟩ := h e t htbl
  exact ⟨f, hf, hp, htcb ▸ hw⟩

/-- A task waits for one event only. -/
theorem unique (h : Waiting k fetching) {e' : Nat} (ht : k.tbl e t = true) (ht' : k.tbl e' t = true) :
    e = e' := by
  obtain ⟨f, hf, hp, -⟩ := h e t ht
  obtain ⟨f', hf', hp', -⟩ := h e' t ht'
  rw [hf] at hf'
  cases hf'
  exact hp.symm.trans hp'

theorem osEventTaskRdy (h : Waiting k fetching) (e : Nat) (pmsg : Ptr) (pendStat : PendStat) :
    Waiting (k.osEventTaskRdy e pmsg pendStat) fetching := by
  unfold Kernel.osEventTaskRdy
  cases hh : hpt (k.tbl e) with
  | none => exact h
  | some prio =>
    have hprio := hpt_some hh
    refine h.of_tbl fun e' t ht => ?_
    by_cases he : e' = e
    · subst he
      by_cases htp : t = prio
      · subst htp
        simp at ht
      · simp only [tbl_setTbl_self, Function.update_of_ne htp, tbl_setTcb] at ht
        exact ⟨ht, by rw [osTcb_setTbl, osTcb_setTcb_of_ne htp]⟩
    · rw [tbl_setTbl_of_ne he, tbl_setTcb] at ht
      have htp : t ≠ prio := by
        rintro rfl
        exact he (h.unique ht hprio)
      exact ⟨ht, by rw [osTcb_setTbl, osTcb_setTcb_of_ne htp]⟩

theorem osqPost (h : Waiting k fetching) (e : Nat) (pmsg : Ptr) :
    Waiting (osqPost e pmsg k).1 fetching := by
  unfold Ucos.osqPost
  split
  · exact h
  split
  · exact h.osEventTaskRdy e pmsg .ok
  simp only []
  split
  · exact h
  · exact h.of_tbl fun _ _ ht => ⟨ht, rfl⟩

theorem osqDel (h : Waiting k fetching) (e : Nat) : Waiting (osqDel e k).1 fetching := by
  unfold Ucos.osqDel
  split
  · exact h
  · have hall : Waiting (Kernel.osEventTaskRdyAll e 0 .abort 64 k) fetching :=
      osEventTaskRdyAll_induct (P := fun k' => Waiting k' fetching)
        (fun _ h => h.osEventTaskRdy e 0 .abort) 64 h
    generalize Kernel.osEventTaskRdyAll e 0 .abort 64 k = k' at hall
    refine hall.of_tbl fun e' t ht => ⟨?_, rfl⟩
    by_cases he : e' = e
    · subst he
      simpa [Kernel.tbl] using ht
    · simpa [Kernel.tbl, he] using ht

theorem osqCreate (h : Waiting k fetching) (start size : Nat) :
    Waiting (osqCreate start size k).1 fetching := by
  rcases osqCreate_queues start size k with hfail | ⟨pevent, events, pq, queues, -, -, heq⟩
  · rw [hfail]
    exact h
  · rw [heq]
    refine h.of_tbl fun e t ht => ⟨?_, rfl⟩
    by_cases he : e = pevent
    · subst he
      simp [Kernel.tbl] at ht
    · simpa [Kernel.tbl, he] using ht

theorem osTimeTick (h : Waiting k fetching) : Waiting (osTimeTick k) fetching := by
  intro e t ht
  obtain ⟨f, hf, hp, hw⟩ := h e t ht
  refine ⟨f, hf, hp, ?_⟩
  show InWait (k.osTcb t).tick
  by_cases hdly : (k.osTcb t).osTcbDly = 0
  · rw [OsTcb.tick, if_pos hdly]
    exact hw
  obtain ⟨hready, hstat⟩ := hw.resolve_right fun h => hdly h.2
  by_cases hlast : (k.osTcb t).osTcbDly = 1
  · rw [OsTcb.tick, if_neg hdly, if_pos hlast]
    exact Or.inr ⟨if_pos hstat, rfl⟩
  · rw [OsTcb.tick, if_neg hdly, if_neg hlast]
    exact Or.inl ⟨hready, hstat⟩

/-- A task calls `sys_arch_mbox_fetch`. -/
theorem fetch (h : Waiting s.kernel s.fetching) (hidle : s.fetching t = none) (mbox : Nat)
    (timeout : UInt32) :
    Waiting (s.fetch np t mbox timeout).1.kernel (s.fetch np t mbox timeout).1.fetching := by
  have hnot : ∀ e, s.kernel.tbl e t = false := by
    intro e
    by_contra htbl
    obtain ⟨f, hf, -⟩ := h e t (Bool.of_not_eq_false htbl)
    rw [hidle] at hf
    cases hf
  unfold Sys.fetch osqPendEnter
  by_cases hq : s.kernel.type (s.pQ mbox) ≠ .q
  · simp only [if_pos hq]
    exact h
  by_cases hpos : (s.kernel.queue (s.pQ mbox)).ring.entries > 0
  · simp only [if_neg hq, if_pos hpos]
    exact h.of_tbl fun _ _ ht => ⟨ht, rfl⟩
  simp only [if_neg hq, if_neg hpos]
  intro e t' ht'
  by_cases htt : t' = t
  · subst htt
    have he : e = s.pQ mbox := by
      by_contra hne
      rw [tbl_setTbl_of_ne hne, tbl_setTcb, hnot e] at ht'
      cases ht'
    exact ⟨_, Function.update_self _ _ _, he.symm, Or.inl (by simp)⟩
  · have htbl : s.kernel.tbl e t' = true := by
      by_cases he : e = s.pQ mbox
      · subst he
        simpa [htt] using ht'
      · rwa [tbl_setTbl_of_ne he, tbl_setTcb] at ht'
    obtain ⟨f, hf, hp, hw⟩ := h e t' htbl
    exact ⟨f, by rw [← hf]; exact Function.update_of_ne htt _ _, hp,
      by rw [osTcb_setTbl, osTcb_setTcb_of_ne htt]; exact hw⟩

/-- A task which runs again leaves the wait list, if it is still in it. -/
theorem resume (h : Waiting s.kernel s.fetching) {f : Fetch} (hf : s.fetching t = some f)
    (hready : (s.kernel.osTcb t).ready = true) :
    Waiting (s.resume np t f).1.kernel (s.resume np t f).1.fetching := by
  have hkernel : (s.resume np t f).1.kernel = (osqPendLeave t f.pevent s.kernel).1 := rfl
  have hfetching : (s.resume np t f).1.fetching = Function.update s.fetching t none := rfl
  rw [hkernel, hfetching]
  have hkeep : ∀ e t', (osqPendLeave t f.pevent s.kernel).1.tbl e t' = true →
      t' ≠ t ∧ s.kernel.tbl e t' = true := by
    intro e t' ht'
    have hmine : s.kernel.tbl e t = true → e = f.pevent ∧
        (s.kernel.osTcb t).osTcbStatPend = .timedOut := by
      intro htbl
      obtain ⟨f', hf', hp, hw⟩ := h e t htbl
      rw [hf] at hf'
      cases hf'
      exact ⟨hp.symm, (hw.resolve_left fun hr => by rw [hready] at hr; cases hr.1).1⟩
    cases hstat : (s.kernel.osTcb t).osTcbStatPend with
    | ok =>
      simp only [osqPendLeave, hstat, tbl_setTcb] at ht'
      refine ⟨?_, ht'⟩
      rintro rfl
      rw [(hmine ht').2] at hstat
      cases hstat
    | abort =>
      simp only [osqPendLeave, hstat, tbl_setTcb] at ht'
      refine ⟨?_, ht'⟩
      rintro rfl
      rw [(hmine ht').2] at hstat
      cases hstat
    | timedOut =>
      simp only [osqPendLeave, hstat] at ht'
      by_cases he : e = f.pevent
      · subst he
        by_cases htt : t' = t
        · subst htt
          simp at ht'
        · exact ⟨htt, by simpa [htt] using ht'⟩
      · rw [tbl_setTbl_of_ne he, tbl_setTcb] at ht'
        refine ⟨?_, ht'⟩
        rintro rfl
        exact he (hmine ht').1
  intro e t' ht'
  obtain ⟨htt, htbl⟩ := hkeep e t' ht'
  obtain ⟨f', hf', hp, hw⟩ := h e t' htbl
  exact ⟨f', by rw [Function.update_of_ne htt]; exact hf', hp, by
    rw [osTcb_osqPendLeave htt]; exact hw⟩

end Waiting

/-- The queues have their own blocks, and the tasks wait for the queues they fetch from. -/
structure Sound (s : Sys) : Prop where
  apart : BlocksApart s.kernel
  waiting : Waiting s.kernel s.fetching

namespace Sound

theorem start : Sound Sys.start := ⟨BlocksApart.osInit, fun _ _ ht => by cases ht⟩

/-- **A step keeps the blocks of the queues apart, and nobody waits for two queues.** -/
theorem step (np : NullPointer) (h : Sound s) (i : Input) : Sound ((system np).step s i).1 := by
  cases i with
  | new mbox size => exact ⟨h.apart.osqCreate _ _, h.waiting.osqCreate _ _⟩
  | free mbox => exact ⟨h.apart.osqDel _, h.waiting.osqDel _⟩
  | setInvalid mbox => exact h
  | post producer mbox msg =>
    simp only [system, Sys.step]
    split
    · exact h
    · exact ⟨h.apart, h.waiting⟩
  | retry producer =>
    simp only [system, Sys.step]
    split
    · exact h
    · next mbox msg _ =>
      have ht : Sound (sysMboxTrypost np mbox msg s).1 :=
        ⟨h.apart.of_sameQueues (SameQueues.osqPost _ _ _), h.waiting.osqPost _ _⟩
      split
      · exact ⟨ht.apart, ht.waiting⟩
      · exact ht
  | trypost mbox msg =>
    exact ⟨h.apart.of_sameQueues (SameQueues.osqPost _ _ _), h.waiting.osqPost _ _⟩
  | fetch task mbox timeout =>
    simp only [system, Sys.step]
    split
    · exact h
    · next hidle =>
      refine ⟨?_, h.waiting.fetch hidle mbox timeout⟩
      have hsame := SameQueues.osqPendEnter task (s.pQ mbox) (ucosTimeout timeout).toNat s.kernel
      unfold Sys.fetch
      split
      · next heq => exact h.apart.of_sameQueues (by rw [heq] at hsame; exact hsame)
      · next heq => exact h.apart.of_sameQueues (by rw [heq] at hsame; exact hsame)
  | resume task =>
    simp only [system, Sys.step]
    split
    · next f hf =>
      split
      · next hready =>
        exact ⟨h.apart.of_sameQueues (SameQueues.osqPendLeave task f.pevent s.kernel),
          h.waiting.resume hf hready⟩
      · exact h
    · exact h
  | tick =>
    exact ⟨h.apart.of_sameQueues ⟨⟨rfl, rfl⟩, fun _ => rfl, rfl, fun _ => rfl⟩, h.waiting.osTimeTick⟩

/-- **Along every history.** -/
theorem run (np : NullPointer) (is : List Input) : Sound ((system np).run Sys.start is) :=
  ((system np).run_invariant' Sound (fun _ i h => h.step np i) start is).2

end Sound

end PlcFirmware.SysArch
