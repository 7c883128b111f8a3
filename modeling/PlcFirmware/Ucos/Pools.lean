import PlcFirmware.Infra.FreeList
import PlcFirmware.Ucos.Lists
import PlcFirmware.Ucos.QueueCalls

/-!
# Control blocks

The kernel has 22 control blocks of tasks, 30 of events and 10 of queues. Each is free or in use, and
none is in use twice.

* `Pools` — where the control blocks are
* `Pools.freeEvent`, `Pools.freeQ`, `Pools.osTcbInit` and so on — taking one and giving it back
-/

namespace PlcFirmware.Ucos

open Infra

/-- `OS_MAX_TASKS + OS_N_SYS_TASKS` -/
def osMaxTcbs : Nat := 22

/-- `OS_MAX_EVENTS` -/
def osMaxEvents : Nat := 30

/-- `OS_MAX_QS` -/
def osMaxQs : Nat := 10

/-- The queue control block is the one of a queue. -/
def Os.usesQ (s : Os) (pq : Nat) : Prop :=
  ∃ e, (s.osEvent e).osEventType = .q ∧ (s.osEvent e).osEventPtr = pq

/-- Every control block is free or in use, none twice; the idle task is the last of `OSTCBList`. -/
structure Pools (s : Os) : Prop where
  task_iff : ∀ p, p ∈ s.osTcbList ↔ s.osTcbPrioTbl p = true
  task_nodup : s.osTcbList.Nodup
  idle_last : ∃ l, s.osTcbList = l ++ [idlePrio]
  task_count : s.osTcbList.length + s.osTcbFree = osMaxTcbs
  event : FreeList (fun e => 1 ≤ e ∧ e ≤ osMaxEvents)
    (fun e => (s.osEvent e).osEventType ≠ .unused) s.osEventFreeList
  q : FreeList (· < osMaxQs) s.usesQ s.osQFreeList
  q_one : ∀ e e', (s.osEvent e).osEventType = .q → (s.osEvent e').osEventType = .q →
    (s.osEvent e).osEventPtr = (s.osEvent e').osEventPtr → e = e'

/-- No control block has been taken or given back. -/
structure SamePools (s s' : Os) : Prop where
  tbl : s'.osTcbPrioTbl = s.osTcbPrioTbl
  list : s'.osTcbList = s.osTcbList
  free : s'.osTcbFree = s.osTcbFree
  freeList : s'.osEventFreeList = s.osEventFreeList
  qFree : s'.osQFreeList = s.osQFreeList
  type : ∀ e, (s'.osEvent e).osEventType = (s.osEvent e).osEventType
  ptr : ∀ e, (s'.osEvent e).osEventPtr = (s.osEvent e).osEventPtr

variable {s s' s'' : Os} {p : Prio} {pevent : Nat}

theorem Moves.samePools (h : Moves s s') : SamePools s s' :=
  ⟨h.tbl, h.list, h.free, h.freeList, h.qFree, h.type, h.eventPtr⟩

theorem SamePools.trans (h : SamePools s s') (h' : SamePools s' s'') : SamePools s s'' where
  tbl := h'.tbl.trans h.tbl
  list := h'.list.trans h.list
  free := h'.free.trans h.free
  freeList := h'.freeList.trans h.freeList
  qFree := h'.qFree.trans h.qFree
  type e := (h'.type e).trans (h.type e)
  ptr e := (h'.ptr e).trans (h.ptr e)

theorem SamePools.setCnt (s : Os) (pevent cnt : Nat) : SamePools s (s.setCnt pevent cnt) := by
  refine ⟨rfl, rfl, rfl, rfl, rfl, fun e => ?_, fun e => ?_⟩
  · by_cases he : e = pevent
    · subst he; simp [Os.setCnt]
    · simp [Os.setCnt, he]
  · by_cases he : e = pevent
    · subst he; simp [Os.setCnt]
    · simp [Os.setCnt, he]

theorem SamePools.setRing (s : Os) (pevent : Nat) (ring : Ring) : SamePools s (s.setRing pevent ring) :=
  ⟨rfl, rfl, rfl, rfl, rfl, fun _ => rfl, fun _ => rfl⟩

theorem SamePools.setCell (s : Os) (pevent i : Nat) (pmsg : Ptr) :
    SamePools s (s.setCell pevent i pmsg) :=
  ⟨rfl, rfl, rfl, rfl, rfl, fun _ => rfl, fun _ => rfl⟩

theorem Pools.congr (h : Pools s) (hs : SamePools s s') : Pools s' where
  task_iff p := by rw [hs.list, hs.tbl]; exact h.task_iff p
  task_nodup := by rw [hs.list]; exact h.task_nodup
  idle_last := by rw [hs.list]; exact h.idle_last
  task_count := by rw [hs.list, hs.free]; exact h.task_count
  event := by
    rw [hs.freeList]
    exact h.event.congr fun e => by rw [hs.type]
  q := by
    rw [hs.qFree]
    refine h.q.congr fun pq => ?_
    simp only [Os.usesQ, hs.type, hs.ptr]
  q_one e e' he he' heq := by
    rw [hs.type] at he he'
    rw [hs.ptr, hs.ptr] at heq
    exact h.q_one e e' he he' heq

/-- The idle task exists, and it is behind all the others. -/
theorem Pools.takeWhile_idle (h : Pools s) {q : Prio} :
    q ∈ s.osTcbList.takeWhile (· ≠ idlePrio) ↔ q ≠ idlePrio ∧ s.osTcbPrioTbl q = true := by
  obtain ⟨l, hl⟩ := h.idle_last
  have hnd := h.task_nodup
  rw [hl, List.nodup_append] at hnd
  have hall : ∀ x ∈ l, decide (x ≠ idlePrio) = true := fun x hx =>
    decide_eq_true (hnd.2.2 x hx idlePrio (List.mem_singleton_self _))
  have htake : s.osTcbList.takeWhile (· ≠ idlePrio) = l := by
    rw [hl, List.takeWhile_append_of_pos hall]
    simp
  rw [htake, ← h.task_iff, hl, List.mem_append, List.mem_singleton]
  constructor
  · exact fun hq => ⟨of_decide_eq_true (hall q hq), Or.inl hq⟩
  · rintro ⟨hne, hq | hq⟩
    · exact hq
    · exact absurd hq hne

/-- Only one event has changed its object. -/
structure Retypes (s s' : Os) (pevent : Nat) : Prop where
  tbl : s'.osTcbPrioTbl = s.osTcbPrioTbl
  list : s'.osTcbList = s.osTcbList
  free : s'.osTcbFree = s.osTcbFree
  other : ∀ e, e ≠ pevent → s'.osEvent e = s.osEvent e

theorem Retypes.update {ev : Event} {rest queues : List Nat} {q : Nat → OsQ} :
    Retypes s { s with
      osEventFreeList := rest
      osQFreeList := queues
      osQ := q
      osEvent := Function.update s.osEvent pevent ev } pevent :=
  ⟨rfl, rfl, rfl, fun _ he => Function.update_of_ne he _ _⟩

/-- Where the event neither was nor is a queue, the queues stay as they are. -/
theorem Pools.queues (h : Pools s) (hs : Retypes s s' pevent)
    (hq : (s.osEvent pevent).osEventType ≠ .q) (hq' : (s'.osEvent pevent).osEventType ≠ .q) :
    (∀ pq, s'.usesQ pq ↔ s.usesQ pq) ∧
      ∀ e e', (s'.osEvent e).osEventType = .q → (s'.osEvent e').osEventType = .q →
        (s'.osEvent e).osEventPtr = (s'.osEvent e').osEventPtr → e = e' := by
  have hno : ∀ e, (s.osEvent e).osEventType = .q → s'.osEvent e = s.osEvent e := by
    refine fun e he => hs.other e ?_
    rintro rfl
    exact hq he
  have hno' : ∀ e, (s'.osEvent e).osEventType = .q → s'.osEvent e = s.osEvent e := by
    refine fun e he => hs.other e ?_
    rintro rfl
    exact hq' he
  refine ⟨fun pq => ⟨?_, ?_⟩, fun e e' he he' heq => ?_⟩
  · rintro ⟨e, he, hptr⟩
    have hsame := hno' e he
    rw [hsame] at he hptr
    exact ⟨e, he, hptr⟩
  · rintro ⟨e, he, hptr⟩
    have hsame := hno e he
    rw [← hsame] at he hptr
    exact ⟨e, he, hptr⟩
  · have hsame := hno' e he
    have hsame' := hno' e' he'
    rw [hsame] at he heq
    rw [hsame'] at he' heq
    exact h.q_one e e' he he' heq

/-- The first free event becomes an object other than a queue. -/
theorem Pools.takeEvent {rest : List Nat} (h : Pools s) (hfree : s.osEventFreeList = pevent :: rest)
    (hs : Retypes s s' pevent) (hrest : s'.osEventFreeList = rest)
    (hqs : s'.osQFreeList = s.osQFreeList)
    (htype : (s'.osEvent pevent).osEventType ≠ .unused)
    (hq : (s'.osEvent pevent).osEventType ≠ .q) : Pools s' := by
  have hevent := h.event
  rw [hfree] at hevent
  have hunused := not_not.mp hevent.head.2
  obtain ⟨huses, hone⟩ := h.queues hs (by rw [hunused]; decide) hq
  refine ⟨?_, ?_, ?_, ?_, ?_, ?_, hone⟩
  · rw [hs.list, hs.tbl]; exact h.task_iff
  · rw [hs.list]; exact h.task_nodup
  · rw [hs.list]; exact h.idle_last
  · rw [hs.list, hs.free]; exact h.task_count
  · rw [hrest]
    refine hevent.take fun e => ?_
    by_cases he : e = pevent
    · rw [he]
      exact iff_of_true htype (Or.inl rfl)
    · rw [hs.other e he]
      exact ⟨Or.inr, fun hor => hor.resolve_left he⟩
  · rw [hqs]
    exact h.q.congr huses

/-- The first free event and the first free `OS_Q` become a queue. -/
theorem Pools.takeQ {rest queues : List Nat} {pq : Nat} (h : Pools s)
    (hfree : s.osEventFreeList = pevent :: rest) (hqfree : s.osQFreeList = pq :: queues)
    (hs : Retypes s s' pevent) (hrest : s'.osEventFreeList = rest)
    (hqs : s'.osQFreeList = queues)
    (htype : (s'.osEvent pevent).osEventType = .q)
    (hptr : (s'.osEvent pevent).osEventPtr = pq) : Pools s' := by
  have hevent := h.event
  rw [hfree] at hevent
  have hunused := not_not.mp hevent.head.2
  have hqpool := h.q
  rw [hqfree] at hqpool
  have hnew := hqpool.head.2
  have hno : ∀ e, (s.osEvent e).osEventType = .q → e ≠ pevent := by
    rintro e he rfl
    rw [hunused] at he
    cases he
  refine ⟨?_, ?_, ?_, ?_, ?_, ?_, ?_⟩
  · rw [hs.list, hs.tbl]; exact h.task_iff
  · rw [hs.list]; exact h.task_nodup
  · rw [hs.list]; exact h.idle_last
  · rw [hs.list, hs.free]; exact h.task_count
  · rw [hrest]
    refine hevent.take fun e => ?_
    by_cases he : e = pevent
    · rw [he, htype]
      exact iff_of_true (by decide) (Or.inl rfl)
    · rw [hs.other e he]
      exact ⟨Or.inr, fun hor => hor.resolve_left he⟩
  · rw [hqs]
    refine hqpool.take fun pq' => ⟨?_, ?_⟩
    · rintro ⟨e, he, hp⟩
      by_cases hep : e = pevent
      · subst hep
        exact Or.inl (hp.symm.trans hptr)
      · rw [hs.other e hep] at he hp
        exact Or.inr ⟨e, he, hp⟩
    · rintro (rfl | ⟨e, he, hp⟩)
      · exact ⟨pevent, htype, hptr⟩
      · have hne := hno e he
        rw [← hs.other e hne] at he hp
        exact ⟨e, he, hp⟩
  · -- the new queue has an `OS_Q` of its own
    have hone : ∀ e, e ≠ pevent → (s'.osEvent e).osEventType = .q →
        (s'.osEvent e).osEventPtr ≠ pq := by
      intro e hep he hp
      rw [hs.other e hep] at he hp
      exact hnew ⟨e, he, hp⟩
    intro e e' he he' heq
    by_cases hep : e = pevent
    · by_cases hep' : e' = pevent
      · rw [hep, hep']
      · rw [hep, hptr] at heq
        exact absurd heq.symm (hone e' hep' he')
    · by_cases hep' : e' = pevent
      · rw [hep', hptr] at heq
        exact absurd heq (hone e hep he)
      · rw [hs.other e hep] at he heq
        rw [hs.other e' hep'] at he' heq
        exact h.q_one e e' he he' heq

/-- An object other than a queue is given back. -/
theorem Pools.freeEvent (h : Pools s) (htype : (s.osEvent pevent).osEventType ≠ .unused)
    (hq : (s.osEvent pevent).osEventType ≠ .q) : Pools (s.freeEvent pevent) := by
  have hs : Retypes s (s.freeEvent pevent) pevent :=
    ⟨rfl, rfl, rfl, fun e he => Function.update_of_ne he _ _⟩
  obtain ⟨huses, hone⟩ := h.queues hs hq (by simp [Os.freeEvent])
  refine ⟨h.task_iff, h.task_nodup, h.idle_last, h.task_count, h.event.give htype fun e => ?_,
    h.q.congr huses, hone⟩
  by_cases he : e = pevent
  · subst he
    simp [Os.freeEvent]
  · rw [hs.other e he]
    exact ⟨fun hu => ⟨he, hu⟩, And.right⟩

/-- A queue is given back, with its `OS_Q`. -/
theorem Pools.freeQ (h : Pools s) (htype : (s.osEvent pevent).osEventType = .q) :
    Pools ((s.freeQ pevent).freeEvent pevent) := by
  have hno' : ∀ e, (((s.freeQ pevent).freeEvent pevent).osEvent e).osEventType = .q →
      e ≠ pevent := by
    rintro e he rfl
    simp [Os.freeEvent] at he
  have hother : ∀ e, e ≠ pevent →
      ((s.freeQ pevent).freeEvent pevent).osEvent e = s.osEvent e :=
    fun e he => Function.update_of_ne he _ _
  refine ⟨h.task_iff, h.task_nodup, h.idle_last, h.task_count,
    h.event.give (by rw [htype]; decide) fun e => ?_,
    h.q.give ⟨pevent, htype, rfl⟩ fun pq => ⟨?_, ?_⟩, fun e e' he he' heq => ?_⟩
  · by_cases he : e = pevent
    · subst he
      simp [Os.freeEvent]
    · rw [hother e he]
      exact ⟨fun hu => ⟨he, hu⟩, And.right⟩
  · rintro ⟨e, he, hptr⟩
    have hne := hno' e he
    rw [hother e hne] at he hptr
    refine ⟨?_, e, he, hptr⟩
    rintro rfl
    exact hne (h.q_one e pevent he htype hptr)
  · rintro ⟨hne, e, he, hptr⟩
    have hep : e ≠ pevent := by
      rintro rfl
      exact hne hptr.symm
    rw [← hother e hep] at he hptr
    exact ⟨e, he, hptr⟩
  · have hne := hno' e he
    have hne' := hno' e' he'
    rw [hother e hne] at he heq
    rw [hother e' hne'] at he' heq
    exact h.q_one e e' he he' heq

/-- A control block is taken for a task. -/
theorem Pools.osTcbInit (h : Pools s) (htbl : s.osTcbPrioTbl p = false) (hfree : s.osTcbFree ≠ 0) :
    Pools (s.osTcbInit p) := by
  have hnew : p ∉ s.osTcbList := fun hm => by
    rw [(h.task_iff p).mp hm] at htbl
    cases htbl
  refine ⟨fun q => ?_, List.nodup_cons.mpr ⟨hnew, h.task_nodup⟩, ?_, ?_, h.event, h.q, h.q_one⟩
  · show q ∈ p :: s.osTcbList ↔ Function.update s.osTcbPrioTbl p true q = true
    by_cases hq : q = p
    · subst hq
      simp
    · rw [List.mem_cons, Function.update_of_ne hq, ← h.task_iff q]
      exact ⟨fun hor => hor.resolve_left hq, Or.inr⟩
  · obtain ⟨l, hl⟩ := h.idle_last
    exact ⟨p :: l, congrArg (p :: ·) hl⟩
  · show (s.osTcbList.length + 1) + (s.osTcbFree - 1) = osMaxTcbs
    have := h.task_count
    omega

/-- The control block of a task other than the idle task is given back. -/
theorem Pools.delete (h : Pools s) (hp : s.osTcbPrioTbl p = true) (hidle : p ≠ idlePrio)
    (htbl : s'.osTcbPrioTbl = Function.update s.osTcbPrioTbl p false)
    (hlist : s'.osTcbList = s.osTcbList.erase p) (hfree : s'.osTcbFree = s.osTcbFree + 1)
    (hother : s'.osEventFreeList = s.osEventFreeList ∧ s'.osQFreeList = s.osQFreeList)
    (hevent : ∀ e, (s'.osEvent e).osEventType = (s.osEvent e).osEventType ∧
      (s'.osEvent e).osEventPtr = (s.osEvent e).osEventPtr) : Pools s' := by
  have hmem := (h.task_iff p).mpr hp
  refine ⟨fun q => ?_, ?_, ?_, ?_, ?_, ?_, fun e e' he he' heq => ?_⟩
  · rw [hlist, htbl, h.task_nodup.mem_erase_iff]
    by_cases hq : q = p
    · subst hq
      simp
    · rw [Function.update_of_ne hq, h.task_iff q]
      exact ⟨And.right, fun hm => ⟨hq, hm⟩⟩
  · rw [hlist]
    exact h.task_nodup.erase p
  · obtain ⟨l, hl⟩ := h.idle_last
    have hpl : p ∈ l := by
      rw [hl, List.mem_append, List.mem_singleton] at hmem
      exact hmem.resolve_right hidle
    exact ⟨l.erase p, by rw [hlist, hl, List.erase_append_left _ hpl]⟩
  · rw [hlist, hfree, List.length_erase_of_mem hmem]
    have := List.length_pos_of_mem hmem
    have := h.task_count
    omega
  · rw [hother.1]
    exact h.event.congr fun e => by rw [(hevent e).1]
  · rw [hother.2]
    refine h.q.congr fun pq => ?_
    simp only [Os.usesQ, fun e => (hevent e).1, fun e => (hevent e).2]
  · rw [(hevent e).1] at he
    rw [(hevent e').1] at he'
    rw [(hevent e).2, (hevent e').2] at heq
    exact h.q_one e e' he he' heq

end PlcFirmware.Ucos
