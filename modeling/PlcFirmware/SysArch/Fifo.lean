import PlcFirmware.SysArch.Apart

/-!
# Mailboxes keep the order

A mailbox with one consumer, among others. A message goes into the circular buffer of the queue, or
straight into the control block of the consumer while that is suspended, also after its timeout has
run out and before it runs again. `Holds` says which messages are on their way, the one which was
handed over first.

* `Holds.osqPost`, `Holds.osqPendEnter`, `Holds.osqPendLeave`, `Holds.osTimeTick` — the kernel
  functions on a queue are those of a list
* `Carries.step` — a step takes messages in at one end and gives them out at the other
* `mailbox_fifo` — what has been fetched is a prefix of what has been posted, and a fetch gives the
  next message
-/

namespace PlcFirmware.Ucos

open Infra

/--
Where the consumer `c` of an event is, whether it is in `OSQPend`, and what has been handed over to
it.
-/
inductive Consumer (k : Kernel) (pevent : Nat) (c : Prio) : Bool → List Ptr → Prop
  | idle (tbl : k.tbl pevent c = false) : Consumer k pevent c false []
  | waiting (tbl : k.tbl pevent c = true) (entries : (k.queue pevent).ring.entries = 0)
      (ready : (k.osTcb c).ready = false) (stat : (k.osTcb c).osTcbStat = true)
      (pend : (k.osTcb c).osTcbStatPend = .ok) : Consumer k pevent c true []
  | timedOut (tbl : k.tbl pevent c = true) (entries : (k.queue pevent).ring.entries = 0)
      (dly : (k.osTcb c).osTcbDly = 0) (pend : (k.osTcb c).osTcbStatPend = .timedOut) :
      Consumer k pevent c true []
  | handed (tbl : k.tbl pevent c = false) (ready : (k.osTcb c).ready = true)
      (dly : (k.osTcb c).osTcbDly = 0) (pend : (k.osTcb c).osTcbStatPend = .ok) :
      Consumer k pevent c true [(k.osTcb c).osTcbMsg]

/--
The queue of `size` holds these messages, and the consumer `c`, its only one, is in `OSQPend` or not.
-/
structure Holds (k : Kernel) (pevent size : Nat) (c : Prio) (pends : Bool) (held : List Ptr) :
    Prop where
  type : k.type pevent = .q
  ok : (k.queue pevent).ring.Ok
  size_eq : (k.queue pevent).ring.size = size
  alone : ∀ t, t ≠ c → k.tbl pevent t = false
  split : ∃ handed, Consumer k pevent c pends handed ∧
    held = handed ++ (k.queue pevent).ring.contents (k.storage (k.queue pevent).osqStart)

/-- A consumer outside the wait list does not depend on the queue. -/
theorem Consumer.of_tbl_false {k k' : Kernel} {pevent : Nat} {c : Prio} {pends : Bool}
    {handed : List Ptr} (h : Consumer k pevent c pends handed) (ht : k.tbl pevent c = false)
    (ht' : k'.tbl pevent c = false) (htcb : k'.osTcb c = k.osTcb c) :
    Consumer k' pevent c pends handed := by
  cases h with
  | idle => exact .idle ht'
  | waiting tbl => rw [ht] at tbl; cases tbl
  | timedOut tbl => rw [ht] at tbl; cases tbl
  | handed _ ready dly pend =>
    rw [← htcb] at ready dly pend ⊢
    exact .handed ht' ready dly pend

/-- Nothing has happened to the queue, nor to the consumer if it is in `OSQPend` on it. -/
theorem Consumer.elsewhere {k k' : Kernel} {pevent : Nat} {c : Prio} {pends : Bool}
    {handed : List Ptr} (h : Consumer k pevent c pends handed) (he : Elsewhere k k' pevent)
    (htcb : pends = true → k'.osTcb c = k.osTcb c) : Consumer k' pevent c pends handed := by
  have htbl : k'.tbl pevent = k.tbl pevent := congrArg OsEvent.osEventTbl he.osEvent
  have hq := he.queue
  cases h with
  | idle tbl => exact .idle (by rw [htbl]; exact tbl)
  | waiting tbl entries ready stat pend =>
    rw [← htcb rfl] at ready stat pend
    exact .waiting (by rw [htbl]; exact tbl) (by rw [hq]; exact entries) ready stat pend
  | timedOut tbl entries dly pend =>
    rw [← htcb rfl] at dly pend
    exact .timedOut (by rw [htbl]; exact tbl) (by rw [hq]; exact entries) dly pend
  | handed tbl ready dly pend =>
    rw [← htcb rfl] at ready dly pend ⊢
    exact .handed (by rw [htbl]; exact tbl) ready dly pend

namespace Holds

variable {k : Kernel} {pevent size : Nat} {c : Prio} {pends : Bool} {held : List Ptr}

/-- Only the consumer can be in the wait list. -/
theorem hpt_eq (h : Holds k pevent size c pends held) :
    hpt (k.tbl pevent) = if k.tbl pevent c then some c else none := by
  cases hh : hpt (k.tbl pevent) with
  | none => rw [hpt_eq_none.mp hh c]; rfl
  | some t =>
    have ht := hpt_some hh
    by_cases htc : t = c
    · subst htc; rw [if_pos ht]
    · rw [h.alone t htc] at ht
      cases ht

/-- A consumer in the wait list waits for an empty queue. -/
theorem of_tbl (h : Holds k pevent size c pends held) (ht : k.tbl pevent c = true) :
    pends = true ∧ held = [] ∧ (k.queue pevent).ring.entries = 0 := by
  obtain ⟨handed, hc, rfl⟩ := h.split
  cases hc with
  | idle tbl => rw [tbl] at ht; cases ht
  | handed tbl => rw [tbl] at ht; cases ht
  | waiting _ entries => exact ⟨rfl, by rw [Ring.contents_eq_nil entries]; rfl, entries⟩
  | timedOut _ entries => exact ⟨rfl, by rw [Ring.contents_eq_nil entries]; rfl, entries⟩

/-- Nothing has happened to the queue and its consumer. -/
theorem elsewhere {k' : Kernel} (h : Holds k pevent size c pends held) (he : Elsewhere k k' pevent)
    (htcb : pends = true → k'.osTcb c = k.osTcb c) : Holds k' pevent size c pends held := by
  obtain ⟨handed, hc, rfl⟩ := h.split
  refine ⟨(congrArg OsEvent.osEventType he.osEvent).trans h.type, by rw [he.queue]; exact h.ok,
    by rw [he.queue]; exact h.size_eq, ?_, handed, hc.elsewhere he htcb,
    by rw [he.queue, he.cells]⟩
  intro t ht
  exact (congrFun (congrArg OsEvent.osEventTbl he.osEvent) t).trans (h.alone t ht)

/-- A consumer with a message on the way to it is ready. -/
theorem ready (h : Holds k pevent size c true held) (hne : held ≠ []) :
    (k.osTcb c).ready = true := by
  obtain ⟨handed, hc, rfl⟩ := h.split
  cases hc with
  | waiting _ entries => exact absurd (by rw [Ring.contents_eq_nil entries]; rfl) hne
  | timedOut _ entries => exact absurd (by rw [Ring.contents_eq_nil entries]; rfl) hne
  | handed _ ready => exact ready

/-- A consumer without a message on the way to it is in the wait list. -/
theorem waits (h : Holds k pevent size c true []) : k.tbl pevent c = true := by
  obtain ⟨handed, hc, heq⟩ := h.split
  cases hc with
  | waiting tbl => exact tbl
  | timedOut tbl => exact tbl
  | handed => cases heq

/-- **A post adds the message at the end; only a full queue without a consumer in wait refuses it.** -/
theorem osqPost (h : Holds k pevent size c pends held) (pmsg : Ptr) :
    ((osqPost pevent pmsg k).2 = .none ∧
      ((k.queue pevent).ring.entries < size ∨ k.tbl pevent c = true) ∧
      Holds (osqPost pevent pmsg k).1 pevent size c pends (held ++ [pmsg])) ∨
    (osqPost pevent pmsg k = (k, .qFull) ∧
      (k.queue pevent).ring.entries = size ∧ k.tbl pevent c = false) := by
  have hnq : ¬k.type pevent ≠ .q := not_not.mpr h.type
  have hhpt := h.hpt_eq
  cases ht : k.tbl pevent c with
  | true =>
    -- the message goes to the consumer, also if its timeout has run out
    obtain ⟨rfl, rfl, hentries⟩ := h.of_tbl ht
    rw [ht, if_pos rfl] at hhpt
    have hne : hpt (k.tbl pevent) ≠ none := by rw [hhpt]; exact Option.some_ne_none c
    refine Or.inl ⟨by rw [Ucos.osqPost, if_neg hnq, if_pos hne], Or.inr rfl, ?_⟩
    rw [Ucos.osqPost, if_neg hnq, if_pos hne]
    simp only [Kernel.osEventTaskRdy, hhpt]
    refine ⟨by simpa using h.type, by simpa using h.ok, by simpa using h.size_eq, ?_,
      [pmsg], ?_, ?_⟩
    · intro t htc
      simp [htc, h.alone t htc]
    · have hc : Consumer ((k.setTcb c ⟨false, .ok, 0, pmsg, true⟩).setTbl pevent c false) pevent c
          true _ := .handed (by simp) (by simp) (by simp) (by simp)
      simpa using hc
    · simp [Ring.contents_eq_nil hentries]
  | false =>
    rw [ht] at hhpt
    have heq : hpt (k.tbl pevent) = none := hhpt
    by_cases hfull : (k.queue pevent).ring.entries ≥ (k.queue pevent).ring.size
    · refine Or.inr ⟨?_, ?_, rfl⟩
      · rw [Ucos.osqPost, if_neg hnq, if_neg (not_not.mpr heq)]
        simp only [if_pos hfull]
      · have := h.ok.le
        have := h.size_eq
        omega
    · have hroom : (k.queue pevent).ring.entries < (k.queue pevent).ring.size := by omega
      have hpost : Ucos.osqPost pevent pmsg k =
          ((k.setRing pevent (k.queue pevent).ring.push).setStorage (k.queue pevent).osqStart
            (Function.update (k.storage (k.queue pevent).osqStart) (k.queue pevent).ring.qIn pmsg),
            .none) := by
        rw [Ucos.osqPost, if_neg hnq, if_neg (not_not.mpr heq)]
        simp only [if_neg hfull]
      rw [hpost]
      refine Or.inl ⟨rfl, Or.inl (h.size_eq ▸ hroom), ?_⟩
      obtain ⟨handed, hc, rfl⟩ := h.split
      refine ⟨by simpa using h.type, by simpa using h.ok.push hroom, by simpa using h.size_eq,
        by simpa using h.alone, handed, hc.of_tbl_false ht (by simpa using ht) (by simp), ?_⟩
      simp [Ring.contents_push h.ok hroom]

/-- **`OSQPend` takes the first message, or suspends the consumer.** -/
theorem osqPendEnter (h : Holds k pevent size c false held) (timeout : Nat) :
    (∃ pmsg held', held = pmsg :: held' ∧
      (osqPendEnter c pevent timeout k).2 = some (pmsg, .none) ∧
      Holds (osqPendEnter c pevent timeout k).1 pevent size c false held') ∨
    (held = [] ∧ (osqPendEnter c pevent timeout k).2 = none ∧
      Holds (osqPendEnter c pevent timeout k).1 pevent size c true []) := by
  have hnq : ¬k.type pevent ≠ .q := not_not.mpr h.type
  obtain ⟨handed, hc, rfl⟩ := h.split
  cases hc with
  | idle tbl =>
  by_cases hpos : (k.queue pevent).ring.entries > 0
  · refine Or.inl ⟨_, _, Ring.contents_pop h.ok hpos, ?_⟩
    simp only [Ucos.osqPendEnter, if_neg hnq, if_pos hpos, true_and]
    refine ⟨by simpa using h.type, by simpa using h.ok.pop hpos, by simpa using h.size_eq,
      by simpa using h.alone, [], .idle (by simpa using tbl), by simp⟩
  · have hentries : (k.queue pevent).ring.entries = 0 := by omega
    refine Or.inr ⟨by simp [Ring.contents_eq_nil hentries], ?_⟩
    simp only [Ucos.osqPendEnter, if_neg hnq, if_neg hpos, true_and]
    refine ⟨by simpa using h.type, by simpa using h.ok, by simpa using h.size_eq, ?_,
      [], .waiting (by simp) (by simpa using hentries) (by simp) (by simp) (by simp),
      by simp [Ring.contents_eq_nil hentries]⟩
    intro t htc
    simp [htc, h.alone t htc]

/--
**A consumer which runs again has the first message**, or its timeout has run out and there is none.
-/
theorem osqPendLeave (h : Holds k pevent size c true held) (hready : (k.osTcb c).ready = true) :
    (∃ pmsg held', held = pmsg :: held' ∧ (osqPendLeave c pevent k).2 = (pmsg, .none) ∧
      Holds (osqPendLeave c pevent k).1 pevent size c false held') ∨
    (held = [] ∧ (osqPendLeave c pevent k).2 = (0, .timeout) ∧
      Holds (osqPendLeave c pevent k).1 pevent size c false []) := by
  obtain ⟨handed, hc, rfl⟩ := h.split
  cases hc with
  | waiting _ _ ready => rw [hready] at ready; cases ready
  | handed tbl _ dly pend =>
    refine Or.inl ⟨_, _, rfl, ?_⟩
    simp only [Ucos.osqPendLeave, pend, true_and]
    exact ⟨by simpa using h.type, by simpa using h.ok, by simpa using h.size_eq,
      by simpa using h.alone, [], .idle (by simpa using tbl), by simp⟩
  | timedOut tbl entries dly pend =>
    refine Or.inr ⟨by simp [Ring.contents_eq_nil entries], ?_⟩
    simp only [Ucos.osqPendLeave, pend, true_and]
    refine ⟨by simpa using h.type, by simpa using h.ok, by simpa using h.size_eq, ?_,
      [], .idle (by simp), by simp [Ring.contents_eq_nil entries]⟩
    intro t htc
    simp [htc, h.alone t htc]

theorem tick_of_dly {tcb : OsTcb} (h : tcb.osTcbDly = 0) : tcb.tick = tcb := if_pos h

/-- A tick may end the wait of the consumer, the messages stay. -/
theorem osTimeTick (h : Holds k pevent size c pends held) :
    Holds (osTimeTick k) pevent size c pends held := by
  obtain ⟨handed, hc, rfl⟩ := h.split
  refine ⟨h.type, h.ok, h.size_eq, h.alone, handed, ?_, rfl⟩
  have htcb : (Ucos.osTimeTick k).osTcb c = (k.osTcb c).tick := rfl
  cases hc with
  | idle tbl => exact .idle tbl
  | handed tbl ready dly pend =>
    rw [tick_of_dly dly] at htcb
    have := Consumer.handed (k := Ucos.osTimeTick k) tbl (by rw [htcb]; exact ready)
      (by rw [htcb]; exact dly) (by rw [htcb]; exact pend)
    rwa [htcb] at this
  | timedOut tbl entries dly pend =>
    rw [tick_of_dly dly] at htcb
    exact .timedOut tbl entries (by rw [htcb]; exact dly) (by rw [htcb]; exact pend)
  | waiting tbl entries ready stat pend =>
    rcases Nat.lt_trichotomy (k.osTcb c).osTcbDly 1 with hlt | heq | hgt
    · rw [tick_of_dly (by omega)] at htcb
      exact .waiting tbl entries (by rw [htcb]; exact ready) (by rw [htcb]; exact stat)
        (by rw [htcb]; exact pend)
    · -- the last tick of the wait
      have htick : (k.osTcb c).tick =
          { k.osTcb c with
            osTcbDly := 0, osTcbStat := false, osTcbStatPend := .timedOut, ready := true } := by
        simp [OsTcb.tick, heq, stat]
      exact .timedOut tbl entries (by rw [htcb, htick]) (by rw [htcb, htick])
    · have htick : (k.osTcb c).tick =
          { k.osTcb c with osTcbDly := (k.osTcb c).osTcbDly - 1 } := by
        rw [OsTcb.tick, if_neg (by omega), if_neg (by omega)]
      exact .waiting tbl entries (by rw [htcb, htick]; exact ready) (by rw [htcb, htick]; exact stat)
        (by rw [htcb, htick]; exact pend)

/-- A new queue is empty, and nobody waits for it. -/
theorem osqCreate (start size : Nat) (c : Prio) (hsize : 0 < size)
    (h : (osqCreate start size k).2 ≠ 0) :
    Holds (osqCreate start size k).1 (osqCreate start size k).2 size c false [] := by
  unfold Ucos.osqCreate at h ⊢
  cases hev : k.osEventFreeList with
  | nil => simp [hev] at h
  | cons pevent events =>
    cases hq : k.osQFreeList with
    | nil => simp [hev, hq] at h
    | cons pq queues =>
      refine ⟨by simp [Kernel.type], ?_, ?_, ?_, [], .idle ?_, ?_⟩
      · simpa [Kernel.queue] using Ring.ok_empty hsize
      · simp [Kernel.queue, Ring.empty]
      · intro t _
        simp [Kernel.tbl]
      · simp [Kernel.tbl]
      · simp [Kernel.queue, Ring.contents_empty]

end Holds

end PlcFirmware.Ucos

namespace PlcFirmware.SysArch

open Infra Ucos

/-! ## What is posted and what is fetched -/

/-- The message which a mailbox has taken. -/
def acceptedBy (mbox : Nat) : Event → Option Ptr
  | .accepted m msg => if m = mbox then some msg else none
  | _ => none

/-- The message of a fetch which has not timed out. -/
def deliveredBy (mbox : Nat) : Event → Option Ptr
  | .fetched _ m msg ret => if m = mbox ∧ ret ≠ sysArchTimeout then some msg else none
  | _ => none

/-- A post to the mailbox itself, or to one with another queue. The address which stands for `NULL` is
not posted. -/
def Sys.MayPost (np : NullPointer) (mbox : Nat) (s : Sys) (m : Nat) (msg : Ptr) : Prop :=
  (m = mbox ∧ msg ≠ np.addr) ∨ s.pQ m ≠ s.pQ mbox

/--
What may be done while `c` is the only consumer of the mailbox. Other mailboxes are made, used and
freed by any task, as long as they do not point to the queue of this one.
-/
def Sys.Allows (np : NullPointer) (mbox : Nat) (c : Prio) (s : Sys) : Input → Prop
  | .new m _ => m ≠ mbox
  | .free m => s.pQ m ≠ s.pQ mbox
  | .setInvalid _ => True
  | .post _ _ _ => True
  | .retry producer => ∀ post ∈ s.posting producer, s.MayPost np mbox post.1 post.2
  | .trypost m msg => s.MayPost np mbox m msg
  | .fetch task m _ => (task = c ∧ m = mbox) ∨ s.pQ m ≠ s.pQ mbox
  | .resume _ => True
  | .tick => True

instance (np : NullPointer) (mbox : Nat) (s : Sys) (m : Nat) (msg : Ptr) :
    Decidable (s.MayPost np mbox m msg) := inferInstanceAs (Decidable (_ ∨ _))

/-- No queue is in the storage of the mailbox, and no task fetches from it. -/
structure Sys.Unused (s : Sys) (mbox : Nat) : Prop where
  storage : ∀ e, s.kernel.type e = .q → (s.kernel.queue e).osqStart ≠ mbox
  fetching : ∀ t f, s.fetching t = some f → f.mbox ≠ mbox

theorem NullPointer.unwrap_wrap {np : NullPointer} {msg : Ptr} (h : msg ≠ np.addr) :
    np.unwrap (np.wrap msg) = msg := by
  unfold NullPointer.unwrap NullPointer.wrap
  by_cases h0 : msg = 0
  · rw [if_pos h0, if_pos rfl, h0]
  · rw [if_neg h0, if_neg h]

/-- The task is in `sys_arch_mbox_fetch` on the mailbox. -/
def Sys.Fetches (s : Sys) (mbox : Nat) (c : Prio) : Bool := (s.fetching c).any (·.mbox == mbox)

/-- The message handed over to a consumer which has not run since. -/
def Sys.handed (s : Sys) (mbox : Nat) (c : Prio) : List Ptr :=
  if s.Fetches mbox c ∧ s.kernel.tbl (s.pQ mbox) c = false then [(s.kernel.osTcb c).osTcbMsg] else []

/-- The messages which are on their way to the consumer, the next one first. -/
def Sys.held (np : NullPointer) (mbox : Nat) (c : Prio) (s : Sys) : List Ptr :=
  let q := s.kernel.queue (s.pQ mbox)
  (s.handed mbox c ++ q.ring.contents (s.kernel.storage q.osqStart)).map np.unwrap

/-- `OSQEntries` -/
def Sys.queued (s : Sys) (mbox : Nat) : Nat := (s.kernel.queue (s.pQ mbox)).ring.entries

/-- The consumer is in the wait list of the mailbox. -/
def Sys.Waits (s : Sys) (mbox : Nat) (c : Prio) : Prop := s.kernel.tbl (s.pQ mbox) c = true

/-- What a fetch comes back with: the next message, or a timeout if there is none. -/
def Returns (mbox : Nat) (c : Prio) (es : List Event) : List Ptr → Prop
  | [] => es = [.fetched c mbox 0 sysArchTimeout]
  | msg :: _ => ∃ ret, ret ≠ sysArchTimeout ∧ es = [.fetched c mbox msg ret]

/--
How the consumer is served. A call returns the next message at once, without one the task waits. A
task which waits is made ready by a message, and comes back with it.
-/
structure Serves (np : NullPointer) (mbox : Nat) (c : Prio) (s : Sys) (held : List Ptr) : Prop where
  call : s.fetching c = none → held ≠ [] → ∀ timeout,
    Returns mbox c ((system np).step s (.fetch c mbox timeout)).2 held
  wait : s.fetching c = none → held = [] → ∀ timeout,
    ((system np).step s (.fetch c mbox timeout)).2 = [] ∧
      ((system np).step s (.fetch c mbox timeout)).1.Waits mbox c
  ready : s.Fetches mbox c → held ≠ [] → (s.kernel.osTcb c).ready = true
  resume : s.Fetches mbox c → (s.kernel.osTcb c).ready = true →
    Returns mbox c ((system np).step s (.resume c)).2 held

/-- What the system has to do with the messages on their way from the producers to the consumer. -/
structure Carries (np : NullPointer) (mbox size : Nat) (c : Prio) (s : Sys) (held : List Ptr) :
    Prop where
  sound : Sound s
  queue : ∃ raw, Holds s.kernel (s.pQ mbox) size c (s.Fetches mbox c) raw ∧ held = raw.map np.unwrap
  start : (s.kernel.queue (s.pQ mbox)).osqStart = mbox
  others : ∀ e, e ≠ s.pQ mbox → s.kernel.type e = .q → (s.kernel.queue e).osqStart ≠ mbox
  fetching : ∀ t f, s.fetching t = some f → f.mbox = mbox → t = c ∧ f.pevent = s.pQ mbox

theorem fetches_of_some {s : Sys} {mbox : Nat} {c : Prio} {f : Fetch} (hf : s.fetching c = some f) :
    s.Fetches mbox c = true ↔ f.mbox = mbox := by
  simp [Sys.Fetches, hf]

theorem fetches_of_none {s : Sys} {mbox : Nat} {c : Prio} (hf : s.fetching c = none) :
    s.Fetches mbox c = false := by
  simp [Sys.Fetches, hf]

namespace Carries

variable {np : NullPointer} {mbox size : Nat} {c : Prio} {s s' : Sys} {held : List Ptr}

theorem type (h : Carries np mbox size c s held) : s.kernel.type (s.pQ mbox) = .q := by
  obtain ⟨raw, hq, -⟩ := h.queue
  exact hq.type

theorem distinct (h : Carries np mbox size c s held) {e : Nat} (hne : e ≠ s.pQ mbox) :
    Distinct s.kernel (s.pQ mbox) e := by
  intro he
  rw [h.start]
  exact h.others e hne he

/-- The consumer is not in the wait list of another queue while it fetches from this one. -/
theorem not_tbl (h : Carries np mbox size c s held) {e : Nat} (hne : e ≠ s.pQ mbox)
    (hf : s.Fetches mbox c = true) : s.kernel.tbl e c = false := by
  by_contra ht
  obtain ⟨f, hfetch, hp, -⟩ := h.sound.waiting e c (Bool.of_not_eq_false ht)
  obtain ⟨-, hp'⟩ := h.fetching c f hfetch ((fetches_of_some hfetch).mp hf)
  exact hne (hp.symm.trans hp')

/-- A step elsewhere, which leaves each task where it is. -/
theorem of_elsewhere (h : Carries np mbox size c s held) (hs : Sound s')
    (he : Elsewhere s.kernel s'.kernel (s.pQ mbox)) (hpQ : s'.pQ mbox = s.pQ mbox)
    (hothers : ∀ e, e ≠ s.pQ mbox → s'.kernel.type e = .q → (s'.kernel.queue e).osqStart ≠ mbox)
    (hfetches : s'.Fetches mbox c = s.Fetches mbox c)
    (hfetching : ∀ t f, s'.fetching t = some f → f.mbox = mbox → s.fetching t = some f)
    (htcb : s.Fetches mbox c = true → s'.kernel.osTcb c = s.kernel.osTcb c) :
    Carries np mbox size c s' held := by
  obtain ⟨raw, hq, rfl⟩ := h.queue
  refine ⟨hs, ⟨raw, ?_, rfl⟩, ?_, ?_, ?_⟩
  · rw [hpQ, hfetches]
    exact hq.elsewhere he htcb
  · rw [hpQ, he.queue]
    exact h.start
  · rw [hpQ]
    exact hothers
  · rw [hpQ]
    exact fun t f hf hm => h.fetching t f (hfetching t f hf hm) hm

theorem others_of_sameQueues (h : Carries np mbox size c s held) {k : Kernel}
    (hs : SameQueues s.kernel k) (e : Nat) (hne : e ≠ s.pQ mbox) (he : k.type e = .q) :
    (k.queue e).osqStart ≠ mbox := by
  rw [hs.blocks.1] at he
  rw [hs.start]
  exact h.others e hne he

/-- A call on the mailbox itself. -/
theorem of_holds (h : Carries np mbox size c s held) (hs : Sound s') {raw : List Ptr}
    (hk : SameQueues s.kernel s'.kernel) (hpQ : s'.pQ = s.pQ)
    (hq : Holds s'.kernel (s.pQ mbox) size c (s'.Fetches mbox c) raw)
    (hfetching : ∀ t f, s'.fetching t = some f → f.mbox = mbox → t = c ∧ f.pevent = s.pQ mbox)
    {held' : List Ptr} (hheld : held' = raw.map np.unwrap) : Carries np mbox size c s' held' := by
  refine ⟨hs, ⟨raw, ?_, hheld⟩, ?_, ?_, ?_⟩
  · rw [hpQ]
    exact hq
  · rw [hpQ, hk.start]
    exact h.start
  · rw [hpQ]
    exact h.others_of_sameQueues hk
  · rw [hpQ]
    exact hfetching

/-- **A post is taken and its message is the last, or the queue is full and nothing happens.** -/
theorem sysMboxTrypost (h : Carries np mbox size c s held) {msg : Ptr} (hmsg : msg ≠ np.addr) :
    ((sysMboxTrypost np mbox msg s).2 = .ok ∧
      ((s.kernel.queue (s.pQ mbox)).ring.entries < size ∨ s.kernel.tbl (s.pQ mbox) c = true) ∧
      Carries np mbox size c (sysMboxTrypost np mbox msg s).1 (held ++ [msg])) ∨
    (sysMboxTrypost np mbox msg s = (s, .mem) ∧
      (s.kernel.queue (s.pQ mbox)).ring.entries = size ∧ s.kernel.tbl (s.pQ mbox) c = false) := by
  obtain ⟨raw, hq, rfl⟩ := h.queue
  rcases hq.osqPost (np.wrap msg) with ⟨herr, hroom, hpost⟩ | ⟨hpost, hfull, ht⟩
  · refine Or.inl ⟨by simp [SysArch.sysMboxTrypost, herr], hroom, ?_⟩
    have hk := SameQueues.osqPost (s.pQ mbox) (np.wrap msg) s.kernel
    have hsound : Sound (SysArch.sysMboxTrypost np mbox msg s).1 :=
      ⟨h.sound.apart.of_sameQueues hk, h.sound.waiting.osqPost _ _⟩
    refine h.of_holds hsound hk rfl hpost h.fetching ?_
    rw [List.map_append, List.map_cons, np.unwrap_wrap hmsg, List.map_nil]
  · exact Or.inr ⟨by simp [SysArch.sysMboxTrypost, hpost], hfull, ht⟩

/-- A post to another mailbox. -/
theorem sysMboxTrypost_other (h : Carries np mbox size c s held) {m : Nat}
    (hne : s.pQ m ≠ s.pQ mbox) (msg : Ptr) :
    Carries np mbox size c (SysArch.sysMboxTrypost np m msg s).1 held := by
  have hk := SameQueues.osqPost (s.pQ m) (np.wrap msg) s.kernel
  exact h.of_elsewhere ⟨h.sound.apart.of_sameQueues hk, h.sound.waiting.osqPost _ _⟩
    (Elsewhere.osqPost h.sound.apart h.type hne (h.distinct hne) _) rfl (h.others_of_sameQueues hk)
    rfl (fun _ _ hf _ => hf) fun hf => osTcb_osqPost (h.not_tbl hne hf) _

theorem acceptedIf_ok (mbox : Nat) (msg : Ptr) :
    (acceptedIf mbox msg .ok).filterMap (acceptedBy mbox) = [msg] ∧
      (acceptedIf mbox msg .ok).filterMap (deliveredBy mbox) = [] := by
  simp [acceptedIf, acceptedBy, deliveredBy]

theorem acceptedIf_other {m : Nat} (hne : m ≠ mbox) (msg : Ptr) (err : ErrT) :
    (acceptedIf m msg err).filterMap (acceptedBy mbox) = [] ∧
      (acceptedIf m msg err).filterMap (deliveredBy mbox) = [] := by
  cases err with
  | ok => simp [acceptedIf, acceptedBy, deliveredBy, hne]
  | mem => simp [acceptedIf]

/-- What a post adds to the messages held is what it is taken with. -/
theorem trypost_flow (h : Carries np mbox size c s held) {m : Nat} {msg : Ptr}
    (hpost : m = mbox ∧ msg ≠ np.addr ∨ s.pQ m ≠ s.pQ mbox) :
    ∃ held', Carries np mbox size c (SysArch.sysMboxTrypost np m msg s).1 held' ∧
      held ++ (acceptedIf m msg (SysArch.sysMboxTrypost np m msg s).2).filterMap (acceptedBy mbox) =
        (acceptedIf m msg (SysArch.sysMboxTrypost np m msg s).2).filterMap (deliveredBy mbox) ++
          held' := by
  rcases hpost with ⟨rfl, hmsg⟩ | hne
  · rcases h.sysMboxTrypost hmsg with ⟨hok, -, ht⟩ | ⟨hmem, -, -⟩
    · obtain ⟨haccepted, hdelivered⟩ := acceptedIf_ok m msg
      rw [hok, haccepted, hdelivered]
      exact ⟨held ++ [msg], ht, rfl⟩
    · rw [hmem]
      exact ⟨held, h, List.append_nil held⟩
  · have hm : m ≠ mbox := fun heq => hne (congrArg s.pQ heq)
    obtain ⟨haccepted, hdelivered⟩ := acceptedIf_other hm msg (SysArch.sysMboxTrypost np m msg s).2
    rw [haccepted, hdelivered]
    exact ⟨held, h.sysMboxTrypost_other hne msg, List.append_nil held⟩

/-- What comes back in front of the messages left is what was held. -/
theorem returns_flow {es : List Event} {msg : Ptr} {rest : List Ptr}
    (h : Returns mbox c es (msg :: rest)) :
    (msg :: rest) ++ es.filterMap (acceptedBy mbox) = es.filterMap (deliveredBy mbox) ++ rest := by
  obtain ⟨ret, hret, rfl⟩ := h
  simp [acceptedBy, deliveredBy, hret]

theorem returns_flow_nil {es : List Event} (h : Returns mbox c es []) :
    [] ++ es.filterMap (acceptedBy mbox) = es.filterMap (deliveredBy mbox) ++ [] := by
  obtain rfl : es = _ := h
  simp [acceptedBy, deliveredBy]

/-- A fetch which ends gives what `OSQPend` has come back with. -/
theorem returns_message (np : NullPointer) (mbox : Nat) (c : Prio) (temp : Ptr) (raw : List Ptr)
    (timeout osTime : UInt32) :
    let r := mboxFetchReturn np timeout ⟨temp, .none, osTime⟩
    Returns mbox c [.fetched c mbox r.1 r.2] ((temp :: raw).map np.unwrap) := by
  intro r
  refine ⟨r.2, fun h => ?_, by rw [show r.1 = np.unwrap temp from mboxFetchReturn_msg]⟩
  cases mboxFetchReturn_eq_timeout_iff.mp h

theorem returns_timeout (np : NullPointer) (mbox : Nat) (c : Prio) (timeout osTime : UInt32) :
    let r := mboxFetchReturn np timeout ⟨0, .timeout, osTime⟩
    Returns mbox c [.fetched c mbox r.1 r.2] [] := by
  intro r
  have hmsg : r.1 = 0 := by
    rw [show r.1 = np.unwrap 0 from mboxFetchReturn_msg]
    exact if_neg np.ne_zero.symm
  have hret : r.2 = sysArchTimeout := mboxFetchReturn_eq_timeout_iff.mpr rfl
  rw [hmsg, hret]
  rfl

/-- **`sys_arch_mbox_fetch` is called: the next message comes back, or the task waits.** -/
theorem fetch (h : Carries np mbox size c s held) (hidle : s.fetching c = none)
    (timeout : UInt32) :
    (∃ msg rest, held = msg :: rest ∧ Returns mbox c (s.fetch np c mbox timeout).2 held ∧
      Carries np mbox size c (s.fetch np c mbox timeout).1 rest) ∨
    (held = [] ∧ (s.fetch np c mbox timeout).2 = [] ∧
      (s.fetch np c mbox timeout).1.Waits mbox c ∧
      Carries np mbox size c (s.fetch np c mbox timeout).1 []) := by
  obtain ⟨raw, hq, rfl⟩ := h.queue
  rw [fetches_of_none hidle] at hq
  have hk := SameQueues.osqPendEnter c (s.pQ mbox) (ucosTimeout timeout).toNat s.kernel
  have hsound : Sound (s.fetch np c mbox timeout).1 := by
    have hstep := h.sound.step np (.fetch c mbox timeout)
    simpa only [system, Sys.step, hidle] using hstep
  unfold Sys.fetch at hsound ⊢
  rcases hq.osqPendEnter (ucosTimeout timeout).toNat with
    ⟨pmsg, raw', rfl, hres, hq'⟩ | ⟨rfl, hres, hq'⟩
  · refine Or.inl ⟨np.unwrap pmsg, raw'.map np.unwrap, rfl, ?_⟩
    generalize osqPendEnter c (s.pQ mbox) (ucosTimeout timeout).toNat s.kernel = r
      at hk hsound hres hq' ⊢
    obtain ⟨k, res⟩ := r
    obtain rfl : res = some (pmsg, .none) := hres
    refine ⟨returns_message np mbox c pmsg raw' s.kernel.osTime k.osTime, ?_⟩
    refine h.of_holds hsound hk rfl ?_ h.fetching rfl
    show Holds k (s.pQ mbox) size c (s.Fetches mbox c) raw'
    rw [fetches_of_none hidle]
    exact hq'
  · refine Or.inr ⟨rfl, ?_⟩
    generalize osqPendEnter c (s.pQ mbox) (ucosTimeout timeout).toNat s.kernel = r
      at hk hsound hres hq' ⊢
    obtain ⟨k, res⟩ := r
    obtain rfl : res = none := hres
    refine ⟨rfl, hq'.waits, ?_⟩
    · have hpends : Holds k (s.pQ mbox) size c (Sys.Fetches { s with
          kernel := k
          fetching := Function.update s.fetching c
            (some ⟨mbox, s.pQ mbox, s.kernel.osTime⟩) } mbox c) [] := by
        simpa [Sys.Fetches] using hq'
      refine h.of_holds hsound hk rfl hpends ?_ rfl
      · intro t f hf hm
        by_cases ht : t = c
        · subst ht
          simp only [Function.update_self, Option.some.injEq] at hf
          subst hf
          exact ⟨rfl, rfl⟩
        · simp only [Function.update_of_ne ht] at hf
          exact h.fetching t f hf hm

/-- **The consumer runs again in `sys_arch_mbox_fetch`: it has the next message, or there is none.** -/
theorem resume (h : Carries np mbox size c s held) {f : Fetch} (hf : s.fetching c = some f)
    (hm : f.mbox = mbox) (hready : (s.kernel.osTcb c).ready = true) :
    Returns mbox c (s.resume np c f).2 held ∧
      Carries np mbox size c (s.resume np c f).1 held.tail := by
  obtain ⟨raw, hq, rfl⟩ := h.queue
  rw [(fetches_of_some hf).mpr hm] at hq
  have hpevent := (h.fetching c f hf hm).2
  have hk := SameQueues.osqPendLeave c (s.pQ mbox) s.kernel
  have hsound : Sound (s.resume np c f).1 := by
    have hstep := h.sound.step np (.resume c)
    simpa only [system, Sys.step, hf, hready, if_true] using hstep
  have hidle' : ∀ k, Sys.Fetches { s with
      kernel := k, fetching := Function.update s.fetching c none } mbox c = false := by
    intro k
    simp [Sys.Fetches]
  have hfetching : ∀ t f', Function.update s.fetching c none t = some f' → f'.mbox = mbox →
      t = c ∧ f'.pevent = s.pQ mbox := by
    intro t f' hf' hm'
    by_cases ht : t = c
    · subst ht
      rw [Function.update_self] at hf'
      cases hf'
    · rw [Function.update_of_ne ht] at hf'
      exact h.fetching t f' hf' hm'
  unfold Sys.resume at hsound ⊢
  rw [hpevent] at hsound ⊢
  rw [hm]
  rcases hq.osqPendLeave hready with ⟨pmsg, raw', rfl, hres, hq'⟩ | ⟨rfl, hres, hq'⟩
  · generalize osqPendLeave c (s.pQ mbox) s.kernel = r at hk hsound hres hq' ⊢
    obtain ⟨k, temp, err⟩ := r
    obtain ⟨rfl, rfl⟩ := Prod.mk.inj hres
    refine ⟨returns_message np mbox c temp raw' f.timeout k.osTime, ?_⟩
    exact h.of_holds hsound hk rfl (by rw [hidle']; exact hq') hfetching rfl
  · generalize osqPendLeave c (s.pQ mbox) s.kernel = r at hk hsound hres hq' ⊢
    obtain ⟨k, temp, err⟩ := r
    obtain ⟨rfl, rfl⟩ := Prod.mk.inj hres
    refine ⟨returns_timeout np mbox c f.timeout k.osTime, ?_⟩
    exact h.of_holds hsound hk rfl (by rw [hidle']; exact hq') hfetching rfl

/-- A task fetches from another mailbox. -/
theorem fetch_other (h : Carries np mbox size c s held) {t : Prio} {m : Nat}
    (hne : s.pQ m ≠ s.pQ mbox) (hidle : s.fetching t = none) (timeout : UInt32) :
    Carries np mbox size c (s.fetch np t m timeout).1 held ∧
      (s.fetch np t m timeout).2.filterMap (acceptedBy mbox) = [] ∧
      (s.fetch np t m timeout).2.filterMap (deliveredBy mbox) = [] := by
  have hm : m ≠ mbox := fun heq => hne (congrArg s.pQ heq)
  have hk := SameQueues.osqPendEnter t (s.pQ m) (ucosTimeout timeout).toNat s.kernel
  have he := Elsewhere.osqPendEnter h.sound.apart h.type hne t (ucosTimeout timeout).toNat
  have htcb : s.Fetches mbox c = true →
      (osqPendEnter t (s.pQ m) (ucosTimeout timeout).toNat s.kernel).1.osTcb c = s.kernel.osTcb c := by
    intro hf
    refine osTcb_osqPendEnter ?_ _ _
    rintro rfl
    rw [fetches_of_none hidle] at hf
    cases hf
  have hsound : Sound (s.fetch np t m timeout).1 := by
    have hstep := h.sound.step np (.fetch t m timeout)
    simpa only [system, Sys.step, hidle] using hstep
  unfold Sys.fetch at hsound ⊢
  generalize osqPendEnter t (s.pQ m) (ucosTimeout timeout).toNat s.kernel = r
    at hk he htcb hsound ⊢
  obtain ⟨k, res⟩ := r
  cases res with
  | some got =>
    refine ⟨?_, by simp [acceptedBy], by simp [deliveredBy, hm]⟩
    exact h.of_elsewhere hsound he rfl (h.others_of_sameQueues hk) rfl (fun _ _ hf _ => hf) htcb
  | none =>
    refine ⟨?_, rfl, rfl⟩
    refine h.of_elsewhere hsound he rfl (h.others_of_sameQueues hk) ?_ ?_ htcb
    · by_cases ht : c = t
      · subst ht
        rw [fetches_of_none hidle]
        simp [Sys.Fetches, hm]
      · simp [Sys.Fetches, ht]
    · intro t' f' hf' hm'
      by_cases ht : t' = t
      · subst ht
        simp only [Function.update_self, Option.some.injEq] at hf'
        subst hf'
        exact absurd hm' hm
      · simpa only [Function.update_of_ne ht] using hf'

/-- A task comes back from a fetch on another mailbox. -/
theorem resume_other (h : Carries np mbox size c s held) {t : Prio} {f : Fetch}
    (hf : s.fetching t = some f) (hm : f.mbox ≠ mbox) (hready : (s.kernel.osTcb t).ready = true) :
    Carries np mbox size c (s.resume np t f).1 held ∧
      (s.resume np t f).2.filterMap (acceptedBy mbox) = [] ∧
      (s.resume np t f).2.filterMap (deliveredBy mbox) = [] := by
  refine ⟨?_, by simp [Sys.resume, acceptedBy], by simp [Sys.resume, deliveredBy, hm]⟩
  have hsound : Sound (s.resume np t f).1 := by
    have hstep := h.sound.step np (.resume t)
    simpa only [system, Sys.step, hf, hready, if_true] using hstep
  -- it is in no wait list but that of its own queue, and this one is another consumer's
  have htbl : s.kernel.tbl (s.pQ mbox) t = false := by
    obtain ⟨raw, hq, -⟩ := h.queue
    by_cases ht : t = c
    · subst ht
      by_contra htbl
      have hpends := (hq.of_tbl (Bool.of_not_eq_false htbl)).1
      exact hm ((fetches_of_some hf).mp hpends)
    · exact hq.alone t ht
  have hothers := h.others_of_sameQueues (SameQueues.osqPendLeave t f.pevent s.kernel)
  refine h.of_elsewhere hsound (Elsewhere.osqPendLeave htbl f.pevent) rfl hothers ?_ ?_ ?_
  · show (Function.update s.fetching t none c).any _ = (s.fetching c).any _
    by_cases ht : c = t
    · subst ht
      rw [Function.update_self, hf]
      simp [hm]
    · rw [Function.update_of_ne ht]
  · intro t' f' hf' _
    by_cases ht : t' = t
    · subst ht
      simp [Sys.resume] at hf'
    · simpa [Sys.resume, ht] using hf'
  · intro hfetch
    refine osTcb_osqPendLeave ?_ _
    rintro rfl
    exact hm ((fetches_of_some hf).mp hfetch)

/-- Another mailbox is made. -/
theorem new_other (h : Carries np mbox size c s held) {m : Nat} (hm : m ≠ mbox) (n : Int) :
    Carries np mbox size c (sysMboxNew m n s).1 held := by
  have hsound : Sound (sysMboxNew m n s).1 := h.sound.step np (.new m n)
  refine h.of_elsewhere hsound (Elsewhere.osqCreate h.sound.apart h.type _ _)
    (Function.update_of_ne hm.symm _ _) ?_ rfl (fun _ _ hf _ => hf)
    fun _ => congrFun (osTcb_osqCreate _ _ _) c
  intro e hne he
  simp only [sysMboxNew] at he ⊢
  rcases osqCreate_queues m (u16 (if n > maxQueueEntries then maxQueueEntries else n)).toNat
    s.kernel with hfail | ⟨pevent, events, pq, queues, hev, hpq, heq⟩
  · rw [hfail] at he ⊢
    exact h.others e hne he
  · rw [heq] at he ⊢
    by_cases hnew : e = pevent
    · subst hnew
      simpa [Kernel.queue] using hm
    · have htype : s.kernel.type e = .q := by simpa [Kernel.type, hnew] using he
      have hptr : (s.kernel.osEvent e).osEventPtr ≠ pq := by
        intro hp
        exact h.sound.apart.used e htype (by rw [hpq, hp]; exact List.mem_cons_self)
      simpa [Kernel.queue, hnew, hptr] using h.others e hne htype

/-- Another mailbox is freed. -/
theorem free_other (h : Carries np mbox size c s held) {m : Nat} (hne : s.pQ m ≠ s.pQ mbox) :
    Carries np mbox size c (sysMboxFree m s) held := by
  have hsound : Sound (sysMboxFree m s) := h.sound.step np (.free m)
  refine h.of_elsewhere hsound (Elsewhere.osqDel hne) rfl ?_ rfl (fun _ _ hf _ => hf)
    fun hf => osTcb_osqDel (h.not_tbl hne hf)
  intro e hpe he
  have hk := SameQueues.osEventTaskRdyAll s.kernel (s.pQ m) 0 .abort 64
  simp only [sysMboxFree, osqDel] at he ⊢
  split at he
  · next hq =>
    rw [if_pos hq]
    exact h.others e hpe he
  · next hq =>
    rw [if_neg hq]
    have hem : e ≠ s.pQ m := by
      rintro rfl
      simp [Kernel.type] at he
    have htype : s.kernel.type e = .q := by
      rw [← hk.blocks.1]
      simpa [Kernel.type, hem] using he
    have hstart := h.others_of_sameQueues hk e hpe (by rw [hk.blocks.1]; exact htype)
    simpa [Kernel.queue, hem] using hstart

/-- A producer begins or ends a post. -/
theorem updatePosting (h : Carries np mbox size c s held) (posting : Nat → Option (Nat × Ptr)) :
    Carries np mbox size c { s with posting := posting } held :=
  ⟨⟨h.sound.apart, h.sound.waiting⟩, h.queue, h.start, h.others, h.fetching⟩

/-- **A step loses, repeats and overtakes no message.** -/
theorem step (h : Carries np mbox size c s held) {i : Input} (hi : s.Allows np mbox c i) :
    ∃ held', Carries np mbox size c ((system np).step s i).1 held' ∧
      held ++ ((system np).step s i).2.filterMap (acceptedBy mbox) =
        ((system np).step s i).2.filterMap (deliveredBy mbox) ++ held' := by
  have hsame : ∃ held', Carries np mbox size c s held' ∧
      held ++ ([] : List Event).filterMap (acceptedBy mbox) =
        ([] : List Event).filterMap (deliveredBy mbox) ++ held' := ⟨held, h, by simp⟩
  have hquiet : ∀ {s' : Sys} {es : List Event}, Carries np mbox size c s' held →
      es.filterMap (acceptedBy mbox) = [] → es.filterMap (deliveredBy mbox) = [] →
      ∃ held', Carries np mbox size c s' held' ∧
        held ++ es.filterMap (acceptedBy mbox) = es.filterMap (deliveredBy mbox) ++ held' := by
    intro s' es hs' h1 h2
    exact ⟨held, hs', by rw [h1, h2, List.append_nil, List.nil_append]⟩
  cases i with
  | new m n => exact hquiet (h.new_other hi n) rfl rfl
  | free m => exact hquiet (h.free_other hi) rfl rfl
  | setInvalid m => exact hquiet h rfl rfl
  | post producer m msg =>
    simp only [system, Sys.step]
    split
    · exact hsame
    · exact hquiet (h.updatePosting _) rfl rfl
  | retry producer =>
    simp only [system, Sys.step]
    split
    · exact hsame
    · next m msg hp =>
      obtain ⟨held', ht, hflow⟩ := h.trypost_flow (hi (m, msg) hp)
      refine ⟨held', ?_, hflow⟩
      split
      · exact ht.updatePosting _
      · exact ht
  | trypost m msg =>
    obtain ⟨held', ht, hflow⟩ := h.trypost_flow hi
    refine ⟨held', ht, ?_⟩
    simpa [system, Sys.step, List.filterMap_cons, acceptedBy, deliveredBy] using hflow
  | fetch task m timeout =>
    simp only [system, Sys.step]
    split
    · exact hsame
    next hidle =>
    rcases hi with ⟨rfl, rfl⟩ | hne
    · rcases h.fetch hidle timeout with ⟨msg, rest, rfl, hr, ht⟩ | ⟨rfl, hes, -, ht⟩
      · exact ⟨rest, ht, returns_flow hr⟩
      · exact ⟨[], ht, by rw [hes]; rfl⟩
    · obtain ⟨ht, h1, h2⟩ := h.fetch_other hne hidle timeout
      exact hquiet ht h1 h2
  | resume task =>
    simp only [system, Sys.step]
    split
    · next f hf =>
      split
      · next hready =>
        by_cases hm : f.mbox = mbox
        · obtain rfl := (h.fetching task f hf hm).1
          obtain ⟨hr, ht⟩ := h.resume hf hm hready
          cases held with
          | nil => exact ⟨[], ht, returns_flow_nil hr⟩
          | cons msg rest => exact ⟨rest, ht, returns_flow hr⟩
        · obtain ⟨ht, h1, h2⟩ := h.resume_other hf hm hready
          exact hquiet ht h1 h2
      · exact hsame
    · exact hsame
  | tick =>
    obtain ⟨raw, hq, rfl⟩ := h.queue
    exact hquiet ⟨h.sound.step np .tick, ⟨raw, hq.osTimeTick, rfl⟩, h.start, h.others,
      h.fetching⟩ rfl rfl

theorem held_eq (h : Carries np mbox size c s held) : held = s.held np mbox c := by
  obtain ⟨raw, hq, rfl⟩ := h.queue
  obtain ⟨handed, hc, rfl⟩ := hq.split
  have hhanded : handed = s.handed mbox c := by
    unfold Sys.handed
    generalize s.Fetches mbox c = pends at hc
    cases hc with
    | idle => rfl
    | waiting tbl => rw [tbl]; rfl
    | timedOut tbl => rw [tbl]; rfl
    | handed tbl => rw [tbl]; rfl
  rw [hhanded]
  rfl

/-- **The consumer gets the next message, and waits only if there is none.** -/
theorem serves (h : Carries np mbox size c s held) : Serves np mbox c s held where
  call := by
    intro hidle hne timeout
    rcases h.fetch hidle timeout with ⟨msg, rest, rfl, hr, -⟩ | ⟨rfl, -⟩
    · simpa only [system, Sys.step, hidle] using hr
    · exact absurd rfl hne
  wait := by
    intro hidle hnil timeout
    rcases h.fetch hidle timeout with ⟨msg, rest, rfl, -⟩ | ⟨-, hes, hw, -⟩
    · cases hnil
    · simp only [system, Sys.step, hidle]
      exact ⟨hes, hw⟩
  ready := by
    intro hf hne
    obtain ⟨raw, hq, rfl⟩ := h.queue
    rw [hf] at hq
    exact hq.ready fun hnil => hne (by rw [hnil]; rfl)
  resume := by
    intro hf hready
    obtain ⟨f, hfetch, hm⟩ : ∃ f, s.fetching c = some f ∧ f.mbox = mbox := by
      simpa [Sys.Fetches, Option.any_eq_true] using hf
    simp only [system, Sys.step, hfetch, hready, if_true]
    exact (h.resume hfetch hm hready).1

/-- A new mailbox carries nothing. -/
theorem sysMboxNew (hs : Sound s) (hpos : 0 < size) (hle : size ≤ 20) (hun : s.Unused mbox)
    (hnew : (sysMboxNew mbox size s).2 = .ok) :
    Carries np mbox size c (sysMboxNew mbox size s).1 [] := by
  have hsound : Sound (SysArch.sysMboxNew mbox size s).1 := hs.step np (.new mbox size)
  have hsize : (u16 (if (size : Int) > maxQueueEntries then maxQueueEntries else size)).toNat =
      size := by
    rw [if_neg (by unfold maxQueueEntries; omega), u16_id (by omega) (by omega)]
    exact Int.toNat_natCast size
  simp only [SysArch.sysMboxNew, hsize] at hnew hsound ⊢
  have hne : (osqCreate mbox size s.kernel).2 ≠ 0 := by
    intro h0
    rw [h0] at hnew
    cases hnew
  have hfetches : s.Fetches mbox c = false := by
    cases hf : s.fetching c with
    | none => exact fetches_of_none hf
    | some f => exact Bool.eq_false_iff.mpr fun hm => hun.fetching c f hf ((fetches_of_some hf).mp hm)
  have hholds := Holds.osqCreate mbox size c hpos hne
  rcases osqCreate_queues mbox size s.kernel with hfail | ⟨pevent, events, pq, queues, hev, hpq, heq⟩
  · rw [hfail] at hne
    exact absurd rfl hne
  rw [heq] at hholds hsound ⊢
  refine ⟨hsound, ⟨[], ?_, rfl⟩, ?_, ?_, ?_⟩
  · simp only [Function.update_self]
    show Holds _ pevent size c (s.Fetches mbox c) []
    rw [hfetches]
    exact hholds
  · simp [Kernel.queue]
  · intro e hep he
    simp only [Function.update_self] at hep
    have htype : s.kernel.type e = .q := by simpa [Kernel.type, hep] using he
    have hptr : (s.kernel.osEvent e).osEventPtr ≠ pq := by
      intro hp
      exact hs.apart.used e htype (by rw [hpq, hp]; exact List.mem_cons_self)
    simpa [Kernel.queue, hep, hptr] using hun.storage e htype
  · exact fun t f hf hm => absurd hm (hun.fetching t f hf)

end Carries

/--
**A mailbox loses, repeats and reorders nothing.** What has been fetched is a prefix of what has been
posted, the rest is in the queue or handed over, and its first message is what the next fetch gives.
`sys_mbox_trypost` refuses a message exactly when the queue is full and the consumer does not wait, and
changes nothing then.
-/
theorem mailbox_fifo (np : NullPointer) {mbox size : Nat} (hpos : 1 ≤ size) (hle : size ≤ 20)
    (c : Prio) {before is : List Input}
    (hun : ((system np).run Sys.start before).Unused mbox)
    (hnew : (sysMboxNew mbox size ((system np).run Sys.start before)).2 = .ok)
    (his : ∀ p ∈ (system np).transitions
      (sysMboxNew mbox size ((system np).run Sys.start before)).1 is, p.1.Allows np mbox c p.2) :
    let s₁ := (sysMboxNew mbox size ((system np).run Sys.start before)).1
    let s := (system np).run s₁ is
    let posted := ((system np).trace s₁ is).filterMap (acceptedBy mbox)
    let fetched := ((system np).trace s₁ is).filterMap (deliveredBy mbox)
    fetched <+: posted ∧ posted = fetched ++ s.held np mbox c ∧
      Serves np mbox c s (s.held np mbox c) ∧
      ∀ msg, msg ≠ np.addr →
        ((sysMboxTrypost np mbox msg s).2 = .mem ↔ s.queued mbox = size ∧ ¬s.Waits mbox c) ∧
          ((sysMboxTrypost np mbox msg s).2 = .mem → (sysMboxTrypost np mbox msg s).1 = s) := by
  intro s₁ s posted fetched
  obtain ⟨held, hrun, heq⟩ := (system np).run_flow (acceptedBy mbox) (deliveredBy mbox)
    (fun _ _ _ h hi => h.step hi)
    (Carries.sysMboxNew (Sound.run np before) hpos hle hun hnew) his
  obtain rfl : held = s.held np mbox c := hrun.held_eq
  have hall : posted = fetched ++ s.held np mbox c := heq
  refine ⟨⟨_, hall.symm⟩, hall, hrun.serves, fun msg hmsg => ?_⟩
  rcases hrun.sysMboxTrypost hmsg with ⟨hok, hroom, -⟩ | ⟨hmem, hfull, ht⟩
  · have hno : ¬(s.queued mbox = size ∧ ¬s.Waits mbox c) := by
      rintro ⟨hfull, hwait⟩
      exact hroom.elim (fun hlt => Nat.ne_of_lt hlt hfull) hwait
    have hne : (sysMboxTrypost np mbox msg s).2 ≠ .mem := by
      intro h
      rw [hok] at h
      cases h
    exact ⟨iff_of_false hne hno, fun h => absurd h hne⟩
  · refine ⟨iff_of_true (by rw [hmem]) ⟨hfull, ?_⟩, fun _ => by rw [hmem]⟩
    show ¬s.kernel.tbl (s.pQ mbox) c = true
    rw [ht]
    decide

/-- Another mailbox. -/
def neighbour : List Input := [.new 2 1]

/-- The consumer waits, `NULL` is handed over to it, and two messages are posted behind it. Meanwhile
a task waits at the neighbour and gets a message, and a third mailbox is made and freed. -/
def handOver : List Input :=
  [.fetch 5 3 100, .fetch 7 2 0, .trypost 3 0, .trypost 2 20, .post 0 3 8, .retry 0, .new 1 4,
    .trypost 3 12, .resume 7, .free 1, .trypost 3 16, .resume 5]

instance (np : NullPointer) (mbox : Nat) (c : Prio) (s : Sys) (i : Input) :
    Decidable (s.Allows np mbox c i) :=
  match i with
  | .new m _ => inferInstanceAs (Decidable (m ≠ mbox))
  | .free m => inferInstanceAs (Decidable (s.pQ m ≠ s.pQ mbox))
  | .setInvalid _ => inferInstanceAs (Decidable True)
  | .post _ _ _ => inferInstanceAs (Decidable True)
  | .retry producer =>
    inferInstanceAs (Decidable (∀ post ∈ s.posting producer, s.MayPost np mbox post.1 post.2))
  | .trypost m msg => inferInstanceAs (Decidable (s.MayPost np mbox m msg))
  | .fetch task m _ => inferInstanceAs (Decidable ((task = c ∧ m = mbox) ∨ s.pQ m ≠ s.pQ mbox))
  | .resume _ => inferInstanceAs (Decidable True)
  | .tick => inferInstanceAs (Decidable True)

theorem unused_neighbour : ((system ⟨4, by decide⟩).run Sys.start neighbour).Unused 3 where
  storage := by
    intro e he
    by_cases h1 : e = 1
    · subst h1
      decide
    · -- block 1 is the only queue
      change (Function.update Kernel.osInit.osEvent 1 _ e).osEventType = .q at he
      rw [Function.update_of_ne h1] at he
      cases he
  fetching := fun _ _ hf => by cases hf

theorem mailbox_fifo_handOver :
    let s₁ := (sysMboxNew 3 ((2 : Nat) : Int) ((system ⟨4, by decide⟩).run Sys.start neighbour)).1
    let s := (system ⟨4, by decide⟩).run s₁ handOver
    let posted := ((system ⟨4, by decide⟩).trace s₁ handOver).filterMap (acceptedBy 3)
    let fetched := ((system ⟨4, by decide⟩).trace s₁ handOver).filterMap (deliveredBy 3)
    fetched <+: posted ∧ posted = fetched ++ s.held ⟨4, by decide⟩ 3 5 ∧
      Serves ⟨4, by decide⟩ 3 5 s (s.held ⟨4, by decide⟩ 3 5) ∧
      ∀ msg, msg ≠ (4 : Ptr) →
        ((sysMboxTrypost ⟨4, by decide⟩ 3 msg s).2 = .mem ↔ s.queued 3 = 2 ∧ ¬s.Waits 3 5) ∧
          ((sysMboxTrypost ⟨4, by decide⟩ 3 msg s).2 = .mem →
            (sysMboxTrypost ⟨4, by decide⟩ 3 msg s).1 = s) :=
  mailbox_fifo ⟨4, by decide⟩ (by decide) (by decide) 5 unused_neighbour (by decide) (by decide)

end PlcFirmware.SysArch
