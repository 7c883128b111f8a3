import PlcFirmware.Infra.Stages
import PlcFirmware.Ucos.Semaphore

/-!
# Queues with many tasks

Tasks and interrupts post to a queue, and tasks and interrupts take from it. A message which is posted
while a task waits goes to the task and not into the buffer, and the task returns it when it runs again.

* `QueueOk` — the buffer is in order, and its storage belongs to no other queue
* `queue_in_order` — over every run each message is taken once, in the order in which they were posted,
  and each task returns what it has taken, in that order
-/

namespace PlcFirmware.Ucos

open Infra

/-- The messages in the buffer of a queue. -/
def Os.contents (s : Os) (e : Nat) : List Ptr :=
  (s.queue e).ring.contents (s.storage (s.queue e).osqStart)

/-- A queue whose buffer is in order, and whose storage is its own. -/
structure QueueOk (s : Os) (e : Nat) : Prop where
  type : (s.osEvent e).osEventType = .q
  ring : (s.queue e).ring.Ok
  own : s.Own e

variable {s s' : Os} {e pevent : Nat} {c : Call} {p : Prio}

theorem queue_setRing (s : Os) (e : Nat) (ring : Ring) :
    (s.setRing e ring).queue e = { s.queue e with ring := ring } := by
  simp [Os.setRing, Os.queue]

theorem Moves.queue (h : Moves s s') (e : Nat) : s'.queue e = s.queue e := by
  unfold Os.queue
  rw [h.eventPtr, h.q]

/-! ## What a call does to a queue -/

/-- The queue is there after the call only if it was before; its storage stays where it is. -/
structure KeepsQueue (s s' : Os) (e : Nat) : Prop where
  start : (s'.queue e).osqStart = (s.queue e).osqStart
  ring : (s.queue e).ring.Ok → (s'.queue e).ring.Ok

namespace KeepsQueue

theorem of_eq (h : s'.queue e = s.queue e) : KeepsQueue s s' e := ⟨by rw [h], by rw [h]; exact id⟩

theorem refl (s : Os) (e : Nat) : KeepsQueue s s e := of_eq rfl

theorem of_moves (h : Moves s s') : KeepsQueue s s' e := of_eq (h.queue e)

theorem setRing {ring : Ring} (h : (s.queue e).ring.Ok → ring.Ok) : KeepsQueue s (s.setRing e ring) e :=
  ⟨by rw [queue_setRing], by rw [queue_setRing]; exact h⟩

/-- A message is put into a cell. -/
theorem put {ring : Ring} (i : Nat) (pmsg : Ptr) (h : (s.queue e).ring.Ok → ring.Ok) :
    KeepsQueue s ((s.setCell e i pmsg).setRing e ring) e := by
  have hset := queue_setRing (s.setCell e i pmsg) e ring
  exact ⟨by rw [hset]; rfl, by rw [hset]; exact h⟩

end KeepsQueue

/-- A call about a queue. -/
theorem Call.keepsQueue (hc : c.event = some e)
    (hq' : ((c.exec s).os.osEvent e).osEventType = .q) :
    (s.osEvent e).osEventType = .q ∧ KeepsQueue s (c.exec s).os e := by
  have hq : (s.osEvent e).osEventType = .q := by
    rcases Call.retains (s := s) (e := e) hc with hsame | ⟨hunused, -⟩
    · exact hsame.symm.trans hq'
    · rw [hunused] at hq'
      cases hq'
  refine ⟨hq, ?_⟩
  have hsem : (s.osEvent e).osEventType ≠ .sem := by
    rw [hq]
    decide
  cases c with
  | semAccept pevent => cases hc; simp only [Call.exec, osSemAccept, if_pos hsem]; exact .refl s e
  | semDel pevent opt => cases hc; simp only [Call.exec, osSemDel, if_pos hsem]; exact .refl s e
  | semPend pevent timeout => cases hc; simp only [Call.exec, osSemPend, if_pos hsem]; exact .refl s e
  | semPendAbort pevent broadcast =>
    cases hc
    simp only [Call.exec, osSemPendAbort, if_pos hsem]
    exact .refl s e
  | semPost pevent => cases hc; simp only [Call.exec, osSemPost, if_pos hsem]; exact .refl s e
  | semSet pevent cnt => cases hc; simp only [Call.exec, osSemSet, if_pos hsem]; exact .refl s e
  | qAccept pevent =>
    cases hc
    simp only [Call.exec, osQAccept, osQAcceptSection]
    split
    · exact .refl s e
    · split
      · next hpos => exact .setRing fun hok => hok.pop hpos
      · exact .refl s e
  | qDel pevent opt =>
    cases hc
    have hfree : ∀ s' : Os, (((s'.freeQ e).freeEvent e).osEvent e).osEventType ≠ .q := by
      intro s'
      simp [Os.freeEvent]
    simp only [Call.exec, osQDel, osQDelSection] at hq' ⊢
    split
    · exact .refl s e
    · next htype =>
      rw [if_neg htype] at hq'
      split
      · exact .refl s e
      · next hnest =>
        rw [if_neg hnest] at hq'
        cases opt with
        | noPend =>
          dsimp only at hq' ⊢
          split
          · exact .refl s e
          · next hwait =>
            rw [if_neg hwait] at hq'
            exact absurd hq' (hfree s)
        | always =>
          dsimp only at hq'
          split at hq'
          · exact absurd hq' (hfree _)
          · exact absurd hq' (hfree _)
        | other => exact .refl s e
  | qFlush pevent =>
    cases hc
    simp only [Call.exec, osQFlush]
    split
    · exact .refl s e
    · exact .setRing fun hok => hok.flush
  | qPend pevent timeout =>
    cases hc
    simp only [Call.exec, osQPend, osQPendSection]
    split
    · exact .refl s e
    · split
      · exact .refl s e
      · split
        · exact .refl s e
        · split
          · next hpos => exact .setRing fun hok => hok.pop hpos
          · exact .of_moves (.pendWait ..)
  | qPendAbort pevent broadcast =>
    cases hc
    simp only [Call.exec, osQPendAbort, osQPendAbortSection]
    split
    · exact .refl s e
    · split
      · split
        · exact .of_moves (.osEventTaskRdyAll ..)
        · exact .of_moves (.osEventTaskRdy ..)
      · exact .refl s e
  | qPostOpt pevent pmsg opt =>
    cases hc
    simp only [Call.exec, osQPostOpt, osQPostOptSection]
    split
    · exact .refl s e
    · split
      · have hboth : KeepsQueue s (if opt.broadcast
            then (Os.osEventTaskRdyAll e pmsg statQ .ok 64 s).1
            else s.osEventTaskRdy e pmsg statQ .ok) e := by
          split
          · exact .of_moves (.osEventTaskRdyAll ..)
          · exact .of_moves (.osEventTaskRdy ..)
        split
        · exact hboth
        · exact hboth
      · split
        · exact .refl s e
        · next hfull =>
          have hroom := Nat.lt_of_not_le hfull
          split
          · exact .put _ pmsg fun hok => hok.pushFront hroom
          · exact .put _ pmsg fun hok => hok.push hroom
  | _ => cases hc

/-- **Every queue which is there after a call was there before, or has been created by it.** -/
theorem Call.queue_cases (h : Pools s) (hq' : ((c.exec s).os.osEvent e).osEventType = .q) :
    ((s.osEvent e).osEventType = .q ∧ KeepsQueue s (c.exec s).os e) ∨
      ∃ start size, c = .qCreate start size ∧ (c.exec s).os.queue e = ⟨start, Ring.empty size⟩ := by
  by_cases hc : c.event = some e
  · exact Or.inl (Call.keepsQueue hc hq')
  · by_cases hnew : c.creates = true → (s.osEvent e).osEventType ≠ .unused
    · have hsame := Call.sameEvent h hnew hc
      have hq := hsame.type.symm.trans hq'
      exact Or.inl ⟨hq, .of_eq (hsame.queue hq)⟩
    · obtain ⟨hcreates, hunused⟩ : c.creates = true ∧ (s.osEvent e).osEventType = .unused := by
        by_contra hno
        exact hnew fun hcr he => hno ⟨hcr, he⟩
      have hno : (s.osEvent e).osEventType ≠ .q := by
        rw [hunused]
        decide
      cases c with
      | semCreate cnt =>
        have hq' : ((osSemCreate cnt s).os.osEvent e).osEventType = .q := hq'
        unfold osSemCreate osSemCreateFill at hq'
        split at hq'
        · exact absurd hq' hno
        · split at hq'
          · exact absurd hq' hno
          · next pevent rest hfree =>
            by_cases he : e = pevent
            · subst he
              simp [Os.done] at hq'
            · exact absurd (by simpa [Os.done, he] using hq') hno
      | qCreate start size =>
        have hq' : ((osQCreate start size s).os.osEvent e).osEventType = .q := hq'
        unfold osQCreate osQCreateFill at hq'
        split at hq'
        · exact absurd hq' hno
        · next hnest =>
          split at hq'
          · next pevent events pq queues hfree hqfree =>
            by_cases he : e = pevent
            · subst he
              refine Or.inr ⟨start, size, rfl, ?_⟩
              show (osQCreate start size s).os.queue e = _
              unfold osQCreate osQCreateFill
              rw [if_neg hnest, hfree, hqfree]
              simp [Os.queue, Os.done]
            · exact absurd (by simpa [Os.done, he] using hq') hno
          · exact absurd hq' hno
      | _ => cases hcreates

/-- **A queue which is not deleted stays in order, with a storage of its own.** -/
theorem QueueOk.call (hp : Pools s) (h : QueueOk s e) (hdel : ∀ opt, c ≠ .qDel e opt)
    (hcreate : ∀ start size, c = .qCreate start size → start ≠ (s.queue e).osqStart) :
    QueueOk (c.exec s).os e ∧ ((c.exec s).os.queue e).osqStart = (s.queue e).osqStart := by
  have hused : (s.osEvent e).osEventType ≠ .unused := by
    rw [h.type]
    decide
  have hq' : ((c.exec s).os.osEvent e).osEventType = .q := by
    by_cases hc : c.event = some e
    · rcases Call.retains (s := s) (e := e) hc with hsame | ⟨-, hdeletes⟩
      · exact hsame.trans h.type
      · cases c with
        | semDel pevent opt =>
          cases hc
          have hsem : (s.osEvent e).osEventType ≠ .sem := by
            rw [h.type]
            decide
          simp only [Call.exec, osSemDel, if_pos hsem]
          exact h.type
        | qDel pevent opt =>
          cases hc
          exact absurd rfl (hdel opt)
        | _ => cases hdeletes
    · exact (Call.sameEvent hp (fun _ => hused) hc).type.trans h.type
  have hkeeps : KeepsQueue s (c.exec s).os e := by
    by_cases hc : c.event = some e
    · exact (Call.keepsQueue hc hq').2
    · exact .of_eq ((Call.sameEvent hp (fun _ => hused) hc).queue h.type)
  refine ⟨⟨hq', hkeeps.ring h.ring, fun e' he' hq => ?_⟩, hkeeps.start⟩
  rw [hkeeps.start]
  rcases Call.queue_cases hp hq with ⟨hq₀, hk⟩ | ⟨start, size, hc, hnew⟩
  · rw [hk.start]
    exact h.own e' he' hq₀
  · rw [hnew]
    exact hcreate start size hc

/-! ## What goes in and what comes out -/

/-- A message which a post has put into the queue. -/
def Out.accepted (e : Nat) : Out → Option Ptr
  | .ret _ (.qPostOpt pevent pmsg _) r => if pevent = e ∧ r.err = .none then some pmsg else none
  | _ => none

/-- A message which a task, or an interrupt, has got from the queue. -/
def Out.returned (e : Nat) : Out → Option (Option Prio × Ptr)
  | .ret caller (.qPend pevent _) r | .ret caller (.qAccept pevent) r =>
    if pevent = e ∧ r.err = .none then some (caller, UInt32.ofNat r.val) else none
  | .left caller .q pevent r =>
    if pevent = e ∧ r.err = .none then some (some caller, UInt32.ofNat r.val) else none
  | _ => none

/-- The message in the hand of a task which has been given one and has not run since. -/
def Sys.inHand (e : Nat) (y : Sys) : Option Prio → List Ptr
  | some p => if y.Served .q e p then [(y.os.osTcb p).osTcbMsg] else []
  | none => []

/--
The queue is neither deleted nor flushed, posts are to its end and to one task, its storage is given to
no other queue, and no task is deleted which has a message in its hand.
-/
def Sys.Feeds (e : Nat) (y : Sys) : Input → Prop
  | .call (.qDel pevent _) | .call (.qFlush pevent) => pevent ≠ e
  | .call (.qPostOpt pevent _ opt) => pevent = e → opt.front = false ∧ opt.broadcast = false
  | .call (.qCreate start _) => start ≠ (y.os.queue e).osqStart
  | .call (.taskDel (some p)) => ¬y.Served .q e p
  | _ => True

instance (e : Nat) (y : Sys) (i : Input) : Decidable (y.Feeds e i) :=
  match i with
  | .call (.qDel pevent _) | .call (.qFlush pevent) => inferInstanceAs (Decidable (pevent ≠ e))
  | .call (.qPostOpt pevent _ opt) =>
    inferInstanceAs (Decidable (pevent = e → opt.front = false ∧ opt.broadcast = false))
  | .call (.qCreate start _) => inferInstanceAs (Decidable (start ≠ (y.os.queue e).osqStart))
  | .call (.taskDel (some p)) => inferInstanceAs (Decidable (¬y.Served .q e p))
  | .call (.taskDel none) | .call (.semAccept _) | .call (.semCreate _) | .call (.semDel _ _)
  | .call (.semPend _ _) | .call (.semPendAbort _ _) | .call (.semPost _) | .call (.semSet _ _)
  | .call (.qAccept _) | .call (.qPend _ _) | .call (.qPendAbort _ _) | .call (.timeDly _)
  | .call (.timeDlyResume _) | .call (.taskSuspend _) | .call (.taskResume _) | .call (.taskCreate _)
  | .call .schedLock | .call .schedUnlock | .go | .intEnter | .tick | .intExit | .pendSv =>
    isTrue trivial

/-- What the output of a call has put into the queue. -/
def Ret.accepted (e : Nat) (caller : Option Prio) (c : Call) (r : Ret) : List Ptr :=
  (r.res.map (Out.ret caller c)).toList.filterMap (Out.accepted e)

/-- What it has got from the queue. -/
def Ret.returned (e : Nat) (caller : Option Prio) (c : Call) (r : Ret) : List (Option Prio × Ptr) :=
  (r.res.map (Out.ret caller c)).toList.filterMap (Out.returned e)

variable {caller : Option Prio}

theorem accepted_done (s : Os) (err : Err) (val : Nat) :
    (s.done err val).accepted e caller c = (Out.accepted e (.ret caller c ⟨err, val⟩)).toList := by
  cases h : Out.accepted e (.ret caller c ⟨err, val⟩) <;> simp [Ret.accepted, Os.done, h]

theorem returned_done (s : Os) (err : Err) (val : Nat) :
    (s.done err val).returned e caller c = (Out.returned e (.ret caller c ⟨err, val⟩)).toList := by
  cases h : Out.returned e (.ret caller c ⟨err, val⟩) <;> simp [Ret.returned, Os.done, h]

/-- What a call does to the messages: in the buffer, or from hand to hand. -/
structure Carries (s : Os) (e : Nat) (caller : Option Prio) (c : Call) (r : Ret) : Prop where
  buffer_or_hand :
    (s.contents e ++ r.accepted e caller c =
        (r.returned e caller c).map Prod.snd ++ r.os.contents e ∧
      (∀ x ∈ r.returned e caller c, x.1 = caller) ∧
      (c.postsTo = some e → (s.osEvent e).wait.grp = 0#8 ∨ r.os = s)) ∨
    (∃ pmsg, r.os = s.osEventTaskRdy e pmsg statQ .ok ∧ (s.osEvent e).wait.grp ≠ 0#8 ∧
      r.accepted e caller c = [pmsg] ∧ r.returned e caller c = [])

theorem Moves.contents (h : Moves s s') (e : Nat) : s'.contents e = s.contents e := by
  unfold Os.contents
  rw [h.queue, h.storage]

theorem contents_setRing (s : Os) (e : Nat) (ring : Ring) :
    (s.setRing e ring).contents e = ring.contents (s.storage (s.queue e).osqStart) := by
  unfold Os.contents
  rw [queue_setRing]
  rfl

namespace Carries

/-- A call which neither puts a message in nor takes one out. -/
theorem quiet {r : Ret} (hcontents : r.os.contents e = s.contents e)
    (hacc : r.accepted e caller c = []) (hret : r.returned e caller c = [])
    (hpost : c.postsTo = some e → (s.osEvent e).wait.grp = 0#8 ∨ r.os = s) :
    Carries s e caller c r := by
  refine ⟨Or.inl ⟨?_, ?_, hpost⟩⟩
  · rw [hacc, hret, hcontents, List.append_nil]
    rfl
  · rw [hret]
    exact fun _ hx => absurd hx List.not_mem_nil

/-- A call which changes nothing. -/
theorem same {err : Err} {val : Nat} (hacc : Out.accepted e (.ret caller c ⟨err, val⟩) = none)
    (hret : Out.returned e (.ret caller c ⟨err, val⟩) = none) :
    Carries s e caller c (s.done err val) :=
  quiet rfl (by rw [accepted_done, hacc]; rfl) (by rw [returned_done, hret]; rfl) fun _ => Or.inr rfl

/-- The first message is taken from the buffer. -/
theorem take (h : QueueOk s e) (hpos : (s.queue e).ring.entries > 0)
    (hacc : Out.accepted e (.ret caller c ⟨.none, (s.oldest e).toNat⟩) = none)
    (hret : Out.returned e (.ret caller c ⟨.none, (s.oldest e).toNat⟩) =
      some (caller, UInt32.ofNat (s.oldest e).toNat))
    (hpost : c.postsTo ≠ some e) :
    Carries s e caller c ((s.setRing e (s.queue e).ring.pop).done .none (s.oldest e).toNat) := by
  refine ⟨Or.inl ⟨?_, ?_, fun hp => absurd hp hpost⟩⟩
  · rw [accepted_done, returned_done, hacc, hret, Option.toList_none, Option.toList_some,
      List.append_nil, List.map_singleton, List.singleton_append, UInt32.ofNat_toNat]
    show _ = s.oldest e :: (s.setRing e (s.queue e).ring.pop).contents e
    rw [contents_setRing]
    exact Ring.contents_pop h.ring hpos
  · intro x hx
    rw [returned_done, hret] at hx
    rw [List.mem_singleton.mp hx]

theorem qAccept (h : QueueOk s e) : Carries s e caller (.qAccept e) (osQAccept e s) := by
  unfold osQAccept osQAcceptSection
  rw [if_neg (not_not.mpr h.type)]
  split
  · next hpos => exact take h hpos rfl (if_pos ⟨rfl, rfl⟩) (by intro hp; cases hp)
  · exact same rfl (if_neg fun hr => by cases hr.2)

theorem qPend (h : QueueOk s e) (timeout : Nat) :
    Carries s e caller (.qPend e timeout) (osQPend e timeout s) := by
  unfold osQPend osQPendSection
  rw [if_neg (not_not.mpr h.type)]
  split
  · exact same rfl (if_neg fun hr => by cases hr.2)
  · split
    · exact same rfl (if_neg fun hr => by cases hr.2)
    · split
      · next hpos => exact take h hpos rfl (if_pos ⟨rfl, rfl⟩) (by intro hp; cases hp)
      · exact quiet ((Moves.pendWait ..).contents e) rfl rfl (by intro hp; cases hp)

theorem qPendAbort (h : QueueOk s e) (broadcast : Bool) :
    Carries s e caller (.qPendAbort e broadcast) (osQPendAbort e broadcast s) := by
  unfold osQPendAbort osQPendAbortSection
  rw [if_neg (not_not.mpr h.type)]
  split
  · split
    · exact quiet ((Moves.osEventTaskRdyAll ..).contents e) rfl rfl (by intro hp; cases hp)
    · exact quiet ((Moves.osEventTaskRdy ..).contents e) rfl rfl (by intro hp; cases hp)
  · exact same rfl rfl

theorem qPostOpt (h : QueueOk s e) (pmsg : Ptr) {opt : PostOpt} (hfront : opt.front = false)
    (hbroadcast : opt.broadcast = false) :
    Carries s e caller (.qPostOpt e pmsg opt) (osQPostOpt e pmsg opt s) := by
  have hacc : ∀ val, Out.accepted e (.ret caller (.qPostOpt e pmsg opt) ⟨.none, val⟩) = some pmsg :=
    fun _ => if_pos ⟨rfl, rfl⟩
  unfold osQPostOpt osQPostOptSection
  rw [if_neg (not_not.mpr h.type), hfront, hbroadcast]
  split
  · next hne =>
    dsimp only
    split
    · exact ⟨Or.inr ⟨pmsg, rfl, hne, by rw [accepted_done, hacc]; rfl, rfl⟩⟩
    · refine ⟨Or.inr ⟨pmsg, rfl, hne, ?_, rfl⟩⟩
      show ((s.osEventTaskRdy e pmsg statQ .ok).done .none 0).accepted e caller _ = [pmsg]
      rw [accepted_done, hacc]
      rfl
  · next hempty =>
    dsimp only
    split
    · exact same (if_neg fun hr => by cases hr.2) rfl
    · next hfull =>
      rw [if_neg Bool.false_ne_true]
      refine ⟨Or.inl ⟨?_, fun x hx => ?_, fun _ => Or.inl (not_not.mp hempty)⟩⟩
      · rw [accepted_done, hacc, returned_done]
        show s.contents e ++ [pmsg] =
          ((s.setCell e (s.queue e).ring.qIn pmsg).setRing e (s.queue e).ring.push).contents e
        rw [contents_setRing]
        show _ = (s.queue e).ring.push.contents (Function.update s.storage (s.queue e).osqStart
          (Function.update (s.storage (s.queue e).osqStart) (s.queue e).ring.qIn pmsg)
          (s.queue e).osqStart)
        rw [Function.update_self]
        exact (Ring.contents_push h.ring (Nat.lt_of_not_le hfull) pmsg).symm
      · rw [returned_done] at hx
        cases hx

/-- A call about another event. -/
theorem other (hp : Pools s) (h : QueueOk s e) (hc : c.event ≠ some e) :
    Carries s e caller c (c.exec s) := by
  have hsame := Call.sameEvent hp (c := c) (fun _ => by rw [h.type]; decide) hc
  have hacc : ∀ r, Out.accepted e (.ret caller c r) = none := by
    intro r
    cases c with
    | qPostOpt pevent pmsg opt => exact if_neg fun hr => hc (congrArg some hr.1)
    | _ => rfl
  have hret : ∀ r, Out.returned e (.ret caller c r) = none := by
    intro r
    cases c with
    | qPend pevent timeout => exact if_neg fun hr => hc (congrArg some hr.1)
    | qAccept pevent => exact if_neg fun hr => hc (congrArg some hr.1)
    | _ => rfl
  refine quiet ?_ ?_ ?_ fun hpost => absurd ?_ hc
  · unfold Os.contents
    rw [hsame.queue h.type, hsame.cells h.type h.own]
  · unfold Ret.accepted
    cases (c.exec s).res with
    | none => rfl
    | some r => simp [hacc]
  · unfold Ret.returned
    cases (c.exec s).res with
    | none => rfl
    | some r => simp [hret]
  · cases c with
    | semPost pevent => exact hpost
    | qPostOpt pevent pmsg opt => exact hpost
    | _ => cases hpost

end Carries

/-- **What every call does to the messages of a queue.** -/
theorem Call.carries {y : Sys} (hp : Pools y.os) (h : QueueOk y.os e) (hfeeds : y.Feeds e (.call c)) :
    Carries y.os e caller c (c.exec y.os) := by
  by_cases hc : c.event = some e
  · have hsem : (y.os.osEvent e).osEventType ≠ .sem := by
      rw [h.type]
      decide
    cases c with
    | semAccept pevent => cases hc; simp only [Call.exec, osSemAccept, if_pos hsem]; exact .same rfl rfl
    | semDel pevent opt => cases hc; simp only [Call.exec, osSemDel, if_pos hsem]; exact .same rfl rfl
    | semPend pevent timeout =>
      cases hc
      simp only [Call.exec, osSemPend, if_pos hsem]
      exact .same rfl rfl
    | semPendAbort pevent broadcast =>
      cases hc
      simp only [Call.exec, osSemPendAbort, if_pos hsem]
      exact .same rfl rfl
    | semPost pevent => cases hc; simp only [Call.exec, osSemPost, if_pos hsem]; exact .same rfl rfl
    | semSet pevent cnt => cases hc; simp only [Call.exec, osSemSet, if_pos hsem]; exact .same rfl rfl
    | qAccept pevent => cases hc; exact .qAccept h
    | qDel pevent opt => cases hc; exact absurd rfl hfeeds
    | qFlush pevent => cases hc; exact absurd rfl hfeeds
    | qPend pevent timeout => cases hc; exact .qPend h timeout
    | qPendAbort pevent broadcast => cases hc; exact .qPendAbort h broadcast
    | qPostOpt pevent pmsg opt => cases hc; exact .qPostOpt h pmsg (hfeeds rfl).1 (hfeeds rfl).2
    | _ => cases hc
  · exact .other hp h hc

/-! ## Steps -/

variable {y y' : Sys}

/-- A step has let the messages of the queue flow. -/
def Flowing (e : Nat) (y : Sys) (r : Sys × List Out) : Prop :=
  QueueOk r.1.os e ∧ ∃ takes, Flows (y.os.contents e) (r.1.os.contents e) (y.inHand e) (r.1.inHand e)
    (r.2.filterMap (Out.accepted e)) (r.2.filterMap (Out.returned e)) takes

theorem inHand_congr (hserved : ∀ p, y'.Served .q e p ↔ y.Served .q e p)
    (hmsg : ∀ p, y.Served .q e p → (y'.os.osTcb p).osTcbMsg = (y.os.osTcb p).osTcbMsg) :
    y'.inHand e = y.inHand e := by
  funext k
  cases k with
  | none => rfl
  | some p =>
    by_cases hs : y.Served .q e p
    · show (if _ then _ else _) = if _ then _ else _
      rw [if_pos hs, if_pos ((hserved p).mpr hs), hmsg p hs]
    · show (if _ then _ else _) = if _ then _ else _
      rw [if_neg hs, if_neg fun h => hs ((hserved p).mp h)]

/-- What a task holds is not changed by a call which hands nothing to it. -/
theorem Called.msg_of_keeps (h : PendOk y) (hc : Called y c y') {t : ObjType}
    (hk : (y.os.osIntNesting = 0 → p ≠ y.os.osPrioCur) →
      (c = .taskCreate p → (c.exec y.os).res.map Res.err ≠ some .none) →
      Keeps y.os (c.exec y.os).os e p) (hs : y.Served t e p) :
    (y'.os.osTcb p).osTcbMsg = (y.os.osTcb p).osTcbMsg := by
  rcases hc.cont p with ⟨-, hp, hnew⟩ | ⟨-, -, hrun, -⟩ | ⟨-, htbl, -⟩
  · rw [hc.os]
    exact (hk hp hnew).msg (h.pends p t e hs.2.1) hs.2.2
  · have hw := hs.2.1
    rw [hrun] at hw
    cases hw
  · have htbl' := hs.1
    rw [htbl] at htbl'
    cases htbl'

/-- A task which runs its own code, or an interrupt, has nothing in its hand. -/
theorem inHand_caller (hc : Called y c y')
    (hcaller : caller = none ∨ (caller = some y.os.osPrioCur ∧ y.os.osIntNesting = 0)) :
    y.inHand e caller = [] := by
  rcases hcaller with rfl | ⟨rfl, hnest⟩
  · rfl
  · refine if_neg ?_
    rintro ⟨htbl, hw, -⟩
    rcases hc.cont y.os.osPrioCur with ⟨-, hne, -⟩ | ⟨-, -, hrun, -⟩ | ⟨-, htbl', -⟩
    · exact hne hnest rfl
    · rw [hrun] at hw
      cases hw
    · rw [htbl] at htbl'
      cases htbl'

theorem Called.flowing (h : PendOk y) (hc : Called y c y') (hq : QueueOk y.os e)
    (hfeeds : y.Feeds e (.call c))
    (hcaller : caller = none ∨ (caller = some y.os.osPrioCur ∧ y.os.osIntNesting = 0)) :
    Flowing e y (y', ((c.exec y.os).res.map (Out.ret caller c)).toList) := by
  have hdel : ∀ opt, c ≠ .qDel e opt := by
    rintro opt rfl
    exact hfeeds rfl
  have hcreate : ∀ start size, c = .qCreate start size → start ≠ (y.os.queue e).osqStart := by
    rintro start size rfl
    exact hfeeds
  refine ⟨by rw [hc.os]; exact (hq.call h.sys.good.pools hdel hcreate).1, ?_⟩
  show ∃ takes, Flows (y.os.contents e) (y'.os.contents e) (y.inHand e) (y'.inHand e)
    ((c.exec y.os).accepted e caller c) ((c.exec y.os).returned e caller c) takes
  rw [hc.os]
  have hcarries : Carries y.os e caller c (c.exec y.os) := Call.carries h.sys.good.pools hq hfeeds
  rcases hcarries.buffer_or_hand with
    ⟨htaken, hown, hpost⟩ | ⟨pmsg, hos, hne, hacc, hret⟩
  · -- every message which comes out is taken at once, by the caller
    refine ⟨(c.exec y.os).returned e caller c, htaken, fun k => ?_⟩
    have hhand : y'.inHand e = y.inHand e := by
      have hserved := hc.served (t := .q) h hpost fun p hd => by
        subst hd
        exact hfeeds
      refine inHand_congr (fun p => by rw [← mem_served, hserved, mem_served]) fun p hs => ?_
      refine hc.msg_of_keeps h (fun hp hnew => Call.keeps hc.caller hp hpost ?_ hnew) hs
      rintro rfl
      exact hfeeds hs
    rw [hhand]
    by_cases hk : k = caller
    · rw [hk, inHand_caller hc hcaller, List.append_nil]
      rfl
    · rw [valuesOf_eq_nil fun x hx he => hk (he.symm.trans (hown x hx)), List.append_nil]
      rfl
  · -- the buffer is empty, and the message goes to the first task of the wait list
    have hwait := h.sys.good.lists.highest_waits hne
    have hempty : y.os.contents e = [] := by
      refine Ring.contents_eq_nil (Nat.eq_zero_of_not_pos fun hpos => ?_)
      rw [h.vain _ e (Or.inr ⟨hq.type, hpos⟩)] at hwait
      cases hwait
    obtain ⟨hnot, hserved⟩ := hc.served_post h hos hne hq.type
    have hmem : ∀ p, y'.Served .q e p ↔ p = (y.os.osEvent e).wait.highest ∨ y.Served .q e p := by
      intro p
      rw [← mem_served, hserved, Finset.mem_insert, mem_served]
    rw [hos, (Moves.osEventTaskRdy ..).contents, hempty, hacc, hret]
    refine ⟨[(some (y.os.osEvent e).wait.highest, pmsg)], rfl, fun k => ?_⟩
    rw [valuesOf_singleton, valuesOf_nil, List.nil_append]
    cases k with
    | none => rfl
    | some p =>
      by_cases hp : p = (y.os.osEvent e).wait.highest
      · rw [if_pos (congrArg some hp.symm)]
        show (if _ then _ else _) ++ [pmsg] = if _ then _ else _
        rw [if_neg fun hs => hnot (mem_served.mpr (hp ▸ hs)), if_pos ((hmem p).mpr (Or.inl hp)), hc.os,
          hos, hp, osTcb_osEventTaskRdy]
        rfl
      · rw [if_neg fun he => hp (Option.some.inj he).symm, List.append_nil]
        show (if _ then _ else _) = if _ then _ else _
        by_cases hs : y.Served .q e p
        · rw [if_pos hs, if_pos ((hmem p).mpr (Or.inr hs)), hc.msg_of_keeps h (fun _ _ => ?_) hs]
          rw [hos]
          exact .of_same (.osEventTaskRdy y.os e pmsg statQ .ok hp) e
        · rw [if_neg hs, if_neg fun hs' => ((hmem p).mp hs').elim hp hs]

/-- A step which neither calls nor leaves a pend. -/
theorem Flowing.silent (h : PendOk y) (hq : QueueOk y'.os e) (hkeeps : ∀ p, Keeps y.os y'.os e p)
    (hcont : ∀ p, (y'.cont p).waits = (y.cont p).waits)
    (hcontents : y'.os.contents e = y.os.contents e) : Flowing e y (y', []) := by
  have hhand : y'.inHand e = y.inHand e :=
    inHand_congr (fun p => (hkeeps p).served h (hcont p))
      fun p hs => (hkeeps p).msg (h.pends p _ e hs.2.1) hs.2.2
  refine ⟨hq, [], ?_⟩
  rw [hcontents, hhand]
  exact .refl

theorem QueueOk.congr (h : QueueOk s e) (htype : ∀ e, (s'.osEvent e).osEventType = (s.osEvent e).osEventType)
    (hqueue : ∀ e, s'.queue e = s.queue e) : QueueOk s' e where
  type := (htype e).trans h.type
  ring := by rw [hqueue]; exact h.ring
  own e' he' hq := by
    rw [hqueue, hqueue]
    exact h.own e' he' ((htype e').symm.trans hq)

theorem Flowing.untouched (h : PendOk y) (hq : QueueOk y.os e) (hos : Untouched y.os y'.os)
    (hcont : ∀ p, (y'.cont p).waits = (y.cont p).waits) : Flowing e y (y', []) := by
  have hqueue : ∀ e, y'.os.queue e = y.os.queue e := by
    intro e
    unfold Os.queue
    rw [hos.event, hos.q]
  refine .silent h (hq.congr (fun e => by rw [hos.event]) hqueue) (fun p => hos.keeps e p) hcont ?_
  unfold Os.contents
  rw [hqueue, hos.storage]

/-- What a task returns from its pend on a queue is the message in its hand. -/
theorem returned_leave (pevent : Nat) (s : Os) :
    (pendLeave .q pevent s).res = some ⟨(s.osTcb s.osPrioCur).osTcbStatPend.err,
      (if (s.osTcb s.osPrioCur).osTcbStatPend = .ok then (s.osTcb s.osPrioCur).osTcbMsg
        else 0).toNat⟩ := rfl

/-- **A task which leaves its pend returns the message in its hand.** -/
theorem flowing_leave (h : PendOk y) (hrun : y.os.rdy.has y.os.osPrioCur = true)
    (hq : QueueOk y.os e) {type : ObjType} {pevent : Nat}
    (hcont : y.cont y.os.osPrioCur = .leave type pevent) :
    Flowing e y (y.afterLeave type pevent,
      ((pendLeave type pevent y.os).res.map (Out.left y.os.osPrioCur type pevent)).toList) := by
  have hrest := pendLeave_rest type pevent y.os
  have hself := served_leave (t := .q) (e := e) h hrun hcont
  obtain ⟨r, hres, herr⟩ := Option.map_eq_some_iff.mp hrest.err
  have hacc : Out.accepted e (.left y.os.osPrioCur type pevent r) = none := rfl
  have hret : (Out.returned e (.left y.os.osPrioCur type pevent r)).toList =
      if y.Served .q e y.os.osPrioCur
      then [(some y.os.osPrioCur, (y.os.osTcb y.os.osPrioCur).osTcbMsg)] else [] := by
    by_cases hs : y.Served .q e y.os.osPrioCur
    · obtain ⟨⟨rfl, rfl⟩, hok⟩ := hself.mp hs
      rw [returned_leave, hok] at hres
      cases hres
      rw [if_pos hs]
      simp [Out.returned, PendStat.err]
    · rw [if_neg hs]
      have hno : ¬((type = .q ∧ pevent = e) ∧ r.err = .none) := by
        rw [herr, pendStat_err]
        exact fun hn => hs (hself.mpr hn)
      cases type with
      | q =>
        show (if pevent = e ∧ r.err = .none then _ else none : Option (Option Prio × Ptr)).toList = []
        rw [if_neg fun hn => hno ⟨⟨rfl, hn.1⟩, hn.2⟩]
        rfl
      | unused => rfl
      | mbox => rfl
      | sem => rfl
      | mutex => rfl
  refine ⟨hq.congr hrest.moves.type hrest.moves.queue, [], ?_, fun k => ?_⟩
  · rw [hres]
    show y.os.contents e ++ [] = [] ++ (pendLeave type pevent y.os).os.contents e
    rw [hrest.moves.contents, List.append_nil, List.nil_append]
  · rw [hres]
    show y.inHand e k ++ [] =
      valuesOf k ([Out.left y.os.osPrioCur type pevent r].filterMap (Out.returned e)) ++ _
    rw [List.append_nil, show [Out.left y.os.osPrioCur type pevent r].filterMap (Out.returned e) =
      (Out.returned e (.left y.os.osPrioCur type pevent r)).toList from ?_, hret]
    · cases k with
      | none =>
        split
        · rfl
        · rfl
      | some p =>
        have hafter := served_afterLeave (t := .q) (e := e) (p := p) h type pevent
        by_cases hp : p = y.os.osPrioCur
        · have hno : (y.afterLeave type pevent).inHand e (some p) = [] :=
            if_neg fun hs => (hafter.mp hs).1 hp
          show y.inHand e (some p) = _ ++ (y.afterLeave type pevent).inHand e (some p)
          rw [hno, List.append_nil, hp]
          show (if _ then _ else _) = _
          split
          · rw [valuesOf_singleton, if_pos rfl]
          · rfl
        · have hnone : valuesOf (some p) (if y.Served .q e y.os.osPrioCur
              then [(some y.os.osPrioCur, (y.os.osTcb y.os.osPrioCur).osTcbMsg)] else []) = [] := by
            split
            · rw [valuesOf_singleton, if_neg fun he => hp (Option.some.inj he).symm]
            · rfl
          have htcb : (y.afterLeave type pevent).os.osTcb p = y.os.osTcb p := (hrest.same p hp).tcb
          rw [hnone, List.nil_append]
          show (if _ then _ else _) = if _ then _ else _
          by_cases hs : y.Served .q e p
          · rw [if_pos hs, if_pos (hafter.mpr ⟨hp, hs⟩), htcb]
          · rw [if_neg hs, if_neg fun hs' => hs (hafter.mp hs').2]
    · cases hr : Out.returned e (.left y.os.osPrioCur type pevent r) <;> simp [hr]

theorem flowing_go (h : PendOk y) (hq : QueueOk y.os e) (htask : y.atTask = true) :
    Flowing e y y.go := by
  obtain ⟨hnest, hpend⟩ := of_decide_eq_true htask
  unfold Sys.go
  dsimp only
  cases hcont : y.cont y.os.osPrioCur with
  | run => exact .silent h hq (fun p => .refl _ e p) (fun _ => rfl) rfl
  | sched => exact .untouched h hq (.osSched y.os) (PendOk.waits_update (by rw [hcont]; rfl))
  | pend type pevent =>
    exact .untouched h hq (.osSched y.os) (PendOk.waits_update (by rw [hcont]; rfl))
  | leave type pevent => exact flowing_leave h (h.sys.leave_ready hnest hpend hcont) hq hcont

theorem Flowing.tick (h : PendOk y) (hq : QueueOk y.os e) :
    Flowing e y ({ y with os := y.os.osTimeTick }, []) := by
  have hmoves := osTimeTick_moves y.os
  refine .silent h (hq.congr hmoves.type fun e => ?_) (fun _ => keeps_tick h.sys.good)
    (fun _ => rfl) (hmoves.contents e)
  exact hmoves.queue e

/-- **Every step lets the messages flow.** -/
theorem step_flowing {i : Input} (h : PendOk y) (hq : QueueOk y.os e) (hi : y.Allows i)
    (hfeeds : y.Feeds e i) : Flowing e y (y.step i) := by
  have hsame : Flowing e y (y, []) := .silent h hq (fun p => .refl _ e p) (fun _ => rfl) rfl
  cases i with
  | call c =>
    unfold Sys.step
    dsimp only
    split
    · next hnest =>
      exact (h.sys.calledIsr (Nat.ne_of_gt hnest) hi.2).flowing h hq hfeeds (Or.inl rfl)
    · split
      · next hc =>
        obtain ⟨hn, hp⟩ := of_decide_eq_true hc.1
        exact (h.sys.calledTask hn hp hc.2 (hi.1 hn) hi.2).flowing h hq hfeeds (Or.inr ⟨rfl, hn⟩)
      · exact hsame
  | go =>
    unfold Sys.step
    dsimp only
    split
    · next hc => exact flowing_go h hq hc
    · exact hsame
  | intEnter => exact .untouched h hq (.osIntEnter y.os) fun _ => rfl
  | tick =>
    unfold Sys.step
    dsimp only
    split
    · exact .tick h hq
    · exact hsame
  | intExit =>
    unfold Sys.step
    dsimp only
    split
    · exact .untouched h hq (.osIntExit y.os) fun _ => rfl
    · exact hsame
  | pendSv =>
    unfold Sys.step
    dsimp only
    split
    · exact .untouched h hq (.pendSvHandler y.os) fun _ => rfl
    · exact hsame

/-! ## Runs -/

/-- What a step carries out feeds the queue. -/
def Cpu.Feeds (e : Nat) (y : Cpu) (i : Input) : Prop := ∀ j ∈ y.performs i, y.sys.Feeds e j

instance (e : Nat) (y : Cpu) (i : Input) : Decidable (y.Feeds e i) :=
  inferInstanceAs (Decidable (∀ j ∈ y.performs i, y.sys.Feeds e j))

theorem Cpu.Feeds.whole {y : Cpu} {z : Sys} {i j : Input} (h : y.Feeds e i) (hj : j ∈ y.performs i)
    (hz : y.whole.Alike z) : z.Feeds e j := by
  have hfeeds := h j hj
  obtain ⟨l, q, rfl⟩ := hz.eq_withFree
  exact hfeeds

theorem QueueOk.alike {x z : Sys} (h : QueueOk x.os e) (hz : x.Alike z) : QueueOk z.os e := by
  obtain ⟨l, q, -, -, rfl⟩ := hz
  exact h.congr (fun _ => rfl) fun _ => rfl

theorem Sys.Alike.messages {x z : Sys} (hz : x.Alike z) :
    z.os.contents e = x.os.contents e ∧ z.inHand e = x.inHand e := by
  obtain ⟨l, q, -, -, rfl⟩ := hz
  exact ⟨rfl, rfl⟩

theorem Out.Void.messages {o : Out} (h : o.Void) : o.accepted e = none ∧ o.returned e = none := by
  obtain ⟨caller, c, hc, rfl⟩ := h
  cases c <;> first | exact ⟨rfl, rfl⟩ | cases hc

/--
**A queue keeps the order of its messages, with any number of tasks.** From any state which the system can
reach, over any run, there is one order of takes: the messages which were in the buffer and those which
posts have put in are taken in their order, each once, and the rest are still in the buffer; and what each
task (or an interrupt) has returned, with what it still has in its hand, is what it has taken, in that
order. A take by a task which waits can be seen from outside only when the task runs.
-/
theorem queue_in_order (prios : List Prio) (before is : List Input) (e : Nat)
    (hbefore : ∀ t ∈ cpu.transitions (Cpu.start prios) before, t.1.Allows t.2)
    (hq : QueueOk (cpu.run (Cpu.start prios) before).sys.os e)
    (hG : ∀ t ∈ cpu.transitions (cpu.run (Cpu.start prios) before) is,
      t.1.Allows t.2 ∧ t.1.Feeds e t.2) :
    let y := cpu.run (Cpu.start prios) before
    let y' := cpu.run y is
    ∃ takes : List (Option Prio × Ptr),
      y.sys.os.contents e ++ (cpu.trace y is).filterMap (Out.accepted e) =
        takes.map Prod.snd ++ y'.sys.os.contents e ∧
      ∀ k, y.sys.inHand e k ++ valuesOf k takes =
        valuesOf k ((cpu.trace y is).filterMap (Out.returned e)) ++ y'.sys.inHand e k := by
  intro y y'
  obtain ⟨hstaged, hpend⟩ := PendOk.run hbefore
  let P : Sys → Prop := fun x => PendOk x ∧ QueueOk x.os e
  have halike : ∀ x z : Sys, x.Alike z → P x → P z := fun x z hz hx => ⟨hx.1.alike hz, hx.2.alike hz⟩
  obtain ⟨takes, hflow⟩ := cpu.run_stages (P := fun y => y.Staged ∧ P y.whole)
    (G := fun y i => y.Allows i ∧ y.Feeds e i) (fun y => y.sys.os.contents e) (fun y => y.sys.inHand e)
    (Out.accepted e) (Out.returned e)
    (fun y i hP hi => by
      have hseen := Cpu.step_seen hP.1 hi.1
      have hasked : ∀ j ∈ y.performs i, ∀ z, y.whole.Alike z → z.Allows j ∧ z.Feeds e j :=
        fun j hj z hz => ⟨hi.1.whole hj hz, hi.2.whole hj hz⟩
      have hstep : ∀ (z : Sys) (j : Input), P z → z.Allows j ∧ z.Feeds e j → Flowing e z (z.step j) :=
        fun z j hz hj => step_flowing hz.1 hz.2 hj.1 hj.2
      exact ⟨⟨hP.1.step, hseen.keeps halike
          (fun z j hz hj => ⟨hz.1.step hj.1, (hstep z j hz hj).1⟩) hP.2 hasked⟩,
        hseen.flows (fun x => x.os.contents e) (Sys.inHand e) halike
          (fun _ _ hz => hz.messages.1) (fun _ _ hz => hz.messages.2) (fun _ ho => ho.messages)
          (fun z j hz hj => (hstep z j hz hj).2) hP.2 hasked⟩)
    ⟨hstaged, hpend, hq.congr (fun _ => rfl) fun _ => rfl⟩ hG
  exact ⟨takes, hflow.taken, hflow.given⟩

/--
Task 10 waits for a message; an interrupt posts two, one into its hand and one into the buffer. Then the
task has tested the type when a third comes.
-/
def handRun : List Input :=
  [.call (.qPend 1 0), .go, .go, .pendSv, .intEnter, .call (.qPostOpt 1 5 ⟨false, false, false⟩),
    .call (.qPostOpt 1 6 ⟨false, false, false⟩), .intExit, .pendSv, .go, .call (.qAccept 1), .intEnter,
    .call (.qPostOpt 1 8 ⟨false, false, false⟩), .intExit, .go]

/-- Task 10 creates a queue: it takes its event, takes its `OS_Q` and fills them. -/
def createRun : List Input := [.pendSv, .call (.qCreate 7 4), .go, .go]

/-- The state in which task 10 has created the queue. -/
theorem queueOk_created : QueueOk (cpu.run (Cpu.start [10]) createRun).sys.os 1 where
  type := by decide
  ring := ⟨by decide, by decide, by decide⟩
  own e' he' hq := by
    have hev : (cpu.run (Cpu.start [10]) createRun).sys.os.osEvent e' =
        Function.update Os.blank.osEvent 1 ⟨.q, 0, 0, BitTable.empty⟩ e' := rfl
    rw [hev, Function.update_of_ne he'] at hq
    cases hq

theorem queue_in_order_handRun :
    let y := cpu.run (Cpu.start [10]) createRun
    let y' := cpu.run y handRun
    (cpu.trace y handRun).filterMap (Out.returned 1) = [(some 10, 5), (some 10, 6)] ∧
    ∃ takes : List (Option Prio × Ptr),
      y.sys.os.contents 1 ++ (cpu.trace y handRun).filterMap (Out.accepted 1) =
        takes.map Prod.snd ++ y'.sys.os.contents 1 ∧
      ∀ k, y.sys.inHand 1 k ++ valuesOf k takes =
        valuesOf k ((cpu.trace y handRun).filterMap (Out.returned 1)) ++ y'.sys.inHand 1 k :=
  ⟨by decide, queue_in_order [10] createRun handRun 1 (by decide) queueOk_created (by decide)⟩

end PlcFirmware.Ucos
