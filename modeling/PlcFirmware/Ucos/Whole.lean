import PlcFirmware.Infra.Simulation
import PlcFirmware.Ucos.FreeLists

/-!
# Preempted calls seen as whole ones

Seen with the control blocks in hand put back into the free lists, a step of `cpu` is a step of `ucos`, or
nothing: a call is carried out where its last critical section is. The order of the free lists is of no
account.

* `Cpu.whole` — the kernel with the blocks in hand put back
* `Cpu.step_seen` — how a step is seen
-/

namespace PlcFirmware.Ucos

open Infra

variable {y y' : Cpu} {x z : Sys} {c : Call} {r : Ret}

/-! ## Control blocks in hand -/

/-- The control blocks which the tasks have in hand. -/
def Cpu.inHand (f : Stage → Option Nat) (stage : Prio → Option Stage) : List Nat :=
  inHands (List.finRange 64) fun p => (stage p).bind f

/-- The kernel with the control blocks in hand put back. -/
def Cpu.whole (y : Cpu) : Sys :=
  y.sys.withFree (Cpu.inHand Stage.event y.stage ++ y.sys.os.osEventFreeList)
    (Cpu.inHand Stage.queue y.stage ++ y.sys.os.osQFreeList)

/-- The systems are the same but for the order of the free lists. -/
def Sys.Alike (x z : Sys) : Prop :=
  ∃ l q, l.Perm x.os.osEventFreeList ∧ q.Perm x.os.osQFreeList ∧ z = x.withFree l q

theorem Sys.Alike.refl (x : Sys) : x.Alike x := ⟨_, _, .rfl, .rfl, rfl⟩

theorem Sys.Alike.withFree {l l' q q' : List Nat} (hl : l'.Perm l) (hq : q'.Perm q) :
    (x.withFree l q).Alike (x.withFree l' q') := ⟨l', q', hl, hq, rfl⟩

/-- A creation which has found no control block. -/
def Out.Void (o : Out) : Prop := ∃ caller c, c.creates = true ∧ o = .ret caller c ⟨.none, 0⟩

/-- A task which has changed its place has laid down what it had in hand and taken something else. -/
theorem Cpu.inHand_update (f : Stage → Option Nat) (stage : Prio → Option Stage) (p : Prio)
    (o : Option Stage) :
    (((stage p).bind f).toList ++ Cpu.inHand f (Function.update stage p o)).Perm
      ((o.bind f).toList ++ Cpu.inHand f stage) := by
  have h := inHands_update (List.nodup_finRange 64) (List.mem_finRange p) (fun p => (stage p).bind f)
    (o.bind f)
  have hupdate : Function.update (fun p => (stage p).bind f) p (o.bind f) =
      fun p' => (Function.update stage p o p').bind f :=
    funext fun p' => (Function.apply_update (fun _ o => o.bind f) stage p o p').symm
  rwa [hupdate] at h

theorem Stage.queue_eq_none {o : Option Stage} (h : o.bind Stage.event = none) :
    o.bind Stage.queue = none := by
  cases o with
  | none => rfl
  | some st => cases st <;> first | rfl | cases h

/-- A call which has left its last critical section has laid down what its task had in hand. -/
theorem Cpu.inHand_finish (f : Stage → Option Nat)
    (hnew : ∀ prio, c = .taskCreate prio → (y.stage prio).bind f = none) :
    (((y.stage y.sys.os.osPrioCur).bind f).toList ++ Cpu.inHand f (y.finish c r).1.stage).Perm
      (Cpu.inHand f y.stage) := by
  have hstarted : (∀ p, (Cpu.started y.stage c r p).bind f = (y.stage p).bind f) := by
    intro p
    unfold Cpu.started
    split
    · next prio =>
      split
      · by_cases hp : p = prio
        · subst hp
          rw [Function.update_self, hnew p rfl]
          rfl
        · rw [Function.update_of_ne hp]
      · rfl
    · rfl
  have h := Cpu.inHand_update f (Cpu.started y.stage c r) y.sys.os.osPrioCur none
  have hsame : Cpu.inHand f (Cpu.started y.stage c r) = Cpu.inHand f y.stage :=
    congrArg (inHands (List.finRange 64)) (funext hstarted)
  rw [hstarted, hsame] at h
  exact h

/-! ## Steps which are those of `System` -/

/-- A step in which nothing is taken into a hand or laid down. -/
theorem Cpu.alike_of_step (y y' : Cpu) {i : Input}
    (hi : ∀ c, i = .call c → c.creates = true → y.sys.os.osIntNesting ≠ 0)
    (hsys : y'.sys = (y.sys.step i).1)
    (hevents : (Cpu.inHand Stage.event y'.stage).Perm (Cpu.inHand Stage.event y.stage))
    (hqueues : (Cpu.inHand Stage.queue y'.stage).Perm (Cpu.inHand Stage.queue y.stage)) :
    (y.whole.step i).1.Alike y'.whole ∧ (y.whole.step i).2 = (y.sys.step i).2 := by
  obtain ⟨events, queues, h⟩ := y.sys.step_withFree i hi
  have hself : (y.sys.step i).1 = (y.sys.step i).1.withFree (events ++ y.sys.os.osEventFreeList)
      (queues ++ y.sys.os.osQFreeList) := congrArg Prod.fst (h _ _)
  have hfree : (y.sys.step i).1.os.osEventFreeList = events ++ y.sys.os.osEventFreeList :=
    congrArg (fun x : Sys => x.os.osEventFreeList) hself
  have hqfree : (y.sys.step i).1.os.osQFreeList = queues ++ y.sys.os.osQFreeList :=
    congrArg (fun x : Sys => x.os.osQFreeList) hself
  unfold Cpu.whole
  rw [h, hsys]
  refine ⟨.withFree ?_ ?_, rfl⟩
  · rw [hfree]
    exact (hevents.append_right _).trans (List.perm_append_comm_assoc _ _ _)
  · rw [hqfree]
    exact (hqueues.append_right _).trans (List.perm_append_comm_assoc _ _ _)

/-- A call does what it does behind the test, if the test passes. -/
theorem Call.critical_eq {s : Os} (h : c.passes s = true) : c.critical s = c.exec s := by
  cases c with
  | semAccept pevent => exact (if_neg fun hne => hne (of_decide_eq_true h)).symm
  | semDel pevent opt => exact (if_neg fun hne => hne (of_decide_eq_true h)).symm
  | semPend pevent timeout => exact (if_neg fun hne => hne (of_decide_eq_true h)).symm
  | semPendAbort pevent broadcast => exact (if_neg fun hne => hne (of_decide_eq_true h)).symm
  | semPost pevent => exact (if_neg fun hne => hne (of_decide_eq_true h)).symm
  | semSet pevent cnt => exact (if_neg fun hne => hne (of_decide_eq_true h)).symm
  | qAccept pevent => exact (if_neg fun hne => hne (of_decide_eq_true h)).symm
  | qDel pevent opt => exact (if_neg fun hne => hne (of_decide_eq_true h)).symm
  | qPend pevent timeout => exact (if_neg fun hne => hne (of_decide_eq_true h)).symm
  | qPendAbort pevent broadcast => exact (if_neg fun hne => hne (of_decide_eq_true h)).symm
  | qPostOpt pevent pmsg opt => exact (if_neg fun hne => hne (of_decide_eq_true h)).symm
  | _ => cases h

/-- A call which tests a type creates nothing, neither an event nor a task. -/
theorem Call.creates_of_passes {s : Os} (h : c.passes s = true) :
    c.creates = false ∧ ∀ prio, c ≠ .taskCreate prio := by
  cases c <;> first | exact ⟨rfl, fun _ => Call.noConfusion⟩ | cases h

/-- A call of a task which needs more than one step has tested the type, or has taken an event. -/
theorem Call.begins_cases {s os : Os} {st : Stage} (h : c.begins s = some (st, os)) :
    (os = s ∧ st = .tested c ∧ c.passes s = true) ∨
      ∃ pevent rest, s.osEventFreeList = pevent :: rest ∧ os = { s with osEventFreeList := rest } ∧
        st.event = some pevent ∧ st.queue = none := by
  cases c with
  | semCreate cnt =>
    dsimp only [Call.begins] at h
    cases hl : s.osEventFreeList with
    | nil =>
      rw [hl] at h
      cases h
    | cons pevent rest =>
      rw [hl] at h
      cases h
      exact Or.inr ⟨pevent, rest, rfl, rfl, rfl, rfl⟩
  | qCreate start size =>
    dsimp only [Call.begins] at h
    cases hl : s.osEventFreeList with
    | nil =>
      rw [hl] at h
      cases h
    | cons pevent rest =>
      rw [hl] at h
      cases h
      exact Or.inr ⟨pevent, rest, rfl, rfl, rfl, rfl⟩
  | _ =>
    dsimp only [Call.begins] at h
    split at h
    · next hpass =>
      cases h
      exact Or.inl ⟨rfl, rfl, hpass⟩
    · cases h

/-- A creation which finds no event ends at once. -/
theorem Call.exec_of_begins_none {s : Os} (hc : c.creates = true) (hb : c.begins s = none) :
    c.exec s = s.done .none 0 := by
  have hfree : s.osEventFreeList = [] := by
    cases hl : s.osEventFreeList with
    | nil => rfl
    | cons pevent rest =>
      cases c with
      | semCreate cnt =>
        dsimp only [Call.begins] at hb
        rw [hl] at hb
        cases hb
      | qCreate start size =>
        dsimp only [Call.begins] at hb
        rw [hl] at hb
        cases hb
      | _ => cases hc
  cases c with
  | semCreate cnt =>
    show osSemCreate cnt s = _
    unfold osSemCreate
    rw [hfree]
    split <;> rfl
  | qCreate start size =>
    show osQCreate start size s = _
    unfold osQCreate
    rw [hfree]
    split <;> rfl
  | _ => cases hc

/-! ## The steps -/

/-- A task which is in front of a critical section has nothing left of an earlier call. -/
def Cpu.Staged (y : Cpu) : Prop := ∀ p, y.stage p ≠ none → y.sys.cont p = .run

/-- The task which runs makes a whole call. -/
theorem Cpu.step_call (hnest : y.sys.os.osIntNesting = 0) (htask : y.sys.atTask = true)
    (hcont : y.sys.cont y.sys.os.osPrioCur = .run) :
    (y.finish c (c.exec y.sys.os)).1.sys = (y.sys.step (.call c)).1 ∧
      (y.sys.step (.call c)).2 = (y.finish c (c.exec y.sys.os)).2 := by
  have hstep : y.sys.step (.call c) = y.sys.callTask c :=
    (if_neg (Nat.not_lt.mpr (Nat.le_of_eq hnest))).trans (if_pos ⟨htask, hcont⟩)
  rw [hstep]
  exact ⟨rfl, rfl⟩

/-- The call is carried out in one step: at once, or behind its test. -/
theorem Cpu.seen_finish (hnest : y.sys.os.osIntNesting = 0) (htask : y.sys.atTask = true)
    (hcont : y.sys.cont y.sys.os.osPrioCur = .run) (hc : c.creates = false)
    (hhand : (y.stage y.sys.os.osPrioCur).bind Stage.event = none)
    (hnew : ∀ prio, c = .taskCreate prio → (y.stage prio).bind Stage.event = none) :
    Seen ucos Sys.Alike Out.Void y.whole (y.finish c (c.exec y.sys.os)).1.whole
      (y.finish c (c.exec y.sys.os)).2 (some (Input.call c)) := by
  obtain ⟨hsys, hout⟩ := Cpu.step_call (c := c) hnest htask hcont
  have hevents := Cpu.inHand_finish (r := c.exec y.sys.os) Stage.event hnew
  have hqueues := Cpu.inHand_finish (r := c.exec y.sys.os) Stage.queue fun prio h =>
    Stage.queue_eq_none (hnew prio h)
  rw [hhand] at hevents
  rw [Stage.queue_eq_none hhand] at hqueues
  obtain ⟨halike, heq⟩ := Cpu.alike_of_step y _ (i := .call c)
    (fun c' h hc' => by cases h; rw [hc] at hc'; cases hc') hsys hevents hqueues
  exact .step (.refl _) halike (heq.trans hout)

/-- The first step of a call which needs more is seen as nothing. -/
theorem Cpu.seen_begin {os : Os} {st : Stage} (hstage : y.stage y.sys.os.osPrioCur = none)
    (hbegin : c.begins y.sys.os = some (st, os)) :
    y.whole.Alike (Cpu.whole ⟨{ y.sys with os := os },
      Function.update y.stage y.sys.os.osPrioCur (some st)⟩) := by
  have hevents := Cpu.inHand_update Stage.event y.stage y.sys.os.osPrioCur (some st)
  have hqueues := Cpu.inHand_update Stage.queue y.stage y.sys.os.osPrioCur (some st)
  rw [hstage] at hevents hqueues
  rcases Call.begins_cases hbegin with ⟨rfl, rfl, -⟩ | ⟨pevent, rest, hfree, rfl, hev, hq⟩
  · exact .withFree (hevents.append_right _) (hqueues.append_right _)
  · rw [Option.bind_some, hev] at hevents
    rw [Option.bind_some, hq] at hqueues
    refine .withFree ?_ (hqueues.append_right _)
    rw [hfree]
    exact (hevents.append_right _).trans List.perm_middle.symm

/-- A creation which gives back its event, or has found none, is seen as nothing. -/
theorem Cpu.seen_void {os : Os} (hc : c.creates = true)
    (hcont : y.sys.cont y.sys.os.osPrioCur = .run)
    (hos : os = y.sys.os.withFree os.osEventFreeList y.sys.os.osQFreeList)
    (hfree : os.osEventFreeList =
      ((y.stage y.sys.os.osPrioCur).bind Stage.event).toList ++ y.sys.os.osEventFreeList)
    (hqueue : (y.stage y.sys.os.osPrioCur).bind Stage.queue = none) :
    Seen ucos Sys.Alike Out.Void y.whole (y.finish c (os.done .none 0)).1.whole
      (y.finish c (os.done .none 0)).2 (none : Option Input) := by
  have hnew : ∀ f : Stage → Option Nat, ∀ prio, c = .taskCreate prio → (y.stage prio).bind f = none := by
    rintro f prio rfl
    cases hc
  have hevents := Cpu.inHand_finish (r := os.done .none 0) Stage.event (hnew _)
  have hqueues := Cpu.inHand_finish (r := os.done .none 0) Stage.queue (hnew _)
  rw [hqueue] at hqueues
  have hsys : (y.finish c (os.done .none 0)).1.sys =
      y.sys.withFree os.osEventFreeList y.sys.os.osQFreeList := by
    have hstarted : Sys.started y.sys.cont c (os.done .none 0) = y.sys.cont := by
      cases c <;> first | rfl | cases hc
    have hsame : Function.update y.sys.cont y.sys.os.osPrioCur .run = y.sys.cont := by
      rw [← hcont, Function.update_eq_self]
    show (⟨os, Function.update (Sys.started y.sys.cont c (os.done .none 0)) _ .run⟩ : Sys) = _
    rw [hstarted, hsame, hos]
    rfl
  refine .nothing ?_ fun o ho => ?_
  · unfold Cpu.whole
    rw [hsys]
    refine .withFree ?_ (hqueues.append_right _)
    show (_ ++ os.osEventFreeList).Perm _
    rw [hfree, ← List.append_assoc]
    exact (List.perm_append_comm.append_right _).trans (hevents.append_right _)
  · obtain rfl := List.mem_singleton.mp ho
    exact ⟨_, c, hc, rfl⟩

/-- `OSSemCreate` is carried out where it fills its event. -/
theorem Cpu.seen_semCreate {cnt : UInt16} {pevent : Nat} (hnest : y.sys.os.osIntNesting = 0)
    (htask : y.sys.atTask = true) (hcont : y.sys.cont y.sys.os.osPrioCur = .run)
    (hstage : y.stage y.sys.os.osPrioCur = some (.semCreate cnt pevent)) :
    Seen ucos Sys.Alike Out.Void y.whole
      (y.finish (.semCreate cnt) (osSemCreateFill cnt pevent y.sys.os)).1.whole
      (y.finish (.semCreate cnt) (osSemCreateFill cnt pevent y.sys.os)).2
      (some (Input.call (.semCreate cnt))) := by
  let r := osSemCreateFill cnt pevent y.sys.os
  let y' := (y.finish (.semCreate cnt) r).1
  have hevents := Cpu.inHand_finish (y := y) (c := .semCreate cnt) (r := r) Stage.event
    fun prio h => by cases h
  have hqueues := Cpu.inHand_finish (y := y) (c := .semCreate cnt) (r := r) Stage.queue
    fun prio h => by cases h
  rw [hstage] at hevents hqueues
  let free := Cpu.inHand Stage.event y'.stage ++ y.sys.os.osEventFreeList
  let qFree := Cpu.inHand Stage.queue y'.stage ++ y.sys.os.osQFreeList
  have hstep : (y.sys.withFree (pevent :: free) qFree).step (.call (.semCreate cnt)) =
      (y'.sys.withFree free qFree, (y.finish (.semCreate cnt) r).2) := by
    refine (if_neg (Nat.not_lt.mpr (Nat.le_of_eq hnest))).trans ((if_pos ⟨htask, hcont⟩).trans ?_)
    have hexec : Call.exec (.semCreate cnt) (y.sys.os.withFree (pevent :: free) qFree) =
        r.withFree free qFree := if_neg (Nat.not_lt.mpr (Nat.le_of_eq hnest))
    unfold Sys.callTask
    dsimp only [Sys.withFree]
    rw [hexec]
    rfl
  refine .step (z := y.sys.withFree (pevent :: free) qFree) ?_ ?_ ?_
  · exact .withFree (hevents.append_right _) (hqueues.append_right _)
  · show Sys.Alike (Sys.step _ _).1 _
    rw [hstep]
    exact .refl _
  · show (Sys.step _ _).2 = _
    rw [hstep]

/-- `OSQCreate` is carried out where it fills its event and its `OS_Q`. -/
theorem Cpu.seen_qCreate {start size pevent pq : Nat} (hnest : y.sys.os.osIntNesting = 0)
    (htask : y.sys.atTask = true) (hcont : y.sys.cont y.sys.os.osPrioCur = .run)
    (hstage : y.stage y.sys.os.osPrioCur = some (.qFill start size pevent pq)) :
    Seen ucos Sys.Alike Out.Void y.whole
      (y.finish (.qCreate start size) (osQCreateFill start size pevent pq y.sys.os)).1.whole
      (y.finish (.qCreate start size) (osQCreateFill start size pevent pq y.sys.os)).2
      (some (Input.call (.qCreate start size))) := by
  let r := osQCreateFill start size pevent pq y.sys.os
  let y' := (y.finish (.qCreate start size) r).1
  have hevents := Cpu.inHand_finish (y := y) (c := .qCreate start size) (r := r) Stage.event
    fun prio h => by cases h
  have hqueues := Cpu.inHand_finish (y := y) (c := .qCreate start size) (r := r) Stage.queue
    fun prio h => by cases h
  rw [hstage] at hevents hqueues
  let free := Cpu.inHand Stage.event y'.stage ++ y.sys.os.osEventFreeList
  let qFree := Cpu.inHand Stage.queue y'.stage ++ y.sys.os.osQFreeList
  have hstep : (y.sys.withFree (pevent :: free) (pq :: qFree)).step (.call (.qCreate start size)) =
      (y'.sys.withFree free qFree, (y.finish (.qCreate start size) r).2) := by
    refine (if_neg (Nat.not_lt.mpr (Nat.le_of_eq hnest))).trans ((if_pos ⟨htask, hcont⟩).trans ?_)
    have hexec : Call.exec (.qCreate start size) (y.sys.os.withFree (pevent :: free) (pq :: qFree)) =
        r.withFree free qFree := if_neg (Nat.not_lt.mpr (Nat.le_of_eq hnest))
    unfold Sys.callTask
    dsimp only [Sys.withFree]
    rw [hexec]
    rfl
  refine .step (z := y.sys.withFree (pevent :: free) (pq :: qFree)) ?_ ?_ ?_
  · exact .withFree (hevents.append_right _) (hqueues.append_right _)
  · show Sys.Alike (Sys.step _ _).1 _
    rw [hstep]
    exact .refl _
  · show (Sys.step _ _).2 = _
    rw [hstep]

/-- A call by the task which runs. -/
theorem Cpu.seen_callTask (hnest : y.sys.os.osIntNesting = 0) (htask : y.sys.atTask = true)
    (hcont : y.sys.cont y.sys.os.osPrioCur = .run) (hstage : y.stage y.sys.os.osPrioCur = none)
    (hnew : ∀ prio, c = .taskCreate prio → (y.stage prio).bind Stage.event = none) :
    Seen ucos Sys.Alike Out.Void y.whole (y.callTask c).1.whole (y.callTask c).2
      (y.performs (.call c)) := by
  have hperf : y.performs (.call c) =
      if c.creates = false ∧ c.begins y.sys.os = none then some (.call c) else none := by
    refine (if_neg (Nat.not_lt.mpr (Nat.le_of_eq hnest))).trans ?_
    rw [hstage]
    exact if_congr (and_iff_right rfl) rfl rfl
  have hevent : (y.stage y.sys.os.osPrioCur).bind Stage.event = none := by
    rw [hstage]
    rfl
  rw [hperf]
  unfold Cpu.callTask
  cases hbegin : c.begins y.sys.os with
  | some begun =>
    rw [if_neg fun h => Option.some_ne_none _ h.2]
    exact .nothing (Cpu.seen_begin hstage hbegin) fun o ho => by cases ho
  | none =>
    dsimp only
    cases hc : c.creates with
    | false =>
      rw [if_pos ⟨rfl, rfl⟩]
      exact Cpu.seen_finish hnest htask hcont hc hevent hnew
    | true =>
      rw [if_neg fun h => Bool.noConfusion h.1, Call.exec_of_begins_none hc hbegin]
      refine Cpu.seen_void hc hcont rfl ?_ (Stage.queue_eq_none hevent)
      rw [hevent]
      rfl

/-- The task which runs goes on. -/
theorem Cpu.seen_go (h : y.Staged) (htask : y.sys.atTask = true) (hcurrent : y.Current) :
    Seen ucos Sys.Alike Out.Void y.whole y.go.1.whole y.go.2 y.resumes := by
  have hnest := (of_decide_eq_true htask).1
  unfold Cpu.Current at hcurrent
  unfold Cpu.go Cpu.resumes
  dsimp only
  cases hstage : y.stage y.sys.os.osPrioCur with
  | none =>
    have hstep : y.sys.step .go = y.sys.go := if_pos htask
    obtain ⟨halike, hout⟩ := Cpu.alike_of_step y { y with sys := y.sys.go.1 } (i := .go)
      (fun c hc => by cases hc) (by rw [hstep]) .rfl .rfl
    exact .step (.refl _) halike (hout.trans (congrArg Prod.snd hstep))
  | some st =>
    have hcont : y.sys.cont y.sys.os.osPrioCur = .run := h _ (by rw [hstage]; exact Option.some_ne_none _)
    cases st with
    | tested c =>
      rw [hstage] at hcurrent
      dsimp only
      rw [Call.critical_eq hcurrent]
      obtain ⟨hc, hnew⟩ := Call.creates_of_passes hcurrent
      exact Cpu.seen_finish hnest htask hcont hc (by rw [hstage]; rfl)
        fun prio heq => absurd heq (hnew prio)
    | semCreate cnt pevent => exact Cpu.seen_semCreate hnest htask hcont hstage
    | qCreate start size pevent =>
      dsimp only
      cases hqs : y.sys.os.osQFreeList with
      | nil =>
        refine Cpu.seen_void rfl hcont ?_ ?_ ?_
        · rw [hqs]
          rfl
        · rw [hstage]
          rfl
        · rw [hstage]
          rfl
      | cons pq queues =>
        have hevents := Cpu.inHand_update Stage.event y.stage y.sys.os.osPrioCur
          (some (.qFill start size pevent pq))
        have hqueues := Cpu.inHand_update Stage.queue y.stage y.sys.os.osPrioCur
          (some (.qFill start size pevent pq))
        rw [hstage] at hevents hqueues
        refine .nothing ?_ fun o ho => by cases ho
        refine .withFree ((List.perm_cons pevent).mp hevents |>.append_right _) ?_
        rw [hqs]
        exact (hqueues.append_right _).trans List.perm_middle.symm
    | qFill start size pevent pq => exact Cpu.seen_qCreate hnest htask hcont hstage

/-- **A step is seen as a step of the kernel with whole calls, or as nothing.** -/
theorem Cpu.step_seen {i : Input} (h : y.Staged) (hi : y.Allows i) :
    Seen ucos Sys.Alike Out.Void y.whole (y.step i).1.whole (y.step i).2 (y.performs i) := by
  have hplain : ∀ j : Input, (∀ c, j = .call c → c.creates = true → y.sys.os.osIntNesting ≠ 0) →
      Seen ucos Sys.Alike Out.Void y.whole (Cpu.whole { y with sys := (y.sys.step j).1 })
        (y.sys.step j).2 (some j) := by
    intro j hj
    obtain ⟨halike, hout⟩ := Cpu.alike_of_step y { y with sys := (y.sys.step j).1 } hj rfl .rfl .rfl
    exact .step (.refl _) halike hout
  have hidle : ∀ j : Option Input, (∀ k ∈ j, y.whole.step k = (y.whole, [])) →
      Seen ucos Sys.Alike Out.Void y.whole y.whole [] j := by
    intro j hj
    cases j with
    | none => exact .nothing (.refl _) fun o ho => by cases ho
    | some k =>
      have hk : ucos.step y.whole k = (y.whole, []) := hj k rfl
      exact .step (.refl _) (by rw [hk]; exact .refl _) (by rw [hk])
  cases i with
  | call c =>
    unfold Cpu.step
    dsimp only
    by_cases hnest : y.sys.os.osIntNesting > 0
    · have hstep : y.sys.step (.call c) = y.sys.callIsr c := if_pos hnest
      have hperf : y.performs (.call c) = some (.call c) := if_pos hnest
      rw [if_pos hnest, hperf, ← hstep]
      exact hplain _ fun c' hc' _ => Nat.ne_of_gt hnest
    · have hzero : y.sys.os.osIntNesting = 0 := Nat.eq_zero_of_not_pos hnest
      rw [if_neg hnest]
      split
      · next hcall =>
        refine Cpu.seen_callTask hzero hcall.1 hcall.2.1 hcall.2.2 ?_
        rintro prio rfl
        exact hi.2
      · next hcall =>
        refine hidle _ fun k hk => ?_
        have hperf : y.performs (.call c) =
            if y.stage y.sys.os.osPrioCur = none ∧ c.creates = false ∧ c.begins y.sys.os = none then
              some (.call c)
            else none := if_neg hnest
        rw [hperf] at hk
        split at hk
        · next hfirst =>
          obtain rfl := Option.some.inj hk
          exact (if_neg hnest).trans (if_neg fun hc => hcall ⟨hc.1, hc.2, hfirst.1⟩)
        · cases hk
  | go =>
    unfold Cpu.step Cpu.performs
    dsimp only
    split
    · next htask => exact Cpu.seen_go h htask hi.2
    · exact hidle _ fun k hk => by cases hk
  | intEnter => exact hplain _ fun c hc => by cases hc
  | tick => exact hplain _ fun c hc => by cases hc
  | intExit => exact hplain _ fun c hc => by cases hc
  | pendSv => exact hplain _ fun c hc => by cases hc

/-! ## Runs -/

namespace Cpu.Staged

/-- What is left of its call to a new task, and to the one whose call has ended. -/
theorem finish (h : y.Staged) : (y.finish c r).1.Staged := by
  intro p hp
  have hp' : Function.update (Cpu.started y.stage c r) y.sys.os.osPrioCur none p ≠ none := hp
  by_cases hcur : p = y.sys.os.osPrioCur
  · rw [hcur, Function.update_self] at hp'
    exact absurd rfl hp'
  rw [Function.update_of_ne hcur] at hp'
  show Function.update (Sys.started y.sys.cont c r) y.sys.os.osPrioCur r.cont p = .run
  rw [Function.update_of_ne hcur]
  cases c with
  | taskCreate prio =>
    unfold Cpu.started at hp'
    unfold Sys.started
    dsimp only at hp' ⊢
    by_cases hres : r.res.map Res.err = some .none
    · rw [if_pos hres] at hp' ⊢
      by_cases hnew : p = prio
      · rw [hnew, Function.update_self]
      · rw [Function.update_of_ne hnew] at hp' ⊢
        exact h p hp'
    · rw [if_neg hres] at hp' ⊢
      exact h p hp'
  | _ => exact h p hp'

/-- The task which runs is in a call. -/
theorem update (h : y.Staged) (hcont : y.sys.cont y.sys.os.osPrioCur = .run) (os : Os)
    (o : Option Stage) :
    Cpu.Staged ⟨{ y.sys with os := os }, Function.update y.stage y.sys.os.osPrioCur o⟩ := by
  intro p hp
  by_cases hcur : p = y.sys.os.osPrioCur
  · rw [hcur]
    exact hcont
  · have hp' : Function.update y.stage y.sys.os.osPrioCur o p ≠ none := hp
    rw [Function.update_of_ne hcur] at hp'
    exact h p hp'

theorem go (h : y.Staged) : y.go.1.Staged := by
  unfold Cpu.go
  dsimp only
  cases hstage : y.stage y.sys.os.osPrioCur with
  | none =>
    intro p hp
    have hcur : p ≠ y.sys.os.osPrioCur := by
      rintro rfl
      exact hp hstage
    have hcont : y.sys.go.1.cont p = y.sys.cont p := by
      unfold Sys.go
      dsimp only
      cases y.sys.cont y.sys.os.osPrioCur with
      | run => rfl
      | sched => exact Function.update_of_ne hcur _ _
      | pend type pevent => exact Function.update_of_ne hcur _ _
      | leave type pevent => exact Function.update_of_ne hcur _ _
    exact hcont.trans (h p hp)
  | some st =>
    have hcont : y.sys.cont y.sys.os.osPrioCur = .run := h _ (by rw [hstage]; exact Option.some_ne_none _)
    cases st with
    | tested c => exact h.finish
    | semCreate cnt pevent => exact h.finish
    | qCreate start size pevent =>
      dsimp only
      split
      · exact h.finish
      · exact h.update hcont _ _
    | qFill start size pevent pq => exact h.finish

theorem step {i : Input} (h : y.Staged) : (y.step i).1.Staged := by
  cases i with
  | call c =>
    unfold Cpu.step
    dsimp only
    split
    · exact h
    · split
      · next hcall =>
        unfold Cpu.callTask
        split
        · exact h.update hcall.2.1 _ _
        · exact h.finish
      · exact h
  | go =>
    unfold Cpu.step
    dsimp only
    split
    · exact h.go
    · exact h
  | intEnter => exact h
  | tick =>
    intro p hp
    refine Eq.trans ?_ (h p hp)
    show (y.sys.step .tick).1.cont p = y.sys.cont p
    unfold Sys.step
    dsimp only
    split <;> rfl
  | intExit =>
    intro p hp
    refine Eq.trans ?_ (h p hp)
    show (y.sys.step .intExit).1.cont p = y.sys.cont p
    unfold Sys.step
    dsimp only
    split <;> rfl
  | pendSv =>
    intro p hp
    refine Eq.trans ?_ (h p hp)
    show (y.sys.step .pendSv).1.cont p = y.sys.cont p
    unfold Sys.step
    dsimp only
    split <;> rfl

end Cpu.Staged

/-- Nothing but the free lists is different in the whole kernel. -/
theorem Sys.Alike.eq_withFree (hz : y.whole.Alike z) : ∃ l q, z = y.sys.withFree l q := by
  obtain ⟨l, q, -, -, rfl⟩ := hz
  exact ⟨l, q, rfl⟩

/-- What is asked of a step has nothing to do with the free lists. -/
theorem Cpu.Allows.whole {i j : Input} (h : y.Allows i) (hj : j ∈ y.performs i)
    (hz : y.whole.Alike z) : z.Allows j := by
  have hallows := h.1 j hj
  obtain ⟨l, q, rfl⟩ := hz.eq_withFree
  cases j <;> exact hallows

theorem Cpu.whole_start (prios : List Prio) : (Cpu.start prios).whole = Sys.start prios := by
  have hnone : ∀ f : Stage → Option Nat, Cpu.inHand f (Cpu.start prios).stage = [] := fun f =>
    List.filterMap_eq_nil_iff.mpr fun _ _ => rfl
  unfold Cpu.whole
  rw [hnone, hnone]
  rfl

/-- **What every step of whole calls keeps is kept with preemption inside the calls.** -/
theorem Cpu.run_whole {P : Sys → Prop} (halike : ∀ x z : Sys, x.Alike z → P x → P z)
    (hstep : ∀ (z : Sys) (i : Input), P z → z.Allows i → P (z.step i).1) {is : List Input}
    (h : y.Staged) (h0 : P y.whole) (hG : ∀ t ∈ cpu.transitions y is, t.1.Allows t.2) :
    (cpu.run y is).Staged ∧ P (cpu.run y is).whole := by
  refine (cpu.run_invariant (P := fun y => y.Staged ∧ P y.whole) (G := Cpu.Allows) (fun y i hP hi => ?_)
    ⟨h, h0⟩ hG).2
  exact ⟨hP.1.step, (Cpu.step_seen hP.1 hi).keeps halike hstep hP.2 fun j hj z hz => hi.whole hj hz⟩

end PlcFirmware.Ucos
