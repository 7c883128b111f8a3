import PlcFirmware.Ucos.CallOk
import PlcFirmware.Ucos.Whole

/-!
# The task of highest priority runs

Every step of the tasks and the interrupts keeps the invariant of the scheduler. Two things are asked of
the system: the idle task does not call the kernel and nobody suspends it, and no post leaves out
`OS_Sched`. The results are about `cpu`, in which a task can be preempted inside a call.

* `SysOk` — the invariant
* `running_is_highest` — at the level of the tasks the one of highest priority runs
* `lists_mean` — the bits of the lists say what the control blocks say
* `no_task_lost` — a task which cannot run is somewhere from where it can be woken
* `control_blocks_kept` — no control block is lost or used twice
-/

namespace PlcFirmware.Ucos

open Infra

/-- The invariant of the scheduler. -/
structure SysOk (y : Sys) : Prop where
  good : Good y.os
  ptr : ∀ p, (y.os.osTcb p).osTcbEventPtr = 0 ∨
    (y.cont p).event = some (y.os.osTcb p).osTcbEventPtr
  locked : y.os.osLockNesting ≠ 0 → y.os.pendSv = false ∧ (y.cont y.os.osPrioCur).event = none
  chosen : y.os.osIntNesting = 0 → y.os.osLockNesting = 0 →
    (y.os.pendSv = true ∨ (y.cont y.os.osPrioCur).due = false) →
    y.os.osPrioHighRdy = y.os.rdy.highest
  runs : y.os.osIntNesting = 0 → y.os.osLockNesting = 0 → y.os.pendSv = false →
    (y.cont y.os.osPrioCur).due = false → y.os.osPrioCur = y.os.rdy.highest

variable {y : Sys} {s : Os} {p : Prio} {c : Call}

/-- The first task of a list is known by what it is. -/
theorem Good.highest_eq (h : Good s) (hp : s.rdy.has p = true)
    (hle : ∀ q, s.rdy.has q = true → p ≤ q) : s.rdy.highest = p := by
  obtain ⟨hhas, hbelow⟩ := h.highest
  refine le_antisymm ?_ (hle _ hhas)
  by_contra hlt
  have := hbelow p (not_le.mp hlt)
  rw [hp] at this
  cases this

theorem Good.highest_le (h : Good s) (hp : s.rdy.has p = true) : s.rdy.highest ≤ p := by
  by_contra hlt
  have := h.highest.2 p (not_le.mp hlt)
  rw [hp] at this
  cases this

/-! ## The steps -/

/-- A new task waits for nothing. -/
theorem osTaskCreate_ptr (h : (osTaskCreate p s).res.map Res.err = some .none) :
    ((osTaskCreate p s).os.osTcb p).osTcbEventPtr = 0 := by
  unfold osTaskCreate at h ⊢
  split at h
  · cases h
  · next hnest =>
    rw [if_neg hnest]
    split at h
    · cases h
    · next htbl =>
      rw [if_neg htbl]
      split at h
      · cases h
      · next hfree =>
        rw [if_neg hfree]
        simp [Os.thenSched, Os.osTcbInit, Os.makeReady, Tcb.init]

/-- Only a new task has started. -/
theorem started_cases (cont : Prio → Cont) (c : Call) (r : Ret) (p : Prio) :
    (Sys.started cont c r p = cont p ∧ (c = .taskCreate p → r.res.map Res.err ≠ some .none)) ∨
      (c = .taskCreate p ∧ r.res.map Res.err = some .none ∧ Sys.started cont c r p = .run) := by
  cases c with
  | taskCreate prio =>
    unfold Sys.started
    dsimp only
    by_cases hp : p = prio
    · subst hp
      split
      · next hres => exact Or.inr ⟨rfl, hres, Function.update_self ..⟩
      · next hres => exact Or.inl ⟨rfl, fun _ => hres⟩
    · refine Or.inl ⟨?_, fun he => absurd (Call.taskCreate.inj he).symm hp⟩
      split
      · exact Function.update_of_ne hp _ _
      · rfl
  | _ => exact Or.inl ⟨rfl, fun he => by cases he⟩

theorem SysOk.caller (h : SysOk y) (hrun : y.os.osIntNesting = 0 → y.os.pendSv = false ∧
    y.cont y.os.osPrioCur = .run) (hbusy : y.os.osIntNesting = 0 → y.os.osPrioCur ≠ idlePrio) :
    Caller y.os where
  good := h.good
  run hnest hlock := by
    obtain ⟨hpend, hcont⟩ := hrun hnest
    have hcur := h.runs hnest hlock hpend (by rw [hcont]; rfl)
    refine ⟨by rw [hcur]; exact h.good.highest.1, (h.ptr _).resolve_right ?_⟩
    rw [hcont]
    exact Option.some_ne_none _ ∘ Eq.symm
  busy := hbusy

theorem SysOk.callTask (h : SysOk y) (hnest : y.os.osIntNesting = 0) (hpend : y.os.pendSv = false)
    (hcont : y.cont y.os.osPrioCur = .run) (hbusy : y.os.osPrioCur ≠ idlePrio) (hc : c.Sane y.os) :
    SysOk (y.callTask c).1 := by
  have hcaller := h.caller (fun _ => ⟨hpend, hcont⟩) (fun _ => hbusy)
  have hcall := Call.exec_ok hcaller hc
  have hev : (y.cont y.os.osPrioCur).event = none := by rw [hcont]; rfl
  have hcur0 : (y.os.osTcb y.os.osPrioCur).osTcbEventPtr = 0 :=
    (h.ptr _).resolve_right (by rw [hev]; exact (Option.some_ne_none _).symm)
  have hself : (y.callTask c).1.cont (y.callTask c).1.os.osPrioCur = (c.exec y.os).cont := by
    show Function.update _ y.os.osPrioCur _ (c.exec y.os).os.osPrioCur = _
    rw [hcall.cur, Function.update_self]
  have hsv : (c.exec y.os).os.pendSv = false := hcall.pendSv.trans hpend
  -- without `OS_Sched` the task which runs still is the first
  have hfirst : (c.exec y.os).os.osLockNesting = 0 → (c.exec y.os).cont.due = false →
      y.os.osPrioHighRdy = (c.exec y.os).os.rdy.highest ∧
        y.os.osPrioCur = (c.exec y.os).os.rdy.highest := by
    intro hlock hdue
    obtain ⟨hlock', hsub⟩ := hcall.quiet hdue hnest hlock
    have hdue' : (y.cont y.os.osPrioCur).due = false := by rw [hcont]; rfl
    have hcur := h.runs hnest hlock' hpend hdue'
    have hhas := hcall.stays hdue hnest hlock (by rw [hcur]; exact h.good.highest.1)
    have hhigh : (c.exec y.os).os.rdy.highest = y.os.osPrioCur := by
      refine hcall.good.highest_eq hhas fun q hq => ?_
      rw [hcur]
      exact h.good.highest_le (hsub q hq)
    exact ⟨(h.chosen hnest hlock' (Or.inr hdue')).trans (hcur.symm.trans hhigh.symm), hhigh.symm⟩
  refine ⟨hcall.good, fun p => ?_, fun hlock => ⟨hsv, ?_⟩, fun hn hl hor => ?_, fun hn hl hp hdue => ?_⟩
  · show ((c.exec y.os).os.osTcb p).osTcbEventPtr = 0 ∨
      (Function.update (Sys.started y.cont c (c.exec y.os)) y.os.osPrioCur (c.exec y.os).cont p).event =
        some ((c.exec y.os).os.osTcb p).osTcbEventPtr
    by_cases hp : p = y.os.osPrioCur
    · subst hp
      rw [Function.update_self]
      rcases hcall.ptr y.os.osPrioCur with h0 | heq | ⟨-, hev'⟩
      · exact Or.inl h0
      · exact Or.inl (heq.trans hcur0)
      · exact Or.inr hev'
    · rw [Function.update_of_ne hp]
      rcases started_cases y.cont c (c.exec y.os) p with ⟨hsame, -⟩ | ⟨rfl, hres, -⟩
      · rcases hcall.ptr p with h0 | heq | ⟨hpc, -⟩
        · exact Or.inl h0
        · rw [hsame, heq]
          exact h.ptr p
        · exact absurd hpc hp
      · exact Or.inl (osTaskCreate_ptr hres)
  · rw [hself]
    by_contra hne
    exact hlock (hcall.waits hne).2.2
  · rw [hself] at hor
    have hdue := hor.resolve_left (by rw [show (y.callTask c).1.os.pendSv = false from hsv]; decide)
    exact hcall.high.trans (hfirst hl hdue).1
  · rw [hself] at hdue
    exact hcall.cur.trans (hfirst hl hdue).2

theorem SysOk.callIsr (h : SysOk y) (hnest : y.os.osIntNesting ≠ 0) (hc : c.Sane y.os) :
    SysOk (y.callIsr c).1 := by
  have hcaller := h.caller (fun h0 => absurd h0 hnest) (fun h0 => absurd h0 hnest)
  have hcall := Call.exec_ok hcaller hc
  have hnest' : (y.callIsr c).1.os.osIntNesting ≠ 0 := by
    rw [show (y.callIsr c).1.os.osIntNesting = y.os.osIntNesting from hcall.nesting]
    exact hnest
  refine ⟨hcall.good, fun p => ?_, fun hlock => ?_, fun h0 => absurd h0 hnest',
    fun h0 => absurd h0 hnest'⟩
  · rcases hcall.ptr p with h0 | heq | ⟨-, hev⟩
    · exact Or.inl h0
    · show (_ = 0) ∨ (y.cont p).event = _
      rw [show ((y.callIsr c).1.os.osTcb p).osTcbEventPtr = _ from heq]
      exact h.ptr p
    · exact absurd (hcall.waits (by rw [hev]; exact Option.some_ne_none _)).1 hnest
  · have hlock' : y.os.osLockNesting ≠ 0 := hcall.lock hnest ▸ hlock
    obtain ⟨hsv, hev⟩ := h.locked hlock'
    refine ⟨hcall.pendSv.trans hsv, ?_⟩
    show (y.cont (c.exec y.os).os.osPrioCur).event = none
    rw [hcall.cur]
    exact hev

/-- `OS_Sched` writes no more than `OSPrioHighRdy` and the pending switch. -/
theorem Good.osSched (h : Good s) : Good s.osSched := by
  unfold Os.osSched Os.osSchedNew
  split
  · dsimp only
    split
    · exact h.congr rfl rfl ⟨rfl, rfl, rfl, rfl, rfl, fun _ => rfl, fun _ => rfl⟩ fun _ => rfl
    · exact h.congr rfl rfl ⟨rfl, rfl, rfl, rfl, rfl, fun _ => rfl, fun _ => rfl⟩ fun _ => rfl
  · exact h

/-- What `OS_Sched` writes. -/
structure Sched (s s' : Os) : Prop where
  tcb : s'.osTcb = s.osTcb
  nesting : s'.osIntNesting = s.osIntNesting
  lock : s'.osLockNesting = s.osLockNesting
  cur : s'.osPrioCur = s.osPrioCur
  off : s.osLockNesting ≠ 0 → s'.pendSv = s.pendSv
  high : s.osIntNesting = 0 → s.osLockNesting = 0 → s'.osPrioHighRdy = s'.rdy.highest
  same : s.osIntNesting = 0 → s.osLockNesting = 0 → s'.pendSv = false →
    s'.osPrioCur = s'.osPrioHighRdy

theorem sched (s : Os) : Sched s s.osSched := by
  unfold Os.osSched Os.osSchedNew
  split
  · next hc =>
    dsimp only
    split
    · exact ⟨rfl, rfl, rfl, rfl, fun h => absurd hc.2 h, fun _ _ => rfl, fun _ _ h => by cases h⟩
    · next heq =>
      exact ⟨rfl, rfl, rfl, rfl, fun h => absurd hc.2 h, fun _ _ => rfl,
        fun _ _ _ => (not_not.mp heq).symm⟩
  · next hc =>
    exact ⟨rfl, rfl, rfl, rfl, fun _ => rfl, fun h h' => absurd ⟨h, h'⟩ hc,
      fun h h' => absurd ⟨h, h'⟩ hc⟩

/-- The task goes on with `OS_Sched`; behind it a pend still waits for the same event. -/
theorem SysOk.goSched (h : SysOk y) {cont : Cont}
    (hev : cont.event = (y.cont y.os.osPrioCur).event) :
    SysOk ⟨y.os.osSched, Function.update y.cont y.os.osPrioCur cont⟩ := by
  have hs := sched y.os
  have hself : Function.update y.cont y.os.osPrioCur cont y.os.osSched.osPrioCur = cont := by
    rw [hs.cur, Function.update_self]
  refine ⟨h.good.osSched, fun p => ?_, fun hlock => ?_, fun hn hl _ => ?_, fun hn hl hp _ => ?_⟩
  · show (y.os.osSched.osTcb p).osTcbEventPtr = 0 ∨ (Function.update y.cont y.os.osPrioCur cont p).event =
      some (y.os.osSched.osTcb p).osTcbEventPtr
    rw [hs.tcb]
    by_cases hp : p = y.os.osPrioCur
    · subst hp
      rw [Function.update_self, hev]
      exact h.ptr _
    · rw [Function.update_of_ne hp]
      exact h.ptr p
  · have hlock' : y.os.osLockNesting ≠ 0 := hs.lock ▸ hlock
    obtain ⟨hsv, hnone⟩ := h.locked hlock'
    refine ⟨(hs.off hlock').trans hsv, ?_⟩
    show (Function.update y.cont y.os.osPrioCur cont y.os.osSched.osPrioCur).event = none
    rw [hself, hev]
    exact hnone
  · exact hs.high (hs.nesting ▸ hn) (hs.lock ▸ hl)
  · exact (hs.same (hs.nesting ▸ hn) (hs.lock ▸ hl) hp).trans
      (hs.high (hs.nesting ▸ hn) (hs.lock ▸ hl))

/-- What the rest of a pend does. -/
structure Leaves (s : Os) (r : Ret) : Prop where
  good : Good r.os
  effect : Effect s r.os
  rdy : r.os.rdy = s.rdy
  cont : r.cont = .run
  ptr : (r.os.osTcb s.osPrioCur).osTcbEventPtr = 0

theorem rdy_pendEnd (s : Os) (pevent : Nat) : (s.pendEnd pevent).rdy = s.rdy := by
  unfold Os.pendEnd
  dsimp only
  split <;> rfl

theorem SameAt.pendEnd (s : Os) (pevent : Nat) (h : p ≠ s.osPrioCur) :
    SameAt s (s.pendEnd pevent) p :=
  (SameAt.ite (.osEventTaskRemove s pevent h) (.refl s p)).trans (.setTcb _ _ h)

theorem ptr_pendEnd (s : Os) (pevent : Nat) :
    ((s.pendEnd pevent).osTcb s.osPrioCur).osTcbEventPtr = 0 := by
  unfold Os.pendEnd
  dsimp only
  rw [osTcb_setTcb]

theorem Good.pendEnd (h : Good s) {pevent : Nat} (hrun : s.rdy.has s.osPrioCur = true)
    (hptr : (s.osTcb s.osPrioCur).osTcbEventPtr = 0 ∨
      (s.osTcb s.osPrioCur).osTcbEventPtr = pevent) : Good (s.pendEnd pevent) := by
  refine ⟨h.lists.pendEnd hrun hptr, Kept.pendEnd h.kept pevent,
    h.pools.congr (Moves.pendEnd s pevent).samePools, ?_, ?_⟩
  · rw [rdy_pendEnd]
    exact h.idle_ready
  · by_cases hidle : idlePrio = s.osPrioCur
    · rw [hidle]
      exact ptr_pendEnd s pevent
    · rw [(SameAt.pendEnd s pevent hidle).tcb]
      exact h.idle_ptr

theorem Effect.pendEnd (s : Os) (pevent : Nat) : Effect s (s.pendEnd pevent) :=
  .of_moves (Moves.pendEnd s pevent)
    (ptr_of_same (fun _ hq => SameAt.pendEnd s pevent hq) (Or.inl (ptr_pendEnd s pevent)))

theorem Good.pendLeave (h : Good s) (type : ObjType) {pevent : Nat}
    (hrun : s.rdy.has s.osPrioCur = true)
    (hptr : (s.osTcb s.osPrioCur).osTcbEventPtr = 0 ∨
      (s.osTcb s.osPrioCur).osTcbEventPtr = pevent) : Leaves s (pendLeave type pevent s) := by
  have hgood := h.pendEnd hrun hptr
  have hsem : Leaves s (osSemPendLeave pevent s) :=
    ⟨hgood, .pendEnd s pevent, rdy_pendEnd s pevent, rfl, ptr_pendEnd s pevent⟩
  cases type with
  | q =>
    have hcur : (s.pendEnd pevent).osPrioCur = s.osPrioCur := (Moves.pendEnd s pevent).cur
    have heff₁ := Effect.pendEnd s pevent
    have hrdy₁ := rdy_pendEnd s pevent
    have hptr₁ := ptr_pendEnd s pevent
    show Leaves s (((s.pendEnd pevent).setTcb (s.pendEnd pevent).osPrioCur
      { (s.pendEnd pevent).osTcb (s.pendEnd pevent).osPrioCur with osTcbMsg := 0 }).done _ _)
    generalize s.pendEnd pevent = s₁ at hgood hcur heff₁ hrdy₁ hptr₁ ⊢
    have heff : Effect s₁ (s₁.setTcb s₁.osPrioCur { s₁.osTcb s₁.osPrioCur with osTcbMsg := 0 }) :=
      .setTcb s₁ (Or.inr rfl)
    refine ⟨⟨hgood.lists.setTcb rfl rfl Iff.rfl rfl, Kept.setTcb hgood.kept id rfl,
      hgood.pools.congr (Moves.setTcb _ _ _).samePools, hgood.idle_ready, ?_⟩,
      heff₁.trans heff, hrdy₁, rfl, ?_⟩
    · rcases heff.ptr idlePrio with h0 | heq
      · exact h0
      · exact heq.trans hgood.idle_ptr
    · show ((s₁.setTcb s₁.osPrioCur { s₁.osTcb s₁.osPrioCur with osTcbMsg := 0 }).osTcb
        s.osPrioCur).osTcbEventPtr = 0
      rw [← hcur, osTcb_setTcb, hcur]
      exact hptr₁
  | unused => exact hsem
  | mbox => exact hsem
  | sem => exact hsem
  | mutex => exact hsem

/-- A task behind `OS_Sched` of its pend is the first of the ready list. -/
theorem SysOk.leave_runs (h : SysOk y) (hnest : y.os.osIntNesting = 0) (hpend : y.os.pendSv = false)
    {type : ObjType} {pevent : Nat} (hcont : y.cont y.os.osPrioCur = .leave type pevent) :
    y.os.osLockNesting = 0 ∧ y.os.osPrioCur = y.os.rdy.highest := by
  have hlock : y.os.osLockNesting = 0 := by
    by_contra hl
    have := (h.locked hl).2
    rw [hcont] at this
    cases this
  exact ⟨hlock, h.runs hnest hlock hpend (by rw [hcont]; rfl)⟩

theorem SysOk.leave_ready (h : SysOk y) (hnest : y.os.osIntNesting = 0) (hpend : y.os.pendSv = false)
    {type : ObjType} {pevent : Nat} (hcont : y.cont y.os.osPrioCur = .leave type pevent) :
    y.os.rdy.has y.os.osPrioCur = true := by
  rw [(h.leave_runs hnest hpend hcont).2]
  exact h.good.highest.1

theorem SysOk.goLeave (h : SysOk y) (hnest : y.os.osIntNesting = 0) (hpend : y.os.pendSv = false)
    {type : ObjType} {pevent : Nat} (hcont : y.cont y.os.osPrioCur = .leave type pevent) :
    SysOk ⟨(pendLeave type pevent y.os).os,
      Function.update y.cont y.os.osPrioCur (pendLeave type pevent y.os).cont⟩ := by
  obtain ⟨hlock, hcur⟩ := h.leave_runs hnest hpend hcont
  have hdue : (y.cont y.os.osPrioCur).due = false := by rw [hcont]; rfl
  have hptr := h.ptr y.os.osPrioCur
  rw [hcont] at hptr
  have hl := h.good.pendLeave type (by rw [hcur]; exact h.good.highest.1)
    (hptr.imp id fun he => (Option.some.inj he).symm)
  rw [hl.cont]
  have heff := hl.effect
  refine ⟨hl.good, fun p => ?_, fun hl' => absurd (heff.lock.trans hlock) hl', fun _ _ _ => ?_,
    fun _ _ _ _ => ?_⟩
  · show ((pendLeave type pevent y.os).os.osTcb p).osTcbEventPtr = 0 ∨
      (Function.update y.cont y.os.osPrioCur .run p).event =
        some ((pendLeave type pevent y.os).os.osTcb p).osTcbEventPtr
    by_cases hp : p = y.os.osPrioCur
    · rw [hp]
      exact Or.inl hl.ptr
    · rw [Function.update_of_ne hp]
      rcases heff.ptr p with h0 | heq
      · exact Or.inl h0
      · rw [heq]
        exact h.ptr p
  · show (pendLeave type pevent y.os).os.osPrioHighRdy = (pendLeave type pevent y.os).os.rdy.highest
    rw [heff.high, hl.rdy]
    exact h.chosen hnest hlock (Or.inr hdue)
  · show (pendLeave type pevent y.os).os.osPrioCur = (pendLeave type pevent y.os).os.rdy.highest
    rw [heff.cur, hl.rdy]
    exact hcur

theorem SysOk.go (h : SysOk y) (htask : y.atTask = true) : SysOk y.go.1 := by
  obtain ⟨hnest, hpend⟩ := of_decide_eq_true htask
  unfold Sys.go
  dsimp only
  cases hcont : y.cont y.os.osPrioCur with
  | run => exact h
  | sched => exact h.goSched (by rw [hcont]; rfl)
  | pend type pevent => exact h.goSched (by rw [hcont]; rfl)
  | leave type pevent => exact h.goLeave hnest hpend hcont

/-! ## Interrupts -/

theorem SysOk.intEnter (h : SysOk y) : SysOk { y with os := y.os.osIntEnter } := by
  unfold Os.osIntEnter
  split
  · exact ⟨h.good.congr rfl rfl ⟨rfl, rfl, rfl, rfl, rfl, fun _ => rfl, fun _ => rfl⟩ fun _ => rfl,
      h.ptr, h.locked, fun h0 => absurd h0 (Nat.succ_ne_zero _),
      fun h0 => absurd h0 (Nat.succ_ne_zero _)⟩
  · exact h

/-- A tick moves no task into a wait list. -/
theorem Good.tick (h : Good s) : Good s.osTimeTick ∧ Effect s s.osTimeTick := by
  unfold Os.osTimeTick
  have h₀ : Good { s with osTime := s.osTime + 1 } :=
    h.congr rfl rfl ⟨rfl, rfl, rfl, rfl, rfl, fun _ => rfl, fun _ => rfl⟩ fun _ => rfl
  have he₀ : Effect s { s with osTime := s.osTime + 1 } :=
    ⟨rfl, rfl, rfl, rfl, rfl, fun _ => Or.inr rfl⟩
  have hl : ∀ q ∈ s.osTcbList.takeWhile (· ≠ idlePrio),
      q ≠ idlePrio ∧ s.osTcbPrioTbl q = true := fun q hq => h.pools.takeWhile_idle.mp hq
  generalize s.osTcbList.takeWhile (· ≠ idlePrio) = l at hl
  revert h₀ he₀
  generalize hs₀ : ({ s with osTime := s.osTime + 1 } : Os) = s₀
  have htbl : s₀.osTcbPrioTbl = s.osTcbPrioTbl := by rw [← hs₀]
  rw [← htbl] at hl
  clear hs₀ htbl
  intro h₀ he₀
  induction l generalizing s₀ with
  | nil => exact ⟨h₀, he₀⟩
  | cons q l ih =>
    obtain ⟨hne, hq⟩ := hl q List.mem_cons_self
    have hsame : SameAt s₀ (s₀.tickTask q) idlePrio := by
      unfold Os.tickTask
      exact .ite (.refl _ _) (.ite (.wake _ hne.symm) (.setTcb _ _ hne.symm))
    have heff : Effect s₀ (s₀.tickTask q) := by
      unfold Os.tickTask
      dsimp only
      split
      · exact .refl s₀
      · split
        · exact .wake s₀ q
        · exact .setTcb s₀ (Or.inr rfl)
    refine ih (s₀.tickTask q) (fun q' hq' => ?_)
      (h₀.moved (h₀.lists.tickTask hq) (Kept.tickTask h₀.kept q) (.tickTask s₀ q) hsame) (he₀.trans heff)
    rw [(Moves.tickTask s₀ q).tbl]
    exact hl q' (List.mem_cons_of_mem q hq')

theorem SysOk.tick (h : SysOk y) (hnest : y.os.osIntNesting ≠ 0) :
    SysOk { y with os := y.os.osTimeTick } := by
  obtain ⟨hgood, heff⟩ := h.good.tick
  have hnest' : y.os.osTimeTick.osIntNesting ≠ 0 := heff.nesting ▸ hnest
  refine ⟨hgood, fun p => ?_, fun hlock => ?_, fun h0 => absurd h0 hnest', fun h0 => absurd h0 hnest'⟩
  · rcases heff.ptr p with h0 | heq
    · exact Or.inl h0
    · show (y.os.osTimeTick.osTcb p).osTcbEventPtr = 0 ∨
        (y.cont p).event = some (y.os.osTimeTick.osTcb p).osTcbEventPtr
      rw [heq]
      exact h.ptr p
  · obtain ⟨hsv, hev⟩ := h.locked (heff.lock ▸ hlock)
    refine ⟨heff.pendSv.trans hsv, ?_⟩
    show (y.cont y.os.osTimeTick.osPrioCur).event = none
    rw [heff.cur]
    exact hev

/-- The last interrupt to end chooses the task. -/
theorem SysOk.intExit (h : SysOk y) (hnest : y.os.osIntNesting > 0) :
    SysOk { y with os := y.os.osIntExit } := by
  unfold Os.osIntExit
  rw [if_pos hnest]
  obtain ⟨s₀, hs₀⟩ : ∃ s₀, s₀ = { y.os with osIntNesting := y.os.osIntNesting - 1 } := ⟨_, rfl⟩
  rw [← hs₀]
  have hgood : Good s₀ := by
    rw [hs₀]
    exact h.good.congr rfl rfl ⟨rfl, rfl, rfl, rfl, rfl, fun _ => rfl, fun _ => rfl⟩ fun _ => rfl
  have hlock₀ : s₀.osLockNesting = y.os.osLockNesting := by rw [hs₀]
  have hs := sched s₀
  refine ⟨hgood.osSched, fun p => ?_, fun hlock => ?_, fun hn hl _ => ?_, fun hn hl hp _ => ?_⟩
  · show (s₀.osSched.osTcb p).osTcbEventPtr = 0 ∨
      (y.cont p).event = some (s₀.osSched.osTcb p).osTcbEventPtr
    rw [hs.tcb, hs₀]
    exact h.ptr p
  · have hl₀ : s₀.osLockNesting ≠ 0 := hs.lock ▸ hlock
    obtain ⟨hsv, hev⟩ := h.locked (hlock₀ ▸ hl₀)
    refine ⟨(hs.off hl₀).trans (by rw [hs₀]; exact hsv), ?_⟩
    show (y.cont s₀.osSched.osPrioCur).event = none
    rw [hs.cur, hs₀]
    exact hev
  · exact hs.high (hs.nesting ▸ hn) (hs.lock ▸ hl)
  · exact (hs.same (hs.nesting ▸ hn) (hs.lock ▸ hl) hp).trans
      (hs.high (hs.nesting ▸ hn) (hs.lock ▸ hl))

/-- The switch takes the task which has been chosen. -/
theorem SysOk.switch (h : SysOk y) (hnest : y.os.osIntNesting = 0) (hpend : y.os.pendSv = true) :
    SysOk { y with os := y.os.pendSvHandler } := by
  have hlock : y.os.osLockNesting = 0 := by
    by_contra hl
    rw [(h.locked hl).1] at hpend
    cases hpend
  have hhigh := h.chosen hnest hlock (Or.inl hpend)
  exact ⟨h.good.congr rfl rfl ⟨rfl, rfl, rfl, rfl, rfl, fun _ => rfl, fun _ => rfl⟩ fun _ => rfl,
    h.ptr, fun hl => absurd hlock hl, fun _ _ _ => hhigh, fun _ _ _ _ => hhigh⟩

/-- **Every step keeps the invariant.** -/
theorem SysOk.step {i : Input} (h : SysOk y) (hi : y.Allows i) : SysOk (y.step i).1 := by
  cases i with
  | call c =>
    unfold Sys.step
    dsimp only
    split
    · next hnest => exact h.callIsr (Nat.ne_of_gt hnest) hi.2
    · next hnest =>
      split
      · next hc =>
        obtain ⟨hn, hp⟩ := of_decide_eq_true hc.1
        exact h.callTask hn hp hc.2 (hi.1 hn) hi.2
      · exact h
  | go =>
    unfold Sys.step
    dsimp only
    split
    · next hc => exact h.go hc
    · exact h
  | intEnter => exact h.intEnter
  | tick =>
    unfold Sys.step
    dsimp only
    split
    · next hnest => exact h.tick (Nat.ne_of_gt hnest)
    · exact h
  | intExit =>
    unfold Sys.step
    dsimp only
    split
    · next hnest => exact h.intExit hnest
    · exact h
  | pendSv =>
    unfold Sys.step
    dsimp only
    split
    · next hc => exact h.switch hc.1 hc.2
    · exact h

/-! ## The start -/

theorem blank_lists : Lists Os.blank where
  rdy := BitTable.ok_empty
  wait _ := BitTable.ok_empty
  task p := by
    refine ⟨iff_of_false ?_ fun h => ?_, ?_, fun e he => ?_⟩
    · simp [Os.blank]
    · cases h.1
    · simp [Os.blank, Tcb.init]
    · simp [Os.blank] at he

/-- The kernel with no task but the idle task. -/
theorem Good.idle : Good (Os.blank.osTcbInit idlePrio) := by
  refine ⟨blank_lists.osTcbInit rfl, fun p => ?_, ⟨fun p => ?_, List.nodup_singleton _, ⟨[], rfl⟩, rfl, ?_, ?_,
    fun e _ he => by cases he⟩, ?_, ?_⟩
  · refine Kept.of_stat 0#8 ?_ BitVec.zero_and
    show (Function.update (fun _ => Tcb.init) idlePrio Tcb.init p).osTcbStat = 0#8
    rw [Function.update_eq_self]
    rfl
  · show p ∈ [idlePrio] ↔ Function.update (fun _ => false) idlePrio true p = true
    by_cases hp : p = idlePrio
    · subst hp
      simp
    · simp [hp]
  · refine ⟨List.Nodup.map (fun _ _ => Nat.succ.inj) List.nodup_range, fun e => ?_, fun e he => ?_⟩
    · show e ∈ (List.range osMaxEvents).map (· + 1) ↔ _ ∧ ¬(ObjType.unused ≠ .unused)
      rw [List.mem_map]
      constructor
      · rintro ⟨i, hi, rfl⟩
        exact ⟨⟨Nat.succ_pos i, List.mem_range.mp hi⟩, fun h => h rfl⟩
      · rintro ⟨⟨hpos, hle⟩, -⟩
        exact ⟨e - 1, List.mem_range.mpr (Nat.lt_of_lt_of_le (Nat.pred_lt (Nat.ne_of_gt hpos)) hle),
          Nat.succ_pred (Nat.ne_of_gt hpos)⟩
    · exact absurd rfl he
  · refine ⟨List.nodup_range, fun q => ?_, fun q hq => ?_⟩
    · show q ∈ List.range osMaxQs ↔ _
      rw [List.mem_range]
      refine ⟨fun hlt => ⟨hlt, ?_⟩, And.left⟩
      rintro ⟨e, he, -⟩
      cases he
    · obtain ⟨e, he, -⟩ := hq
      cases he
  · show (PrioTbl.put BitTable.empty idlePrio).has idlePrio = true
    rw [PrioTbl.has_put, if_pos rfl]
  · show (Function.update (fun _ => Tcb.init) idlePrio Tcb.init idlePrio).osTcbEventPtr = 0
    rw [Function.update_self]
    rfl

/-- What is known before multitasking begins. -/
structure Ready (s : Os) : Prop where
  good : Good s
  ptr : ∀ p, (s.osTcb p).osTcbEventPtr = 0
  lock : s.osLockNesting = 0

theorem osTaskCreate_rest (prio : Prio) (s : Os) :
    (osTaskCreate prio s).cont.event = none ∧
      (osTaskCreate prio s).os.osLockNesting = s.osLockNesting := by
  unfold osTaskCreate
  split
  · exact ⟨rfl, rfl⟩
  · split
    · exact ⟨rfl, rfl⟩
    · split <;> exact ⟨rfl, rfl⟩

theorem Ready.create (h : Ready s) (prio : Prio) : Ready (osTaskCreate prio s).os := by
  have hcall := h.good.taskCreate prio
  obtain ⟨hcont, hlock⟩ := osTaskCreate_rest prio s
  refine ⟨hcall.good, fun p => ?_, hlock.trans h.lock⟩
  rcases hcall.ptr p with h0 | heq | ⟨-, hev⟩
  · exact h0
  · exact heq.trans (h.ptr p)
  · rw [hcont] at hev
    cases hev

theorem Ready.osInit (prios : List Prio) : Ready (Os.osInit prios) := by
  have h0 : Ready (Os.blank.osTcbInit idlePrio) := by
    refine ⟨.idle, fun p => ?_, rfl⟩
    show (Function.update (fun _ => Tcb.init) idlePrio Tcb.init p).osTcbEventPtr = 0
    rw [Function.update_eq_self]
    rfl
  unfold Os.osInit
  generalize Os.blank.osTcbInit idlePrio = s₀ at h0
  induction prios generalizing s₀ with
  | nil => exact h0
  | cons prio prios ih => exact ih _ (h0.create prio)

/-- **The scheduler is in order when multitasking begins.** -/
theorem SysOk.start (prios : List Prio) : SysOk (Sys.start prios) := by
  have h := Ready.osInit prios
  refine ⟨h.good.congr rfl rfl ⟨rfl, rfl, rfl, rfl, rfl, fun _ => rfl, fun _ => rfl⟩ fun _ => rfl,
    fun p => Or.inl (h.ptr p), fun hlock => absurd h.lock hlock, fun _ _ _ => rfl, fun _ _ hp => ?_⟩
  cases hp

/-! ## Runs -/

/-- The task exists, and is neither delayed, nor pending, nor suspended. -/
def Os.ableToRun (s : Os) (p : Prio) : Prop :=
  s.osTcbPrioTbl p = true ∧ (s.osTcb p).osTcbStat = 0#8 ∧ (s.osTcb p).osTcbDly = 0

/-- The order of the free lists is of no account. -/
theorem SysOk.alike {x z : Sys} (h : SysOk x) (hxz : x.Alike z) : SysOk z := by
  obtain ⟨l, q, hl, hq, rfl⟩ := hxz
  have hlists : Lists (x.os.withFree l q) :=
    h.good.lists.congr rfl rfl rfl (fun _ => rfl) fun _ => rfl
  have hpools : Pools (x.os.withFree l q) :=
    ⟨h.good.pools.task_iff, h.good.pools.task_nodup, h.good.pools.idle_last, h.good.pools.task_count,
      h.good.pools.event.perm hl, h.good.pools.q.perm hq, h.good.pools.q_one⟩
  exact ⟨⟨hlists, h.good.kept, hpools, h.good.idle_ready, h.good.idle_ptr⟩, h.ptr, h.locked, h.chosen,
    h.runs⟩

/-- The invariant holds along every run. -/
theorem SysOk.run {prios : List Prio} {is : List Input}
    (hG : ∀ t ∈ cpu.transitions (Cpu.start prios) is, t.1.Allows t.2) :
    SysOk (cpu.run (Cpu.start prios) is).whole :=
  (Cpu.run_whole (fun _ _ hxz h => h.alike hxz) (fun _ _ h hi => h.step hi)
    (fun _ hp => absurd rfl hp) (by rw [Cpu.whole_start]; exact .start prios) hG).2

/--
Task 10 waits for a semaphore, with a tick between the test and the critical section, and an interrupt
posts it while the idle task runs.
-/
def pendRun : List Input :=
  [.pendSv, .call (.semCreate 0), .go, .call (.semPend 1 5), .intEnter, .tick, .intExit, .go, .go, .pendSv,
    .intEnter, .call (.semPost 1), .intExit, .pendSv, .go]

/--
**Control blocks are neither lost nor used twice**, with all that tasks and interrupts create and delete:
each is in use, in a free list, or in the hand of one task which creates a semaphore or a queue.
-/
theorem control_blocks_kept (prios : List Prio) (is : List Input)
    (hG : ∀ t ∈ cpu.transitions (Cpu.start prios) is, t.1.Allows t.2) :
    let y := cpu.run (Cpu.start prios) is
    let s := y.sys.os
    (s.osTcbList.Nodup ∧ (∀ p, p ∈ s.osTcbList ↔ s.osTcbPrioTbl p = true) ∧
      s.osTcbList.length + s.osTcbFree = osMaxTcbs) ∧
    FreeList (fun e => 1 ≤ e ∧ e ≤ osMaxEvents) (fun e => (s.osEvent e).osEventType ≠ .unused)
      (Cpu.inHand Stage.event y.stage ++ s.osEventFreeList) ∧
    FreeList (· < osMaxQs) s.usesQ (Cpu.inHand Stage.queue y.stage ++ s.osQFreeList) ∧
    ∀ e e', (s.osEvent e).osEventType = .q → (s.osEvent e').osEventType = .q →
      (s.osEvent e).osEventPtr = (s.osEvent e').osEventPtr → e = e' := by
  intro y s
  have h : Pools y.whole.os := (SysOk.run hG).good.pools
  exact ⟨⟨h.task_nodup, h.task_iff, h.task_count⟩, h.event, h.q, h.q_one⟩

theorem control_blocks_kept_pendRun :
    let y := cpu.run (Cpu.start [10]) (pendRun.take 2)
    y.sys.os.osTcbList.length + y.sys.os.osTcbFree = osMaxTcbs ∧ Cpu.inHand Stage.event y.stage = [1] ∧
      (Cpu.inHand Stage.event y.stage ++ y.sys.os.osEventFreeList).Nodup :=
  have h := control_blocks_kept [10] (pendRun.take 2) (by decide)
  ⟨h.1.2.2, by decide, h.2.1.nodup⟩

/--
What is asked is needed: task 10 is past the test of a semaphore which it deletes when task 8 deletes it,
and the event goes back to the free list twice.
-/
example :
    (cpu.run (Cpu.start [8, 10])
      [.pendSv, .call (.semCreate 0), .go, .call (.timeDly 1), .go, .pendSv, .call (.semDel 1 .always),
        .intEnter, .tick, .intExit, .pendSv, .call (.semDel 1 .always), .go, .call (.timeDly 1), .go,
        .pendSv, .go]).sys.os.osEventFreeList.take 2 = [1, 1] := by
  decide

end PlcFirmware.Ucos
