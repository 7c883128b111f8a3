import Mathlib.Data.Finset.Card
import Mathlib.Data.Fintype.Basic
import PlcFirmware.Infra.Ledger
import PlcFirmware.Ucos.Waiting

/-!
# Semaphores

A post adds one to the count of the semaphore, or hands it to a task which waits; a task which gets the
semaphore takes one from the count, or what has been handed to it. Whatever time-outs, aborts,
interrupts and suspensions come between, nothing is lost and nothing is given twice.

* `semaphore_balance` — posts and takes of every run balance
-/

namespace PlcFirmware.Ucos

open Infra

/-- The task has been handed what it waits for, and has not run since. -/
def Sys.Served (y : Sys) (t : ObjType) (e : Nat) (p : Prio) : Prop :=
  y.os.osTcbPrioTbl p = true ∧ (y.cont p).waits = some (t, e) ∧ Handed y.os p

instance (y : Sys) (t : ObjType) (e : Nat) (p : Prio) : Decidable (y.Served t e p) :=
  inferInstanceAs (Decidable (_ ∧ _ ∧ _))

/-- The tasks which have been handed the object. -/
def Sys.served (y : Sys) (t : ObjType) (e : Nat) : Finset Prio :=
  Finset.univ.filter (y.Served t e)

/-- What a call posts to the semaphore. -/
def Out.posted (e : Nat) : Out → Nat
  | .ret _ (.semPost pevent) r => if pevent = e ∧ r.err = .none then 1 else 0
  | _ => 0

/-- What a call takes from the semaphore. -/
def Out.taken (e : Nat) : Out → Nat
  | .ret _ (.semPend pevent _) r => if pevent = e ∧ r.err = .none then 1 else 0
  | .ret _ (.semAccept pevent) r => if pevent = e ∧ r.val > 0 then 1 else 0
  | .left _ .sem pevent r => if pevent = e ∧ r.err = .none then 1 else 0
  | _ => 0

/--
The semaphore is neither deleted nor set to a value, and no task is deleted to which it has been handed.
-/
def Sys.Spares (e : Nat) (y : Sys) : Input → Prop
  | .call (.semDel pevent _) | .call (.semSet pevent _) => pevent ≠ e
  | .call (.taskDel (some p)) => ¬y.Served .sem e p
  | _ => True

instance (e : Nat) (y : Sys) (i : Input) : Decidable (y.Spares e i) := by
  unfold Sys.Spares
  split <;> exact inferInstance

/-- The count, and what has been handed out. -/
def Sys.tokens (e : Nat) (y : Sys) : Nat :=
  (y.os.osEvent e).osEventCnt + (y.served .sem e).card

variable {y y' : Sys} {t : ObjType} {e : Nat} {c : Call} {p : Prio}

theorem mem_served : p ∈ y.served t e ↔ y.Served t e p := by simp [Sys.served]

theorem served_congr (h : ∀ p, y'.Served t e p ↔ y.Served t e p) : y'.served t e = y.served t e :=
  Finset.filter_congr fun p _ => h p

/-- A task to which nothing happens is handed nothing. -/
theorem Keeps.served (h : PendOk y) (hk : Keeps y.os y'.os e p)
    (hcont : (y'.cont p).waits = (y.cont p).waits) : y'.Served t e p ↔ y.Served t e p := by
  unfold Sys.Served
  rw [hk.tbl, hcont]
  refine and_congr_right fun _ => and_congr_right fun hw => ?_
  exact hk.handed (h.pends p t e hw)

theorem taskDel_cases (p : Prio) (s : Os) :
    (osTaskDel (some p) s).os = s ∨ (osTaskDel (some p) s).os.osTcbPrioTbl p = false := by
  unfold osTaskDel
  split
  · exact Or.inl rfl
  · split
    · exact Or.inl rfl
    · dsimp only [Option.getD_some]
      split
      · exact Or.inl rfl
      · exact Or.inr (Function.update_self ..)

/-- A task to which a call does nothing is handed nothing, nor is the one which has made the call. -/
theorem Called.served_of_keeps (h : PendOk y) (hc : Called y c y')
    (hk : (y.os.osIntNesting = 0 → p ≠ y.os.osPrioCur) →
      (c = .taskCreate p → (c.exec y.os).res.map Res.err ≠ some .none) →
      Keeps y.os (c.exec y.os).os e p) : y'.Served t e p ↔ y.Served t e p := by
  have hcall := Call.exec_ok hc.caller hc.sane
  rcases hc.cont p with ⟨hcont, hp, hnew⟩ | ⟨rfl, -, hrun, hcont⟩ | ⟨hcont, htbl, -⟩
  · have hk := hk hp hnew
    rw [← hc.os] at hk
    exact hk.served h (congrArg Cont.waits hcont)
  · -- it may wait now
    refine iff_of_false ?_ ?_
    · rintro ⟨-, hw, hh⟩
      rw [hcont] at hw
      rw [hc.os] at hh
      exact hcall.good.lists.not_handed (hcall.enters t e hw).1 hh
    · rintro ⟨-, hw, -⟩
      rw [hrun] at hw
      cases hw
  · refine iff_of_false ?_ ?_
    · rintro ⟨-, hw, -⟩
      rw [hcont] at hw
      cases hw
    · rintro ⟨htbl', -, -⟩
      rw [htbl] at htbl'
      cases htbl'

/-- **A call which posts nothing to a task hands nothing to anybody.** -/
theorem Called.served (h : PendOk y) (hc : Called y c y')
    (hpost : c.postsTo = some e → (y.os.osEvent e).wait.grp = 0#8 ∨ (c.exec y.os).os = y.os)
    (hdel : ∀ p, c = .taskDel (some p) → ¬y.Served t e p) : y'.served t e = y.served t e := by
  refine served_congr fun p => ?_
  by_cases hd : c = .taskDel (some p)
  · have hno := hdel p hd
    refine iff_of_false ?_ hno
    rintro ⟨htbl, hw, hh⟩
    rw [hc.os, hd] at htbl hh
    rcases hc.cont p with ⟨hcont, -, -⟩ | ⟨hp, -, -, hcont⟩ | ⟨hcont, -⟩
    · rw [hcont] at hw
      rcases taskDel_cases p y.os with hsame | hgone
      · exact hno ⟨by rw [← hsame]; exact htbl, hw, by rw [← hsame]; exact hh⟩
      · have htbl : (osTaskDel (some p) y.os).os.osTcbPrioTbl p = true := htbl
        rw [hgone] at htbl
        cases htbl
    · rw [hcont] at hw
      exact (Call.exec_ok hc.caller hc.sane).good.lists.not_handed
        ((Call.exec_ok hc.caller hc.sane).enters t e hw).1 (by rw [hd, ← hp]; exact hh)
    · rw [hcont] at hw
      cases hw
  · exact hc.served_of_keeps h fun hp hnew => Call.keeps hc.caller hp hpost hd hnew

/-- **A post to a task which waits hands the object to the first task of the wait list.** -/
theorem Called.served_post (h : PendOk y) (hc : Called y c y') {pmsg : Ptr} {msk : BitVec 8}
    (hos : (c.exec y.os).os = y.os.osEventTaskRdy e pmsg msk .ok)
    (hne : (y.os.osEvent e).wait.grp ≠ 0#8) (htype : (y.os.osEvent e).osEventType = t) :
    (y.os.osEvent e).wait.highest ∉ y.served t e ∧
      y'.served t e = insert (y.os.osEvent e).wait.highest (y.served t e) := by
  have hlists := h.sys.good.lists
  have hwait := hlists.highest_waits hne
  have hw := (hlists.task _).waiting e hwait
  have hno := hlists.not_handed hwait
  have hcont : (y.cont (y.os.osEvent e).wait.highest).waits = some (t, e) := by
    have hev := (h.sys.ptr (y.os.osEvent e).wait.highest).resolve_left
      (by rw [hw.ptr]; exact hw.ne_zero)
    rw [hw.ptr] at hev
    obtain ⟨t', ht'⟩ := Cont.waits_of_event hev
    rw [ht', ← htype, h.type _ _ _ ht' hwait]
  refine ⟨fun hm => hno (mem_served.mp hm).2.2, Finset.ext fun p => ?_⟩
  rw [mem_served, Finset.mem_insert, mem_served]
  by_cases hp : p = (y.os.osEvent e).wait.highest
  · refine iff_of_true ?_ (Or.inl hp)
    subst hp
    have htcb := osTcb_osEventTaskRdy y.os e pmsg msk .ok
    refine ⟨?_, ?_, ?_⟩
    · rw [hc.os, hos, (Moves.osEventTaskRdy ..).tbl]
      exact hw.tbl
    · rcases hc.cont (y.os.osEvent e).wait.highest with ⟨hsame, -, -⟩ | ⟨-, -, hrun, -⟩ | ⟨-, htbl, -⟩
      · rw [hsame]
        exact hcont
      · rw [hrun] at hcont
        cases hcont
      · rw [hw.tbl] at htbl
        cases htbl
    · rw [hc.os, hos, Handed, htcb]
      exact ⟨rfl, rfl⟩
  · have hkeep : y'.Served t e p ↔ y.Served t e p := by
      refine hc.served_of_keeps h fun _ _ => ?_
      rw [hos]
      exact .of_same (.osEventTaskRdy y.os e pmsg msk .ok hp) e
    rw [hkeep]
    exact ⟨Or.inr, fun hor => hor.resolve_left hp⟩

/-! ## The balance -/

/-- What the outputs of a call have taken from the semaphore. -/
def Ret.taken (e : Nat) (caller : Option Prio) (c : Call) (r : Ret) : Nat :=
  ((r.res.map (Out.ret caller c)).toList.map (Out.taken e)).sum

/-- What they have posted to it. -/
def Ret.posted (e : Nat) (caller : Option Prio) (c : Call) (r : Ret) : Nat :=
  ((r.res.map (Out.ret caller c)).toList.map (Out.posted e)).sum

variable {s : Os} {caller : Option Prio}

/-- The books of a call on a semaphore: it counts, or it hands the semaphore to the first task. -/
structure Books (s : Os) (e : Nat) (caller : Option Prio) (c : Call) (r : Ret) : Prop where
  type : (r.os.osEvent e).osEventType = .sem
  counts_or_hands :
    ((r.os.osEvent e).osEventCnt + r.taken e caller c =
        (s.osEvent e).osEventCnt + r.posted e caller c ∧
      (c.postsTo = some e → (s.osEvent e).wait.grp = 0#8 ∨ r.os = s)) ∨
    (r.os = s.osEventTaskRdy e 0 statSem .ok ∧ (s.osEvent e).wait.grp ≠ 0#8 ∧
      r.taken e caller c = 0 ∧ r.posted e caller c = 1)

theorem taken_done (s : Os) (err : Err) (val : Nat) :
    (s.done err val).taken e caller c = Out.taken e (.ret caller c ⟨err, val⟩) := by
  simp [Ret.taken, Os.done]

theorem posted_done (s : Os) (err : Err) (val : Nat) :
    (s.done err val).posted e caller c = Out.posted e (.ret caller c ⟨err, val⟩) := by
  simp [Ret.posted, Os.done]

namespace Books

/-- A call about another event neither takes nor posts. -/
theorem other (h : Pools s) (hsem : (s.osEvent e).osEventType = .sem) (hc : c.event ≠ some e) :
    Books s e caller c (c.exec s) := by
  have hsame := Call.sameEvent h (c := c) (fun _ => by rw [hsem]; decide) hc
  have htaken : ∀ r, Out.taken e (.ret caller c r) = 0 := by
    intro r
    cases c with
    | semPend pevent timeout => exact if_neg fun hp => hc (congrArg some hp.1)
    | semAccept pevent => exact if_neg fun hp => hc (congrArg some hp.1)
    | _ => rfl
  have hposted : ∀ r, Out.posted e (.ret caller c r) = 0 := by
    intro r
    cases c with
    | semPost pevent => exact if_neg fun hp => hc (congrArg some hp.1)
    | _ => rfl
  refine ⟨hsame.type.trans hsem, Or.inl ⟨?_, fun hp => absurd ?_ hc⟩⟩
  · unfold Ret.taken Ret.posted
    rw [hsame.cnt]
    cases (c.exec s).res with
    | none => rfl
    | some r => simp [htaken, hposted]
  · cases c with
    | semPost pevent => exact hp
    | qPostOpt pevent pmsg opt => exact hp
    | _ => cases hp

/-- A call which changes nothing, and says so. -/
theorem same (hsem : (s.osEvent e).osEventType = .sem) {err : Err} {val : Nat}
    (htaken : Out.taken e (.ret caller c ⟨err, val⟩) = 0)
    (hposted : Out.posted e (.ret caller c ⟨err, val⟩) = 0) :
    Books s e caller c (s.done err val) :=
  ⟨hsem, Or.inl ⟨by rw [taken_done, posted_done, htaken, hposted]; rfl, fun _ => Or.inr rfl⟩⟩

/-- A call which counts. -/
theorem count (hsem : (s.osEvent e).osEventType = .sem) {cnt : Nat} {err : Err} {val : Nat}
    (hcnt : cnt + Out.taken e (.ret caller c ⟨err, val⟩) =
      (s.osEvent e).osEventCnt + Out.posted e (.ret caller c ⟨err, val⟩))
    (hpost : c.postsTo = some e → (s.osEvent e).wait.grp = 0#8) :
    Books s e caller c ((s.setCnt e cnt).done err val) := by
  refine ⟨((SamePools.setCnt s e cnt).type e).trans hsem, Or.inl ⟨?_, fun hp => Or.inl (hpost hp)⟩⟩
  rw [taken_done, posted_done, ← hcnt]
  simp [Os.done, Os.setCnt]

/-- A call which moves tasks out of the wait list, but posts nothing. -/
theorem moves (hsem : (s.osEvent e).osEventType = .sem) {r : Ret} (hmoves : Moves s r.os)
    (htaken : r.taken e caller c = 0) (hposted : r.posted e caller c = 0)
    (hpost : c.postsTo = some e → (s.osEvent e).wait.grp = 0#8) : Books s e caller c r :=
  ⟨(hmoves.type e).trans hsem, Or.inl ⟨by rw [hmoves.cnt, htaken, hposted], fun hp => Or.inl (hpost hp)⟩⟩

theorem semAccept (hsem : (s.osEvent e).osEventType = .sem) :
    Books s e caller (.semAccept e) (osSemAccept e s) := by
  unfold osSemAccept osSemAcceptSection
  rw [if_neg (not_not.mpr hsem)]
  dsimp only
  split
  · next hpos =>
    refine .count hsem ?_ (by intro hp; cases hp)
    show _ + (if e = e ∧ (s.osEvent e).osEventCnt > 0 then 1 else 0) = _ + 0
    rw [if_pos ⟨rfl, hpos⟩]
    omega
  · next hzero =>
    exact .same hsem (if_neg fun h => hzero h.2) rfl

theorem semPend (hsem : (s.osEvent e).osEventType = .sem) (timeout : Nat) :
    Books s e caller (.semPend e timeout) (osSemPend e timeout s) := by
  unfold osSemPend osSemPendSection
  rw [if_neg (not_not.mpr hsem)]
  split
  · exact .same hsem (if_neg fun h => by cases h.2) rfl
  · split
    · exact .same hsem (if_neg fun h => by cases h.2) rfl
    · dsimp only
      split
      · refine .count hsem ?_ (by intro hp; cases hp)
        show _ + (if e = e ∧ Err.none = Err.none then 1 else 0) = _ + 0
        rw [if_pos ⟨rfl, rfl⟩]
        omega
      · exact .moves hsem (.pendWait ..) rfl rfl (by intro hp; cases hp)

theorem semPendAbort (hsem : (s.osEvent e).osEventType = .sem) (broadcast : Bool) :
    Books s e caller (.semPendAbort e broadcast) (osSemPendAbort e broadcast s) := by
  unfold osSemPendAbort osSemPendAbortSection
  rw [if_neg (not_not.mpr hsem)]
  split
  · split
    · exact .moves hsem (.osEventTaskRdyAll ..) rfl rfl (by intro hp; cases hp)
    · exact .moves hsem (.osEventTaskRdy ..) rfl rfl (by intro hp; cases hp)
  · exact .same hsem rfl rfl

theorem semPost (hsem : (s.osEvent e).osEventType = .sem) :
    Books s e caller (.semPost e) (osSemPost e s) := by
  unfold osSemPost osSemPostSection
  rw [if_neg (not_not.mpr hsem)]
  have hposted : Out.posted e (.ret caller (.semPost e) ⟨.none, 0⟩) = 1 := if_pos ⟨rfl, rfl⟩
  split
  · next hne =>
    refine ⟨((Moves.osEventTaskRdy ..).type e).trans hsem, Or.inr ⟨rfl, hne, rfl, ?_⟩⟩
    simpa [Ret.posted, Os.thenSched] using hposted
  · next hempty =>
    have hempty := not_not.mp hempty
    dsimp only
    split
    · refine .count hsem ?_ fun _ => hempty
      rw [hposted]
      rfl
    · exact .same hsem rfl (if_neg fun h => by cases h.2)

end Books

/-- **Every call on a semaphore keeps the books.** -/
theorem Call.books (h : Pools s) (hsem : (s.osEvent e).osEventType = .sem)
    (hdel : ∀ opt, c ≠ .semDel e opt) (hset : ∀ cnt, c ≠ .semSet e cnt) :
    Books s e caller c (c.exec s) := by
  by_cases hc : c.event = some e
  · have hq : (s.osEvent e).osEventType ≠ .q := by
      rw [hsem]
      decide
    cases c with
    | semAccept pevent => cases hc; exact .semAccept hsem
    | semDel pevent opt => cases hc; exact absurd rfl (hdel opt)
    | semPend pevent timeout => cases hc; exact .semPend hsem timeout
    | semPendAbort pevent broadcast => cases hc; exact .semPendAbort hsem broadcast
    | semPost pevent => cases hc; exact .semPost hsem
    | semSet pevent cnt => cases hc; exact absurd rfl (hset cnt)
    | qAccept pevent =>
      cases hc
      simp only [Call.exec, osQAccept, if_pos hq]
      exact .same hsem rfl rfl
    | qDel pevent opt =>
      cases hc
      simp only [Call.exec, osQDel, if_pos hq]
      exact .same hsem rfl rfl
    | qFlush pevent =>
      cases hc
      simp only [Call.exec, osQFlush, if_pos hq]
      exact .same hsem rfl rfl
    | qPend pevent timeout =>
      cases hc
      simp only [Call.exec, osQPend, if_pos hq]
      exact .same hsem rfl rfl
    | qPendAbort pevent broadcast =>
      cases hc
      simp only [Call.exec, osQPendAbort, if_pos hq]
      exact .same hsem rfl rfl
    | qPostOpt pevent pmsg opt =>
      cases hc
      simp only [Call.exec, osQPostOpt, if_pos hq]
      exact .same hsem rfl rfl
    | _ => cases hc
  · exact .other h hsem hc

/-! ## Steps -/

/-- A step has kept the books. -/
def Balanced (e : Nat) (y : Sys) (r : Sys × List Out) : Prop :=
  (r.1.os.osEvent e).osEventType = .sem ∧
    r.1.tokens e + (r.2.map (Out.taken e)).sum = y.tokens e + (r.2.map (Out.posted e)).sum

/-- A step which neither calls nor leaves a pend. -/
theorem Balanced.silent (h : PendOk y) (hsem : (y.os.osEvent e).osEventType = .sem)
    (hkeeps : ∀ p, Keeps y.os y'.os e p) (hcont : ∀ p, (y'.cont p).waits = (y.cont p).waits)
    (htype : (y'.os.osEvent e).osEventType = (y.os.osEvent e).osEventType)
    (hcnt : (y'.os.osEvent e).osEventCnt = (y.os.osEvent e).osEventCnt) : Balanced e y (y', []) := by
  refine ⟨htype.trans hsem, ?_⟩
  unfold Sys.tokens
  rw [hcnt, served_congr fun p => (hkeeps p).served h (hcont p)]
  rfl

/-- A step of the scheduler. -/
theorem Balanced.untouched (h : PendOk y) (hsem : (y.os.osEvent e).osEventType = .sem)
    (hos : Untouched y.os y'.os) (hcont : ∀ p, (y'.cont p).waits = (y.cont p).waits) :
    Balanced e y (y', []) :=
  .silent h hsem (fun p => hos.keeps e p) hcont (by rw [hos.event]) (by rw [hos.event])

theorem Called.balanced (h : PendOk y) (hc : Called y c y')
    (hsem : (y.os.osEvent e).osEventType = .sem) (hspare : Sys.Spares e y (.call c)) :
    Balanced e y (y', ((c.exec y.os).res.map (Out.ret caller c)).toList) := by
  have hdel : ∀ opt, c ≠ .semDel e opt := by
    rintro opt rfl
    exact hspare rfl
  have hset : ∀ cnt, c ≠ .semSet e cnt := by
    rintro cnt rfl
    exact hspare rfl
  have hbooks : Books y.os e caller c (c.exec y.os) := Call.books h.sys.good.pools hsem hdel hset
  refine ⟨by rw [hc.os]; exact hbooks.type, ?_⟩
  show y'.tokens e + (c.exec y.os).taken e caller c = y.tokens e + (c.exec y.os).posted e caller c
  unfold Sys.tokens
  rw [hc.os]
  rcases hbooks.counts_or_hands with ⟨hcnt, hpost⟩ | ⟨hos, hne, htaken, hposted⟩
  · rw [hc.served h hpost ?_]
    · omega
    · rintro p rfl
      exact hspare
  · obtain ⟨hnot, hserved⟩ := hc.served_post h hos hne hsem
    rw [hserved, Finset.card_insert_of_notMem hnot, htaken, hposted, hos,
      (Moves.osEventTaskRdy ..).cnt]
    omega

/-- Where a task goes when it leaves its pend. -/
def Sys.afterLeave (y : Sys) (type : ObjType) (pevent : Nat) : Sys :=
  ⟨(pendLeave type pevent y.os).os,
    Function.update y.cont y.os.osPrioCur (pendLeave type pevent y.os).cont⟩

/-- A task which leaves its pend has been handed the object if the pend returns no error. -/
theorem served_leave (h : PendOk y) (hrun : y.os.rdy.has y.os.osPrioCur = true) {type : ObjType}
    {pevent : Nat} (hcont : y.cont y.os.osPrioCur = .leave type pevent) :
    y.Served t e y.os.osPrioCur ↔
      (type = t ∧ pevent = e) ∧ (y.os.osTcb y.os.osPrioCur).osTcbStatPend = .ok := by
  have hwaits : (y.cont y.os.osPrioCur).waits = some (type, pevent) := by rw [hcont]; rfl
  unfold Sys.Served
  rw [hwaits, Option.some_inj, Prod.mk_inj]
  refine ⟨fun hs => ⟨hs.2.1, hs.2.2.2⟩, fun hs => ⟨?_, hs.1, ?_, hs.2⟩⟩
  · exact ((h.sys.good.lists.task _).ready_iff.mp hrun).1
  · rcases h.pends _ _ _ hwaits with hin | ⟨hptr, -⟩
    · have := (h.sys.good.lists.task _).timedOut_of_ptr hrun hin
      rw [hs.2] at this
      cases this
    · exact hptr

/-- The other tasks keep what they have been handed. -/
theorem served_afterLeave (h : PendOk y) (type : ObjType) (pevent : Nat) :
    (y.afterLeave type pevent).Served t e p ↔ p ≠ y.os.osPrioCur ∧ y.Served t e p := by
  have hrest := pendLeave_rest type pevent y.os
  by_cases hp : p = y.os.osPrioCur
  · refine iff_of_false ?_ fun hs => hs.1 hp
    rintro ⟨-, hw, -⟩
    have hw : (Function.update y.cont y.os.osPrioCur (pendLeave type pevent y.os).cont p).waits =
      some (t, e) := hw
    rw [hp, Function.update_self, hrest.cont] at hw
    cases hw
  · rw [and_iff_right hp]
    exact (Keeps.of_same (hrest.same p hp) e).served h
      (congrArg Cont.waits (Function.update_of_ne hp _ _))

theorem pendStat_err {st : PendStat} : st.err = .none ↔ st = .ok := by
  cases st <;> decide

/-- **A task which leaves its pend takes what has been handed to it.** -/
theorem balanced_leave (h : PendOk y) (hrun : y.os.rdy.has y.os.osPrioCur = true)
    (hsem : (y.os.osEvent e).osEventType = .sem) {type : ObjType} {pevent : Nat}
    (hcont : y.cont y.os.osPrioCur = .leave type pevent) :
    Balanced e y (y.afterLeave type pevent,
      ((pendLeave type pevent y.os).res.map (Out.left y.os.osPrioCur type pevent)).toList) := by
  have hrest := pendLeave_rest type pevent y.os
  obtain ⟨r, hres, herr⟩ := Option.map_eq_some_iff.mp hrest.err
  have htaken : Out.taken e (.left y.os.osPrioCur type pevent r) =
      if y.Served .sem e y.os.osPrioCur then 1 else 0 := by
    have hself : y.Served .sem e y.os.osPrioCur ↔ (type = .sem ∧ pevent = e) ∧ r.err = .none := by
      rw [served_leave h hrun hcont, herr, pendStat_err]
    rw [if_congr hself rfl rfl]
    cases type <;> simp [Out.taken]
  have herase : (y.afterLeave type pevent).served .sem e =
      (y.served .sem e).erase y.os.osPrioCur := by
    ext p
    rw [mem_served, served_afterLeave h, Finset.mem_erase, mem_served]
  refine ⟨(hrest.moves.type e).trans hsem, ?_⟩
  rw [hres]
  show Sys.tokens e _ + Out.taken e _ = y.tokens e + 0
  unfold Sys.tokens
  rw [herase, htaken, show ((y.afterLeave type pevent).os.osEvent e).osEventCnt = _ from
    hrest.moves.cnt e]
  split
  · next hs =>
    have := Finset.card_erase_add_one (mem_served.mpr hs)
    omega
  · next hs =>
    rw [Finset.erase_eq_of_notMem fun hm => hs (mem_served.mp hm)]

theorem balanced_go (h : PendOk y) (hsem : (y.os.osEvent e).osEventType = .sem)
    (htask : y.atTask = true) : Balanced e y y.go := by
  obtain ⟨hnest, hpend⟩ := of_decide_eq_true htask
  unfold Sys.go
  dsimp only
  cases hcont : y.cont y.os.osPrioCur with
  | run => exact .silent h hsem (fun p => .refl _ e p) (fun _ => rfl) rfl rfl
  | sched => exact .untouched h hsem (.osSched y.os) (PendOk.waits_update (by rw [hcont]; rfl))
  | pend type pevent =>
    exact .untouched h hsem (.osSched y.os) (PendOk.waits_update (by rw [hcont]; rfl))
  | leave type pevent => exact balanced_leave h (h.sys.leave_ready hnest hpend hcont) hsem hcont

/-- **Every step keeps the books.** -/
theorem step_balanced {i : Input} (h : PendOk y) (hsem : (y.os.osEvent e).osEventType = .sem)
    (hi : y.Allows i) (hspare : Sys.Spares e y i) : Balanced e y (y.step i) := by
  have hsame : Balanced e y (y, []) := .silent h hsem (fun p => .refl _ e p) (fun _ => rfl) rfl rfl
  cases i with
  | call c =>
    unfold Sys.step
    dsimp only
    split
    · next hnest =>
      exact (h.sys.calledIsr (Nat.ne_of_gt hnest) hi.2).balanced h hsem hspare
    · next hnest =>
      split
      · next hc =>
        obtain ⟨hn, hp⟩ := of_decide_eq_true hc.1
        exact (h.sys.calledTask hn hp hc.2 (hi.1 hn) hi.2).balanced h hsem hspare
      · exact hsame
  | go =>
    unfold Sys.step
    dsimp only
    split
    · next hc => exact balanced_go h hsem hc
    · exact hsame
  | intEnter => exact .untouched h hsem (.osIntEnter y.os) fun _ => rfl
  | tick =>
    unfold Sys.step
    dsimp only
    split
    · exact .silent h hsem (fun _ => keeps_tick h.sys.good) (fun _ => rfl)
        ((osTimeTick_moves y.os).type e) ((osTimeTick_moves y.os).cnt e)
    · exact hsame
  | intExit =>
    unfold Sys.step
    dsimp only
    split
    · exact .untouched h hsem (.osIntExit y.os) fun _ => rfl
    · exact hsame
  | pendSv =>
    unfold Sys.step
    dsimp only
    split
    · exact .untouched h hsem (.pendSvHandler y.os) fun _ => rfl
    · exact hsame

/-! ## Runs -/

/-- What a step carries out spares the semaphore. -/
def Cpu.Spares (e : Nat) (y : Cpu) (i : Input) : Prop := ∀ j ∈ y.performs i, y.sys.Spares e j

instance (e : Nat) (y : Cpu) (i : Input) : Decidable (y.Spares e i) :=
  inferInstanceAs (Decidable (∀ j ∈ y.performs i, y.sys.Spares e j))

theorem Cpu.Spares.whole {y : Cpu} {z : Sys} {i j : Input} (h : y.Spares e i) (hj : j ∈ y.performs i)
    (hz : y.whole.Alike z) : z.Spares e j := by
  have hspares := h j hj
  obtain ⟨l, q, rfl⟩ := hz.eq_withFree
  exact hspares

theorem Sys.Alike.tokens {x z : Sys} (hz : x.Alike z) : z.tokens e = x.tokens e := by
  obtain ⟨l, q, -, -, rfl⟩ := hz
  rfl

theorem Out.Void.tokens {o : Out} (h : o.Void) : o.posted e = 0 ∧ o.taken e = 0 := by
  obtain ⟨caller, c, hc, rfl⟩ := h
  cases c <;> first | exact ⟨rfl, rfl⟩ | cases hc

/--
**The tokens of a semaphore balance.** From any state which the system can reach, over any run: the
count, with what has been handed to tasks which have not run since, and what has been taken, are what
they were at the beginning and what has been posted.
-/
theorem semaphore_balance (prios : List Prio) (before is : List Input) (e : Nat)
    (hbefore : ∀ t ∈ cpu.transitions (Cpu.start prios) before, t.1.Allows t.2)
    (hsem : ((cpu.run (Cpu.start prios) before).sys.os.osEvent e).osEventType = .sem)
    (hG : ∀ t ∈ cpu.transitions (cpu.run (Cpu.start prios) before) is,
      t.1.Allows t.2 ∧ t.1.Spares e t.2) :
    let y := cpu.run (Cpu.start prios) before
    (cpu.run y is).sys.tokens e + ((cpu.trace y is).map (Out.taken e)).sum =
      y.sys.tokens e + ((cpu.trace y is).map (Out.posted e)).sum := by
  intro y
  obtain ⟨hstaged, hpend⟩ := PendOk.run hbefore
  let P : Sys → Prop := fun x => PendOk x ∧ (x.os.osEvent e).osEventType = .sem
  have halike : ∀ x z : Sys, x.Alike z → P x → P z := by
    rintro x z hz ⟨hx, htype⟩
    refine ⟨hx.alike hz, ?_⟩
    obtain ⟨l, q, -, -, rfl⟩ := hz
    exact htype
  refine cpu.run_balance (P := fun y => y.Staged ∧ P y.whole) (G := fun y i => y.Allows i ∧ y.Spares e i)
    (fun y => y.sys.tokens e) (Out.posted e) (Out.taken e) (fun y i hP hi => ?_) ⟨hstaged, hpend, hsem⟩ hG
  have hseen := Cpu.step_seen hP.1 hi.1
  have hasked : ∀ j ∈ y.performs i, ∀ z, y.whole.Alike z → z.Allows j ∧ z.Spares e j := fun j hj z hz =>
    ⟨hi.1.whole hj hz, hi.2.whole hj hz⟩
  have hstep : ∀ (z : Sys) (j : Input), P z → z.Allows j ∧ z.Spares e j → Balanced e z (z.step j) :=
    fun z j hz hj => step_balanced hz.1 hz.2 hj.1 hj.2
  exact ⟨⟨hP.1.step, hseen.keeps halike (fun z j hz hj => ⟨hz.1.step hj.1, (hstep z j hz hj).1⟩) hP.2
      hasked⟩,
    hseen.balance (Sys.tokens e) halike (fun _ _ hz => hz.tokens) (fun _ ho => ho.tokens)
      (fun z j hz hj => (hstep z j hz hj).2) hP.2 hasked⟩

/-- In this run task 10 takes what the interrupt has posted. -/
theorem semaphore_balance_pendRun :
    let y := cpu.run (Cpu.start [10]) (pendRun.take 3)
    ((cpu.trace y (pendRun.drop 3)).map (Out.taken 1)).sum = 1 ∧
      (cpu.run y (pendRun.drop 3)).sys.tokens 1 +
          ((cpu.trace y (pendRun.drop 3)).map (Out.taken 1)).sum =
        y.sys.tokens 1 + ((cpu.trace y (pendRun.drop 3)).map (Out.posted 1)).sum :=
  ⟨by decide, semaphore_balance [10] (pendRun.take 3) (pendRun.drop 3) 1 (by decide) (by decide)
    (by decide)⟩

end PlcFirmware.Ucos
