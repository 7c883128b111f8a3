import PlcFirmware.Ucos.Waiting

/-!
# Where nothing is deleted

An event whose type has been tested is in use, so that it is not one which a creation fills: its type
changes only if it is deleted. Without deletions a critical section is always entered with the type which
has been tested, whatever has come in between.

* `Cpu.Tested` — the types which have been tested are still there
* `allows_of_undeleted` — a run without deletions needs no condition on its preemptions
-/

namespace PlcFirmware.Ucos

open Infra

variable {s s' : Os} {x : Sys} {y : Cpu} {c : Call} {i : Input} {p : Prio}

/-- The events in use keep their types. -/
def KeepsTypes (s s' : Os) : Prop :=
  ∀ e, (s.osEvent e).osEventType ≠ .unused → (s'.osEvent e).osEventType = (s.osEvent e).osEventType

/-- What has been tested is still there. -/
def Cpu.Tested (y : Cpu) : Prop := ∀ p c, y.stage p = some (.tested c) → c.passes y.sys.os = true

/-- Does the step delete an object? -/
def Input.deletes : Input → Bool
  | .call c => c.deletes
  | _ => false

/-! ## Types -/

theorem Untouched.keepsTypes (h : Untouched s s') : KeepsTypes s s' := fun e _ => by rw [h.event]

theorem Moves.keepsTypes (h : Moves s s') : KeepsTypes s s' := fun e _ => h.type e

theorem Call.keepsTypes (h : Pools s) (hc : c.deletes = false) : KeepsTypes s (c.exec s).os := by
  intro e hused
  by_cases hev : c.event = some e
  · refine (Call.retains hev).resolve_right fun hdel => ?_
    rw [hc] at hdel
    cases hdel.2
  · exact (Call.sameEvent h (fun _ => hused) hev).type

/-- A test which has passed passes again. -/
theorem KeepsTypes.passes (h : KeepsTypes s s') (hc : c.passes s = true) : c.passes s' = true := by
  have hkeep : ∀ (e : Nat) (t : ObjType), t ≠ .unused → decide ((s.osEvent e).osEventType = t) = true →
      decide ((s'.osEvent e).osEventType = t) = true := by
    intro e t ht htype
    have htype := of_decide_eq_true htype
    exact decide_eq_true ((h e (htype ▸ ht)).trans htype)
  cases c <;> first
    | exact hkeep _ .sem ObjType.noConfusion hc
    | exact hkeep _ .q ObjType.noConfusion hc
    | cases hc

/-- **A step which deletes nothing keeps the types.** -/
theorem SysOk.keepsTypes (h : SysOk x) (hi : i.deletes = false) : KeepsTypes x.os (x.step i).1.os := by
  have hrefl : KeepsTypes x.os x.os := fun _ _ => rfl
  cases i with
  | call c =>
    have hcall : KeepsTypes x.os (c.exec x.os).os := Call.keepsTypes h.good.pools hi
    unfold Sys.step
    dsimp only
    split
    · exact hcall
    · split
      · exact hcall
      · exact hrefl
  | go =>
    unfold Sys.step
    dsimp only
    split
    · unfold Sys.go
      dsimp only
      split
      · exact hrefl
      · exact (Untouched.osSched x.os).keepsTypes
      · exact (Untouched.osSched x.os).keepsTypes
      · exact (pendLeave_rest _ _ x.os).moves.keepsTypes
    · exact hrefl
  | intEnter => exact (Untouched.osIntEnter x.os).keepsTypes
  | tick =>
    unfold Sys.step
    dsimp only
    split
    · exact fun e _ => (osTimeTick_moves x.os).type e
    · exact hrefl
  | intExit =>
    unfold Sys.step
    dsimp only
    split
    · exact (Untouched.osIntExit x.os).keepsTypes
    · exact hrefl
  | pendSv =>
    unfold Sys.step
    dsimp only
    split
    · exact (Untouched.pendSvHandler x.os).keepsTypes
    · exact hrefl

theorem Cpu.keepsTypes (hstaged : y.Staged) (h : SysOk y.whole) (hi : y.Allows i)
    (hdel : ∀ j ∈ y.performs i, j.deletes = false) : KeepsTypes y.sys.os (y.step i).1.sys.os := by
  have hseen := Cpu.step_seen hstaged hi
  have hsame : ∀ z : Sys, z.Alike (y.step i).1.whole → (y.step i).1.sys.os.osEvent = z.os.osEvent := by
    rintro z ⟨l, q, -, -, heq⟩
    have hevent : (y.step i).1.whole.os.osEvent = z.os.osEvent := by
      rw [heq]
      rfl
    exact hevent
  cases hj : y.performs i with
  | none =>
    rw [hj] at hseen
    cases hseen with
    | nothing hx _ =>
      intro e _
      rw [hsame _ hx]
      rfl
  | some j =>
    rw [hj] at hseen
    cases hseen with
    | step hz hx _ =>
      have hkeeps := (h.alike hz).keepsTypes (hdel j hj)
      intro e hused
      obtain ⟨l, q, rfl⟩ := hz.eq_withFree
      rw [hsame _ hx]
      exact hkeeps e hused

/-! ## Who has tested a type -/

theorem Cpu.finish_stage {r : Ret} {st : Stage} (h : (y.finish c r).1.stage p = some st) :
    y.stage p = some st := by
  have h' : Function.update (Cpu.started y.stage c r) y.sys.os.osPrioCur none p = some st := h
  by_cases hcur : p = y.sys.os.osPrioCur
  · rw [hcur, Function.update_self] at h'
    cases h'
  rw [Function.update_of_ne hcur] at h'
  cases c with
  | taskCreate prio =>
    unfold Cpu.started at h'
    dsimp only at h'
    by_cases hres : r.res.map Res.err = some .none
    · rw [if_pos hres] at h'
      by_cases hnew : p = prio
      · rw [hnew, Function.update_self] at h'
        cases h'
      · rwa [Function.update_of_ne hnew] at h'
    · rwa [if_neg hres] at h'
  | _ => exact h'

/-- A task has tested a type before, or has just done so. -/
theorem Cpu.tested_stage (h : (y.step i).1.stage p = some (.tested c)) :
    y.stage p = some (.tested c) ∨ c.passes y.sys.os = true := by
  cases i with
  | call c' =>
    unfold Cpu.step at h
    dsimp only at h
    split at h
    · exact Or.inl h
    · split at h
      · unfold Cpu.callTask at h
        split at h
        · next st os hbegin =>
          have h' : Function.update y.stage y.sys.os.osPrioCur (some st) p = some (.tested c) := h
          by_cases hcur : p = y.sys.os.osPrioCur
          · rw [hcur, Function.update_self] at h'
            obtain rfl := Option.some.inj h'
            rcases Call.begins_cases hbegin with ⟨-, hst, hpass⟩ | ⟨_, _, _, _, hev, _⟩
            · cases hst
              exact Or.inr hpass
            · cases hev
          · rw [Function.update_of_ne hcur] at h'
            exact Or.inl h'
        · exact Or.inl (Cpu.finish_stage h)
      · exact Or.inl h
  | go =>
    unfold Cpu.step at h
    dsimp only at h
    split at h
    · unfold Cpu.go at h
      dsimp only at h
      split at h
      · exact Or.inl h
      · exact Or.inl (Cpu.finish_stage h)
      · exact Or.inl (Cpu.finish_stage h)
      · next start size pevent hstage =>
        split at h
        · exact Or.inl (Cpu.finish_stage h)
        · next pq queues _ =>
          have h' : Function.update y.stage y.sys.os.osPrioCur (some (.qFill start size pevent pq)) p =
              some (.tested c) := h
          by_cases hcur : p = y.sys.os.osPrioCur
          · rw [hcur, Function.update_self] at h'
            cases h'
          · rw [Function.update_of_ne hcur] at h'
            exact Or.inl h'
      · exact Or.inl (Cpu.finish_stage h)
    · exact Or.inl h
  | intEnter => exact Or.inl h
  | tick => exact Or.inl h
  | intExit => exact Or.inl h
  | pendSv => exact Or.inl h

/-! ## Runs -/

/--
What is asked of a step where nothing is deleted: of what it carries out what `System` asks, and that it
is no deletion; nothing of the types.
-/
def Cpu.Undeleted (y : Cpu) (i : Input) : Prop :=
  (∀ j ∈ y.performs i, y.sys.Allows j ∧ j.deletes = false) ∧
    match i with
    | .call (.taskCreate prio) => (y.stage prio).bind Stage.event = none
    | _ => True

theorem Cpu.Undeleted.allows (h : y.Undeleted i) (ht : y.Tested) : y.Allows i := by
  refine ⟨fun j hj => (h.1 j hj).1, ?_⟩
  have hfresh := h.2
  split
  · exact hfresh
  · unfold Cpu.Current
    split
    · next c hstage => exact ht _ c hstage
    · trivial
  · trivial

instance (y : Cpu) (i : Input) : Decidable (y.Undeleted i) := by
  unfold Cpu.Undeleted
  split <;> exact inferInstance

/-- One step of a run without deletions. -/
theorem Cpu.Tested.step (ht : y.Tested) (hstaged : y.Staged) (h : SysOk y.whole) (hi : y.Undeleted i) :
    (y.step i).1.Tested := by
  intro p c hstage
  have htypes := Cpu.keepsTypes hstaged h (hi.allows ht) fun j hj => (hi.1 j hj).2
  rcases Cpu.tested_stage hstage with hold | hnow
  · exact htypes.passes (ht p c hold)
  · exact htypes.passes hnow

/--
**Without deletions preemption is harmless.** In a run in which no task deletes a semaphore or a queue,
every critical section is entered with the type which has been tested, whatever comes between the two.
-/
theorem allows_of_undeleted (prios : List Prio) (is : List Input)
    (hG : ∀ t ∈ cpu.transitions (Cpu.start prios) is, t.1.Undeleted t.2) :
    ∀ t ∈ cpu.transitions (Cpu.start prios) is, t.1.Tested ∧ t.1.Allows t.2 := by
  have hrun := (cpu.run_invariant (P := fun y => y.Staged ∧ SysOk y.whole ∧ y.Tested)
    (G := Cpu.Undeleted) (fun y i hP hi => ?_) ⟨fun _ hp => absurd rfl hp, ?_, fun _ _ hp => ?_⟩ hG).1
  · intro t ht
    have htested := (hrun t ht).2.2
    exact ⟨htested, (hG t ht).allows htested⟩
  · have hallows := hi.allows hP.2.2
    refine ⟨hP.1.step, ?_, hP.2.2.step hP.1 hP.2.1 hi⟩
    exact (Cpu.step_seen hP.1 hallows).keeps (fun _ _ hz h => h.alike hz) (fun _ _ h hj => h.step hj)
      hP.2.1 fun j hj z hz => hallows.whole hj hz
  · rw [Cpu.whole_start]
    exact .start prios
  · cases hp

theorem allows_of_undeleted_pendRun :
    (∀ t ∈ cpu.transitions (Cpu.start [10]) pendRun, t.1.Undeleted t.2) ∧
      ∀ t ∈ cpu.transitions (Cpu.start [10]) pendRun, t.1.Tested ∧ t.1.Allows t.2 := by
  have hundeleted : ∀ t ∈ cpu.transitions (Cpu.start [10]) pendRun, t.1.Undeleted t.2 := by decide
  exact ⟨hundeleted, allows_of_undeleted [10] pendRun hundeleted⟩

end PlcFirmware.Ucos
