import Mathlib.Algebra.GroupWithZero.Nat
import Mathlib.Data.List.Sort
import PlcFirmware.Infra.Ledger

/-!
# Alarms

Alarms which are set for a time, cancelled, or ring when their time has come, with a clock which knows no
time but that which is waited. Of alarms for the same time the one set first rings first.

* `machine` — the machine, with room for a number of alarms
* `Ok.step` — no alarm is overdue
* `run_rings` — alarms ring in the order of their times, none of them late
* `run_kept` — an alarm which was set has rung, was cancelled, or is pending
-/

namespace PlcFirmware.Infra

/-- The alarms which are pending, with their times. -/
structure Alarms (α : Type _) where
  clock : Nat
  pending : List (Nat × α)

namespace Alarms

variable {α : Type _}

/-- What is asked of the machine. -/
inductive Input (α : Type _)
  /-- An alarm is set, for a time from now on. -/
  | set (d : Nat) (a : α)
  /-- The first alarm of its kind is taken back. -/
  | cancel (a : α)
  /-- Something came after a while, or nothing until the first alarm. -/
  | wait (r : Option Nat)

/-- What has happened to an alarm. -/
inductive Event (α : Type _)
  | set (t : Nat) (a : α)
  | cancelled (t : Nat) (a : α)
  | rang (t : Nat) (a : α)

/-- An alarm which has rung. -/
def Event.ring : Event α → Option (Nat × α)
  | rang t a => some (t, a)
  | _ => none

variable [DecidableEq α]

/-- How many alarms `x` have been set. -/
def Event.sets (x : Nat × α) : Event α → Nat
  | set t a => if (t, a) = x then 1 else 0
  | _ => 0

/-- How many alarms `x` are gone. -/
def Event.ends (x : Nat × α) : Event α → Nat
  | cancelled t a | rang t a => if (t, a) = x then 1 else 0
  | set _ _ => 0

/-- There is room for `n` alarms. While an alarm is due the clock stands still. -/
def step (n : Nat) (s : Alarms α) : Input α → Alarms α × List (Event α)
  | .set d a =>
    if s.pending.length < n then
      ({ s with pending := s.pending.orderedInsert (·.1 < ·.1) (s.clock + d, a) },
        [.set (s.clock + d) a])
    else (s, [])
  | .cancel a =>
    ({ s with pending := s.pending.eraseP (·.2 = a) },
      ((s.pending.find? (·.2 = a)).map fun x => .cancelled x.1 x.2).toList)
  | .wait r =>
    match s.pending, r with
    | [], r => ({ s with clock := s.clock + r.getD 0 }, [])
    | (t, a) :: l, none => (⟨t, l⟩, [.rang t a])
    | (t, a) :: l, some w =>
      if s.clock = t then (⟨t, l⟩, [.rang t a])
      else (⟨min (s.clock + w) t, (t, a) :: l⟩, [])

/-- The alarms as a machine. -/
def machine (α : Type _) [DecidableEq α] (n : Nat) : Machine (Alarms α) (Input α) (Event α) where
  step := step n

/-- The alarms are in the order of their times, and none is overdue. -/
structure Ok (s : Alarms α) : Prop where
  sorted : s.pending.Pairwise (·.1 ≤ ·.1)
  clock_le : ∀ x ∈ s.pending, s.clock ≤ x.1

variable {s : Alarms α} {n : Nat}

omit [DecidableEq α] in
/-- An alarm goes in behind those which are due no later. -/
theorem pairwise_orderedInsert {x : Nat × α} {l : List (Nat × α)} (h : l.Pairwise (·.1 ≤ ·.1)) :
    (l.orderedInsert (·.1 < ·.1) x).Pairwise (·.1 ≤ ·.1) := by
  induction l with
  | nil => exact List.pairwise_singleton _ _
  | cons y l ih =>
    obtain ⟨hy, hl⟩ := List.pairwise_cons.mp h
    rw [List.orderedInsert_cons]
    split
    · next hlt =>
      refine List.pairwise_cons.mpr ⟨fun z hz => ?_, h⟩
      rcases List.mem_cons.mp hz with rfl | hz
      · exact hlt.le
      · exact hlt.le.trans (hy z hz)
    · next hge =>
      refine List.pairwise_cons.mpr ⟨fun z hz => ?_, ih hl⟩
      rcases (List.mem_orderedInsert _).mp hz with rfl | hz
      · exact not_lt.mp hge
      · exact hy z hz

/-- What one step does to the clock, and when it lets an alarm ring. -/
structure Ticks (s : Alarms α) (r : Alarms α × List (Event α)) : Prop where
  ok : Ok r.1
  clock : s.clock ≤ r.1.clock
  rings : r.2.filterMap Event.ring = [] ∨ ∃ a, r.2.filterMap Event.ring = [(r.1.clock, a)]

/-- **No step leaves an alarm overdue**, and an alarm rings at its time. -/
theorem Ok.step (h : Ok s) (i : Input α) : Ticks s (step n s i) := by
  cases i with
  | set d a =>
    unfold Alarms.step
    dsimp only
    split
    · refine ⟨⟨pairwise_orderedInsert h.sorted, fun x hx => ?_⟩, le_rfl, Or.inl rfl⟩
      rcases (List.mem_orderedInsert _).mp hx with rfl | hx
      · exact Nat.le_add_right ..
      · exact h.clock_le x hx
    · exact ⟨h, le_rfl, Or.inl rfl⟩
  | cancel a =>
    have hsub := List.eraseP_sublist (p := (·.2 = a)) (l := s.pending)
    refine ⟨⟨h.sorted.sublist hsub, fun x hx => h.clock_le x (hsub.subset hx)⟩, le_rfl, Or.inl ?_⟩
    unfold Alarms.step
    dsimp only
    cases s.pending.find? (·.2 = a) <;> rfl
  | wait r =>
    obtain ⟨clock, pending⟩ := s
    obtain ⟨hsorted, hle⟩ := h
    cases pending with
    | nil => exact ⟨⟨List.Pairwise.nil, fun x hx => by cases hx⟩, Nat.le_add_right .., Or.inl rfl⟩
    | cons y l =>
      obtain ⟨t, a⟩ := y
      obtain ⟨ht, hl⟩ := List.pairwise_cons.mp hsorted
      have hnow : clock ≤ t := hle (t, a) List.mem_cons_self
      have hring : Ticks ⟨clock, (t, a) :: l⟩ (⟨t, l⟩, [Event.rang t a]) :=
        ⟨⟨hl, ht⟩, hnow, Or.inr ⟨a, rfl⟩⟩
      cases r with
      | none => exact hring
      | some w =>
        unfold Alarms.step
        dsimp only
        split
        · exact hring
        · refine ⟨⟨hsorted, fun x hx => ?_⟩, le_min (Nat.le_add_right ..) hnow, Or.inl rfl⟩
          refine (min_le_right ..).trans ?_
          rcases List.mem_cons.mp hx with rfl | hx
          · exact le_rfl
          · exact ht x hx

/-- What a run does to the clock, and when its alarms ring. -/
structure Rings (s s' : Alarms α) (rings : List (Nat × α)) : Prop where
  ok : Ok s'
  clock : s.clock ≤ s'.clock
  sorted : rings.Pairwise (·.1 ≤ ·.1)
  range : ∀ x ∈ rings, s.clock ≤ x.1 ∧ x.1 ≤ s'.clock

/--
**Alarms ring in the order of their times**, between the time at the beginning of the run and the time at
its end, and what is still pending then is not overdue.
-/
theorem Ok.run (h : Ok s) (is : List (Input α)) :
    Rings s ((machine α n).run s is) (((machine α n).trace s is).filterMap Event.ring) := by
  induction is generalizing s with
  | nil => exact ⟨h, le_rfl, List.Pairwise.nil, by simp⟩
  | cons i is ih =>
    obtain ⟨hok, hclock, hone⟩ := h.step (n := n) i
    obtain ⟨hok', hclock', hsorted, hrange⟩ := ih hok
    have hlater : ∀ x ∈ ((machine α n).trace (Alarms.step n s i).1 is).filterMap Event.ring,
        s.clock ≤ x.1 ∧ x.1 ≤ ((machine α n).run (Alarms.step n s i).1 is).clock :=
      fun x hx => ⟨hclock.trans (hrange x hx).1, (hrange x hx).2⟩
    refine ⟨hok', hclock.trans hclock', ?_, ?_⟩
    · show (List.filterMap Event.ring ((Alarms.step n s i).2 ++ _)).Pairwise _
      rw [List.filterMap_append]
      rcases hone with hnone | ⟨a, hone⟩
      · rw [hnone]
        exact hsorted
      · rw [hone]
        exact List.pairwise_cons.mpr ⟨fun x hx => (hrange x hx).1, hsorted⟩
    · show ∀ x ∈ List.filterMap Event.ring ((Alarms.step n s i).2 ++ _), _
      rw [List.filterMap_append]
      intro x hx
      rcases List.mem_append.mp hx with hx | hx
      · rcases hone with hnone | ⟨a, hone⟩
        · rw [hnone] at hx
          cases hx
        · rw [hone, List.mem_singleton] at hx
          subst hx
          exact ⟨hclock, hclock'⟩
      · exact hlater x hx

/-! ## No alarm is lost -/

/-- What is taken out is what has been found. -/
theorem countP_eraseP (p : Nat × α → Bool) (l : List (Nat × α)) (x : Nat × α) :
    (l.eraseP p).countP (· = x) + (if l.find? p = some x then 1 else 0) = l.countP (· = x) := by
  induction l with
  | nil => rfl
  | cons y l ih =>
    by_cases hp : p y
    · rw [List.eraseP_cons_of_pos hp, List.find?_cons_of_pos hp, List.countP_cons]
      simp only [Option.some.injEq, decide_eq_true_eq]
    · rw [List.eraseP_cons_of_neg hp, List.find?_cons_of_neg hp, List.countP_cons, List.countP_cons,
        ← ih]
      omega

/-- One step: the alarms `x` which are pending, with those which are gone. -/
theorem step_kept (s : Alarms α) (i : Input α) (x : Nat × α) :
    (step n s i).1.pending.countP (· = x) + ((step n s i).2.map (Event.ends x)).sum =
      s.pending.countP (· = x) + ((step n s i).2.map (Event.sets x)).sum := by
  have hring : ∀ t a l, l.countP (· = x) + ([Event.rang t a].map (Event.ends x)).sum =
      ((t, a) :: l).countP (· = x) + ([Event.rang t a].map (Event.sets x)).sum := by
    intro t a l
    simp [List.countP_cons, Event.ends, Event.sets]
  cases i with
  | set d a =>
    unfold step
    dsimp only
    split
    · dsimp only
      rw [(List.perm_orderedInsert _ _ _).countP_eq, List.countP_cons]
      simp [Event.ends, Event.sets]
    · rfl
  | cancel a =>
    have hcount := countP_eraseP (·.2 = a) s.pending x
    unfold step
    dsimp only
    rw [← hcount]
    cases s.pending.find? (·.2 = a) with
    | none => simp
    | some y => simp [Event.ends, Event.sets]
  | wait r =>
    obtain ⟨clock, pending⟩ := s
    cases pending with
    | nil => rfl
    | cons y l =>
      cases r with
      | none => exact hring y.1 y.2 l
      | some w =>
        unfold step
        dsimp only
        split
        · exact hring y.1 y.2 l
        · rfl

/-- **No alarm is lost, and none rings twice.** -/
theorem run_kept (s : Alarms α) (is : List (Input α)) (x : Nat × α) :
    ((machine α n).run s is).pending.countP (· = x) +
        (((machine α n).trace s is).map (Event.ends x)).sum =
      s.pending.countP (· = x) + (((machine α n).trace s is).map (Event.sets x)).sum :=
  (machine α n).run_balance (P := fun _ => True) (G := fun _ _ => True) (fun s => s.pending.countP (· = x))
    (Event.sets x) (Event.ends x) (fun s i _ _ => ⟨trivial, step_kept s i x⟩) trivial
    fun _ _ => trivial

end Alarms

end PlcFirmware.Infra
