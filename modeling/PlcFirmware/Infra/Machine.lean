import Mathlib.Data.List.Basic

/-!
# Deterministic machines with outputs

A machine answers each input with a list of outputs. A run reads a list of inputs.
What a step preserves is lifted to runs here, once.

* `mem_trace_iff` — an output of a run is an output of one of its steps
* `run_invariant` — an invariant kept by the steps a run makes holds along the run
* `run_observed` — the same for what an observer concludes from the outputs
* `run_flow` — values that go in come out in their order, or are still held
-/

namespace PlcFirmware.Infra

/-- A deterministic machine: a step reads one input and gives the next state and the outputs. -/
structure Machine (σ ι ε : Type _) where
  step : σ → ι → σ × List ε

namespace Machine

variable {σ ι ε : Type _} (M : Machine σ ι ε)

/-- The state after the inputs. -/
def run : σ → List ι → σ
  | s, [] => s
  | s, i :: is => run (M.step s i).1 is

/-- The outputs given on the way. -/
def trace : σ → List ι → List ε
  | _, [] => []
  | s, i :: is => (M.step s i).2 ++ trace (M.step s i).1 is

/-- The steps of a run: the state before each and the input it reads. -/
def transitions : σ → List ι → List (σ × ι)
  | _, [] => []
  | s, i :: is => (s, i) :: transitions (M.step s i).1 is

@[simp] theorem run_nil (s : σ) : M.run s [] = s := rfl

@[simp] theorem run_cons (s : σ) (i : ι) (is : List ι) :
    M.run s (i :: is) = M.run (M.step s i).1 is := rfl

@[simp] theorem trace_nil (s : σ) : M.trace s [] = [] := rfl

@[simp] theorem trace_cons (s : σ) (i : ι) (is : List ι) :
    M.trace s (i :: is) = (M.step s i).2 ++ M.trace (M.step s i).1 is := rfl

@[simp] theorem transitions_nil (s : σ) : M.transitions s [] = [] := rfl

@[simp] theorem transitions_cons (s : σ) (i : ι) (is : List ι) :
    M.transitions s (i :: is) = (s, i) :: M.transitions (M.step s i).1 is := rfl

theorem run_append (s : σ) (is js : List ι) : M.run s (is ++ js) = M.run (M.run s is) js := by
  induction is generalizing s with
  | nil => rfl
  | cons i is ih => simp [ih]

theorem trace_append (s : σ) (is js : List ι) :
    M.trace s (is ++ js) = M.trace s is ++ M.trace (M.run s is) js := by
  induction is generalizing s with
  | nil => rfl
  | cons i is ih => simp [ih]

theorem transitions_append (s : σ) (is js : List ι) :
    M.transitions s (is ++ js) = M.transitions s is ++ M.transitions (M.run s is) js := by
  induction is generalizing s with
  | nil => rfl
  | cons i is ih => simp [ih]

/-- **An output of a run is an output of one of its steps.** -/
theorem mem_trace_iff {s : σ} {is : List ι} {e : ε} :
    e ∈ M.trace s is ↔ ∃ p ∈ M.transitions s is, e ∈ (M.step p.1 p.2).2 := by
  induction is generalizing s with
  | nil => simp
  | cons i is ih => simp [ih]

/--
**An invariant kept by the steps which a run makes holds along the run.**

`G` is what is known of the steps of this run; it may be a hypothesis on the inputs.
-/
theorem run_invariant {P : σ → Prop} {G : σ → ι → Prop}
    (hstep : ∀ s i, P s → G s i → P (M.step s i).1) {s : σ} {is : List ι} (h0 : P s)
    (hG : ∀ p ∈ M.transitions s is, G p.1 p.2) :
    (∀ p ∈ M.transitions s is, P p.1) ∧ P (M.run s is) := by
  induction is generalizing s with
  | nil => exact ⟨by simp, h0⟩
  | cons i is ih =>
    have hs : P (M.step s i).1 := hstep s i h0 (hG (s, i) (by simp))
    obtain ⟨h1, h2⟩ := ih hs (fun p hp => hG p (by simp [hp]))
    refine ⟨?_, h2⟩
    intro p hp
    rcases List.mem_cons.mp hp with rfl | hp
    · exact h0
    · exact h1 p hp

/-- An invariant kept by every step holds along every run. -/
theorem run_invariant' (P : σ → Prop) (hstep : ∀ s i, P s → P (M.step s i).1) {s : σ}
    (h0 : P s) (is : List ι) : (∀ p ∈ M.transitions s is, P p.1) ∧ P (M.run s is) :=
  M.run_invariant (G := fun _ _ => True) (fun s i h _ => hstep s i h) h0 (fun _ _ => trivial)

/-- **What an observer of the outputs knows stays true of the state.** -/
theorem run_observed {ρ : Type _} (note : ρ → ε → ρ) {P : σ → ρ → Prop}
    (hstep : ∀ s r i, P s r → P (M.step s i).1 ((M.step s i).2.foldl note r)) {s : σ} {r : ρ}
    (h0 : P s r) (is : List ι) : P (M.run s is) ((M.trace s is).foldl note r) := by
  induction is generalizing s r with
  | nil => exact h0
  | cons i is ih =>
    rw [trace_cons, List.foldl_append]
    exact ih (hstep s r i h0)

/--
**What flows through a machine.** A step takes values in, gives values out and holds others; if no step
loses, repeats or overtakes one, a run does not either.
-/
theorem run_flow {α : Type _} (taken given : ε → Option α) {P : σ → List α → Prop}
    {G : σ → ι → Prop}
    (hstep : ∀ s i held, P s held → G s i → ∃ held', P (M.step s i).1 held' ∧
      held ++ (M.step s i).2.filterMap taken = (M.step s i).2.filterMap given ++ held')
    {s : σ} {is : List ι} {held : List α} (h0 : P s held)
    (hG : ∀ p ∈ M.transitions s is, G p.1 p.2) :
    ∃ held', P (M.run s is) held' ∧
      held ++ (M.trace s is).filterMap taken = (M.trace s is).filterMap given ++ held' := by
  induction is generalizing s held with
  | nil => exact ⟨held, h0, by simp⟩
  | cons i is ih =>
    obtain ⟨mid, hmid, heq⟩ := hstep s i held h0 (hG (s, i) List.mem_cons_self)
    obtain ⟨held', hrun, heq'⟩ := ih hmid (fun p hp => hG p (List.mem_cons_of_mem _ hp))
    refine ⟨held', hrun, ?_⟩
    rw [trace_cons, List.filterMap_append, List.filterMap_append, ← List.append_assoc, heq,
      List.append_assoc, heq', List.append_assoc]

end Machine

end PlcFirmware.Infra
