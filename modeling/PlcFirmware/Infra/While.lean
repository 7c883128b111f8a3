import Mathlib.Data.Nat.Basic

/-!
# While loops

`while (cond) body` as a relation between the state before and the state after; a loop which goes on
for ever has no state after it.

* `terminates_of_measure` — a measure which every round lowers
* `ends_of_measure` — and what holds then
* `not_terminates` — an invariant under which the condition holds
* `Ends.invariant` — what every round keeps
-/

namespace PlcFirmware.Infra

/-- `while (cond) body` -/
structure While (σ : Type _) where
  cond : σ → Bool
  body : σ → σ

namespace While

variable {σ : Type _} (L : While σ)

/-- The loop, started in the first state, ends in the second. -/
inductive Ends : σ → σ → Prop
  | stop {s : σ} (h : L.cond s = false) : Ends s s
  | round {s s' : σ} (h : L.cond s = true) (hs : Ends (L.body s) s') : Ends s s'

/-- The loop ends. -/
def Terminates (s : σ) : Prop := ∃ s', L.Ends s s'

variable {L} {s s' : σ}

theorem Ends.cond_false (h : L.Ends s s') : L.cond s' = false := by
  induction h with
  | stop h => exact h
  | round _ _ ih => exact ih

theorem ends_of_false (h : L.cond s = false) (hs : L.Ends s s') : s' = s := by
  cases hs with
  | stop => rfl
  | round ht => rw [h] at ht; cases ht

theorem ends_of_true (h : L.cond s = true) (hs : L.Ends s s') : L.Ends (L.body s) s' := by
  cases hs with
  | stop hf => rw [h] at hf; cases hf
  | round _ hs => exact hs

/-- A loop ends in one state. -/
theorem Ends.unique {t : σ} (h : L.Ends s s') (ht : L.Ends s t) : t = s' := by
  induction h with
  | stop h => exact ends_of_false h ht
  | round h _ ih => exact ih (ends_of_true h ht)

/-- **What every round keeps holds at the end.** -/
theorem Ends.invariant {I : σ → Prop} (hbody : ∀ s, I s → L.cond s = true → I (L.body s))
    (h : L.Ends s s') (h0 : I s) : I s' := by
  induction h with
  | stop => exact h0
  | round h _ ih => exact ih (hbody _ h0 h)

/-- **A loop ends if every round lowers a measure.** -/
theorem terminates_of_measure {I : σ → Prop} (m : σ → Nat)
    (hbody : ∀ s, I s → L.cond s = true → I (L.body s) ∧ m (L.body s) < m s) (h0 : I s) :
    L.Terminates s := by
  induction hm : m s using Nat.strong_induction_on generalizing s with
  | _ n ih =>
    cases hc : L.cond s with
    | false => exact ⟨s, .stop hc⟩
    | true =>
      obtain ⟨hI, hlt⟩ := hbody s h0 hc
      obtain ⟨s', hs'⟩ := ih _ (hm ▸ hlt) hI rfl
      exact ⟨s', .round hc hs'⟩

/-- **A loop which lowers a measure ends, and keeps its invariant to the end.** -/
theorem ends_of_measure {I : σ → Prop} (m : σ → Nat)
    (hbody : ∀ s, I s → L.cond s = true → I (L.body s) ∧ m (L.body s) < m s) (h0 : I s) :
    ∃ s', L.Ends s s' ∧ I s' ∧ L.cond s' = false := by
  obtain ⟨s', hs'⟩ := terminates_of_measure m hbody h0
  exact ⟨s', hs', hs'.invariant (fun t ht hc => (hbody t ht hc).1) h0, hs'.cond_false⟩

/-- **A loop does not end if every round leads back to its condition.** -/
theorem not_terminates {I : σ → Prop} (hcond : ∀ s, I s → L.cond s = true)
    (hbody : ∀ s, I s → I (L.body s)) (h0 : I s) : ¬L.Terminates s := by
  rintro ⟨s', h⟩
  have hI : I s' := h.invariant (fun s hs _ => hbody s hs) h0
  have hf := h.cond_false
  rw [hcond s' hI] at hf
  cases hf

/-- The states in which a round of the loop begins. -/
inductive Round (L : While σ) (s : σ) : σ → Prop
  | first (h : L.cond s = true) : Round L s s
  | next {t : σ} (ht : Round L s t) (h : L.cond (L.body t) = true) : Round L s (L.body t)

theorem Round.cond_true {t : σ} (h : L.Round s t) : L.cond t = true := by
  cases h with
  | first h => exact h
  | next _ h => exact h

/-- **What every round keeps holds in each of them.** -/
theorem Round.invariant {I : σ → Prop} (hbody : ∀ s, I s → L.cond s = true → I (L.body s))
    {t : σ} (h : L.Round s t) (h0 : I s) : I t := by
  induction h with
  | first => exact h0
  | next ht _ ih => exact hbody _ ih ht.cond_true

end While

end PlcFirmware.Infra
