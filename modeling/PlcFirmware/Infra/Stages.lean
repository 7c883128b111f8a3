import PlcFirmware.Infra.Machine

/-!
# What flows through a machine to several takers

Values go into a queue, are taken from it one after the other, each by a taker, and come out where the
taker gives them out. The takes themselves cannot be seen from outside.

* `run_stages` — if no step loses, repeats or overtakes a value, a run does not either
-/

namespace PlcFirmware.Infra

variable {κ α : Type _} [DecidableEq κ]

/-- The values of one taker. -/
def valuesOf (k : κ) (l : List (κ × α)) : List α :=
  l.filterMap fun x => if x.1 = k then some x.2 else none

@[simp] theorem valuesOf_nil (k : κ) : valuesOf k ([] : List (κ × α)) = [] := rfl

@[simp] theorem valuesOf_append (k : κ) (l l' : List (κ × α)) :
    valuesOf k (l ++ l') = valuesOf k l ++ valuesOf k l' :=
  List.filterMap_append

theorem valuesOf_singleton (k : κ) (x : κ × α) :
    valuesOf k [x] = if x.1 = k then [x.2] else [] := by
  by_cases h : x.1 = k <;> simp [valuesOf, h]

/-- A taker who has taken nothing. -/
theorem valuesOf_eq_nil {k : κ} {l : List (κ × α)} (h : ∀ x ∈ l, x.1 ≠ k) : valuesOf k l = [] :=
  List.filterMap_eq_nil_iff.mpr fun x hx => if_neg (h x hx)

/-- Between two states the values `ins` have gone in and `outs` have come out, with the takes `takes`. -/
structure Flows (queued queued' : List α) (held held' : κ → List α) (ins : List α)
    (outs takes : List (κ × α)) : Prop where
  taken : queued ++ ins = takes.map Prod.snd ++ queued'
  given : ∀ k, held k ++ valuesOf k takes = valuesOf k outs ++ held' k

namespace Flows

variable {queued queued' queued'' : List α} {held held' held'' : κ → List α} {ins ins' : List α}
  {outs outs' takes takes' : List (κ × α)}

/-- Nothing flows. -/
theorem refl : Flows queued queued held held [] [] [] := ⟨by simp, by simp⟩

theorem trans (h : Flows queued queued' held held' ins outs takes)
    (h' : Flows queued' queued'' held' held'' ins' outs' takes') :
    Flows queued queued'' held held'' (ins ++ ins') (outs ++ outs') (takes ++ takes') where
  taken := by
    rw [← List.append_assoc, h.taken, List.append_assoc, h'.taken, List.map_append,
      List.append_assoc]
  given k := by
    rw [valuesOf_append, valuesOf_append, ← List.append_assoc, h.given, List.append_assoc, h'.given,
      List.append_assoc]

end Flows

/--
**What flows through a machine to several takers.** If every step takes the values from the queue in their
order and gives out, for each taker, what it holds, so does a run.
-/
theorem Machine.run_stages {σ ι ε : Type _} (M : Machine σ ι ε) {P : σ → Prop} {G : σ → ι → Prop}
    (queued : σ → List α) (held : σ → κ → List α) (ins : ε → Option α) (outs : ε → Option (κ × α))
    (hstep : ∀ s i, P s → G s i → P (M.step s i).1 ∧ ∃ takes,
      Flows (queued s) (queued (M.step s i).1) (held s) (held (M.step s i).1)
        ((M.step s i).2.filterMap ins) ((M.step s i).2.filterMap outs) takes)
    {s : σ} {is : List ι} (h0 : P s) (hG : ∀ t ∈ M.transitions s is, G t.1 t.2) :
    ∃ takes, Flows (queued s) (queued (M.run s is)) (held s) (held (M.run s is))
      ((M.trace s is).filterMap ins) ((M.trace s is).filterMap outs) takes := by
  induction is generalizing s with
  | nil => exact ⟨[], .refl⟩
  | cons i is ih =>
    obtain ⟨hP, takes, hflow⟩ := hstep s i h0 (hG (s, i) List.mem_cons_self)
    obtain ⟨takes', hflow'⟩ := ih hP fun t ht => hG t (List.mem_cons_of_mem _ ht)
    refine ⟨takes ++ takes', ?_⟩
    rw [run_cons, trace_cons, List.filterMap_append, List.filterMap_append]
    exact hflow.trans hflow'

end PlcFirmware.Infra
