import Mathlib.Algebra.GroupWithZero.Nat
import PlcFirmware.Infra.Machine

/-!
# Machines which keep accounts

What a machine holds changes by what its outputs earn and spend.

* `run_balance` — the balance of a run is the balance of its steps
-/

namespace PlcFirmware.Infra.Machine

variable {σ ι ε : Type _} (M : Machine σ ι ε)

/--
**The balance of a run.** If every step keeps the books, what is held at the end and what has been spent
are what was held at the beginning and what has been earned.
-/
theorem run_balance {P : σ → Prop} {G : σ → ι → Prop} (value : σ → Nat) (earned spent : ε → Nat)
    (hstep : ∀ s i, P s → G s i → P (M.step s i).1 ∧
      value (M.step s i).1 + ((M.step s i).2.map spent).sum =
        value s + ((M.step s i).2.map earned).sum)
    {s : σ} {is : List ι} (h0 : P s) (hG : ∀ t ∈ M.transitions s is, G t.1 t.2) :
    value (M.run s is) + ((M.trace s is).map spent).sum =
      value s + ((M.trace s is).map earned).sum := by
  induction is generalizing s with
  | nil => rfl
  | cons i is ih =>
    obtain ⟨hP, hbal⟩ := hstep s i h0 (hG (s, i) List.mem_cons_self)
    have hrest := ih hP fun t ht => hG t (List.mem_cons_of_mem _ ht)
    rw [run_cons, trace_cons, List.map_append, List.map_append, List.sum_append, List.sum_append]
    omega

end PlcFirmware.Infra.Machine
