import Mathlib.Algebra.BigOperators.Group.List.Basic
import Mathlib.Algebra.GroupWithZero.Nat
import PlcFirmware.Infra.Machine
import PlcFirmware.Infra.Stages

/-!
# A machine seen as another

A step of a machine with small steps is nothing, or one step, of a machine with large ones: up to what
makes no difference between two states of the latter, and up to outputs which tell nothing.

* `Seen` — how a step is seen
* `Seen.keeps`, `Seen.balance`, `Seen.flows` — what is known of the large steps is known of the small ones
-/

namespace PlcFirmware.Infra

variable {τ κ ε : Type _}

/-- A small step from `x` to `x'` with the outputs `out` is seen as nothing, or as the step of an input. -/
inductive Seen (N : Machine τ κ ε) (alike : τ → τ → Prop) (void : ε → Prop) (x x' : τ) (out : List ε) :
    Option κ → Prop
  | nothing (hx : alike x x') (hout : ∀ e ∈ out, void e) : Seen N alike void x x' out none
  | step {j : κ} {z : τ} (hz : alike x z) (hx : alike (N.step z j).1 x') (hout : (N.step z j).2 = out) :
      Seen N alike void x x' out (some j)

namespace Seen

variable {N : Machine τ κ ε} {alike : τ → τ → Prop} {void : ε → Prop} {x x' : τ} {out : List ε}
  {oj : Option κ} {P : τ → Prop} {H : τ → κ → Prop}

/-- **An invariant of the large steps is one of the small steps.** -/
theorem keeps (hs : Seen N alike void x x' out oj) (halike : ∀ x z, alike x z → P x → P z)
    (hstep : ∀ z j, P z → H z j → P (N.step z j).1) (hx : P x)
    (hH : ∀ j ∈ oj, ∀ z, alike x z → H z j) : P x' := by
  cases hs with
  | nothing hx' _ => exact halike _ _ hx' hx
  | step hz hx' _ => exact halike _ _ hx' (hstep _ _ (halike _ _ hz hx) (hH _ rfl _ hz))

/-- **What is earned and spent by the large steps is by the small ones.** -/
theorem balance (hs : Seen N alike void x x' out oj) (value : τ → Nat) {earned spent : ε → Nat}
    (halike : ∀ x z, alike x z → P x → P z) (hvalue : ∀ x z, alike x z → value z = value x)
    (hvoid : ∀ e, void e → earned e = 0 ∧ spent e = 0)
    (hstep : ∀ z j, P z → H z j → value (N.step z j).1 + ((N.step z j).2.map spent).sum =
      value z + ((N.step z j).2.map earned).sum)
    (hx : P x) (hH : ∀ j ∈ oj, ∀ z, alike x z → H z j) :
    value x' + (out.map spent).sum = value x + (out.map earned).sum := by
  cases hs with
  | nothing hx' hout =>
    have hzero : ∀ f : ε → Nat, (∀ e ∈ out, f e = 0) → (out.map f).sum = 0 := fun f hf =>
      List.sum_eq_zero fun n hn => by
        obtain ⟨e, he, rfl⟩ := List.mem_map.mp hn
        exact hf e he
    rw [hzero spent fun e he => (hvoid e (hout e he)).2, hzero earned fun e he => (hvoid e (hout e he)).1,
      hvalue _ _ hx']
  | step hz hx' hout =>
    have h := hstep _ _ (halike _ _ hz hx) (hH _ rfl _ hz)
    rwa [hout, ← hvalue _ _ hx', hvalue _ _ hz] at h

/-- **What flows in the large steps flows in the small ones.** -/
theorem flows {α ι : Type _} [DecidableEq ι] (hs : Seen N alike void x x' out oj) (queued : τ → List α)
    (held : τ → ι → List α) {ins : ε → Option α} {outs : ε → Option (ι × α)}
    (halike : ∀ x z, alike x z → P x → P z) (hqueued : ∀ x z, alike x z → queued z = queued x)
    (hheld : ∀ x z, alike x z → held z = held x) (hvoid : ∀ e, void e → ins e = none ∧ outs e = none)
    (hstep : ∀ z j, P z → H z j → ∃ takes, Flows (queued z) (queued (N.step z j).1) (held z)
      (held (N.step z j).1) ((N.step z j).2.filterMap ins) ((N.step z j).2.filterMap outs) takes)
    (hx : P x) (hH : ∀ j ∈ oj, ∀ z, alike x z → H z j) :
    ∃ takes, Flows (queued x) (queued x') (held x) (held x') (out.filterMap ins) (out.filterMap outs)
      takes := by
  cases hs with
  | nothing hx' hout =>
    have hins : out.filterMap ins = [] := List.filterMap_eq_nil_iff.mpr fun e he => (hvoid e (hout e he)).1
    have houts : out.filterMap outs = [] :=
      List.filterMap_eq_nil_iff.mpr fun e he => (hvoid e (hout e he)).2
    rw [hins, houts, hqueued _ _ hx', hheld _ _ hx']
    exact ⟨[], .refl⟩
  | step hz hx' hout =>
    have h := hstep _ _ (halike _ _ hz hx) (hH _ rfl _ hz)
    rwa [hout, ← hqueued _ _ hx', ← hheld _ _ hx', hqueued _ _ hz, hheld _ _ hz] at h

end Seen

end PlcFirmware.Infra
