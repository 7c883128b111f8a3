import Mathlib.Logic.Function.Basic
import Mathlib.Data.List.GetD

/-!
# Cell stores

An array or a stretch of memory is a function from indices to cells. The loops of the source which
write consecutive cells are `fill` (one value) and `store` (a list of values); what they leave in
each cell is `fill_apply` and `store_apply`.
-/

namespace PlcFirmware.Infra

variable {α : Type _}

/-- `for (i = 0; i < n; i++) f[start + i] = v` -/
def fill (f : Nat → α) (start : Nat) (v : α) : Nat → (Nat → α)
  | 0 => f
  | n + 1 => fill (Function.update f start v) (start + 1) v n

/-- The values are written one after the other from `start` on. -/
def store (f : Nat → α) (start : Nat) : List α → (Nat → α)
  | [] => f
  | v :: vs => store (Function.update f start v) (start + 1) vs

theorem fill_apply (f : Nat → α) (start : Nat) (v : α) (n i : Nat) :
    fill f start v n i = if start ≤ i ∧ i < start + n then v else f i := by
  induction n generalizing f start with
  | zero => simp only [fill]; rw [if_neg (by omega)]
  | succ n ih =>
    simp only [fill, ih, Function.update_apply]
    by_cases h : start + 1 ≤ i ∧ i < start + 1 + n
    · rw [if_pos h, if_pos (by omega)]
    · rw [if_neg h]
      by_cases hi : i = start
      · rw [if_pos hi, if_pos (by omega)]
      · rw [if_neg hi, if_neg (by omega)]

theorem store_apply (f : Nat → α) (start : Nat) (vs : List α) (i : Nat) :
    store f start vs i = if start ≤ i then vs.getD (i - start) (f i) else f i := by
  induction vs generalizing f start with
  | nil => simp [store]
  | cons v vs ih =>
    simp only [store, ih, Function.update_apply]
    by_cases hlt : start + 1 ≤ i
    · rw [if_pos hlt, if_neg (by omega), if_pos (by omega)]
      rw [show i - start = i - (start + 1) + 1 by omega, List.getD_cons_succ]
    · rw [if_neg hlt]
      by_cases hi : i = start
      · subst hi; simp
      · rw [if_neg hi, if_neg (by omega)]

theorem store_of_lt {f : Nat → α} {start : Nat} {vs : List α} {i : Nat} (h : i < start) :
    store f start vs i = f i := by
  rw [store_apply, if_neg (by omega)]

theorem store_of_ge {f : Nat → α} {start : Nat} {vs : List α} {i : Nat} (h : start + vs.length ≤ i) :
    store f start vs i = f i := by
  rw [store_apply, if_pos (by omega), List.getD_eq_default _ _ (by omega)]

theorem store_of_mem {f : Nat → α} {start : Nat} {vs : List α} {j : Nat} (h : j < vs.length) :
    store f start vs (start + j) = vs[j] := by
  rw [store_apply, if_pos (by omega), Nat.add_sub_cancel_left, List.getD_eq_getElem _ _ h]

theorem store_append (f : Nat → α) (start : Nat) (vs ws : List α) :
    store (store f start vs) (start + vs.length) ws = store f start (vs ++ ws) := by
  induction vs generalizing f start with
  | nil => rfl
  | cons v vs ih =>
    rw [List.length_cons, List.cons_append, store, store, ← ih, Nat.add_assoc, Nat.add_comm 1]

/-! ## What a stretch holds -/

/-- The cells from `start` on hold the values. -/
def HoldsAt (f : Nat → α) (start : Nat) (vs : List α) : Prop :=
  ∀ (j : Nat) (h : j < vs.length), f (start + j) = vs[j]

theorem holdsAt_store (f : Nat → α) (start : Nat) (vs : List α) :
    HoldsAt (store f start vs) start vs := fun _ h => store_of_mem h

theorem HoldsAt.congr {f g : Nat → α} {start : Nat} {vs : List α} (hf : HoldsAt f start vs)
    (h : ∀ i, start ≤ i → i < start + vs.length → g i = f i) : HoldsAt g start vs := by
  intro j hj
  rw [h (start + j) (by omega) (by omega), hf j hj]

theorem HoldsAt.append {f : Nat → α} {start : Nat} {vs ws : List α} (hv : HoldsAt f start vs)
    (hw : HoldsAt f (start + vs.length) ws) : HoldsAt f start (vs ++ ws) := by
  intro j hj
  rw [List.length_append] at hj
  by_cases hlt : j < vs.length
  · rw [List.getElem_append_left hlt, hv j hlt]
  · have hat := hw (j - vs.length) (by omega)
    rw [show start + vs.length + (j - vs.length) = start + j by omega] at hat
    rw [List.getElem_append_right (by omega), hat]

theorem HoldsAt.left {f : Nat → α} {start : Nat} {vs ws : List α} (h : HoldsAt f start (vs ++ ws)) :
    HoldsAt f start vs := by
  intro j hj
  rw [h j (by rw [List.length_append]; omega), List.getElem_append_left hj]

theorem HoldsAt.right {f : Nat → α} {start : Nat} {vs ws : List α} (h : HoldsAt f start (vs ++ ws)) :
    HoldsAt f (start + vs.length) ws := by
  intro j hj
  have hat := h (vs.length + j) (by rw [List.length_append]; omega)
  rw [List.getElem_append_right (Nat.le_add_right _ _)] at hat
  simp only [Nat.add_sub_cancel_left] at hat
  rw [Nat.add_assoc, hat]

end PlcFirmware.Infra
