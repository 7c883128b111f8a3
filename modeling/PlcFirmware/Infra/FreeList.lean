import Mathlib.Data.List.Nodup
import Mathlib.Logic.Function.Basic

/-!
# Free lists

The members of a pool are free, and then in a list, or in use.

* `FreeList.take`, `FreeList.give` — a member is taken from the list, or given back
* `FreeList.perm` — the order of the list is of no account
* `inHands_update` — members which are neither free nor in use, but in the hand of somebody
-/

namespace PlcFirmware.Infra

/-- The list holds each member of the pool `all` which is not in use, once. -/
structure FreeList {ι : Type _} (all used : ι → Prop) (l : List ι) : Prop where
  nodup : l.Nodup
  mem_iff : ∀ i, i ∈ l ↔ all i ∧ ¬used i
  used_all : ∀ i, used i → all i

namespace FreeList

variable {ι : Type _} {all used used' : ι → Prop} {l : List ι} {i : ι}

theorem congr (h : FreeList all used l) (hu : ∀ j, used' j ↔ used j) : FreeList all used' l where
  nodup := h.nodup
  mem_iff j := by rw [hu j]; exact h.mem_iff j
  used_all j hj := h.used_all j ((hu j).mp hj)

/-- The first free member is not in use. -/
theorem head (h : FreeList all used (i :: l)) : all i ∧ ¬used i :=
  (h.mem_iff i).mp List.mem_cons_self

/-- **A member is taken from the list.** -/
theorem take (h : FreeList all used (i :: l)) (hu : ∀ j, used' j ↔ j = i ∨ used j) :
    FreeList all used' l where
  nodup := (List.nodup_cons.mp h.nodup).2
  mem_iff j := by
    have hj := h.mem_iff j
    rw [List.mem_cons] at hj
    rw [hu j]
    constructor
    · intro hm
      have hne : j ≠ i := fun he => (List.nodup_cons.mp h.nodup).1 (he ▸ hm)
      have := hj.mp (Or.inr hm)
      exact ⟨this.1, fun hor => hor.elim hne this.2⟩
    · rintro ⟨ha, hn⟩
      rcases hj.mpr ⟨ha, fun hj => hn (Or.inr hj)⟩ with he | hm
      · exact absurd (Or.inl he) hn
      · exact hm
  used_all j hj := by
    rcases (hu j).mp hj with rfl | hj
    · exact h.head.1
    · exact h.used_all j hj

/-- **A member is given back.** -/
theorem give (h : FreeList all used l) (hi : used i) (hu : ∀ j, used' j ↔ j ≠ i ∧ used j) :
    FreeList all used' (i :: l) where
  nodup := List.nodup_cons.mpr ⟨fun hm => ((h.mem_iff i).mp hm).2 hi, h.nodup⟩
  mem_iff j := by
    rw [List.mem_cons, h.mem_iff j, hu j]
    by_cases he : j = i
    · subst he
      exact iff_of_true (Or.inl rfl) ⟨h.used_all j hi, fun hn => hn.1 rfl⟩
    · exact ⟨fun hor => ⟨(hor.resolve_left he).1, fun hn => (hor.resolve_left he).2 hn.2⟩,
        fun hn => Or.inr ⟨hn.1, fun hj => hn.2 ⟨he, hj⟩⟩⟩
  used_all j hj := h.used_all j ((hu j).mp hj).2

/-- The order of the list is of no account. -/
theorem perm {l' : List ι} (h : FreeList all used l) (hl : l'.Perm l) : FreeList all used l' where
  nodup := hl.nodup_iff.mpr h.nodup
  mem_iff j := hl.mem_iff.trans (h.mem_iff j)
  used_all := h.used_all

end FreeList

/-! ## Members in hand -/

variable {κ ι : Type _} [DecidableEq κ] {ks : List κ} {k : κ}

/-- What the hands of `ks` hold. -/
def inHands (ks : List κ) (hand : κ → Option ι) : List ι := ks.filterMap hand

theorem inHands_erase (hk : k ∈ ks) (hand : κ → Option ι) :
    (inHands ks hand).Perm ((hand k).toList ++ inHands (ks.erase k) hand) := by
  have h := (List.perm_cons_erase hk).filterMap hand
  rw [List.filterMap_cons] at h
  cases hhand : hand k with
  | none => rwa [hhand] at h
  | some i => rwa [hhand] at h

/-- **A hand lays down what it has held and takes something else.** -/
theorem inHands_update (hnodup : ks.Nodup) (hk : k ∈ ks) (hand : κ → Option ι) (o : Option ι) :
    ((hand k).toList ++ inHands ks (Function.update hand k o)).Perm (o.toList ++ inHands ks hand) := by
  have hrest : inHands (ks.erase k) (Function.update hand k o) = inHands (ks.erase k) hand :=
    List.filterMap_congr fun j hj =>
      Function.update_of_ne (fun he => hnodup.not_mem_erase (he ▸ hj)) _ _
  have hnew := inHands_erase hk (Function.update hand k o)
  rw [hrest, Function.update_self] at hnew
  have hold := inHands_erase hk hand
  refine (hnew.append_left _).trans (List.Perm.trans ?_ (hold.append_left _).symm)
  rw [← List.append_assoc, ← List.append_assoc]
  exact List.perm_append_comm.append_right _

end PlcFirmware.Infra
