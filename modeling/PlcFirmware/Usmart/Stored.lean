import PlcFirmware.Usmart.Command

/-!
# The arguments in memory

`usmart_get_fparam` packs the arguments into `parm` and notes their lengths and types, `usmart_exe`
finds them by adding up the lengths. `Packed` says that some arguments are packed; `put` adds one, and
`temp` finds each of them. They may reach behind `parm`, as long as the sums of lengths do not wrap
around; those which are `Stored` do not.
-/

namespace PlcFirmware.Usmart

open Infra

/-! ## Numbers in memory -/

/-- The four bytes of a number are read back. -/
theorem UsmartDev.u32At_numBytes {d : UsmartDev} {a : Nat} {v : UInt32}
    (h : HoldsAt d.mem a (numBytes v)) : d.u32At a = v := by
  have h0 : d.mem a = v.toUInt8 := h 0 (by simp [numBytes])
  have h1 : d.mem (a + 1) = (v >>> 8).toUInt8 := h 1 (by simp [numBytes])
  have h2 : d.mem (a + 2) = (v >>> 16).toUInt8 := h 2 (by simp [numBytes])
  have h3 : d.mem (a + 3) = (v >>> 24).toUInt8 := h 3 (by simp [numBytes])
  rw [u32At, h0, h1, h2, h3]
  apply UInt32.toNat_inj.mp
  have hv := v.toNat_lt
  simp [Nat.shiftLeft_eq, Nat.shiftRight_eq_div_pow]
  omega

/-! ## Packing -/

/-- The values are packed from the start of `parm` on, with their types and lengths noted. -/
structure UsmartDev.Packed (d : UsmartDev) (vs : List Value) : Prop where
  few : vs.length ≤ maxParm
  small : (vs.flatMap Value.stored).length < 256
  types : ∀ (i : Nat) (h : i < vs.length), d.parmtype i = vs[i].isString
  lens : ∀ (i : Nat) (h : i < vs.length), (d.mem i).toNat = vs[i].stored.length
  parm : HoldsAt d.mem maxParm (vs.flatMap Value.stored)

namespace UsmartDev.Packed

variable {d : UsmartDev} {vs : List Value}

theorem nil (d : UsmartDev) : d.Packed [] where
  few := Nat.zero_le _
  small := by decide
  types := fun _ h => absurd h (Nat.not_lt_zero _)
  lens := fun _ h => absurd h (Nat.not_lt_zero _)
  parm := fun _ h => absurd h (Nat.not_lt_zero _)

/-- The bytes of one more value. -/
theorem length_take_succ (vs : List Value) {n : Nat} (hn : n < vs.length) :
    ((vs.take (n + 1)).flatMap Value.stored).length
      = ((vs.take n).flatMap Value.stored).length + vs[n].stored.length := by
  rw [List.take_succ_eq_append_getElem hn, List.flatMap_append, List.length_append]
  simp

theorem length_take_le (vs : List Value) (n : Nat) :
    ((vs.take n).flatMap Value.stored).length ≤ (vs.flatMap Value.stored).length := by
  conv_rhs => rw [← List.take_append_drop n vs, List.flatMap_append, List.length_append]
  exact Nat.le_add_right _ _

/-- The sum of the first lengths does not wrap around. -/
theorem parmpos_toNat (hs : d.Packed vs) (n : Nat) (hn : n ≤ vs.length) :
    (d.parmpos n).toNat = ((vs.take n).flatMap Value.stored).length := by
  induction n with
  | zero => rfl
  | succ n ih =>
    have hsum := length_take_succ vs hn
    have hle := length_take_le vs (n + 1)
    have hsmall := hs.small
    rw [parmpos, UInt8.toNat_add, ih (by omega), hs.lens n hn, hsum]
    omega

/-- The place of an argument: behind the bytes of the arguments in front of it. -/
theorem parmAt_eq (hs : d.Packed vs) (n : Nat) (hn : n ≤ vs.length) :
    d.parmAt n = maxParm + ((vs.take n).flatMap Value.stored).length := by
  rw [parmAt, hs.parmpos_toNat n hn]

/-- An argument is put behind the others and leaves them as they are. -/
theorem put (hs : d.Packed vs) (v : Value) (hfew : vs.length < maxParm)
    (hsmall : ((vs ++ [v]).flatMap Value.stored).length < 256) :
    (d.put vs.length v.isString v.stored).Packed (vs ++ [v]) := by
  have hat := hs.parmAt_eq vs.length (Nat.le_refl _)
  rw [List.take_length] at hat
  have hflat : (vs ++ [v]).flatMap Value.stored = vs.flatMap Value.stored ++ v.stored := by simp
  have hlen : v.stored.length < 256 := by
    rw [hflat, List.length_append] at hsmall
    omega
  -- the table of lengths lies in front of `parm`
  have hparm : ∀ i, maxParm ≤ i → (d.put vs.length v.isString v.stored).mem i
      = store d.mem (d.parmAt vs.length) v.stored i := by
    intro i hi
    exact Function.update_of_ne (by omega) _ _
  have hlens : ∀ i, i < vs.length → (d.put vs.length v.isString v.stored).mem i = d.mem i := by
    intro i hi
    have hstore : store d.mem (d.parmAt vs.length) v.stored i = d.mem i := store_of_lt (by omega)
    exact (Function.update_of_ne (by omega) _ _).trans hstore
  have hnew : (d.put vs.length v.isString v.stored).mem vs.length
      = UInt8.ofNat v.stored.length := Function.update_self _ _ _
  refine ⟨?_, hsmall, ?_, ?_, ?_⟩
  · rw [List.length_append, List.length_singleton]; exact hfew
  · intro i hi
    by_cases hlt : i < vs.length
    · rw [List.getElem_append_left hlt, ← hs.types i hlt, UsmartDev.put]
      exact Function.update_of_ne (by omega) _ _
    · rw [List.length_append, List.length_singleton] at hi
      obtain rfl : i = vs.length := by omega
      rw [List.getElem_concat_length rfl, UsmartDev.put]
      exact Function.update_self _ _ _
  · intro i hi
    by_cases hlt : i < vs.length
    · rw [List.getElem_append_left hlt, ← hs.lens i hlt, hlens i hlt]
    · rw [List.length_append, List.length_singleton] at hi
      obtain rfl : i = vs.length := by omega
      rw [List.getElem_concat_length rfl, hnew, UInt8.toNat_ofNat_of_lt' hlen]
  · rw [hflat]
    refine HoldsAt.append (hs.parm.congr fun i h1 h2 => ?_) ?_
    · rw [hparm i h1, store_of_lt (by omega)]
    · rw [← hat]
      refine (holdsAt_store d.mem (d.parmAt vs.length) v.stored).congr fun i h1 h2 => ?_
      exact hparm i (by omega)

/-- The bytes of an argument are at its place. -/
theorem holdsAt (hs : d.Packed vs) (i : Nat) (hi : i < vs.length) :
    HoldsAt d.mem (d.parmAt i) vs[i].stored := by
  have h := hs.parm
  rw [← List.take_append_drop i vs, List.flatMap_append, List.drop_eq_getElem_cons hi,
    List.flatMap_cons] at h
  rw [hs.parmAt_eq i (Nat.le_of_lt hi)]
  exact h.right.left

/-- Each of the arguments is found. -/
theorem temp_isPassed (hs : d.Packed vs) (i : Nat) (hi : i < vs.length) :
    vs[i].IsPassed d (some (d.temp i)) := by
  have hholds := hs.holdsAt i hi
  have htype := hs.types i hi
  rw [UsmartDev.temp, htype]
  cases hv : vs[i] with
  | num v =>
    rw [hv] at hholds
    rw [Value.isString, if_neg Bool.false_ne_true, u32At_numBytes hholds]
    exact rfl
  | text s =>
    rw [hv] at hholds
    exact ⟨d.parmAt i, rfl, hholds⟩

end UsmartDev.Packed

/-- The values are packed in `parm`, with their types and lengths noted. -/
structure UsmartDev.Stored (d : UsmartDev) (vs : List Value) : Prop where
  few : vs.length ≤ maxParm
  fits : (vs.flatMap Value.stored).length ≤ parmLen
  types : ∀ (i : Nat) (h : i < vs.length), d.parmtype i = vs[i].isString
  lens : ∀ (i : Nat) (h : i < vs.length), (d.mem i).toNat = vs[i].stored.length
  parm : HoldsAt d.mem maxParm (vs.flatMap Value.stored)

namespace UsmartDev.Stored

variable {d : UsmartDev} {vs : List Value}

theorem packed (hs : d.Stored vs) : d.Packed vs where
  few := hs.few
  small := Nat.lt_of_le_of_lt hs.fits (by decide)
  types := hs.types
  lens := hs.lens
  parm := hs.parm

theorem of_packed (hs : d.Packed vs) (hfits : (vs.flatMap Value.stored).length ≤ parmLen) :
    d.Stored vs where
  few := hs.few
  fits := hfits
  types := hs.types
  lens := hs.lens
  parm := hs.parm

theorem temp_isPassed (hs : d.Stored vs) (i : Nat) (hi : i < vs.length) :
    vs[i].IsPassed d (some (d.temp i)) :=
  hs.packed.temp_isPassed i hi

end UsmartDev.Stored

end PlcFirmware.Usmart
