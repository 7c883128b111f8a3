import PlcFirmware.Infra.BitTable
import PlcFirmware.Ucos.Queue

/-!
# Ready list and wait lists as the kernel keeps them

`OSRdyGrp` with `OSRdyTbl`, and `OSEventGrp` with `OSEventTbl` of each event, are bit tables of the
priorities. `OSUnMapTbl` finds the lowest bit of a word.

* `has_insert`, `has_erase` — a task in and out of a list
* `hpt_has` — the two lookups find the task of highest priority
-/

namespace PlcFirmware.Ucos

open Infra

/-- `OSUnMapTbl` -/
def osUnMapTbl : List (Fin 8) := [
  0, 0, 1, 0, 2, 0, 1, 0, 3, 0, 1, 0, 2, 0, 1, 0,
  4, 0, 1, 0, 2, 0, 1, 0, 3, 0, 1, 0, 2, 0, 1, 0,
  5, 0, 1, 0, 2, 0, 1, 0, 3, 0, 1, 0, 2, 0, 1, 0,
  4, 0, 1, 0, 2, 0, 1, 0, 3, 0, 1, 0, 2, 0, 1, 0,
  6, 0, 1, 0, 2, 0, 1, 0, 3, 0, 1, 0, 2, 0, 1, 0,
  4, 0, 1, 0, 2, 0, 1, 0, 3, 0, 1, 0, 2, 0, 1, 0,
  5, 0, 1, 0, 2, 0, 1, 0, 3, 0, 1, 0, 2, 0, 1, 0,
  4, 0, 1, 0, 2, 0, 1, 0, 3, 0, 1, 0, 2, 0, 1, 0,
  7, 0, 1, 0, 2, 0, 1, 0, 3, 0, 1, 0, 2, 0, 1, 0,
  4, 0, 1, 0, 2, 0, 1, 0, 3, 0, 1, 0, 2, 0, 1, 0,
  5, 0, 1, 0, 2, 0, 1, 0, 3, 0, 1, 0, 2, 0, 1, 0,
  4, 0, 1, 0, 2, 0, 1, 0, 3, 0, 1, 0, 2, 0, 1, 0,
  6, 0, 1, 0, 2, 0, 1, 0, 3, 0, 1, 0, 2, 0, 1, 0,
  4, 0, 1, 0, 2, 0, 1, 0, 3, 0, 1, 0, 2, 0, 1, 0,
  5, 0, 1, 0, 2, 0, 1, 0, 3, 0, 1, 0, 2, 0, 1, 0,
  4, 0, 1, 0, 2, 0, 1, 0, 3, 0, 1, 0, 2, 0, 1, 0]

/-- `OSUnMapTbl[b]` -/
def unMap (b : BitVec 8) : Fin 8 := osUnMapTbl.getD b.toNat 0

/-- The table, entry by entry. -/
private theorem unMap_entry : ∀ i : Fin 256, i ≠ 0 →
    (BitVec.ofNat 8 i).getLsbD (unMap (BitVec.ofNat 8 i)) = true ∧
      ∀ j : Fin 8, j < unMap (BitVec.ofNat 8 i) → (BitVec.ofNat 8 i).getLsbD j = false := by
  decide +kernel

/-- **`OSUnMapTbl` finds the lowest bit of a word.** -/
theorem unMap_isLowest {b : BitVec 8} (h : b ≠ 0#8) : IsLowest b (unMap b) := by
  have hlt : b.toNat < 256 := b.isLt
  have hb : BitVec.ofNat 8 b.toNat = b := by rw [BitVec.ofNat_toNat, BitVec.setWidth_eq]
  have hne : (⟨b.toNat, hlt⟩ : Fin 256) ≠ 0 := by
    intro h0
    apply h
    rw [← hb, show b.toNat = 0 from congrArg Fin.val h0]
  have hentry := unMap_entry ⟨b.toNat, hlt⟩ hne
  simp only [hb] at hentry
  refine ⟨hentry.1, fun j hj => ?_⟩
  exact hentry.2 ⟨j, Nat.lt_trans hj (unMap b).isLt⟩ hj

/-- `OSTCBY` -/
def osTcbY (prio : Prio) : Fin 8 := ⟨prio.val >>> 3, by have := prio.isLt; omega⟩

/-- `OSTCBX` -/
def osTcbX (prio : Prio) : Fin 8 := ⟨prio.val &&& 7, by rw [Nat.and_two_pow_sub_one_eq_mod _ 3]; omega⟩

/-- `(y << 3) + x` -/
def osPrio (y x : Fin 8) : Prio := ⟨(y.val <<< 3) + x.val, by have := y.isLt; have := x.isLt; omega⟩

theorem osTcbY_val (prio : Prio) : (osTcbY prio).val = prio.val / 8 := by
  show prio.val >>> 3 = _
  omega

theorem osTcbX_val (prio : Prio) : (osTcbX prio).val = prio.val % 8 :=
  Nat.and_two_pow_sub_one_eq_mod _ 3

theorem osPrio_val (y x : Fin 8) : (osPrio y x).val = 8 * y.val + x.val := by
  show y.val <<< 3 + x.val = _
  omega

/-- A priority is known by its row and its bit. -/
theorem yx_eq_iff {p q : Prio} :
    (osTcbY p = osTcbY q ∧ (osTcbX p : Nat) = osTcbX q) ↔ p = q := by
  constructor
  · rintro ⟨hy, hx⟩
    have hyv := congrArg Fin.val hy
    rw [osTcbY_val, osTcbY_val] at hyv
    rw [osTcbX_val, osTcbX_val] at hx
    apply Fin.ext
    omega
  · rintro rfl
    exact ⟨rfl, rfl⟩

/-- A list of tasks: `OSRdyGrp` and `OSRdyTbl`, or `OSEventGrp` and `OSEventTbl`. -/
abbrev PrioTbl := BitTable 8 8

namespace PrioTbl

variable {t : PrioTbl} {p q : Prio}

/-- Is the bit of the task set? -/
def has (t : PrioTbl) (prio : Prio) : Bool := t.mem (osTcbY prio) (osTcbX prio)

/-- `Grp |= OSTCBBitY; Tbl[OSTCBY] |= OSTCBBitX` -/
def put (t : PrioTbl) (prio : Prio) : PrioTbl := t.insert (osTcbY prio) (osTcbX prio)

/-- `Tbl[OSTCBY] &= ~OSTCBBitX; if (Tbl[OSTCBY] == 0) Grp &= ~OSTCBBitY` -/
def drop (t : PrioTbl) (prio : Prio) : PrioTbl := t.erase (osTcbY prio) (osTcbX prio)

/-- `y = OSUnMapTbl[Grp]; (y << 3) + OSUnMapTbl[Tbl[y]]` -/
def highest (t : PrioTbl) : Prio := osPrio (unMap t.grp) (unMap (t.tbl (unMap t.grp)))

@[simp] theorem has_empty : has BitTable.empty p = false := by simp [has]

theorem has_put : (t.put q).has p = if p = q then true else t.has p := by
  unfold has put
  rw [BitTable.mem_insert (osTcbX q).isLt]
  simp only [yx_eq_iff]

theorem has_drop : (t.drop q).has p = if p = q then false else t.has p := by
  unfold has drop
  rw [BitTable.mem_erase]
  simp only [yx_eq_iff]

theorem ok_put (h : t.Ok) : (t.put q).Ok := h.insert (osTcbX q).isLt

theorem ok_drop (h : t.Ok) : (t.drop q).Ok := h.erase

/-- The pair of a bit belongs to a priority. -/
theorem mem_eq_has (y x : Fin 8) : t.mem y x = t.has (osPrio y x) := by
  have hy : osTcbY (osPrio y x) = y := by
    apply Fin.ext
    rw [osTcbY_val, osPrio_val]
    have := x.isLt
    omega
  have hx : osTcbX (osPrio y x) = x := by
    apply Fin.ext
    rw [osTcbX_val, osPrio_val]
    have := x.isLt
    omega
  rw [has, hy, hx]

/-- `Grp == 0` -/
theorem grp_eq_zero (h : t.Ok) : t.grp = 0#8 ↔ ∀ p, t.has p = false := by
  rw [h.grp_eq_zero]
  constructor
  · exact fun hmem p => hmem _ _
  · intro hhas y x
    by_cases hx : x < 8
    · rw [show t.mem y x = _ from mem_eq_has y ⟨x, hx⟩]
      exact hhas _
    · exact BitVec.getLsbD_of_ge _ _ (Nat.le_of_not_lt hx)

/-- **The task found is in the list, and none of higher priority is.** -/
theorem highest_spec (h : t.Ok) (hne : t.grp ≠ 0#8) :
    t.has t.highest = true ∧ ∀ p < t.highest, t.has p = false := by
  have hy := unMap_isLowest hne
  have hx := unMap_isLowest ((h (unMap t.grp)).mp hy.set)
  obtain ⟨hmem, hbelow⟩ := h.first hy hx
  refine ⟨by rw [highest, ← mem_eq_has]; exact hmem, fun p hp => ?_⟩
  apply hbelow
  have hlt : p.val < (osPrio _ _).val := hp
  rw [osPrio_val] at hlt
  rw [Fin.lt_def, Fin.ext_iff, osTcbY_val, osTcbX_val]
  omega

end PrioTbl

/-- `hpt` is the smallest priority of a list. -/
theorem hpt_eq_some_iff {tbl : Prio → Bool} {p : Prio} :
    hpt tbl = some p ↔ tbl p = true ∧ ∀ q < p, tbl q = false := by
  unfold hpt
  rw [List.find?_eq_some_iff_getElem]
  refine and_congr_right fun _ => ?_
  constructor
  · rintro ⟨i, hi, rfl, hbelow⟩ q hq
    have hqi : q.val < i := by simpa [Fin.lt_def] using hq
    simpa using hbelow q.val hqi
  · intro hbelow
    refine ⟨p.val, by simp, by simp, fun j hj => ?_⟩
    simpa using hbelow ⟨j, Nat.lt_trans hj p.isLt⟩ hj

/-- **The lookup in the bit table is the first task of the list.** -/
theorem hpt_has {t : PrioTbl} (h : t.Ok) :
    hpt t.has = if t.grp = 0#8 then none else some t.highest := by
  by_cases hg : t.grp = 0#8
  · rw [if_pos hg, hpt_eq_none]
    exact (PrioTbl.grp_eq_zero h).mp hg
  · rw [if_neg hg, hpt_eq_some_iff]
    exact PrioTbl.highest_spec h hg

end PlcFirmware.Ucos
