import PlcFirmware.Usmart.Arguments
import PlcFirmware.Usmart.Scan
import PlcFirmware.Usmart.Stored

/-!
# The table of lengths and the argument area

`usmart_get_fparam` notes the length of each argument in `plentbl`, which has `MAX_PARM` places, and
packs the arguments into `parm`, which has `PARM_LEN` bytes. It tests the number of arguments behind
each store, and the bytes not at all.

The arguments are those which `usmart_get_aparm` finds, in the line and behind it where a string is open
at its end. An argument from there may be too long for `tstr`; nothing is known behind a write outside of
it, and such a line counts as a failure.

* `tableKept_iff` — the lines for which the table is kept
* `argRanges_iff` — the lines whose arguments have room in `parm`
-/

namespace PlcFirmware.Usmart

open Infra

/-! ## The bytes of the arguments -/

/-- The characters copied of the argument which is being read. -/
def ArgState.copied : ArgState → List UInt8
  | .number ds => ds
  | .comma ds => ds
  | .string s => s
  | .escaped s => s
  | .closed s => s

/-- The bytes which the values take. -/
def storedSize (vs : List Value) : Nat := (vs.flatMap Value.stored).length

@[simp] theorem storedSize_nil : storedSize [] = 0 := rfl

@[simp] theorem storedSize_cons (v : Value) (vs : List Value) :
    storedSize (v :: vs) = v.stored.length + storedSize vs := by
  rw [storedSize, List.flatMap_cons, List.length_append]
  rfl

/-- Values in `n` characters of text: a number takes up to three bytes more than it has characters. -/
def ArgsRead.Within (n : Nat) (r : ArgsRead) : Prop :=
  storedSize r.values ≤ n + 3 * r.values.length

theorem Within.mono {n m : Nat} {r : ArgsRead} (h : r.Within n) (hle : n ≤ m) : r.Within m :=
  Nat.le_trans h (Nat.add_le_add_right hle _)

theorem within_nil (n : Nat) (e : ArgsEnd) : ArgsRead.Within n ⟨[], e⟩ := Nat.zero_le _

theorem within_cons_text {n : Nat} {s : List UInt8} {r : ArgsRead} (h : r.Within n) :
    (r.cons (.text s)).Within (s.length + n) := by
  unfold ArgsRead.Within at h ⊢
  simp only [ArgsRead.cons, storedSize_cons, List.length_cons, Value.stored, List.length_append,
    List.length_nil]
  omega

theorem within_consNumber {n : Nat} {ds : List UInt8} {r : ArgsRead} (h : r.Within n) :
    (ArgsRead.consNumber ds r).Within (ds.length + n) := by
  rw [ArgsRead.consNumber]
  split
  · exact Within.mono h (by omega)
  · next hne =>
    have hpos := List.length_pos_iff.mpr hne
    split
    · next v _ =>
      have hnum : (Value.num v).stored.length = 4 := rfl
      unfold ArgsRead.Within at h ⊢
      simp only [ArgsRead.cons, storedSize_cons, List.length_cons, hnum]
      omega
    · exact within_nil _ _

/-- Each argument is read from characters of its own. -/
theorem readArgs_within (str : List UInt8) : ∀ st : ArgState,
    (readArgs st str).Within (st.copied.length + str.length) := by
  induction str with
  | nil =>
    intro st
    cases st with
    | number ds => exact within_consNumber (within_nil _ _)
    | comma ds => exact within_consNumber (within_nil _ _)
    | string s => exact within_nil _ _
    | escaped s => exact within_nil _ _
    | closed s => exact within_cons_text (within_nil 0 .complete)
  | cons c str ih =>
    intro st
    have hend : ∀ ds, (ArgsRead.consNumber ds ⟨[], .complete⟩).Within (ds.length + (c :: str).length) :=
      fun ds => within_consNumber (within_nil _ _)
    cases st with
    | number ds =>
      rw [readArgs]
      split_ifs
      · exact hend ds
      · exact Within.mono (ih _) (by simp [ArgState.copied]; omega)
      · exact Within.mono (ih _) (by simp [ArgState.copied])
      · exact Within.mono (ih _) (by simp [ArgState.copied])
      · exact Within.mono (ih _) (by simp [ArgState.copied])
      · exact within_nil _ _
    | comma ds =>
      rw [readArgs]
      split_ifs
      · exact hend ds
      · exact within_consNumber (Within.mono (ih _) (by simp [ArgState.copied]; omega))
      · exact within_consNumber (Within.mono (ih _) (by simp [ArgState.copied]))
      · exact Within.mono (ih _) (by simp [ArgState.copied])
      · exact within_nil _ _
    | string s =>
      rw [readArgs]
      split_ifs
      · exact Within.mono (ih _) (by simp [ArgState.copied])
      · exact Within.mono (ih _) (by simp [ArgState.copied])
      · exact Within.mono (ih _) (by simp [ArgState.copied]; omega)
    | escaped s =>
      rw [readArgs]
      exact Within.mono (ih _) (by simp [ArgState.copied]; omega)
    | closed s =>
      rw [readArgs]
      split_ifs
      · exact Within.mono (within_cons_text (within_nil 0 .complete)) (by simp [ArgState.copied])
      · exact within_cons_text (Within.mono (ih _) (by simp [ArgState.copied]))
      · exact Within.mono (ih _) (by simp [ArgState.copied])

/-- Ten arguments of a line which is not left take less than 256 bytes. -/
theorem memArgs_small (line : Line) (behind : List UInt8)
    (hstays : (lineArgs line.text).ending ≠ .overread)
    (hfew : (memArgs line.text behind).values.length ≤ maxParm) :
    storedSize (memArgs line.text behind).values < 256 := by
  have hfits := line.fits
  unfold usartRecLen at hfits
  rw [memArgs_line (by omega) line.nul (.inr hstays)] at hfew ⊢
  unfold maxParm at hfew
  rw [lineArgs] at hfew ⊢
  cases h : behindParen line.text with
  | none => exact Nat.zero_lt_of_lt (Nat.lt_add_one 255)
  | some text =>
    have hlt := behindParen_length_lt h
    have hwithin := readArgs_within text (.number [])
    rw [ArgsRead.Within] at hwithin
    rw [h] at hfew
    simp only [ArgState.copied, List.length_nil] at hfew hwithin ⊢
    omega

theorem putAll_packed (vs : List Value) : ∀ (ws : List Value) (d : UsmartDev),
    d.Packed ws → ws.length + vs.length ≤ maxParm → storedSize (ws ++ vs) < 256 →
    (d.putAll ws.length vs).Packed (ws ++ vs) ∧ (d.putAll ws.length vs).id = d.id := by
  induction vs with
  | nil =>
    intro ws d hs _ _
    rw [List.append_nil]
    exact ⟨hs, rfl⟩
  | cons v vs ih =>
    intro ws d hs hfew hsmall
    have happend : ws ++ v :: vs = (ws ++ [v]) ++ vs := by simp
    rw [happend] at hsmall ⊢
    rw [List.length_cons] at hfew
    have hput := hs.put v (by omega) (by
      rw [storedSize, List.flatMap_append, List.length_append] at hsmall
      omega)
    have hrest := ih (ws ++ [v]) _ hput (by rw [List.length_append, List.length_singleton]; omega)
      hsmall
    rw [List.length_append, List.length_singleton] at hrest
    exact hrest

theorem storedSize_append (vs ws : List Value) :
    storedSize (vs ++ ws) = storedSize vs + storedSize ws := by
  rw [storedSize, List.flatMap_append, List.length_append]
  rfl

/-- Values whose sizes do not wrap around are packed from the start. -/
theorem putAll_clearLens_packed (d : UsmartDev) {vs : List Value} (hfew : vs.length ≤ maxParm)
    (hsmall : storedSize vs < 256) : (d.clearLens.putAll 0 vs).Packed vs := by
  have hpacked := putAll_packed vs [] d.clearLens (.nil _) (by rwa [List.length_nil, Nat.zero_add])
    (by rwa [List.nil_append])
  rw [List.nil_append] at hpacked
  exact hpacked.1

theorem putAll_id (vs : List Value) : ∀ (n : Nat) (d : UsmartDev), (d.putAll n vs).id = d.id := by
  induction vs with
  | nil => intro n d; rfl
  | cons v vs ih => intro n d; exact ih (n + 1) _

/-- At most ten arguments are all stored, and then the function ends as the reading does. -/
theorem usmartGetFparam_few {line behind : List UInt8}
    (hfew : (memArgs line behind).values.length ≤ maxParm) (d : UsmartDev) :
    usmartGetFparam line behind d
      = (memArgs line behind).ending.outcome (memArgs line behind).values.length
          (d.clearLens.putAll 0 (memArgs line behind).values) := by
  rw [usmartGetFparam_eq, storeArgs_of_le _ _ _ _ (by rwa [Nat.zero_add]), Nat.zero_add]

/-- The eleventh argument is stored too, and then the function gives up. -/
theorem usmartGetFparam_many {line behind : List UInt8}
    (hmany : maxParm < (memArgs line behind).values.length) (d : UsmartDev) :
    ∃ d', usmartGetFparam line behind d = .ret .parmOver (maxParm + 1) d' := by
  rw [usmartGetFparam_eq]
  exact storeArgs_of_gt _ _ _ _ (Nat.zero_le _) (by rwa [Nat.zero_add])

/-- What a call which returns has stored, if there are at most ten arguments. -/
structure Parsed (line behind : List UInt8) (d : UsmartDev) (sta : Status) (parn : Nat)
    (d' : UsmartDev) : Prop where
  count : parn = (memArgs line behind).values.length
  dev : d' = d.clearLens.putAll 0 (memArgs line behind).values
  notOver : sta ≠ .parmOver
  complete : sta = .ok → (memArgs line behind).ending = .complete

theorem parsed_of_few {line behind : List UInt8} {d : UsmartDev} {sta : Status} {parn : Nat}
    {d' : UsmartDev} (hfew : (memArgs line behind).values.length ≤ maxParm)
    (h : usmartGetFparam line behind d = .ret sta parn d') : Parsed line behind d sta parn d' := by
  rw [usmartGetFparam_few hfew] at h
  cases hend : (memArgs line behind).ending with
  | complete =>
    rw [hend] at h
    cases h
    exact ⟨rfl, rfl, Status.noConfusion, fun _ => hend⟩
  | malformed =>
    rw [hend] at h
    cases h
    exact ⟨rfl, rfl, Status.noConfusion, Status.noConfusion⟩
  | noParen =>
    rw [hend] at h
    cases h
    exact ⟨rfl, rfl, Status.noConfusion, Status.noConfusion⟩
  | overread => rw [hend] at h; cases h
  | overwrite => rw [hend] at h; cases h
  | endless => rw [hend] at h; cases h

/-- `tstr` is left if and only if an argument which is too long comes before the eleventh. -/
theorem usmartGetFparam_overwrite_iff (line behind : List UInt8) (d : UsmartDev) :
    usmartGetFparam line behind d = .overwrite ↔
      (memArgs line behind).values.length ≤ maxParm ∧ (memArgs line behind).ending = .overwrite := by
  by_cases hfew : (memArgs line behind).values.length ≤ maxParm
  · rw [usmartGetFparam_few hfew, and_iff_right hfew]
    cases (memArgs line behind).ending <;> simp [ArgsEnd.outcome]
  · obtain ⟨d', h⟩ := usmartGetFparam_many (Nat.lt_of_not_le hfew) d
    rw [h]
    exact iff_of_false Outcome.noConfusion fun h => hfew h.1

/-! ## The table of lengths -/

/-- The places of `plentbl` which `usmart_get_fparam` writes. -/
def usmartGetFparamPlaces (str behind : List UInt8) (d : UsmartDev) : List Nat :=
  List.range maxParm ++ (usmartGetFparamStores str behind d).map ArgStore.n

theorem mem_storesOf_n {k : Nat} (vs : List Value) : ∀ (n : Nat) (d : UsmartDev), n ≤ maxParm →
    (k ∈ (d.storesOf n vs).map ArgStore.n ↔ n ≤ k ∧ k < n + vs.length ∧ k ≤ maxParm) := by
  induction vs with
  | nil =>
    intro n d _
    simp only [UsmartDev.storesOf, List.map_nil, List.not_mem_nil, List.length_nil, false_iff]
    omega
  | cons v vs ih =>
    intro n d hn
    rw [UsmartDev.storesOf, List.map_cons, List.mem_cons, List.length_cons]
    dsimp only
    split
    · simp only [List.map_nil, List.not_mem_nil, or_false]
      omega
    · rw [ih (n + 1) _ (by omega)]
      omega

/-- Place 10, which is behind the table, is written if and only if there are more than ten. -/
theorem usmartGetFparamPlaces_inside_iff (line behind : List UInt8) (d : UsmartDev) :
    (∀ n ∈ usmartGetFparamPlaces line behind d, n < maxParm) ↔
      (memArgs line behind).values.length ≤ maxParm := by
  have hplaces : ∀ n, n ∈ usmartGetFparamPlaces line behind d ↔
      n < maxParm ∨ n < (memArgs line behind).values.length ∧ n ≤ maxParm := by
    intro n
    rw [usmartGetFparamPlaces, List.mem_append, List.mem_range, usmartGetFparamStores_eq,
      mem_storesOf_n _ 0 _ (Nat.zero_le _)]
    omega
  constructor
  · intro h
    refine Nat.le_of_not_lt fun hmany => ?_
    exact absurd (h maxParm ((hplaces maxParm).mpr (.inr ⟨hmany, Nat.le_refl _⟩))) (Nat.lt_irrefl _)
  · intro hfew n hn
    obtain hlt | ⟨hlt, _⟩ := (hplaces n).mp hn
    · exact hlt
    · exact Nat.lt_of_lt_of_le hlt hfew

/-- The table is kept: it is not left, nor is `tstr`, a line is refused for its number of arguments if
and only if they are more than ten and can all be read, and then the first ten are stored. -/
structure TableKept (line : Line) (behind : List UInt8) (d : UsmartDev) : Prop where
  inside : ∀ n ∈ usmartGetFparamPlaces line.text behind d, n < maxParm
  tstr : usmartGetFparam line.text behind d ≠ .overwrite
  tooMany : (∃ parn d', usmartGetFparam line.text behind d = .ret .parmOver parn d') ↔
    (memArgs line.text behind).ending = .complete ∧
      maxParm < (memArgs line.text behind).values.length
  first : ∀ parn d', usmartGetFparam line.text behind d = .ret .parmOver parn d' →
    ∀ (i : Nat) (h : i < (memArgs line.text behind).values.length), i < maxParm →
      (d'.mem i).toNat = (memArgs line.text behind).values[i].stored.length ∧
        HoldsAt d'.mem (d'.parmAt i) (memArgs line.text behind).values[i].stored

/-- **The table of lengths is kept if and only if there are at most ten arguments and none is too long
for `tstr`.** -/
theorem tableKept_iff (line : Line) (behind : List UInt8) (d : UsmartDev) :
    TableKept line behind d ↔ (memArgs line.text behind).values.length ≤ maxParm ∧
      (memArgs line.text behind).ending ≠ .overwrite := by
  constructor
  · intro h
    have hfew := (usmartGetFparamPlaces_inside_iff _ _ _).mp h.inside
    exact ⟨hfew, fun hover => h.tstr ((usmartGetFparam_overwrite_iff _ _ _).mpr ⟨hfew, hover⟩)⟩
  · rintro ⟨hfew, hlong⟩
    have hnever : ∀ parn d', usmartGetFparam line.text behind d ≠ .ret .parmOver parn d' :=
      fun parn d' h => (parsed_of_few hfew h).notOver rfl
    refine ⟨(usmartGetFparamPlaces_inside_iff _ _ _).mpr hfew,
      fun h => hlong ((usmartGetFparam_overwrite_iff _ _ _).mp h).2, ⟨?_, ?_⟩, ?_⟩
    · rintro ⟨parn, d', h⟩
      exact absurd h (hnever parn d')
    · rintro ⟨_, hmany⟩
      exact absurd hfew (Nat.not_le_of_lt hmany)
    · intro parn d' h
      exact absurd h (hnever parn d')

/-- Eleven arguments. The length of the last one is written to the first byte of `parm`. -/
def elevenArgs : Line := ⟨bytes "f(1,1,1,1,1,1,1,1,1,1,1)", by decide, by decide⟩

theorem elevenArgs_leaves_table : maxParm ∈ usmartGetFparamPlaces elevenArgs.text [] .start ∧
    ¬TableKept elevenArgs [] .start := by
  have hten : maxParm ∈ usmartGetFparamPlaces elevenArgs.text [] .start := by decide +kernel
  exact ⟨hten, fun h => absurd (h.inside maxParm hten) (Nat.lt_irrefl _)⟩

/-! ## The ranges of the arguments -/

/--
The ranges of the arguments which are stored lie one behind the other in `parm`. Where the function
returns, they are the ranges which the table gives, and where it succeeds, they hold the arguments.
-/
structure ArgRanges (line : Line) (behind : List UInt8) (d : UsmartDev) : Prop where
  tstr : usmartGetFparam line.text behind d ≠ .overwrite
  ordered : (usmartGetFparamStores line.text behind d).Pairwise fun s t => s.pos + s.bs.length ≤ t.pos
  inside : ∀ s ∈ usmartGetFparamStores line.text behind d, s.pos + s.bs.length ≤ parmLen
  table : ∀ sta parn d', usmartGetFparam line.text behind d = .ret sta parn d' →
    parn = (usmartGetFparamStores line.text behind d).length ∧
      ∀ (i : Nat) (h : i < (usmartGetFparamStores line.text behind d).length),
        (d'.parmpos i).toNat = (usmartGetFparamStores line.text behind d)[i].pos ∧
          (d'.mem i).toNat = (usmartGetFparamStores line.text behind d)[i].bs.length
  holds : ∀ parn d', usmartGetFparam line.text behind d = .ret .ok parn d' →
    parn = (memArgs line.text behind).values.length ∧
      ∀ (i : Nat) (h : i < (memArgs line.text behind).values.length),
        (d'.mem i).toNat = (memArgs line.text behind).values[i].stored.length ∧
          HoldsAt d'.mem (d'.parmAt i) (memArgs line.text behind).values[i].stored

theorem storedSize_take_mono (vs : List Value) {n m : Nat} (h : n ≤ m) :
    storedSize (vs.take n) ≤ storedSize (vs.take m) := by
  have htake : vs.take n = (vs.take m).take n := by rw [List.take_take, Nat.min_eq_left h]
  rw [htake]
  exact UsmartDev.Packed.length_take_le _ _

/-- The place of the next argument. -/
theorem UsmartDev.Packed.parmpos_next {d : UsmartDev} {vs : List Value} (hs : d.Packed vs) :
    (d.parmpos vs.length).toNat = storedSize vs := by
  rw [hs.parmpos_toNat _ (Nat.le_refl _), List.take_length]
  rfl

/-- Values whose sizes do not wrap around are stored at their sums. -/
theorem storesOf_packed (vs : List Value) : ∀ (ws : List Value) (d : UsmartDev), d.Packed ws →
    ws.length + vs.length ≤ maxParm → storedSize (ws ++ vs) < 256 →
    d.storesOf ws.length vs
      = vs.mapIdx fun i v => ⟨ws.length + i, storedSize (ws ++ vs.take i), v.stored⟩ := by
  induction vs with
  | nil => intro ws d _ _ _; rfl
  | cons v vs ih =>
    intro ws d hs hfew hsmall
    have happend : ∀ us : List Value, ws ++ v :: us = (ws ++ [v]) ++ us := by simp
    have hlen : (ws ++ [v]).length = ws.length + 1 := List.length_append
    rw [List.length_cons] at hfew
    rw [happend] at hsmall
    have hput := hs.put v (by omega) (by
      rw [storedSize_append] at hsmall
      exact Nat.lt_of_le_of_lt (Nat.le_add_right _ _) hsmall)
    have hrest := ih (ws ++ [v]) _ hput (by omega) hsmall
    rw [hlen] at hrest
    rw [UsmartDev.storesOf, if_neg (by omega), hrest, hs.parmpos_next, List.mapIdx_cons,
      List.take_zero, List.append_nil, Nat.add_zero]
    refine congrArg _ (congrArg (fun f => List.mapIdx f vs) (funext fun i => funext fun w => ?_))
    rw [List.take_succ_cons, happend (vs.take i), Nat.add_assoc, Nat.add_comm 1 i]

/-- The first argument behind which the sum is too large is already outside. -/
theorem storesOf_inside_iff (vs : List Value) : ∀ (ws : List Value) (d : UsmartDev), d.Packed ws →
    ws.length + vs.length ≤ maxParm → storedSize ws ≤ parmLen →
    ((∀ s ∈ d.storesOf ws.length vs, s.pos + s.bs.length ≤ parmLen) ↔
      storedSize (ws ++ vs) ≤ parmLen) := by
  induction vs with
  | nil =>
    intro ws d _ _ hsize
    rw [List.append_nil]
    exact iff_of_true (fun _ h => absurd h List.not_mem_nil) hsize
  | cons v vs ih =>
    intro ws d hs hfew hsize
    have happend : ws ++ v :: vs = (ws ++ [v]) ++ vs := by simp
    have hlen : (ws ++ [v]).length = ws.length + 1 := List.length_append
    have hsum : storedSize (ws ++ [v]) = storedSize ws + v.stored.length := by
      rw [storedSize_append, storedSize_cons, storedSize_nil, Nat.add_zero]
    rw [List.length_cons] at hfew
    rw [UsmartDev.storesOf, if_neg (by omega), List.forall_mem_cons, hs.parmpos_next, ← hsum, happend]
    constructor
    · rintro ⟨hfirst, hrest⟩
      have hput := hs.put v (by omega) (Nat.lt_of_le_of_lt hfirst (by decide))
      have hiff := ih (ws ++ [v]) _ hput (by omega) hfirst
      rw [hlen] at hiff
      exact hiff.mp hrest
    · intro htotal
      have hfirst : storedSize (ws ++ [v]) ≤ parmLen := by
        rw [storedSize_append] at htotal
        exact Nat.le_trans (Nat.le_add_right _ _) htotal
      have hput := hs.put v (by omega) (Nat.lt_of_le_of_lt hfirst (by decide))
      have hiff := ih (ws ++ [v]) _ hput (by omega) hfirst
      rw [hlen] at hiff
      exact ⟨hfirst, hiff.mpr htotal⟩

/-- The arguments are written inside of `parm` if and only if their bytes fit there. -/
theorem stores_inside_iff {line behind : List UInt8} (d : UsmartDev)
    (hfew : (memArgs line behind).values.length ≤ maxParm) :
    (∀ s ∈ usmartGetFparamStores line behind d, s.pos + s.bs.length ≤ parmLen) ↔
      storedSize (memArgs line behind).values ≤ parmLen := by
  rw [usmartGetFparamStores_eq]
  exact storesOf_inside_iff _ [] d.clearLens (.nil _) (by rwa [List.length_nil, Nat.zero_add])
    (Nat.zero_le _)

theorem stores_packed {line behind : List UInt8} (d : UsmartDev)
    (hfew : (memArgs line behind).values.length ≤ maxParm)
    (hsmall : storedSize (memArgs line behind).values < 256) :
    usmartGetFparamStores line behind d = (memArgs line behind).values.mapIdx
      fun i v => ⟨i, storedSize ((memArgs line behind).values.take i), v.stored⟩ := by
  have hpacked := storesOf_packed (memArgs line behind).values [] d.clearLens (.nil _)
    (by rwa [List.length_nil, Nat.zero_add]) hsmall
  rw [usmartGetFparamStores_eq]
  simpa only [List.length_nil, Nat.zero_add, List.nil_append] using hpacked

/-- **At most ten arguments have their ranges in `parm` if and only if their bytes fit there and none is
too long for `tstr`.** -/
theorem argRanges_iff (line : Line) (behind : List UInt8) (d : UsmartDev)
    (hfew : (memArgs line.text behind).values.length ≤ maxParm) :
    ArgRanges line behind d ↔ storedSize (memArgs line.text behind).values ≤ parmLen ∧
      (memArgs line.text behind).ending ≠ .overwrite := by
  constructor
  · intro h
    exact ⟨(stores_inside_iff d hfew).mp h.inside,
      fun hover => h.tstr ((usmartGetFparam_overwrite_iff _ _ _).mpr ⟨hfew, hover⟩)⟩
  · rintro ⟨hsize, hlong⟩
    have hsmall : storedSize (memArgs line.text behind).values < 256 :=
      Nat.lt_of_le_of_lt hsize (by decide)
    have hstores := stores_packed d hfew hsmall
    have hpacked := putAll_clearLens_packed d hfew hsmall
    refine ⟨fun h => hlong ((usmartGetFparam_overwrite_iff _ _ _).mp h).2, ?_,
      (stores_inside_iff d hfew).mpr hsize, fun sta parn d' hret => ?_, fun parn d' hret => ?_⟩
    · rw [hstores]
      refine List.pairwise_iff_getElem.mpr fun i j hi hj hij => ?_
      rw [List.length_mapIdx] at hi
      rw [List.getElem_mapIdx, List.getElem_mapIdx]
      simp only
      rw [storedSize, ← UsmartDev.Packed.length_take_succ _ hi]
      exact storedSize_take_mono _ hij
    · have hparsed := parsed_of_few hfew hret
      rw [hparsed.dev]
      simp only [hstores, List.length_mapIdx, List.getElem_mapIdx]
      exact ⟨hparsed.count, fun i hi =>
        ⟨hpacked.parmpos_toNat i (Nat.le_of_lt hi), hpacked.lens i hi⟩⟩
    · have hparsed := parsed_of_few hfew hret
      rw [hparsed.dev]
      exact ⟨hparsed.count, fun i hi => ⟨hpacked.lens i hi, hpacked.holdsAt i hi⟩⟩

/-- A string and nine numbers in a line of 199 characters. They take 207 bytes. -/
def longString : Line :=
  ⟨bytes "led_out(\"" ++ List.replicate 170 (ch 'a') ++ bytes "\",1,1,1,1,1,1,1,1,1)", by decide +kernel,
    by decide +kernel⟩

/-- One number. -/
def ledOutOne : Line := ⟨bytes "led_out(1)", by decide, by decide⟩

theorem argRanges_iff_longString :
    (ArgRanges longString [] .start ↔ storedSize (memArgs longString.text []).values ≤ parmLen ∧
      (memArgs longString.text []).ending ≠ .overwrite) ∧
    (ArgRanges ledOutOne [] .start ↔ storedSize (memArgs ledOutOne.text []).values ≤ parmLen ∧
      (memArgs ledOutOne.text []).ending ≠ .overwrite) :=
  ⟨argRanges_iff longString [] .start (by decide +kernel),
    argRanges_iff ledOutOne [] .start (by decide +kernel)⟩

theorem longString_leaves_parm : (memArgs longString.text []).values.length ≤ maxParm ∧
    ¬ArgRanges longString [] .start := by
  have hfew : (memArgs longString.text []).values.length ≤ maxParm := by decide +kernel
  have hsize : storedSize (memArgs longString.text []).values = 207 := by decide +kernel
  refine ⟨hfew, fun h => ?_⟩
  have hinside := (stores_inside_iff .start hfew).mp h.inside
  rw [hsize] at hinside
  exact absurd hinside (by decide)

end PlcFirmware.Usmart
