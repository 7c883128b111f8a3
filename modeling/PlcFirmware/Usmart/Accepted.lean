import PlcFirmware.Usmart.ParmTable
import PlcFirmware.Usmart.RoundTrip

/-!
# The lines which `usmart_cmd_rec` accepts

An accepted line names a registered function and has been read to the end of its arguments, which are at
most ten and have all been stored. `usmart_exe` fills `temp` for the parameters of the prototype and
passes as many elements as arguments have been stored.

* `passesStored_iff` — the lines with which only stored arguments are passed
-/

namespace PlcFirmware.Usmart

/-! ## The function of the line -/

/-- Entry `id` of the table is the first one with this name. -/
structure Matches (funs : List (List UInt8)) (name : List UInt8) (id : Nat) (f : List UInt8) :
    Prop where
  entry : funs[id]? = some f
  res : (usmartGetFname f).res = .ok
  fname : (usmartGetFname f).fname = name
  before : ∀ g ∈ funs.take id, (usmartGetFname g).res = .ok ∧ (usmartGetFname g).fname ≠ name

theorem Matches.succ {funs : List (List UInt8)} {name f g : List UInt8} {id : Nat}
    (hres : (usmartGetFname g).res = .ok) (hname : (usmartGetFname g).fname ≠ name)
    (h : Matches funs name id f) : Matches (g :: funs) name (id + 1) f where
  entry := h.entry
  res := h.res
  fname := h.fname
  before := by
    intro x hx
    rw [List.take_succ_cons] at hx
    obtain rfl | hx := List.mem_cons.mp hx
    · exact ⟨hres, hname⟩
    · exact h.before x hx

/-- The function which is found has the name, and no more parameters than have been counted. -/
theorem matches_of_findFunction {r : Fname} (funs : List (List UInt8)) : ∀ {i id : Nat},
    findFunction r i funs = .ok id →
    ∃ k f, id = i + k ∧ Matches funs r.fname k f ∧ (usmartGetFname f).pnum ≤ r.pnum := by
  induction funs with
  | nil => intro i id h; cases h
  | cons g funs ih =>
    intro i id h
    rw [findFunction] at h
    split_ifs at h with hres hname hpnum
    · cases h
      rw [ne_eq, Decidable.not_not] at hres
      exact ⟨0, g, rfl, ⟨rfl, hres, hname, fun _ hx => absurd hx List.not_mem_nil⟩,
        Nat.le_of_not_lt hpnum⟩
    · rw [ne_eq, Decidable.not_not] at hres
      obtain ⟨k, f, rfl, hmatch, hle⟩ := ih h
      exact ⟨k + 1, f, by omega, hmatch.succ hres hname, hle⟩

theorem findFunction_ok_iff {r : Fname} {funs : List (List UInt8)} {id : Nat} :
    findFunction r 0 funs = .ok id ↔
      ∃ f, Matches funs r.fname id f ∧ (usmartGetFname f).pnum ≤ r.pnum := by
  constructor
  · intro h
    obtain ⟨k, f, rfl, hmatch, hle⟩ := matches_of_findFunction funs h
    rw [Nat.zero_add]
    exact ⟨f, hmatch, hle⟩
  · rintro ⟨f, hmatch, hle⟩
    rw [findFunction_eq hmatch.res hmatch.fname funs id 0 hmatch.entry hmatch.before,
      if_neg (Nat.not_lt_of_le hle), Nat.zero_add]

theorem Registered.matches {funs : List (List UInt8)} {id : Nat} {name : List UInt8} {k : Nat}
    (h : Registered funs id name k) :
    ∃ f, Matches funs name id f ∧ (usmartGetFname f).pnum = k := by
  obtain ⟨f, hentry, hres, hname, hpnum⟩ := h.proto
  exact ⟨f, ⟨hentry, hres, hname, h.before⟩, hpnum⟩

theorem findFunction_registered {funs : List (List UInt8)} {id : Nat} {name : List UInt8} {k : Nat}
    (h : Registered funs id name k) {r : Fname} (hname : r.fname = name) (hle : k ≤ r.pnum) :
    findFunction r 0 funs = .ok id := by
  obtain ⟨f, hmatch, rfl⟩ := h.matches
  exact findFunction_ok_iff.mpr ⟨f, hname ▸ hmatch, hle⟩

theorem findFunction_error {r : Fname} {sta : Status} (funs : List (List UInt8)) : ∀ {i : Nat},
    findFunction r i funs = .error sta → sta ≠ .ok := by
  induction funs with
  | nil => intro i h; cases h; exact Status.noConfusion
  | cons g funs ih =>
    intro i h
    rw [findFunction] at h
    split_ifs at h with hres
    · cases h; exact hres
    · cases h; exact Status.noConfusion
    · exact ih h

/-! ## The accepted lines -/

/-- `usmart_get_fname` takes the line, and its function is found: `usmart_get_fparam` is called. -/
structure Selected (funs : List (List UInt8)) (line : Line) (id : Nat) : Prop where
  scanned : (usmartGetFname line.text).res = .ok
  found : findFunction (usmartGetFname line.text) 0 funs = .ok id

/-- What `usmart_cmd_rec` has found in a line which it accepts, and what it leaves. The arguments are
where they should be as long as the sums of their lengths do not wrap around. -/
structure Accepted (funs : List (List UInt8)) (line : Line) (behind : List UInt8) (d : UsmartDev) :
    Prop where
  selected : Selected funs line d.id
  complete : (memArgs line.text behind).ending = .complete
  few : (memArgs line.text behind).values.length ≤ maxParm
  pnum : d.pnum = (memArgs line.text behind).values.length
  packed : storedSize (memArgs line.text behind).values < 256 →
    d.Packed (memArgs line.text behind).values

theorem UsmartDev.Packed.setPnum {d : UsmartDev} {vs : List Value} (hs : d.Packed vs) (n : Nat) :
    UsmartDev.Packed { d with pnum := n } vs :=
  ⟨hs.few, hs.small, hs.types, hs.lens, hs.parm⟩

variable {funs : List (List UInt8)} {line : Line} {behind : List UInt8}

theorem Selected.cmdRec {id : Nat} (h : Selected funs line id) (d : UsmartDev) :
    usmartCmdRec funs line.text behind d
      = match usmartGetFparam line.text behind { d with id := id } with
        | .ret .ok parn d => .ret .ok parn { d with pnum := parn }
        | out => out := by
  cases hread : usmartGetFparam line.text behind { d with id := id } with
  | ret sta parn d' => cases sta <;> simp [usmartCmdRec, h.scanned, h.found, hread]
  | overread => simp [usmartCmdRec, h.scanned, h.found, hread]
  | overwrite => simp [usmartCmdRec, h.scanned, h.found, hread]
  | outOfFuel => simp [usmartCmdRec, h.scanned, h.found, hread]

/-- A line without a function is refused. -/
theorem cmdRec_refused (behind : List UInt8) (h : ∀ id, ¬Selected funs line id) (d : UsmartDev) :
    ∃ sta, sta ≠ .ok ∧ usmartCmdRec funs line.text behind d = .ret sta 0 d := by
  by_cases hres : (usmartGetFname line.text).res = .ok
  · cases hfind : findFunction (usmartGetFname line.text) 0 funs with
    | ok id => exact absurd ⟨hres, hfind⟩ (h id)
    | error sta =>
      refine ⟨sta, findFunction_error funs hfind, ?_⟩
      rw [usmartCmdRec, if_neg (not_not_intro hres), hfind]
  · exact ⟨_, hres, by rw [usmartCmdRec, if_pos hres]⟩

theorem accepted_of_ok {d d' : UsmartDev} {parn : Nat}
    (h : usmartCmdRec funs line.text behind d = .ret .ok parn d') :
    Accepted funs line behind d' ∧ parn = (memArgs line.text behind).values.length := by
  by_cases hsel : ∃ id, Selected funs line id
  · obtain ⟨id, hsel⟩ := hsel
    rw [hsel.cmdRec] at h
    have hfew : (memArgs line.text behind).values.length ≤ maxParm := by
      refine Nat.le_of_not_lt fun hmany => ?_
      obtain ⟨e, hover⟩ := usmartGetFparam_many hmany { d with id := id }
      rw [hover] at h
      cases h
    cases hparam : usmartGetFparam line.text behind { d with id := id } with
    | overread => rw [hparam] at h; cases h
    | overwrite => rw [hparam] at h; cases h
    | outOfFuel => rw [hparam] at h; cases h
    | ret sta n e =>
      have hparsed := parsed_of_few hfew hparam
      rw [hparam] at h
      cases sta with
      | ok =>
        cases h
        have hid : e.id = id := by rw [hparsed.dev, putAll_id]; rfl
        refine ⟨⟨?_, hparsed.complete rfl, hfew, hparsed.count, fun hsmall => ?_⟩, hparsed.count⟩
        · exact hid.symm ▸ hsel
        · rw [hparsed.dev]
          exact (putAll_clearLens_packed _ hfew hsmall).setPnum _
      | funcErr => cases h
      | parmErr => cases h
      | parmOver => cases h
      | noFuncFind => cases h
  · obtain ⟨sta, hsta, hret⟩ := cmdRec_refused behind (not_exists.mp hsel) d
    rw [h] at hret
    exact absurd (Outcome.ret.inj hret).1.symm hsta

/-- A line in which everything is found is accepted. -/
theorem Selected.cmdRec_ok {id : Nat} (h : Selected funs line id)
    (hcomplete : (memArgs line.text behind).ending = .complete)
    (hfew : (memArgs line.text behind).values.length ≤ maxParm) (d : UsmartDev) :
    ∃ d', usmartCmdRec funs line.text behind d
        = .ret .ok (memArgs line.text behind).values.length d' ∧ d'.id = id := by
  rw [h.cmdRec, usmartGetFparam_few hfew, hcomplete]
  exact ⟨_, rfl, putAll_id _ _ _⟩

/-- `tstr` is left by lines with a function only. -/
theorem cmdRec_overwrite_iff (d : UsmartDev) :
    usmartCmdRec funs line.text behind d = .overwrite ↔ (∃ id, Selected funs line id) ∧
      (memArgs line.text behind).values.length ≤ maxParm ∧
      (memArgs line.text behind).ending = .overwrite := by
  by_cases hsel : ∃ id, Selected funs line id
  · obtain ⟨id, hid⟩ := hsel
    rw [and_iff_right ⟨id, hid⟩, ← usmartGetFparam_overwrite_iff _ _ { d with id := id }, hid.cmdRec]
    split
    · next hret =>
      rw [hret]
      exact iff_of_false Outcome.noConfusion Outcome.noConfusion
    · exact Iff.rfl
  · obtain ⟨sta, _, hret⟩ := cmdRec_refused behind (not_exists.mp hsel) d
    rw [hret]
    exact iff_of_false Outcome.noConfusion fun h => hsel h.1

/-! ## What `usmart_exe` passes -/

/--
Each argument which is passed has been assigned from a stored one. As long as the sums of lengths do not
wrap around, and so in every line which is not left, this is the argument of the line.
-/
structure PassesStored (funs : List (List UInt8)) (line : Line) (behind : List UInt8) (d : UsmartDev) :
    Prop where
  exe : usmartExe funs d = some (d.id, (List.range d.pnum).map fun i => some (d.temp i))
  values : (lineArgs line.text).ending ≠ .overread ∨ storedSize (memArgs line.text behind).values < 256 →
    List.Forall₂ (fun v p => v.IsPassed d p) (memArgs line.text behind).values
      ((List.range d.pnum).map fun i => some (d.temp i))

/-- The elements of `temp` behind the parameters of the prototype are not assigned. -/
theorem Accepted.exe {d : UsmartDev} (h : Accepted funs line behind d) :
    ∃ f, funs[d.id]? = some f ∧ usmartExe funs d = some (d.id, (List.range d.pnum).map fun i =>
      if i < (usmartGetFname f).pnum then some (d.temp i) else none) := by
  obtain ⟨f, hmatch, _⟩ := findFunction_ok_iff.mp h.selected.found
  have hfew := h.few
  refine ⟨f, hmatch.entry, ?_⟩
  rw [usmartExe, hmatch.entry]
  simp only
  rw [if_pos (h.pnum ▸ hfew)]

/-- The stored arguments are those of the line. -/
theorem Accepted.forall₂_temp {d : UsmartDev} (h : Accepted funs line behind d)
    (hsmall : storedSize (memArgs line.text behind).values < 256) :
    List.Forall₂ (fun v p => v.IsPassed d p) (memArgs line.text behind).values
      ((List.range d.pnum).map fun i => some (d.temp i)) := by
  refine List.forall₂_iff_get.mpr ⟨by simp [h.pnum], fun i h1 h2 => ?_⟩
  have htemp := (h.packed hsmall).temp_isPassed i h1
  simpa using htemp

theorem Accepted.passes_iff {d : UsmartDev} (h : Accepted funs line behind d) :
    PassesStored funs line behind d ↔ ∃ f, funs[d.id]? = some f ∧
      (memArgs line.text behind).values.length ≤ (usmartGetFname f).pnum := by
  obtain ⟨f, hentry, hexe⟩ := h.exe
  rw [← h.pnum]
  constructor
  · intro hpasses
    refine ⟨f, hentry, Nat.le_of_not_lt fun hlt => ?_⟩
    -- the first element behind the parameters
    have hpassed := hpasses.exe
    rw [hexe, Option.some.injEq, Prod.mk.injEq] at hpassed
    have hat := List.map_inj_left.mp hpassed.2 _ (List.mem_range.mpr hlt)
    rw [if_neg (Nat.lt_irrefl _)] at hat
    cases hat
  · rintro ⟨g, hg, hle⟩
    obtain rfl : f = g := Option.some.inj (hentry.symm.trans hg)
    refine ⟨?_, fun hsmall => h.forall₂_temp ?_⟩
    · rw [hexe]
      refine congrArg (fun p => some (d.id, p)) (List.map_inj_left.mpr fun i hi => ?_)
      rw [if_pos (Nat.lt_of_lt_of_le (List.mem_range.mp hi) hle)]
    · exact hsmall.elim (fun hstays => memArgs_small line behind hstays h.few) id

/-- With the line only stored arguments are passed, and `tstr` is not left. -/
structure ArgsPassed (funs : List (List UInt8)) (line : Line) (behind : List UInt8) (d : UsmartDev) :
    Prop where
  tstr : usmartCmdRec funs line.text behind d ≠ .overwrite
  stored : ∀ parn d', usmartCmdRec funs line.text behind d = .ret .ok parn d' →
    PassesStored funs line behind d'

/-- A line is not accepted with more arguments than the prototype has parameters, and none of at most
ten is too long for `tstr`. -/
def NotTooMany (funs : List (List UInt8)) (line : Line) (behind : List UInt8) : Prop :=
  ∀ id, Selected funs line id → (memArgs line.text behind).values.length ≤ maxParm →
    (memArgs line.text behind).ending ≠ .overwrite ∧
      ((memArgs line.text behind).ending = .complete → ∃ f, funs[id]? = some f ∧
        (memArgs line.text behind).values.length ≤ (usmartGetFname f).pnum)

/-- **Only stored arguments are passed if and only if the line has no more of them than the prototype
has parameters.** -/
theorem passesStored_iff (funs : List (List UInt8)) (line : Line) (behind : List UInt8)
    (d : UsmartDev) : ArgsPassed funs line behind d ↔ NotTooMany funs line behind := by
  constructor
  · intro h id hsel hfew
    refine ⟨fun hover => h.tstr ((cmdRec_overwrite_iff d).mpr ⟨⟨id, hsel⟩, hfew, hover⟩),
      fun hcomplete => ?_⟩
    obtain ⟨d', hret, rfl⟩ := hsel.cmdRec_ok hcomplete hfew d
    exact (accepted_of_ok hret).1.passes_iff.mp (h.stored _ _ hret)
  · intro h
    refine ⟨fun hover => ?_, fun parn d' hret => ?_⟩
    · obtain ⟨⟨id, hsel⟩, hfew, hend⟩ := (cmdRec_overwrite_iff d).mp hover
      exact (h id hsel hfew).1 hend
    · have hacc := (accepted_of_ok hret).1
      exact hacc.passes_iff.mpr ((h _ hacc.selected hacc.few).2 hacc.complete)

/-- A line with one argument more than `led_out` has parameters. -/
def ledOutTwice : Line := ⟨bytes "led_out(1,2)", by decide, by decide⟩

theorem ledOutTwice_not_stored : ∃ d',
    usmartCmdRec usmartNametab ledOutTwice.text [] .start = .ret .ok 2 d' ∧
      ¬PassesStored usmartNametab ledOutTwice [] d' := by
  have hsel : Selected usmartNametab ledOutTwice 2 := ⟨by decide,
    findFunction_registered (usmartNametab_registered 2 (by decide)) (by decide) (by decide)⟩
  have hend : (memArgs ledOutTwice.text []).ending = .complete := by decide +kernel
  obtain ⟨d', h, hid⟩ := hsel.cmdRec_ok hend (by decide +kernel) .start
  have htwo : (memArgs ledOutTwice.text []).values.length = 2 := by decide +kernel
  rw [htwo] at h
  refine ⟨d', h, fun hstored => ?_⟩
  obtain ⟨f, hentry, hle⟩ := (accepted_of_ok h).1.passes_iff.mp hstored
  rw [hid] at hentry
  have hf : some f = some (bytes "void led_out(int n)") := hentry.symm.trans (by decide)
  cases hf
  rw [htwo] at hle
  exact absurd hle (by decide)

end PlcFirmware.Usmart
