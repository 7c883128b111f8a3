import Mathlib.Data.List.Induction
import PlcFirmware.Infra.Machine
import PlcFirmware.Malloc.Spec

/-!
# The invariant of the tables

A session is a history of calls, together with what its clients know: for each pool the allocations
they hold, an address and a size each. `Holds` connects the two. The table of a pool marks one run for
each allocation held and nothing else, and the runs are disjoint because a `RunSet` is.

A pool which has not been used or initialised yet may have anything in its table; its clients hold
nothing then, and the first request clears it.
-/

namespace PlcFirmware.Malloc

open Infra

/-! ## Sessions -/

/-- An allocation, as its client knows it. -/
structure Alloc where
  ptr : Nat
  size : Nat

/-- The blocks of an allocation. -/
def Alloc.run (L : Layout) (memx : Pool) (a : Alloc) : Run :=
  ⟨(a.ptr - L.membase memx) / 64, blocks a.size⟩

/-- The allocator, and the allocations which are live in each pool. -/
structure Session where
  dev : MallcoDev
  live : Pool → List Alloc

inductive Call
  | mymalloc (memx : Pool) (size : UInt32)
  | myfree (memx : Pool) (ptr : Nat)
  | myrealloc (memx : Pool) (ptr : Nat) (size : UInt32)

namespace Call

def pool : Call → Pool
  | mymalloc memx _ => memx
  | myfree memx _ => memx
  | myrealloc memx _ _ => memx

/-- The number of bytes asked for. -/
def size : Call → Nat
  | mymalloc _ size => size.toNat
  | myfree _ _ => 0
  | myrealloc _ _ size => size.toNat

/-- Only `NULL` and live allocations of the pool are freed, only live ones reallocated. -/
def Valid (s : Session) : Call → Prop
  | mymalloc _ _ => True
  | myfree memx ptr => ptr = 0 ∨ ∃ a ∈ s.live memx, a.ptr = ptr
  | myrealloc memx ptr _ => ∃ a ∈ s.live memx, a.ptr = ptr

instance (s : Session) : (c : Call) → Decidable (c.Valid s)
  | mymalloc _ _ => inferInstanceAs (Decidable True)
  | myfree _ _ => inferInstanceAs (Decidable (_ ∨ _))
  | myrealloc memx ptr _ => inferInstanceAs (Decidable (∃ a ∈ s.live memx, a.ptr = ptr))

end Call

/-- Take an address from a list of allocations. -/
def drop (allocs : List Alloc) (ptr : Nat) : List Alloc := allocs.filter (·.ptr ≠ ptr)

/-- One call. The output is the pointer returned. -/
def Session.step (L : Layout) (s : Session) : Call → Session × List Nat
  | .mymalloc memx size =>
    let (d, ptr) := mymalloc L memx size s.dev
    if ptr = 0 then (⟨d, s.live⟩, [ptr])
    else (⟨d, Function.update s.live memx (⟨ptr, size.toNat⟩ :: s.live memx)⟩, [ptr])
  | .myfree memx ptr =>
    (⟨myfree L memx ptr s.dev, Function.update s.live memx (drop (s.live memx) ptr)⟩, [])
  | .myrealloc memx ptr size =>
    let (d, new) := myrealloc L memx ptr size s.dev
    if new = 0 then (⟨d, s.live⟩, [new])
    else (⟨d, Function.update s.live memx (⟨new, size.toNat⟩ :: drop (s.live memx) ptr)⟩, [new])

/-- Histories of calls. -/
def session (L : Layout) : Machine Session Call Nat := ⟨Session.step L⟩

/-- After the calls of `my_mem_init` at the start. `memrdy` is `0` before them, the rest arbitrary. -/
def Session.start (memmap : Pool → Nat → Nat) (mem : Nat → UInt8) (inits : List Pool) : Session where
  dev := inits.foldl (fun d memx => myMemInit memx d) ⟨memmap, fun _ => false, mem⟩
  live := fun _ => []

/-! ## One pool -/

variable {L : Layout} {memx q : Pool} {map : Nat → Nat} {allocs : List Alloc} {s : Session}

/-- **The table marks one run for each allocation.** -/
structure Holds (L : Layout) (memx : Pool) (map : Nat → Nat) (allocs : List Alloc) : Prop where
  marks : ∃ R : RunSet (memtblsize memx), R.runs = allocs.map (Alloc.run L memx) ∧ R.Marks map
  ptr_eq : ∀ a ∈ allocs, a.ptr = L.membase memx + (a.run L memx).start * 64

namespace Holds

theorem cleared (map : Nat → Nat) : Holds L memx (fill map 0 0 (memtblsize memx)) [] where
  marks := by
    refine ⟨RunSet.empty _, rfl, RunSet.marks_empty fun i hi => ?_⟩
    rw [fill_apply, if_pos (by omega)]
  ptr_eq := by simp

/-- What is known of the table at a live allocation. -/
theorem at_ptr (h : Holds L memx map allocs) {a : Alloc} (ha : a ∈ allocs) :
    0 < (a.run L memx).len ∧
      (a.run L memx).start + (a.run L memx).len ≤ memtblsize memx ∧
      map (a.run L memx).start = (a.run L memx).len := by
  obtain ⟨R, hR, hm⟩ := h.marks
  have hmem : a.run L memx ∈ R.runs := by rw [hR]; exact List.mem_map_of_mem ha
  have hpos := R.pos _ hmem
  exact ⟨hpos, R.inRange _ hmem, hm.covered _ hmem _ ⟨Nat.le_refl _, by omega⟩⟩

/-- A stretch of free cells is apart from the runs of all allocations. -/
theorem apart (h : Holds L memx map allocs) {r : Run} (hpos : 0 < r.len)
    (hfree : ∀ i, r.Covers i → map i = 0) {a : Alloc} (ha : a ∈ allocs) :
    r.Apart (a.run L memx) := by
  obtain ⟨R, hR, hm⟩ := h.marks
  exact hm.apart_of_zero hpos hfree _ (by rw [hR]; exact List.mem_map_of_mem ha)

/-- **A marked run becomes an allocation.** -/
theorem malloc (h : Holds L memx map allocs) {r : Run} {size : Nat} (hlen : r.len = blocks size)
    (hpos : 0 < r.len) (hin : r.start + r.len ≤ memtblsize memx)
    (hfree : ∀ i, r.Covers i → map i = 0) :
    Holds L memx (fill map r.start r.len r.len)
      (⟨L.membase memx + r.start * 64, size⟩ :: allocs) := by
  have hrun : Alloc.run L memx ⟨L.membase memx + r.start * 64, size⟩ = r := by
    unfold Alloc.run
    rw [← hlen, Nat.add_sub_cancel_left, Nat.mul_div_cancel _ (by omega)]
  obtain ⟨R, hR, hm⟩ := h.marks
  refine ⟨⟨R.insert r hpos hin (hm.apart_of_zero hpos hfree), ?_, hm.insert hpos hin _⟩, ?_⟩
  · rw [List.map_cons, hrun, ← hR]
    rfl
  · intro a ha
    rcases List.mem_cons.mp ha with rfl | ha
    · rw [hrun]
    · exact h.ptr_eq a ha

/-- **A cleared run is taken from the allocations.** -/
theorem free (h : Holds L memx map allocs) {a : Alloc} (ha : a ∈ allocs) :
    Holds L memx (fill map (a.run L memx).start 0 (a.run L memx).len) (drop allocs a.ptr) := by
  obtain ⟨R, hR, hm⟩ := h.marks
  have hmem : a.run L memx ∈ R.runs := by rw [hR]; exact List.mem_map_of_mem ha
  refine ⟨⟨R.without (a.run L memx).start, ?_, hm.without hmem⟩, fun b hb => ?_⟩
  · -- an allocation is known by its address just as its run is by its start
    show R.runs.filter _ = (allocs.filter _).map _
    rw [hR, List.filter_map]
    refine congrArg _ (List.filter_congr fun b hb => ?_)
    have h1 := h.ptr_eq a ha
    have h2 := h.ptr_eq b hb
    simp only [Function.comp_apply, decide_eq_decide]
    omega
  · exact h.ptr_eq b (List.mem_filter.mp hb).1

/-- `NULL` is not the address of an allocation. -/
theorem drop_null (h : Holds L memx map allocs) : drop allocs 0 = allocs := by
  refine List.filter_eq_self.mpr fun a ha => ?_
  have h1 := h.ptr_eq a ha
  have h2 := L.membase_pos memx
  simp only [decide_eq_true_eq]
  omega

end Holds

/-! ## One call -/

/-- Pools in use satisfy `Holds`; in the others nothing is live. -/
def Inv (L : Layout) (s : Session) : Prop :=
  ∀ p, (s.dev.memrdy p = true → Holds L p (s.dev.memmap p) (s.live p)) ∧
    (s.dev.memrdy p = false → s.live p = [])

theorem Inv.ready (h : Inv L s) (memx : Pool) :
    Holds L memx ((s.dev.ready memx).memmap memx) (s.live memx) := by
  cases hr : s.dev.memrdy memx with
  | true => rw [ready_of_memrdy hr]; exact (h memx).1 hr
  | false =>
    rw [ready_of_not_memrdy hr, myMemInit_memmap_self, (h memx).2 hr]
    exact Holds.cleared _

/-- A pool in which something is live is initialised. -/
theorem Inv.memrdy_of_mem (h : Inv L s) {a : Alloc} (ha : a ∈ s.live memx) :
    s.dev.memrdy memx = true := by
  by_contra hr
  rw [(h memx).2 (by simpa using hr)] at ha
  simp at ha

/-- What a call which leaves the other pools alone has to show for its own. -/
theorem Inv.update (h : Inv L s) {d : MallcoDev} {allocs : List Alloc}
    (hmap : ∀ p, p ≠ memx → d.memmap p = s.dev.memmap p)
    (hrdy : d.memrdy = Function.update s.dev.memrdy memx true)
    (hself : Holds L memx (d.memmap memx) allocs) :
    Inv L ⟨d, Function.update s.live memx allocs⟩ := by
  intro p
  by_cases hp : p = memx
  · subst hp
    simp only [hrdy, Function.update_self]
    exact ⟨fun _ => hself, fun hf => by cases hf⟩
  · simp only [hrdy, Function.update_of_ne hp, hmap p hp]
    exact h p

/-- What a pointer returned for `size` bytes has to satisfy, with `others` live before the call. -/
structure Served (L : Layout) (memx : Pool) (size : Nat) (others : List Alloc) (ptr : Nat) :
    Prop where
  above : L.membase memx ≤ ptr
  aligned : (ptr - L.membase memx) % 64 = 0
  covers : size ≤ blocks size * 64
  inPool : ptr - L.membase memx + blocks size * 64 ≤ memsize memx
  apart : ∀ a ∈ others, a.ptr + blocks a.size * 64 ≤ ptr ∨ ptr + blocks size * 64 ≤ a.ptr

theorem Holds.served (h : Holds L memx map allocs) {r : Run} {size : Nat}
    (hlen : r.len = blocks size) (hpos : 0 < r.len) (hin : r.start + r.len ≤ memtblsize memx)
    (hfree : ∀ i, r.Covers i → map i = 0) :
    Served L memx size allocs (L.membase memx + r.start * 64) where
  above := Nat.le_add_right _ _
  aligned := by omega
  covers := le_blocks size
  inPool := by rw [memsize_eq]; omega
  apart := by
    intro a ha
    have hptr := h.ptr_eq a ha
    have hrun : (a.run L memx).len = blocks a.size := rfl
    rcases h.apart hpos hfree ha with hap | hap
    · exact Or.inr (by omega)
    · exact Or.inl (by omega)

/-- What is shown of each call. -/
structure StepOk (L : Layout) (s : Session) (c : Call) (s' : Session) (out : List Nat) : Prop where
  inv : Inv L s'
  memrdy : ∀ p, s.dev.memrdy p = true → s'.dev.memrdy p = true
  served : ∀ ptr ∈ out, ptr ≠ 0 → Served L c.pool c.size (s.live c.pool) ptr
  others : ∀ p, p ≠ c.pool → s'.dev.memmap p = s.dev.memmap p

theorem update_memrdy (f : Pool → Bool) (memx p : Pool) (h : f p = true) :
    Function.update f memx true p = true := by
  by_cases hp : p = memx
  · rw [hp, Function.update_self]
  · rw [Function.update_of_ne hp, h]

theorem step_mymalloc (h : Inv L s) (memx : Pool) (size : UInt32) :
    StepOk L s (.mymalloc memx size) (s.step L (.mymalloc memx size)).1
      (s.step L (.mymalloc memx size)).2 := by
  have hready := h.ready memx
  rcases mymalloc_cases L memx size s.dev with he | ⟨r, hlen, hpos, hin, hfree, he⟩
  · -- `NULL` is returned, but the pool may have been initialised
    have hstep : s.step L (.mymalloc memx size) = (⟨s.dev.ready memx, s.live⟩, [0]) := by
      simp only [Session.step, he, if_true]
    have hlive : s.live = Function.update s.live memx (s.live memx) := by
      rw [Function.update_eq_self]
    rw [hstep]
    refine ⟨?_, fun p hp => ?_, by simp, fun p hp => ready_memmap_ne hp _⟩
    · rw [hlive]
      exact h.update (fun p hp => ready_memmap_ne hp _) (ready_memrdy _ _) hready
    · rw [ready_memrdy]
      exact update_memrdy _ _ _ hp
  · have hbase := L.membase_pos memx
    have hstep : s.step L (.mymalloc memx size) =
        (⟨(s.dev.ready memx).marked memx r r.len, Function.update s.live memx
          (⟨L.membase memx + r.start * 64, size.toNat⟩ :: s.live memx)⟩,
          [L.membase memx + r.start * 64]) := by
      simp only [Session.step, he]
      rw [if_neg (by omega)]
    have hmap : ∀ p, p ≠ memx →
        ((s.dev.ready memx).marked memx r r.len).memmap p = s.dev.memmap p := by
      intro p hp
      rw [marked_memmap_ne hp, ready_memmap_ne hp]
    rw [hstep]
    refine ⟨?_, fun p hp => ?_, ?_, hmap⟩
    · refine h.update hmap (ready_memrdy _ _) ?_
      rw [marked_memmap_self]
      exact hready.malloc hlen hpos hin hfree
    · rw [marked_memrdy, ready_memrdy]
      exact update_memrdy _ _ _ hp
    · intro ptr hptr _
      rw [List.mem_singleton.mp hptr]
      exact hready.served hlen hpos hin hfree

theorem step_myfree (h : Inv L s) (memx : Pool) (ptr : Nat)
    (hv : (Call.myfree memx ptr).Valid s) :
    StepOk L s (.myfree memx ptr) (s.step L (.myfree memx ptr)).1
      (s.step L (.myfree memx ptr)).2 := by
  rcases hv with rfl | ⟨a, ha, rfl⟩
  · have hdrop : drop (s.live memx) 0 = s.live memx := by
      cases hr : s.dev.memrdy memx with
      | true => exact ((h memx).1 hr).drop_null
      | false => rw [(h memx).2 hr]; rfl
    have hstep : s.step L (.myfree memx 0) = (s, []) := by
      simp only [Session.step, hdrop, Function.update_eq_self, myfree, if_true]
    rw [hstep]
    exact ⟨h, fun p hp => hp, by simp, fun p _ => rfl⟩
  · have hr := h.memrdy_of_mem ha
    have hholds := (h memx).1 hr
    obtain ⟨hpos, hin, hcell⟩ := hholds.at_ptr ha
    have hfree := myfree_run (L := L) hr hin hpos hcell
    rw [← hholds.ptr_eq a ha] at hfree
    have hstep : s.step L (.myfree memx a.ptr) =
        (⟨s.dev.marked memx (a.run L memx) 0,
          Function.update s.live memx (drop (s.live memx) a.ptr)⟩, []) := by
      simp only [Session.step, hfree]
    rw [hstep]
    refine ⟨h.update (fun p hp => marked_memmap_ne hp _ _) ?_ ?_, fun p hp => hp, by simp,
      fun p hp => marked_memmap_ne hp _ _⟩
    · rw [marked_memrdy, ← hr, Function.update_eq_self]
    · rw [marked_memmap_self]
      exact hholds.free ha

/-- The old run is still marked next to the new one when `myrealloc` frees it. -/
theorem myfree_old {d : MallcoDev} (hr : d.memrdy memx = true)
    (h : Holds L memx (d.memmap memx) allocs) {a : Alloc} (ha : a ∈ allocs) {r : Run} {size : Nat}
    (hlen : r.len = blocks size) (hpos : 0 < r.len) (hin : r.start + r.len ≤ memtblsize memx)
    (hfree : ∀ i, r.Covers i → d.memmap memx i = 0) (mem : Nat → UInt8) :
    myfree L memx a.ptr { d.marked memx r r.len with mem := mem } =
      MallcoDev.marked { d.marked memx r r.len with mem := mem } memx (a.run L memx) 0 := by
  have hnew := h.malloc (L := L) hlen hpos hin hfree
  obtain ⟨hapos, hain, hacell⟩ := hnew.at_ptr (List.mem_cons_of_mem _ ha)
  have hold := myfree_run (L := L) (d := { d.marked memx r r.len with mem := mem }) hr hain hapos
    (by rw [show MallcoDev.memmap _ memx = _ from marked_memmap_self r r.len]; exact hacell)
  rwa [← h.ptr_eq a ha] at hold

/--
**`myrealloc` of a live allocation** returns `NULL` and does nothing, or marks a free run, copies to it
and clears the old one.
-/
theorem myrealloc_live {d : MallcoDev} (hr : d.memrdy memx = true)
    (h : Holds L memx (d.memmap memx) allocs) {a : Alloc} (ha : a ∈ allocs) (size : UInt32) :
    myrealloc L memx a.ptr size d = (d, 0) ∨
      ∃ r : Run, r.len = blocks size.toNat ∧ 0 < r.len ∧ r.start + r.len ≤ memtblsize memx ∧
        (∀ i, r.Covers i → d.memmap memx i = 0) ∧
        myrealloc L memx a.ptr size d =
          (MallcoDev.marked { d.marked memx r r.len with
              mem := mymemcpy d.mem (L.membase memx + r.start * 64) a.ptr size.toNat }
            memx (a.run L memx) 0, L.membase memx + r.start * 64) := by
  have hcases := myrealloc_cases L memx a.ptr size d
  rw [ready_of_memrdy hr] at hcases
  rcases hcases with he | ⟨r, hlen, hpos, hin, hfree, he⟩
  · exact .inl he
  · rw [myfree_old hr h ha hlen hpos hin hfree] at he
    exact .inr ⟨r, hlen, hpos, hin, hfree, he⟩

/-- The new run is elsewhere, so the old address is the one to take from the list. -/
theorem Holds.moved (h : Holds L memx map allocs) {a : Alloc} (ha : a ∈ allocs) {r : Run}
    {size : Nat} (hlen : r.len = blocks size) (hpos : 0 < r.len)
    (hin : r.start + r.len ≤ memtblsize memx) (hfree : ∀ i, r.Covers i → map i = 0) :
    Holds L memx (fill (fill map r.start r.len r.len) (a.run L memx).start 0 (a.run L memx).len)
      (⟨L.membase memx + r.start * 64, size⟩ :: drop allocs a.ptr) := by
  have hne : L.membase memx + r.start * 64 ≠ a.ptr := by
    have h1 := h.ptr_eq a ha
    have h2 := (h.at_ptr ha).1
    rcases h.apart hpos hfree ha with h3 | h3 <;> omega
  have hdrop : drop (⟨L.membase memx + r.start * 64, size⟩ :: allocs) a.ptr =
      ⟨L.membase memx + r.start * 64, size⟩ :: drop allocs a.ptr := by
    simp [drop, hne]
  rw [← hdrop]
  exact (h.malloc hlen hpos hin hfree).free (List.mem_cons_of_mem _ ha)

theorem moved_memmap_ne {d : MallcoDev} (hq : q ≠ memx) (r r' : Run) (v v' : Nat)
    (mem : Nat → UInt8) :
    (MallcoDev.marked { d.marked memx r v with mem := mem } memx r' v').memmap q = d.memmap q := by
  rw [marked_memmap_ne hq]
  exact marked_memmap_ne hq r v

theorem moved_memmap_self {d : MallcoDev} (r r' : Run) (v v' : Nat) (mem : Nat → UInt8) :
    (MallcoDev.marked { d.marked memx r v with mem := mem } memx r' v').memmap memx =
      fill (fill (d.memmap memx) r.start v r.len) r'.start v' r'.len := by
  rw [marked_memmap_self]
  exact congrArg (fun f => fill f r'.start v' r'.len) (marked_memmap_self r v)

theorem step_myrealloc (h : Inv L s) (memx : Pool) (ptr : Nat) (size : UInt32)
    (hv : (Call.myrealloc memx ptr size).Valid s) :
    StepOk L s (.myrealloc memx ptr size) (s.step L (.myrealloc memx ptr size)).1
      (s.step L (.myrealloc memx ptr size)).2 := by
  obtain ⟨a, ha, rfl⟩ := hv
  have hr := h.memrdy_of_mem ha
  have hholds := (h memx).1 hr
  rcases myrealloc_live hr hholds ha size with he | ⟨r, hlen, hpos, hin, hfree, he⟩
  · have hstep : s.step L (.myrealloc memx a.ptr size) = (s, [0]) := by
      simp only [Session.step, he, if_true]
    rw [hstep]
    exact ⟨h, fun p hp => hp, by simp, fun p _ => rfl⟩
  · have hbase := L.membase_pos memx
    generalize mymemcpy _ _ _ _ = mem at he
    have hstep : s.step L (.myrealloc memx a.ptr size) =
        (⟨MallcoDev.marked { s.dev.marked memx r r.len with mem := mem } memx (a.run L memx) 0,
          Function.update s.live memx
            (⟨L.membase memx + r.start * 64, size.toNat⟩ :: drop (s.live memx) a.ptr)⟩,
          [L.membase memx + r.start * 64]) := by
      simp only [Session.step, he]
      rw [if_neg (by omega)]
    rw [hstep]
    refine ⟨h.update (fun p hp => moved_memmap_ne hp _ _ _ _ _) ?_ ?_, fun p hp => hp, ?_,
      fun p hp => moved_memmap_ne hp _ _ _ _ _⟩
    · show s.dev.memrdy = _
      rw [← hr, Function.update_eq_self]
    · rw [moved_memmap_self]
      exact hholds.moved ha hlen hpos hin hfree
    · intro q hq _
      rw [List.mem_singleton.mp hq]
      exact hholds.served hlen hpos hin hfree

/-- **Every valid call keeps the invariant and does what it should.** -/
theorem step_ok (h : Inv L s) {c : Call} (hv : c.Valid s) :
    StepOk L s c (s.step L c).1 (s.step L c).2 := by
  cases c with
  | mymalloc memx size => exact step_mymalloc h memx size
  | myfree memx ptr => exact step_myfree h memx ptr hv
  | myrealloc memx ptr size => exact step_myrealloc h memx ptr size hv

/-! ## Histories -/

theorem inv_start (L : Layout) (memmap : Pool → Nat → Nat) (mem : Nat → UInt8)
    (inits : List Pool) :
    Inv L (Session.start memmap mem inits) ∧
      ∀ p ∈ inits, (Session.start memmap mem inits).dev.memrdy p = true := by
  induction inits using List.reverseRecOn with
  | nil => exact ⟨fun p => ⟨Bool.noConfusion, fun _ => rfl⟩, by simp⟩
  | append_singleton inits memx ih =>
    have hdev : (Session.start memmap mem (inits ++ [memx])).dev =
        myMemInit memx (Session.start memmap mem inits).dev := by
      simp [Session.start, List.foldl_append]
    constructor
    · intro p
      show (MallcoDev.memrdy _ p = true → Holds L p (MallcoDev.memmap _ p) []) ∧ _
      rw [hdev]
      refine ⟨fun hp => ?_, fun _ => rfl⟩
      by_cases hpm : p = memx
      · subst hpm
        rw [myMemInit_memmap_self]
        exact Holds.cleared _
      · rw [myMemInit_memrdy, Function.update_of_ne hpm] at hp
        rw [myMemInit_memmap_ne hpm]
        exact (ih.1 p).1 hp
    · intro p hp
      rw [hdev, myMemInit_memrdy]
      rcases List.mem_append.mp hp with hp | hp
      · exact update_memrdy _ _ _ (ih.2 p hp)
      · rw [List.mem_singleton.mp hp, Function.update_self]

/-- The state after some history of valid calls. -/
def Reachable (L : Layout) (s : Session) : Prop :=
  ∃ memmap mem inits calls, s = (session L).run (Session.start memmap mem inits) calls ∧
    ∀ t ∈ (session L).transitions (Session.start memmap mem inits) calls, t.2.Valid t.1

theorem Reachable.inv (h : Reachable L s) : Inv L s := by
  obtain ⟨memmap, mem, inits, calls, rfl, hvalid⟩ := h
  exact ((session L).run_invariant (P := Inv L) (G := fun s c => c.Valid s)
    (fun s c hs hv => (step_ok hs hv).inv) (inv_start L memmap mem inits).1 hvalid).2

/--
**For every history of valid calls, the table of an initialised pool marks exactly the live
allocations; every pointer returned is aligned, inside the pool and apart from all that is live; and
no call touches the table of another pool.**
-/
theorem allocator_invariant (L : Layout) (memmap : Pool → Nat → Nat) (mem : Nat → UInt8)
    (inits : List Pool) (calls : List Call)
    (hvalid : ∀ t ∈ (session L).transitions (Session.start memmap mem inits) calls,
      t.2.Valid t.1) :
    (∀ p ∈ inits, Holds L p
      (((session L).run (Session.start memmap mem inits) calls).dev.memmap p)
      (((session L).run (Session.start memmap mem inits) calls).live p)) ∧
    ∀ t ∈ (session L).transitions (Session.start memmap mem inits) calls,
      (∀ ptr ∈ ((session L).step t.1 t.2).2, ptr ≠ 0 →
        Served L t.2.pool t.2.size (t.1.live t.2.pool) ptr) ∧
      ∀ p, p ≠ t.2.pool → ((session L).step t.1 t.2).1.dev.memmap p = t.1.dev.memmap p := by
  obtain ⟨hinv, hrdy⟩ := inv_start L memmap mem inits
  have hrun := (session L).run_invariant
    (P := fun s => Inv L s ∧ ∀ p ∈ inits, s.dev.memrdy p = true)
    (G := fun s c => c.Valid s)
    (fun s c hs hv => ⟨(step_ok hs.1 hv).inv, fun p hp => (step_ok hs.1 hv).memrdy p (hs.2 p hp)⟩)
    ⟨hinv, hrdy⟩ hvalid
  constructor
  · intro p hp
    exact (hrun.2.1 p).1 (hrun.2.2 p hp)
  · intro t ht
    have hstep := step_ok (hrun.1 t ht).1 (hvalid t ht)
    exact ⟨hstep.served, hstep.others⟩

/-- `mem1base` at `0x20020000`. -/
def exampleLayout : Layout := ⟨0x20020000, by decide, by decide⟩

/-- The theorem at a history with two allocations, one freed and the other moved. -/
theorem allocator_invariant_example :
    ∃ R : RunSet (memtblsize .sramin), R.runs = [⟨954, 3⟩] ∧
      R.Marks (((session exampleLayout).run (Session.start (fun _ _ => 7) (fun _ => 0) [.sramin])
        [.mymalloc .sramin 100, .mymalloc .sramin 64, .myfree .sramin 0x2002EF80,
          .myfree .sramin 0, .myrealloc .sramin 0x2002EF40 130]).dev.memmap .sramin) := by
  have h := (allocator_invariant exampleLayout (fun _ _ => 7) (fun _ => 0) [.sramin]
    [.mymalloc .sramin 100, .mymalloc .sramin 64, .myfree .sramin 0x2002EF80, .myfree .sramin 0,
      .myrealloc .sramin 0x2002EF40 130] (by decide +kernel)).1 .sramin (List.mem_singleton_self _)
  obtain ⟨R, hR, hm⟩ := h.marks
  exact ⟨R, hR.trans (by decide +kernel), hm⟩

end PlcFirmware.Malloc
