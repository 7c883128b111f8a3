import PlcFirmware.Malloc.Spec

/-!
# Requests in a row

A driver asks one pool for several pieces of memory and, if it does not get them all, frees what it has
got. Only free cells are marked on the way, and freeing clears them again.

* `frees_mallocs` — freeing everything gives the table back
* `mallocs_memmap_eq_iff` — when the requests leave no trace
-/

namespace PlcFirmware.Malloc

open Infra

variable {L : Layout} {memx : Pool} {d e : MallcoDev} {sizes : List UInt32}

/-- One `mymalloc` after the other, with the pointers they return. -/
def mallocs (L : Layout) (memx : Pool) : List UInt32 → MallcoDev → MallcoDev × List Nat
  | [], d => (d, [])
  | size :: sizes, d =>
    let (d, ptr) := mymalloc L memx size d
    let (d, ptrs) := mallocs L memx sizes d
    (d, ptr :: ptrs)

/-- One `myfree` after the other. -/
def frees (L : Layout) (memx : Pool) : List Nat → MallcoDev → MallcoDev
  | [], d => d
  | ptr :: ptrs, d => frees L memx ptrs (myfree L memx ptr d)

@[simp] theorem mallocs_nil (d : MallcoDev) : mallocs L memx [] d = (d, []) := rfl

theorem mallocs_cons (size : UInt32) (d : MallcoDev) :
    mallocs L memx (size :: sizes) d =
      ((mallocs L memx sizes (mymalloc L memx size d).1).1,
        (mymalloc L memx size d).2 :: (mallocs L memx sizes (mymalloc L memx size d).1).2) := rfl

/-! ## The other pools -/

/-- Only the table of this pool is different. -/
structure Only (memx : Pool) (d e : MallcoDev) : Prop where
  memrdy : e.memrdy = d.memrdy
  others : ∀ q ≠ memx, e.memmap q = d.memmap q

theorem Only.refl (memx : Pool) (d : MallcoDev) : Only memx d d := ⟨rfl, fun _ _ => rfl⟩

theorem Only.trans {f : MallcoDev} (h : Only memx d e) (h' : Only memx e f) : Only memx d f :=
  ⟨h'.memrdy.trans h.memrdy, fun q hq => (h'.others q hq).trans (h.others q hq)⟩

theorem only_marked (d : MallcoDev) (memx : Pool) (r : Run) (v : Nat) :
    Only memx d (d.marked memx r v) := ⟨rfl, fun _ hq => marked_memmap_ne hq r v⟩

theorem marked_in {r : Run} {i : Nat} (hc : r.Covers i) (d : MallcoDev) (v : Nat) :
    (d.marked memx r v).memmap memx i = v := by
  rw [marked_memmap_self, RunSet.fill_eq _ r v i hc]

theorem marked_out {r : Run} {i : Nat} (hc : ¬r.Covers i) (d : MallcoDev) (v : Nat) :
    (d.marked memx r v).memmap memx i = d.memmap memx i := by
  rw [marked_memmap_self, RunSet.fill_ne _ r v i hc]

/-- **A request fails, or marks a run of free cells**, if the pool is ready. -/
theorem mymalloc_ready_cases (L : Layout) (size : UInt32) (hr : d.memrdy memx = true) :
    mymalloc L memx size d = (d, 0) ∨
      ∃ r : Run, 0 < r.len ∧ r.start + r.len ≤ memtblsize memx ∧
        (∀ i, r.Covers i → d.memmap memx i = 0) ∧
        mymalloc L memx size d = (d.marked memx r r.len, L.membase memx + r.start * 64) := by
  have h := mymalloc_cases L memx size d
  rw [ready_of_memrdy hr] at h
  rcases h with h | ⟨r, -, hpos, hin, hfree, h⟩
  · exact .inl h
  · exact .inr ⟨r, hpos, hin, hfree, h⟩

theorem only_mymalloc (L : Layout) (size : UInt32) (hr : d.memrdy memx = true) :
    Only memx d (mymalloc L memx size d).1 := by
  rcases mymalloc_ready_cases L size hr with h | ⟨r, -, -, -, h⟩
  · rw [h]
    exact .refl memx d
  · rw [h]
    exact only_marked d memx r r.len

theorem only_mallocs (L : Layout) (sizes : List UInt32) (hr : d.memrdy memx = true) :
    Only memx d (mallocs L memx sizes d).1 := by
  induction sizes generalizing d with
  | nil => exact .refl memx d
  | cons size sizes ih =>
    have h := only_mymalloc L size hr
    exact h.trans (ih (h.memrdy ▸ hr))

/-- **A request looks at the table of its own pool only.** -/
theorem mymalloc_congr (L : Layout) (size : UInt32) (hr : d.memrdy memx = true)
    (hre : e.memrdy memx = true) (h : e.memmap memx = d.memmap memx) :
    (mymalloc L memx size e).2 = (mymalloc L memx size d).2 ∧
      (mymalloc L memx size e).1.memmap memx = (mymalloc L memx size d).1.memmap memx := by
  simp only [mymalloc, myMemMalloc, ready_of_memrdy hr, ready_of_memrdy hre, h]
  by_cases h0 : size = 0
  · simp only [if_pos h0, if_true, true_and]
    exact h
  · simp only [if_neg h0]
    generalize size.toNat / memblksize memx + _ = nmemb
    cases search (d.memmap memx) nmemb (memtblsize memx) 0 with
    | none => exact ⟨rfl, h⟩
    | some offset =>
      by_cases ho : offset * memblksize memx = 0xFFFFFFFF
      · simp only [if_pos ho, Function.update_self, and_self]
      · simp only [if_neg ho, Function.update_self, and_self]

theorem mallocs_congr (hr : d.memrdy memx = true) (hre : e.memrdy memx = true)
    (h : e.memmap memx = d.memmap memx) :
    (mallocs L memx sizes e).2 = (mallocs L memx sizes d).2 := by
  induction sizes generalizing d e with
  | nil => rfl
  | cons size sizes ih =>
    obtain ⟨hptr, hmap⟩ := mymalloc_congr L size hr hre h
    have h1 := only_mymalloc L size hr
    have h2 := only_mymalloc L size hre
    rw [mallocs_cons, mallocs_cons, hptr, ih (h1.memrdy ▸ hr) (h2.memrdy ▸ hre) hmap]

/-! ## Marked cells -/

/-- The cells which the requests mark. -/
def Marked (L : Layout) (memx : Pool) (sizes : List UInt32) (d : MallcoDev) (i : Nat) : Prop :=
  (mallocs L memx sizes d).1.memmap memx i ≠ d.memmap memx i

/-- **Only free cells are marked.** -/
theorem Marked.free {i : Nat} (hr : d.memrdy memx = true) (h : Marked L memx sizes d i) :
    d.memmap memx i = 0 ∧ (mallocs L memx sizes d).1.memmap memx i ≠ 0 := by
  induction sizes generalizing d with
  | nil => exact absurd rfl h
  | cons size sizes ih =>
    rw [Marked, mallocs_cons] at h
    rw [mallocs_cons]
    have hr1 := (only_mymalloc L size hr).memrdy ▸ hr
    rcases mymalloc_ready_cases L size hr with hm | ⟨r, hpos, -, hfree, hm⟩
    · rw [hm] at h ⊢
      exact ih hr h
    · rw [hm] at h hr1 ⊢
      by_cases hc : r.Covers i
      · -- the cell is marked by the first request
        refine ⟨hfree i hc, ?_⟩
        by_cases hrest : Marked L memx sizes (d.marked memx r r.len) i
        · exact (ih hr1 hrest).2
        · rw [not_not.mp hrest, marked_in hc]
          omega
      · rw [← marked_out hc d r.len] at h ⊢
        exact ih hr1 h

/-- What the first request marks is marked by none of the others. -/
theorem mallocs_first (L : Layout) (sizes : List UInt32) {r : Run} {i : Nat}
    (hr : d.memrdy memx = true) (hpos : 0 < r.len) (hc : r.Covers i) :
    (mallocs L memx sizes (d.marked memx r r.len)).1.memmap memx i = r.len := by
  have hone : (d.marked memx r r.len).memmap memx i = r.len := marked_in hc d r.len
  by_cases hrest : Marked L memx sizes (d.marked memx r r.len) i
  · have hr1 : (d.marked memx r r.len).memrdy memx = true := hr
    have := (hrest.free hr1).1
    omega
  · rw [not_not.mp hrest, hone]

/--
**Freeing clears the marked cells**, in any table in which they are as they were marked; the other cells
stay.
-/
theorem frees_apply (L : Layout) (sizes : List UInt32) (hr : d.memrdy memx = true)
    (hre : e.memrdy memx = true) (hsame : ∀ i, Marked L memx sizes d i →
      e.memmap memx i = (mallocs L memx sizes d).1.memmap memx i) :
    Only memx e (frees L memx (mallocs L memx sizes d).2 e) ∧
      ∀ i, (Marked L memx sizes d i → (frees L memx (mallocs L memx sizes d).2 e).memmap memx i = 0) ∧
        (¬Marked L memx sizes d i →
          (frees L memx (mallocs L memx sizes d).2 e).memmap memx i = e.memmap memx i) := by
  induction sizes generalizing d e with
  | nil => exact ⟨.refl memx e, fun i => ⟨fun h => absurd rfl h, fun _ => rfl⟩⟩
  | cons size sizes ih =>
    simp only [Marked, mallocs_cons, frees] at hsame ⊢
    rcases mymalloc_ready_cases L size hr with hm | ⟨r, hpos, hin, hfree, hm⟩
    · -- `myfree` of `NULL` does nothing
      rw [hm] at hsame ⊢
      simp only [myfree, if_true]
      exact ih hr hre hsame
    · rw [hm] at hsame ⊢
      have hkeep := fun i => mallocs_first L sizes (i := i) hr hpos
      have hdiff : ∀ i, r.Covers i →
          (mallocs L memx sizes (d.marked memx r r.len)).1.memmap memx i ≠ d.memmap memx i := by
        intro i hc
        rw [hkeep i hc, hfree i hc]
        omega
      have hstart : r.Covers r.start := ⟨Nat.le_refl _, by omega⟩
      have hmyfree : myfree L memx (L.membase memx + r.start * 64) e = e.marked memx r 0 :=
        myfree_run hre hin hpos (by rw [hsame _ (hdiff _ hstart), hkeep _ hstart])
      -- the cells of the other requests are outside the first run
      have hout : ∀ i, Marked L memx sizes (d.marked memx r r.len) i →
          ¬r.Covers i ∧ (mallocs L memx sizes (d.marked memx r r.len)).1.memmap memx i ≠
            d.memmap memx i := by
        intro i hi
        have hnc : ¬r.Covers i := fun hc => hi (by rw [hkeep i hc, marked_in hc])
        exact ⟨hnc, fun heq => hi (by rw [heq, marked_out hnc])⟩
      have hsame' : ∀ i, Marked L memx sizes (d.marked memx r r.len) i →
          (e.marked memx r 0).memmap memx i =
            (mallocs L memx sizes (d.marked memx r r.len)).1.memmap memx i := by
        intro i hi
        obtain ⟨hnc, hne⟩ := hout i hi
        rw [marked_out hnc]
        exact hsame i hne
      rw [hmyfree]
      obtain ⟨honly, hcells⟩ := ih (d := d.marked memx r r.len) (e := e.marked memx r 0) hr hre hsame'
      refine ⟨(only_marked e memx r 0).trans honly, fun i => ⟨fun hi => ?_, fun hi => ?_⟩⟩
      · by_cases hrest : Marked L memx sizes (d.marked memx r r.len) i
        · exact (hcells i).1 hrest
        · -- a cell of the first run
          rw [(hcells i).2 hrest]
          by_cases hc : r.Covers i
          · exact marked_in hc e 0
          · rw [not_not.mp hrest, marked_out hc] at hi
            exact absurd rfl hi
      · have hnc : ¬r.Covers i := fun hc => hi (hdiff i hc)
        have hrest : ¬Marked L memx sizes (d.marked memx r r.len) i := fun h => hi (hout i h).2
        rw [(hcells i).2 hrest, marked_out hnc]

/-- **Freeing everything gives the table back.** -/
theorem frees_mallocs (L : Layout) (sizes : List UInt32) (hr : d.memrdy memx = true) :
    ∀ q, (frees L memx (mallocs L memx sizes d).2 (mallocs L memx sizes d).1).memmap q =
      d.memmap q := by
  have hm := only_mallocs L sizes hr
  obtain ⟨honly, hcells⟩ :=
    frees_apply L sizes hr (hm.memrdy ▸ hr) fun _ _ => rfl
  intro q
  by_cases hq : q = memx
  · subst hq
    funext i
    by_cases hi : Marked L q sizes d i
    · rw [(hcells i).1 hi, (hi.free hr).1]
    · rw [(hcells i).2 hi]
      exact not_not.mp hi
  · rw [honly.others q hq, hm.others q hq]

/-- **The requests leave no trace exactly if none of them could be served.** -/
theorem mallocs_memmap_eq_iff (hr : d.memrdy memx = true) (sizes : List UInt32) :
    (mallocs L memx sizes d).1.memmap memx = d.memmap memx ↔
      ∀ size ∈ sizes, (mymalloc L memx size d).2 = 0 := by
  induction sizes with
  | nil => simp
  | cons size sizes ih =>
    rw [mallocs_cons, List.forall_mem_cons]
    have hbase := L.membase_pos memx
    rcases mymalloc_ready_cases L size hr with hm | ⟨r, hpos, -, hfree, hm⟩
    · rw [hm, ih]
      simp
    · rw [hm]
      have hstart : r.Covers r.start := ⟨Nat.le_refl _, by omega⟩
      refine iff_of_false (fun heq => ?_) fun h => ?_
      · have := congrFun heq r.start
        rw [mallocs_first L sizes hr hpos hstart, hfree _ hstart] at this
        omega
      · have : L.membase memx + r.start * 64 = 0 := h.1
        omega

end PlcFirmware.Malloc
