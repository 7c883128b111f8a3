import PlcFirmware.Malloc.CommInit
import PlcFirmware.Malloc.Highest

/-!
# All or nothing

`ETH_Mem_Malloc` and `lwip_comm_mem_malloc` ask for four pieces of memory each and are meant to return 0
if they have got all of them, and to give back the others if not. The second does. The first looks at
the addresses of its pointers instead of the pointers, so it returns 0 always.

Whether a row of requests can be served is read off the table: `Room` takes the highest free run for
each in turn.

* `allServed_iff_room` — the requests are served exactly if there is room for them
* `memMalloc_allOrNothing_iff` — when both functions do what they are meant to
-/

namespace PlcFirmware.Malloc

open Infra

variable {L : Layout} {V : EthVars} {memx : Pool} {mempsize : UInt32} {d : MallcoDev} {b : Board}

/-! ## Room for a row of requests -/

/-- There is a free run for each number of blocks when the runs are taken in turn, the highest first. -/
def Room (tblsize : Nat) : List Nat → (Nat → Nat) → Prop
  | [], _ => True
  | n :: ns, map =>
    ∃ s, Run.Highest map tblsize ⟨s, n⟩ ∧ Room tblsize ns (fill map s n n)

/-- What a `mymalloc` returns and marks, from the table alone. -/
theorem mymalloc_highest (L : Layout) {size : UInt32} (hr : d.memrdy memx = true)
    (hsize : 0 < size) :
    ((mymalloc L memx size d).2 = 0 ∧
        ∀ r : Run, r.len = blocks size.toNat → ¬r.Free (d.memmap memx) (memtblsize memx)) ∨
      ∃ s, Run.Highest (d.memmap memx) (memtblsize memx) ⟨s, blocks size.toNat⟩ ∧
        mymalloc L memx size d = (d.marked memx ⟨s, blocks size.toNat⟩ (blocks size.toNat),
          L.membase memx + s * 64) := by
  have hpos : 0 < blocks size.toNat := blocks_pos hsize
  have hmalloc := myMemMalloc_ready_eq memx size d hsize
  rw [ready_of_memrdy hr] at hmalloc
  cases hs : search (d.memmap memx) (blocks size.toNat) (memtblsize memx) 0 with
  | none =>
    rw [hs] at hmalloc
    exact .inl ⟨by simp only [mymalloc, hmalloc, if_true], (search_eq_none_iff _ _ hpos).mp hs⟩
  | some s =>
    have hhigh := (search_eq_some_iff _ _ s hpos).mp hs
    have hin : s + blocks size.toNat ≤ memtblsize memx := hhigh.free.1
    have hfits := L.membase_fits memx
    have htbl := memtblsize_le memx
    rw [memsize_eq] at hfits
    rw [hs] at hmalloc
    refine .inr ⟨s, hhigh, ?_⟩
    simp only [mymalloc, hmalloc]
    rw [if_neg (by omega), Nat.mod_eq_of_lt (by omega)]

/-- **All requests are served exactly if there is room for them in the table.** -/
theorem allServed_iff_room (L : Layout) {sizes : List UInt32} (hr : d.memrdy memx = true)
    (hsizes : ∀ size ∈ sizes, 0 < size) :
    AllServed L memx sizes d ↔
      Room (memtblsize memx) (sizes.map fun size => blocks size.toNat) (d.memmap memx) := by
  induction sizes generalizing d with
  | nil => exact iff_of_true List.not_mem_nil trivial
  | cons size sizes ih =>
    obtain ⟨hsize, hsizes⟩ := List.forall_mem_cons.mp hsizes
    have hcons : AllServed L memx (size :: sizes) d ↔
        0 ≠ (mymalloc L memx size d).2 ∧ AllServed L memx sizes (mymalloc L memx size d).1 := by
      rw [AllServed, mallocs_cons, List.mem_cons, not_or]
      rfl
    rw [hcons, List.map_cons, Room]
    rcases mymalloc_highest L hr hsize with ⟨hnull, hnone⟩ | ⟨s, hhigh, hm⟩
    · rw [hnull]
      refine iff_of_false (fun h => h.1 rfl) ?_
      rintro ⟨s, hhigh, -⟩
      exact hnone _ rfl hhigh.free
    · have hbase := L.membase_pos memx
      have hr' : (d.marked memx ⟨s, blocks size.toNat⟩ (blocks size.toNat)).memrdy memx = true := hr
      rw [hm, ih hr' hsizes, marked_memmap_self]
      constructor
      · rintro ⟨-, hroom⟩
        exact ⟨s, hhigh, hroom⟩
      · rintro ⟨s', hhigh', hroom⟩
        cases hhigh.unique hhigh' rfl
        exact ⟨by omega, hroom⟩

/-! ## The two functions -/

def EthMem.pointers (m : EthMem) : List Nat := [m.dmaRxDscrTab, m.dmaTxDscrTab, m.rxBuff, m.txBuff]

def LwipMem.pointers (m : LwipMem) : List Nat :=
  [m.mempMemory, m.ramHeap, m.tcpipThreadTaskStk, m.lwipDhcpTaskStk]

/-- A call returns 0 exactly if all of its requests were served, and if it returns 1 the tables are as
before. -/
structure AllOrNothing (before : MallcoDev) (pointers : List Nat) (r : Board × Nat) : Prop where
  success : r.2 = 0 ↔ ∀ ptr ∈ pointers, ptr ≠ 0
  restores : r.2 = 1 → SameMaps before r.1.dev

theorem ethMemMalloc_pointers (L : Layout) (V : EthVars) (b : Board) :
    (ethMemMalloc L V b).1.eth.pointers = (mallocs L .sramdtcm ethRequests b.dev).2 := by
  rcases h1 : mymalloc L .sramdtcm (ethRxbufnb * sizeofDmaDesc) b.dev with ⟨d1, p1⟩
  rcases h2 : mymalloc L .sramdtcm (ethTxbufnb * sizeofDmaDesc) d1 with ⟨d2, p2⟩
  rcases h3 : mymalloc L .sramdtcm (ethRxBufSize * ethRxbufnb) d2 with ⟨d3, p3⟩
  rcases h4 : mymalloc L .sramdtcm (ethTxBufSize * ethTxbufnb) d3 with ⟨d4, p4⟩
  simp only [ethMemMalloc, ethMemFree, ethRequests, mallocs_cons, mallocs_nil, h1, h2, h3, h4]
  split <;> rfl

theorem ethRequests_pos : ∀ size ∈ ethRequests, 0 < size :=
  List.forall_mem_cons.mpr ⟨by decide, List.forall_mem_cons.mpr ⟨by decide,
    List.forall_mem_cons.mpr ⟨by decide, List.forall_mem_singleton.mpr (by decide)⟩⟩⟩

theorem lwipCommMemMalloc_pointers (L : Layout) (mempsize : UInt32) (b : Board) :
    (lwipCommMemMalloc L mempsize b).1.lwip.pointers =
      (mallocs L .sramin (lwipRequests mempsize) b.dev).2 := by
  rcases h1 : mymalloc L .sramin mempsize b.dev with ⟨d1, p1⟩
  rcases h2 : mymalloc L .sramin ramheapsize d1 with ⟨d2, p2⟩
  rcases h3 : mymalloc L .sramin (tcpipThreadStacksize * 4) d2 with ⟨d3, p3⟩
  rcases h4 : mymalloc L .sramin (lwipDhcpStkSize * 4) d3 with ⟨d4, p4⟩
  simp only [lwipCommMemMalloc, lwipCommMemFree, lwipRequests, mallocs_cons, mallocs_nil, h1, h2, h3,
    h4]
  split <;> rfl

theorem allServed_iff_ne {sizes : List UInt32} :
    AllServed L memx sizes d ↔ ∀ ptr ∈ (mallocs L memx sizes d).2, ptr ≠ 0 := by
  constructor
  · rintro h ptr hptr rfl
    exact h hptr
  · exact fun h h0 => h 0 h0 rfl

/-- **`lwip_comm_mem_malloc` is all or nothing.** -/
theorem lwipCommMemMalloc_allOrNothing (L : Layout) (mempsize : UInt32)
    (hin : b.dev.memrdy .sramin = true) :
    AllOrNothing b.dev (lwipCommMemMalloc L mempsize b).1.lwip.pointers
      (lwipCommMemMalloc L mempsize b) := by
  rw [lwipCommMemMalloc_pointers]
  rcases lwipCommMemMalloc_maps L mempsize hin with ⟨hs, hret, -⟩ | ⟨hs, hret, hmaps⟩
  · refine ⟨iff_of_true hret (allServed_iff_ne.mp hs), fun h => ?_⟩
    rw [hret] at h
    cases h
  · exact ⟨iff_of_false (by rw [hret]; exact nofun) fun h => hs (allServed_iff_ne.mpr h),
      fun _ => hmaps⟩

/-- `ETH_Mem_Malloc` is, if its requests are served. -/
theorem ethMemMalloc_allOrNothing_iff (L : Layout) (V : EthVars) (b : Board) :
    AllOrNothing b.dev (ethMemMalloc L V b).1.eth.pointers (ethMemMalloc L V b) ↔
      AllServed L .sramdtcm ethRequests b.dev := by
  have hret := (ethMemMalloc_spec L V b).2
  rw [ethMemMalloc_pointers, allServed_iff_ne]
  refine ⟨fun h => h.success.mp hret, fun h => ⟨iff_of_true hret h, fun h1 => ?_⟩⟩
  rw [hret] at h1
  cases h1

/-- The blocks of the four requests of `ETH_Mem_Malloc`. -/
def ethBlocks : List Nat := [3, 3, 120, 120]

/--
**With both pools initialised, `ETH_Mem_Malloc` and `lwip_comm_mem_malloc` are all or nothing if and
only if** the table of `SRAMDTCM` has room for the four requests of the first.
-/
theorem memMalloc_allOrNothing_iff (L : Layout) (V : EthVars) (mempsize : UInt32) {b : Board}
    (hin : b.dev.memrdy .sramin = true) (hdtcm : b.dev.memrdy .sramdtcm = true) :
    (AllOrNothing b.dev (ethMemMalloc L V b).1.eth.pointers (ethMemMalloc L V b) ∧
        AllOrNothing b.dev (lwipCommMemMalloc L mempsize b).1.lwip.pointers
          (lwipCommMemMalloc L mempsize b)) ↔
      Room (memtblsize .sramdtcm) ethBlocks (b.dev.memmap .sramdtcm) := by
  have hblocks : ethBlocks = ethRequests.map fun size => blocks size.toNat := by decide
  rw [and_iff_left (lwipCommMemMalloc_allOrNothing L mempsize hin),
    ethMemMalloc_allOrNothing_iff, allServed_iff_room L hdtcm ethRequests_pos, hblocks]

theorem memMalloc_allOrNothing_iff_fresh :
    (AllOrNothing Board.fresh.dev
          (ethMemMalloc exampleLayout exampleVars .fresh).1.eth.pointers
          (ethMemMalloc exampleLayout exampleVars .fresh) ∧
        AllOrNothing Board.fresh.dev
          (lwipCommMemMalloc exampleLayout 12000 .fresh).1.lwip.pointers
          (lwipCommMemMalloc exampleLayout 12000 .fresh)) ↔
      Room (memtblsize .sramdtcm) ethBlocks (Board.fresh.dev.memmap .sramdtcm) :=
  memMalloc_allOrNothing_iff exampleLayout exampleVars 12000 rfl rfl

/-- `SRAMDTCM` after `mymalloc(SRAMDTCM, 61440)`: a single allocation takes all of its blocks. -/
def Board.full : Board :=
  { Board.fresh with dev := (mymalloc exampleLayout .sramdtcm 61440 Board.fresh.dev).1 }

theorem full_dev :
    Board.full.dev = (mymalloc exampleLayout .sramdtcm 61440 Board.fresh.dev).1 := by
  rw [Board.full]

theorem full_memrdy : Board.full.dev.memrdy .sramdtcm = true := by
  rw [full_dev, (only_mymalloc exampleLayout _ rfl).memrdy]
  rfl

theorem full_memmap {i : Nat} (hi : i < 960) : Board.full.dev.memmap .sramdtcm i = 960 := by
  have hblocks : blocks (61440 : UInt32).toNat = 960 := by decide
  have hfree : Run.Free (Board.fresh.dev.memmap .sramdtcm) 960 ⟨0, 960⟩ :=
    ⟨Nat.le_refl _, fun _ _ => rfl⟩
  have hready : Board.fresh.dev.memrdy .sramdtcm = true := rfl
  have hsize : (0 : UInt32) < 61440 := by decide
  have hmalloc := mymalloc_highest exampleLayout hready hsize
  rw [hblocks] at hmalloc
  rcases hmalloc with ⟨-, hnone⟩ | ⟨s, hhigh, hm⟩
  · exact absurd hfree (hnone ⟨0, 960⟩ rfl)
  · have hs : s + 960 ≤ 960 := hhigh.free.1
    rw [full_dev, hm, marked_memmap_self, fill_apply]
    exact if_pos ⟨by simp only; omega, by simp only; omega⟩

theorem start_fresh :
    (Session.start (fun _ _ => 0) (fun _ => 0) [.sramin, .sramex, .sramdtcm]).dev =
      Board.fresh.dev := by
  have hzero : ∀ n, fill (fun _ => 0) 0 0 n = fun _ => 0 := by
    intro n
    funext i
    rw [fill_apply, ite_self]
  have hmap : ∀ p, Function.update (fun _ _ => 0 : Pool → Nat → Nat) p (fun _ => 0) =
      fun _ _ => 0 := fun p => Function.update_eq_self p (fun _ _ => 0)
  have hrdy : Function.update (Function.update (Function.update (fun _ => false) Pool.sramin true)
      .sramex true) .sramdtcm true = fun _ => true := by
    funext p
    cases p <;> rfl
  simp only [Session.start, List.foldl_cons, List.foldl_nil, myMemInit, hzero, hmap, hrdy,
    Board.fresh]

theorem step_mymalloc_dev (s : Session) (memx : Pool) (size : UInt32) :
    ((session L).step s (.mymalloc memx size)).1.dev = (mymalloc L memx size s.dev).1 := by
  simp only [session, Session.step]
  split <;> rfl

/-- The full pool is what a single call leads to. -/
theorem reachable_full : ∃ s, Reachable exampleLayout s ∧ s.dev = Board.full.dev := by
  refine ⟨_, ⟨fun _ _ => 0, fun _ => 0, [.sramin, .sramex, .sramdtcm], [.mymalloc .sramdtcm 61440],
    rfl, fun t ht => ?_⟩, ?_⟩
  · rw [List.mem_singleton.mp ht]
    trivial
  · rw [Machine.run_cons, Machine.run_nil, step_mymalloc_dev, start_fresh, full_dev]

/-- With that pool full, `ETH_Mem_Malloc` returns 0 although every request has returned `NULL`. -/
theorem full_not_allOrNothing :
    (∃ s, Reachable exampleLayout s ∧ s.dev = Board.full.dev) ∧
      (ethMemMalloc exampleLayout exampleVars .full).2 = 0 ∧
      ¬AllOrNothing Board.full.dev (ethMemMalloc exampleLayout exampleVars .full).1.eth.pointers
        (ethMemMalloc exampleLayout exampleVars .full) := by
  refine ⟨reachable_full, (ethMemMalloc_spec exampleLayout exampleVars .full).2, ?_⟩
  rw [ethMemMalloc_allOrNothing_iff, allServed_iff_room exampleLayout full_memrdy ethRequests_pos]
  rintro ⟨s, hhigh, -⟩
  have hin : s + 3 ≤ 960 := hhigh.free.1
  have hpos : 0 < blocks (ethRxbufnb * sizeofDmaDesc).toNat := by decide
  have hzero := hhigh.free.2 s ⟨Nat.le_refl _, Nat.lt_add_of_pos_right hpos⟩
  rw [full_memmap (by omega)] at hzero
  cases hzero

end PlcFirmware.Malloc
