import PlcFirmware.Malloc.Invariant
import PlcFirmware.Malloc.Requests

/-!
# `lwip_comm_init`

What the start of lwIP does with the pools: `ETH_Mem_Malloc` takes the descriptors and the buffers of
the Ethernet driver from one pool, `lwip_comm_mem_malloc` the memory of lwIP from another, and then the
PHY is initialised and the network interface added. `main` calls `lwip_comm_init` until it returns 0.

The size of the memory pools of lwIP, the PHY and `netif_add` are parameters.

* `lwipCommInit_restores_iff` — when a call which fails gives back what it has taken
-/

namespace PlcFirmware.Malloc

/-! ## `ETH_Mem_Malloc` -/

/-- `ETH_RXBUFNB` and `ETH_TXBUFNB` -/
def ethRxbufnb : UInt32 := 5
def ethTxbufnb : UInt32 := 5

/-- `ETH_RX_BUF_SIZE` and `ETH_TX_BUF_SIZE` -/
def ethRxBufSize : UInt32 := 1524
def ethTxBufSize : UInt32 := 1524

/-- `sizeof(ETH_DMADescTypeDef)` -/
def sizeofDmaDesc : UInt32 := 32

/-- The address of a global variable. -/
structure VarAddr where
  addr : Nat
  pos : 0 < addr

/-- `&DMARxDscrTab`, `&DMATxDscrTab`, `&Rx_Buff` and `&Tx_Buff` -/
structure EthVars where
  dmaRxDscrTab : VarAddr
  dmaTxDscrTab : VarAddr
  rxBuff : VarAddr
  txBuff : VarAddr

/-- The pointers of the Ethernet driver. -/
structure EthMem where
  dmaRxDscrTab : Nat
  dmaTxDscrTab : Nat
  rxBuff : Nat
  txBuff : Nat

/-- The pointers of lwIP. -/
structure LwipMem where
  mempMemory : Nat
  ramHeap : Nat
  tcpipThreadTaskStk : Nat
  lwipDhcpTaskStk : Nat

/-- The pools, and the pointers into them. -/
structure Board where
  dev : MallcoDev
  eth : EthMem
  lwip : LwipMem

/-- `ETH_Mem_Free` -/
def ethMemFree (L : Layout) (b : Board) : Board :=
  let dev := myfree L .sramdtcm b.eth.dmaRxDscrTab b.dev
  let dev := myfree L .sramdtcm b.eth.dmaTxDscrTab dev
  let dev := myfree L .sramdtcm b.eth.rxBuff dev
  let dev := myfree L .sramdtcm b.eth.txBuff dev
  { b with dev := dev }

/-- `ETH_Mem_Malloc`. It looks at the addresses of the pointers, not at the pointers. -/
def ethMemMalloc (L : Layout) (V : EthVars) (b : Board) : Board × Nat :=
  let (dev, dmaRxDscrTab) := mymalloc L .sramdtcm (ethRxbufnb * sizeofDmaDesc) b.dev
  let (dev, dmaTxDscrTab) := mymalloc L .sramdtcm (ethTxbufnb * sizeofDmaDesc) dev
  let (dev, rxBuff) := mymalloc L .sramdtcm (ethRxBufSize * ethRxbufnb) dev
  let (dev, txBuff) := mymalloc L .sramdtcm (ethTxBufSize * ethTxbufnb) dev
  let b := { b with dev := dev, eth := ⟨dmaRxDscrTab, dmaTxDscrTab, rxBuff, txBuff⟩ }
  if V.dmaRxDscrTab.addr = 0 ∨ V.dmaTxDscrTab.addr = 0 ∨ V.rxBuff.addr = 0 ∨ V.txBuff.addr = 0 then
    (ethMemFree L b, 1)
  else (b, 0)

/-! ## `lwip_comm_mem_malloc` -/

/-- `LWIP_MEM_ALIGN_SIZE(MEM_SIZE)+2*LWIP_MEM_ALIGN_SIZE(4*3)+MEM_ALIGNMENT` -/
def ramheapsize : UInt32 := 16000 + 2 * 12 + 4

/-- `TCPIP_THREAD_STACKSIZE` and `LWIP_DHCP_STK_SIZE` -/
def tcpipThreadStacksize : UInt32 := 1000
def lwipDhcpStkSize : UInt32 := 128

/-- `lwip_comm_mem_free` -/
def lwipCommMemFree (L : Layout) (b : Board) : Board :=
  let dev := myfree L .sramin b.lwip.mempMemory b.dev
  let dev := myfree L .sramin b.lwip.ramHeap dev
  let dev := myfree L .sramin b.lwip.tcpipThreadTaskStk dev
  let dev := myfree L .sramin b.lwip.lwipDhcpTaskStk dev
  { b with dev := dev }

/-- `lwip_comm_mem_malloc`; `mempsize` is what `memp_get_memorysize` returns. -/
def lwipCommMemMalloc (L : Layout) (mempsize : UInt32) (b : Board) : Board × Nat :=
  let (dev, mempMemory) := mymalloc L .sramin mempsize b.dev
  let (dev, ramHeap) := mymalloc L .sramin ramheapsize dev
  let (dev, tcpipThreadTaskStk) := mymalloc L .sramin (tcpipThreadStacksize * 4) dev
  let (dev, lwipDhcpTaskStk) := mymalloc L .sramin (lwipDhcpStkSize * 4) dev
  let b := { b with dev := dev, lwip := ⟨mempMemory, ramHeap, tcpipThreadTaskStk, lwipDhcpTaskStk⟩ }
  if mempMemory = 0 ∨ ramHeap = 0 ∨ tcpipThreadTaskStk = 0 ∨ lwipDhcpTaskStk = 0 then
    (lwipCommMemFree L b, 1)
  else (b, 0)

/-! ## `lwip_comm_init` -/

/--
The loop over `LAN8720_Init`: try `retry` succeeds or not, and after it `left` more are made. It tells
whether one of them succeeds.
-/
def lan8720Retry (lan8720Init : Nat → Bool) : (left retry : Nat) → Bool
  | 0, retry => lan8720Init retry
  | left + 1, retry =>
    if lan8720Init retry then true else lan8720Retry lan8720Init left (retry + 1)

/-- The world around `lwip_comm_init`: which try of `LAN8720_Init`, and whether `netif_add`,
succeeds. -/
structure Outcomes where
  lan8720Init : Nat → Bool
  netifAdd : Bool

/-- `lwip_comm_init` -/
def lwipCommInit (L : Layout) (V : EthVars) (mempsize : UInt32) (O : Outcomes) (b : Board) :
    Board × Nat :=
  let (b, err) := ethMemMalloc L V b
  if err ≠ 0 then (b, 1)
  else
    let (b, err) := lwipCommMemMalloc L mempsize b
    if err ≠ 0 then (b, 1)
    else if lan8720Retry O.lan8720Init 5 0 = false then (b, 2)
    else if O.netifAdd = false then (b, 3)
    else (b, 0)

/-! ## What the two helpers do -/

variable {L : Layout} {V : EthVars} {mempsize : UInt32} {O : Outcomes} {b : Board}

/-- What `ETH_Mem_Malloc` asks for. -/
def ethRequests : List UInt32 :=
  [ethRxbufnb * sizeofDmaDesc, ethTxbufnb * sizeofDmaDesc, ethRxBufSize * ethRxbufnb,
    ethTxBufSize * ethTxbufnb]

/-- What `lwip_comm_mem_malloc` asks for. -/
def lwipRequests (mempsize : UInt32) : List UInt32 :=
  [mempsize, ramheapsize, tcpipThreadStacksize * 4, lwipDhcpStkSize * 4]

/-- **`ETH_Mem_Malloc` never fails**, and never frees. -/
theorem ethMemMalloc_spec (L : Layout) (V : EthVars) (b : Board) :
    (ethMemMalloc L V b).1.dev = (mallocs L .sramdtcm ethRequests b.dev).1 ∧
      (ethMemMalloc L V b).2 = 0 := by
  have hvars : ¬(V.dmaRxDscrTab.addr = 0 ∨ V.dmaTxDscrTab.addr = 0 ∨ V.rxBuff.addr = 0 ∨
      V.txBuff.addr = 0) := by
    have := V.dmaRxDscrTab.pos
    have := V.dmaTxDscrTab.pos
    have := V.rxBuff.pos
    have := V.txBuff.pos
    omega
  rcases h1 : mymalloc L .sramdtcm (ethRxbufnb * sizeofDmaDesc) b.dev with ⟨d1, p1⟩
  rcases h2 : mymalloc L .sramdtcm (ethTxbufnb * sizeofDmaDesc) d1 with ⟨d2, p2⟩
  rcases h3 : mymalloc L .sramdtcm (ethRxBufSize * ethRxbufnb) d2 with ⟨d3, p3⟩
  rcases h4 : mymalloc L .sramdtcm (ethTxBufSize * ethTxbufnb) d3 with ⟨d4, p4⟩
  simp only [ethMemMalloc, ethRequests, mallocs_cons, mallocs_nil, h1, h2, h3, h4, if_neg hvars,
    and_self]

/-- All the requests can be served, one after the other. -/
def AllServed (L : Layout) (memx : Pool) (sizes : List UInt32) (d : MallcoDev) : Prop :=
  0 ∉ (mallocs L memx sizes d).2

/-- `lwip_comm_mem_malloc` fails exactly if one of its requests does; then it frees the others. -/
theorem lwipCommMemMalloc_spec (L : Layout) (mempsize : UInt32) (b : Board) :
    let r := mallocs L .sramin (lwipRequests mempsize) b.dev
    (AllServed L .sramin (lwipRequests mempsize) b.dev ∧
        (lwipCommMemMalloc L mempsize b).1.dev = r.1 ∧ (lwipCommMemMalloc L mempsize b).2 = 0) ∨
      (¬AllServed L .sramin (lwipRequests mempsize) b.dev ∧
        (lwipCommMemMalloc L mempsize b).1.dev = frees L .sramin r.2 r.1 ∧
          (lwipCommMemMalloc L mempsize b).2 = 1) := by
  rcases h1 : mymalloc L .sramin mempsize b.dev with ⟨d1, p1⟩
  rcases h2 : mymalloc L .sramin ramheapsize d1 with ⟨d2, p2⟩
  rcases h3 : mymalloc L .sramin (tcpipThreadStacksize * 4) d2 with ⟨d3, p3⟩
  rcases h4 : mymalloc L .sramin (lwipDhcpStkSize * 4) d3 with ⟨d4, p4⟩
  have hr : mallocs L .sramin (lwipRequests mempsize) b.dev = (d4, [p1, p2, p3, p4]) := by
    simp only [lwipRequests, mallocs_cons, mallocs_nil, h1, h2, h3, h4]
  have hserved : AllServed L .sramin (lwipRequests mempsize) b.dev ↔
      ¬(p1 = 0 ∨ p2 = 0 ∨ p3 = 0 ∨ p4 = 0) := by
    simp [AllServed, hr, eq_comm]
  rw [hserved, hr]
  simp only [lwipCommMemMalloc, h1, h2, h3, h4]
  by_cases hnull : p1 = 0 ∨ p2 = 0 ∨ p3 = 0 ∨ p4 = 0
  · rw [if_pos hnull]
    exact .inr ⟨not_not.mpr hnull, rfl, rfl⟩
  · rw [if_neg hnull]
    exact .inl ⟨hnull, rfl, rfl⟩

/-! ## When nothing is lost -/

/-- The tables of all pools are as they were. -/
def SameMaps (d e : MallcoDev) : Prop := ∀ q, e.memmap q = d.memmap q

/-- **`lwip_comm_mem_malloc` gives back what it has taken if it fails.** -/
theorem lwipCommMemMalloc_maps (L : Layout) (mempsize : UInt32) (hin : b.dev.memrdy .sramin = true) :
    (AllServed L .sramin (lwipRequests mempsize) b.dev ∧ (lwipCommMemMalloc L mempsize b).2 = 0 ∧
        (lwipCommMemMalloc L mempsize b).1.dev.memmap .sramin ≠ b.dev.memmap .sramin) ∨
      (¬AllServed L .sramin (lwipRequests mempsize) b.dev ∧ (lwipCommMemMalloc L mempsize b).2 = 1 ∧
        SameMaps b.dev (lwipCommMemMalloc L mempsize b).1.dev) := by
  rcases lwipCommMemMalloc_spec L mempsize b with ⟨hs, hdev, hret⟩ | ⟨hs, hdev, hret⟩
  · refine .inl ⟨hs, hret, ?_⟩
    rw [hdev, Ne, mallocs_memmap_eq_iff hin]
    intro hnone
    have hfirst := hnone mempsize List.mem_cons_self
    exact hs (by rw [lwipRequests, mallocs_cons, hfirst]; exact List.mem_cons_self)
  · refine .inr ⟨hs, hret, fun q => ?_⟩
    rw [hdev, frees_mallocs L _ hin q]

/-- The call succeeds: lwIP gets its memory, one of six tries finds the PHY, and the interface is
added. -/
def Succeeds (L : Layout) (mempsize : UInt32) (O : Outcomes) (d : MallcoDev) : Prop :=
  AllServed L .sramin (lwipRequests mempsize) d ∧ lan8720Retry O.lan8720Init 5 0 = true ∧
    O.netifAdd = true

/-- The call fails for want of memory for lwIP, and there is none for the Ethernet driver either. -/
def TakesNothing (L : Layout) (mempsize : UInt32) (d : MallcoDev) : Prop :=
  ¬AllServed L .sramin (lwipRequests mempsize) d ∧
    ∀ size ∈ ethRequests, (mymalloc L .sramdtcm size d).2 = 0

/-- What `lwip_comm_init` does behind `ETH_Mem_Malloc`. -/
theorem lwipCommInit_eq (L : Layout) (V : EthVars) (mempsize : UInt32) (O : Outcomes) (b : Board) :
    let e := (ethMemMalloc L V b).1
    lwipCommInit L V mempsize O b =
      if (lwipCommMemMalloc L mempsize e).2 ≠ 0 then ((lwipCommMemMalloc L mempsize e).1, 1)
      else if lan8720Retry O.lan8720Init 5 0 = false then ((lwipCommMemMalloc L mempsize e).1, 2)
      else if O.netifAdd = false then ((lwipCommMemMalloc L mempsize e).1, 3)
      else ((lwipCommMemMalloc L mempsize e).1, 0) := by
  have heth := (ethMemMalloc_spec L V b).2
  simp only [lwipCommInit, heth, ne_eq, not_true_eq_false, if_false]

/-- Behind `ETH_Mem_Malloc`, nothing but the table of its pool is different. -/
theorem only_ethMemMalloc (L : Layout) (V : EthVars) (hdtcm : b.dev.memrdy .sramdtcm = true) :
    Only .sramdtcm b.dev (ethMemMalloc L V b).1.dev := by
  rw [(ethMemMalloc_spec L V b).1]
  exact only_mallocs L ethRequests hdtcm

/-- It leaves the tables as they are if none of its requests can be served. -/
theorem ethMemMalloc_maps_iff (L : Layout) (V : EthVars) (hdtcm : b.dev.memrdy .sramdtcm = true) :
    SameMaps b.dev (ethMemMalloc L V b).1.dev ↔
      ∀ size ∈ ethRequests, (mymalloc L .sramdtcm size b.dev).2 = 0 := by
  have honly := only_ethMemMalloc L V hdtcm
  rw [← mallocs_memmap_eq_iff hdtcm, ← (ethMemMalloc_spec L V b).1]
  refine ⟨fun h => h .sramdtcm, fun h q => ?_⟩
  by_cases hq : q = .sramdtcm
  · rw [hq]
    exact h
  · exact honly.others q hq

/-- **When `lwip_comm_init` succeeds, and what a call which fails keeps.** -/
theorem lwipCommInit_spec (L : Layout) (V : EthVars) (mempsize : UInt32) (O : Outcomes)
    (hin : b.dev.memrdy .sramin = true) (hdtcm : b.dev.memrdy .sramdtcm = true) :
    ((lwipCommInit L V mempsize O b).2 = 0 ↔ Succeeds L mempsize O b.dev) ∧
      ((lwipCommInit L V mempsize O b).2 ≠ 0 →
        (SameMaps b.dev (lwipCommInit L V mempsize O b).1.dev ↔ TakesNothing L mempsize b.dev)) := by
  have honly := only_ethMemMalloc L V hdtcm
  have hin' : (ethMemMalloc L V b).1.dev.memrdy .sramin = true := by
    rw [honly.memrdy]
    exact hin
  have hserved : AllServed L .sramin (lwipRequests mempsize) (ethMemMalloc L V b).1.dev ↔
      AllServed L .sramin (lwipRequests mempsize) b.dev := by
    rw [AllServed, AllServed, mallocs_congr hin hin' (honly.others .sramin (by decide))]
  rw [lwipCommInit_eq]
  rcases lwipCommMemMalloc_maps L mempsize hin' with ⟨hs, hret, hmap⟩ | ⟨hs, hret, hmap⟩
  · -- the memory of lwIP stays with it
    rw [hserved] at hs
    have hlost : ¬SameMaps b.dev (lwipCommMemMalloc L mempsize (ethMemMalloc L V b).1).1.dev := by
      intro h
      rw [h .sramin, honly.others .sramin (by decide)] at hmap
      exact hmap rfl
    have hno : ¬TakesNothing L mempsize b.dev := fun h => h.1 hs
    simp only [hret, ne_eq, not_true_eq_false, if_false, Succeeds, hs, hno, true_and]
    cases lan8720Retry O.lan8720Init 5 0 with
    | false => simp [hlost]
    | true =>
      cases O.netifAdd with
      | false => simp [hlost]
      | true => simp
  · rw [hserved] at hs
    have hiff : SameMaps b.dev (lwipCommMemMalloc L mempsize (ethMemMalloc L V b).1).1.dev ↔
        SameMaps b.dev (ethMemMalloc L V b).1.dev :=
      forall_congr' fun q => by rw [hmap q]
    simp only [hret, ne_eq, Nat.one_ne_zero, not_false_eq_true, if_true, Succeeds, hs, false_and,
      TakesNothing, true_and, forall_const, hiff]
    exact ethMemMalloc_maps_iff L V hdtcm

/--
**A call of `lwip_comm_init` which returns an error has given back what it has taken if and only if**
it has taken nothing.
-/
theorem lwipCommInit_restores_iff (L : Layout) (V : EthVars) (mempsize : UInt32) (O : Outcomes)
    {b : Board} (hin : b.dev.memrdy .sramin = true) (hdtcm : b.dev.memrdy .sramdtcm = true) :
    ((lwipCommInit L V mempsize O b).2 ≠ 0 →
        SameMaps b.dev (lwipCommInit L V mempsize O b).1.dev) ↔
      Succeeds L mempsize O b.dev ∨ TakesNothing L mempsize b.dev := by
  obtain ⟨hzero, hmaps⟩ := lwipCommInit_spec L V mempsize O hin hdtcm
  by_cases hret : (lwipCommInit L V mempsize O b).2 = 0
  · exact iff_of_true (fun h => absurd hret h) (.inl (hzero.mp hret))
  · have hno : ¬Succeeds L mempsize O b.dev := fun h => hret (hzero.mpr h)
    rw [← hmaps hret]
    simp [hret, hno]

/-- The pools after `my_mem_init`, and no memory taken. -/
def Board.fresh : Board := ⟨⟨fun _ _ => 0, fun _ => true, fun _ => 0⟩, ⟨0, 0, 0, 0⟩, ⟨0, 0, 0, 0⟩⟩

/-- Four pointers of the Ethernet driver in the RAM. -/
def exampleVars : EthVars where
  dmaRxDscrTab := ⟨0x20030000, by decide⟩
  dmaTxDscrTab := ⟨0x20030004, by decide⟩
  rxBuff := ⟨0x20030008, by decide⟩
  txBuff := ⟨0x2003000C, by decide⟩

/-- A PHY which does not answer. -/
def deadPhy : Outcomes := ⟨fun _ => false, true⟩

/-- Pools in which everything is in use. -/
def Board.usedUp : Board := ⟨⟨fun _ _ => 1, fun _ => true, fun _ => 0⟩, ⟨0, 0, 0, 0⟩, ⟨0, 0, 0, 0⟩⟩

theorem mymalloc_usedUp (L : Layout) (memx : Pool) (size : UInt32) :
    (mymalloc L memx size Board.usedUp.dev).2 = 0 := by
  rcases mymalloc_cases L memx size Board.usedUp.dev with h | ⟨r, _, hpos, _, hfree, _⟩
  · rw [h]
  · rw [ready_of_memrdy rfl] at hfree
    exact absurd (hfree r.start ⟨Nat.le_refl _, by omega⟩) Nat.one_ne_zero

theorem takesNothing_usedUp (L : Layout) (mempsize : UInt32) :
    TakesNothing L mempsize Board.usedUp.dev := by
  refine ⟨not_not.mpr ?_, fun size _ => mymalloc_usedUp L .sramdtcm size⟩
  rw [lwipRequests, mallocs_cons, mymalloc_usedUp]
  exact List.mem_cons_self

/-- A call which keeps what it has taken, and one which fails and keeps nothing. -/
theorem lwipCommInit_restores_iff_deadPhy :
    (((lwipCommInit exampleLayout exampleVars 12000 deadPhy .fresh).2 ≠ 0 →
        SameMaps Board.fresh.dev
          (lwipCommInit exampleLayout exampleVars 12000 deadPhy .fresh).1.dev) ↔
      Succeeds exampleLayout 12000 deadPhy Board.fresh.dev ∨
        TakesNothing exampleLayout 12000 Board.fresh.dev) ∧
    (lwipCommInit exampleLayout exampleVars 12000 deadPhy .usedUp).2 ≠ 0 ∧
    SameMaps Board.usedUp.dev
      (lwipCommInit exampleLayout exampleVars 12000 deadPhy .usedUp).1.dev := by
  have hnothing := takesNothing_usedUp exampleLayout 12000
  have hspec := lwipCommInit_spec (b := .usedUp) exampleLayout exampleVars 12000 deadPhy rfl rfl
  have hfails : (lwipCommInit exampleLayout exampleVars 12000 deadPhy .usedUp).2 ≠ 0 :=
    fun h => hnothing.1 (hspec.1.mp h).1
  refine ⟨lwipCommInit_restores_iff exampleLayout exampleVars 12000 deadPhy rfl rfl, hfails, ?_⟩
  exact (lwipCommInit_restores_iff (b := .usedUp) exampleLayout exampleVars 12000 deadPhy rfl
    rfl).mpr (.inr hnothing) hfails

/-- With a PHY which does not answer, `lwip_comm_init` fails and keeps the memory. -/
theorem deadPhy_keeps_memory :
    (lwipCommInit exampleLayout exampleVars 12000 deadPhy .fresh).2 ≠ 0 ∧
      ¬SameMaps Board.fresh.dev
        (lwipCommInit exampleLayout exampleVars 12000 deadPhy .fresh).1.dev := by
  obtain ⟨hzero, hmaps⟩ :=
    lwipCommInit_spec (b := .fresh) exampleLayout exampleVars 12000 deadPhy rfl rfl
  have hret : (lwipCommInit exampleLayout exampleVars 12000 deadPhy .fresh).2 ≠ 0 :=
    fun h => absurd (hzero.mp h).2.1 (by decide)
  refine ⟨hret, fun h => ?_⟩
  have hnull := ((hmaps hret).mp h).2 (ethRxbufnb * sizeofDmaDesc) List.mem_cons_self
  have hserved : (mymalloc exampleLayout .sramdtcm (ethRxbufnb * sizeofDmaDesc) Board.fresh.dev).2 =
      0x2000EF40 := by decide +kernel
  rw [hserved] at hnull
  cases hnull

end PlcFirmware.Malloc
