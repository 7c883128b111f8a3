import Mathlib.Data.Fin.Basic
import PlcFirmware.Flash.Basic
import PlcFirmware.Infra.While

/-!
# Receiving frames

The receive side of the Ethernet driver: `HAL_ETH_GetReceivedFrame`, `low_level_input` and the loop of
`ETH_IRQHandler`. The descriptors are chained to a ring; a descriptor with the bit `OWN` belongs to
the DMA, the others hold what it has received. `rxBuff d` are the bytes behind `Buffer1Addr` of
descriptor `d`.

What lwIP does is a parameter: how it divides a frame over pbufs, if it has any, and whether it takes
the frame.
-/

namespace PlcFirmware.Eth

open Infra
open Flash (HalStatus)

/-- The descriptors of the ring; there are `ETH_RXBUFNB`. -/
abbrev RxDesc := Fin 5

/-- `Buffer2NextDescAddr`. The last descriptor is chained to the first. -/
def RxDesc.next (d : RxDesc) : RxDesc := d + 1

/-- `ETH_RX_BUF_SIZE` -/
def ethRxBufSize : Nat := 1524

def ethDmarxdescOwn : UInt32 := 0x80000000
def ethDmarxdescFl : UInt32 := 0x3FFF0000
def ethDmarxdescEs : UInt32 := 0x00008000
def ethDmarxdescFs : UInt32 := 0x00000200
def ethDmarxdescLs : UInt32 := 0x00000100

/-- `ETH_DMARXDESC_FRAMELENGTHSHIFT` -/
def ethDmarxdescFramelengthshift : UInt32 := 16

/-- `ETH_DMARxFrameInfos` -/
structure RxFrameInfos where
  fsRxDesc : RxDesc
  lsRxDesc : Option RxDesc
  segCount : Nat
  length : UInt32
  buffer : RxDesc

/--
`ETH_Handler` with the descriptors and their buffers. `rbus` is the flag of `DMASR` for a DMA which
has found no descriptor, `allocs` counts the calls of `pbuf_alloc`.
-/
structure EthHandler where
  status : RxDesc → UInt32
  rxBuff : RxDesc → Nat → UInt8
  rxDesc : RxDesc
  rxFrameInfos : RxFrameInfos
  lock : Bool
  rbus : Bool
  allocs : Nat

/-- The status of the descriptor which is next. -/
def EthHandler.current (h : EthHandler) : UInt32 := h.status h.rxDesc

/-- `HAL_ETH_GetReceivedFrame` -/
def halEthGetReceivedFrame (h : EthHandler) : EthHandler × HalStatus :=
  if h.lock then (h, .busy)
  else if h.current &&& ethDmarxdescOwn = 0 then
    let infos := h.rxFrameInfos
    if h.current &&& ethDmarxdescLs ≠ 0 then
      let segCount := infos.segCount + 1
      -- the last segment may be the only one
      let fsRxDesc := if segCount = 1 then h.rxDesc else infos.fsRxDesc
      ({ h with
          rxFrameInfos :=
            { fsRxDesc := fsRxDesc
              lsRxDesc := some h.rxDesc
              segCount := segCount
              length := (h.current &&& ethDmarxdescFl) >>> ethDmarxdescFramelengthshift - 4
              buffer := fsRxDesc }
          rxDesc := h.rxDesc.next
          lock := false }, .ok)
    else if h.current &&& ethDmarxdescFs ≠ 0 then
      ({ h with
          rxFrameInfos := { infos with fsRxDesc := h.rxDesc, lsRxDesc := none, segCount := 1 }
          rxDesc := h.rxDesc.next
          lock := false }, .error)
    else
      ({ h with
          rxFrameInfos := { infos with segCount := infos.segCount + 1 }
          rxDesc := h.rxDesc.next
          lock := false }, .error)
  else ({ h with lock := false }, .error)

/-! ## `low_level_input` -/

/-- `memcpy` from the buffer of a descriptor. -/
def copyFrom (rxBuff : RxDesc → Nat → UInt8) (d : RxDesc) (bufferoffset n : Nat) : List UInt8 :=
  (List.range n).map fun j => rxBuff d (bufferoffset + j)

/--
The body of the loop over the pbufs: the payload of a pbuf, the descriptor and the offset behind it.
-/
def fillPbuf (rxBuff : RxDesc → Nat → UInt8) (dmarxdesc : RxDesc) (bufferoffset byteslefttocopy : Nat) :
    List UInt8 × RxDesc × Nat :=
  if byteslefttocopy + bufferoffset > ethRxBufSize then
    let n := ethRxBufSize - bufferoffset
    let (rest, d, offset) := fillPbuf rxBuff dmarxdesc.next 0 (byteslefttocopy - n)
    (copyFrom rxBuff dmarxdesc bufferoffset n ++ rest, d, offset)
  else
    (copyFrom rxBuff dmarxdesc bufferoffset byteslefttocopy, dmarxdesc,
      bufferoffset + byteslefttocopy)
termination_by byteslefttocopy + bufferoffset
decreasing_by
  simp only [ethRxBufSize] at *
  omega

/-- The loop over the pbufs, which are given by their lengths. -/
def fillPbufs (rxBuff : RxDesc → Nat → UInt8) (dmarxdesc : RxDesc) (bufferoffset : Nat) :
    List Nat → List (List UInt8)
  | [] => []
  | len :: lens =>
    let (payload, d, offset) := fillPbuf rxBuff dmarxdesc bufferoffset len
    payload :: fillPbufs rxBuff d offset lens

/-- The loop which gives the descriptors of a frame back to the DMA. -/
def release (status : RxDesc → UInt32) (dmarxdesc : RxDesc) : (segCount : Nat) → (RxDesc → UInt32)
  | 0 => status
  | n + 1 =>
    release (Function.update status dmarxdesc (status dmarxdesc ||| ethDmarxdescOwn)) dmarxdesc.next n

/-- `ERR_OK`, `ERR_MEM` and the other errors of `netif->input` -/
inductive ErrT
  | ok
  | mem
  | val
  deriving DecidableEq

/--
lwIP. `pbufAlloc k len` is what call `k` returns for `len` bytes: the lengths of the pbufs, or `NULL`.
`input` is what it returns for the payloads.
-/
structure Lwip where
  pbufAlloc : Nat → UInt16 → Option (List Nat)
  input : List (List UInt8) → ErrT

/-- `low_level_input`: the payloads of the pbufs, or `NULL`. -/
def lowLevelInput (L : Lwip) (h : EthHandler) : EthHandler × Option (List (List UInt8)) :=
  match halEthGetReceivedFrame h with
  | (h, .ok) =>
    let len := h.rxFrameInfos.length.toUInt16
    let lens := if len > 0 then L.pbufAlloc h.allocs len else none
    let p := lens.map (fillPbufs h.rxBuff h.rxFrameInfos.fsRxDesc 0)
    ({ h with
        status := release h.status h.rxFrameInfos.fsRxDesc h.rxFrameInfos.segCount
        rxFrameInfos := { h.rxFrameInfos with segCount := 0 }
        rbus := false
        allocs := if len > 0 then h.allocs + 1 else h.allocs }, p)
  | (h, _) => (h, none)

/-- `ethernetif_input` -/
def ethernetifInput (L : Lwip) (h : EthHandler) : EthHandler × ErrT :=
  match lowLevelInput L h with
  | (h, none) => (h, .mem)
  | (h, some p) => (h, L.input p)

/-- `lwip_pkt_handle` -/
def lwipPktHandle (L : Lwip) (h : EthHandler) : EthHandler := (ethernetifInput L h).1

/-! ## `ETH_IRQHandler` -/

/-- `ETH_GetRxPktSize` -/
def ethGetRxPktSize (status : UInt32) : UInt32 :=
  if status &&& ethDmarxdescOwn = 0 ∧ status &&& ethDmarxdescEs = 0 ∧ status &&& ethDmarxdescLs ≠ 0 then
    (status &&& ethDmarxdescFl) >>> ethDmarxdescFramelengthshift
  else 0

/-- The loop of `ETH_IRQHandler`. -/
def ethIrqHandler (L : Lwip) : While EthHandler where
  cond := fun h => ethGetRxPktSize h.current ≠ 0
  body := lwipPktHandle L

end PlcFirmware.Eth
