import PlcFirmware.Infra.Cells
import PlcFirmware.Eth.Rx

/-!
# Sending frames

The transmit side of the Ethernet driver: `low_level_output` and `HAL_ETH_TransmitFrame`. The descriptors
are chained to a ring; a descriptor with the bit `OWN` belongs to the DMA, the others may be filled. The
buffers of the descriptors lie one behind the other in `Tx_Buff`.

A chain of pbufs is the list of its payloads.
-/

namespace PlcFirmware.Eth

open Infra
open Flash (HalStatus)

/-- The descriptors of the ring; there are `ETH_TXBUFNB`. -/
abbrev TxDesc := Fin 5

/-- `Buffer2NextDescAddr`. The descriptors are chained like those of the receive side. -/
def TxDesc.next (d : TxDesc) : TxDesc := RxDesc.next d

/-- `ETH_TX_BUF_SIZE` -/
def ethTxBufSize : Nat := 1524

/-- `Buffer1Addr`, counted from `Tx_Buff`. -/
def TxDesc.buffer1Addr (d : TxDesc) : Nat := d.val * ethTxBufSize

def ethDmatxdescOwn : UInt32 := 0x80000000
def ethDmatxdescLs : UInt32 := 0x20000000
def ethDmatxdescFs : UInt32 := 0x10000000
def ethDmatxdescTbs1 : UInt32 := 0x00001FFF

/-- `HAL_ETH_StateTypeDef` -/
inductive HalEthState
  | ready
  | busy
  | busyTx
  deriving DecidableEq

/--
`ETH_Handler` with the transmit descriptors and `Tx_Buff`. `tbus` and `tus` are the flags of `DMASR` for a
DMA which has found no descriptor, and for one which has run out of bytes.
-/
structure EthTxHandler where
  status : TxDesc → UInt32
  controlBufferSize : TxDesc → UInt32
  txBuff : Nat → UInt8
  txDesc : TxDesc
  lock : Bool
  state : HalEthState
  tbus : Bool
  tus : Bool

/-! ## `HAL_ETH_TransmitFrame` -/

/-- The number of buffers for a frame. -/
def bufcount (frameLength : Nat) : Nat :=
  if frameLength > ethTxBufSize then
    if frameLength % ethTxBufSize ≠ 0 then frameLength / ethTxBufSize + 1
    else frameLength / ethTxBufSize
  else 1

/-- The branch for a frame in one buffer. -/
def transmitSingle (frameLength : Nat) (h : EthTxHandler) : EthTxHandler :=
  let status := h.status h.txDesc ||| (ethDmatxdescFs ||| ethDmatxdescLs)
  { h with
    status := Function.update h.status h.txDesc (status ||| ethDmatxdescOwn)
    controlBufferSize := Function.update h.controlBufferSize h.txDesc
      (UInt32.ofNat frameLength &&& ethDmatxdescTbs1)
    txDesc := h.txDesc.next }

/-- Round `i` of the loop over the buffers. -/
def transmitSegment (frameLength bufcount : Nat) (h : EthTxHandler) (i : Nat) : EthTxHandler :=
  let status := h.status h.txDesc &&& ~~~(ethDmatxdescFs ||| ethDmatxdescLs)
  let status := if i = 0 then status ||| ethDmatxdescFs else status
  let status := if i = bufcount - 1 then status ||| ethDmatxdescLs else status
  let size :=
    if i = bufcount - 1 then frameLength - (bufcount - 1) * ethTxBufSize else ethTxBufSize
  { h with
    status := Function.update h.status h.txDesc (status ||| ethDmatxdescOwn)
    controlBufferSize := Function.update h.controlBufferSize h.txDesc
      (UInt32.ofNat size &&& ethDmatxdescTbs1)
    txDesc := h.txDesc.next }

/-- `HAL_ETH_TransmitFrame` -/
def halEthTransmitFrame (frameLength : Nat) (h : EthTxHandler) : EthTxHandler × HalStatus :=
  if h.lock then (h, .busy)
  else if frameLength = 0 then ({ h with state := .ready, lock := false }, .error)
  else if h.status h.txDesc &&& ethDmatxdescOwn ≠ 0 then
    ({ h with state := .busyTx, lock := false }, .error)
  else
    let n := bufcount frameLength
    let h :=
      if n = 1 then transmitSingle frameLength h
      else (List.range n).foldl (transmitSegment frameLength n) h
    ({ h with tbus := false, state := .ready, lock := false }, .ok)

/-! ## `low_level_output` -/

/-- `ERR_OK` and `ERR_USE` -/
inductive OutputErr
  | ok
  | use
  deriving DecidableEq

/-- The variables of the loops, with `Tx_Buff`. `buffer` is always that of `DmaTxDesc`. -/
structure TxCopy where
  txBuff : Nat → UInt8
  dmaTxDesc : TxDesc
  bufferoffset : Nat
  framelength : Nat

/-- `memcpy` from the payload of a pbuf to the buffer. -/
def TxCopy.memcpy (c : TxCopy) (payload : List UInt8) (payloadoffset n : Nat) : Nat → UInt8 :=
  store c.txBuff (c.dmaTxDesc.buffer1Addr + c.bufferoffset) ((payload.drop payloadoffset).take n)

/-- The loop for a pbuf. At `goto error` only `Tx_Buff` is left. -/
def copyPbuf (status : TxDesc → UInt32) (payload : List UInt8) (payloadoffset byteslefttocopy : Nat)
    (c : TxCopy) : Except (Nat → UInt8) TxCopy :=
  if byteslefttocopy + c.bufferoffset > ethTxBufSize then
    let n := ethTxBufSize - c.bufferoffset
    let txBuff := c.memcpy payload payloadoffset n
    let dmaTxDesc := c.dmaTxDesc.next
    if status dmaTxDesc &&& ethDmatxdescOwn ≠ 0 then .error txBuff
    else
      copyPbuf status payload (payloadoffset + n) (byteslefttocopy - n)
        { txBuff := txBuff, dmaTxDesc := dmaTxDesc, bufferoffset := 0,
          framelength := c.framelength + n }
  else
    .ok { txBuff := c.memcpy payload payloadoffset byteslefttocopy
          dmaTxDesc := c.dmaTxDesc
          bufferoffset := c.bufferoffset + byteslefttocopy
          framelength := c.framelength + byteslefttocopy }
termination_by byteslefttocopy + c.bufferoffset
decreasing_by
  simp only [ethTxBufSize] at *
  omega

/-- The loop over the chain. -/
def copyPbufs (status : TxDesc → UInt32) : List (List UInt8) → TxCopy → Except (Nat → UInt8) TxCopy
  | [], c => .ok c
  | q :: p, c =>
    if status c.dmaTxDesc &&& ethDmatxdescOwn ≠ 0 then .error c.txBuff
    else
      match copyPbuf status q 0 q.length c with
      | .ok c => copyPbufs status p c
      | .error txBuff => .error txBuff

/-- `low_level_output` -/
def lowLevelOutput (p : List (List UInt8)) (h : EthTxHandler) : EthTxHandler × OutputErr :=
  match copyPbufs h.status p ⟨h.txBuff, h.txDesc, 0, 0⟩ with
  | .ok c =>
    let h := (halEthTransmitFrame c.framelength { h with txBuff := c.txBuff }).1
    ({ h with tus := false }, .ok)
  | .error txBuff => ({ h with txBuff := txBuff, tus := false }, .use)

end PlcFirmware.Eth
