import PlcFirmware.Infra.Segments
import PlcFirmware.Eth.Drain

/-!
# The copy of a frame

A frame lies in the buffers of its descriptors, and `low_level_input` copies it to a chain of pbufs. The
two are cut at different places, so that the loop keeps an offset on each side. `Memcpy` are the calls of
`memcpy` it makes; `fillPbufs` is what the payloads hold afterwards.

* `memcpyPbuf_spec` — the loop for one pbuf
* `memcpyPbufs_spec` — the loop over the chain
* `lowLevelInput_spec` — what `low_level_input` does with a frame
-/

namespace PlcFirmware.Eth

open Infra

/-! ## The calls of `memcpy` -/

/-- A call of `memcpy` in `low_level_input`: to the payload of pbuf `q`, from the buffer of a descriptor. -/
structure Memcpy where
  q : Nat
  payloadoffset : Nat
  dmarxdesc : RxDesc
  bufferoffset : Nat
  n : Nat

/-- The calls for a pbuf, and the descriptor and the offset behind it. -/
def memcpyPbuf (q : Nat) (dmarxdesc : RxDesc) (bufferoffset payloadoffset byteslefttocopy : Nat) :
    List Memcpy × RxDesc × Nat :=
  if byteslefttocopy + bufferoffset > ethRxBufSize then
    let n := ethRxBufSize - bufferoffset
    let (calls, d, offset) :=
      memcpyPbuf q dmarxdesc.next 0 (payloadoffset + n) (byteslefttocopy - n)
    (⟨q, payloadoffset, dmarxdesc, bufferoffset, n⟩ :: calls, d, offset)
  else
    ([⟨q, payloadoffset, dmarxdesc, bufferoffset, byteslefttocopy⟩], dmarxdesc,
      bufferoffset + byteslefttocopy)
termination_by byteslefttocopy + bufferoffset
decreasing_by
  simp only [ethRxBufSize] at *
  omega

/-- The calls for the pbufs from `q` on, which are given by their lengths. -/
def memcpyPbufs (q : Nat) (dmarxdesc : RxDesc) (bufferoffset : Nat) : List Nat → List Memcpy
  | [] => []
  | len :: lens =>
    let (calls, d, offset) := memcpyPbuf q dmarxdesc bufferoffset 0 len
    calls ++ memcpyPbufs (q + 1) d offset lens

/-- `memcpy`, on the payloads of the pbufs. -/
def Memcpy.run (rxBuff : RxDesc → Nat → UInt8) (payloads : Nat → Nat → UInt8) (m : Memcpy) :
    Nat → Nat → UInt8 :=
  Function.update payloads m.q
    (store (payloads m.q) m.payloadoffset (copyFrom rxBuff m.dmarxdesc m.bufferoffset m.n))

/-! ## The segments -/

/-- The descriptor `j` places on in the chain. -/
def RxDesc.place (d : RxDesc) (j : Nat) : RxDesc := RxDesc.next^[j] d

theorem RxDesc.place_zero (d : RxDesc) : d.place 0 = d := rfl

theorem RxDesc.next_of_place (d : RxDesc) (j : Nat) : (d.place j).next = d.place (j + 1) :=
  (Function.iterate_succ_apply' RxDesc.next j d).symm

/-- The bytes in the buffers of the descriptors from the first on. -/
def bytesFrom (rxBuff : RxDesc → Nat → UInt8) (first : RxDesc) : Nat → UInt8 :=
  overBuffers ethRxBufSize fun s => rxBuff (first.place s)

/-- The call reads within the buffer of a segment, and not behind the first `total` bytes. -/
def Memcpy.Inside (first : RxDesc) (total : Nat) (m : Memcpy) : Prop :=
  ∃ s, m.dmarxdesc = first.place s ∧ m.bufferoffset + m.n ≤ ethRxBufSize ∧
    s * ethRxBufSize + m.bufferoffset + m.n ≤ total

/-! ## One pbuf -/

/-- The calls copy the bytes from `pos` on to a pbuf. -/
structure Copies (first : RxDesc) (q payloadoffset pos left : Nat) (calls : List Memcpy) : Prop where
  inside : ∀ m ∈ calls, m.Inside first (pos + left)
  run : ∀ rxBuff payloads, calls.foldl (Memcpy.run rxBuff) payloads =
    Function.update payloads q
      (store (payloads q) payloadoffset (window (bytesFrom rxBuff first) pos left))

variable {first : RxDesc} {q payloadoffset pos s offset left n : Nat}

theorem copyFrom_eq (rxBuff : RxDesc → Nat → UInt8) (h : offset + n ≤ ethRxBufSize) :
    copyFrom rxBuff (first.place s) offset n =
      window (bytesFrom rxBuff first) (s * ethRxBufSize + offset) n := by
  rw [bytesFrom, ← window_overBuffers h, copyFrom, window, List.range'_eq_map_range, List.map_map]
  rfl

theorem Memcpy.Inside.mono {m : Memcpy} {total total' : Nat} (h : m.Inside first total)
    (hle : total ≤ total') : m.Inside first total' := by
  obtain ⟨s, hd, hbuf, htotal⟩ := h
  exact ⟨s, hd, hbuf, htotal.trans hle⟩

theorem Copies.single (h : offset + n ≤ ethRxBufSize) :
    Copies first q payloadoffset (s * ethRxBufSize + offset) n
      [⟨q, payloadoffset, first.place s, offset, n⟩] where
  inside := List.forall_mem_singleton.mpr ⟨s, rfl, h, Nat.le_refl _⟩
  run := fun rxBuff payloads => by
    rw [List.foldl_cons, List.foldl_nil, Memcpy.run, copyFrom_eq rxBuff h]

/-- Behind the bytes which have been copied the next are copied. -/
theorem Copies.cons {m : Memcpy} {calls : List Memcpy} (hm : Copies first q payloadoffset pos n [m])
    (hcalls : Copies first q (payloadoffset + n) (pos + n) left calls) :
    Copies first q payloadoffset pos (n + left) (m :: calls) where
  inside := by
    refine List.forall_mem_cons.mpr ⟨?_, fun m hmem => ?_⟩
    · exact (List.forall_mem_singleton.mp hm.inside).mono (by omega)
    · exact (hcalls.inside m hmem).mono (by omega)
  run := fun rxBuff payloads => by
    have hfirst := hm.run rxBuff payloads
    rw [List.foldl_cons, List.foldl_nil] at hfirst
    have hjoin := store_append (payloads q) payloadoffset (window (bytesFrom rxBuff first) pos n)
      (window (bytesFrom rxBuff first) (pos + n) left)
    rw [length_window, window_append] at hjoin
    rw [List.foldl_cons, hfirst, hcalls.run, Function.update_self, Function.update_idem, hjoin]

/--
**The loop for a pbuf** copies the next bytes of the frame, and ends in the descriptor and at the offset
behind them.
-/
theorem memcpyPbuf_spec (first : RxDesc) (s q payloadoffset left : Nat)
    (hoffset : offset ≤ ethRxBufSize) :
    ∃ calls s' offset', memcpyPbuf q (first.place s) offset payloadoffset left =
        (calls, first.place s', offset') ∧
      s * ethRxBufSize + offset + left = s' * ethRxBufSize + offset' ∧ offset' ≤ ethRxBufSize ∧
      Copies first q payloadoffset (s * ethRxBufSize + offset) left calls ∧
      ∀ rxBuff, fillPbuf rxBuff (first.place s) offset left =
        (window (bytesFrom rxBuff first) (s * ethRxBufSize + offset) left,
          first.place s', offset') := by
  induction hm : left + offset using Nat.strong_induction_on
    generalizing s offset payloadoffset left with
  | _ m ih =>
    by_cases hmore : left + offset > ethRxBufSize
    · -- the rest of the buffer, and then the pbuf goes on in the next
      have hfits : offset + (ethRxBufSize - offset) ≤ ethRxBufSize := by omega
      have hnext : (first.place s).next = first.place (s + 1) :=
        first.next_of_place s
      have hpos : s * ethRxBufSize + offset + (ethRxBufSize - offset) =
          (s + 1) * ethRxBufSize + 0 := by
        rw [Nat.succ_mul]
        omega
      obtain ⟨calls, s', offset', heq, hplace, hend, hcopies, hfill⟩ :=
        ih (left - (ethRxBufSize - offset) + 0) (by rw [ethRxBufSize] at *; omega) (s + 1)
          (payloadoffset + (ethRxBufSize - offset)) (left - (ethRxBufSize - offset))
          (Nat.zero_le _) rfl
      have hleft : ethRxBufSize - offset + (left - (ethRxBufSize - offset)) = left := by omega
      refine ⟨⟨q, payloadoffset, first.place s, offset, ethRxBufSize - offset⟩ :: calls, s',
        offset', ?_, by omega, hend, ?_, fun rxBuff => ?_⟩
      · rw [memcpyPbuf, if_pos hmore, hnext]
        simp only [heq]
      · rw [← hpos] at hcopies
        have hcons := (Copies.single hfits).cons hcopies
        rwa [hleft] at hcons
      · have hjoin := window_append (bytesFrom rxBuff first) (s * ethRxBufSize + offset)
          (ethRxBufSize - offset) (left - (ethRxBufSize - offset))
        rw [hleft, hpos] at hjoin
        rw [fillPbuf, if_pos hmore, hnext]
        simp only [hfill, copyFrom_eq rxBuff hfits, hjoin]
    · have hfits : offset + left ≤ ethRxBufSize := by omega
      refine ⟨[⟨q, payloadoffset, first.place s, offset, left⟩], s, offset + left, ?_,
        by omega, hfits, .single hfits, fun rxBuff => ?_⟩
      · rw [memcpyPbuf, if_neg hmore]
      · rw [fillPbuf, if_neg hmore, copyFrom_eq rxBuff hfits]

/-! ## The chain -/

/-- The calls copy the bytes from `pos` on to the pbufs from `q` on. -/
structure CopiesAll (first : RxDesc) (q pos : Nat) (lens : List Nat) (calls : List Memcpy) : Prop where
  inside : ∀ m ∈ calls, m.Inside first (pos + lens.sum)
  run : ∀ rxBuff payloads i, calls.foldl (Memcpy.run rxBuff) payloads i =
    store (payloads i) 0 (if q ≤ i then (windows (bytesFrom rxBuff first) pos lens).getD (i - q) []
      else [])

theorem CopiesAll.nil : CopiesAll first q pos [] [] where
  inside := List.forall_mem_nil _
  run := fun rxBuff payloads i => by simp [windows, store]

theorem CopiesAll.cons {len : Nat} {lens : List Nat} {calls rest : List Memcpy}
    (hcalls : Copies first q 0 pos len calls) (hrest : CopiesAll first (q + 1) (pos + len) lens rest) :
    CopiesAll first q pos (len :: lens) (calls ++ rest) where
  inside := by
    rw [List.sum_cons]
    refine List.forall_mem_append.mpr ⟨fun m hm => ?_, fun m hm => ?_⟩
    · exact (hcalls.inside m hm).mono (by omega)
    · exact (hrest.inside m hm).mono (by omega)
  run := fun rxBuff payloads i => by
    rw [List.foldl_append, hrest.run, hcalls.run, windows]
    by_cases hi : i = q
    · subst hi
      rw [Function.update_self, if_neg (by omega), if_pos (Nat.le_refl _), Nat.sub_self,
        List.getD_cons_zero]
      rfl
    · rw [Function.update_of_ne hi]
      by_cases hle : q + 1 ≤ i
      · rw [if_pos hle, if_pos (by omega), show i - q = i - (q + 1) + 1 by omega,
          List.getD_cons_succ]
      · rw [if_neg hle, if_neg (by omega)]

/-- **The loop over the chain** cuts the frame at the ends of the pbufs. -/
theorem memcpyPbufs_spec (first : RxDesc) (s q : Nat) (lens : List Nat)
    (hoffset : offset ≤ ethRxBufSize) :
    CopiesAll first q (s * ethRxBufSize + offset) lens
        (memcpyPbufs q (first.place s) offset lens) ∧
      ∀ rxBuff, fillPbufs rxBuff (first.place s) offset lens =
        windows (bytesFrom rxBuff first) (s * ethRxBufSize + offset) lens := by
  induction lens generalizing q s offset with
  | nil => exact ⟨.nil, fun _ => rfl⟩
  | cons len lens ih =>
    obtain ⟨calls, s', offset', heq, hplace, hend, hcopies, hfill⟩ :=
      memcpyPbuf_spec first s q 0 len hoffset
    obtain ⟨hall, hrest⟩ := ih s' (q + 1) hend
    rw [memcpyPbufs, heq]
    rw [← hplace] at hall
    refine ⟨.cons hcopies hall, fun rxBuff => ?_⟩
    rw [fillPbufs, hfill rxBuff, windows, hplace]
    simp only [hrest]

/-! ## `low_level_input` -/

variable {L : Lwip} {h r : EthHandler}

/-- The first bytes of the segment buffers, as many as the frame is long. -/
def EthHandler.frame (r : EthHandler) : List UInt8 :=
  ((List.range r.rxFrameInfos.segCount).flatMap fun j =>
    copyFrom r.rxBuff (r.rxFrameInfos.fsRxDesc.place j) 0 ethRxBufSize).take
      r.rxFrameInfos.length.toNat

/-- The chain of pbufs of these lengths has been filled with the frame. -/
structure Filled (r : EthHandler) (lens : List Nat) (payloads : List (List UInt8)) : Prop where
  lengths : payloads.map List.length = lens
  bytes : payloads.flatten = r.frame
  /-- Nothing else is written to the payloads. -/
  written : ∀ mem q, (memcpyPbufs 0 r.rxFrameInfos.fsRxDesc 0 lens).foldl (Memcpy.run r.rxBuff) mem q =
    store (mem q) 0 (payloads.getD q [])
  /-- Nothing is read but the segment buffers. -/
  inside : ∀ m ∈ memcpyPbufs 0 r.rxFrameInfos.fsRxDesc 0 lens,
    m.bufferoffset + m.n ≤ ethRxBufSize ∧ (0 < m.n → ∃ j < r.rxFrameInfos.segCount,
      m.dmarxdesc = r.rxFrameInfos.fsRxDesc.place j)

/-- The descriptors of the frame, and no others, have been given back to the DMA. -/
structure Returned (r r' : EthHandler) : Prop where
  given : ∀ j < r.rxFrameInfos.segCount, Owned (r'.status (r.rxFrameInfos.fsRxDesc.place j))
  kept : ∀ d, (∀ j < r.rxFrameInfos.segCount, d ≠ r.rxFrameInfos.fsRxDesc.place j) →
    r'.status d = r.status d
  segCount : r'.rxFrameInfos.segCount = 0

theorem frame_eq (hfits : r.rxFrameInfos.length.toNat ≤ r.rxFrameInfos.segCount * ethRxBufSize) :
    r.frame = window (bytesFrom r.rxBuff r.rxFrameInfos.fsRxDesc) 0 r.rxFrameInfos.length.toNat := by
  have hcopy : ∀ d : RxDesc, copyFrom r.rxBuff d 0 ethRxBufSize = window (r.rxBuff d) 0 ethRxBufSize := by
    intro d
    rw [copyFrom, window, List.range'_eq_map_range, List.map_map]
    rfl
  simp only [EthHandler.frame, hcopy]
  rw [flatMap_window_full fun j => r.rxBuff (r.rxFrameInfos.fsRxDesc.place j), take_window,
    Nat.min_eq_left hfits]
  rfl

/-- **What the chain holds**, if it is as long as the frame and the frame fits in its segments. -/
theorem filled_of_sum (r : EthHandler) {lens : List Nat} (hsum : lens.sum = r.rxFrameInfos.length.toNat)
    (hfits : r.rxFrameInfos.length.toNat ≤ r.rxFrameInfos.segCount * ethRxBufSize) :
    Filled r lens (fillPbufs r.rxBuff r.rxFrameInfos.fsRxDesc 0 lens) := by
  obtain ⟨hcalls, hfill⟩ :=
    memcpyPbufs_spec r.rxFrameInfos.fsRxDesc 0 0 lens (Nat.zero_le ethRxBufSize)
  rw [RxDesc.place_zero, Nat.zero_mul] at hcalls
  simp only [RxDesc.place_zero, Nat.zero_mul] at hfill
  rw [hfill]
  refine ⟨map_length_windows _ _ _, ?_, fun mem q => ?_, fun m hm => ?_⟩
  · rw [flatten_windows, hsum, frame_eq hfits]
  · rw [hcalls.run, if_pos (Nat.zero_le q)]
    rfl
  · obtain ⟨s, hd, hbuf, htotal⟩ := hcalls.inside m hm
    refine ⟨hbuf, fun hpos => ⟨s, ?_, hd⟩⟩
    rw [hsum] at htotal
    by_contra hs
    have := Nat.mul_le_mul_right ethRxBufSize (Nat.le_of_not_lt hs)
    omega

variable {status : RxDesc → UInt32} {d : RxDesc}

theorem release_owned {j : Nat} (hj : j < n) :
    Owned (release status d n (d.place j)) := by
  induction n generalizing status d j with
  | zero => exact absurd hj (Nat.not_lt_zero _)
  | succ n ih =>
    cases j with
    | zero => exact release_first d (Nat.succ_pos n)
    | succ j => exact ih (Nat.lt_of_succ_lt_succ hj)

theorem release_other {i : RxDesc} (hi : ∀ j < n, i ≠ d.place j) :
    release status d n i = status i := by
  induction n generalizing status d with
  | zero => rfl
  | succ n ih =>
    have hd : i ≠ d := hi 0 (Nat.succ_pos n)
    have hrest : ∀ j < n, i ≠ d.next.place j := fun j hj => hi (j + 1) (Nat.succ_lt_succ hj)
    rw [release, ih hrest, Function.update_of_ne hd]

theorem reported_length (hget : halEthGetReceivedFrame h = (r, .ok)) :
    r.rxFrameInfos.length = frameLength h.current - 4 := by
  unfold halEthGetReceivedFrame at hget
  split at hget
  · cases hget
  · split at hget
    · split at hget
      · rw [← (Prod.mk.inj hget).1]
        rfl
      · split at hget <;> cases hget
    · cases hget

theorem frameLength_lt (status : UInt32) : (frameLength status).toNat < 16384 := by
  have hle : (status &&& ethDmarxdescFl).toNat ≤ 0x3FFF0000 := by
    rw [UInt32.toNat_and]
    exact Nat.and_le_right
  have hshift : (frameLength status).toNat = (status &&& ethDmarxdescFl).toNat / 65536 := by
    rw [frameLength, UInt32.toNat_shiftRight, Nat.shiftRight_eq_div_pow]
    rfl
  omega

/-- A length which is not 0 stays so in 16 bits: it comes from 14 bits. -/
theorem length_toUInt16_pos (hget : halEthGetReceivedFrame h = (r, .ok))
    (hpos : 0 < r.rxFrameInfos.length.toNat) : 0 < r.rxFrameInfos.length.toUInt16 := by
  have hlt := frameLength_lt h.current
  rw [UInt16.lt_iff_toNat_lt, UInt32.toNat_toUInt16]
  rw [reported_length hget, UInt32.toNat_sub] at *
  have h4 : (4 : UInt32).toNat = 4 := rfl
  have h0 : (0 : UInt16).toNat = 0 := rfl
  omega

/--
**A frame is copied to the chain and its descriptors are given back.** The frame is as it has been
reported, with any number of segments and any length which they can hold, and `pbuf_alloc` may return any
chain of that length, or none.
-/
theorem lowLevelInput_spec (L : Lwip) {h r : EthHandler} (hget : halEthGetReceivedFrame h = (r, .ok))
    (hpos : 0 < r.rxFrameInfos.length.toNat)
    (hfits : r.rxFrameInfos.length.toNat ≤ r.rxFrameInfos.segCount * ethRxBufSize) :
    (∀ lens, L.pbufAlloc r.allocs r.rxFrameInfos.length.toUInt16 = some lens →
      lens.sum = r.rxFrameInfos.length.toNat →
      ∃ payloads, (lowLevelInput L h).2 = some payloads ∧ Filled r lens payloads) ∧
    Returned r (lowLevelInput L h).1 := by
  have hlen := length_toUInt16_pos hget hpos
  refine ⟨fun lens halloc hsum => ⟨_, ?_, filled_of_sum r hsum hfits⟩, ?_⟩
  · simp only [lowLevelInput, hget, if_pos hlen, halloc, Option.map_some]
  · simp only [lowLevelInput, hget]
    exact ⟨fun j hj => release_owned hj, fun d hd => release_other hd, rfl⟩

/-- lwIP with a pool of pbufs of 512 bytes. -/
def Lwip.pool : Lwip where
  pbufAlloc := fun _ len =>
    some (List.replicate (len.toNat / 512) 512 ++
      if len.toNat % 512 = 0 then [] else [len.toNat % 512])
  input := fun _ => .ok

/-- The first segment of the frame in `EthHandler.spanned` has been seen. -/
def EthHandler.halfSeen : EthHandler := (halEthGetReceivedFrame .spanned).1

/-- Of 1532 bytes 1524 are in the first segment; they go into three pbufs. -/
theorem lowLevelInput_spec_spanned :
    (∃ payloads, (lowLevelInput .pool .halfSeen).2 = some payloads ∧
      Filled (halEthGetReceivedFrame .halfSeen).1 [512, 512, 508] payloads) ∧
    Returned (halEthGetReceivedFrame .halfSeen).1 (lowLevelInput .pool .halfSeen).1 := by
  have hget : halEthGetReceivedFrame .halfSeen = ((halEthGetReceivedFrame .halfSeen).1, .ok) :=
    Prod.ext rfl (by decide +kernel)
  obtain ⟨hfilled, hreturned⟩ :=
    lowLevelInput_spec .pool hget (by decide +kernel) (by decide +kernel)
  exact ⟨hfilled [512, 512, 508] (by decide +kernel) (by decide +kernel), hreturned⟩

end PlcFirmware.Eth
