import PlcFirmware.Infra.Segments
import PlcFirmware.Infra.Cyclic
import PlcFirmware.Eth.Tx

/-!
# A frame for the DMA

`low_level_output` writes a chain of pbufs over the buffers of the next descriptors, and counts the bytes.
`HAL_ETH_TransmitFrame` has only their number, and cuts it into segments once more. Both come to the same
descriptors, and in these lie the bytes of the chain.

* `copyPbufs_spec` — what the loops write, or the descriptor at which they give up
* `transmit_spec` — the segments of `HAL_ETH_TransmitFrame`
* `lowLevelOutput_spec` — what `low_level_output` hands to the DMA
-/

namespace PlcFirmware.Eth

open Infra

/-- The descriptor belongs to the DMA. -/
def TxOwned (status : UInt32) : Prop := status &&& ethDmatxdescOwn ≠ 0

instance (status : UInt32) : Decidable (TxOwned status) := inferInstanceAs (Decidable (¬_))

/-- The number of segments for a frame. -/
def segmentsFor (frameLength : Nat) : Nat := (frameLength + (ethTxBufSize - 1)) / ethTxBufSize

/-- The descriptor `j` places on in the chain. -/
def TxDesc.place (d : TxDesc) (j : Nat) : TxDesc := TxDesc.next^[j] d

theorem TxDesc.place_zero (d : TxDesc) : d.place 0 = d := rfl

theorem TxDesc.next_of_place (d : TxDesc) (j : Nat) : (d.place j).next = d.place (j + 1) :=
  (Function.iterate_succ_apply' TxDesc.next j d).symm

/-- Five places on the chain comes back, not before. -/
theorem TxDesc.place_inj {d : TxDesc} {i j : Nat} (hi : i < 5) (hj : j < 5)
    (h : d.place i = d.place j) : i = j := by
  have hplace : ∀ k, d.place k = d + Fin.ofNat 5 k := fun k => iterate_place d k
  rw [hplace, hplace] at h
  exact Infra.place_inj hi hj h

/-! ## The buffers -/

/-- The bytes in the buffers of the descriptors from the first on. -/
def txBytesFrom (txBuff : Nat → UInt8) (first : TxDesc) : Nat → UInt8 :=
  overBuffers ethTxBufSize fun s o => txBuff ((first.place s).buffer1Addr + o)

variable {first : TxDesc} {txBuff : Nat → UInt8} {s o : Nat} {vs bs : List UInt8}

/-- The buffers of two descriptors lie apart. -/
theorem buffer1Addr_apart {d e : TxDesc} (h : d ≠ e) :
    d.buffer1Addr + ethTxBufSize ≤ e.buffer1Addr ∨ e.buffer1Addr + ethTxBufSize ≤ d.buffer1Addr := by
  have hne : d.val ≠ e.val := fun heq => h (Fin.ext heq)
  simp only [TxDesc.buffer1Addr, ethTxBufSize]
  omega

/-- **Bytes which are written behind the others leave these as they are.** -/
theorem holdsAt_memcpy (hs : s < 5) (hfits : o + bs.length ≤ ethTxBufSize)
    (hpos : vs.length = s * ethTxBufSize + o) (h : HoldsAt (txBytesFrom txBuff first) 0 vs) :
    HoldsAt (txBytesFrom (store txBuff ((first.place s).buffer1Addr + o) bs) first) 0
      (vs ++ bs) := by
  refine (h.congr fun i _ hi => ?_).append fun j hj => ?_
  · -- a byte of an earlier buffer, or one in front of the offset
    have hmod : i % ethTxBufSize < ethTxBufSize := Nat.mod_lt i (Nat.succ_pos _)
    have hdiv : i / ethTxBufSize * ethTxBufSize + i % ethTxBufSize = i := by
      rw [Nat.mul_comm, Nat.div_add_mod]
    rw [Nat.zero_add, hpos] at hi
    simp only [txBytesFrom, overBuffers]
    by_cases hsame : i / ethTxBufSize = s
    · rw [hsame] at hdiv ⊢
      exact store_of_lt (by omega)
    · have hlt : i / ethTxBufSize < s := by
        by_contra hge
        have := Nat.mul_le_mul_right ethTxBufSize (show s + 1 ≤ i / ethTxBufSize by omega)
        rw [Nat.succ_mul] at this
        omega
      have hne : first.place (i / ethTxBufSize) ≠ first.place s :=
        fun heq => hsame (TxDesc.place_inj (hlt.trans hs) hs heq)
      rcases buffer1Addr_apart hne with hle | hle
      · exact store_of_lt (by omega)
      · exact store_of_ge (by omega)
  · have hlt : o + j < ethTxBufSize := by omega
    rw [Nat.zero_add, hpos, Nat.add_assoc, txBytesFrom, overBuffers_of_lt hlt, ← Nat.add_assoc,
      store_of_mem hj]

/-! ## The copy -/

variable {status : TxDesc → UInt32} {payload : List UInt8} {c : TxCopy}

/-- The loops have written these bytes, and are in segment `s`. -/
structure Copying (first : TxDesc) (s : Nat) (vs : List UInt8) (c : TxCopy) : Prop where
  lt : s < 5
  dmaTxDesc : c.dmaTxDesc = first.place s
  bufferoffset : c.bufferoffset ≤ ethTxBufSize
  framelength : c.framelength = vs.length
  place : vs.length = s * ethTxBufSize + c.bufferoffset
  bytes : HoldsAt (txBytesFrom c.txBuff first) 0 vs

/-- The first `n` descriptors are not the DMA's. -/
def Free (status : TxDesc → UInt32) (first : TxDesc) (n : Nat) : Prop :=
  ∀ j < n, ¬TxOwned (status (first.place j))

theorem Free.succ (h : Free status first (s + 1))
    (hs : ¬TxOwned (status (first.place (s + 1)))) : Free status first (s + 2) := by
  intro j hj
  obtain rfl | hlt : j = s + 1 ∨ j < s + 1 := by omega
  · exact hs
  · exact h j hlt

/-- What the loops come to, if they are to write these bytes: they have written them, or they have given up
at a descriptor which is needed for them. -/
def Outcome (status : TxDesc → UInt32) (first : TxDesc) (vs : List UInt8) :
    Except (Nat → UInt8) TxCopy → Prop
  | .ok c => ∃ s, Copying first s vs c ∧ Free status first (s + 1)
  | .error _ => ∃ j, j * ethTxBufSize < vs.length ∧ TxOwned (status (first.place j))

/-- A part of the payload goes into the rest of the buffer. -/
theorem Copying.memcpy (h : Copying first s vs c) (payload : List UInt8) {payloadoffset n : Nat}
    (hn : payloadoffset + n ≤ payload.length) (hfits : c.bufferoffset + n ≤ ethTxBufSize) :
    HoldsAt (txBytesFrom (c.memcpy payload payloadoffset n) first) 0
      (vs ++ (payload.drop payloadoffset).take n) := by
  have hlen : ((payload.drop payloadoffset).take n).length = n := by
    rw [List.length_take, List.length_drop]
    omega
  rw [TxCopy.memcpy, h.dmaTxDesc]
  exact holdsAt_memcpy h.lt (by rwa [hlen]) h.place h.bytes

/-- The rest of the buffer is filled, and the next descriptor is begun. -/
theorem Copying.next (h : Copying first s vs c) (payload : List UInt8) {payloadoffset left : Nat}
    (hrest : payloadoffset + left = payload.length) (hmore : left + c.bufferoffset > ethTxBufSize)
    (hroom : vs.length + left ≤ 5 * ethTxBufSize) {n : Nat} (hn : n + c.bufferoffset = ethTxBufSize) :
    Copying first (s + 1) (vs ++ (payload.drop payloadoffset).take n)
      { txBuff := c.memcpy payload payloadoffset n, dmaTxDesc := first.place (s + 1),
        bufferoffset := 0, framelength := c.framelength + n } := by
  have hplace := h.place
  have hlen : ((payload.drop payloadoffset).take n).length = n := by
    rw [List.length_take, List.length_drop]
    omega
  have hnext : (vs ++ (payload.drop payloadoffset).take n).length = (s + 1) * ethTxBufSize + 0 := by
    rw [List.length_append, hlen, Nat.succ_mul]
    omega
  refine ⟨?_, rfl, Nat.zero_le _, ?_, hnext, h.memcpy payload (by omega) (by omega)⟩
  · rw [ethTxBufSize] at *
    omega
  · rw [List.length_append, hlen, h.framelength]

/-- The rest of the payload goes into the buffer. -/
theorem Copying.last (h : Copying first s vs c) (payload : List UInt8) {payloadoffset left : Nat}
    (hrest : payloadoffset + left = payload.length) (hfits : left + c.bufferoffset ≤ ethTxBufSize) :
    Copying first s (vs ++ payload.drop payloadoffset)
      { txBuff := c.memcpy payload payloadoffset left, dmaTxDesc := c.dmaTxDesc,
        bufferoffset := c.bufferoffset + left, framelength := c.framelength + left } := by
  have hplace := h.place
  have hlen : (vs ++ payload.drop payloadoffset).length = vs.length + left := by
    rw [List.length_append, List.length_drop]
    omega
  have hall : (payload.drop payloadoffset).take left = payload.drop payloadoffset := by
    rw [List.take_of_length_le]
    rw [List.length_drop]
    omega
  have hbytes := h.memcpy payload (n := left) hrest.le (by omega)
  rw [hall] at hbytes
  refine ⟨h.lt, h.dmaTxDesc, by simp only; omega, ?_, ?_, hbytes⟩
  · rw [hlen, h.framelength]
  · rw [hlen, hplace, Nat.add_assoc]

/-- **The loop for a pbuf.** -/
theorem copyPbuf_spec (payload : List UInt8) (payloadoffset left : Nat)
    (hrest : payloadoffset + left = payload.length) (h : Copying first s vs c)
    (hfree : Free status first (s + 1)) (hroom : vs.length + left ≤ 5 * ethTxBufSize) :
    Outcome status first (vs ++ payload.drop payloadoffset)
      (copyPbuf status payload payloadoffset left c) := by
  induction hm : left + c.bufferoffset using Nat.strong_induction_on
    generalizing s vs c payloadoffset left with
  | _ m ih =>
    have hoffset := h.bufferoffset
    have hplace := h.place
    by_cases hmore : left + c.bufferoffset > ethTxBufSize
    · -- the pbuf goes on in the next buffer
      have hnext : c.dmaTxDesc.next = first.place (s + 1) := by
        rw [h.dmaTxDesc]
        exact first.next_of_place s
      rw [copyPbuf, if_pos hmore]
      simp only [hnext]
      by_cases howned : status (first.place (s + 1)) &&& ethDmatxdescOwn ≠ 0
      · rw [if_pos howned]
        refine ⟨s + 1, ?_, howned⟩
        rw [List.length_append, List.length_drop, Nat.succ_mul]
        omega
      · rw [if_neg howned]
        obtain ⟨n, hn⟩ : ∃ n, n = ethTxBufSize - c.bufferoffset := ⟨_, rfl⟩
        rw [← hn]
        have hcopying := h.next payload hrest hmore hroom (n := n) (by omega)
        have hlen : (vs ++ (payload.drop payloadoffset).take n).length = (s + 1) * ethTxBufSize + 0 :=
          hcopying.place
        have hrun := ih (left - n + 0) (by rw [ethTxBufSize] at *; omega)
          (payloadoffset + n) (left - n) (by omega) hcopying (hfree.succ howned)
          (by rw [Nat.succ_mul] at hlen; omega) rfl
        rwa [List.append_assoc, ← List.drop_drop, List.take_append_drop] at hrun
    · rw [copyPbuf, if_neg hmore]
      exact ⟨s, h.last payload hrest (Nat.le_of_not_lt hmore), hfree⟩

/-- **The loop over the chain**, behind the check of the first descriptor. -/
theorem copyPbufs_spec (p : List (List UInt8)) (h : Copying first s vs c)
    (hfree : Free status first (s + 1)) (hroom : vs.length + p.flatten.length ≤ 5 * ethTxBufSize) :
    Outcome status first (vs ++ p.flatten) (copyPbufs status p c) := by
  induction p generalizing s vs c with
  | nil =>
    rw [List.flatten_nil, List.append_nil]
    exact ⟨s, h, hfree⟩
  | cons q p ih =>
    rw [List.flatten_cons, List.length_append] at hroom
    have hown : ¬(status c.dmaTxDesc &&& ethDmatxdescOwn ≠ 0) := by
      rw [h.dmaTxDesc]
      exact hfree s (Nat.lt_succ_self s)
    have hq := copyPbuf_spec q 0 q.length (Nat.zero_add _) h hfree (by omega)
    rw [List.drop_zero] at hq
    rw [copyPbufs, if_neg hown, List.flatten_cons, ← List.append_assoc]
    cases hcopy : copyPbuf status q 0 q.length c with
    | ok c' =>
      rw [hcopy] at hq
      obtain ⟨s', hc', hfree'⟩ := hq
      exact ih hc' hfree' (by rw [List.length_append]; omega)
    | error b =>
      rw [hcopy] at hq
      obtain ⟨j, hj, howned⟩ := hq
      refine ⟨j, ?_, howned⟩
      rw [List.length_append]
      omega

/-- From the next descriptor on, which is checked with the first pbuf. -/
theorem copyPbufs_start (p : List (List UInt8)) (status : TxDesc → UInt32) (txBuff : Nat → UInt8)
    (first : TxDesc) (hpos : 0 < p.flatten.length) (hle : p.flatten.length ≤ 5 * ethTxBufSize) :
    Outcome status first p.flatten (copyPbufs status p ⟨txBuff, first, 0, 0⟩) := by
  by_cases howned : status first &&& ethDmatxdescOwn ≠ 0
  · cases p with
    | nil => exact absurd hpos (Nat.lt_irrefl 0)
    | cons q p =>
      rw [copyPbufs, if_pos howned]
      exact ⟨0, by rwa [Nat.zero_mul], howned⟩
  · have hstart : Copying first 0 [] ⟨txBuff, first, 0, 0⟩ :=
      ⟨Nat.succ_pos 4, rfl, Nat.zero_le _, rfl, (Nat.zero_mul _).symm,
        fun _ hj => absurd hj (Nat.not_lt_zero _)⟩
    have hfree : Free status first 1 := by
      intro j hj
      rw [Nat.lt_one_iff.mp hj, TxDesc.place_zero]
      exact howned
    exact copyPbufs_spec p hstart hfree (by rwa [List.length_nil, Nat.zero_add])

/-! ## The status of a segment -/

/-- The status of a segment which has been given to the DMA. -/
structure Marked (status : UInt32) (first last : Prop) : Prop where
  owned : TxOwned status
  first : status &&& ethDmatxdescFs ≠ 0 ↔ first
  last : status &&& ethDmatxdescLs ≠ 0 ↔ last

theorem or_and_ne_zero {a b m : UInt32} : (a ||| b) &&& m ≠ 0 ↔ a &&& m ≠ 0 ∨ b &&& m ≠ 0 := by
  have hdistrib : (a ||| b) &&& m = (a &&& m) ||| (b &&& m) :=
    UInt32.toBitVec_inj.mp BitVec.and_or_distrib_right
  rw [hdistrib, ne_eq, UInt32.or_eq_zero_iff, not_and_or]

/-- The bits which have been cleared are 0. -/
theorem cleared_and (status : UInt32) {m b : UInt32} (h : ~~~m &&& b = 0) :
    status &&& ~~~m &&& b = 0 := by
  rw [UInt32.and_assoc, h, UInt32.and_zero]

theorem marked_single (status : UInt32) :
    Marked (status ||| (ethDmatxdescFs ||| ethDmatxdescLs) ||| ethDmatxdescOwn) True True where
  owned := or_and_ne_zero.mpr (.inr (by decide))
  first := iff_of_true (or_and_ne_zero.mpr (.inl (or_and_ne_zero.mpr (.inr (by decide))))) trivial
  last := iff_of_true (or_and_ne_zero.mpr (.inl (or_and_ne_zero.mpr (.inr (by decide))))) trivial

theorem ite_or_and_ne_zero {a b m : UInt32} {p : Prop} [Decidable p] :
    (if p then a ||| b else a) &&& m ≠ 0 ↔ a &&& m ≠ 0 ∨ (p ∧ b &&& m ≠ 0) := by
  split
  · next h => rw [or_and_ne_zero, and_iff_right h]
  · next h => simp only [h, false_and, or_false]

/-- What a round of the loop over the buffers makes of the status. -/
theorem marked_segment (status : UInt32) (first last : Prop) [Decidable first] [Decidable last] :
    let cleared := status &&& ~~~(ethDmatxdescFs ||| ethDmatxdescLs)
    let begun := if first then cleared ||| ethDmatxdescFs else cleared
    Marked ((if last then begun ||| ethDmatxdescLs else begun) ||| ethDmatxdescOwn) first last := by
  have hfs := cleared_and status (m := ethDmatxdescFs ||| ethDmatxdescLs) (b := ethDmatxdescFs) rfl
  have hls := cleared_and status (m := ethDmatxdescFs ||| ethDmatxdescLs) (b := ethDmatxdescLs) rfl
  refine ⟨or_and_ne_zero.mpr (.inr (by decide)), ?_, ?_⟩
  · have hown : ethDmatxdescOwn &&& ethDmatxdescFs = 0 := rfl
    have hlast : ethDmatxdescLs &&& ethDmatxdescFs = 0 := rfl
    have hfirst : ethDmatxdescFs &&& ethDmatxdescFs ≠ 0 := by decide
    simp only [or_and_ne_zero, ite_or_and_ne_zero, hfs, hown, hlast, hfirst, ne_eq, not_true,
      false_or, or_false, and_false, not_false_eq_true, and_true]
  · have hown : ethDmatxdescOwn &&& ethDmatxdescLs = 0 := rfl
    have hfirst : ethDmatxdescFs &&& ethDmatxdescLs = 0 := rfl
    have hlast : ethDmatxdescLs &&& ethDmatxdescLs ≠ 0 := by decide
    simp only [or_and_ne_zero, ite_or_and_ne_zero, hls, hown, hlast, hfirst, ne_eq, not_true,
      false_or, or_false, and_false, not_false_eq_true, and_true]

/-! ## The segments -/

variable {h h' : EthTxHandler} {T n i : Nat}

/-- The size of segment `j` of a frame. -/
def segmentSize (frameLength j : Nat) : Nat := min ethTxBufSize (frameLength - j * ethTxBufSize)

/-- The first `i` of the `n` segments have been programmed. -/
structure Programmed (h h' : EthTxHandler) (frameLength n i : Nat) : Prop where
  txDesc : h'.txDesc = h.txDesc.place i
  marked : ∀ j < i, Marked (h'.status (h.txDesc.place j)) (j = 0) (j + 1 = n)
  size : ∀ j < i, h'.controlBufferSize (h.txDesc.place j) =
    UInt32.ofNat (segmentSize frameLength j) &&& ethDmatxdescTbs1
  others : ∀ d, (∀ j < i, d ≠ h.txDesc.place j) → h'.status d = h.status d
  txBuff : h'.txBuff = h.txBuff

/-- One more segment, at the descriptor which is next. -/
theorem Programmed.succ (hp : Programmed h h' T n i) (hi : i < 5) {status size : UInt32}
    (hstatus : Marked status (i = 0) (i + 1 = n))
    (hsize : size = UInt32.ofNat (segmentSize T i) &&& ethDmatxdescTbs1) :
    Programmed h { h' with
      status := Function.update h'.status h'.txDesc status
      controlBufferSize := Function.update h'.controlBufferSize h'.txDesc size
      txDesc := h'.txDesc.next } T n (i + 1) := by
  have hne : ∀ j < i, h.txDesc.place j ≠ h.txDesc.place i := fun j hj heq =>
    absurd (TxDesc.place_inj (hj.trans hi) hi heq) (Nat.ne_of_lt hj)
  rw [hp.txDesc]
  refine ⟨h.txDesc.next_of_place i, fun j hj => ?_, fun j hj => ?_, fun d hd => ?_, hp.txBuff⟩
  · obtain rfl | hlt : j = i ∨ j < i := by omega
    · simp only [Function.update_self]
      exact hstatus
    · simp only [Function.update_of_ne (hne j hlt)]
      exact hp.marked j hlt
  · obtain rfl | hlt : j = i ∨ j < i := by omega
    · simp only [Function.update_self]
      exact hsize
    · simp only [Function.update_of_ne (hne j hlt)]
      exact hp.size j hlt
  · simp only [Function.update_of_ne (hd i (Nat.lt_succ_self i))]
    exact hp.others d fun j hj => hd j (Nat.lt_succ_of_lt hj)

theorem Programmed.zero (h : EthTxHandler) (T n : Nat) : Programmed h h T n 0 where
  txDesc := rfl
  marked := fun _ hj => absurd hj (Nat.not_lt_zero _)
  size := fun _ hj => absurd hj (Nat.not_lt_zero _)
  others := fun _ _ => rfl
  txBuff := rfl

/-- The size which the loop programs: the last segment has what the others leave. -/
theorem programmedSize_eq (hi : i < segmentsFor T) :
    (if i = segmentsFor T - 1 then T - (segmentsFor T - 1) * ethTxBufSize else ethTxBufSize) =
      segmentSize T i := by
  by_cases hlast : i = segmentsFor T - 1
  · rw [if_pos hlast, ← hlast]
    simp only [segmentSize, segmentsFor, ethTxBufSize] at *
    omega
  · rw [if_neg hlast]
    simp only [segmentSize, segmentsFor, ethTxBufSize] at *
    omega

/-- **The loop over the buffers.** -/
theorem foldl_transmitSegment (h : EthTxHandler) (hi : i ≤ segmentsFor T) (hn : segmentsFor T ≤ 5) :
    Programmed h ((List.range i).foldl (transmitSegment T (segmentsFor T)) h) T (segmentsFor T) i := by
  induction i with
  | zero => exact .zero h T _
  | succ i ih =>
    have hlast : i = segmentsFor T - 1 ↔ i + 1 = segmentsFor T := by omega
    have hmarked := marked_segment
      (((List.range i).foldl (transmitSegment T (segmentsFor T)) h).status
        ((List.range i).foldl (transmitSegment T (segmentsFor T)) h).txDesc)
      (i = 0) (i = segmentsFor T - 1)
    rw [List.range_succ, List.foldl_append, List.foldl_cons, List.foldl_nil, transmitSegment]
    refine (ih (by omega)).succ (by omega) ?_ ?_
    · simpa only [hlast] using hmarked
    · rw [programmedSize_eq hi]

theorem bufcount_eq (hpos : 0 < T) : bufcount T = segmentsFor T := by
  unfold bufcount
  by_cases hmore : T > ethTxBufSize
  · rw [if_pos hmore]
    by_cases hrest : T % ethTxBufSize ≠ 0
    · rw [if_pos hrest]
      simp only [segmentsFor, ethTxBufSize] at *
      omega
    · rw [if_neg hrest]
      simp only [segmentsFor, ethTxBufSize] at *
      omega
  · rw [if_neg hmore]
    simp only [segmentsFor, ethTxBufSize] at *
    omega

/-- **`HAL_ETH_TransmitFrame` programs all segments of the frame**, if the handle is not locked and the
next descriptor is not the DMA's. -/
theorem transmit_spec (hlock : h.lock = false) (hpos : 0 < T) (hn : segmentsFor T ≤ 5)
    (hfree : h.status h.txDesc &&& ethDmatxdescOwn = 0) :
    Programmed h (halEthTransmitFrame T h).1 T (segmentsFor T) (segmentsFor T) := by
  have hT : T ≠ 0 := Nat.ne_of_gt hpos
  unfold halEthTransmitFrame
  rw [if_neg (by rw [hlock]; exact Bool.false_ne_true), if_neg hT,
    if_neg (not_not.mpr hfree), bufcount_eq hpos]
  have hprog : Programmed h (if segmentsFor T = 1 then transmitSingle T h
      else (List.range (segmentsFor T)).foldl (transmitSegment T (segmentsFor T)) h) T
        (segmentsFor T) (segmentsFor T) := by
    split
    · next hone =>
      rw [hone, transmitSingle]
      refine (Programmed.zero h T 1).succ (Nat.succ_pos 4) ?_ ?_
      · simpa using marked_single (h.status h.txDesc)
      · congr 2
        simp only [segmentSize, segmentsFor, ethTxBufSize] at *
        omega
    · exact foldl_transmitSegment h (Nat.le_refl _) hn
  exact ⟨hprog.txDesc, hprog.marked, hprog.size, hprog.others, hprog.txBuff⟩

/-! ## `low_level_output` -/

/-- The bytes of a segment: its buffer, cut to the programmed size. -/
def EthTxHandler.segment (h : EthTxHandler) (d : TxDesc) : List UInt8 :=
  window h.txBuff d.buffer1Addr (h.controlBufferSize d &&& ethDmatxdescTbs1).toNat

/-- A frame has been handed to the DMA, in `n` segments from the next descriptor on. -/
structure Sent (h h' : EthTxHandler) (n : Nat) (frame : List UInt8) : Prop where
  given : ∀ j < n, Marked (h'.status (h.txDesc.place j)) (j = 0) (j + 1 = n)
  others : ∀ d, (∀ j < n, d ≠ h.txDesc.place j) → h'.status d = h.status d
  txDesc : h'.txDesc = h.txDesc.place n
  bytes : ((List.range n).flatMap fun j => h'.segment (h.txDesc.place j)) = frame

theorem tbs1_size (hle : n ≤ ethTxBufSize) :
    (UInt32.ofNat n &&& ethDmatxdescTbs1 &&& ethDmatxdescTbs1).toNat = n := by
  have hmask : ethDmatxdescTbs1.toNat = 2 ^ 13 - 1 := rfl
  rw [ethTxBufSize] at hle
  rw [UInt32.toNat_and, UInt32.toNat_and, hmask, Nat.and_two_pow_sub_one_eq_mod,
    Nat.and_two_pow_sub_one_eq_mod, UInt32.toNat_ofNat']
  omega

/-- **The segments hold the frame** which has been written to the buffers. -/
theorem segments_bytes (hp : Programmed h h' vs.length (segmentsFor vs.length) (segmentsFor vs.length))
    (hbytes : HoldsAt (txBytesFrom h.txBuff h.txDesc) 0 vs) :
    ((List.range (segmentsFor vs.length)).flatMap fun j =>
      h'.segment (h.txDesc.place j)) = vs := by
  have hsegment : ∀ j ∈ List.range (segmentsFor vs.length),
      h'.segment (h.txDesc.place j) =
        window (fun o => h.txBuff ((h.txDesc.place j).buffer1Addr + o)) 0
          (min ethTxBufSize (vs.length - j * ethTxBufSize)) := by
    intro j hj
    have hsize := tbs1_size (n := segmentSize vs.length j) (Nat.min_le_left _ _)
    rw [EthTxHandler.segment, hp.size j (List.mem_range.mp hj), hp.txBuff, hsize]
    exact window_congr fun i _ => by rw [Nat.zero_add]
  have hmin : min vs.length (segmentsFor vs.length * ethTxBufSize) = vs.length := by
    simp only [segmentsFor, ethTxBufSize]
    omega
  rw [List.flatMap_congr hsegment,
    flatMap_window fun s o => h.txBuff ((h.txDesc.place s).buffer1Addr + o), hmin]
  exact hbytes.window_eq

/--
**A chain is sent, or nothing is handed over.** The chain may be cut in any way, and pbufs may be empty; the
ring may be in any state.
-/
theorem lowLevelOutput_spec (p : List (List UInt8)) {h : EthTxHandler} (hlock : h.lock = false)
    (hpos : 0 < p.flatten.length) (hle : p.flatten.length ≤ 5 * ethTxBufSize) :
    ((∀ j < segmentsFor p.flatten.length, ¬TxOwned (h.status (h.txDesc.place j))) →
      (lowLevelOutput p h).2 = .ok ∧
        Sent h (lowLevelOutput p h).1 (segmentsFor p.flatten.length) p.flatten) ∧
    ((∃ j < segmentsFor p.flatten.length, TxOwned (h.status (h.txDesc.place j))) →
      (lowLevelOutput p h).2 = .use ∧ (lowLevelOutput p h).1.status = h.status ∧
        (lowLevelOutput p h).1.txDesc = h.txDesc) := by
  have hout := copyPbufs_start p h.status h.txBuff h.txDesc hpos hle
  cases hcopy : copyPbufs h.status p ⟨h.txBuff, h.txDesc, 0, 0⟩ with
  | ok c =>
    rw [hcopy] at hout
    obtain ⟨s, hc, hfree⟩ := hout
    have hneeded : segmentsFor p.flatten.length ≤ s + 1 := by
      have hplace := hc.place
      have hoffset := hc.bufferoffset
      simp only [segmentsFor, ethTxBufSize] at *
      omega
    have hfive : segmentsFor p.flatten.length ≤ 5 := by
      have := hc.lt
      omega
    have hfirst : h.status h.txDesc &&& ethDmatxdescOwn = 0 := not_not.mp (hfree 0 (Nat.succ_pos s))
    have hprog := transmit_spec (h := { h with txBuff := c.txBuff }) hlock hpos hfive hfirst
    have hbytes := segments_bytes hprog hc.bytes
    refine ⟨fun _ => ?_, fun ⟨j, hj, howned⟩ => absurd howned (hfree j (by omega))⟩
    simp only [lowLevelOutput, hcopy, hc.framelength]
    exact ⟨trivial, hprog.marked, hprog.others, hprog.txDesc, hbytes⟩
  | error b =>
    rw [hcopy] at hout
    obtain ⟨j, hj, howned⟩ := hout
    have hlt : j < segmentsFor p.flatten.length := by
      simp only [segmentsFor, ethTxBufSize] at *
      omega
    refine ⟨fun hfree => absurd howned (hfree j hlt), fun _ => ?_⟩
    simp only [lowLevelOutput, hcopy]
    exact ⟨trivial, trivial, trivial⟩

/-- A handle whose descriptors have this status. -/
def EthTxHandler.withStatus (status : TxDesc → UInt32) : EthTxHandler where
  status := status
  controlBufferSize := fun _ => 0
  txBuff := fun _ => 0
  txDesc := ⟨4, by decide⟩
  lock := false
  state := .ready
  tbus := false
  tus := false

/-- Two pbufs of 1000 bytes, and an empty one between them. -/
def twoThousand : List (List UInt8) := [List.replicate 1000 1, [], List.replicate 1000 2]

/-- Their bytes go into two segments, from the last descriptor on; and if the second is still the DMA's,
none is handed over. -/
theorem lowLevelOutput_spec_twoThousand :
    ((lowLevelOutput twoThousand (.withStatus fun _ => 0)).2 = .ok ∧
      Sent (.withStatus fun _ => 0) (lowLevelOutput twoThousand (.withStatus fun _ => 0)).1 2
        twoThousand.flatten) ∧
    (lowLevelOutput twoThousand (.withStatus fun d => if d.val = 0 then ethDmatxdescOwn else 0)).2 =
      .use := by
  have hlen : twoThousand.flatten.length = 2000 := by
    rw [twoThousand, List.flatten_cons, List.flatten_cons, List.flatten_cons, List.length_append,
      List.length_append, List.length_append, List.length_replicate, List.length_replicate]
    rfl
  have hpos : 0 < twoThousand.flatten.length := by omega
  have hle : twoThousand.flatten.length ≤ 5 * ethTxBufSize := by simp only [ethTxBufSize]; omega
  have htwo : segmentsFor twoThousand.flatten.length = 2 := by rw [hlen]; rfl
  have hsent := (lowLevelOutput_spec twoThousand (h := .withStatus fun _ => 0) rfl hpos hle).1
  have hused := (lowLevelOutput_spec twoThousand
    (h := .withStatus fun d => if d.val = 0 then ethDmatxdescOwn else 0) rfl hpos hle).2
  rw [htwo] at hsent hused
  have hfree : ¬TxOwned 0 := by decide
  exact ⟨hsent fun _ _ => hfree, (hused ⟨1, Nat.lt_succ_self 1, by decide⟩).1⟩

end PlcFirmware.Eth
