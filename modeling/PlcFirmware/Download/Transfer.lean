import PlcFirmware.Download.Framing

/-!
# A whole download

A file is sent as a start frame, which erases sector 5, and data frames of 1400 bytes each, the last
one shorter. `stored F received image` is the flash when the chunks in `received` have been written
after the erase. Programming only clears bits, so a chunk can be written again: what it clears is
clear already. A data frame therefore adds its chunk to `received`, in whatever order they come.
-/

namespace PlcFirmware.Download

open Infra Flash

variable {rx : Receiver} {hal : Nat → HalStatus} {s s' : RxState}

/-! ## Files and their frames -/

/-- A file which fits into sector 5. -/
structure File where
  bytes : List UInt8
  length_le : bytes.length ≤ 262144

namespace File

variable (F : File)

/-- The number of chunks. -/
def count : Nat := (F.bytes.length + 1399) / 1400

/-- Chunk `i`, counted from 0. -/
def chunk (i : Nat) : List UInt8 := (F.bytes.drop (i * 1400)).take 1400

theorem count_le : F.count ≤ 188 := by
  have := F.length_le
  unfold count
  omega

theorem chunk_length (i : Nat) : (F.chunk i).length = min 1400 (F.bytes.length - i * 1400) := by
  simp [chunk]

theorem chunk_getD {i j : Nat} (hj : j < (F.chunk i).length) (d : UInt8) :
    (F.chunk i).getD j d = F.bytes.getD (i * 1400 + j) d := by
  rw [chunk_length] at hj
  unfold chunk
  rw [List.getD_eq_getElem?_getD, List.getD_eq_getElem?_getD, List.getElem?_take_of_lt (by omega),
    List.getElem?_drop]

/-- The header of the data frame for chunk `i`: its number counts from 1. -/
def header (i : Nat) : List UInt8 :=
  [1, UInt8.ofNat ((i + 1) / 256), UInt8.ofNat (i + 1), UInt8.ofNat ((F.chunk i).length / 256),
    UInt8.ofNat (F.chunk i).length]

theorem chunk_length_le (i : Nat) : (F.chunk i).length ≤ 1400 := by
  rw [chunk_length]
  omega

theorem seqOf_header {i : Nat} (hi : i < F.count) : seqOf (F.header i ++ F.chunk i) = i + 1 := by
  have := F.count_le
  rw [seqOf_append (by simp [header])]
  simp [seqOf, header]
  omega

theorem declaredOf_header (i : Nat) :
    declaredOf (F.header i ++ F.chunk i) = (F.chunk i).length := by
  have := F.chunk_length_le i
  rw [declaredOf_append (by simp [header])]
  simp [declaredOf, header]
  omega

theorem length_header_append (i : Nat) :
    (F.header i ++ F.chunk i).length = 5 + (F.chunk i).length := List.length_append

/-- The data frame for a chunk. -/
def frame (i : Fin F.count) : Frame where
  bytes := F.header i ++ F.chunk i
  length_ge := by
    rw [F.length_header_append]
    exact Nat.le_add_right _ _
  length_le := by
    rw [F.length_header_append]
    exact Nat.add_le_add_left (F.chunk_length_le i) 5
  start_length := by
    rw [F.seqOf_header i.isLt]
    omega
  data_length := by
    intro _
    rw [F.declaredOf_header, F.length_header_append, Nat.add_comm]

end File

/-! ## What is in the flash -/

/-- The flash with sector 5 erased and the chunks in `received` written. -/
def stored (F : File) (received : List Nat) (image : Image) : Image := fun a =>
  if InSector 5 a then
    if (a - addrFlashSector5) / 1400 ∈ received then F.bytes.getD (a - addrFlashSector5) 0xFF
    else 0xFF
  else image a

/-- With all chunks received, sector 5 is the file and `0xFF` behind it. -/
theorem stored_all {F : File} {received : List Nat} (h : ∀ i < F.count, i ∈ received)
    (image : Image) (a : Nat) :
    stored F received image a =
      if InSector 5 a then F.bytes.getD (a - addrFlashSector5) 0xFF else image a := by
  unfold stored
  split
  · split
    · rfl
    · next hn =>
      rw [List.getD_eq_default]
      refine Nat.not_lt.mp fun hlt => hn (h _ ?_)
      unfold File.count
      omega
  · rfl

theorem writeDate_ret {p : Nat → UInt8} {addr n calls : Nat} (hok : ∀ k, hal k = .ok)
    (hn : n < 32768) (hlt : addr + n < 4294967296) :
    (stmflashWriteDate p hal addr n calls).ret = addr + n :=
  (stmflashWriteDate_ret_iff hn hlt).mpr
    ⟨n / 4, Nat.le_refl _, fun _ _ => hok _, Or.inl ⟨rfl, fun _ _ => hok _⟩⟩

/-- **Writing a chunk adds it to what is stored, also where it had been stored before.** -/
theorem write_chunk {F : File} (i : Fin F.count) (received : List Nat) (image : Image)
    {p : Nat → UInt8} {calls : Nat} (hok : ∀ k, hal k = .ok)
    (hp : ∀ j < (F.chunk i).length, p j = F.bytes.getD (i * 1400 + j) 0xFF) :
    applyAll (stored F received image)
        (stmflashWriteDate p hal (addrFlashSector5 + i * 1400) (F.chunk i).length calls).ops =
      stored F (i.val :: received) image := by
  have hcount := F.count_le
  have hi := i.isLt
  have hlen := F.chunk_length i
  have hsize := F.length_le
  have hlt : addrFlashSector5 + i * 1400 + (F.chunk i).length < 4294967296 := by
    unfold addrFlashSector5
    omega
  funext a
  rw [stmflashWriteDate_apply hlt, writeDate_ret hok (by omega) hlt]
  unfold stored
  by_cases hin : addrFlashSector5 + i * 1400 ≤ a ∧ a < addrFlashSector5 + i * 1400 + (F.chunk i).length
  · have hsec : InSector 5 a := by
      rw [inSector_five]
      unfold addrFlashSector6
      unfold addrFlashSector5 at hin ⊢
      omega
    have hdiv : (a - addrFlashSector5) / 1400 = i := by omega
    -- programming the same bytes once more leaves them as they are
    rw [if_pos hin, if_pos hsec, if_pos hsec, hdiv, if_pos List.mem_cons_self, hp _ (by omega),
      show i.val * 1400 + (a - (addrFlashSector5 + i.val * 1400)) = a - addrFlashSector5 by omega]
    split
    · exact UInt8.and_self
    · exact erased_and _
  · rw [if_neg hin]
    split
    · next hsec =>
      have hge := (inSector_five.mp hsec).1
      by_cases hdiv : (a - addrFlashSector5) / 1400 = i
      · -- behind the last chunk both are erased
        have hend : F.bytes.length ≤ a - addrFlashSector5 := by omega
        rw [List.getD_eq_default _ _ hend]
        split <;> split <;> rfl
      · simp only [List.mem_cons, hdiv, false_or]
    · rfl

/-! ## Replies and flash calls -/

def Event.reply : Event → Option UInt8
  | .send b => some b
  | _ => none

def Event.op : Event → Option FlashOp
  | .flash op => some op
  | _ => none

/-- The reply bytes among the events. -/
def replies (es : List Event) : List UInt8 := es.filterMap Event.reply

/-- The flash calls among the events. -/
def flashOps (es : List Event) : List FlashOp := es.filterMap Event.op

@[simp] theorem replies_append (es fs : List Event) :
    replies (es ++ fs) = replies es ++ replies fs := List.filterMap_append

@[simp] theorem flashOps_append (es fs : List Event) :
    flashOps (es ++ fs) = flashOps es ++ flashOps fs := List.filterMap_append

theorem replies_acts (es : List Event) : replies (acts es) = replies es := by
  unfold replies acts
  rw [List.filterMap_filter]
  refine List.filterMap_congr fun e _ => ?_
  cases e <;> rfl

theorem flashOps_acts (es : List Event) : flashOps (acts es) = flashOps es := by
  unfold flashOps acts
  rw [List.filterMap_filter]
  refine List.filterMap_congr fun e _ => ?_
  cases e <;> rfl

theorem replies_handled (h : Handled) : replies h.events = [h.reply] := by
  have hops : replies (h.ops.map .flash) = [] := by
    unfold replies
    rw [List.filterMap_map]
    exact List.filterMap_eq_nil_iff.mpr fun _ _ => rfl
  rw [Handled.events, replies_append, hops]
  rfl

theorem flashOps_handled (h : Handled) : flashOps h.events = h.ops := by
  have hops : flashOps (h.ops.map .flash) = h.ops := by
    unfold flashOps
    rw [List.filterMap_map]
    exact List.filterMap_some
  rw [Handled.events, flashOps_append, hops]
  exact List.append_nil _

/-! ## One frame -/

/-- Behind a frame which is not answered with an error, the task waits for the next. -/
theorem ready_handle (hflag : s.flag = false)
    (hr : isErrorReply (revFileFrame hal s).reply = false) :
    Ready (s.handle rx (rx.onFrame hal s)).1 := by
  have hl : (rx.onFrame hal s).leaves = false := by
    cases rx
    · simp only [Receiver.onFrame]
      unfold revFileFrame
      split_ifs <;> rfl
    · simp only [Receiver.onFrame, revServerFileFrame_eq, hr]
  rw [handle_of_stays hl]
  exact ⟨rfl, hflag⟩

variable (rx) in
/-- A start frame is answered with `0x00`, and sector 5 is erased. -/
theorem run_startFrame {a b : UInt8} {ps : List (List UInt8)} (hs : Ready s)
    (hok : ∀ k, hal k = .ok) (h : Cut (startFrame a b) ps) (F : File) (image : Image) :
    Ready ((rx.task hal).run s (ps.map .data)) ∧
      replies ((rx.task hal).trace s (ps.map .data)) = [0x00] ∧
      applyAll image (flashOps ((rx.task hal).trace s (ps.map .data))) = stored F [] image := by
  obtain ⟨s', hc, -, hflag, hrun, hacts⟩ := run_cut rx hal hs h
  have hstarts : Starts s' := by
    refine ⟨hc.data 0 (by simp [startFrame]), ?_⟩
    rw [hc.seq_eq (by simp [startFrame])]
    simp [seqOf, startFrame]
  rcases revFileFrame_cases hal s' with ⟨hn, -⟩ | ⟨-, -, hr, hops⟩ | ⟨hn, -⟩
  · exact absurd hstarts hn
  · refine ⟨?_, ?_, ?_⟩
    · rw [hrun]
      exact ready_handle hflag (by rw [hr]; rfl)
    · rw [← replies_acts, hacts, replies_handled, onFrame_reply, hr]
    · rw [← flashOps_acts, hacts, flashOps_handled, onFrame_ops, hops]
      funext x
      simp only [stmflashEraseSector, hok, applyAll_cons, applyAll_nil, apply_unlock, apply_lock,
        apply_erase_ok, stmflashGetFlashSector_five, stored, List.not_mem_nil, if_false]
  · exact absurd hstarts hn

variable (rx) in
/-- **A data frame is answered with `0x01`, and its chunk is added to what is stored.** -/
theorem run_dataFrame {F : File} {i : Fin F.count} {ps : List (List UInt8)} (hs : Ready s)
    (hok : ∀ k, hal k = .ok) (h : Cut (F.frame i) ps) (received : List Nat) (image : Image) :
    Ready ((rx.task hal).run s (ps.map .data)) ∧
      replies ((rx.task hal).trace s (ps.map .data)) = [0x01] ∧
      applyAll (stored F received image) (flashOps ((rx.task hal).trace s (ps.map .data))) =
        stored F (i.val :: received) image := by
  obtain ⟨s', hc, -, hflag, hrun, hacts⟩ := run_cut rx hal hs h
  have hbytes : (F.frame i).bytes = F.header i ++ F.chunk i := rfl
  have hlen : (F.frame i).bytes.length = (F.chunk i).length + 5 := by
    rw [hbytes, F.length_header_append, Nat.add_comm]
  have hle := F.chunk_length_le i
  have hseq : s'.seq = i + 1 := by
    rw [hc.seq_eq (by omega), hbytes, F.seqOf_header i.isLt]
  have hdec : s'.declared = (F.chunk i).length := by
    rw [hc.declared_eq (by omega), hbytes, F.declaredOf_header]
  have hnew := hc.length
  have hacc : Accepted s' := by
    refine ⟨?_, by omega, by omega, ?_⟩
    · rw [hc.data 0 (by omega)]
      simp [hbytes, File.header]
    · rintro ⟨h188, hlong⟩
      have := F.chunk_length i
      have := F.length_le
      omega
  rcases revFileFrame_cases hal s' with ⟨-, hn, -⟩ | ⟨-, hn, -⟩ | ⟨-, -, hr, hops⟩
  · exact absurd hacc hn
  · exact absurd hacc hn
  · have hpl : s'.payloadLength = (F.chunk i).length := by
      unfold RxState.payloadLength
      rw [u16_id (by omega) (by omega)]
      omega
    have haddr : s'.writeAddress = addrFlashSector5 + i * 1400 := by
      rw [writeAddress_eq, hseq]
      rfl
    refine ⟨?_, ?_, ?_⟩
    · rw [hrun]
      exact ready_handle hflag (by rw [hr]; rfl)
    · rw [← replies_acts, hacts, replies_handled, onFrame_reply, hr]
    · rw [← flashOps_acts, hacts, flashOps_handled, onFrame_ops, hops, hpl, haddr]
      refine write_chunk i received image hok fun j hj => ?_
      unfold RxState.payload
      rw [hc.getD (by omega), hbytes, List.getD_append_right _ _ _ _ (by simp [File.header]),
        show 5 + j - (F.header i).length = j by simp [File.header]]
      rw [← F.chunk_getD hj, List.getD_eq_getElem _ _ hj, List.getD_eq_getElem _ _ hj]

/-! ## The conversation -/

variable (rx) in
theorem run_dataFrames {F : File} (hok : ∀ k, hal k = .ok) (image : Image)
    (ks : List (Fin F.count)) : ∀ {s : RxState} {cuts : List (List (List UInt8))}
    (received : List Nat), Ready s → List.Forall₂ Cut (ks.map F.frame) cuts →
    replies ((rx.task hal).trace s (cuts.flatten.map .data)) = List.replicate ks.length 0x01 ∧
      applyAll (stored F received image)
        (flashOps ((rx.task hal).trace s (cuts.flatten.map .data))) =
          stored F ((ks.map Fin.val).reverse ++ received) image := by
  induction ks with
  | nil => intro s cuts received _ h; cases h; exact ⟨rfl, rfl⟩
  | cons k ks ih =>
    intro s cuts received hs h
    cases h with
    | cons hcut hcuts =>
      obtain ⟨hnext, hrep, himg⟩ := run_dataFrame rx hs hok hcut received image
      obtain ⟨hreps, himgs⟩ := ih (k.val :: received) hnext hcuts
      simp only [List.flatten_cons, List.map_append, Machine.trace_append, replies_append, hrep,
        hreps, flashOps_append, applyAll_append, himg, himgs]
      simp [List.replicate_succ]

/-- The start frame and data frames, in any cut. -/
theorem run_conversation {F : File} (hok : ∀ k, hal k = .ok) (image : Image) {a b : UInt8}
    (ks : List (Fin F.count)) {cuts : List (List (List UInt8))}
    (h : List.Forall₂ Cut (startFrame a b :: ks.map F.frame) cuts) :
    replies (rx.events hal (cuts.flatten.map .data)) = 0x00 :: List.replicate ks.length 0x01 ∧
      applyAll image (flashOps (rx.events hal (cuts.flatten.map .data))) =
        stored F (ks.map Fin.val).reverse image := by
  cases h with
  | cons hcut hcuts =>
    have hready : Ready (RxState.start rx) := ready_start
    obtain ⟨hnext, hrep, himg⟩ := run_startFrame rx hready hok hcut F image
    obtain ⟨hreps, himgs⟩ := run_dataFrames rx hok image ks [] hnext hcuts
    rw [← replies_acts, ← flashOps_acts, acts_events, replies_acts, flashOps_acts]
    simp only [List.flatten_cons, List.map_append, Machine.trace_append, replies_append, hrep,
      hreps, flashOps_append, applyAll_append, himg, himgs, List.append_nil]
    simp

/--
**A file sent in data frames in any order and with any repetitions, cut in any way, is stored: each
frame is answered before the next is sent, and at the end sector 5 is the file and `0xFF` behind it,
with the rest of the flash as it was.**
-/
theorem download_stores_file (rx : Receiver) (hal : Nat → HalStatus) (hok : ∀ k, hal k = .ok)
    (image : Image) (F : File) (a b : UInt8) (ks : List (Fin F.count)) (hall : ∀ i, i ∈ ks)
    (cuts : List (List (List UInt8)))
    (hcuts : List.Forall₂ Cut (startFrame a b :: ks.map F.frame) cuts) :
    (∀ n ≤ ks.length, replies (rx.events hal ((cuts.take (n + 1)).flatten.map .data)) =
      0x00 :: List.replicate n 0x01) ∧
    applyAll image (flashOps (rx.events hal (cuts.flatten.map .data))) = fun addr =>
      if InSector 5 addr then F.bytes.getD (addr - addrFlashSector5) 0xFF else image addr := by
  constructor
  · intro n hn
    -- the frames sent so far are a conversation of their own
    have htake := List.forall₂_take (n + 1) hcuts
    rw [List.take_succ_cons, ← List.map_take] at htake
    rw [(run_conversation hok image (ks.take n) htake).1, List.length_take, Nat.min_eq_left hn]
  · rw [(run_conversation hok image ks hcuts).2]
    funext addr
    refine stored_all (fun i hi => ?_) image addr
    rw [List.mem_reverse, List.mem_map]
    exact ⟨⟨i, hi⟩, hall _, rfl⟩

/-- The theorem at a file of two bytes, with a cut in the header and a repeated chunk. -/
theorem download_stores_two_bytes :
    applyAll (fun _ => 0x5A) (flashOps (Receiver.client.events (fun _ => .ok)
        ([[[1, 0], [0, 0, 1]], [[1, 0, 1, 0, 2, 7, 8]], [[1], [0, 1, 0, 2, 7], [8]]].flatten.map
          .data))) = fun addr =>
      if InSector 5 addr then [7, 8].getD (addr - addrFlashSector5) 0xFF else 0x5A :=
  (download_stores_file .client (fun _ => .ok) (fun _ => rfl) (fun _ => 0x5A) ⟨[7, 8], by decide⟩
    0 1 [⟨0, by decide⟩, ⟨0, by decide⟩] (by decide) _
    (.cons ⟨by decide, rfl⟩ (.cons ⟨by decide, rfl⟩ (.cons ⟨by decide, rfl⟩ .nil)))).2

end PlcFirmware.Download
