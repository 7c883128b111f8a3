import PlcFirmware.Download.Receive

/-!
# Which flash addresses a download touches

The area for the file is sector 5. A start frame erases it; a data frame is written `1400` bytes
further on for each sequence number. Sequence number 188 is the last one with room in the sector and
the only one the code checks, so a data frame with a higher number and at least one byte of payload
is written behind the sector.
-/

namespace PlcFirmware.Download

open Infra Flash

variable {rx : Receiver} {hal : Nat → HalStatus} {s s' : RxState} {r : RecvResult}

/-- An erase is of sector 5; all bytes which a program call covers are in sector 5. -/
def InSector5 : FlashOp → Prop
  | .erase sector _ => sector = 5
  | .program type addr _ _ => ∀ i < type.width, InSector 5 (addr + i)
  | .unlock => True
  | .lock => True

/-- A frame for this station, with a sequence number above 188 and a payload. -/
def Overruns (s : RxState) : Prop := s.receiveData 0 = 1 ∧ 188 < s.seq ∧ 0 < s.declared

theorem eraseSector_inSector5 {calls : Nat} {op : FlashOp}
    (hop : op ∈ (stmflashEraseSector addrFlashSector5 hal calls).ops) : InSector5 op := by
  simp only [stmflashEraseSector, stmflashGetFlashSector_five, List.mem_cons, List.not_mem_nil,
    or_false] at hop
  rcases hop with rfl | rfl | rfl
  · trivial
  · rfl
  · trivial

/-- An accepted frame which does not overrun ends in the sector: `187*1400+344` bytes is its size. -/
theorem accepted_end_le (h : FrameOk s) (ha : Accepted s) (ho : ¬Overruns s)
    (hpos : 0 < s.declared) : s.writeAddress + s.payloadLength ≤ addrFlashSector6 := by
  obtain ⟨h0, hseq, hdecl, hlast⟩ := ha
  have hle : s.seq ≤ 188 := Nat.not_lt.mp fun hgt => ho ⟨h0, hgt, hpos⟩
  have hd := h.declared_le hseq
  rw [writeAddress_eq, h.payloadLength_eq hseq]
  unfold addrFlashSector5 addrFlashSector6
  by_cases h188 : s.seq = 188
  · have : ¬s.newLength - 5 > 344 := fun hgt => hlast ⟨h188, hgt⟩
    rw [h188]
    omega
  · omega

theorem writeDate_inSector5 (h : FrameOk s) (ha : Accepted s) (ho : ¬Overruns s) {calls : Nat}
    {op : FlashOp}
    (hop : op ∈ (stmflashWriteDate s.payload hal s.writeAddress s.payloadLength calls).ops) :
    InSector5 op := by
  have hlt := writeAddress_lt h ha.2.1
  rcases stmflashWriteDate_range hlt hop with rfl | rfl | ⟨type, a, data, status, rfl, h1, h2⟩
  · trivial
  · trivial
  · intro i hi
    have hpos : 0 < s.declared := by
      have := h.payloadLength_eq ha.2.1
      omega
    have hend := accepted_end_le h ha ho hpos
    have hstart := writeAddress_eq s
    exact inSector_five.mpr ⟨by omega, by omega⟩

/-- An overrunning frame is written, and its first byte goes behind the sector. -/
theorem overruns_not_inSector5 (hal : Nat → HalStatus) (h : FrameOk s) (ho : Overruns s) :
    ∃ op ∈ (revFileFrame hal s).ops, ¬InSector5 op := by
  obtain ⟨h0, hgt, hpos⟩ := ho
  have hseq : s.seq ≠ 0 := by omega
  have hacc : Accepted s := ⟨h0, hseq, by have := h.length_eq hseq; omega, by omega⟩
  rcases revFileFrame_cases hal s with ⟨-, hn, -⟩ | ⟨-, hn, -⟩ | ⟨-, -, -, hops⟩
  · exact absurd hacc hn
  · exact absurd hacc hn
  · have hn : 0 < s.payloadLength := by rw [h.payloadLength_eq hseq]; exact hpos
    obtain ⟨type, data, status, hop⟩ := stmflashWriteDate_first s.payload hal s.writeAddress
      s.calls hn
    refine ⟨_, by rw [hops]; exact hop, fun hin => ?_⟩
    have hw : 0 < type.width := by cases type <;> decide
    have hlt := (inSector_five.mp (hin 0 hw)).2
    rw [writeAddress_eq] at hlt
    unfold addrFlashSector5 addrFlashSector6 at hlt
    omega

/-- **A frame is kept in the sector just when it does not overrun.** -/
theorem frame_inSector5_iff (hal : Nat → HalStatus) (h : FrameOk s) :
    (∀ op ∈ (revFileFrame hal s).ops, InSector5 op) ↔ ¬Overruns s := by
  constructor
  · intro hall ho
    obtain ⟨op, hop, hn⟩ := overruns_not_inSector5 hal h ho
    exact hn (hall op hop)
  · intro ho op hop
    rcases revFileFrame_cases hal s with ⟨-, -, he, -⟩ | ⟨-, -, -, he⟩ | ⟨-, ha, -, he⟩
    · rw [he] at hop; simp at hop
    · rw [he] at hop; exact eraseSector_inSector5 hop
    · rw [he] at hop; exact writeDate_inSector5 h ha ho hop

/--
**The erase and program calls of a run are all in sector 5 if and only if no frame taken in
overruns.**
-/
theorem events_inSector5_iff (rx : Receiver) (hal : Nat → HalStatus) (rs : List RecvResult) :
    (∀ op, Event.flash op ∈ rx.events hal rs → InSector5 op) ↔
      ∀ p ∈ rx.steps hal rs, ∀ s', receive rx p.1 p.2 = .frame s' → ¬Overruns s' := by
  constructor
  · intro hall p hp s' hs'
    refine (frame_inSector5_iff hal (receive_frame hs')).mp fun op hop => ?_
    exact hall op ((mem_events_iff rfl).mpr ⟨p, hp, s', hs', flash_mem_handled.mpr hop⟩)
  · intro hnone op hop
    obtain ⟨p, hp, s', hs', hmem⟩ := (mem_events_iff rfl).mp hop
    exact (frame_inSector5_iff hal (receive_frame hs')).mpr (hnone p hp s' hs') op
      (flash_mem_handled.mp hmem)

/-- A frame with sequence number 189 and one byte of payload is written to sector 6. -/
theorem seq189_behind_sector :
    ¬ ∀ (rx : Receiver) (hal : Nat → HalStatus) (rs : List RecvResult) (op : FlashOp),
      Event.flash op ∈ rx.events hal rs → InSector5 op := by
  intro h
  have hev : Event.flash (.program .byte 0x08080420 0xAA .ok) ∈
      Receiver.server.events (fun _ => .ok) [.data [1, 0, 189, 0, 1, 0xAA]] := by decide +kernel
  have hin := h .server (fun _ => .ok) _ _ hev 0 (by decide)
  exact absurd hin (by decide)

end PlcFirmware.Download
