import PlcFirmware.Download.Receive

/-!
# What an acknowledgement says about the flash

The reply `0x01` to a data frame and `0x00` to a start frame are sent whatever the HAL returned:
`STMFLASH_EraseSector` returns nothing and the address which `STMFLASH_WriteDate` returns is not
looked at. So the reply is right just when the HAL calls made for the frame go well enough, which for
a data frame means that no byte call fails (a word which fails is written again byte by byte).
-/

namespace PlcFirmware.Download

open Infra Flash

variable {rx : Receiver} {hal : Nat → HalStatus} {s s' : RxState} {r : RecvResult}

/--
The replies of the step tell the truth: `0x01` if all payload bytes of the frame were stored at their
addresses by calls which succeeded, `0x00` if the erase of sector 5 succeeded.
-/
def AckTrue (rx : Receiver) (hal : Nat → HalStatus) (s : RxState) (r : RecvResult) : Prop :=
  (Event.send 0x01 ∈ ((rx.task hal).step s r).2 →
    ∃ s', receive rx s r = .frame s' ∧ ∀ j < s'.declared, ∃ op,
      Event.flash op ∈ ((rx.task hal).step s r).2 ∧
        op.stores (addrFlashSector5 + (s'.seq - 1) * 1400 + j) = some (s'.receiveData (5 + j))) ∧
  (Event.send 0x00 ∈ ((rx.task hal).step s r).2 →
    Event.flash (.erase 5 .ok) ∈ ((rx.task hal).step s r).2)

/-- The HAL calls made for the frame: the erase succeeds; no byte call of a write fails. -/
def HalKeeps (hal : Nat → HalStatus) (s : RxState) : Prop :=
  (Starts s → hal s.calls = .ok) ∧ (Accepted s → NoByteFails hal s.declared s.calls)

theorem erase_ok_mem_iff {calls : Nat} :
    FlashOp.erase 5 .ok ∈ (stmflashEraseSector addrFlashSector5 hal calls).ops ↔
      hal calls = .ok := by
  simp only [stmflashEraseSector, stmflashGetFlashSector_five, List.mem_cons, reduceCtorEq,
    FlashOp.erase.injEq, true_and, List.not_mem_nil, or_false, false_or]
  exact eq_comm

/-- **All payload bytes of an accepted frame are stored just when no byte call fails.** -/
theorem payload_stored_iff (h : FrameOk s) (ha : Accepted s) :
    (∀ j < s.declared, ∃ op ∈
        (stmflashWriteDate s.payload hal s.writeAddress s.payloadLength s.calls).ops,
      op.stores (addrFlashSector5 + (s.seq - 1) * 1400 + j) = some (s.receiveData (5 + j))) ↔
      NoByteFails hal s.declared s.calls := by
  have hlt := writeAddress_lt h ha.2.1
  have hlen := h.payloadLength_eq ha.2.1
  have hd := h.declared_le ha.2.1
  rw [← hlen, ← stmflashWriteDate_ret_iff (by omega) hlt, ← writeAddress_eq]
  generalize hc : stmflashWriteDate s.payload hal s.writeAddress s.payloadLength s.calls = c
  have hge : s.writeAddress ≤ c.ret := hc ▸ stmflashWriteDate_ret_ge hlt
  have hle : c.ret ≤ s.writeAddress + s.payloadLength := hc ▸ stmflashWriteDate_ret_le hlt
  have hstores : ∀ a b, (∃ op ∈ c.ops, op.stores a = some b) ↔
      s.writeAddress ≤ a ∧ a < c.ret ∧ b = s.payload (a - s.writeAddress) :=
    fun a b => hc ▸ stmflashWriteDate_stores hlt a b
  constructor
  · intro hall
    refine Nat.le_antisymm hle (Nat.not_lt.mp fun hret => ?_)
    -- the byte at the address returned is the first one which is not stored
    have hfirst := hall (c.ret - s.writeAddress) (by omega)
    rw [Nat.add_sub_cancel' hge] at hfirst
    exact absurd ((hstores _ _).mp hfirst).2.1 (Nat.lt_irrefl _)
  · intro hret j hj
    refine (hstores _ _).mpr ⟨by omega, by omega, ?_⟩
    rw [Nat.add_sub_cancel_left]
    rfl

/--
**An acknowledgement is true if and only if the HAL calls for its frame keep the data**, for every
state of a task, every result of its `recv` and every pattern of HAL results.
-/
theorem ack_true_iff (rx : Receiver) (hal : Nat → HalStatus) (s : RxState) (r : RecvResult) :
    AckTrue rx hal s r ↔ ∀ s', receive rx s r = .frame s' → HalKeeps hal s' := by
  constructor
  · rintro ⟨hone, hzero⟩ s' hs'
    constructor
    · intro hstart
      rcases revFileFrame_cases hal s' with ⟨hn, -⟩ | ⟨-, -, hreply, hops⟩ | ⟨hn, -⟩
      · exact absurd hstart hn
      · have hsent := (mem_step_iff_of_frame hs' rfl).mpr (send_mem_handled.mpr hreply.symm)
        have hop := flash_mem_handled.mp ((mem_step_iff_of_frame hs' rfl).mp (hzero hsent))
        exact erase_ok_mem_iff.mp (hops ▸ hop)
      · exact absurd hstart hn
    · intro hacc
      rcases revFileFrame_cases hal s' with ⟨-, hn, -⟩ | ⟨-, hn, -⟩ | ⟨-, -, hreply, hops⟩
      · exact absurd hacc hn
      · exact absurd hacc hn
      · have hsent := (mem_step_iff_of_frame hs' rfl).mpr (send_mem_handled.mpr hreply.symm)
        obtain ⟨t, ht, hall⟩ := hone hsent
        obtain rfl : s' = t := by rw [hs'] at ht; cases ht; rfl
        refine (payload_stored_iff (receive_frame hs') hacc).mp fun j hj => ?_
        obtain ⟨op, hmem, hst⟩ := hall j hj
        have hop := flash_mem_handled.mp ((mem_step_iff_of_frame hs' rfl).mp hmem)
        exact ⟨op, hops ▸ hop, hst⟩
  · intro hkeeps
    constructor
    · intro hsent
      obtain ⟨s', hs'⟩ := exists_frame_of_mem hsent rfl
      have hreply := send_mem_handled.mp ((mem_step_iff_of_frame hs' rfl).mp hsent)
      rcases revFileFrame_cases hal s' with ⟨-, -, -, he⟩ | ⟨-, -, h0, -⟩ | ⟨-, hacc, -, hops⟩
      · rw [← hreply] at he; simp [isErrorReply] at he
      · rw [h0] at hreply; simp at hreply
      · refine ⟨s', hs', fun j hj => ?_⟩
        have hall := (payload_stored_iff (receive_frame hs') hacc).mpr ((hkeeps s' hs').2 hacc)
        obtain ⟨op, hop, hst⟩ := hall j hj
        refine ⟨op, (mem_step_iff_of_frame hs' rfl).mpr (flash_mem_handled.mpr ?_), hst⟩
        rw [hops]; exact hop
    · intro hsent
      obtain ⟨s', hs'⟩ := exists_frame_of_mem hsent rfl
      have hreply := send_mem_handled.mp ((mem_step_iff_of_frame hs' rfl).mp hsent)
      rcases revFileFrame_cases hal s' with ⟨-, -, -, he⟩ | ⟨hst, -, -, hops⟩ | ⟨-, -, h1, -⟩
      · rw [← hreply] at he; simp [isErrorReply] at he
      · refine (mem_step_iff_of_frame hs' rfl).mpr (flash_mem_handled.mpr ?_)
        rw [hops]
        exact erase_ok_mem_iff.mpr ((hkeeps s' hs').1 hst)
      · rw [h1] at hreply; simp at hreply

/-- A start frame whose erase fails is answered with `0x00` all the same. -/
theorem failed_erase_acked :
    ¬ ∀ (rx : Receiver) (hal : Nat → HalStatus) (rs : List RecvResult),
      ∀ p ∈ rx.steps hal rs, AckTrue rx hal p.1 p.2 := by
  intro h
  have hack := (h .server (fun _ => .error) [.data [1, 0, 0, 0, 0]] _ List.mem_cons_self).2
  exact absurd (hack (by decide +kernel)) (by decide +kernel)

end PlcFirmware.Download
