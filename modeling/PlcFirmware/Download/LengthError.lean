import PlcFirmware.Download.Frame

/-!
# The reply to a wrong length

The tasks have a reply `0x04` for a data frame whose length does not fit its header. But the payload
loop in front of it is left with exactly the length in the header, or with `flag` set, and then the task
closes before it looks at the frame. So the reply is never sent: a frame which declares more than the
buffer holds, or to which a byte is missing or one too many, ends in a closed connection, or is taken
for a good one where a `-1` of `recv` has made up for the difference.

* `never_replies_length_error` — no run sends `0x04`
* `badFramesAnswered_iff` — so no bad frame is answered with it
-/

namespace PlcFirmware.Download

open Infra Flash

variable {rx : Receiver} {hal : Nat → HalStatus} {s s' : RxState} {r : RecvResult}

/-! ## The reply is never sent -/

/-- **Behind the receive loops the test for `0x04` fails.** -/
theorem onFrame_reply_ne (rx : Receiver) (hal : Nat → HalStatus) (h : FrameOk s) :
    (rx.onFrame hal s).reply ≠ 0x04 := by
  rw [onFrame_reply, revFileFrame]
  by_cases h0 : s.receiveData 0 ≠ plcNumber
  · rw [if_pos h0]
    exact nofun
  rw [if_neg h0]
  by_cases h1 : s.seq = 0
  · rw [if_pos h1]
    exact nofun
  -- the payload loop has left with the length of the header
  have hlen : ¬((s.declared : Int) ≠ s.newLength - 5) := by
    have := h.length_eq h1
    omega
  rw [if_neg h1, if_neg hlen]
  split
  · exact nofun
  · exact nofun

theorem step_no_length_error (rx : Receiver) (hal : Nat → HalStatus) (s : RxState) (r : RecvResult) :
    Event.send 0x04 ∉ ((rx.task hal).step s r).2 := by
  intro hsent
  obtain ⟨s', hs'⟩ := exists_frame_of_mem hsent rfl
  have hreply := send_mem_handled.mp ((mem_step_iff_of_frame hs' rfl).mp hsent)
  have hne := onFrame_reply_ne rx hal (receive_frame hs')
  rw [onFrame_reply] at hne
  exact hne hreply.symm

theorem trace_no_length_error (rx : Receiver) (hal : Nat → HalStatus) (s : RxState)
    (rs : List RecvResult) : Event.send 0x04 ∉ (rx.task hal).trace s rs := by
  intro hsent
  obtain ⟨p, -, hmem⟩ := (Machine.mem_trace_iff _).mp hsent
  exact step_no_length_error rx hal p.1 p.2 hmem

/-- **No run of a task sends `0x04`.** -/
theorem never_replies_length_error (rx : Receiver) (hal : Nat → HalStatus) (rs : List RecvResult) :
    Event.send 0x04 ∉ rx.events hal rs := by
  intro hsent
  rcases List.mem_cons.mp hsent with h | h
  · cases h
  · exact trace_no_length_error rx hal _ rs h

/-! ## Frames of a wrong length -/

/-- The bytes which the results deliver. -/
def delivered (rs : List RecvResult) : List UInt8 := rs.flatMap RecvResult.bytes

/-- A data frame for this station whose header is there, but with a length which no payload has, or with
another number of bytes than the header says. -/
structure BadFrame (bs : List UInt8) : Prop where
  header : 5 ≤ bs.length
  station : bs.getD 0 0 = plcNumber
  seq : seqOf bs ≠ 0
  length : 1400 < declaredOf bs ∨ bs.length ≠ declaredOf bs + 5

instance (bs : List UInt8) : Decidable (BadFrame bs) :=
  decidable_of_iff (5 ≤ bs.length ∧ bs.getD 0 0 = plcNumber ∧ seqOf bs ≠ 0 ∧
      (1400 < declaredOf bs ∨ bs.length ≠ declaredOf bs + 5))
    ⟨fun h => ⟨h.1, h.2.1, h.2.2.1, h.2.2.2⟩, fun h => ⟨h.header, h.station, h.seq, h.length⟩⟩

/-- The task waits in the first `recv` of a frame, and `rs` is what it reads until it waits for another
frame or has closed. -/
structure ReadsFrame (rx : Receiver) (hal : Nat → HalStatus) (s : RxState) (rs : List RecvResult) :
    Prop where
  starts : s.pc = .first
  nonempty : rs ≠ []
  inside : ∀ pre, pre <+: rs → pre ≠ [] → pre ≠ rs →
    ((rx.task hal).run s pre).pc = .header ∨ ((rx.task hal).run s pre).pc = .payload
  ends : ((rx.task hal).run s rs).pc = .first ∨ ((rx.task hal).run s rs).pc = .closed

/-- The frame is answered with `0x04` before the task reads another one or closes. -/
def Answered (rx : Receiver) (hal : Nat → HalStatus) (s : RxState) (rs : List RecvResult) : Prop :=
  Event.send 0x04 ∈ (rx.task hal).trace s rs

/-- Every bad frame of a run is answered with `0x04`. -/
def BadFramesAnswered (rx : Receiver) (hal : Nat → HalStatus) (rs : List RecvResult) : Prop :=
  ∀ pre fs post, rs = pre ++ fs ++ post →
    ReadsFrame rx hal ((rx.task hal).run (RxState.start rx) pre) fs → BadFrame (delivered fs) →
      Answered rx hal ((rx.task hal).run (RxState.start rx) pre) fs

/--
**The bad frames of a run are answered with `0x04` if and only if there are none**, for either task and
whatever `recv` and the HAL return.
-/
theorem badFramesAnswered_iff (rx : Receiver) (hal : Nat → HalStatus) (rs : List RecvResult) :
    BadFramesAnswered rx hal rs ↔ ∀ pre fs post, rs = pre ++ fs ++ post →
      ReadsFrame rx hal ((rx.task hal).run (RxState.start rx) pre) fs → ¬BadFrame (delivered fs) := by
  constructor
  · intro h pre fs post hrs hreads hbad
    exact trace_no_length_error rx hal _ fs (h pre fs post hrs hreads hbad)
  · intro h pre fs post hrs hreads hbad
    exact absurd hbad (h pre fs post hrs hreads)

/-- A header which declares 1401 bytes, and then the end of the connection. -/
def tooLong : List RecvResult := [.data [1, 0, 1, 5, 121], .data []]

theorem readsFrame_tooLong :
    ReadsFrame .server (fun _ => .ok) (RxState.start .server) tooLong where
  starts := rfl
  nonempty := nofun
  inside := by
    intro pre hpre hne hall
    obtain ⟨c, pre, rfl⟩ := List.exists_cons_of_ne_nil hne
    obtain ⟨hc, hpre⟩ := List.cons_prefix_cons.mp hpre
    rw [hc] at hall ⊢
    cases pre with
    | nil => exact .inr (by decide +kernel)
    | cons d pre =>
      obtain ⟨hd, hpre⟩ := List.cons_prefix_cons.mp hpre
      rw [hd, List.prefix_nil.mp hpre] at hall
      exact absurd rfl hall
  ends := .inr (by decide +kernel)

/-- The task closes the connection, with no reply to the frame at all. -/
theorem tooLong_not_answered :
    (revFileTask fun _ => .ok).trace (RxState.start .server) tooLong = [.recv 5 1400, .close] ∧
      ¬BadFramesAnswered .server (fun _ => .ok) tooLong := by
  refine ⟨by decide +kernel, fun h => ?_⟩
  have hanswered := h [] tooLong [] (List.append_nil _).symm readsFrame_tooLong (by decide +kernel)
  exact trace_no_length_error _ _ _ _ hanswered

end PlcFirmware.Download
