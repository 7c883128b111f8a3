import Mathlib.Data.List.Induction
import PlcFirmware.Download.Window
import PlcFirmware.Download.Framing

/-!
# A failed `recv`

The first `recv` of a frame is tested for `0` and for errors, and either ends the loop. The ones in
the header and payload loops are tested for no progress (`newLength == lastLength`), which catches
`0`, but their `-1` is added to the running length and passes for progress.

A result `0` in the header loop sets `flag` and leaves that loop. If the sequence number is not `0` by
then, the payload loop is entered all the same, and goes on receiving with `flag` set. In a run without
these two cases a task closes as soon as a `recv` fails.
-/

namespace PlcFirmware.Download

open Infra Flash

variable {rx : Receiver} {hal : Nat → HalStatus} {s s' : RxState} {r : RecvResult}

/-- A `recv` behind the first of a frame returns `-1`. -/
def FailsInFrame (s : RxState) (r : RecvResult) : Prop :=
  (s.pc = .header ∨ s.pc = .payload) ∧ r = .error

instance (s : RxState) (r : RecvResult) : Decidable (FailsInFrame s r) :=
  inferInstanceAs (Decidable (_ ∧ _))

/-- A `recv` in the header loop returns `0`, with a sequence number received which is not `0`. -/
def EndsInHeader (s : RxState) (r : RecvResult) : Prop :=
  s.pc = .header ∧ r = .data [] ∧ s.seq ≠ 0

instance (s : RxState) (r : RecvResult) : Decidable (EndsInHeader s r) :=
  inferInstanceAs (Decidable (_ ∧ _ ∧ _))

/-- The failures which do not leave the loop. -/
def PassedOver (s : RxState) (r : RecvResult) : Prop := FailsInFrame s r ∨ EndsInHeader s r

instance (s : RxState) (r : RecvResult) : Decidable (PassedOver s r) :=
  inferInstanceAs (Decidable (_ ∨ _))

/-! ## The step at which `recv` returns `0` or `-1` -/

/-- **A result `0`, and `-1` from the first `recv` of a frame, are not taken in.** -/
theorem not_taken_of_failed (hpc : s.pc ≠ .closed) (hin : Inside s)
    (hr : r = .error ∨ r = .data []) (hclean : ¬FailsInFrame s r) : ¬Taken rx s r := by
  intro ht
  by_cases hf : s.pc = .first
  · have hle := ht.le
    have hpos := ht.first hf
    rw [RxState.reached, offset_first hf] at hle hpos
    rcases hr with rfl | rfl
    · cases rx <;> revert hle hpos <;> decide
    · cases rx <;> revert hpos <;> decide
  · have hmid : s.pc = .header ∨ s.pc = .payload := by
      cases hp : s.pc <;> simp_all
    have hdata : r = .data [] := hr.resolve_left fun he => hclean ⟨hmid, he⟩
    have hle := hin hmid
    refine ht.later hf ?_
    rw [RxState.reached, offset_later hf, hdata]
    simp only [RecvResult.value, List.length_nil]
    cases rx
    · exact u16_id (by omega) (by omega)
    · exact s16_id (by omega) (by omega)

/-- **A failed `recv` closes the task at once, unless it is passed over.** -/
theorem failed_step (hpc : s.pc ≠ .closed) (hin : Inside s) (hr : r = .error ∨ r = .data [])
    (hclean : ¬PassedOver s r) :
    (rx.task hal).step s r = ({ s with pc := .closed }, [.close]) := by
  have hnot : ¬Taken rx s r :=
    not_taken_of_failed hpc hin hr fun h => hclean (Or.inl h)
  refine task_step_quit ?_ hpc
  rcases receive_eq rx s r with ⟨ht, -⟩ | ⟨ht, -⟩ | ⟨-, hp, he⟩ | ⟨-, he⟩
  · exact absurd ht hnot
  · exact absurd ht hnot
  · -- without a sequence number the payload loop is not entered
    have hdata : r = .data [] := hr.resolve_left fun h => hclean (Or.inl ⟨Or.inl hp, h⟩)
    subst hdata
    have hseq : s.seq = 0 := by
      by_contra hne
      exact hclean (Or.inr ⟨hp, rfl, hne⟩)
    have hstill : RxState.seq { s.got rx (.data []) with flag := true } = 0 := hseq
    rw [he, testSeq, if_neg (not_not_intro hstill), testFlag, if_pos rfl]
  · exact he

/-! ## What a frame was received from -/

/-- The last results in `rs` are the pieces received since the first `recv` of the frame. -/
structure Delivered (rx : Receiver) (hal : Nat → HalStatus) (rs : List RecvResult)
    (pieces : List (List UInt8)) : Prop where
  nonempty : ∀ c ∈ pieces, c ≠ []
  since : ∃ old, rs = old ++ pieces.map .data ∧
    ((rx.task hal).run (RxState.start rx) old).pc = .first

theorem Delivered.snoc {rs : List RecvResult} {pieces : List (List UInt8)} {c : List UInt8}
    (h : Delivered rx hal rs pieces) (hc : c ≠ []) :
    Delivered rx hal (rs ++ [.data c]) (pieces ++ [c]) where
  nonempty := by
    intro x hx
    rcases List.mem_append.mp hx with hx | hx
    · exact h.nonempty x hx
    · rw [List.mem_singleton.mp hx]; exact hc
  since := by
    obtain ⟨old, rfl, hfirst⟩ := h.since
    exact ⟨old, by simp, hfirst⟩

/-- A result which is taken in while a frame is assembled is a further piece of it. -/
theorem Assembled.taken_piece {bs : List UInt8} (ha : Assembled s bs) (hin : Inside s)
    (hfit : Fits rx s r) (hclean : ¬FailsInFrame s r) (ht : Taken rx s r) :
    ∃ c, r = .data c ∧ c ≠ [] ∧ bs.length + c.length ≤ 1405 := by
  cases r with
  | error => exact absurd ht (not_taken_of_failed ha.waits hin (Or.inl rfl) hclean)
  | data c =>
    refine ⟨c, rfl, ?_, ?_⟩
    · rintro rfl
      exact not_taken_of_failed ha.waits hin (Or.inr rfl) hclean ht
    · have := (offset_add_value ha.waits hin hfit).1
      rw [ha.offset_eq] at this
      simp only [RecvResult.value] at this
      omega

/-- **At any time the task is closed, or assembles a frame from the last results of the run.** -/
theorem closed_or_delivered (rs : List RecvResult)
    (hfit : ∀ p ∈ rx.steps hal rs, Fits rx p.1 p.2)
    (hclean : ∀ p ∈ rx.steps hal rs, ¬PassedOver p.1 p.2) :
    ((rx.task hal).run (RxState.start rx) rs).pc = .closed ∨ ∃ pieces, Delivered rx hal rs pieces ∧
      Assembled ((rx.task hal).run (RxState.start rx) rs) pieces.flatten := by
  have hin := inside_run hfit fun _ p hp hu => hclean p hp (Or.inl ⟨hu.1, hu.2.2⟩)
  -- the last result goes on with what the results before it have assembled
  induction rs using List.reverseRecOn with
  | nil => exact Or.inr ⟨[], ⟨by simp, [], rfl, rfl⟩, assembled_first rfl rfl⟩
  | append_singleton rs r ih =>
    have hsub : ∀ p ∈ rx.steps hal rs, p ∈ rx.steps hal (rs ++ [r]) := by
      intro p hp
      rw [Receiver.steps, Machine.transitions_append]
      exact List.mem_append_left _ hp
    have hlast : ((rx.task hal).run (RxState.start rx) rs, r) ∈ rx.steps hal (rs ++ [r]) := by
      rw [Receiver.steps, Machine.transitions_append]
      simp
    have hrun : (rx.task hal).run (RxState.start rx) (rs ++ [r]) =
        ((rx.task hal).step ((rx.task hal).run (RxState.start rx) rs) r).1 := by
      rw [Machine.run_append]; rfl
    rw [hrun]
    rcases ih (fun p hp => hfit p (hsub p hp)) (fun p hp => hclean p (hsub p hp))
      (fun p hp => hin p (hsub p hp)) with hd | ⟨pieces, hdel, ha⟩
    · rw [task_step_closed hd]
      exact Or.inl hd
    · have hnow := (hin _ hlast).1
      by_cases hr : r = .error ∨ r = .data []
      · rw [failed_step ha.waits hnow hr (hclean _ hlast)]
        exact Or.inl rfl
      rw [not_or] at hr
      cases r with
      | error => exact absurd rfl hr.1
      | data c =>
        have hc : c ≠ [] := fun h => hr.2 (congrArg RecvResult.data h)
        have hle : pieces.flatten.length + c.length ≤ 1405 := by
          have hroom := (offset_add_value ha.waits hnow (hfit _ hlast)).1
          rw [ha.offset_eq] at hroom
          simp only [RecvResult.value] at hroom
          omega
        rcases ha.receive_piece rx hc hle with ⟨-, pc, hw, ha'⟩ | ⟨-, hf⟩
        · rw [task_step_wait hw]
          exact Or.inr ⟨pieces ++ [c], hdel.snoc hc, by simpa using ha'⟩
        · rw [task_step_frame hf]
          obtain ⟨t, hc, hh⟩ | ⟨t, rfl, hh⟩ := handle_cases _ rx (rx.onFrame hal _)
          · rw [hh]
            exact Or.inl hc
          · -- the next frame is assembled from nothing
            rw [hh]
            refine Or.inr ⟨[], ⟨by simp, rs ++ [.data c], by simp, ?_⟩, assembled_first rfl ha.flag⟩
            rw [hrun, task_step_frame hf, hh]
            rfl

/--
**In a run without `-1` behind the first `recv` of a frame, and without `0` in the header loop behind a
sequence number, a result `0` or `-1` is the end: the task closes the connection, and does nothing else
any more. A frame which is handled consists of results with bytes, received one after the other.**
-/
theorem recv_failure_ends (rx : Receiver) (hal : Nat → HalStatus) (pre post : List RecvResult)
    (r : RecvResult) (hfit : ∀ p ∈ rx.steps hal (pre ++ r :: post), Fits rx p.1 p.2)
    (hclean : ∀ p ∈ rx.steps hal (pre ++ r :: post), ¬PassedOver p.1 p.2) :
    (((rx.task hal).run (RxState.start rx) pre).pc ≠ .closed → r = .error ∨ r = .data [] →
      (rx.task hal).trace ((rx.task hal).run (RxState.start rx) pre) (r :: post) = [.close]) ∧
    ∀ s', receive rx ((rx.task hal).run (RxState.start rx) pre) r = .frame s' →
      ∃ pieces, Delivered rx hal (pre ++ [r]) pieces ∧ Complete s' pieces.flatten := by
  have hin := inside_run hfit fun _ p hp hu => hclean p hp (Or.inl ⟨hu.1, hu.2.2⟩)
  have hsteps : rx.steps hal (pre ++ r :: post) = rx.steps hal pre ++
      (rx.task hal).transitions ((rx.task hal).run (RxState.start rx) pre) (r :: post) :=
    (rx.task hal).transitions_append _ _ _
  have hnow : ((rx.task hal).run (RxState.start rx) pre, r) ∈ rx.steps hal (pre ++ r :: post) := by
    rw [hsteps]
    exact List.mem_append_right _ List.mem_cons_self
  constructor
  · intro hopen hr
    rw [Machine.trace_cons, failed_step hopen (hin _ hnow).1 hr (hclean _ hnow), (trace_closed rfl _).1]
    rfl
  · intro s' hf
    have hpre : ∀ p ∈ rx.steps hal pre, p ∈ rx.steps hal (pre ++ r :: post) := by
      intro p hp
      rw [hsteps]
      exact List.mem_append_left _ hp
    obtain ⟨-, -, ht⟩ := receive_frame_from hf
    rcases closed_or_delivered pre (fun p hp => hfit p (hpre p hp)) (fun p hp => hclean p (hpre p hp))
      with hc | ⟨pieces, hdel, ha⟩
    · rw [receive_closed hc] at hf; cases hf
    · obtain ⟨c, rfl, hc, hle⟩ := ha.taken_piece (hin _ hnow).1 (hfit _ hnow)
        (fun h => hclean _ hnow (Or.inl h)) ht
      rcases ha.receive_piece rx hc hle with ⟨-, pc, hw, -⟩ | ⟨-, hf'⟩
      · rw [hw] at hf; cases hf
      · rw [hf'] at hf
        cases hf
        exact ⟨pieces ++ [c], hdel.snoc hc, by simpa using ha.complete_next hle⟩

/-- The theorem at a run whose second `recv` returns `0` in the header, with more behind it. -/
theorem recv_failure_ends_in_header :
    (revFileTask fun _ => .ok).trace
      ((revFileTask fun _ => .ok).run (RxState.start .server) [.data [1, 0]])
      [.data [], .data [0, 0, 0], .error] = [.close] :=
  (recv_failure_ends .server (fun _ => .ok) [.data [1, 0]] [.data [0, 0, 0], .error] (.data [])
    (by decide +kernel) (by decide +kernel)).1 (by decide +kernel) (Or.inr rfl)

/-- A `-1` in the middle of a data frame is counted as a received byte less, and the frame is
programmed and acknowledged all the same. -/
theorem server_acts_after_error :
    ¬ ∀ (rx : Receiver) (hal : Nat → HalStatus) (pre post : List RecvResult) (r : RecvResult),
      (∀ p ∈ rx.steps hal (pre ++ r :: post), Fits rx p.1 p.2) →
      ((rx.task hal).run (RxState.start rx) pre).pc ≠ .closed → r = .error ∨ r = .data [] →
      ∀ e ∈ (rx.task hal).trace ((rx.task hal).run (RxState.start rx) pre) (r :: post),
        e.isAct = false := by
  intro h
  have hsent : Event.send 0x01 ∈ (revFileTask fun _ => .ok).trace
      ((revFileTask fun _ => .ok).run (RxState.start .server) [.data [1, 0, 1, 0, 1]])
      [.error, .data [1, 0xAA]] := by decide +kernel
  have := h .server (fun _ => .ok) [.data [1, 0, 1, 0, 1]] [.data [1, 0xAA]] .error
    (by decide +kernel) (by decide +kernel) (Or.inl rfl) _ hsent
  simp [Event.isAct] at this

end PlcFirmware.Download
