import PlcFirmware.Download.RecvError
import PlcFirmware.Download.Framing

/-!
# The two receivers side by side

The client's copy of the code runs in step with the server's, with the same variables but for
`g_fileSize`, until the first error reply: there the client leaves its loop and the server goes on.
The two types of `newLength` give the same value to every sum of an offset and a number of bytes, and
a first `recv` which fails ends both, in the one as `65535` and in the other as `-1`.
-/

namespace PlcFirmware.Download

open Infra Flash

variable {rx : Receiver} {hal : Nat → HalStatus} {s s' : RxState} {r : RecvResult} {g : Nat}

/-- The events up to and with the first error reply. -/
def upToError : List Event → List Event
  | [] => []
  | .send b :: es => if isErrorReply b then [.send b] else .send b :: upToError es
  | e :: es => e :: upToError es

theorem upToError_append {es : List Event} (h : ∀ b, Event.send b ∈ es → isErrorReply b = false)
    (fs : List Event) : upToError (es ++ fs) = es ++ upToError fs := by
  induction es with
  | nil => rfl
  | cons e es ih =>
    have hes := ih fun b hb => h b (List.mem_cons_of_mem _ hb)
    cases e with
    | send b =>
      have hb := h b List.mem_cons_self
      rw [List.cons_append, upToError, hb, if_neg Bool.false_ne_true, hes, List.cons_append]
    | _ => rw [List.cons_append, upToError, hes, List.cons_append]; simp

theorem upToError_handled {h : Handled} (he : isErrorReply h.reply = true) (fs : List Event) :
    upToError (h.events ++ fs) = h.events := by
  unfold Handled.events
  rw [List.append_assoc, upToError_append (by simp), List.singleton_append, upToError, if_pos he]

/-! ## One step -/

/-- The same variables with another `g_fileSize`. -/
def RxState.withSize (s : RxState) (g : Nat) : RxState := { s with gFileSize := g }

section withSize

variable (s : RxState) (g : Nat) (rx : Receiver) (r : RecvResult)

@[simp] theorem withSize_pc : (s.withSize g).pc = s.pc := rfl

@[simp] theorem withSize_data : (s.withSize g).receiveData = s.receiveData := rfl

@[simp] theorem withSize_newLength : (s.withSize g).newLength = s.newLength := rfl

@[simp] theorem withSize_lastLength : (s.withSize g).lastLength = s.lastLength := rfl

@[simp] theorem withSize_flag : (s.withSize g).flag = s.flag := rfl

@[simp] theorem withSize_seq : (s.withSize g).seq = s.seq := rfl

@[simp] theorem withSize_declared : (s.withSize g).declared = s.declared := rfl

@[simp] theorem withSize_take (offset : Nat) :
    (s.withSize g).take rx offset r = (s.take rx offset r).withSize g := rfl

@[simp] theorem withSize_advance : (s.withSize g).advance = s.advance.withSize g := rfl

theorem restart_withSize : (s.withSize g).restart rx = (s.restart rx).withSize g := rfl

end withSize

def Progress.withSize (g : Nat) : Progress → Progress
  | .wait s => .wait (s.withSize g)
  | .frame s => .frame (s.withSize g)
  | .quit => .quit

theorem testFlag_withSize (s : RxState) : testFlag (s.withSize g) = (testFlag s).withSize g := by
  unfold testFlag
  rw [withSize_flag]
  cases s.flag <;> rfl

theorem testPayload_withSize (s : RxState) :
    testPayload (s.withSize g) = (testPayload s).withSize g := by
  simp only [testPayload, testFlag_withSize, withSize_newLength, withSize_declared]
  split <;> rfl

theorem testSeq_withSize (s : RxState) : testSeq (s.withSize g) = (testSeq s).withSize g := by
  simp only [testSeq, testPayload_withSize, testFlag_withSize, withSize_seq]
  split <;> rfl

theorem testHeader_withSize (s : RxState) :
    testHeader (s.withSize g) = (testHeader s).withSize g := by
  simp only [testHeader, testSeq_withSize, withSize_newLength]
  split <;> rfl

/-- The receive loops do not read `g_fileSize`. -/
theorem receive_withSize (rx : Receiver) (s : RxState) (r : RecvResult) :
    receive rx (s.withSize g) r = (receive rx s r).withSize g := by
  unfold receive
  rw [withSize_pc]
  cases s.pc with
  | first =>
    simp only [withSize_take, withSize_newLength, withSize_advance, testHeader_withSize]
    split <;> rfl
  | header =>
    simp only [withSize_take, withSize_newLength, withSize_lastLength, withSize_advance,
      testHeader_withSize]
    split
    · exact testSeq_withSize { s.take rx s.lastLength r with flag := true }
    · rfl
  | payload =>
    simp only [withSize_take, withSize_newLength, withSize_lastLength, withSize_advance,
      testPayload_withSize]
    split
    · exact testFlag_withSize { s.take rx s.lastLength r with flag := true }
    · rfl
  | closed => rfl

/-- With the same value for `newLength`, both texts go on alike. -/
theorem receive_twin_of_reached (h : s.reached .client r = s.reached .server r) :
    receive .client s r = receive .server s r := by
  have htake : s.take .client s.offset r = s.take .server s.offset r := by
    unfold RxState.take
    rw [show Receiver.client.toLength (s.offset + r.value) = _ from h]
    rfl
  have hc := Receiver.client.bufSize_eq
  have hsv := Receiver.server.bufSize_eq
  unfold receive
  cases hpc : s.pc with
  | first =>
    rw [offset_first hpc] at htake
    simp only [htake, hc, hsv]
  | header =>
    rw [offset_later (by rw [hpc]; exact Pc.noConfusion)] at htake
    simp only [htake, hc, hsv]
  | payload =>
    rw [offset_later (by rw [hpc]; exact Pc.noConfusion)] at htake
    simp only [htake, hc, hsv]
  | closed => rfl

/-- **One `recv` result takes both to the same point of the code.** -/
theorem receive_twin (hin : Inside s) (hfit : Fits .server s r) (hclean : ¬FailsInFrame s r) :
    receive .client s r = receive .server s r := by
  by_cases hopen : s.pc = .closed
  · rw [receive_closed hopen, receive_closed hopen]
  cases r with
  | data bytes =>
    refine receive_twin_of_reached ?_
    have hroom : s.offset + bytes.length ≤ 1405 := by
      have := (offset_add_value hopen hin hfit).1
      simp only [RecvResult.value] at this
      omega
    rw [reached_data hroom, reached_data hroom]
  | error =>
    -- `-1` would be counted differently, but neither text counts it
    have hn : ∀ rx, ¬Taken rx s .error := fun rx => not_taken_of_failed hopen hin (Or.inl rfl) hclean
    have hquit : ∀ rx, receive rx s .error = .quit := by
      intro rx
      rcases receive_eq rx s .error with ⟨ht, -⟩ | ⟨ht, -⟩ | ⟨-, hp, -⟩ | ⟨-, he⟩
      · exact absurd ht (hn rx)
      · exact absurd ht (hn rx)
      · exact absurd ⟨Or.inl hp, rfl⟩ hclean
      · exact he
    rw [hquit, hquit]

/-- What the client does with a frame, its `g_fileSize` left out. -/
theorem onFrame_twin (hal : Nat → HalStatus) (s : RxState) (g : Nat) :
    (Receiver.client.onFrame hal (s.withSize g)).events =
        (Receiver.server.onFrame hal s).events ∧
      (Receiver.client.onFrame hal (s.withSize g)).leaves =
        isErrorReply (Receiver.server.onFrame hal s).reply ∧
      (Receiver.client.onFrame hal (s.withSize g)).calls =
        (Receiver.server.onFrame hal s).calls := by
  have hserver : revFileFrame hal (s.withSize g) = { revFileFrame hal s with gFileSize := g } := by
    unfold revFileFrame
    rw [withSize_data, withSize_seq, withSize_declared, withSize_newLength]
    split_ifs <;> rfl
  simp only [Receiver.onFrame]
  rw [revServerFileFrame_eq, hserver]
  exact ⟨rfl, rfl, rfl⟩

theorem restart_twin (s : RxState) (g : Nat) :
    (s.withSize g).restart .client = (s.restart .server).withSize g := by
  rw [restart_withSize]
  unfold RxState.restart
  rw [Receiver.bufSize_eq, Receiver.bufSize_eq]

theorem server_stays (hal : Nat → HalStatus) (s : RxState) :
    (Receiver.server.onFrame hal s).leaves = false := by
  simp only [Receiver.onFrame]
  unfold revFileFrame
  split_ifs <;> rfl

variable (hal) (g) in
/--
**A step of the client gives the flash calls and replies of the server's step. Either the client is
in step with the server afterwards, or the step ends with an error reply and the client is closed.**
-/
theorem twin_step (hin : Inside s) (hfit : Fits .server s r) (hclean : ¬FailsInFrame s r) :
    acts ((revServerFileTask hal).step (s.withSize g) r).2 = acts ((revFileTask hal).step s r).2 ∧
    ((∃ g', ((revServerFileTask hal).step (s.withSize g) r).1 =
        ((revFileTask hal).step s r).1.withSize g' ∧
        ∀ b, Event.send b ∈ acts ((revFileTask hal).step s r).2 → isErrorReply b = false) ∨
      (((revServerFileTask hal).step (s.withSize g) r).1.pc = .closed ∧
        ∀ es, upToError (acts ((revFileTask hal).step s r).2 ++ es) =
          acts ((revFileTask hal).step s r).2)) := by
  have hrec : receive .client (s.withSize g) r = (receive .server s r).withSize g := by
    rw [receive_withSize, receive_twin hin hfit hclean]
  rcases task_step_cases .server hal s r with ⟨hc, he⟩ | ⟨-, s', hw, he⟩ | ⟨-, s', hf, he⟩ |
    ⟨hopen, hq, he⟩
  · rw [he, task_step_closed (s := s.withSize g) hc]
    exact ⟨rfl, Or.inl ⟨g, rfl, by simp⟩⟩
  · rw [hw] at hrec
    rw [he, task_step_wait hrec]
    exact ⟨rfl, Or.inl ⟨g, rfl, by simp⟩⟩
  · rw [hf] at hrec
    obtain ⟨hev, hlv, hcl⟩ := onFrame_twin hal s' g
    rw [he, task_step_frame hrec, acts_handle, acts_handle]
    refine ⟨hev, ?_⟩
    by_cases herr : isErrorReply (Receiver.server.onFrame hal s').reply = true
    · -- the client leaves, the server waits for the next frame
      refine Or.inr ⟨?_, upToError_handled herr⟩
      rw [handle_of_leaves (hlv.trans herr)]
    · have hno : isErrorReply (Receiver.server.onFrame hal s').reply = false := by simpa using herr
      refine Or.inl ⟨(Receiver.client.onFrame hal (s'.withSize g)).gFileSize, ?_, fun b hb => ?_⟩
      · rw [handle_of_stays (hlv.trans hno), handle_of_stays (server_stays hal s'), hcl]
        dsimp only
        rw [← restart_twin]
        rfl
      · rw [send_mem_handled.mp hb]; exact hno
  · rw [hq] at hrec
    rw [he, task_step_quit hrec hopen]
    exact ⟨rfl, Or.inl ⟨g, rfl, by simp⟩⟩

/-! ## Runs -/

/-- `recv` delivers what it was asked for at most, and `-1` only as the first result of a frame. -/
def Regular (rx : Receiver) (s : RxState) (r : RecvResult) : Prop :=
  Fits rx s r ∧ ¬FailsInFrame s r

instance (rx : Receiver) (s : RxState) (r : RecvResult) : Decidable (Regular rx s r) :=
  inferInstanceAs (Decidable (_ ∧ _))

theorem regular_withSize (h : Regular .client (s.withSize g) r) : Regular .server s r := h

variable (hal) in
/-- It is enough that one of the two runs is regular. -/
theorem twin_run (rs : List RecvResult) : ∀ {s : RxState} {g : Nat}, Inside s →
    ((∀ p ∈ (revFileTask hal).transitions s rs, Regular .server p.1 p.2) ∨
      ∀ p ∈ (revServerFileTask hal).transitions (s.withSize g) rs, Regular .client p.1 p.2) →
    upToError (acts ((revFileTask hal).trace s rs)) =
      upToError (acts ((revServerFileTask hal).trace (s.withSize g) rs)) := by
  induction rs with
  | nil => intro s g _ _; rfl
  | cons r rs ih =>
    intro s g hin hreg
    have hr : Regular .server s r := by
      rcases hreg with h | h
      · exact h _ List.mem_cons_self
      · exact regular_withSize (h _ List.mem_cons_self)
    obtain ⟨hacts, hnext⟩ := twin_step hal g hin hr.1 hr.2
    rw [Machine.trace_cons, Machine.trace_cons, acts_append, acts_append, hacts]
    rcases hnext with ⟨g', hst, hno⟩ | ⟨hclosed, herr⟩
    · have hin' : Inside ((revFileTask hal).step s r).1 :=
        inside_step hin hr.1 fun h => by cases h
      rw [upToError_append hno, upToError_append hno, hst]
      refine congrArg _ (ih hin' ?_)
      rcases hreg with h | h
      · exact Or.inl fun p hp => h p (List.mem_cons_of_mem _ hp)
      · rw [Machine.transitions_cons, hst] at h
        exact Or.inr fun p hp => h p (List.mem_cons_of_mem _ hp)
    · -- what the server does behind the error reply is not looked at
      rw [(trace_closed hclosed rs).1, herr, herr]

/--
**As long as only the first `recv` of a frame returns `-1`, both receivers make the same flash calls
and send the same replies up to the first error reply.**
-/
theorem receivers_agree (hal : Nat → HalStatus) (rs : List RecvResult)
    (hreg : ∃ rx : Receiver, ∀ p ∈ rx.steps hal rs, Regular rx p.1 p.2) :
    upToError (acts (Receiver.server.events hal rs)) =
      upToError (acts (Receiver.client.events hal rs)) := by
  have hstart : (RxState.start .server).withSize 0 = RxState.start .client := by
    unfold RxState.start
    rw [← restart_twin]
    rfl
  have hrun := twin_run hal rs (s := RxState.start .server) (g := 0)
    (by unfold RxState.start; exact inside_restart _ _)
  rw [hstart] at hrun
  obtain ⟨rx, h⟩ := hreg
  cases rx
  · exact hrun (Or.inl h)
  · exact hrun (Or.inr h)

/-- The theorem at a run in which the second frame is for another station. -/
theorem receivers_agree_wrong_station :
    upToError (acts (Receiver.server.events (fun _ => .ok)
        [.data [1, 0], .data [0, 0, 9], .data [2, 0, 0, 0, 0], .data [1, 0, 0, 0, 9], .error])) =
      upToError (acts (Receiver.client.events (fun _ => .ok)
        [.data [1, 0], .data [0, 0, 9], .data [2, 0, 0, 0, 0], .data [1, 0, 0, 0, 9], .error])) :=
  receivers_agree _ _ ⟨.server, by decide +kernel⟩

end PlcFirmware.Download
