import PlcFirmware.Download.Basic

/-!
# What one step of a task can do

`task_step_cases` says once what a step can be; `receive_frame` what is known of a frame when the
receive loops are left with it; `onFrame_cases` what is done with it. Everything about runs is
derived from these three.
-/

namespace PlcFirmware.Download

open Infra Flash

variable {rx : Receiver} {hal : Nat → HalStatus} {s s' : RxState} {r : RecvResult}

/-! ## Steps -/

/-- **A step waits on, takes a complete frame, or closes; a closed task stays so.** -/
theorem task_step_cases (rx : Receiver) (hal : Nat → HalStatus) (s : RxState) (r : RecvResult) :
    (s.pc = .closed ∧ (rx.task hal).step s r = (s, [])) ∨
    (s.pc ≠ .closed ∧ ∃ s', receive rx s r = .wait s' ∧
      (rx.task hal).step s r = (s', [s'.recvCall rx])) ∨
    (s.pc ≠ .closed ∧ ∃ s', receive rx s r = .frame s' ∧
      (rx.task hal).step s r = s'.handle rx (rx.onFrame hal s')) ∨
    (s.pc ≠ .closed ∧ receive rx s r = .quit ∧
      (rx.task hal).step s r = ({ s with pc := .closed }, [.close])) := by
  by_cases hpc : s.pc = .closed
  · exact Or.inl ⟨hpc, by simp [Receiver.task, hpc]⟩
  · refine Or.inr ?_
    cases hrec : receive rx s r with
    | wait s' =>
      refine Or.inl ⟨hpc, s', rfl, ?_⟩
      cases hp : s.pc <;> simp_all [Receiver.task]
    | frame s' =>
      refine Or.inr (Or.inl ⟨hpc, s', rfl, ?_⟩)
      cases hp : s.pc <;> simp_all [Receiver.task]
    | quit =>
      refine Or.inr (Or.inr ⟨hpc, rfl, ?_⟩)
      cases hp : s.pc <;> simp_all [Receiver.task]

theorem task_step_closed (h : s.pc = .closed) : (rx.task hal).step s r = (s, []) := by
  rcases task_step_cases rx hal s r with ⟨-, he⟩ | ⟨hn, -⟩ | ⟨hn, -⟩ | ⟨hn, -⟩
  · exact he
  all_goals exact absurd h hn

theorem receive_closed (h : s.pc = .closed) : receive rx s r = .quit := by simp [receive, h]

theorem task_step_wait (h : receive rx s r = .wait s') :
    (rx.task hal).step s r = (s', [s'.recvCall rx]) := by
  rcases task_step_cases rx hal s r with ⟨hc, -⟩ | ⟨-, t, hr, he⟩ | ⟨-, t, hr, -⟩ | ⟨-, hr, -⟩
  · rw [receive_closed hc] at h; cases h
  · rw [h] at hr; cases hr; exact he
  · rw [h] at hr; cases hr
  · rw [h] at hr; cases hr

theorem task_step_frame (h : receive rx s r = .frame s') :
    (rx.task hal).step s r = s'.handle rx (rx.onFrame hal s') := by
  rcases task_step_cases rx hal s r with ⟨hc, -⟩ | ⟨-, t, hr, -⟩ | ⟨-, t, hr, he⟩ | ⟨-, hr, -⟩
  · rw [receive_closed hc] at h; cases h
  · rw [h] at hr; cases hr
  · rw [h] at hr; cases hr; exact he
  · rw [h] at hr; cases hr

theorem task_step_quit (h : receive rx s r = .quit) (hpc : s.pc ≠ .closed) :
    (rx.task hal).step s r = ({ s with pc := .closed }, [.close]) := by
  rcases task_step_cases rx hal s r with ⟨hc, -⟩ | ⟨-, t, hr, -⟩ | ⟨-, t, hr, -⟩ | ⟨-, -, he⟩
  · exact absurd hc hpc
  · rw [h] at hr; cases hr
  · rw [h] at hr; cases hr
  · exact he

/-! ## Taking a result in -/

/-- Where the bytes of the next result go. -/
def RxState.offset (s : RxState) : Nat :=
  match s.pc with
  | .first => 0
  | _ => s.lastLength

@[simp] theorem window_fst (s : RxState) (rx : Receiver) : (s.window rx).1 = s.offset := by
  unfold RxState.window RxState.offset
  cases s.pc <;> rfl

theorem offset_first (h : s.pc = .first) : s.offset = 0 := by simp [RxState.offset, h]

theorem offset_later (h : s.pc ≠ .first) : s.offset = s.lastLength := by
  unfold RxState.offset
  split
  · contradiction
  · rfl

/-- The value which the next result gives to `newLength`. -/
def RxState.reached (s : RxState) (rx : Receiver) (r : RecvResult) : Int :=
  rx.toLength (s.offset + r.value)

/-- The state with the result stored. -/
def RxState.got (s : RxState) (rx : Receiver) (r : RecvResult) : RxState := s.take rx s.offset r

theorem got_newLength : (s.got rx r).newLength = s.reached rx r := rfl

/-- Bytes for which there is room are counted without a wrap. -/
theorem reached_data {bytes : List UInt8} (hle : s.offset + bytes.length ≤ 1405) :
    s.reached rx (.data bytes) = s.offset + bytes.length := by
  cases rx
  · exact u16_id (by simp only [RecvResult.value]; omega) (by simp only [RecvResult.value]; omega)
  · exact s16_id (by simp only [RecvResult.value]; omega) (by simp only [RecvResult.value]; omega)

/-- The result passes the tests behind the `recv` it came from. -/
structure Taken (rx : Receiver) (s : RxState) (r : RecvResult) : Prop where
  le : s.reached rx r ≤ 1405
  first : s.pc = .first → 0 < s.reached rx r
  later : s.pc ≠ .first → s.reached rx r ≠ s.lastLength

/-- **A result is taken in, and the code goes on with the test of its loop, or it is not.** -/
theorem receive_eq (rx : Receiver) (s : RxState) (r : RecvResult) :
    (Taken rx s r ∧ (s.pc = .first ∨ s.pc = .header) ∧
      receive rx s r = testHeader (s.got rx r).advance) ∨
    (Taken rx s r ∧ s.pc = .payload ∧ receive rx s r = testPayload (s.got rx r).advance) ∨
    (¬Taken rx s r ∧ s.pc = .header ∧ receive rx s r = testSeq { s.got rx r with flag := true }) ∨
    ((¬Taken rx s r ∨ s.pc = .closed) ∧ receive rx s r = .quit) := by
  have hsize := rx.bufSize_eq
  unfold receive
  cases hpc : s.pc with
  | first =>
    have hgot : s.got rx r = s.take rx 0 r := by rw [RxState.got, offset_first hpc]
    dsimp only
    rw [← hgot, got_newLength]
    split
    · next hl =>
      refine Or.inr (Or.inr (Or.inr ⟨Or.inl fun ht => ?_, rfl⟩))
      have := ht.le
      have := ht.first hpc
      omega
    · exact Or.inl ⟨⟨by omega, fun _ => by omega, fun h => absurd hpc h⟩, Or.inl rfl, rfl⟩
  | header =>
    have hne : s.pc ≠ .first := by rw [hpc]; decide
    have hgot : s.got rx r = s.take rx s.lastLength r := by rw [RxState.got, offset_later hne]
    dsimp only
    rw [← hgot, got_newLength]
    split
    · next hl =>
      refine Or.inr (Or.inr (Or.inl ⟨fun ht => ?_, rfl, rfl⟩))
      have h1 := ht.le
      have h2 := ht.later hne
      have hlast : (s.got rx r).lastLength = s.lastLength := rfl
      rcases hl with hl | hl
      · exact h2 hl
      · omega
    · next hl =>
      refine Or.inl ⟨⟨by omega, fun h => absurd h hne, fun _ he => hl (Or.inl he)⟩, Or.inr rfl, rfl⟩
  | payload =>
    have hne : s.pc ≠ .first := by rw [hpc]; decide
    have hgot : s.got rx r = s.take rx s.lastLength r := by rw [RxState.got, offset_later hne]
    dsimp only
    rw [← hgot, got_newLength]
    split
    · next hl =>
      refine Or.inr (Or.inr (Or.inr ⟨Or.inl fun ht => ?_, rfl⟩))
      have h1 := ht.le
      have h2 := ht.later hne
      rcases hl with hl | hl
      · exact h2 hl
      · omega
    · next hl =>
      refine Or.inr (Or.inl ⟨⟨by omega, fun h => absurd h hne, fun _ he => hl (Or.inl he)⟩, rfl,
        rfl⟩)
  | closed => exact Or.inr (Or.inr (Or.inr ⟨Or.inr rfl, rfl⟩))

/-! ## Complete frames -/

theorem testFlag_frame (h : testFlag s = .frame s') : s' = s ∧ s.flag = false := by
  unfold testFlag at h
  split at h
  · cases h
  · next hf => cases h; exact ⟨rfl, by simpa using hf⟩

theorem testPayload_frame (h : testPayload s = .frame s') :
    s' = s ∧ s.flag = false ∧ s.newLength = s.declared + 5 := by
  unfold testPayload at h
  split at h
  · cases h
  · next hl =>
    obtain ⟨rfl, hf⟩ := testFlag_frame h
    exact ⟨rfl, hf, by simpa using hl⟩

theorem testSeq_frame (h : testSeq s = .frame s') :
    s' = s ∧ s.flag = false ∧ (s.seq ≠ 0 → s.newLength = s.declared + 5) := by
  unfold testSeq at h
  split at h
  · obtain ⟨rfl, hf, hl⟩ := testPayload_frame h
    exact ⟨rfl, hf, fun _ => hl⟩
  · next hs =>
    obtain ⟨rfl, hf⟩ := testFlag_frame h
    exact ⟨rfl, hf, fun hn => absurd hn hs⟩

theorem testHeader_frame (h : testHeader s = .frame s') :
    s' = s ∧ s.flag = false ∧ 5 ≤ s.newLength ∧ (s.seq ≠ 0 → s.newLength = s.declared + 5) := by
  unfold testHeader at h
  split at h
  · cases h
  · obtain ⟨rfl, hf, hl⟩ := testSeq_frame h
    exact ⟨rfl, hf, by omega, hl⟩

/-- What holds of the variables when the receive loops are left with a frame. -/
structure FrameOk (s : RxState) : Prop where
  length_ge : 5 ≤ s.newLength
  length_le : s.newLength ≤ 1405
  length_eq : s.seq ≠ 0 → s.newLength = s.declared + 5

/-- The frame comes from a result which was taken in, with `flag` not set. -/
theorem receive_frame_from (h : receive rx s r = .frame s') :
    s' = (s.got rx r).advance ∧ s.flag = false ∧ Taken rx s r := by
  rcases receive_eq rx s r with ⟨ht, -, he⟩ | ⟨ht, -, he⟩ | ⟨-, -, he⟩ | ⟨-, he⟩ <;> rw [he] at h
  · obtain ⟨rfl, hf, -⟩ := testHeader_frame h
    exact ⟨rfl, hf, ht⟩
  · obtain ⟨rfl, hf, -⟩ := testPayload_frame h
    exact ⟨rfl, hf, ht⟩
  · have hf := (testSeq_frame h).2.1
    cases hf
  · cases h

/-- **The receive loops leave only with a frame whose length is in range and fits its header.** -/
theorem receive_frame (h : receive rx s r = .frame s') : FrameOk s' := by
  obtain ⟨hs', -, ht⟩ := receive_frame_from h
  have hle : s'.newLength ≤ 1405 := by
    rw [hs', RxState.advance_newLength, got_newLength]
    exact ht.le
  rcases receive_eq rx s r with ⟨-, -, he⟩ | ⟨-, -, he⟩ | ⟨hn, -⟩ | ⟨-, he⟩
  · rw [he] at h
    obtain ⟨rfl, -, h5, hl⟩ := testHeader_frame h
    exact ⟨h5, hle, hl⟩
  · rw [he] at h
    obtain ⟨rfl, -, hl⟩ := testPayload_frame h
    exact ⟨by omega, hle, fun _ => hl⟩
  · exact absurd ht hn
  · rw [he] at h; cases h

theorem FrameOk.declared_le (h : FrameOk s) (hs : s.seq ≠ 0) : s.declared ≤ 1400 := by
  have := h.length_eq hs
  have := h.length_le
  omega

theorem FrameOk.payloadLength_eq (h : FrameOk s) (hs : s.seq ≠ 0) :
    s.payloadLength = s.declared := by
  have he := h.length_eq hs
  have hd := h.declared_le hs
  unfold RxState.payloadLength
  rw [u16_id (by omega) (by omega)]
  omega

/-! ## Waiting on -/

theorem testPayload_wait (h : testPayload s = .wait s') : s' = { s with pc := .payload } := by
  unfold testPayload testFlag at h
  split at h
  · cases h; rfl
  · split at h <;> cases h

theorem testSeq_wait (h : testSeq s = .wait s') : s' = { s with pc := .payload } := by
  unfold testSeq testFlag at h
  split at h
  · exact testPayload_wait h
  · split at h <;> cases h

theorem testHeader_wait (h : testHeader s = .wait s') :
    s' = { s with pc := .header } ∨ s' = { s with pc := .payload } := by
  unfold testHeader at h
  split at h
  · cases h; exact Or.inl rfl
  · exact Or.inr (testSeq_wait h)

/--
**A task which waits on has taken the result in, or has left the header loop with `flag` set and
entered the payload loop all the same.**
-/
theorem receive_wait (h : receive rx s r = .wait s') :
    (Taken rx s r ∧ (s' = { (s.got rx r).advance with pc := .header } ∨
      s' = { (s.got rx r).advance with pc := .payload })) ∨
    (¬Taken rx s r ∧ s.pc = .header ∧ s' = { s.got rx r with flag := true, pc := .payload }) := by
  rcases receive_eq rx s r with ⟨ht, -, he⟩ | ⟨ht, -, he⟩ | ⟨hn, hp, he⟩ | ⟨-, he⟩ <;> rw [he] at h
  · exact Or.inl ⟨ht, testHeader_wait h⟩
  · exact Or.inl ⟨ht, Or.inr (testPayload_wait h)⟩
  · exact Or.inr ⟨hn, hp, testSeq_wait h⟩
  · cases h

theorem receive_wait_pc (h : receive rx s r = .wait s') : s'.pc = .header ∨ s'.pc = .payload := by
  rcases receive_wait h with ⟨-, rfl | rfl⟩ | ⟨-, -, rfl⟩ <;> simp

/-- From the payload loop a task waits on in the payload loop. -/
theorem receive_wait_payload (hpc : s.pc = .payload) (h : receive rx s r = .wait s') :
    Taken rx s r ∧ s' = { (s.got rx r).advance with pc := .payload } := by
  rcases receive_eq rx s r with ⟨-, hp, -⟩ | ⟨ht, -, he⟩ | ⟨-, hp, -⟩ | ⟨-, he⟩
  · rcases hp with hp | hp <;> rw [hpc] at hp <;> cases hp
  · rw [he] at h
    exact ⟨ht, testPayload_wait h⟩
  · rw [hpc] at hp; cases hp
  · rw [he] at h; cases h

/-! ## Handling a frame -/

/-- The frame starts a download: the station is ours and the sequence number is 0. -/
def Starts (s : RxState) : Prop := s.receiveData 0 = 1 ∧ s.seq = 0

/-- The frame is a data frame which passes all checks of the task. -/
def Accepted (s : RxState) : Prop :=
  s.receiveData 0 = 1 ∧ s.seq ≠ 0 ∧ s.declared = s.newLength - 5 ∧
    ¬(s.seq = 188 ∧ s.newLength - 5 > 344)

/-- The replies after which the client leaves its loop. -/
def isErrorReply (b : UInt8) : Bool := b = 0x03 || b = 0x04 || b = 0x05

/-- **The client does with a frame what the server does, but leaves after an error reply.** -/
theorem revServerFileFrame_eq (hal : Nat → HalStatus) (s : RxState) :
    revServerFileFrame hal s =
      { revFileFrame hal s with
        leaves := isErrorReply (revFileFrame hal s).reply
        gFileSize := if s.receiveData 0 = 1 ∧ s.seq = 0 then s.declared else s.gFileSize } := by
  unfold revServerFileFrame revFileFrame plcNumber
  by_cases h0 : s.receiveData 0 ≠ 1
  · rw [if_pos h0, if_pos h0, if_neg (fun h => h0 h.1)]; rfl
  rw [if_neg h0, if_neg h0]
  by_cases h1 : s.seq = 0
  · rw [if_pos h1, if_pos h1, if_pos ⟨not_not.mp h0, h1⟩]; rfl
  have hstart : ¬(s.receiveData 0 = 1 ∧ s.seq = 0) := fun h => h1 h.2
  rw [if_neg h1, if_neg h1, if_neg hstart]
  by_cases h2 : (s.declared : Int) ≠ s.newLength - 5
  · rw [if_pos h2, if_pos h2]; rfl
  rw [if_neg h2, if_neg h2]
  by_cases h3 : s.seq = 188 ∧ s.newLength - 5 > 344
  · rw [if_pos h3, if_pos h3]; rfl
  · rw [if_neg h3, if_neg h3]; rfl

theorem onFrame_ops (rx : Receiver) (hal : Nat → HalStatus) (s : RxState) :
    (rx.onFrame hal s).ops = (revFileFrame hal s).ops := by
  cases rx
  · rfl
  · simp only [Receiver.onFrame, revServerFileFrame_eq]

theorem onFrame_reply (rx : Receiver) (hal : Nat → HalStatus) (s : RxState) :
    (rx.onFrame hal s).reply = (revFileFrame hal s).reply := by
  cases rx
  · rfl
  · simp only [Receiver.onFrame, revServerFileFrame_eq]

theorem onFrame_events (rx : Receiver) (hal : Nat → HalStatus) (s : RxState) :
    (rx.onFrame hal s).events = (revFileFrame hal s).events := by
  simp only [Handled.events, onFrame_ops, onFrame_reply]

/-- **A frame is refused without a flash call, starts a download, or is written.** -/
theorem revFileFrame_cases (hal : Nat → HalStatus) (s : RxState) :
    (¬Starts s ∧ ¬Accepted s ∧ (revFileFrame hal s).ops = [] ∧
      isErrorReply (revFileFrame hal s).reply) ∨
    (Starts s ∧ ¬Accepted s ∧ (revFileFrame hal s).reply = 0x00 ∧
      (revFileFrame hal s).ops = (stmflashEraseSector addrFlashSector5 hal s.calls).ops) ∨
    (¬Starts s ∧ Accepted s ∧ (revFileFrame hal s).reply = 0x01 ∧
      (revFileFrame hal s).ops =
        (stmflashWriteDate s.payload hal s.writeAddress s.payloadLength s.calls).ops) := by
  unfold revFileFrame plcNumber
  by_cases h0 : s.receiveData 0 ≠ 1
  · rw [if_pos h0]
    exact Or.inl ⟨fun h => h0 h.1, fun h => h0 h.1, rfl, rfl⟩
  rw [if_neg h0]
  by_cases h1 : s.seq = 0
  · rw [if_pos h1]
    exact Or.inr (Or.inl ⟨⟨not_not.mp h0, h1⟩, fun h => h.2.1 h1, rfl, rfl⟩)
  rw [if_neg h1]
  by_cases h2 : (s.declared : Int) ≠ s.newLength - 5
  · rw [if_pos h2]
    exact Or.inl ⟨fun h => h1 h.2, fun h => h2 h.2.2.1, rfl, rfl⟩
  rw [if_neg h2]
  by_cases h3 : s.seq = 188 ∧ s.newLength - 5 > 344
  · rw [if_pos h3]
    exact Or.inl ⟨fun h => h1 h.2, fun h => h.2.2.2 h3, rfl, rfl⟩
  · rw [if_neg h3]
    exact Or.inr (Or.inr ⟨fun h => h1 h.2, ⟨not_not.mp h0, h1, not_not.mp h2, h3⟩, rfl, rfl⟩)

theorem handle_of_leaves {h : Handled} (hl : h.leaves = true) :
    s.handle rx h = ({ s with pc := .closed, gFileSize := h.gFileSize, calls := h.calls },
      h.events ++ [.close]) := by
  simp only [RxState.handle, hl, if_true]

theorem handle_of_stays {h : Handled} (hl : h.leaves = false) :
    s.handle rx h = (RxState.restart { s with gFileSize := h.gFileSize, calls := h.calls } rx,
      h.events ++
        [(RxState.restart { s with gFileSize := h.gFileSize, calls := h.calls } rx).recvCall rx]) := by
  simp only [RxState.handle, hl, Bool.false_eq_true, if_false]

/-- **Behind a frame the task has closed the connection, or waits for the next frame.** -/
theorem handle_cases (s : RxState) (rx : Receiver) (h : Handled) :
    (∃ t : RxState, t.pc = .closed ∧ s.handle rx h = (t, h.events ++ [.close])) ∨
    (∃ t : RxState, t = RxState.restart { s with gFileSize := h.gFileSize, calls := h.calls } rx ∧
      s.handle rx h = (t, h.events ++ [t.recvCall rx])) := by
  cases hl : h.leaves with
  | true => exact Or.inl ⟨_, rfl, handle_of_leaves hl⟩
  | false => exact Or.inr ⟨_, rfl, handle_of_stays hl⟩

/-! ## Flash calls and replies -/

@[simp] theorem isAct_recvCall (s : RxState) (rx : Receiver) : (s.recvCall rx).isAct = false := rfl

@[simp] theorem isAct_close : Event.close.isAct = false := rfl

/-- The flash calls and replies of a step which takes a frame in are those of the frame. -/
theorem mem_step_iff_of_frame (h : receive rx s r = .frame s') {e : Event} (he : e.isAct = true) :
    e ∈ ((rx.task hal).step s r).2 ↔ e ∈ (revFileFrame hal s').events := by
  have hrecv : ∀ t : RxState, e ≠ t.recvCall rx := by rintro t rfl; simp at he
  have hclose : e ≠ .close := by rintro rfl; simp at he
  rw [task_step_frame h, ← onFrame_events rx]
  obtain ⟨t, -, hh⟩ | ⟨t, -, hh⟩ := handle_cases s' rx (rx.onFrame hal s')
  · simp [hh, hclose]
  · simp [hh, hrecv]

/-- **Only a complete frame leads to a flash call or a reply.** -/
theorem exists_frame_of_mem {e : Event} (hmem : e ∈ ((rx.task hal).step s r).2)
    (he : e.isAct = true) : ∃ s', receive rx s r = .frame s' := by
  rcases task_step_cases rx hal s r with ⟨-, hs⟩ | ⟨-, t, -, hs⟩ | ⟨-, t, hr, -⟩ | ⟨-, -, hs⟩
  · rw [hs] at hmem; simp at hmem
  · rw [hs] at hmem; simp only [List.mem_singleton] at hmem; subst hmem; simp at he
  · exact ⟨t, hr⟩
  · rw [hs] at hmem; simp only [List.mem_singleton] at hmem; subst hmem; simp at he

/-- **The flash calls and replies of a run are those of the frames it takes in.** -/
theorem mem_events_iff {rs : List RecvResult} {e : Event} (he : e.isAct = true) :
    e ∈ rx.events hal rs ↔
      ∃ p ∈ rx.steps hal rs, ∃ s', receive rx p.1 p.2 = .frame s' ∧
        e ∈ (revFileFrame hal s').events := by
  have hrecv : e ≠ (RxState.start rx).recvCall rx := by rintro rfl; simp at he
  simp only [Receiver.events, List.mem_cons, hrecv, false_or, (rx.task hal).mem_trace_iff,
    Receiver.steps]
  constructor
  · rintro ⟨p, hp, hmem⟩
    obtain ⟨s', hs'⟩ := exists_frame_of_mem hmem he
    exact ⟨p, hp, s', hs', (mem_step_iff_of_frame hs' he).mp hmem⟩
  · rintro ⟨p, hp, s', hs', hmem⟩
    exact ⟨p, hp, (mem_step_iff_of_frame hs' he).mpr hmem⟩

@[simp] theorem flash_mem_handled {h : Handled} {op : FlashOp} :
    Event.flash op ∈ h.events ↔ op ∈ h.ops := by simp [Handled.events]

@[simp] theorem send_mem_handled {h : Handled} {b : UInt8} :
    Event.send b ∈ h.events ↔ b = h.reply := by simp [Handled.events]

/-! ## Where an accepted frame is written -/

theorem seq_lt (s : RxState) : s.seq < 65536 := by
  unfold RxState.seq
  have h1 := (s.receiveData 1).toNat_lt
  have h2 := (s.receiveData 2).toNat_lt
  omega

theorem writeAddress_eq (s : RxState) :
    s.writeAddress = addrFlashSector5 + (s.seq - 1) * 1400 := by
  have := seq_lt s
  refine addrAdd_of_lt ?_
  unfold addrFlashSector5
  omega

theorem writeAddress_lt (h : FrameOk s) (hs : s.seq ≠ 0) :
    s.writeAddress + s.payloadLength < 4294967296 := by
  have := seq_lt s
  have := h.declared_le hs
  rw [writeAddress_eq, h.payloadLength_eq hs]
  unfold addrFlashSector5
  omega

end PlcFirmware.Download
