import PlcFirmware.Download.Receive

/-!
# The windows of the `recv` calls

Both tasks add the `-1` of a failed `recv` to the running length of the frame. In the `u16` of the
server a length of `-1` becomes `65535`, which is above the size of the buffer and ends the frame. In
the `s16` of the client it stays `-1`, passes both tests, and becomes the offset `65535` of the next
`recv`. So the client's windows stay inside the buffer just as long as no `recv` fails in the middle
of a frame while the running length is `0`.
-/

namespace PlcFirmware.Download

open Infra Flash

variable {rx : Receiver} {hal : Nat → HalStatus} {s s' : RxState} {r : RecvResult}

/-- A `recv` behind the first of a frame fails while the running length is `0`. -/
def Underflows (s : RxState) (r : RecvResult) : Prop :=
  (s.pc = .header ∨ s.pc = .payload) ∧ s.lastLength = 0 ∧ r = .error

instance (s : RxState) (r : RecvResult) : Decidable (Underflows s r) :=
  inferInstanceAs (Decidable (_ ∧ _ ∧ _))

/-- The offset of the next `recv` is inside the buffer. -/
def Inside (s : RxState) : Prop := s.pc = .header ∨ s.pc = .payload → s.lastLength ≤ 1405

/-- The indices of `receiveData` which the code reads when it handles a frame. -/
def RxState.reads (s : RxState) : List Nat :=
  List.range 5 ++ (List.range s.payloadLength).map (5 + ·)

variable (rx) in
theorem window_inside (hpc : s.pc ≠ .closed) (h : Inside s) :
    s.offset + (s.window rx).2 = 1405 := by
  have hsize := rx.bufSize_eq
  cases hp : s.pc with
  | first => simp only [RxState.window, RxState.offset, hp]; omega
  | header | payload =>
    have hle := h (by simp [hp])
    simp only [RxState.window, RxState.offset, hp]
    rw [u32_id (by omega) (by omega)]
    omega
  | closed => exact absurd hp hpc

theorem FrameOk.reads_lt (h : FrameOk s) : ∀ i ∈ s.reads, i < 1405 := by
  have h1 := h.length_ge
  have h2 := h.length_le
  have hlen : s.payloadLength ≤ 1400 := by
    unfold RxState.payloadLength
    rw [u16_id (by omega) (by omega)]
    omega
  intro i hi
  simp only [RxState.reads, List.mem_append, List.mem_range, List.mem_map] at hi
  rcases hi with hi | ⟨j, hj, rfl⟩ <;> omega

/-! ## One step -/

/-- The sum which is stored in `newLength`: at most one less, or as many more as there is room. -/
theorem offset_add_value (hpc : s.pc ≠ .closed) (hin : Inside s) (hfit : Fits rx s r) :
    (s.offset : Int) + r.value ≤ 1405 ∧
      (0 ≤ (s.offset : Int) + r.value ∨ (s.offset = 0 ∧ r = .error)) := by
  have hwin := window_inside rx hpc hin
  cases r with
  | error =>
    simp only [RecvResult.value]
    refine ⟨by omega, ?_⟩
    rcases Nat.eq_zero_or_pos s.offset with h0 | hpos
    · exact Or.inr ⟨h0, trivial⟩
    · exact Or.inl (by omega)
  | data bytes =>
    have hlen : bytes.length ≤ (s.window rx).2 := hfit hpc
    simp only [RecvResult.value]
    exact ⟨by omega, Or.inl (by omega)⟩

/-- The server's offset stays inside whatever `recv` returns. -/
theorem inside_of_wait_server (hin : Inside s) (h : receive .server s r = .wait s') :
    Inside s' := by
  intro _
  have hu : u16 (s.reached .server r) = s.reached .server r := by
    simp only [RxState.reached, Receiver.toLength, u16]
    omega
  rcases receive_wait h with ⟨ht, rfl | rfl⟩ | ⟨-, hp, rfl⟩
  · show (u16 (s.reached .server r)).toNat ≤ 1405
    have := ht.le
    omega
  · show (u16 (s.reached .server r)).toNat ≤ 1405
    have := ht.le
    omega
  · exact hin (Or.inl hp)

/-- A result which is taken in gives the client a length it can store, unless it underflows. -/
theorem reached_client (hpc : s.pc ≠ .closed) (hin : Inside s) (hfit : Fits .client s r)
    (hun : ¬Underflows s r) (ht : Taken .client s r) :
    s.reached .client r = s.offset + r.value ∧ 0 ≤ (s.offset : Int) + r.value := by
  obtain ⟨hle, hge⟩ := offset_add_value hpc hin hfit
  have hre : s.reached .client r = s.offset + r.value := by
    refine s16_id ?_ (by omega)
    rcases hge with h0 | ⟨-, rfl⟩
    · omega
    · simp only [RecvResult.value]; omega
  refine ⟨hre, ?_⟩
  rcases hge with h0 | ⟨h0, hr⟩
  · exact h0
  · -- a first `recv` which fails ends the loop, so this one is in the middle of a frame
    have hnf : s.pc ≠ .first := by
      intro hf
      have hpos := ht.first hf
      rw [hre, h0, hr] at hpos
      simp [RecvResult.value] at hpos
    have hmid : s.pc = .header ∨ s.pc = .payload := by
      cases hp : s.pc <;> simp_all
    exact absurd ⟨hmid, by rw [← offset_later hnf]; exact h0, hr⟩ hun

/-- The client's offset stays inside unless the running length underflows. -/
theorem inside_of_wait_client (hpc : s.pc ≠ .closed) (hin : Inside s) (hfit : Fits .client s r)
    (hun : ¬Underflows s r) (h : receive .client s r = .wait s') : Inside s' := by
  intro _
  rcases receive_wait h with ⟨ht, hs'⟩ | ⟨-, hp, rfl⟩
  · obtain ⟨hre, hnn⟩ := reached_client hpc hin hfit hun ht
    have hle := ht.le
    have hl : (u16 (s.reached .client r)).toNat ≤ 1405 := by
      rw [u16_id (by omega) (by omega)]
      omega
    rcases hs' with rfl | rfl <;> exact hl
  · exact hin (Or.inl hp)

/-- An underflow of the client makes `65535` the offset of the next `recv`. -/
theorem wait_of_underflows (hun : Underflows s r) :
    ∃ s', receive .client s r = .wait s' ∧ s'.offset = 65535 := by
  obtain ⟨hpc, h0, rfl⟩ := hun
  have hlen : s16 ((0 : Nat) + RecvResult.error.value) = -1 := by decide
  rcases hpc with hp | hp
  · refine ⟨{ (s.take .client 0 .error).advance with pc := .header }, ?_, ?_⟩
    · simp only [receive, hp, RxState.take, h0, Receiver.toLength, hlen, Receiver.bufSize_eq]
      rw [if_neg (by decide), testHeader, if_pos (by simp [RxState.advance])]
    · simp only [RxState.offset, RxState.advance, RxState.take, Receiver.toLength, hlen]
      decide
  · refine ⟨{ (s.take .client 0 .error).advance with pc := .payload }, ?_, ?_⟩
    · simp only [receive, hp, RxState.take, h0, Receiver.toLength, hlen, Receiver.bufSize_eq]
      rw [if_neg (by decide), testPayload, if_pos (by simp only [RxState.advance_newLength]; omega)]
    · simp only [RxState.offset, RxState.advance, RxState.take, Receiver.toLength, hlen]
      decide

/-! ## Runs -/

theorem inside_restart (rx : Receiver) (s : RxState) : Inside (s.restart rx) := by
  rintro (h | h) <;> cases h

/-- A step keeps the offset inside, unless the client's running length underflows. -/
theorem inside_step (hin : Inside s) (hfit : Fits rx s r)
    (hun : rx = .client → ¬Underflows s r) : Inside ((rx.task hal).step s r).1 := by
  rcases task_step_cases rx hal s r with ⟨-, he⟩ | ⟨hpc, s', hw, he⟩ | ⟨-, s', -, he⟩ | ⟨-, -, he⟩
  · rw [he]; exact hin
  · rw [he]
    cases rx with
    | server => exact inside_of_wait_server hin hw
    | client => exact inside_of_wait_client hpc hin hfit (hun rfl) hw
  · rw [he]
    obtain ⟨t, hc, hh⟩ | ⟨t, rfl, hh⟩ := handle_cases s' rx (rx.onFrame hal s')
    · rw [hh]
      rintro (h | h) <;> rw [hc] at h <;> cases h
    · rw [hh]
      exact inside_restart rx _
  · rw [he]
    rintro (h | h) <;> cases h

theorem inside_run {rs : List RecvResult} (hfit : ∀ p ∈ rx.steps hal rs, Fits rx p.1 p.2)
    (hun : rx = .client → ∀ p ∈ rx.steps hal rs, ¬Underflows p.1 p.2) :
    ∀ p ∈ rx.steps hal rs, Inside p.1 ∧ Inside ((rx.task hal).step p.1 p.2).1 := by
  have hall := ((rx.task hal).run_invariant
    (G := fun s r => Fits rx s r ∧ (rx = .client → ¬Underflows s r))
    (fun s r hs hg => inside_step hs hg.1 hg.2) (inside_restart rx _)
    (fun p hp => ⟨hfit p hp, fun hc => hun hc p hp⟩)).1
  intro p hp
  exact ⟨hall p hp, inside_step (hall p hp) (hfit p hp) (fun hc => hun hc p hp)⟩

/--
**Every window lies inside the buffer and every byte read is in it, for the server always and for
the client if and only if its running length never underflows.**
-/
theorem windows_inside_iff (rx : Receiver) (hal : Nat → HalStatus) (rs : List RecvResult)
    (hfit : ∀ p ∈ rx.steps hal rs, Fits rx p.1 p.2) :
    ((∀ offset length, Event.recv offset length ∈ rx.events hal rs → offset + length ≤ 1405) ∧
      ∀ p ∈ rx.steps hal rs, ∀ s', receive rx p.1 p.2 = .frame s' → ∀ i ∈ s'.reads, i < 1405) ↔
      (rx = .client → ∀ p ∈ rx.steps hal rs, ¬Underflows p.1 p.2) := by
  constructor
  · rintro ⟨hwin, -⟩ rfl p hp hun
    obtain ⟨s', hw, hoff⟩ := wait_of_underflows hun
    have hmem : s'.recvCall .client ∈ Receiver.client.events hal rs := by
      refine List.mem_cons_of_mem _ ((Machine.mem_trace_iff _).mpr ⟨p, hp, ?_⟩)
      rw [task_step_wait hw]
      exact List.mem_singleton_self _
    have hle := hwin _ _ hmem
    rw [window_fst, hoff] at hle
    omega
  · intro hun
    have hins := inside_run hfit hun
    refine ⟨fun o l hmem => ?_, fun p _ s' hs' => (receive_frame hs').reads_lt⟩
    have hcall : ∀ t : RxState, t.pc ≠ .closed → Inside t → Event.recv o l = t.recvCall rx →
        o + l ≤ 1405 := by
      intro t hpc hin he
      injection he with ho hl
      rw [ho, hl, window_fst, window_inside rx hpc hin]
    rcases List.mem_cons.mp hmem with he | hmem
    · exact hcall _ (by simp [RxState.restart]) (inside_restart rx _) he
    · obtain ⟨p, hp, hmem⟩ := (Machine.mem_trace_iff _).mp hmem
      have hnext := (hins p hp).2
      rcases task_step_cases rx hal p.1 p.2 with ⟨-, he⟩ | ⟨-, s', hw, he⟩ | ⟨-, s', -, he⟩ |
        ⟨-, -, he⟩
      · rw [he] at hmem; simp at hmem
      · rw [he] at hmem hnext
        refine hcall s' ?_ hnext (List.mem_singleton.mp hmem)
        rcases receive_wait_pc hw with h | h <;> rw [h] <;> decide
      · rw [he] at hmem
        obtain ⟨t, -, hh⟩ | ⟨t, rfl, hh⟩ := handle_cases s' rx (rx.onFrame hal s')
        · simp [hh, Handled.events] at hmem
        · rw [hh] at hmem
          simp only [Handled.events, List.mem_append, List.mem_map, List.mem_singleton,
            reduceCtorEq, and_false, exists_false, or_self, false_or] at hmem
          exact hcall _ (by simp [RxState.restart]) (inside_restart rx _) hmem
      · rw [he] at hmem; simp at hmem

/-- The theorem at a run of the client where a `recv` fails with two bytes of the frame received. -/
theorem windows_inside_after_error :
    (∀ offset length, Event.recv offset length ∈
        Receiver.client.events (fun _ => .ok) [.data [1, 0], .error, .data [0, 0, 0, 3]] →
      offset + length ≤ 1405) ∧
    ∀ p ∈ Receiver.client.steps (fun _ => .ok) [.data [1, 0], .error, .data [0, 0, 0, 3]], ∀ s',
      receive .client p.1 p.2 = .frame s' → ∀ i ∈ s'.reads, i < 1405 :=
  (windows_inside_iff .client _ _ (by decide +kernel)).mpr fun _ => by decide +kernel

/-- Two failed calls after one byte move the client's window to offset `65535`. -/
theorem client_window_escapes :
    ¬ ∀ (rx : Receiver) (hal : Nat → HalStatus) (rs : List RecvResult),
      (∀ p ∈ rx.steps hal rs, Fits rx p.1 p.2) →
      (∀ offset length, Event.recv offset length ∈ rx.events hal rs → offset + length ≤ 1405) ∧
        ∀ p ∈ rx.steps hal rs, ∀ s', receive rx p.1 p.2 = .frame s' → ∀ i ∈ s'.reads, i < 1405 := by
  intro h
  have hev : Event.recv 65535 4294903166 ∈
      Receiver.client.events (fun _ => .ok) [.data [1], .error, .error] := by decide +kernel
  have hle := (h .client (fun _ => .ok) [.data [1], .error, .error] (by decide +kernel)).1 _ _ hev
  omega

end PlcFirmware.Download
