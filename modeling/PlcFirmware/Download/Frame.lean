import PlcFirmware.Download.Receive

/-!
# Assembling a frame from pieces

`Assembled s bs` says that the task waits in a `recv` with the bytes `bs` of the frame received.
A further piece either leaves it waiting, with the piece appended, or completes the frame, and which
of the two it is depends on the bytes alone (`FrameDone`). What is then done with the frame depends
only on its bytes as well, so how they were cut does not show.
-/

namespace PlcFirmware.Download

open Infra Flash

variable {rx : Receiver} {hal : Nat → HalStatus} {s t s' : RxState} {bs c : List UInt8}

/-! ## Complete frames as bytes -/

/-- The sequence number in the header. -/
def seqOf (bs : List UInt8) : Nat := (bs.getD 1 0).toNat * 256 + (bs.getD 2 0).toNat

/-- The length in the header. -/
def declaredOf (bs : List UInt8) : Nat := (bs.getD 3 0).toNat * 256 + (bs.getD 4 0).toNat

/-- The receive loops end with these bytes. -/
def FrameDone (bs : List UInt8) : Prop :=
  5 ≤ bs.length ∧ (seqOf bs ≠ 0 → bs.length = declaredOf bs + 5)

theorem seqOf_append (h : 3 ≤ bs.length) : seqOf (bs ++ c) = seqOf bs := by
  unfold seqOf
  rw [List.getD_append _ _ _ _ (by omega), List.getD_append _ _ _ _ (by omega)]

theorem declaredOf_append (h : 5 ≤ bs.length) : declaredOf (bs ++ c) = declaredOf bs := by
  unfold declaredOf
  rw [List.getD_append _ _ _ _ (by omega), List.getD_append _ _ _ _ (by omega)]

/-- `receiveData` holds the bytes, and `newLength` is their number. -/
structure Complete (s : RxState) (bs : List UInt8) : Prop where
  length : s.newLength = bs.length
  data : ∀ i (h : i < bs.length), s.receiveData i = bs[i]

namespace Complete

theorem getD (h : Complete s bs) {i : Nat} (hi : i < bs.length) :
    s.receiveData i = bs.getD i 0 := by
  rw [h.data i hi, List.getD_eq_getElem _ _ hi]

theorem seq_eq (h : Complete s bs) (hl : 5 ≤ bs.length) : s.seq = seqOf bs := by
  unfold RxState.seq seqOf
  rw [h.getD (by omega), h.getD (by omega)]

theorem declared_eq (h : Complete s bs) (hl : 5 ≤ bs.length) : s.declared = declaredOf bs := by
  unfold RxState.declared declaredOf
  rw [h.getD (by omega), h.getD (by omega)]

/-- **What is done with a frame depends only on its bytes.** -/
theorem revFileFrame_congr (hs : Complete s bs) (ht : Complete t bs) (hl : 5 ≤ bs.length)
    (hle : bs.length ≤ 1405) (hc : s.calls = t.calls) :
    revFileFrame hal s = { revFileFrame hal t with gFileSize := s.gFileSize } := by
  have h0 : s.receiveData 0 = t.receiveData 0 := by rw [hs.getD (by omega), ht.getD (by omega)]
  have hseq : s.seq = t.seq := by rw [hs.seq_eq hl, ht.seq_eq hl]
  have hdec : s.declared = t.declared := by rw [hs.declared_eq hl, ht.declared_eq hl]
  have hlen : s.newLength = t.newLength := by rw [hs.length, ht.length]
  have hpl : s.payloadLength = t.payloadLength := by
    unfold RxState.payloadLength
    rw [hlen]
  have haddr : s.writeAddress = t.writeAddress := by
    unfold RxState.writeAddress
    rw [hseq]
  have hpay : ∀ i < t.payloadLength, s.payload i = t.payload i := by
    intro i hi
    have hlt : 5 + i < bs.length := by
      unfold RxState.payloadLength at hi
      rw [ht.length, u16_id (by omega) (by omega)] at hi
      omega
    unfold RxState.payload
    rw [hs.getD hlt, ht.getD hlt]
  unfold revFileFrame
  rw [h0, hseq, hdec, hlen, hpl, haddr, hc, stmflashWriteDate_congr hpay]
  split_ifs <;> rfl

end Complete

/-! ## One piece -/

/-- The task waits, and `bs` is what it has received of the frame. -/
structure Assembled (s : RxState) (bs : List UInt8) : Prop where
  waits : s.pc ≠ .closed
  flag : s.flag = false
  offset_eq : s.offset = bs.length
  data : ∀ i (h : i < bs.length), s.receiveData i = bs[i]
  header : s.pc = .payload → 5 ≤ bs.length ∧ seqOf bs ≠ 0

theorem assembled_first (h : s.pc = .first) (hf : s.flag = false) : Assembled s [] where
  waits := by rw [h]; decide
  flag := hf
  offset_eq := offset_first h
  data := by intro i hi; simp at hi
  header := by rw [h]; intro hp; cases hp

/-- The state behind a `recv` which delivered `c`, with `lastLength` set. -/
def RxState.next (s : RxState) (rx : Receiver) (c : List UInt8) : RxState :=
  (s.got rx (.data c)).advance

namespace Assembled

variable (ha : Assembled s bs) (hc : c ≠ []) (hle : bs.length + c.length ≤ 1405)

include ha hle in
theorem reached_eq : s.reached rx (.data c) = bs.length + c.length := by
  rw [reached_data (by rw [ha.offset_eq]; exact hle), ha.offset_eq]

include ha hc hle in
theorem taken : Taken rx s (.data c) := by
  have hpos : 0 < c.length := List.length_pos_of_ne_nil hc
  refine ⟨?_, fun _ => ?_, fun hf => ?_⟩
  · rw [ha.reached_eq hle]; omega
  · rw [ha.reached_eq hle]; omega
  · rw [ha.reached_eq hle, ← offset_later hf, ha.offset_eq]; omega

include ha hle in
/-- Behind the `recv` the buffer holds the bytes so far and the piece. -/
theorem complete_next : Complete (s.next rx c) (bs ++ c) where
  length := by
    rw [RxState.next, RxState.advance_newLength, got_newLength, ha.reached_eq hle]
    simp
  data := by
    intro i hi
    show store s.receiveData s.offset c i = _
    rw [ha.offset_eq]
    by_cases hlt : i < bs.length
    · rw [store_of_lt hlt, List.getElem_append_left hlt, ha.data i hlt]
    · rw [List.getElem_append_right (by omega)]
      have hj : i - bs.length < c.length := by rw [List.length_append] at hi; omega
      rw [← store_of_mem (f := s.receiveData) hj, show bs.length + (i - bs.length) = i by omega]

include ha hle in
theorem lastLength_next : (s.next rx c).lastLength = (bs ++ c).length := by
  show (u16 (s.reached rx (.data c))).toNat = _
  rw [ha.reached_eq hle, u16_id (by omega) (by omega), List.length_append]
  omega

include ha hle in
/-- The task waits for more in one of the two loops. -/
theorem waits_on {pc : Pc} (hpc : pc = .header ∨ pc = .payload)
    (hhead : pc = .payload → 5 ≤ (bs ++ c).length ∧ seqOf (bs ++ c) ≠ 0) :
    Assembled { s.next rx c with pc := pc } (bs ++ c) where
  waits := by rcases hpc with rfl | rfl <;> exact Pc.noConfusion
  flag := ha.flag
  offset_eq := by
    rw [offset_later (by rcases hpc with rfl | rfl <;> exact Pc.noConfusion)]
    exact ha.lastLength_next hle
  data :=
    have hco : Complete (s.next rx c) (bs ++ c) := ha.complete_next hle
    hco.data
  header := hhead

variable (rx) in
include ha hc hle in
/-- **A piece is appended, and the frame is complete or the task waits for the rest of it.** -/
theorem receive_piece :
    (¬FrameDone (bs ++ c) ∧ ∃ pc, receive rx s (.data c) = .wait { s.next rx c with pc := pc } ∧
      Assembled { s.next rx c with pc := pc } (bs ++ c)) ∨
    (FrameDone (bs ++ c) ∧ receive rx s (.data c) = .frame (s.next rx c)) := by
  have hco : Complete (s.next rx c) (bs ++ c) := ha.complete_next hle
  have hlen := hco.length
  have hflag : (s.next rx c).flag = false := ha.flag
  -- both loops end with the test of the length against the header
  have hdone : ∀ hl : 5 ≤ (bs ++ c).length, seqOf (bs ++ c) ≠ 0 →
      (¬FrameDone (bs ++ c) ∧
        testPayload (s.next rx c) = .wait { s.next rx c with pc := .payload }) ∨
      (FrameDone (bs ++ c) ∧ testPayload (s.next rx c) = .frame (s.next rx c)) := by
    intro hl hseq
    have hdec := hco.declared_eq hl
    by_cases hd : (bs ++ c).length = declaredOf (bs ++ c) + 5
    · rw [testPayload, if_neg (by omega), testFlag, hflag]
      exact Or.inr ⟨⟨hl, fun _ => hd⟩, rfl⟩
    · rw [testPayload, if_pos (by omega)]
      exact Or.inl ⟨fun h => hd (h.2 hseq), rfl⟩
  rcases receive_eq rx s (.data c) with ⟨-, -, he⟩ | ⟨-, hp, he⟩ | ⟨hn, -⟩ | ⟨hn | hn, -⟩
  · -- from the header loop, which a start frame leaves without a payload
    change receive rx s (.data c) = testHeader (s.next rx c) at he
    rw [he]
    by_cases hl : (bs ++ c).length < 5
    · rw [testHeader, if_pos (by omega)]
      refine Or.inl ⟨fun h => ?_, .header, rfl, ha.waits_on hle (Or.inl rfl) (fun h => by cases h)⟩
      have := h.1
      omega
    · have hs := hco.seq_eq (by omega)
      rw [testHeader, if_neg (by omega)]
      by_cases hseq : seqOf (bs ++ c) = 0
      · rw [testSeq, if_neg (by omega), testFlag, hflag]
        exact Or.inr ⟨⟨by omega, fun h => absurd hseq h⟩, rfl⟩
      · rw [testSeq, if_pos (by omega)]
        rcases hdone (by omega) hseq with ⟨hn, hw⟩ | ⟨hd, hf⟩
        · refine Or.inl ⟨hn, .payload, hw, ha.waits_on hle (Or.inr rfl) fun _ => ⟨by omega, hseq⟩⟩
        · exact Or.inr ⟨hd, hf⟩
  · -- from the payload loop, with the header known since before
    change receive rx s (.data c) = testPayload (s.next rx c) at he
    obtain ⟨h5, hseq⟩ := ha.header hp
    have hl : 5 ≤ (bs ++ c).length := by rw [List.length_append]; omega
    have hseq' : seqOf (bs ++ c) ≠ 0 := by rw [seqOf_append (by omega)]; exact hseq
    rw [he]
    rcases hdone hl hseq' with ⟨hn, hw⟩ | ⟨hd, hf⟩
    · exact Or.inl ⟨hn, .payload, hw, ha.waits_on hle (Or.inr rfl) fun _ => ⟨hl, hseq'⟩⟩
    · exact Or.inr ⟨hd, hf⟩
  · exact absurd (ha.taken hc hle) hn
  · exact absurd (ha.taken hc hle) hn
  · exact absurd hn ha.waits

end Assembled

/-! ## All pieces of a frame -/

/-- The flash calls and the replies among the events. -/
def acts (es : List Event) : List Event := es.filter Event.isAct

@[simp] theorem acts_nil : acts [] = [] := rfl

@[simp] theorem acts_append (es fs : List Event) : acts (es ++ fs) = acts es ++ acts fs :=
  List.filter_append ..

@[simp] theorem acts_recvCall (s : RxState) : acts [s.recvCall rx] = [] := rfl

@[simp] theorem acts_close : acts [Event.close] = [] := rfl

@[simp] theorem acts_handled (h : Handled) : acts h.events = h.events := by
  refine List.filter_eq_self.mpr fun e he => ?_
  simp only [Handled.events, List.mem_append, List.mem_map, List.mem_singleton] at he
  rcases he with ⟨op, -, rfl⟩ | rfl <;> rfl

theorem acts_handle (s : RxState) (rx : Receiver) (h : Handled) :
    acts (s.handle rx h).2 = h.events := by
  obtain ⟨t, -, hh⟩ | ⟨t, -, hh⟩ := handle_cases s rx h
  · simp [hh]
  · simp [hh]

variable (rx) (hal) in
/--
**However a frame is cut, the task takes in the pieces one by one and then the frame.**

`done` is what has been received already; the bytes so far are complete only with the last piece.
-/
theorem run_pieces (ps : List (List UInt8)) : ∀ {s : RxState} {done : List UInt8},
    Assembled s done → ps ≠ [] → (∀ c ∈ ps, c ≠ []) → (done ++ ps.flatten).length ≤ 1405 →
    (∀ pre, pre <+: ps → pre ≠ [] → (FrameDone (done ++ pre.flatten) ↔ pre = ps)) →
    ∃ s', Complete s' (done ++ ps.flatten) ∧ s'.calls = s.calls ∧ s'.flag = false ∧
      (rx.task hal).run s (ps.map .data) = (s'.handle rx (rx.onFrame hal s')).1 ∧
      acts ((rx.task hal).trace s (ps.map .data)) = (rx.onFrame hal s').events := by
  induction ps with
  | nil => intro s done _ h; exact absurd rfl h
  | cons c ps ih =>
    intro s done ha _ hne hle hdone
    have hc : c ≠ [] := hne c List.mem_cons_self
    rw [List.flatten_cons, ← List.append_assoc] at hle ⊢
    have hlec : done.length + c.length ≤ 1405 := by
      simp only [List.length_append] at hle
      omega
    have hfirst : FrameDone (done ++ c) ↔ ps = [] := by
      have := hdone [c] ⟨ps, rfl⟩ (by simp)
      rw [List.flatten_cons, List.flatten_nil, List.append_nil] at this
      rw [this, List.cons.injEq, eq_comm (a := [])]
      simp
    rcases ha.receive_piece rx hc hlec with ⟨hn, pc, hw, ha'⟩ | ⟨hd, hf⟩
    · -- the frame is not complete, so there is a next piece
      have hps : ps ≠ [] := fun h => hn (hfirst.mpr h)
      obtain ⟨s', h1, h2, h3, h4, h5⟩ := ih ha' hps (fun x hx => hne x (List.mem_cons_of_mem _ hx)) hle
        (fun pre hpre hnil => by
          have := hdone (c :: pre) ((List.prefix_cons_inj c).mpr hpre) (by simp)
          rwa [List.flatten_cons, ← List.append_assoc, List.cons.injEq, and_iff_right rfl] at this)
      refine ⟨s', h1, h2, h3, ?_, ?_⟩
      · rw [List.map_cons, Machine.run_cons, task_step_wait hw]
        exact h4
      · rw [List.map_cons, Machine.trace_cons, task_step_wait hw, acts_append, acts_recvCall]
        exact h5
    · obtain rfl : ps = [] := hfirst.mp hd
      refine ⟨s.next rx c, ?_, rfl, ha.flag, ?_, ?_⟩
      · rw [List.flatten_nil, List.append_nil]
        exact ha.complete_next hlec
      · rw [List.map_cons, List.map_nil, Machine.run_cons, Machine.run_nil, task_step_frame hf]
      · rw [List.map_cons, List.map_nil, Machine.trace_cons, Machine.trace_nil, task_step_frame hf,
          List.append_nil, acts_handle]

end PlcFirmware.Download
