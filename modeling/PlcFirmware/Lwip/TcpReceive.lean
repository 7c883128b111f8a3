import Mathlib.Data.List.Infix
import PlcFirmware.Infra.SerialNumber

/-!
# How a connection takes segments

The receiving side of a `tcp_pcb` whose own side is not closed: `tcp_receive`, `tcp_process` and the window
functions of lwIP. Out-of-sequence segments are not queued (`TCP_QUEUE_OOSEQ` is 0).

* `Pcb.Fed` — `rcv_nxt` is the number of the first byte of the peer's stream which is not taken yet
* `tcpProcess_fed` — whatever segment comes, what is taken of it is the next piece of the stream
* `Pcb.Announced` — the announced right edge is not behind `rcv_nxt` and not past the window
* `tcpProcess_announced`, `tcpRecved_announced` — how the window and its announcement change
-/

namespace PlcFirmware.Lwip

open Infra

/-! ## Sequence numbers -/

/-- `TCP_SEQ_LT` -/
def tcpSeqLt (a b : BitVec 32) : Bool := (a - b).toInt < 0

/-- `TCP_SEQ_LEQ` -/
def tcpSeqLeq (a b : BitVec 32) : Bool := (a - b).toInt ≤ 0

/-- `TCP_SEQ_GT` -/
def tcpSeqGt (a b : BitVec 32) : Bool := (a - b).toInt > 0

/-- `TCP_SEQ_GEQ` -/
def tcpSeqGeq (a b : BitVec 32) : Bool := (a - b).toInt ≥ 0

/-- `TCP_SEQ_BETWEEN` -/
def tcpSeqBetween (a b c : BitVec 32) : Bool := tcpSeqGeq a b && tcpSeqLeq a c

/-! ## The structures -/

/-- `TCP_WND`, two segments of `TCP_MSS` -/
def tcpWnd : Nat := 2920

/-- `TCP_WND_UPDATE_THRESHOLD` -/
def tcpWndUpdateThreshold : Nat := tcpWnd / 4

/-- A chain of pbufs by its bytes, with the flags `PBUF_FLAG_PUSH` and `PBUF_FLAG_TCP_FIN`. -/
structure Pbuf where
  payload : List UInt8
  push : Bool
  fin : Bool
  deriving DecidableEq

/-- A segment that arrives. -/
structure TcpSeg where
  seqno : BitVec 32
  payload : List UInt8
  fin : Bool
  syn : Bool
  rst : Bool
  psh : Bool

/-- `TCP_TCPLEN` -/
def TcpSeg.tcplen (seg : TcpSeg) : Nat := seg.payload.length + if seg.fin || seg.syn then 1 else 0

inductive TcpState
  | established
  | closeWait
  deriving DecidableEq

/-- The fields of `tcp_pcb` for receiving; `TF_ACK_DELAY` and `TF_ACK_NOW` are flags. -/
structure TcpPcb where
  state : TcpState
  rcvNxt : BitVec 32
  rcvWnd : Nat
  rcvAnnWnd : Nat
  rcvAnnRightEdge : BitVec 32
  mss : Nat
  ackDelay : Bool
  ackNow : Bool
  refusedData : Option Pbuf

/-! ## The functions -/

/-- `tcp_update_rcv_ann_wnd`, with the value it returns -/
def tcpUpdateRcvAnnWnd (pcb : TcpPcb) : TcpPcb × BitVec 32 :=
  let newRightEdge := pcb.rcvNxt + BitVec.ofNat 32 pcb.rcvWnd
  if tcpSeqGeq newRightEdge (pcb.rcvAnnRightEdge + BitVec.ofNat 32 (min (tcpWnd / 2) pcb.mss)) then
    ({ pcb with rcvAnnWnd := pcb.rcvWnd }, newRightEdge - pcb.rcvAnnRightEdge)
  else if tcpSeqGt pcb.rcvNxt pcb.rcvAnnRightEdge then
    ({ pcb with rcvAnnWnd := 0 }, 0)
  else
    ({ pcb with rcvAnnWnd := (pcb.rcvAnnRightEdge - pcb.rcvNxt).toNat % 2 ^ 16 }, 0)

/-- `tcp_ack` -/
def tcpAck (pcb : TcpPcb) : TcpPcb :=
  if pcb.ackDelay then { pcb with ackDelay := false, ackNow := true }
  else { pcb with ackDelay := true }

/-- `tcp_ack_now` -/
def tcpAckNow (pcb : TcpPcb) : TcpPcb := { pcb with ackNow := true }

/--
`tcp_output` and `tcp_send_empty_ack`. Whether a segment or an empty ACK leaves depends on what is unsent and
on the memory; if one does, it tells the peer `rcv_nxt` and the window.
-/
def tcpOutput (sent : Bool) (pcb : TcpPcb) : TcpPcb :=
  if sent then
    { pcb with
      rcvAnnRightEdge := pcb.rcvNxt + BitVec.ofNat 32 pcb.rcvAnnWnd, ackDelay := false, ackNow := false }
  else pcb

/-- `tcp_recved` -/
def tcpRecved (sent : Bool) (len : Nat) (pcb : TcpPcb) : TcpPcb :=
  let rcvWnd := (pcb.rcvWnd + len) % 2 ^ 16
  let pcb := { pcb with rcvWnd := if rcvWnd > tcpWnd then tcpWnd else rcvWnd }
  let (pcb, wndInflation) := tcpUpdateRcvAnnWnd pcb
  if wndInflation.toInt ≥ tcpWndUpdateThreshold then tcpOutput sent (tcpAckNow pcb) else pcb

/-- What `tcp_receive` leaves in the pcb, in `recv_data` and in the flag `TF_GOT_FIN`. -/
structure Received where
  pcb : TcpPcb
  recvData : Option Pbuf
  gotFin : Bool

/-- The trimming of the end of a segment: what does not fit the window is cut off, the FIN first. -/
def TcpSeg.trim (rcvWnd : Nat) (inseg : TcpSeg) : TcpSeg :=
  if inseg.tcplen > rcvWnd then { inseg with fin := false, payload := inseg.payload.take rcvWnd }
  else inseg

/-- The end of `tcp_receive`: the segment is next in sequence. -/
def tcpReceiveNext (pcb : TcpPcb) (inseg : TcpSeg) : Received :=
  let inseg := inseg.trim pcb.rcvWnd
  let tcplen := inseg.tcplen
  let pcb := { pcb with
    rcvNxt := inseg.seqno + BitVec.ofNat 32 tcplen, rcvWnd := pcb.rcvWnd - tcplen }
  { pcb := tcpAck (tcpUpdateRcvAnnWnd pcb).1
    recvData := if inseg.payload = [] then none else some ⟨inseg.payload, inseg.psh, false⟩
    gotFin := inseg.fin }

/-- `tcp_receive` behind the trimming of the first edge. -/
def tcpReceiveTrimmed (sent : Bool) (pcb : TcpPcb) (inseg : TcpSeg) : Received :=
  if tcpSeqBetween inseg.seqno pcb.rcvNxt (pcb.rcvNxt + BitVec.ofNat 32 pcb.rcvWnd - 1) then
    if pcb.rcvNxt = inseg.seqno then tcpReceiveNext pcb inseg
    else ⟨tcpOutput sent pcb, none, false⟩
  else ⟨tcpOutput sent pcb, none, false⟩

/-- `tcp_receive`, what is about data -/
def tcpReceive (sent : Bool) (pcb : TcpPcb) (inseg : TcpSeg) : Received :=
  let seqno := inseg.seqno
  if inseg.tcplen > 0 ∧ pcb.state = .established then
    if tcpSeqBetween pcb.rcvNxt (seqno + 1) (seqno + BitVec.ofNat 32 inseg.tcplen - 1) then
      let off := (pcb.rcvNxt - seqno).toInt
      tcpReceiveTrimmed sent pcb
        { inseg with seqno := pcb.rcvNxt, payload := inseg.payload.drop off.toNat }
    else
      -- a duplicate is acknowledged once more
      tcpReceiveTrimmed sent (if tcpSeqLt seqno pcb.rcvNxt then tcpAckNow pcb else pcb) inseg
  else if !tcpSeqBetween seqno pcb.rcvNxt (pcb.rcvNxt + BitVec.ofNat 32 pcb.rcvWnd - 1) then
    ⟨tcpAckNow pcb, none, false⟩
  else ⟨pcb, none, false⟩

/-- `tcp_process` in the states `ESTABLISHED` and `CLOSE_WAIT`; `none` is `TF_RESET`. -/
def tcpProcess (sent : Bool) (pcb : TcpPcb) (inseg : TcpSeg) : Option Received :=
  if inseg.rst then
    if tcpSeqBetween inseg.seqno pcb.rcvNxt (pcb.rcvNxt + BitVec.ofNat 32 pcb.rcvWnd) then none
    else some ⟨pcb, none, false⟩
  else if inseg.syn then some ⟨tcpAckNow pcb, none, false⟩
  else
    let r := tcpReceive sent pcb inseg
    if r.gotFin then some { r with pcb := { tcpAckNow r.pcb with state := .closeWait } } else some r

/-- The bytes for the application. -/
def Received.bytes (r : Received) : List UInt8 := r.recvData.elim [] Pbuf.payload

/-! ## What leaves which field alone -/

section Frame

variable {pcb : TcpPcb} {sent : Bool}

theorem tcpUpdateRcvAnnWnd_eq (pcb : TcpPcb) :
    ∃ w, (tcpUpdateRcvAnnWnd pcb).1 = { pcb with rcvAnnWnd := w } := by
  dsimp only [tcpUpdateRcvAnnWnd]
  split_ifs
  · exact ⟨_, rfl⟩
  · exact ⟨_, rfl⟩
  · exact ⟨_, rfl⟩

@[simp] theorem tcpAck_state : (tcpAck pcb).state = pcb.state := by
  unfold tcpAck
  split_ifs <;> rfl

@[simp] theorem tcpAck_rcvNxt : (tcpAck pcb).rcvNxt = pcb.rcvNxt := by
  unfold tcpAck
  split_ifs <;> rfl

@[simp] theorem tcpAck_rcvWnd : (tcpAck pcb).rcvWnd = pcb.rcvWnd := by
  unfold tcpAck
  split_ifs <;> rfl

@[simp] theorem tcpAck_refusedData : (tcpAck pcb).refusedData = pcb.refusedData := by
  unfold tcpAck
  split_ifs <;> rfl

@[simp] theorem tcpOutput_state : (tcpOutput sent pcb).state = pcb.state := by
  cases sent <;> rfl

@[simp] theorem tcpOutput_rcvNxt : (tcpOutput sent pcb).rcvNxt = pcb.rcvNxt := by
  cases sent <;> rfl

@[simp] theorem tcpOutput_rcvWnd : (tcpOutput sent pcb).rcvWnd = pcb.rcvWnd := by
  cases sent <;> rfl

@[simp] theorem tcpOutput_refusedData : (tcpOutput sent pcb).refusedData = pcb.refusedData := by
  cases sent <;> rfl

end Frame

/-! ## The stream -/

/-- The pcb has taken `n` bytes of the peer's stream, and its end if the state says so. -/
structure TcpPcb.Fed (stream : List UInt8) (irs : BitVec 32) (n : Nat) (pcb : TcpPcb) : Prop where
  nxt : pcb.rcvNxt = serial irs (n + if pcb.state = .closeWait then 1 else 0 : Nat)
  whole : pcb.state = .closeWait → n = stream.length

/--
The segment is a piece of the stream, at a position less than 2^30 bytes from `n`. Its length is below the
bound which `tcp_receive` asserts of an offset into it.
-/
def TcpSeg.Of (stream : List UInt8) (irs : BitVec 32) (n : Nat) (seg : TcpSeg) : Prop :=
  ∃ a, a ≤ stream.length ∧ seg.seqno = serial irs a ∧ seg.payload <+: stream.drop a ∧
    (seg.fin = true → a + seg.payload.length = stream.length) ∧
    seg.payload.length < 0x7fff ∧ a < n + 2 ^ 30 ∧ n < a + 2 ^ 30

/-- What is taken of a segment: the next piece of the stream, and no more than the window. -/
structure Received.Takes (stream : List UInt8) (n : Nat) (pcb : TcpPcb) (r : Received) : Prop where
  state : r.pcb.state = pcb.state
  refused : r.pcb.refusedData = pcb.refusedData
  nxt : r.pcb.rcvNxt = pcb.rcvNxt + BitVec.ofNat 32 (r.bytes.length + r.gotFin.toNat)
  wnd : r.pcb.rcvWnd + (r.bytes.length + r.gotFin.toNat) = pcb.rcvWnd
  piece : r.bytes <+: stream.drop n
  fin : r.gotFin = true → pcb.state = .established ∧ n + r.bytes.length = stream.length
  data : ∀ p, r.recvData = some p → p.payload ≠ [] ∧ p.fin = false

section Takes

variable {stream : List UInt8} {irs : BitVec 32} {n : Nat} {pcb pcb' : TcpPcb} {seg : TcpSeg}
  {sent : Bool}

theorem takes_nothing (hstate : pcb'.state = pcb.state) (hnxt : pcb'.rcvNxt = pcb.rcvNxt)
    (hwnd : pcb'.rcvWnd = pcb.rcvWnd) (href : pcb'.refusedData = pcb.refusedData) :
    Received.Takes stream n pcb ⟨pcb', none, false⟩ where
  state := hstate
  refused := href
  nxt := by
    rw [hnxt]
    exact (BitVec.add_zero _).symm
  wnd := hwnd
  piece := List.nil_prefix
  fin h := by cases h
  data p h := by cases h

theorem trim_tcplen_le (hsyn : seg.syn = false) (w : Nat) : (seg.trim w).tcplen ≤ w := by
  unfold TcpSeg.trim
  split_ifs with h
  · rw [TcpSeg.tcplen, hsyn]
    exact List.length_take_le w seg.payload
  · exact Nat.le_of_not_lt h

theorem trim_seqno (w : Nat) : (seg.trim w).seqno = seg.seqno := by
  unfold TcpSeg.trim
  split_ifs <;> rfl

theorem trim_syn (w : Nat) : (seg.trim w).syn = seg.syn := by
  unfold TcpSeg.trim
  split_ifs <;> rfl

theorem trim_payload (w : Nat) : (seg.trim w).payload <+: seg.payload := by
  unfold TcpSeg.trim
  split_ifs
  · exact List.take_prefix w seg.payload
  · exact List.prefix_rfl

/-- A FIN is kept with all that is before it. -/
theorem trim_fin (w : Nat) (h : (seg.trim w).fin = true) :
    seg.fin = true ∧ (seg.trim w).payload = seg.payload := by
  by_cases hlt : seg.tcplen > w
  · rw [TcpSeg.trim, if_pos hlt] at h
    cases h
  · rw [TcpSeg.trim, if_neg hlt] at h ⊢
    exact ⟨h, rfl⟩

theorem tcplen_of_syn (hsyn : seg.syn = false) :
    seg.tcplen = seg.payload.length + seg.fin.toNat := by
  rw [TcpSeg.tcplen, hsyn, Bool.or_false]
  cases seg.fin <;> rfl

/-- The bytes given up are the payload, whether or not there are any. -/
theorem bytes_of_payload (pcb : TcpPcb) (payload : List UInt8) (psh fin : Bool) :
    (⟨pcb, if payload = [] then none else some ⟨payload, psh, false⟩, fin⟩ : Received).bytes =
      payload := by
  unfold Received.bytes
  split_ifs with h
  · exact h.symm
  · rfl

theorem tcpReceiveNext_takes (hest : pcb.state = .established) (hsyn : seg.syn = false)
    (hseq : seg.seqno = pcb.rcvNxt) (hpiece : seg.payload <+: stream.drop n)
    (hfin : seg.fin = true → n + seg.payload.length = stream.length) :
    (tcpReceiveNext pcb seg).Takes stream n pcb := by
  obtain ⟨w, hw⟩ := tcpUpdateRcvAnnWnd_eq ({ pcb with
    rcvNxt := (seg.trim pcb.rcvWnd).seqno + BitVec.ofNat 32 (seg.trim pcb.rcvWnd).tcplen
    rcvWnd := pcb.rcvWnd - (seg.trim pcb.rcvWnd).tcplen } : TcpPcb)
  have hlen : (seg.trim pcb.rcvWnd).tcplen =
      (tcpReceiveNext pcb seg).bytes.length + (tcpReceiveNext pcb seg).gotFin.toNat := by
    rw [tcpReceiveNext, bytes_of_payload]
    exact tcplen_of_syn ((trim_syn _).trans hsyn)
  have hle := trim_tcplen_le hsyn pcb.rcvWnd
  constructor
  · rw [tcpReceiveNext, hw]
    exact tcpAck_state
  · rw [tcpReceiveNext, hw]
    exact tcpAck_refusedData
  · rw [← hlen, tcpReceiveNext, hw, ← hseq]
    exact tcpAck_rcvNxt.trans (by rw [trim_seqno])
  · rw [← hlen, tcpReceiveNext, hw]
    refine (congrArg (· + _) tcpAck_rcvWnd).trans ?_
    exact Nat.sub_add_cancel hle
  · rw [tcpReceiveNext, bytes_of_payload]
    exact (trim_payload _).trans hpiece
  · intro h
    obtain ⟨hf, hp⟩ := trim_fin _ h
    refine ⟨hest, ?_⟩
    rw [tcpReceiveNext, bytes_of_payload, hp]
    exact hfin hf
  · intro p hp
    rw [tcpReceiveNext] at hp
    split_ifs at hp with hempty
    cases hp
    exact ⟨hempty, rfl⟩

theorem tcpReceiveTrimmed_takes (hest : pcb.state = .established) (hsyn : seg.syn = false)
    (hnext : pcb.rcvNxt = seg.seqno → seg.payload <+: stream.drop n ∧
      (seg.fin = true → n + seg.payload.length = stream.length)) :
    (tcpReceiveTrimmed sent pcb seg).Takes stream n pcb := by
  unfold tcpReceiveTrimmed
  split_ifs with hin heq
  · obtain ⟨hpiece, hfin⟩ := hnext heq
    exact tcpReceiveNext_takes hest hsyn heq.symm hpiece hfin
  · exact takes_nothing tcpOutput_state tcpOutput_rcvNxt tcpOutput_rcvWnd tcpOutput_refusedData
  · exact takes_nothing tcpOutput_state tcpOutput_rcvNxt tcpOutput_rcvWnd tcpOutput_refusedData

theorem tcpSeqBetween_serial {irs : BitVec 32} {m i j : Int} (hi : Near 32 m i) (hj : Near 32 m j) :
    tcpSeqBetween (serial irs m) (serial irs i) (serial irs j) = true ↔ i ≤ m ∧ m ≤ j := by
  rw [tcpSeqBetween, tcpSeqGeq, tcpSeqLeq, Bool.and_eq_true, decide_eq_true_iff,
    decide_eq_true_iff, toInt_serial_sub hi, toInt_serial_sub hj]
  omega

/-- **`tcp_receive` takes the next piece of the stream, or nothing.** -/
theorem tcpReceive_takes (h : pcb.Fed stream irs n) (hseg : seg.Of stream irs n)
    (hsyn : seg.syn = false) : (tcpReceive sent pcb seg).Takes stream n pcb := by
  obtain ⟨a, ha, hseq, hpay, hfin, hlen, hlo, hhi⟩ := hseg
  have htcplen := tcplen_of_syn hsyn
  have hfinNat : seg.fin.toNat ≤ 1 := Bool.toNat_le seg.fin
  unfold tcpReceive
  by_cases hdata : seg.tcplen > 0 ∧ pcb.state = .established
  · rw [if_pos hdata]
    obtain ⟨hpos, hest⟩ := hdata
    have hnxt : pcb.rcvNxt = serial irs n := by
      rw [h.nxt, hest]
      rfl
    by_cases hfront :
        tcpSeqBetween pcb.rcvNxt (seg.seqno + 1) (seg.seqno + BitVec.ofNat 32 seg.tcplen - 1) = true
    · -- the first edge is trimmed: the segment begins before `n` and ends behind it
      rw [if_pos hfront]
      have hlast : seg.seqno + BitVec.ofNat 32 seg.tcplen - 1 = serial irs (a + seg.tcplen - 1) := by
        rw [hseq, serial_add]
        exact serial_sub 1
      have hfirst : seg.seqno + 1 = serial irs (a + 1) := by
        rw [hseq]
        exact serial_add 1
      rw [hnxt, hlast, hfirst,
        tcpSeqBetween_serial ⟨by omega, by omega⟩ ⟨by omega, by omega⟩] at hfront
      have hoff : (pcb.rcvNxt - seg.seqno).toInt.toNat = n - a := by
        rw [hnxt, hseq, toInt_serial_sub ⟨by omega, by omega⟩]
        omega
      refine tcpReceiveTrimmed_takes hest hsyn fun _ => ⟨?_, fun hf => ?_⟩
      · have hdrop := List.IsPrefix.drop hpay (n - a)
        rw [List.drop_drop, Nat.add_sub_cancel' (by omega)] at hdrop
        rw [hoff]
        exact hdrop
      · have hend := hfin hf
        rw [hoff, List.length_drop]
        omega
    · rw [if_neg hfront]
      have hnext : pcb.rcvNxt = seg.seqno → seg.payload <+: stream.drop n ∧
          (seg.fin = true → n + seg.payload.length = stream.length) := by
        intro heq
        rw [hnxt, hseq, serial_inj ⟨by omega, by omega⟩] at heq
        rw [show n = a by omega]
        exact ⟨hpay, hfin⟩
      by_cases hdup : tcpSeqLt seg.seqno pcb.rcvNxt = true
      · rw [if_pos hdup]
        have htakes : (tcpReceiveTrimmed sent (tcpAckNow pcb) seg).Takes stream n (tcpAckNow pcb) :=
          tcpReceiveTrimmed_takes hest hsyn hnext
        exact { htakes with }
      · rw [if_neg hdup]
        exact tcpReceiveTrimmed_takes hest hsyn hnext
  · rw [if_neg hdata]
    split_ifs
    · exact takes_nothing rfl rfl rfl rfl
    · exact takes_nothing rfl rfl rfl rfl

/--
**Whatever segment comes, what is taken of it is the next piece of the stream.** With `n` bytes taken before,
and the bytes given up now, the pcb has taken the sum.
-/
theorem tcpProcess_fed {r : Received} (h : pcb.Fed stream irs n)
    (hseg : seg.rst = false → seg.syn = false → seg.Of stream irs n)
    (hr : tcpProcess sent pcb seg = some r) :
    r.pcb.Fed stream irs (n + r.bytes.length) ∧ r.bytes <+: stream.drop n ∧
      r.pcb.refusedData = pcb.refusedData ∧
      (∀ p, r.recvData = some p → p.payload ≠ [] ∧ p.fin = false) ∧
      r.pcb.rcvWnd + (r.bytes.length + r.gotFin.toNat) = pcb.rcvWnd ∧
      (r.pcb.state = .closeWait ↔ pcb.state = .closeWait ∨ r.gotFin = true) := by
  unfold tcpProcess at hr
  by_cases hrst : seg.rst = true
  · rw [if_pos hrst] at hr
    split_ifs at hr
    cases hr
    exact ⟨h, List.nil_prefix, rfl, by rintro p ⟨⟩, rfl, by simp⟩
  rw [if_neg hrst] at hr
  by_cases hsyn : seg.syn = true
  · rw [if_pos hsyn] at hr
    cases hr
    exact ⟨⟨h.nxt, h.whole⟩, List.nil_prefix, rfl, by rintro p ⟨⟩, rfl, by simp [tcpAckNow]⟩
  rw [if_neg hsyn] at hr
  rw [Bool.not_eq_true] at hrst hsyn
  have htakes : (tcpReceive sent pcb seg).Takes stream n pcb :=
    tcpReceive_takes h (hseg hrst hsyn) hsyn
  dsimp only at hr
  by_cases hfin : (tcpReceive sent pcb seg).gotFin = true
  · -- the stream ends here
    rw [if_pos hfin] at hr
    cases hr
    obtain ⟨hest, hend⟩ := htakes.fin hfin
    have hnxt := htakes.nxt
    rw [h.nxt, hest, hfin, if_neg (by decide), Nat.add_zero, serial_add] at hnxt
    refine ⟨⟨?_, fun _ => hend⟩, htakes.piece, htakes.refused, htakes.data, htakes.wnd, ?_⟩
    · refine hnxt.trans (congrArg (serial irs) ?_)
      exact (Int.natCast_add ..).symm.trans (by rw [← Nat.add_assoc]; rfl)
    · exact ⟨fun _ => Or.inr hfin, fun _ => rfl⟩
  · rw [if_neg hfin] at hr
    cases hr
    rw [Bool.not_eq_true] at hfin
    refine ⟨⟨?_, ?_⟩, htakes.piece, htakes.refused, htakes.data, htakes.wnd, ?_⟩
    · rw [htakes.nxt, h.nxt, htakes.state, hfin, serial_add]
      refine congrArg (serial irs) ?_
      exact (Int.natCast_add ..).symm.trans (congrArg Nat.cast (Nat.add_right_comm ..))
    · intro hclose
      have hn : n = stream.length := h.whole (htakes.state.symm.trans hclose)
      have hpiece := htakes.piece
      rw [hn, List.drop_length, List.prefix_nil] at hpiece
      rw [hpiece]
      exact hn
    · rw [htakes.state, hfin]
      simp

end Takes

/-! ## The announced window -/

/--
What the peer has been told of the window of a pcb which has taken `n` bytes: it may send up to `edge`. What
was told is in the window, and if the peer could be told much more, an ACK is on its way.
-/
structure TcpPcb.Announced (irs : BitVec 32) (n edge : Nat) (pcb : TcpPcb) : Prop where
  nxt : pcb.rcvNxt = serial irs n
  right : pcb.rcvAnnRightEdge = serial irs edge
  behind : n ≤ edge
  inWnd : edge ≤ n + pcb.rcvWnd
  wnd : pcb.rcvWnd ≤ tcpWnd
  told : edge ≤ n + pcb.rcvAnnWnd
  ann : pcb.rcvAnnWnd ≤ pcb.rcvWnd
  kept : pcb.rcvWnd < pcb.rcvAnnWnd + tcpWnd / 2
  owed : pcb.ackNow = true ∨ n + pcb.rcvWnd < edge + tcpWnd / 2

/-- The segment ends before the announced right edge. -/
def TcpSeg.Within (pcb : TcpPcb) (seg : TcpSeg) : Prop :=
  tcpSeqGt (seg.seqno + BitVec.ofNat 32 seg.tcplen) pcb.rcvAnnRightEdge = false

instance (pcb : TcpPcb) (seg : TcpSeg) : Decidable (seg.Within pcb) :=
  inferInstanceAs (Decidable (_ = _))

section Announced

variable {stream : List UInt8} {irs : BitVec 32} {n edge : Nat} {pcb : TcpPcb} {seg : TcpSeg}
  {sent : Bool}

/-- The window is announced as it is, or the right edge stays where it was announced. -/
theorem tcpUpdateRcvAnnWnd_spec (hnxt : pcb.rcvNxt = serial irs n)
    (hedge : pcb.rcvAnnRightEdge = serial irs edge) (hbehind : n ≤ edge)
    (hin : edge ≤ n + pcb.rcvWnd) (hwnd : pcb.rcvWnd ≤ tcpWnd) :
    (edge + min (tcpWnd / 2) pcb.mss ≤ n + pcb.rcvWnd ∧
      (tcpUpdateRcvAnnWnd pcb).1 = { pcb with rcvAnnWnd := pcb.rcvWnd } ∧
      (tcpUpdateRcvAnnWnd pcb).2.toInt = n + pcb.rcvWnd - edge) ∨
    (n + pcb.rcvWnd < edge + min (tcpWnd / 2) pcb.mss ∧
      (tcpUpdateRcvAnnWnd pcb).1 = { pcb with rcvAnnWnd := edge - n } ∧
      (tcpUpdateRcvAnnWnd pcb).2.toInt = 0) := by
  have htw : tcpWnd = 2920 := rfl
  have hright : pcb.rcvNxt + BitVec.ofNat 32 pcb.rcvWnd = serial irs (n + pcb.rcvWnd) := by
    rw [hnxt, serial_add]
  have hgeq : tcpSeqGeq (pcb.rcvNxt + BitVec.ofNat 32 pcb.rcvWnd)
      (pcb.rcvAnnRightEdge + BitVec.ofNat 32 (min (tcpWnd / 2) pcb.mss)) = true ↔
      edge + min (tcpWnd / 2) pcb.mss ≤ n + pcb.rcvWnd := by
    rw [tcpSeqGeq, hright, hedge, serial_add, toInt_serial_sub ⟨by omega, by omega⟩,
      decide_eq_true_iff]
    omega
  dsimp only [tcpUpdateRcvAnnWnd]
  by_cases h : edge + min (tcpWnd / 2) pcb.mss ≤ n + pcb.rcvWnd
  · rw [if_pos (hgeq.mpr h)]
    refine Or.inl ⟨h, rfl, ?_⟩
    rw [hright, hedge, toInt_serial_sub ⟨by omega, by omega⟩]
  · rw [if_neg (mt hgeq.mp h)]
    have hgt : ¬tcpSeqGt pcb.rcvNxt pcb.rcvAnnRightEdge = true := by
      rw [tcpSeqGt, hnxt, hedge, toInt_serial_sub ⟨by omega, by omega⟩, decide_eq_true_iff]
      omega
    have hdiff : (pcb.rcvAnnRightEdge - pcb.rcvNxt).toNat = edge - n := by
      rw [hnxt, hedge]
      exact toNat_serial_sub hbehind (by omega)
    rw [if_neg hgt, hdiff, Nat.mod_eq_of_lt (by omega)]
    exact Or.inr ⟨Nat.lt_of_not_le h, rfl, rfl⟩

/-- The announcement is brought up to date, with an ACK to tell it. -/
theorem tcpUpdateRcvAnnWnd_ackNow (hnxt : pcb.rcvNxt = serial irs n)
    (hedge : pcb.rcvAnnRightEdge = serial irs edge) (hbehind : n ≤ edge)
    (hin : edge ≤ n + pcb.rcvWnd) (hwnd : pcb.rcvWnd ≤ tcpWnd) :
    (tcpAckNow (tcpUpdateRcvAnnWnd pcb).1).Announced irs n edge := by
  have htw : tcpWnd = 2920 := rfl
  rcases tcpUpdateRcvAnnWnd_spec hnxt hedge hbehind hin hwnd with ⟨hfar, heq, -⟩ | ⟨hnear, heq, -⟩
  · rw [heq]
    refine ⟨hnxt, hedge, hbehind, hin, hwnd, hin, Nat.le_refl _, ?_, Or.inl rfl⟩
    dsimp only [tcpAckNow]
    omega
  · rw [heq]
    refine ⟨hnxt, hedge, hbehind, hin, hwnd, ?_, ?_, ?_, Or.inl rfl⟩
    all_goals
      dsimp only [tcpAckNow]
      omega

/-- The same without an ACK, if none is owed or one is on its way. -/
theorem tcpUpdateRcvAnnWnd_announced (hnxt : pcb.rcvNxt = serial irs n)
    (hedge : pcb.rcvAnnRightEdge = serial irs edge) (hbehind : n ≤ edge)
    (hin : edge ≤ n + pcb.rcvWnd) (hwnd : pcb.rcvWnd ≤ tcpWnd)
    (howed : pcb.ackNow = true ∨ n + pcb.rcvWnd < edge + tcpWnd / 2) :
    (tcpUpdateRcvAnnWnd pcb).1.Announced irs n edge := by
  have h := tcpUpdateRcvAnnWnd_ackNow hnxt hedge hbehind hin hwnd
  obtain ⟨w, hw⟩ := tcpUpdateRcvAnnWnd_eq pcb
  rw [hw] at h ⊢
  exact { h with owed := howed }

/-- What leaves tells the peer of the window; the right edge does not go back. -/
theorem TcpPcb.Announced.output (h : pcb.Announced irs n edge) (sent : Bool) :
    ∃ edge', edge ≤ edge' ∧ (tcpOutput sent pcb).Announced irs n edge' := by
  cases sent with
  | false => exact ⟨edge, Nat.le_refl _, h⟩
  | true =>
    refine ⟨n + pcb.rcvAnnWnd, h.told, h.nxt, ?_, Nat.le_add_right .., ?_, h.wnd, Nat.le_refl _,
      h.ann, h.kept, Or.inr ?_⟩
    · exact (congrArg (· + _) h.nxt).trans (serial_add _)
    · exact Nat.add_le_add_left h.ann n
    · have hkept := h.kept
      rw [Nat.add_assoc]
      exact Nat.add_lt_add_left hkept n

theorem TcpPcb.Announced.ack (h : pcb.Announced irs n edge) : (tcpAck pcb).Announced irs n edge := by
  unfold tcpAck
  split_ifs
  · exact { h with owed := Or.inl rfl }
  · exact { h with }

theorem trim_of_le {w : Nat} (h : seg.tcplen ≤ w) : seg.trim w = seg := by
  rw [TcpSeg.trim, if_neg (Nat.not_lt.mpr h)]

/-- A segment in the announced window is taken whole. -/
theorem tcpReceiveNext_announced (h : pcb.Announced irs n edge) (hseq : seg.seqno = pcb.rcvNxt)
    (hsyn : seg.syn = false) (hend : n + seg.tcplen ≤ edge)
    (hfin : (tcpReceiveNext pcb seg).gotFin = false) :
    (tcpReceiveNext pcb seg).pcb.Announced irs (n + (tcpReceiveNext pcb seg).bytes.length) edge := by
  have hin := h.inWnd
  have hwnd := h.wnd
  have htrim : seg.trim pcb.rcvWnd = seg := trim_of_le (by omega)
  have hlen : seg.tcplen = (tcpReceiveNext pcb seg).bytes.length := by
    have hno : seg.fin = false := by
      rw [tcpReceiveNext, htrim] at hfin
      exact hfin
    rw [tcpReceiveNext, bytes_of_payload, htrim, tcplen_of_syn hsyn, hno]
    rfl
  rw [← hlen, tcpReceiveNext, htrim]
  refine TcpPcb.Announced.ack (tcpUpdateRcvAnnWnd_announced ?_ h.right hend ?_ ?_ ?_)
  · rw [hseq, h.nxt]
    exact (serial_add _).trans (congrArg _ (Int.natCast_add ..).symm)
  · dsimp only
    omega
  · exact Nat.le_trans (Nat.sub_le ..) hwnd
  · refine h.owed.imp_right fun hlt => ?_
    dsimp only
    omega

theorem tcpReceiveTrimmed_announced (h : pcb.Announced irs n edge) (hsyn : seg.syn = false)
    (hend : pcb.rcvNxt = seg.seqno → n + seg.tcplen ≤ edge)
    (hfin : (tcpReceiveTrimmed sent pcb seg).gotFin = false) :
    ∃ edge', edge ≤ edge' ∧ (tcpReceiveTrimmed sent pcb seg).pcb.Announced irs
      (n + (tcpReceiveTrimmed sent pcb seg).bytes.length) edge' := by
  unfold tcpReceiveTrimmed at hfin ⊢
  split_ifs at hfin ⊢ with hin heq
  · exact ⟨edge, Nat.le_refl _, tcpReceiveNext_announced h heq.symm hsyn (hend heq) hfin⟩
  · exact h.output sent
  · exact h.output sent

/-- **A window which was announced is kept to, and announced further as it opens.** -/
theorem tcpReceive_announced (h : pcb.Announced irs n edge) (hseg : seg.Of stream irs n)
    (hsyn : seg.syn = false) (hwithin : seg.Within pcb)
    (hfin : (tcpReceive sent pcb seg).gotFin = false) :
    ∃ edge', edge ≤ edge' ∧ (tcpReceive sent pcb seg).pcb.Announced irs
      (n + (tcpReceive sent pcb seg).bytes.length) edge' := by
  have htw : tcpWnd = 2920 := rfl
  obtain ⟨a, ha, hseq, hpay, -, hlen, hlo, hhi⟩ := hseg
  have htcplen := tcplen_of_syn hsyn
  have hfinNat : seg.fin.toNat ≤ 1 := Bool.toNat_le seg.fin
  have hin := h.inWnd
  have hbehind := h.behind
  have hwnd := h.wnd
  have hend : a + seg.tcplen ≤ edge := by
    rw [TcpSeg.Within, tcpSeqGt, hseq, serial_add, h.right,
      toInt_serial_sub ⟨by omega, by omega⟩, decide_eq_false_iff_not] at hwithin
    omega
  have hnow : (tcpAckNow pcb).Announced irs n edge := { h with owed := Or.inl rfl }
  unfold tcpReceive at hfin ⊢
  by_cases hdata : seg.tcplen > 0 ∧ pcb.state = .established
  · rw [if_pos hdata] at hfin ⊢
    by_cases hfront :
        tcpSeqBetween pcb.rcvNxt (seg.seqno + 1) (seg.seqno + BitVec.ofNat 32 seg.tcplen - 1) = true
    · rw [if_pos hfront] at hfin ⊢
      refine tcpReceiveTrimmed_announced h ?_ (fun _ => ?_) hfin
      · exact hsyn
      · have hlast : seg.seqno + BitVec.ofNat 32 seg.tcplen - 1 = serial irs (a + seg.tcplen - 1) := by
          rw [hseq, serial_add]
          exact serial_sub 1
        have hfirst : seg.seqno + 1 = serial irs (a + 1) := by
          rw [hseq]
          exact serial_add 1
        rw [h.nxt, hlast, hfirst,
          tcpSeqBetween_serial ⟨by omega, by omega⟩ ⟨by omega, by omega⟩] at hfront
        have hoff : (pcb.rcvNxt - seg.seqno).toInt.toNat = n - a := by
          rw [h.nxt, hseq, toInt_serial_sub ⟨by omega, by omega⟩]
          omega
        have hcut := tcplen_of_syn (show TcpSeg.syn { seg with
          seqno := pcb.rcvNxt
          payload := seg.payload.drop (pcb.rcvNxt - seg.seqno).toInt.toNat } = false from hsyn)
        refine Nat.le_trans (Nat.add_le_add_left (Nat.le_of_eq hcut) n) ?_
        dsimp only
        rw [hoff, List.length_drop]
        omega
    · rw [if_neg hfront] at hfin ⊢
      have hnext : pcb.rcvNxt = seg.seqno → n + seg.tcplen ≤ edge := by
        intro heq
        rw [h.nxt, hseq, serial_inj ⟨by omega, by omega⟩] at heq
        omega
      by_cases hdup : tcpSeqLt seg.seqno pcb.rcvNxt = true
      · rw [if_pos hdup] at hfin ⊢
        exact tcpReceiveTrimmed_announced hnow hsyn hnext hfin
      · rw [if_neg hdup] at hfin ⊢
        exact tcpReceiveTrimmed_announced h hsyn hnext hfin
  · rw [if_neg hdata]
    split_ifs
    · exact ⟨edge, Nat.le_refl _, hnow⟩
    · exact ⟨edge, Nat.le_refl _, h⟩

theorem tcpProcess_announced {r : Received} (h : pcb.Announced irs n edge)
    (hseg : seg.rst = false → seg.syn = false → seg.Of stream irs n ∧ seg.Within pcb)
    (hr : tcpProcess sent pcb seg = some r) (hfin : r.gotFin = false) :
    ∃ edge', edge ≤ edge' ∧ r.pcb.Announced irs (n + r.bytes.length) edge' := by
  unfold tcpProcess at hr
  by_cases hrst : seg.rst = true
  · rw [if_pos hrst] at hr
    split_ifs at hr
    cases hr
    exact ⟨edge, Nat.le_refl _, h⟩
  rw [if_neg hrst] at hr
  by_cases hsyn : seg.syn = true
  · rw [if_pos hsyn] at hr
    cases hr
    exact ⟨edge, Nat.le_refl _, { h with owed := Or.inl rfl }⟩
  rw [if_neg hsyn] at hr
  rw [Bool.not_eq_true] at hrst hsyn
  obtain ⟨hof, hwithin⟩ := hseg hrst hsyn
  dsimp only at hr
  split_ifs at hr with hgot
  · cases hr
    cases hgot.symm.trans hfin
  · cases hr
    exact tcpReceive_announced h hof hsyn hwithin hfin

/-- **A window which opens far is announced at once, or an ACK is due.** -/
theorem tcpRecved_announced (h : pcb.Announced irs n edge) {len : Nat}
    (hlen : pcb.rcvWnd + len ≤ tcpWnd) :
    ∃ edge', edge ≤ edge' ∧ (tcpRecved sent len pcb).Announced irs n edge' ∧
      (tcpRecved sent len pcb).rcvWnd = pcb.rcvWnd + len := by
  have htw : tcpWnd = 2920 := rfl
  have hthr : tcpWndUpdateThreshold = 730 := rfl
  have hin := h.inWnd
  have hwrap : (pcb.rcvWnd + len) % 2 ^ 16 = pcb.rcvWnd + len := Nat.mod_eq_of_lt (by omega)
  have hcap : (if (pcb.rcvWnd + len) % 2 ^ 16 > tcpWnd then tcpWnd else (pcb.rcvWnd + len) % 2 ^ 16) =
      pcb.rcvWnd + len := by
    rw [hwrap, if_neg (Nat.not_lt.mpr hlen)]
  dsimp only [tcpRecved]
  rw [hcap]
  have hinWnd : edge ≤ n + (pcb.rcvWnd + len) := by omega
  have hnow := tcpUpdateRcvAnnWnd_ackNow (show TcpPcb.rcvNxt { pcb with
    rcvWnd := pcb.rcvWnd + len } = _ from h.nxt) h.right h.behind hinWnd hlen
  have hspec := tcpUpdateRcvAnnWnd_spec (show TcpPcb.rcvNxt { pcb with
    rcvWnd := pcb.rcvWnd + len } = _ from h.nxt) h.right h.behind hinWnd hlen
  obtain ⟨w, hw⟩ := tcpUpdateRcvAnnWnd_eq { pcb with rcvWnd := pcb.rcvWnd + len }
  have hsame : (tcpUpdateRcvAnnWnd { pcb with rcvWnd := pcb.rcvWnd + len }).1.rcvWnd =
      pcb.rcvWnd + len := by rw [hw]
  split_ifs with hfar
  · obtain ⟨edge', hle, hout⟩ := hnow.output sent
    exact ⟨edge', hle, hout, tcpOutput_rcvWnd.trans hsame⟩
  · refine ⟨edge, Nat.le_refl _, { hnow with owed := Or.inr ?_ }, hsame⟩
    rw [hsame]
    rcases hspec with ⟨-, -, hinfl⟩ | ⟨hnear, -, -⟩
    · dsimp only at hinfl
      omega
    · dsimp only at hnear
      omega

end Announced

end PlcFirmware.Lwip
