import PlcFirmware.Lwip.RecvPath

/-!
# What is read is what was sent

Whatever the network does with the segments, and however the thread and the reader interleave, the bytes read
are the beginning of the peer's stream, as long as the mailbox does not get full. `recv_tcp` never refuses
data: what comes to a full mailbox is acknowledged and thrown away, and a full mailbox stays full.

* `recvTcp_ok` — nothing is refused
* `RecvPath.InOrder` — what has been read and what is on the way make up the stream as far as it was taken
* `tcpInput_keeps` — a segment adds the next piece of the stream to what is on the way
* `go_unread`, `answer_unread` — the reader moves bytes along, and loses none
* `received_in_order` — the result over runs
* `full_mailbox_stays` — what becomes of a mailbox which gets full
-/

namespace PlcFirmware.Lwip

open Infra

/-! ## What is on the way -/

/-- The bytes in the mailbox. -/
def Netconn.bytes (conn : Netconn) : List UInt8 :=
  conn.recvmbox.flatMap fun m => m.elim [] Pbuf.payload

/-- The bytes which a call takes away from the path. -/
def Locals.own (v : Locals) : List UInt8 := if v.peek then [] else v.mem

/-- The bytes in the hands of the reader. -/
def Place.bytes : Place → List UInt8
  | .idle => []
  | .got v p => v.own ++ p.payload
  | .top v | .recvData v | .fetch v | .eof v | .closed v | .copy v | .recved v => v.own

/-- The reader fetches a buffer, because there is no rest of one. -/
def Place.Fetches : Place → Prop
  | .recvData _ | .fetch _ | .eof _ | .closed _ | .got _ _ => True
  | .idle | .top _ | .copy _ | .recved _ => False

namespace RecvPath

/-- The rest of the buffer in `lastdata`. -/
def rest (s : RecvPath) : List UInt8 := (s.lastdata.elim [] Pbuf.payload).drop s.lastoffset

/-- All that has been taken from the network and not been read. -/
def unread (s : RecvPath) : List UInt8 :=
  s.place.bytes ++ s.rest ++ s.conn.bytes

/-- What has been read and what is on the way make up the stream as far as it was taken. -/
structure InOrder (stream : List UInt8) (irs : BitVec 32) (s : RecvPath) : Prop where
  piece : s.read ++ s.unread <+: stream
  fed : ∀ pcb, s.pcb = some pcb → pcb.Fed stream irs (s.read ++ s.unread).length
  kept : ∀ pcb, s.pcb = some pcb → pcb.refusedData = none
  fetches : s.place.Fetches → s.lastdata = none
  offset : s.lastdata = none → s.lastoffset = 0

end RecvPath

/-! ## The stack -/

section Stack

variable {stream : List UInt8} {irs : BitVec 32} {n : Nat} {pcb pcb' : TcpPcb} {conn : Netconn}
  {seg : TcpSeg} {sent : Bool}

/-- Nothing is taken from the network. -/
structure TcpPcb.Alike (pcb pcb' : TcpPcb) : Prop where
  state : pcb'.state = pcb.state
  rcvNxt : pcb'.rcvNxt = pcb.rcvNxt
  refused : pcb'.refusedData = pcb.refusedData

theorem TcpPcb.Alike.refl : pcb.Alike pcb := ⟨rfl, rfl, rfl⟩

theorem TcpPcb.Alike.trans {pcb'' : TcpPcb} (h : pcb.Alike pcb') (h' : pcb'.Alike pcb'') :
    pcb.Alike pcb'' :=
  ⟨h'.state.trans h.state, h'.rcvNxt.trans h.rcvNxt, h'.refused.trans h.refused⟩

theorem tcpOutput_alike : pcb.Alike (tcpOutput sent pcb) :=
  ⟨tcpOutput_state, tcpOutput_rcvNxt, tcpOutput_refusedData⟩

theorem TcpPcb.Fed.alike (h : pcb.Fed stream irs n) (ha : pcb.Alike pcb') : pcb'.Fed stream irs n := by
  constructor
  · rw [ha.rcvNxt, ha.state]
    exact h.nxt
  · rw [ha.state]
    exact h.whole

theorem tcpProbe_alike : pcb.Alike (tcpProbe pcb) := ⟨rfl, rfl, rfl⟩

theorem tcpUpdate_alike (sent : Bool) (pcb : TcpPcb) (k : Int) :
    let r := tcpUpdateRcvAnnWnd pcb
    pcb.Alike (if r.2.toInt ≥ k then tcpOutput sent (tcpAckNow r.1) else r.1) := by
  obtain ⟨w, hw⟩ := tcpUpdateRcvAnnWnd_eq pcb
  dsimp only
  rw [hw]
  split_ifs
  · exact ⟨tcpOutput_state, tcpOutput_rcvNxt, tcpOutput_refusedData⟩
  · exact ⟨rfl, rfl, rfl⟩

theorem tcpRecved_alike (sent : Bool) (len : Nat) (pcb : TcpPcb) :
    pcb.Alike (tcpRecved sent len pcb) := by
  have halike := tcpUpdate_alike sent { pcb with
    rcvWnd := if (pcb.rcvWnd + len) % 2 ^ 16 > tcpWnd then tcpWnd else (pcb.rcvWnd + len) % 2 ^ 16 }
    tcpWndUpdateThreshold
  exact ⟨halike.state, halike.rcvNxt, halike.refused⟩

theorem doRecvLoop_alike (sent : Bool) (fuel remaining : Nat) (pcb : TcpPcb) :
    pcb.Alike (doRecvLoop sent fuel remaining pcb) := by
  induction fuel generalizing remaining pcb with
  | zero => exact .refl
  | succ fuel ih =>
    rw [doRecvLoop]
    generalize (if remaining > 0xffff then 0xffff else remaining) = recved
    have halike := tcpRecved_alike sent recved pcb
    by_cases hmore : remaining - recved ≠ 0
    · rw [if_pos hmore]
      exact halike.trans (ih (remaining - recved) (tcpRecved sent recved pcb))
    · rw [if_neg hmore]
      exact halike

theorem doRecv_alike (sent : Bool) (len : Nat) (pcb : TcpPcb) : pcb.Alike (doRecv sent len pcb) :=
  doRecvLoop_alike sent (len + 1) len pcb

@[simp] theorem setSafeErr_recvmbox (err : ErrT) :
    (conn.setSafeErr err).recvmbox = conn.recvmbox := by
  unfold Netconn.setSafeErr
  split_ifs <;> rfl

@[simp] theorem rcvplus_recvmbox : conn.rcvplus.recvmbox = conn.recvmbox := by
  unfold Netconn.rcvplus
  split_ifs <;> rfl

@[simp] theorem rcvminus_recvmbox : conn.rcvminus.recvmbox = conn.recvmbox := by
  unfold Netconn.rcvminus
  split_ifs <;> rfl

theorem sysMboxValid_iff {conn : Netconn} :
    conn.sysMboxValid = true ↔ conn.recvmbox.length < defaultTcpRecvmboxSize :=
  decide_eq_true_iff

/-- A message is posted, or the mailbox is full and thought to be deleted. -/
theorem recvTcp_cases (sent : Bool) (p : Option Pbuf) (pcb : TcpPcb) (conn : Netconn) :
    (conn.sysMboxValid = true ∧ recvTcp sent p pcb conn =
      (pcb, Netconn.rcvplus { conn.setSafeErr .ok with recvmbox := conn.recvmbox ++ [p] }, .ok)) ∨
    (conn.sysMboxValid = false ∧ ∃ pcb', pcb.Alike pcb' ∧ recvTcp sent p pcb conn = (pcb', conn, .ok)) := by
  cases hvalid : conn.sysMboxValid with
  | true =>
    refine Or.inl ⟨rfl, ?_⟩
    simp only [recvTcp, hvalid, if_true, setSafeErr_recvmbox, if_pos (sysMboxValid_iff.mp hvalid)]
  | false =>
    refine Or.inr ⟨rfl, ?_⟩
    simp only [recvTcp, hvalid, Bool.false_eq_true, if_false]
    cases p with
    | none => exact ⟨pcb, .refl, rfl⟩
    | some p => exact ⟨_, tcpRecved_alike sent p.payload.length pcb, rfl⟩

/-- **`recv_tcp` never refuses anything.** -/
theorem recvTcp_ok (sent : Bool) (p : Option Pbuf) (pcb : TcpPcb) (conn : Netconn) :
    (recvTcp sent p pcb conn).2.2 = .ok := by
  rcases recvTcp_cases sent p pcb conn with ⟨-, h⟩ | ⟨-, _, -, h⟩
  · rw [h]
  · rw [h]

/-- Into a mailbox which still has room a message has been posted. -/
theorem recvTcp_posts (p : Option Pbuf)
    (hroom : (recvTcp sent p pcb conn).2.1.sysMboxValid = true) :
    conn.sysMboxValid = true ∧ (recvTcp sent p pcb conn).1 = pcb ∧
      (recvTcp sent p pcb conn).2.1.recvmbox = conn.recvmbox ++ [p] := by
  rcases recvTcp_cases sent p pcb conn with ⟨hvalid, h⟩ | ⟨hfull, _, -, h⟩
  · rw [h]
    exact ⟨hvalid, rfl, rcvplus_recvmbox⟩
  · rw [h, hfull] at hroom
    cases hroom

theorem bytes_congr {conn conn' : Netconn} (h : conn'.recvmbox = conn.recvmbox) :
    conn'.bytes = conn.bytes := by
  rw [Netconn.bytes, Netconn.bytes, h]

theorem bytes_append {conn conn' : Netconn} {p : Option Pbuf}
    (h : conn'.recvmbox = conn.recvmbox ++ [p]) :
    conn'.bytes = conn.bytes ++ p.elim [] Pbuf.payload := by
  simp [Netconn.bytes, h]

theorem bytes_posted {conn conn' : Netconn} {recvData : Option Pbuf}
    (h : conn'.recvmbox = conn.recvmbox ++ recvData.elim [] fun p => [some p]) :
    conn'.bytes = conn.bytes ++ recvData.elim [] Pbuf.payload := by
  cases recvData <;> simp [Netconn.bytes, h]

theorem errTcp_bytes (err : ErrT) : (errTcp err conn).bytes = conn.bytes := by
  dsimp only [errTcp]
  split_ifs
  · refine (bytes_append (p := none) rfl).trans ?_
    rw [bytes_congr rcvplus_recvmbox]
    exact List.append_nil _
  · exact bytes_congr rcvplus_recvmbox

/-- There is never anything to present again. -/
theorem tcpAgain_none (hnone : pcb.refusedData = none) : tcpAgain sent pcb conn = (pcb, conn) := by
  rw [tcpAgain, hnone]

/-- The end of the stream has no bytes. -/
theorem tcpEventClosed_keeps (pcb : TcpPcb) (conn : Netconn) :
    (tcpEventClosed pcb conn).2.bytes = conn.bytes ∧ pcb.Alike (tcpEventClosed pcb conn).1 ∧
      ((tcpEventClosed pcb conn).2.sysMboxValid = true → conn.sysMboxValid = true) := by
  dsimp only [tcpEventClosed]
  generalize hwnd : (if pcb.rcvWnd ≠ tcpWnd then (pcb.rcvWnd + 1) % 2 ^ 16 else pcb.rcvWnd) = wnd
  have halike : pcb.Alike { pcb with rcvWnd := wnd } := ⟨rfl, rfl, rfl⟩
  rcases recvTcp_cases false none { pcb with rcvWnd := wnd } conn with ⟨hvalid, h⟩ | ⟨-, _, h', h⟩
  · rw [h]
    refine ⟨?_, halike, fun _ => hvalid⟩
    refine (bytes_append (p := none) ?_).trans (List.append_nil _)
    exact rcvplus_recvmbox
  · rw [h]
    exact ⟨rfl, halike.trans h', id⟩

/-- New data goes behind the rest. -/
theorem tcpEventRecv_keeps {recvData : Option Pbuf} (pcb : TcpPcb) (conn : Netconn)
    (hroom : (tcpEventRecv recvData pcb conn).2.sysMboxValid = true) :
    (tcpEventRecv recvData pcb conn).1 = pcb ∧
      (tcpEventRecv recvData pcb conn).2.recvmbox = conn.recvmbox ++ recvData.elim [] fun p => [some p] := by
  unfold tcpEventRecv at hroom ⊢
  cases recvData with
  | none => exact ⟨rfl, (List.append_nil _).symm⟩
  | some p =>
    have hok := recvTcp_ok false (some p) pcb conn
    have hposts := @recvTcp_posts pcb conn false (some p)
    dsimp only at hroom ⊢
    rcases hrecv : recvTcp false (some p) pcb conn with ⟨pcb', conn', err⟩
    rw [hrecv] at hok hposts hroom
    obtain rfl : err = .ok := hok
    exact (hposts hroom).2

theorem tcpGotFin_keeps (pcb : TcpPcb) (conn : Netconn) (hnone : pcb.refusedData = none) :
    (tcpGotFin pcb conn).2.bytes = conn.bytes ∧ pcb.Alike (tcpGotFin pcb conn).1 ∧
      ((tcpGotFin pcb conn).2.sysMboxValid = true → conn.sysMboxValid = true) := by
  rw [tcpGotFin, hnone]
  exact tcpEventClosed_keeps pcb conn

theorem tcpInput_none (hnone : pcb.refusedData = none) (hr : tcpProcess sent pcb seg = none) :
    tcpInput sent seg pcb conn = (none, errTcp .rst conn) := by
  dsimp only [tcpInput]
  rw [tcpAgain_none hnone]
  dsimp only
  rw [if_neg fun hdrop => hdrop.1 hnone, hr]

/-- What `tcp_input` does with what `tcp_process` has taken, if there is room for it. -/
theorem tcpInput_some {r : Received} (hnone : pcb.refusedData = none)
    (hr : tcpProcess sent pcb seg = some r)
    (hroom : (tcpInput sent seg pcb conn).2.sysMboxValid = true) :
    ∃ conn', conn'.recvmbox = conn.recvmbox ++ (r.recvData.elim [] fun p => [some p]) ∧
      tcpInput sent seg pcb conn =
        if r.gotFin then (some (tcpOutput sent (tcpGotFin r.pcb conn').1), (tcpGotFin r.pcb conn').2)
        else (some (tcpOutput sent r.pcb), conn') := by
  dsimp only [tcpInput] at hroom ⊢
  rw [tcpAgain_none hnone] at hroom ⊢
  dsimp only at hroom ⊢
  rw [if_neg fun hdrop => hdrop.1 hnone, hr] at hroom ⊢
  have hrecv := @tcpEventRecv_keeps r.recvData r.pcb conn
  dsimp only at hroom ⊢
  rcases hpair : tcpEventRecv r.recvData r.pcb conn with ⟨pcb₂, conn₂⟩
  rw [hpair] at hroom hrecv
  dsimp only at hroom hrecv ⊢
  cases hfin : r.gotFin with
  | false =>
    rw [hfin] at hroom
    obtain ⟨rfl, hbox⟩ := hrecv hroom
    exact ⟨conn₂, hbox, rfl⟩
  | true =>
    rw [hfin] at hroom
    have hvalid : conn₂.sysMboxValid = true := by
      cases hp : pcb₂.refusedData with
      | none => exact (tcpGotFin_keeps pcb₂ conn₂ hp).2.2 hroom
      | some p =>
        rw [if_pos rfl, tcpGotFin, hp] at hroom
        exact hroom
    obtain ⟨rfl, hbox⟩ := hrecv hvalid
    exact ⟨conn₂, hbox, rfl⟩

/--
**A segment adds the next piece of the stream to what is on the way**, if there is room in the mailbox. A
reset loses nothing.
-/
theorem tcpInput_keeps (sent : Bool) (conn : Netconn) (h : pcb.Fed stream irs n)
    (hnone : pcb.refusedData = none)
    (hseg : seg.rst = false → seg.syn = false → seg.Of stream irs n)
    (hroom : (tcpInput sent seg pcb conn).2.sysMboxValid = true) :
    match tcpInput sent seg pcb conn with
    | (some pcb', conn') => ∃ d, conn'.bytes = conn.bytes ++ d ∧ d <+: stream.drop n ∧
        pcb'.Fed stream irs (n + d.length) ∧ pcb'.refusedData = none
    | (none, conn') => conn'.bytes = conn.bytes := by
  cases hr : tcpProcess sent pcb seg with
  | none =>
    rw [tcpInput_none hnone hr]
    exact errTcp_bytes .rst
  | some r =>
    obtain ⟨hfed, hpiece, href, -, -, -⟩ := tcpProcess_fed h hseg hr
    have hnone' : r.pcb.refusedData = none := href.trans hnone
    obtain ⟨conn₂, hbox, hinput⟩ := tcpInput_some hnone hr hroom
    have hbytes : conn₂.bytes = conn.bytes ++ r.bytes := bytes_posted hbox
    rw [hinput]
    cases r.gotFin with
    | false =>
      exact ⟨r.bytes, hbytes, hpiece, hfed.alike tcpOutput_alike, tcpOutput_refusedData.trans hnone'⟩
    | true =>
      obtain ⟨hsame, halike, -⟩ := tcpGotFin_keeps r.pcb conn₂ hnone'
      have halike' : r.pcb.Alike (tcpOutput sent (tcpGotFin r.pcb conn₂).1) :=
        halike.trans tcpOutput_alike
      exact ⟨r.bytes, hsame.trans hbytes, hpiece, hfed.alike halike', halike'.refused.trans hnone'⟩

theorem tcpFasttmr_keeps (sent : Bool) (conn : Netconn) (hnone : pcb.refusedData = none) :
    (tcpFasttmr sent pcb conn).2 = conn ∧ pcb.Alike (tcpFasttmr sent pcb conn).1 := by
  dsimp only [tcpFasttmr]
  split_ifs
  · have halike : pcb.Alike
        { tcpOutput sent (tcpAckNow pcb) with ackDelay := false, ackNow := false } :=
      ⟨tcpOutput_state, tcpOutput_rcvNxt, tcpOutput_refusedData⟩
    rw [tcpAgain_none (halike.refused.trans hnone)]
    exact ⟨rfl, halike⟩
  · rw [tcpAgain_none hnone]
    exact ⟨rfl, .refl⟩

end Stack

/-! ## The reader -/

section Reader

variable {stream : List UInt8} {irs : BitVec 32} {s s' : RecvPath} {v : Locals}

/-- A step which takes nothing from the network, and loses nothing. -/
structure Moves (s s' : RecvPath) : Prop where
  pcb : ∀ pcb', s'.pcb = some pcb' → ∃ pcb, s.pcb = some pcb ∧ pcb.Alike pcb'
  total : s'.read ++ s'.unread = s.read ++ s.unread
  fetches : s'.place.Fetches → s'.lastdata = none
  offset : s'.lastdata = none → s'.lastoffset = 0

theorem RecvPath.InOrder.moves (h : s.InOrder stream irs) (hm : Moves s s') :
    s'.InOrder stream irs := by
  constructor
  · rw [hm.total]
    exact h.piece
  · intro pcb' hpcb'
    obtain ⟨pcb, hpcb, halike⟩ := hm.pcb pcb' hpcb'
    rw [hm.total]
    exact (h.fed pcb hpcb).alike halike
  · intro pcb' hpcb'
    obtain ⟨pcb, hpcb, halike⟩ := hm.pcb pcb' hpcb'
    exact halike.refused.trans (h.kept pcb hpcb)
  · exact hm.fetches
  · exact hm.offset

theorem alike_self (pcb' : TcpPcb) (hpcb : s'.pcb = s.pcb) (h : s'.pcb = some pcb') :
    ∃ pcb, s.pcb = some pcb ∧ pcb.Alike pcb' :=
  ⟨pcb', hpcb.symm.trans h, .refl⟩

theorem RecvPath.InOrder.moves_refl (h : s.InOrder stream irs) : Moves s s :=
  ⟨fun pcb' hpcb' => alike_self pcb' rfl hpcb', rfl, h.fetches, h.offset⟩

theorem own_of_mem_nil (h : v.mem = []) : v.own = [] := by
  unfold Locals.own
  split_ifs
  · rfl
  · exact h

/-- What a failed call has copied is still in its hands. -/
theorem fail_moves (err : ErrT) (hpcb : s'.pcb = s.pcb) (hread : s'.read = s.read)
    (hplace : s.place.bytes = v.own) (hrest : s'.rest = s.rest) (hconn : s'.conn.bytes = s.conn.bytes)
    (hoffset : s'.lastdata = none → s'.lastoffset = 0) : Moves s (RecvPath.fail v err s').1 := by
  have htotal : s.unread = v.own ++ s'.rest ++ s'.conn.bytes := by
    rw [RecvPath.unread, hplace, hrest, hconn]
  unfold RecvPath.fail
  by_cases hmem : v.mem ≠ []
  · rw [if_pos hmem]
    refine ⟨fun pcb' => alike_self pcb' hpcb, ?_, fun h => h.elim, hoffset⟩
    rw [htotal]
    exact congrArg (· ++ _) hread
  · rw [if_neg hmem]
    rw [not_not] at hmem
    refine ⟨fun pcb' => alike_self pcb' hpcb, ?_, fun h => h.elim, hoffset⟩
    rw [htotal, own_of_mem_nil hmem]
    exact congrArg (· ++ _) hread

/-- What is kept is the rest without what has been copied. -/
theorem leave_keeps {p : Pbuf} {buflen copylen : Nat} (hdata : s.lastdata = some p)
    (hbuf : buflen = p.payload.length - s.lastoffset) :
    (s.leave false buflen copylen).rest = s.rest.drop copylen ∧
      (s.leave false buflen copylen).conn = s.conn ∧ (s.leave false buflen copylen).pcb = s.pcb ∧
      (s.leave false buflen copylen).read = s.read ∧
      ((s.leave false buflen copylen).lastdata = none →
        (s.leave false buflen copylen).lastoffset = 0) := by
  have hrest : s.rest = p.payload.drop s.lastoffset := by rw [RecvPath.rest, hdata]; rfl
  rw [RecvPath.leave, if_neg Bool.false_ne_true]
  split_ifs with hmore
  · refine ⟨?_, rfl, rfl, rfl, fun hnone => ?_⟩
    · rw [hrest, List.drop_drop, RecvPath.rest]
      dsimp only
      rw [hdata]
      rfl
    · cases hdata.symm.trans hnone
  · refine ⟨?_, rfl, rfl, rfl, fun _ => rfl⟩
    have hall : (p.payload.drop s.lastoffset).length ≤ copylen := by
      rw [List.length_drop]
      omega
    rw [hrest, List.drop_eq_nil_of_le hall]
    rfl

/-- What is copied is the front of the rest of the buffer; a peek leaves it there. -/
theorem copyOut_moves {p : Pbuf} (h : s.InOrder stream irs) (hplace : s.place = .copy v)
    (hdata : s.lastdata = some p) : Moves s (s.copyOut v p).1 := by
  dsimp only [RecvPath.copyOut]
  have hle : (if v.len > p.payload.length - s.lastoffset then p.payload.length - s.lastoffset
      else v.len) ≤ p.payload.length - s.lastoffset := by
    split_ifs <;> omega
  generalize (if v.len > p.payload.length - s.lastoffset then p.payload.length - s.lastoffset
    else v.len) = copylen at hle ⊢
  have hrest : s.rest = p.payload.drop s.lastoffset := by rw [RecvPath.rest, hdata]; rfl
  rw [← hrest]
  -- wherever the reader goes with what it has copied, nothing is lost
  have hmoves : ∀ place : Place, ¬place.Fetches →
      place.bytes = Locals.own { v with len := v.len - copylen, mem := v.mem ++ s.rest.take copylen } →
      Moves s { s.leave v.peek (p.payload.length - s.lastoffset) copylen with place := place } := by
    intro place hfetch hbytes
    cases hpeek : v.peek with
    | true =>
      have hown : place.bytes = s.place.bytes := by
        rw [hbytes, hplace, Place.bytes, Locals.own, Locals.own, hpeek]
        rfl
      refine ⟨fun pcb' => alike_self pcb' rfl, ?_, fun hf => absurd hf hfetch, h.offset⟩
      exact congrArg (fun b => s.read ++ (b ++ s.rest ++ s.conn.bytes)) hown
    | false =>
      obtain ⟨hleft, hconn, hpcb, hread, hoffset⟩ := leave_keeps hdata rfl
      refine ⟨fun pcb' => alike_self pcb' hpcb, ?_, fun hf => absurd hf hfetch, hoffset⟩
      have hown : place.bytes ++ s.rest.drop copylen = s.place.bytes ++ s.rest := by
        rw [hbytes, hplace, Place.bytes, Locals.own, Locals.own, hpeek]
        exact (List.append_assoc ..).trans (congrArg _ (List.take_append_drop copylen s.rest))
      refine congrArg₂ _ hread ?_
      rw [RecvPath.unread, RecvPath.unread, ← hown, ← hleft, ← hconn]
      rfl
  split_ifs with hdone hmem
  · exact hmoves (.recved _) id rfl
  · refine hmoves .idle id (own_of_mem_nil ?_).symm
    exact not_not.mp hmem
  · exact hmoves (.top _) id rfl

/-- The bytes of the mailbox, if it is not empty. -/
theorem bytes_cons {conn : Netconn} {m : Option Pbuf} {rest : List (Option Pbuf)}
    (h : conn.recvmbox = m :: rest) :
    conn.bytes = m.elim [] Pbuf.payload ++ Netconn.bytes { conn with recvmbox := rest } := by
  rw [Netconn.bytes, h]
  rfl

/-- A reader without a rest of a buffer has nothing between its hands and the mailbox. -/
theorem rest_of_none (h : s.lastdata = none) : s.rest = [] := by
  rw [RecvPath.rest, h]
  exact List.drop_nil

/-- **The reader moves bytes along, and loses none.** -/
theorem go_moves (h : s.InOrder stream irs) : Moves s s.go.1 := by
  have hfetches := h.fetches
  unfold RecvPath.go
  cases hplace : s.place with
  | idle => exact h.moves_refl
  | eof v => exact h.moves_refl
  | recved v => exact h.moves_refl
  | top v =>
    have hbytes : s.place.bytes = v.own := by rw [hplace]; rfl
    dsimp only
    by_cases hdata : s.lastdata ≠ none
    · rw [if_pos hdata]
      refine ⟨fun pcb' => alike_self pcb' rfl, ?_, fun hf => hf.elim, h.offset⟩
      exact congrArg (fun b => s.read ++ (b ++ s.rest ++ s.conn.bytes)) hbytes.symm
    · rw [if_neg hdata]
      rw [not_not] at hdata
      split_ifs
      · exact fail_moves .wouldblock rfl rfl hbytes rfl rfl h.offset
      · refine ⟨fun pcb' => alike_self pcb' rfl, ?_, fun _ => hdata, h.offset⟩
        exact congrArg (fun b => s.read ++ (b ++ s.rest ++ s.conn.bytes)) hbytes.symm
  | recvData v =>
    have hbytes : s.place.bytes = v.own := by rw [hplace]; rfl
    rw [hplace] at hfetches
    dsimp only
    split_ifs
    · exact fail_moves _ rfl rfl hbytes rfl rfl h.offset
    · exact fail_moves _ rfl rfl hbytes rfl rfl h.offset
    · refine ⟨fun pcb' => alike_self pcb' rfl, ?_, fun _ => hfetches trivial, h.offset⟩
      exact congrArg (fun b => s.read ++ (b ++ s.rest ++ s.conn.bytes)) hbytes.symm
  | fetch v =>
    have hbytes : s.place.bytes = v.own := by rw [hplace]; rfl
    rw [hplace] at hfetches
    have hrest := rest_of_none (hfetches trivial)
    dsimp only
    rcases hbox : s.conn.recvmbox with _ | ⟨_ | p, rest⟩
    · exact h.moves_refl
    · refine ⟨fun pcb' => alike_self pcb' rfl, ?_, fun _ => hfetches trivial, h.offset⟩
      have hold : s.unread = v.own ++ s.rest ++ Netconn.bytes { s.conn with recvmbox := rest } := by
        rw [RecvPath.unread, hbytes, bytes_cons hbox]
        rfl
      rw [hold]
      rfl
    · -- the buffer goes from the mailbox into the hands of the reader
      refine ⟨fun pcb' => alike_self pcb' rfl, ?_, fun _ => hfetches trivial, h.offset⟩
      rw [RecvPath.unread, RecvPath.unread, hbytes, hrest, bytes_cons hbox, rest_of_none]
      · simp [Place.bytes]
      · exact hfetches trivial
  | closed v =>
    have hbytes : s.place.bytes = v.own := by rw [hplace]; rfl
    refine fail_moves .clsd rfl rfl hbytes rfl ?_ h.offset
    exact bytes_congr ((setSafeErr_recvmbox _).trans rcvminus_recvmbox)
  | got v p =>
    rw [hplace] at hfetches
    have hnone := hfetches trivial
    refine ⟨fun pcb' => alike_self pcb' rfl, ?_, fun hf => hf.elim, ?_⟩
    · rw [RecvPath.unread, RecvPath.unread, hplace, rest_of_none hnone, Place.bytes, Place.bytes,
        bytes_congr rcvminus_recvmbox, RecvPath.rest, h.offset hnone]
      simp
    · intro hsome
      cases hsome
  | copy v =>
    dsimp only
    cases hdata : s.lastdata with
    | none => exact h.moves_refl
    | some p => exact copyOut_moves h hplace hdata

theorem alike_map {f : TcpPcb → TcpPcb} (hf : ∀ pcb : TcpPcb, pcb.Alike (f pcb)) {pcb' : TcpPcb}
    (h : s.pcb.map f = some pcb') : ∃ pcb, s.pcb = some pcb ∧ pcb.Alike pcb' := by
  obtain ⟨pcb, hpcb, rfl⟩ := Option.map_eq_some_iff.mp h
  exact ⟨pcb, hpcb, hf pcb⟩

/-- What a call returns has been read, unless it peeked. -/
theorem answer_moves (sent : Bool) (h : s.InOrder stream irs) : Moves s (s.answer sent).1 := by
  unfold RecvPath.answer
  cases hplace : s.place with
  | eof v =>
    have hfetches := h.fetches
    rw [hplace] at hfetches
    refine ⟨fun pcb' => alike_map fun pcb => doRecv_alike sent 1 pcb, ?_,
      fun _ => hfetches trivial, h.offset⟩
    rw [RecvPath.unread, RecvPath.unread, hplace]
    rfl
  | recved v =>
    refine ⟨fun pcb' => alike_map fun pcb => doRecv_alike sent _ pcb, ?_, fun hf => hf.elim, h.offset⟩
    rw [RecvPath.unread, RecvPath.unread, hplace, Place.bytes, Place.bytes, Locals.own]
    dsimp only
    split_ifs
    · rfl
    · simp [RecvPath.rest]
  | idle => exact h.moves_refl
  | top v => exact h.moves_refl
  | recvData v => exact h.moves_refl
  | fetch v => exact h.moves_refl
  | closed v => exact h.moves_refl
  | got v p => exact h.moves_refl
  | copy v => exact h.moves_refl

end Reader

/-! ## Runs -/

/-- A piece goes behind what is before it. -/
theorem append_prefix_of_drop {l d stream : List UInt8} (h : l <+: stream)
    (hd : d <+: stream.drop l.length) : l ++ d <+: stream := by
  obtain ⟨t, rfl⟩ := h
  rw [List.drop_left] at hd
  exact (List.prefix_append_right_inj l).mpr hd

section Runs

variable {stream : List UInt8} {irs : BitVec 32} {s : RecvPath} {i : RecvInput}

/--
The segments which come are pieces of the stream, and leave room in the mailbox; resets and SYNs may come
from anywhere.
-/
def RecvPath.Carries (stream : List UInt8) (irs : BitVec 32) (s : RecvPath) : RecvInput → Prop
  | .segment seg sent =>
    (seg.rst = false → seg.syn = false → seg.Of stream irs (s.read ++ s.unread).length) ∧
      (s.step (.segment seg sent)).1.conn.sysMboxValid = true
  | _ => True

instance (stream : List UInt8) (irs : BitVec 32) (n : Nat) (seg : TcpSeg) :
    Decidable (seg.Of stream irs n) :=
  decidable_of_iff (∃ a ∈ List.range (stream.length + 1), seg.seqno = serial irs a ∧
      seg.payload <+: stream.drop a ∧ (seg.fin = true → a + seg.payload.length = stream.length) ∧
      seg.payload.length < 0x7fff ∧ a < n + 2 ^ 30 ∧ n < a + 2 ^ 30)
    (exists_congr fun _ => and_congr_left' (List.mem_range.trans Nat.lt_succ_iff))

instance (stream : List UInt8) (irs : BitVec 32) (s : RecvPath) (i : RecvInput) :
    Decidable (s.Carries stream irs i) :=
  match i with
  | .segment seg sent =>
    inferInstanceAs (Decidable ((seg.rst = false → seg.syn = false →
      seg.Of stream irs (s.read ++ s.unread).length) ∧
        (s.step (.segment seg sent)).1.conn.sysMboxValid = true))
  | .fasttmr _ | .output | .probe | .abort | .accept _ | .call .. | .go | .answer _ | .timeout =>
    inferInstanceAs (Decidable True)

/-- The bytes which a call gives to the reader for good. -/
def RecvOut.taken : RecvOut → List UInt8
  | .returned false data => data
  | _ => []

theorem total_of_bytes (pcb' : Option TcpPcb) {conn' : Netconn} {d : List UInt8}
    (hbytes : conn'.bytes = s.conn.bytes ++ d) :
    s.read ++ RecvPath.unread { s with pcb := pcb', conn := conn' } = s.read ++ s.unread ++ d := by
  rw [RecvPath.unread, RecvPath.unread, hbytes]
  simp [RecvPath.rest]

theorem segment_inOrder {seg : TcpSeg} {sent : Bool} (h : s.InOrder stream irs)
    (hi : s.Carries stream irs (.segment seg sent)) :
    (s.step (.segment seg sent)).1.InOrder stream irs := by
  obtain ⟨hseg, hroom⟩ := hi
  dsimp only [RecvPath.step] at hroom ⊢
  cases hpcb : s.pcb with
  | none => exact h
  | some pcb =>
    rw [hpcb] at hroom
    have hkeeps := tcpInput_keeps sent s.conn (h.fed pcb hpcb) (h.kept pcb hpcb) hseg hroom
    have hpiece := h.piece
    dsimp only
    rcases hpair : tcpInput sent seg pcb s.conn with ⟨_ | pcb', conn'⟩
    all_goals rw [hpair] at hkeeps
    · have htotal := total_of_bytes none (hkeeps.trans (List.append_nil _).symm)
      rw [List.append_nil] at htotal
      refine ⟨?_, fun pcb' h' => (by cases h'), fun pcb' h' => (by cases h'), h.fetches, h.offset⟩
      exact htotal.symm ▸ hpiece
    · obtain ⟨d, hbytes, hd, hfed, hnone⟩ := hkeeps
      have htotal := total_of_bytes (some pcb') hbytes
      refine ⟨?_, ?_, ?_, h.fetches, h.offset⟩
      · refine htotal.symm ▸ ?_
        exact append_prefix_of_drop hpiece hd
      · intro pcb'' h'
        cases h'
        refine htotal.symm ▸ ?_
        rw [List.length_append]
        exact hfed
      · intro pcb'' h'
        cases h'
        exact hnone

theorem abort_moves (h : s.InOrder stream irs) : Moves s (s.step .abort).1 := by
  dsimp only [RecvPath.step]
  cases hpcb : s.pcb with
  | none => exact h.moves_refl
  | some pcb =>
    refine ⟨fun pcb' h' => (by cases h'), ?_, h.fetches, h.offset⟩
    rw [RecvPath.unread, RecvPath.unread, errTcp_bytes]
    rfl

theorem fasttmr_moves (h : s.InOrder stream irs) (sent : Bool) :
    Moves s (s.step (.fasttmr sent)).1 := by
  dsimp only [RecvPath.step]
  cases hpcb : s.pcb with
  | none => exact h.moves_refl
  | some pcb =>
    obtain ⟨hconn, halike⟩ := tcpFasttmr_keeps sent s.conn (h.kept pcb hpcb)
    refine ⟨fun pcb' h' => ⟨pcb, hpcb, ?_⟩, ?_, h.fetches, h.offset⟩
    · cases h'
      exact halike
    · rw [RecvPath.unread, RecvPath.unread]
      dsimp only
      rw [hconn]
      rfl

theorem output_moves (h : s.InOrder stream irs) : Moves s (s.step .output).1 :=
  ⟨fun _ => alike_map fun _ => tcpOutput_alike, rfl, h.fetches, h.offset⟩

theorem probe_moves (h : s.InOrder stream irs) : Moves s (s.step .probe).1 :=
  ⟨fun _ => alike_map fun _ => tcpProbe_alike, rfl, h.fetches, h.offset⟩

theorem accept_moves (h : s.InOrder stream irs) (socket : Nat) :
    Moves s (s.step (.accept socket)).1 := by
  dsimp only [RecvPath.step]
  split_ifs
  · exact ⟨fun pcb' => alike_self pcb' rfl, rfl, h.fetches, h.offset⟩
  · exact h.moves_refl

theorem call_moves (h : s.InOrder stream irs) (dontwait peek : Bool) (len : Nat) :
    Moves s (s.step (.call dontwait peek len)).1 := by
  dsimp only [RecvPath.step]
  cases hplace : s.place with
  | idle =>
    dsimp only
    split_ifs
    · exact h.moves_refl
    · refine ⟨fun pcb' => alike_self pcb' rfl, ?_, fun hf => hf.elim, h.offset⟩
      have hown : Locals.own ⟨dontwait, peek, len, []⟩ = [] := own_of_mem_nil rfl
      refine congrArg (s.read ++ ·) ?_
      rw [RecvPath.unread, RecvPath.unread, hplace, Place.bytes, Place.bytes, hown]
      rfl
  | _ => exact h.moves_refl

theorem timeout_moves (h : s.InOrder stream irs) : Moves s (s.step .timeout).1 := by
  dsimp only [RecvPath.step]
  cases hplace : s.place with
  | fetch v =>
    dsimp only
    split_ifs
    · refine fail_moves .timeout rfl rfl (by rw [hplace]; rfl) rfl ?_ h.offset
      exact bytes_congr (setSafeErr_recvmbox _)
    · exact h.moves_refl
  | _ => exact h.moves_refl

theorem RecvPath.InOrder.step (h : s.InOrder stream irs) (hi : s.Carries stream irs i) :
    (s.step i).1.InOrder stream irs := by
  cases i with
  | segment seg sent => exact segment_inOrder h hi
  | fasttmr sent => exact h.moves (fasttmr_moves h sent)
  | output => exact h.moves (output_moves h)
  | probe => exact h.moves (probe_moves h)
  | abort => exact h.moves (abort_moves h)
  | accept socket => exact h.moves (accept_moves h socket)
  | call dontwait peek len => exact h.moves (call_moves h dontwait peek len)
  | go => exact h.moves (go_moves h)
  | answer sent => exact h.moves (answer_moves sent h)
  | timeout => exact h.moves (timeout_moves h)

theorem RecvPath.InOrder.start (stream : List UInt8) (irs : BitVec 32) (mss recvTimeout : Nat)
    (socket : Int) : (RecvPath.start irs mss recvTimeout socket).InOrder stream irs := by
  refine ⟨List.nil_prefix, fun pcb hpcb => ?_, fun pcb hpcb => ?_, fun _ => rfl, fun _ => rfl⟩
  · cases hpcb
    exact ⟨serial_zero.symm, fun h => by cases h⟩
  · cases hpcb
    rfl

theorem RecvPath.InOrder.run {is : List RecvInput} (h : s.InOrder stream irs)
    (hG : ∀ t ∈ recvPath.transitions s is, t.1.Carries stream irs t.2) :
    (recvPath.run s is).InOrder stream irs :=
  (recvPath.run_invariant (fun _ _ hs hi => RecvPath.InOrder.step hs hi) h hG).2

/-- Nothing is given to the reader for good. -/
def GivesNothing (s : RecvPath) (r : RecvPath × List RecvOut) : Prop :=
  r.1.read = s.read ∧ r.2.flatMap RecvOut.taken = []

theorem fail_gives {s' : RecvPath} {v : Locals} (err : ErrT) (h : s'.read = s.read) :
    GivesNothing s (RecvPath.fail v err s') := by
  unfold RecvPath.fail
  split_ifs
  · exact ⟨h, rfl⟩
  · exact ⟨h, rfl⟩
  · exact ⟨h, rfl⟩

theorem leave_read (peek : Bool) (buflen copylen : Nat) :
    (s.leave peek buflen copylen).read = s.read := by
  unfold RecvPath.leave
  split_ifs <;> rfl

theorem copyOut_gives (v : Locals) (p : Pbuf) : GivesNothing s (s.copyOut v p) := by
  dsimp only [RecvPath.copyOut]
  have hleave := leave_read (s := s) v.peek
  split_ifs
  all_goals first
    | exact ⟨hleave _ _, rfl⟩
    | exact ⟨hleave _ _, by cases v.peek <;> rfl⟩

theorem go_gives : GivesNothing s s.go := by
  unfold RecvPath.go
  cases s.place with
  | top v =>
    dsimp only
    split_ifs
    · exact ⟨rfl, rfl⟩
    · exact fail_gives _ rfl
    · exact ⟨rfl, rfl⟩
  | recvData v =>
    dsimp only
    split_ifs
    · exact fail_gives _ rfl
    · exact fail_gives _ rfl
    · exact ⟨rfl, rfl⟩
  | fetch v =>
    dsimp only
    rcases s.conn.recvmbox with _ | ⟨_ | p, rest⟩
    · exact ⟨rfl, rfl⟩
    · exact ⟨rfl, rfl⟩
    · exact ⟨rfl, rfl⟩
  | closed v => exact fail_gives _ rfl
  | copy v =>
    dsimp only
    cases s.lastdata with
    | none => exact ⟨rfl, rfl⟩
    | some p => exact copyOut_gives v p
  | _ => exact ⟨rfl, rfl⟩

theorem call_gives (dontwait peek : Bool) (len : Nat) :
    GivesNothing s (s.step (.call dontwait peek len)) := by
  dsimp only [RecvPath.step]
  cases s.place with
  | idle =>
    dsimp only
    split_ifs
    · exact ⟨rfl, rfl⟩
    · exact ⟨rfl, rfl⟩
  | _ => exact ⟨rfl, rfl⟩

theorem accept_gives (socket : Nat) : GivesNothing s (s.step (.accept socket)) := by
  dsimp only [RecvPath.step]
  split_ifs
  · exact ⟨rfl, rfl⟩
  · exact ⟨rfl, rfl⟩

theorem timeout_gives : GivesNothing s (s.step .timeout) := by
  dsimp only [RecvPath.step]
  cases s.place with
  | fetch v =>
    dsimp only
    split_ifs
    · exact fail_gives _ rfl
    · exact ⟨rfl, rfl⟩
  | _ => exact ⟨rfl, rfl⟩

/-- What a step returns is added to what has been read. -/
theorem step_read (s : RecvPath) (i : RecvInput) :
    (s.step i).1.read = s.read ++ (s.step i).2.flatMap RecvOut.taken := by
  have hsame : ∀ r : RecvPath × List RecvOut, GivesNothing s r →
      r.1.read = s.read ++ r.2.flatMap RecvOut.taken := by
    intro r hr
    rw [hr.1, hr.2, List.append_nil]
  cases i with
  | go => exact hsame _ go_gives
  | answer sent =>
    dsimp only [RecvPath.step, RecvPath.answer]
    cases s.place with
    | recved v =>
      rcases v with ⟨dontwait, peek, len, mem⟩
      cases peek <;> simp [RecvOut.taken]
    | _ => exact hsame _ ⟨rfl, rfl⟩
  | timeout => exact hsame _ timeout_gives
  | call dontwait peek len => exact hsame _ (call_gives dontwait peek len)
  | accept socket => exact hsame _ (accept_gives socket)
  | output => exact hsame _ ⟨rfl, rfl⟩
  | probe => exact hsame _ ⟨rfl, rfl⟩
  | segment seg sent =>
    dsimp only [RecvPath.step]
    cases s.pcb with
    | none => exact hsame _ ⟨rfl, rfl⟩
    | some pcb => exact hsame _ ⟨rfl, rfl⟩
  | fasttmr sent =>
    dsimp only [RecvPath.step]
    cases s.pcb with
    | none => exact hsame _ ⟨rfl, rfl⟩
    | some pcb => exact hsame _ ⟨rfl, rfl⟩
  | abort =>
    dsimp only [RecvPath.step]
    cases s.pcb with
    | none => exact hsame _ ⟨rfl, rfl⟩
    | some pcb => exact hsame _ ⟨rfl, rfl⟩

theorem run_read (is : List RecvInput) (s : RecvPath) :
    (recvPath.run s is).read = s.read ++ (recvPath.trace s is).flatMap RecvOut.taken := by
  induction is generalizing s with
  | nil => exact (List.append_nil _).symm
  | cons i is ih =>
    rw [recvPath.run_cons, recvPath.trace_cons, ih, List.flatMap_append, ← List.append_assoc]
    exact congrArg (· ++ _) (step_read s i)

/--
**What is read is what was sent.** The pieces of the stream come in any order, late, overlapping, more than
once or not at all; the thread and the reader interleave in any way, and the mailbox does not get full. What
the calls return, one behind the other, is the beginning of the stream, and while the connection is there
nothing that was acknowledged is lost: it has been read or can still be read.
-/
theorem received_in_order (stream : List UInt8) (irs : BitVec 32) (mss recvTimeout : Nat)
    (socket : Int) (is : List RecvInput)
    (hG : ∀ t ∈ recvPath.transitions (.start irs mss recvTimeout socket) is,
      t.1.Carries stream irs t.2) :
    let s := recvPath.run (.start irs mss recvTimeout socket) is
    let returned := (recvPath.trace (.start irs mss recvTimeout socket) is).flatMap RecvOut.taken
    returned ++ s.unread <+: stream ∧
      ∀ pcb, s.pcb = some pcb →
        pcb.rcvNxt = serial irs ((returned ++ s.unread).length +
          if pcb.state = .closeWait then 1 else 0 : Nat) ∧
        (pcb.state = .closeWait → returned ++ s.unread = stream) := by
  intro s returned
  have h : s.InOrder stream irs := (RecvPath.InOrder.start stream irs mss recvTimeout socket).run hG
  have hread : s.read = returned := (run_read is _).trans (List.nil_append _)
  rw [← hread]
  refine ⟨h.piece, fun pcb hpcb => ⟨(h.fed pcb hpcb).nxt, fun hclose => ?_⟩⟩
  exact h.piece.eq_of_length ((h.fed pcb hpcb).whole hclose)

/-- The numbers wrap. The third and fourth byte come too early, and the next segment overlaps what is there. -/
def recvRun : List RecvInput :=
  [.segment ⟨0, [30, 40], false, false, false, true⟩ true, .call false false 4, .go, .go,
    .segment ⟨0xfffffffe, [10, 20, 30], false, false, false, false⟩ true, .go, .go,
    .segment ⟨0xffffffff, [20, 30, 40, 50], true, false, false, true⟩ true,
    .go, .go, .go, .go, .go, .go, .answer true]

theorem received_in_order_recvRun :
    let start := RecvPath.start 0xfffffffe 536 0 3
    (recvPath.trace start recvRun).flatMap RecvOut.taken = [10, 20, 30, 40] ∧
      [10, 20, 30, 40] ++ (recvPath.run start recvRun).unread <+: [10, 20, 30, 40, 50] := by
  have htrace : (recvPath.trace (.start 0xfffffffe 536 0 3) recvRun).flatMap RecvOut.taken =
      [10, 20, 30, 40] := by decide
  have h := (received_in_order [10, 20, 30, 40, 50] 0xfffffffe 536 0 3 recvRun (by decide)).1
  rw [htrace] at h
  exact ⟨htrace, h⟩

end Runs

/-! ## A full mailbox -/

section Full

variable {pcb : TcpPcb} {conn : Netconn} {sent : Bool} {s : RecvPath}

theorem recvTcp_full (hfull : conn.sysMboxValid = false) (p : Option Pbuf) :
    (recvTcp sent p pcb conn).2.1 = conn := by
  rcases recvTcp_cases sent p pcb conn with ⟨hvalid, -⟩ | ⟨-, _, -, h⟩
  · rw [hfull] at hvalid
    cases hvalid
  · rw [h]

theorem tcpEventClosed_full (hfull : conn.sysMboxValid = false) : (tcpEventClosed pcb conn).2 = conn :=
  @recvTcp_full _ conn false hfull none

theorem tcpAgain_full (hfull : conn.sysMboxValid = false) : (tcpAgain sent pcb conn).2 = conn := by
  unfold tcpAgain
  cases pcb.refusedData with
  | none => rfl
  | some refused =>
    have hconn := @recvTcp_full { pcb with refusedData := none } conn sent hfull (some refused)
    dsimp only [tcpProcessRefusedData]
    rcases hrecv : recvTcp sent (some refused) { pcb with refusedData := none } conn with ⟨_, conn', err⟩
    rw [hrecv] at hconn
    obtain rfl : conn' = conn := hconn
    cases err with
    | ok =>
      dsimp only
      split_ifs
      · exact tcpEventClosed_full hfull
      · rfl
    | _ => rfl

theorem tcpEventRecv_full (hfull : conn.sysMboxValid = false) (recvData : Option Pbuf) :
    (tcpEventRecv recvData pcb conn).2 = conn := by
  unfold tcpEventRecv
  cases recvData with
  | none => rfl
  | some p =>
    have hconn := @recvTcp_full pcb conn false hfull (some p)
    dsimp only
    rcases hrecv : recvTcp false (some p) pcb conn with ⟨_, conn', err⟩
    rw [hrecv] at hconn
    cases err <;> exact hconn

theorem tcpGotFin_full (hfull : conn.sysMboxValid = false) : (tcpGotFin pcb conn).2 = conn := by
  unfold tcpGotFin
  cases pcb.refusedData with
  | none => exact tcpEventClosed_full hfull
  | some p => rfl

theorem errTcp_full (hfull : conn.sysMboxValid = false) (err : ErrT) :
    (errTcp err conn).recvmbox = conn.recvmbox := by
  have hbox : (Netconn.rcvplus { conn with lastErr := err }).recvmbox = conn.recvmbox := rcvplus_recvmbox
  have hfull' : ¬(Netconn.rcvplus { conn with lastErr := err }).sysMboxValid = true := by
    rw [sysMboxValid_iff, hbox, ← sysMboxValid_iff, hfull]
    exact Bool.false_ne_true
  dsimp only [errTcp]
  rw [if_neg hfull', hbox]

theorem tcpInput_full (hfull : conn.sysMboxValid = false) (seg : TcpSeg) :
    (tcpInput sent seg pcb conn).2.recvmbox = conn.recvmbox := by
  have hagain := @tcpAgain_full pcb conn sent hfull
  dsimp only [tcpInput]
  rcases hpair : tcpAgain sent pcb conn with ⟨pcb₁, conn₁⟩
  rw [hpair] at hagain
  obtain rfl : conn₁ = conn := hagain
  dsimp only
  split_ifs
  · rfl
  cases tcpProcess sent pcb₁ seg with
  | none => exact errTcp_full hfull .rst
  | some r =>
    have hrecv := @tcpEventRecv_full r.pcb conn₁ hfull r.recvData
    dsimp only
    rcases hpair₂ : tcpEventRecv r.recvData r.pcb conn₁ with ⟨pcb₂, conn₂⟩
    rw [hpair₂] at hrecv
    obtain rfl : conn₂ = conn₁ := hrecv
    dsimp only
    split_ifs
    · exact congrArg Netconn.recvmbox (tcpGotFin_full hfull)
    · rfl

/-- The mailbox is as it was, and the reader is not in front of its fetch. -/
structure Stays (s s' : RecvPath) : Prop where
  box : s'.conn.recvmbox = s.conn.recvmbox
  place : ∀ v, s'.place ≠ .fetch v

theorem fail_stays {s' : RecvPath} (v : Locals) (err : ErrT)
    (hbox : s'.conn.recvmbox = s.conn.recvmbox) : Stays s (RecvPath.fail v err s').1 := by
  unfold RecvPath.fail
  split_ifs
  · exact ⟨hbox, fun _ h => by cases h⟩
  · exact ⟨hbox, fun _ h => by cases h⟩
  · exact ⟨hbox, fun _ h => by cases h⟩

theorem copyOut_stays (v : Locals) (p : Pbuf) : Stays s (s.copyOut v p).1 := by
  have hleave : ∀ buflen copylen, (s.leave v.peek buflen copylen).conn.recvmbox = s.conn.recvmbox := by
    intro buflen copylen
    unfold RecvPath.leave
    split_ifs <;> rfl
  dsimp only [RecvPath.copyOut]
  split_ifs
  all_goals exact ⟨hleave _ _, fun _ h => by cases h⟩

theorem go_stays (hfull : s.conn.sysMboxValid = false) (hplace : ∀ v, s.place ≠ .fetch v) :
    Stays s s.go.1 := by
  have hsame : Stays s s := ⟨rfl, hplace⟩
  unfold RecvPath.go
  cases hp : s.place with
  | idle => exact hsame
  | eof v => exact hsame
  | recved v => exact hsame
  | top v =>
    dsimp only
    split_ifs
    · exact ⟨rfl, fun _ h => by cases h⟩
    · exact fail_stays v .wouldblock rfl
    · exact ⟨rfl, fun _ h => by cases h⟩
  | recvData v =>
    -- the mailbox is taken for one which has been deleted
    dsimp only
    rw [if_pos hfull]
    exact fail_stays v .conn rfl
  | fetch v => exact absurd hp (hplace v)
  | closed v => exact fail_stays v .clsd ((setSafeErr_recvmbox _).trans rcvminus_recvmbox)
  | got v p => exact ⟨rcvminus_recvmbox, fun _ h => by cases h⟩
  | copy v =>
    dsimp only
    cases s.lastdata with
    | none => exact hsame
    | some p => exact copyOut_stays v p

theorem step_stays (hfull : s.conn.sysMboxValid = false) (hplace : ∀ v, s.place ≠ .fetch v)
    (i : RecvInput) : Stays s (s.step i).1 := by
  have hsame : Stays s s := ⟨rfl, hplace⟩
  cases i with
  | go => exact go_stays hfull hplace
  | segment seg sent =>
    dsimp only [RecvPath.step]
    cases s.pcb with
    | none => exact hsame
    | some pcb => exact ⟨tcpInput_full hfull seg, hplace⟩
  | fasttmr sent =>
    dsimp only [RecvPath.step]
    cases s.pcb with
    | none => exact hsame
    | some pcb => exact ⟨congrArg Netconn.recvmbox (tcpAgain_full hfull), hplace⟩
  | output => exact ⟨rfl, hplace⟩
  | probe => exact ⟨rfl, hplace⟩
  | abort =>
    dsimp only [RecvPath.step]
    cases s.pcb with
    | none => exact hsame
    | some pcb => exact ⟨errTcp_full hfull .abrt, hplace⟩
  | accept socket =>
    dsimp only [RecvPath.step]
    split_ifs
    · exact ⟨rfl, hplace⟩
    · exact hsame
  | call dontwait peek len =>
    dsimp only [RecvPath.step]
    cases s.place with
    | idle =>
      dsimp only
      split_ifs
      · exact hsame
      · exact ⟨rfl, fun _ h => by cases h⟩
    | _ => exact hsame
  | answer sent =>
    dsimp only [RecvPath.step, RecvPath.answer]
    cases s.place with
    | eof v => exact ⟨rfl, fun _ h => by cases h⟩
    | recved v => exact ⟨rfl, fun _ h => by cases h⟩
    | _ => exact hsame
  | timeout =>
    dsimp only [RecvPath.step]
    cases hp : s.place with
    | fetch v => exact absurd hp (hplace v)
    | _ => exact hsame

/--
**A full mailbox stays full.** Once it has all its messages and the reader is not in front of its fetch,
nobody takes a message from it in any run: the messages are lost, and so is what comes behind them.
-/
theorem full_mailbox_stays (hfull : s.conn.sysMboxValid = false) (hplace : ∀ v, s.place ≠ .fetch v)
    (is : List RecvInput) : (recvPath.run s is).conn.recvmbox = s.conn.recvmbox := by
  have hstays : Stays s (recvPath.run s is) := by
    refine (recvPath.run_invariant' (Stays s) (fun t i ht => ?_) ⟨rfl, hplace⟩ is).2
    have hfull' : t.conn.sysMboxValid = false := by
      rw [← hfull, Netconn.sysMboxValid, Netconn.sysMboxValid, ht.box]
    have hstep := step_stays hfull' ht.place i
    exact ⟨hstep.box.trans ht.box, hstep.place⟩
  exact hstays.box

/-- Twenty segments of one byte, which nobody reads. -/
def unreadRun : List RecvInput :=
  (List.range 20).map fun k => .segment ⟨BitVec.ofNat 32 k, [7], false, false, false, true⟩ true

/-- The next call fails, and all twenty messages are still there. -/
theorem full_mailbox_stays_unreadRun :
    let s := recvPath.run (.start 0 536 0 3) unreadRun
    recvPath.trace s [.call true false 1, .go, .go] = [.failed .conn] ∧
      (recvPath.run s [.call true false 1, .go, .go]).conn.recvmbox = s.conn.recvmbox := by
  intro s
  have hidle : s.place = .idle := by rfl
  exact ⟨by decide +kernel, full_mailbox_stays (by decide +kernel) (by rw [hidle]; exact fun _ h => by cases h) _⟩

end Full

end PlcFirmware.Lwip
