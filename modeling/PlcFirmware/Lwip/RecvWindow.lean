import PlcFirmware.Lwip.RecvStream

/-!
# The window of a connection that is read

As long as the peer keeps to what it was told, nobody peeks and the mailbox does not get full, every byte of the
window is either free or on its way to the reader.

* `Open` — what holds while the peer has not closed its side
* `tcpInput_open`, `go_open`, `answer_open` — what the steps keep of it
* `window_kept` — the result over runs: no part of the window gets lost, and the peer hears of it
-/

namespace PlcFirmware.Lwip

open Infra

/-- The reader does not peek, and has not met the end of the stream. -/
def Place.Plain : Place → Prop
  | .idle => True
  | .eof _ | .closed _ => False
  | .top v | .recvData v | .fetch v | .got v _ | .copy v | .recved v => v.peek = false

/--
The window is all there: free, or taken by bytes which can still be read. The end of the stream is not in the
mailbox.
-/
structure Open (irs : BitVec 32) (s : RecvPath) (pcb : TcpPcb) : Prop where
  announced : ∃ edge, pcb.Announced irs (s.read ++ s.unread).length edge
  wnd : pcb.rcvWnd + s.unread.length = tcpWnd
  box : none ∉ s.conn.recvmbox
  plain : s.place.Plain

/-! ## The stack -/

section Stack

variable {stream : List UInt8} {irs : BitVec 32} {n edge : Nat} {pcb pcb' : TcpPcb}
  {conn conn' : Netconn} {seg : TcpSeg} {sent : Bool}

/-- A probe tells the peer of the window as well. -/
theorem TcpPcb.Announced.probe (h : pcb.Announced irs n edge) :
    ∃ edge', edge ≤ edge' ∧ (tcpProbe pcb).Announced irs n edge' := by
  obtain ⟨edge', hle, hout⟩ := h.output true
  exact ⟨edge', hle, { hout with owed := Or.inr (hout.owed.resolve_left Bool.false_ne_true) }⟩

/-- **A segment takes from the window what it puts on the way to the reader.** -/
theorem tcpInput_open (hfed : pcb.Fed stream irs n) (hann : pcb.Announced irs n edge)
    (hnone : pcb.refusedData = none) (hbox : none ∉ conn.recvmbox)
    (hseg : seg.rst = false → seg.syn = false → seg.Of stream irs n ∧ seg.Within pcb)
    (hroom : (tcpInput sent seg pcb conn).2.sysMboxValid = true)
    (hres : tcpInput sent seg pcb conn = (some pcb', conn')) (hest : pcb'.state = .established) :
    ∃ edge' d, edge ≤ edge' ∧ conn'.bytes = conn.bytes ++ d ∧
      pcb'.Announced irs (n + d.length) edge' ∧ pcb'.rcvWnd + d.length = pcb.rcvWnd ∧
      none ∉ conn'.recvmbox := by
  cases hr : tcpProcess sent pcb seg with
  | none =>
    rw [tcpInput_none hnone hr] at hres
    cases hres
  | some r =>
    obtain ⟨-, -, href, -, hwnd, hstate⟩ := tcpProcess_fed hfed (fun h1 h2 => (hseg h1 h2).1) hr
    obtain ⟨conn₂, hposted, hinput⟩ := tcpInput_some hnone hr hroom
    rw [hinput] at hres
    cases hfin : r.gotFin with
    | true =>
      -- the peer has closed its side
      obtain ⟨-, halike, -⟩ := tcpGotFin_keeps r.pcb conn₂ (href.trans hnone)
      have hclose : r.pcb.state = .closeWait := hstate.mpr (Or.inr hfin)
      rw [hfin] at hres
      cases hres
      rw [tcpOutput_state, halike.state, hclose] at hest
      cases hest
    | false =>
      obtain ⟨edge₁, hle₁, hann₁⟩ := tcpProcess_announced hann hseg hr hfin
      obtain ⟨edge₂, hle₂, hann₂⟩ := hann₁.output sent
      rw [hfin] at hres hwnd
      cases hres
      refine ⟨edge₂, r.bytes, Nat.le_trans hle₁ hle₂, bytes_posted hposted, hann₂, ?_, ?_⟩
      · rw [tcpOutput_rcvWnd]
        exact hwnd
      · rw [hposted, List.mem_append, not_or]
        refine ⟨hbox, fun hin => ?_⟩
        cases hdata : r.recvData with
        | none =>
          rw [hdata] at hin
          cases hin
        | some p =>
          rw [hdata] at hin
          cases List.mem_singleton.mp hin

/-- A side which the peer has closed stays closed. -/
theorem tcpInput_established (hfed : pcb.Fed stream irs n) (hnone : pcb.refusedData = none)
    (hseg : seg.rst = false → seg.syn = false → seg.Of stream irs n)
    (hroom : (tcpInput sent seg pcb conn).2.sysMboxValid = true)
    (hres : tcpInput sent seg pcb conn = (some pcb', conn')) (hest : pcb'.state = .established) :
    pcb.state = .established := by
  cases hr : tcpProcess sent pcb seg with
  | none =>
    rw [tcpInput_none hnone hr] at hres
    cases hres
  | some r =>
    obtain ⟨-, -, href, -, -, hstate⟩ := tcpProcess_fed hfed hseg hr
    obtain ⟨conn₂, -, hinput⟩ := tcpInput_some hnone hr hroom
    obtain ⟨-, halike, -⟩ := tcpGotFin_keeps r.pcb conn₂ (href.trans hnone)
    have hafter : pcb'.state = r.pcb.state := by
      rw [hinput] at hres
      split_ifs at hres
      · cases hres
        exact tcpOutput_state.trans halike.state
      · cases hres
        exact tcpOutput_state
    cases hbefore : pcb.state with
    | established => rfl
    | closeWait => cases (hstate.mpr (Or.inl hbefore)).symm.trans (hafter.symm.trans hest)

/-- The timer sends the ACK which it takes off the pcb. -/
theorem tcpFasttmr_open (conn : Netconn) (hann : pcb.Announced irs n edge) (hnone : pcb.refusedData = none) :
    ∃ edge', (tcpFasttmr true pcb conn).1.Announced irs n edge' ∧
      (tcpFasttmr true pcb conn).1.rcvWnd = pcb.rcvWnd := by
  dsimp only [tcpFasttmr]
  split_ifs
  · have hnow : (tcpAckNow pcb).Announced irs n edge := { hann with owed := Or.inl rfl }
    obtain ⟨edge', -, hout⟩ := hnow.output true
    have hsent : TcpPcb.refusedData
        { tcpOutput true (tcpAckNow pcb) with ackDelay := false, ackNow := false } = none := hnone
    rw [tcpAgain_none hsent]
    exact ⟨edge', hout, rfl⟩
  · rw [tcpAgain_none hnone]
    exact ⟨edge, hann, rfl⟩

/-- A short message to `do_recv` is one call of `tcp_recved`. -/
theorem doRecv_of_le {len : Nat} (h : len ≤ 0xffff) (pcb : TcpPcb) :
    doRecv sent len pcb = tcpRecved sent len pcb := by
  rw [doRecv, doRecvLoop, if_neg (Nat.not_lt.mpr h), Nat.sub_self]
  rfl

end Stack

/-! ## The reader -/

section Reader

variable {stream : List UInt8} {irs : BitVec 32} {s s' : RecvPath} {pcb pcb' : TcpPcb} {v : Locals}

/-- The reader has not peeked, met the end of the stream or touched the pcb. -/
structure Reads (s s' : RecvPath) : Prop where
  plain : s'.place.Plain
  box : none ∉ s'.conn.recvmbox
  pcb : s'.pcb = s.pcb

theorem fail_reads (err : ErrT) (hv : v.peek = false) (hbox : none ∉ s'.conn.recvmbox)
    (hpcb : s'.pcb = s.pcb) : Reads s (RecvPath.fail v err s').1 := by
  unfold RecvPath.fail
  by_cases hmem : v.mem ≠ []
  · rw [if_pos hmem]
    exact ⟨hv, hbox, hpcb⟩
  · rw [if_neg hmem]
    exact ⟨trivial, hbox, hpcb⟩

theorem leave_same (peek : Bool) (buflen copylen : Nat) :
    (s.leave peek buflen copylen).conn = s.conn ∧ (s.leave peek buflen copylen).pcb = s.pcb := by
  unfold RecvPath.leave
  split_ifs <;> exact ⟨rfl, rfl⟩

theorem copyOut_reads (p : Pbuf) (hv : v.peek = false) (hbox : none ∉ s.conn.recvmbox) :
    Reads s (s.copyOut v p).1 := by
  have hconn : ∀ buflen copylen, none ∉ (s.leave v.peek buflen copylen).conn.recvmbox := by
    intro buflen copylen
    rw [(leave_same v.peek buflen copylen).1]
    exact hbox
  have hpcb : ∀ buflen copylen, (s.leave v.peek buflen copylen).pcb = s.pcb :=
    fun buflen copylen => (leave_same v.peek buflen copylen).2
  dsimp only [RecvPath.copyOut]
  split_ifs
  all_goals first
    | exact ⟨hv, hconn _ _, hpcb _ _⟩
    | exact ⟨trivial, hconn _ _, hpcb _ _⟩

theorem go_reads (hplain : s.place.Plain) (hbox : none ∉ s.conn.recvmbox) : Reads s s.go.1 := by
  unfold RecvPath.go
  cases hplace : s.place with
  | idle => exact ⟨hplain, hbox, rfl⟩
  | eof v => exact ⟨hplain, hbox, rfl⟩
  | recved v => exact ⟨hplain, hbox, rfl⟩
  | top v =>
    rw [hplace] at hplain
    dsimp only
    split_ifs
    · exact ⟨hplain, hbox, rfl⟩
    · exact fail_reads _ hplain hbox rfl
    · exact ⟨hplain, hbox, rfl⟩
  | recvData v =>
    rw [hplace] at hplain
    dsimp only
    split_ifs
    · exact fail_reads _ hplain hbox rfl
    · exact fail_reads _ hplain hbox rfl
    · exact ⟨hplain, hbox, rfl⟩
  | fetch v =>
    dsimp only
    rcases hrest : s.conn.recvmbox with _ | ⟨_ | p, rest⟩
    · exact ⟨hplain, hbox, rfl⟩
    · rw [hrest] at hbox
      exact absurd List.mem_cons_self hbox
    · rw [hplace] at hplain
      rw [hrest] at hbox
      exact ⟨hplain, fun hin => hbox (List.mem_cons_of_mem _ hin), rfl⟩
  | closed v =>
    rw [hplace] at hplain
    exact hplain.elim
  | got v p =>
    rw [hplace] at hplain
    refine ⟨hplain, ?_, rfl⟩
    dsimp only
    rw [rcvminus_recvmbox]
    exact hbox
  | copy v =>
    dsimp only
    cases hdata : s.lastdata with
    | none => exact ⟨hplain, hbox, rfl⟩
    | some p =>
      rw [hplace] at hplain
      exact copyOut_reads p hplain hbox

theorem accept_reads (socket : Nat) (hplain : s.place.Plain) (hbox : none ∉ s.conn.recvmbox) :
    Reads s (s.step (.accept socket)).1 := by
  dsimp only [RecvPath.step]
  split_ifs
  · exact ⟨hplain, hbox, rfl⟩
  · exact ⟨hplain, hbox, rfl⟩

theorem call_reads (dontwait : Bool) (len : Nat) (hplain : s.place.Plain)
    (hbox : none ∉ s.conn.recvmbox) : Reads s (s.step (.call dontwait false len)).1 := by
  dsimp only [RecvPath.step]
  cases hplace : s.place with
  | idle =>
    dsimp only
    split_ifs
    · exact ⟨hplain, hbox, rfl⟩
    · exact ⟨rfl, hbox, rfl⟩
  | _ => exact ⟨hplain, hbox, rfl⟩

theorem timeout_reads (hplain : s.place.Plain) (hbox : none ∉ s.conn.recvmbox) :
    Reads s (s.step .timeout).1 := by
  dsimp only [RecvPath.step]
  cases hplace : s.place with
  | fetch v =>
    dsimp only
    split_ifs
    · rw [hplace] at hplain
      refine fail_reads _ hplain ?_ rfl
      dsimp only
      rw [setSafeErr_recvmbox]
      exact hbox
    · exact ⟨hplain, hbox, rfl⟩
  | _ => exact ⟨hplain, hbox, rfl⟩

/-- A step which takes nothing from the network opens the window by what it gives to the reader. -/
theorem Open.moves (h : Open irs s pcb) (hm : Moves s s')
    (hann : ∃ edge, pcb'.Announced irs (s.read ++ s.unread).length edge)
    (hwnd : pcb'.rcvWnd + s.read.length = pcb.rcvWnd + s'.read.length)
    (hbox : none ∉ s'.conn.recvmbox) (hplain : s'.place.Plain) : Open irs s' pcb' := by
  have htotal := congrArg List.length hm.total
  simp only [List.length_append] at htotal
  have hold := h.wnd
  refine ⟨?_, by omega, hbox, hplain⟩
  rw [hm.total]
  exact hann

theorem Open.reads (h : Open irs s pcb) (hm : Moves s s') (hread : s'.read = s.read)
    (hr : Reads s s') : Open irs s' pcb :=
  h.moves hm h.announced (by rw [hread]) hr.box hr.plain

/-- **A call gives back to the window what it returns.** -/
theorem answer_open {sent : Bool} (hin : s.InOrder stream irs) (h : Open irs s pcb)
    (hpcb : s.pcb = some pcb) (hpcb' : (s.answer sent).1.pcb = some pcb') :
    Open irs (s.answer sent).1 pcb' := by
  have hm := answer_moves sent hin
  have hplain := h.plain
  unfold RecvPath.answer at hm hpcb' ⊢
  cases hplace : s.place with
  | eof v =>
    rw [hplace] at hplain
    exact hplain.elim
  | recved v =>
    rw [hplace] at hm hpcb' hplain
    have hpeek : v.peek = false := hplain
    dsimp only at hm hpcb' ⊢
    rw [hpcb] at hpcb'
    obtain rfl : doRecv sent v.mem.length pcb = pcb' := Option.some.inj hpcb'
    have htw : tcpWnd = 2920 := rfl
    have hmem : v.mem.length ≤ s.unread.length := by
      rw [RecvPath.unread, hplace, Place.bytes, Locals.own, hpeek]
      simp only [List.length_append, if_neg Bool.false_ne_true]
      omega
    have hold := h.wnd
    obtain ⟨edge, hann⟩ := h.announced
    obtain ⟨edge', -, hann', hwnd⟩ : ∃ edge', edge ≤ edge' ∧
        (tcpRecved sent v.mem.length pcb).Announced irs (s.read ++ s.unread).length edge' ∧
        (tcpRecved sent v.mem.length pcb).rcvWnd = pcb.rcvWnd + v.mem.length :=
      tcpRecved_announced hann (by omega)
    have hsame : doRecv sent v.mem.length pcb = tcpRecved sent v.mem.length pcb :=
      doRecv_of_le (by omega) pcb
    refine h.moves hm ⟨edge', ?_⟩ ?_ h.box trivial
    · rw [hsame]
      exact hann'
    · dsimp only
      rw [hsame, hwnd, hpeek, if_neg Bool.false_ne_true, List.length_append]
      omega
  | _ =>
    rw [hplace] at hpcb'
    obtain rfl : pcb = pcb' := Option.some.inj (hpcb.symm.trans hpcb')
    exact h

end Reader

/-! ## Runs -/

section Runs

variable {stream : List UInt8} {irs : BitVec 32} {s : RecvPath} {i : RecvInput} {pcb' : TcpPcb}

/--
The segments are in the window which was announced, nobody peeks, and what the timer sends gets out. That is
on top of `Carries`.
-/
def RecvPath.Respects (stream : List UInt8) (irs : BitVec 32) (s : RecvPath) (i : RecvInput) : Prop :=
  s.Carries stream irs i ∧
    match i with
    | .segment seg _ => ∀ pcb ∈ s.pcb, seg.rst = false → seg.syn = false → seg.Within pcb
    | .call _ peek _ => peek = false
    | .fasttmr sent => sent = true
    | _ => True

instance (stream : List UInt8) (irs : BitVec 32) (s : RecvPath) (i : RecvInput) :
    Decidable (s.Respects stream irs i) :=
  match i with
  | .segment seg sent =>
    inferInstanceAs (Decidable (s.Carries stream irs (.segment seg sent) ∧
      ∀ pcb ∈ s.pcb, seg.rst = false → seg.syn = false → seg.Within pcb))
  | .call dontwait peek len =>
    inferInstanceAs (Decidable (s.Carries stream irs (.call dontwait peek len) ∧ peek = false))
  | .fasttmr sent =>
    inferInstanceAs (Decidable (s.Carries stream irs (.fasttmr sent) ∧ sent = true))
  | .output | .probe | .abort | .accept _ | .go | .answer _ | .timeout =>
    inferInstanceAs (Decidable (True ∧ True))

/-- The stream is in order, and while the peer has not closed its side the window is all there. -/
structure RecvPath.Kept (stream : List UInt8) (irs : BitVec 32) (s : RecvPath) : Prop where
  inOrder : s.InOrder stream irs
  window : ∀ pcb, s.pcb = some pcb → pcb.state = .established → Open irs s pcb

theorem segment_open {seg : TcpSeg} {sent : Bool} (h : s.Kept stream irs)
    (hi : s.Respects stream irs (.segment seg sent))
    (hpcb' : (s.step (.segment seg sent)).1.pcb = some pcb') (hest : pcb'.state = .established) :
    Open irs (s.step (.segment seg sent)).1 pcb' := by
  obtain ⟨⟨hcarries, hroom⟩, hwithin⟩ := hi
  dsimp only [RecvPath.step] at hroom hpcb' ⊢
  cases hpcb : s.pcb with
  | none =>
    rw [hpcb] at hpcb'
    cases hpcb.symm.trans hpcb'
  | some pcb =>
    rw [hpcb] at hroom hpcb'
    dsimp only at hroom hpcb' ⊢
    have hfed := h.inOrder.fed pcb hpcb
    have hnone := h.inOrder.kept pcb hpcb
    rcases hpair : tcpInput sent seg pcb s.conn with ⟨o, conn'⟩
    rw [hpair] at hpcb'
    obtain rfl : o = some pcb' := hpcb'
    have hopen := h.window pcb hpcb (tcpInput_established hfed hnone hcarries hroom hpair hest)
    obtain ⟨edge, hann⟩ := hopen.announced
    obtain ⟨edge', d, -, hbytes, hann', hwnd, hbox⟩ :=
      tcpInput_open hfed hann hnone hopen.box
        (fun h1 h2 => ⟨hcarries h1 h2, hwithin pcb hpcb h1 h2⟩) hroom hpair hest
    have htotal := total_of_bytes (some pcb') hbytes
    have hlen := congrArg List.length htotal
    simp only [List.length_append] at hlen
    have hold := hopen.wnd
    refine ⟨⟨edge', ?_⟩, ?_, hbox, hopen.plain⟩
    · refine htotal.symm ▸ ?_
      rw [List.length_append]
      exact hann'
    · dsimp only
      omega

theorem fasttmr_open (h : s.Kept stream irs) (hpcb' : (s.step (.fasttmr true)).1.pcb = some pcb')
    (hest : pcb'.state = .established) : Open irs (s.step (.fasttmr true)).1 pcb' := by
  have hm := fasttmr_moves h.inOrder true
  obtain ⟨pcb, hpcb, halike⟩ := hm.pcb pcb' hpcb'
  have hopen := h.window pcb hpcb (halike.state.symm.trans hest)
  obtain ⟨edge, hann⟩ := hopen.announced
  obtain ⟨edge', hann', hwnd⟩ := tcpFasttmr_open s.conn hann (h.inOrder.kept pcb hpcb)
  obtain ⟨hconn, -⟩ := tcpFasttmr_keeps true s.conn (h.inOrder.kept pcb hpcb)
  dsimp only [RecvPath.step] at hm hpcb' ⊢
  rw [hpcb] at hm hpcb' ⊢
  obtain rfl : (tcpFasttmr true pcb s.conn).1 = pcb' := Option.some.inj hpcb'
  refine hopen.moves hm ⟨edge', hann'⟩ (congrArg (· + _) hwnd) ?_ hopen.plain
  dsimp only
  rw [hconn]
  exact hopen.box

theorem RecvPath.Kept.step (h : s.Kept stream irs) (hi : s.Respects stream irs i) :
    (s.step i).1.Kept stream irs := by
  refine ⟨h.inOrder.step hi.1, fun pcb' hpcb' hest => ?_⟩
  -- a step of the reader, which leaves the pcb alone
  have hreader : ∀ s' : RecvPath, s'.pcb = some pcb' → Moves s s' → s'.read = s.read →
      (s.place.Plain → none ∉ s.conn.recvmbox → Reads s s') → Open irs s' pcb' := by
    intro s' hs' hm hread hr
    obtain ⟨pcb, hpcb, halike⟩ := hm.pcb pcb' hs'
    have hopen := h.window pcb hpcb (halike.state.symm.trans hest)
    have hreads := hr hopen.plain hopen.box
    obtain rfl : pcb = pcb' := Option.some.inj (hpcb.symm.trans (hreads.pcb.symm.trans hs'))
    exact hopen.reads hm hread hreads
  cases i with
  | segment seg sent => exact segment_open h hi hpcb' hest
  | fasttmr sent =>
    obtain rfl : sent = true := hi.2
    exact fasttmr_open h hpcb' hest
  | output =>
    obtain ⟨pcb, hpcb, rfl⟩ := Option.map_eq_some_iff.mp hpcb'
    have hopen := h.window pcb hpcb (tcpOutput_state.symm.trans hest)
    obtain ⟨edge, hann⟩ := hopen.announced
    obtain ⟨edge', -, hann'⟩ := hann.output true
    exact hopen.moves (output_moves h.inOrder) ⟨edge', hann'⟩ (congrArg (· + _) tcpOutput_rcvWnd)
      hopen.box hopen.plain
  | probe =>
    obtain ⟨pcb, hpcb, rfl⟩ := Option.map_eq_some_iff.mp hpcb'
    have hopen := h.window pcb hpcb hest
    obtain ⟨edge, hann⟩ := hopen.announced
    obtain ⟨edge', -, hann'⟩ := hann.probe
    exact hopen.moves (probe_moves h.inOrder) ⟨edge', hann'⟩ rfl hopen.box hopen.plain
  | abort =>
    dsimp only [RecvPath.step] at hpcb'
    cases hpcb : s.pcb with
    | none =>
      rw [hpcb] at hpcb'
      cases hpcb.symm.trans hpcb'
    | some pcb =>
      rw [hpcb] at hpcb'
      cases hpcb'
  | accept socket =>
    exact hreader _ hpcb' (accept_moves h.inOrder socket) (accept_gives socket).1
      (accept_reads socket)
  | call dontwait peek len =>
    obtain rfl : peek = false := hi.2
    exact hreader _ hpcb' (call_moves h.inOrder dontwait false len)
      (call_gives dontwait false len).1 (call_reads dontwait len)
  | go => exact hreader _ hpcb' (go_moves h.inOrder) go_gives.1 go_reads
  | answer sent =>
    obtain ⟨pcb, hpcb, halike⟩ := (answer_moves sent h.inOrder).pcb pcb' hpcb'
    exact answer_open h.inOrder (h.window pcb hpcb (halike.state.symm.trans hest)) hpcb hpcb'
  | timeout =>
    exact hreader _ hpcb' (timeout_moves h.inOrder) timeout_gives.1 timeout_reads

theorem RecvPath.Kept.start (stream : List UInt8) (irs : BitVec 32) (mss recvTimeout : Nat)
    (socket : Int) : (RecvPath.start irs mss recvTimeout socket).Kept stream irs := by
  refine ⟨RecvPath.InOrder.start stream irs mss recvTimeout socket, fun pcb hpcb _ => ?_⟩
  cases hpcb
  refine ⟨⟨tcpWnd, ?_⟩, rfl, List.not_mem_nil, trivial⟩
  have hhalf : tcpWnd < tcpWnd + tcpWnd / 2 := by decide
  exact ⟨serial_zero.symm, rfl, Nat.zero_le _, Nat.le_add_left .., Nat.le_refl _,
    Nat.le_add_left .., Nat.le_refl _, hhalf, Or.inr ((Nat.zero_add tcpWnd).symm ▸ hhalf)⟩

theorem RecvPath.Kept.run {is : List RecvInput} (h : s.Kept stream irs)
    (hG : ∀ t ∈ recvPath.transitions s is, t.1.Respects stream irs t.2) :
    (recvPath.run s is).Kept stream irs :=
  (recvPath.run_invariant (fun _ _ hs hi => RecvPath.Kept.step hs hi) h hG).2

/--
**No part of the window gets lost, and the peer hears of it.** The peer keeps to what it was told, nobody
peeks, the mailbox does not get full, and what the timer sends gets out; otherwise the steps come in any order.
Until the peer closes its side, the window is what is free and what can still be read. The peer may send up to an edge in it, and if
half a window lies behind the edge, an ACK is due.
-/
theorem window_kept (stream : List UInt8) (irs : BitVec 32) (mss recvTimeout : Nat) (socket : Int)
    (is : List RecvInput)
    (hG : ∀ t ∈ recvPath.transitions (.start irs mss recvTimeout socket) is,
      t.1.Respects stream irs t.2) :
    let s := recvPath.run (.start irs mss recvTimeout socket) is
    let n := (s.read ++ s.unread).length
    ∀ pcb, s.pcb = some pcb → pcb.state = .established →
      pcb.rcvWnd + s.unread.length = tcpWnd ∧
        ∃ edge : Nat, pcb.rcvNxt = serial irs n ∧ pcb.rcvAnnRightEdge = serial irs edge ∧ n ≤ edge ∧
          edge ≤ n + pcb.rcvWnd ∧ (pcb.ackNow = true ∨ n + pcb.rcvWnd < edge + tcpWnd / 2) := by
  intro s n pcb hpcb hest
  have h : s.Kept stream irs := (RecvPath.Kept.start stream irs mss recvTimeout socket).run hG
  have hopen := h.window pcb hpcb hest
  obtain ⟨edge, hann⟩ := hopen.announced
  exact ⟨hopen.wnd, edge, hann.nxt, hann.right, hann.behind, hann.inWnd, hann.owed⟩

/-- Two of three bytes are read. -/
def windowRun : List RecvInput :=
  [.segment ⟨0xfffffffe, [10, 20, 30], false, false, false, true⟩ true, .call false false 2,
    .go, .go, .go, .go, .go, .answer true]

theorem window_kept_windowRun :
    let s := recvPath.run (.start 0xfffffffe 536 0 3) windowRun
    s.unread = [30] ∧ ∃ pcb, s.pcb = some pcb ∧ pcb.rcvWnd + s.unread.length = tcpWnd := by
  intro s
  have hstate : s.pcb.map TcpPcb.state = some .established := by decide
  obtain ⟨pcb, hpcb, hest⟩ := Option.map_eq_some_iff.mp hstate
  exact ⟨by decide, pcb, hpcb,
    (window_kept [10, 20, 30] 0xfffffffe 536 0 3 windowRun (by decide) pcb hpcb hest).1⟩

end Runs

end PlcFirmware.Lwip
