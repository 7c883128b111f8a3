import PlcFirmware.Lwip.RecvPath

/-!
# A reader who does not wait for nothing

The counter `rcvevent` is behind or before the mailbox for a moment only, and the end of a connection finds
the reader wherever it is.

* `Counted` — what the counter and the last error say of the mailbox
* `Netconn.Grows` — what the stack does to them while the connection is there
* `fetch_finds` — the result over runs: where a reader must not wait, there is something in the mailbox
-/

namespace PlcFirmware.Lwip

open Infra

/-- The events which have been counted, before and after `accept`. -/
def Netconn.events (conn : Netconn) : Int :=
  conn.rcvevent + if conn.socket < 0 then -1 - conn.socket else 0

/-- A message has been fetched and is still counted. -/
def Place.inHand : Place → Int
  | .eof _ | .closed _ | .got _ _ => 1
  | .idle | .top _ | .recvData _ | .fetch _ | .copy _ | .recved _ => 0

/-- A reader which is not to wait has looked at the counter or at the error. -/
def Place.Ready (conn : Netconn) : Place → Prop
  | .top v => v.mem ≠ [] → conn.recvmbox ≠ [] ∨ conn.lastErr.fatal = true
  | .recvData v =>
    v.dontwait = true ∨ v.mem ≠ [] → conn.recvmbox ≠ [] ∨ conn.lastErr.fatal = true
  | .fetch v => v.dontwait = true ∨ v.mem ≠ [] → conn.recvmbox ≠ []
  | .idle | .eof _ | .closed _ | .got _ _ | .copy _ | .recved _ => True

/-- What the counter and the last error say of the mailbox. -/
structure Counted (s : RecvPath) : Prop where
  events : ∃ extra : Int, s.conn.events = s.conn.recvmbox.length + s.place.inHand + extra ∧
    (extra = 0 ∨ extra = 1 ∧ s.pcb = none)
  ready : s.place.Ready s.conn
  fatal : s.pcb = none → s.conn.lastErr.fatal = true
  wakes : s.pcb = none → ∀ v, s.place = .fetch v → s.conn.recvmbox ≠ []
  accepted : s.place ≠ .idle → 0 ≤ s.conn.socket

/-! ## The stack -/

section Stack

variable {conn conn' conn'' : Netconn} {pcb : TcpPcb} {sent : Bool}

/-- Messages are added and counted, and a fatal error stays. -/
structure Netconn.Grows (conn conn' : Netconn) : Prop where
  events : conn'.events - conn'.recvmbox.length = conn.events - conn.recvmbox.length
  box : conn.recvmbox ≠ [] → conn'.recvmbox ≠ []
  fatal : conn.lastErr.fatal = true → conn'.lastErr.fatal = true
  socket : 0 ≤ conn.socket → 0 ≤ conn'.socket

theorem Netconn.Grows.refl : conn.Grows conn := ⟨rfl, id, id, id⟩

theorem Netconn.Grows.trans (h : conn.Grows conn') (h' : conn'.Grows conn'') : conn.Grows conn'' :=
  ⟨h'.events.trans h.events, fun hb => h'.box (h.box hb), fun hf => h'.fatal (h.fatal hf),
    fun hs => h'.socket (h.socket hs)⟩

theorem setSafeErr_grows (err : ErrT) : conn.Grows (conn.setSafeErr err) := by
  unfold Netconn.setSafeErr
  split_ifs with hfatal
  · exact .refl
  · exact ⟨rfl, id, fun h => absurd h hfatal, id⟩

theorem events_rcvplus (conn : Netconn) : conn.rcvplus.events = conn.events + 1 := by
  unfold Netconn.rcvplus Netconn.events
  split_ifs <;> dsimp only at * <;> omega

theorem events_rcvminus (h : 0 ≤ conn.socket) : conn.rcvminus.events = conn.events - 1 := by
  unfold Netconn.rcvminus Netconn.events
  rw [if_neg (Int.not_lt.mpr h)]
  dsimp only
  omega

theorem socket_rcvplus (h : 0 ≤ conn.socket) : 0 ≤ conn.rcvplus.socket := by
  unfold Netconn.rcvplus
  rw [if_neg (Int.not_lt.mpr h)]
  exact h

theorem rcvplus_same (conn : Netconn) :
    conn.rcvplus.recvmbox = conn.recvmbox ∧ conn.rcvplus.lastErr = conn.lastErr := by
  unfold Netconn.rcvplus
  split_ifs
  · exact ⟨rfl, rfl⟩
  · exact ⟨rfl, rfl⟩

theorem recvTcp_grows (sent : Bool) (p : Option Pbuf) (pcb : TcpPcb) (conn : Netconn) :
    conn.Grows (recvTcp sent p pcb conn).2.1 := by
  have hsafe := @setSafeErr_grows conn .ok
  dsimp only [recvTcp]
  generalize conn.setSafeErr .ok = c at hsafe
  split_ifs
  · refine hsafe.trans ?_
    obtain ⟨hbox, herr⟩ := rcvplus_same { c with recvmbox := c.recvmbox ++ [p] }
    refine ⟨?_, fun _ => ?_, fun h => ?_, fun h => socket_rcvplus h⟩
    · rw [events_rcvplus, hbox, List.length_append]
      have hevents : Netconn.events { c with recvmbox := c.recvmbox ++ [p] } = c.events := rfl
      rw [hevents]
      push_cast
      rw [List.length_singleton]
      omega
    · rw [hbox]
      exact List.concat_ne_nil _ _
    · rw [herr]
      exact h
  · exact hsafe
  · cases p with
    | none => exact .refl
    | some p => exact .refl

theorem tcpEventClosed_grows (pcb : TcpPcb) (conn : Netconn) :
    conn.Grows (tcpEventClosed pcb conn).2 :=
  recvTcp_grows false none _ conn

theorem tcpProcessRefusedData_grows (refused : Pbuf) :
    conn.Grows (tcpProcessRefusedData sent refused pcb conn).2 := by
  have hrecv := recvTcp_grows sent (some refused) { pcb with refusedData := none } conn
  dsimp only [tcpProcessRefusedData]
  rcases hpair : recvTcp sent (some refused) { pcb with refusedData := none } conn with
    ⟨pcb', conn', err⟩
  rw [hpair] at hrecv
  cases err with
  | ok =>
    dsimp only
    split_ifs
    · exact hrecv.trans (tcpEventClosed_grows _ _)
    · exact hrecv
  | _ => exact hrecv

theorem tcpAgain_grows (sent : Bool) (pcb : TcpPcb) (conn : Netconn) :
    conn.Grows (tcpAgain sent pcb conn).2 := by
  unfold tcpAgain
  cases pcb.refusedData with
  | none => exact .refl
  | some refused => exact tcpProcessRefusedData_grows refused

theorem tcpEventRecv_grows (recvData : Option Pbuf) (pcb : TcpPcb) (conn : Netconn) :
    conn.Grows (tcpEventRecv recvData pcb conn).2 := by
  unfold tcpEventRecv
  cases recvData with
  | none => exact .refl
  | some p =>
    have hrecv := recvTcp_grows false (some p) pcb conn
    dsimp only
    rcases hpair : recvTcp false (some p) pcb conn with ⟨pcb', conn', err⟩
    rw [hpair] at hrecv
    cases err with
    | ok => exact hrecv
    | _ => exact hrecv

theorem tcpGotFin_grows : conn.Grows (tcpGotFin pcb conn).2 := by
  unfold tcpGotFin
  cases pcb.refusedData with
  | none => exact tcpEventClosed_grows pcb conn
  | some p => exact .refl

/-- A segment is delivered, or it ends the connection. -/
theorem tcpInput_grows (sent : Bool) (seg : TcpSeg) (pcb : TcpPcb) (conn : Netconn) :
    ((tcpInput sent seg pcb conn).1 ≠ none ∧ conn.Grows (tcpInput sent seg pcb conn).2) ∨
      ∃ conn', conn.Grows conn' ∧ tcpInput sent seg pcb conn = (none, errTcp .rst conn') := by
  have hagain := tcpAgain_grows sent pcb conn
  dsimp only [tcpInput]
  rcases hpair : tcpAgain sent pcb conn with ⟨pcb₁, conn₁⟩
  rw [hpair] at hagain
  dsimp only at hagain ⊢
  split_ifs
  · exact Or.inl ⟨Option.some_ne_none _, hagain⟩
  cases tcpProcess sent pcb₁ seg with
  | none => exact Or.inr ⟨conn₁, hagain, rfl⟩
  | some r =>
    refine Or.inl ⟨Option.some_ne_none _, hagain.trans ?_⟩
    have hrecv := tcpEventRecv_grows r.recvData r.pcb conn₁
    dsimp only
    rcases hpair₂ : tcpEventRecv r.recvData r.pcb conn₁ with ⟨pcb₂, conn₂⟩
    rw [hpair₂] at hrecv
    refine hrecv.trans ?_
    dsimp only
    split_ifs
    · exact tcpGotFin_grows
    · exact .refl

/-- The end of a connection is counted, and wakes the reader. -/
theorem errTcp_spec (err : ErrT) (conn : Netconn) :
    (errTcp err conn).recvmbox ≠ [] ∧ (errTcp err conn).lastErr = err ∧
      (0 ≤ conn.socket → 0 ≤ (errTcp err conn).socket) ∧
      ((errTcp err conn).events - (errTcp err conn).recvmbox.length =
          conn.events - conn.recvmbox.length ∨
        (errTcp err conn).events - (errTcp err conn).recvmbox.length =
          conn.events - conn.recvmbox.length + 1) := by
  obtain ⟨hbox, herr⟩ := rcvplus_same { conn with lastErr := err }
  have hevents : Netconn.events { conn with lastErr := err } = conn.events := rfl
  have hplus := events_rcvplus { conn with lastErr := err }
  have hsocket : 0 ≤ conn.socket → 0 ≤ (Netconn.rcvplus { conn with lastErr := err }).socket :=
    fun h => socket_rcvplus h
  dsimp only [errTcp]
  generalize Netconn.rcvplus { conn with lastErr := err } = c at *
  dsimp only at hbox herr
  rw [hevents] at hplus
  split_ifs with hroom
  · refine ⟨List.concat_ne_nil _ _, herr, hsocket, Or.inl ?_⟩
    have hc : Netconn.events { c with recvmbox := c.recvmbox ++ [none] } = c.events := rfl
    rw [hc, hplus, List.length_append, hbox]
    push_cast
    rw [List.length_singleton]
    omega
  · refine ⟨fun hnil => hroom ?_, herr, hsocket, Or.inr ?_⟩
    · rw [Netconn.sysMboxValid, hnil]
      rfl
    · rw [hplus, hbox]
      omega

end Stack

/-! ## Steps -/

section Steps

variable {s s' : RecvPath} {conn' : Netconn} {v : Locals}

theorem ready_of_box {conn : Netconn} (h : conn.recvmbox ≠ []) (place : Place) : place.Ready conn := by
  cases place with
  | top v => exact fun _ => Or.inl h
  | recvData v => exact fun _ => Or.inl h
  | fetch v => exact fun _ => h
  | _ => trivial

theorem ready_mono {conn : Netconn} (hbox : conn.recvmbox ≠ [] → conn'.recvmbox ≠ [])
    (hfatal : conn.lastErr.fatal = true → conn'.lastErr.fatal = true) {place : Place}
    (h : place.Ready conn) : place.Ready conn' := by
  cases place with
  | top v => exact fun hv => (h hv).imp hbox hfatal
  | recvData v => exact fun hv => (h hv).imp hbox hfatal
  | fetch v => exact fun hv => hbox (h hv)
  | _ => trivial

/-- The stack works for the connection. -/
theorem Counted.grows (h : Counted s) (hg : s.conn.Grows conn') {pcb' : Option TcpPcb}
    (hpcb : pcb' = none ↔ s.pcb = none) : Counted { s with pcb := pcb', conn := conn' } where
  events := by
    obtain ⟨extra, hevents, hextra⟩ := h.events
    have hgrows := hg.events
    refine ⟨extra, ?_, hextra.imp_right fun ⟨h1, h2⟩ => ⟨h1, hpcb.mpr h2⟩⟩
    dsimp only
    omega
  ready := ready_mono hg.box hg.fatal h.ready
  fatal hnone := hg.fatal (h.fatal (hpcb.mp hnone))
  wakes hnone v hv := hg.box (h.wakes (hpcb.mp hnone) v hv)
  accepted hplace := hg.socket (h.accepted hplace)

/-- The connection ends. -/
theorem Counted.ends (h : Counted s) (halive : s.pcb ≠ none) {conn : Netconn}
    (hg : s.conn.Grows conn) {err : ErrT} (herr : err.fatal = true) :
    Counted { s with pcb := none, conn := errTcp err conn } := by
  obtain ⟨hbox, hlast, hsocket, hcount⟩ := errTcp_spec err conn
  obtain ⟨extra, hevents, hextra⟩ := h.events
  have hgrows := hg.events
  obtain rfl : extra = 0 := hextra.resolve_right fun hx => halive hx.2
  constructor
  · dsimp only
    rcases hcount with hcount | hcount
    · exact ⟨0, by omega, Or.inl rfl⟩
    · exact ⟨1, by omega, Or.inr ⟨rfl, rfl⟩⟩
  · exact ready_of_box hbox _
  · intro _
    dsimp only
    rw [hlast]
    exact herr
  · intro _ v hv
    exact hbox
  · intro hplace
    exact hsocket (hg.socket (h.accepted hplace))

/-- A place at which nothing is in hand, and nothing is promised. -/
def Place.Quiet : Place → Prop
  | .idle | .copy _ | .recved _ => True
  | _ => False

theorem Counted.quiet (h : Counted s) (hquiet : s'.place.Quiet) (hpcb : s'.pcb = s.pcb)
    (hevents : s'.conn.events - s'.conn.recvmbox.length =
      s.conn.events - s.conn.recvmbox.length - s.place.inHand)
    (hfatal : s.conn.lastErr.fatal = true → s'.conn.lastErr.fatal = true)
    (hsocket : 0 ≤ s'.conn.socket) : Counted s' := by
  obtain ⟨extra, hold, hextra⟩ := h.events
  have hhand : s'.place.inHand = 0 := by
    cases hp : s'.place <;> rw [hp] at hquiet <;> first | rfl | exact hquiet.elim
  constructor
  · exact ⟨extra, by omega, hpcb ▸ hextra⟩
  · cases hp : s'.place <;> rw [hp] at hquiet <;> trivial
  · exact fun hnone => hfatal (h.fatal (hpcb ▸ hnone))
  · intro _ v hv
    rw [hv] at hquiet
    exact hquiet.elim
  · exact fun _ => hsocket

theorem fail_spec (v : Locals) (err : ErrT) (s : RecvPath) :
    (RecvPath.fail v err s).1.place.Quiet ∧ (RecvPath.fail v err s).1.conn = s.conn ∧
      (RecvPath.fail v err s).1.pcb = s.pcb := by
  unfold RecvPath.fail
  split_ifs
  · exact ⟨trivial, rfl, rfl⟩
  · exact ⟨trivial, rfl, rfl⟩
  · exact ⟨trivial, rfl, rfl⟩

theorem Counted.fails (h : Counted s) (err : ErrT) (hpcb : s'.pcb = s.pcb)
    (hevents : s'.conn.events - s'.conn.recvmbox.length =
      s.conn.events - s.conn.recvmbox.length - s.place.inHand)
    (hfatal : s.conn.lastErr.fatal = true → s'.conn.lastErr.fatal = true)
    (hsocket : 0 ≤ s'.conn.socket) : Counted (RecvPath.fail v err s').1 := by
  obtain ⟨hquiet, hconn, hpcb'⟩ := fail_spec v err s'
  refine h.quiet hquiet (hpcb'.trans hpcb) ?_ ?_ ?_
  · rw [hconn]
    exact hevents
  · rw [hconn]
    exact hfatal
  · rw [hconn]
    exact hsocket

/-- What a positive counter means to the reader. -/
theorem Counted.found (h : Counted s) (hplace : s.place ≠ .idle) (hhand : s.place.inHand = 0)
    (hpos : ¬s.conn.rcvevent ≤ 0) : s.conn.recvmbox ≠ [] ∨ s.conn.lastErr.fatal = true := by
  have hsocket := h.accepted hplace
  obtain ⟨extra, hevents, hextra⟩ := h.events
  have hsame : s.conn.events = s.conn.rcvevent := by
    rw [Netconn.events, if_neg (Int.not_lt.mpr hsocket), Int.add_zero]
  rcases hextra with rfl | ⟨rfl, hnone⟩
  · refine Or.inl fun hnil => hpos ?_
    rw [hnil, hhand, hsame] at hevents
    exact Int.le_of_eq hevents
  · exact Or.inr (h.fatal hnone)

theorem leave_conn (peek : Bool) (buflen copylen : Nat) :
    (s.leave peek buflen copylen).conn = s.conn ∧ (s.leave peek buflen copylen).pcb = s.pcb := by
  unfold RecvPath.leave
  split_ifs
  · exact ⟨rfl, rfl⟩
  · exact ⟨rfl, rfl⟩
  · exact ⟨rfl, rfl⟩

theorem Counted.copyOut (h : Counted s) (hplace : s.place = .copy v) (p : Pbuf) :
    Counted (s.copyOut v p).1 := by
  have hhand : s.place.inHand = 0 := by rw [hplace]; rfl
  have hidle : s.place ≠ .idle := by rw [hplace]; exact fun h => by cases h
  have hsocket := h.accepted hidle
  dsimp only [RecvPath.copyOut]
  generalize (if v.len > p.payload.length - s.lastoffset then p.payload.length - s.lastoffset
    else v.len) = copylen
  obtain ⟨hconn, hpcb⟩ := leave_conn (s := s) v.peek (p.payload.length - s.lastoffset) copylen
  generalize s.leave v.peek (p.payload.length - s.lastoffset) copylen = t at hconn hpcb
  have hsettle : ∀ place : Place, place.Quiet → Counted { t with place := place } := by
    intro place hquiet
    refine h.quiet hquiet hpcb ?_ ?_ ?_
    · dsimp only
      rw [hconn, hhand, Int.sub_zero]
    · exact fun hf => hconn ▸ hf
    · exact hconn ▸ hsocket
  split_ifs with hdone hmem
  · exact hsettle _ trivial
  · exact hsettle _ trivial
  · -- the reader goes on, because the counter is positive
    have hpos : ¬s.conn.rcvevent ≤ 0 := fun hle => hdone (Or.inr (Or.inr (Or.inl hle)))
    obtain ⟨extra, hevents, hextra⟩ := h.events
    rw [hhand] at hevents
    constructor
    · exact ⟨extra, hconn ▸ hevents, hpcb ▸ hextra⟩
    · intro _
      exact hconn ▸ h.found hidle hhand hpos
    · exact fun hnone => hconn ▸ h.fatal (hpcb ▸ hnone)
    · intro _ w hw
      cases hw
    · exact fun _ => hconn ▸ hsocket

/-- The reader goes to a place at which it promises nothing new. -/
theorem Counted.goes (h : Counted s) {place : Place} (hidle : s.place ≠ .idle)
    (hhand : place.inHand = s.place.inHand) (hready : place.Ready s.conn)
    (hwakes : s.pcb = none → ∀ v, place = .fetch v → s.conn.recvmbox ≠ []) :
    Counted { s with place := place } where
  events := by
    obtain ⟨extra, hevents, hextra⟩ := h.events
    exact ⟨extra, hhand.symm ▸ hevents, hextra⟩
  ready := hready
  fatal := h.fatal
  wakes := hwakes
  accepted _ := h.accepted hidle

/-- The reader takes a message out of the mailbox. -/
theorem Counted.fetches (h : Counted s) (hplace : s.place = .fetch v) {m : Option Pbuf}
    {rest : List (Option Pbuf)} (hbox : s.conn.recvmbox = m :: rest) {place : Place}
    (hhand : place.inHand = 1) :
    Counted { s with conn := { s.conn with recvmbox := rest }, place := place } where
  events := by
    obtain ⟨extra, hevents, hextra⟩ := h.events
    refine ⟨extra, ?_, hextra⟩
    have hsame : Netconn.events { s.conn with recvmbox := rest } = s.conn.events := rfl
    have hnone : s.place.inHand = 0 := by rw [hplace]; rfl
    have hlen : s.conn.recvmbox.length = rest.length + 1 := by rw [hbox]; rfl
    rw [hsame, hhand]
    dsimp only
    omega
  ready := by
    cases place with
    | eof w => trivial
    | closed w => trivial
    | got w p => trivial
    | _ => cases hhand
  fatal := h.fatal
  wakes _ w hw := by
    have hplace' : place = .fetch w := hw
    rw [hplace'] at hhand
    cases hhand
  accepted _ := h.accepted (by rw [hplace]; exact fun h => by cases h)

theorem Counted.go (h : Counted s) : Counted s.go.1 := by
  have hready := h.ready
  unfold RecvPath.go
  cases hplace : s.place with
  | idle => exact h
  | eof v => exact h
  | recved v => exact h
  | top v =>
    have hidle : s.place ≠ .idle := by rw [hplace]; exact fun h => by cases h
    have hhand : s.place.inHand = 0 := by rw [hplace]; rfl
    rw [hplace] at hready
    dsimp only
    split_ifs with hdata hwait
    · exact h.goes hidle hhand.symm trivial fun _ w hw => by cases hw
    · exact h.fails .wouldblock rfl (by rw [hhand, Int.sub_zero]) id (h.accepted hidle)
    · refine h.goes hidle hhand.symm (fun hv => ?_) fun _ w hw => by cases hw
      rcases hv with hdont | hmem
      · exact h.found hidle hhand fun hle => hwait ⟨hdont, hle⟩
      · exact hready hmem
  | recvData v =>
    have hidle : s.place ≠ .idle := by rw [hplace]; exact fun h => by cases h
    have hhand : s.place.inHand = 0 := by rw [hplace]; rfl
    rw [hplace] at hready
    dsimp only
    split_ifs with hfull hfatal
    · exact h.fails _ rfl (by rw [hhand, Int.sub_zero]) id (h.accepted hidle)
    · exact h.fails _ rfl (by rw [hhand, Int.sub_zero]) id (h.accepted hidle)
    · refine h.goes hidle hhand.symm (fun hv => (hready hv).resolve_right hfatal) ?_
      exact fun hnone _ _ => absurd (h.fatal hnone) hfatal
  | fetch v =>
    dsimp only
    rcases hbox : s.conn.recvmbox with _ | ⟨_ | p, rest⟩
    · exact h
    · exact h.fetches hplace hbox rfl
    · exact h.fetches hplace hbox rfl
  | closed v =>
    have hidle : s.place ≠ .idle := by rw [hplace]; exact fun h => by cases h
    have hhand : s.place.inHand = 1 := by rw [hplace]; rfl
    have hsocket := h.accepted hidle
    have hsafe : s.conn.rcvminus.Grows (s.conn.rcvminus.setSafeErr .clsd) := setSafeErr_grows .clsd
    have hminus := events_rcvminus hsocket
    have hgrows := hsafe.events
    have hsame : s.conn.rcvminus.recvmbox = s.conn.recvmbox ∧
        s.conn.rcvminus.lastErr = s.conn.lastErr ∧ s.conn.rcvminus.socket = s.conn.socket := by
      unfold Netconn.rcvminus
      split_ifs <;> exact ⟨rfl, rfl, rfl⟩
    refine h.fails .clsd rfl ?_ (fun hf => hsafe.fatal ?_) (hsafe.socket ?_)
    · dsimp only
      rw [hgrows, hminus, hsame.1, hhand]
      omega
    · rw [hsame.2.1]
      exact hf
    · rw [hsame.2.2]
      exact hsocket
  | got v p =>
    have hidle : s.place ≠ .idle := by rw [hplace]; exact fun h => by cases h
    have hhand : s.place.inHand = 1 := by rw [hplace]; rfl
    have hsocket := h.accepted hidle
    have hminus := events_rcvminus hsocket
    have hsame : s.conn.rcvminus.recvmbox = s.conn.recvmbox ∧
        s.conn.rcvminus.lastErr = s.conn.lastErr ∧ s.conn.rcvminus.socket = s.conn.socket := by
      unfold Netconn.rcvminus
      split_ifs <;> exact ⟨rfl, rfl, rfl⟩
    refine h.quiet trivial rfl ?_ ?_ ?_
    · dsimp only
      rw [hminus, hsame.1, hhand]
      omega
    · exact fun hf => hsame.2.1.symm ▸ hf
    · exact hsame.2.2.symm ▸ hsocket
  | copy v =>
    dsimp only
    cases s.lastdata with
    | none => exact h
    | some p => exact h.copyOut hplace p

theorem Counted.answer (h : Counted s) (sent : Bool) : Counted (s.answer sent).1 := by
  unfold RecvPath.answer
  cases hplace : s.place with
  | eof v =>
    have hidle : s.place ≠ .idle := by rw [hplace]; exact fun h => by cases h
    obtain ⟨extra, hevents, hextra⟩ := h.events
    rw [hplace] at hevents
    refine ⟨⟨extra, hevents, ?_⟩, trivial, ?_, ?_, fun _ => h.accepted hidle⟩
    · exact hextra.imp_right fun ⟨h1, h2⟩ => ⟨h1, Option.map_eq_none_iff.mpr h2⟩
    · exact fun hnone => h.fatal (Option.map_eq_none_iff.mp hnone)
    · intro _ w hw
      cases hw
  | recved v =>
    have hidle : s.place ≠ .idle := by rw [hplace]; exact fun h => by cases h
    obtain ⟨extra, hevents, hextra⟩ := h.events
    rw [hplace] at hevents
    refine ⟨⟨extra, hevents, ?_⟩, trivial, ?_, ?_, fun _ => h.accepted hidle⟩
    · exact hextra.imp_right fun ⟨h1, h2⟩ => ⟨h1, Option.map_eq_none_iff.mpr h2⟩
    · exact fun hnone => h.fatal (Option.map_eq_none_iff.mp hnone)
    · intro _ w hw
      cases hw
  | _ => exact h

theorem Counted.step (h : Counted s) (i : RecvInput) : Counted (s.step i).1 := by
  cases i with
  | segment seg sent =>
    dsimp only [RecvPath.step]
    cases hpcb : s.pcb with
    | none => exact h
    | some pcb =>
      have hsome : s.pcb ≠ none := by rw [hpcb]; exact Option.some_ne_none pcb
      rcases tcpInput_grows sent seg pcb s.conn with
        ⟨halive, hgrows⟩ | ⟨conn', hgrows, heq⟩
      · exact h.grows hgrows ⟨fun hn => absurd hn halive, fun hn => absurd hn hsome⟩
      · dsimp only
        rw [heq]
        exact h.ends hsome hgrows rfl
  | fasttmr sent =>
    dsimp only [RecvPath.step]
    cases hpcb : s.pcb with
    | none => exact h
    | some pcb =>
      refine h.grows (tcpAgain_grows sent _ s.conn) ⟨fun hn => (by cases hn), fun hn => ?_⟩
      rw [hpcb] at hn
      cases hn
  | output => exact h.grows .refl Option.map_eq_none_iff
  | probe => exact h.grows .refl Option.map_eq_none_iff
  | abort =>
    dsimp only [RecvPath.step]
    cases hpcb : s.pcb with
    | none => exact h
    | some pcb =>
      have hsome : s.pcb ≠ none := by rw [hpcb]; exact Option.some_ne_none pcb
      exact h.ends hsome .refl rfl
  | accept socket =>
    dsimp only [RecvPath.step]
    split_ifs with hneg
    · have hgrows : s.conn.Grows { s.conn with
          rcvevent := s.conn.rcvevent + (-1 - s.conn.socket), socket := socket } := by
        refine ⟨?_, id, id, fun _ => Int.natCast_nonneg socket⟩
        unfold Netconn.events
        rw [if_pos hneg, if_neg (Int.not_lt.mpr (Int.natCast_nonneg socket)), Int.add_zero]
      exact h.grows hgrows Iff.rfl
    · exact h
  | call dontwait peek len =>
    dsimp only [RecvPath.step]
    cases hplace : s.place with
    | idle =>
      dsimp only
      split_ifs with hneg
      · exact h
      · obtain ⟨extra, hevents, hextra⟩ := h.events
        rw [hplace] at hevents
        refine ⟨⟨extra, hevents, hextra⟩, fun hv => absurd rfl hv, h.fatal, ?_, ?_⟩
        · intro _ w hw
          cases hw
        · exact fun _ => Int.not_lt.mp hneg
    | _ => exact h
  | go => exact h.go
  | answer sent => exact h.answer sent
  | timeout =>
    dsimp only [RecvPath.step]
    cases hplace : s.place with
    | fetch v =>
      have hidle : s.place ≠ .idle := by rw [hplace]; exact fun h => by cases h
      have hhand : s.place.inHand = 0 := by rw [hplace]; rfl
      have hsafe : s.conn.Grows (s.conn.setSafeErr .timeout) := setSafeErr_grows .timeout
      dsimp only
      split_ifs
      · refine h.fails .timeout rfl ?_ hsafe.fatal (hsafe.socket (h.accepted hidle))
        rw [hhand, Int.sub_zero]
        exact hsafe.events
      · exact h
    | _ => exact h

/-- A connection begins with a socket, or waits for `accept` with the socket -1. -/
theorem Counted.start (irs : BitVec 32) (mss recvTimeout : Nat) {socket : Int}
    (hsocket : -1 ≤ socket) : Counted (.start irs mss recvTimeout socket) := by
  refine ⟨⟨0, ?_, Or.inl rfl⟩, trivial, fun h => (by cases h), fun h => (by cases h),
    fun h => absurd rfl h⟩
  have hzero : (if socket < 0 then -1 - socket else 0) = 0 := by
    split_ifs <;> omega
  exact (Int.zero_add _).trans hzero

theorem Counted.run (h : Counted s) (is : List RecvInput) : Counted (recvPath.run s is) :=
  (recvPath.run_invariant' Counted (fun _ i hs => hs.step i) h is).2

/--
**A reader does not wait for nothing.** Between two calls the counter is the number of messages. A call which
is not to wait, or has got something already, or whose connection is gone, finds a message when it fetches,
however the stack interleaves with it.
-/
theorem fetch_finds (irs : BitVec 32) (mss recvTimeout : Nat) {socket : Int} (hsocket : -1 ≤ socket)
    (is : List RecvInput) :
    let s := recvPath.run (.start irs mss recvTimeout socket) is
    (s.place = .idle → s.pcb ≠ none → s.conn.events = s.conn.recvmbox.length) ∧
      ∀ v, s.place = .fetch v → v.dontwait = true ∨ v.mem ≠ [] ∨ s.pcb = none →
        s.conn.recvmbox ≠ [] := by
  intro s
  have h : Counted s := (Counted.start irs mss recvTimeout hsocket).run is
  constructor
  · intro hidle halive
    obtain ⟨extra, hevents, hextra⟩ := h.events
    obtain rfl : extra = 0 := hextra.resolve_right fun hx => halive hx.2
    rw [hidle] at hevents
    exact hevents.trans (by rw [Place.inHand, Int.add_zero, Int.add_zero])
  · intro v hplace hv
    have hready := h.ready
    rw [hplace] at hready
    rcases hv with hdont | hmem | hnone
    · exact hready (Or.inl hdont)
    · exact hready (Or.inr hmem)
    · exact h.wakes hnone v hplace

/-- The connection is reset while the reader waits. -/
theorem fetch_finds_reset :
    (recvPath.run (.start 0 536 0 (-1))
      [.accept 2, .call false false 4, .go, .go,
        .segment ⟨0, [], false, false, true, false⟩ false]).conn.recvmbox ≠ [] :=
  (fetch_finds 0 536 0 (by decide) _).2 ⟨false, false, 4, []⟩ rfl (Or.inr (Or.inr rfl))

end Steps

end PlcFirmware.Lwip
