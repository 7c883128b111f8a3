import PlcFirmware.Sockets.Invariant

/-!
# The closes of the client service

`sock_connect` keeps the number of a socket which has been closed, and is 0 before there has been one;
the number may belong to the server service by then. A close is in turn when the call before it, of
the calls which the client makes with `sock_connect`, is a `socket` which gave one.

* `client_closes_own_iff` — a close acts on the client's own socket exactly in turn
-/

namespace PlcFirmware.Sockets

open Infra

/-- A `close(sock_connect)`: whether it comes in turn, and the socket it acts on. -/
structure ClientClose where
  inTurn : Bool
  sock : Option Sock
  deriving DecidableEq

/-- The close acts on a socket which the client service has made. -/
def ClientClose.own (c : ClientClose) : Bool := c.sock.any (·.origin = .client)

/-- The close acts on a socket of the server service. -/
def ClientClose.hitsServer (c : ClientClose) : Bool := c.sock.any (·.origin ≠ .client)

/-- The closes which the client service makes. -/
def clientCloses (held : Bool) : List Event → List ClientClose
  | [] => []
  | .clientClose sock :: es => ⟨held, sock⟩ :: clientCloses false es
  | .clientSocket sockConnect :: es => clientCloses (sockConnect ≠ -1) es
  | .serverSocket _ :: es => clientCloses held es
  | .serverAccept _ :: es => clientCloses held es

theorem clientCloses_append (held : Bool) (xs ys : List Event) :
    clientCloses held (xs ++ ys) = clientCloses held xs ++ clientCloses (xs.foldl noteHeld held) ys := by
  induction xs generalizing held with
  | nil => rfl
  | cons x xs ih => cases x <;> simp [clientCloses, noteHeld, ih]

/-- Nothing but a close is a close. -/
theorem clientCloses_eq_nil {held : Bool} {es : List Event} (h : ∀ sock, .clientClose sock ∉ es) :
    clientCloses held es = [] := by
  induction es generalizing held with
  | nil => rfl
  | cons e es ih =>
    have hes : ∀ sock, .clientClose sock ∉ es := fun sock hs => h sock (List.mem_cons_of_mem _ hs)
    cases e with
    | clientClose sock => exact absurd List.mem_cons_self (h sock)
    | clientSocket sockConnect => exact ih hes
    | serverSocket sockFd => exact ih hes
    | serverAccept sock => exact ih hes

variable {s : Sys} {held : Bool}

/-! ## A step -/

theorem own_iff {o : Option Sock} :
    (ClientClose.mk held o).own = true ↔ ∃ sock, o = some sock ∧ sock.origin = .client := by
  simp [ClientClose.own, Option.any_eq_true]

theorem hitsServer_iff (held : Bool) {o : Option Sock} :
    (ClientClose.mk held o).hitsServer = true ↔ ∃ sock, o = some sock ∧ sock.origin ≠ .client := by
  simp [ClientClose.hitsServer, Option.any_eq_true]

/-- **A close acts on the client's own socket if it comes in turn, and on none of it if not.** -/
theorem Owned.own_iff_inTurn (h : Owned s held) (i : Input) :
    ∀ c ∈ clientCloses held (services.step s i).2, c.own = true ↔ c.inTurn = true := by
  intro c hc
  rcases close_cases s i with heq | hno
  · rw [heq] at hc
    obtain rfl := List.mem_singleton.mp hc
    refine own_iff.trans ((h.holds.owner s.sockConnect).trans ?_)
    simp
  · rw [clientCloses_eq_nil hno] at hc
    cases hc

/-- A close which hits no socket of the server service keeps the sockets in order. -/
theorem Owned.step_of_not_hits (h : Owned s held) (i : Input)
    (hno : ∀ c ∈ clientCloses held (services.step s i).2, c.hitsServer = false) :
    Owned (services.step s i).1 ((services.step s i).2.foldl noteHeld held) := by
  refine h.step i fun sock hsock origin horigin => ?_
  rcases close_cases s i with heq | hnone
  · rw [heq] at hno
    obtain ⟨sock', hget, rfl⟩ := horigin
    by_contra hne
    have hhits := hno _ List.mem_cons_self
    rw [(hitsServer_iff held).mpr ⟨sock', hget, hne⟩] at hhits
    cases hhits
  · exact absurd hsock (hnone sock)

/-- An own socket is none of the server service. -/
theorem ClientClose.hitsServer_of_own {c : ClientClose} (h : c.own = true) : c.hitsServer = false := by
  obtain ⟨inTurn, o⟩ := c
  obtain ⟨sock, rfl, ho⟩ := own_iff.mp h
  simp [ClientClose.hitsServer, ho]

/-! ## Runs -/

/-- The sockets stay in order as long as no close hits the server service. -/
theorem Owned.run (h : Owned s held) (is : List Input)
    (hno : ∀ c ∈ clientCloses held (services.trace s is), c.hitsServer = false) :
    Owned (services.run s is) ((services.trace s is).foldl noteHeld held) := by
  induction is generalizing s held with
  | nil => exact h
  | cons i is ih =>
    simp only [Machine.trace_cons, clientCloses_append, List.forall_mem_append] at hno
    rw [Machine.run_cons, Machine.trace_cons, List.foldl_append]
    exact ih (h.step_of_not_hits i hno.1) hno.2

/-- All closes are on the client's own socket exactly if all of them come in turn. -/
theorem Owned.closes_iff (h : Owned s held) (is : List Input) :
    (∀ c ∈ clientCloses held (services.trace s is), c.own = true) ↔
      ∀ c ∈ clientCloses held (services.trace s is), c.inTurn = true := by
  induction is generalizing s held with
  | nil => simp [clientCloses]
  | cons i is ih =>
    rw [Machine.trace_cons, clientCloses_append, List.forall_mem_append, List.forall_mem_append]
    have hiff := h.own_iff_inTurn i
    have hfirst : (∀ c ∈ clientCloses held (services.step s i).2, c.own = true) ↔
        ∀ c ∈ clientCloses held (services.step s i).2, c.inTurn = true :=
      forall₂_congr hiff
    rw [← hfirst]
    refine and_congr_right fun hown => ih (h.step_of_not_hits i fun c hc => ?_)
    exact ClientClose.hitsServer_of_own (hown c hc)

/--
**From a moment on, every close of the client service acts on its own open socket if and only if**
every one comes in turn. Up to that moment no close may have hit the server service, as none has at
the beginning.
-/
theorem client_closes_own_iff (before is : List Input)
    (hno : ∀ c ∈ clientCloses false (services.trace .boot before), c.hitsServer = false) :
    let held := (services.trace .boot before).foldl noteHeld false
    let closes := clientCloses held (services.trace (services.run .boot before) is)
    (∀ c ∈ closes, c.own = true) ↔ ∀ c ∈ closes, c.inTurn = true :=
  (owned_boot.run before hno).closes_iff is

/-- The first connection of the client; `close` acts on no socket before there is one. -/
def firstConnection : List Input :=
  [.initClient true, .task .initClient true, .task .initClient true, .task .initClient true,
    .task .initClient true]

/-- The server refuses it, and the client closes its socket. -/
def refused : List Input := [.task .connectServer false, .task .connectServer true]

theorem client_closes_own_iff_refused :
    let held := (services.trace .boot firstConnection).foldl noteHeld false
    let closes := clientCloses held (services.trace (services.run .boot firstConnection) refused)
    (∀ c ∈ closes, c.own = true) ↔ ∀ c ∈ closes, c.inTurn = true :=
  client_closes_own_iff firstConnection refused (by decide)

/-- `Socket_init`, until a client has connected; and then `Init_Client`. -/
def clientAfterServer : List Input :=
  [.socketInit true, .task .socket true, .task .socket true, .task .socket true, .task .socket true,
    .task .socket true, .task .connectClient true, .initClient true, .task .initClient true]

/-- The first `close(sock_connect)` closes the socket on which the server service listens. -/
theorem first_close_hits_server :
    clientCloses false (services.trace .boot clientAfterServer) =
      [⟨false, some ⟨.server, 8000, true⟩⟩] := by
  decide

end PlcFirmware.Sockets
