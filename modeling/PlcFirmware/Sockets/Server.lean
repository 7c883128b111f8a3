import PlcFirmware.Sockets.Invariant

/-!
# The listening socket

`sock_fd` is the socket on which `Socket_task` has called `listen`, until another `Socket_task` comes to
its `socket`: what that returns goes to `sock_fd` before `bind` refuses it. The listening socket itself
is never closed; only its number is lost.

* `sockFd_listens_iff` — when `sock_fd` denotes the listening socket
-/

namespace PlcFirmware.Sockets

open Infra

variable {s : Sys} {t t' : Table} {held : Bool} {d : Int}

/-- The socket on which the server service listens. -/
def Listening (o : Option Sock) : Prop :=
  ∃ sock, o = some sock ∧ sock.origin = .server ∧ sock.localPort = serverPort ∧ sock.listening = true

/-- `sock_fd` denotes the listening socket. -/
def Sys.Denotes (s : Sys) : Prop := Listening (s.sockets.get s.sockFd)

theorem Listening.keep {o : Origin} (h : Listening (t.get d)) (hk : Keeps o t t') (hne : .server ≠ o) :
    Listening (t'.get d) := by
  obtain ⟨sock, hget, ho, hp, hl⟩ := h
  obtain ⟨sock', hget', hg⟩ := hk d sock hget (ho ▸ hne)
  exact ⟨sock', hget', hg.origin.trans ho, hg.localPort hp, hg.listening hl⟩

/-- `Socket_init`, or a step of a task of the server service. -/
def Input.Server : Input → Prop
  | .initClient _ => False
  | .socketInit _ => True
  | .task t _ => t = .socket ∨ t = .connectClient ∨ t = .revFile

instance : (i : Input) → Decidable i.Server
  | .initClient _ => .isFalse id
  | .socketInit _ => .isTrue trivial
  | .task t _ => inferInstanceAs (Decidable (t = .socket ∨ t = .connectClient ∨ t = .revFile))

/-- No `Socket_task` has come to its `socket`. -/
def NoSocket (events : List Event) : Prop := ∀ sockFd, .serverSocket sockFd ∉ events

/-! ## Steps -/

theorem keeps_lwipBind (o : Origin) (ok : Bool) (fd : Int) (t : Table) :
    Keeps o t (lwipBind ok fd serverPort t).1 := by
  unfold lwipBind
  split
  · exact keeps_modify grows_port o _ _
  · exact .refl o t

theorem keeps_lwipListen (o : Origin) (ok : Bool) (fd : Int) (t : Table) :
    Keeps o t (lwipListen ok fd t).1 := by
  unfold lwipListen
  split
  · exact keeps_modify grows_listening o _ _
  · exact .refl o t

/-- **The server service closes no socket but accepted connections.** -/
theorem keeps_step (h : Owned s held) {i : Input} (hi : i.Server) :
    Keeps .accepted s.sockets (services.step s i).1.sockets := by
  cases i with
  | initClient ok => cases hi
  | socketInit ok => exact .refl _ _
  | task task ok =>
    rcases hi with rfl | rfl | rfl
    · simp only [services, Sys.step, socketTask]
      split
      · exact .refl _ _
      · exact keeps_lwipSocket _ _ _ _
      · exact keeps_lwipBind _ _ _ _
      · exact keeps_lwipListen _ _ _ _
      · exact .refl _ _
      · exact .refl _ _
    · simp only [services, Sys.step, connectClientTask]
      split
      · exact .refl _ _
      · exact .refl _ _
      · next fd _ => exact (lwipAccept_spec ok fd s.sockets).1 .accepted
      · exact .refl _ _
      · exact .refl _ _
    · simp only [services, Sys.step, revFileTask]
      split
      · exact .refl _ _
      · exact .refl _ _
      · split <;> exact .refl _ _
      · next sockConn htask =>
        exact keeps_close fun origin hd =>
          (h.serves.received sockConn (.inr htask)).eq_of_hasOrigin hd
      · exact .refl _ _
      · exact .refl _ _

/-- A step stores the result of `socket` in `sock_fd`, or leaves it as it is. -/
theorem server_cases (s : Sys) {i : Input} (hi : i.Server) :
    (services.step s i).1.sockFd = s.sockFd ∧ ((services.step s i).2 = [] ∨
        (services.step s i).2 = [.serverAccept (s.sockets.get s.sockFd)]) ∨
      ∃ ok, (services.step s i).1.sockets = (lwipSocket ok .server s.sockets).1 ∧
        (services.step s i).1.sockFd = (lwipSocket ok .server s.sockets).2 ∧
        (services.step s i).2 = [.serverSocket (lwipSocket ok .server s.sockets).2] := by
  cases i with
  | initClient ok => cases hi
  | socketInit ok => exact .inl ⟨rfl, .inl rfl⟩
  | task task ok =>
    rcases hi with rfl | rfl | rfl
    · simp only [services, Sys.step, socketTask]
      split
      · exact .inl ⟨rfl, .inl rfl⟩
      · exact .inr ⟨ok, rfl, rfl, rfl⟩
      all_goals exact .inl ⟨rfl, .inl rfl⟩
    · simp only [services, Sys.step, connectClientTask]
      split
      · exact .inl ⟨rfl, .inl rfl⟩
      · exact .inl ⟨rfl, .inr rfl⟩
      all_goals exact .inl ⟨rfl, .inl rfl⟩
    · simp only [services, Sys.step, revFileTask]
      split
      · exact .inl ⟨rfl, .inl rfl⟩
      · exact .inl ⟨rfl, .inl rfl⟩
      · split <;> exact .inl ⟨rfl, .inl rfl⟩
      all_goals exact .inl ⟨rfl, .inl rfl⟩

theorem Owned.server_step (h : Owned s held) {i : Input} (hi : i.Server) :
    Owned (services.step s i).1 ((services.step s i).2.foldl noteHeld held) := by
  refine h.step i fun sock hsock => ?_
  rcases server_cases s hi with ⟨-, heq | heq⟩ | ⟨ok, -, -, heq⟩ <;> simp [heq] at hsock

/-- `sock_fd` denotes the listening socket as long as nothing is stored in it. -/
theorem Sys.Denotes.step (hd : s.Denotes) (h : Owned s held) {i : Input} (hi : i.Server)
    (hfd : (services.step s i).1.sockFd = s.sockFd) : (services.step s i).1.Denotes := by
  unfold Sys.Denotes
  rw [hfd]
  exact hd.keep (keeps_step h hi) (by decide)

/-- **What `socket` returns does not listen.** -/
theorem not_listening_lwipSocket (ok : Bool) (t : Table) :
    ¬Listening ((lwipSocket ok .server t).1.get (lwipSocket ok .server t).2) := by
  rintro ⟨sock, hget, -, -, hl⟩
  unfold lwipSocket at hget
  split at hget
  · rcases t.alloc_spec ⟨.server, 0, false⟩ with hfull | ⟨-, -, hnew⟩
    · rw [hfull, Slots.get_neg_one] at hget
      cases hget
    · rw [hnew, if_pos rfl] at hget
      cases hget
      cases hl
  · rw [Slots.get_neg_one] at hget
    cases hget

/-! ## The first `Socket_task` -/

/-- What `Socket_task` has done so far. -/
structure Opened (s : Sys) : Prop where
  bound : s.socket = some .listen → Bound s.sockets s.sockFd
  listens : s.socket = some .create → s.Denotes

theorem Opened.of_same {s' : Sys} (ho : Opened s) (hk : Keeps .accepted s.sockets s'.sockets)
    (hs : s'.socket = s.socket) (hfd : s'.sockFd = s.sockFd) : Opened s' where
  bound := fun hsock => hfd ▸ (ho.bound (hs ▸ hsock)).keep hk (by decide)
  listens := fun hsock => by
    rw [Sys.Denotes, hfd]
    exact (ho.listens (hs ▸ hsock)).keep hk (by decide)

theorem Opened.socketTask (ho : Opened s) (h : Owned s held) (ok : Bool) :
    Opened (socketTask ok s).1 := by
  unfold Sockets.socketTask
  split
  · exact ho
  · refine ⟨fun hsock => ?_, fun hsock => ?_⟩
    all_goals
      simp only [Option.some.injEq] at hsock
      split at hsock <;> cases hsock
  · next htask =>
    refine ⟨fun hsock => ?_, fun hsock => ?_⟩
    · obtain ⟨sock, hget, hor⟩ := h.serves.binding htask
      simp only [lwipBind] at hsock ⊢
      split at hsock
      · next hok =>
        rw [if_pos hok]
        exact ⟨{ sock with localPort := serverPort },
          by simp only [Slots.get_modify, if_true, hget, Option.map_some], hor, rfl⟩
      · cases hsock
    · simp only [Option.some.injEq] at hsock
      split at hsock <;> cases hsock
  · next htask =>
    refine ⟨fun hsock => ?_, fun hsock => ?_⟩
    · simp only [Option.some.injEq] at hsock
      split at hsock <;> cases hsock
    · obtain ⟨sock, hget, hor, hp⟩ := ho.bound htask
      simp only [Sys.Denotes, lwipListen] at hsock ⊢
      split at hsock
      · next hok =>
        rw [if_pos hok]
        exact ⟨{ sock with listening := true },
          by simp only [Slots.get_modify, if_true, hget, Option.map_some], hor, hp, rfl⟩
      · cases hsock
  · exact ⟨nofun, nofun⟩
  · exact ⟨nofun, nofun⟩

theorem Opened.step (ho : Opened s) (h : Owned s held) {i : Input} (hi : i.Server) :
    Opened (services.step s i).1 := by
  have hk := keeps_step h hi
  cases i with
  | initClient ok => cases hi
  | socketInit ok =>
    exact ⟨fun hsock => ho.bound (osTaskCreate_eq_some hsock nofun),
      fun hsock => ho.listens (osTaskCreate_eq_some hsock nofun)⟩
  | task task ok =>
    rcases hi with rfl | rfl | rfl
    · exact ho.socketTask h ok
    · refine ho.of_same hk ?_ ?_
      all_goals
        simp only [services, Sys.step, connectClientTask]
        split <;> rfl
    · refine ho.of_same hk ?_ ?_
      all_goals
        simp only [services, Sys.step, revFileTask]
        split
        · rfl
        · rfl
        · split <;> rfl
        all_goals rfl

theorem opened_boot : Opened .boot := ⟨nofun, nofun⟩

/-- What holds of the server service after any steps of it. -/
theorem server_run {is : List Input} (hi : ∀ i ∈ is, i.Server) (ho : Opened s) (h : Owned s held) :
    Opened (services.run s is) ∧ ∃ held', Owned (services.run s is) held' := by
  induction is generalizing s held with
  | nil => exact ⟨ho, held, h⟩
  | cons i is ih =>
    obtain ⟨hi, his⟩ := List.forall_mem_cons.mp hi
    exact ih his (ho.step h hi) (h.server_step hi)

/-! ## Runs -/

/-- In all states of the run `sock_fd` denotes the listening socket, and all `accept` calls are on it. -/
structure Survives (s : Sys) (is : List Input) : Prop where
  states : ∀ p ∈ services.transitions s is, p.1.Denotes
  final : (services.run s is).Denotes
  accepts : ∀ o, .serverAccept o ∈ services.trace s is → Listening o

theorem Survives.first {is : List Input} (h : Survives s is) : s.Denotes := by
  cases is with
  | nil => exact h.final
  | cons i is => exact h.states (s, i) List.mem_cons_self

theorem survives_cons {i : Input} {is : List Input} :
    Survives s (i :: is) ↔ s.Denotes ∧ (∀ o, .serverAccept o ∈ (services.step s i).2 → Listening o) ∧
      Survives (services.step s i).1 is := by
  constructor
  · rintro ⟨hstates, hfinal, haccepts⟩
    rw [Machine.transitions_cons] at hstates
    rw [Machine.trace_cons] at haccepts
    exact ⟨hstates (s, i) List.mem_cons_self,
      fun o ho => haccepts o (List.mem_append_left _ ho),
      fun p hp => hstates p (List.mem_cons_of_mem _ hp), hfinal,
      fun o ho => haccepts o (List.mem_append_right _ ho)⟩
  · rintro ⟨hd, hstep, hstates, hfinal, haccepts⟩
    refine ⟨List.forall_mem_cons.mpr ⟨hd, hstates⟩, hfinal, fun o ho => ?_⟩
    rcases List.mem_append.mp ho with ho | ho
    · exact hstep o ho
    · exact haccepts o ho

theorem survives_iff {is : List Input} (hi : ∀ i ∈ is, i.Server) (hd : s.Denotes) (h : Owned s held) :
    Survives s is ↔ NoSocket (services.trace s is) := by
  induction is generalizing s held with
  | nil => exact iff_of_true ⟨by simp, hd, by simp⟩ (by simp [NoSocket])
  | cons i is ih =>
    obtain ⟨hi, his⟩ := List.forall_mem_cons.mp hi
    rw [survives_cons, Machine.trace_cons]
    rcases server_cases s hi with ⟨hfd, hev⟩ | ⟨ok, ht, hfd, hev⟩
    · have hrest := ih his (hd.step h hi hfd) (h.server_step hi)
      have hacc : ∀ o, .serverAccept o ∈ (services.step s i).2 → Listening o := by
        intro o ho
        rcases hev with hev | hev
        · rw [hev] at ho; cases ho
        · rw [hev] at ho
          obtain rfl : o = s.sockets.get s.sockFd := by simpa using ho
          exact hd
      have hno : NoSocket (services.step s i).2 := by
        rcases hev with hev | hev <;> simp [NoSocket, hev]
      constructor
      · rintro ⟨-, -, hs⟩ fd hfd
        exact (List.mem_append.mp hfd).elim (hno fd) (hrest.mp hs fd)
      · intro hs
        exact ⟨hd, hacc, hrest.mpr fun fd hfd => hs fd (List.mem_append_right _ hfd)⟩
    · -- `sock_fd` is lost
      refine iff_of_false ?_ fun hno => ?_
      · rintro ⟨-, -, hs⟩
        have hfirst := hs.first
        rw [Sys.Denotes, ht, hfd] at hfirst
        exact not_listening_lwipSocket ok s.sockets hfirst
      · exact hno _ (List.mem_append_left _ (by rw [hev]; exact List.mem_cons_self))

/--
**After a `Socket_task` has come through `listen`, `sock_fd` denotes the listening socket for ever, and
every `accept` is on it, if and only if** no other `Socket_task` comes to its `socket`.
-/
theorem sockFd_listens_iff (start is : List Input) (hstart : ∀ i ∈ start, i.Server)
    (his : ∀ i ∈ is, i.Server) (hopen : (services.run .boot start).socket = some .create) :
    Survives (services.run .boot start) is ↔
      NoSocket (services.trace (services.run .boot start) is) := by
  obtain ⟨ho, held, h⟩ := server_run hstart opened_boot owned_boot
  exact survives_iff his (ho.listens hopen) h

/-- The first `Socket_init`, up to `listen`. -/
def firstStart : List Input :=
  [.socketInit true, .task .socket true, .task .socket true, .task .socket true]

/-- A client connects and goes away. -/
def oneClient : List Input :=
  [.task .socket true, .task .socket true, .task .connectClient true, .task .connectClient true,
    .task .connectClient true, .task .revFile true, .task .revFile false]

theorem sockFd_listens_iff_oneClient :
    Survives (services.run .boot firstStart) oneClient ↔
      NoSocket (services.trace (services.run .boot firstStart) oneClient) :=
  sockFd_listens_iff firstStart oneClient (by decide) (by decide) (by decide)

/-- `Socket_init` again, and its `bind`. -/
def secondStart : List Input := oneClient ++ [.socketInit true, .task .socket true, .task .socket true]

/-- `bind` fails, and `sock_fd` is a socket which is not bound. -/
theorem second_start_loses_sockFd :
    (services.run .boot firstStart).socket = some .create ∧
      ¬Survives (services.run .boot firstStart) secondStart := by
  refine ⟨by decide, fun h => ?_⟩
  obtain ⟨sock, hget, -, hport, -⟩ := h.final
  have hlost : (services.run (services.run .boot firstStart) secondStart).sockets.get
      (services.run (services.run .boot firstStart) secondStart).sockFd =
      some ⟨.server, 0, false⟩ := by decide
  rw [hlost] at hget
  cases hget
  cases hport

end PlcFirmware.Sockets
