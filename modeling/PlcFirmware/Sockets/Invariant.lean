import PlcFirmware.Sockets.Basic

/-!
# Who owns which socket

The server service never has two connections at work: one of its tasks hands over to the next, and a
second `Socket_task` fails in `bind`. So the descriptor which `Rev_file_task` closes is its own. The
client service has at most one socket, as long as no close of it hits the server.

* `Owned.step` — what a step keeps
-/

namespace PlcFirmware.Sockets

open Infra

variable {s : Sys} {t t' : Table} {held : Bool} {d : Int}

/-! ## Tables -/

/-- The descriptor is a socket of this origin. -/
def HasOrigin (t : Table) (origin : Origin) (d : Int) : Prop :=
  ∃ sock, t.get d = some sock ∧ sock.origin = origin

/-- The descriptor is a socket of the server service, bound to its port. -/
def Bound (t : Table) (d : Int) : Prop :=
  ∃ sock, t.get d = some sock ∧ sock.origin = .server ∧ sock.localPort = serverPort

/-- The descriptor is a connection of the server service, or `-1`. -/
def Accepted (t : Table) (d : Int) : Prop := d = -1 ∨ HasOrigin t .accepted d

/-- What `bind` and `listen` may do to a socket. -/
structure Grows (sock sock' : Sock) : Prop where
  origin : sock'.origin = sock.origin
  localPort : sock.localPort = serverPort → sock'.localPort = serverPort
  listening : sock.listening = true → sock'.listening = true

theorem Grows.refl (sock : Sock) : Grows sock sock := ⟨rfl, id, id⟩

/-- The sockets of the other origins are still there. -/
def Keeps (o : Origin) (t t' : Table) : Prop :=
  ∀ d sock, t.get d = some sock → sock.origin ≠ o → ∃ sock', t'.get d = some sock' ∧ Grows sock sock'

/-- The client service has the same sockets. -/
def SameClient (t t' : Table) : Prop := ∀ d, HasOrigin t' .client d ↔ HasOrigin t .client d

theorem Keeps.refl (o : Origin) (t : Table) : Keeps o t t :=
  fun _ sock hget _ => ⟨sock, hget, .refl sock⟩

theorem Origin.server_ne_client : Origin.server ≠ .client := by decide

theorem Origin.accepted_ne_client : Origin.accepted ≠ .client := by decide

theorem Origin.server_ne_accepted : Origin.server ≠ .accepted := by decide

theorem Origin.client_ne_accepted : Origin.client ≠ .accepted := by decide

theorem HasOrigin.keep {o origin : Origin} (h : HasOrigin t origin d) (hk : Keeps o t t')
    (hne : origin ≠ o) : HasOrigin t' origin d := by
  obtain ⟨sock, hget, rfl⟩ := h
  obtain ⟨sock', hget', hg⟩ := hk d sock hget hne
  exact ⟨sock', hget', hg.origin⟩

theorem Bound.keep {o : Origin} (h : Bound t d) (hk : Keeps o t t') (hne : .server ≠ o) :
    Bound t' d := by
  obtain ⟨sock, hget, ho, hp⟩ := h
  obtain ⟨sock', hget', hg⟩ := hk d sock hget (ho ▸ hne)
  exact ⟨sock', hget', hg.origin.trans ho, hg.localPort hp⟩

theorem Accepted.keep {o : Origin} (h : Accepted t d) (hk : Keeps o t t') (hne : .accepted ≠ o) :
    Accepted t' d := h.imp_right fun ha => ha.keep hk hne

theorem not_hasOrigin_neg_one {origin : Origin} : ¬HasOrigin t origin (-1) := by
  rintro ⟨sock, hget, -⟩
  rw [Slots.get_neg_one] at hget
  cases hget

/-- A socket has one origin. -/
theorem HasOrigin.unique {o o' : Origin} (h : HasOrigin t o d) (h' : HasOrigin t o' d) : o = o' := by
  obtain ⟨sock, hget, rfl⟩ := h
  obtain ⟨sock', hget', rfl⟩ := h'
  rw [hget] at hget'
  cases hget'
  rfl

/-! ### `socket` and `accept` -/

theorem keeps_alloc (o : Origin) (t : Table) (sock : Sock) : Keeps o t (t.alloc sock).1 := by
  rcases t.alloc_spec sock with h | ⟨-, hfree, hget⟩
  · rw [h]
    exact .refl o t
  · -- what is in the table is elsewhere
    intro d old hd _
    refine ⟨old, ?_, .refl old⟩
    rw [hget, if_neg, hd]
    rintro rfl
    rw [hfree] at hd
    cases hd

/-- The new socket is the only one which comes to its origin. -/
theorem hasOrigin_alloc (t : Table) (sock : Sock) (origin : Origin) (d : Int) :
    HasOrigin (t.alloc sock).1 origin d ↔
      HasOrigin t origin d ∨ sock.origin = origin ∧ (t.alloc sock).2 ≠ -1 ∧ d = (t.alloc sock).2 := by
  rcases t.alloc_spec sock with h | ⟨hpos, hfree, hget⟩
  · simp [h]
  · simp only [HasOrigin, hget]
    by_cases hd : d = (t.alloc sock).2
    · subst hd
      simp [hfree, hpos]
    · simp [hd]

/-! ### `bind` and `listen` -/

variable {f : Sock → Sock}

theorem keeps_modify (hf : ∀ sock, Grows sock (f sock)) (o : Origin) (t : Table) (fd : Int) :
    Keeps o t (t.modify fd f) := by
  intro d sock hget _
  by_cases hd : d = fd
  · exact ⟨f sock, by rw [Slots.get_modify, if_pos hd, hget]; rfl, hf sock⟩
  · exact ⟨sock, by rw [Slots.get_modify, if_neg hd, hget], .refl sock⟩

theorem sameClient_modify (hf : ∀ sock, Grows sock (f sock)) (t : Table) (fd : Int) :
    SameClient t (t.modify fd f) := by
  intro d
  simp only [HasOrigin, Slots.get_modify]
  split
  · cases t.get d with
    | none => simp
    | some sock => simp [(hf sock).origin]
  · rfl

theorem grows_port (sock : Sock) : Grows sock { sock with localPort := serverPort } :=
  ⟨rfl, fun _ => rfl, id⟩

theorem grows_listening (sock : Sock) : Grows sock { sock with listening := true } :=
  ⟨rfl, id, fun _ => rfl⟩

/-! ### `close` -/

theorem hasOrigin_close (t : Table) (fd : Int) (origin : Origin) (d : Int) :
    HasOrigin (t.close fd) origin d ↔ HasOrigin t origin d ∧ d ≠ fd := by
  simp only [HasOrigin, Slots.get_close]
  by_cases hd : d = fd
  · simp [hd]
  · simp [hd]

/-- A close which hits at most a socket of this origin. -/
theorem keeps_close {o : Origin} {fd : Int} (h : ∀ origin, HasOrigin t origin fd → origin = o) :
    Keeps o t (t.close fd) := by
  intro d sock hget ho
  refine ⟨sock, ?_, .refl sock⟩
  rw [Slots.get_close, if_neg, hget]
  rintro rfl
  exact ho (h _ ⟨sock, hget, rfl⟩)

/-- **`Rev_file_task` closes its own connection.** -/
theorem Accepted.eq_of_hasOrigin {origin : Origin} (ha : Accepted t d) (h : HasOrigin t origin d) :
    origin = .accepted := by
  rcases ha with rfl | ha
  · exact absurd h not_hasOrigin_neg_one
  · exact h.unique ha

/-! ## The invariant -/

/-- The server task goes on to the next connection. -/
def SocketTask.Hands : Option SocketTask → Bool
  | some .listen => true
  | some .create => true
  | _ => false

def ConnectClientTask.Hands : Option ConnectClientTask → Bool
  | none => false
  | some .del => false
  | _ => true

def RevFileTask.Hands : Option RevFileTask → Bool
  | none => false
  | some .del => false
  | _ => true

/-- The number of tasks at work on a connection. -/
def Sys.chain (s : Sys) : Nat :=
  (SocketTask.Hands s.socket).toNat + (ConnectClientTask.Hands s.connectClient).toNat +
    (RevFileTask.Hands s.revFile).toNat

/-- What holds of the server service. -/
structure Serves (s : Sys) : Prop where
  chain : s.chain ≤ 1
  bound : 0 < s.chain → ∃ d, Bound s.sockets d
  binding : s.socket = some .bind → HasOrigin s.sockets .server s.sockFd
  connected : s.connectClient = some .create ∨ s.revFile = some .start →
    Accepted s.sockets s.sockConn
  received : ∀ d, s.revFile = some (.recv d) ∨ s.revFile = some (.close d) → Accepted s.sockets d

/-- What holds of the client service. It has a socket or not, and if it has one then `sock_connect`. -/
structure Holds (s : Sys) (held : Bool) : Prop where
  owner : ∀ d, HasOrigin s.sockets .client d ↔ held = true ∧ d = s.sockConnect
  socket : s.initClient = some .socket → held = false

/-- Who owns which socket. -/
structure Owned (s : Sys) (held : Bool) : Prop where
  serves : Serves s
  holds : Holds s held

/-- Whether the client service has a socket, as its calls tell. -/
def noteHeld (held : Bool) : Event → Bool
  | .clientSocket sockConnect => sockConnect ≠ -1
  | .clientClose _ => false
  | .serverSocket _ => held
  | .serverAccept _ => held

theorem owned_boot : Owned .boot false where
  serves :=
    { chain := by decide
      bound := fun h => absurd h (by decide)
      binding := fun h => by cases h
      connected := by rintro (h | h) <;> cases h
      received := by rintro d (h | h) <;> cases h }
  holds :=
    { owner := by
        intro d
        have hnone : Sys.boot.sockets.get d = none := by simp [Sys.boot, Slots.get, Slots.empty]
        simp [HasOrigin, hnone]
      socket := fun h => by cases h }

/-! ## Steps of the client service -/

/-- The server service is where it was. -/
structure SameServer (s s' : Sys) : Prop where
  sockFd : s'.sockFd = s.sockFd
  sockConn : s'.sockConn = s.sockConn
  socket : s'.socket = s.socket
  connectClient : s'.connectClient = s.connectClient
  revFile : s'.revFile = s.revFile

theorem Serves.of_same {s' : Sys} (h : Serves s) (hs : SameServer s s')
    (hk : Keeps .client s.sockets s'.sockets) : Serves s' := by
  have hchain : s'.chain = s.chain := by
    rw [Sys.chain, hs.socket, hs.connectClient, hs.revFile]
    rfl
  refine ⟨hchain ▸ h.chain, fun hpos => ?_, fun hb => ?_, fun hc => ?_, fun d hd => ?_⟩
  · obtain ⟨d, hd⟩ := h.bound (hchain ▸ hpos)
    exact ⟨d, hd.keep hk Origin.server_ne_client⟩
  · rw [hs.socket] at hb
    rw [hs.sockFd]
    exact (h.binding hb).keep hk Origin.server_ne_client
  · rw [hs.connectClient, hs.revFile] at hc
    rw [hs.sockConn]
    exact (h.connected hc).keep hk Origin.accepted_ne_client
  · rw [hs.revFile] at hd
    exact (h.received d hd).keep hk Origin.accepted_ne_client

/-- The close of the client service hits no socket of the server service. -/
def Sys.ClosesOwn (s : Sys) : Prop :=
  ∀ origin, HasOrigin s.sockets origin s.sockConnect → origin = .client

/-- `close(sock_connect)` leaves the client without a socket. -/
theorem Owned.closeConnect (h : Owned s held) (hown : s.ClosesOwn) :
    Owned s.closeConnect.1 false where
  serves := h.serves.of_same ⟨rfl, rfl, rfl, rfl, rfl⟩ (keeps_close hown)
  holds :=
    { owner := by
        intro d
        refine (hasOrigin_close ..).trans ?_
        rw [h.holds.owner]
        simp [Sys.closeConnect]
      socket := fun _ => rfl }

/-- Only the tasks of the client service change. -/
theorem Owned.of_tasks {s' : Sys} (h : Owned s held) (hs : SameServer s s')
    (ht : s'.sockets = s.sockets) (hc : s'.sockConnect = s.sockConnect)
    (hi : s'.initClient = some .socket → held = false) : Owned s' held where
  serves := h.serves.of_same hs (ht ▸ .refl .client s.sockets)
  holds := ⟨by rw [ht, hc]; exact h.holds.owner, hi⟩

theorem keeps_lwipSocket (o : Origin) (ok : Bool) (origin : Origin) (t : Table) :
    Keeps o t (lwipSocket ok origin t).1 := by
  unfold lwipSocket
  split
  · exact keeps_alloc o t _
  · exact .refl o t

theorem hasOrigin_lwipSocket (ok : Bool) (o : Origin) (t : Table) (origin : Origin) (d : Int) :
    HasOrigin (lwipSocket ok o t).1 origin d ↔
      HasOrigin t origin d ∨
        o = origin ∧ (lwipSocket ok o t).2 ≠ -1 ∧ d = (lwipSocket ok o t).2 := by
  unfold lwipSocket
  split
  · exact hasOrigin_alloc ..
  · simp

theorem Owned.initClientTask (h : Owned s held) (ok : Bool)
    (hown : s.initClient = some .close → s.ClosesOwn) :
    Owned (initClientTask ok s).1 ((initClientTask ok s).2.foldl noteHeld held) := by
  unfold Sockets.initClientTask
  split
  · exact h
  · next htask =>
    exact (h.closeConnect (hown htask)).of_tasks ⟨rfl, rfl, rfl, rfl, rfl⟩ rfl rfl fun _ => rfl
  · next htask =>
    obtain rfl := h.holds.socket htask
    refine ⟨h.serves.of_same ⟨rfl, rfl, rfl, rfl, rfl⟩ (keeps_lwipSocket _ _ _ _), fun d => ?_, ?_⟩
    · -- the client had no socket
      refine (hasOrigin_lwipSocket ..).trans ?_
      rw [h.holds.owner]
      simp [noteHeld]
    · intro hsock
      simp only [Option.some.injEq] at hsock
      split at hsock <;> cases hsock
  · exact h.of_tasks ⟨rfl, rfl, rfl, rfl, rfl⟩ rfl rfl fun hsock => by cases hsock
  · exact h.of_tasks ⟨rfl, rfl, rfl, rfl, rfl⟩ rfl rfl fun hsock => by cases hsock

theorem Owned.connectServerTask (h : Owned s held) (ok : Bool)
    (hown : s.connectServer = some .close → s.ClosesOwn) :
    Owned (connectServerTask ok s).1 ((connectServerTask ok s).2.foldl noteHeld held) := by
  unfold Sockets.connectServerTask
  split
  · exact h
  · exact h.of_tasks ⟨rfl, rfl, rfl, rfl, rfl⟩ rfl rfl h.holds.socket
  · next htask =>
    exact (h.closeConnect (hown htask)).of_tasks ⟨rfl, rfl, rfl, rfl, rfl⟩ rfl rfl fun _ => rfl
  · exact h.of_tasks ⟨rfl, rfl, rfl, rfl, rfl⟩ rfl rfl h.holds.socket
  · exact h.of_tasks ⟨rfl, rfl, rfl, rfl, rfl⟩ rfl rfl h.holds.socket

theorem Owned.revServerFileTask (h : Owned s held) (ok : Bool)
    (hown : s.revServerFile = some .close → s.ClosesOwn) :
    Owned (revServerFileTask ok s).1 ((revServerFileTask ok s).2.foldl noteHeld held) := by
  unfold Sockets.revServerFileTask
  split
  · exact h
  · split
    · exact h
    · exact h.of_tasks ⟨rfl, rfl, rfl, rfl, rfl⟩ rfl rfl h.holds.socket
  · next htask =>
    exact (h.closeConnect (hown htask)).of_tasks ⟨rfl, rfl, rfl, rfl, rfl⟩ rfl rfl fun _ => rfl
  · exact h.of_tasks ⟨rfl, rfl, rfl, rfl, rfl⟩ rfl rfl h.holds.socket

/-! ## Steps of the server service -/

theorem osTaskCreate_eq {α : Type} (ok : Bool) (start : α) (task : Option α) :
    osTaskCreate ok start task = task ∨ task = none ∧ osTaskCreate ok start task = some start := by
  unfold osTaskCreate
  split
  · next h => exact .inr ⟨Option.isNone_iff_eq_none.mp h.1, rfl⟩
  · exact .inl rfl

/-- A task which is somewhere behind its start has been there before. -/
theorem osTaskCreate_eq_some {α : Type} {ok : Bool} {start x : α} {task : Option α}
    (h : osTaskCreate ok start task = some x) (hne : start ≠ x) : task = some x := by
  rcases osTaskCreate_eq ok start task with hsame | ⟨-, hstart⟩
  · exact hsame.symm.trans h
  · exact absurd (Option.some.inj (hstart.symm.trans h)) hne

/-- A step which hands over, or less. -/
theorem Serves.of_chain {s' : Sys} (h : Serves s) (hk : Keeps .client s.sockets s'.sockets)
    (hchain : s'.chain ≤ s.chain)
    (hb : s'.socket = some .bind → s.socket = some .bind ∧ s'.sockFd = s.sockFd)
    (hc : s'.connectClient = some .create ∨ s'.revFile = some .start →
      Accepted s'.sockets s'.sockConn)
    (hr : ∀ d, s'.revFile = some (.recv d) ∨ s'.revFile = some (.close d) → Accepted s'.sockets d) :
    Serves s' := by
  refine ⟨Nat.le_trans hchain h.chain, fun hpos => ?_, fun hbind => ?_, hc, hr⟩
  · obtain ⟨d, hd⟩ := h.bound (Nat.lt_of_lt_of_le hpos hchain)
    exact ⟨d, hd.keep hk Origin.server_ne_client⟩
  · obtain ⟨hbind, hfd⟩ := hb hbind
    rw [hfd]
    exact (h.binding hbind).keep hk Origin.server_ne_client

/-- **A second `Socket_task` fails in `bind`**: it succeeds only where nobody is at work. -/
theorem Serves.chain_of_bind (h : Serves s) (hfree : s.sockets.any (·.localPort = serverPort) = false) :
    s.chain = 0 := by
  by_contra hne
  obtain ⟨d, sock, hget, -, hp⟩ := h.bound (Nat.pos_of_ne_zero hne)
  have hany : s.sockets.any (·.localPort = serverPort) = true :=
    Slots.any_eq_true.mpr ⟨d, sock, hget, by simpa using hp⟩
  rw [hfree] at hany
  cases hany

theorem Serves.socket (h : Serves s) (htask : s.socket = some .socket) (ok : Bool) :
    let r := lwipSocket ok .server s.sockets
    Serves { s with sockets := r.1, sockFd := r.2, socket := some (if r.2 = -1 then .del else .bind) } ∧
      SameClient s.sockets r.1 := by
  intro r
  have hk := keeps_lwipSocket .client ok .server s.sockets
  have hsame : Sys.chain { s with
      sockets := r.1, sockFd := r.2, socket := some (if r.2 = -1 then .del else .bind) } = s.chain := by
    simp only [Sys.chain, htask]
    split <;> rfl
  refine ⟨⟨hsame ▸ h.chain, fun hpos => ?_, fun hb => ?_, fun hc => ?_, fun d hd => ?_⟩, fun d => ?_⟩
  · obtain ⟨d, hd⟩ := h.bound (hsame ▸ hpos)
    exact ⟨d, hd.keep hk Origin.server_ne_client⟩
  · refine (hasOrigin_lwipSocket ..).mpr (.inr ⟨rfl, fun hneg => ?_, rfl⟩)
    simp only [r, if_pos hneg] at hb
    cases hb
  · exact (h.connected hc).keep hk Origin.accepted_ne_client
  · exact (h.received d hd).keep hk Origin.accepted_ne_client
  · simp [r, hasOrigin_lwipSocket]

theorem Serves.bind (h : Serves s) (htask : s.socket = some .bind) (ok : Bool) :
    let r := lwipBind ok s.sockFd serverPort s.sockets
    Serves { s with sockets := r.1, socket := some (if r.2 < 0 then .del else .listen) } ∧
      SameClient s.sockets r.1 := by
  intro r
  by_cases hok : (s.sockets.get s.sockFd).isSome ∧ ok ∧ ¬s.sockets.any (·.localPort = serverPort)
  · have hr : r = (s.sockets.modify s.sockFd fun sock => { sock with localPort := serverPort }, 0) :=
      if_pos hok
    rw [hr]
    have hk := keeps_modify grows_port .client s.sockets s.sockFd
    have hzero := h.chain_of_bind (by simpa using hok.2.2)
    simp only [Sys.chain, htask, SocketTask.Hands, Bool.toNat_false] at hzero
    refine ⟨⟨?_, fun _ => ⟨s.sockFd, ?_⟩, ?_, ?_, ?_⟩, sameClient_modify grows_port _ _⟩
    · simp only [Sys.chain, SocketTask.Hands, Bool.toNat_true, Int.lt_irrefl, if_false]
      omega
    · obtain ⟨sock, hget, ho⟩ := h.binding htask
      exact ⟨{ sock with localPort := serverPort },
        by simp only [Slots.get_modify, if_true, hget, Option.map_some], ho, rfl⟩
    · intro hb; cases hb
    · exact fun hc => (h.connected hc).keep hk Origin.accepted_ne_client
    · exact fun d hd => (h.received d hd).keep hk Origin.accepted_ne_client
  · have hr : r = (s.sockets, -1) := if_neg hok
    rw [hr]
    refine ⟨h.of_chain (.refl _ _) ?_ ?_ h.connected h.received, fun d => Iff.rfl⟩
    · simp [Sys.chain, htask, SocketTask.Hands]
    · intro hb; cases hb

theorem Serves.listen (h : Serves s) (htask : s.socket = some .listen) (ok : Bool) :
    let r := lwipListen ok s.sockFd s.sockets
    Serves { s with sockets := r.1, socket := some (if r.2 < 0 then .del else .create) } ∧
      SameClient s.sockets r.1 := by
  intro r
  by_cases hok : (s.sockets.get s.sockFd).isSome ∧ ok
  · have hr : r = (s.sockets.modify s.sockFd fun sock => { sock with listening := true }, 0) :=
      if_pos hok
    rw [hr]
    have hk := keeps_modify grows_listening .client s.sockets s.sockFd
    refine ⟨h.of_chain hk ?_ ?_ (fun hc => (h.connected hc).keep hk Origin.accepted_ne_client)
      (fun d hd => (h.received d hd).keep hk Origin.accepted_ne_client),
      sameClient_modify grows_listening _ _⟩
    · simp [Sys.chain, htask, SocketTask.Hands]
    · intro hb; cases hb
  · have hr : r = (s.sockets, -1) := if_neg hok
    rw [hr]
    refine ⟨h.of_chain (.refl _ _) ?_ ?_ h.connected h.received, fun d => Iff.rfl⟩
    · simp [Sys.chain, htask, SocketTask.Hands]
    · intro hb; cases hb

/-- The client service is where it was, and so are its sockets. -/
theorem Owned.of_server {s' : Sys} (h : Owned s held) (hs : Serves s')
    (ht : SameClient s.sockets s'.sockets) (hc : s'.sockConnect = s.sockConnect)
    (hi : s'.initClient = s.initClient) : Owned s' held where
  serves := hs
  holds := ⟨fun d => by rw [ht d, hc]; exact h.holds.owner d, fun hsock => h.holds.socket (hi ▸ hsock)⟩

theorem Owned.socketTask (h : Owned s held) (ok : Bool) :
    Owned (socketTask ok s).1 ((socketTask ok s).2.foldl noteHeld held) := by
  unfold Sockets.socketTask
  split
  · exact h
  · next htask =>
    obtain ⟨hserves, hsame⟩ := h.serves.socket htask ok
    exact h.of_server hserves hsame rfl rfl
  · next htask =>
    obtain ⟨hserves, hsame⟩ := h.serves.bind htask ok
    exact h.of_server hserves hsame rfl rfl
  · next htask =>
    obtain ⟨hserves, hsame⟩ := h.serves.listen htask ok
    exact h.of_server hserves hsame rfl rfl
  · next htask =>
    have hchain := h.serves.chain
    refine h.of_server (h.serves.of_chain (.refl _ _) ?_ ?_ ?_ h.serves.received) (fun d => Iff.rfl)
      rfl rfl
    · simp only [Sys.chain, htask, SocketTask.Hands, Bool.toNat_false, Bool.toNat_true] at hchain ⊢
      have := Bool.toNat_le (ConnectClientTask.Hands (osTaskCreate ok .accept s.connectClient))
      omega
    · intro hb; cases hb
    · rintro (hc | hc)
      · exact h.serves.connected (.inl (osTaskCreate_eq_some hc nofun))
      · exact h.serves.connected (.inr hc)
  · next htask =>
    refine h.of_server (h.serves.of_chain (.refl _ _) ?_ ?_ h.serves.connected h.serves.received)
      (fun d => Iff.rfl) rfl rfl
    · simp [Sys.chain, htask, SocketTask.Hands]
    · intro hb; cases hb

/-- `accept` gives an accepted connection, or `-1`. -/
theorem lwipAccept_spec (ok : Bool) (fd : Int) (t : Table) :
    let r := lwipAccept ok fd t
    (∀ o, Keeps o t r.1) ∧ SameClient t r.1 ∧ Accepted r.1 r.2 := by
  intro r
  have hr : r = (t, -1) ∨ ∃ sock : Sock, sock.origin = .accepted ∧ r = t.alloc sock := by
    simp only [r, lwipAccept]
    split
    · split
      · exact .inr ⟨_, rfl, rfl⟩
      · exact .inl rfl
    · exact .inl rfl
  rcases hr with hr | ⟨sock, ho, hr⟩
  · rw [hr]
    exact ⟨fun o => .refl o t, fun d => Iff.rfl, .inl rfl⟩
  · rw [hr]
    refine ⟨fun o => keeps_alloc o t sock, fun d => ?_, ?_⟩
    · rw [hasOrigin_alloc, ho]
      simp
    · by_cases hneg : (t.alloc sock).2 = -1
      · exact .inl hneg
      · exact .inr ((hasOrigin_alloc ..).mpr (.inr ⟨ho, hneg, rfl⟩))

theorem Owned.connectClientTask (h : Owned s held) (ok : Bool) :
    Owned (connectClientTask ok s).1 ((connectClientTask ok s).2.foldl noteHeld held) := by
  unfold Sockets.connectClientTask
  split
  · exact h
  · next htask =>
    refine h.of_server (h.serves.of_chain (.refl _ _) ?_ (fun hb => ⟨hb, rfl⟩) ?_ h.serves.received)
      (fun d => Iff.rfl) rfl rfl
    · simp [Sys.chain, htask, ConnectClientTask.Hands]
    · rintro (hc | hc)
      · cases hc
      · exact h.serves.connected (.inr hc)
  · next fd htask =>
    obtain ⟨hk, hsame, hacc⟩ := lwipAccept_spec ok fd s.sockets
    refine h.of_server (h.serves.of_chain (hk .client) ?_ (fun hb => ⟨hb, rfl⟩) (fun _ => hacc)
      (fun d hd => (h.serves.received d hd).keep (hk .client) Origin.accepted_ne_client)) hsame rfl rfl
    simp [Sys.chain, htask, ConnectClientTask.Hands]
  · next htask =>
    have hconn := h.serves.connected (.inl htask)
    have hchain := h.serves.chain
    refine h.of_server (h.serves.of_chain (.refl _ _) ?_ (fun hb => ⟨hb, rfl⟩) (fun _ => hconn) ?_)
      (fun d => Iff.rfl) rfl rfl
    · simp only [Sys.chain, htask, ConnectClientTask.Hands, Bool.toNat_false, Bool.toNat_true]
        at hchain ⊢
      have := Bool.toNat_le (RevFileTask.Hands (osTaskCreate ok .start s.revFile))
      omega
    · rintro d (hd | hd)
      · exact h.serves.received d (.inl (osTaskCreate_eq_some hd nofun))
      · exact h.serves.received d (.inr (osTaskCreate_eq_some hd nofun))
  · next htask =>
    refine h.of_server (h.serves.of_chain (.refl _ _) ?_ (fun hb => ⟨hb, rfl⟩) ?_ h.serves.received)
      (fun d => Iff.rfl) rfl rfl
    · simp [Sys.chain, htask, ConnectClientTask.Hands]
    · rintro (hc | hc)
      · cases hc
      · exact h.serves.connected (.inr hc)

/-- The connection which is closed is the only one. -/
theorem Serves.close (h : Serves s) {sockConn : Int} (htask : s.revFile = some (.close sockConn)) :
    Serves { s with sockets := s.sockets.close sockConn, revFile := some .create } ∧
      SameClient s.sockets (s.sockets.close sockConn) := by
  have hrecv := h.received sockConn (.inr htask)
  have hchain := h.chain
  simp only [Sys.chain, htask, RevFileTask.Hands, Bool.toNat_true] at hchain
  have hk : Keeps .accepted s.sockets (s.sockets.close sockConn) :=
    keeps_close fun origin hd => hrecv.eq_of_hasOrigin hd
  refine ⟨⟨?_, fun _ => ?_, fun hb => ?_, ?_, ?_⟩, fun d => ?_⟩
  · simpa only [Sys.chain, RevFileTask.Hands, Bool.toNat_true] using hchain
  · obtain ⟨d, hd⟩ := h.bound (by simp [Sys.chain, htask, RevFileTask.Hands])
    exact ⟨d, hd.keep hk Origin.server_ne_accepted⟩
  · exact (h.binding hb).keep hk Origin.server_ne_accepted
  · -- nobody else has a connection
    rintro (hc | hc)
    · have hc' : s.connectClient = some .create := hc
      rw [hc'] at hchain
      simp [ConnectClientTask.Hands] at hchain
    · cases hc
  · rintro d (hd | hd) <;> cases hd
  · exact ⟨fun hd => ((hasOrigin_close ..).mp hd).1, fun hd => hd.keep hk Origin.client_ne_accepted⟩

theorem Owned.revFileTask (h : Owned s held) (ok : Bool) :
    Owned (revFileTask ok s).1 ((revFileTask ok s).2.foldl noteHeld held) := by
  unfold Sockets.revFileTask
  split
  · exact h
  · next htask =>
    have hconn := h.serves.connected (.inr htask)
    refine h.of_server (h.serves.of_chain (.refl _ _) ?_ (fun hb => ⟨hb, rfl⟩) (fun _ => hconn) ?_)
      (fun d => Iff.rfl) rfl rfl
    · simp [Sys.chain, htask, RevFileTask.Hands]
    · rintro d (hd | hd)
      · simp only [Option.some.injEq, RevFileTask.recv.injEq] at hd
        exact hd ▸ hconn
      · cases hd
  · next sockConn htask =>
    split
    · exact h
    · have hrecv := h.serves.received sockConn (.inl htask)
      refine h.of_server (h.serves.of_chain (.refl _ _) ?_ (fun hb => ⟨hb, rfl⟩) ?_ ?_)
        (fun d => Iff.rfl) rfl rfl
      · simp [Sys.chain, htask, RevFileTask.Hands]
      · rintro (hc | hc)
        · exact h.serves.connected (.inl hc)
        · cases hc
      · rintro d (hd | hd)
        · cases hd
        · simp only [Option.some.injEq, RevFileTask.close.injEq] at hd
          exact hd ▸ hrecv
  · next sockConn htask =>
    obtain ⟨hserves, hsame⟩ := h.serves.close htask
    exact h.of_server hserves hsame rfl rfl
  · next htask =>
    have hchain := h.serves.chain
    refine h.of_server (h.serves.of_chain (.refl _ _) ?_ (fun hb => ⟨hb, rfl⟩) ?_ ?_)
      (fun d => Iff.rfl) rfl rfl
    · simp only [Sys.chain, htask, RevFileTask.Hands, Bool.toNat_false, Bool.toNat_true] at hchain ⊢
      have := Bool.toNat_le (ConnectClientTask.Hands (osTaskCreate ok .accept s.connectClient))
      omega
    · rintro (hc | hc)
      · exact h.serves.connected (.inl (osTaskCreate_eq_some hc nofun))
      · cases hc
    · rintro d (hd | hd) <;> cases hd
  · next htask =>
    refine h.of_server (h.serves.of_chain (.refl _ _) ?_ (fun hb => ⟨hb, rfl⟩) ?_ ?_)
      (fun d => Iff.rfl) rfl rfl
    · simp [Sys.chain, htask, RevFileTask.Hands]
    · rintro (hc | hc)
      · exact h.serves.connected (.inl hc)
      · cases hc
    · rintro d (hd | hd) <;> cases hd

/-! ## Steps of the system -/

/-- A step closes `sock_connect`, or shows no close. -/
theorem close_cases (s : Sys) (i : Input) :
    (services.step s i).2 = [.clientClose (s.sockets.get s.sockConnect)] ∨
      ∀ sock, .clientClose sock ∉ (services.step s i).2 := by
  cases i with
  | initClient ok => exact .inr (by simp [services, Sys.step])
  | socketInit ok => exact .inr (by simp [services, Sys.step])
  | task task ok =>
    cases task with
    | initClient =>
      simp only [services, Sys.step, initClientTask]
      split
      · exact .inr (by simp)
      · exact .inl rfl
      · exact .inr (by simp)
      · exact .inr (by simp)
      · exact .inr (by simp)
    | connectServer =>
      simp only [services, Sys.step, connectServerTask]
      split
      · exact .inr (by simp)
      · exact .inr (by simp)
      · exact .inl rfl
      · exact .inr (by simp)
      · exact .inr (by simp)
    | revServerFile =>
      simp only [services, Sys.step, revServerFileTask]
      split
      · exact .inr (by simp)
      · split <;> exact .inr (by simp)
      · exact .inl rfl
      · exact .inr (by simp)
    | socket =>
      simp only [services, Sys.step, socketTask]
      split <;> exact .inr (by simp)
    | connectClient =>
      simp only [services, Sys.step, connectClientTask]
      split <;> exact .inr (by simp)
    | revFile =>
      simp only [services, Sys.step, revFileTask]
      split
      · exact .inr (by simp)
      · exact .inr (by simp)
      · split <;> exact .inr (by simp)
      · exact .inr (by simp)
      · exact .inr (by simp)
      · exact .inr (by simp)

/-- **What a step keeps**, if it does not close a socket of the server service for the client. -/
theorem Owned.step (h : Owned s held) (i : Input)
    (hown : ∀ sock, .clientClose sock ∈ (services.step s i).2 → s.ClosesOwn) :
    Owned (services.step s i).1 ((services.step s i).2.foldl noteHeld held) := by
  cases i with
  | initClient ok =>
    exact h.of_tasks ⟨rfl, rfl, rfl, rfl, rfl⟩ rfl rfl fun hsock =>
      h.holds.socket (osTaskCreate_eq_some hsock nofun)
  | socketInit ok =>
    refine h.of_server (h.serves.of_chain (.refl _ _) ?_
      (fun hb => ⟨osTaskCreate_eq_some hb nofun, rfl⟩) h.serves.connected h.serves.received)
      (fun d => Iff.rfl) rfl rfl
    rcases osTaskCreate_eq ok SocketTask.socket s.socket with hs | ⟨-, hs⟩
    · simp [services, Sys.step, Sys.chain, hs]
    · simp [services, Sys.step, Sys.chain, hs, SocketTask.Hands]
  | task task ok =>
    cases task with
    | initClient =>
      refine h.initClientTask ok fun htask => ?_
      exact hown (s.sockets.get s.sockConnect)
        (by simp [services, Sys.step, Sockets.initClientTask, htask, Sys.closeConnect])
    | connectServer =>
      refine h.connectServerTask ok fun htask => ?_
      exact hown (s.sockets.get s.sockConnect)
        (by simp [services, Sys.step, Sockets.connectServerTask, htask, Sys.closeConnect])
    | revServerFile =>
      refine h.revServerFileTask ok fun htask => ?_
      exact hown (s.sockets.get s.sockConnect)
        (by simp [services, Sys.step, Sockets.revServerFileTask, htask, Sys.closeConnect])
    | socket => exact h.socketTask ok
    | connectClient => exact h.connectClientTask ok
    | revFile => exact h.revFileTask ok

end PlcFirmware.Sockets
