import Msrt.Engine
import Msrt.SlotMap

/-! # Peer sessions and endpoints

A `PeerSlot` owns at most one engine and what the endpoint knows about the peer: whether it has been
heard from, when, and whether a PING is waiting for its answer.  Every path that fails drops the
whole session through `disconnect`.  Client and passive endpoints are thin: they differ in who opens
the session.  A server keeps one slot for each of its peers in a fixed array, and reuses the position
of a peer that left.
-/

namespace Msrt

/-- Endpoint-level peer connection state. -/
inductive PeerState where
  | disconnected
  | connecting
  | connected
  deriving DecidableEq, Repr

/-- The message a connecting peer sends first. -/
def helloMessage : Bytes := [0]

/-- How long a peer may be silent before a PING is sent to it. -/
def defaultPingIntervalMs : Nat := 5000

/-- A single peer session slot. -/
structure PeerSlot where
  config : EngineConfig
  engine : Option Engine
  state : PeerState
  lastSeenMs : Nat
  lastPingMs : Nat
  pendingPing : Bool

/-- The reports of a well-formed packet the engine took. -/
def ReceiveReport.isPeerTraffic : ReceiveReport → Bool
  | .packet _ | .duplicate _ | .ack _ | .ping | .pong => true
  | .noise _ | .corrupted | .incomplete _ | .error _ => false

namespace PeerSlot

/-- The slot without a session. -/
def new (config : EngineConfig) : PeerSlot := ⟨config, none, .disconnected, 0, 0, false⟩

/-- Whether the slot is in the connected state. -/
def isConnected (slot : PeerSlot) : Bool := slot.state == .connected

/-- Whether there is an engine. -/
def hasSession (slot : PeerSlot) : Bool := slot.engine.isSome

/-- The slot with a fresh engine that has not been heard from. -/
def acceptPassive (slot : PeerSlot) (nowMs : Nat) : PeerSlot :=
  { slot with
    engine := some (.new slot.config)
    state := .connecting
    lastSeenMs := nowMs
    lastPingMs := nowMs
    pendingPing := false }

/-- Creates a fresh engine and queues the hello message. -/
def connect (slot : PeerSlot) (nowMs : Nat) : PeerSlot × Except Error MessageId :=
  let slot := { slot with
    state := .connecting
    lastSeenMs := nowMs
    lastPingMs := nowMs
    pendingPing := false }
  let sent := (Engine.new slot.config).send helloMessage
  ({ slot with engine := some sent.1 }, sent.2)

/-- Drops the session and what was recorded about it. -/
def disconnect (slot : PeerSlot) : PeerSlot :=
  { slot with
    engine := none
    state := .disconnected
    lastSeenMs := 0
    lastPingMs := 0
    pendingPing := false }

/-- Creates a passive engine if needed and records peer activity. -/
def acceptPassiveIfNeeded (slot : PeerSlot) (nowMs : Nat) : PeerSlot :=
  let slot := if slot.engine.isNone then slot.acceptPassive nowMs else slot
  { slot with lastSeenMs := nowMs }

/-- Queues an application message; `none` when no session exists. -/
def send (slot : PeerSlot) (message : Bytes) : PeerSlot × Except Error (Option MessageId) :=
  match slot.engine with
  | none => (slot, .ok none)
  | some engine =>
    let sent := engine.send message
    ({ slot with engine := some sent.1 }, sent.2.map some)

/-- What a report that is no error does to the connection state. -/
def noteReport (slot : PeerSlot) (nowMs : Nat) (report : ReceiveReport) : PeerSlot :=
  let slot := if report.isPeerTraffic then
    { slot with state := .connected, lastSeenMs := nowMs } else slot
  if report = .pong then { slot with pendingPing := false } else slot

/-- Takes a chunk from the peer.  An error drops the session; without a session the chunk is
ignored. -/
def receive (slot : PeerSlot) (nowMs : Nat) (bytes : Bytes) : PeerSlot × ReceiveReport :=
  match slot.engine with
  | none => (slot, .incomplete none)
  | some engine =>
    let received := engine.receive bytes
    let slot := { slot with engine := some received.1 }
    if received.2.isError then (slot.disconnect, received.2)
    else (slot.noteReport nowMs received.2, received.2)

/-- Queues a PING to a connected peer that has been silent, unless one is unanswered or was sent
within the interval. -/
def queuePingIfIdle (slot : PeerSlot) (nowMs : Nat) : PeerSlot × Except Error Unit :=
  if !slot.isConnected || slot.pendingPing ||
      decide (nowMs - slot.lastSeenMs < defaultPingIntervalMs) ||
      decide (nowMs - slot.lastPingMs < defaultPingIntervalMs) then (slot, .ok ())
  else
    match slot.engine with
    | none => (slot, .ok ())
    | some engine =>
      let pinged := engine.sendPing
      let slot := { slot with engine := some pinged.1 }
      match pinged.2 with
      | .error e => (slot, .error e)
      | .ok () => ({ slot with lastPingMs := nowMs, pendingPing := true }, .ok ())

/-- Polls the active engine. -/
def pollEngine (slot : PeerSlot) (nowMs txLen : Nat) : PeerSlot × Except Error EnginePoll :=
  match slot.engine with
  | none => (slot, .ok .idle)
  | some engine =>
    let polled := engine.poll nowMs txLen
    let slot := { slot with engine := some polled.1 }
    match polled.2 with
    | .error e => (slot.disconnect, .error e)
    | .ok (.message message) =>
      ({ slot with state := .connected, lastSeenMs := nowMs }, .ok (.message message))
    | .ok (.sendFailed event) => (slot.disconnect, .ok (.sendFailed event))
    | .ok other => (slot, .ok other)

/-- A PING is queued first if the peer has been silent; any error drops the session. -/
def poll (slot : PeerSlot) (nowMs txLen : Nat) : PeerSlot × Except Error EnginePoll :=
  match slot.queuePingIfIdle nowMs with
  | (slot, .error e) => (slot.disconnect, .error e)
  | (slot, .ok ()) => slot.pollEngine nowMs txLen

/-- Drops a session that has heard nothing for at least `timeoutMs`, and reports whether it did. -/
def disconnectIfIdle (slot : PeerSlot) (nowMs timeoutMs : Nat) : PeerSlot × Bool :=
  if slot.engine.isSome && decide (nowMs - slot.lastSeenMs ≥ timeoutMs) then
    (slot.disconnect, true)
  else (slot, false)

end PeerSlot

/-! ## Endpoints -/

/-- Client-side endpoint with at most one active peer session. -/
structure ClientEndpoint where
  peer : PeerSlot

namespace ClientEndpoint

/-- The endpoint without a session. -/
def new (config : EngineConfig) : ClientEndpoint := ⟨.new config⟩

/-- Starts a session, with a hello to the peer. -/
def connect (c : ClientEndpoint) (nowMs : Nat) : ClientEndpoint × Except Error MessageId :=
  let result := c.peer.connect nowMs
  (⟨result.1⟩, result.2)

/-- Drops the session. -/
def disconnect (c : ClientEndpoint) : ClientEndpoint := ⟨c.peer.disconnect⟩

/-- Queues a message; `none` when no session exists. -/
def send (c : ClientEndpoint) (message : Bytes) :
    ClientEndpoint × Except Error (Option MessageId) :=
  let result := c.peer.send message
  (⟨result.1⟩, result.2)

/-- Takes a chunk from the peer. -/
def receive (c : ClientEndpoint) (nowMs : Nat) (bytes : Bytes) : ClientEndpoint × ReceiveReport :=
  let result := c.peer.receive nowMs bytes
  (⟨result.1⟩, result.2)

/-- Produces one action. -/
def poll (c : ClientEndpoint) (nowMs txLen : Nat) : ClientEndpoint × Except Error EnginePoll :=
  let result := c.peer.poll nowMs txLen
  (⟨result.1⟩, result.2)

/-- Drops an idle session. -/
def disconnectIfIdle (c : ClientEndpoint) (nowMs timeoutMs : Nat) : ClientEndpoint × Bool :=
  let result := c.peer.disconnectIfIdle nowMs timeoutMs
  (⟨result.1⟩, result.2)

end ClientEndpoint

/-- Passive single-peer endpoint: the session is created when bytes arrive. -/
structure PassiveEndpoint where
  peer : PeerSlot

namespace PassiveEndpoint

/-- The endpoint without a session. -/
def new (config : EngineConfig) : PassiveEndpoint := ⟨.new config⟩

/-- Drops the session. -/
def disconnect (p : PassiveEndpoint) : PassiveEndpoint := ⟨p.peer.disconnect⟩

/-- Queues a message; `none` when no session exists. -/
def send (p : PassiveEndpoint) (message : Bytes) :
    PassiveEndpoint × Except Error (Option MessageId) :=
  let result := p.peer.send message
  (⟨result.1⟩, result.2)

/-- Takes a chunk from the peer, with a fresh session if there is none. -/
def receive (p : PassiveEndpoint) (nowMs : Nat) (bytes : Bytes) :
    PassiveEndpoint × ReceiveReport :=
  let result := (p.peer.acceptPassiveIfNeeded nowMs).receive nowMs bytes
  (⟨result.1⟩, result.2)

/-- Produces one action. -/
def poll (p : PassiveEndpoint) (nowMs txLen : Nat) : PassiveEndpoint × Except Error EnginePoll :=
  let result := p.peer.poll nowMs txLen
  (⟨result.1⟩, result.2)

/-- Drops an idle session. -/
def disconnectIfIdle (p : PassiveEndpoint) (nowMs timeoutMs : Nat) : PassiveEndpoint × Bool :=
  let result := p.peer.disconnectIfIdle nowMs timeoutMs
  (⟨result.1⟩, result.2)

end PassiveEndpoint

/-! ## Server -/

/-- Why a server does not accept a peer. -/
inductive AcceptError where
  | full
  | engine (error : Error)
  deriving DecidableEq, Repr

/-- One accepted peer of a server. -/
structure PeerEntry (P : Type) where
  peerId : P
  slot : PeerSlot

/-- Server-side endpoint for at most `n` peers. -/
structure ServerEndpoint (P : Type) (n : Nat) where
  config : EngineConfig
  peers : List (Option (PeerEntry P))
  length_eq : peers.length = n

namespace ServerEndpoint
variable {P : Type} {n : Nat}

/-- The server without peers. -/
def new (config : EngineConfig) : ServerEndpoint P n :=
  ⟨config, List.replicate n none, List.length_replicate⟩

/-- The server with another entry, or none, at a position. -/
def setPeer (server : ServerEndpoint P n) (index : Nat) (entry : Option (PeerEntry P)) :
    ServerEndpoint P n where
  config := server.config
  peers := server.peers.set index entry
  length_eq := List.length_set.trans server.length_eq

/-- One round of `disconnectIdle` for each position, with the count so far. -/
def disconnectIdleLoop (nowMs timeoutMs : Nat) :
    List (Option (PeerEntry P)) → Nat → List (Option (PeerEntry P)) × Nat
  | [], disconnected => ([], disconnected)
  | none :: peers, disconnected =>
    let rest := disconnectIdleLoop nowMs timeoutMs peers disconnected
    (none :: rest.1, rest.2)
  | some entry :: peers, disconnected =>
    let result := entry.slot.disconnectIfIdle nowMs timeoutMs
    if result.2 then
      let rest := disconnectIdleLoop nowMs timeoutMs peers (disconnected + 1)
      (none :: rest.1, rest.2)
    else
      let rest := disconnectIdleLoop nowMs timeoutMs peers disconnected
      (some { entry with slot := result.1 } :: rest.1, rest.2)

theorem length_disconnectIdleLoop (nowMs timeoutMs : Nat) (peers : List (Option (PeerEntry P)))
    (disconnected : Nat) :
    (disconnectIdleLoop nowMs timeoutMs peers disconnected).1.length = peers.length := by
  induction peers generalizing disconnected with
  | nil => rfl
  | cons peer peers ih =>
    cases peer with
    | none => simp [disconnectIdleLoop, ih]
    | some entry =>
      unfold disconnectIdleLoop
      dsimp only
      split <;> simp [ih]

/-- Drops every peer that has been idle for the timeout, and counts them. -/
def disconnectIdle (server : ServerEndpoint P n) (nowMs timeoutMs : Nat) :
    ServerEndpoint P n × Nat :=
  ({ config := server.config
     peers := (disconnectIdleLoop nowMs timeoutMs server.peers 0).1
     length_eq := (length_disconnectIdleLoop ..).trans server.length_eq },
    (disconnectIdleLoop nowMs timeoutMs server.peers 0).2)

/-- Connects the slot at a position. -/
def reconnectAt (server : ServerEndpoint P n) (index nowMs : Nat) :
    ServerEndpoint P n × Except AcceptError Unit :=
  match server.peers[index]? with
  | some (some entry) =>
    let connected := entry.slot.connect nowMs
    (server.setPeer index (some { entry with slot := connected.1 }),
      match connected.2 with
      | .error e => .error (.engine e)
      | .ok _ => .ok ())
  | _ => (server, .error (.engine .engine))

/-- The first position without an entry. -/
def vacantIndex (server : ServerEndpoint P n) : Option Nat := SlotMap.vacant server.peers

variable [DecidableEq P]

/-- The position of a peer. -/
def findIndex (server : ServerEndpoint P n) (peerId : P) : Option Nat :=
  SlotMap.indexOf PeerEntry.peerId server.peers peerId

/-- Accepts a peer, replacing the session it may have. -/
def accept (server : ServerEndpoint P n) (peerId : P) (nowMs : Nat) :
    ServerEndpoint P n × Except AcceptError Unit :=
  match server.findIndex peerId with
  | some index => server.reconnectAt index nowMs
  | none =>
    match server.vacantIndex with
    | none => (server, .error .full)
    | some index =>
      (server.setPeer index (some ⟨peerId, .new server.config⟩)).reconnectAt index nowMs

/-- Drops the session of a peer and frees its position. -/
def disconnect (server : ServerEndpoint P n) (peerId : P) : ServerEndpoint P n × Bool :=
  match server.findIndex peerId with
  | none => (server, false)
  | some index => (server.setPeer index none, true)

/-- Runs an operation on the slot of a peer, if the peer is known. -/
def peerMut {β : Type} (server : ServerEndpoint P n) (peerId : P) (op : PeerSlot → PeerSlot × β) :
    ServerEndpoint P n × Option β :=
  match server.findIndex peerId with
  | none => (server, none)
  | some index =>
    match server.peers[index]? with
    | some (some entry) =>
      let result := op entry.slot
      (server.setPeer index (some { entry with slot := result.1 }), some result.2)
    | _ => (server, none)

/-- Takes a chunk from a peer; `none` when the peer is unknown. -/
def receive (server : ServerEndpoint P n) (peerId : P) (nowMs : Nat) (bytes : Bytes) :
    ServerEndpoint P n × Option ReceiveReport :=
  server.peerMut peerId fun slot => slot.receive nowMs bytes

/-- Produces one action for a peer; `none` when the peer is unknown. -/
def poll (server : ServerEndpoint P n) (peerId : P) (nowMs txLen : Nat) :
    ServerEndpoint P n × Option (Except Error EnginePoll) :=
  server.peerMut peerId fun slot => slot.poll nowMs txLen

/-- Queues a message for a peer; `none` when the peer is unknown. -/
def send (server : ServerEndpoint P n) (peerId : P) (message : Bytes) :
    ServerEndpoint P n × Option (Except Error (Option MessageId)) :=
  server.peerMut peerId fun slot => slot.send message

end ServerEndpoint

end Msrt
