import Msrt.Endpoint
import Msrt.MachineDecoder
import Msrt.MachineTables

/-! # Engine and peer slot on the machine

The operations of the engine and of a peer slot over the arrays of the other machine modules, with
every sum, difference, position and range of the program checked.  Message, input and transmit buffer
are slices, which the target bounds in length.

The two unbounded loops carry fuel and stop with `outOfFuel` when it runs out: that a run succeeds
says that they end.
-/

namespace Msrt.Machine
open Checked SlotTable
variable {t : Target}

/-- A byte slice: no object of the target is longer than `isizeMax`. -/
structure Slice (t : Target) where
  bytes : Bytes
  length_le : bytes.length ≤ t.isizeMax

/-- Protocol state of one session. -/
structure EngineState where
  clock : ClockState
  numbers : NumberState
  scheduler : SchedulerState
  recovery : RecoveryState
  ack : AckState
  ingress : StreamingDecoder maxIngressBytes
  message : MessageState
  receive : PacketDedup maxInFlightPackets
  reassembly : ReassemblyState

namespace EngineState

/-- A session before its first operation. -/
def new (initialMessageId : MessageId) : EngineState where
  clock := ⟨0⟩
  numbers := .new initialMessageId
  scheduler := .new
  recovery := .new
  ack := .new
  ingress := .new
  message := .new
  receive := .new
  reassembly := .new

/-! ## Sending -/

/-- Whether all fragments of a message fit the scheduler and, if it is reliable, the in-flight table. -/
def ensureCanQueueMessage (st : EngineState) (messageLen fragmentBytes : Nat)
    (mode : ReliabilityMode) : Checked t (Except Error Unit) := do
  let fragments ← fragmentCount messageLen fragmentBytes
  if fragments > maxEvents then
    return .error .engine
  else if (← st.scheduler.available) < fragments then
    return .error .engine
  else if mode = .reliable then
    if (← st.recovery.availableInFlight) < fragments then
      return .error .engine
    else
      return .ok ()
  else
    return .ok ()

/-- Queues one encoded fragment and, for a reliable message, tracks it. -/
def queueFragment (st : EngineState) (packetType : PacketType) (mode : ReliabilityMode)
    (key : PacketKey) (wire : Bytes) (written : Nat) :
    Checked t (EngineState × Except Error Unit) := do
  match ← st.scheduler.push (.write ⟨key, wire, written, 0, .newData⟩) with
  | .error e => return (st, .error e)
  | .ok scheduler =>
    if mode = .reliable then
      match ← st.recovery.track
          ⟨key, packetType, key.messageId, wire, written, 0, st.clock.nowMs, false⟩ with
      | .error e => return ({ st with scheduler }, .error e)
      | .ok recovery => return ({ st with scheduler, recovery }, .ok ())
    else
      return ({ st with scheduler }, .ok ())

/-- Encodes the fragment at `offset` and queues it. -/
def sendFragment (st : EngineState) (config : EngineConfig) (packetType : PacketType)
    (messageId : MessageId) (message : Bytes) (fragmentBytes : Nat) (mode : ReliabilityMode)
    (offset : Nat) (packetIndex : PacketIndex) : Checked t (EngineState × Except Error Unit) := do
  let stop := min (← add offset fragmentBytes) message.length
  let fragment ← slice message offset stop
  match packetHeaderForFragment packetType packetIndex messageId message.length offset mode with
  | .error e => return (st, .error e)
  | .ok header =>
    match ← encodeMessageFragment header fragment (List.replicate maxWireBytes 0)
        config.integrity with
    | .error e => return (st, .error e)
    | .ok encoded =>
      st.queueFragment packetType mode ⟨messageId, packetIndex⟩ encoded.1 encoded.2

/-- The fragment loop, from `offset` on. -/
def sendFragmentsLoop (config : EngineConfig) (packetType : PacketType) (messageId : MessageId)
    (message : Bytes) (fragmentBytes : Nat) (mode : ReliabilityMode) :
    Nat → Nat → PacketIndex → EngineState → Checked t (EngineState × Except Error Unit)
  | 0, _, _, _ => fail .outOfFuel
  | fuel + 1, offset, packetIndex, st => do
    if offset < message.length ∨ (message.isEmpty ∧ offset = 0) then
      match ← st.sendFragment config packetType messageId message fragmentBytes mode offset
          packetIndex with
      | (st, .error e) => return (st, .error e)
      | (st, .ok ()) =>
        if message.isEmpty then
          return (st, .ok ())
        else
          let stop := min (← add offset fragmentBytes) message.length
          sendFragmentsLoop config packetType messageId message fragmentBytes mode fuel stop
            (packetIndex + 1) st
    else
      return (st, .ok ())

/-- Queues the fragments of a message of at most `maxMessageBytes`. -/
def sendMessageFragments (st : EngineState) (config : EngineConfig) (packetType : PacketType)
    (messageId : MessageId) (message : Bytes) (fragmentBytes : Nat) (mode : ReliabilityMode) :
    Checked t (EngineState × Except Error Unit) :=
  if message.length > maxMessageBytes then pure (st, .error .engine)
  else
    sendFragmentsLoop config packetType messageId message fragmentBytes mode (message.length + 1)
      0 0 st

/-- The message id is taken before anything is checked; the clamp panics if its bounds are crossed. -/
def sendFragmentedMessage (st : EngineState) (config : EngineConfig) (packetType : PacketType)
    (message : Bytes) : Checked t (EngineState × Except Error MessageId) := do
  match ← maxFragmentBytes packetType config.integrity.tagLen with
  | .error e => return (st, .error e)
  | .ok most =>
    let fragmentBytes ← clamp config.fragmentBytes 1 most
    let allocated := st.numbers.allocMessageId
    let st := { st with numbers := allocated.1 }
    match reliabilityMode packetType with
    | .error e => return (st, .error e)
    | .ok mode =>
      match ← st.ensureCanQueueMessage message.length fragmentBytes mode with
      | .error e => return (st, .error e)
      | .ok () =>
        match ← st.sendMessageFragments config packetType allocated.2 message fragmentBytes
            mode with
        | (st, .error e) => return (st, .error e)
        | (st, .ok ()) => return (st, .ok allocated.2)

/-- Sends a message reliably. -/
def sendData (st : EngineState) (config : EngineConfig) (message : Bytes) :
    Checked t (EngineState × Except Error MessageId) :=
  st.sendFragmentedMessage config .data message

/-- Queues a PING or PONG; both carry the zero key. -/
def queueLiveness (st : EngineState) (config : EngineConfig) (packetType : PacketType)
    (priority : WritePriority) : Checked t (EngineState × Except Error Unit) := do
  match ← encodeLivenessPacket packetType (List.replicate maxWireBytes 0) config.integrity with
  | .error e => return (st, .error e)
  | .ok encoded =>
    match ← st.scheduler.push (.write ⟨.zero, encoded.1, encoded.2, 0, priority⟩) with
    | .error e => return (st, .error e)
    | .ok scheduler => return ({ st with scheduler }, .ok ())

/-- Queues a PING with the priority of new data. -/
def sendPing (st : EngineState) (config : EngineConfig) :
    Checked t (EngineState × Except Error Unit) := st.queueLiveness config .ping .newData

/-- Queues the answer to a PING as a control write. -/
def queuePong (st : EngineState) (config : EngineConfig) :
    Checked t (EngineState × Except Error Unit) := st.queueLiveness config .pong .control

/-! ## Receiving -/

/-- Queues an acknowledgement when the packet asks for one; `none` when the queue is full. -/
def acknowledge (st : EngineState) (ackEliciting : Bool) (key : PacketKey) :
    Checked t (Option EngineState) := do
  if ackEliciting then
    return (← AckState.observe st.ack key).map fun ack => { st with ack }
  else
    return some st

/-- The state once the reassembly table has taken a fragment of a `packetType` packet. -/
def reassemble (st : EngineState) (packetType : PacketType) (fragment : MessageFragment) :
    Checked t (EngineState × Except Error Unit) := do
  let observed ← st.reassembly.observe fragment st.clock.nowMs
  let st := { st with reassembly := observed.1 }
  match observed.2 with
  | .ok (some message) =>
    let message ← MessageState.push st.message { message with packetType := packetType }
    return ({ st with message }, .ok ())
  | .ok none => return (st, .ok ())
  | .error e => return (st, .error e)

/-- A DATA packet: a duplicate is acknowledged again; a new one is gathered, remembered,
acknowledged. -/
def receiveData (st : EngineState) (fragment : MessageFragment) :
    Checked t (EngineState × ReceiveReport) := do
  if st.receive.isDuplicate fragment.key then
    match ← st.acknowledge fragment.ackEliciting fragment.key with
    | none => return (st, .error .engine)
    | some st => return (st, .duplicate fragment.packetIndex)
  else
    match ← st.reassemble .data fragment with
    | (st, .error _) => return (st, .corrupted)
    | (st, .ok ()) =>
      let observed ← st.receive.observePacket fragment.key
      let st := { st with receive := observed.1 }
      match observed.2 with
      | .error e => return (st, .error e)
      | .ok .duplicate => return (st, .duplicate fragment.packetIndex)
      | .ok .accept =>
        match ← st.acknowledge fragment.ackEliciting fragment.key with
        | none => return (st, .error .engine)
        | some st => return (st, .packet fragment.packetIndex)

/-- A LOG packet is gathered; it is neither remembered nor acknowledged. -/
def receiveLog (st : EngineState) (fragment : MessageFragment) :
    Checked t (EngineState × ReceiveReport) := do
  match ← st.reassemble .log fragment with
  | (st, .error _) => return (st, .corrupted)
  | (st, .ok ()) => return (st, .packet fragment.packetIndex)

/-- Handles one packet of the decoder by its kind. -/
def receiveCompletePacket (st : EngineState) (config : EngineConfig) (packet : PacketBytes) :
    Checked t (EngineState × ReceiveReport) := do
  match ← packet.decode with
  | .data _ fragment => st.receiveData fragment
  | .log _ fragment => st.receiveLog fragment
  | .ack key => return ({ st with recovery := st.recovery.applyAck key }, .ack key.packetIndex)
  | .ping =>
    match ← st.queuePong config with
    | (st, .error _) => return (st, .error .engine)
    | (st, .ok ()) => return (st, .ping)
  | .pong => return (st, .pong)
  | .malformed => return (st, .corrupted)

/-- The receive loop, with the last report so far. -/
def receiveLoop (config : EngineConfig) :
    Nat → EngineState → Bytes → ReceiveReport → Checked t (EngineState × ReceiveReport)
  | 0, _, _, _ => fail .outOfFuel
  | fuel + 1, st, input, report => do
    let fed ← st.ingress.feed input config.integrity
    let st := { st with ingress := fed.1 }
    match fed.2 with
    | .error e => return (st, .error e)
    | .ok (.packet packetBytes _) =>
      match ← PacketBytes.tryFromSlice packetBytes with
      | .error e => return (st, .error e)
      | .ok packet =>
        let handled ← st.receiveCompletePacket config packet
        if handled.2.isError then
          return handled
        else
          receiveLoop config fuel handled.1 [] handled.2
    | .ok (.needMore additional) => return (st, Msrt.EngineState.finalReport report additional)
    | .ok (.noise skipped) => receiveLoop config fuel st [] (.noise skipped)
    | .ok (.corrupted _) => receiveLoop config fuel st [] .corrupted
    | .ok (.resync skipped) => receiveLoop config fuel st [] (.noise skipped)

/-- Feeds a chunk and handles every packet it completes, with one round for each byte of buffer and
chunk, and one more. -/
def receiveBytes (st : EngineState) (config : EngineConfig) (bytes : Bytes) :
    Checked t (EngineState × ReceiveReport) :=
  receiveLoop config (st.ingress.len - st.ingress.pendingConsume + bytes.length + 1) st bytes
    (.incomplete none)

/-! ## The retransmission tick -/

/-- The three arrays one scan of the in-flight table fills. -/
structure TickScan where
  retransmits : List (Option InFlightPacket)
  retransmitLen : Nat
  failures : List (Option InFlightPacket)
  failureLen : Nat
  failedMessages : List (Option (PacketType × MessageId))
  failedMessageLen : Nat

/-- Nothing has been collected. -/
def TickScan.new : TickScan where
  retransmits := List.replicate maxInFlightPackets none
  retransmitLen := 0
  failures := List.replicate maxInFlightPackets none
  failureLen := 0
  failedMessages := List.replicate maxInFlightPackets none
  failedMessageLen := 0

/-- Whether the packet was sent and its timeout has passed. -/
def retransmitDue (config : EngineConfig) (nowMs : Nat) (packet : InFlightPacket) : Bool :=
  packet.sent && !decide (nowMs - packet.lastSentMs < config.retransmitTimeoutMs)

/-- Whether the message of a packet has failed in this tick. -/
def messageFailed (failedMessages : List (Option (PacketType × MessageId)))
    (failedMessageLen : Nat) (packet : InFlightPacket) : Checked t Bool := do
  return (entries (← slice failedMessages 0 failedMessageLen)).contains
    (packet.packetType, packet.messageId)

/-- One round of the scan. -/
def TickScan.visit (config : EngineConfig) (nowMs : Nat) (scan : TickScan)
    (packet : InFlightPacket) : Checked t TickScan := do
  if !retransmitDue config nowMs packet then
    return scan
  else if packet.attempts ≥ config.maxRetransmitAttempts then
    let alreadyFailed ← messageFailed scan.failedMessages scan.failedMessageLen packet
    if !alreadyFailed && decide (scan.failureLen < scan.failures.length) then
      let failures ← set scan.failures scan.failureLen (some packet)
      let failureLen ← add scan.failureLen 1
      let failedMessages ← set scan.failedMessages scan.failedMessageLen
        (some (packet.packetType, packet.messageId))
      let failedMessageLen ← add scan.failedMessageLen 1
      return { scan with failures, failureLen, failedMessages, failedMessageLen }
    else
      return scan
  else if scan.retransmitLen < scan.retransmits.length then
    let retransmits ← set scan.retransmits scan.retransmitLen (some packet)
    let retransmitLen ← add scan.retransmitLen 1
    return { scan with retransmits, retransmitLen }
  else
    return scan

/-- Drops a failed message and queues its `SendFailed`, ignoring a full scheduler. -/
def failMessage (st : EngineState) (packet : InFlightPacket) : Checked t EngineState := do
  let recovery := st.recovery.removeMessage packet.packetType packet.messageId
  let scheduler ← st.scheduler.pushIgnored
    (.sendFailed ⟨packet.packetType, packet.messageId, .retryLimitReached⟩)
  return { st with recovery, scheduler }

/-- Queues a retransmission unless its message has just failed, ignoring a full scheduler. -/
def queueRetransmit (failedMessages : List (Option (PacketType × MessageId)))
    (failedMessageLen : Nat) (st : EngineState) (packet : InFlightPacket) :
    Checked t EngineState := do
  if ← messageFailed failedMessages failedMessageLen packet then
    return st
  else
    let scheduler ← st.scheduler.pushIgnored (.write
      ⟨packet.key, packet.bytes, packet.len, saturatingSucc packet.attempts, .retransmit⟩)
    return { st with scheduler }

/-- What the tick does before it looks at the in-flight table. -/
def advanceClock (st : EngineState) (config : EngineConfig) (nowMs : Nat) : EngineState :=
  { st with
    clock := ⟨nowMs⟩
    reassembly := st.reassembly.expire nowMs config.reassemblyTimeoutMs }

/-- What the tick does with the in-flight table: it scans it, then handles what it has collected. -/
def tickInFlight (st : EngineState) (config : EngineConfig) (nowMs : Nat) :
    Checked t EngineState := do
  let scan ← st.recovery.packets.foldlM (TickScan.visit config nowMs) .new
  let failures ← slice scan.failures 0 scan.failureLen
  let st ← (entries failures).foldlM failMessage st
  let retransmits ← slice scan.retransmits 0 scan.retransmitLen
  (entries retransmits).foldlM (queueRetransmit scan.failedMessages scan.failedMessageLen) st

/-- The retransmission tick, at most once per time. -/
def tickRetransmit (st : EngineState) (config : EngineConfig) (nowMs : Nat) :
    Checked t EngineState :=
  let st := st.advanceClock config nowMs
  let ticked := st.recovery.shouldTick nowMs
  let st := { st with recovery := ticked.1 }
  if ticked.2 then st.tickInFlight config nowMs else pure st

/-! ## Polling -/

/-- Transmits the oldest pending acknowledgement, as a range of the transmit buffer. -/
def pollPendingAck (st : EngineState) (config : EngineConfig) (txBuf : Bytes) :
    Checked t (EngineState × Except Error EnginePoll) := do
  let popped ← AckState.pop st.ack
  let st := { st with ack := popped.2 }
  match popped.1 with
  | none => return (st, .ok .idle)
  | some key =>
    match ← encodeAckPacket key txBuf config.integrity with
    | .error e => return (st, .error e)
    | .ok encoded => return (st, .ok (.transmit (← slice encoded.1 0 encoded.2) 0))

/-- Copies a write into the transmit buffer and records its transmission. -/
def pollWrite (st : EngineState) (event : WriteEvent) (nowMs : Nat) (txBuf : Bytes) :
    Checked t (EngineState × Except Error EnginePoll) := do
  if txBuf.length < event.len then
    return (st, .error .bufferTooSmall)
  else
    let recovery :=
      match event.priority with
      | .retransmit => st.recovery.noteRetransmitSent event.key nowMs
      | .control | .newData => st.recovery.noteSent event.key nowMs
    let txBuf ← write txBuf 0 event.len (← event.asBytes)
    let bytes ← slice txBuf 0 event.len
    return ({ st with recovery }, .ok (.transmit bytes event.attempts))

/-- Hands on an event that was taken from the scheduler. -/
def pollEvent (st : EngineState) (event : EngineOutput) (nowMs : Nat) (txBuf : Bytes) :
    Checked t (EngineState × Except Error EnginePoll) :=
  match event with
  | .write event => st.pollWrite event nowMs txBuf
  | .sendFailed failed => pure (st, .ok (.sendFailed failed))

/-- Hands on the oldest first transmission. -/
def pollNewData (st : EngineState) (nowMs : Nat) (txBuf : Bytes) :
    Checked t (EngineState × Except Error EnginePoll) := do
  let popped ← st.scheduler.popNewData
  let st := { st with scheduler := popped.2 }
  match popped.1 with
  | none => return (st, .ok .idle)
  | some event => st.pollEvent event nowMs txBuf

/-- Acknowledgements first, then urgent events, then deliveries, then first transmissions. -/
def pollOutput (st : EngineState) (config : EngineConfig) (nowMs : Nat) (txBuf : Bytes) :
    Checked t (EngineState × Except Error EnginePoll) := do
  if AckState.isPending st.ack then
    st.pollPendingAck config txBuf
  else
    let urgent ← st.scheduler.popUrgent
    let st := { st with scheduler := urgent.2 }
    match urgent.1 with
    | some event => st.pollEvent event nowMs txBuf
    | none =>
      let delivered ← MessageState.pop st.message
      let st := { st with message := delivered.2 }
      match delivered.1 with
      | some message => return (st, .ok (.message message))
      | none => st.pollNewData nowMs txBuf

/-- Polls one action into a transmit buffer. -/
def poll (st : EngineState) (config : EngineConfig) (nowMs : Nat) (txBuf : Bytes) :
    Checked t (EngineState × Except Error EnginePoll) := do
  (← st.tickRetransmit config nowMs).pollOutput config nowMs txBuf

end EngineState

/-! ## Engine -/

/-- Protocol engine: a configuration and its session state. -/
structure Engine where
  config : EngineConfig
  state : EngineState

namespace Engine

/-- The engine of a configuration. -/
def new (config : EngineConfig) : Engine := ⟨config, .new config.initialMessageId⟩

/-- Sends a message reliably. -/
def send (engine : Engine) (message : Bytes) : Checked t (Engine × Except Error MessageId) := do
  let sent ← engine.state.sendData engine.config message
  return ({ engine with state := sent.1 }, sent.2)

/-- Queues a PING. -/
def sendPing (engine : Engine) : Checked t (Engine × Except Error Unit) := do
  let pinged ← engine.state.sendPing engine.config
  return ({ engine with state := pinged.1 }, pinged.2)

/-- Takes a chunk of the peer's stream. -/
def receive (engine : Engine) (bytes : Bytes) : Checked t (Engine × ReceiveReport) := do
  let received ← engine.state.receiveBytes engine.config bytes
  return ({ engine with state := received.1 }, received.2)

/-- Produces one action. -/
def poll (engine : Engine) (nowMs : Nat) (txBuf : Bytes) :
    Checked t (Engine × Except Error EnginePoll) := do
  let polled ← engine.state.poll engine.config nowMs txBuf
  return ({ engine with state := polled.1 }, polled.2)

end Engine

/-! ## Peer slot -/

/-- A single peer session slot. -/
structure PeerSlot where
  config : EngineConfig
  engine : Option Engine
  state : PeerState
  lastSeenMs : Nat
  lastPingMs : Nat
  pendingPing : Bool

namespace PeerSlot

/-- The slot without a session. -/
def new (config : EngineConfig) : PeerSlot := ⟨config, none, .disconnected, 0, 0, false⟩

/-- Whether the slot is in the connected state. -/
def isConnected (slot : PeerSlot) : Bool := slot.state == .connected

/-- The slot with a fresh engine that has not been heard from. -/
def acceptPassive (slot : PeerSlot) (nowMs : Nat) : PeerSlot :=
  { slot with
    engine := some (.new slot.config)
    state := .connecting
    lastSeenMs := nowMs
    lastPingMs := nowMs
    pendingPing := false }

/-- Creates a fresh engine and queues the hello message. -/
def connect (slot : PeerSlot) (nowMs : Nat) : Checked t (PeerSlot × Except Error MessageId) := do
  let slot := { slot with
    state := .connecting
    lastSeenMs := nowMs
    lastPingMs := nowMs
    pendingPing := false }
  let sent ← (Engine.new slot.config).send helloMessage
  return ({ slot with engine := some sent.1 }, sent.2)

/-- Drops the session and what was recorded about it. -/
def disconnect (slot : PeerSlot) : PeerSlot :=
  { slot with
    engine := none
    state := .disconnected
    lastSeenMs := 0
    lastPingMs := 0
    pendingPing := false }

/-- Creates a passive engine if needed and records peer activity. -/
def acceptPassiveIfNeeded (slot : PeerSlot) (nowMs : Nat) : PeerSlot :=
  let slot := if slot.engine.isNone then slot.acceptPassive nowMs else slot
  { slot with lastSeenMs := nowMs }

/-- Queues an application message; `none` when no session exists. -/
def send (slot : PeerSlot) (message : Bytes) :
    Checked t (PeerSlot × Except Error (Option MessageId)) := do
  match slot.engine with
  | none => return (slot, .ok none)
  | some engine =>
    let sent ← engine.send message
    return ({ slot with engine := some sent.1 }, sent.2.map some)

/-- What a report that is no error does to the connection state. -/
def noteReport (slot : PeerSlot) (nowMs : Nat) (report : ReceiveReport) : PeerSlot :=
  let slot := if report.isPeerTraffic then
    { slot with state := .connected, lastSeenMs := nowMs } else slot
  if report = .pong then { slot with pendingPing := false } else slot

/-- Takes a chunk from the peer.  An error drops the session; without a session the chunk is
ignored. -/
def receive (slot : PeerSlot) (nowMs : Nat) (bytes : Bytes) :
    Checked t (PeerSlot × ReceiveReport) := do
  match slot.engine with
  | none => return (slot, .incomplete none)
  | some engine =>
    let received ← engine.receive bytes
    let slot := { slot with engine := some received.1 }
    if received.2.isError then
      return (slot.disconnect, received.2)
    else
      return (slot.noteReport nowMs received.2, received.2)

/-- Queues a PING to a connected peer that has been silent. -/
def queuePingIfIdle (slot : PeerSlot) (nowMs : Nat) :
    Checked t (PeerSlot × Except Error Unit) := do
  if !slot.isConnected || slot.pendingPing ||
      decide (nowMs - slot.lastSeenMs < defaultPingIntervalMs) ||
      decide (nowMs - slot.lastPingMs < defaultPingIntervalMs) then
    return (slot, .ok ())
  else
    match slot.engine with
    | none => return (slot, .ok ())
    | some engine =>
      let pinged ← engine.sendPing
      let slot := { slot with engine := some pinged.1 }
      match pinged.2 with
      | .error e => return (slot, .error e)
      | .ok () => return ({ slot with lastPingMs := nowMs, pendingPing := true }, .ok ())

/-- Polls the active engine. -/
def pollEngine (slot : PeerSlot) (nowMs : Nat) (txBuf : Bytes) :
    Checked t (PeerSlot × Except Error EnginePoll) := do
  match slot.engine with
  | none => return (slot, .ok .idle)
  | some engine =>
    let polled ← engine.poll nowMs txBuf
    let slot := { slot with engine := some polled.1 }
    match polled.2 with
    | .error e => return (slot.disconnect, .error e)
    | .ok (.message message) =>
      return ({ slot with state := .connected, lastSeenMs := nowMs }, .ok (.message message))
    | .ok (.sendFailed event) => return (slot.disconnect, .ok (.sendFailed event))
    | .ok other => return (slot, .ok other)

/-- A PING is queued first if the peer has been silent; any error drops the session. -/
def poll (slot : PeerSlot) (nowMs : Nat) (txBuf : Bytes) :
    Checked t (PeerSlot × Except Error EnginePoll) := do
  match ← slot.queuePingIfIdle nowMs with
  | (slot, .error e) => return (slot.disconnect, .error e)
  | (slot, .ok ()) => slot.pollEngine nowMs txBuf

/-- Drops a session that has heard nothing for at least `timeoutMs`, and reports whether it did. -/
def disconnectIfIdle (slot : PeerSlot) (nowMs timeoutMs : Nat) : PeerSlot × Bool :=
  if slot.engine.isSome && decide (nowMs - slot.lastSeenMs ≥ timeoutMs) then
    (slot.disconnect, true)
  else (slot, false)

end PeerSlot

/-! ## Calls -/

/-- A call of a slot operation, with the slices it is handed. -/
inductive SlotCall (t : Target) where
  | connect (nowMs : Nat)
  | acceptPassive (nowMs : Nat)
  | acceptPassiveIfNeeded (nowMs : Nat)
  | disconnect
  | send (message : Slice t)
  | receive (nowMs : Nat) (bytes : Slice t)
  | poll (nowMs : Nat) (txBuf : Slice t)
  | disconnectIfIdle (nowMs timeoutMs : Nat)

/-- The slot a call leaves. -/
def SlotCall.after (call : SlotCall t) (slot : PeerSlot) : Checked t PeerSlot := do
  match call with
  | .connect nowMs => return (← slot.connect nowMs).1
  | .acceptPassive nowMs => return slot.acceptPassive nowMs
  | .acceptPassiveIfNeeded nowMs => return slot.acceptPassiveIfNeeded nowMs
  | .disconnect => return slot.disconnect
  | .send message => return (← slot.send message.bytes).1
  | .receive nowMs bytes => return (← slot.receive nowMs bytes.bytes).1
  | .poll nowMs txBuf => return (← slot.poll nowMs txBuf.bytes).1
  | .disconnectIfIdle nowMs timeoutMs => return (slot.disconnectIfIdle nowMs timeoutMs).1

/-- A fresh slot after a sequence of calls. -/
def runCalls (config : EngineConfig) (calls : List (SlotCall t)) : Checked t PeerSlot :=
  calls.foldlM (fun slot call => call.after slot) (.new config)

end Msrt.Machine
