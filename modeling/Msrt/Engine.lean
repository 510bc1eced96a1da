import Msrt.InFlight
import Msrt.Reassembly

/-! # The protocol engine

The state one session owns and its operations, as the program computes them: `send`, `sendLog` and
`sendPing` fill the scheduler and the in-flight table, `receive` drains the byte stream packet by
packet, and `poll` runs the retransmission tick and then returns one action.  An operation returns
the state it leaves behind together with its result, also when the result is an error: several of
them change the state before they fail.

The two loops of the program carry a fuel argument here.  `receiveLoop` takes at least one byte off
the stream in every round but the last, and `sendFragmentsLoop` advances by at least one byte, so
the fuel they are started with never runs out.
-/

namespace Msrt

/-! ## Configuration and state -/

/-- Protocol engine configuration, without optional features. -/
structure EngineConfig where
  initialMessageId : MessageId
  fragmentBytes : Nat
  maxRetransmitAttempts : UInt8
  retransmitTimeoutMs : Nat
  reassemblyTimeoutMs : Nat
  integrity : IntegrityConfig

/-- The default configuration. -/
def EngineConfig.default : EngineConfig where
  initialMessageId := 0
  fragmentBytes := 64
  maxRetransmitAttempts := 5
  retransmitTimeoutMs := 50
  reassemblyTimeoutMs := 2000
  integrity := .default

/-- Last engine time observed through `poll`. -/
structure ClockState where
  nowMs : Nat
  deriving DecidableEq, Repr

/-- Pseudo-random message identifier allocator. -/
structure NumberState where
  messageIdState : UInt32
  deriving DecidableEq, Repr

namespace NumberState

/-- The multiplier of the id generator. -/
def messageIdMultiplier : UInt32 := 1664525
/-- The increment of the id generator. -/
def messageIdIncrement : UInt32 := 1013904223

/-- The first id handed out is the one that follows the configured one. -/
def new (initialMessageId : MessageId) : NumberState := ⟨initialMessageId⟩

/-- The id that follows `id`. -/
def nextId (id : MessageId) : MessageId := id * messageIdMultiplier + messageIdIncrement

/-- Takes the next id. -/
def allocMessageId (n : NumberState) : NumberState × MessageId :=
  (⟨nextId n.messageIdState⟩, nextId n.messageIdState)

theorem allocMessageId_eq (n : NumberState) :
    n.allocMessageId = (⟨nextId n.messageIdState⟩, nextId n.messageIdState) := rfl

end NumberState

/-- Protocol state of one session. -/
structure EngineState where
  clock : ClockState
  numbers : NumberState
  scheduler : SchedulerState
  recovery : RecoveryState
  ack : AckState
  ingress : StreamingDecoder maxIngressBytes
  message : MessageState
  receive : PacketDedup maxInFlightPackets
  reassembly : ReassemblyState

/-- High-level action returned by `poll`. -/
inductive EnginePoll where
  | transmit (bytes : Bytes) (attempts : UInt8)
  | message (message : MessageEvent)
  | sendFailed (event : SendFailedEvent)
  | idle
  deriving DecidableEq, Repr

/-- Result of `receive`. -/
inductive ReceiveReport where
  | packet (packetIndex : PacketIndex)
  | duplicate (packetIndex : PacketIndex)
  | ack (packetIndex : PacketIndex)
  | ping
  | pong
  | noise (skipped : Nat)
  | corrupted
  | incomplete (needed : Option Nat)
  | error (error : Error)
  deriving DecidableEq, Repr

/-- Whether the receive failed, rather than met bytes it could not use. -/
def ReceiveReport.isError : ReceiveReport → Bool
  | .error _ => true
  | _ => false

namespace EngineState

/-- A session before its first operation. -/
def new (initialMessageId : MessageId) : EngineState where
  clock := ⟨0⟩
  numbers := .new initialMessageId
  scheduler := .new
  recovery := .new
  ack := .new
  ingress := .new
  message := .new
  receive := .new
  reassembly := .new

/-! ## Sending -/

/-- Whether all fragments of a message fit the scheduler and, if it is reliable, the in-flight table. -/
def ensureCanQueueMessage (st : EngineState) (messageLen fragmentBytes : Nat)
    (mode : ReliabilityMode) : Except Error Unit :=
  let fragments := fragmentCount messageLen fragmentBytes
  if fragments > maxEvents ∨ st.scheduler.available < fragments then .error .engine
  else if mode = .reliable ∧ st.recovery.availableInFlight < fragments then .error .engine
  else .ok ()

/-- Queues one encoded fragment and, for a reliable message, tracks it. -/
def queueFragment (st : EngineState) (packetType : PacketType) (mode : ReliabilityMode)
    (key : PacketKey) (wire : WireBuffer) : EngineState × Except Error Unit :=
  match st.scheduler.push (.write ⟨key, wire, 0, .newData⟩) with
  | .error e => (st, .error e)
  | .ok scheduler =>
    if mode = .reliable then
      match st.recovery.track ⟨key, packetType, key.messageId, wire, 0, st.clock.nowMs, false⟩ with
      | .error e => ({ st with scheduler }, .error e)
      | .ok recovery => ({ st with scheduler, recovery }, .ok ())
    else ({ st with scheduler }, .ok ())

/-- Encodes the fragment at `offset` and queues it. -/
def sendFragment (st : EngineState) (config : EngineConfig) (packetType : PacketType)
    (messageId : MessageId) (message : Bytes) (fragmentBytes : Nat) (mode : ReliabilityMode)
    (offset : Nat) (packetIndex : PacketIndex) : EngineState × Except Error Unit :=
  let stop := min (offset + fragmentBytes) message.length
  let fragment := (message.take stop).drop offset
  let encoded : Except Error Bytes := do
    let header ← packetHeaderForFragment packetType packetIndex messageId message.length offset mode
    encodeMessageFragment header fragment maxWireBytes config.integrity
  match encoded with
  | .error e => (st, .error e)
  | .ok wire => st.queueFragment packetType mode ⟨messageId, packetIndex⟩ (.store wire)

/-- The fragment loop, from `offset` on. -/
def sendFragmentsLoop (config : EngineConfig) (packetType : PacketType) (messageId : MessageId)
    (message : Bytes) (fragmentBytes : Nat) (mode : ReliabilityMode) :
    Nat → Nat → PacketIndex → EngineState → EngineState × Except Error Unit
  | 0, _, _, st => (st, .ok ())
  | fuel + 1, offset, packetIndex, st =>
    if offset < message.length ∨ (message.isEmpty ∧ offset = 0) then
      match st.sendFragment config packetType messageId message fragmentBytes mode offset
          packetIndex with
      | (st, .error e) => (st, .error e)
      | (st, .ok ()) =>
        if message.isEmpty then (st, .ok ())
        else
          sendFragmentsLoop config packetType messageId message fragmentBytes mode fuel
            (min (offset + fragmentBytes) message.length) (packetIndex + 1) st
    else (st, .ok ())

/-- Queues the fragments of a message of at most `maxMessageBytes`. -/
def sendMessageFragments (st : EngineState) (config : EngineConfig) (packetType : PacketType)
    (messageId : MessageId) (message : Bytes) (fragmentBytes : Nat) (mode : ReliabilityMode) :
    EngineState × Except Error Unit :=
  if message.length > maxMessageBytes then (st, .error .engine)
  else
    sendFragmentsLoop config packetType messageId message fragmentBytes mode (message.length + 1)
      0 0 st

/-- The message id is taken before anything is checked, so a refused message uses one up. -/
def sendFragmentedMessage (st : EngineState) (config : EngineConfig) (packetType : PacketType)
    (message : Bytes) : EngineState × Except Error MessageId :=
  match maxFragmentBytes packetType config.integrity.tagLen with
  | .error e => (st, .error e)
  | .ok most =>
    let fragmentBytes := min (max config.fragmentBytes 1) most
    let allocated := st.numbers.allocMessageId
    let st := { st with numbers := allocated.1 }
    match reliabilityMode packetType with
    | .error e => (st, .error e)
    | .ok mode =>
      match st.ensureCanQueueMessage message.length fragmentBytes mode with
      | .error e => (st, .error e)
      | .ok () =>
        match st.sendMessageFragments config packetType allocated.2 message fragmentBytes mode with
        | (st, .error e) => (st, .error e)
        | (st, .ok ()) => (st, .ok allocated.2)

/-- Sends a message reliably. -/
def sendData (st : EngineState) (config : EngineConfig) (message : Bytes) :
    EngineState × Except Error MessageId := st.sendFragmentedMessage config .data message

/-- Sends a message once, without acknowledgement. -/
def sendLog (st : EngineState) (config : EngineConfig) (message : Bytes) :
    EngineState × Except Error MessageId := st.sendFragmentedMessage config .log message

/-- Queues a PING or PONG; both carry the zero key. -/
def queueLiveness (st : EngineState) (config : EngineConfig) (packetType : PacketType)
    (priority : WritePriority) : EngineState × Except Error Unit :=
  match encodeLivenessPacket packetType maxWireBytes config.integrity with
  | .error e => (st, .error e)
  | .ok wire =>
    match st.scheduler.push (.write ⟨.zero, .store wire, 0, priority⟩) with
    | .error e => (st, .error e)
    | .ok scheduler => ({ st with scheduler }, .ok ())

/-- Queues a PING with the priority of new data. -/
def sendPing (st : EngineState) (config : EngineConfig) : EngineState × Except Error Unit :=
  st.queueLiveness config .ping .newData

/-- Queues the answer to a PING as a control write. -/
def queuePong (st : EngineState) (config : EngineConfig) : EngineState × Except Error Unit :=
  st.queueLiveness config .pong .control

/-! ## Receiving -/

/-- Queues an acknowledgement when the packet asks for one; `none` when the queue is full. -/
def acknowledge (st : EngineState) (ackEliciting : Bool) (key : PacketKey) : Option EngineState :=
  if ackEliciting then (st.ack.observe key).map (fun ack => { st with ack }) else some st

/-- The state once the reassembly table has taken a fragment of a `packetType` packet. -/
def reassemble (st : EngineState) (packetType : PacketType) (fragment : MessageFragment) :
    EngineState × Except Error Unit :=
  let observed := st.reassembly.observe fragment st.clock.nowMs
  let st := { st with reassembly := observed.1 }
  match observed.2 with
  | .ok (some message) =>
    ({ st with message := st.message.push { message with packetType := packetType } }, .ok ())
  | .ok none => (st, .ok ())
  | .error e => (st, .error e)

/-- A DATA packet: a duplicate is acknowledged again and nothing else.  A new one is gathered before
it is remembered, and remembered before it is acknowledged. -/
def receiveData (st : EngineState) (fragment : MessageFragment) : EngineState × ReceiveReport :=
  if st.receive.isDuplicate fragment.key then
    match st.acknowledge fragment.ackEliciting fragment.key with
    | none => (st, .error .engine)
    | some st => (st, .duplicate fragment.packetIndex)
  else
    match st.reassemble .data fragment with
    | (st, .error _) => (st, .corrupted)
    | (st, .ok ()) =>
      let observed := st.receive.observePacket fragment.key
      let st := { st with receive := observed.1 }
      match observed.2 with
      | .error e => (st, .error e)
      | .ok .duplicate => (st, .duplicate fragment.packetIndex)
      | .ok .accept =>
        match st.acknowledge fragment.ackEliciting fragment.key with
        | none => (st, .error .engine)
        | some st => (st, .packet fragment.packetIndex)

/-- A LOG packet is gathered; it is neither remembered nor acknowledged. -/
def receiveLog (st : EngineState) (fragment : MessageFragment) : EngineState × ReceiveReport :=
  match st.reassemble .log fragment with
  | (st, .error _) => (st, .corrupted)
  | (st, .ok ()) => (st, .packet fragment.packetIndex)

/-- Handles one packet of the decoder by its kind. -/
def receiveCompletePacket (st : EngineState) (config : EngineConfig) (packet : Bytes) :
    EngineState × ReceiveReport :=
  match decodePacketBytes packet with
  | .data _ fragment => st.receiveData fragment
  | .log _ fragment => st.receiveLog fragment
  | .ack key => ({ st with recovery := st.recovery.applyAck key }, .ack key.packetIndex)
  | .ping =>
    match st.queuePong config with
    | (st, .error _) => (st, .error .engine)
    | (st, .ok ()) => (st, .ping)
  | .pong => (st, .pong)
  | .malformed => (st, .corrupted)

/-- The report once the decoder asks for more bytes: an earlier report stands. -/
def finalReport (report : ReceiveReport) (additional : Option Nat) : ReceiveReport :=
  match report with
  | .incomplete _ => .incomplete additional
  | other => other

/-- The receive loop, with the last report so far. -/
def receiveLoop (config : EngineConfig) :
    Nat → EngineState → Bytes → ReceiveReport → EngineState × ReceiveReport
  | 0, st, _, report => (st, report)
  | fuel + 1, st, input, report =>
    let fed := st.ingress.feed input config.integrity
    let st := { st with ingress := fed.1 }
    match fed.2 with
    | .error e => (st, .error e)
    | .ok (.packet packetBytes _) =>
      match packetBytesTryFromSlice packetBytes with
      | .error e => (st, .error e)
      | .ok packet =>
        let handled := st.receiveCompletePacket config packet
        if handled.2.isError then handled
        else receiveLoop config fuel handled.1 [] handled.2
    | .ok (.needMore additional) => (st, finalReport report additional)
    | .ok (.noise skipped) => receiveLoop config fuel st [] (.noise skipped)
    | .ok (.corrupted _) => receiveLoop config fuel st [] .corrupted
    | .ok (.resync skipped) => receiveLoop config fuel st [] (.noise skipped)

/-- Feeds a chunk and handles every packet it completes.  The fuel is one round for each byte of
buffer and chunk, and one more. -/
def receiveBytes (st : EngineState) (config : EngineConfig) (bytes : Bytes) :
    EngineState × ReceiveReport :=
  receiveLoop config (st.ingress.rest.length + bytes.length + 1) st bytes (.incomplete none)

/-! ## The retransmission tick -/

/-- What one scan of the in-flight table collects. -/
structure TickScan where
  retransmits : List InFlightPacket
  failures : List InFlightPacket
  failedMessages : List (PacketType × MessageId)
  deriving DecidableEq

/-- Nothing has been collected. -/
def TickScan.new : TickScan := ⟨[], [], []⟩

/-- Whether the packet was sent and its timeout has passed. -/
def retransmitDue (config : EngineConfig) (nowMs : Nat) (packet : InFlightPacket) : Bool :=
  packet.sent && !decide (nowMs - packet.lastSentMs < config.retransmitTimeoutMs)

/-- One round of the scan. -/
def TickScan.visit (config : EngineConfig) (nowMs : Nat) (scan : TickScan)
    (packet : InFlightPacket) : TickScan :=
  if !retransmitDue config nowMs packet then scan
  else if packet.attempts ≥ config.maxRetransmitAttempts then
    if !scan.failedMessages.contains (packet.packetType, packet.messageId) &&
        decide (scan.failures.length < maxInFlightPackets) then
      { scan with
        failures := scan.failures ++ [packet]
        failedMessages := scan.failedMessages ++ [(packet.packetType, packet.messageId)] }
    else scan
  else if scan.retransmits.length < maxInFlightPackets then
    { scan with retransmits := scan.retransmits ++ [packet] }
  else scan

/-- Drops a failed message and queues its `SendFailed`, ignoring a full scheduler. -/
def failMessage (st : EngineState) (packet : InFlightPacket) : EngineState :=
  { st with
    recovery := st.recovery.removeMessage packet.packetType packet.messageId
    scheduler := st.scheduler.pushIgnored
      (.sendFailed ⟨packet.packetType, packet.messageId, .retryLimitReached⟩) }

/-- Queues a retransmission unless its message has just failed, ignoring a full scheduler. -/
def queueRetransmit (failedMessages : List (PacketType × MessageId)) (st : EngineState)
    (packet : InFlightPacket) : EngineState :=
  if failedMessages.contains (packet.packetType, packet.messageId) then st
  else
    { st with
      scheduler := st.scheduler.pushIgnored
        (.write ⟨packet.key, packet.wire, saturatingSucc packet.attempts, .retransmit⟩) }

/-- What the tick does before it looks at the in-flight table. -/
def advanceClock (st : EngineState) (config : EngineConfig) (nowMs : Nat) : EngineState :=
  { st with
    clock := ⟨nowMs⟩
    reassembly := st.reassembly.expire nowMs config.reassemblyTimeoutMs }

/-- The retransmission tick, at most once per time: failures first, then retransmissions. -/
def tickRetransmit (st : EngineState) (config : EngineConfig) (nowMs : Nat) : EngineState :=
  let st := st.advanceClock config nowMs
  let ticked := st.recovery.shouldTick nowMs
  let st := { st with recovery := ticked.1 }
  if ticked.2 then
    let scan := st.recovery.packets.foldl (TickScan.visit config nowMs) .new
    let st := scan.failures.foldl failMessage st
    scan.retransmits.foldl (queueRetransmit scan.failedMessages) st
  else st

/-! ## Polling -/

/-- Transmits the oldest pending acknowledgement.  It is taken from its queue even if the buffer is
too small for it. -/
def pollPendingAck (st : EngineState) (config : EngineConfig) (txLen : Nat) :
    EngineState × Except Error EnginePoll :=
  let popped := AckState.pop st.ack
  let st := { st with ack := popped.2 }
  match popped.1 with
  | none => (st, .ok .idle)
  | some key =>
    match encodeAckPacket key txLen config.integrity with
    | .error e => (st, .error e)
    | .ok bytes => (st, .ok (.transmit bytes 0))

/-- Copies a write into the buffer and records its transmission. -/
def pollWrite (st : EngineState) (write : WriteEvent) (nowMs txLen : Nat) :
    EngineState × Except Error EnginePoll :=
  if txLen < write.wire.bytes.length then (st, .error .bufferTooSmall)
  else
    let recovery :=
      match write.priority with
      | .retransmit => st.recovery.noteRetransmitSent write.key nowMs
      | .control | .newData => st.recovery.noteSent write.key nowMs
    ({ st with recovery }, .ok (.transmit write.wire.bytes write.attempts))

/-- Hands on an event that was taken from the scheduler. -/
def pollEvent (st : EngineState) (event : EngineOutput) (nowMs txLen : Nat) :
    EngineState × Except Error EnginePoll :=
  match event with
  | .write write => st.pollWrite write nowMs txLen
  | .sendFailed failed => (st, .ok (.sendFailed failed))

/-- Hands on the oldest first transmission. -/
def pollNewData (st : EngineState) (nowMs txLen : Nat) : EngineState × Except Error EnginePoll :=
  let popped := st.scheduler.newData.pop
  let st := { st with scheduler := st.scheduler.popNewData }
  match popped.1 with
  | none => (st, .ok .idle)
  | some event => st.pollEvent event nowMs txLen

/-- Acknowledgements first, then urgent events, then deliveries, then first transmissions. -/
def pollOutput (st : EngineState) (config : EngineConfig) (nowMs txLen : Nat) :
    EngineState × Except Error EnginePoll :=
  if AckState.isPending st.ack then st.pollPendingAck config txLen
  else
    let urgent := st.scheduler.popUrgent
    let st := { st with scheduler := urgent.2 }
    match urgent.1 with
    | some event => st.pollEvent event nowMs txLen
    | none =>
      let delivered := MessageState.pop st.message
      let st := { st with message := delivered.2 }
      match delivered.1 with
      | some message => (st, .ok (.message message))
      | none => st.pollNewData nowMs txLen

/-- Polls one action into a transmit buffer of `txLen` bytes. -/
def poll (st : EngineState) (config : EngineConfig) (nowMs txLen : Nat) :
    EngineState × Except Error EnginePoll :=
  (st.tickRetransmit config nowMs).pollOutput config nowMs txLen

end EngineState

/-! ## Engine -/

/-- Protocol engine: a configuration and its session state. -/
structure Engine where
  config : EngineConfig
  state : EngineState

namespace Engine

/-- The engine of a configuration. -/
def new (config : EngineConfig) : Engine := ⟨config, .new config.initialMessageId⟩

/-- The engine with the state an operation left, and the operation's result. -/
def update {α : Type} (engine : Engine) (result : EngineState × α) : Engine × α :=
  ({ engine with state := result.1 }, result.2)

/-- Sends a message reliably. -/
def send (engine : Engine) (message : Bytes) : Engine × Except Error MessageId :=
  engine.update (engine.state.sendData engine.config message)

/-- Sends a message once, without acknowledgement. -/
def sendLog (engine : Engine) (message : Bytes) : Engine × Except Error MessageId :=
  engine.update (engine.state.sendLog engine.config message)

/-- Queues a PING. -/
def sendPing (engine : Engine) : Engine × Except Error Unit :=
  engine.update (engine.state.sendPing engine.config)

/-- Takes a chunk of the peer's stream. -/
def receive (engine : Engine) (bytes : Bytes) : Engine × ReceiveReport :=
  engine.update (engine.state.receiveBytes engine.config bytes)

/-- Produces one action. -/
def poll (engine : Engine) (nowMs txLen : Nat) : Engine × Except Error EnginePoll :=
  engine.update (engine.state.poll engine.config nowMs txLen)

end Engine

end Msrt
