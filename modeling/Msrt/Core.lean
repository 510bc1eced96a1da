import Mathlib.Algebra.Group.Nat.Defs

/-! # Protocol primitives

The types every layer shares: errors, packet identities, packet kinds and headers, and the size
constants of the engine.  A packet is identified inside a session by its message id and its
index in the message (`PacketKey`); there is no global packet number.

Times are natural numbers of milliseconds: the program only compares them and subtracts them
with saturation, which is the subtraction of `Nat`.
-/

namespace Msrt

/-- A byte string. -/
abbrev Bytes := List UInt8

/-- Broad error category. -/
inductive ErrorKind where
  | malformed
  | bufferTooSmall
  | packet
  | reliability
  | channel
  | engine
  | unsupported
  deriving DecidableEq, Repr

/-- An error: its category and nothing else. -/
structure Error where
  kind : ErrorKind
  deriving DecidableEq, Repr

/-- The error of a buffer that cannot hold what is written or appended. -/
def Error.bufferTooSmall : Error := ⟨.bufferTooSmall⟩

/-- The error of a full queue or table. -/
def Error.engine : Error := ⟨.engine⟩

/-- Message identifier scoped to one engine session. -/
abbrev MessageId := UInt32

/-- Packet index scoped to one message. -/
abbrev PacketIndex := UInt16

/-- Stable identity of a packet fragment inside one message. -/
structure PacketKey where
  messageId : MessageId
  packetIndex : PacketIndex
  deriving DecidableEq, Repr

/-- The key carried by queued PING and PONG writes. -/
def PacketKey.zero : PacketKey := ⟨0, 0⟩

/-- Packet type carried by the packet header. -/
inductive PacketType where
  | data
  | log
  | ack
  | ping
  | pong
  deriving DecidableEq, Repr

/-- The encoded packet type. -/
def PacketType.code : PacketType → UInt8
  | .data => 0x00
  | .log => 0x04
  | .ack => 0x01
  | .ping => 0x02
  | .pong => 0x03

/-- The packet type of a type byte; `none` for a byte that encodes none. -/
def PacketType.fromCode (code : UInt8) : Option PacketType :=
  if code = 0x00 then some .data
  else if code = 0x04 then some .log
  else if code = 0x01 then some .ack
  else if code = 0x02 then some .ping
  else if code = 0x03 then some .pong
  else none

/-- Protocol flags carried by DATA packets. -/
structure Flags where
  bits : UInt8
  deriving DecidableEq, Repr

namespace Flags

/-- No flag is set. -/
def empty : Flags := ⟨0⟩

/-- The packet asks for an acknowledgement. -/
def ackEliciting : Flags := ⟨1⟩

/-- Whether all bits of `other` are set. -/
def contains (self other : Flags) : Bool := self.bits &&& other.bits == other.bits

end Flags

/-- Header of a reliable message fragment. -/
structure DataHeader where
  flags : Flags
  messageId : MessageId
  packetIndex : PacketIndex
  messageLen : Nat
  fragmentOffset : Nat
  deriving DecidableEq, Repr

/-- Whether the header asks for an acknowledgement. -/
def DataHeader.isAckEliciting (h : DataHeader) : Bool := h.flags.contains .ackEliciting

/-- Header of a best-effort log fragment. -/
structure LogHeader where
  messageId : MessageId
  packetIndex : PacketIndex
  messageLen : Nat
  fragmentOffset : Nat
  deriving DecidableEq, Repr

/-- Kind-specific packet header data. -/
inductive PacketHeaderBody where
  | data (header : DataHeader)
  | log (header : LogHeader)
  | ack (key : PacketKey)
  | ping
  | pong
  deriving DecidableEq, Repr

/-- A packet header: the packet type and the body that goes with it. -/
structure PacketHeader where
  packetType : PacketType
  body : PacketHeaderBody
  deriving DecidableEq, Repr

/-- The header of a DATA packet. -/
def PacketHeader.data (packetIndex : PacketIndex) (flags : Flags) (messageId : MessageId)
    (messageLen fragmentOffset : Nat) : PacketHeader :=
  ⟨.data, .data ⟨flags, messageId, packetIndex, messageLen, fragmentOffset⟩⟩

/-- The header of a LOG packet. -/
def PacketHeader.log (packetIndex : PacketIndex) (messageId : MessageId)
    (messageLen fragmentOffset : Nat) : PacketHeader :=
  ⟨.log, .log ⟨messageId, packetIndex, messageLen, fragmentOffset⟩⟩

/-! ## Encoded sizes -/

/-- Encoded length of the packet type. -/
def packetTypeLen : Nat := 1
/-- Encoded length of the flags, which only a DATA header has. -/
def packetFlagsLen : Nat := 1
/-- Encoded length of the message id. -/
def messageIdLen : Nat := 4
/-- Encoded length of the packet index. -/
def packetIndexLen : Nat := 2
/-- Encoded length of the message length. -/
def messageLenLen : Nat := 2
/-- Encoded length of the fragment offset. -/
def fragmentOffsetLen : Nat := 2

/-- Encoded length of a DATA header, the packet type included. -/
def dataPacketHeaderLen : Nat :=
  packetTypeLen + packetFlagsLen + messageIdLen + packetIndexLen + messageLenLen + fragmentOffsetLen

/-- Encoded length of a LOG header: a DATA header without flags. -/
def logPacketHeaderLen : Nat :=
  packetTypeLen + messageIdLen + packetIndexLen + messageLenLen + fragmentOffsetLen

/-- Encoded length of an ACK packet, which is a header only. -/
def ackPacketHeaderLen : Nat := packetTypeLen + messageIdLen + packetIndexLen

/-- Encoded length of a PING or PONG packet, which is its type byte. -/
def livenessPacketHeaderLen : Nat := packetTypeLen

theorem dataPacketHeaderLen_eq : dataPacketHeaderLen = 12 := rfl
theorem logPacketHeaderLen_eq : logPacketHeaderLen = 11 := rfl
theorem ackPacketHeaderLen_eq : ackPacketHeaderLen = 7 := rfl
theorem livenessPacketHeaderLen_eq : livenessPacketHeaderLen = 1 := rfl

/-! ## Engine budgets -/

/-- Maximum encoded wire bytes held by one engine event. -/
def maxWireBytes : Nat := 128
/-- Maximum pending engine events. -/
def maxEvents : Nat := 16
/-- Maximum ingress bytes buffered by the streaming decoder. -/
def maxIngressBytes : Nat := maxWireBytes * maxEvents
/-- Maximum complete message bytes. -/
def maxMessageBytes : Nat := 256
/-- Maximum complete messages waiting for the application. -/
def maxMessageEvents : Nat := 16
/-- Maximum in-flight packets, and the size of the duplicate table. -/
def maxInFlightPackets : Nat := 16
/-- Maximum pending acknowledgements. -/
def maxPendingAcks : Nat := 16
/-- Maximum incomplete messages tracked by the reassembly table. -/
def maxReassemblyMessages : Nat := 4

/-- Reliability mode of a packet kind. -/
inductive ReliabilityMode where
  | reliable
  | bestEffort
  | latestOnly
  | deadline
  deriving DecidableEq, Repr

/-- A complete message delivered by the engine: fixed storage, of which `len` bytes are valid. -/
structure MessageEvent where
  packetType : PacketType
  messageId : MessageId
  bytes : Bytes
  len : Nat
  deriving DecidableEq, Repr

/-- The valid message bytes. -/
def MessageEvent.asBytes (m : MessageEvent) : Bytes := m.bytes.take m.len

/-- Reason a reliable send failed. -/
inductive SendFailureReason where
  | retryLimitReached
  deriving DecidableEq, Repr

/-- A reliable send failure produced by the engine. -/
structure SendFailedEvent where
  packetType : PacketType
  messageId : MessageId
  reason : SendFailureReason
  deriving DecidableEq, Repr

end Msrt
