import Msrt.StreamingDecoder

/-! # Packet layouts

The two directions of the packet format, written separately in the program: the encoders of
outgoing packets, which put a packet into its envelope, and `decodePacketBytes`, which reads one
back.  Integers are little-endian; DATA carries a flags byte that LOG and ACK do not have, so
their later fields stand one byte earlier.

An encoder is given the room of its output buffer and returns the bytes it writes there.
-/

namespace Msrt
open ByteWords

/-- `bytes.get(lo..hi)`. -/
def getRange? (bytes : Bytes) (lo hi : Nat) : Option Bytes :=
  if lo ≤ hi ∧ hi ≤ bytes.length then some ((bytes.drop lo).take (hi - lo)) else none

/-- `u16::from_le_bytes`. -/
def u16FromLe (bytes : Bytes) : UInt16 := UInt16.ofNat (ofLeBytes bytes)
/-- `u32::from_le_bytes`. -/
def u32FromLe (bytes : Bytes) : UInt32 := UInt32.ofNat (ofLeBytes bytes)
/-- `u16::to_le_bytes`. -/
def u16ToLe (v : UInt16) : Bytes := leBytes 2 v.toNat
/-- `u32::to_le_bytes`. -/
def u32ToLe (v : UInt32) : Bytes := leBytes 4 v.toNat

/-! ## Decoding -/

/-- Decoded message fragment. -/
structure MessageFragment where
  packetType : PacketType
  packetIndex : PacketIndex
  ackEliciting : Bool
  messageId : MessageId
  messageLen : Nat
  fragmentOffset : Nat
  bytes : Bytes
  deriving DecidableEq, Repr

/-- The key of the packet that carried the fragment. -/
def MessageFragment.key (f : MessageFragment) : PacketKey := ⟨f.messageId, f.packetIndex⟩

/-- Decoded packet. -/
inductive PacketDecode where
  | data (header : DataHeader) (fragment : MessageFragment)
  | log (header : LogHeader) (fragment : MessageFragment)
  | ack (key : PacketKey)
  | ping
  | pong
  | malformed
  deriving DecidableEq, Repr

/-- Reads a DATA header; the type byte has been read before. -/
def dataHeaderFromBytes (bytes : Bytes) : Option DataHeader :=
  if bytes.length < dataPacketHeaderLen then none
  else do
    let flags ← bytes[1]?
    let messageId ← getRange? bytes 2 6
    let packetIndex ← getRange? bytes 6 8
    let messageLen ← getRange? bytes 8 10
    let fragmentOffset ← getRange? bytes 10 12
    return ⟨⟨flags⟩, u32FromLe messageId, u16FromLe packetIndex, (u16FromLe messageLen).toNat,
      (u16FromLe fragmentOffset).toNat⟩

/-- Reads a LOG header, which has no flags. -/
def logHeaderFromBytes (bytes : Bytes) : Option LogHeader :=
  if bytes.length < logPacketHeaderLen then none
  else do
    let messageId ← getRange? bytes 1 5
    let packetIndex ← getRange? bytes 5 7
    let messageLen ← getRange? bytes 7 9
    let fragmentOffset ← getRange? bytes 9 11
    return ⟨u32FromLe messageId, u16FromLe packetIndex, (u16FromLe messageLen).toNat,
      (u16FromLe fragmentOffset).toNat⟩

/-- Reads an ACK packet, of exactly its length. -/
def ackFromPacketBytes (bytes : Bytes) : Option PacketKey :=
  if bytes.length ≠ ackPacketHeaderLen ∨ bytes.head? ≠ some PacketType.ack.code then none
  else do
    let messageId ← getRange? bytes 1 5
    let packetIndex ← getRange? bytes 5 7
    return ⟨u32FromLe messageId, u16FromLe packetIndex⟩

/-- The fragment behind a DATA header, if it lies in its message. -/
def dataFragmentFromPacketBytes (header : DataHeader) (bytes : Bytes) : Option MessageFragment := do
  let fragment ← getRange? bytes dataPacketHeaderLen bytes.length
  if header.fragmentOffset + fragment.length > header.messageLen then none
  else return {
    packetType := .data
    packetIndex := header.packetIndex
    ackEliciting := header.isAckEliciting
    messageId := header.messageId
    messageLen := header.messageLen
    fragmentOffset := header.fragmentOffset
    bytes := fragment }

/-- The fragment behind a LOG header, if it lies in its message.  It never asks for an
acknowledgement. -/
def logFragmentFromPacketBytes (header : LogHeader) (bytes : Bytes) : Option MessageFragment := do
  let fragment ← getRange? bytes logPacketHeaderLen bytes.length
  if header.fragmentOffset + fragment.length > header.messageLen then none
  else return {
    packetType := .log
    packetIndex := header.packetIndex
    ackEliciting := false
    messageId := header.messageId
    messageLen := header.messageLen
    fragmentOffset := header.fragmentOffset
    bytes := fragment }

/-- Reads a packet of one byte, which is a PING or a PONG. -/
def livenessFromPacketBytes (bytes : Bytes) : Option PacketType :=
  if bytes.length ≠ livenessPacketHeaderLen then none
  else do
    let packetType ← PacketType.fromCode (← bytes.head?)
    if packetType = .ping ∨ packetType = .pong then some packetType else none

/-- A DATA packet: header and fragment. -/
def dataFromPacketBytes (bytes : Bytes) : Option (DataHeader × MessageFragment) := do
  let header ← dataHeaderFromBytes bytes
  let fragment ← dataFragmentFromPacketBytes header bytes
  return (header, fragment)

/-- A LOG packet: header and fragment. -/
def logFromPacketBytes (bytes : Bytes) : Option (LogHeader × MessageFragment) := do
  let header ← logHeaderFromBytes bytes
  let fragment ← logFragmentFromPacketBytes header bytes
  return (header, fragment)

/-- Decodes a packet by its type byte; what fits no format is malformed. -/
def decodePacketBytes (bytes : Bytes) : PacketDecode :=
  match bytes.head?.bind PacketType.fromCode with
  | none => .malformed
  | some .ack =>
    match ackFromPacketBytes bytes with
    | some key => .ack key
    | none => .malformed
  | some .ping | some .pong =>
    match livenessFromPacketBytes bytes with
    | some .ping => .ping
    | some .pong => .pong
    | _ => .malformed
  | some .data =>
    match dataFromPacketBytes bytes with
    | some (header, fragment) => .data header fragment
    | none => .malformed
  | some .log =>
    match logFromPacketBytes bytes with
    | some (header, fragment) => .log header fragment
    | none => .malformed

/-- `PacketBytes::try_from_slice`: an owned packet holds at most `maxWireBytes`. -/
def packetBytesTryFromSlice (bytes : Bytes) : Except Error Bytes :=
  if bytes.length > maxWireBytes then .error .bufferTooSmall else .ok bytes

theorem packetBytesTryFromSlice_eq_ok {bytes packet : Bytes}
    (h : packetBytesTryFromSlice bytes = .ok packet) :
    packet = bytes ∧ packet.length ≤ maxWireBytes := by
  unfold packetBytesTryFromSlice at h
  split at h
  · cases h
  · obtain rfl := Except.ok.inj h
    exact ⟨rfl, by omega⟩

/-! ## Encoding -/

/-- Messages are DATA, which is reliable, or LOG, which is not. -/
def reliabilityMode : PacketType → Except Error ReliabilityMode
  | .data => .ok .reliable
  | .log => .ok .bestEffort
  | .ack | .ping | .pong => .error .engine

/-- What an envelope of `maxWireBytes` leaves for the fragment. -/
def maxFragmentBytes (packetType : PacketType) (integrityTagLen : Nat) : Except Error Nat :=
  match packetType with
  | .data => .ok (maxWireBytes - wireHeaderLen - dataPacketHeaderLen - integrityTagLen)
  | .log => .ok (maxWireBytes - wireHeaderLen - logPacketHeaderLen - integrityTagLen)
  | .ack | .ping | .pong => .error .engine

/-- How many fragments a message takes; an empty message takes one. -/
def fragmentCount (messageLen fragmentBytes : Nat) : Nat :=
  if messageLen = 0 then 1 else (messageLen + fragmentBytes - 1) / fragmentBytes

/-- The header of one fragment.  Only a reliable fragment asks for an acknowledgement. -/
def packetHeaderForFragment (packetType : PacketType) (packetIndex : PacketIndex)
    (messageId : MessageId) (messageLen fragmentOffset : Nat) (mode : ReliabilityMode) :
    Except Error PacketHeader :=
  match packetType with
  | .data =>
    .ok (PacketHeader.data packetIndex
      (if mode = .reliable then Flags.ackEliciting else Flags.empty)
      messageId messageLen fragmentOffset)
  | .log => .ok (PacketHeader.log packetIndex messageId messageLen fragmentOffset)
  | .ack | .ping | .pong => .error .engine

/-- `u16::try_from`. -/
def u16TryFrom (v : Nat) : Except Error UInt16 :=
  if v < 2 ^ 16 then .ok (UInt16.ofNat v) else .error .engine

/-- The header bytes written at the start of a packet buffer with `room` bytes. -/
def encodeFragmentHeader (header : PacketHeader) (room : Nat) : Except Error Bytes :=
  match header.body with
  | .data h =>
    if room < dataPacketHeaderLen then .error .bufferTooSmall
    else do
      let messageLen ← u16TryFrom h.messageLen
      let fragmentOffset ← u16TryFrom h.fragmentOffset
      return header.packetType.code :: h.flags.bits :: (u32ToLe h.messageId ++
        u16ToLe h.packetIndex ++ u16ToLe messageLen ++ u16ToLe fragmentOffset)
  | .log h =>
    if room < logPacketHeaderLen then .error .bufferTooSmall
    else do
      let messageLen ← u16TryFrom h.messageLen
      let fragmentOffset ← u16TryFrom h.fragmentOffset
      return header.packetType.code :: (u32ToLe h.messageId ++
        u16ToLe h.packetIndex ++ u16ToLe messageLen ++ u16ToLe fragmentOffset)
  | .ack _ | .ping | .pong => .error .engine

/-- Encodes one DATA or LOG packet into an output buffer of `outLen` bytes. -/
def encodeMessageFragment (header : PacketHeader) (fragment : Bytes) (outLen : Nat)
    (integrity : IntegrityConfig) : Except Error Bytes :=
  let encodeWith (headerLen : Nat) : Except Error Bytes :=
    let packetLen := headerLen + fragment.length
    if packetLen ≥ 2 ^ 8 then .error .engine
    else if outLen < (EnvelopeHeader.new (UInt8.ofNat packetLen)).totalLen integrity.tagLen then
      .error .bufferTooSmall
    else do
      let headerBytes ← encodeFragmentHeader header (outLen - wireHeaderLen)
      return envelope integrity (headerBytes ++ fragment)
  match header.body with
  | .data _ => encodeWith dataPacketHeaderLen
  | .log _ => encodeWith logPacketHeaderLen
  | .ack _ | .ping | .pong => .error .engine

/-- The bytes of an ACK packet. -/
def ackPacketBytes (key : PacketKey) : Bytes :=
  PacketType.ack.code :: (u32ToLe key.messageId ++ u16ToLe key.packetIndex)

/-- Encodes an ACK packet into an output buffer of `outLen` bytes. -/
def encodeAckPacket (key : PacketKey) (outLen : Nat) (integrity : IntegrityConfig) :
    Except Error Bytes :=
  if outLen < (EnvelopeHeader.new (UInt8.ofNat ackPacketHeaderLen)).totalLen integrity.tagLen then
    .error .bufferTooSmall
  else .ok (envelope integrity (ackPacketBytes key))

/-- Encodes a PING or PONG packet into an output buffer of `outLen` bytes. -/
def encodeLivenessPacket (packetType : PacketType) (outLen : Nat) (integrity : IntegrityConfig) :
    Except Error Bytes :=
  if outLen < (EnvelopeHeader.new (UInt8.ofNat livenessPacketHeaderLen)).totalLen integrity.tagLen
  then .error .bufferTooSmall
  else .ok (envelope integrity [packetType.code])

end Msrt
