import Msrt.Integrity

/-! # Wire envelopes and the streaming decoder

An envelope is `magic, length, crc8(length), packet, tag`.  The decoder owns a fixed buffer,
accepts any cut of the byte stream and answers one `StreamDecodeOutcome` per call of `feed`.

Two kinds of consumption are mixed, as in the program: noise and rejected headers leave the
buffer at once (`consume`), while the bytes of a packet or of a corrupted candidate stay in it
until the next call (`pendingConsume`).  `StreamingDecoder.rest` is the stream position both
kinds agree on: the buffered bytes that no outcome has accounted for yet.

Only the valid bytes are kept: the program never reads its buffer beyond `len`.
-/

namespace Msrt

/-! ## Envelope header -/

/-- The default wire magic. -/
def envelopeMagic : UInt8 := 0xA5

/-- Length of the magic. -/
def wireMagicLen : Nat := 1
/-- Length of the envelope header: magic, packet length and header CRC. -/
def wireHeaderLen : Nat := wireMagicLen + 1 + 1
/-- Where the packet length stands. -/
def wirePacketLenOffset : Nat := wireMagicLen
/-- Where the header CRC stands. -/
def wireHeaderCrcOffset : Nat := wirePacketLenOffset + 1

theorem wireHeaderLen_eq : wireHeaderLen = 3 := rfl

/-- CRC-8 over the protected length field. -/
def headerCrc (packetLen : UInt8) : UInt8 := Crc8.calculate [packetLen]

/-- The envelope header behind the magic, as it was read. -/
structure EnvelopeHeader where
  packetLen : UInt8
  headerCrc : UInt8
  deriving DecidableEq, Repr

namespace EnvelopeHeader

/-- The header of a packet of `packetLen` bytes. -/
def new (packetLen : UInt8) : EnvelopeHeader := ⟨packetLen, Msrt.headerCrc packetLen⟩

/-- Whether the header CRC fits the packet length. -/
def hasValidHeaderCrc (h : EnvelopeHeader) : Bool := h.headerCrc == Msrt.headerCrc h.packetLen

/-- Complete envelope length, integrity tag included. -/
def totalLen (h : EnvelopeHeader) (integrityTagLen : Nat) : Nat :=
  wireHeaderLen + h.packetLen.toNat + integrityTagLen

end EnvelopeHeader

/-- The envelope of a packet: header, packet bytes, and the tag over both. -/
def envelope (integrity : IntegrityConfig) (packet : Bytes) : Bytes :=
  let header := EnvelopeHeader.new (UInt8.ofNat packet.length)
  let authenticated := envelopeMagic :: header.packetLen :: header.headerCrc :: packet
  authenticated ++ integrity.sealTag authenticated

/-! ## Decoder -/

/-- Result of feeding bytes into the streaming decoder. -/
inductive StreamDecodeOutcome where
  | needMore (additional : Option Nat)
  | packet (packetBytes : Bytes) (consumed : Nat)
  | noise (skipped : Nat)
  | corrupted (consumed : Nat)
  | resync (skipped : Nat)
  deriving DecidableEq, Repr

/-- The decoder's buffered bytes and the consumption deferred to the next call. -/
structure StreamingDecoder (capacity : Nat) where
  bytes : Bytes
  pendingConsume : Nat
  length_le : bytes.length ≤ capacity

/-- Position of the first magic byte. -/
def findMagic (bytes : Bytes) : Option Nat := bytes.findIdx? (· == envelopeMagic)

/-- Reads the header at the front of the bytes, if they start with the magic. -/
def headerFromBytes (bytes : Bytes) : Option EnvelopeHeader :=
  match bytes[0]?, bytes[wirePacketLenOffset]?, bytes[wireHeaderCrcOffset]? with
  | some magic, some packetLen, some headerCrc =>
    if magic = envelopeMagic then some ⟨packetLen, headerCrc⟩ else none
  | _, _, _ => none

namespace StreamingDecoder
variable {capacity : Nat}

/-- The decoder before any input. -/
def new : StreamingDecoder capacity := ⟨[], 0, Nat.zero_le _⟩

/-- Drops `count` bytes from the front, or all of them. -/
def consume (d : StreamingDecoder capacity) (count : Nat) : StreamingDecoder capacity :=
  let count := min count d.bytes.length
  { d with
    bytes := d.bytes.drop count
    length_le := by
      rw [List.length_drop]
      exact Nat.le_trans (Nat.sub_le _ _) d.length_le }

/-- Drops what the last call deferred. -/
def consumePending (d : StreamingDecoder capacity) : StreamingDecoder capacity :=
  if d.pendingConsume > 0 then
    { d with pendingConsume := 0 }.consume d.pendingConsume
  else d

/-- Appends input; what does not fit leaves the buffer as it was. -/
def append (d : StreamingDecoder capacity) (bytes : Bytes) :
    Except Error (StreamingDecoder capacity) :=
  if h : d.bytes.length + bytes.length > capacity then .error .bufferTooSmall
  else .ok
    { d with
      bytes := d.bytes ++ bytes
      length_le := by
        rw [List.length_append]
        omega }

/-- Attempts to decode one packet from the buffered bytes. -/
def decodeBuffer (d : StreamingDecoder capacity) (integrity : IntegrityConfig) :
    StreamingDecoder capacity × StreamDecodeOutcome :=
  if d.bytes.length = 0 then (d, .needMore none)
  else
    match findMagic d.bytes with
    | none => (d.consume d.bytes.length, .noise d.bytes.length)
    | some offset =>
      if offset > 0 then (d.consume offset, .noise offset)
      else if d.bytes.length < wireHeaderLen then
        (d, .needMore (some (wireHeaderLen - d.bytes.length)))
      else
        match headerFromBytes (d.bytes.take wireHeaderLen) with
        | none => (d.consume 1, .resync 1)
        | some header =>
          if !header.hasValidHeaderCrc then (d.consume 1, .resync 1)
          else
            let tagLen := integrity.tagLen
            let totalLen := header.totalLen tagLen
            if totalLen > capacity then (d.consume 1, .resync 1)
            else if d.bytes.length < totalLen then
              (d, .needMore (some (totalLen - d.bytes.length)))
            else if !integrity.verify (d.bytes.take (totalLen - tagLen))
                ((d.bytes.take totalLen).drop (totalLen - tagLen)) then
              ({ d with pendingConsume := totalLen }, .corrupted totalLen)
            else
              ({ d with pendingConsume := totalLen },
                .packet ((d.bytes.drop wireHeaderLen).take header.packetLen.toNat) totalLen)

/-- Feeds bytes into the decoder and attempts to decode one packet. -/
def feed (d : StreamingDecoder capacity) (bytes : Bytes) (integrity : IntegrityConfig) :
    StreamingDecoder capacity × Except Error StreamDecodeOutcome :=
  let d := d.consumePending
  match d.append bytes with
  | .error e => (d, .error e)
  | .ok d =>
    let result := d.decodeBuffer integrity
    (result.1, .ok result.2)

/-- The buffered bytes that no outcome has accounted for yet. -/
def rest (d : StreamingDecoder capacity) : Bytes := d.bytes.drop d.pendingConsume

end StreamingDecoder

end Msrt
