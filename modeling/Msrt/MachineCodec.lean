import Msrt.MachineIntegrity
import Msrt.StreamRecovery

/-! # Packet codec on the machine

The encoders as they write into their output buffer, position by position, and the owned copy of a
received packet.  Reading a packet back goes through `get` only and cannot fail, so
`decodePacketBytes` is taken over as it stands.

Every encoder leaves what the unchecked one returns at the start of its buffer (`fill`), or returns
its error (`encodeMessageFragment_eq`, `encodeAckPacket_eq`, `encodeLivenessPacket_eq`).
-/

namespace Msrt.Machine
open Checked
variable {t : Target}

/-! ## Envelope header -/

namespace EnvelopeHeader

/-- The header of a packet of `packetLen` bytes. -/
def new (packetLen : UInt8) : Checked t Msrt.EnvelopeHeader := do
  return ⟨packetLen, ← Crc8.calculate [packetLen]⟩

/-- Whether the header CRC fits the packet length. -/
def hasValidHeaderCrc (header : Msrt.EnvelopeHeader) : Checked t Bool := do
  return header.headerCrc == (← Crc8.calculate [header.packetLen])

/-- Complete envelope length, two sums. -/
def totalLen (header : Msrt.EnvelopeHeader) (integrityTagLen : Nat) : Checked t Nat := do
  add (← add wireHeaderLen header.packetLen.toNat) integrityTagLen

theorem new_eq (packetLen : UInt8) :
    (new packetLen : Checked t Msrt.EnvelopeHeader) = pure (.new packetLen) := by
  unfold new
  rw [Crc8.calculate_eq (by simp), pure_bind]
  rfl

theorem hasValidHeaderCrc_eq (header : Msrt.EnvelopeHeader) :
    (hasValidHeaderCrc header : Checked t Bool) = pure header.hasValidHeaderCrc := by
  unfold hasValidHeaderCrc
  rw [Crc8.calculate_eq (by simp), pure_bind]
  rfl

theorem totalLen_eq (header : Msrt.EnvelopeHeader) (integrity : Msrt.IntegrityConfig) :
    (totalLen header integrity.tagLen : Checked t Nat) = pure (header.totalLen integrity.tagLen) := by
  have hlen := header.packetLen.toNat_lt
  have htag := integrity.tagLen_le
  unfold totalLen
  rw [wireHeaderLen_eq, add_small (by omega), pure_bind, add_small (by omega)]
  rfl

end EnvelopeHeader

/-! ## Encoders -/

/-- Writes the tag behind the bytes it authenticates. -/
def sealEnvelope (integrity : Msrt.IntegrityConfig) (out : Bytes) (totalLen : Nat) :
    Checked t Bytes := do
  let parts ← splitAt (← slice out 0 totalLen) (← sub totalLen integrity.tagLen)
  let tag ← IntegrityConfig.sealTag integrity parts.1 parts.2
  return parts.1 ++ tag ++ out.drop totalLen

/-- What the encoders share: the envelope header, the packet as `body` writes it into the rest of the
buffer, and the tag over both.  The buffer is returned with the number of bytes written. -/
def encodeEnvelope (packetLen : Nat) (body : Bytes → Checked t (Except Error Bytes)) (out : Bytes)
    (integrity : Msrt.IntegrityConfig) : Checked t (Except Error (Bytes × Nat)) := do
  if packetLen ≥ 2 ^ 8 then
    return .error .engine
  else
    let header ← EnvelopeHeader.new (UInt8.ofNat packetLen)
    let totalLen ← EnvelopeHeader.totalLen header integrity.tagLen
    if out.length < totalLen then
      return .error .bufferTooSmall
    else
      let out ← write out 0 wireMagicLen [envelopeMagic]
      let out ← set out wirePacketLenOffset header.packetLen
      let out ← set out wireHeaderCrcOffset header.headerCrc
      -- `body` works on the rest of the buffer in place
      match ← body (← slice out wireHeaderLen out.length) with
      | .error e => return .error e
      | .ok packet =>
        let out ← sealEnvelope integrity (out.take wireHeaderLen ++ packet) totalLen
        return .ok (out, totalLen)

/-- Writes a DATA or LOG header field by field to the front of the packet buffer. -/
def encodeFragmentHeader (header : PacketHeader) (packet : Bytes) :
    Checked t (Except Error Bytes) := do
  let packet ← set packet 0 header.packetType.code
  match header.body with
  | .data h =>
    if packet.length < dataPacketHeaderLen then
      return .error .bufferTooSmall
    else
      match u16TryFrom h.messageLen, u16TryFrom h.fragmentOffset with
      | .ok messageLen, .ok fragmentOffset =>
        let packet ← set packet 1 h.flags.bits
        let packet ← write packet 2 6 (u32ToLe h.messageId)
        let packet ← write packet 6 8 (u16ToLe h.packetIndex)
        let packet ← write packet 8 10 (u16ToLe messageLen)
        let packet ← write packet 10 12 (u16ToLe fragmentOffset)
        return .ok packet
      | .error e, _ => return .error e
      | .ok _, .error e => return .error e
  | .log h =>
    if packet.length < logPacketHeaderLen then
      return .error .bufferTooSmall
    else
      match u16TryFrom h.messageLen, u16TryFrom h.fragmentOffset with
      | .ok messageLen, .ok fragmentOffset =>
        let packet ← write packet 1 5 (u32ToLe h.messageId)
        let packet ← write packet 5 7 (u16ToLe h.packetIndex)
        let packet ← write packet 7 9 (u16ToLe messageLen)
        let packet ← write packet 9 11 (u16ToLe fragmentOffset)
        return .ok packet
      | .error e, _ => return .error e
      | .ok _, .error e => return .error e
  | .ack _ | .ping | .pong => return .error .engine

/-- Writes the header of a fragment and the fragment behind it. -/
def encodeFragment (header : PacketHeader) (headerLen : Nat) (fragment packet : Bytes) :
    Checked t (Except Error Bytes) := do
  match ← encodeFragmentHeader header packet with
  | .error e => return .error e
  | .ok packet =>
    let packet ← write packet headerLen (← add headerLen fragment.length) fragment
    return .ok packet

/-- Encodes one DATA or LOG packet into the output buffer. -/
def encodeMessageFragment (header : PacketHeader) (fragment out : Bytes)
    (integrity : Msrt.IntegrityConfig) : Checked t (Except Error (Bytes × Nat)) := do
  let encodeWith (headerLen : Nat) : Checked t (Except Error (Bytes × Nat)) := do
    let packetLen ← add headerLen fragment.length
    encodeEnvelope packetLen (encodeFragment header headerLen fragment) out integrity
  match header.body with
  | .data _ => encodeWith dataPacketHeaderLen
  | .log _ => encodeWith logPacketHeaderLen
  | .ack _ | .ping | .pong => return .error .engine

/-- Encodes an ACK packet into the output buffer. -/
def encodeAckPacket (key : PacketKey) (out : Bytes) (integrity : Msrt.IntegrityConfig) :
    Checked t (Except Error (Bytes × Nat)) :=
  let body (packet : Bytes) : Checked t (Except Error Bytes) := do
    let packet ← set packet 0 PacketType.ack.code
    let packet ← write packet 1 5 (u32ToLe key.messageId)
    let packet ← write packet 5 7 (u16ToLe key.packetIndex)
    return .ok packet
  encodeEnvelope ackPacketHeaderLen body out integrity

/-- Encodes a PING or PONG packet into the output buffer. -/
def encodeLivenessPacket (packetType : PacketType) (out : Bytes) (integrity : Msrt.IntegrityConfig) :
    Checked t (Except Error (Bytes × Nat)) :=
  let body (packet : Bytes) : Checked t (Except Error Bytes) := do
    let packet ← set packet 0 packetType.code
    return .ok packet
  encodeEnvelope livenessPacketHeaderLen body out integrity

/-- What an envelope leaves for the fragment, three differences. -/
def maxFragmentBytes (packetType : PacketType) (integrityTagLen : Nat) :
    Checked t (Except Error Nat) := do
  match packetType with
  | .data =>
    return .ok (← sub (← sub (← sub maxWireBytes wireHeaderLen) dataPacketHeaderLen) integrityTagLen)
  | .log =>
    return .ok (← sub (← sub (← sub maxWireBytes wireHeaderLen) logPacketHeaderLen) integrityTagLen)
  | .ack | .ping | .pong => return .error .engine

/-- The number of fragments; `div_ceil` adds one to a quotient with a remainder. -/
def fragmentCount (messageLen fragmentBytes : Nat) : Checked t Nat := do
  if messageLen = 0 then
    return 1
  else
    let quotient ← div messageLen fragmentBytes
    if 0 < (← rem messageLen fragmentBytes) then
      add quotient 1
    else
      return quotient

/-! ### What the encoders leave in their buffer -/

/-- A buffer with an encoded envelope at its start, and the length of the envelope. -/
def encoded (out bytes : Bytes) : Bytes × Nat := (fill out bytes, bytes.length)

/-- The header of the envelope of a packet, as the encoders write it. -/
def envelopeStart (packetLen : Nat) : Bytes :=
  let header := Msrt.EnvelopeHeader.new (UInt8.ofNat packetLen)
  [envelopeMagic, header.packetLen, header.headerCrc]

theorem envelope_eq (integrity : Msrt.IntegrityConfig) (packet : Bytes) :
    envelope integrity packet = envelopeStart packet.length ++ packet ++
      integrity.sealTag (envelopeStart packet.length ++ packet) := rfl

/-- The tag over header and packet completes the envelope. -/
theorem sealEnvelope_eq (integrity : Msrt.IntegrityConfig) {out packet : Bytes}
    (hlen : packet.length < 2 ^ 8)
    (hroom : wireHeaderLen + packet.length + integrity.tagLen ≤ out.length) :
    (sealEnvelope integrity (fill out (envelopeStart packet.length ++ packet))
        (wireHeaderLen + packet.length + integrity.tagLen) : Checked t Bytes) =
      pure (fill out (envelope integrity packet)) := by
  have htag := integrity.tagLen_le
  have hauth : (envelopeStart packet.length ++ packet).length = wireHeaderLen + packet.length := by
    rw [List.length_append]; rfl
  rw [envelope_eq]
  generalize envelopeStart packet.length ++ packet = authenticated at hauth ⊢
  have hsealed := Msrt.IntegrityConfig.length_sealTag integrity authenticated
  have hfill : (fill out authenticated).length = out.length := length_fill (by omega)
  have hsub : wireHeaderLen + packet.length + integrity.tagLen - integrity.tagLen =
      authenticated.length := by omega
  unfold sealEnvelope
  rw [slice_eq ⟨Nat.zero_le _, by omega⟩, pure_bind, sub_eq (by omega), pure_bind, List.drop_zero,
    hsub, splitAt_eq (by rw [List.length_take]; omega), pure_bind, List.take_take,
    Nat.min_eq_left (by omega), take_fill]
  dsimp only
  rw [IntegrityConfig.sealTag_eq (by rw [hauth, wireHeaderLen_eq]; omega) integrity
    (by rw [List.length_drop, List.length_take]; omega), pure_bind]
  -- the tag takes up all of its part
  have htail : ∀ rest : Bytes, rest.length = integrity.tagLen →
      fill rest (integrity.sealTag authenticated) = integrity.sealTag authenticated := by
    intro rest hrest
    rw [fill, List.drop_of_length_le (by omega), List.append_nil]
  rw [htail _ (by rw [List.length_drop, List.length_take]; omega)]
  have hrest : (fill out authenticated).drop (wireHeaderLen + packet.length + integrity.tagLen) =
      out.drop (authenticated ++ integrity.sealTag authenticated).length := by
    rw [fill, List.length_append, hsealed, ← hauth, List.drop_length_add_append, List.drop_drop]
  rw [hrest, fill]

/-- **The encoders share one behaviour**: they refuse a packet that the length byte cannot carry, then
an output without room, then what `body` refuses, and leave an envelope otherwise. -/
theorem encodeEnvelope_eq {packetLen : Nat} {body : Bytes → Checked t (Except Error Bytes)}
    {out : Bytes} {integrity : Msrt.IntegrityConfig} (written : Except Error Bytes)
    (hbody : wireHeaderLen + packetLen + integrity.tagLen ≤ out.length →
      body (out.drop wireHeaderLen) = pure (written.map (fill (out.drop wireHeaderLen))))
    (hwritten : ∀ packet, written = .ok packet → packet.length = packetLen) :
    encodeEnvelope packetLen body out integrity =
      pure (if packetLen ≥ 2 ^ 8 then .error .engine
        else if out.length < (Msrt.EnvelopeHeader.new (UInt8.ofNat packetLen)).totalLen
            integrity.tagLen then .error .bufferTooSmall
        else written.map fun packet => encoded out (envelope integrity packet)) := by
  unfold encodeEnvelope
  by_cases hlen : packetLen ≥ 2 ^ 8
  · rw [if_pos hlen, if_pos hlen]
  have htotal : (Msrt.EnvelopeHeader.new (UInt8.ofNat packetLen)).totalLen integrity.tagLen =
      wireHeaderLen + packetLen + integrity.tagLen := by
    simp only [Msrt.EnvelopeHeader.totalLen, Msrt.EnvelopeHeader.new, UInt8.toNat_ofNat']
    rw [Nat.mod_eq_of_lt (by omega)]
  rw [if_neg hlen, if_neg hlen, EnvelopeHeader.new_eq, pure_bind, EnvelopeHeader.totalLen_eq,
    pure_bind, htotal]
  by_cases hout : out.length < wireHeaderLen + packetLen + integrity.tagLen
  · rw [if_pos hout, if_pos hout]
  rw [if_neg hout, if_neg hout]
  have hroom : wireHeaderLen ≤ out.length := by omega
  have hstart : (envelopeStart packetLen).length = wireHeaderLen := rfl
  rw [wireHeaderLen_eq] at hroom
  rw [write_start (by rfl) (by rw [wireMagicLen]; omega), pure_bind,
    set_fill (by rfl) (by rw [wirePacketLenOffset, wireMagicLen]; omega), pure_bind,
    set_fill (by rfl) (by rw [wireHeaderCrcOffset, wirePacketLenOffset, wireMagicLen]; omega),
    pure_bind]
  show (slice (fill out (envelopeStart packetLen)) wireHeaderLen
    (fill out (envelopeStart packetLen)).length >>= _) = _
  rw [length_fill (by rw [hstart, wireHeaderLen_eq]; exact hroom),
    slice_fill hstart rfl (by rw [wireHeaderLen_eq]; exact hroom), pure_bind, hbody (by omega),
    pure_bind]
  cases hw : written with
  | error e => rfl
  | ok packet =>
    have hpacket := hwritten packet hw
    subst hpacket
    show (sealEnvelope integrity ((fill out (envelopeStart packet.length)).take wireHeaderLen ++
      fill (out.drop wireHeaderLen) packet) _ >>= _) = _
    rw [← hstart, take_fill, append_fill, hstart, sealEnvelope_eq integrity (by omega) (by omega),
      pure_bind]
    simp only [Except.map, encoded, length_envelope]

/-! ### The encoders -/

theorem encodeFragmentHeader_eq (header : PacketHeader) {packet : Bytes} (h : 0 < packet.length) :
    (encodeFragmentHeader header packet : Checked t (Except Error Bytes)) =
      pure ((Msrt.encodeFragmentHeader header packet.length).map (fill packet)) := by
  unfold encodeFragmentHeader Msrt.encodeFragmentHeader
  rw [set_start h, pure_bind]
  cases header.body with
  | data d =>
    dsimp only
    rw [length_fill (by exact h)]
    by_cases hroom : packet.length < dataPacketHeaderLen
    · rw [if_pos hroom, if_pos hroom]
      rfl
    rw [if_neg hroom, if_neg hroom]
    rw [dataPacketHeaderLen_eq] at hroom
    cases u16TryFrom d.messageLen with
    | error e => rfl
    | ok messageLen =>
      cases u16TryFrom d.fragmentOffset with
      | error e => rfl
      | ok fragmentOffset =>
        dsimp only
        rw [set_fill (by rfl) (by omega), pure_bind, write_fill (by rfl) (by rfl) (by omega),
          pure_bind, write_fill (by rfl) (by rfl) (by omega), pure_bind,
          write_fill (by rfl) (by rfl) (by omega), pure_bind,
          write_fill (by rfl) (by rfl) (by omega), pure_bind]
        rfl
  | log d =>
    dsimp only
    rw [length_fill (by exact h)]
    by_cases hroom : packet.length < logPacketHeaderLen
    · rw [if_pos hroom, if_pos hroom]
      rfl
    rw [if_neg hroom, if_neg hroom]
    rw [logPacketHeaderLen_eq] at hroom
    cases u16TryFrom d.messageLen with
    | error e => rfl
    | ok messageLen =>
      cases u16TryFrom d.fragmentOffset with
      | error e => rfl
      | ok fragmentOffset =>
        dsimp only
        rw [write_fill (by rfl) (by rfl) (by omega),
          pure_bind, write_fill (by rfl) (by rfl) (by omega), pure_bind,
          write_fill (by rfl) (by rfl) (by omega), pure_bind,
          write_fill (by rfl) (by rfl) (by omega), pure_bind]
        rfl
  | ack | ping | pong => rfl

/-- The fragment stands behind its header. -/
theorem encodeFragment_eq {header : PacketHeader} {headerLen : Nat} {fragment packet : Bytes}
    (hheader : ∀ bytes, Msrt.encodeFragmentHeader header packet.length = .ok bytes →
      bytes.length = headerLen)
    (hpos : 0 < headerLen) (hlen : headerLen + fragment.length ≤ 65535)
    (hroom : headerLen + fragment.length ≤ packet.length) :
    (encodeFragment header headerLen fragment packet : Checked t (Except Error Bytes)) =
      pure (((Msrt.encodeFragmentHeader header packet.length).map (· ++ fragment)).map
        (fill packet)) := by
  unfold encodeFragment
  rw [encodeFragmentHeader_eq header (by omega), pure_bind]
  cases henc : Msrt.encodeFragmentHeader header packet.length with
  | error e => rfl
  | ok bytes =>
    show (add headerLen fragment.length >>= _) = _
    rw [add_small (by omega), pure_bind, write_fill (hheader bytes henc) rfl hroom, pure_bind]
    rfl

theorem encodeMessageFragment_eq (header : PacketHeader) {fragment : Bytes}
    (hfragment : fragment.length ≤ 32767) (out : Bytes) (integrity : Msrt.IntegrityConfig) :
    (encodeMessageFragment header fragment out integrity : Checked t _) =
      pure ((Msrt.encodeMessageFragment header fragment out.length integrity).map
        (encoded out)) := by
  have hroom : (out.drop wireHeaderLen).length = out.length - wireHeaderLen := List.length_drop
  -- DATA and LOG differ in the length of their header
  have inner : ∀ headerLen, 0 < headerLen → headerLen ≤ 12 →
      (∀ room bytes, Msrt.encodeFragmentHeader header room = .ok bytes →
        bytes.length = headerLen) →
      (encodeEnvelope (headerLen + fragment.length) (encodeFragment header headerLen fragment) out
          integrity : Checked t _) =
        pure (Except.map (encoded out) (if headerLen + fragment.length ≥ 2 ^ 8 then
            Except.error Error.engine
          else if out.length < (Msrt.EnvelopeHeader.new
              (UInt8.ofNat (headerLen + fragment.length))).totalLen integrity.tagLen then
            .error .bufferTooSmall
          else do
            let headerBytes ← Msrt.encodeFragmentHeader header (out.length - wireHeaderLen)
            return envelope integrity (headerBytes ++ fragment))) := by
    intro headerLen hpos hle hheader
    rw [encodeEnvelope_eq ((Msrt.encodeFragmentHeader header (out.length - wireHeaderLen)).map
      (· ++ fragment))]
    · split
      · rfl
      · split
        · rfl
        · cases Msrt.encodeFragmentHeader header (out.length - wireHeaderLen) <;> rfl
    · intro hfits
      rw [encodeFragment_eq (hheader _) hpos (by omega) (by omega), hroom]
    · intro packet hpacket
      cases henc : Msrt.encodeFragmentHeader header (out.length - wireHeaderLen) with
      | error e => rw [henc] at hpacket; cases hpacket
      | ok bytes =>
        rw [henc] at hpacket
        obtain rfl := Except.ok.inj hpacket
        rw [List.length_append, hheader _ _ henc]
  unfold encodeMessageFragment Msrt.encodeMessageFragment
  cases hbody : header.body with
  | data d =>
    dsimp only
    rw [dataPacketHeaderLen_eq, add_small (by omega), pure_bind]
    exact inner 12 (by decide) (by decide) fun room bytes henc => by
      have := length_encodeFragmentHeader henc; rwa [hbody] at this
  | log l =>
    dsimp only
    rw [logPacketHeaderLen_eq, add_small (by omega), pure_bind]
    exact inner 11 (by decide) (by decide) fun room bytes henc => by
      have := length_encodeFragmentHeader henc; rwa [hbody] at this
  | ack | ping | pong => rfl

theorem encodeAckPacket_eq (key : PacketKey) (out : Bytes) (integrity : Msrt.IntegrityConfig) :
    (encodeAckPacket key out integrity : Checked t _) =
      pure ((Msrt.encodeAckPacket key out.length integrity).map (encoded out)) := by
  have hroom : (out.drop wireHeaderLen).length = out.length - wireHeaderLen := List.length_drop
  unfold encodeAckPacket Msrt.encodeAckPacket
  dsimp only
  rw [encodeEnvelope_eq (.ok (ackPacketBytes key))]
  · rw [if_neg (by decide)]
    split <;> rfl
  · intro hfits
    rw [wireHeaderLen_eq, ackPacketHeaderLen_eq] at hfits
    rw [wireHeaderLen_eq] at hroom ⊢
    rw [set_start (by omega), pure_bind, write_fill (by rfl) (by rfl) (by omega), pure_bind,
      write_fill (by rfl) (by rfl) (by omega), pure_bind]
    rfl
  · intro packet hpacket
    obtain rfl := Except.ok.inj hpacket
    exact length_ackPacketBytes key

theorem encodeLivenessPacket_eq (packetType : PacketType) (out : Bytes)
    (integrity : Msrt.IntegrityConfig) :
    (encodeLivenessPacket packetType out integrity : Checked t _) =
      pure ((Msrt.encodeLivenessPacket packetType out.length integrity).map (encoded out)) := by
  have hroom : (out.drop wireHeaderLen).length = out.length - wireHeaderLen := List.length_drop
  unfold encodeLivenessPacket Msrt.encodeLivenessPacket
  dsimp only
  rw [encodeEnvelope_eq (.ok [packetType.code])]
  · rw [if_neg (by decide)]
    split <;> rfl
  · intro hfits
    rw [wireHeaderLen_eq, livenessPacketHeaderLen_eq] at hfits
    rw [wireHeaderLen_eq] at hroom ⊢
    rw [set_start (by omega), pure_bind]
    rfl
  · intro packet hpacket
    obtain rfl := Except.ok.inj hpacket
    rfl

theorem maxFragmentBytes_eq (packetType : PacketType) (integrity : Msrt.IntegrityConfig) :
    (maxFragmentBytes packetType integrity.tagLen : Checked t _) =
      pure (Msrt.maxFragmentBytes packetType integrity.tagLen) := by
  have htag := integrity.tagLen_le
  unfold maxFragmentBytes Msrt.maxFragmentBytes
  cases packetType with
  | data =>
    dsimp only
    rw [maxWireBytes, wireHeaderLen_eq, dataPacketHeaderLen_eq, sub_eq (by omega), pure_bind,
      sub_eq (by omega), pure_bind, sub_eq (by omega), pure_bind]
  | log =>
    dsimp only
    rw [maxWireBytes, wireHeaderLen_eq, logPacketHeaderLen_eq, sub_eq (by omega), pure_bind,
      sub_eq (by omega), pure_bind, sub_eq (by omega), pure_bind]
  | ack | ping | pong => rfl

theorem fragmentCount_eq {messageLen fragmentBytes : Nat} (hpos : 0 < fragmentBytes)
    (hlen : messageLen ≤ t.isizeMax) :
    (fragmentCount messageLen fragmentBytes : Checked t Nat) =
      pure (Msrt.fragmentCount messageLen fragmentBytes) := by
  have hmax := t.isizeMax_add_le
  unfold fragmentCount Msrt.fragmentCount
  by_cases hzero : messageLen = 0
  · rw [if_pos hzero, if_pos hzero]
  have hquot : messageLen / fragmentBytes ≤ messageLen := Nat.div_le_self _ _
  rw [if_neg hzero, if_neg hzero, div_eq hpos, pure_bind, rem_eq hpos, pure_bind]
  have hsplit := Nat.div_add_mod messageLen fragmentBytes
  have hceil : ∀ quotient rest, rest < fragmentBytes →
      messageLen + fragmentBytes - 1 = fragmentBytes * quotient + rest →
      (messageLen + fragmentBytes - 1) / fragmentBytes = quotient := by
    intro quotient rest hrest heq
    rw [heq, Nat.mul_add_div hpos, Nat.div_eq_of_lt hrest, Nat.add_zero]
  by_cases hrem : 0 < messageLen % fragmentBytes
  · have hlt := Nat.mod_lt messageLen hpos
    rw [if_pos hrem, add_eq (by omega), hceil (messageLen / fragmentBytes + 1)
      (messageLen % fragmentBytes - 1) (by omega) (by rw [Nat.mul_add]; omega)]
  · rw [if_neg hrem, hceil (messageLen / fragmentBytes) (fragmentBytes - 1) (by omega) (by omega)]

/-! ## Owned packets -/

/-- Packet bytes copied out of the decoder's buffer. -/
structure PacketBytes where
  bytes : Bytes
  len : Nat

namespace PacketBytes

/-- Copies a packet into owned storage, if it fits. -/
def tryFromSlice (bytes : Bytes) : Checked t (Except Error PacketBytes) := do
  if bytes.length > maxWireBytes then
    return .error .bufferTooSmall
  else
    let copied ← write (List.replicate maxWireBytes 0) 0 bytes.length bytes
    return .ok ⟨copied, bytes.length⟩

/-- The valid bytes of an owned packet. -/
def asBytes (packet : PacketBytes) : Checked t Bytes := do
  return (← splitAt packet.bytes packet.len).1

/-- Decodes the valid bytes.  The readers take ranges with `get`, so they cannot leave the packet. -/
def decode (packet : PacketBytes) : Checked t PacketDecode := do
  return decodePacketBytes (← packet.asBytes)

/-- The memory of an owned packet. -/
def ofBytes (bytes : Bytes) : PacketBytes :=
  ⟨fill (List.replicate maxWireBytes 0) bytes, bytes.length⟩

theorem tryFromSlice_eq (bytes : Bytes) :
    (tryFromSlice bytes : Checked t (Except Error PacketBytes)) =
      pure ((packetBytesTryFromSlice bytes).map ofBytes) := by
  unfold tryFromSlice packetBytesTryFromSlice
  by_cases h : bytes.length > maxWireBytes
  · rw [if_pos h, if_pos h]
    rfl
  · rw [if_neg h, if_neg h, write_start rfl (by rw [List.length_replicate]; omega), pure_bind]
    rfl

theorem decode_ofBytes {bytes : Bytes} (h : bytes.length ≤ maxWireBytes) :
    ((ofBytes bytes).decode : Checked t PacketDecode) = pure (decodePacketBytes bytes) := by
  unfold decode asBytes ofBytes
  dsimp only
  rw [splitAt_eq (by rw [length_fill (by rw [List.length_replicate]; exact h),
    List.length_replicate]; exact h), pure_bind, pure_bind]
  dsimp only
  rw [take_fill]

end PacketBytes

end Msrt.Machine
