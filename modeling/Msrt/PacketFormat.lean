import Msrt.PacketCodec

/-! # The packet format, both ways

What the encoders write, as one definition per packet kind, and that `decodePacketBytes` reads it
back.  Every encoder puts its packet into the envelope the length byte can carry
(`Encoded.eq_envelope`).
-/

namespace Msrt
open ByteWords

/-- Largest packet an envelope's length byte can carry. -/
def maxPacketLen : Nat := 255

/-! ## Packet bytes -/

/-- The bytes of a DATA packet. -/
def dataPacketBytes (h : DataHeader) (fragment : Bytes) : Bytes :=
  PacketType.data.code :: h.flags.bits :: (u32ToLe h.messageId ++ u16ToLe h.packetIndex ++
    u16ToLe (UInt16.ofNat h.messageLen) ++ u16ToLe (UInt16.ofNat h.fragmentOffset)) ++ fragment

/-- The bytes of a LOG packet. -/
def logPacketBytes (h : LogHeader) (fragment : Bytes) : Bytes :=
  PacketType.log.code :: (u32ToLe h.messageId ++ u16ToLe h.packetIndex ++
    u16ToLe (UInt16.ofNat h.messageLen) ++ u16ToLe (UInt16.ofNat h.fragmentOffset)) ++ fragment

@[simp] theorem length_u16ToLe (v : UInt16) : (u16ToLe v).length = 2 := length_leBytes _ _
@[simp] theorem length_u32ToLe (v : UInt32) : (u32ToLe v).length = 4 := length_leBytes _ _

@[simp] theorem u16FromLe_u16ToLe (v : UInt16) : u16FromLe (u16ToLe v) = v := by
  rw [u16FromLe, u16ToLe, ofLeBytes_leBytes_of_lt v.toNat_lt, UInt16.ofNat_toNat]

@[simp] theorem u32FromLe_u32ToLe (v : UInt32) : u32FromLe (u32ToLe v) = v := by
  rw [u32FromLe, u32ToLe, ofLeBytes_leBytes_of_lt v.toNat_lt, UInt32.ofNat_toNat]

theorem toNat_u16_ofNat {n : Nat} (h : n < 2 ^ 16) : (UInt16.ofNat n).toNat = n := by
  rw [UInt16.toNat_ofNat', Nat.mod_eq_of_lt h]

theorem length_dataPacketBytes (h : DataHeader) (fragment : Bytes) :
    (dataPacketBytes h fragment).length = dataPacketHeaderLen + fragment.length := by
  simp [dataPacketBytes, dataPacketHeaderLen_eq]
  omega

theorem length_logPacketBytes (h : LogHeader) (fragment : Bytes) :
    (logPacketBytes h fragment).length = logPacketHeaderLen + fragment.length := by
  simp [logPacketBytes, logPacketHeaderLen_eq]
  omega

theorem length_ackPacketBytes (key : PacketKey) :
    (ackPacketBytes key).length = ackPacketHeaderLen := by
  simp [ackPacketBytes, ackPacketHeaderLen_eq]

/-! ## Reading packets back -/

theorem u16ToLe_eq (v : UInt16) : ∃ a b, u16ToLe v = [a, b] ∧ u16FromLe [a, b] = v :=
  ⟨_, _, rfl, u16FromLe_u16ToLe v⟩

theorem u32ToLe_eq (v : UInt32) :
    ∃ a b c d, u32ToLe v = [a, b, c, d] ∧ u32FromLe [a, b, c, d] = v :=
  ⟨_, _, _, _, rfl, u32FromLe_u32ToLe v⟩

/-- The fragment a DATA packet carries. -/
def DataHeader.fragment (h : DataHeader) (bytes : Bytes) : MessageFragment :=
  ⟨.data, h.packetIndex, h.isAckEliciting, h.messageId, h.messageLen, h.fragmentOffset, bytes⟩

/-- The fragment a LOG packet carries. -/
def LogHeader.fragment (h : LogHeader) (bytes : Bytes) : MessageFragment :=
  ⟨.log, h.packetIndex, false, h.messageId, h.messageLen, h.fragmentOffset, bytes⟩

theorem dataHeaderFromBytes_dataPacketBytes {h : DataHeader} (fragment : Bytes)
    (hlen : h.messageLen < 2 ^ 16) (hoff : h.fragmentOffset < 2 ^ 16) :
    dataHeaderFromBytes (dataPacketBytes h fragment) = some h := by
  obtain ⟨flags, messageId, packetIndex, messageLen, fragmentOffset⟩ := h
  dsimp only at hlen hoff
  obtain ⟨a, b, c, d, hid, hid'⟩ := u32ToLe_eq messageId
  obtain ⟨e, f, hindex, hindex'⟩ := u16ToLe_eq packetIndex
  obtain ⟨g, i, hmlen, hmlen'⟩ := u16ToLe_eq (UInt16.ofNat messageLen)
  obtain ⟨j, k, hmoff, hmoff'⟩ := u16ToLe_eq (UInt16.ofNat fragmentOffset)
  have hbytes : dataPacketBytes ⟨flags, messageId, packetIndex, messageLen, fragmentOffset⟩
      fragment = [0x00, flags.bits, a, b, c, d, e, f, g, i, j, k] ++ fragment := by
    simp [dataPacketBytes, hid, hindex, hmlen, hmoff, PacketType.code]
  rw [hbytes, dataHeaderFromBytes]
  simp [getRange?, dataPacketHeaderLen_eq, hid', hindex', hmlen', hmoff']
  omega

theorem logHeaderFromBytes_logPacketBytes {h : LogHeader} (fragment : Bytes)
    (hlen : h.messageLen < 2 ^ 16) (hoff : h.fragmentOffset < 2 ^ 16) :
    logHeaderFromBytes (logPacketBytes h fragment) = some h := by
  obtain ⟨messageId, packetIndex, messageLen, fragmentOffset⟩ := h
  dsimp only at hlen hoff
  obtain ⟨a, b, c, d, hid, hid'⟩ := u32ToLe_eq messageId
  obtain ⟨e, f, hindex, hindex'⟩ := u16ToLe_eq packetIndex
  obtain ⟨g, i, hmlen, hmlen'⟩ := u16ToLe_eq (UInt16.ofNat messageLen)
  obtain ⟨j, k, hmoff, hmoff'⟩ := u16ToLe_eq (UInt16.ofNat fragmentOffset)
  have hbytes : logPacketBytes ⟨messageId, packetIndex, messageLen, fragmentOffset⟩
      fragment = [0x04, a, b, c, d, e, f, g, i, j, k] ++ fragment := by
    simp [logPacketBytes, hid, hindex, hmlen, hmoff, PacketType.code]
  rw [hbytes, logHeaderFromBytes]
  simp [getRange?, logPacketHeaderLen_eq, hid', hindex', hmlen', hmoff']
  omega

theorem getRange?_suffix {front rest : Bytes} {lo : Nat} (h : front.length = lo) :
    getRange? (front ++ rest) lo (front ++ rest).length = some rest := by
  subst h
  rw [getRange?, if_pos (by simp), List.drop_left' rfl, List.length_append,
    Nat.add_sub_cancel_left, List.take_length]

theorem payload_dataPacketBytes (h : DataHeader) (fragment : Bytes) :
    getRange? (dataPacketBytes h fragment) dataPacketHeaderLen (dataPacketBytes h fragment).length =
      some fragment := by
  have hfront := length_dataPacketBytes h []
  simp only [dataPacketBytes, List.append_nil] at hfront ⊢
  exact getRange?_suffix hfront

/-- **A DATA packet is read back as it was written.** -/
theorem decodePacketBytes_dataPacketBytes {h : DataHeader} {fragment : Bytes}
    (hlen : h.messageLen < 2 ^ 16) (hfit : h.fragmentOffset + fragment.length ≤ h.messageLen) :
    decodePacketBytes (dataPacketBytes h fragment) = .data h (h.fragment fragment) := by
  have hheader := dataHeaderFromBytes_dataPacketBytes fragment hlen (by omega)
  have hfragment : dataFragmentFromPacketBytes h (dataPacketBytes h fragment) =
      some (h.fragment fragment) := by
    rw [dataFragmentFromPacketBytes, payload_dataPacketBytes]
    simp only [Option.bind_eq_bind, Option.bind_some]
    rw [if_neg (by omega)]
    rfl
  have hdata : dataFromPacketBytes (dataPacketBytes h fragment) =
      some (h, h.fragment fragment) := by
    simp [dataFromPacketBytes, hheader, hfragment]
  have htype : (dataPacketBytes h fragment).head?.bind PacketType.fromCode = some .data := rfl
  rw [decodePacketBytes, htype]
  simp only [hdata]

theorem payload_logPacketBytes (h : LogHeader) (fragment : Bytes) :
    getRange? (logPacketBytes h fragment) logPacketHeaderLen (logPacketBytes h fragment).length =
      some fragment := by
  have hfront := length_logPacketBytes h []
  simp only [logPacketBytes, List.append_nil] at hfront ⊢
  exact getRange?_suffix hfront

/-- **A LOG packet is read back as it was written.** -/
theorem decodePacketBytes_logPacketBytes {h : LogHeader} {fragment : Bytes}
    (hlen : h.messageLen < 2 ^ 16) (hfit : h.fragmentOffset + fragment.length ≤ h.messageLen) :
    decodePacketBytes (logPacketBytes h fragment) = .log h (h.fragment fragment) := by
  have hheader := logHeaderFromBytes_logPacketBytes fragment hlen (by omega)
  have hfragment : logFragmentFromPacketBytes h (logPacketBytes h fragment) =
      some (h.fragment fragment) := by
    rw [logFragmentFromPacketBytes, payload_logPacketBytes]
    simp only [Option.bind_eq_bind, Option.bind_some]
    rw [if_neg (by omega)]
    rfl
  have hlog : logFromPacketBytes (logPacketBytes h fragment) = some (h, h.fragment fragment) := by
    simp [logFromPacketBytes, hheader, hfragment]
  have htype : (logPacketBytes h fragment).head?.bind PacketType.fromCode = some .log := rfl
  rw [decodePacketBytes, htype]
  simp only [hlog]

theorem decodePacketBytes_ackPacketBytes (key : PacketKey) :
    decodePacketBytes (ackPacketBytes key) = .ack key := by
  obtain ⟨messageId, packetIndex⟩ := key
  obtain ⟨a, b, c, d, hid, hid'⟩ := u32ToLe_eq messageId
  obtain ⟨e, f, hindex, hindex'⟩ := u16ToLe_eq packetIndex
  have hbytes : ackPacketBytes ⟨messageId, packetIndex⟩ = [0x01, a, b, c, d, e, f] := by
    simp [ackPacketBytes, hid, hindex, PacketType.code]
  have hack : ackFromPacketBytes [0x01, a, b, c, d, e, f] = some ⟨messageId, packetIndex⟩ := by
    simp [ackFromPacketBytes, getRange?, ackPacketHeaderLen_eq, PacketType.code, hid', hindex']
  have htype : ([0x01, a, b, c, d, e, f] : Bytes).head?.bind PacketType.fromCode = some .ack := rfl
  rw [hbytes, decodePacketBytes, htype]
  simp only [hack]

theorem decodePacketBytes_ping : decodePacketBytes [PacketType.ping.code] = .ping := rfl

theorem decodePacketBytes_pong : decodePacketBytes [PacketType.pong.code] = .pong := rfl

/-! ### Fragments lie in their message -/

theorem dataFragmentFromPacketBytes_fits {header : DataHeader} {bytes : Bytes}
    {fragment : MessageFragment} (h : dataFragmentFromPacketBytes header bytes = some fragment) :
    fragment.fragmentOffset + fragment.bytes.length ≤ fragment.messageLen := by
  obtain ⟨part, -, hpart⟩ := Option.bind_eq_some_iff.mp h
  split at hpart
  · cases hpart
  · obtain rfl := Option.some.inj hpart
    exact Nat.le_of_not_lt ‹_›

theorem logFragmentFromPacketBytes_fits {header : LogHeader} {bytes : Bytes}
    {fragment : MessageFragment} (h : logFragmentFromPacketBytes header bytes = some fragment) :
    fragment.fragmentOffset + fragment.bytes.length ≤ fragment.messageLen := by
  obtain ⟨part, -, hpart⟩ := Option.bind_eq_some_iff.mp h
  split at hpart
  · cases hpart
  · obtain rfl := Option.some.inj hpart
    exact Nat.le_of_not_lt ‹_›

/-- **An accepted fragment lies in its message**, whatever lengths and offsets the packet carries. -/
theorem decodePacketBytes_fits {bytes : Bytes} {fragment : MessageFragment}
    (h : (∃ header, decodePacketBytes bytes = .data header fragment) ∨
      ∃ header, decodePacketBytes bytes = .log header fragment) :
    fragment.fragmentOffset + fragment.bytes.length ≤ fragment.messageLen := by
  have hdata : ∀ {result}, dataFromPacketBytes bytes = some result →
      dataFragmentFromPacketBytes result.1 bytes = some result.2 := by
    intro result hresult
    obtain ⟨header, -, hfragment⟩ := Option.bind_eq_some_iff.mp hresult
    obtain ⟨part, hpart, hpair⟩ := Option.bind_eq_some_iff.mp hfragment
    obtain rfl := Option.some.inj hpair
    exact hpart
  have hlog : ∀ {result}, logFromPacketBytes bytes = some result →
      logFragmentFromPacketBytes result.1 bytes = some result.2 := by
    intro result hresult
    obtain ⟨header, -, hfragment⟩ := Option.bind_eq_some_iff.mp hresult
    obtain ⟨part, hpart, hpair⟩ := Option.bind_eq_some_iff.mp hfragment
    obtain rfl := Option.some.inj hpair
    exact hpart
  -- an empty packet and the three types without a fragment come first
  unfold decodePacketBytes at h
  split at h
  · rcases h with ⟨header, h⟩ | ⟨header, h⟩ <;> cases h
  · split at h <;> rcases h with ⟨header, h⟩ | ⟨header, h⟩ <;> cases h
  · split at h <;> rcases h with ⟨header, h⟩ | ⟨header, h⟩ <;> cases h
  · split at h <;> rcases h with ⟨header, h⟩ | ⟨header, h⟩ <;> cases h
  · split at h
    · rename_i hresult
      rcases h with ⟨header, h⟩ | ⟨header, h⟩
      · cases h
        exact dataFragmentFromPacketBytes_fits (hdata hresult)
      · cases h
    · rcases h with ⟨header, h⟩ | ⟨header, h⟩ <;> cases h
  · split at h
    · rename_i hresult
      rcases h with ⟨header, h⟩ | ⟨header, h⟩
      · cases h
      · cases h
        exact logFragmentFromPacketBytes_fits (hlog hresult)
    · rcases h with ⟨header, h⟩ | ⟨header, h⟩ <;> cases h

/-! ## Writing packets -/

theorem u16TryFrom_of_lt {n : Nat} (h : n < 2 ^ 16) : u16TryFrom n = .ok (UInt16.ofNat n) :=
  if_pos h

theorem length_encodeFragmentHeader {header : PacketHeader} {room : Nat} {bytes : Bytes}
    (h : encodeFragmentHeader header room = .ok bytes) :
    bytes.length = match header.body with
      | .data _ => dataPacketHeaderLen
      | .log _ => logPacketHeaderLen
      | _ => 0 := by
  unfold encodeFragmentHeader at h
  cases hbody : header.body with
  | data d =>
    simp only [hbody] at h
    split at h
    · cases h
    · cases hl : u16TryFrom d.messageLen <;> cases ho : u16TryFrom d.fragmentOffset <;>
        simp [hl, ho, bind, Except.bind, pure, Except.pure] at h
      subst h
      simp [dataPacketHeaderLen_eq]
  | log l =>
    simp only [hbody] at h
    split at h
    · cases h
    · cases hl : u16TryFrom l.messageLen <;> cases ho : u16TryFrom l.fragmentOffset <;>
        simp [hl, ho, bind, Except.bind, pure, Except.pure] at h
      subst h
      simp [logPacketHeaderLen_eq]
  | ack | ping | pong =>
    simp only [hbody] at h
    cases h

theorem encodeMessageFragment_data {d : DataHeader} {fragment : Bytes} {outLen : Nat}
    {integrity : IntegrityConfig}
    (hlen : d.messageLen < 2 ^ 16) (hoff : d.fragmentOffset < 2 ^ 16)
    (hpacket : dataPacketHeaderLen + fragment.length ≤ maxPacketLen)
    (hroom : wireHeaderLen + (dataPacketHeaderLen + fragment.length) + integrity.tagLen ≤ outLen) :
    encodeMessageFragment ⟨.data, .data d⟩ fragment outLen integrity =
      .ok (envelope integrity (dataPacketBytes d fragment)) := by
  unfold maxPacketLen at hpacket
  have htotal : (EnvelopeHeader.new (UInt8.ofNat (dataPacketHeaderLen + fragment.length))).totalLen
      integrity.tagLen = wireHeaderLen + (dataPacketHeaderLen + fragment.length) +
        integrity.tagLen := by
    simp only [EnvelopeHeader.totalLen, EnvelopeHeader.new, UInt8.toNat_ofNat']
    rw [Nat.mod_eq_of_lt (by omega)]
  simp only [encodeMessageFragment]
  rw [if_neg (by omega), htotal, if_neg (by omega)]
  simp only [encodeFragmentHeader]
  rw [if_neg (by rw [wireHeaderLen_eq] at *; omega), u16TryFrom_of_lt hlen, u16TryFrom_of_lt hoff]
  simp [bind, Except.bind, pure, Except.pure, dataPacketBytes]

theorem encodeMessageFragment_log {l : LogHeader} {fragment : Bytes} {outLen : Nat}
    {integrity : IntegrityConfig}
    (hlen : l.messageLen < 2 ^ 16) (hoff : l.fragmentOffset < 2 ^ 16)
    (hpacket : logPacketHeaderLen + fragment.length ≤ maxPacketLen)
    (hroom : wireHeaderLen + (logPacketHeaderLen + fragment.length) + integrity.tagLen ≤ outLen) :
    encodeMessageFragment ⟨.log, .log l⟩ fragment outLen integrity =
      .ok (envelope integrity (logPacketBytes l fragment)) := by
  unfold maxPacketLen at hpacket
  have htotal : (EnvelopeHeader.new (UInt8.ofNat (logPacketHeaderLen + fragment.length))).totalLen
      integrity.tagLen = wireHeaderLen + (logPacketHeaderLen + fragment.length) +
        integrity.tagLen := by
    simp only [EnvelopeHeader.totalLen, EnvelopeHeader.new, UInt8.toNat_ofNat']
    rw [Nat.mod_eq_of_lt (by omega)]
  simp only [encodeMessageFragment]
  rw [if_neg (by omega), htotal, if_neg (by omega)]
  simp only [encodeFragmentHeader]
  rw [if_neg (by rw [wireHeaderLen_eq] at *; omega), u16TryFrom_of_lt hlen, u16TryFrom_of_lt hoff]
  simp [bind, Except.bind, pure, Except.pure, logPacketBytes]

/-- Whatever header it is given, the encoder writes an envelope that its output has room for. -/
theorem encodeMessageFragment_eq_ok {header : PacketHeader} {fragment : Bytes} {outLen : Nat}
    {integrity : IntegrityConfig} {bytes : Bytes}
    (h : encodeMessageFragment header fragment outLen integrity = .ok bytes) :
    ∃ packet, bytes = envelope integrity packet ∧ packet.length ≤ maxPacketLen ∧
      wireHeaderLen + packet.length + integrity.tagLen ≤ outLen := by
  -- DATA and LOG differ in the length of their headers alone
  have inner : ∀ headerLen : Nat,
      (∀ {headerBytes}, encodeFragmentHeader header (outLen - wireHeaderLen) = .ok headerBytes →
        headerBytes.length = headerLen) →
      (if headerLen + fragment.length ≥ 2 ^ 8 then Except.error Error.engine
        else if outLen < (EnvelopeHeader.new
            (UInt8.ofNat (headerLen + fragment.length))).totalLen integrity.tagLen then
          .error .bufferTooSmall
        else do
          let headerBytes ← encodeFragmentHeader header (outLen - wireHeaderLen)
          return envelope integrity (headerBytes ++ fragment)) = .ok bytes →
      ∃ packet, bytes = envelope integrity packet ∧ packet.length ≤ maxPacketLen ∧
        wireHeaderLen + packet.length + integrity.tagLen ≤ outLen := by
    intro headerLen hheader hok
    split at hok
    · cases hok
    · rename_i hlen
      split at hok
      · cases hok
      · rename_i hroom
        simp only [EnvelopeHeader.totalLen, EnvelopeHeader.new, UInt8.toNat_ofNat'] at hroom
        rw [Nat.mod_eq_of_lt (by omega)] at hroom
        cases henc : encodeFragmentHeader header (outLen - wireHeaderLen) with
        | error e => rw [henc] at hok; cases hok
        | ok headerBytes =>
          rw [henc] at hok
          refine ⟨headerBytes ++ fragment, (Except.ok.inj hok).symm, ?_⟩
          rw [List.length_append, hheader henc, maxPacketLen]
          omega
  unfold encodeMessageFragment at h
  cases hbody : header.body with
  | data d =>
    simp only [hbody] at h
    exact inner dataPacketHeaderLen
      (fun henc => by have := length_encodeFragmentHeader henc; rwa [hbody] at this) h
  | log l =>
    simp only [hbody] at h
    exact inner logPacketHeaderLen
      (fun henc => by have := length_encodeFragmentHeader henc; rwa [hbody] at this) h
  | ack | ping | pong =>
    simp only [hbody] at h
    cases h

/-- The envelopes the encoders produce. -/
inductive Encoded (integrity : IntegrityConfig) : Bytes → Prop
  | fragment {header : PacketHeader} {fragment : Bytes} {outLen : Nat} {bytes : Bytes} :
      encodeMessageFragment header fragment outLen integrity = .ok bytes → Encoded integrity bytes
  | ack {key : PacketKey} {outLen : Nat} {bytes : Bytes} :
      encodeAckPacket key outLen integrity = .ok bytes → Encoded integrity bytes
  | liveness {packetType : PacketType} {outLen : Nat} {bytes : Bytes} :
      encodeLivenessPacket packetType outLen integrity = .ok bytes → Encoded integrity bytes

theorem encodeAckPacket_eq_ok {key : PacketKey} {outLen : Nat} {integrity : IntegrityConfig}
    {bytes : Bytes} (h : encodeAckPacket key outLen integrity = .ok bytes) :
    bytes = envelope integrity (ackPacketBytes key) := by
  unfold encodeAckPacket at h
  split at h
  · cases h
  · exact (Except.ok.inj h).symm

theorem encodeLivenessPacket_eq_ok {packetType : PacketType} {outLen : Nat}
    {integrity : IntegrityConfig} {bytes : Bytes}
    (h : encodeLivenessPacket packetType outLen integrity = .ok bytes) :
    bytes = envelope integrity [packetType.code] := by
  unfold encodeLivenessPacket at h
  split at h
  · cases h
  · exact (Except.ok.inj h).symm

/-- PING and PONG fit a wire buffer. -/
theorem encodeLivenessPacket_ok (packetType : PacketType) (integrity : IntegrityConfig) :
    encodeLivenessPacket packetType maxWireBytes integrity =
      .ok (envelope integrity [packetType.code]) := by
  have htag := integrity.tagLen_le
  rw [encodeLivenessPacket, if_neg]
  simp only [EnvelopeHeader.totalLen, EnvelopeHeader.new, UInt8.toNat_ofNat', wireHeaderLen_eq,
    livenessPacketHeaderLen_eq, maxWireBytes]
  omega

/-- **Every encoded envelope is the envelope of a packet the length byte can carry.** -/
theorem Encoded.eq_envelope {integrity : IntegrityConfig} {bytes : Bytes}
    (h : Encoded integrity bytes) :
    ∃ packet, bytes = envelope integrity packet ∧ packet.length ≤ maxPacketLen := by
  cases h with
  | fragment h =>
    obtain ⟨packet, hbytes, hlen, -⟩ := encodeMessageFragment_eq_ok h
    exact ⟨packet, hbytes, hlen⟩
  | ack h =>
    refine ⟨_, encodeAckPacket_eq_ok h, ?_⟩
    rw [length_ackPacketBytes]
    decide
  | liveness h => exact ⟨_, encodeLivenessPacket_eq_ok h, by simp [maxPacketLen]⟩

end Msrt
