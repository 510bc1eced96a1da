import Msrt.PacketFormat

/-! # The packet format is a bijection

A `Packet` is what the protocol means to send: a fragment with a header that its fields have room for, an
acknowledgement, a PING or a PONG.  The encoders write each one as `Packet.bytes` into its envelope
(`Packet.encode_eq`), and `decodePacketBytes` reads exactly these byte strings back; every other one is
malformed.
-/

namespace Msrt
open ByteWords

/-- The fragment lies in its message, and its packet has room for the fields and the payload. -/
structure FragmentFits (headerLen messageLen fragmentOffset : Nat) (payload : Bytes) : Prop where
  messageLen_lt : messageLen < 2 ^ 16
  fragmentOffset_lt : fragmentOffset < 2 ^ 16
  inMessage : fragmentOffset + payload.length ≤ messageLen
  packetLen_le : headerLen + payload.length ≤ maxPacketLen

/-- The packets of the protocol. -/
inductive Packet where
  | data (header : DataHeader) (payload : Bytes)
      (fits : FragmentFits dataPacketHeaderLen header.messageLen header.fragmentOffset payload)
  | log (header : LogHeader) (payload : Bytes)
      (fits : FragmentFits logPacketHeaderLen header.messageLen header.fragmentOffset payload)
  | ack (key : PacketKey)
  | ping
  | pong

namespace Packet

/-- The encoder of each packet kind. -/
def encode (outLen : Nat) (integrity : IntegrityConfig) : Packet → Except Error Bytes
  | .data header payload _ => encodeMessageFragment ⟨.data, .data header⟩ payload outLen integrity
  | .log header payload _ => encodeMessageFragment ⟨.log, .log header⟩ payload outLen integrity
  | .ack key => encodeAckPacket key outLen integrity
  | .ping => encodeLivenessPacket .ping outLen integrity
  | .pong => encodeLivenessPacket .pong outLen integrity

/-- The packet bytes inside the envelope. -/
def bytes : Packet → Bytes
  | .data header payload _ => dataPacketBytes header payload
  | .log header payload _ => logPacketBytes header payload
  | .ack key => ackPacketBytes key
  | .ping => [PacketType.ping.code]
  | .pong => [PacketType.pong.code]

/-- The packet as the decoder reports it: its kind, header, key and payload. -/
def decoded : Packet → PacketDecode
  | .data header payload _ => .data header (header.fragment payload)
  | .log header payload _ => .log header (header.fragment payload)
  | .ack key => .ack key
  | .ping => .ping
  | .pong => .pong

theorem length_bytes_le (p : Packet) : p.bytes.length ≤ maxPacketLen := by
  cases p with
  | data header payload fits => exact length_dataPacketBytes header payload ▸ fits.packetLen_le
  | log header payload fits => exact length_logPacketBytes header payload ▸ fits.packetLen_le
  | ack key =>
    rw [bytes, length_ackPacketBytes]
    decide
  | ping | pong => exact Nat.le_of_ble_eq_true rfl

/-- **Into a buffer with room for it every packet is written as its envelope.** -/
theorem encode_eq (p : Packet) {outLen : Nat} {integrity : IntegrityConfig}
    (hroom : wireHeaderLen + p.bytes.length + integrity.tagLen ≤ outLen) :
    p.encode outLen integrity = .ok (envelope integrity p.bytes) := by
  -- the envelopes of a fixed length have room for it
  have hfixed : ∀ len : Nat, len < 2 ^ 8 → wireHeaderLen + len + integrity.tagLen ≤ outLen →
      ¬ outLen < (EnvelopeHeader.new (UInt8.ofNat len)).totalLen integrity.tagLen := by
    intro len hlen hle
    simp only [EnvelopeHeader.totalLen, EnvelopeHeader.new, UInt8.toNat_ofNat']
    rw [Nat.mod_eq_of_lt hlen]
    omega
  cases p with
  | data header payload fits =>
    rw [bytes, length_dataPacketBytes] at hroom
    exact encodeMessageFragment_data fits.messageLen_lt fits.fragmentOffset_lt fits.packetLen_le hroom
  | log header payload fits =>
    rw [bytes, length_logPacketBytes] at hroom
    exact encodeMessageFragment_log fits.messageLen_lt fits.fragmentOffset_lt fits.packetLen_le hroom
  | ack key =>
    rw [bytes, length_ackPacketBytes] at hroom
    exact if_neg (hfixed ackPacketHeaderLen (by decide) hroom)
  | ping => exact if_neg (hfixed livenessPacketHeaderLen (by decide) hroom)
  | pong => exact if_neg (hfixed livenessPacketHeaderLen (by decide) hroom)

/-- **Every packet is read back as it was written.** -/
theorem decodePacketBytes_bytes (p : Packet) : decodePacketBytes p.bytes = p.decoded := by
  cases p with
  | data header payload fits =>
    exact decodePacketBytes_dataPacketBytes fits.messageLen_lt fits.inMessage
  | log header payload fits =>
    exact decodePacketBytes_logPacketBytes fits.messageLen_lt fits.inMessage
  | ack key => exact decodePacketBytes_ackPacketBytes key
  | ping => exact decodePacketBytes_ping
  | pong => exact decodePacketBytes_pong

/-- The decoded packet determines what is encoded. -/
theorem bytes_of_decoded {p p' : Packet} (h : p.decoded = p'.decoded) : p.bytes = p'.bytes := by
  cases p <;> cases p' <;> simp_all [decoded, bytes, DataHeader.fragment, LogHeader.fragment]

theorem decoded_ne_malformed (p : Packet) : p.decoded ≠ .malformed := by
  cases p <;> exact PacketDecode.noConfusion

end Packet

/-! ## Writing back what was read -/

theorem u16ToLe_u16FromLe (a b : UInt8) : u16ToLe (u16FromLe [a, b]) = [a, b] := by
  have hlt : ofLeBytes [a, b] < 2 ^ 16 :=
    Nat.lt_of_lt_of_eq (ofLeBytes_lt [a, b]) (by simp)
  rw [u16ToLe, u16FromLe, UInt16.toNat_ofNat', Nat.mod_eq_of_lt hlt]
  exact leBytes_ofLeBytes [a, b]

theorem u32ToLe_u32FromLe (a b c d : UInt8) : u32ToLe (u32FromLe [a, b, c, d]) = [a, b, c, d] := by
  have hlt : ofLeBytes [a, b, c, d] < 2 ^ 32 :=
    Nat.lt_of_lt_of_eq (ofLeBytes_lt [a, b, c, d]) (by simp)
  rw [u32ToLe, u32FromLe, UInt32.toNat_ofNat', Nat.mod_eq_of_lt hlt]
  exact leBytes_ofLeBytes [a, b, c, d]

theorem PacketType.code_of_fromCode {code : UInt8} {t : PacketType} (h : fromCode code = some t) :
    code = t.code := by
  unfold fromCode at h
  repeat' split at h
  all_goals first | (obtain rfl := Option.some.inj h; assumption) | cases h

/-- A DATA header that is read back stands at the start of its packet. -/
theorem dataHeaderFromBytes_eq_some {code : UInt8} {tail : Bytes} {header : DataHeader}
    (h : dataHeaderFromBytes (code :: tail) = some header) (hcode : code = PacketType.data.code) :
    header.messageLen < 2 ^ 16 ∧ header.fragmentOffset < 2 ^ 16 ∧
      ∃ payload, code :: tail = dataPacketBytes header payload := by
  match tail, h with
  | flags :: a :: b :: c :: d :: e :: f :: g :: i :: j :: k :: payload, h =>
    simp only [dataHeaderFromBytes, getRange?, dataPacketHeaderLen_eq] at h
    simp at h
    obtain ⟨-, rfl⟩ := h
    refine ⟨UInt16.toNat_lt _, UInt16.toNat_lt _, payload, ?_⟩
    simp only [dataPacketBytes, UInt16.ofNat_toNat, u16ToLe_u16FromLe, u32ToLe_u32FromLe, hcode]
    rfl
  | [], h | [_], h | [_, _], h | [_, _, _], h | [_, _, _, _], h | [_, _, _, _, _], h
  | [_, _, _, _, _, _], h | [_, _, _, _, _, _, _], h | [_, _, _, _, _, _, _, _], h
  | [_, _, _, _, _, _, _, _, _], h | [_, _, _, _, _, _, _, _, _, _], h =>
    simp [dataHeaderFromBytes, dataPacketHeaderLen_eq] at h

/-- A LOG header that is read back stands at the start of its packet. -/
theorem logHeaderFromBytes_eq_some {code : UInt8} {tail : Bytes} {header : LogHeader}
    (h : logHeaderFromBytes (code :: tail) = some header) (hcode : code = PacketType.log.code) :
    header.messageLen < 2 ^ 16 ∧ header.fragmentOffset < 2 ^ 16 ∧
      ∃ payload, code :: tail = logPacketBytes header payload := by
  match tail, h with
  | a :: b :: c :: d :: e :: f :: g :: i :: j :: k :: payload, h =>
    simp only [logHeaderFromBytes, getRange?, logPacketHeaderLen_eq] at h
    simp at h
    obtain ⟨-, rfl⟩ := h
    refine ⟨UInt16.toNat_lt _, UInt16.toNat_lt _, payload, ?_⟩
    simp only [logPacketBytes, UInt16.ofNat_toNat, u16ToLe_u16FromLe, u32ToLe_u32FromLe, hcode]
    rfl
  | [], h | [_], h | [_, _], h | [_, _, _], h | [_, _, _, _], h | [_, _, _, _, _], h
  | [_, _, _, _, _, _], h | [_, _, _, _, _, _, _], h | [_, _, _, _, _, _, _, _], h
  | [_, _, _, _, _, _, _, _, _], h =>
    simp [logHeaderFromBytes, logPacketHeaderLen_eq] at h

theorem ackFromPacketBytes_eq_some {bytes : Bytes} {key : PacketKey}
    (h : ackFromPacketBytes bytes = some key) : bytes = ackPacketBytes key := by
  unfold ackFromPacketBytes at h
  split at h
  · cases h
  · rename_i hshape
    rw [not_or, not_not, not_not, ackPacketHeaderLen_eq] at hshape
    obtain ⟨hlen, hhead⟩ := hshape
    match bytes, hlen, hhead, h with
    | [code, a, b, c, d, e, f], _, hhead, h =>
      simp [getRange?] at h hhead
      obtain rfl := h
      simp [ackPacketBytes, u16ToLe_u16FromLe, u32ToLe_u32FromLe, hhead]

theorem livenessFromPacketBytes_eq_some {bytes : Bytes} {packetType : PacketType}
    (h : livenessFromPacketBytes bytes = some packetType) : bytes = [packetType.code] := by
  unfold livenessFromPacketBytes at h
  split at h
  · cases h
  · rename_i hlen
    rw [not_not, livenessPacketHeaderLen_eq] at hlen
    obtain ⟨code, rfl⟩ := List.length_eq_one_iff.mp hlen
    obtain ⟨read, hread, h⟩ := Option.bind_eq_some_iff.mp (show
      (PacketType.fromCode code).bind _ = some packetType from h)
    split at h
    · obtain rfl := Option.some.inj h
      exact congrArg (fun code => [code]) (PacketType.code_of_fromCode hread)
    · cases h

theorem dataFromPacketBytes_eq_some {code : UInt8} {tail : Bytes}
    {result : DataHeader × MessageFragment} (h : dataFromPacketBytes (code :: tail) = some result)
    (hcode : code = PacketType.data.code) (hlen : (code :: tail).length ≤ maxPacketLen) :
    ∃ p : Packet, p.bytes = code :: tail := by
  obtain ⟨header, hheader, h⟩ := Option.bind_eq_some_iff.mp h
  obtain ⟨fragment, hfragment, -⟩ := Option.bind_eq_some_iff.mp h
  obtain ⟨hmessage, hoffset, payload, hbytes⟩ := dataHeaderFromBytes_eq_some hheader hcode
  rw [hbytes] at hfragment hlen ⊢
  rw [dataFragmentFromPacketBytes, payload_dataPacketBytes, Option.bind_eq_bind,
    Option.bind_some] at hfragment
  split at hfragment
  · cases hfragment
  · rename_i hin
    rw [length_dataPacketBytes] at hlen
    exact ⟨.data header payload ⟨hmessage, hoffset, Nat.le_of_not_lt hin, hlen⟩, rfl⟩

theorem logFromPacketBytes_eq_some {code : UInt8} {tail : Bytes}
    {result : LogHeader × MessageFragment} (h : logFromPacketBytes (code :: tail) = some result)
    (hcode : code = PacketType.log.code) (hlen : (code :: tail).length ≤ maxPacketLen) :
    ∃ p : Packet, p.bytes = code :: tail := by
  obtain ⟨header, hheader, h⟩ := Option.bind_eq_some_iff.mp h
  obtain ⟨fragment, hfragment, -⟩ := Option.bind_eq_some_iff.mp h
  obtain ⟨hmessage, hoffset, payload, hbytes⟩ := logHeaderFromBytes_eq_some hheader hcode
  rw [hbytes] at hfragment hlen ⊢
  rw [logFragmentFromPacketBytes, payload_logPacketBytes, Option.bind_eq_bind,
    Option.bind_some] at hfragment
  split at hfragment
  · cases hfragment
  · rename_i hin
    rw [length_logPacketBytes] at hlen
    exact ⟨.log header payload ⟨hmessage, hoffset, Nat.le_of_not_lt hin, hlen⟩, rfl⟩

/-- **What is not malformed was written by an encoder.** -/
theorem exists_packet_of_decodePacketBytes {bytes : Bytes} (hlen : bytes.length ≤ maxPacketLen)
    (h : decodePacketBytes bytes ≠ .malformed) : ∃ p : Packet, p.bytes = bytes := by
  match bytes with
  | [] => exact absurd rfl h
  | code :: tail =>
    unfold decodePacketBytes at h
    split at h
    · exact absurd rfl h
    · split at h
      · rename_i key hkey
        exact ⟨.ack key, (ackFromPacketBytes_eq_some hkey).symm⟩
      · exact absurd rfl h
    · split at h
      · rename_i hping
        exact ⟨.ping, (livenessFromPacketBytes_eq_some hping).symm⟩
      · rename_i hpong
        exact ⟨.pong, (livenessFromPacketBytes_eq_some hpong).symm⟩
      · exact absurd rfl h
    · split at h
      · rename_i hping
        exact ⟨.ping, (livenessFromPacketBytes_eq_some hping).symm⟩
      · rename_i hpong
        exact ⟨.pong, (livenessFromPacketBytes_eq_some hpong).symm⟩
      · exact absurd rfl h
    · rename_i htype
      split at h
      · rename_i hdata
        exact dataFromPacketBytes_eq_some hdata (PacketType.code_of_fromCode htype) hlen
      · exact absurd rfl h
    · rename_i htype
      split at h
      · rename_i hlog
        exact logFromPacketBytes_eq_some hlog (PacketType.code_of_fromCode htype) hlen
      · exact absurd rfl h

/-- **The packet format is a bijection.**  The encoders write every packet as its bytes, at most 255 of
them, and these are decoded to the same kind, header, key and payload.  Conversely a byte string that is
not malformed is decoded to a packet whose encoding it is; so no two of them are decoded alike, and the
malformed ones are those no encoder writes. -/
theorem packet_format_bijective :
    (∀ (p : Packet) (outLen : Nat) (integrity : IntegrityConfig),
      wireHeaderLen + p.bytes.length + integrity.tagLen ≤ outLen →
      p.encode outLen integrity = .ok (envelope integrity p.bytes)) ∧
    (∀ p : Packet, p.bytes.length ≤ 255 ∧ decodePacketBytes p.bytes = p.decoded) ∧
    (∀ b : Bytes, b.length ≤ 255 → decodePacketBytes b ≠ .malformed →
      ∃ p : Packet, decodePacketBytes b = p.decoded ∧ p.bytes = b) ∧
    (∀ b b' : Bytes, b.length ≤ 255 → b'.length ≤ 255 → decodePacketBytes b ≠ .malformed →
      decodePacketBytes b = decodePacketBytes b' → b = b') ∧
    ∀ b : Bytes, b.length ≤ 255 → (decodePacketBytes b = .malformed ↔ ∀ p : Packet, p.bytes ≠ b) := by
  have hback : ∀ b : Bytes, b.length ≤ 255 → decodePacketBytes b ≠ .malformed →
      ∃ p : Packet, decodePacketBytes b = p.decoded ∧ p.bytes = b := by
    intro b hlen hb
    obtain ⟨p, rfl⟩ := exists_packet_of_decodePacketBytes hlen hb
    exact ⟨p, p.decodePacketBytes_bytes, rfl⟩
  refine ⟨fun p outLen integrity hroom => p.encode_eq hroom,
    fun p => ⟨p.length_bytes_le, p.decodePacketBytes_bytes⟩, hback, ?_, ?_⟩
  · intro b b' hlen hlen' hb heq
    obtain ⟨p, hp, rfl⟩ := hback b hlen hb
    obtain ⟨p', hp', rfl⟩ := hback b' hlen' (heq ▸ hb)
    rw [hp, hp'] at heq
    exact Packet.bytes_of_decoded heq
  · intro b hlen
    constructor
    · intro hb p hp
      rw [← hp, p.decodePacketBytes_bytes] at hb
      exact p.decoded_ne_malformed hb
    · intro hout
      by_contra hb
      obtain ⟨p, -, hp⟩ := hback b hlen hb
      exact hout p hp

end Msrt
