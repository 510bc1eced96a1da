import Msrt.CrcRegister
import Msrt.StreamRecovery

/-! # Burst errors

Each of the three CRC backends finds a burst no longer than its checksum, wherever it falls
(`value_ne_of_window`); an altered tag it finds anyway.  An envelope altered in this way is still cut
out of the stream at its place, because its header is intact: the decoder rejects it as a whole, and
what follows is decoded as if it came first (`CostsOneEnvelope`).
-/

namespace Msrt
open ByteWords

/-- The CRC backends. -/
inductive CrcBackend where
  | crc16
  | crc32
  | crc64
  deriving DecidableEq, Repr

namespace CrcBackend

/-- The configuration that selects the backend. -/
def config : CrcBackend → IntegrityConfig
  | crc16 => .crc16
  | crc32 => .crc32
  | crc64 => .crc64

/-- The bits of a checksum. -/
def width : CrcBackend → Nat
  | crc16 => 16
  | crc32 => 32
  | crc64 => 64

/-- The order in which the loop takes the bits of a byte. -/
def order : CrcBackend → BitOrder
  | crc16 => .msbFirst
  | crc32 => .lsbFirst
  | crc64 => .msbFirst

/-- The checksum of a byte string. -/
def value (crc : CrcBackend) (bytes : Bytes) : Nat :=
  match crc with
  | crc16 => (Crc16.calculate bytes).toNat
  | crc32 => (Crc32.calculate bytes).toNat
  | crc64 => (Crc64.calculate bytes).toNat

/-! ## What a checksum finds -/

theorem crc16_eq (bytes : Bytes) : Crc16.calculate bytes =
    (ShiftRegister.msbFirst 0x1021#16 (by decide) (by decide)).run 0#16
      (BitOrder.msbFirst.bits bytes) :=
  setWidth_crcMsb (by decide) (by decide) (by decide) (by decide) 0 bytes

theorem crc64_eq (bytes : Bytes) : Crc64.calculate bytes =
    (ShiftRegister.msbFirst 0x42f0e1eba9ea3693#64 (by decide) (by decide)).run 0#64
      (BitOrder.msbFirst.bits bytes) := by
  rw [← BitVec.setWidth_eq (Crc64.calculate bytes)]
  exact setWidth_crcMsb (by decide) (by decide) (by decide) (by decide) 0 bytes

theorem crc32_eq (bytes : Bytes) : Crc32.calculate bytes =
    ~~~ (ShiftRegister.lsbFirst 0xedb88320#32 (by decide) (by decide)).run 0xffffffff#32
      (BitOrder.lsbFirst.bits bytes) := by
  have hinitial : (0xffffffff : BitVec 64) = (0xffffffff#32).setWidth 64 := by decide
  have hpoly : (0xedb88320 : BitVec 64) = (0xedb88320#32).setWidth 64 := by decide
  rw [Crc32.calculate, hinitial, hpoly, crcLsb_setWidth (by decide) (by decide) (by decide) (by decide)]
  apply BitVec.eq_of_getLsbD_eq
  intro i hi
  simp [hi]

/-- **A checksum finds every burst no longer than itself.** -/
theorem value_ne_of_window (crc : CrcBackend) {a b : Bytes} (start : Nat)
    (hlen : a.length = b.length) (hne : a ≠ b)
    (hwindow : ∀ k, (crc.order.bits a)[k]? ≠ (crc.order.bits b)[k]? →
      start ≤ k ∧ k < start + crc.width) : crc.value a ≠ crc.value b := by
  have hbits : (crc.order.bits a).length = (crc.order.bits b).length := by
    rw [BitOrder.length_bits, BitOrder.length_bits, hlen]
  have hdiffer : crc.order.bits a ≠ crc.order.bits b := fun h => hne (BitOrder.bits_injective h)
  intro hvalue
  cases crc with
  | crc16 =>
    have hsame : Crc16.calculate a = Crc16.calculate b := BitVec.eq_of_toNat_eq hvalue
    rw [crc16_eq, crc16_eq] at hsame
    exact ShiftRegister.run_ne_of_window _ start hbits hdiffer hwindow hsame
  | crc32 =>
    have hsame : Crc32.calculate a = Crc32.calculate b := BitVec.eq_of_toNat_eq hvalue
    rw [crc32_eq, crc32_eq, BitVec.not_inj] at hsame
    exact ShiftRegister.run_ne_of_window _ start hbits hdiffer hwindow hsame
  | crc64 =>
    have hsame : Crc64.calculate a = Crc64.calculate b := BitVec.eq_of_toNat_eq hvalue
    rw [crc64_eq, crc64_eq] at hsame
    exact ShiftRegister.run_ne_of_window _ start hbits hdiffer hwindow hsame

theorem value_lt (crc : CrcBackend) (bytes : Bytes) : crc.value bytes < 256 ^ crc.config.tagLen := by
  cases crc with
  | crc16 => exact (Crc16.calculate bytes).isLt
  | crc32 => exact (Crc32.calculate bytes).isLt
  | crc64 => exact (Crc64.calculate bytes).isLt

theorem sealTag_eq (crc : CrcBackend) (bytes : Bytes) :
    crc.config.sealTag bytes = leBytes crc.config.tagLen (crc.value bytes) := by
  cases crc <;> rfl

theorem verify_eq (crc : CrcBackend) (bytes tag : Bytes) :
    crc.config.verify bytes tag = verifyValue crc.config.tagLen (crc.value bytes) tag := by
  cases crc <;> rfl

/-- Only the sealed tag verifies. -/
theorem eq_sealTag_of_verify (crc : CrcBackend) {bytes tag : Bytes}
    (hlen : tag.length = crc.config.tagLen) (h : crc.config.verify bytes tag = true) :
    tag = crc.config.sealTag bytes := by
  rw [verify_eq, verifyValue, if_neg (by omega), List.take_of_length_le (Nat.le_of_eq hlen),
    beq_iff_eq] at h
  rw [sealTag_eq, h, ← hlen, leBytes_ofLeBytes]

theorem value_eq_of_sealTag_eq (crc : CrcBackend) {a b : Bytes}
    (h : crc.config.sealTag a = crc.config.sealTag b) : crc.value a = crc.value b := by
  rw [sealTag_eq, sealTag_eq] at h
  rw [← ofLeBytes_leBytes_of_lt (crc.value_lt a), h, ofLeBytes_leBytes_of_lt (crc.value_lt b)]

/-! ## Altered envelopes -/

/-- The byte strings differ from `lo` up to `hi` and nowhere else. -/
def OnlyWithin (lo hi : Nat) (a b : Bytes) : Prop := ∀ j, a[j]? ≠ b[j]? → lo ≤ j ∧ j < hi

/-- An altered copy of the envelope of a packet: a burst no longer than the checksum hit the packet
bytes, or anything hit the tag. -/
structure Altered (crc : CrcBackend) (packet altered : Bytes) : Prop where
  length_eq : altered.length = (envelope crc.config packet).length
  ne : altered ≠ envelope crc.config packet
  cases :
    (OnlyWithin wireHeaderLen (wireHeaderLen + packet.length) (envelope crc.config packet) altered ∧
      ∃ start, ∀ k, (crc.order.bits (envelope crc.config packet))[k]? ≠
        (crc.order.bits altered)[k]? → start ≤ k ∧ k < start + crc.width) ∨
    OnlyWithin (wireHeaderLen + packet.length) (envelope crc.config packet).length
      (envelope crc.config packet) altered

/-- Fed to an empty decoder, the altered envelope is reported as corrupted with its own length, and
the decoder goes on with what is behind it like a fresh one. -/
def CostsOneEnvelope (crc : CrcBackend) (packet altered : Bytes) : Prop :=
  ∀ (capacity : Nat) (d : StreamingDecoder capacity) (rest : Bytes), d.bytes = [] →
    (altered ++ rest).length ≤ capacity →
    (d.feed (altered ++ rest) crc.config).2 =
      .ok (.corrupted (envelope crc.config packet).length) ∧
    ∀ more, (rest ++ more).length ≤ capacity →
      (d.feed (altered ++ rest) crc.config).1.feed more crc.config =
        (StreamingDecoder.new : StreamingDecoder capacity).feed (rest ++ more) crc.config

variable {crc : CrcBackend} {packet altered : Bytes}

theorem length_authenticatedBytes (packet : Bytes) :
    (authenticatedBytes packet).length = wireHeaderLen + packet.length := by
  rw [wireHeaderLen_eq, authenticatedBytes]
  simp only [List.length_cons]
  omega

theorem take_envelope (integrity : IntegrityConfig) (packet : Bytes) :
    (envelope integrity packet).take (wireHeaderLen + packet.length) = authenticatedBytes packet := by
  rw [envelope_eq, List.take_left' (length_authenticatedBytes packet)]

theorem drop_envelope (integrity : IntegrityConfig) (packet : Bytes) :
    (envelope integrity packet).drop (wireHeaderLen + packet.length) =
      integrity.sealTag (authenticatedBytes packet) := by
  rw [envelope_eq, List.drop_left' (length_authenticatedBytes packet)]

theorem OnlyWithin.take_eq {lo hi : Nat} {a b : Bytes} (h : OnlyWithin lo hi a b) :
    a.take lo = b.take lo := ShiftRegister.take_eq_of_window fun k hk => (h k hk).1

theorem OnlyWithin.drop_eq {lo hi : Nat} {a b : Bytes} (h : OnlyWithin lo hi a b) :
    a.drop hi = b.drop hi := ShiftRegister.drop_eq_of_window fun k hk => (h k hk).2

/-- The header of an altered envelope is intact. -/
theorem Altered.take_header (h : crc.Altered packet altered) :
    altered.take wireHeaderLen = (envelope crc.config packet).take wireHeaderLen := by
  rcases h.cases with ⟨hpacket, -⟩ | htag
  · exact hpacket.take_eq.symm
  · have htake := congrArg (List.take wireHeaderLen) htag.take_eq
    rw [List.take_take, List.take_take, Nat.min_eq_left (Nat.le_add_right _ _)] at htake
    exact htake.symm

/-- A burst in the packet bytes changes the checksum. -/
theorem value_ne_of_burst {start : Nat}
    (hlen : altered.length = (envelope crc.config packet).length)
    (hne : altered.take (wireHeaderLen + packet.length) ≠ authenticatedBytes packet)
    (hwindow : ∀ k, (crc.order.bits (envelope crc.config packet))[k]? ≠
      (crc.order.bits altered)[k]? → start ≤ k ∧ k < start + crc.width) :
    crc.value (authenticatedBytes packet) ≠
      crc.value (altered.take (wireHeaderLen + packet.length)) := by
  have hsame : (authenticatedBytes packet).length =
      (altered.take (wireHeaderLen + packet.length)).length := by
    rw [length_authenticatedBytes, List.length_take, hlen, length_envelope]
    omega
  refine crc.value_ne_of_window start hsame (Ne.symm hne) fun k hk => hwindow k ?_
  -- the bits of the checked bytes are the first bits of the envelope
  have hfirst (bytes : Bytes) (hk : k < (crc.order.bits (bytes.take
      (wireHeaderLen + packet.length))).length) : (crc.order.bits bytes)[k]? =
      (crc.order.bits (bytes.take (wireHeaderLen + packet.length)))[k]? := by
    nth_rewrite 1 [← List.take_append_drop (wireHeaderLen + packet.length) bytes]
    rw [BitOrder.bits_append, List.getElem?_append_left hk]
  have hinside : k < (crc.order.bits (authenticatedBytes packet)).length := by
    by_contra hout
    have hbits : (crc.order.bits (authenticatedBytes packet)).length =
        (crc.order.bits (altered.take (wireHeaderLen + packet.length))).length := by
      rw [BitOrder.length_bits, BitOrder.length_bits, hsame]
    apply hk
    rw [List.getElem?_eq_none (by omega), List.getElem?_eq_none (by omega)]
  have hsent := hfirst (envelope crc.config packet) (by rwa [take_envelope])
  have hgot := hfirst altered (by rwa [BitOrder.length_bits, ← hsame, ← BitOrder.length_bits])
  rw [take_envelope] at hsent
  rw [hsent, hgot]
  exact hk

/-- **An altered envelope does not verify.** -/
theorem Altered.not_verified (h : crc.Altered packet altered) :
    crc.config.verify (altered.take (wireHeaderLen + packet.length))
      (altered.drop (wireHeaderLen + packet.length)) = false := by
  have htaglen : (altered.drop (wireHeaderLen + packet.length)).length = crc.config.tagLen := by
    rw [List.length_drop, h.length_eq, length_envelope]
    omega
  rw [Bool.eq_false_iff]
  intro hverify
  have htag := crc.eq_sealTag_of_verify htaglen hverify
  rcases h.cases with ⟨hpacket, start, hwindow⟩ | honly
  · have hdrop := hpacket.drop_eq
    rw [drop_envelope] at hdrop
    have hne : altered.take (wireHeaderLen + packet.length) ≠ authenticatedBytes packet := by
      intro heq
      apply h.ne
      calc altered
          = altered.take (wireHeaderLen + packet.length) ++
              altered.drop (wireHeaderLen + packet.length) := (List.take_append_drop _ _).symm
        _ = envelope crc.config packet := by rw [heq, ← hdrop, envelope_eq]
    exact value_ne_of_burst h.length_eq hne hwindow
      (crc.value_eq_of_sealTag_eq (hdrop.trans htag))
  · have htake := honly.take_eq
    rw [take_envelope] at htake
    apply h.ne
    rw [← List.take_append_drop (wireHeaderLen + packet.length) altered, htag, ← htake, envelope_eq]

/-- The decoder's answer to an altered envelope at the front of its buffer. -/
theorem Altered.classify (h : crc.Altered packet altered) (hp : packet.length ≤ maxPacketLen)
    {capacity : Nat} (hcap : (envelope crc.config packet).length ≤ capacity) (rest : Bytes) :
    classify capacity crc.config (altered ++ rest) =
      .corrupted (envelope crc.config packet).length := by
  have hheader : altered ++ rest = envelopeMagic :: UInt8.ofNat packet.length ::
      headerCrc (UInt8.ofNat packet.length) :: (altered.drop wireHeaderLen ++ rest) := by
    nth_rewrite 1 [← List.take_append_drop wireHeaderLen altered]
    rw [h.take_header]
    rfl
  have hcut : candidateLen crc.config (UInt8.ofNat packet.length) - crc.config.tagLen =
      wireHeaderLen + packet.length := by
    rw [candidateLen, toNat_packetLen hp]
    omega
  have hverified : candidateVerified crc.config (UInt8.ofNat packet.length) (altered ++ rest) =
      false := by
    unfold candidateVerified
    rw [hcut, candidateLen_envelope hp, ← h.length_eq, List.take_left' rfl,
      List.take_append_of_le_length]
    · exact h.not_verified
    · rw [h.length_eq, length_envelope]
      omega
  have hlong : ¬ (altered ++ rest).length < (envelope crc.config packet).length := by
    rw [List.length_append, h.length_eq]
    omega
  rw [StreamingDecoder.classify_candidate capacity crc.config hheader,
    headerAccepted_envelope hp hcap, candidateLen_envelope hp, hverified, if_neg (by simp),
    if_neg hlong, if_neg Bool.false_ne_true]

/-- **An altered envelope costs itself and nothing else.** -/
theorem Altered.costsOneEnvelope (h : crc.Altered packet altered)
    (hp : packet.length ≤ maxPacketLen) : crc.CostsOneEnvelope packet altered := by
  intro capacity d rest hempty hfit
  have hcap : (envelope crc.config packet).length ≤ capacity := by
    rw [← h.length_eq]
    rw [List.length_append] at hfit
    omega
  have hrest : d.rest = [] := by rw [StreamingDecoder.rest, hempty, List.drop_nil]
  have hroom : d.rest.length + (altered ++ rest).length ≤ capacity := by
    rw [hrest, List.length_nil, Nat.zero_add]
    exact hfit
  obtain ⟨d', outcome, hfeed, hdecoded⟩ := d.feed_spec crc.config hroom
  have houtcome : outcome = .corrupted (envelope crc.config packet).length := by
    rw [hdecoded.outcome_eq, hrest, List.nil_append, h.classify hp hcap]
  have hbehind : d'.rest = rest := by
    rw [hdecoded.rest_eq, houtcome, hrest, List.nil_append, StreamDecodeOutcome.taken,
      List.drop_left' h.length_eq]
  rw [hfeed]
  refine ⟨congrArg _ houtcome, ?_⟩
  intro more hmore
  rw [List.length_append, ← hbehind] at hmore
  rw [d'.feed_eq_feed_new crc.config hmore, hbehind]

/-! ## One byte -/

theorem width_ge (crc : CrcBackend) : 8 ≤ crc.width := by
  cases crc <;> decide

/-- One altered byte of the packet or the tag is an alteration the checksum finds. -/
theorem altered_set {j : Nat} {b : UInt8} (hj : wireHeaderLen ≤ j)
    (hlt : j < (envelope crc.config packet).length)
    (hb : (envelope crc.config packet)[j]? ≠ some b) :
    crc.Altered packet ((envelope crc.config packet).set j b) := by
  have honly (k : Nat) (hk : (envelope crc.config packet)[k]? ≠
      ((envelope crc.config packet).set j b)[k]?) : k = j := by
    by_contra hne
    exact hk (List.getElem?_set_ne (Ne.symm hne)).symm
  refine ⟨List.length_set, ?_, ?_⟩
  · intro heq
    apply hb
    rw [← heq, List.getElem?_set_self hlt]
  · by_cases hpacket : j < wireHeaderLen + packet.length
    · refine .inl ⟨?_, 8 * j, ?_⟩
      · intro k hk
        rw [honly k hk]
        exact ⟨hj, hpacket⟩
      · intro k hk
        have hwidth := crc.width_ge
        obtain ⟨hlo, hhi⟩ := BitOrder.bits_set_window hk
        omega
    · refine .inr ?_
      intro k hk
      rw [honly k hk]
      exact ⟨by omega, hlt⟩

/-- **A short burst error costs exactly the envelope it hits**, and so does every altered byte of the
packet or the tag. -/
theorem burst_costs_one_envelope (crc : CrcBackend) {packet : Bytes}
    (hp : packet.length ≤ maxPacketLen) :
    (∀ altered, crc.Altered packet altered → crc.CostsOneEnvelope packet altered) ∧
      ∀ j b, wireHeaderLen ≤ j → j < (envelope crc.config packet).length →
        (envelope crc.config packet)[j]? ≠ some b →
        crc.CostsOneEnvelope packet ((envelope crc.config packet).set j b) :=
  ⟨fun _ h => h.costsOneEnvelope hp,
    fun _ _ hj hlt hb => (altered_set hj hlt hb).costsOneEnvelope hp⟩

/-- The second packet byte of a CRC-16 envelope is altered, in front of an intact envelope. -/
theorem burst_costs_one_envelope_second_byte :
    crc16.CostsOneEnvelope [1, 2, 3] ((envelope .crc16 [1, 2, 3]).set 4 9) :=
  (burst_costs_one_envelope crc16 (by decide)).2 4 9 (by decide) (by decide) (by decide)

end CrcBackend

end Msrt
