import Msrt.MachineEngine

/-! # Sending on the machine

The memory of an engine state (`EngineState.layout`) is fixed by the state up to the ingress buffer,
which only a receive touches.  Sending succeeds on such a memory and leaves the memory of what the
model's `sendFragmentedMessage` leaves, with the same result: a message of more than 256 bytes is
refused before its bytes are cut, and the configured fragment size is clamped to what a wire buffer
holds.
-/

namespace Msrt
open Checked SlotTable
variable {t : Target}

namespace EngineState

/-- The memory of an engine state, with its ingress buffer. -/
def layout (st : EngineState) (ingress : Machine.StreamingDecoder maxIngressBytes) :
    Machine.EngineState where
  clock := st.clock
  numbers := st.numbers
  scheduler := st.scheduler.layout
  recovery := st.recovery.layout
  ack := st.ack.layout
  ingress := ingress
  message := st.message.layout
  receive := st.receive.layout
  reassembly := st.reassembly.layout

section
variable (st : EngineState) (ingress : Machine.StreamingDecoder maxIngressBytes)

/-! ## Sending -/

theorem ensureCanQueueMessage_layout {messageLen fragmentBytes : Nat} (mode : ReliabilityMode)
    (hpos : 0 < fragmentBytes) (hlen : messageLen ≤ t.isizeMax) :
    ((st.layout ingress).ensureCanQueueMessage messageLen fragmentBytes mode : Checked t _) =
      pure (st.ensureCanQueueMessage messageLen fragmentBytes mode) := by
  unfold Machine.EngineState.ensureCanQueueMessage ensureCanQueueMessage
  dsimp only
  rw [Machine.fragmentCount_eq hpos hlen, pure_bind]
  generalize fragmentCount messageLen fragmentBytes = fragments
  have havailable : ((st.layout ingress).scheduler.available : Checked t Nat) =
      pure st.scheduler.available := st.scheduler.available_layout
  have hinFlight : ((st.layout ingress).recovery.availableInFlight : Checked t Nat) =
      pure st.recovery.availableInFlight := st.recovery.availableInFlight_layout
  by_cases hmany : fragments > maxEvents
  · rw [if_pos hmany, if_pos (Or.inl hmany)]
  rw [if_neg hmany, havailable, pure_bind]
  by_cases hfull : st.scheduler.available < fragments
  · rw [if_pos hfull, if_pos (Or.inr hfull)]
  rw [if_neg hfull, if_neg (not_or.mpr ⟨hmany, hfull⟩)]
  by_cases hmode : mode = .reliable
  · rw [if_pos hmode, hinFlight, pure_bind]
    by_cases htable : st.recovery.availableInFlight < fragments
    · rw [if_pos htable, if_pos ⟨hmode, htable⟩]
    · rw [if_neg htable, if_neg fun h => htable h.2]
  · rw [if_neg hmode, if_neg fun h => hmode h.1]

theorem queueFragment_layout (packetType : PacketType) (mode : ReliabilityMode) (key : PacketKey)
    (wire : WireBuffer) :
    ((st.layout ingress).queueFragment packetType mode key wire.layout wire.bytes.length :
        Checked t _) =
      pure ((st.queueFragment packetType mode key wire).1.layout ingress,
        (st.queueFragment packetType mode key wire).2) := by
  have hpush := st.scheduler.push_layout (t := t) (.write ⟨key, wire, 0, .newData⟩)
  have htrack := st.recovery.track_layout (t := t)
    ⟨key, packetType, key.messageId, wire, 0, st.clock.nowMs, false⟩
  unfold Machine.EngineState.queueFragment queueFragment
  show (st.scheduler.layout.push (EngineOutput.write ⟨key, wire, 0, .newData⟩).layout >>= _) = _
  rw [hpush, pure_bind]
  cases st.scheduler.push (.write ⟨key, wire, 0, .newData⟩) with
  | error e => rfl
  | ok scheduler =>
    dsimp only [Except.map]
    by_cases hmode : mode = .reliable
    · rw [if_pos hmode, if_pos hmode]
      show (st.recovery.layout.track (InFlightPacket.layout
        ⟨key, packetType, key.messageId, wire, 0, st.clock.nowMs, false⟩) >>= _) = _
      rw [htrack, pure_bind]
      cases st.recovery.track
        ⟨key, packetType, key.messageId, wire, 0, st.clock.nowMs, false⟩ with
      | error e => rfl
      | ok recovery => rfl
    · rw [if_neg hmode, if_neg hmode]
      rfl

/-- Encoded bytes that fit a wire buffer are stored as the encoder left them. -/
theorem store_layout {bytes : Bytes} (h : bytes.length ≤ maxWireBytes) :
    Machine.encoded (List.replicate maxWireBytes 0) bytes =
      ((WireBuffer.store bytes).layout, (WireBuffer.store bytes).bytes.length) := by
  rw [WireBuffer.layout, WireBuffer.store_bytes h]
  rfl

theorem sendFragment_layout (config : EngineConfig) (packetType : PacketType)
    (messageId : MessageId) {message : Bytes} {fragmentBytes offset : Nat} (mode : ReliabilityMode)
    (packetIndex : PacketIndex) (hlen : message.length ≤ maxMessageBytes)
    (hfragment : fragmentBytes ≤ maxWireBytes) (hoffset : offset ≤ message.length) :
    ((st.layout ingress).sendFragment config packetType messageId message fragmentBytes mode offset
        packetIndex : Checked t _) =
      pure ((st.sendFragment config packetType messageId message fragmentBytes mode offset
          packetIndex).1.layout ingress,
        (st.sendFragment config packetType messageId message fragmentBytes mode offset
          packetIndex).2) := by
  have hmax : maxMessageBytes = 256 := rfl
  have hwire : maxWireBytes = 128 := rfl
  unfold Machine.EngineState.sendFragment sendFragment
  rw [add_small (by omega), pure_bind]
  dsimp only
  rw [slice_eq ⟨by omega, by omega⟩, pure_bind]
  cases packetHeaderForFragment packetType packetIndex messageId message.length offset mode with
  | error e => rfl
  | ok header =>
    have hshort : ((message.take (min (offset + fragmentBytes) message.length)).drop offset).length ≤
        32767 := by rw [List.length_drop, List.length_take]; omega
    generalize (message.take (min (offset + fragmentBytes) message.length)).drop offset = fragment
      at hshort ⊢
    have hencode := Machine.encodeMessageFragment_eq (t := t) header hshort
      (List.replicate maxWireBytes 0) config.integrity
    rw [List.length_replicate] at hencode
    dsimp only [bind, Except.bind] at hencode ⊢
    cases henc : encodeMessageFragment header fragment maxWireBytes config.integrity with
    | error e =>
      rw [henc] at hencode
      rw [hencode]
      rfl
    | ok bytes =>
      obtain ⟨packet, rfl, -, hroom⟩ := encodeMessageFragment_eq_ok henc
      rw [← length_envelope] at hroom
      rw [henc] at hencode
      rw [hencode]
      show (st.layout ingress).queueFragment packetType mode ⟨messageId, packetIndex⟩
        (Machine.encoded (List.replicate maxWireBytes 0) (envelope config.integrity packet)).1
        (Machine.encoded (List.replicate maxWireBytes 0) (envelope config.integrity packet)).2 = _
      rw [store_layout hroom]
      exact st.queueFragment_layout ingress packetType mode ⟨messageId, packetIndex⟩ _

/-- The fragment loop ends: every round but the one of an empty message takes bytes off the rest. -/
theorem sendFragmentsLoop_layout (config : EngineConfig) (packetType : PacketType)
    (messageId : MessageId) {message : Bytes} {fragmentBytes : Nat} (mode : ReliabilityMode)
    (hlen : message.length ≤ maxMessageBytes) (hpos : 0 < fragmentBytes)
    (hfragment : fragmentBytes ≤ maxWireBytes) {fuel offset : Nat} (packetIndex : PacketIndex)
    (hoffset : offset ≤ message.length) (hfuel : message.length - offset < fuel) :
    (Machine.EngineState.sendFragmentsLoop config packetType messageId message fragmentBytes mode
        fuel offset packetIndex (st.layout ingress) : Checked t _) =
      pure ((sendFragmentsLoop config packetType messageId message fragmentBytes mode fuel offset
          packetIndex st).1.layout ingress,
        (sendFragmentsLoop config packetType messageId message fragmentBytes mode fuel offset
          packetIndex st).2) := by
  have hmax : maxMessageBytes = 256 := rfl
  have hwire : maxWireBytes = 128 := rfl
  induction fuel generalizing st offset packetIndex with
  | zero => omega
  | succ fuel ih =>
    unfold Machine.EngineState.sendFragmentsLoop sendFragmentsLoop
    by_cases hmore : offset < message.length ∨ (message.isEmpty ∧ offset = 0)
    · rw [if_pos hmore, if_pos hmore,
        st.sendFragment_layout ingress config packetType messageId mode packetIndex hlen hfragment
          hoffset, pure_bind]
      rcases st.sendFragment config packetType messageId message fragmentBytes mode offset
        packetIndex with ⟨st', e | ⟨⟩⟩
      · rfl
      · dsimp only
        cases hempty : message.isEmpty with
        | true => rfl
        | false =>
          have hlt : offset < message.length := by
            rcases hmore with h | ⟨h, -⟩
            · exact h
            · rw [hempty] at h
              cases h
          rw [if_neg (by simp), if_neg (by simp), add_small (by omega), pure_bind]
          exact ih st' (packetIndex + 1) (Nat.min_le_right _ _) (by omega)
    · rw [if_neg hmore, if_neg hmore]

theorem sendMessageFragments_layout (config : EngineConfig) (packetType : PacketType)
    (messageId : MessageId) (message : Bytes) {fragmentBytes : Nat} (mode : ReliabilityMode)
    (hpos : 0 < fragmentBytes) (hfragment : fragmentBytes ≤ maxWireBytes) :
    ((st.layout ingress).sendMessageFragments config packetType messageId message fragmentBytes mode
        : Checked t _) =
      pure ((st.sendMessageFragments config packetType messageId message fragmentBytes
          mode).1.layout ingress,
        (st.sendMessageFragments config packetType messageId message fragmentBytes mode).2) := by
  unfold Machine.EngineState.sendMessageFragments sendMessageFragments
  by_cases hlen : message.length > maxMessageBytes
  · rw [if_pos hlen, if_pos hlen]
  · rw [if_neg hlen, if_neg hlen]
    exact st.sendFragmentsLoop_layout ingress config packetType messageId mode (by omega) hpos
      hfragment 0 (Nat.zero_le _) (by omega)

/-- The longest fragment of a packet is a byte at least and fits a wire buffer. -/
theorem maxFragmentBytes_bounds {packetType : PacketType} {integrity : IntegrityConfig} {most : Nat}
    (h : maxFragmentBytes packetType integrity.tagLen = .ok most) :
    1 ≤ most ∧ most ≤ maxWireBytes := by
  have htag := integrity.tagLen_le
  unfold maxFragmentBytes at h
  cases packetType with
  | data =>
    cases h
    rw [maxWireBytes, wireHeaderLen_eq, dataPacketHeaderLen_eq]
    omega
  | log =>
    cases h
    rw [maxWireBytes, wireHeaderLen_eq, logPacketHeaderLen_eq]
    omega
  | ack => cases h
  | ping => cases h
  | pong => cases h

/-- **Sending any message succeeds**, whatever fragment size the configuration asks for. -/
theorem sendFragmentedMessage_layout (config : EngineConfig) (packetType : PacketType)
    {message : Bytes} (hlen : message.length ≤ t.isizeMax) :
    ((st.layout ingress).sendFragmentedMessage config packetType message : Checked t _) =
      pure ((st.sendFragmentedMessage config packetType message).1.layout ingress,
        (st.sendFragmentedMessage config packetType message).2) := by
  have hnumbers : (st.layout ingress).numbers = st.numbers := rfl
  unfold Machine.EngineState.sendFragmentedMessage sendFragmentedMessage
  rw [Machine.maxFragmentBytes_eq, pure_bind, hnumbers]
  cases hmost : maxFragmentBytes packetType config.integrity.tagLen with
  | error e => rfl
  | ok most =>
    obtain ⟨hone, hfits⟩ := maxFragmentBytes_bounds hmost
    dsimp only
    rw [clamp_eq hone, pure_bind]
    generalize hsize : min (max config.fragmentBytes 1) most = fragmentBytes
    rcases st.numbers.allocMessageId with ⟨numbers, messageId⟩
    dsimp only
    have hst : ({ st.layout ingress with numbers := numbers } : Machine.EngineState) =
        ({ st with numbers := numbers } : EngineState).layout ingress := rfl
    rw [hst]
    generalize ({ st with numbers := numbers } : EngineState) = st₁
    cases reliabilityMode packetType with
    | error e => rfl
    | ok mode =>
      dsimp only
      rw [st₁.ensureCanQueueMessage_layout ingress mode (by omega) hlen, pure_bind]
      cases st₁.ensureCanQueueMessage message.length fragmentBytes mode with
      | error e => rfl
      | ok u =>
        dsimp only
        rw [st₁.sendMessageFragments_layout ingress config packetType messageId message mode
          (by omega) (by omega), pure_bind]
        rcases st₁.sendMessageFragments config packetType messageId message fragmentBytes mode with
          ⟨st', e | ⟨⟩⟩
        · rfl
        · rfl

theorem queueLiveness_layout (config : EngineConfig) (packetType : PacketType)
    (priority : WritePriority) :
    ((st.layout ingress).queueLiveness config packetType priority : Checked t _) =
      pure ((st.queueLiveness config packetType priority).1.layout ingress,
        (st.queueLiveness config packetType priority).2) := by
  have hencode := Machine.encodeLivenessPacket_eq (t := t) packetType
    (List.replicate maxWireBytes 0) config.integrity
  have hroom : (envelope config.integrity [packetType.code]).length ≤ maxWireBytes := by
    have htag := config.integrity.tagLen_le
    rw [length_envelope, wireHeaderLen_eq, maxWireBytes, List.length_singleton]
    omega
  rw [List.length_replicate, encodeLivenessPacket_ok] at hencode
  unfold Machine.EngineState.queueLiveness queueLiveness
  rw [hencode, pure_bind, encodeLivenessPacket_ok]
  dsimp only [Except.map]
  rw [store_layout hroom]
  show (st.scheduler.layout.push (EngineOutput.write ⟨.zero, .store _, 0, priority⟩).layout >>= _) = _
  rw [SchedulerState.push_layout, pure_bind]
  cases st.scheduler.push (.write ⟨.zero, .store (envelope config.integrity [packetType.code]), 0,
    priority⟩) with
  | error e => rfl
  | ok scheduler => rfl

theorem sendData_layout (config : EngineConfig) {message : Bytes}
    (hlen : message.length ≤ t.isizeMax) :
    ((st.layout ingress).sendData config message : Checked t _) =
      pure ((st.sendData config message).1.layout ingress, (st.sendData config message).2) :=
  st.sendFragmentedMessage_layout ingress config .data hlen

theorem sendPing_layout (config : EngineConfig) :
    ((st.layout ingress).sendPing config : Checked t _) =
      pure ((st.sendPing config).1.layout ingress, (st.sendPing config).2) :=
  st.queueLiveness_layout ingress config .ping .newData

theorem queuePong_layout (config : EngineConfig) :
    ((st.layout ingress).queuePong config : Checked t _) =
      pure ((st.queuePong config).1.layout ingress, (st.queuePong config).2) :=
  st.queueLiveness_layout ingress config .pong .control

end

end EngineState

end Msrt
