import Msrt.IngressBounds
import Msrt.MachineSending
import Msrt.Receiving

/-! # Receiving on the machine

A packet the decoder accepts holds a fragment that lies in its message, so the copy into a reassembly
slot stays in range; the duplicate table writes inside of its cells as long as its next position does
(`PacketDedup.InRange`).  The receive loop ends because every round but the last takes bytes off what
the ingress buffer holds: no stream of bytes makes it fail.
-/

namespace Msrt
open Checked SlotTable
variable {t : Target}

namespace EngineState

section
variable (st : EngineState) (ingress : Machine.StreamingDecoder maxIngressBytes)

/-! ## One packet -/

theorem acknowledge_layout (ackEliciting : Bool) (key : PacketKey) :
    ((st.layout ingress).acknowledge ackEliciting key : Checked t _) =
      pure ((st.acknowledge ackEliciting key).map (·.layout ingress)) := by
  unfold Machine.EngineState.acknowledge acknowledge
  cases ackEliciting with
  | false => rfl
  | true =>
    rw [if_pos rfl, if_pos rfl]
    show (Machine.AckState.observe (AckState.layout st.ack) key >>= _) = _
    rw [AckState.observe_layout, pure_bind]
    cases AckState.observe st.ack key with
    | none => rfl
    | some ack => rfl

theorem reassemble_layout (packetType : PacketType) {fragment : MessageFragment}
    (hfits : fragment.fragmentOffset + fragment.bytes.length ≤ fragment.messageLen) :
    ((st.layout ingress).reassemble packetType fragment : Checked t _) =
      pure ((st.reassemble packetType fragment).1.layout ingress,
        (st.reassemble packetType fragment).2) := by
  unfold Machine.EngineState.reassemble reassemble
  show (st.reassembly.layout.observe fragment st.clock.nowMs >>= _) = _
  rw [st.reassembly.observe_layout st.clock.nowMs hfits, pure_bind]
  rcases st.reassembly.observe fragment st.clock.nowMs with ⟨reassembly, e | event⟩
  · rfl
  · cases event with
    | none => rfl
    | some event =>
      dsimp only
      show (Machine.MessageState.push (MessageState.layout st.message)
        { event with packetType := packetType } >>= _) = _
      rw [MessageState.push_layout, pure_bind]
      rfl

theorem receiveData_layout (hrange : st.receive.InRange) {fragment : MessageFragment}
    (hfits : fragment.fragmentOffset + fragment.bytes.length ≤ fragment.messageLen) :
    ((st.layout ingress).receiveData fragment : Checked t _) =
      pure ((st.receiveData fragment).1.layout ingress, (st.receiveData fragment).2) := by
  unfold Machine.EngineState.receiveData receiveData
  have hdup : (st.layout ingress).receive.isDuplicate fragment.key =
      st.receive.isDuplicate fragment.key := rfl
  rw [hdup]
  cases st.receive.isDuplicate fragment.key with
  | true =>
    rw [if_pos rfl, if_pos rfl, st.acknowledge_layout ingress, pure_bind]
    cases st.acknowledge fragment.ackEliciting fragment.key with
    | none => rfl
    | some st' => rfl
  | false =>
    rw [if_neg (by simp), if_neg (by simp), st.reassemble_layout ingress .data hfits, pure_bind]
    have hreceive : (st.reassemble .data fragment).1.receive = st.receive :=
      (reassemble_spec st .data fragment).2.1
    rcases hr : st.reassemble .data fragment with ⟨st₁, e | ⟨⟩⟩
    · rfl
    · rw [hr] at hreceive
      dsimp only at hreceive ⊢
      show (st₁.receive.layout.observePacket fragment.key >>= _) = _
      rw [PacketDedup.observePacket_layout (hreceive ▸ hrange) (by decide), pure_bind]
      rcases st₁.receive.observePacket fragment.key with ⟨receive, e | _ | _⟩
      · rfl
      · dsimp only
        have hst : ({ st₁.layout ingress with receive := receive.layout } : Machine.EngineState) =
            ({ st₁ with receive := receive } : EngineState).layout ingress := rfl
        rw [hst, acknowledge_layout, pure_bind]
        cases ({ st₁ with receive := receive } : EngineState).acknowledge fragment.ackEliciting
          fragment.key with
        | none => rfl
        | some st₂ => rfl
      · rfl

theorem receiveLog_layout {fragment : MessageFragment}
    (hfits : fragment.fragmentOffset + fragment.bytes.length ≤ fragment.messageLen) :
    ((st.layout ingress).receiveLog fragment : Checked t _) =
      pure ((st.receiveLog fragment).1.layout ingress, (st.receiveLog fragment).2) := by
  unfold Machine.EngineState.receiveLog receiveLog
  rw [st.reassemble_layout ingress .log hfits, pure_bind]
  rcases st.reassemble .log fragment with ⟨st', e | ⟨⟩⟩
  · rfl
  · rfl

theorem receiveCompletePacket_layout (config : EngineConfig) (hrange : st.receive.InRange)
    {packet : Bytes} (hlen : packet.length ≤ maxWireBytes) :
    ((st.layout ingress).receiveCompletePacket config (.ofBytes packet) : Checked t _) =
      pure ((st.receiveCompletePacket config packet).1.layout ingress,
        (st.receiveCompletePacket config packet).2) := by
  unfold Machine.EngineState.receiveCompletePacket receiveCompletePacket
  rw [Machine.PacketBytes.decode_ofBytes hlen, pure_bind]
  cases hdec : decodePacketBytes packet with
  | data header fragment =>
    exact st.receiveData_layout ingress hrange (decodePacketBytes_fits (.inl ⟨header, hdec⟩))
  | log header fragment =>
    exact st.receiveLog_layout ingress (decodePacketBytes_fits (.inr ⟨header, hdec⟩))
  | ack key =>
    show pure (({ st.layout ingress with recovery := st.recovery.layout.applyAck key } :
      Machine.EngineState), ReceiveReport.ack key.packetIndex) = _
    rw [RecoveryState.applyAck_layout]
    rfl
  | ping =>
    dsimp only
    rw [st.queuePong_layout ingress config, pure_bind]
    rcases st.queuePong config with ⟨st', e | ⟨⟩⟩
    · rfl
    · rfl
  | pong => rfl
  | malformed => rfl

end

/-- Every call leaves the next position of the duplicate table inside of it. -/
theorem inRange_after (config : EngineConfig) (call : Call) (h : call.before.receive.InRange) :
    (call.after config).receive.InRange := by
  cases call.receiveStep config with
  | untouched _ hreceive => exact hreceive ▸ h
  | poll nowMs txLen _ _ hreceive => exact hreceive ▸ h
  | duplicate key _ _ hreceive => exact hreceive ▸ h
  | observed fragment _ _ _ _ _ hreceive => exact hreceive ▸ h
  | accepted fragment _ _ _ _ _ _ hreceive => exact hreceive ▸ h.observePacket fragment.key

/-! ## The receive loop -/

/-- **The receive loop succeeds and ends** on every stream of bytes. -/
theorem receiveLoop_layout (config : EngineConfig) {fuel : Nat} {st : EngineState}
    {m : Machine.StreamingDecoder maxIngressBytes} {input : Bytes} (report : ReceiveReport)
    (hrange : st.receive.InRange) (hstores : m.Stores st.ingress)
    (hinput : input.length ≤ t.isizeMax)
    (hfuel : st.ingress.rest.length + input.length < fuel) :
    ∃ m', (Machine.EngineState.receiveLoop config fuel (st.layout m) input report : Checked t _) =
        pure ((receiveLoop config fuel st input report).1.layout m',
          (receiveLoop config fuel st input report).2) ∧
      m'.Stores (receiveLoop config fuel st input report).1.ingress := by
  induction fuel generalizing st m input report with
  | zero => omega
  | succ fuel ih =>
    obtain ⟨m₁, hfed, hstores₁⟩ := hstores.feed (t := t) config.integrity (by decide) hinput
    have hless := fun outcome => @StreamingDecoder.rest_feed_lt _ st.ingress config.integrity input outcome
    have hempty : ([] : Bytes).length ≤ t.isizeMax := Nat.zero_le _
    unfold Machine.EngineState.receiveLoop receiveLoop
    show ∃ m', (m.feed input config.integrity >>= _) = _ ∧ _
    rw [hfed, pure_bind]
    generalize st.ingress.feed input config.integrity = fed at hstores₁ hless ⊢
    rcases fed with ⟨d, result⟩
    dsimp only at hstores₁ hless ⊢
    have hst : ({ st.layout m with ingress := m₁ } : Machine.EngineState) =
        ({ st with ingress := d } : EngineState).layout m₁ := rfl
    rw [hst]
    -- the rounds that go on do so on the bytes that are left
    have hnext : ∀ (report : ReceiveReport) (outcome : StreamDecodeOutcome), result = .ok outcome →
        (∀ needed, outcome ≠ .needMore needed) → ∀ st' : EngineState, st'.receive.InRange →
        st'.ingress = d → ∃ m', (Machine.EngineState.receiveLoop config fuel (st'.layout m₁) []
            report : Checked t _) =
          pure ((receiveLoop config fuel st' [] report).1.layout m',
            (receiveLoop config fuel st' [] report).2) ∧
          m'.Stores (receiveLoop config fuel st' [] report).1.ingress := by
      intro report outcome hok hw st' hrange' hingress
      have hlt := hless outcome hok hw
      apply ih report hrange' (hingress ▸ hstores₁) hempty
      rw [hingress, List.length_nil]
      omega
    cases result with
    | error e => exact ⟨m₁, rfl, hstores₁⟩
    | ok outcome =>
      cases outcome with
      | needMore needed => exact ⟨m₁, rfl, hstores₁⟩
      | noise skipped => exact hnext _ _ rfl (by simp) { st with ingress := d } hrange rfl
      | corrupted consumed => exact hnext _ _ rfl (by simp) { st with ingress := d } hrange rfl
      | resync skipped => exact hnext _ _ rfl (by simp) { st with ingress := d } hrange rfl
      | packet packetBytes consumed =>
        dsimp only
        rw [Machine.PacketBytes.tryFromSlice_eq, pure_bind]
        cases hslice : packetBytesTryFromSlice packetBytes with
        | error e => exact ⟨m₁, rfl, hstores₁⟩
        | ok packet =>
          dsimp only [Except.map]
          have hlen := (packetBytesTryFromSlice_eq_ok hslice).2
          rw [receiveCompletePacket_layout { st with ingress := d } m₁ config hrange hlen, pure_bind]
          have hrange' : (({ st with ingress := d } : EngineState).receiveCompletePacket config
              packet).1.receive.InRange :=
            inRange_after config ⟨{ st with ingress := d }, .packet packet⟩ hrange
          have hingress := ingress_receiveCompletePacket { st with ingress := d } config packet
          generalize ({ st with ingress := d } : EngineState).receiveCompletePacket config packet =
            handled at hrange' hingress ⊢
          cases handled.2.isError with
          | true => exact ⟨m₁, rfl, hingress ▸ hstores₁⟩
          | false =>
            exact hnext _ (.packet packetBytes consumed) rfl (by simp) handled.1 hrange' hingress

/-- **Receiving any bytes succeeds.** -/
theorem receiveBytes_layout (config : EngineConfig) {st : EngineState}
    {m : Machine.StreamingDecoder maxIngressBytes} {bytes : Bytes}
    (hrange : st.receive.InRange) (hstores : m.Stores st.ingress)
    (hbytes : bytes.length ≤ t.isizeMax) :
    ∃ m', ((st.layout m).receiveBytes config bytes : Checked t _) =
        pure ((st.receiveBytes config bytes).1.layout m', (st.receiveBytes config bytes).2) ∧
      m'.Stores (st.receiveBytes config bytes).1.ingress := by
  have hrest : (st.layout m).ingress.len - (st.layout m).ingress.pendingConsume =
      st.ingress.rest.length := by
    obtain ⟨stale, -, rfl⟩ := hstores
    rw [StreamingDecoder.rest, List.length_drop]
    rfl
  unfold Machine.EngineState.receiveBytes receiveBytes
  rw [hrest]
  exact receiveLoop_layout config _ hrange hstores hbytes (by omega)

end EngineState

end Msrt
