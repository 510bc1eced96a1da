import Msrt.MachineSending

/-! # Polling on the machine

The tick fills three arrays of sixteen cells from a table of sixteen packets.  Their counts stay in
range because each write is guarded by the length of one of them, and the third grows with the second
(`TickScan.Fits`).  The action of a poll then copies a queued packet, or encodes an acknowledgement,
into a transmit buffer of any length.
-/

namespace Msrt
open Checked SlotTable
variable {t : Target}

namespace EngineState

/-! ## The scan of the tick -/

/-- An array of sixteen cells with the given entries at its start. -/
def cells {α : Type} (items : List α) : List (Option α) :=
  fill (List.replicate maxInFlightPackets none) (items.map some)

section
variable {α : Type} (items : List α)

theorem length_cells (h : items.length ≤ maxInFlightPackets) :
    (cells items).length = maxInFlightPackets := by
  rw [cells, length_fill (by rw [List.length_map, List.length_replicate]; exact h),
    List.length_replicate]

/-- The used part of an array, read back. -/
theorem slice_cells (h : items.length ≤ maxInFlightPackets) :
    (slice (cells items) 0 items.length : Checked t _) = pure (items.map some) := by
  have hslice := @slice_fill_start t _ (List.replicate maxInFlightPackets none) (items.map some)
    (by rw [List.length_map, List.length_replicate]; exact h)
  rwa [List.length_map] at hslice

theorem set_cells (x : α) (h : items.length < maxInFlightPackets) :
    (set (cells items) items.length (some x) : Checked t _) = pure (cells (items ++ [x])) := by
  rw [cells, set_fill (List.length_map _) (by rw [List.length_replicate]; exact h), cells,
    List.map_append]
  rfl

theorem entries_map_some : entries (items.map some) = items := by
  rw [entries, List.filterMap_map]
  exact List.filterMap_some

end

/-- The arrays a scan has filled. -/
def TickScan.layout (scan : TickScan) : Machine.EngineState.TickScan where
  retransmits := cells (scan.retransmits.map InFlightPacket.layout)
  retransmitLen := scan.retransmits.length
  failures := cells (scan.failures.map InFlightPacket.layout)
  failureLen := scan.failures.length
  failedMessages := cells scan.failedMessages
  failedMessageLen := scan.failedMessages.length

/-- The collected entries fit the arrays. -/
structure TickScan.Fits (scan : TickScan) : Prop where
  retransmits : scan.retransmits.length ≤ maxInFlightPackets
  failures : scan.failures.length ≤ maxInFlightPackets
  failedMessages : scan.failedMessages.length = scan.failures.length

theorem TickScan.fits_new : TickScan.new.Fits := ⟨Nat.zero_le _, Nat.zero_le _, rfl⟩

theorem TickScan.Fits.visit {scan : TickScan} (h : scan.Fits) (config : EngineConfig) (nowMs : Nat)
    (packet : InFlightPacket) : (scan.visit config nowMs packet).Fits := by
  unfold TickScan.visit
  split
  · exact h
  · split
    · split
      · rename_i hroom
        have hlt : scan.failures.length < maxInFlightPackets := by simp at hroom; exact hroom.2
        refine ⟨h.retransmits, ?_, ?_⟩
        · rw [List.length_append, List.length_singleton]
          exact hlt
        · rw [List.length_append, List.length_append, h.failedMessages]
          rfl
      · exact h
    · split
      · rename_i hlt
        refine ⟨?_, h.failures, h.failedMessages⟩
        rw [List.length_append, List.length_singleton]
        exact hlt
      · exact h

theorem TickScan.fits_foldl (config : EngineConfig) (nowMs : Nat) (packets : List InFlightPacket)
    {scan : TickScan} (h : scan.Fits) :
    (packets.foldl (TickScan.visit config nowMs) scan).Fits := by
  induction packets generalizing scan with
  | nil => exact h
  | cons packet packets ih => exact ih (h.visit config nowMs packet)

theorem messageFailed_layout {failedMessages : List (PacketType × MessageId)}
    (h : failedMessages.length ≤ maxInFlightPackets) (packet : InFlightPacket) :
    (Machine.EngineState.messageFailed (cells failedMessages) failedMessages.length packet.layout :
        Checked t Bool) =
      pure (failedMessages.contains (packet.packetType, packet.messageId)) := by
  unfold Machine.EngineState.messageFailed
  rw [slice_cells _ h, pure_bind, entries_map_some]
  rfl

theorem TickScan.visit_layout {scan : TickScan} (h : scan.Fits) (config : EngineConfig)
    (nowMs : Nat) (packet : InFlightPacket) :
    (scan.layout.visit config nowMs packet.layout : Checked t _) =
      pure (scan.visit config nowMs packet).layout := by
  have hmax : maxInFlightPackets = 16 := rfl
  have hmessages := h.failedMessages
  have hretransmits := h.retransmits
  have hfailures := h.failures
  have hdue : Machine.EngineState.retransmitDue config nowMs packet.layout =
      retransmitDue config nowMs packet := rfl
  unfold Machine.EngineState.TickScan.visit TickScan.visit
  rw [hdue]
  by_cases hquiet : (!retransmitDue config nowMs packet) = true
  · rw [if_pos hquiet, if_pos hquiet]
  rw [if_neg hquiet, if_neg hquiet]
  -- the two arrays grow in different branches: failures at the limit, retransmits below it
  by_cases hlimit : packet.attempts ≥ config.maxRetransmitAttempts
  · have hlimit' : packet.layout.attempts ≥ config.maxRetransmitAttempts := hlimit
    have hroom : scan.layout.failures.length = maxInFlightPackets :=
      length_cells _ (by rw [List.length_map]; exact hfailures)
    have hfailed := messageFailed_layout (t := t) (Nat.le_trans (Nat.le_of_eq hmessages) hfailures)
      packet
    rw [if_pos hlimit, if_pos hlimit', hroom]
    show (Machine.EngineState.messageFailed (cells scan.failedMessages) scan.failedMessages.length
      packet.layout >>= _) = _
    rw [hfailed, pure_bind]
    by_cases hfresh : (!scan.failedMessages.contains (packet.packetType, packet.messageId) &&
        decide (scan.failures.length < maxInFlightPackets)) = true
    · have hlt : scan.failures.length < maxInFlightPackets := by simp at hfresh; exact hfresh.2
      have hfailure := set_cells (t := t) (scan.failures.map InFlightPacket.layout)
        packet.layout (by rw [List.length_map]; exact hlt)
      rw [List.length_map] at hfailure
      rw [if_pos hfresh]
      show (if (!scan.failedMessages.contains (packet.packetType, packet.messageId) &&
        decide (scan.failures.length < maxInFlightPackets)) = true then _ else _) = _
      rw [if_pos hfresh]
      show (set (cells (scan.failures.map InFlightPacket.layout)) scan.failures.length
        (some packet.layout) >>= _) = _
      rw [hfailure, pure_bind, add_small (by show scan.failures.length + 1 ≤ _; omega), pure_bind]
      show (set (cells scan.failedMessages) scan.failedMessages.length
        (some (packet.packetType, packet.messageId)) >>= _) = _
      rw [set_cells _ _ (by omega), pure_bind,
        add_small (by show scan.failedMessages.length + 1 ≤ _; omega), pure_bind]
      simp [TickScan.layout]
    · rw [if_neg hfresh]
      exact if_neg hfresh
  · have hlimit' : ¬ packet.layout.attempts ≥ config.maxRetransmitAttempts := hlimit
    have hroom : scan.layout.retransmits.length = maxInFlightPackets :=
      length_cells _ (by rw [List.length_map]; exact hretransmits)
    rw [if_neg hlimit, if_neg hlimit', hroom]
    by_cases hlt : scan.retransmits.length < maxInFlightPackets
    · have hset := set_cells (t := t) (scan.retransmits.map InFlightPacket.layout)
        packet.layout (by rw [List.length_map]; exact hlt)
      rw [List.length_map] at hset
      rw [if_pos hlt]
      show (if scan.retransmits.length < maxInFlightPackets then _ else _) = _
      rw [if_pos hlt]
      show (set (cells (scan.retransmits.map InFlightPacket.layout)) scan.retransmits.length
        (some packet.layout) >>= _) = _
      rw [hset, pure_bind, add_small (by show scan.retransmits.length + 1 ≤ _; omega), pure_bind]
      simp [TickScan.layout]
    · rw [if_neg hlt]
      exact if_neg hlt

/-- An encoded acknowledgement fits the buffer it was encoded for. -/
theorem encodeAckPacket_fits {key : PacketKey} {outLen : Nat} {integrity : IntegrityConfig}
    {bytes : Bytes} (h : encodeAckPacket key outLen integrity = .ok bytes) :
    bytes.length ≤ outLen := by
  rw [encodeAckPacket_eq_ok h, length_envelope, length_ackPacketBytes]
  unfold encodeAckPacket at h
  split at h
  · cases h
  · rename_i hroom
    simp only [EnvelopeHeader.totalLen, EnvelopeHeader.new, UInt8.toNat_ofNat',
      ackPacketHeaderLen_eq] at hroom
    rw [ackPacketHeaderLen_eq]
    omega

/-! ## The tick -/

section
variable (st : EngineState) (ingress : Machine.StreamingDecoder maxIngressBytes)

theorem failMessage_layout (packet : InFlightPacket) :
    ((st.layout ingress).failMessage packet.layout : Checked t _) =
      pure ((st.failMessage packet).layout ingress) := by
  unfold Machine.EngineState.failMessage
  show (st.scheduler.layout.pushIgnored (EngineOutput.sendFailed
    ⟨packet.packetType, packet.messageId, .retryLimitReached⟩).layout >>= _) = _
  rw [SchedulerState.pushIgnored_layout, pure_bind]
  show pure ({ st.layout ingress with
    recovery := st.recovery.layout.removeMessage packet.packetType packet.messageId
    scheduler := _ } : Machine.EngineState) = _
  rw [RecoveryState.removeMessage_layout]
  rfl

theorem queueRetransmit_layout {failedMessages : List (PacketType × MessageId)}
    (h : failedMessages.length ≤ maxInFlightPackets) (packet : InFlightPacket) :
    (Machine.EngineState.queueRetransmit (cells failedMessages) failedMessages.length
        (st.layout ingress) packet.layout : Checked t _) =
      pure ((st.queueRetransmit failedMessages packet).layout ingress) := by
  unfold Machine.EngineState.queueRetransmit queueRetransmit
  rw [messageFailed_layout h, pure_bind]
  by_cases hfailed : failedMessages.contains (packet.packetType, packet.messageId) = true
  · rw [if_pos hfailed, if_pos hfailed]
  · rw [if_neg hfailed, if_neg hfailed]
    show (st.scheduler.layout.pushIgnored (EngineOutput.write
      ⟨packet.key, packet.wire, saturatingSucc packet.attempts, .retransmit⟩).layout >>= _) = _
    rw [SchedulerState.pushIgnored_layout, pure_bind]
    rfl

theorem tickInFlight_layout (config : EngineConfig) (nowMs : Nat) {scan : TickScan}
    (hscan : st.recovery.packets.foldl (TickScan.visit config nowMs) .new = scan) :
    ((st.layout ingress).tickInFlight config nowMs : Checked t _) =
      pure ((scan.retransmits.foldl (queueRetransmit scan.failedMessages)
        (scan.failures.foldl failMessage st)).layout ingress) := by
  have hfits : scan.Fits := hscan ▸ TickScan.fits_foldl config nowMs _ TickScan.fits_new
  have hfilled : (st.recovery.layout.packets.foldlM
      (Machine.EngineState.TickScan.visit config nowMs) .new : Checked t _) = pure scan.layout := by
    rw [← hscan, RecoveryState.packets_layout]
    exact foldlM_eq (f := TickScan.layout) (g := TickScan.visit config nowMs) (I := TickScan.Fits)
      (fun scan packet h => TickScan.visit_layout h config nowMs packet)
      (fun scan packet h => h.visit config nowMs packet) _ TickScan.fits_new
  have hfailures := slice_cells (t := t) (scan.failures.map InFlightPacket.layout)
    (by rw [List.length_map]; exact hfits.failures)
  have hretransmits := slice_cells (t := t) (scan.retransmits.map InFlightPacket.layout)
    (by rw [List.length_map]; exact hfits.retransmits)
  rw [List.length_map] at hfailures hretransmits
  unfold Machine.EngineState.tickInFlight
  show (st.recovery.layout.packets.foldlM (Machine.EngineState.TickScan.visit config nowMs) .new
    >>= _) = _
  rw [hfilled, pure_bind]
  show (slice (cells (scan.failures.map InFlightPacket.layout)) 0 scan.failures.length >>= _) = _
  rw [hfailures, pure_bind, entries_map_some,
    foldlM_eq (f := (EngineState.layout · ingress)) (g := failMessage) (I := fun _ => True)
      (fun st packet _ => st.failMessage_layout ingress packet) (fun _ _ _ => trivial) _ trivial,
    pure_bind]
  show (slice (cells (scan.retransmits.map InFlightPacket.layout)) 0 scan.retransmits.length >>= _)
    = _
  rw [hretransmits, pure_bind, entries_map_some]
  exact foldlM_eq (f := (EngineState.layout · ingress)) (g := queueRetransmit scan.failedMessages)
    (I := fun _ => True)
    (fun st packet _ => st.queueRetransmit_layout ingress
      (Nat.le_trans (Nat.le_of_eq hfits.failedMessages) hfits.failures) packet)
    (fun _ _ _ => trivial) _ trivial

theorem advanceClock_layout (config : EngineConfig) (nowMs : Nat) :
    (st.layout ingress).advanceClock config nowMs =
      (st.advanceClock config nowMs).layout ingress := by
  have hexpire := st.reassembly.expire_layout nowMs config.reassemblyTimeoutMs
  unfold Machine.EngineState.advanceClock
  show ({ st.layout ingress with
    clock := ⟨nowMs⟩
    reassembly := st.reassembly.layout.expire nowMs config.reassemblyTimeoutMs } :
      Machine.EngineState) = _
  rw [hexpire]
  rfl

theorem tickRetransmit_layout (config : EngineConfig) (nowMs : Nat) :
    ((st.layout ingress).tickRetransmit config nowMs : Checked t _) =
      pure ((st.tickRetransmit config nowMs).layout ingress) := by
  unfold Machine.EngineState.tickRetransmit tickRetransmit
  rw [advanceClock_layout]
  generalize st.advanceClock config nowMs = st₁
  have hticked : (st₁.layout ingress).recovery.shouldTick nowMs =
      ((st₁.recovery.shouldTick nowMs).1.layout, (st₁.recovery.shouldTick nowMs).2) :=
    st₁.recovery.shouldTick_layout nowMs
  dsimp only
  rw [hticked]
  rcases st₁.recovery.shouldTick nowMs with ⟨recovery, ticks⟩
  cases ticks with
  | false => rfl
  | true => exact ({ st₁ with recovery } : EngineState).tickInFlight_layout ingress config nowMs rfl

/-! ## The action of a poll -/

theorem pollPendingAck_layout (config : EngineConfig) (txBuf : Bytes) :
    ((st.layout ingress).pollPendingAck config txBuf : Checked t _) =
      pure ((st.pollPendingAck config txBuf.length).1.layout ingress,
        (st.pollPendingAck config txBuf.length).2) := by
  unfold Machine.EngineState.pollPendingAck pollPendingAck
  show (Machine.AckState.pop (AckState.layout st.ack) >>= _) = _
  rw [AckState.pop_layout, pure_bind]
  rcases AckState.pop st.ack with ⟨key?, ack⟩
  cases key? with
  | none => rfl
  | some key =>
    dsimp only
    rw [Machine.encodeAckPacket_eq, pure_bind]
    cases hencode : encodeAckPacket key txBuf.length config.integrity with
    | error e => rfl
    | ok bytes =>
      dsimp only [Except.map, Machine.encoded]
      rw [slice_fill_start (encodeAckPacket_fits hencode), pure_bind]
      rfl

theorem pollWrite_layout (event : WriteEvent) (nowMs : Nat) (txBuf : Bytes) :
    ((st.layout ingress).pollWrite event.layout nowMs txBuf : Checked t _) =
      pure ((st.pollWrite event nowMs txBuf.length).1.layout ingress,
        (st.pollWrite event nowMs txBuf.length).2) := by
  have hlen : event.layout.len = event.wire.bytes.length := rfl
  unfold Machine.EngineState.pollWrite pollWrite
  rw [hlen]
  by_cases hsmall : txBuf.length < event.wire.bytes.length
  · rw [if_pos hsmall, if_pos hsmall]
  · rw [if_neg hsmall, if_neg hsmall, WriteEvent.asBytes_layout, pure_bind,
      write_start rfl (by omega), pure_bind, slice_fill_start (by omega), pure_bind]
    have hpriority : event.layout.priority = event.priority := rfl
    have hsent : (st.layout ingress).recovery.noteSent event.layout.key nowMs =
        (st.recovery.noteSent event.key nowMs).layout := RecoveryState.noteSent_layout ..
    have hresent : (st.layout ingress).recovery.noteRetransmitSent event.layout.key nowMs =
        (st.recovery.noteRetransmitSent event.key nowMs).layout :=
      RecoveryState.noteRetransmitSent_layout ..
    rw [hpriority, hsent, hresent]
    cases event.priority with
    | control => rfl
    | retransmit => rfl
    | newData => rfl

theorem pollEvent_layout (event : EngineOutput) (nowMs : Nat) (txBuf : Bytes) :
    ((st.layout ingress).pollEvent event.layout nowMs txBuf : Checked t _) =
      pure ((st.pollEvent event nowMs txBuf.length).1.layout ingress,
        (st.pollEvent event nowMs txBuf.length).2) := by
  cases event with
  | write w => exact st.pollWrite_layout ingress w nowMs txBuf
  | sendFailed failed => rfl

theorem pollNewData_layout (nowMs : Nat) (txBuf : Bytes) :
    ((st.layout ingress).pollNewData nowMs txBuf : Checked t _) =
      pure ((st.pollNewData nowMs txBuf.length).1.layout ingress,
        (st.pollNewData nowMs txBuf.length).2) := by
  unfold Machine.EngineState.pollNewData pollNewData
  show (st.scheduler.layout.popNewData >>= _) = _
  rw [SchedulerState.popNewData_layout, pure_bind]
  have hst : ({ st.layout ingress with scheduler := st.scheduler.popNewData.layout } :
      Machine.EngineState) =
        ({ st with scheduler := st.scheduler.popNewData } : EngineState).layout ingress := rfl
  dsimp only
  rw [hst]
  cases st.scheduler.newData.pop.1 with
  | none => rfl
  | some event => exact pollEvent_layout _ ingress event nowMs txBuf

theorem pollOutput_layout (config : EngineConfig) (nowMs : Nat) (txBuf : Bytes) :
    ((st.layout ingress).pollOutput config nowMs txBuf : Checked t _) =
      pure ((st.pollOutput config nowMs txBuf.length).1.layout ingress,
        (st.pollOutput config nowMs txBuf.length).2) := by
  have hpending : Machine.AckState.isPending (st.layout ingress).ack =
      AckState.isPending st.ack := rfl
  unfold Machine.EngineState.pollOutput pollOutput
  rw [hpending]
  cases AckState.isPending st.ack with
  | true => exact st.pollPendingAck_layout ingress config txBuf
  | false =>
    rw [if_neg (by simp), if_neg (by simp)]
    show (st.scheduler.layout.popUrgent >>= _) = _
    rw [SchedulerState.popUrgent_layout, pure_bind]
    rcases st.scheduler.popUrgent with ⟨urgent, scheduler⟩
    dsimp only
    have hst : ({ st.layout ingress with scheduler := scheduler.layout } : Machine.EngineState) =
        ({ st with scheduler := scheduler } : EngineState).layout ingress := rfl
    rw [hst]
    cases urgent with
    | some event => exact pollEvent_layout _ ingress event nowMs txBuf
    | none =>
      dsimp only [Option.map_none]
      show (Machine.MessageState.pop (MessageState.layout st.message) >>= _) = _
      rw [MessageState.pop_layout, pure_bind]
      rcases MessageState.pop st.message with ⟨delivered, message⟩
      cases delivered with
      | some event => rfl
      | none =>
        exact ({ st with scheduler, message } : EngineState).pollNewData_layout ingress nowMs txBuf

/-- **Polling succeeds** at any time and with a transmit buffer of any length. -/
theorem poll_layout (config : EngineConfig) (nowMs : Nat) (txBuf : Bytes) :
    ((st.layout ingress).poll config nowMs txBuf : Checked t _) =
      pure ((st.poll config nowMs txBuf.length).1.layout ingress,
        (st.poll config nowMs txBuf.length).2) := by
  unfold Machine.EngineState.poll
  rw [st.tickRetransmit_layout ingress config nowMs, pure_bind]
  exact pollOutput_layout _ ingress config nowMs txBuf

end

end EngineState

end Msrt
