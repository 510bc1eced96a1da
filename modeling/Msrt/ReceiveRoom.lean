import Msrt.Connection
import Msrt.PeerLink

/-! # What a receive needs room for

A receive drains the whole chunk before anything is polled: every DATA packet in it leaves an
acknowledgement in a queue of sixteen, new or not, and a PING leaves a PONG in the scheduler.  With
room for these no packet of the other peer is an error (`receiveCompletePacket_room`), so a session
survives the receive (`receive_survives`); a burst of copies of one envelope is enough to drop it.
-/

namespace Msrt
open EngineState

/-! ## Packets -/

/-- Whether the packet decodes as DATA. -/
def isDataPacket (packet : Bytes) : Bool :=
  match decodePacketBytes packet with
  | .data _ _ => true
  | _ => false

/-- Whether the packet decodes as a PING. -/
def isPingPacket (packet : Bytes) : Bool :=
  match decodePacketBytes packet with
  | .ping => true
  | _ => false

/-- There is room for the acknowledgements of the packets, and for a PONG if one is a PING. -/
structure HasReceiveRoom (st : EngineState) (packets : List Bytes) : Prop where
  acks : RingQueue.len st.ack + packets.countP isDataPacket ≤ maxPendingAcks
  pong : (∃ p ∈ packets, isPingPacket p = true) → ¬ st.scheduler.RefusesLiveness

section Packet
variable {config : EngineConfig}

theorem acknowledge_of_lt {st : EngineState} (h : RingQueue.len st.ack < maxPendingAcks)
    (ackEliciting : Bool) (key : PacketKey) :
    ∃ st', st.acknowledge ackEliciting key = some st' := by
  unfold acknowledge
  split
  · rw [AckState.observe, dif_neg (Nat.ne_of_lt h)]
    exact ⟨_, rfl⟩
  · exact ⟨st, rfl⟩

theorem isError_receiveData {st : EngineState} (h : RingQueue.len st.ack < maxPendingAcks)
    (fragment : MessageFragment) : (st.receiveData fragment).2.isError = false := by
  unfold receiveData
  split
  · obtain ⟨st', hack⟩ := acknowledge_of_lt h fragment.ackEliciting fragment.key
    rw [hack]
    rfl
  · rename_i hdup
    have hfresh : st.receive.isDuplicate fragment.key = false := by simpa using hdup
    obtain ⟨-, hreceive, hacks, -⟩ := reassemble_spec st .data fragment
    rcases hr : st.reassemble .data fragment with ⟨st₁, _ | _⟩
    · rfl
    · rw [hr] at hreceive hacks
      dsimp only at hreceive hacks ⊢
      obtain ⟨-, -, hacc⟩ := PacketDedup.observePacket_fresh (by decide) hfresh
      rw [← hreceive] at hacc
      rw [hacc]
      dsimp only
      obtain ⟨st', hack⟩ := acknowledge_of_lt
        (show RingQueue.len { st₁ with receive := (st₁.receive.observePacket fragment.key).1 }.ack <
          maxPendingAcks by rw [hacks]; exact h) fragment.ackEliciting fragment.key
      rw [hack]
      rfl

/-- A DATA packet queues at most one acknowledgement and nothing in the scheduler. -/
theorem receiveData_load (st : EngineState) (fragment : MessageFragment) :
    RingQueue.len (st.receiveData fragment).1.ack ≤ RingQueue.len st.ack + 1 ∧
      (st.receiveData fragment).1.scheduler = st.scheduler := by
  have hlen {st' : EngineState} (h : st'.ack = st.ack ∨
      RingQueue.toList st'.ack = RingQueue.toList st.ack ++ [fragment.key]) :
      RingQueue.len st'.ack ≤ RingQueue.len st.ack + 1 := by
    rcases h with h | h
    · rw [h]
      exact Nat.le_succ _
    · have := congrArg List.length h
      rw [List.length_append, RingQueue.length_toList, RingQueue.length_toList] at this
      exact Nat.le_of_eq this
  cases receiveData_spec st fragment with
  | duplicate _ hframe _ _ _ hack => exact ⟨hlen hack, hframe.scheduler⟩
  | refused _ _ hspec _ hack => exact ⟨hlen (.inl hack), hspec.frame.scheduler⟩
  | accepted _ _ hspec _ hack => exact ⟨hlen hack, hspec.frame.scheduler⟩

theorem isError_receiveLog (st : EngineState) (fragment : MessageFragment) :
    (st.receiveLog fragment).2.isError = false := by
  unfold receiveLog
  rcases st.reassemble .log fragment with ⟨st₁, _ | _⟩ <;> rfl

/-- A queued PONG leaves room for the next one. -/
theorem not_refuses_of_queueLiveness {st : EngineState} {packetType : PacketType}
    {priority : WritePriority}
    (hok : (st.queueLiveness config packetType priority).2.isOk = true) :
    ¬ (st.queueLiveness config packetType priority).1.scheduler.RefusesLiveness := by
  unfold queueLiveness at hok ⊢
  rw [encodeLivenessPacket_ok] at hok ⊢
  dsimp only at hok ⊢
  split at hok
  · cases hok
  · rename_i scheduler hpush
    rintro ⟨-, hnone⟩
    refine hnone ⟨.zero, .store (envelope config.integrity [packetType.code]), 0, priority⟩ ?_ rfl
    cases SchedulerState.push_eq_ok hpush with
    | replaced write old rest hw _ _ hq =>
      rw [hq, ← hw]
      exact Multiset.mem_cons_self _ _
    | added _ _ hq =>
      rw [hq]
      exact Multiset.mem_cons_self _ _

variable (config) in
/-- **A packet that finds room is no error, and leaves the room of the packets behind it.** -/
theorem receiveCompletePacket_room {st : EngineState} {packet : Bytes} {packets : List Bytes}
    (h : HasReceiveRoom st (packet :: packets)) :
    (st.receiveCompletePacket config packet).2.isError = false ∧
      HasReceiveRoom (st.receiveCompletePacket config packet).1 packets := by
  obtain ⟨hacks, hpong⟩ := h
  rw [List.countP_cons] at hacks
  have hrest : (∃ p ∈ packets, isPingPacket p = true) → ¬ st.scheduler.RefusesLiveness :=
    fun ⟨p, hp, hping⟩ => hpong ⟨p, List.mem_cons_of_mem _ hp, hping⟩
  unfold receiveCompletePacket
  cases hdec : decodePacketBytes packet with
  | data header fragment =>
    have hdata : isDataPacket packet = true := by simp [isDataPacket, hdec]
    rw [if_pos hdata] at hacks
    obtain ⟨hlen, hscheduler⟩ := receiveData_load st fragment
    dsimp only
    refine ⟨isError_receiveData (by omega) fragment, by omega, ?_⟩
    rw [hscheduler]
    exact hrest
  | log header fragment =>
    obtain ⟨hspec, -, hack⟩ := receiveLog_spec st fragment
    dsimp only
    refine ⟨isError_receiveLog st fragment, ?_, ?_⟩
    · rw [hack]
      omega
    · rw [hspec.frame.scheduler]
      exact hrest
  | ping =>
    have hok : (st.queuePong config).2.isOk = true :=
      (queueLiveness_isOk_iff config st .pong .control).mpr
        (hpong ⟨packet, List.mem_cons_self, by simp [isPingPacket, hdec]⟩)
    -- the PONG just queued gives way to the next one, which has its key
    have hafter : ¬ (st.queuePong config).1.scheduler.RefusesLiveness :=
      not_refuses_of_queueLiveness hok
    have hack : (st.queuePong config).1.ack = st.ack := (st.queueLiveness_frame .pong .control).ack
    rcases hq : st.queuePong config with ⟨st', _ | _⟩
    · rw [hq] at hok
      cases hok
    · rw [hq] at hafter hack
      dsimp only at hafter hack ⊢
      exact ⟨rfl, by rw [hack]; omega, fun _ => hafter⟩
  | ack key => exact ⟨rfl, by dsimp only; omega, hrest⟩
  | pong => exact ⟨rfl, by dsimp only; omega, hrest⟩
  | malformed => exact ⟨rfl, by dsimp only; omega, hrest⟩

/-- The same for a whole stream. -/
theorem handleEvents_room {st : EngineState} {packets : List Bytes}
    (hfit : PacketsFit config packets) (h : HasReceiveRoom st packets) :
    ∃ handled, st.handleEvents config (packets.map .packet) = some handled := by
  induction packets generalizing st with
  | nil => exact ⟨_, rfl⟩
  | cons packet packets ih =>
    obtain ⟨-, hlen, -⟩ := hfit packet List.mem_cons_self
    have hevent : st.handleEvent config (.packet packet) =
        st.receiveCompletePacket config packet := by
      have hbytes : packetBytesTryFromSlice packet = .ok packet := if_neg (by omega)
      simp only [handleEvent, hbytes]
    obtain ⟨hok, hroom⟩ := receiveCompletePacket_room config h
    obtain ⟨handled, hrest⟩ := ih (fun p hp => hfit p (List.mem_cons_of_mem _ hp)) hroom
    refine ⟨(handled.1, (st.receiveCompletePacket config packet).2 :: handled.2), ?_⟩
    rw [List.map_cons, handleEvents, hevent, if_neg (by simp [hok]), hrest]
    rfl

end Packet

/-! ## Chunks -/

/-- The packets of a chunk. -/
def chunkPackets (integrity : IntegrityConfig) (bytes : Bytes) : List Bytes :=
  ((wireScanner maxIngressBytes integrity).scan bytes).1.filterMap fun
    | .packet packet => some packet
    | _ => none

theorem chunkPackets_packetStream {config : EngineConfig} {packets : List Bytes}
    (hfit : PacketsFit config packets) :
    chunkPackets config.integrity (packetStream config.integrity packets) = packets := by
  rw [chunkPackets, scan_packetStream hfit]
  simp [List.filterMap_map]

/-- The session of the slot has room for what the chunk makes it queue: with the acknowledgements
that are pending already there are at most sixteen, and a PING finds a free entry of the scheduler
or the entry of an earlier PING or PONG. -/
def ChunkFits (slot : PeerSlot) (bytes : Bytes) : Prop :=
  ∀ engine, slot.engine = some engine →
    HasReceiveRoom engine.state (chunkPackets engine.config.integrity bytes)

/-- The receive reports no error and keeps the session. -/
def Survives (slot : PeerSlot) (nowMs : Nat) (bytes : Bytes) : Prop :=
  (slot.receive nowMs bytes).2.isError = false ∧
    (slot.hasSession = true → (slot.receive nowMs bytes).1.hasSession = true)

section Survives
variable {config : EngineConfig} {a b : Peer}

theorem survives_of_clean (hrun : PeerRun config a) (hother : PeerRun config b)
    (hclean : a.Live (Clean config.integrity (b.Sends config))) (nowMs : Nat) {bytes : Bytes}
    (hbytes : b.Transmitted bytes) (hlen : bytes.length ≤ 1024) (hfits : ChunkFits a.slot bytes) :
    Survives a.slot nowMs bytes := by
  cases hengine : a.slot.engine with
  | none =>
    have hreceive : a.slot.receive nowMs bytes = (a.slot, .incomplete none) := by
      simp only [PeerSlot.receive, hengine]
    rw [Survives, hreceive]
    exact ⟨rfl, id⟩
  | some engine =>
    obtain ⟨hconfig, -, hsession⟩ := hclean engine hengine
    rw [hrun.config_eq] at hconfig
    obtain ⟨packets, hsent, rfl⟩ := hbytes.packetStream hother
    have hfit : PacketsFit config packets := fun p hp => (hsent p hp).length_le
    have hroom := hfits engine hengine
    rw [hconfig, chunkPackets_packetStream hfit] at hroom
    obtain ⟨⟨st', reports⟩, hevents⟩ := handleEvents_room hfit hroom
    -- in a clean session no bytes are left over from an earlier chunk
    have hempty : engine.state.ingress.rest = [] := hsession.empty
    have hok : (engine.receive (packetStream config.integrity packets)).2.isError = false := by
      show (engine.state.receiveBytes engine.config _).2.isError = false
      rw [hconfig]
      have hspace : engine.state.ingress.rest.length +
          (packetStream config.integrity packets).length ≤ maxIngressBytes := by
        rw [hempty, List.length_nil, Nat.zero_add]
        exact Nat.le_trans hlen (by decide)
      have hstream : engine.state.handleEvents config ((wireScanner maxIngressBytes
          config.integrity).scan (engine.state.ingress.rest ++
            packetStream config.integrity packets)).1 = some (st', reports) := by
        rw [hempty, List.nil_append, scan_packetStream hfit]
        exact hevents
      exact receiveBytes_of_handleEvents hspace hstream
    have hreport := PeerSlot.receive_report hengine nowMs (packetStream config.integrity packets)
    rw [← hreport] at hok
    refine ⟨hok, ?_⟩
    intro _
    obtain ⟨-, hkept, -⟩ := PeerSlot.receive_connection hengine nowMs hok
    rw [PeerSlot.hasSession, hkept]
    rfl

/-- **A well-behaved peer does not make a receive drop the session** as long as the receiver has
room for the answers: in every interleaving of two slots, a chunk of up to 1024 bytes of whole
envelopes of the other side that fits is received without an error, on either side. -/
theorem receive_survives (hlink : PeerLink config config (a, b)) (nowMs : Nat) {bytes : Bytes}
    (hlen : bytes.length ≤ 1024) :
    (b.Transmitted bytes → ChunkFits a.slot bytes → Survives a.slot nowMs bytes) ∧
      (a.Transmitted bytes → ChunkFits b.slot bytes → Survives b.slot nowMs bytes) := by
  have hinv := hlink.inv rfl
  exact ⟨fun hbytes hfits =>
      survives_of_clean hinv.runLeft hinv.runRight hinv.cleanLeft nowMs hbytes hlen hfits,
    fun hbytes hfits =>
      survives_of_clean hinv.runRight hinv.runLeft hinv.cleanRight nowMs hbytes hlen hfits⟩

/-- The hello of a session reaches a passive slot. -/
def helloScript : List PeerLinkOp :=
  [.left (.connect 0), .left (.poll 0 128), .right (.acceptPassive 0)]

/-- Sixteen copies of the hello in one chunk are survived. -/
theorem receive_survives_sixteen :
    let link := runPeerLink .default .default helloScript
    PeerLink .default .default link ∧
      Survives link.2.slot 0 (link.1.envelopes (List.replicate 16 0)).flatten := by
  have hlink : PeerLink .default .default ((runPeerLink .default .default helloScript).1,
      (runPeerLink .default .default helloScript).2) :=
    peerLink_runPeerLink .default .default helloScript
  have hroom : (runPeerLink .default .default helloScript).2.slot.engine.all (fun engine =>
      let packets := chunkPackets engine.config.integrity
        ((runPeerLink .default .default helloScript).1.envelopes (List.replicate 16 0)).flatten
      decide (RingQueue.len engine.state.ack + packets.countP isDataPacket ≤ maxPendingAcks) &&
        !packets.any isPingPacket) = true := by
    decide +kernel
  refine ⟨hlink, (receive_survives hlink 0 (by decide +kernel)).2 (Peer.transmitted_envelopes _ _) ?_⟩
  intro engine hengine
  rw [hengine, Option.all_some, Bool.and_eq_true, decide_eq_true_eq, Bool.not_eq_true'] at hroom
  refine ⟨hroom.1, fun ⟨p, hp, hping⟩ => ?_⟩
  rw [List.any_eq_true.mpr ⟨p, hp, hping⟩] at hroom
  cases hroom.2

/-- Seventeen copies cost the session. -/
theorem not_receive_survives : ¬ ∀ (config : EngineConfig) (a b : Peer),
    PeerLink config config (a, b) → ∀ nowMs bytes, bytes.length ≤ 1024 → a.Transmitted bytes →
    Survives b.slot nowMs bytes := by
  intro h
  have hlost : ((runPeerLink .default .default helloScript).2.slot.receive 0
      ((runPeerLink .default .default helloScript).1.envelopes
        (List.replicate 17 0)).flatten).2.isError = true := by
    decide +kernel
  have hlink : PeerLink .default .default ((runPeerLink .default .default helloScript).1,
      (runPeerLink .default .default helloScript).2) :=
    peerLink_runPeerLink .default .default helloScript
  have hok := (h _ _ _ hlink 0 _ (by decide +kernel)
    (Peer.transmitted_envelopes _ (List.replicate 17 0))).1
  rw [hlost] at hok
  cases hok

end Survives

end Msrt
