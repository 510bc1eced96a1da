import Msrt.Sessions

/-! # Polling a live session

With a transmit buffer of `maxWireBytes` the poll of an engine never fails: everything it may have
to transmit is the envelope of a packet of its run (`PacketRun.poll_isOk`).  The poll of a slot
queues a PING first when the peer has been silent, and a PING that finds no place in the scheduler
costs the session.  That is the only way (`poll_healthy_iff`).
-/

namespace Msrt
open EngineState

/-! ## The poll of an engine -/

theorem encodeAckPacket_ok (key : PacketKey) {outLen : Nat} (integrity : IntegrityConfig)
    (h : maxWireBytes ≤ outLen) :
    encodeAckPacket key outLen integrity = .ok (envelope integrity (ackPacketBytes key)) := by
  have htag := integrity.tagLen_le
  rw [encodeAckPacket, if_neg]
  simp only [EnvelopeHeader.totalLen, EnvelopeHeader.new, UInt8.toNat_ofNat', wireHeaderLen_eq,
    ackPacketHeaderLen_eq, maxWireBytes] at h ⊢
  omega

/-- **A poll with room for an envelope never fails.** -/
theorem PacketRun.poll_isOk {config : EngineConfig} {calls : List Call} {st : EngineState}
    (hrun : PacketRun config calls st) (nowMs : Nat) {txLen : Nat} (htx : maxWireBytes ≤ txLen) :
    (st.poll config nowMs txLen).2.isOk = true := by
  obtain ⟨ticked, hticked, -, hstep⟩ := poll_spec config st nowMs txLen
  have hinv := senderInv_ticked hrun.senderInv hticked
  cases hstep with
  | ack key keys _ _ _ _ _ hres => rw [hres, encodeAckPacket_ok key config.integrity htx]; rfl
  | tooSmall write hq hlt =>
    obtain ⟨packet, horigin, hwire⟩ := hinv.writes write (by rw [hq]; exact Multiset.mem_cons_self _ _)
    have hlen := horigin.length_le.2.2
    rw [← hwire] at hlen
    omega
  | transmit _ _ _ _ _ _ hres => rw [hres]; rfl
  | sendFailed _ _ _ _ _ hres => rw [hres]; rfl
  | message _ _ _ _ _ _ _ hres => rw [hres]; rfl
  | idle _ _ _ _ hres => rw [hres]; rfl

/-! ## PING and PONG -/

/-- The scheduler takes no write with the zero key: it is full, and no such write is queued. -/
def SchedulerState.RefusesLiveness (s : SchedulerState) : Prop :=
  s.len = maxEvents ∧ ∀ write, .write write ∈ s.queued → write.key ≠ .zero

theorem queueLiveness_isOk_iff (config : EngineConfig) (st : EngineState) (packetType : PacketType)
    (priority : WritePriority) :
    (st.queueLiveness config packetType priority).2.isOk = true ↔
      ¬ st.scheduler.RefusesLiveness := by
  unfold queueLiveness
  rw [encodeLivenessPacket_ok]
  dsimp only
  split
  · rename_i e hpush
    obtain ⟨hfull, hnone⟩ := SchedulerState.push_eq_error hpush
    refine iff_of_false (by simp [Except.isOk, Except.toBool]) (not_not.mpr ⟨hfull, ?_⟩)
    intro write hmem hkey
    have := hnone _ rfl _ hmem
    simp [EngineOutput.redundantFor, isRedundantWrite, hkey] at this
  · rename_i scheduler hpush
    refine iff_of_true rfl fun ⟨hfull, hnone⟩ => ?_
    cases SchedulerState.push_eq_ok hpush with
    | replaced write old rest hw hkey hq =>
      obtain rfl := EngineOutput.write.inj hw
      exact hnone old (by rw [hq]; exact Multiset.mem_cons_self _ _) hkey
    | added _ hlt => omega

/-! ## The poll of a slot -/

/-- The slot still has its session: the engine went on from the state it had. -/
def SameSession (before after : PeerSlot) : Prop :=
  ∃ engine engine' ops, before.engine = some engine ∧ after.engine = some engine' ∧
    engine' = ⟨engine.config, (runOps engine.config ops engine.state).2⟩

/-- The poll succeeds and keeps the session unless it reports a failed message. -/
def PollHealthy (slot : PeerSlot) (nowMs txLen : Nat) : Prop :=
  (slot.poll nowMs txLen).2.isOk = true ∧ (slot.hasSession = true →
    (∃ event, (slot.poll nowMs txLen).2 = .ok (.sendFailed event)) ∨
      SameSession slot (slot.poll nowMs txLen).1)

/-- The peer has been silent for so long that a PING is due, and the scheduler has no place for
it. -/
def PingRefused (slot : PeerSlot) (nowMs : Nat) : Prop :=
  slot.pingDue nowMs = true ∧
    ∃ engine, slot.engine = some engine ∧ engine.state.scheduler.RefusesLiveness

section Poll
variable {slot : PeerSlot} {nowMs txLen : Nat}

theorem sameSession_of_hasSession (h : (slot.poll nowMs txLen).1.hasSession = true) :
    SameSession slot (slot.poll nowMs txLen).1 := by
  obtain ⟨engine', hengine'⟩ := Option.isSome_iff_exists.mp h
  obtain ⟨engine, hbase, heq, -⟩ := SlotOp.engine_after
    (show (SlotOp.after (.poll nowMs txLen) slot).engine = some engine' from hengine')
  exact ⟨engine, engine', _, hbase, hengine', heq⟩

/-- A poll of the engine that succeeds is healthy for the slot. -/
theorem pollEngine_healthy {engine : Engine} (hengine : slot.engine = some engine)
    (hok : (engine.poll nowMs txLen).2.isOk = true) :
    (slot.pollEngine nowMs txLen).2.isOk = true ∧
      ((∃ event, (slot.pollEngine nowMs txLen).2 = .ok (.sendFailed event)) ∨
        (slot.pollEngine nowMs txLen).1.hasSession = true) := by
  rw [PeerSlot.pollEngine_of_some hengine]
  rcases hp : engine.poll nowMs txLen with ⟨polled, e | result⟩
  · rw [hp] at hok
    cases hok
  · cases result with
    | sendFailed event => exact ⟨rfl, .inl ⟨event, rfl⟩⟩
    | transmit | message | idle => exact ⟨rfl, .inr rfl⟩

/-- **Polling kills a session only through a PING without a place.**  In every state of a slot and
with every transmit buffer of 128 bytes or more, the poll is healthy exactly when no such PING is
due. -/
theorem poll_healthy_iff {config : EngineConfig} {peer : Peer} (hrun : PeerRun config peer)
    (nowMs : Nat) {txLen : Nat} (htx : 128 ≤ txLen) :
    PollHealthy peer.slot nowMs txLen ↔ ¬ PingRefused peer.slot nowMs := by
  cases hengine : peer.slot.engine with
  | none =>
    have hpoll : peer.slot.poll nowMs txLen = (peer.slot, .ok .idle) := by
      rw [PeerSlot.poll, PeerSlot.queuePingIfIdle_of_none hengine]
      simp only [PeerSlot.pollEngine, hengine]
    refine iff_of_true ⟨by rw [hpoll]; rfl, ?_⟩ ?_
    · intro h
      simp [PeerSlot.hasSession, hengine] at h
    · rintro ⟨-, engine, h, -⟩
      rw [hengine] at h
      cases h
  | some engine =>
    obtain ⟨hconfig, -, hsession⟩ := hrun.live engine hengine
    rw [hrun.config_eq] at hconfig
    have hping : engine.sendPing.2.isOk = true ↔ ¬ engine.state.scheduler.RefusesLiveness :=
      queueLiveness_isOk_iff engine.config engine.state .ping .newData
    cases PeerSlot.pollPath nowMs txLen hengine with
    | refused hdue hrefused hfails =>
      refine iff_of_false ?_ (not_not.mpr ⟨hdue, engine, hengine, ?_⟩)
      · intro h
        rw [PollHealthy, hfails] at h
        cases h.1
      · by_contra hplace
        rw [hping.mpr hplace] at hrefused
        cases hrefused
    | polled ops pinged polled hplace _ _ hpinged hpolled hpoll =>
      -- whatever was queued before, the engine's own poll succeeds
      have hok : (polled.poll nowMs txLen).2.isOk = true := by
        rw [hpolled, hconfig]
        exact (hsession.runOps ops).poll_isOk nowMs htx
      obtain ⟨hres, hkept⟩ := pollEngine_healthy hpinged hok
      rw [← hpoll] at hres hkept
      refine iff_of_true ⟨hres, fun _ => hkept.imp_right sameSession_of_hasSession⟩ ?_
      rintro ⟨hdue, engine₁, hengine₁, hrefuses⟩
      rw [hengine] at hengine₁
      obtain rfl := Option.some.inj hengine₁
      exact hping.mp (hplace hdue) hrefuses

/-- The peer acknowledges the hello of a session and is silent from then on; `count` messages are
queued. -/
def silentPeerScript (count : Nat) : List SlotOp :=
  [.connect 0, .poll 0 128, .receive 0 (envelope EngineConfig.default.integrity
    (ackPacketBytes ⟨NumberState.nextId 0, 0⟩))] ++ List.replicate count (.send [1])

/-- With fifteen messages queued there is room for the PING, and the session lives. -/
theorem poll_healthy_silent : PollHealthy (runPeer .default (silentPeerScript 15)).slot 5000 128 := by
  have hroom : (runPeer .default (silentPeerScript 15)).slot.engine.any
      (fun engine => engine.state.scheduler.len == maxEvents) = false := by
    decide +kernel
  refine (poll_healthy_iff (peerRun_runPeer .default (silentPeerScript 15)) 5000
    (Nat.le_refl 128)).mpr ?_
  rintro ⟨-, engine, hengine, hfull, -⟩
  rw [hengine, Option.any_some, hfull] at hroom
  cases hroom

/-- With sixteen messages queued the PING costs the session. -/
theorem not_poll_healthy : ¬ ∀ (config : EngineConfig) (peer : Peer), PeerRun config peer →
    ∀ nowMs txLen, 128 ≤ txLen → PollHealthy peer.slot nowMs txLen := by
  intro h
  have hfails : ((runPeer .default (silentPeerScript 16)).slot.poll 5000 128).2.isOk = false := by
    decide +kernel
  have hok := (h _ _ (peerRun_runPeer .default (silentPeerScript 16)) 5000 128 (Nat.le_refl 128)).1
  rw [hfails] at hok
  cases hok

end Poll

end Msrt
