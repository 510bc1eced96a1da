import Msrt.Connection
import Msrt.LosslessLink

/-! # An idle connection stays up

A client connects to a passive endpoint over a link that loses nothing, and then nobody has anything to
say.  The first exchange carries the hello message and its acknowledgement, and both sides are connected.
From then on the side that has not heard from the other for the PING interval sends a PING, which is a
life sign to the other side, as the PONG that answers it is to this one (`InTouch`).  So, as long as the
exchanges are not too far apart, neither side is ever found idle (`connection_stays_up`).
-/

namespace Msrt
open EngineState

/-! ## Engines with nothing in flight -/

/-- `items` wait in this order, nothing is in flight and no bytes are buffered. -/
structure Offers (items : List Waiting) (st : EngineState) : Prop where
  waiting : st.waitingList = items
  packets : st.recovery.packets = []
  rest : st.ingress.rest = []

/-- What a poll returns of what waits. -/
def firstAction (integrity : IntegrityConfig) (items : List Waiting) : EnginePoll :=
  (items.head?.map (Waiting.action integrity)).getD .idle

/-- The answer to a PING, as it waits. -/
def pongItem (integrity : IntegrityConfig) : Waiting :=
  .event (.write (livenessWrite integrity .pong .control))

section Offers
variable {config : EngineConfig} {st : EngineState} {items : List Waiting} {nowMs txLen : Nat}

/-- A poll takes the first thing that waits. -/
theorem Offers.poll (h : Offers items st) (config : EngineConfig) (nowMs : Nat)
    (htx : maxWireBytes ≤ txLen) :
    (st.poll config nowMs txLen).2 = .ok (firstAction config.integrity items) ∧
      Offers items.tail (st.poll config nowMs txLen).1 := by
  have hnone := untransmitted_of_nil h.packets
  have hrest : (st.poll config nowMs txLen).1.ingress.rest = [] := by
    rw [(st.poll_frame nowMs txLen).ingress]
    exact h.rest
  have hpackets : (st.poll config nowMs txLen).1.recovery.packets = [] :=
    packets_poll_of_nil h.packets htx
  cases items with
  | nil =>
    obtain ⟨hresult, hwaiting, -⟩ := @Untransmitted.poll_nil config st nowMs txLen hnone h.waiting htx
    exact ⟨hresult, hwaiting, hpackets, hrest⟩
  | cons item items =>
    obtain ⟨hresult, hwaiting, -⟩ :=
      @Untransmitted.poll_cons config st nowMs txLen hnone item items h.waiting htx
    exact ⟨hresult, hwaiting, hpackets, hrest⟩

/-- A scheduler with nothing queued takes every event. -/
theorem SchedulerState.push_of_empty {s : SchedulerState} (h : ∀ kind, s.events kind = [])
    (event : EngineOutput) :
    ∃ s', s.push event = .ok s' ∧
      ∀ kind, s'.events kind = if kind = queueForEvent event then [event] else [] := by
  have hnothing : s.queued = 0 := by
    apply Multiset.eq_zero_of_forall_notMem
    intro e he
    obtain ⟨kind, hmem⟩ := mem_queued_iff.mp he
    rw [h kind] at hmem
    cases hmem
  have hfresh : s.replaceRedundantWrite event = none := by
    cases hreplaced : s.replaceRedundantWrite event with
    | none => rfl
    | some s' =>
      obtain ⟨write, old, rest, -, -, hqueued, -⟩ := replaceRedundantWrite_eq_some hreplaced
      rw [hnothing] at hqueued
      exact absurd hqueued.symm Multiset.cons_ne_zero
  have hroom : s.len < maxEvents := by
    rw [← card_queued, hnothing]
    decide
  obtain ⟨s', hpush, hown, hothers⟩ := push_of_room hfresh hroom
  refine ⟨s', hpush, ?_⟩
  intro kind
  split
  · rename_i hkind
    rw [hkind, hown, h]
    rfl
  · rename_i hkind
    rw [hothers kind hkind, h]

/-- A PING or a PONG is then all that waits. -/
theorem Offers.queueLiveness (h : Offers [] st) (config : EngineConfig) (packetType : PacketType)
    (priority : WritePriority) :
    (st.queueLiveness config packetType priority).2 = .ok () ∧
      Offers [.event (.write (livenessWrite config.integrity packetType priority))]
        (st.queueLiveness config packetType priority).1 := by
  obtain ⟨hacks, hurgent, hmessages, hnewData⟩ := waitingList_eq_nil h.waiting
  have hempty : ∀ kind, st.scheduler.events kind = [] := by
    simp only [SchedulerState.urgent, List.append_eq_nil_iff] at hurgent
    intro kind
    cases kind with
    | control => exact hurgent.1.1
    | retransmit => exact hurgent.1.2
    | newData => exact hnewData
    | «local» => exact hurgent.2
  obtain ⟨s', hpush, hevents⟩ := SchedulerState.push_of_empty hempty
    (.write (livenessWrite config.integrity packetType priority))
  have hqueued : st.queueLiveness config packetType priority =
      ({ st with scheduler := s' }, .ok ()) := by
    rw [livenessWrite] at hpush
    unfold EngineState.queueLiveness
    rw [encodeLivenessPacket_ok]
    dsimp only
    rw [hpush]
  rw [hqueued]
  refine ⟨rfl, ?_, h.packets, h.rest⟩
  show (RingQueue.toList st.ack).map Waiting.ack ++ s'.urgent.map Waiting.event ++
    (RingQueue.toList st.message).map Waiting.message ++ (s'.events .newData).map Waiting.event = _
  simp only [hacks, hmessages, SchedulerState.urgent, hevents]
  cases priority <;> rfl

/-- A packet of one byte can be put on the wire. -/
theorem portable_liveness (integrity : IntegrityConfig) (packetType : PacketType) :
    Portable integrity [packetType.code] := by
  have htag := integrity.tagLen_le
  have hlen := length_envelope integrity [packetType.code]
  rw [wireHeaderLen_eq, List.length_singleton] at hlen
  refine ⟨?_, ?_, ?_⟩ <;> simp only [maxPacketLen, maxWireBytes, List.length_singleton] <;> omega

/-- A PING that is received is answered. -/
theorem Offers.receive_ping (h : Offers [] st) (config : EngineConfig) :
    (st.receiveBytes config (envelope config.integrity [PacketType.ping.code])).2.kind = .ping ∧
      Offers [pongItem config.integrity]
        (st.receiveBytes config (envelope config.integrity [PacketType.ping.code])).1 := by
  obtain ⟨hok, hoffers⟩ := h.queueLiveness config .pong .control
  have hhandled : st.receiveCompletePacket config [PacketType.ping.code] =
      ((st.queuePong config).1, .ping) := by
    rw [receiveCompletePacket, decodePacketBytes_ping]
    dsimp only
    rw [show st.queuePong config = ((st.queuePong config).1, .ok ()) from Prod.ext rfl hok]
  obtain ⟨ingress, hrest, hreceived, hkind⟩ := receiveBytes_envelope h.rest
    (portable_liveness config.integrity .ping) (by rw [hhandled]; rfl)
  rw [hhandled] at hreceived hkind
  refine ⟨hkind, ?_⟩
  rw [hreceived]
  exact ⟨hoffers.waiting, hoffers.packets, hrest⟩

/-- A PONG that is received is a life sign and nothing else. -/
theorem Offers.receive_pong (h : Offers [] st) (config : EngineConfig) :
    (st.receiveBytes config (envelope config.integrity [PacketType.pong.code])).2.kind = .pong ∧
      Offers [] (st.receiveBytes config (envelope config.integrity [PacketType.pong.code])).1 := by
  have hhandled : st.receiveCompletePacket config [PacketType.pong.code] = (st, .pong) := by
    rw [receiveCompletePacket, decodePacketBytes_pong]
  obtain ⟨ingress, hrest, hreceived, hkind⟩ := receiveBytes_envelope h.rest
    (portable_liveness config.integrity .pong) (by rw [hhandled]; rfl)
  rw [hhandled] at hreceived hkind
  refine ⟨hkind, ?_⟩
  rw [hreceived]
  exact ⟨h.waiting, h.packets, hrest⟩

end Offers

/-! ## Slots between two exchanges -/

section Slots
variable {config : EngineConfig} {slot : PeerSlot} {st : EngineState} {items : List Waiting}
  {pending : Bool} {nowMs txLen : Nat}

/-- The slot learns from a report what its kind says. -/
theorem PeerSlot.receive_of_kind {engine : Engine} (hengine : slot.engine = some engine)
    {bytes : Bytes} {report : ReceiveReport} (hkind : (engine.receive bytes).2.kind = report.kind)
    (hok : report.isError = false) :
    (slot.receive nowMs bytes).1 =
      PeerSlot.noteReport { slot with engine := some (engine.receive bytes).1 } nowMs report := by
  have hreport : (engine.receive bytes).2.isError = false :=
    (ReceiveReport.isError_of_kind_eq hkind).trans hok
  unfold receive
  rw [hengine]
  dsimp only
  rw [if_neg (by rw [hreport]; exact Bool.false_ne_true)]
  unfold noteReport
  simp only [ReceiveReport.isPeerTraffic_of_kind hkind, ReceiveReport.eq_pong_of_kind hkind]

/-- The poll transmits or is idle, and does not concern the slot. -/
def Plain (result : EnginePoll) : Prop :=
  result = .idle ∨ ∃ bytes attempts, result = .transmit bytes attempts

/-- Such a poll changes the engine only. -/
theorem PeerSlot.pollEngine_of_plain {result : EnginePoll} (hengine : slot.engine = some ⟨config, st⟩)
    (hresult : (st.poll config nowMs txLen).2 = .ok result) (hplain : Plain result) :
    slot.pollEngine nowMs txLen =
      ({ slot with engine := some ⟨config, (st.poll config nowMs txLen).1⟩ }, .ok result) := by
  have hpolled : Engine.poll ⟨config, st⟩ nowMs txLen =
      (⟨config, (st.poll config nowMs txLen).1⟩, .ok result) := Prod.ext rfl hresult
  rw [pollEngine_of_some hengine, hpolled]
  rcases hplain with rfl | ⟨bytes, attempts, rfl⟩
  · rfl
  · rfl

/-- A slot with nothing in flight.  Where no PING waits for its answer, the peer was heard from since
the last one. -/
structure Calm (config : EngineConfig) (items : List Waiting) (pending : Bool) (nowMs : Nat)
    (slot : PeerSlot) : Prop where
  session : ∃ st, slot.engine = some ⟨config, st⟩ ∧ Offers items st
  waits : slot.pendingPing = pending
  pinged : slot.lastPingMs ≤ nowMs
  seen : slot.lastSeenMs ≤ nowMs
  answered : pending = false → slot.lastPingMs ≤ slot.lastSeenMs

/-- And its peer has been heard from. -/
structure Standing (config : EngineConfig) (items : List Waiting) (pending : Bool) (nowMs : Nat)
    (slot : PeerSlot) : Prop extends Calm config items pending nowMs slot where
  connected : slot.state = .connected

/-- The peer was heard from within the PING interval. -/
def Recent (nowMs : Nat) (slot : PeerSlot) : Prop :=
  nowMs - slot.lastSeenMs < defaultPingIntervalMs

theorem Standing.later {peerMs : Nat} (h : Standing config items pending nowMs slot)
    (hle : nowMs ≤ peerMs) : Standing config items pending peerMs slot :=
  ⟨⟨h.session, h.waits, Nat.le_trans h.pinged hle, Nat.le_trans h.seen hle, h.answered⟩, h.connected⟩

theorem recent_of_eq (h : slot.lastSeenMs = nowMs) : Recent nowMs slot := by
  rw [Recent, h, Nat.sub_self]
  decide

/-- A PING is due where a peer that is known was not heard from. -/
theorem Standing.pingDue (h : Standing config items false nowMs slot)
    (hsilent : ¬ Recent nowMs slot) : slot.pingDue nowMs = true := by
  have hanswered := h.answered rfl
  rw [Recent, Nat.not_lt] at hsilent
  simp only [PeerSlot.pingDue, PeerSlot.isConnected, h.connected, h.waits, Bool.and_eq_true,
    decide_eq_true_eq, beq_self_eq_true, Bool.not_false, true_and]
  exact ⟨hsilent, by omega⟩

theorem Recent.not_due (h : Recent nowMs slot) : slot.pingDue nowMs = false := by
  rw [PeerSlot.pingDue, decide_eq_false (Nat.not_le.mpr h), Bool.and_false, Bool.false_and]

/-- A poll of a slot that heard from its peer transmits what waits. -/
theorem Calm.poll_recent (h : Calm config items false nowMs slot) (hrecent : Recent nowMs slot)
    (htx : maxWireBytes ≤ txLen) (hplain : Plain (firstAction config.integrity items)) :
    (slot.poll nowMs txLen).2 = .ok (firstAction config.integrity items) ∧
      Calm config items.tail false nowMs (slot.poll nowMs txLen).1 ∧
      Recent nowMs (slot.poll nowMs txLen).1 ∧ (slot.poll nowMs txLen).1.state = slot.state := by
  obtain ⟨st, hengine, hoffers⟩ := h.session
  obtain ⟨hresult, hnext⟩ := hoffers.poll config nowMs htx
  rw [PeerSlot.poll, PeerSlot.queuePingIfIdle_of_not_due hrecent.not_due]
  dsimp only
  rw [PeerSlot.pollEngine_of_plain hengine hresult hplain]
  exact ⟨rfl, ⟨⟨_, rfl, hnext⟩, h.waits, h.pinged, h.seen, h.answered⟩, hrecent, rfl⟩

theorem Standing.poll_recent (h : Standing config items false nowMs slot)
    (hrecent : Recent nowMs slot) (htx : maxWireBytes ≤ txLen)
    (hplain : Plain (firstAction config.integrity items)) :
    (slot.poll nowMs txLen).2 = .ok (firstAction config.integrity items) ∧
      Standing config items.tail false nowMs (slot.poll nowMs txLen).1 ∧
      Recent nowMs (slot.poll nowMs txLen).1 := by
  obtain ⟨hresult, hcalm, hstill, hstate⟩ := h.toCalm.poll_recent hrecent htx hplain
  exact ⟨hresult, ⟨hcalm, hstate.trans h.connected⟩, hstill⟩

/-- A message that is handed over is a life sign as well. -/
theorem Calm.poll_message {e : MessageEvent} (h : Calm config (.message e :: items) false nowMs slot)
    (hrecent : Recent nowMs slot) (htx : maxWireBytes ≤ txLen) :
    (slot.poll nowMs txLen).2 = .ok (.message e) ∧
      Standing config items false nowMs (slot.poll nowMs txLen).1 ∧
      Recent nowMs (slot.poll nowMs txLen).1 := by
  obtain ⟨st, hengine, hoffers⟩ := h.session
  obtain ⟨hresult, hnext⟩ := hoffers.poll config nowMs htx
  have hpolled : Engine.poll ⟨config, st⟩ nowMs txLen =
      (⟨config, (st.poll config nowMs txLen).1⟩, .ok (.message e)) := Prod.ext rfl hresult
  rw [PeerSlot.poll, PeerSlot.queuePingIfIdle_of_not_due hrecent.not_due]
  dsimp only
  rw [PeerSlot.pollEngine_of_some hengine, hpolled]
  exact ⟨rfl, ⟨⟨⟨_, rfl, hnext⟩, h.waits, h.pinged, Nat.le_refl _, fun _ => h.pinged⟩, rfl⟩,
    recent_of_eq rfl⟩

/-- What a poll makes of a PING or a PONG. -/
theorem firstAction_liveness (integrity : IntegrityConfig) (packetType : PacketType)
    (priority : WritePriority) :
    firstAction integrity [.event (.write (livenessWrite integrity packetType priority))] =
      .transmit (envelope integrity [packetType.code]) 0 := by
  show EnginePoll.transmit (WireBuffer.store (envelope integrity [packetType.code])).bytes 0 = _
  rw [store_liveness]

/-- A poll of a slot that did not hear from its peer transmits a PING. -/
theorem Standing.poll_silent (h : Standing config [] false nowMs slot) (hsilent : ¬ Recent nowMs slot)
    (htx : maxWireBytes ≤ txLen) :
    (slot.poll nowMs txLen).2 =
        .ok (.transmit (envelope config.integrity [PacketType.ping.code]) 0) ∧
      Standing config [] true nowMs (slot.poll nowMs txLen).1 := by
  obtain ⟨st, hengine, hoffers⟩ := h.session
  obtain ⟨hok, hpinged⟩ := hoffers.queueLiveness config .ping .newData
  have haction := firstAction_liveness config.integrity .ping .newData
  have hping : Engine.sendPing ⟨config, st⟩ = (⟨config, (st.sendPing config).1⟩, .ok ()) :=
    Prod.ext rfl hok
  have hqueued : slot.queuePingIfIdle nowMs =
      ({ slot with engine := some ⟨config, (st.sendPing config).1⟩, lastPingMs := nowMs,
                   pendingPing := true }, .ok ()) := by
    rw [PeerSlot.queuePingIfIdle_of_due hengine (h.pingDue hsilent), hping]
  obtain ⟨hresult, hnext⟩ := hpinged.poll config nowMs htx
  rw [haction] at hresult
  rw [PeerSlot.poll, hqueued]
  dsimp only
  rw [PeerSlot.pollEngine_of_plain rfl hresult (.inr ⟨_, _, rfl⟩)]
  exact ⟨rfl, ⟨⟨_, rfl, hnext⟩, rfl, Nat.le_refl _, h.seen, fun hpending => by cases hpending⟩,
    h.connected⟩

/-- A PING is a life sign, and its answer waits. -/
theorem Standing.receive_ping (h : Standing config [] false nowMs slot) :
    Standing config [pongItem config.integrity] false nowMs
        (slot.receive nowMs (envelope config.integrity [PacketType.ping.code])).1 ∧
      Recent nowMs (slot.receive nowMs (envelope config.integrity [PacketType.ping.code])).1 := by
  obtain ⟨st, hengine, hoffers⟩ := h.session
  obtain ⟨hkind, hanswer⟩ := hoffers.receive_ping config
  rw [PeerSlot.receive_of_kind hengine (show _ = ReceiveReport.ping.kind from hkind) rfl]
  exact ⟨⟨⟨⟨_, rfl, hanswer⟩, h.waits, h.pinged, Nat.le_refl _, fun _ => h.pinged⟩, rfl⟩,
    recent_of_eq rfl⟩

/-- A PONG is a life sign, and answers the PING. -/
theorem Standing.receive_pong (h : Standing config [] pending nowMs slot) :
    Standing config [] false nowMs
        (slot.receive nowMs (envelope config.integrity [PacketType.pong.code])).1 ∧
      Recent nowMs (slot.receive nowMs (envelope config.integrity [PacketType.pong.code])).1 := by
  obtain ⟨st, hengine, hoffers⟩ := h.session
  obtain ⟨hkind, hrest⟩ := hoffers.receive_pong config
  rw [PeerSlot.receive_of_kind hengine (show _ = ReceiveReport.pong.kind from hkind) rfl]
  exact ⟨⟨⟨⟨_, rfl, hrest⟩, rfl, h.pinged, Nat.le_refl _, fun _ => h.pinged⟩, rfl⟩, recent_of_eq rfl⟩

/-- A slot is not found idle before the timeout. -/
theorem PeerSlot.disconnectIfIdle_of_lt {timeoutMs : Nat}
    (hsoon : nowMs - slot.lastSeenMs < timeoutMs) :
    slot.disconnectIfIdle nowMs timeoutMs = (slot, false) := by
  unfold disconnectIfIdle
  rw [if_neg]
  rw [decide_eq_false (Nat.not_le.mpr hsoon), Bool.and_false]
  exact Bool.false_ne_true

/-- Bytes that arrive at a passive endpoint with a session are a life sign. -/
theorem Standing.acceptPassiveIfNeeded (h : Standing config items pending nowMs slot) :
    Standing config items pending nowMs (slot.acceptPassiveIfNeeded nowMs) := by
  obtain ⟨st, hengine, hoffers⟩ := h.session
  have hlive : slot.acceptPassiveIfNeeded nowMs = { slot with lastSeenMs := nowMs } := by
    simp only [PeerSlot.acceptPassiveIfNeeded, hengine, Option.isNone_some, Bool.false_eq_true,
      if_false]
  rw [hlive]
  exact ⟨⟨⟨st, hengine, hoffers⟩, h.waits, h.pinged, Nat.le_refl _, fun _ => h.pinged⟩, h.connected⟩

end Slots

/-! ## Two endpoints -/

/-- A client and a passive endpoint on a link that loses nothing. -/
structure EndpointPair where
  client : ClientEndpoint
  passive : PassiveEndpoint

namespace EndpointPair
variable (nowMs peerMs txLen timeoutMs : Nat)

/-- The client polls, and the passive endpoint receives what is transmitted. -/
def forward (pair : EndpointPair) : EndpointPair where
  client := (pair.client.poll nowMs txLen).1
  passive := ((SlotOp.poll nowMs txLen).transmitted pair.client.peer).elim pair.passive
    fun bytes => (pair.passive.receive peerMs bytes).1

/-- The passive endpoint polls, and the client receives what is transmitted. -/
def backward (pair : EndpointPair) : EndpointPair where
  client := ((SlotOp.poll peerMs txLen).transmitted pair.passive.peer).elim pair.client
    fun bytes => (pair.client.receive nowMs bytes).1
  passive := (pair.passive.poll peerMs txLen).1

/-- Both endpoints poll twice. -/
def exchange (pair : EndpointPair) : EndpointPair :=
  (((pair.forward nowMs peerMs txLen).backward nowMs peerMs txLen).forward
    nowMs peerMs txLen).backward nowMs peerMs txLen

/-- Both endpoints drop the other one if it has been silent for the timeout. -/
def dropIdle (pair : EndpointPair) : EndpointPair where
  client := (pair.client.disconnectIfIdle nowMs timeoutMs).1
  passive := (pair.passive.disconnectIfIdle peerMs timeoutMs).1

/-- The idle clean-up of both sides and an exchange, at each of the given times of the client and the
passive endpoint. -/
def beats (times : List (Nat × Nat)) (pair : EndpointPair) : EndpointPair :=
  times.foldl (fun pair time =>
    (pair.dropIdle time.1 time.2 timeoutMs).exchange time.1 time.2 txLen) pair

theorem beats_cons (time : Nat × Nat) (times : List (Nat × Nat)) (pair : EndpointPair) :
    pair.beats txLen timeoutMs (time :: times) =
      ((pair.dropIdle time.1 time.2 timeoutMs).exchange time.1 time.2 txLen).beats
        txLen timeoutMs times := by
  unfold beats
  rw [List.foldl_cons]

/-- The endpoints after a connect at `connectMs` and exchanges at the given times. -/
def afterConnect (client : ClientEndpoint) (passive : PassiveEndpoint) (connectMs : Nat)
    (times : List (Nat × Nat)) : EndpointPair :=
  beats txLen timeoutMs times ⟨(client.connect connectMs).1, passive⟩

end EndpointPair

/-- Both endpoints are connected and have nothing to say. -/
structure Linked (left right : EngineConfig) (nowMs peerMs : Nat) (pair : EndpointPair) : Prop where
  client : Standing left [] false nowMs pair.client.peer
  passive : Standing right [] false peerMs pair.passive.peer

/-- Both endpoints heard from each other within the PING interval. -/
structure InTouch (left right : EngineConfig) (nowMs peerMs : Nat) (pair : EndpointPair) : Prop
    extends Linked left right nowMs peerMs pair where
  clientRecent : Recent nowMs pair.client.peer
  passiveRecent : Recent peerMs pair.passive.peer

section Hops
variable {left right : EngineConfig} {nowMs peerMs txLen : Nat} {pair : EndpointPair}

theorem EndpointPair.forward_of_idle (h : (pair.client.peer.poll nowMs txLen).2 = .ok .idle) :
    pair.forward nowMs peerMs txLen = ⟨(pair.client.poll nowMs txLen).1, pair.passive⟩ := by
  simp only [forward, SlotOp.transmitted, h, Option.elim_none]

theorem EndpointPair.forward_of_transmit {bytes : Bytes} {attempts : UInt8}
    (h : (pair.client.peer.poll nowMs txLen).2 = .ok (.transmit bytes attempts)) :
    pair.forward nowMs peerMs txLen =
      ⟨(pair.client.poll nowMs txLen).1, (pair.passive.receive peerMs bytes).1⟩ := by
  simp only [forward, SlotOp.transmitted, h, Option.elim_some]

theorem EndpointPair.backward_of_idle (h : (pair.passive.peer.poll peerMs txLen).2 = .ok .idle) :
    pair.backward nowMs peerMs txLen = ⟨pair.client, (pair.passive.poll peerMs txLen).1⟩ := by
  simp only [backward, SlotOp.transmitted, h, Option.elim_none]

theorem EndpointPair.backward_of_transmit {bytes : Bytes} {attempts : UInt8}
    (h : (pair.passive.peer.poll peerMs txLen).2 = .ok (.transmit bytes attempts)) :
    pair.backward nowMs peerMs txLen =
      ⟨(pair.client.receive nowMs bytes).1, (pair.passive.poll peerMs txLen).1⟩ := by
  simp only [backward, SlotOp.transmitted, h, Option.elim_some]

theorem EndpointPair.backward_of_message {e : MessageEvent}
    (h : (pair.passive.peer.poll peerMs txLen).2 = .ok (.message e)) :
    pair.backward nowMs peerMs txLen = ⟨pair.client, (pair.passive.poll peerMs txLen).1⟩ := by
  simp only [backward, SlotOp.transmitted, h, Option.elim_none]

/-- A client that heard from the other side has nothing to say. -/
theorem Standing.forward_quiet
    (hclient : Standing left [] false nowMs pair.client.peer)
    (htouch : Recent nowMs pair.client.peer) (htx : maxWireBytes ≤ txLen) :
    Standing left [] false nowMs (pair.forward nowMs peerMs txLen).client.peer ∧
      Recent nowMs (pair.forward nowMs peerMs txLen).client.peer ∧
      (pair.forward nowMs peerMs txLen).passive = pair.passive := by
  obtain ⟨hidle, hstanding, hstill⟩ := hclient.poll_recent htouch htx (.inl rfl)
  rw [EndpointPair.forward_of_idle hidle]
  exact ⟨hstanding, hstill, rfl⟩

theorem Linked.forward_quiet (h : Linked left right nowMs peerMs pair) (htx : maxWireBytes ≤ txLen)
    (hrecent : Recent nowMs pair.client.peer) :
    Linked left right nowMs peerMs (pair.forward nowMs peerMs txLen) ∧
      Recent nowMs (pair.forward nowMs peerMs txLen).client.peer ∧
      (pair.forward nowMs peerMs txLen).passive = pair.passive := by
  obtain ⟨hstanding, hstill, hother⟩ :=
    @Standing.forward_quiet left nowMs peerMs txLen pair h.client hrecent htx
  exact ⟨⟨hstanding, hother ▸ h.passive⟩, hstill, hother⟩

/-- So does a passive endpoint. -/
theorem Linked.backward_quiet (h : Linked left right nowMs peerMs pair) (htx : maxWireBytes ≤ txLen)
    (hrecent : Recent peerMs pair.passive.peer) :
    Linked left right nowMs peerMs (pair.backward nowMs peerMs txLen) ∧
      Recent peerMs (pair.backward nowMs peerMs txLen).passive.peer ∧
      (pair.backward nowMs peerMs txLen).client = pair.client := by
  obtain ⟨hidle, hstanding, hstill⟩ := h.passive.poll_recent hrecent htx (.inl rfl)
  rw [EndpointPair.backward_of_idle hidle]
  exact ⟨⟨h.client, hstanding⟩, hstill, rfl⟩

/-- A client that did not hear from the other side asks for a life sign. -/
theorem Linked.forward_ping (hsame : left.integrity = right.integrity)
    (h : Linked left right nowMs peerMs pair) (htx : maxWireBytes ≤ txLen)
    (hsilent : ¬ Recent nowMs pair.client.peer) :
    Standing left [] true nowMs (pair.forward nowMs peerMs txLen).client.peer ∧
      Standing right [pongItem right.integrity] false peerMs
        (pair.forward nowMs peerMs txLen).passive.peer ∧
      Recent peerMs (pair.forward nowMs peerMs txLen).passive.peer := by
  obtain ⟨hping, hasking⟩ := h.client.poll_silent hsilent htx
  rw [hsame] at hping
  rw [EndpointPair.forward_of_transmit hping]
  exact ⟨hasking, h.passive.acceptPassiveIfNeeded.receive_ping⟩

/-- A passive endpoint that did not hear from the other side asks for a life sign. -/
theorem Linked.backward_ping (hsame : left.integrity = right.integrity)
    (h : Linked left right nowMs peerMs pair) (htx : maxWireBytes ≤ txLen)
    (hsilent : ¬ Recent peerMs pair.passive.peer) :
    Standing right [] true peerMs (pair.backward nowMs peerMs txLen).passive.peer ∧
      Standing left [pongItem left.integrity] false nowMs
        (pair.backward nowMs peerMs txLen).client.peer ∧
      Recent nowMs (pair.backward nowMs peerMs txLen).client.peer := by
  obtain ⟨hping, hasking⟩ := h.passive.poll_silent hsilent htx
  rw [← hsame] at hping
  rw [EndpointPair.backward_of_transmit hping]
  exact ⟨hasking, h.client.receive_ping⟩

/-- The answer of the passive endpoint brings both sides in touch. -/
theorem backward_pong (hsame : left.integrity = right.integrity)
    (hclient : Standing left [] true nowMs pair.client.peer)
    (hpassive : Standing right [pongItem right.integrity] false peerMs pair.passive.peer)
    (hrecent : Recent peerMs pair.passive.peer) (htx : maxWireBytes ≤ txLen) :
    InTouch left right nowMs peerMs (pair.backward nowMs peerMs txLen) := by
  have haction := firstAction_liveness right.integrity .pong .control
  obtain ⟨hpong, hanswered, hstill⟩ := hpassive.poll_recent hrecent htx (.inr ⟨_, _, haction⟩)
  rw [show firstAction right.integrity [pongItem right.integrity] = _ from haction, ← hsame] at hpong
  obtain ⟨hstanding, hheard⟩ := hclient.receive_pong
  rw [EndpointPair.backward_of_transmit hpong]
  exact ⟨⟨hstanding, hanswered⟩, hheard, hstill⟩

/-- So does the answer of the client. -/
theorem forward_pong (hsame : left.integrity = right.integrity)
    (hpassive : Standing right [] true peerMs pair.passive.peer)
    (hclient : Standing left [pongItem left.integrity] false nowMs pair.client.peer)
    (hrecent : Recent nowMs pair.client.peer) (htx : maxWireBytes ≤ txLen) :
    InTouch left right nowMs peerMs (pair.forward nowMs peerMs txLen) := by
  have haction := firstAction_liveness left.integrity .pong .control
  obtain ⟨hpong, hanswered, hstill⟩ := hclient.poll_recent hrecent htx (.inr ⟨_, _, haction⟩)
  rw [show firstAction left.integrity [pongItem left.integrity] = _ from haction, hsame] at hpong
  obtain ⟨hstanding, hheard⟩ := hpassive.acceptPassiveIfNeeded.receive_pong
  rw [EndpointPair.forward_of_transmit hpong]
  exact ⟨⟨hanswered, hstanding⟩, hstill, hheard⟩

theorem InTouch.forward (h : InTouch left right nowMs peerMs pair) (htx : maxWireBytes ≤ txLen) :
    InTouch left right nowMs peerMs (pair.forward nowMs peerMs txLen) := by
  obtain ⟨hlinked, hrecent, hother⟩ := h.toLinked.forward_quiet htx h.clientRecent
  exact ⟨hlinked, hrecent, hother ▸ h.passiveRecent⟩

theorem InTouch.backward (h : InTouch left right nowMs peerMs pair) (htx : maxWireBytes ≤ txLen) :
    InTouch left right nowMs peerMs (pair.backward nowMs peerMs txLen) := by
  obtain ⟨hlinked, hrecent, hother⟩ := h.toLinked.backward_quiet htx h.passiveRecent
  exact ⟨hlinked, hother ▸ h.clientRecent, hrecent⟩

/-- **An exchange brings both sides in touch.** -/
theorem Linked.exchange (hsame : left.integrity = right.integrity)
    (h : Linked left right nowMs peerMs pair) (htx : maxWireBytes ≤ txLen) :
    InTouch left right nowMs peerMs (pair.exchange nowMs peerMs txLen) := by
  unfold EndpointPair.exchange
  by_cases hclient : Recent nowMs pair.client.peer
  · obtain ⟨hlinked, hrecent, hother⟩ := h.forward_quiet htx hclient
    by_cases hpassive : Recent peerMs pair.passive.peer
    · have htouch : InTouch left right nowMs peerMs (pair.forward nowMs peerMs txLen) :=
        ⟨hlinked, hrecent, hother ▸ hpassive⟩
      exact ((htouch.backward htx).forward htx).backward htx
    · obtain ⟨hasking, hanswering, hheard⟩ := hlinked.backward_ping hsame htx (hother ▸ hpassive)
      exact (forward_pong hsame hasking hanswering hheard htx).backward htx
  · obtain ⟨hasking, hanswering, hheard⟩ := h.forward_ping hsame htx hclient
    exact ((backward_pong hsame hasking hanswering hheard htx).forward htx).backward htx

end Hops

/-! ## The first exchange -/

/-- The message that a fresh engine says hello with. -/
def hello (config : EngineConfig) : SentMessage :=
  (EngineState.new config.initialMessageId).nextMessage .data helloMessage

/-- It is on its way to another fresh engine. -/
def helloTransfer (left right : EngineConfig) : Transfer :=
  (Transfer.start (.new left) (.new right)).submit left (.send helloMessage)

theorem atRest_new (config : EngineConfig) : AtRest (Party.new config).state := ⟨rfl, rfl, rfl⟩

/-- It is one packet. -/
theorem count_hello (config : EngineConfig) : (hello config).count config = 1 := by
  have hpos := (hello config).size_pos config
  show Chunks.count 1 ((hello config).size config) = 1
  rw [Chunks.count, if_neg Nat.one_ne_zero, Nat.add_comm, Nat.add_sub_cancel]
  exact Nat.div_self hpos

theorem inTransit_hello {left right : EngineConfig} (hsame : left.integrity = right.integrity) :
    InTransit left right [(hello left, 0)] (helloTransfer left right) := by
  have hnew : InTransit left right [] (Transfer.start (.new left) (.new right)) :=
    inTransit_of_atRest .new (atRest_new left) (atRest_new right)
  have hall := sendFragmentedMessage_allOrNothing left (Party.new left).state (.inl rfl) helloMessage
  have hcount : ((Party.new left).state.nextMessage .data helloMessage).count left = 1 :=
    count_hello left
  have hroom : 1 ≤ SchedulerState.new.available := by decide
  have hinFlight : 1 ≤ RecoveryState.new.availableInFlight := by decide
  obtain ⟨id, hresult⟩ := hall.accepted_iff.mpr (by
    rw [hcount]
    exact ⟨show 1 ≤ 256 by decide, hroom, fun _ => hinFlight⟩)
  exact hnew.submitted hsame (show 0 + 1 < 2 ^ 32 by decide) (.inl rfl) (by simp) rfl rfl hresult

section Handshake
variable {left right : EngineConfig} {nowMs peerMs connectMs txLen : Nat} {client : ClientEndpoint}
  {passive : PassiveEndpoint}

/-- The client once its hello message is on the way. -/
structure Greeting (left right : EngineConfig) (nowMs txLen : Nat) (slot : PeerSlot) : Prop where
  engine : slot.engine =
    some ⟨left, ((helloTransfer left right).left.step left (.poll nowMs txLen)).state⟩
  waits : slot.pendingPing = false
  pinged : slot.lastPingMs ≤ nowMs

variable (right) in
/-- The client, which is not connected and so does not think of a PING, says hello. -/
theorem poll_connect (hsame : left.integrity = right.integrity) (hleft : client.peer.config = left)
    (hle : connectMs ≤ nowMs) (htx : maxWireBytes ≤ txLen) :
    (∃ attempts, ((client.connect connectMs).1.peer.poll nowMs txLen).2 =
        .ok (.transmit (envelope left.integrity ((hello left).packet left 0)) attempts)) ∧
      Greeting left right nowMs txLen ((client.connect connectMs).1.peer.poll nowMs txLen).1 := by
  subst hleft
  have hemits := (@InTransit.transmitted _ right (hello client.peer.config) 0 txLen nowMs [] _
    (inTransit_hello hsame) htx).1
  have hresult : ∃ attempts, ((helloTransfer client.peer.config right).left.state.poll
      client.peer.config nowMs txLen).2 = .ok (.transmit (envelope client.peer.config.integrity
        ((hello client.peer.config).packet client.peer.config 0)) attempts) := by
    simp only [Party.emits, Call.emitted, Call.polled] at hemits
    split at hemits
    · rename_i bytes attempts hpolled
      obtain rfl := Option.some.inj hemits
      exact ⟨attempts, by
        cases hp : ((helloTransfer client.peer.config right).left.state.poll
          client.peer.config nowMs txLen).2 with
        | error e => simp [hp] at hpolled
        | ok result => simpa [hp] using hpolled⟩
    · cases hemits
  obtain ⟨attempts, hresult⟩ := hresult
  have hengine : (client.connect connectMs).1.peer.engine =
      some ⟨client.peer.config, (helloTransfer client.peer.config right).left.state⟩ := rfl
  rw [PeerSlot.poll, PeerSlot.queuePingIfIdle_of_not_due rfl]
  dsimp only
  rw [PeerSlot.pollEngine_of_plain hengine hresult (.inr ⟨_, _, rfl⟩)]
  exact ⟨⟨attempts, rfl⟩, rfl, rfl, hle⟩

/-- The passive endpoint opens a session for the hello message, and has the acknowledgement and the
message to hand over. -/
theorem receive_hello (hsame : left.integrity = right.integrity)
    (hright : passive.peer.config = right) (hnone : passive.peer.engine = none) :
    ∃ e, Calm right [.ack ((hello left).packetKey 0), .message e] false peerMs (passive.receive peerMs
        (envelope right.integrity ((hello left).packet left 0))).1.peer ∧
      Recent peerMs (passive.receive peerMs
        (envelope right.integrity ((hello left).packet left 0))).1.peer := by
  subst hright
  obtain ⟨hok, message, harrived⟩ := (inTransit_hello hsame).arrived hsame
  obtain ⟨e, rfl⟩ : ∃ e, message = some e := by
    rcases harrived.progress with ⟨hmore, -⟩ | ⟨-, e, rfl, -⟩
    · rw [count_hello] at hmore
      exact absurd hmore (Nat.lt_irrefl 1)
    · exact ⟨e, rfl⟩
  have hoffers : Offers [.ack ((hello left).packetKey 0), .message e]
      ((Engine.new passive.peer.config).receive
        (envelope passive.peer.config.integrity ((hello left).packet left 0))).1.state :=
    ⟨harrived.waiting, harrived.packets, harrived.rest⟩
  have hopened : passive.peer.acceptPassiveIfNeeded peerMs = passive.peer.acceptPassive peerMs := by
    simp only [PeerSlot.acceptPassiveIfNeeded, hnone, Option.isNone_none, if_true]
    rfl
  have hreceived : (passive.receive peerMs
      (envelope passive.peer.config.integrity ((hello left).packet left 0))).1.peer =
      PeerSlot.noteReport { passive.peer.acceptPassive peerMs with
        engine := some ((Engine.new passive.peer.config).receive
          (envelope passive.peer.config.integrity ((hello left).packet left 0))).1 } peerMs
        ((Engine.new passive.peer.config).receive
          (envelope passive.peer.config.integrity ((hello left).packet left 0))).2 := by
    show ((passive.peer.acceptPassiveIfNeeded peerMs).receive peerMs _).1 = _
    rw [hopened]
    exact PeerSlot.receive_of_kind rfl rfl hok
  rw [hreceived]
  -- whatever the report says, the passive endpoint has seen the peer when the bytes came
  unfold PeerSlot.noteReport
  refine ⟨e, ?_⟩
  split <;> split
  all_goals exact ⟨⟨⟨_, rfl, hoffers⟩, rfl, Nat.le_refl _, Nat.le_refl _, fun _ => Nat.le_refl _⟩,
    recent_of_eq rfl⟩

/-- The acknowledgement of the hello message connects the client. -/
theorem Greeting.receive_ack {slot : PeerSlot} (hsame : left.integrity = right.integrity)
    (h : Greeting left right nowMs txLen slot) (htx : maxWireBytes ≤ txLen) :
    Standing left [] false nowMs (slot.receive nowMs
        (envelope right.integrity (ackPacketBytes ((hello left).packetKey 0)))).1 ∧
      Recent nowMs (slot.receive nowMs
        (envelope right.integrity (ackPacketBytes ((hello left).packetKey 0)))).1 := by
  have htransit := inTransit_hello hsame
  have hacked := @InTransit.acked left right (hello left) 0 txLen nowMs [] _ hsame htransit htx
  rw [nextLine, if_neg (by rw [count_hello]; exact Nat.lt_irrefl 1)] at hacked
  have hpackets : ((helloTransfer left right).left.step left (.poll nowMs txLen) |>.takes left
      (((hello left).answer? 0).map fun key =>
        envelope right.integrity (ackPacketBytes key))).state.recovery.packets = [] := by
    apply List.eq_nil_iff_forall_not_mem.mpr
    intro p hp
    obtain ⟨-, x, hx, -⟩ := hacked.inFlight p hp
    cases hx
  have hoffers : Offers [] (Engine.receive
      ⟨left, ((helloTransfer left right).left.step left (.poll nowMs txLen)).state⟩
      (envelope right.integrity (ackPacketBytes ((hello left).packetKey 0)))).1.state :=
    ⟨hacked.waiting, hpackets, hacked.rest⟩
  have hrest : ((helloTransfer left right).left.step left (.poll nowMs txLen)).state.ingress.rest = [] :=
    (congrArg StreamingDecoder.rest
      ((helloTransfer left right).left.state.poll_frame nowMs txLen).ingress).trans htransit.rest
  obtain ⟨-, -, -, hkind⟩ := receiveBytes_ack left hrest ((hello left).packetKey 0)
  rw [hsame] at hkind
  rw [PeerSlot.receive_of_kind h.engine
    (show _ = (ReceiveReport.ack ((hello left).packetKey 0).packetIndex).kind from hkind) rfl]
  exact ⟨⟨⟨⟨_, rfl, hoffers⟩, h.waits, h.pinged, Nat.le_refl _, fun _ => h.pinged⟩, rfl⟩,
    recent_of_eq rfl⟩

/-- Its acknowledgement connects the client. -/
theorem Greeting.backward {pair : EndpointPair} {e : MessageEvent}
    (hsame : left.integrity = right.integrity)
    (hclient : Greeting left right nowMs txLen pair.client.peer)
    (hpassive : Calm right [.ack ((hello left).packetKey 0), .message e] false peerMs
      pair.passive.peer) (hrecent : Recent peerMs pair.passive.peer) (htx : maxWireBytes ≤ txLen) :
    Standing left [] false nowMs (pair.backward nowMs peerMs txLen).client.peer ∧
      Recent nowMs (pair.backward nowMs peerMs txLen).client.peer ∧
      Calm right [.message e] false peerMs (pair.backward nowMs peerMs txLen).passive.peer ∧
      Recent peerMs (pair.backward nowMs peerMs txLen).passive.peer := by
  obtain ⟨hack, hcalm, hstill, -⟩ := hpassive.poll_recent hrecent htx (.inr ⟨_, _, rfl⟩)
  obtain ⟨hstanding, htouch⟩ := hclient.receive_ack hsame htx
  rw [EndpointPair.backward_of_transmit hack]
  exact ⟨hstanding, htouch, hcalm, hstill⟩

/-- The message itself connects the passive endpoint, once it is handed over. -/
theorem Calm.backward_message {pair : EndpointPair} {e : MessageEvent}
    (hclient : Standing left [] false nowMs pair.client.peer)
    (htouch : Recent nowMs pair.client.peer)
    (hpassive : Calm right [.message e] false peerMs pair.passive.peer)
    (hrecent : Recent peerMs pair.passive.peer) (htx : maxWireBytes ≤ txLen) :
    InTouch left right nowMs peerMs (pair.backward nowMs peerMs txLen) := by
  obtain ⟨hmessage, hstanding, hstill⟩ := hpassive.poll_message hrecent htx
  rw [EndpointPair.backward_of_message hmessage]
  exact ⟨⟨hclient, hstanding⟩, htouch, hstill⟩

/-- **The first exchange connects both sides.** -/
theorem handshake (hsame : left.integrity = right.integrity)
    (hleft : client.peer.config = left) (hright : passive.peer.config = right)
    (hnone : passive.peer.engine = none) (hle : connectMs ≤ nowMs) (htx : maxWireBytes ≤ txLen) :
    InTouch left right nowMs peerMs
      (EndpointPair.exchange nowMs peerMs txLen ⟨(client.connect connectMs).1, passive⟩) := by
  obtain ⟨⟨attempts, hpoll⟩, hgreeting⟩ := poll_connect right hsame hleft hle htx
  rw [hsame] at hpoll
  obtain ⟨e, hcalm, hrecent⟩ := @receive_hello left right peerMs passive hsame hright hnone
  unfold EndpointPair.exchange
  rw [@EndpointPair.forward_of_transmit nowMs peerMs txLen
    ⟨(client.connect connectMs).1, passive⟩ _ attempts hpoll]
  obtain ⟨hclient, htouch, hcalm, hrecent⟩ := @Greeting.backward left right nowMs peerMs txLen
    ⟨⟨_⟩, _⟩ e hsame hgreeting hcalm hrecent htx
  obtain ⟨hclient, htouch, hsame⟩ := hclient.forward_quiet htouch htx
  exact Calm.backward_message hclient htouch (hsame ▸ hcalm) (hsame ▸ hrecent) htx

/-! ## Whole sessions -/

/-- The times follow each other within the gap. -/
def Steady (gapMs : Nat) (times : List Nat) : Prop :=
  times.IsChain fun before after => before ≤ after ∧ after ≤ before + gapMs

variable {gapMs timeoutMs : Nat} {pair : EndpointPair}

/-- Sides that are in touch do not drop each other before the timeout. -/
theorem InTouch.dropIdle (h : InTouch left right nowMs peerMs pair)
    (htimeout : defaultPingIntervalMs + gapMs ≤ timeoutMs) {nextMs nextPeerMs : Nat}
    (hclient : nextMs ≤ nowMs + gapMs) (hpassive : nextPeerMs ≤ peerMs + gapMs) :
    pair.dropIdle nextMs nextPeerMs timeoutMs = pair := by
  have hleft := h.clientRecent
  have hright := h.passiveRecent
  unfold Recent at hleft hright
  have hkept : pair.client.peer.disconnectIfIdle nextMs timeoutMs = (pair.client.peer, false) :=
    PeerSlot.disconnectIfIdle_of_lt (by omega)
  have hkept' : pair.passive.peer.disconnectIfIdle nextPeerMs timeoutMs = (pair.passive.peer, false) :=
    PeerSlot.disconnectIfIdle_of_lt (by omega)
  simp only [EndpointPair.dropIdle, ClientEndpoint.disconnectIfIdle,
    PassiveEndpoint.disconnectIfIdle, hkept, hkept']

/-- **Exchanges that follow each other closely keep both sides in touch.** -/
theorem InTouch.beats (hsame : left.integrity = right.integrity) (htx : maxWireBytes ≤ txLen)
    (htimeout : defaultPingIntervalMs + gapMs ≤ timeoutMs) {first : Nat × Nat}
    {times : List (Nat × Nat)} (h : InTouch left right first.1 first.2 pair)
    (hclient : Steady gapMs (first.1 :: times.map Prod.fst))
    (hpassive : Steady gapMs (first.2 :: times.map Prod.snd)) :
    InTouch left right (times.getLastD first).1 (times.getLastD first).2
      (pair.beats txLen timeoutMs times) := by
  induction times generalizing first pair with
  | nil => exact h
  | cons time times ih =>
    obtain ⟨⟨hle, hsoon⟩, hclient⟩ := List.isChain_cons_cons.mp hclient
    obtain ⟨⟨hle', hsoon'⟩, hpassive⟩ := List.isChain_cons_cons.mp hpassive
    have hlinked : Linked left right time.1 time.2 pair := ⟨h.client.later hle, h.passive.later hle'⟩
    rw [List.getLastD_cons, EndpointPair.beats_cons, h.dropIdle htimeout hsoon hsoon']
    exact ih (hlinked.exchange hsame htx) hclient hpassive

/-- **A connection over a link that loses nothing stays up.**  For all configurations with the same
integrity check, whatever the client did before: from a connect to a passive endpoint without a session
on, if exchanges follow each other within a gap and the idle timeout is the PING interval and that gap
at least, then both endpoints are connected after the first exchange and every later one, and the clean-up
before the next one finds neither of them idle. -/
theorem connection_stays_up (hsame : client.peer.config.integrity = passive.peer.config.integrity)
    (hnone : passive.peer.engine = none) (htx : maxWireBytes ≤ txLen)
    (htimeout : defaultPingIntervalMs + gapMs ≤ timeoutMs) {first : Nat × Nat}
    {times : List (Nat × Nat)} (hclient : Steady gapMs (connectMs :: first.1 :: times.map Prod.fst))
    (hpassive : Steady gapMs (first.2 :: times.map Prod.snd)) :
    (EndpointPair.afterConnect txLen timeoutMs client passive connectMs
        (first :: times)).client.peer.isConnected = true ∧
      (EndpointPair.afterConnect txLen timeoutMs client passive connectMs
        (first :: times)).passive.peer.isConnected = true ∧
      ∀ nowMs peerMs, nowMs ≤ (times.getLastD first).1 + gapMs →
        peerMs ≤ (times.getLastD first).2 + gapMs →
        (EndpointPair.afterConnect txLen timeoutMs client passive connectMs (first :: times)).dropIdle
            nowMs peerMs timeoutMs =
          EndpointPair.afterConnect txLen timeoutMs client passive connectMs (first :: times) := by
  obtain ⟨⟨hle, hsoon⟩, hclient⟩ := List.isChain_cons_cons.mp hclient
  -- nobody is dropped before the first exchange
  have hkept : (client.connect connectMs).1.peer.disconnectIfIdle first.1 timeoutMs =
      ((client.connect connectMs).1.peer, false) := by
    apply PeerSlot.disconnectIfIdle_of_lt
    show first.1 - connectMs < timeoutMs
    unfold defaultPingIntervalMs at htimeout
    omega
  have hkept' : passive.peer.disconnectIfIdle first.2 timeoutMs = (passive.peer, false) := by
    rw [PeerSlot.disconnectIfIdle, hnone]
    rfl
  have hstart : EndpointPair.dropIdle first.1 first.2 timeoutMs
      ⟨(client.connect connectMs).1, passive⟩ = ⟨(client.connect connectMs).1, passive⟩ := by
    simp only [EndpointPair.dropIdle, ClientEndpoint.disconnectIfIdle,
      PassiveEndpoint.disconnectIfIdle, hkept, hkept']
  have hfirst := @handshake _ _ first.1 first.2 connectMs txLen client passive hsame rfl rfl hnone hle
    htx
  have htouch := hfirst.beats hsame htx htimeout hclient hpassive
  rw [EndpointPair.afterConnect, EndpointPair.beats_cons, hstart]
  refine ⟨?_, ?_, fun nowMs peerMs hnow hpeer => htouch.dropIdle htimeout hnow hpeer⟩
  · rw [PeerSlot.isConnected, htouch.client.connected]
    rfl
  · rw [PeerSlot.isConnected, htouch.passive.connected]
    rfl

/-- With an exchange every five seconds the client sends a PING at each one, and both sides stay
connected. -/
theorem connection_stays_up_pings :
    let last := EndpointPair.afterConnect 128 10000 (.new .default) (.new .default) 0
      [(10, 1010), (5010, 6010), (10010, 11010)]
    last.client.peer.lastPingMs = 10010 ∧ last.client.peer.isConnected = true ∧
      last.passive.peer.isConnected = true := by
  have hclient : Steady 5000 [0, 10, 5010, 10010] := by
    unfold Steady
    decide
  have hpassive : Steady 5000 [1010, 6010, 11010] := by
    unfold Steady
    decide
  have hstays := @connection_stays_up 0 128 (.new .default) (.new .default) 5000 10000 rfl rfl
    (Nat.le_refl 128) (Nat.le_refl 10000) (10, 1010) [(5010, 6010), (10010, 11010)] hclient hpassive
  exact ⟨by decide +kernel, hstays.1, hstays.2.1⟩

end Handshake

end Msrt
