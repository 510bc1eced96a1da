import Msrt.Acknowledgements
import Msrt.LinkDelivery
import Msrt.ReceiveRoom
import Msrt.SilentPeer

/-! # A round on a link that loses nothing

However much a link lost before, one round over a link that loses nothing settles everything in flight.
The sender, quiet and with every packet in flight due, polls; the receiver takes what it is sent, knows
the packet or accepts it, and answers; the sender takes the answer (`exchange`).  The packets go one by
one in the order in which the tick queued them (`Resending`), so that after one exchange for each of them
nothing is in flight, and every reliable message has been pushed into the delivery queue of the receiver
or is reported as failed (`settled_after_round`).
-/

namespace Msrt
open EngineState

/-! ## One envelope -/

namespace EngineState
variable {config : EngineConfig} {st : EngineState} {packet : Bytes}

/-- The packet can be put on the wire and taken off it. -/
structure Portable (integrity : IntegrityConfig) (packet : Bytes) : Prop where
  packet_le : packet.length ≤ maxPacketLen
  stored : packet.length ≤ maxWireBytes
  envelope_le : (envelope integrity packet).length ≤ maxWireBytes

/-- **A receive of one envelope handles its packet**, reports what the packet is, and leaves the ingress
buffer empty. -/
theorem receiveBytes_envelope (hrest : st.ingress.rest = []) (hp : Portable config.integrity packet)
    (hok : (st.receiveCompletePacket config packet).2.isError = false) :
    ∃ ingress : StreamingDecoder maxIngressBytes, ingress.rest = [] ∧
      (st.receiveBytes config (envelope config.integrity packet)).1 =
        (st.receiveCompletePacket config packet).1.withIngress ingress ∧
      (st.receiveBytes config (envelope config.integrity packet)).2.kind =
        (st.receiveCompletePacket config packet).2.kind := by
  have hcapacity : (envelope config.integrity packet).length ≤ maxIngressBytes :=
    Nat.le_trans hp.envelope_le (by decide)
  have hscan := scan_envelope hp.packet_le hcapacity []
  rw [List.append_nil] at hscan
  have hnil : (wireScanner maxIngressBytes config.integrity).scan [] = ([], []) := by
    rw [Scanner.scan_of_none]
    rfl
  rw [hnil] at hscan
  have hevent : st.handleEvent config (.packet packet) = st.receiveCompletePacket config packet := by
    have hbytes : packetBytesTryFromSlice packet = .ok packet := if_neg (by have := hp.stored; omega)
    rw [handleEvent, hbytes]
  have hspec : Received config st _ _ (st.receiveBytes config (envelope config.integrity packet)) :=
    st.receiveBytes_spec (by rw [hrest, List.length_nil]; omega)
  rw [hrest, List.nil_append] at hspec
  have hhandled : st.handleEvents config [.packet packet] =
      some ((st.receiveCompletePacket config packet).1,
        [(st.receiveCompletePacket config packet).2]) := by
    rw [← hevent]
    exact handleEvents_singleton (by rw [hevent]; exact hok)
  generalize st.receiveBytes config (envelope config.integrity packet) = result at hspec ⊢
  rcases hspec with ⟨hnone, -⟩ | ⟨st', reports, ingress, last, hsome, hbytes, hpending, hkind⟩
  · rw [hscan, hhandled] at hnone
    cases hnone
  · rw [hscan] at hsome hbytes
    rw [hhandled] at hsome
    obtain ⟨rfl, rfl⟩ := Prod.mk.inj (Option.some.inj hsome)
    exact ⟨ingress, (StreamingDecoder.rest_of_no_pending hpending).trans hbytes, rfl, hkind⟩

theorem portable_ack (integrity : IntegrityConfig) (key : PacketKey) :
    Portable integrity (ackPacketBytes key) := by
  have htag := integrity.tagLen_le
  have hlen := length_envelope integrity (ackPacketBytes key)
  have hpacket := length_ackPacketBytes key
  rw [ackPacketHeaderLen_eq] at hpacket
  rw [wireHeaderLen_eq] at hlen
  refine ⟨?_, ?_, ?_⟩ <;> simp only [maxPacketLen, maxWireBytes] <;> omega

/-- The envelope of an acknowledgement takes its packet out of the table. -/
theorem receiveBytes_ack (config : EngineConfig) (hrest : st.ingress.rest = []) (key : PacketKey) :
    ∃ ingress : StreamingDecoder maxIngressBytes, ingress.rest = [] ∧
      (st.receiveBytes config (envelope config.integrity (ackPacketBytes key))).1 =
        ({ st with recovery := st.recovery.applyAck key } : EngineState).withIngress ingress ∧
      (st.receiveBytes config (envelope config.integrity (ackPacketBytes key))).2.kind =
        .ack key.packetIndex := by
  have hhandled : st.receiveCompletePacket config (ackPacketBytes key) =
      ({ st with recovery := st.recovery.applyAck key }, .ack key.packetIndex) := by
    rw [receiveCompletePacket, decodePacketBytes_ackPacketBytes]
  obtain ⟨ingress, hempty, hreceived, hkind⟩ :=
    receiveBytes_envelope hrest (portable_ack config.integrity key) (by rw [hhandled]; rfl)
  rw [hhandled] at hreceived hkind
  exact ⟨ingress, hempty, hreceived, hkind⟩

end EngineState

/-! ## The answer -/

/-- A fragment of a message is never refused where only its own fragments are filed under its key. -/
theorem ReassemblyState.observe_own {sender : EngineConfig} {m : SentMessage} {r : ReassemblyState}
    (hm : m.Valid) (hd : r.KeysDistinct)
    (hlen : ∀ s, r.Holds m.messageKey s → s.expectedLen = m.bytes.length) {i : Nat}
    (hi : i < m.count sender) (nowMs : Nat) :
    (r.observe (m.messageFragment sender i) nowMs).2.isOk = true := by
  have hfits := SentMessage.fragment_fits hi
  have hbytes : m.bytes.length ≤ maxMessageBytes := hm.length_le
  obtain ⟨old, hat⟩ := ReassemblyState.observe_spec hd
    (show (m.messageFragment sender i).messageLen ≤ maxMessageBytes from hbytes) nowMs
  have hexpected : old.expectedLen = m.bytes.length := by
    rcases hat.slot_eq with hold | ⟨-, rfl⟩
    · exact hlen old hold
    · rfl
  have hobs := old.observed (m.messageFragment sender i) nowMs
  have hresult := hat.result_eq
  generalize old.observe (m.messageFragment sender i) nowMs = result at hobs hresult
  rw [hresult]
  cases hobs with
  | refused e hcases =>
    rcases hcases with h | h | h
    · exact absurd hexpected h
    · change old.expectedLen < i * m.size sender + (m.fragment sender i).length at h
      omega
    · change maxMessageBytes < i * m.size sender + (m.fragment sender i).length at h
      omega
  | partly => rfl
  | completed => rfl

/-- Nothing is to be acknowledged and no bytes are buffered. -/
structure Listening (st : EngineState) : Prop where
  acks : RingQueue.toList st.ack = []
  rest : st.ingress.rest = []

section Answer
variable {sender receiver : EngineConfig} {m : SentMessage} {calls : List Call} {st : EngineState}
  {i : Nat}

/-- A listening side takes a DATA packet of the other one and owes its acknowledgement, whether it knows
the packet or not. -/
theorem Listening.takes (h : Listening st) (hrun : PacketRun receiver calls st) (hm : m.Valid)
    (hdata : m.packetType = .data) (hown : OwnFragments sender m calls) (hi : i < m.count sender)
    (hp : Portable receiver.integrity (m.packet sender i)) :
    RingQueue.toList (st.receiveBytes receiver
        (envelope receiver.integrity (m.packet sender i))).1.ack = [m.packetKey i] ∧
      (st.receiveBytes receiver
        (envelope receiver.integrity (m.packet sender i))).1.ingress.rest = [] := by
  have hgenuine := hrun.genuine hm hown
  have hkept : (st.reassembly.observe (m.messageFragment sender i) st.clock.nowMs).2.isOk = true :=
    ReassemblyState.observe_own hm hrun.receiverInv.distinct
      (fun s hs => (hgenuine s hs).expectedLen) hi _
  have hroom : RingQueue.len st.ack < maxPendingAcks := by
    rw [(RingQueue.toList_eq_nil_iff st.ack).mp h.acks]
    decide
  have hhandled : st.receiveCompletePacket receiver (m.packet sender i) =
      st.receiveData (m.messageFragment sender i) := by
    rcases SentMessage.decode_packet hm hi with ⟨-, header, hdec⟩ | ⟨hlog, -⟩
    · rw [receiveCompletePacket, hdec]
    · rw [hdata] at hlog
      cases hlog
  have herror := isError_receiveData hroom (m.messageFragment sender i)
  have hasks : (m.messageFragment sender i).ackEliciting = true := by
    simp [SentMessage.messageFragment, hdata]
  have hack : RingQueue.toList (st.receiveData (m.messageFragment sender i)).1.ack =
      [m.packetKey i] := by
    have hacks := receiveData_acks st (m.messageFragment sender i)
    generalize st.receiveData (m.messageFragment sender i) = handled at hacks herror ⊢
    cases hacks with
    | duplicate ack hack => rw [hack, h.acks, hasks, if_pos rfl]; rfl
    | accepted st' hack => rw [hack, h.acks, hasks, if_pos rfl]; rfl
    | refused st' _ hrefused =>
      rw [hkept] at hrefused
      cases hrefused
    | failed st' e => cases herror
  rw [← hhandled] at hack herror
  obtain ⟨ingress, hempty, hreceived, -⟩ := receiveBytes_envelope h.rest hp herror
  rw [hreceived]
  exact ⟨hack, hempty⟩

/-- A poll returns the acknowledgement that is owed. -/
theorem poll_answers {key : PacketKey} (hack : RingQueue.toList st.ack = [key]) (nowMs : Nat)
    {txLen : Nat} (htx : maxWireBytes ≤ txLen) :
    (st.poll receiver nowMs txLen).2 =
        .ok (.transmit (envelope receiver.integrity (ackPacketBytes key)) 0) ∧
      RingQueue.toList (st.poll receiver nowMs txLen).1.ack = [] := by
  have hsame : (st.tickRetransmit receiver nowMs).ack = st.ack := (st.tickRetransmit_frame nowMs).ack
  have hpending : RingQueue.toList (st.tickRetransmit receiver nowMs).ack = [key] := by
    rw [hsame, hack]
  rw [poll, pollOutput_of_acks htx hpending]
  exact ⟨rfl, (ack_pop_cons hpending).2⟩

end Answer

/-! ## One exchange -/

namespace Party

/-- What a poll at `nowMs` would put on the wire. -/
def emits (config : EngineConfig) (nowMs txLen : Nat) (party : Party) : Option Bytes :=
  Call.emitted config ⟨party.state, .poll nowMs txLen⟩

/-- The side once it was handed what is on the wire. -/
def takes (config : EngineConfig) (wire : Option Bytes) (party : Party) : Party :=
  match wire with
  | some bytes => party.step config (.receive bytes)
  | none => party

theorem emits_of_poll {config : EngineConfig} {nowMs txLen : Nat} {party : Party} {bytes : Bytes}
    {attempts : UInt8} (h : (party.state.poll config nowMs txLen).2 = .ok (.transmit bytes attempts)) :
    party.emits config nowMs txLen = some bytes := by
  simp [emits, Call.emitted, Call.polled, h]

end Party

/-- The sender polls at `nowMs`, the receiver takes what was put on the wire and polls at `peerMs`, and
the sender takes the answer. -/
def exchange (sender receiver : EngineConfig) (nowMs txLen peerMs : Nat) (link : Party × Party) :
    Party × Party :=
  let heard := link.2.takes receiver (link.1.emits sender nowMs txLen)
  ((link.1.step sender (.poll nowMs txLen)).takes sender (heard.emits receiver peerMs txLen),
    heard.step receiver (.poll peerMs txLen))

/-- A round: exchanges at the given times of the receiver, and a last poll of the sender. -/
def round (sender receiver : EngineConfig) (nowMs txLen : Nat) :
    List Nat → Party × Party → Party × Party
  | [], link => (link.1.step sender (.poll nowMs txLen), link.2)
  | peerMs :: times, link =>
    round sender receiver nowMs txLen times (exchange sender receiver nowMs txLen peerMs link)

section Exchange
variable {sender receiver : EngineConfig} {a b : Party} {nowMs txLen peerMs : Nat}

theorem carries_of_emits {config : EngineConfig} {party : Party} {bytes : Bytes}
    (h : party.emits config nowMs txLen = some bytes) :
    Carries config (party.step config (.poll nowMs txLen)).calls bytes := by
  refine ⟨[bytes], ?_, by simp⟩
  intro e he
  rw [List.mem_singleton.mp he]
  exact ⟨_, List.mem_append_right _ (List.mem_singleton_self _), h⟩

/-- What the sender transmits goes to the receiver. -/
theorem LinkRun.transmit (h : LinkRun sender receiver (Carries receiver) a b) (nowMs txLen : Nat) :
    LinkRun sender receiver (Carries receiver) (a.step sender (.poll nowMs txLen))
      (b.takes receiver (a.emits sender nowMs txLen)) := by
  have hpolled : LinkRun sender receiver (Carries receiver) (a.step sender (.poll nowMs txLen)) b :=
    h.left _ (by simp)
  cases hwire : a.emits sender nowMs txLen with
  | none => exact hpolled
  | some bytes => exact hpolled.right _ fun _ heq => EngineOp.receive.inj heq ▸ carries_of_emits hwire

/-- What the receiver transmits goes to the sender. -/
theorem LinkRun.reply (h : LinkRun sender receiver (Carries receiver) a b) (peerMs txLen : Nat) :
    LinkRun sender receiver (Carries receiver) (a.takes sender (b.emits receiver peerMs txLen))
      (b.step receiver (.poll peerMs txLen)) := by
  have hpolled : LinkRun sender receiver (Carries receiver) a
      (b.step receiver (.poll peerMs txLen)) := h.right _ (by simp)
  cases hwire : b.emits receiver peerMs txLen with
  | none => exact hpolled
  | some bytes => exact hpolled.left _ fun _ heq => EngineOp.receive.inj heq ▸ carries_of_emits hwire

/-- Exchanges are steps of the link. -/
theorem LinkRun.exchange (h : LinkRun sender receiver (Carries receiver) a b) :
    LinkRun sender receiver (Carries receiver)
      (exchange sender receiver nowMs txLen peerMs (a, b)).1
      (exchange sender receiver nowMs txLen peerMs (a, b)).2 :=
  (h.transmit nowMs txLen).reply peerMs txLen

theorem sendCount_append (calls more : List Call) :
    sendCount (calls ++ more) = sendCount calls + sendCount more := List.countP_append

theorem sendCount_takes (config : EngineConfig) (wire : Option Bytes) (party : Party) :
    sendCount (party.takes config wire).calls = sendCount party.calls := by
  cases wire with
  | none => rfl
  | some bytes =>
    rw [Party.takes, Party.step, sendCount_append]
    exact congrArg _ (sendCount_receiveCalls config party.state bytes)

variable (sender receiver nowMs txLen peerMs) in
/-- Nothing is sent in an exchange. -/
theorem sendCount_exchange (link : Party × Party) :
    sendCount (exchange sender receiver nowMs txLen peerMs link).1.calls =
      sendCount link.1.calls := by
  show sendCount (Party.takes sender _ _).calls = _
  rw [sendCount_takes, Party.step, sendCount_append]
  rfl

end Exchange

/-! ## The packets of a round -/

/-- What is left of a round at `nowMs`: behind the tick the packets of `left` are in flight and wait to
be transmitted in their order, and then `items` wait. -/
structure Resending (config : EngineConfig) (nowMs : Nat) (left : List InFlightPacket)
    (items : List Waiting) (st : EngineState) : Prop where
  rest : st.ingress.rest = []
  waiting : (st.tickRetransmit config nowMs).waitingList =
    left.map (fun p => Waiting.event (.write (retransmitWrite p))) ++ items
  packets : ∀ p, p ∈ (st.tickRetransmit config nowMs).recovery.packets ↔ p ∈ left
  keys : (left.map InFlightPacket.key).Nodup
  fits : st.recovery.lastTickMs ≠ some nowMs →
    (failingMessages config nowMs st).length ≤ st.scheduler.available

section Round
variable {config : EngineConfig} {st : EngineState} {nowMs txLen : Nat} {p : InFlightPacket}
  {left : List InFlightPacket} {items : List Waiting}

/-- A round begins in every quiet state in which everything is due. -/
theorem Quiet.resending (h : Quiet st) (hdue : AllDue config nowMs st) (hrest : st.ingress.rest = []) :
    Resending config nowMs (retransmittedPackets config nowMs st)
      ((st.tickScan config nowMs).failures.map fun p => .event (.sendFailed (failureOf p))) st := by
  refine ⟨hrest, h.waitingList_tick hdue, ?_, ?_, ?_⟩
  · intro p
    rw [packets_tickRetransmit hdue.fresh, mem_retransmittedPackets, List.mem_filter]
    simp only [List.contains_eq_mem, Bool.not_eq_true', decide_eq_false_iff_not]
    constructor
    · rintro ⟨hp, hmessage⟩
      exact ⟨hp, h.retransmitDue hdue hp, hmessage⟩
    · rintro ⟨hp, -, hmessage⟩
      exact ⟨hp, hmessage⟩
  · have hkeys : ((retransmittedPackets config nowMs st).map retransmitWrite).map WriteEvent.key =
        (retransmittedPackets config nowMs st).map InFlightPacket.key := by
      rw [List.map_map]
      rfl
    rw [← hkeys]
    exact retransmittedPackets_keys_nodup
  · intro _
    have hroom : tickAdditions config nowMs st ≤ st.scheduler.available := h.room
    unfold tickAdditions at hroom
    omega

/-- The poll of an exchange transmits the first packet that is left. -/
theorem Resending.poll (h : Resending config nowMs (p :: left) items st) (htx : maxWireBytes ≤ txLen) :
    (st.poll config nowMs txLen).2 = .ok (.transmit p.wire.bytes (saturatingSucc p.attempts)) ∧
      (st.poll config nowMs txLen).1.waitingList =
        left.map (fun p => Waiting.event (.write (retransmitWrite p))) ++ items ∧
      (st.poll config nowMs txLen).1.recovery =
        (st.tickRetransmit config nowMs).recovery.noteWrite (retransmitWrite p) nowMs ∧
      (st.poll config nowMs txLen).1.ingress = st.ingress := by
  have htakes := pollOutput_takes config (st.tickRetransmit config nowMs) nowMs htx
  have hingress : (st.poll config nowMs txLen).1.ingress = st.ingress :=
    (st.poll_frame nowMs txLen).ingress
  have hwaiting := h.waiting
  rw [EngineState.poll] at hingress ⊢
  cases htakes with
  | nothing hempty =>
    rw [hempty] at hwaiting
    cases hwaiting
  | one item hlist hrecovery hresult =>
    rw [hlist, List.map_cons, List.cons_append] at hwaiting
    obtain ⟨rfl, hrest⟩ := List.cons.inj hwaiting
    exact ⟨hresult, hrest, hrecovery, hingress⟩

/-- The acknowledgement of the packet takes it out of the table, and the rest of the round is left. -/
theorem Resending.acknowledged (h : Resending config nowMs (p :: left) items st)
    (htx : maxWireBytes ≤ txLen) :
    Resending config nowMs left items ((st.poll config nowMs txLen).1.receiveBytes config
      (envelope config.integrity (ackPacketBytes p.key))).1 := by
  obtain ⟨-, hwaiting, hrecovery, hingress⟩ := h.poll htx
  have hticked := lastTickMs_poll config st nowMs txLen
  have hkeys := h.keys
  rw [List.map_cons, List.nodup_cons] at hkeys
  generalize hpolled : (st.poll config nowMs txLen).1 = polled at hwaiting hrecovery hingress hticked ⊢
  have hempty : polled.ingress.rest = [] := by
    rw [hingress]
    exact h.rest
  obtain ⟨ingress, hrest, hreceived, -⟩ := receiveBytes_ack config hempty p.key
  rw [hreceived]
  have hlast : (polled.recovery.applyAck p.key).lastTickMs = some nowMs := hticked
  have htick : EngineState.tickRetransmit (({ polled with
      recovery := polled.recovery.applyAck p.key } : EngineState).withIngress ingress) config nowMs =
        (({ polled with recovery := polled.recovery.applyAck p.key } : EngineState).withIngress
          ingress).advanceClock config nowMs := tickRetransmit_of_eq hlast
  refine ⟨hrest, ?_, ?_, hkeys.2, fun hne => absurd hlast hne⟩
  · rw [htick]
    exact hwaiting
  · intro q
    rw [htick]
    have hacked : q ∈ (polled.recovery.applyAck p.key).packets ↔
        q ∈ polled.recovery.packets ∧ q.key ≠ p.key := InFlightPackets.mem_applyAck
    refine hacked.trans ?_
    rw [hrecovery, mem_packets_noteWrite]
    have hwrite : (retransmitWrite p).key = p.key := rfl
    have hnot : ∀ q ∈ left, q.key ≠ p.key := fun q hq hsame =>
      hkeys.1 (hsame ▸ List.mem_map_of_mem hq)
    constructor
    · rintro ⟨⟨q', hq', rfl⟩, hne⟩
      rcases List.mem_cons.mp ((h.packets q').mp hq') with rfl | hleft
      · -- the packet itself is gone
        rw [hwrite, if_pos rfl] at hne
        exact absurd (WriteEvent.mark_same _ nowMs q').1 hne
      · rw [hwrite, if_neg (hnot q' hleft)]
        exact hleft
    · intro hq
      refine ⟨⟨q, (h.packets q).mpr (List.mem_cons_of_mem _ hq), ?_⟩, hnot q hq⟩
      exact (if_neg (hnot q hq)).symm

end Round

section Link
variable {sender receiver : EngineConfig} {a b : Party} {nowMs txLen : Nat} {p : InFlightPacket}
  {left : List InFlightPacket} {items : List Waiting}

/-- **An exchange settles the first packet that is left.** -/
theorem Resending.exchange (hsame : sender.integrity = receiver.integrity)
    (hrun : LinkRun sender receiver (Carries receiver) a b) (hcount : sendCount a.calls < 2 ^ 32)
    (h : Resending sender nowMs (p :: left) items a.state) (hb : Listening b.state)
    (htx : maxWireBytes ≤ txLen) (peerMs : Nat) :
    Resending sender nowMs left items
        (exchange sender receiver nowMs txLen peerMs (a, b)).1.state ∧
      Listening (exchange sender receiver nowMs txLen peerMs (a, b)).2.state := by
  obtain ⟨hleft, hright⟩ := hrun.runs
  -- the packet is a fragment of a message of the sender
  have hp := mem_packets_of_tickRetransmit ((h.packets p).mpr List.mem_cons_self)
  obtain ⟨send, hsend, m, hm, hdata, i, hi, hkey, -, -, hwire⟩ := hleft.senderInv.inFlight p hp
  have hlen := (Origin.fragment hsend hm hi).length_le
  rw [hsame] at hlen
  have hown := (hrun.fed hsame).ownFragments hleft hcount hsend hm
  have hemits : a.emits sender nowMs txLen =
      some (envelope receiver.integrity (m.packet sender i)) := by
    have hpoll := (h.poll htx).1
    rw [hwire, m.wire_bytes, hsame] at hpoll
    exact Party.emits_of_poll hpoll
  obtain ⟨hacks, hrest⟩ := hb.takes hright (accepted_valid hm).1 hdata hown hi
    ⟨hlen.1, hlen.2.1, hlen.2.2⟩
  obtain ⟨hanswer, hnone⟩ := poll_answers hacks peerMs htx
  have hreply : (b.takes receiver (a.emits sender nowMs txLen)).emits receiver peerMs txLen =
      some (envelope sender.integrity (ackPacketBytes p.key)) := by
    rw [hemits, hsame, hkey]
    exact Party.emits_of_poll hanswer
  have hexchange : Msrt.exchange sender receiver nowMs txLen peerMs (a, b) =
      ((a.step sender (.poll nowMs txLen)).takes sender
          ((b.takes receiver (a.emits sender nowMs txLen)).emits receiver peerMs txLen),
        (b.takes receiver (a.emits sender nowMs txLen)).step receiver (.poll peerMs txLen)) := rfl
  rw [hexchange, hreply, hemits]
  refine ⟨h.acknowledged htx, hnone, ?_⟩
  have hframe : OutputFrame _ (EngineState.poll _ receiver peerMs txLen).1 :=
    (b.state.receiveBytes receiver (envelope receiver.integrity (m.packet sender i))).1.poll_frame
      peerMs txLen
  rw [← hrest]
  exact congrArg StreamingDecoder.rest hframe.ingress

theorem FailuresFit.takes {wire : Option Bytes} (h : ∀ call ∈ a.calls, call.FailuresFit sender) :
    ∀ call ∈ (a.takes sender wire).calls, call.FailuresFit sender := by
  cases wire with
  | none => exact h
  | some bytes =>
    intro call hc
    rcases List.mem_append.mp hc with hc | hc
    · exact h call hc
    · -- a receive runs no tick
      obtain ⟨packet, hop⟩ := op_of_mem_receiveLoopCalls hc
      intro nowMs txLen hpoll
      rw [hop] at hpoll
      cases hpoll

theorem Resending.failuresFit (h : Resending sender nowMs left items a.state)
    (hfit : ∀ call ∈ a.calls, call.FailuresFit sender) :
    ∀ call ∈ (a.step sender (.poll nowMs txLen)).calls, call.FailuresFit sender := by
  intro call hc
  rcases List.mem_append.mp hc with hc | hc
  · exact hfit call hc
  · rw [List.mem_singleton.mp hc]
    intro nowMs' txLen' hop hfresh
    obtain ⟨rfl, rfl⟩ := CallOp.poll.inj hop
    exact h.fits hfresh

/-- What a round leaves behind. -/
structure Emptied (sender receiver : EngineConfig) (a : Party) (link : Party × Party) : Prop where
  run : LinkRun sender receiver (Carries receiver) link.1 link.2
  packets : link.1.state.recovery.packets = []
  sends : sendCount link.1.calls = sendCount a.calls
  fits : ∀ call ∈ link.1.calls, call.FailuresFit sender

/-- **A round with one exchange for each packet that is left leaves nothing in flight.** -/
theorem Resending.round {times : List Nat} (hsame : sender.integrity = receiver.integrity)
    (hrun : LinkRun sender receiver (Carries receiver) a b) (hcount : sendCount a.calls < 2 ^ 32)
    (hfit : ∀ call ∈ a.calls, call.FailuresFit sender)
    (h : Resending sender nowMs left items a.state) (hb : Listening b.state)
    (htx : maxWireBytes ≤ txLen) (hlen : times.length = left.length) :
    Emptied sender receiver a (round sender receiver nowMs txLen times (a, b)) := by
  -- on the packets that are left: an exchange takes the first one off
  induction left generalizing a b times with
  | nil =>
    obtain rfl := List.length_eq_zero_iff.mp hlen
    refine ⟨hrun.left _ (by simp), ?_, ?_, h.failuresFit hfit⟩
    · apply List.eq_nil_iff_forall_not_mem.mpr
      intro q hq
      have hnone : ∀ p, p ∉ (a.state.tickRetransmit sender nowMs).recovery.packets :=
        fun p hp => List.not_mem_nil ((h.packets p).mp hp)
      cases pollOutput_takes sender (a.state.tickRetransmit sender nowMs) nowMs htx with
      | nothing _ _ hrecovery =>
        have hq : q ∈ (pollOutput _ sender nowMs txLen).1.recovery.packets := hq
        rw [hrecovery] at hq
        exact hnone q hq
      | one item _ hrecovery =>
        have hq : q ∈ (pollOutput _ sender nowMs txLen).1.recovery.packets := hq
        rw [hrecovery] at hq
        have hfold : q ∈ ([item].foldl (Waiting.note nowMs)
            (a.state.tickRetransmit sender nowMs).recovery).packets := hq
        obtain ⟨p, hp, -⟩ := Waiting.mem_packets_foldl_note.mp hfold
        exact hnone p hp
    · show sendCount (a.calls ++ _) = _
      rw [sendCount_append]
      rfl
  | cons p left ih =>
    obtain ⟨peerMs, times, rfl⟩ := List.exists_cons_of_length_eq_add_one hlen
    obtain ⟨hnext, hlistening⟩ := h.exchange hsame hrun hcount hb htx peerMs
    have hsends := sendCount_exchange sender receiver nowMs txLen peerMs (a, b)
    have hafter := ih hrun.exchange (by rw [hsends]; exact hcount)
      (FailuresFit.takes (h.failuresFit hfit)) hnext hlistening (Nat.succ.inj hlen)
    exact ⟨hafter.run, hafter.packets, hafter.sends.trans hsends, hafter.fits⟩

variable (sender receiver nowMs txLen) in
theorem mem_calls_round {call : Call} (times : List Nat) {link : Party × Party}
    (hc : call ∈ link.1.calls) :
    call ∈ (Msrt.round sender receiver nowMs txLen times link).1.calls := by
  have htakes : ∀ {party : Party} {wire : Option Bytes}, call ∈ party.calls →
      call ∈ (party.takes sender wire).calls := by
    intro party wire hmem
    cases wire with
    | none => exact hmem
    | some bytes => exact List.mem_append_left _ hmem
  induction times generalizing link with
  | nil => exact List.mem_append_left _ hc
  | cons peerMs times ih => exact ih (htakes (List.mem_append_left _ hc))

/-- **One round settles everything in flight.**  On every run of the link, when the sender is quiet with
every packet due and the receiver listens, one exchange for each packet that is not given up and a last
poll leave nothing in flight; and then every reliable message that the sender ever accepted was pushed by
the receiver with its bytes or is reported as failed exactly once, as long as the receiver drops no
incomplete message. -/
theorem settled_after_round {times : List Nat} (hsame : sender.integrity = receiver.integrity)
    (hrun : LinkRun sender receiver (Carries receiver) a b) (hcount : sendCount a.calls < 2 ^ 32)
    (hfit : ∀ call ∈ a.calls, call.FailuresFit sender) (hquiet : Quiet a.state)
    (hdue : AllDue sender nowMs a.state) (hrest : a.state.ingress.rest = [])
    (hb : Listening b.state) (htx : maxWireBytes ≤ txLen)
    (hlen : times.length = (retransmittedPackets sender nowMs a.state).length) :
    (round sender receiver nowMs txLen times (a, b)).1.state.recovery.packets = [] ∧
      ((∀ call ∈ (round sender receiver nowMs txLen times (a, b)).2.calls,
          call.expiresSlot receiver = false ∧ call.evictsSlot = false) →
        ∀ send ∈ a.calls, ∀ m, send.accepted sender = some m → m.packetType = .data →
          (∃ call ∈ (round sender receiver nowMs txLen times (a, b)).2.calls, ∃ e,
            call.pushed = some e ∧ e.packetType = .data ∧ e.messageId = m.messageId ∧
              e.asBytes = m.bytes) ∨
          FailedOnce sender (round sender receiver nowMs txLen times (a, b)).1.calls
            (round sender receiver nowMs txLen times (a, b)).1.state m) := by
  have hafter := (hquiet.resending hdue hrest).round hsame hrun hcount hfit hb htx hlen
  refine ⟨hafter.packets, ?_⟩
  intro hkept send hsend m hm hdata
  have hsend : send ∈ (Msrt.round sender receiver nowMs txLen times (a, b)).1.calls :=
    mem_calls_round sender receiver nowMs txLen times hsend
  generalize Msrt.round sender receiver nowMs txLen times (a, b) = link at hafter hkept hsend ⊢
  obtain ⟨hrun', hempty, hsends, hfits⟩ := hafter
  obtain ⟨hleft, hright⟩ := hrun'.runs
  rw [← hsends] at hcount
  obtain ⟨hvalid, hfragments⟩ := accepted_valid hm
  -- the ledger knows a message with nothing in flight as acknowledged or failed
  have hkey {key : PacketKey} : key ∈ (sendLedger sender link.1.calls link.1.state).sent m.messageId ↔
      ∃ i < m.count sender, key = m.packetKey i := mem_sent_iff hleft hcount hsend hm hdata
  rcases (hleft.sendLedger_sound hcount hfits).verdict
    ⟨_, hkey.mpr ⟨0, m.count_pos sender, rfl⟩⟩ with ⟨hin, -⟩ | ⟨-, hall, -⟩ | ⟨-, -, hone⟩
  · obtain ⟨key, -, p, hp, -⟩ := hin
    rw [hempty] at hp
    cases hp
  · left
    have hown := (hrun'.fed hsame).ownFragments hleft hcount hsend hm
    have haccepted : ∀ i < m.count sender, Accepted sender m link.2.calls i := by
      intro i hi
      obtain ⟨call, hc, hack⟩ := hall _ (hkey.mpr ⟨i, hi, rfl⟩)
      exact accepted_of_key hown hdata hfragments hi
        ((hrun'.fed_back hsame).acknowledged hc hack)
    obtain ⟨call, hc, hpushes⟩ := hright.pushed_of_accepted hvalid hdata hown
      (fun c hc => (hkept c hc).1) (fun c hc => (hkept c hc).2) haccepted
    obtain ⟨e, hpushed, htype, hid, hbytes⟩ := hright.pushed_genuine hvalid hown hc hpushes
    exact ⟨call, hc, e, hpushed, htype.trans hdata, hid, hbytes⟩
  · exact .inr hone

/-- A message of three packets: the acknowledgement of the first and the second packet are lost. -/
def lossySchedule : List LinkOp :=
  .left (.send [1, 2, 3]) :: List.replicate 3 (.left (.poll 0 128)) ++
    [.forward [0], .right (.poll 0 128), .forward [2], .right (.poll 0 128), .backward [1]]

/-- The link behind the schedule. -/
def lossyLink : Party × Party := runSchedule tinyFragments tinyFragments lossySchedule

theorem lossyLink_quiet :
    sendCount lossyLink.1.calls = 1 ∧ (∀ call ∈ lossyLink.1.calls, call.FailuresFit tinyFragments) ∧
      lossyLink.1.state.waitingList.length = 0 ∧
      (∀ p ∈ lossyLink.1.state.recovery.packets, p.sent = true ∧ p.lastSentMs + 50 ≤ 50) ∧
      lossyLink.1.state.recovery.lastTickMs ≠ some 50 ∧ lossyLink.1.state.ingress.rest = [] ∧
      RingQueue.toList lossyLink.2.state.ack = [] ∧ lossyLink.2.state.ingress.rest = [] ∧
      (retransmittedPackets tinyFragments 50 lossyLink.1.state).length = 2 := by
  decide +kernel

theorem lossyLink_kept :
    ((round tinyFragments tinyFragments 50 128 [60, 60] lossyLink).2.calls.all fun call =>
      !call.expiresSlot tinyFragments && !call.evictsSlot) = true ∧
    (lossyLink.1.calls.any fun send =>
      match send.accepted tinyFragments with
      | some m => m.packetType == .data && queuedFailures
          (round tinyFragments tinyFragments 50 128 [60, 60] lossyLink).1.state m.messageId +
          returnedFailures tinyFragments
            (round tinyFragments tinyFragments 50 128 [60, 60] lossyLink).1.calls m.messageId == 0
      | none => false) = true := by
  decide +kernel

/-- Two exchanges bring the message to the receiver. -/
theorem settled_after_round_lossy : ∃ (send : Call) (m : SentMessage), send ∈ lossyLink.1.calls ∧
    send.accepted tinyFragments = some m ∧
    (round tinyFragments tinyFragments 50 128 [60, 60] lossyLink).1.state.recovery.packets = [] ∧
    ∃ call ∈ (round tinyFragments tinyFragments 50 128 [60, 60] lossyLink).2.calls, ∃ e,
      call.pushed = some e ∧ e.packetType = .data ∧ e.messageId = m.messageId ∧
        e.asBytes = m.bytes := by
  obtain ⟨hcount, hfit, hwaiting, hpackets, hfresh, hrest, hacks, hrest', hlen⟩ := lossyLink_quiet
  obtain ⟨hkept, hany⟩ := lossyLink_kept
  have hrun : LinkRun tinyFragments tinyFragments (Carries tinyFragments) lossyLink.1 lossyLink.2 :=
    linkRun_runSchedule tinyFragments tinyFragments lossySchedule
  have hfew : sendCount lossyLink.1.calls < 2 ^ 32 := by
    rw [hcount]
    decide
  have htimes : [60, 60].length = (retransmittedPackets tinyFragments 50 lossyLink.1.state).length := by
    rw [hlen]
    rfl
  obtain ⟨hempty, hsettled⟩ := settled_after_round rfl hrun hfew hfit
    ⟨List.length_eq_zero_iff.mp hwaiting, fun p hp => (hpackets p hp).1⟩
    ⟨hfresh, fun p hp => (hpackets p hp).2⟩ hrest ⟨hacks, hrest'⟩
    (show maxWireBytes ≤ 128 by decide) htimes
  obtain ⟨send, hsend, hm⟩ := List.any_eq_true.mp hany
  simp only [List.all_eq_true, Bool.and_eq_true, Bool.not_eq_true'] at hkept
  split at hm
  · rename_i m haccepted
    rw [Bool.and_eq_true, beq_iff_eq, beq_iff_eq] at hm
    refine ⟨send, m, hsend, haccepted, hempty, ?_⟩
    rcases hsettled hkept send hsend m haccepted hm.1 with hpushed | hfailed
    · exact hpushed
    · exact absurd (hm.2.symm.trans hfailed) (by decide)
  · cases hm

end Link

end Msrt
