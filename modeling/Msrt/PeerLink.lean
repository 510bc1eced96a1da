import Mathlib.Logic.Relation
import Msrt.KeepAlive
import Msrt.LinkDelivery

/-! # Two slots on a link

Two peers exchange whole envelopes over a link that may lose, duplicate, delay and reorder them, and
open and drop sessions as they like (`LinkStep`).  A live session handles packets of the other peer
and nothing else, and between two receives nothing waits in its ingress buffer (`LinkInv`).  So a
receive can only fail for want of room: in the queue of pending acknowledgements, or for a PONG in
the scheduler (`receive_survives`).
-/

namespace Msrt
open EngineState

/-! ## What a peer has sent -/

/-- What a slot transmits, its engine transmitted last. -/
theorem SlotOp.emitted_of_transmitted {op : SlotOp} {slot : PeerSlot} {bytes : Bytes}
    (h : op.transmitted slot = some bytes) :
    ∃ engine ops nowMs txLen, slot.engine = some engine ∧ op.base slot = some engine ∧
      op.opens slot = false ∧ op.engineOps slot = ops ++ [.poll nowMs txLen] ∧
      Call.emitted engine.config ⟨(runOps engine.config ops engine.state).2, .poll nowMs txLen⟩ =
        some bytes := by
  cases op with
  | poll nowMs txLen =>
    have hresult : ∃ attempts, (slot.poll nowMs txLen).2 = .ok (.transmit bytes attempts) := by
      simp only [transmitted] at h
      split at h
      · rename_i attempts hp
        exact ⟨attempts, by rw [hp, Option.some.inj h]⟩
      · cases h
    obtain ⟨attempts, hresult⟩ := hresult
    have hemitted (engine : Engine) (hp : (engine.poll nowMs txLen).2 = .ok (.transmit bytes attempts)) :
        Call.emitted engine.config ⟨engine.state, .poll nowMs txLen⟩ = some bytes := by
      have hp' : (engine.state.poll engine.config nowMs txLen).2 = _ := hp
      simp only [Call.emitted, Call.polled, hp']
    cases hengine : slot.engine with
    | none =>
      rw [PeerSlot.poll, PeerSlot.queuePingIfIdle_of_none hengine] at hresult
      simp only [PeerSlot.pollEngine, hengine] at hresult
      cases hresult
    | some engine =>
      cases PeerSlot.pollPath nowMs txLen hengine with
      | refused _ _ hfails _ =>
        rw [hresult] at hfails
        cases hfails
      | polled ops pinged polled _ _ hops hpinged hpolled hpoll =>
        rw [hpoll, PeerSlot.pollEngine_result hpinged] at hresult
        refine ⟨engine, ops, nowMs, txLen, rfl, hengine, rfl, hops, ?_⟩
        have hemitted := hemitted polled hresult
        rw [hpolled] at hemitted
        exact hemitted
  | connect | acceptPassive | acceptPassiveIfNeeded | disconnect | send | receive
  | disconnectIfIdle => cases h

/-- The packet comes from one of the sessions of the peer. -/
def Peer.Sends (config : EngineConfig) (peer : Peer) (packet : Bytes) : Prop :=
  ∃ calls ∈ peer.sessions, Origin config calls packet

section Sends
variable {config : EngineConfig} {peer : Peer}

theorem Peer.Sends.step {packet : Bytes} (h : peer.Sends config packet) (op : SlotOp) :
    (peer.step op).Sends config packet := by
  obtain ⟨calls, hmem, horigin⟩ := h
  have hopened : calls ∈ peer.opened op := by
    unfold Peer.opened
    split
    · exact List.mem_cons_of_mem _ hmem
    · exact hmem
  unfold Peer.Sends Peer.step
  cases hop : peer.opened op with
  | nil =>
    rw [hop] at hopened
    cases hopened
  | cons first sessions =>
    rw [hop] at hopened
    rcases List.mem_cons.mp hopened with rfl | hmem
    · exact ⟨_, List.mem_cons_self, horigin.append _⟩
    · exact ⟨calls, List.mem_cons_of_mem _ hmem, horigin⟩

theorem Peer.Sends.length_le {packet : Bytes} (h : peer.Sends config packet) :
    packet.length ≤ maxPacketLen ∧ packet.length ≤ maxWireBytes ∧
      (envelope config.integrity packet).length ≤ maxWireBytes := by
  obtain ⟨calls, -, horigin⟩ := h
  exact horigin.length_le

/-- **Every envelope a peer has transmitted carries a packet of one of its sessions.** -/
theorem PeerRun.sent_origin (h : PeerRun config peer) {bytes : Bytes} (hsent : bytes ∈ peer.sent) :
    ∃ packet, peer.Sends config packet ∧ bytes = envelope config.integrity packet := by
  induction h with
  | new => cases hsent
  | @step peer op hrun ih =>
    rcases List.mem_append.mp hsent with hold | hnew
    · obtain ⟨packet, hsends, hbytes⟩ := ih hold
      exact ⟨packet, hsends.step op, hbytes⟩
    · obtain ⟨engine, ops, nowMs, txLen, hengine, hbase, hopens, hops, hemitted⟩ :=
        SlotOp.emitted_of_transmitted (Option.mem_toList.mp hnew)
      obtain ⟨hconfig, hsessions, hsession⟩ := hrun.live engine hengine
      rw [hrun.config_eq] at hconfig
      rw [hconfig] at hemitted
      obtain ⟨packet, horigin, hbytes⟩ := (hsession.runOps ops).emitted_origin hemitted
      have hopened : peer.opened op = peer.sessions := by simp [Peer.opened, hopens]
      have hcalls : (peer.step op).calls = peer.calls ++ (runOps config ops engine.state).1 ++
          (runOps config [.poll nowMs txLen] (runOps config ops engine.state).2).1 := by
        rw [Peer.calls_step (by rw [hopened]; exact hsessions), hopened, Peer.newCalls, hbase]
        dsimp only
        rw [hops, hconfig, runOps_append, List.append_assoc]
        rfl
      refine ⟨packet, ⟨(peer.step op).calls, ?_, ?_⟩, hbytes⟩
      · have hne : (peer.step op).sessions ≠ [] := Peer.sessions_step_ne_nil (by
          rw [hopened]; exact hsessions)
        cases hs : (peer.step op).sessions with
        | nil => exact absurd hs hne
        | cons first rest =>
          rw [Peer.calls, hs]
          exact List.mem_cons_self
      · rw [hcalls]
        exact horigin.append _

end Sends

/-! ## The link -/

/-- The bytes are a concatenation of envelopes the peer has transmitted. -/
def Peer.Transmitted (peer : Peer) (bytes : Bytes) : Prop :=
  ∃ envelopes : List Bytes, (∀ e ∈ envelopes, e ∈ peer.sent) ∧ bytes = envelopes.flatten

/-- One operation of one of two peers; what is received was transmitted by the other one. -/
inductive LinkStep : Peer × Peer → Peer × Peer → Prop
  | left {a b : Peer} (op : SlotOp) :
      (∀ nowMs bytes, op = .receive nowMs bytes → b.Transmitted bytes) →
      LinkStep (a, b) (a.step op, b)
  | right {a b : Peer} (op : SlotOp) :
      (∀ nowMs bytes, op = .receive nowMs bytes → a.Transmitted bytes) →
      LinkStep (a, b) (a, b.step op)

/-- The interleavings of two peers. -/
def PeerLink (left right : EngineConfig) (link : Peer × Peer) : Prop :=
  Relation.ReflTransGen LinkStep (.new left, .new right) link

section Stream
variable {config : EngineConfig} {packets : List Bytes}

/-- Every packet fits the buffers of the engine. -/
def PacketsFit (config : EngineConfig) (packets : List Bytes) : Prop :=
  ∀ p ∈ packets, p.length ≤ maxPacketLen ∧ p.length ≤ maxWireBytes ∧
    (envelope config.integrity p).length ≤ maxWireBytes

theorem scan_packetStream (hfit : PacketsFit config packets) :
    (wireScanner maxIngressBytes config.integrity).scan
      (packetStream config.integrity packets) = (packets.map .packet, []) := by
  induction packets with
  | nil => exact Scanner.scan_of_none rfl
  | cons packet packets ih =>
    obtain ⟨hlen, -, hwire⟩ := hfit packet List.mem_cons_self
    rw [packetStream_cons, scan_envelope hlen (Nat.le_trans hwire (by decide)),
      ih (fun p hp => hfit p (List.mem_cons_of_mem _ hp))]
    rfl

/-- A receive of whole envelopes without an error leaves nothing in the buffer. -/
theorem rest_receiveBytes {st : EngineState} (hrest : st.ingress.rest = [])
    (hfit : PacketsFit config packets)
    (hok : (st.receiveBytes config (packetStream config.integrity packets)).2.isError = false) :
    (st.receiveBytes config (packetStream config.integrity packets)).1.ingress.rest = [] := by
  obtain ⟨-, st', reports, ingress, -, hbytes, hpend, hstate, -⟩ := receiveBytes_ok hok
  rw [hrest, List.nil_append, scan_packetStream hfit] at hbytes
  rw [hstate]
  exact (StreamingDecoder.rest_of_no_pending hpend).trans hbytes

end Stream

section Link
variable {config other : EngineConfig} {a b : Peer}

/-- What a peer has transmitted is a stream of its packets. -/
theorem Peer.Transmitted.packetStream (hrun : PeerRun other b) {bytes : Bytes}
    (h : b.Transmitted bytes) :
    ∃ packets, (∀ p ∈ packets, b.Sends other p) ∧
      bytes = packetStream other.integrity packets := by
  obtain ⟨envelopes, hsent, rfl⟩ := h
  induction envelopes with
  | nil => exact ⟨[], by simp, rfl⟩
  | cons e envelopes ih =>
    obtain ⟨packet, hsends, rfl⟩ := hrun.sent_origin (hsent e List.mem_cons_self)
    obtain ⟨packets, hall, hbytes⟩ := ih (fun e' he' => hsent e' (List.mem_cons_of_mem _ he'))
    refine ⟨packet :: packets, ?_, ?_⟩
    · intro p hp
      rcases List.mem_cons.mp hp with rfl | hp
      · exact hsends
      · exact hall p hp
    · rw [packetStream_cons, List.flatten_cons, hbytes]

/-- A session that has handled packets of the other peer only, and has nothing buffered. -/
structure Clean (integrity : IntegrityConfig) (sent : Bytes → Prop) (party : Party) : Prop where
  fed : Fed integrity sent party
  empty : party.state.ingress.rest = []

theorem Peer.Live.mono {I J : Party → Prop} (h : a.Live I) (hIJ : ∀ party, I party → J party) :
    a.Live J := by
  intro engine hengine
  obtain ⟨hconfig, hsessions, hI⟩ := h engine hengine
  exact ⟨hconfig, hsessions, hIJ _ hI⟩

theorem Clean.step (hsame : other.integrity = config.integrity) {party : Party} {op : EngineOp}
    (h : Clean config.integrity (b.Sends other) party)
    (hbytes : ∀ bytes, op = .receive bytes →
      ∃ packets, (∀ p ∈ packets, b.Sends other p) ∧ bytes = packetStream config.integrity packets)
    (hok : op.keeps config party.state = true) :
    Clean config.integrity (b.Sends other) (party.step config op) := by
  have hlen : ∀ p, b.Sends other p → p.length ≤ maxPacketLen ∧ p.length ≤ maxWireBytes ∧
      (envelope config.integrity p).length ≤ maxWireBytes := by
    intro p hp
    rw [← hsame]
    exact hp.length_le
  refine ⟨h.fed.step hlen op hbytes, ?_⟩
  have hkept (op : CallOp) : (Call.after config ⟨party.state, op⟩).ingress.rest = [] :=
    (congrArg StreamingDecoder.rest (Call.ingress_after config ⟨party.state, op⟩)).trans h.empty
  cases op with
  | send message => exact hkept (.send .data message)
  | sendLog message => exact hkept (.send .log message)
  | sendPing => exact hkept .sendPing
  | poll nowMs txLen => exact hkept (.poll nowMs txLen)
  | receive bytes =>
    obtain ⟨packets, hall, hstream⟩ := hbytes bytes rfl
    have hreceived : (party.state.receiveBytes config bytes).2.isError = false := by
      simpa [EngineOp.keeps] using hok
    rw [hstream] at hreceived
    show (party.state.receiveBytes config bytes).1.ingress.rest = []
    rw [hstream]
    exact rest_receiveBytes h.empty (fun p hp => hlen p (hall p hp)) hreceived

/-- A step of one side keeps its session clean. -/
theorem Peer.Live.clean_step (hsame : other.integrity = config.integrity)
    (hrun : PeerRun config a) (hother : PeerRun other b)
    (h : a.Live (Clean config.integrity (b.Sends other))) (op : SlotOp)
    (hop : ∀ nowMs bytes, op = .receive nowMs bytes → b.Transmitted bytes) :
    (a.step op).Live (Clean config.integrity (b.Sends other)) := by
  have hconfig := hrun.config_eq
  refine h.step op ⟨.new _, rfl⟩ ?_
  intro eop hmem party hparty hok
  rw [hconfig] at hok ⊢
  refine hparty.step hsame ?_ hok
  intro bytes heop
  obtain ⟨nowMs, hreceive⟩ := Peer.receive_of_mem_engineOps (heop ▸ hmem)
  rw [← hsame]
  exact (hop nowMs bytes hreceive).packetStream hother

/-- What holds of two peers on a link. -/
structure LinkInv (left right : EngineConfig) (link : Peer × Peer) : Prop where
  runLeft : PeerRun left link.1
  runRight : PeerRun right link.2
  cleanLeft : link.1.Live (Clean left.integrity (link.2.Sends right))
  cleanRight : link.2.Live (Clean right.integrity (link.1.Sends left))

theorem LinkInv.step {left right : EngineConfig} (hsame : left.integrity = right.integrity)
    {link link' : Peer × Peer} (h : LinkInv left right link) (hstep : LinkStep link link') :
    LinkInv left right link' := by
  cases hstep with
  | left op hop =>
    exact ⟨h.runLeft.step op, h.runRight,
      h.cleanLeft.clean_step hsame.symm h.runLeft h.runRight op hop,
      h.cleanRight.mono fun party hp => ⟨hp.fed.mono fun p hs => hs.step op, hp.empty⟩⟩
  | right op hop =>
    exact ⟨h.runLeft, h.runRight.step op,
      h.cleanLeft.mono fun party hp => ⟨hp.fed.mono fun p hs => hs.step op, hp.empty⟩,
      h.cleanRight.clean_step hsame h.runRight h.runLeft op hop⟩

/-- **Live sessions on a link handle packets of the other peer only.** -/
theorem PeerLink.inv {left right : EngineConfig} (hsame : left.integrity = right.integrity)
    {link : Peer × Peer} (h : PeerLink left right link) : LinkInv left right link := by
  induction h with
  | refl => exact ⟨.new, .new, Peer.live_new _ _, Peer.live_new _ _⟩
  | tail _ hstep ih => exact ih.step hsame hstep

end Link

/-! ## Scripts -/

/-- A step of a script: an operation of one peer, or the delivery of envelopes of the other one,
named by the order in which they were transmitted. -/
inductive PeerLinkOp where
  | left (op : SlotOp)
  | right (op : SlotOp)
  | toRight (nowMs : Nat) (numbers : List Nat)
  | toLeft (nowMs : Nat) (numbers : List Nat)

/-- The envelopes with the given numbers, one after the other. -/
def Peer.envelopes (peer : Peer) (numbers : List Nat) : List Bytes :=
  numbers.filterMap (fun n => peer.sent[n]?)

theorem Peer.transmitted_envelopes (peer : Peer) (numbers : List Nat) :
    peer.Transmitted (peer.envelopes numbers).flatten := by
  refine ⟨_, ?_, rfl⟩
  intro e he
  obtain ⟨n, -, hn⟩ := List.mem_filterMap.mp he
  exact List.mem_of_getElem? hn

/-- One step of a script; receives stand for deliveries only. -/
def PeerLinkOp.run (op : PeerLinkOp) (link : Peer × Peer) : Peer × Peer :=
  match op with
  | .left (.receive _ _) | .right (.receive _ _) => link
  | .left op => (link.1.step op, link.2)
  | .right op => (link.1, link.2.step op)
  | .toRight nowMs numbers =>
    (link.1, link.2.step (.receive nowMs (link.1.envelopes numbers).flatten))
  | .toLeft nowMs numbers =>
    (link.1.step (.receive nowMs (link.2.envelopes numbers).flatten), link.2)

/-- A step of a script is a step of the link, or nothing. -/
theorem PeerLinkOp.linkStep (op : PeerLinkOp) (link : Peer × Peer) :
    Relation.ReflTransGen LinkStep link (op.run link) := by
  obtain ⟨a, b⟩ := link
  cases op with
  | left op =>
    cases op with
    | receive nowMs bytes => exact .refl
    | connect | acceptPassive | acceptPassiveIfNeeded | disconnect | send | poll
    | disconnectIfIdle => exact .single (.left _ (by simp))
  | right op =>
    cases op with
    | receive nowMs bytes => exact .refl
    | connect | acceptPassive | acceptPassiveIfNeeded | disconnect | send | poll
    | disconnectIfIdle => exact .single (.right _ (by simp))
  | toRight nowMs numbers =>
    refine .single (.right _ ?_)
    intro _ bytes h
    obtain ⟨-, rfl⟩ := SlotOp.receive.inj h
    exact a.transmitted_envelopes numbers
  | toLeft nowMs numbers =>
    refine .single (.left _ ?_)
    intro _ bytes h
    obtain ⟨-, rfl⟩ := SlotOp.receive.inj h
    exact b.transmitted_envelopes numbers

/-- The peers after a script. -/
def runPeerLink (left right : EngineConfig) (ops : List PeerLinkOp) : Peer × Peer :=
  ops.foldl (fun link op => op.run link) (.new left, .new right)

theorem peerLink_foldl (link : Peer × Peer) (ops : List PeerLinkOp) :
    Relation.ReflTransGen LinkStep link (ops.foldl (fun link op => op.run link) link) := by
  induction ops generalizing link with
  | nil => exact .refl
  | cons op ops ih => exact (op.linkStep link).trans (ih _)

theorem peerLink_runPeerLink (left right : EngineConfig) (ops : List PeerLinkOp) :
    PeerLink left right (runPeerLink left right ops) := peerLink_foldl _ ops

end Msrt
