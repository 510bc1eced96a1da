import Msrt.PeerLink

/-! # A client that reconnects

A client endpoint may drop its session and connect again; the passive endpoint keeps the session it
has.  Every session of the client starts from the same message id, and packets carry no session, so
the passive side cannot tell a packet of the new session from one of an old session with the same
key: it answers it as a duplicate, or an old acknowledgement answers it.  An acknowledged message is
delivered as long as no packet of another message with its id comes between
(`reconnected_pushed`).

A run is a run of peers, which record their sessions and transmissions.  What it says about the program is
said by `endpointSteps_iff`: such runs are exactly the runs of a `ClientEndpoint` and a `PassiveEndpoint`,
each fed envelopes that the other one has transmitted.
-/

namespace Msrt
open EngineState

/-! ## Endpoints -/

/-- The operations of a client endpoint, apart from receiving. -/
inductive ClientOp where
  | connect (nowMs : Nat)
  | disconnect
  | send (message : Bytes)
  | poll (nowMs txLen : Nat)
  | disconnectIfIdle (nowMs timeoutMs : Nat)

/-- The operations of a passive endpoint, apart from receiving. -/
inductive PassiveOp where
  | disconnect
  | send (message : Bytes)
  | poll (nowMs txLen : Nat)
  | disconnectIfIdle (nowMs timeoutMs : Nat)

namespace ClientOp

/-- The operation of the slot behind the endpoint. -/
def slotOp : ClientOp → SlotOp
  | .connect nowMs => .connect nowMs
  | .disconnect => .disconnect
  | .send message => .send message
  | .poll nowMs txLen => .poll nowMs txLen
  | .disconnectIfIdle nowMs timeoutMs => .disconnectIfIdle nowMs timeoutMs

/-- The endpoint after the operation. -/
def after (op : ClientOp) (c : ClientEndpoint) : ClientEndpoint :=
  match op with
  | .connect nowMs => (c.connect nowMs).1
  | .disconnect => c.disconnect
  | .send message => (c.send message).1
  | .poll nowMs txLen => (c.poll nowMs txLen).1
  | .disconnectIfIdle nowMs timeoutMs => (c.disconnectIfIdle nowMs timeoutMs).1

theorem peer_after (op : ClientOp) (c : ClientEndpoint) :
    (op.after c).peer = op.slotOp.after c.peer := by
  cases op <;> rfl

end ClientOp

namespace PassiveOp

/-- The operation of the slot behind the endpoint. -/
def slotOp : PassiveOp → SlotOp
  | .disconnect => .disconnect
  | .send message => .send message
  | .poll nowMs txLen => .poll nowMs txLen
  | .disconnectIfIdle nowMs timeoutMs => .disconnectIfIdle nowMs timeoutMs

/-- The endpoint after the operation. -/
def after (op : PassiveOp) (p : PassiveEndpoint) : PassiveEndpoint :=
  match op with
  | .disconnect => p.disconnect
  | .send message => (p.send message).1
  | .poll nowMs txLen => (p.poll nowMs txLen).1
  | .disconnectIfIdle nowMs timeoutMs => (p.disconnectIfIdle nowMs timeoutMs).1

theorem peer_after (op : PassiveOp) (p : PassiveEndpoint) :
    (op.after p).peer = op.slotOp.after p.peer := by
  cases op <;> rfl

end PassiveOp

/-- A passive endpoint accepts a session before it receives. -/
def Peer.receivePassive (peer : Peer) (nowMs : Nat) (bytes : Bytes) : Peer :=
  (peer.step (.acceptPassiveIfNeeded nowMs)).step (.receive nowMs bytes)

theorem PassiveEndpoint.peer_receive {peer : Peer} {p : PassiveEndpoint} (h : peer.slot = p.peer)
    (nowMs : Nat) (bytes : Bytes) :
    (peer.receivePassive nowMs bytes).slot = (p.receive nowMs bytes).1.peer := by
  show SlotOp.after (.receive nowMs bytes) (SlotOp.after (.acceptPassiveIfNeeded nowMs) peer.slot) = _
  rw [h]
  rfl

/-- One step of a client and a passive endpoint on a link. -/
inductive EndpointStep : Peer × Peer → Peer × Peer → Prop
  | client {c p : Peer} (op : ClientOp) : EndpointStep (c, p) (c.step op.slotOp, p)
  | passive {c p : Peer} (op : PassiveOp) : EndpointStep (c, p) (c, p.step op.slotOp)
  | toClient {c p : Peer} (nowMs : Nat) (bytes : Bytes) : p.Transmitted bytes →
      EndpointStep (c, p) (c.step (.receive nowMs bytes), p)
  | toPassive {c p : Peer} (nowMs : Nat) (bytes : Bytes) : c.Transmitted bytes →
      EndpointStep (c, p) (c, p.receivePassive nowMs bytes)

/-- The steps from one pair of endpoints to another. -/
abbrev EndpointSteps := Relation.ReflTransGen EndpointStep

/-! ## The endpoints behind the peers -/

/-- The envelope of a poll that transmits. -/
def transmittedBytes : Except Error EnginePoll → Option Bytes
  | .ok (.transmit bytes _) => some bytes
  | _ => none

/-- What an operation of the client endpoint transmits. -/
def ClientOp.transmitted : ClientOp → ClientEndpoint → Option Bytes
  | .poll nowMs txLen, c => transmittedBytes (c.poll nowMs txLen).2
  | _, _ => none

/-- What an operation of the passive endpoint transmits. -/
def PassiveOp.transmitted : PassiveOp → PassiveEndpoint → Option Bytes
  | .poll nowMs txLen, p => transmittedBytes (p.poll nowMs txLen).2
  | _, _ => none

/-- A client and a passive endpoint, and the envelopes that each has transmitted so far. -/
structure EndpointLink where
  client : ClientEndpoint
  passive : PassiveEndpoint
  clientSent : List Bytes
  passiveSent : List Bytes

/-- One operation of an endpoint, or the arrival of envelopes that the other one has transmitted. -/
inductive EndpointMove (l : EndpointLink) : EndpointLink → Prop
  | client (op : ClientOp) : EndpointMove l
      { l with
        client := op.after l.client
        clientSent := l.clientSent ++ (op.transmitted l.client).toList }
  | passive (op : PassiveOp) : EndpointMove l
      { l with
        passive := op.after l.passive
        passiveSent := l.passiveSent ++ (op.transmitted l.passive).toList }
  | toClient (nowMs : Nat) (envelopes : List Bytes) : (∀ e ∈ envelopes, e ∈ l.passiveSent) →
      EndpointMove l { l with client := (l.client.receive nowMs envelopes.flatten).1 }
  | toPassive (nowMs : Nat) (envelopes : List Bytes) : (∀ e ∈ envelopes, e ∈ l.clientSent) →
      EndpointMove l { l with passive := (l.passive.receive nowMs envelopes.flatten).1 }

/-- The endpoints whose sessions two peers record. -/
def endpoints (link : Peer × Peer) : EndpointLink :=
  ⟨⟨link.1.slot⟩, ⟨link.2.slot⟩, link.1.sent, link.2.sent⟩

section Endpoints
variable {c p : Peer}

/-- An operation of the peer is the operation of the endpoint behind it. -/
theorem endpoints_client (op : ClientOp) : endpoints (c.step op.slotOp, p) =
    { endpoints (c, p) with
      client := op.after ⟨c.slot⟩
      clientSent := c.sent ++ (op.transmitted ⟨c.slot⟩).toList } := by
  have htransmitted : op.slotOp.transmitted c.slot = op.transmitted ⟨c.slot⟩ := by
    cases op <;> rfl
  simp only [endpoints, Peer.step, htransmitted, ← ClientOp.peer_after op ⟨c.slot⟩]

theorem endpoints_passive (op : PassiveOp) : endpoints (c, p.step op.slotOp) =
    { endpoints (c, p) with
      passive := op.after ⟨p.slot⟩
      passiveSent := p.sent ++ (op.transmitted ⟨p.slot⟩).toList } := by
  have htransmitted : op.slotOp.transmitted p.slot = op.transmitted ⟨p.slot⟩ := by
    cases op <;> rfl
  simp only [endpoints, Peer.step, htransmitted, ← PassiveOp.peer_after op ⟨p.slot⟩]

theorem endpoints_toClient (nowMs : Nat) (bytes : Bytes) :
    endpoints (c.step (.receive nowMs bytes), p) =
      { endpoints (c, p) with client := ((⟨c.slot⟩ : ClientEndpoint).receive nowMs bytes).1 } := by
  have hsent : (c.step (.receive nowMs bytes)).sent = c.sent := List.append_nil _
  rw [endpoints, hsent]
  rfl

/-- Accepting a session first is what the passive endpoint does. -/
theorem endpoints_toPassive (nowMs : Nat) (bytes : Bytes) :
    endpoints (c, p.receivePassive nowMs bytes) =
      { endpoints (c, p) with passive := ((⟨p.slot⟩ : PassiveEndpoint).receive nowMs bytes).1 } := by
  have hsent : (p.receivePassive nowMs bytes).sent = p.sent := by
    show p.sent ++ [] ++ [] = p.sent
    rw [List.append_nil, List.append_nil]
  have hpeer : (p.receivePassive nowMs bytes).slot =
      ((⟨p.slot⟩ : PassiveEndpoint).receive nowMs bytes).1.peer :=
    PassiveEndpoint.peer_receive rfl nowMs bytes
  rw [endpoints, hsent, hpeer]
  rfl

/-- A step of the peers is a move of the endpoints behind them, and the other way round. -/
theorem endpointStep_iff {link : Peer × Peer} {l : EndpointLink} :
    EndpointMove (endpoints link) l ↔ ∃ link', EndpointStep link link' ∧ endpoints link' = l := by
  obtain ⟨c, p⟩ := link
  constructor
  · intro hmove
    cases hmove with
    | client op => exact ⟨_, .client op, endpoints_client op⟩
    | passive op => exact ⟨_, .passive op, endpoints_passive op⟩
    | toClient nowMs envelopes hsent =>
      exact ⟨_, .toClient nowMs _ ⟨envelopes, hsent, rfl⟩, endpoints_toClient nowMs _⟩
    | toPassive nowMs envelopes hsent =>
      exact ⟨_, .toPassive nowMs _ ⟨envelopes, hsent, rfl⟩, endpoints_toPassive nowMs _⟩
  · rintro ⟨link', hstep, rfl⟩
    cases hstep with
    | client op =>
      rw [endpoints_client]
      exact .client op
    | passive op =>
      rw [endpoints_passive]
      exact .passive op
    | toClient nowMs bytes hbytes =>
      obtain ⟨envelopes, hsent, rfl⟩ := hbytes
      rw [endpoints_toClient]
      exact .toClient nowMs envelopes hsent
    | toPassive nowMs bytes hbytes =>
      obtain ⟨envelopes, hsent, rfl⟩ := hbytes
      rw [endpoints_toPassive]
      exact .toPassive nowMs envelopes hsent

/-- **The runs of the peers are the runs of the endpoints**: the recorded sessions add nothing and
exclude nothing. -/
theorem endpointSteps_iff {link : Peer × Peer} {l : EndpointLink} :
    Relation.ReflTransGen EndpointMove (endpoints link) l ↔
      ∃ link', EndpointSteps link link' ∧ endpoints link' = l := by
  constructor
  · intro hmoves
    induction hmoves with
    | refl => exact ⟨link, .refl, rfl⟩
    | tail _ hmove ih =>
      obtain ⟨mid, hsteps, rfl⟩ := ih
      obtain ⟨link', hstep, hends⟩ := endpointStep_iff.mp hmove
      exact ⟨link', hsteps.tail hstep, hends⟩
  · rintro ⟨link', hsteps, rfl⟩
    induction hsteps with
    | refl => exact .refl
    | tail _ hstep ih => exact ih.tail (endpointStep_iff.mpr ⟨_, hstep, rfl⟩)

end Endpoints

/-! ## Steps on the link -/

theorem ClientOp.slotOp_ne_receive (op : ClientOp) (nowMs : Nat) (bytes : Bytes) :
    op.slotOp ≠ .receive nowMs bytes := by
  cases op <;> simp [ClientOp.slotOp]

theorem PassiveOp.slotOp_ne_receive (op : PassiveOp) (nowMs : Nat) (bytes : Bytes) :
    op.slotOp ≠ .receive nowMs bytes := by
  cases op <;> simp [PassiveOp.slotOp]

/-- Endpoints are slots on a link. -/
theorem EndpointStep.linkSteps {link link' : Peer × Peer} (h : EndpointStep link link') :
    Relation.ReflTransGen LinkStep link link' := by
  cases h with
  | client op => exact .single (.left _ fun nowMs bytes h => absurd h (op.slotOp_ne_receive _ _))
  | passive op => exact .single (.right _ fun nowMs bytes h => absurd h (op.slotOp_ne_receive _ _))
  | toClient nowMs bytes hbytes =>
    refine .single (.left _ ?_)
    intro _ bytes' h
    obtain ⟨-, rfl⟩ := SlotOp.receive.inj h
    exact hbytes
  | toPassive nowMs bytes hbytes =>
    refine .tail (.single (.right (.acceptPassiveIfNeeded nowMs) (by simp))) (.right _ ?_)
    intro _ bytes' h
    obtain ⟨-, rfl⟩ := SlotOp.receive.inj h
    exact hbytes

theorem EndpointSteps.linkSteps {link link' : Peer × Peer} (h : EndpointSteps link link') :
    Relation.ReflTransGen LinkStep link link' := by
  induction h with
  | refl => exact .refl
  | tail _ hstep ih => exact ih.trans hstep.linkSteps

/-! ## A peer with one session -/

section OneSession
variable {peer : Peer} {config : EngineConfig}

theorem Peer.calls_of_nil (h : peer.sessions = []) : peer.calls = [] := by
  rw [Peer.calls, h]
  rfl

/-- Without a second session, calls are only added. -/
theorem Peer.step_one_session {op : SlotOp} (h : (peer.step op).sessions.length ≤ 1) :
    peer.sessions.length ≤ 1 ∧ ∃ new, (peer.step op).calls = peer.calls ++ new := by
  have hopened : (peer.opened op).length ≤ 1 := by
    unfold Peer.step at h
    cases ho : peer.opened op with
    | nil => exact Nat.zero_le _
    | cons calls sessions => simpa [ho] using h
  unfold Peer.opened at hopened
  by_cases hopens : op.opens peer.slot = true
  · rw [if_pos hopens, List.length_cons] at hopened
    have hnone : peer.sessions = [] := List.length_eq_zero_iff.mp (by omega)
    refine ⟨by rw [hnone]; exact Nat.zero_le _, (peer.step op).calls, ?_⟩
    rw [Peer.calls_of_nil hnone, List.nil_append]
  · rw [if_neg hopens] at hopened
    refine ⟨hopened, ?_⟩
    by_cases hne : peer.sessions = []
    · exact ⟨(peer.step op).calls, by rw [Peer.calls_of_nil hne, List.nil_append]⟩
    · have hsame : peer.opened op = peer.sessions := if_neg hopens
      exact ⟨peer.newCalls op, by rw [Peer.calls_step (by rw [hsame]; exact hne), hsame]; rfl⟩

theorem calls_prefix_of_linkSteps {link link' : Peer × Peer}
    (h : Relation.ReflTransGen LinkStep link link') (hone : link'.2.sessions.length ≤ 1) :
    ∃ later, link'.2.calls = link.2.calls ++ later := by
  induction h with
  | refl => exact ⟨[], (List.append_nil _).symm⟩
  | tail _ hstep ih =>
    cases hstep with
    | left op _ => exact ih hone
    | right op _ =>
      obtain ⟨hbefore, new, hnew⟩ := Peer.step_one_session hone
      obtain ⟨later, hlater⟩ := ih hbefore
      exact ⟨later ++ new, by rw [hnew, hlater, List.append_assoc]⟩

/-- What a peer with one session sends comes from that session. -/
theorem Peer.Sends.of_one_session {packet : Bytes} (h : peer.Sends config packet)
    (hone : peer.sessions.length ≤ 1) : Origin config peer.calls packet := by
  obtain ⟨calls, hmem, horigin⟩ := h
  cases hs : peer.sessions with
  | nil =>
    rw [hs] at hmem
    cases hmem
  | cons first rest =>
    rw [hs, List.length_cons] at hone
    obtain rfl : rest = [] := List.length_eq_zero_iff.mp (by omega)
    rw [hs] at hmem
    rw [Peer.calls, hs]
    exact List.mem_singleton.mp hmem ▸ horigin

end OneSession

/-- The fragment belongs to a message that some session of the peer accepted under `key`. -/
def Peer.Fragment (config : EngineConfig) (peer : Peer) (key : MessageKey)
    (fragment : MessageFragment) : Prop :=
  ∃ calls ∈ peer.sessions, ∃ send ∈ calls, ∃ m, send.accepted config = some m ∧
    m.messageKey = key ∧ ∃ i < m.count config, fragment = m.messageFragment config i

/-! ## Acknowledged in the current session -/

section Reconnect
variable {client passive : EngineConfig} {c₀ p₀ c p : Peer}

/-- What the live session of a peer hands to reassembly are fragments of the other peer. -/
theorem Peer.Live.observed {config : EngineConfig} {integrity : IntegrityConfig}
    (h : p.Live (Clean integrity (c.Sends config))) (hlive : p.slot.hasSession = true) {call : Call}
    (hc : call ∈ p.calls) {fragment : MessageFragment} (hobserved : call.observed = some fragment) :
    c.Fragment config fragment.messageKey fragment := by
  obtain ⟨engine, hengine⟩ := Option.isSome_iff_exists.mp hlive
  obtain ⟨-, -, hclean⟩ := h engine hengine
  obtain ⟨bytes, hop⟩ := op_of_observed hobserved
  obtain ⟨calls, hcalls, horigin⟩ := hclean.fed.handled call hc bytes hop
  obtain ⟨send, hsend, m, hm, i, hi, rfl⟩ := horigin.observed hop hobserved
  exact ⟨calls, hcalls, send, hsend, m, hm, rfl, i, hi, rfl⟩

/-- What the live session of a peer takes as acknowledged was accepted by the other peer. -/
theorem Peer.Live.acknowledged {config : EngineConfig} {integrity : IntegrityConfig}
    (h : c.Live (Clean integrity (p.Sends config))) (hlive : c.slot.hasSession = true)
    (hone : p.sessions.length ≤ 1) {call : Call} (hc : call ∈ c.calls) {key : PacketKey}
    (hack : call.acknowledged = some key) : key ∈ acceptedKeys p.calls := by
  obtain ⟨engine, hengine⟩ := Option.isSome_iff_exists.mp hlive
  obtain ⟨-, -, hclean⟩ := h engine hengine
  obtain ⟨bytes, hop⟩ := op_of_acknowledged hack
  exact ((hclean.fed.handled call hc bytes hop).of_one_session hone).acknowledged hop hack

/-- **An acknowledged message of the current session was delivered after it was sent**, as long as
packets of other messages with its id stay away: the passive side handled no packet of the client
under that id before the message was sent, and since then only the message's own. -/
theorem reconnected_pushed (hsame : client.integrity = passive.integrity)
    (hbefore : EndpointSteps (.new client, .new passive) (c₀, p₀)) (op : ClientOp)
    {m : SentMessage} (hsent : ∃ send ∈ c₀.newCalls op.slotOp, send.accepted client = some m)
    (hdata : m.packetType = .data)
    (hafter : EndpointSteps (c₀.step op.slotOp, p₀) (c, p))
    (hlive : c.slot.hasSession = true) (hkept : p.slot.hasSession = true)
    (hone : p.sessions.length ≤ 1)
    (hyoung : ∀ call ∈ p.calls, call.expiresSlot passive = false)
    (hroom : ∀ call ∈ p.calls, call.evictsSlot = false)
    (hnew : ∀ call ∈ p₀.calls, ∀ fragment, call.observed = some fragment →
      ¬ c.Fragment client m.messageKey fragment)
    (hown : ∀ call ∈ p.calls, ∀ fragment, call.observed = some fragment →
      c.Fragment client m.messageKey fragment →
      ∃ i < m.count client, fragment = m.messageFragment client i)
    (hacked : ∀ i < m.count client, ∃ call ∈ c.calls, call.acknowledged = some (m.packetKey i)) :
    ∃ later, p.calls = p₀.calls ++ later ∧ ∃ call ∈ later, ∃ e, call.pushed = some e ∧
      e.packetType = .data ∧ e.messageId = m.messageId ∧ e.asBytes = m.bytes := by
  obtain ⟨send, -, hm⟩ := hsent
  have hlink : PeerLink client passive (c, p) :=
    (hbefore.linkSteps.trans (EndpointStep.client op).linkSteps).trans hafter.linkSteps
  have hinv := hlink.inv hsame
  obtain ⟨engine, hengine⟩ := Option.isSome_iff_exists.mp hkept
  have hrun : PacketRun passive p.calls engine.state := (hinv.runRight.live engine hengine).2.2
  obtain ⟨hvalid, hcount⟩ := accepted_valid hm
  -- what the session handles under the id comes from the client, so it is a fragment of the message
  have hfragments : OwnFragments client m p.calls := by
    intro call hc fragment hobserved hkey
    apply hown call hc fragment hobserved
    rw [← hkey]
    exact hinv.cleanRight.observed hkept hc hobserved
  have hall : ∀ i < m.count client, Accepted client m p.calls i := by
    intro i hi
    obtain ⟨call, hc, hack⟩ := hacked i hi
    exact accepted_of_key hfragments hdata hcount hi
      (hinv.cleanLeft.acknowledged hlive hone hc hack)
  obtain ⟨call, hc, hpushes⟩ := hrun.pushed_of_accepted hvalid hdata hfragments hyoung hroom hall
  obtain ⟨e, hpushed, htype, hid, hbytes⟩ := hrun.pushed_genuine hvalid hfragments hc hpushes
  obtain ⟨later, hlater⟩ := calls_prefix_of_linkSteps hafter.linkSteps hone
  refine ⟨later, hlater, call, ?_, e, hpushed, htype.trans hdata, hid, hbytes⟩
  rcases List.mem_append.mp (hlater ▸ hc) with hold | hin
  · -- before the send nothing was handled under this id
    obtain ⟨fragment, hobserved, hkind, hfid⟩ := hrun.observed_of_pushed hc hpushed
    have hkey : fragment.messageKey = m.messageKey := by
      rw [MessageFragment.messageKey, SentMessage.messageKey, ← hkind, ← hfid, htype, hid]
    have hfragment := hinv.cleanRight.observed hkept hc hobserved
    rw [hkey] at hfragment
    exact absurd hfragment (hnew call hold fragment hobserved)
  · exact hin

end Reconnect

/-! ## Scripts -/

/-- A step of a script; envelopes are named by the order in which they were transmitted. -/
inductive EndpointOp where
  | client (op : ClientOp)
  | passive (op : PassiveOp)
  | toClient (nowMs : Nat) (numbers : List Nat)
  | toPassive (nowMs : Nat) (numbers : List Nat)

/-- One step of a script. -/
def EndpointOp.run (op : EndpointOp) (link : Peer × Peer) : Peer × Peer :=
  match op with
  | .client op => (link.1.step op.slotOp, link.2)
  | .passive op => (link.1, link.2.step op.slotOp)
  | .toClient nowMs numbers =>
    (link.1.step (.receive nowMs (link.2.envelopes numbers).flatten), link.2)
  | .toPassive nowMs numbers =>
    (link.1, link.2.receivePassive nowMs (link.1.envelopes numbers).flatten)

/-- The two endpoints after a script. -/
def runEndpoints (ops : List EndpointOp) (link : Peer × Peer) : Peer × Peer :=
  ops.foldl (fun link op => op.run link) link

theorem EndpointOp.endpointStep (op : EndpointOp) (link : Peer × Peer) :
    EndpointStep link (op.run link) := by
  cases op with
  | client op => exact .client op
  | passive op => exact .passive op
  | toClient nowMs numbers => exact .toClient nowMs _ (link.2.transmitted_envelopes numbers)
  | toPassive nowMs numbers => exact .toPassive nowMs _ (link.1.transmitted_envelopes numbers)

theorem endpointSteps_runEndpoints (ops : List EndpointOp) (link : Peer × Peer) :
    EndpointSteps link (runEndpoints ops link) := by
  induction ops generalizing link with
  | nil => exact .refl
  | cons op ops ih => exact .head (op.endpointStep link) (ih _)

/-- A first session that ends with its hello delivered, or lost. -/
def firstSession (delivered : Bool) : Peer × Peer :=
  runEndpoints ([.client (.connect 0), .client (.poll 0 128)] ++
    (if delivered then [.toPassive 0 [0], .passive (.poll 0 128), .toClient 0 [0]] else []) ++
    [.client .disconnect]) (.new .default, .new .default)

/-- A second session whose hello is acknowledged by envelope `ack` of the passive side. -/
def secondSession (delivered : Bool) (ack : Nat) : Peer × Peer :=
  runEndpoints [.client (.poll 1 128), .toPassive 1 [1], .passive (.poll 1 128), .toClient 1 [ack]]
    ((firstSession delivered).1.step (.connect 1), (firstSession delivered).2)

theorem firstSession_steps (delivered : Bool) :
    EndpointSteps (.new .default, .new .default)
      ((firstSession delivered).1, (firstSession delivered).2) :=
  endpointSteps_runEndpoints _ _

theorem secondSession_steps (delivered : Bool) (ack : Nat) :
    EndpointSteps ((firstSession delivered).1.step (ClientOp.connect 1).slotOp,
        (firstSession delivered).2)
      ((secondSession delivered ack).1, (secondSession delivered ack).2) :=
  endpointSteps_runEndpoints _ _

/-- The second hello, and what became of it. -/
def helloAcknowledged (delivered : Bool) (ack : Nat) (m : SentMessage) : Bool :=
  let link := secondSession delivered ack
  m.packetType == .data && link.1.slot.hasSession && link.2.slot.hasSession &&
    decide (link.2.sessions.length ≤ 1) &&
    link.2.calls.all (fun call => !call.expiresSlot .default && !call.evictsSlot) &&
    (List.range (m.count .default)).all (fun i =>
      link.1.calls.any fun call => call.acknowledged == some (m.packetKey i))

theorem helloAcknowledged_iff {delivered : Bool} {ack : Nat} {m : SentMessage}
    (h : helloAcknowledged delivered ack m = true) :
    m.packetType = .data ∧ (secondSession delivered ack).1.slot.hasSession = true ∧
      (secondSession delivered ack).2.slot.hasSession = true ∧
      (secondSession delivered ack).2.sessions.length ≤ 1 ∧
      (∀ call ∈ (secondSession delivered ack).2.calls, call.expiresSlot .default = false) ∧
      (∀ call ∈ (secondSession delivered ack).2.calls, call.evictsSlot = false) ∧
      ∀ i < m.count .default, ∃ call ∈ (secondSession delivered ack).1.calls,
        call.acknowledged = some (m.packetKey i) := by
  simp only [helloAcknowledged, Bool.and_eq_true, beq_iff_eq, decide_eq_true_eq, List.all_eq_true,
    List.mem_range, List.any_eq_true, Bool.not_eq_true'] at h
  obtain ⟨⟨⟨⟨⟨hdata, hlive⟩, hkept⟩, hone⟩, hheld⟩, hacked⟩ := h
  exact ⟨hdata, hlive, hkept, hone, fun call hc => (hheld call hc).1,
    fun call hc => (hheld call hc).2, hacked⟩

theorem secondSession_delivers : ((firstSession false).1.newCalls (.connect 1)).any (fun send =>
    match send.accepted .default with
    | some m => helloAcknowledged false 0 m && (firstSession false).2.calls.isEmpty &&
        (secondSession false 0).2.calls.all fun call =>
          match call.observed with
          | some fragment => (List.range (m.count .default)).any fun i =>
              fragment == m.messageFragment .default i
          | none => true
    | none => false) = true := by
  decide +kernel

/-- The hello of a first session is lost; the second session's one is acknowledged and pushed. -/
theorem reconnected_pushed_hello : ∃ m : SentMessage, ∃ call ∈ (secondSession false 0).2.calls,
    ∃ e, call.pushed = some e ∧ e.packetType = .data ∧ e.messageId = m.messageId ∧
      e.asBytes = m.bytes := by
  obtain ⟨send, hsend, hm⟩ := List.any_eq_true.mp secondSession_delivers
  split at hm
  · rename_i m haccepted
    rw [Bool.and_eq_true, Bool.and_eq_true, List.isEmpty_iff] at hm
    obtain ⟨⟨hhello, hempty⟩, hobserved⟩ := hm
    obtain ⟨hdata, hlive, hkept, hone, hyoung, hroom, hacked⟩ := helloAcknowledged_iff hhello
    have hown : ∀ call ∈ (secondSession false 0).2.calls, ∀ fragment,
        call.observed = some fragment →
        (secondSession false 0).1.Fragment .default m.messageKey fragment →
        ∃ i < m.count .default, fragment = m.messageFragment .default i := by
      intro call hc fragment hf _
      have := List.all_eq_true.mp hobserved call hc
      rw [hf] at this
      simpa using this
    obtain ⟨later, hlater, call, hin, hpushed⟩ := reconnected_pushed rfl (firstSession_steps false)
      (.connect 1) ⟨send, hsend, haccepted⟩ hdata (secondSession_steps false 0) hlive hkept hone
      hyoung hroom (by rw [hempty]; simp) hown hacked
    exact ⟨m, call, hlater ▸ List.mem_append_right _ hin, hpushed⟩
  · cases hm

theorem secondSession_loses : ((firstSession true).1.newCalls (.connect 1)).any (fun send =>
    match send.accepted .default with
    | some m => helloAcknowledged true 1 m &&
        ((secondSession true 1).2.calls.drop (firstSession true).2.calls.length).all fun call =>
          !call.pushes m.messageKey
    | none => false) = true := by
  decide +kernel

/-- A hello that was delivered in the first session is acknowledged in the second one as a
duplicate, and not pushed again. -/
theorem not_reconnected_pushed : ¬ ∀ (client passive : EngineConfig) (c₀ p₀ c p : Peer),
    client.integrity = passive.integrity → EndpointSteps (.new client, .new passive) (c₀, p₀) →
    ∀ (op : ClientOp) (m : SentMessage),
    (∃ send ∈ c₀.newCalls op.slotOp, send.accepted client = some m) → m.packetType = .data →
    EndpointSteps (c₀.step op.slotOp, p₀) (c, p) →
    c.slot.hasSession = true → p.slot.hasSession = true → p.sessions.length ≤ 1 →
    (∀ call ∈ p.calls, call.expiresSlot passive = false) →
    (∀ call ∈ p.calls, call.evictsSlot = false) →
    (∀ i < m.count client, ∃ call ∈ c.calls, call.acknowledged = some (m.packetKey i)) →
    ∃ later, p.calls = p₀.calls ++ later ∧ ∃ call ∈ later, call.pushes m.messageKey = true := by
  intro h
  obtain ⟨send, hsend, hm⟩ := List.any_eq_true.mp secondSession_loses
  split at hm
  · rename_i m haccepted
    rw [Bool.and_eq_true] at hm
    obtain ⟨hhello, hnone⟩ := hm
    obtain ⟨hdata, hlive, hkept, hone, hyoung, hroom, hacked⟩ := helloAcknowledged_iff hhello
    obtain ⟨later, hlater, call, hin, hpushes⟩ := h .default .default (firstSession true).1
      (firstSession true).2 (secondSession true 1).1 (secondSession true 1).2 rfl
      (firstSession_steps true) (.connect 1) m ⟨send, hsend, haccepted⟩ hdata
      (secondSession_steps true 1) hlive hkept hone hyoung hroom hacked
    rw [hlater, List.drop_left' rfl] at hnone
    have := List.all_eq_true.mp hnone call hin
    rw [hpushes] at this
    cases this
  · cases hm

end Msrt
