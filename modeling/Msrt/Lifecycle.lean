import Msrt.Sessions

/-! # The lifecycle of a session

A slot is `disconnected` exactly while it has no session, and then it is as good as new; a PING
waits for its answer only while the peer is `connected`; and the peer is `connected` only after a
well-formed packet with a valid tag has arrived since the session was opened (`session_lifecycle`).
The last point follows the bytes: what the ingress buffer holds is the end of what the session has
received, so every packet the decoder hands on stands in these bytes (`Hears`).
-/

namespace Msrt
open EngineState

/-! ## Packets among received bytes -/

/-- A well-formed packet with a valid tag stands in the bytes. -/
def Hears (integrity : IntegrityConfig) (bytes : Bytes) : Prop :=
  ∃ packet tag, decodePacketBytes packet ≠ .malformed ∧ tag.length = integrity.tagLen ∧
    integrity.verify (authenticatedBytes packet) tag = true ∧
    authenticatedBytes packet ++ tag <:+: bytes

theorem Hears.append {integrity : IntegrityConfig} {bytes : Bytes} (h : Hears integrity bytes)
    (more : Bytes) : Hears integrity (bytes ++ more) := by
  obtain ⟨packet, tag, hdec, hlen, hverify, hinfix⟩ := h
  exact ⟨packet, tag, hdec, hlen, hverify, hinfix.trans (List.prefix_append _ _).isInfix⟩

/-- What the decoder has seen when it hands on a packet. -/
theorem classify_eq_packet {capacity : Nat} {integrity : IntegrityConfig} {s packet : Bytes}
    {consumed : Nat} (h : classify capacity integrity s = .packet packet consumed) :
    ∃ packetLen rest, s = envelopeMagic :: packetLen :: headerCrc packetLen :: rest ∧
      candidateLen integrity packetLen ≤ s.length ∧
      candidateVerified integrity packetLen s = true ∧ packet = candidatePacket packetLen s := by
  match s with
  | [] => cases h
  | magic :: tail =>
    by_cases hmagic : magic = envelopeMagic
    · subst hmagic
      match tail with
      | [] => simp [classify] at h
      | [_] => simp [classify] at h
      | packetLen :: crc :: rest =>
        rw [StreamingDecoder.classify_candidate capacity integrity rfl] at h
        -- of the four answers only the last but one is a packet
        split at h
        · cases h
        · rename_i haccepted
          split at h
          · cases h
          · rename_i hlong
            split at h
            · rename_i hverified
              obtain ⟨rfl, -⟩ := StreamDecodeOutcome.packet.inj h
              simp only [headerAccepted, Bool.not_eq_true', Bool.not_eq_false, Bool.and_eq_true,
                beq_iff_eq] at haccepted
              obtain ⟨rfl, -⟩ := haccepted
              exact ⟨packetLen, rest, rfl, Nat.not_lt.mp hlong, hverified, rfl⟩
            · cases h
    · rw [StreamingDecoder.classify_noise capacity integrity rfl hmagic] at h
      cases h

/-- The packet the decoder hands on stands, with its header and a valid tag, at the front. -/
theorem prefix_of_classify {capacity : Nat} {integrity : IntegrityConfig} {s packet : Bytes}
    {consumed : Nat} (h : classify capacity integrity s = .packet packet consumed) :
    ∃ tag, tag.length = integrity.tagLen ∧
      integrity.verify (authenticatedBytes packet) tag = true ∧
      authenticatedBytes packet ++ tag <+: s := by
  obtain ⟨packetLen, rest, hs, hlong, hverified, hpacket⟩ := classify_eq_packet h
  have hcut : candidateLen integrity packetLen - integrity.tagLen = 3 + packetLen.toNat := by
    rw [candidateLen, wireHeaderLen_eq]
    omega
  have hrest : packetLen.toNat ≤ rest.length := by
    rw [hs, candidateLen, wireHeaderLen_eq] at hlong
    simp only [List.length_cons] at hlong
    omega
  have hauth : authenticatedBytes packet = s.take (3 + packetLen.toNat) := by
    have htake : packet = rest.take packetLen.toNat := by
      rw [hpacket, hs]
      simp [candidatePacket, wireHeaderLen_eq]
    have hlen : UInt8.ofNat packet.length = packetLen := by
      rw [htake, List.length_take, Nat.min_eq_left hrest, UInt8.ofNat_toNat]
    rw [authenticatedBytes, hlen, htake, hs, Nat.add_comm]
    rfl
  rw [candidateVerified, hcut, ← hauth] at hverified
  refine ⟨_, ?_, hverified, ?_⟩
  · rw [List.length_drop, List.length_take, Nat.min_eq_left hlong, candidateLen, wireHeaderLen_eq]
    omega
  · have hfront : authenticatedBytes packet =
        (s.take (candidateLen integrity packetLen)).take (3 + packetLen.toNat) := by
      rw [hauth, List.take_take, Nat.min_eq_left (by rw [candidateLen, wireHeaderLen_eq]; omega)]
    rw [hfront, List.take_append_drop]
    exact List.take_prefix _ _

/-! ## What an engine has heard -/

/-- The buffer holds the end of the bytes, and nothing waits for delivery unless a packet stands in
them. -/
structure Audible (integrity : IntegrityConfig) (heard : Bytes) (st : EngineState) : Prop where
  buffered : st.ingress.rest <:+ heard
  delivery : RingQueue.toList st.message ≠ [] → Hears integrity heard

section Audible
variable {config : EngineConfig} {heard : Bytes} {st : EngineState}

theorem audible_new (integrity : IntegrityConfig) (id : MessageId) : Audible integrity [] (.new id) :=
  ⟨List.nil_suffix, fun h => absurd rfl h⟩

/-- A packet that is reported as traffic of the peer is well formed. -/
theorem decode_ne_malformed {packet : Bytes}
    (h : (st.receiveCompletePacket config packet).2.isPeerTraffic = true) :
    decodePacketBytes packet ≠ .malformed := by
  intro hdec
  simp only [receiveCompletePacket, hdec] at h
  cases h

theorem decode_ne_malformed_of_pushed {packet : Bytes} {e : MessageEvent}
    (h : Call.pushed ⟨st, .packet packet⟩ = some e) : decodePacketBytes packet ≠ .malformed := by
  intro hdec
  simp only [Call.pushed, hdec] at h
  cases h

theorem isPeerTraffic_finalReport {report : ReceiveReport} {additional : Option Nat}
    (h : (finalReport report additional).isPeerTraffic = true) : report.isPeerTraffic = true := by
  cases report with
  | incomplete => cases h
  | packet | duplicate | ack | ping | pong | noise | corrupted | error => exact h

/-- A call that handles no packet hears nothing. -/
theorem Audible.call (h : Audible config.integrity heard st) (op : CallOp)
    (hop : ∀ bytes, op ≠ .packet bytes) :
    Audible config.integrity heard (Call.after config ⟨st, op⟩) := by
  refine ⟨?_, fun hne => h.delivery fun hnil => hne ?_⟩
  · rw [Call.ingress_after]
    exact h.buffered
  · apply List.eq_nil_iff_forall_not_mem.mpr
    intro e he
    rcases Call.mem_message_after config he with he | hpushed
    · rw [show (⟨st, op⟩ : Call).before.message = st.message from rfl, hnil] at he
      cases he
    · cases op with
      | packet bytes => exact hop bytes rfl
      | send | sendPing | poll => cases hpushed

/-- The receive loop hears what stands in the bytes it is fed. -/
theorem receiveLoop_hears {fuel : Nat} {input : Bytes} {report : ReceiveReport}
    (hfuel : fuel = 0 → input = []) (hbuffered : st.ingress.rest ++ input <:+ heard)
    (hdelivery : RingQueue.toList st.message ≠ [] → Hears config.integrity heard)
    (hreport : report.isPeerTraffic = true → Hears config.integrity heard)
    (hok : (receiveLoop config fuel st input report).2.isError = false) :
    Audible config.integrity heard (receiveLoop config fuel st input report).1 ∧
      ((receiveLoop config fuel st input report).2.isPeerTraffic = true →
        Hears config.integrity heard) := by
  induction fuel generalizing st input report with
  | zero =>
    rw [hfuel rfl, List.append_nil] at hbuffered
    exact ⟨⟨hbuffered, hdelivery⟩, hreport⟩
  | succ fuel ih =>
    unfold receiveLoop at hok ⊢
    rcases Nat.lt_or_ge maxIngressBytes (st.ingress.rest.length + input.length) with hover | hfit
    · rw [st.ingress.feed_overflow config.integrity hover] at hok
      cases hok
    · obtain ⟨d, outcome, hfeed, hdec⟩ := st.ingress.feed_spec config.integrity hfit
      have hrest : d.rest <:+ heard := by
        rw [hdec.rest_eq]
        exact (List.drop_suffix _ _).trans hbuffered
      have hfed : RingQueue.toList ({ st with ingress := d } : EngineState).message ≠ [] →
          Hears config.integrity heard := hdelivery
      have hnext {r : ReceiveReport} (hr : r.isPeerTraffic = true → Hears config.integrity heard)
          (hok : (receiveLoop config fuel { st with ingress := d } [] r).2.isError = false) :=
        ih (fun _ => rfl) (by rw [List.append_nil]; exact hrest) hfed hr hok
      rw [hfeed] at hok ⊢
      dsimp only at hok ⊢
      cases houtcome : outcome with
      | needMore additional =>
        rw [houtcome] at hok
        exact ⟨⟨hrest, hdelivery⟩, fun h => hreport (isPeerTraffic_finalReport h)⟩
      | noise skipped =>
        rw [houtcome] at hok
        exact hnext (fun h => by cases h) hok
      | corrupted consumed =>
        rw [houtcome] at hok
        exact hnext (fun h => by cases h) hok
      | resync skipped =>
        rw [houtcome] at hok
        exact hnext (fun h => by cases h) hok
      | packet packetBytes consumed =>
        rw [houtcome] at hok
        dsimp only at hok ⊢
        cases hbytes : packetBytesTryFromSlice packetBytes with
        | error e =>
          rw [hbytes] at hok
          cases hok
        | ok packet =>
          rw [hbytes] at hok
          dsimp only at hok ⊢
          have hsame : packetBytes = packet := (packetBytesTryFromSlice_eq_ok hbytes).1.symm
          -- the packet stands at the front of the bytes the decoder looked at
          have hhears (hformed : decodePacketBytes packet ≠ .malformed) :
              Hears config.integrity heard := by
            obtain ⟨tag, hlen, hverify, hprefix⟩ :=
              prefix_of_classify (hdec.outcome_eq.symm.trans houtcome)
            rw [hsame] at hverify hprefix
            exact ⟨packet, tag, hformed, hlen, hverify, hprefix.isInfix.trans hbuffered.isInfix⟩
          split at hok
          · rename_i herror
            rw [herror] at hok
            cases hok
          · rename_i hfine
            rw [if_neg hfine]
            have hingress := Call.ingress_after config ⟨{ st with ingress := d }, .packet packet⟩
            refine ih (fun _ => rfl) ?_ ?_ (fun h => hhears (decode_ne_malformed h)) hok
            · rw [List.append_nil]
              exact hingress ▸ hrest
            · intro hne
              obtain ⟨e, he⟩ := List.exists_mem_of_ne_nil _ hne
              have he : e ∈ RingQueue.toList
                (Call.after config ⟨{ st with ingress := d }, .packet packet⟩).message := he
              rcases Call.mem_message_after config he with he | hpushed
              · exact hdelivery (List.ne_nil_of_mem he)
              · exact hhears (decode_ne_malformed_of_pushed hpushed)

/-- A receive that does not fail hears the bytes it is given. -/
theorem Audible.receive (h : Audible config.integrity heard st) {bytes : Bytes}
    (hok : (st.receiveBytes config bytes).2.isError = false) :
    Audible config.integrity (heard ++ bytes) (st.receiveBytes config bytes).1 ∧
      ((st.receiveBytes config bytes).2.isPeerTraffic = true →
        Hears config.integrity (heard ++ bytes)) := by
  refine receiveLoop_hears (fun h => absurd h (Nat.succ_ne_zero _)) ?_
    (fun hne => (h.delivery hne).append bytes) (fun h => by cases h) hok
  obtain ⟨front, rfl⟩ := h.buffered
  exact ⟨front, (List.append_assoc _ _ _).symm⟩

/-- What a poll delivers was heard. -/
theorem Audible.delivered (h : Audible config.integrity heard st) {nowMs txLen : Nat}
    {e : MessageEvent} (hpoll : (st.poll config nowMs txLen).2 = .ok (.message e)) :
    Hears config.integrity heard :=
  h.delivery (List.ne_nil_of_mem (mem_message_of_poll hpoll))

end Audible

/-! ## The slot -/

/-- The bytes an operation hands to the session. -/
def SlotOp.input : SlotOp → Bytes
  | .receive _ bytes => bytes
  | _ => []

/-- A slot and the bytes received since its session was opened. -/
structure HeardSlot where
  slot : PeerSlot
  heard : Bytes

namespace HeardSlot

/-- The slot without a session, which has heard nothing. -/
def new (config : EngineConfig) : HeardSlot := ⟨.new config, []⟩

/-- One operation: an opened session starts hearing anew. -/
def step (h : HeardSlot) (op : SlotOp) : HeardSlot :=
  ⟨op.after h.slot, (if op.opens h.slot then [] else h.heard) ++ op.input⟩

/-- The slot after a sequence of operations. -/
def run (config : EngineConfig) (ops : List SlotOp) : HeardSlot := ops.foldl step (new config)

end HeardSlot

/-- The relation between the session of a slot, its state and its timers. -/
structure SlotInv (config : EngineConfig) (slot : PeerSlot) (heard : Bytes) : Prop where
  config_eq : slot.config = config
  session : slot.hasSession = true ↔ slot.state ≠ .disconnected
  idle : slot.state = .disconnected →
    slot.lastSeenMs = 0 ∧ slot.lastPingMs = 0 ∧ slot.pendingPing = false
  ping : slot.pendingPing = true → slot.state = .connected
  hears : slot.state = .connected → Hears config.integrity heard
  audible : ∀ engine, slot.engine = some engine →
    engine.config = config ∧ Audible config.integrity heard engine.state

section SlotInv
variable {config : EngineConfig} {slot : PeerSlot} {heard : Bytes}

theorem PeerSlot.disconnect_eq (slot : PeerSlot) : slot.disconnect = .new slot.config := rfl

theorem slotInv_new (config : EngineConfig) (heard : Bytes) : SlotInv config (.new config) heard :=
  ⟨rfl, by simp [PeerSlot.hasSession, PeerSlot.new], fun _ => ⟨rfl, rfl, rfl⟩, fun h => (by cases h),
    fun h => (by cases h), fun _ h => (by cases h)⟩

/-- A slot whose session has just been opened. -/
theorem slotInv_opened {engine : Engine} {nowMs seenMs : Nat} (hconfig : engine.config = config)
    (haudible : Audible config.integrity [] engine.state) :
    SlotInv config ⟨config, some engine, .connecting, seenMs, nowMs, false⟩ [] :=
  ⟨rfl, by simp [PeerSlot.hasSession], fun h => (by cases h), fun h => (by cases h),
    fun h => (by cases h), fun engine' h => (by
      obtain rfl := Option.some.inj h
      exact ⟨hconfig, haudible⟩)⟩

/-- Exchanging the engine of a session for one that has heard at least as much. -/
theorem SlotInv.withEngine (h : SlotInv config slot heard) {engine : Engine} {heard' : Bytes}
    (engine' : Engine) (hengine : slot.engine = some engine) (hconfig : engine'.config = config)
    (haudible : Audible config.integrity heard' engine'.state)
    (hmono : Hears config.integrity heard → Hears config.integrity heard') :
    SlotInv config { slot with engine := some engine' } heard' := by
  have hsession : slot.state ≠ .disconnected := h.session.mp (by simp [PeerSlot.hasSession, hengine])
  refine ⟨h.config_eq, ?_, fun hstate => absurd hstate hsession, h.ping,
    fun hstate => hmono (h.hears hstate), ?_⟩
  · exact iff_of_true rfl hsession
  · intro e he
    obtain rfl := Option.some.inj he
    exact ⟨hconfig, haudible⟩

/-- A session that has been heard from becomes connected. -/
theorem SlotInv.connected (h : SlotInv config slot heard) (hsession : slot.hasSession = true)
    (hears : Hears config.integrity heard) (nowMs : Nat) :
    SlotInv config { slot with state := .connected, lastSeenMs := nowMs } heard :=
  ⟨h.config_eq, iff_of_true hsession (by simp), fun h => (by cases h), fun _ => rfl, fun _ => hears,
    h.audible⟩

/-- A report that is no error connects the peer if it is traffic, and may answer the PING. -/
theorem SlotInv.noteReport (h : SlotInv config slot heard) (hsession : slot.hasSession = true)
    {nowMs : Nat} {report : ReceiveReport}
    (htraffic : report.isPeerTraffic = true → Hears config.integrity heard) :
    SlotInv config (slot.noteReport nowMs report) heard := by
  have hanswered {slot : PeerSlot} (h : SlotInv config slot heard) :
      SlotInv config { slot with pendingPing := false } heard :=
    ⟨h.config_eq, h.session, fun hstate => ⟨(h.idle hstate).1, (h.idle hstate).2.1, rfl⟩,
      fun hping => (by cases hping), h.hears, h.audible⟩
  unfold PeerSlot.noteReport
  dsimp only
  split <;> split
  · exact hanswered (h.connected hsession (htraffic ‹_›) nowMs)
  · exact hanswered h
  · exact h.connected hsession (htraffic ‹_›) nowMs
  · exact h

theorem SlotInv.connect (h : SlotInv config slot heard) (nowMs : Nat) :
    SlotInv config (slot.connect nowMs).1 [] := by
  have hopened : SlotInv config ⟨config, some ((Engine.new config).send helloMessage).1, .connecting,
      nowMs, nowMs, false⟩ [] :=
    slotInv_opened rfl ((audible_new _ _).call (.send .data helloMessage) (by simp))
  unfold PeerSlot.connect
  rw [h.config_eq]
  exact hopened

theorem SlotInv.acceptPassive (h : SlotInv config slot heard) (nowMs seenMs : Nat) :
    SlotInv config { slot.acceptPassive nowMs with lastSeenMs := seenMs } [] := by
  unfold PeerSlot.acceptPassive
  rw [h.config_eq]
  exact slotInv_opened rfl (audible_new _ _)

theorem SlotInv.send (h : SlotInv config slot heard) (message : Bytes) :
    SlotInv config (slot.send message).1 heard := by
  unfold PeerSlot.send
  split
  · exact h
  · rename_i engine hengine
    obtain ⟨hconfig, haudible⟩ := h.audible engine hengine
    have hsent : Audible config.integrity heard (engine.send message).1.state := by
      rw [← hconfig] at haudible ⊢
      exact haudible.call (.send .data message) (by simp)
    exact h.withEngine ((engine.send message).1) hengine hconfig hsent id

theorem SlotInv.receive (h : SlotInv config slot heard) (nowMs : Nat) (bytes : Bytes) :
    SlotInv config (slot.receive nowMs bytes).1 (heard ++ bytes) := by
  unfold PeerSlot.receive
  split
  · rename_i hengine
    refine ⟨h.config_eq, h.session, h.idle, h.ping, ?_, ?_⟩
    · intro hstate
      exact (h.hears hstate).append bytes
    · intro e he
      rw [hengine] at he
      cases he
  · rename_i engine hengine
    obtain ⟨hconfig, haudible⟩ := h.audible engine hengine
    dsimp only
    split
    · rw [PeerSlot.disconnect_eq, ← h.config_eq]
      exact slotInv_new _ _
    · rename_i hfine
      have hok : (engine.state.receiveBytes config bytes).2.isError = false := by
        rw [← hconfig]
        simpa [Engine.receive, Engine.update] using hfine
      obtain ⟨hheard, htraffic⟩ := haudible.receive hok
      have hstate : (engine.receive bytes).1.state = (engine.state.receiveBytes config bytes).1 := by
        rw [← hconfig]
        rfl
      have hreport : (engine.receive bytes).2 = (engine.state.receiveBytes config bytes).2 := by
        rw [← hconfig]
        rfl
      have hkept := h.withEngine ((engine.receive bytes).1) hengine hconfig
        (hstate ▸ hheard) (fun hh => hh.append bytes)
      rw [hreport]
      exact hkept.noteReport rfl htraffic

theorem SlotInv.queuePingIfIdle (h : SlotInv config slot heard) (nowMs : Nat) :
    SlotInv config (slot.queuePingIfIdle nowMs).1 heard := by
  cases hdue : slot.pingDue nowMs with
  | false =>
    rw [PeerSlot.queuePingIfIdle_of_not_due hdue]
    exact h
  | true =>
    cases hengine : slot.engine with
    | none =>
      rw [PeerSlot.queuePingIfIdle_of_none hengine]
      exact h
    | some engine =>
      obtain ⟨hconfig, haudible⟩ := h.audible engine hengine
      have hpinged : Audible config.integrity heard engine.sendPing.1.state := by
        rw [← hconfig] at haudible ⊢
        exact haudible.call .sendPing (by simp)
      have hkept := h.withEngine engine.sendPing.1 hengine hconfig hpinged id
      have hconnected : slot.state = .connected := by
        simp only [PeerSlot.pingDue, PeerSlot.isConnected, Bool.and_eq_true, beq_iff_eq] at hdue
        exact hdue.1.1.1
      rw [PeerSlot.queuePingIfIdle_of_due hengine hdue]
      rcases hping : engine.sendPing with ⟨engine', e | ⟨⟩⟩
      · rw [hping] at hkept
        exact hkept
      · rw [hping] at hkept
        refine ⟨hkept.config_eq, hkept.session, ?_, fun _ => hconnected, hkept.hears,
          hkept.audible⟩
        intro hstate
        rw [show slot.state = .disconnected from hstate] at hconnected
        cases hconnected

theorem SlotInv.pollEngine (h : SlotInv config slot heard) (nowMs txLen : Nat) :
    SlotInv config (slot.pollEngine nowMs txLen).1 heard := by
  cases hengine : slot.engine with
  | none =>
    simp only [PeerSlot.pollEngine, hengine]
    exact h
  | some engine =>
    obtain ⟨hconfig, haudible⟩ := h.audible engine hengine
    have hpolled : Audible config.integrity heard (engine.poll nowMs txLen).1.state := by
      rw [← hconfig] at haudible ⊢
      exact haudible.call (.poll nowMs txLen) (by simp)
    have hkept := h.withEngine ((engine.poll nowMs txLen).1) hengine hconfig hpolled id
    have hdropped : SlotInv config slot.disconnect heard := by
      rw [PeerSlot.disconnect_eq, h.config_eq]
      exact slotInv_new _ _
    rw [PeerSlot.pollEngine_of_some hengine]
    rcases hp : engine.poll nowMs txLen with ⟨engine', e | result⟩
    · exact hdropped
    · rw [hp] at hkept
      cases result with
      | sendFailed event => exact hdropped
      | transmit bytes attempts => exact hkept
      | idle => exact hkept
      | message message =>
        -- what is delivered now was pushed by a packet of this session
        have hres : (engine.state.poll config nowMs txLen).2 = .ok (.message message) := by
          rw [← hconfig]
          exact congrArg Prod.snd hp
        exact hkept.connected rfl (haudible.delivered hres) nowMs

theorem SlotInv.poll (h : SlotInv config slot heard) (nowMs txLen : Nat) :
    SlotInv config (slot.poll nowMs txLen).1 heard := by
  have hpinged := h.queuePingIfIdle nowMs
  unfold PeerSlot.poll
  rcases hq : slot.queuePingIfIdle nowMs with ⟨pinged, e | ⟨⟩⟩
  · rw [hq] at hpinged
    show SlotInv config pinged.disconnect heard
    rw [PeerSlot.disconnect_eq, hpinged.config_eq]
    exact slotInv_new _ _
  · rw [hq] at hpinged
    exact hpinged.pollEngine nowMs txLen

/-- **Every operation keeps the relation.** -/
theorem SlotInv.step (h : SlotInv config slot heard) (op : SlotOp) :
    SlotInv config (HeardSlot.step ⟨slot, heard⟩ op).slot (HeardSlot.step ⟨slot, heard⟩ op).heard := by
  have hdropped (heard : Bytes) : SlotInv config slot.disconnect heard := by
    rw [PeerSlot.disconnect_eq, h.config_eq]
    exact slotInv_new _ _
  cases op with
  | connect nowMs => exact h.connect nowMs
  | acceptPassive nowMs => exact h.acceptPassive nowMs nowMs
  | acceptPassiveIfNeeded nowMs =>
    cases hengine : slot.engine with
    | none =>
      have hopened : HeardSlot.step ⟨slot, heard⟩ (.acceptPassiveIfNeeded nowMs) =
          ⟨{ slot.acceptPassive nowMs with lastSeenMs := nowMs }, []⟩ := by
        simp [HeardSlot.step, SlotOp.after, SlotOp.opens, SlotOp.input,
          PeerSlot.acceptPassiveIfNeeded, hengine]
      rw [hopened]
      exact h.acceptPassive nowMs nowMs
    | some engine =>
      have hkept : HeardSlot.step ⟨slot, heard⟩ (.acceptPassiveIfNeeded nowMs) =
          ⟨{ slot with lastSeenMs := nowMs }, heard⟩ := by
        simp [HeardSlot.step, SlotOp.after, SlotOp.opens, SlotOp.input,
          PeerSlot.acceptPassiveIfNeeded, hengine]
      have hsession : slot.state ≠ .disconnected :=
        h.session.mp (by simp [PeerSlot.hasSession, hengine])
      rw [hkept]
      exact ⟨h.config_eq, h.session, fun hstate => absurd hstate hsession, h.ping, h.hears, h.audible⟩
  | disconnect => exact hdropped _
  | send message =>
    simp only [HeardSlot.step, SlotOp.input, List.append_nil]
    exact h.send message
  | receive nowMs bytes => exact h.receive nowMs bytes
  | poll nowMs txLen =>
    simp only [HeardSlot.step, SlotOp.input, List.append_nil]
    exact h.poll nowMs txLen
  | disconnectIfIdle nowMs timeoutMs =>
    simp only [HeardSlot.step, SlotOp.after, SlotOp.opens, SlotOp.input, PeerSlot.disconnectIfIdle,
      List.append_nil, Bool.false_eq_true, if_false]
    split
    · exact hdropped _
    · exact h

theorem slotInv_run (config : EngineConfig) (ops : List SlotOp) :
    SlotInv config (HeardSlot.run config ops).slot (HeardSlot.run config ops).heard := by
  induction ops using List.reverseRecOn with
  | nil => exact slotInv_new config []
  | append_singleton ops op ih =>
    rw [HeardSlot.run, List.foldl_append]
    exact ih.step op

end SlotInv

/-! ## Errors -/

/-- The hello message of a fresh engine is always accepted. -/
theorem PeerSlot.connect_isOk (slot : PeerSlot) (nowMs : Nat) :
    (slot.connect nowMs).2.isOk = true := by
  have hcount (m : SentMessage) (h : m.bytes = helloMessage) : m.count slot.config = 1 := by
    have hsize := m.size_pos slot.config
    rw [SentMessage.count, h, fragmentCount, if_neg (by decide)]
    rw [show helloMessage.length + m.size slot.config - 1 = m.size slot.config by
      rw [helloMessage, List.length_singleton]; omega]
    exact Nat.div_self hsize
  show (EngineState.sendData (.new slot.config.initialMessageId) slot.config
    helloMessage).2.isOk = true
  have hlen : helloMessage.length ≤ maxMessageBytes := by decide
  rw [sendData, @sendFragmentedMessage_of_hasRoom slot.config _ .data helloMessage ⟨.inl rfl, hlen⟩
    ⟨?_, fun _ => ?_⟩]
  · rfl
  · rw [hcount _ rfl, scheduler_withNextId]
    show SchedulerState.new.len + 1 ≤ maxEvents
    decide
  · rw [hcount _ rfl, recovery_withNextId]
    show RecoveryState.new.inFlight.len + 1 ≤ maxInFlightPackets
    decide

theorem PeerSlot.receive_of_isError {slot : PeerSlot} {nowMs : Nat} {bytes : Bytes}
    (h : (slot.receive nowMs bytes).2.isError = true) :
    (slot.receive nowMs bytes).1 = .new slot.config := by
  unfold receive at h ⊢
  split at h
  · cases h
  · dsimp only at h ⊢
    split at h
    · rename_i herror
      rw [if_pos herror]
      rfl
    · rename_i hfine
      exact absurd h hfine

/-- A poll of a slot that fails or reports a failed message drops the session. -/
theorem PeerSlot.pollEngine_of_failed {slot : PeerSlot} {nowMs txLen : Nat}
    (h : (slot.pollEngine nowMs txLen).2.isOk = false ∨
      ∃ event, (slot.pollEngine nowMs txLen).2 = .ok (.sendFailed event)) :
    (slot.pollEngine nowMs txLen).1 = .new slot.config := by
  cases hengine : slot.engine with
  | none =>
    simp only [pollEngine, hengine] at h
    rcases h with h | ⟨event, h⟩ <;> cases h
  | some engine =>
    rw [pollEngine_of_some hengine] at h ⊢
    rcases hp : engine.poll nowMs txLen with ⟨engine', e | result⟩
    · rfl
    · rw [hp] at h
      cases result with
      | sendFailed event => rfl
      | transmit | message | idle => rcases h with h | ⟨event, h⟩ <;> cases h

theorem PeerSlot.poll_of_failed {slot : PeerSlot} {nowMs txLen : Nat}
    (h : (slot.poll nowMs txLen).2.isOk = false ∨
      ∃ event, (slot.poll nowMs txLen).2 = .ok (.sendFailed event)) :
    (slot.poll nowMs txLen).1 = .new slot.config := by
  have hconfig := SlotOp.config_after (.poll nowMs txLen) slot
  simp only [SlotOp.after] at hconfig
  rw [← hconfig]
  unfold poll at h ⊢
  rcases hq : slot.queuePingIfIdle nowMs with ⟨pinged, e | ⟨⟩⟩
  · rfl
  · rw [hq] at h
    dsimp only at h ⊢
    rw [pollEngine_of_failed h]
    rfl

/-- **The lifecycle of a session**, after every sequence of operations with every input. -/
theorem session_lifecycle (config : EngineConfig) (ops : List SlotOp) :
    ((HeardSlot.run config ops).slot.hasSession = true ↔
      (HeardSlot.run config ops).slot.state ≠ .disconnected) ∧
    ((HeardSlot.run config ops).slot.state = .disconnected →
      (HeardSlot.run config ops).slot.lastSeenMs = 0 ∧
        (HeardSlot.run config ops).slot.lastPingMs = 0 ∧
        (HeardSlot.run config ops).slot.pendingPing = false) ∧
    ((HeardSlot.run config ops).slot.pendingPing = true →
      (HeardSlot.run config ops).slot.state = .connected) ∧
    ((HeardSlot.run config ops).slot.state = .connected →
      Hears config.integrity (HeardSlot.run config ops).heard) ∧
    (∀ nowMs, ((HeardSlot.run config ops).slot.connect nowMs).2.isOk = true) ∧
    (∀ nowMs bytes, ((HeardSlot.run config ops).slot.receive nowMs bytes).2.isError = true →
      ((HeardSlot.run config ops).slot.receive nowMs bytes).1 = .new config) ∧
    ∀ nowMs txLen, ((HeardSlot.run config ops).slot.poll nowMs txLen).2.isOk = false ∨
        (∃ event, ((HeardSlot.run config ops).slot.poll nowMs txLen).2 = .ok (.sendFailed event)) →
      ((HeardSlot.run config ops).slot.poll nowMs txLen).1 = .new config := by
  have hinv := slotInv_run config ops
  refine ⟨hinv.session, hinv.idle, hinv.ping, hinv.hears, fun nowMs => PeerSlot.connect_isOk _ nowMs,
    ?_, ?_⟩
  · intro nowMs bytes h
    rw [PeerSlot.receive_of_isError h, hinv.config_eq]
  · intro nowMs txLen h
    rw [PeerSlot.poll_of_failed h, hinv.config_eq]

end Msrt
