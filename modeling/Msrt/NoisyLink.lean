import Msrt.BurstErrors
import Msrt.LinkDelivery

/-! # A link that damages envelopes

Between the two sides an envelope may also be damaged: a burst no longer than the checksum hits its
packet, or anything hits its tag (`CrcBackend.Altered`); and stray bytes may appear between envelopes.
The receive loop skips both where they stand and hands on what is intact around them, also from what
an earlier call left in the buffer (`receiveLoop_pieces`).  So a side handles packets of the other side
and nothing else, as on a link that merely loses what it damages, and the guarantees of that link hold
(`noisy_link_safe`).
-/

namespace Msrt
open EngineState

/-! ## Streams with damage -/

/-- A piece of what the link carries: the envelope of a packet, a damaged copy of one, or a byte that
starts no envelope. -/
inductive Piece (crc : CrcBackend) (ok : Bytes → Prop) : Bytes → Prop
  | intact {packet : Bytes} : ok packet → Piece crc ok (envelope crc.config packet)
  | altered {packet bytes : Bytes} : ok packet → crc.Altered packet bytes → Piece crc ok bytes
  | stray {b : UInt8} : b ≠ envelopeMagic → Piece crc ok [b]

/-- The answers of the decoder to such a stream. -/
inductive CleanAnswer (ok : Bytes → Prop) : StreamDecodeOutcome → Prop
  | empty : CleanAnswer ok (.needMore none)
  | packet {packetBytes : Bytes} (consumed : Nat) :
      ok packetBytes → CleanAnswer ok (.packet packetBytes consumed)
  | corrupted (consumed : Nat) : CleanAnswer ok (.corrupted consumed)
  | noise (skipped : Nat) : CleanAnswer ok (.noise skipped)

section Stream
variable {crc : CrcBackend} {ok : Bytes → Prop}

theorem Piece.mono {ok' : Bytes → Prop} {bytes : Bytes} (h : Piece crc ok bytes)
    (hok : ∀ p, ok p → ok' p) : Piece crc ok' bytes := by
  cases h with
  | intact hp => exact .intact (hok _ hp)
  | altered hp haltered => exact .altered (hok _ hp) haltered
  | stray hb => exact .stray hb

theorem CrcBackend.Altered.cons_eq {packet altered : Bytes} (h : crc.Altered packet altered) :
    ∃ tail, altered = envelopeMagic :: tail := by
  have hheader := h.take_header
  cases altered with
  | nil => cases hheader
  | cons b tail => exact ⟨tail, congrArg (· :: tail) (List.cons.inj hheader).1⟩

/-- Behind the noise at the front the stream goes on with a piece. -/
theorem drop_noiseRun_pieces {pieces : List Bytes} (hpieces : ∀ p ∈ pieces, Piece crc ok p) :
    ∃ tail : List Bytes, (∀ p ∈ tail, Piece crc ok p) ∧
      pieces.flatten.drop (noiseRun pieces.flatten) = tail.flatten := by
  induction pieces with
  | nil => exact ⟨[], hpieces, rfl⟩
  | cons piece pieces ih =>
    -- an envelope starts with the magic byte, so no noise is in front of it
    have hmagic {tail : Bytes} (hp : piece = envelopeMagic :: tail) :
        (piece :: pieces).flatten.drop (noiseRun (piece :: pieces).flatten) =
          (piece :: pieces).flatten := by
      rw [List.flatten_cons, hp, List.cons_append, noiseRun_cons_magic, List.drop_zero]
    cases hpieces piece List.mem_cons_self with
    | intact hp => exact ⟨_, hpieces, hmagic rfl⟩
    | altered hp haltered =>
      obtain ⟨tail, htail⟩ := haltered.cons_eq
      exact ⟨_, hpieces, hmagic htail⟩
    | stray hb =>
      obtain ⟨tail, htail, hdrop⟩ := ih fun p hp => hpieces p (List.mem_cons_of_mem _ hp)
      refine ⟨tail, htail, ?_⟩
      rw [List.flatten_cons, List.singleton_append, noiseRun_cons_of_ne hb, List.drop_succ_cons]
      exact hdrop

/-- The decoder takes whole pieces off the stream. -/
theorem classify_pieces (hok : ∀ packet, ok packet → packet.length ≤ maxPacketLen ∧
      (envelope crc.config packet).length ≤ maxWireBytes)
    {pieces : List Bytes} (hpieces : ∀ p ∈ pieces, Piece crc ok p) :
    CleanAnswer ok (classify maxIngressBytes crc.config pieces.flatten) ∧
      ∃ tail : List Bytes, (∀ p ∈ tail, Piece crc ok p) ∧
        pieces.flatten.drop (classify maxIngressBytes crc.config pieces.flatten).taken =
          tail.flatten := by
  cases pieces with
  | nil => exact ⟨.empty, [], hpieces, rfl⟩
  | cons piece tail =>
    have htail : ∀ p ∈ tail, Piece crc ok p := fun p hp => hpieces p (List.mem_cons_of_mem _ hp)
    cases hpieces piece List.mem_cons_self with
    | @intact packet hp =>
      obtain ⟨hlen, hwire⟩ := hok packet hp
      rw [List.flatten_cons, classify_envelope hlen (Nat.le_trans hwire (by decide))]
      exact ⟨.packet _ hp, tail, htail, List.drop_left' rfl⟩
    | @altered packet _ hp haltered =>
      obtain ⟨hlen, hwire⟩ := hok packet hp
      rw [List.flatten_cons, haltered.classify hlen (Nat.le_trans hwire (by decide))]
      exact ⟨.corrupted _, tail, htail, List.drop_left' haltered.length_eq⟩
    | @stray b hb =>
      have hnoise : classify maxIngressBytes crc.config ([b] :: tail).flatten = _ :=
        StreamingDecoder.classify_noise maxIngressBytes crc.config rfl hb
      rw [hnoise]
      exact ⟨.noise _, drop_noiseRun_pieces hpieces⟩

/-- The receive loop on such a stream hands on packets of intact envelopes only, and leaves whole
pieces behind, whatever its report. -/
theorem receiveLoop_pieces {config : EngineConfig} (hcrc : config.integrity = crc.config)
    (hok : ∀ packet, ok packet → packet.length ≤ maxPacketLen ∧ packet.length ≤ maxWireBytes ∧
      (envelope crc.config packet).length ≤ maxWireBytes)
    (fuel : Nat) (st : EngineState) {input : Bytes} (report : ReceiveReport)
    {buffered incoming : List Bytes} (hall : ∀ p ∈ buffered ++ incoming, Piece crc ok p)
    (hrest : st.ingress.rest = buffered.flatten) (hinput : input = incoming.flatten) :
    (∀ call ∈ receiveLoopCalls config fuel st input, ∃ p, ok p ∧ call.op = .packet p) ∧
      ∃ left : List Bytes, (∀ p ∈ left, Piece crc ok p) ∧
        (receiveLoop config fuel st input report).1.ingress.rest = left.flatten := by
  have hbuffered : ∀ p ∈ buffered, Piece crc ok p := fun p hp => hall p (List.mem_append_left _ hp)
  -- on the fuel: each round takes pieces off the stream, and the rest is fed with no input
  induction fuel generalizing st input report buffered incoming with
  | zero => exact ⟨by simp [receiveLoopCalls], buffered, hbuffered, hrest⟩
  | succ fuel ih =>
    rw [receiveLoopCalls, receiveLoop]
    rcases Nat.lt_or_ge maxIngressBytes (st.ingress.rest.length + input.length) with hover | hfit
    · -- an overflow drops the input and keeps what was buffered
      rw [st.ingress.feed_overflow config.integrity hover]
      exact ⟨by simp, buffered, hbuffered, st.ingress.rest_consumePending.trans hrest⟩
    · obtain ⟨d, outcome, hfeed, hdec⟩ := st.ingress.feed_spec config.integrity hfit
      have houtcome := hdec.outcome_eq
      have hleft := hdec.rest_eq
      rw [hrest, hinput, ← List.flatten_append, hcrc] at houtcome
      rw [hrest, hinput, ← List.flatten_append, houtcome] at hleft
      obtain ⟨hclean, tail, htail, hdrop⟩ :=
        classify_pieces (fun p hp => ⟨(hok p hp).1, (hok p hp).2.2⟩) hall
      rw [← houtcome] at hclean
      rw [hdrop] at hleft
      have hnone : ([] : Bytes) = ([] : List Bytes).flatten := rfl
      have hbehind : ∀ p ∈ tail ++ [], Piece crc ok p := by rwa [List.append_nil]
      have hnext {st' : EngineState} (report' : ReceiveReport) (hingress : st'.ingress = d) :=
        ih st' report' hbehind (by rw [hingress, hleft]) hnone htail
      rw [hfeed]
      cases hclean with
      | empty => exact ⟨by simp, tail, htail, hleft⟩
      | corrupted => exact hnext _ rfl
      | noise => exact hnext _ rfl
      | @packet packet _ hp =>
        have hstored := (hok packet hp).2.1
        have hbytes : packetBytesTryFromSlice packet = .ok packet := if_neg (by omega)
        dsimp only
        rw [hbytes]
        have hingress : (receiveCompletePacket { st with ingress := d } config packet).1.ingress = d :=
          Call.ingress_after config ⟨{ st with ingress := d }, .packet packet⟩
        have hrec := hnext (receiveCompletePacket { st with ingress := d } config packet).2 hingress
        dsimp only
        split
        · refine ⟨?_, tail, htail, by rw [hingress, hleft]⟩
          intro call hc
          rw [List.mem_singleton.mp hc]
          exact ⟨packet, hp, rfl⟩
        · refine ⟨?_, hrec.2⟩
          intro call hc
          rcases List.mem_cons.mp hc with rfl | hc
          · exact ⟨packet, hp, rfl⟩
          · exact hrec.1 call hc

end Stream

/-! ## The two sides -/

/-- The envelope of the packet was transmitted. -/
def Transmitted (config : EngineConfig) (calls : List Call) (packet : Bytes) : Prop :=
  ∃ call ∈ calls, call.emitted config = some (envelope config.integrity packet)

/-- The bytes are a concatenation of transmitted envelopes, damaged copies of them and stray bytes. -/
def CarriesDamaged (crc : CrcBackend) (config : EngineConfig) (calls : List Call) (bytes : Bytes) :
    Prop :=
  ∃ pieces : List Bytes,
    (∀ p ∈ pieces, Piece crc (Transmitted config calls) p) ∧ bytes = pieces.flatten

/-- The interleavings of two sides on a link that loses, duplicates, delays, reorders and damages
envelopes in both directions. -/
inductive NoisyRun (crc : CrcBackend) (sender receiver : EngineConfig) : Party → Party → Prop
  | new : NoisyRun crc sender receiver (.new sender) (.new receiver)
  | left {a b : Party} (op : EngineOp) : NoisyRun crc sender receiver a b →
      (∀ bytes, op = .receive bytes → CarriesDamaged crc receiver b.calls bytes) →
      NoisyRun crc sender receiver (a.step sender op) b
  | right {a b : Party} (op : EngineOp) : NoisyRun crc sender receiver a b →
      (∀ bytes, op = .receive bytes → CarriesDamaged crc sender a.calls bytes) →
      NoisyRun crc sender receiver a (b.step receiver op)

section Party
variable {crc : CrcBackend} {config sender receiver : EngineConfig} {calls : List Call}
  {st : EngineState} {a b : Party}

theorem NoisyRun.runs (h : NoisyRun crc sender receiver a b) :
    PacketRun sender a.calls a.state ∧ PacketRun receiver b.calls b.state := by
  induction h with
  | new => exact ⟨.new, .new⟩
  | left op _ _ ih => exact ⟨ih.1.step op, ih.2⟩
  | right op _ _ ih => exact ⟨ih.1, ih.2.step op⟩

theorem Transmitted.origin (h : PacketRun config calls st) {packet : Bytes}
    (ht : Transmitted config calls packet) : Origin config calls packet := by
  obtain ⟨call, hc, hemitted⟩ := ht
  obtain ⟨packet', horigin, heq⟩ := h.emitted_of_mem hc hemitted
  have hsame := congrArg (packetOfEnvelope config.integrity) heq
  rw [packetOfEnvelope_envelope, packetOfEnvelope_envelope] at hsame
  rw [hsame]
  exact horigin

/-- A link that damages nothing is one that may damage. -/
theorem Carries.damaged (hcrc : config.integrity = crc.config) (h : PacketRun config calls st)
    {bytes : Bytes} (hcarries : Carries config calls bytes) :
    CarriesDamaged crc config calls bytes := by
  obtain ⟨envelopes, hemitted, rfl⟩ := hcarries
  refine ⟨envelopes, ?_, rfl⟩
  intro e he
  obtain ⟨call, hc, hcall⟩ := hemitted e he
  obtain ⟨packet, -, rfl⟩ := h.emitted_of_mem hc hcall
  have hintact : Piece crc (Transmitted config calls) (envelope crc.config packet) :=
    .intact ⟨call, hc, hcall⟩
  rwa [← hcrc] at hintact

theorem LinkRun.noisy (hs : sender.integrity = crc.config) (hr : receiver.integrity = crc.config)
    (h : LinkRun sender receiver (Carries receiver) a b) : NoisyRun crc sender receiver a b := by
  induction h with
  | new => exact .new
  | left op hrun hback ih =>
    exact ih.left op fun bytes hop => (hback bytes hop).damaged hr hrun.runs.2
  | right op hrun hfed ih =>
    exact ih.right op fun bytes hop => (hfed bytes hop).damaged hs hrun.runs.1

end Party

/-! ## What a side is fed -/

/-- All packets handled are packets that were `sent`, and so are all intact ones that are buffered. -/
structure NoisyFed (crc : CrcBackend) (sent : Bytes → Prop) (party : Party) : Prop where
  handled : ∀ call ∈ party.calls, ∀ bytes, call.op = .packet bytes → sent bytes
  buffered : ∃ pieces : List Bytes, (∀ p ∈ pieces, Piece crc sent p) ∧
    party.state.ingress.rest = pieces.flatten

section Fed
variable {crc : CrcBackend} {config : EngineConfig} {sent : Bytes → Prop} {party : Party}

theorem NoisyFed.new (id : MessageId) : NoisyFed crc sent ⟨[], .new id⟩ :=
  ⟨by simp, [], by simp, rfl⟩

theorem NoisyFed.mono {sent' : Bytes → Prop} (h : NoisyFed crc sent party)
    (hsent : ∀ p, sent p → sent' p) : NoisyFed crc sent' party := by
  obtain ⟨pieces, hall, hrest⟩ := h.buffered
  exact ⟨fun call hc bytes hop => hsent _ (h.handled call hc bytes hop),
    pieces, fun p hp => (hall p hp).mono hsent, hrest⟩

/-- What was handled does not depend on what the buffer still holds. -/
theorem NoisyFed.fed (h : NoisyFed crc sent party) :
    Fed crc.config sent ⟨party.calls, party.state.withIngress .new⟩ :=
  ⟨h.handled, [], by simp, rfl⟩

/-- A call that handles no packet feeds nothing. -/
theorem NoisyFed.call (h : NoisyFed crc sent party) {op : CallOp}
    (hop : ∀ bytes, op ≠ .packet bytes) : NoisyFed crc sent
      ⟨party.calls ++ [⟨party.state, op⟩], Call.after config ⟨party.state, op⟩⟩ := by
  obtain ⟨pieces, hall, hrest⟩ := h.buffered
  refine ⟨?_, pieces, hall, ?_⟩
  · intro call hc bytes hcall
    rcases List.mem_append.mp hc with hc | hc
    · exact h.handled call hc bytes hcall
    · rw [List.mem_singleton.mp hc] at hcall
      exact absurd hcall (hop bytes)
  · rw [← hrest]
    exact congrArg StreamingDecoder.rest (Call.ingress_after config ⟨party.state, op⟩)

theorem NoisyFed.step (hcrc : config.integrity = crc.config)
    (hlen : ∀ p, sent p → p.length ≤ maxPacketLen ∧ p.length ≤ maxWireBytes ∧
      (envelope crc.config p).length ≤ maxWireBytes)
    (h : NoisyFed crc sent party) (op : EngineOp)
    (hfed : ∀ bytes, op = .receive bytes →
      ∃ pieces : List Bytes, (∀ p ∈ pieces, Piece crc sent p) ∧ bytes = pieces.flatten) :
    NoisyFed crc sent (party.step config op) := by
  cases op with
  | send message => exact h.call (by simp)
  | sendLog message => exact h.call (by simp)
  | sendPing => exact h.call (by simp)
  | poll nowMs txLen => exact h.call (by simp)
  | receive bytes =>
    obtain ⟨buffered, hbuffered, hrest⟩ := h.buffered
    obtain ⟨incoming, hincoming, hbytes⟩ := hfed bytes rfl
    have hall : ∀ p ∈ buffered ++ incoming, Piece crc sent p := fun p hp =>
      (List.mem_append.mp hp).elim (hbuffered p) (hincoming p)
    obtain ⟨hcalls, left, hleft, hrest'⟩ := receiveLoop_pieces hcrc hlen
      (party.state.ingress.rest.length + bytes.length + 1) party.state (.incomplete none)
      hall hrest hbytes
    refine ⟨?_, left, hleft, hrest'⟩
    intro call hc packet hop
    rcases List.mem_append.mp hc with hc | hc
    · exact h.handled call hc packet hop
    · obtain ⟨p, hp, hop'⟩ := hcalls call hc
      rw [hop] at hop'
      obtain rfl := CallOp.packet.inj hop'
      exact hp

/-- A side that is fed what the link made of the other side's envelopes. -/
theorem NoisyFed.link_step (hcrc : config.integrity = crc.config) {other : EngineConfig}
    (hother : other.integrity = crc.config) {otherCalls : List Call} {otherState : EngineState}
    (hrun : PacketRun other otherCalls otherState)
    (h : NoisyFed crc (Origin other otherCalls) party) (op : EngineOp)
    (hfed : ∀ bytes, op = .receive bytes → CarriesDamaged crc other otherCalls bytes) :
    NoisyFed crc (Origin other otherCalls) (party.step config op) := by
  refine h.step hcrc ?_ op ?_
  · intro p hp
    rw [← hother]
    exact hp.length_le
  · intro bytes hop
    obtain ⟨pieces, hall, hbytes⟩ := hfed bytes hop
    exact ⟨pieces, fun p hp => (hall p hp).mono fun _ ht => ht.origin hrun, hbytes⟩

/-- **Damage feeds a side nothing**: each side handles packets of the other side only. -/
theorem NoisyRun.fed {sender receiver : EngineConfig} (hs : sender.integrity = crc.config)
    (hr : receiver.integrity = crc.config) {a b : Party} (h : NoisyRun crc sender receiver a b) :
    NoisyFed crc (Origin sender a.calls) b ∧ NoisyFed crc (Origin receiver b.calls) a := by
  induction h with
  | new => exact ⟨.new _, .new _⟩
  | left op hrun hback ih =>
    exact ⟨ih.1.mono fun p hp => hp.append _, ih.2.link_step hs hr hrun.runs.2 op hback⟩
  | right op hrun hfed ih =>
    exact ⟨ih.1.link_step hr hs hrun.runs.1 op hfed, ih.2.mono fun p hp => hp.append _⟩

end Fed

/-! ## The guarantees -/

section Guarantees
variable {crc : CrcBackend} {sender receiver : EngineConfig} {a b : Party}

section Run
variable (hs : sender.integrity = crc.config) (hr : receiver.integrity = crc.config)
  (hrun : NoisyRun crc sender receiver a b) (hcount : sendCount a.calls < 2 ^ 32)
include hs hr hrun hcount

theorem NoisyRun.ownFragments {send : Call} (hsend : send ∈ a.calls) {m : SentMessage}
    (hm : send.accepted sender = some m) : OwnFragments sender m b.calls :=
  (hrun.fed hs hr).1.fed.ownFragments hrun.runs.1 hcount hsend hm

/-- What was pushed is a message the sender accepted. -/
theorem NoisyRun.pushed_genuine {call : Call} (hc : call ∈ b.calls) {e : MessageEvent}
    (hpushed : call.pushed = some e) :
    ∃ send ∈ a.calls, ∃ m, send.accepted sender = some m ∧ e.packetType = m.packetType ∧
      e.messageId = m.messageId ∧ e.asBytes = m.bytes := by
  have hright := hrun.runs.2
  obtain ⟨fragment, hobserved, htype, hid⟩ := hright.observed_of_pushed hc hpushed
  obtain ⟨send, hsend, m, hm, i, hi, rfl⟩ := (hrun.fed hs hr).1.fed.observed hc hobserved
  have hpushes : call.pushes m.messageKey = true := by
    simp only [Call.pushes, hpushed, htype, hid]
    simp [SentMessage.messageFragment, SentMessage.messageKey]
  obtain ⟨e', hpushed', hgenuine⟩ := hright.pushed_genuine (accepted_valid hm).1
    (hrun.ownFragments hs hr hcount hsend hm) hc hpushes
  rw [hpushed] at hpushed'
  obtain rfl := Option.some.inj hpushed'
  exact ⟨send, hsend, m, hm, hgenuine⟩

/-- A packet that was acknowledged was accepted by the other side. -/
theorem NoisyRun.accepted_of_acknowledged {send : Call} (hsend : send ∈ a.calls) {m : SentMessage}
    (hm : send.accepted sender = some m) (hdata : m.packetType = .data) {i : Nat}
    (hi : i < m.count sender) (hacked : ∃ call ∈ a.calls, call.acknowledged = some (m.packetKey i)) :
    Accepted sender m b.calls i := by
  obtain ⟨call, hc, hack⟩ := hacked
  exact accepted_of_key (hrun.ownFragments hs hr hcount hsend hm) hdata (accepted_valid hm).2 hi
    ((hrun.fed hs hr).2.fed.acknowledged hc hack)

end Run

/-- **Damage costs no guarantee.**  On a link that also damages envelopes within what its CRC finds
and puts stray bytes between them, in both directions: every message the receiver hands over is one
the sender accepted, with its type, id and bytes; a DATA message is pushed again only after sixteen
DATA packets were accepted in between; and a DATA message whose packets were all acknowledged was
pushed, as long as the receiver drops no incomplete message. -/
theorem noisy_link_safe (crc : CrcBackend) (hs : sender.integrity = crc.config)
    (hr : receiver.integrity = crc.config) (hrun : NoisyRun crc sender receiver a b)
    (hcount : sendCount a.calls < 2 ^ 32) :
    (∀ nowMs txLen e, (b.state.poll receiver nowMs txLen).2 = .ok (.message e) →
      ∃ send ∈ a.calls, ∃ m, send.accepted sender = some m ∧ e.packetType = m.packetType ∧
        e.messageId = m.messageId ∧ e.asBytes = m.bytes) ∧
    ∀ send ∈ a.calls, ∀ m, send.accepted sender = some m → m.packetType = .data →
      (∀ before first mid second after, b.calls = before ++ first :: (mid ++ second :: after) →
        first.pushes m.messageKey = true → second.pushes m.messageKey = true →
        maxInFlightPackets ≤ (acceptedKeys mid).length) ∧
      ((∀ call ∈ b.calls, call.expiresSlot receiver = false ∧ call.evictsSlot = false) →
        (∀ i < m.count sender, ∃ call ∈ a.calls, call.acknowledged = some (m.packetKey i)) →
        ∃ call ∈ b.calls, ∃ e, call.pushed = some e ∧ e.packetType = .data ∧
          e.messageId = m.messageId ∧ e.asBytes = m.bytes) := by
  have hright := hrun.runs.2
  refine ⟨?_, ?_⟩
  · intro nowMs txLen e hpoll
    -- the event was waiting in the delivery queue, so a packet pushed it
    obtain ⟨call, hc, hpushed⟩ := hright.receiverInv.messages e (mem_message_of_poll hpoll)
    exact hrun.pushed_genuine hs hr hcount hc hpushed
  · intro send hsend m hm hdata
    have hvalid := (accepted_valid hm).1
    have hown := hrun.ownFragments hs hr hcount hsend hm
    refine ⟨?_, ?_⟩
    · intro before first mid second after hcalls hfirst hsecond
      rw [hcalls] at hright hown
      exact hright.pushes_apart hvalid hdata hown hfirst hsecond
    · intro hkept hacked
      have hall : ∀ i < m.count sender, Accepted sender m b.calls i := fun i hi =>
        hrun.accepted_of_acknowledged hs hr hcount hsend hm hdata hi (hacked i hi)
      obtain ⟨call, hc, hpushes⟩ := hright.pushed_of_accepted hvalid hdata hown
        (fun call hc => (hkept call hc).1) (fun call hc => (hkept call hc).2) hall
      obtain ⟨e, hpushed, htype, hid, hbytes⟩ := hright.pushed_genuine hvalid hown hc hpushes
      exact ⟨call, hc, e, hpushed, htype.trans hdata, hid, hbytes⟩

/-- The first envelope of a side on a fresh link. -/
def firstEnvelope (party : Party) : Bytes := (party.envelopes .default [0]).flatten

/-- The sender has transmitted a message of one packet. -/
def noisySender : Party :=
  (runSchedule .default .default [.left (.send [7]), .left (.poll 0 128)]).1

/-- The receiver is fed a damaged copy of the envelope, a stray byte and the envelope itself, and has
answered. -/
def noisyReceiver : Party :=
  ((Party.new .default).step .default
    (.receive [(firstEnvelope noisySender).set 4 9, [0], firstEnvelope noisySender].flatten)).step
    .default (.poll 0 128)

/-- The sender is fed the answer, behind a damaged copy of it. -/
def noisySenderAcked : Party :=
  noisySender.step .default
    (.receive [(firstEnvelope noisyReceiver).set 3 9, firstEnvelope noisyReceiver].flatten)

/-- The first envelope of a side, or a copy with one altered byte behind the header. -/
theorem piece_firstEnvelope {party : Party} {st : EngineState}
    (h : PacketRun .default party.calls st)
    (hemitted : (party.calls.any fun call =>
      call.emitted .default == some (firstEnvelope party)) = true) :
    Piece .crc16 (Transmitted .default party.calls) (firstEnvelope party) ∧
      ∀ j b, wireHeaderLen ≤ j → j < (firstEnvelope party).length →
        (firstEnvelope party)[j]? ≠ some b →
        Piece .crc16 (Transmitted .default party.calls) ((firstEnvelope party).set j b) := by
  obtain ⟨call, hc, hcall⟩ := List.any_eq_true.mp hemitted
  rw [beq_iff_eq] at hcall
  obtain ⟨packet, -, hpacket⟩ := h.emitted_of_mem hc hcall
  rw [hpacket] at hcall ⊢
  refine ⟨.intact ⟨call, hc, hcall⟩, ?_⟩
  intro j b hj hlt hb
  exact .altered ⟨call, hc, hcall⟩ (CrcBackend.altered_set hj hlt hb)

theorem noisyRun_receiver : NoisyRun .crc16 .default .default noisySender noisyReceiver := by
  have hsent : NoisyRun .crc16 .default .default noisySender (.new .default) :=
    (linkRun_runSchedule .default .default [.left (.send [7]), .left (.poll 0 128)]).noisy rfl rfl
  obtain ⟨hintact, haltered⟩ := piece_firstEnvelope hsent.runs.1 (by decide +kernel)
  refine (hsent.right _ ?_).right _ (by simp)
  intro bytes hop
  obtain rfl := EngineOp.receive.inj hop
  refine ⟨_, ?_, rfl⟩
  have hdamaged := haltered 4 9 (by decide) (by decide +kernel) (by decide +kernel)
  simpa using ⟨hdamaged, .stray (by decide), hintact⟩

theorem noisyRun_acked : NoisyRun .crc16 .default .default noisySenderAcked noisyReceiver := by
  obtain ⟨hintact, haltered⟩ := piece_firstEnvelope noisyRun_receiver.runs.2 (by decide +kernel)
  refine noisyRun_receiver.left _ ?_
  intro bytes hop
  obtain rfl := EngineOp.receive.inj hop
  refine ⟨_, ?_, rfl⟩
  have hdamaged := haltered 3 9 (by decide) (by decide +kernel) (by decide +kernel)
  simpa using ⟨hdamaged, hintact⟩

/-- The message gets through: it is handed over, and it was acknowledged and pushed. -/
theorem noisy_link_safe_damaged : ∃ (a b : Party) (e : MessageEvent) (m : SentMessage),
    NoisyRun .crc16 .default .default a b ∧
      (b.state.poll .default 0 128).2 = .ok (.message e) ∧
      (∃ send ∈ a.calls, ∃ m, send.accepted .default = some m ∧ e.packetType = m.packetType ∧
        e.messageId = m.messageId ∧ e.asBytes = m.bytes) ∧
      (∀ i < m.count .default, ∃ call ∈ a.calls, call.acknowledged = some (m.packetKey i)) ∧
      ∃ call ∈ b.calls, ∃ e, call.pushed = some e ∧ e.packetType = .data ∧
        e.messageId = m.messageId ∧ e.asBytes = m.bytes := by
  have hcount : sendCount noisySenderAcked.calls < 2 ^ 32 := by decide +kernel
  obtain ⟨hgenuine, hpushed⟩ := noisy_link_safe .crc16 rfl rfl noisyRun_acked hcount
  have hmessage : (Call.delivered .default ⟨noisyReceiver.state, .poll 0 128⟩).isSome = true := by
    decide +kernel
  have hkept : (noisyReceiver.calls.all fun call =>
      !call.expiresSlot .default && !call.evictsSlot) = true := by
    decide +kernel
  have hsent : (noisySenderAcked.calls.any fun send => (send.accepted .default).any fun m =>
      m.packetType == .data && (List.range (m.count .default)).all fun i =>
        noisySenderAcked.calls.any fun call => call.acknowledged == some (m.packetKey i)) = true := by
    decide +kernel
  obtain ⟨e, hdelivered⟩ := Option.isSome_iff_exists.mp hmessage
  have hpoll := poll_eq_of_delivered hdelivered
  obtain ⟨send, hsend, hany⟩ := List.any_eq_true.mp hsent
  obtain ⟨m, hm, hall⟩ := (Option.any_eq_true _ _).mp hany
  simp only [Bool.and_eq_true, beq_iff_eq, List.all_eq_true, List.mem_range, List.any_eq_true] at hall
  have hdrop := List.all_eq_true.mp hkept
  simp only [Bool.and_eq_true, Bool.not_eq_true'] at hdrop
  exact ⟨_, _, e, m, noisyRun_acked, hpoll, hgenuine 0 128 e hpoll, hall.2,
    (hpushed send hsend m hm hall.1).2 hdrop hall.2⟩

end Guarantees

end Msrt
