import Msrt.Outgoing
import Msrt.ReceiveStream

/-! # Two engines on a link

A link carries whole envelopes.  It may lose, duplicate, delay and reorder them: a receive is fed
any concatenation of envelopes the other side has transmitted so far (`Carries`).  Operations of the
two sides interleave freely (`LinkRun`).

What the receiver handles are packets of the sender (`Fed`), also while the rest of a chunk waits in
the ingress buffer behind an error.  With ids that do not repeat, every fragment is filed under the
message it belongs to (`Fed.ownFragments`), and the receiver's side of a message applies.
-/

namespace Msrt
open EngineState

/-! ## Streams of envelopes -/

/-- The stream that carries `packets`. -/
def packetStream (integrity : IntegrityConfig) (packets : List Bytes) : Bytes :=
  (packets.map (envelope integrity)).flatten

@[simp] theorem packetStream_nil (integrity : IntegrityConfig) : packetStream integrity [] = [] := rfl

@[simp] theorem packetStream_cons (integrity : IntegrityConfig) (packet : Bytes)
    (packets : List Bytes) : packetStream integrity (packet :: packets) =
      envelope integrity packet ++ packetStream integrity packets := rfl

theorem packetStream_append (integrity : IntegrityConfig) (packets more : List Bytes) :
    packetStream integrity (packets ++ more) =
      packetStream integrity packets ++ packetStream integrity more := by
  simp [packetStream]

/-- No call but a receive touches the ingress buffer. -/
theorem Call.ingress_after (config : EngineConfig) (call : Call) :
    (call.after config).ingress = call.before.ingress := by
  obtain ⟨st, op⟩ := call
  cases op with
  | send packetType message => exact (st.sendFragmentedMessage_frame packetType message).ingress
  | sendPing => exact (st.queueLiveness_frame .ping .newData).ingress
  | poll nowMs txLen => exact (st.poll_frame nowMs txLen).ingress
  | packet bytes => exact st.ingress_receiveCompletePacket config bytes

section Stream
variable {config : EngineConfig} {ok : Bytes → Prop}

/-- One call of `feed` on a stream of packets that fits the buffer: the decoder asks for more when
the stream is empty, and hands on its first packet otherwise. -/
theorem feed_packetStream {integrity : IntegrityConfig}
    (hok : ∀ packet, ok packet → packet.length ≤ maxPacketLen ∧
      (envelope integrity packet).length ≤ maxWireBytes)
    (d : StreamingDecoder maxIngressBytes) {input : Bytes} {packets : List Bytes}
    (hpackets : ∀ p ∈ packets, ok p)
    (hstream : d.rest ++ input = packetStream integrity packets)
    (hfit : d.rest.length + input.length ≤ maxIngressBytes) :
    (packets = [] ∧ ∃ d', d.feed input integrity = (d', .ok (.needMore none)) ∧ d'.rest = []) ∨
      ∃ packet tail d' consumed, packets = packet :: tail ∧
        d.feed input integrity = (d', .ok (.packet packet consumed)) ∧
        d'.rest = packetStream integrity tail := by
  obtain ⟨d', outcome, hfeed, hdec⟩ := d.feed_spec integrity hfit
  have houtcome := hdec.outcome_eq
  have hleft := hdec.rest_eq
  rw [hstream] at houtcome hleft
  cases packets with
  | nil =>
    obtain rfl : outcome = .needMore none := houtcome
    exact .inl ⟨rfl, d', hfeed, by simpa using hleft⟩
  | cons packet tail =>
    obtain ⟨hlen, hwire⟩ := hok packet (hpackets packet List.mem_cons_self)
    rw [packetStream_cons, classify_envelope hlen (Nat.le_trans hwire (by decide))] at houtcome
    subst houtcome
    refine .inr ⟨packet, tail, d', _, rfl, hfeed, ?_⟩
    rw [hleft, packetStream_cons]
    exact List.drop_left' rfl

/-- The receive loop on a stream of packets hands on packets of the stream, and leaves a stream of
packets behind, whatever its report. -/
theorem receiveLoop_packetStream
    (hok : ∀ packet, ok packet → packet.length ≤ maxPacketLen ∧ packet.length ≤ maxWireBytes ∧
      (envelope config.integrity packet).length ≤ maxWireBytes)
    (fuel : Nat) (st : EngineState) {input : Bytes} (report : ReceiveReport)
    {buffered incoming : List Bytes} (hbuffered : ∀ p ∈ buffered, ok p)
    (hincoming : ∀ p ∈ incoming, ok p)
    (hrest : st.ingress.rest = packetStream config.integrity buffered)
    (hinput : input = packetStream config.integrity incoming) :
    (∀ call ∈ receiveLoopCalls config fuel st input, ∃ p, ok p ∧ call.op = .packet p) ∧
      ∃ left, (∀ p ∈ left, ok p) ∧ (receiveLoop config fuel st input report).1.ingress.rest =
        packetStream config.integrity left := by
  -- on the fuel: each round takes one packet off the stream, and the rest is fed with no input
  induction fuel generalizing st input report buffered incoming with
  | zero => exact ⟨by simp [receiveLoopCalls], buffered, hbuffered, hrest⟩
  | succ fuel ih =>
    unfold receiveLoopCalls receiveLoop
    rcases Nat.lt_or_ge maxIngressBytes (st.ingress.rest.length + input.length) with hover | hfit
    · -- an overflow drops the input and keeps what was buffered
      rw [st.ingress.feed_overflow config.integrity hover]
      exact ⟨by simp, buffered, hbuffered, st.ingress.rest_consumePending.trans hrest⟩
    · have hstream : st.ingress.rest ++ input =
          packetStream config.integrity (buffered ++ incoming) := by
        rw [hrest, hinput, packetStream_append]
      have hall : ∀ p ∈ buffered ++ incoming, ok p := fun p hp =>
        (List.mem_append.mp hp).elim (hbuffered p) (hincoming p)
      rcases feed_packetStream (fun p hp => ⟨(hok p hp).1, (hok p hp).2.2⟩) st.ingress hall hstream
        hfit with ⟨-, d, hfeed, hempty⟩ | ⟨packet, packets, d, consumed, hsplit, hfeed, hdrop⟩
      · rw [hfeed]
        exact ⟨by simp, [], by simp, hempty⟩
      · rw [hsplit] at hall
        have hpacketOk : ok packet := hall packet List.mem_cons_self
        have htail : ∀ p ∈ packets, ok p := fun p hp => hall p (List.mem_cons_of_mem _ hp)
        have hstored := (hok packet hpacketOk).2.1
        have hbytes : packetBytesTryFromSlice packet = .ok packet := if_neg (by omega)
        rw [hfeed]
        dsimp only
        rw [hbytes]
        have hingress := Call.ingress_after config ⟨{ st with ingress := d }, .packet packet⟩
        have hrest' : (receiveCompletePacket { st with ingress := d } config
            packet).1.ingress.rest = packetStream config.integrity packets := by
          rw [← hdrop]
          exact congrArg StreamingDecoder.rest hingress
        have hnone : ∀ p ∈ ([] : List Bytes), ok p := by simp
        have hrec := ih (receiveCompletePacket { st with ingress := d } config packet).1
          (receiveCompletePacket { st with ingress := d } config packet).2 htail hnone hrest'
          (packetStream_nil config.integrity).symm
        dsimp only
        split
        · refine ⟨?_, packets, htail, hrest'⟩
          intro call hc
          rw [List.mem_singleton.mp hc]
          exact ⟨packet, hpacketOk, rfl⟩
        · refine ⟨?_, hrec.2⟩
          intro call hc
          rcases List.mem_cons.mp hc with rfl | hc
          · exact ⟨packet, hpacketOk, rfl⟩
          · exact hrec.1 call hc

end Stream

/-! ## The two sides -/

/-- One side of a link: its state and the history that led to it. -/
structure Party where
  calls : List Call
  state : EngineState

/-- The side before its first operation. -/
def Party.new (config : EngineConfig) : Party := ⟨[], .new config.initialMessageId⟩

/-- The side after one more operation. -/
def Party.step (config : EngineConfig) (op : EngineOp) (party : Party) : Party :=
  ⟨party.calls ++ op.calls config party.state, op.after config party.state⟩

/-- The bytes are a concatenation of envelopes that were transmitted. -/
def Carries (config : EngineConfig) (calls : List Call) (bytes : Bytes) : Prop :=
  ∃ envelopes : List Bytes,
    (∀ e ∈ envelopes, ∃ call ∈ calls, call.emitted config = some e) ∧ bytes = envelopes.flatten

/-- The interleavings of a sender and a receiver.  The receiver is fed envelopes of the sender; what
the sender is fed is `back`, given the receiver's history. -/
inductive LinkRun (sender receiver : EngineConfig) (back : List Call → Bytes → Prop) :
    Party → Party → Prop
  | new : LinkRun sender receiver back (.new sender) (.new receiver)
  | left {a b : Party} (op : EngineOp) : LinkRun sender receiver back a b →
      (∀ bytes, op = .receive bytes → back b.calls bytes) →
      LinkRun sender receiver back (a.step sender op) b
  | right {a b : Party} (op : EngineOp) : LinkRun sender receiver back a b →
      (∀ bytes, op = .receive bytes → Carries sender a.calls bytes) →
      LinkRun sender receiver back a (b.step receiver op)

section Party
variable {config : EngineConfig}

theorem LinkRun.runs {sender receiver : EngineConfig} {back : List Call → Bytes → Prop}
    {a b : Party} (h : LinkRun sender receiver back a b) :
    PacketRun sender a.calls a.state ∧ PacketRun receiver b.calls b.state := by
  induction h with
  | new => exact ⟨.new, .new⟩
  | left op _ _ ih => exact ⟨ih.1.step op, ih.2⟩
  | right op _ _ ih => exact ⟨ih.1, ih.2.step op⟩

/-- What was transmitted at any time has its origin in the run. -/
theorem PacketRun.emitted_of_mem {calls : List Call} {st : EngineState}
    (h : PacketRun config calls st) {call : Call} (hc : call ∈ calls) {bytes : Bytes}
    (hemitted : call.emitted config = some bytes) :
    ∃ packet, Origin config calls packet ∧ bytes = envelope config.integrity packet := by
  obtain ⟨before, after, rfl⟩ := List.append_of_mem hc
  obtain ⟨packet, horigin, hbytes⟩ := (h.of_split rfl).emitted_origin hemitted
  exact ⟨packet, horigin.append _, hbytes⟩

/-- What a link carries is a stream of packets of the other side. -/
theorem Carries.packetStream {calls : List Call} {st : EngineState} {bytes : Bytes}
    (h : PacketRun config calls st) (hcarries : Carries config calls bytes) :
    ∃ packets, (∀ p ∈ packets, Origin config calls p) ∧
      bytes = packetStream config.integrity packets := by
  obtain ⟨envelopes, hemitted, rfl⟩ := hcarries
  induction envelopes with
  | nil => exact ⟨[], by simp, rfl⟩
  | cons e envelopes ih =>
    obtain ⟨call, hc, he⟩ := hemitted e List.mem_cons_self
    obtain ⟨packet, horigin, rfl⟩ := h.emitted_of_mem hc he
    obtain ⟨packets, hall, hbytes⟩ := ih (fun e' he' => hemitted e' (List.mem_cons_of_mem _ he'))
    refine ⟨packet :: packets, ?_, ?_⟩
    · intro p hp
      rcases List.mem_cons.mp hp with rfl | hp
      · exact horigin
      · exact hall p hp
    · rw [packetStream_cons, List.flatten_cons, hbytes]

end Party

/-! ## What a side is fed -/

/-- All packets handled and all bytes buffered are packets that were `sent`. -/
structure Fed (integrity : IntegrityConfig) (sent : Bytes → Prop) (party : Party) : Prop where
  handled : ∀ call ∈ party.calls, ∀ bytes, call.op = .packet bytes → sent bytes
  buffered : ∃ packets, (∀ p ∈ packets, sent p) ∧
    party.state.ingress.rest = packetStream integrity packets

section Fed
variable {config : EngineConfig} {integrity : IntegrityConfig} {sent : Bytes → Prop} {party : Party}

theorem Fed.new (id : MessageId) : Fed integrity sent ⟨[], .new id⟩ := ⟨by simp, [], by simp, rfl⟩

theorem Fed.mono {sent' : Bytes → Prop} (h : Fed integrity sent party)
    (hsent : ∀ p, sent p → sent' p) : Fed integrity sent' party := by
  obtain ⟨packets, hall, hrest⟩ := h.buffered
  exact ⟨fun call hc bytes hop => hsent _ (h.handled call hc bytes hop),
    packets, fun p hp => hsent p (hall p hp), hrest⟩

/-- A call that handles no packet feeds nothing. -/
theorem Fed.call (h : Fed integrity sent party) {op : CallOp} (hop : ∀ bytes, op ≠ .packet bytes) :
    Fed integrity sent ⟨party.calls ++ [⟨party.state, op⟩], Call.after config ⟨party.state, op⟩⟩ := by
  obtain ⟨packets, hall, hrest⟩ := h.buffered
  refine ⟨?_, packets, hall, ?_⟩
  · intro call hc bytes hcall
    rcases List.mem_append.mp hc with hc | hc
    · exact h.handled call hc bytes hcall
    · rw [List.mem_singleton.mp hc] at hcall
      exact absurd hcall (hop bytes)
  · rw [← hrest]
    exact congrArg StreamingDecoder.rest (Call.ingress_after config ⟨party.state, op⟩)

theorem Fed.step (hlen : ∀ p, sent p → p.length ≤ maxPacketLen ∧ p.length ≤ maxWireBytes ∧
      (envelope config.integrity p).length ≤ maxWireBytes)
    (h : Fed config.integrity sent party) (op : EngineOp)
    (hfed : ∀ bytes, op = .receive bytes →
      ∃ packets, (∀ p ∈ packets, sent p) ∧ bytes = packetStream config.integrity packets) :
    Fed config.integrity sent (party.step config op) := by
  cases op with
  | send message => exact h.call (by simp)
  | sendLog message => exact h.call (by simp)
  | sendPing => exact h.call (by simp)
  | poll nowMs txLen => exact h.call (by simp)
  | receive bytes =>
    obtain ⟨buffered, hbuffered, hrest⟩ := h.buffered
    obtain ⟨incoming, hincoming, hbytes⟩ := hfed bytes rfl
    obtain ⟨hcalls, left, hleft, hrest'⟩ := receiveLoop_packetStream hlen
      (party.state.ingress.rest.length + bytes.length + 1) party.state (.incomplete none)
      hbuffered hincoming hrest hbytes
    refine ⟨?_, left, hleft, hrest'⟩
    intro call hc packet hop
    rcases List.mem_append.mp hc with hc | hc
    · exact h.handled call hc packet hop
    · obtain ⟨p, hp, hop'⟩ := hcalls call hc
      rw [hop] at hop'
      obtain rfl := CallOp.packet.inj hop'
      exact hp

/-- A side that is fed envelopes of the other side. -/
theorem Fed.link_step {other : EngineConfig} (hsame : other.integrity = config.integrity)
    {otherCalls : List Call} {otherState : EngineState}
    (hother : PacketRun other otherCalls otherState)
    (h : Fed config.integrity (Origin other otherCalls) party) (op : EngineOp)
    (hfed : ∀ bytes, op = .receive bytes → Carries other otherCalls bytes) :
    Fed config.integrity (Origin other otherCalls) (party.step config op) := by
  refine h.step ?_ op ?_
  · intro p hp
    rw [← hsame]
    exact hp.length_le
  · intro bytes hop
    rw [← hsame]
    exact (hfed bytes hop).packetStream hother

/-- **The receiver handles packets of the sender and nothing else.** -/
theorem LinkRun.fed {sender receiver : EngineConfig} {back : List Call → Bytes → Prop}
    (hsame : sender.integrity = receiver.integrity) {a b : Party}
    (h : LinkRun sender receiver back a b) : Fed receiver.integrity (Origin sender a.calls) b := by
  induction h with
  | new => exact .new _
  | left op _ _ ih => exact ih.mono fun p hp => hp.append _
  | right op hrun hfed ih => exact ih.link_step hsame hrun.runs.1 op hfed

/-- With envelopes both ways, so does the sender. -/
theorem LinkRun.fed_back {sender receiver : EngineConfig}
    (hsame : sender.integrity = receiver.integrity) {a b : Party}
    (h : LinkRun sender receiver (Carries receiver) a b) :
    Fed sender.integrity (Origin receiver b.calls) a := by
  induction h with
  | new => exact .new _
  | left op hrun hfed ih => exact ih.link_step hsame.symm hrun.runs.2 op hfed
  | right op _ _ ih => exact ih.mono fun p hp => hp.append _

end Fed

/-! ## Schedules -/

/-- A step of a schedule: an operation of one side, or the delivery of envelopes named by the order
in which they were transmitted. -/
inductive LinkOp where
  | left (op : EngineOp)
  | right (op : EngineOp)
  | forward (numbers : List Nat)
  | backward (numbers : List Nat)

section Schedule
variable (sender receiver : EngineConfig)

/-- The envelopes of a side with the given numbers, one after the other. -/
def Party.envelopes (config : EngineConfig) (party : Party) (numbers : List Nat) : List Bytes :=
  numbers.filterMap (fun n => (party.calls.filterMap (Call.emitted config))[n]?)

/-- One step of a schedule; receives stand for deliveries only. -/
def LinkOp.run (op : LinkOp) (a b : Party) : Party × Party :=
  match op with
  | .left (.receive _) | .right (.receive _) => (a, b)
  | .left op => (a.step sender op, b)
  | .right op => (a, b.step receiver op)
  | .forward numbers => (a, b.step receiver (.receive (a.envelopes sender numbers).flatten))
  | .backward numbers => (a.step sender (.receive (b.envelopes receiver numbers).flatten), b)

/-- The two sides after a schedule. -/
def runSchedule (ops : List LinkOp) : Party × Party :=
  ops.foldl (fun link op => op.run sender receiver link.1 link.2) (.new sender, .new receiver)

variable {sender receiver}

theorem carries_envelopes (config : EngineConfig) (party : Party) (numbers : List Nat) :
    Carries config party.calls (party.envelopes config numbers).flatten := by
  refine ⟨_, ?_, rfl⟩
  intro e he
  obtain ⟨n, -, hn⟩ := List.mem_filterMap.mp he
  obtain ⟨call, hc, hemitted⟩ := List.mem_filterMap.mp (List.mem_of_getElem? hn)
  exact ⟨call, hc, hemitted⟩

theorem LinkRun.schedule_step {a b : Party} (h : LinkRun sender receiver (Carries receiver) a b)
    (op : LinkOp) : LinkRun sender receiver (Carries receiver)
      (op.run sender receiver a b).1 (op.run sender receiver a b).2 := by
  have hfed {config : EngineConfig} {calls : List Call} {bytes : Bytes}
      (h : Carries config calls bytes) :
      ∀ bytes', EngineOp.receive bytes = .receive bytes' → Carries config calls bytes' := by
    intro bytes' heq
    obtain rfl := EngineOp.receive.inj heq
    exact h
  cases op with
  | left op =>
    cases op with
    | receive bytes => exact h
    | send | sendLog | sendPing | poll => exact h.left _ (by simp)
  | right op =>
    cases op with
    | receive bytes => exact h
    | send | sendLog | sendPing | poll => exact h.right _ (by simp)
  | forward numbers => exact h.right _ (hfed (carries_envelopes sender a numbers))
  | backward numbers => exact h.left _ (hfed (carries_envelopes receiver b numbers))

/-- Every schedule is a run of the link. -/
theorem linkRun_runSchedule (sender receiver : EngineConfig) (ops : List LinkOp) :
    LinkRun sender receiver (Carries receiver) (runSchedule sender receiver ops).1
      (runSchedule sender receiver ops).2 := by
  have key : ∀ (ops : List LinkOp) (link : Party × Party),
      LinkRun sender receiver (Carries receiver) link.1 link.2 →
      LinkRun sender receiver (Carries receiver)
        (ops.foldl (fun link op => op.run sender receiver link.1 link.2) link).1
        (ops.foldl (fun link op => op.run sender receiver link.1 link.2) link).2 := by
    intro ops
    induction ops with
    | nil => exact fun link h => h
    | cons op ops ih => exact fun link h => ih _ (h.schedule_step op)
  exact key ops _ .new

end Schedule

end Msrt
