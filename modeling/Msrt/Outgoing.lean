import Mathlib.Data.Int.ModEq
import Msrt.Delivery
import Msrt.Lcg
import Msrt.StreamRecovery

/-! # What an engine puts on the wire

Everything a run transmits comes from the run itself (`Origin`): a fragment of a message it accepted
for sending, an acknowledgement of a fragment it accepted from the peer, a PING or a PONG.  The
message ids of a run are the iterates of a full-period generator, so fewer than `2 ^ 32` sends never
use one twice (`PacketRun.accepted_unique`).
-/

namespace Msrt
open EngineState

/-! ## One call -/

theorem queueLiveness_spec (config : EngineConfig) (st : EngineState) (packetType : PacketType)
    (priority : WritePriority) :
    let st' := (st.queueLiveness config packetType priority).1
    st'.numbers = st.numbers ∧ st'.recovery = st.recovery ∧
      (st'.scheduler = st.scheduler ∨ SchedulerState.Pushed st.scheduler
        (.write ⟨.zero, .store (envelope config.integrity [packetType.code]), 0, priority⟩)
        st'.scheduler) := by
  unfold queueLiveness
  rw [encodeLivenessPacket_ok]
  dsimp only
  split
  · exact ⟨rfl, rfl, .inl rfl⟩
  · rename_i hpush
    exact ⟨rfl, rfl, .inr (SchedulerState.push_eq_ok hpush)⟩

namespace Call
variable (config : EngineConfig)

/-- The call is a `send` or a `sendLog`. -/
def isSend (call : Call) : Bool :=
  match call.op with
  | .send packetType _ => packetType == .data || packetType == .log
  | _ => false

/-- The call reports nothing about what is sent. -/
structure Unsent (call : Call) : Prop where
  accepted : call.accepted config = none
  polled : call.polled config = none
  acknowledged : call.acknowledged = none

/-- What a call does to the send side. -/
inductive SendStep (call : Call) : Prop
  | untouched : call.Unsent config → (call.after config).scheduler = call.before.scheduler →
      (call.after config).recovery = call.before.recovery → SendStep call
  | liveness (packetType : PacketType) (priority : WritePriority) :
      packetType = .ping ∨ packetType = .pong → call.Unsent config →
      SchedulerState.Pushed call.before.scheduler
        (.write ⟨.zero, .store (envelope config.integrity [packetType.code]), 0, priority⟩)
        (call.after config).scheduler →
      (call.after config).recovery = call.before.recovery → SendStep call
  | sent (m : SentMessage) : call.accepted config = some m → m.Valid →
      m.messageId = NumberState.nextId call.before.numbers.messageIdState →
      call.polled config = none → call.acknowledged = none →
      HasRoom m call.before.withNextId (m.count config) →
      call.after config = call.before.withNextId.queueMessage config m → SendStep call
  | acked (bytes : Bytes) (key : PacketKey) : call.op = .packet bytes →
      decodePacketBytes bytes = .ack key →
      call.accepted config = none → call.polled config = none →
      (call.after config).scheduler = call.before.scheduler →
      (call.after config).recovery = call.before.recovery.applyAck key →
      call.acknowledged =
        (if call.before.recovery.packets.any (fun p => p.key == key) then some key else none) →
      SendStep call
  | polled (nowMs txLen : Nat) (ticked : EngineState) : call.op = .poll nowMs txLen →
      call.accepted config = none → call.acknowledged = none →
      Ticked config nowMs call.before ticked → ticked.ack = call.before.ack →
      ticked.message = call.before.message →
      PollStep config nowMs txLen ticked (call.after config)
        (call.before.poll config nowMs txLen).2 → SendStep call

theorem sendStep_send (st : EngineState) (packetType : PacketType) (message : Bytes) :
    SendStep config ⟨st, .send packetType message⟩ := by
  have hresult := sendFragmentedMessage_result config st packetType message
  generalize hr : st.sendFragmentedMessage config packetType message = result at hresult
  have hafter : after config ⟨st, .send packetType message⟩ = result.1 := congrArg Prod.fst hr
  cases hresult with
  | unsupported e =>
    refine .untouched ⟨by simp [accepted, hr], rfl, rfl⟩ ?_ ?_ <;> rw [hafter]
  | refused e =>
    refine .untouched ⟨by simp [accepted, hr], rfl, rfl⟩ ?_ ?_
    · rw [hafter, scheduler_withNextId]
    · rw [hafter, recovery_withNextId]
  | accepted hvalid hroom =>
    have hid : (st.nextMessage packetType message).messageId =
        NumberState.nextId st.numbers.messageIdState := by
      rw [nextMessage, NumberState.allocMessageId_eq]
    have haccepted : accepted config ⟨st, .send packetType message⟩ =
        some (st.nextMessage packetType message) := by
      simp only [accepted, hr, nextMessage]
    exact .sent (st.nextMessage packetType message) haccepted hvalid hid rfl rfl hroom hafter

theorem sendStep_packet (st : EngineState) (bytes : Bytes) :
    SendStep config ⟨st, .packet bytes⟩ := by
  have hunsent (h : ∀ key, decodePacketBytes bytes ≠ .ack key) :
      Unsent config ⟨st, .packet bytes⟩ := by
    refine ⟨rfl, rfl, ?_⟩
    cases hdec : decodePacketBytes bytes with
    | ack key => exact absurd hdec (h key)
    | data | log | ping | pong | malformed => simp [acknowledged, hdec]
  cases hdec : decodePacketBytes bytes with
  | data header fragment =>
    have hframe := receiveData_frame st fragment
    refine .untouched (hunsent (by simp [hdec])) ?_ ?_ <;>
      simp only [after, receiveCompletePacket, hdec]
    · exact hframe.scheduler
    · exact hframe.recovery
  | log header fragment =>
    have hframe := (receiveLog_spec st fragment).1.frame
    refine .untouched (hunsent (by simp [hdec])) ?_ ?_ <;>
      simp only [after, receiveCompletePacket, hdec]
    · exact hframe.scheduler
    · exact hframe.recovery
  | ack key =>
    refine .acked bytes key rfl hdec rfl rfl ?_ ?_ ?_ <;>
      simp only [after, acknowledged, receiveCompletePacket, hdec]
  | ping =>
    -- the PONG of a full scheduler is dropped
    obtain ⟨-, hrecovery, hscheduler⟩ := queueLiveness_spec config st .pong .control
    have hafter := after_ping config st hdec
    rcases hscheduler with hsame | hpushed
    · exact .untouched (hunsent (by simp [hdec])) (hafter ▸ hsame) (hafter ▸ hrecovery)
    · exact .liveness .pong .control (.inr rfl) (hunsent (by simp [hdec])) (hafter ▸ hpushed)
        (hafter ▸ hrecovery)
  | pong | malformed =>
    refine .untouched (hunsent (by simp [hdec])) ?_ ?_ <;>
      simp only [after, receiveCompletePacket, hdec]

/-- **What a call does to the send side.** -/
theorem sendStep (call : Call) : SendStep config call := by
  obtain ⟨st, op⟩ := call
  cases op with
  | send packetType message => exact sendStep_send config st packetType message
  | packet bytes => exact sendStep_packet config st bytes
  | sendPing =>
    obtain ⟨-, hrecovery, hscheduler⟩ := queueLiveness_spec config st .ping .newData
    rcases hscheduler with hsame | hpushed
    · exact .untouched ⟨rfl, rfl, rfl⟩ hsame hrecovery
    · exact .liveness .ping .newData (.inl rfl) ⟨rfl, rfl, rfl⟩ hpushed hrecovery
  | poll nowMs txLen =>
    obtain ⟨ticked, hticked, hframe, hstep⟩ := poll_spec config st nowMs txLen
    exact .polled nowMs txLen ticked rfl rfl rfl hticked hframe.ack hframe.message hstep

/-- The id counter moves with every send, accepted or not. -/
theorem numbers_after (call : Call) : (call.after config).numbers =
    if call.isSend then ⟨NumberState.nextId call.before.numbers.messageIdState⟩
    else call.before.numbers := by
  obtain ⟨st, op⟩ := call
  cases op with
  | send packetType message =>
    have hresult := sendFragmentedMessage_result config st packetType message
    have hsend : isSend ⟨st, .send packetType message⟩ =
        (packetType == .data || packetType == .log) := rfl
    rw [hsend]
    simp only [after]
    generalize st.sendFragmentedMessage config packetType message = result at hresult ⊢
    cases hresult with
    | unsupported e hdata hlog => simp [hdata, hlog]
    | refused e hkind =>
      rw [if_pos (by simpa using hkind)]
      exact st.numbers_withNextId
    | accepted hvalid hroom =>
      rw [numbers_queueMessage hroom, if_pos (by simpa [nextMessage] using hvalid.kind)]
      exact st.numbers_withNextId
  | sendPing => exact (queueLiveness_spec config st .ping .newData).1
  | poll nowMs txLen => exact (st.poll_frame nowMs txLen).numbers
  | packet bytes =>
    simp only [isSend, Bool.false_eq_true, if_false]
    cases hdec : decodePacketBytes bytes with
    | data header fragment =>
      simp only [after, receiveCompletePacket, hdec]
      cases receiveData_spec st fragment with
      | duplicate _ hframe => exact hframe.numbers
      | refused _ _ hspec => exact hspec.frame.numbers
      | accepted _ _ hspec => exact hspec.frame.numbers
    | log header fragment =>
      simp only [after, receiveCompletePacket, hdec]
      exact (receiveLog_spec st fragment).1.frame.numbers
    | ping =>
      rw [after_ping config st hdec]
      exact (queueLiveness_spec config st .pong .control).1
    | ack | pong | malformed => simp only [after, receiveCompletePacket, hdec]

end Call

/-! ## Message ids -/

namespace NumberState

theorem toNat_nextId (id : MessageId) :
    (nextId id).toNat = (1664525 * id.toNat + 1013904223) % 2 ^ 32 := by
  unfold nextId messageIdMultiplier messageIdIncrement
  rw [UInt32.toNat_add, UInt32.toNat_mul, Nat.mod_add_mod, Nat.mul_comm]
  rfl

/-- The allocator is a linear congruential generator modulo `2 ^ 32`. -/
theorem toNat_iterate_nextId (n : Nat) (id : MessageId) :
    ((nextId^[n] id).toNat : ℤ) ≡
      (Lcg.next 1664525 1013904223)^[n] id.toNat [ZMOD 2 ^ 32] := by
  induction n with
  | zero => rfl
  | succ n ih =>
    rw [Function.iterate_succ_apply', Function.iterate_succ_apply', toNat_nextId]
    push_cast
    exact (Int.mod_modEq _ _).trans ((ih.mul_left _).add_right _)

/-- **Fewer than `2 ^ 32` steps never return to an id.** -/
theorem iterate_nextId_ne {n : Nat} (hpos : 0 < n) (hlt : n < 2 ^ 32) (id : MessageId) :
    nextId^[n] id ≠ id := by
  intro heq
  have hcong := toNat_iterate_nextId n id
  rw [heq] at hcong
  have hdvd := Lcg.two_pow_dvd_of_iterate_sub (k := 32) (by decide) (by decide) hcong.dvd
  have := Nat.le_of_dvd hpos hdvd
  omega

end NumberState

section Ids
variable {config : EngineConfig} {calls : List Call} {st : EngineState}

/-- The number of sends, refused ones included. -/
def sendCount (calls : List Call) : Nat := calls.countP Call.isSend

/-- What the id counter of a run keeps. -/
structure IdInv (config : EngineConfig) (calls : List Call) (st : EngineState) : Prop where
  counter : st.numbers.messageIdState =
    NumberState.nextId^[sendCount calls] config.initialMessageId
  taken : ∀ call ∈ calls, ∀ m, call.accepted config = some m → ∃ k, 0 < k ∧ k ≤ sendCount calls ∧
    m.messageId = NumberState.nextId^[k] config.initialMessageId

theorem isSend_of_accepted {call : Call} {m : SentMessage} (h : call.accepted config = some m) :
    call.isSend = true ∧ m.messageId = NumberState.nextId call.before.numbers.messageIdState := by
  cases call.sendStep config with
  | untouched hunsent => rw [hunsent.accepted] at h; cases h
  | liveness _ _ _ hunsent => rw [hunsent.accepted] at h; cases h
  | acked _ _ _ _ hnone => rw [hnone] at h; cases h
  | polled _ _ _ _ hnone => rw [hnone] at h; cases h
  | sent m' haccepted hvalid hid =>
    rw [haccepted] at h
    obtain rfl := Option.some.inj h
    refine ⟨?_, hid⟩
    cases hop : call.op with
    | send packetType message =>
      simp only [Call.accepted, hop] at haccepted
      simp only [Call.isSend, hop]
      split at haccepted
      · obtain rfl := Option.some.inj haccepted
        simpa using hvalid.kind
      · cases haccepted
    | sendPing | poll | packet =>
      simp only [Call.accepted, hop] at haccepted
      cases haccepted

/-- What is accepted is a valid message of at most sixteen fragments. -/
theorem accepted_valid {call : Call} {m : SentMessage}
    (h : call.accepted config = some m) : m.Valid ∧ m.count config ≤ maxEvents := by
  cases call.sendStep config with
  | untouched hunsent => rw [hunsent.accepted] at h; cases h
  | liveness _ _ _ hunsent => rw [hunsent.accepted] at h; cases h
  | acked _ _ _ _ hnone => rw [hnone] at h; cases h
  | polled _ _ _ _ hnone => rw [hnone] at h; cases h
  | sent m' haccepted hvalid _ _ _ hroom =>
    rw [haccepted] at h
    obtain rfl := Option.some.inj h
    exact ⟨hvalid, count_le_of_hasRoom hroom⟩

theorem PacketRun.idInv (h : PacketRun config calls st) : IdInv config calls st := by
  induction h with
  | new => exact ⟨rfl, fun call hc => by cases hc⟩
  | ingress ingress _ ih => exact ⟨ih.counter, ih.taken⟩
  | @call calls st op _ ih =>
    have hcount : sendCount (calls ++ [⟨st, op⟩]) =
        sendCount calls + if Call.isSend ⟨st, op⟩ then 1 else 0 := by
      rw [sendCount, List.countP_append, List.countP_singleton]
      rfl
    refine ⟨?_, ?_⟩
    · rw [Call.numbers_after, hcount]
      split
      · rw [Function.iterate_succ_apply', ← ih.counter]
      · exact ih.counter
    · intro call hc m hm
      rcases List.mem_append.mp hc with hc | hc
      · obtain ⟨k, hpos, hle, hid⟩ := ih.taken call hc m hm
        exact ⟨k, hpos, by omega, hid⟩
      · obtain rfl := List.mem_singleton.mp hc
        obtain ⟨hsend, hid⟩ := isSend_of_accepted hm
        refine ⟨sendCount calls + 1, by omega, ?_, ?_⟩
        · rw [hcount, if_pos hsend]
        · rw [Function.iterate_succ_apply', ← ih.counter]
          exact hid

/-- An id that is about to be taken was not taken before. -/
theorem IdInv.fresh (h : IdInv config calls st) (hcount : sendCount calls + 1 < 2 ^ 32)
    {call : Call} (hc : call ∈ calls) {m : SentMessage} (hm : call.accepted config = some m) :
    m.messageId ≠ NumberState.nextId st.numbers.messageIdState := by
  obtain ⟨k, hpos, hle, hid⟩ := h.taken call hc m hm
  rw [hid, h.counter, ← Function.iterate_succ_apply' NumberState.nextId,
    show (sendCount calls).succ = (sendCount calls + 1 - k) + k by omega, Function.iterate_add_apply]
  exact (NumberState.iterate_nextId_ne (by omega) (by omega) _).symm

/-- **Two accepted messages with one id are one message.** -/
theorem PacketRun.accepted_unique (h : PacketRun config calls st)
    (hcount : sendCount calls < 2 ^ 32) {c c' : Call} (hc : c ∈ calls) (hc' : c' ∈ calls)
    {m m' : SentMessage} (hm : c.accepted config = some m) (hm' : c'.accepted config = some m')
    (hid : m.messageId = m'.messageId) : m = m' := by
  induction h with
  | new => cases hc
  | ingress ingress _ ih => exact ih hcount hc hc'
  | @call calls st op hrun ih =>
    rw [sendCount, List.countP_append, List.countP_singleton] at hcount
    have hnew : ∀ {call : Call} {m₁ m₂ : SentMessage}, call ∈ calls →
        call.accepted config = some m₁ → Call.accepted config ⟨st, op⟩ = some m₂ →
        m₁.messageId ≠ m₂.messageId := by
      intro call m₁ m₂ hcall h₁ h₂
      obtain ⟨hsend, hid₂⟩ := isSend_of_accepted h₂
      rw [if_pos hsend] at hcount
      rw [hid₂]
      exact hrun.idInv.fresh hcount hcall h₁
    rcases List.mem_append.mp hc with hc | hc <;> rcases List.mem_append.mp hc' with hc' | hc'
    · refine ih (Nat.lt_of_le_of_lt ?_ hcount) hc hc'
      exact Nat.le_add_right _ _
    · obtain rfl := List.mem_singleton.mp hc'
      exact absurd hid (hnew hc hm hm')
    · obtain rfl := List.mem_singleton.mp hc
      exact absurd hid.symm (hnew hc' hm' hm)
    · obtain rfl := List.mem_singleton.mp hc
      obtain rfl := List.mem_singleton.mp hc'
      exact Option.some.inj (hm.symm.trans hm')

end Ids

/-! ## The origin of a packet -/

/-- The packets a run can put on the wire. -/
inductive Origin (config : EngineConfig) (calls : List Call) : Bytes → Prop
  | fragment {call : Call} {m : SentMessage} {i : Nat} : call ∈ calls →
      call.accepted config = some m → i < m.count config →
      Origin config calls (m.packet config i)
  | ack {key : PacketKey} : key ∈ acceptedKeys calls → Origin config calls (ackPacketBytes key)
  | ping : Origin config calls [PacketType.ping.code]
  | pong : Origin config calls [PacketType.pong.code]

section Origin
variable {config : EngineConfig} {calls : List Call} {st : EngineState}

theorem Origin.append {packet : Bytes} (h : Origin config calls packet) (more : List Call) :
    Origin config (calls ++ more) packet := by
  cases h with
  | fragment hc hm hi => exact .fragment (List.mem_append_left _ hc) hm hi
  | ack hkey =>
    refine .ack ?_
    rw [acceptedKeys_append]
    exact List.mem_append_left _ hkey
  | ping => exact .ping
  | pong => exact .pong

theorem Origin.length_le {packet : Bytes} (h : Origin config calls packet) :
    packet.length ≤ maxPacketLen ∧ packet.length ≤ maxWireBytes ∧
      (envelope config.integrity packet).length ≤ maxWireBytes := by
  have htag := config.integrity.tagLen_le
  have hlen := length_envelope config.integrity packet
  rw [wireHeaderLen_eq] at hlen
  unfold maxWireBytes
  have hsmall (h : packet.length ≤ 7) : packet.length ≤ maxPacketLen ∧ packet.length ≤ 128 ∧
      (envelope config.integrity packet).length ≤ 128 :=
    ⟨by unfold maxPacketLen; omega, by omega, by omega⟩
  cases h with
  | @fragment call m i _ _ _ =>
    have henvelope := m.length_envelope_packet_le config i
    rw [wireHeaderLen_eq, maxWireBytes] at henvelope
    exact ⟨m.length_packet_le config i, by omega, by omega⟩
  | ack => exact hsmall (by rw [length_ackPacketBytes]; decide)
  | ping => exact hsmall (by decide)
  | pong => exact hsmall (by decide)

/-- The in-flight entry of a fragment of a message the run accepted. -/
def Tracks (config : EngineConfig) (calls : List Call) (p : InFlightPacket) : Prop :=
  ∃ call ∈ calls, ∃ m, call.accepted config = some m ∧ m.packetType = .data ∧
    ∃ i < m.count config, p.key = m.packetKey i ∧ p.packetType = .data ∧
      p.messageId = m.messageId ∧ p.wire = m.wire config i

/-- The write carries the envelope of a packet of the run. -/
def Carried (config : EngineConfig) (calls : List Call) (wire : WireBuffer) : Prop :=
  ∃ packet, Origin config calls packet ∧ wire.bytes = envelope config.integrity packet

/-- What the send side of a run keeps. -/
structure SenderInv (config : EngineConfig) (calls : List Call) (st : EngineState) : Prop where
  writes : ∀ write, .write write ∈ st.scheduler.queued → Carried config calls write.wire
  inFlight : ∀ p ∈ st.recovery.packets, Tracks config calls p

theorem Carried.append {wire : WireBuffer} (h : Carried config calls wire) (more : List Call) :
    Carried config (calls ++ more) wire := by
  obtain ⟨packet, horigin, hwire⟩ := h
  exact ⟨packet, horigin.append more, hwire⟩

theorem carried_store {packet : Bytes} (h : Origin config calls packet) :
    Carried config calls (.store (envelope config.integrity packet)) :=
  ⟨packet, h, WireBuffer.store_bytes h.length_le.2.2⟩

theorem Tracks.append {p : InFlightPacket} (h : Tracks config calls p) (more : List Call) :
    Tracks config (calls ++ more) p := by
  obtain ⟨call, hc, hrest⟩ := h
  exact ⟨call, List.mem_append_left _ hc, hrest⟩

/-- Tracking depends on what identifies the packet only. -/
theorem Tracks.of_same {p q : InFlightPacket} (h : Tracks config calls q)
    (hsame : p.key = q.key ∧ p.packetType = q.packetType ∧ p.messageId = q.messageId ∧
      p.wire = q.wire) : Tracks config calls p := by
  obtain ⟨hkey, htype, hid, hwire⟩ := hsame
  obtain ⟨call, hc, m, hm, hdata, i, hi, hrest⟩ := h
  exact ⟨call, hc, m, hm, hdata, i, hi, by rw [hkey, htype, hid, hwire]; exact hrest⟩

/-- The wire of a tracked packet is carried. -/
theorem Tracks.carried {p : InFlightPacket} (h : Tracks config calls p) :
    Carried config calls p.wire := by
  obtain ⟨call, hc, m, hm, -, i, hi, -, -, -, hwire⟩ := h
  rw [hwire]
  exact carried_store (.fragment hc hm hi)

theorem senderInv_ticked {nowMs : Nat} {st ticked : EngineState} (h : SenderInv config calls st)
    (hticked : Ticked config nowMs st ticked) : SenderInv config calls ticked := by
  cases hticked with
  | skipped _ hrecovery hscheduler => exact ⟨hscheduler ▸ h.writes, hrecovery ▸ h.inFlight⟩
  | scanned scan _ _ hscan hpackets hqueued =>
    refine ⟨?_, fun p hp => h.inFlight p ((hpackets p).mp hp).1⟩
    intro write hw
    rcases hqueued _ hw with hw | ⟨p, _, hfail⟩ | ⟨p, hp, hre⟩
    · exact h.writes write hw
    · cases hfail
    · obtain rfl := EngineOutput.write.inj hre
      exact (h.inFlight p (hscan.retransmits p hp)).carried

theorem senderInv_pollStep {nowMs txLen : Nat} {st st' : EngineState}
    {result : Except Error EnginePoll} (h : SenderInv config calls st)
    (hstep : PollStep config nowMs txLen st st' result) : SenderInv config calls st' := by
  have hwrites {e : EngineOutput} (hq : st.scheduler.queued = e ::ₘ st'.scheduler.queued) :
      ∀ write, .write write ∈ st'.scheduler.queued → Carried config calls write.wire := by
    intro write hw
    apply h.writes write
    rw [hq]
    exact Multiset.mem_cons_of_mem hw
  cases hstep with
  | ack key keys _ _ hscheduler hrecovery => exact ⟨hscheduler ▸ h.writes, hrecovery ▸ h.inFlight⟩
  | transmit write hq _ hrecovery =>
    refine ⟨hwrites hq, ?_⟩
    intro p hp
    rw [hrecovery] at hp
    obtain ⟨q, hq, hsame⟩ := same_of_mem_noteWrite hp
    exact (h.inFlight q hq).of_same hsame
  | tooSmall write hq _ hrecovery => exact ⟨hwrites hq, hrecovery ▸ h.inFlight⟩
  | sendFailed event hq hrecovery => exact ⟨hwrites hq, hrecovery ▸ h.inFlight⟩
  | message message messages _ _ hq hrecovery =>
    exact ⟨by rw [hq]; exact h.writes, hrecovery ▸ h.inFlight⟩
  | idle hq hrecovery => exact ⟨by rw [hq]; exact h.writes, hrecovery ▸ h.inFlight⟩

theorem SenderInv.append (h : SenderInv config calls st) (more : List Call) :
    SenderInv config (calls ++ more) st :=
  ⟨fun write hw => (h.writes write hw).append more, fun p hp => (h.inFlight p hp).append more⟩

theorem SenderInv.step {call : Call} (h : SenderInv config calls call.before) :
    SenderInv config (calls ++ [call]) (call.after config) := by
  have h := h.append [call]
  cases call.sendStep config with
  | untouched _ hscheduler hrecovery => exact ⟨hscheduler ▸ h.writes, hrecovery ▸ h.inFlight⟩
  | liveness packetType priority hkind _ hpushed hrecovery =>
    refine ⟨?_, hrecovery ▸ h.inFlight⟩
    intro write hw
    rcases hpushed.mem hw with hw | hw
    · obtain rfl := EngineOutput.write.inj hw
      rcases hkind with rfl | rfl
      · exact carried_store .ping
      · exact carried_store .pong
    · exact h.writes write hw
  | acked bytes key _ _ _ _ hscheduler hrecovery =>
    refine ⟨hscheduler ▸ h.writes, ?_⟩
    intro p hp
    rw [hrecovery] at hp
    exact h.inFlight p (InFlightPackets.mem_applyAck.mp hp).1
  | polled nowMs txLen ticked _ _ _ hticked _ _ hstep =>
    exact senderInv_pollStep (senderInv_ticked h hticked) hstep
  | sent m haccepted hvalid _ _ _ hroom hafter =>
    have horigin {i : Nat} (hi : i < m.count config) : Carried config (calls ++ [call])
        (m.wire config i) := carried_store (.fragment (by simp) haccepted hi)
    rw [hafter]
    refine ⟨?_, ?_⟩
    · intro write hw
      rcases mem_queued_queueMessage hroom hw with hw | ⟨i, hi, hw⟩
      · exact h.writes write (by rwa [scheduler_withNextId] at hw)
      · obtain rfl := EngineOutput.write.inj hw
        exact horigin hi
    · intro p hp
      -- LOG fragments are written and never tracked
      by_cases hmode : m.mode = .reliable
      · rcases (mem_packets_queueMessage hroom hmode).mp hp with ⟨i, hi, rfl⟩ | ⟨hp, -⟩
        · have hdata : m.packetType = .data := by
            rcases hvalid.kind with hk | hk
            · exact hk
            · simp [SentMessage.mode, hk] at hmode
          exact ⟨call, by simp, m, haccepted, hdata, i, hi, rfl, hdata, rfl, rfl⟩
        · exact h.inFlight p (by rwa [recovery_withNextId] at hp)
      · rw [recovery_queueMessage hroom hmode, recovery_withNextId] at hp
        exact h.inFlight p hp

theorem PacketRun.senderInv (h : PacketRun config calls st) : SenderInv config calls st := by
  induction h with
  | new =>
    refine ⟨?_, ?_⟩
    · intro write hw
      rw [show (EngineState.new config.initialMessageId).scheduler.queued = 0 from
        SchedulerState.queued_new] at hw
      cases hw
    · intro p hp
      rw [show (EngineState.new config.initialMessageId).recovery.packets = [] from
        InFlightPackets.toList_new] at hp
      cases hp
  | ingress ingress _ ih => exact ⟨ih.writes, ih.inFlight⟩
  | call op _ ih => exact ih.step

/-- What a poll transmits for a waiting acknowledgement is its envelope. -/
theorem eq_envelope_of_transmit_ack {key : PacketKey} {txLen : Nat} {integrity : IntegrityConfig}
    {bytes : Bytes} {attempts : UInt8}
    (h : (encodeAckPacket key txLen integrity).map (fun bytes => EnginePoll.transmit bytes 0) =
      .ok (.transmit bytes attempts)) : bytes = envelope integrity (ackPacketBytes key) := by
  cases henc : encodeAckPacket key txLen integrity with
  | error e =>
    rw [henc] at h
    cases h
  | ok wire =>
    rw [henc] at h
    obtain ⟨rfl, -⟩ := EnginePoll.transmit.inj (Except.ok.inj h)
    exact encodeAckPacket_eq_ok henc

/-- **Everything a run transmits is the envelope of one of its packets.** -/
theorem PacketRun.emitted_origin (hrun : PacketRun config calls st) {op : CallOp} {bytes : Bytes}
    (h : Call.emitted config ⟨st, op⟩ = some bytes) :
    ∃ packet, Origin config calls packet ∧ bytes = envelope config.integrity packet := by
  have hpolled : ∃ attempts, Call.polled config ⟨st, op⟩ = some (.transmit bytes attempts) := by
    unfold Call.emitted at h
    split at h
    · rename_i attempts hp
      exact ⟨attempts, by rw [hp, Option.some.inj h]⟩
    · cases h
  obtain ⟨attempts, hpolled⟩ := hpolled
  cases Call.sendStep config ⟨st, op⟩ with
  | untouched hunsent => rw [hunsent.polled] at hpolled; cases hpolled
  | liveness _ _ _ hunsent => rw [hunsent.polled] at hpolled; cases hpolled
  | acked _ _ _ _ _ hnone => rw [hnone] at hpolled; cases hpolled
  | sent _ _ _ _ hnone => rw [hnone] at hpolled; cases hpolled
  | polled nowMs txLen ticked hop _ _ hticked hack _ hstep =>
    obtain rfl : op = .poll nowMs txLen := hop
    have hresult : (st.poll config nowMs txLen).2 = .ok (.transmit bytes attempts) := by
      unfold Call.polled at hpolled
      dsimp only at hpolled
      split at hpolled
      · rename_i hok
        rw [hok, Option.some.inj hpolled]
      · cases hpolled
    -- the tick queues again what is in flight, so the invariant reaches the state polled from
    have hinv := senderInv_ticked hrun.senderInv hticked
    dsimp only at hstep hack
    rw [hresult] at hstep
    cases hstep with
    | ack key keys hcons _ _ _ _ hres =>
      refine ⟨_, .ack (hrun.receiverInv.acks key ?_), eq_envelope_of_transmit_ack hres.symm⟩
      rw [← hack, hcons]
      exact List.mem_cons_self
    | transmit write hq _ _ _ _ hres =>
      obtain ⟨rfl, -⟩ := EnginePoll.transmit.inj (Except.ok.inj hres)
      apply hinv.writes write
      rw [hq]
      exact Multiset.mem_cons_self _ _
    | tooSmall _ _ _ _ _ _ hres => cases hres
    | sendFailed _ _ _ _ _ hres => cases hres
    | message _ _ _ _ _ _ _ hres => cases hres
    | idle _ _ _ _ hres => cases hres

end Origin

end Msrt
