import Msrt.Chunks
import Msrt.Frames
import Msrt.History
import Msrt.PacketFormat
import Msrt.SchedulerSpec

/-! # Sending a message

A message is accepted whole or not at all.  `ensureCanQueueMessage` looks at the room before the
first fragment is queued, every fragment that follows takes at most one entry of each table, and the
encoders never refuse a fragment of the clamped size; so the fragment loop runs to its end
(`sendFragmentsLoop_eq`), and a refused message changes nothing but the message id.

`SentMessage.packet` is what the receiver is to read: the packet of fragment `i`.
-/

namespace Msrt

/-! ## The fragments of a message -/

namespace SentMessage

/-- Only DATA and LOG messages of bounded length are ever accepted. -/
structure Valid (m : SentMessage) : Prop where
  kind : m.packetType = .data ∨ m.packetType = .log
  length_le : m.bytes.length ≤ maxMessageBytes

/-- The length of the header in front of each fragment. -/
def headerLen (m : SentMessage) : Nat :=
  match m.packetType with
  | .data => dataPacketHeaderLen
  | _ => logPacketHeaderLen

/-- The reliability mode of the message. -/
def mode (m : SentMessage) : ReliabilityMode :=
  match m.packetType with
  | .data => .reliable
  | _ => .bestEffort

variable (config : EngineConfig)

/-- The fragment size the configuration comes to. -/
def size (m : SentMessage) : Nat :=
  min (max config.fragmentBytes 1)
    (maxWireBytes - wireHeaderLen - m.headerLen - config.integrity.tagLen)

/-- The number of fragments. -/
def count (m : SentMessage) : Nat := fragmentCount m.bytes.length (m.size config)

/-- The bytes of fragment `i`. -/
def fragment (m : SentMessage) (i : Nat) : Bytes :=
  (m.bytes.drop (i * m.size config)).take (m.size config)

/-- The packet of fragment `i`. -/
def packet (m : SentMessage) (i : Nat) : Bytes :=
  match m.packetType with
  | .data =>
    dataPacketBytes ⟨.ackEliciting, m.messageId, UInt16.ofNat i, m.bytes.length,
      i * m.size config⟩ (m.fragment config i)
  | _ =>
    logPacketBytes ⟨m.messageId, UInt16.ofNat i, m.bytes.length, i * m.size config⟩
      (m.fragment config i)

/-- The key of fragment `i`. -/
def packetKey (m : SentMessage) (i : Nat) : PacketKey := ⟨m.messageId, UInt16.ofNat i⟩

/-- The envelope of fragment `i`, as it is stored. -/
def wire (m : SentMessage) (i : Nat) : WireBuffer :=
  .store (envelope config.integrity (m.packet config i))

/-- The write event of fragment `i`. -/
def writeEvent (m : SentMessage) (i : Nat) : WriteEvent :=
  ⟨m.packetKey i, m.wire config i, 0, .newData⟩

/-- The in-flight entry of fragment `i`. -/
def inFlightPacket (m : SentMessage) (nowMs i : Nat) : InFlightPacket :=
  ⟨m.packetKey i, m.packetType, m.messageId, m.wire config i, 0, nowMs, false⟩

theorem headerLen_le (m : SentMessage) : m.headerLen ≤ 12 := by
  unfold headerLen
  split <;> decide

theorem size_pos (m : SentMessage) : 0 < m.size config := by
  have htag := config.integrity.tagLen_le
  have hheader := m.headerLen_le
  unfold size maxWireBytes
  rw [wireHeaderLen_eq]
  omega

theorem size_le (m : SentMessage) : m.size config ≤
    maxWireBytes - wireHeaderLen - m.headerLen - config.integrity.tagLen :=
  Nat.min_le_right _ _

theorem length_fragment_le (m : SentMessage) (i : Nat) :
    (m.fragment config i).length ≤ m.size config := Chunks.length_chunk_le _ _ _

theorem count_pos (m : SentMessage) : 0 < m.count config := Chunks.count_pos (m.size_pos config) _

variable {config} {m : SentMessage}

variable (config) in
/-- The fragments of a nonempty message are those whose offset lies inside it. -/
theorem offset_lt_iff (h : m.bytes ≠ []) (i : Nat) :
    i * m.size config < m.bytes.length ↔ i < m.count config :=
  Chunks.start_lt_iff (m.size_pos config) (by simpa using h) i

theorem offset_le {i : Nat} (hi : i < m.count config) : i * m.size config ≤ m.bytes.length :=
  Chunks.start_le (m.size_pos config) hi

theorem fragment_fits {i : Nat} (hi : i < m.count config) :
    i * m.size config + (m.fragment config i).length ≤ m.bytes.length :=
  Chunks.chunk_fits (m.size_pos config) hi

/-- The fragment as the loop cuts it out. -/
theorem fragment_eq (i : Nat) :
    ((m.bytes.take (min (i * m.size config + m.size config) m.bytes.length)).drop
      (i * m.size config)) = m.fragment config i :=
  Chunks.drop_take_eq_chunk m.bytes (m.size config) i

theorem length_packet (i : Nat) :
    (m.packet config i).length = m.headerLen + (m.fragment config i).length := by
  unfold packet headerLen
  split
  · exact length_dataPacketBytes _ _
  · exact length_logPacketBytes _ _

theorem length_packet_le (m : SentMessage) (config : EngineConfig) (i : Nat) :
    (m.packet config i).length ≤ maxPacketLen := by
  have hsize := m.size_le config
  have hfragment := m.length_fragment_le config i
  have hheader := m.headerLen_le
  rw [length_packet]
  unfold maxWireBytes at hsize
  rw [wireHeaderLen_eq] at hsize
  unfold maxPacketLen
  omega

theorem length_envelope_packet_le (m : SentMessage) (config : EngineConfig) (i : Nat) :
    wireHeaderLen + (m.packet config i).length + config.integrity.tagLen ≤ maxWireBytes := by
  have hsize := m.size_le config
  have hfragment := m.length_fragment_le config i
  have hheader := m.headerLen_le
  have htag := config.integrity.tagLen_le
  rw [length_packet]
  unfold maxWireBytes at hsize ⊢
  rw [wireHeaderLen_eq] at hsize ⊢
  omega

/-- The encoder writes the packet of every fragment. -/
theorem encode_fragment (hm : m.Valid) {i : Nat} (hi : i < m.count config) :
    (do
      let header ← packetHeaderForFragment m.packetType (UInt16.ofNat i) m.messageId
        m.bytes.length (i * m.size config) m.mode
      encodeMessageFragment header (m.fragment config i) maxWireBytes config.integrity) =
      Except.ok (envelope config.integrity (m.packet config i)) := by
  have hlen := hm.length_le
  have hoff := offset_le hi
  unfold maxMessageBytes at hlen
  have hpacket := m.length_packet_le config i
  have hroom := m.length_envelope_packet_le config i
  rw [length_packet] at hpacket hroom
  rcases hm.kind with hk | hk
  · simp only [headerLen, hk] at hpacket hroom
    simp only [packetHeaderForFragment, hk, mode, packet, bind, Except.bind, if_true]
    exact encodeMessageFragment_data (by dsimp only; omega) (by dsimp only; omega) hpacket hroom
  · simp only [headerLen, hk] at hpacket hroom
    simp only [packetHeaderForFragment, hk, packet, bind, Except.bind]
    exact encodeMessageFragment_log (by dsimp only; omega) (by dsimp only; omega) hpacket hroom

end SentMessage

/-! ## The fragment loop -/

namespace EngineState
variable {config : EngineConfig} {m : SentMessage}

/-- Room for `k` more fragments of the message. -/
structure HasRoom (m : SentMessage) (st : EngineState) (k : Nat) : Prop where
  scheduler : st.scheduler.len + k ≤ maxEvents
  inFlight : m.mode = .reliable → st.recovery.inFlight.len + k ≤ maxInFlightPackets

variable (config m) in
/-- The state once fragment `i` is queued. -/
def queueOne (st : EngineState) (i : Nat) : EngineState :=
  (st.queueFragment m.packetType m.mode (m.packetKey i) (m.wire config i)).1

variable (config m) in
/-- The state once all fragments are queued. -/
def queueMessage (st : EngineState) : EngineState :=
  (List.range (m.count config)).foldl (queueOne config m) st

/-- What queueing one fragment does when there is room. -/
structure FragmentQueued (config : EngineConfig) (m : SentMessage) (i : Nat)
    (st st' : EngineState) : Prop where
  pushed : SchedulerState.Pushed st.scheduler (.write (m.writeEvent config i)) st'.scheduler
  numbers : st'.numbers = st.numbers
  lastTick : st'.recovery.lastTickMs = st.recovery.lastTickMs
  frame : SendFrame st st'
  tracked : m.mode = .reliable → ∀ p, p ∈ st'.recovery.packets ↔
    p = m.inFlightPacket config st.clock.nowMs i ∨
      (p ∈ st.recovery.packets ∧ p.key ≠ m.packetKey i)
  untracked : m.mode ≠ .reliable → st'.recovery = st.recovery

variable (config) in
/-- With room, a fragment is queued and, for a reliable message, tracked. -/
theorem queueFragment_room {st : EngineState} {k : Nat} (hroom : HasRoom m st (k + 1)) (i : Nat) :
    (st.queueFragment m.packetType m.mode (m.packetKey i) (m.wire config i)).2 = .ok () ∧
      FragmentQueued config m i st (st.queueOne config m i) ∧
      HasRoom m (st.queueOne config m i) k := by
  obtain ⟨scheduler, hpush⟩ : ∃ scheduler,
      st.scheduler.push (.write (m.writeEvent config i)) = .ok scheduler := by
    cases h : st.scheduler.push (.write (m.writeEvent config i)) with
    | ok scheduler => exact ⟨scheduler, rfl⟩
    | error e =>
      have hfull := (SchedulerState.push_eq_error h).1
      have hlt := hroom.scheduler
      omega
  have hpush' : st.scheduler.push
      (.write ⟨m.packetKey i, m.wire config i, 0, .newData⟩) = .ok scheduler := hpush
  have hpushed := SchedulerState.push_eq_ok hpush
  have hlen := hpushed.len_le
  have hframe := st.queueFragment_frame m.packetType m.mode (m.packetKey i) (m.wire config i)
  -- only a reliable fragment is tracked, and then the room in flight counts too
  by_cases hmode : m.mode = .reliable
  · obtain ⟨inFlight, htrack⟩ := InFlightPackets.track_of_lt
      (m.inFlightPacket config st.clock.nowMs i) (t := st.recovery.inFlight)
      (by have := hroom.inFlight hmode; omega)
    have hresult : st.queueFragment m.packetType m.mode (m.packetKey i) (m.wire config i) =
        ({ st with scheduler, recovery := { st.recovery with inFlight } }, .ok ()) := by
      have htrack' : st.recovery.track ⟨m.packetKey i, m.packetType, (m.packetKey i).messageId,
          m.wire config i, 0, st.clock.nowMs, false⟩ = .ok { st.recovery with inFlight } := by
        unfold RecoveryState.track
        rw [show st.recovery.inFlight.track ⟨m.packetKey i, m.packetType,
          (m.packetKey i).messageId, m.wire config i, 0, st.clock.nowMs, false⟩ = .ok inFlight
          from htrack]
      simp only [queueFragment, hpush', hmode, if_true, htrack']
    have htracklen := InFlightPackets.len_of_track htrack
    have hone : st.queueOne config m i =
        { st with scheduler, recovery := { st.recovery with inFlight } } := by
      rw [queueOne, hresult]
    rw [hresult] at hframe
    refine ⟨by rw [hresult], ?_, ?_⟩
    · rw [hone]
      exact ⟨hpushed, rfl, rfl, hframe, fun _ p => InFlightPackets.mem_of_track htrack,
        fun h => absurd hmode h⟩
    · rw [hone]
      have h₁ := hroom.scheduler
      have h₂ := hroom.inFlight hmode
      exact ⟨by dsimp only; omega, fun _ => by dsimp only; omega⟩
  · have hresult : st.queueFragment m.packetType m.mode (m.packetKey i) (m.wire config i) =
        ({ st with scheduler }, .ok ()) := by
      simp only [queueFragment, hpush', hmode, if_false]
    have hone : st.queueOne config m i = { st with scheduler } := by
      rw [queueOne, hresult]
    rw [hresult] at hframe
    refine ⟨by rw [hresult], ?_, ?_⟩
    · rw [hone]
      exact ⟨hpushed, rfl, rfl, hframe, fun h => absurd h hmode, fun _ => rfl⟩
    · rw [hone]
      have h₁ := hroom.scheduler
      exact ⟨by dsimp only; omega, fun h => absurd h hmode⟩

variable (config) in
/-- One round of the loop queues one fragment. -/
theorem sendFragment_eq (hm : m.Valid) {i : Nat} (hi : i < m.count config) (st : EngineState) :
    st.sendFragment config m.packetType m.messageId m.bytes (m.size config) m.mode
      (i * m.size config) (UInt16.ofNat i) =
        st.queueFragment m.packetType m.mode (m.packetKey i) (m.wire config i) := by
  unfold sendFragment
  dsimp only
  rw [SentMessage.fragment_eq, SentMessage.encode_fragment hm hi]
  rfl

variable (config) in
/-- The loop over a message that is not empty, from fragment `i` on. -/
theorem sendFragmentsLoop_from (hm : m.Valid) (hne : m.bytes ≠ []) {i k fuel : Nat}
    (hcount : m.count config = i + k) (hfuel : k ≤ fuel) {st : EngineState}
    (hroom : HasRoom m st k) :
    sendFragmentsLoop config m.packetType m.messageId m.bytes (m.size config) m.mode fuel
      (min (i * m.size config) m.bytes.length) (UInt16.ofNat i) st =
        ((List.range' i k).foldl (queueOne config m) st, .ok ()) := by
  have hempty : ¬ m.bytes.isEmpty = true := by simpa using hne
  induction k generalizing i fuel st with
  | zero =>
    -- fragment `i` would start behind the last byte
    have hlen : ¬ i * m.size config < m.bytes.length := by
      rw [SentMessage.offset_lt_iff config hne]
      omega
    have hdone : ¬ (min (i * m.size config) m.bytes.length < m.bytes.length ∨
        (m.bytes.isEmpty ∧ min (i * m.size config) m.bytes.length = 0)) := by
      rintro (h | h)
      · omega
      · exact hempty h.1
    cases fuel with
    | zero => rfl
    | succ fuel =>
      rw [sendFragmentsLoop, if_neg hdone]
      rfl
  | succ k ih =>
    obtain ⟨fuel, rfl⟩ : ∃ f, fuel = f + 1 := ⟨fuel - 1, by omega⟩
    have hi : i < m.count config := by omega
    have hlt := (SentMessage.offset_lt_iff config hne i).mpr hi
    obtain ⟨hok, -, hroom'⟩ := queueFragment_room config hroom i
    have hround : st.queueFragment m.packetType m.mode (m.packetKey i) (m.wire config i) =
        (st.queueOne config m i, .ok ()) := Prod.ext rfl hok
    have hoffset : i * m.size config + m.size config = (i + 1) * m.size config := by
      rw [Nat.add_mul, Nat.one_mul]
    have hindex : UInt16.ofNat i + 1 = UInt16.ofNat (i + 1) := (UInt16.ofNat_add i 1).symm
    rw [Nat.min_eq_left (Nat.le_of_lt hlt), sendFragmentsLoop, if_pos (.inl hlt),
      sendFragment_eq config hm hi, hround]
    dsimp only
    rw [if_neg hempty, hoffset, hindex, ih (by omega) (by omega) hroom']
    rfl

/-- **The loop queues every fragment and never fails.** -/
theorem sendMessageFragments_eq (hm : m.Valid) {st : EngineState}
    (hroom : HasRoom m st (m.count config)) :
    st.sendMessageFragments config m.packetType m.messageId m.bytes (m.size config) m.mode =
      (st.queueMessage config m, .ok ()) := by
  have hlen := hm.length_le
  unfold sendMessageFragments queueMessage
  rw [if_neg (by omega)]
  by_cases hne : m.bytes = []
  · -- the empty message is one empty fragment, and the loop breaks behind it
    have hone : m.count config = 1 := by simp [SentMessage.count, fragmentCount, hne]
    rw [hone] at hroom
    obtain ⟨hok, -, -⟩ := queueFragment_room config hroom 0
    have hround : st.queueFragment m.packetType m.mode (m.packetKey 0) (m.wire config 0) =
        (st.queueOne config m 0, .ok ()) := Prod.ext rfl hok
    have hsend := sendFragment_eq config hm (i := 0) (by omega) st
    rw [hround, Nat.zero_mul] at hsend
    rw [hone, sendFragmentsLoop, if_pos (.inr ⟨by simp [hne], rfl⟩),
      show (0 : UInt16) = UInt16.ofNat 0 from rfl, hsend]
    dsimp only
    rw [if_pos (by simp [hne])]
    rfl
  · have hfuel : m.count config ≤ m.bytes.length + 1 := by
      have hsize := m.size_pos config
      by_contra hlarge
      have hlt := (SentMessage.offset_lt_iff config hne m.bytes.length).mpr (by omega)
      have := Nat.le_mul_of_pos_right m.bytes.length hsize
      omega
    have hloop := sendFragmentsLoop_from config hm hne (i := 0)
      (k := m.count config) (by omega) hfuel hroom
    rw [Nat.zero_mul, Nat.zero_min] at hloop
    rw [List.range_eq_range']
    exact hloop

/-! ## A send, whole or not at all -/

/-- The message a send of `packetType` would accept. -/
def nextMessage (st : EngineState) (packetType : PacketType) (message : Bytes) : SentMessage :=
  ⟨packetType, st.numbers.allocMessageId.2, message⟩

/-- The state with another id counter. -/
def withNumbers (st : EngineState) (numbers : NumberState) : EngineState := { st with numbers }

theorem withNumbers_frame (st : EngineState) (numbers : NumberState) :
    (st.withNumbers numbers).scheduler = st.scheduler ∧
      (st.withNumbers numbers).recovery = st.recovery ∧
      (st.withNumbers numbers).clock = st.clock := ⟨rfl, rfl, rfl⟩

/-- The state once an id is taken. -/
def withNextId (st : EngineState) : EngineState := st.withNumbers st.numbers.allocMessageId.1

theorem numbers_withNextId (st : EngineState) :
    st.withNextId.numbers = ⟨NumberState.nextId st.numbers.messageIdState⟩ := by
  rw [withNextId, withNumbers, NumberState.allocMessageId_eq]

@[simp] theorem scheduler_withNextId (st : EngineState) :
    st.withNextId.scheduler = st.scheduler := (st.withNumbers_frame _).1

@[simp] theorem recovery_withNextId (st : EngineState) :
    st.withNextId.recovery = st.recovery := (st.withNumbers_frame _).2.1

@[simp] theorem clock_withNextId (st : EngineState) :
    st.withNextId.clock = st.clock := (st.withNumbers_frame _).2.2

/-- What a send does. -/
inductive SendResult (config : EngineConfig) (st : EngineState) (packetType : PacketType)
    (message : Bytes) : EngineState × Except Error MessageId → Prop
  | unsupported (e : Error) : packetType ≠ .data → packetType ≠ .log →
      SendResult config st packetType message (st, .error e)
  | refused (e : Error) : packetType = .data ∨ packetType = .log →
      SendResult config st packetType message (st.withNextId, .error e)
  | accepted : (st.nextMessage packetType message).Valid →
      HasRoom (st.nextMessage packetType message) st.withNextId
        ((st.nextMessage packetType message).count config) →
      SendResult config st packetType message
        (st.withNextId.queueMessage config (st.nextMessage packetType message),
          .ok st.numbers.allocMessageId.2)

theorem hasRoom_of_ensureCanQueueMessage {st : EngineState}
    (h : st.ensureCanQueueMessage m.bytes.length (m.size config) m.mode = .ok ()) :
    HasRoom m st (m.count config) := by
  have hs := st.scheduler.len_le
  have hf := st.recovery.inFlight.len_le
  unfold ensureCanQueueMessage at h
  change (if m.count config > maxEvents ∨ st.scheduler.available < m.count config then
    Except.error Error.engine else _) = _ at h
  unfold SchedulerState.available at h
  split at h
  · cases h
  · rename_i hroom
    split at h
    · cases h
    · rename_i hflight
      refine ⟨?_, ?_⟩
      · have : st.scheduler.len ≤ maxEvents := hs
        omega
      · intro hmode
        have hav : ¬ st.recovery.availableInFlight < m.count config := fun hlt =>
          hflight ⟨hmode, hlt⟩
        unfold RecoveryState.availableInFlight InFlightPackets.available at hav
        have hmax : maxEvents = maxInFlightPackets := rfl
        omega

/-- A send of a supported kind, with the size and mode its kind comes to. -/
theorem sendFragmentedMessage_supported {st : EngineState} {packetType : PacketType}
    {message : Bytes} {most : Nat}
    (hkind : packetType = .data ∨ packetType = .log)
    (hmost : maxFragmentBytes packetType config.integrity.tagLen = .ok most)
    (hsize : min (max config.fragmentBytes 1) most =
      (st.nextMessage packetType message).size config)
    (hmode : reliabilityMode packetType = .ok (st.nextMessage packetType message).mode) :
    SendResult config st packetType message
      (st.sendFragmentedMessage config packetType message) := by
  have hnext : ({ st with numbers := st.numbers.allocMessageId.1 } : EngineState) =
      st.withNextId := rfl
  simp only [sendFragmentedMessage, hmost, hmode, hsize, hnext]
  cases hcheck : st.withNextId.ensureCanQueueMessage message.length
      ((st.nextMessage packetType message).size config)
      (st.nextMessage packetType message).mode with
  | error e => exact .refused e hkind
  | ok u =>
    have hroom : HasRoom (st.nextMessage packetType message) st.withNextId
        ((st.nextMessage packetType message).count config) :=
      hasRoom_of_ensureCanQueueMessage hcheck
    dsimp only
    -- the room was checked first: a message that fits but is too long is refused here
    by_cases hlen : message.length ≤ maxMessageBytes
    · have hm : (st.nextMessage packetType message).Valid := ⟨hkind, hlen⟩
      have hqueued := sendMessageFragments_eq hm hroom
      rw [show st.withNextId.sendMessageFragments config packetType st.numbers.allocMessageId.2
        message ((st.nextMessage packetType message).size config)
        (st.nextMessage packetType message).mode = _ from hqueued]
      exact .accepted hm hroom
    · have hrefused : st.withNextId.sendMessageFragments config packetType
          st.numbers.allocMessageId.2 message ((st.nextMessage packetType message).size config)
          (st.nextMessage packetType message).mode = (st.withNextId, .error .engine) := by
        unfold sendMessageFragments
        rw [if_pos (by omega)]
      rw [hrefused]
      exact .refused _ hkind

/-- **A message is accepted whole or not at all.** -/
theorem sendFragmentedMessage_result (config : EngineConfig) (st : EngineState)
    (packetType : PacketType) (message : Bytes) :
    SendResult config st packetType message
      (st.sendFragmentedMessage config packetType message) := by
  cases packetType with
  | data => exact sendFragmentedMessage_supported (.inl rfl) rfl rfl rfl
  | log => exact sendFragmentedMessage_supported (.inr rfl) rfl rfl rfl
  | ack | ping | pong => exact .unsupported _ (by simp) (by simp)

theorem ensureCanQueueMessage_of_hasRoom {st : EngineState} (h : HasRoom m st (m.count config)) :
    st.ensureCanQueueMessage m.bytes.length (m.size config) m.mode = .ok () := by
  have hscheduler := h.scheduler
  unfold ensureCanQueueMessage
  change (if m.count config > maxEvents ∨ st.scheduler.available < m.count config then
    Except.error Error.engine else _) = _
  unfold SchedulerState.available
  rw [if_neg (by omega), if_neg]
  rintro ⟨hmode, hfull⟩
  have hinFlight := h.inFlight hmode
  have hfull : maxInFlightPackets - st.recovery.inFlight.len < m.count config := hfull
  omega

/-- With room for its fragments, a message of bounded length is accepted. -/
theorem sendFragmentedMessage_of_hasRoom {st : EngineState} {packetType : PacketType} {message : Bytes}
    (hm : (st.nextMessage packetType message).Valid)
    (hroom : HasRoom (st.nextMessage packetType message) st.withNextId
      ((st.nextMessage packetType message).count config)) :
    (st.sendFragmentedMessage config packetType message).2 = .ok st.numbers.allocMessageId.2 := by
  have hnext : ({ st with numbers := st.numbers.allocMessageId.1 } : EngineState) =
      st.withNextId := rfl
  obtain ⟨most, hmost, hsize, hmode⟩ : ∃ most,
      maxFragmentBytes packetType config.integrity.tagLen = .ok most ∧
      min (max config.fragmentBytes 1) most = (st.nextMessage packetType message).size config ∧
      reliabilityMode packetType = .ok (st.nextMessage packetType message).mode := by
    have hkind : packetType = .data ∨ packetType = .log := hm.kind
    rcases hkind with rfl | rfl <;> exact ⟨_, rfl, rfl, rfl⟩
  have hchecked : st.withNextId.ensureCanQueueMessage message.length
      ((st.nextMessage packetType message).size config)
      (st.nextMessage packetType message).mode = .ok () := ensureCanQueueMessage_of_hasRoom hroom
  have hqueued : st.withNextId.sendMessageFragments config packetType st.numbers.allocMessageId.2
      message ((st.nextMessage packetType message).size config)
      (st.nextMessage packetType message).mode =
        (st.withNextId.queueMessage config (st.nextMessage packetType message), .ok ()) :=
    sendMessageFragments_eq hm hroom
  simp only [sendFragmentedMessage, hmost, hmode, hnext, hsize, hchecked, hqueued]

/-! ## What an accepted message leaves behind -/

/-- Induction along the fragments of a message for which there is room. -/
theorem queueMessage_induction {motive : Nat → EngineState → Prop} {st : EngineState}
    (hroom : HasRoom m st (m.count config)) (start : motive 0 st)
    (next : ∀ i st st', i < m.count config → motive i st → FragmentQueued config m i st st' →
      motive (i + 1) st') : motive (m.count config) (st.queueMessage config m) := by
  have upTo : ∀ k ≤ m.count config,
      motive k ((List.range k).foldl (queueOne config m) st) ∧
        HasRoom m ((List.range k).foldl (queueOne config m) st) (m.count config - k) := by
    intro k
    induction k with
    | zero => intro _; exact ⟨start, hroom⟩
    | succ k ih =>
      intro hk
      obtain ⟨hmotive, hleft⟩ := ih (by omega)
      obtain ⟨j, hj⟩ : ∃ j, m.count config - k = j + 1 := ⟨m.count config - k - 1, by omega⟩
      rw [hj] at hleft
      obtain ⟨-, hqueued, hleft'⟩ := queueFragment_room config hleft k
      rw [List.range_succ, List.foldl_append]
      refine ⟨next k _ _ (by omega) hmotive hqueued, ?_⟩
      rwa [show m.count config - (k + 1) = j by omega]
  exact (upTo _ (Nat.le_refl _)).1

/-- Only the fragments of the message are added to the scheduler. -/
theorem mem_queued_queueMessage {st : EngineState} (hroom : HasRoom m st (m.count config))
    {e : EngineOutput} (he : e ∈ (st.queueMessage config m).scheduler.queued) :
    e ∈ st.scheduler.queued ∨ ∃ i < m.count config, e = .write (m.writeEvent config i) := by
  refine queueMessage_induction (motive := fun _ st' => ∀ e ∈ st'.scheduler.queued,
    e ∈ st.scheduler.queued ∨ ∃ i < m.count config, e = .write (m.writeEvent config i))
    hroom (fun e he => .inl he) ?_ e he
  intro i st₁ st₂ hi ih hq e he
  rcases hq.pushed.mem he with rfl | he
  · exact .inr ⟨i, hi, rfl⟩
  · exact ih e he

theorem failures_queueMessage {st : EngineState} (hroom : HasRoom m st (m.count config)) :
    (st.queueMessage config m).scheduler.failures = st.scheduler.failures := by
  refine queueMessage_induction
    (motive := fun _ st' => st'.scheduler.failures = st.scheduler.failures) hroom rfl ?_
  intro i st₁ st₂ _ ih hq
  rw [hq.pushed.failures_eq, ih]

theorem numbers_queueMessage {st : EngineState} (hroom : HasRoom m st (m.count config)) :
    (st.queueMessage config m).numbers = st.numbers := by
  refine queueMessage_induction (motive := fun _ st' => st'.numbers = st.numbers) hroom rfl ?_
  intro i st₁ st₂ _ ih hq
  rw [hq.numbers, ih]

theorem packetKey_inj {i j : Nat} (hi : i < 2 ^ 16) (hj : j < 2 ^ 16)
    (h : m.packetKey i = m.packetKey j) : i = j := by
  have hindex : UInt16.ofNat i = UInt16.ofNat j := congrArg PacketKey.packetIndex h
  have hnat := congrArg UInt16.toNat hindex
  rwa [toNat_u16_ofNat hi, toNat_u16_ofNat hj] at hnat

/-- A message has at most as many fragments as there is room for. -/
theorem count_le_of_hasRoom {st : EngineState} (hroom : HasRoom m st (m.count config)) :
    m.count config ≤ maxEvents := Nat.le_trans (Nat.le_add_left _ _) hroom.scheduler

/-- **A reliable message is in flight with all its fragments.** -/
theorem mem_packets_queueMessage {st : EngineState} (hroom : HasRoom m st (m.count config))
    (hmode : m.mode = .reliable) {p : InFlightPacket} :
    p ∈ (st.queueMessage config m).recovery.packets ↔
      (∃ i < m.count config, p = m.inFlightPacket config st.clock.nowMs i) ∨
        (p ∈ st.recovery.packets ∧ ∀ i < m.count config, p.key ≠ m.packetKey i) := by
  have hcount := count_le_of_hasRoom hroom
  unfold maxEvents at hcount
  refine (queueMessage_induction (motive := fun k st' => k ≤ m.count config →
    st'.clock = st.clock ∧ ∀ p, p ∈ st'.recovery.packets ↔
      (∃ i < k, p = m.inFlightPacket config st.clock.nowMs i) ∨
        (p ∈ st.recovery.packets ∧ ∀ i < k, p.key ≠ m.packetKey i)) hroom ?_ ?_
      (Nat.le_refl _)).2 p
  · exact fun _ => ⟨rfl, fun p => by simp⟩
  · intro i st₁ st₂ hi ih hq _
    obtain ⟨hclock, hmem⟩ := ih (Nat.le_of_lt hi)
    refine ⟨hq.frame.clock.trans hclock, ?_⟩
    intro p
    rw [hq.tracked hmode p, hclock]
    constructor
    · rintro (rfl | ⟨hp, hne⟩)
      · exact .inl ⟨i, Nat.lt_succ_self i, rfl⟩
      · rcases (hmem p).mp hp with ⟨j, hj, rfl⟩ | ⟨hold, hkeys⟩
        · exact .inl ⟨j, Nat.lt_succ_of_lt hj, rfl⟩
        · refine .inr ⟨hold, ?_⟩
          intro j hj
          rcases Nat.lt_succ_iff_lt_or_eq.mp hj with hj | rfl
          · exact hkeys j hj
          · exact hne
    · rintro (⟨j, hj, rfl⟩ | ⟨hold, hkeys⟩)
      · rcases Nat.lt_succ_iff_lt_or_eq.mp hj with hj | rfl
        · refine .inr ⟨(hmem _).mpr (.inl ⟨j, hj, rfl⟩), ?_⟩
          intro hk
          -- indices below the count have distinct keys
          have := packetKey_inj (by omega) (by omega) (show m.packetKey j = m.packetKey i from hk)
          omega
        · exact .inl rfl
      · exact .inr ⟨(hmem p).mpr (.inr ⟨hold, fun j hj => hkeys j (Nat.lt_succ_of_lt hj)⟩),
          hkeys i (Nat.lt_succ_self i)⟩

theorem recovery_queueMessage {st : EngineState} (hroom : HasRoom m st (m.count config))
    (hmode : m.mode ≠ .reliable) : (st.queueMessage config m).recovery = st.recovery := by
  refine queueMessage_induction (motive := fun _ st' => st'.recovery = st.recovery) hroom rfl ?_
  intro i st₁ st₂ _ ih hq
  rw [hq.untracked hmode, ih]

end EngineState

end Msrt
