import Msrt.Engine

/-! # What an operation leaves alone

Sending touches the message ids, the scheduler and the in-flight table, and nothing else; a poll
moves the clock, expires reassembly slots, and touches the queues it takes its action from.  Each
group of untouched fields is one structure, so that an invariant about a field cites its frame and
never opens the operation.
-/

namespace Msrt.EngineState
variable {config : EngineConfig}

/-! ## Sending -/

/-- The fields sending leaves alone. -/
structure SendFrame (st st' : EngineState) : Prop where
  clock : st'.clock = st.clock
  ack : st'.ack = st.ack
  ingress : st'.ingress = st.ingress
  message : st'.message = st.message
  receive : st'.receive = st.receive
  reassembly : st'.reassembly = st.reassembly

theorem SendFrame.refl (st : EngineState) : SendFrame st st := ⟨rfl, rfl, rfl, rfl, rfl, rfl⟩

theorem SendFrame.trans {st st' st'' : EngineState} (h : SendFrame st st')
    (h' : SendFrame st' st'') : SendFrame st st'' where
  clock := h'.clock.trans h.clock
  ack := h'.ack.trans h.ack
  ingress := h'.ingress.trans h.ingress
  message := h'.message.trans h.message
  receive := h'.receive.trans h.receive
  reassembly := h'.reassembly.trans h.reassembly

theorem queueFragment_frame (st : EngineState) (packetType : PacketType) (mode : ReliabilityMode)
    (key : PacketKey) (wire : WireBuffer) :
    SendFrame st (st.queueFragment packetType mode key wire).1 := by
  unfold queueFragment
  split
  · exact .refl st
  · split
    · split <;> exact ⟨rfl, rfl, rfl, rfl, rfl, rfl⟩
    · exact ⟨rfl, rfl, rfl, rfl, rfl, rfl⟩

theorem sendFragment_frame (st : EngineState) (packetType : PacketType) (messageId : MessageId)
    (message : Bytes) (fragmentBytes : Nat) (mode : ReliabilityMode) (offset : Nat)
    (packetIndex : PacketIndex) :
    SendFrame st (st.sendFragment config packetType messageId message fragmentBytes mode offset
      packetIndex).1 := by
  unfold sendFragment
  dsimp only
  split
  · exact .refl st
  · exact queueFragment_frame ..

theorem sendFragmentsLoop_frame (packetType : PacketType) (messageId : MessageId)
    (message : Bytes) (fragmentBytes : Nat) (mode : ReliabilityMode) (fuel offset : Nat)
    (packetIndex : PacketIndex) (st : EngineState) :
    SendFrame st (sendFragmentsLoop config packetType messageId message fragmentBytes mode fuel
      offset packetIndex st).1 := by
  induction fuel generalizing offset packetIndex st with
  | zero => exact .refl st
  | succ fuel ih =>
    have hround : SendFrame st (st.sendFragment config packetType messageId message fragmentBytes
        mode offset packetIndex).1 := sendFragment_frame ..
    unfold sendFragmentsLoop
    split
    · rcases hs : st.sendFragment config packetType messageId message fragmentBytes mode offset
        packetIndex with ⟨st', _ | _⟩
      · rw [hs] at hround
        exact hround
      · rw [hs] at hround
        dsimp only
        split
        · exact hround
        · exact hround.trans (ih ..)
    · exact .refl st

theorem sendFragmentedMessage_frame (st : EngineState) (packetType : PacketType)
    (message : Bytes) : SendFrame st (st.sendFragmentedMessage config packetType message).1 := by
  unfold sendFragmentedMessage
  split
  · exact .refl st
  · rename_i most _
    have halloc : SendFrame st { st with numbers := st.numbers.allocMessageId.1 } :=
      ⟨rfl, rfl, rfl, rfl, rfl, rfl⟩
    dsimp only
    split
    · exact halloc
    · rename_i mode _
      split
      · exact halloc
      · have hloop : SendFrame { st with numbers := st.numbers.allocMessageId.1 }
            (sendMessageFragments { st with numbers := st.numbers.allocMessageId.1 } config
              packetType st.numbers.allocMessageId.2 message
              (min (max config.fragmentBytes 1) most) mode).1 := by
          unfold sendMessageFragments
          split
          · exact .refl _
          · exact sendFragmentsLoop_frame ..
        split
        · rename_i hs
          rw [hs] at hloop
          exact halloc.trans hloop
        · rename_i hs
          rw [hs] at hloop
          exact halloc.trans hloop

theorem queueLiveness_frame (st : EngineState) (packetType : PacketType)
    (priority : WritePriority) : SendFrame st (st.queueLiveness config packetType priority).1 := by
  unfold queueLiveness
  split
  · exact .refl st
  · split <;> exact ⟨rfl, rfl, rfl, rfl, rfl, rfl⟩

/-! ## The tick -/

/-- The fields the scheduling part of the tick leaves alone. -/
structure TickFrame (st st' : EngineState) : Prop where
  clock : st'.clock = st.clock
  numbers : st'.numbers = st.numbers
  ack : st'.ack = st.ack
  ingress : st'.ingress = st.ingress
  message : st'.message = st.message
  receive : st'.receive = st.receive
  reassembly : st'.reassembly = st.reassembly

theorem TickFrame.refl (st : EngineState) : TickFrame st st :=
  ⟨rfl, rfl, rfl, rfl, rfl, rfl, rfl⟩

theorem TickFrame.trans {st st' st'' : EngineState} (h : TickFrame st st')
    (h' : TickFrame st' st'') : TickFrame st st'' where
  clock := h'.clock.trans h.clock
  numbers := h'.numbers.trans h.numbers
  ack := h'.ack.trans h.ack
  ingress := h'.ingress.trans h.ingress
  message := h'.message.trans h.message
  receive := h'.receive.trans h.receive
  reassembly := h'.reassembly.trans h.reassembly

theorem foldl_frame {f : EngineState → InFlightPacket → EngineState}
    (hf : ∀ st packet, TickFrame st (f st packet)) (packets : List InFlightPacket)
    (st : EngineState) : TickFrame st (packets.foldl f st) := by
  induction packets generalizing st with
  | nil => exact .refl st
  | cons packet packets ih => exact (hf st packet).trans (ih _)

theorem failMessage_frame (st : EngineState) (packet : InFlightPacket) :
    TickFrame st (st.failMessage packet) := ⟨rfl, rfl, rfl, rfl, rfl, rfl, rfl⟩

theorem queueRetransmit_frame (failed : List (PacketType × MessageId)) (st : EngineState)
    (packet : InFlightPacket) : TickFrame st (queueRetransmit failed st packet) := by
  unfold queueRetransmit
  split
  · exact .refl st
  · exact ⟨rfl, rfl, rfl, rfl, rfl, rfl, rfl⟩

theorem tickRetransmit_frame (st : EngineState) (nowMs : Nat) :
    TickFrame (st.advanceClock config nowMs) (st.tickRetransmit config nowMs) := by
  unfold tickRetransmit
  have hticked : TickFrame (st.advanceClock config nowMs)
      { st.advanceClock config nowMs with
        recovery := ((st.advanceClock config nowMs).recovery.shouldTick nowMs).1 } :=
    ⟨rfl, rfl, rfl, rfl, rfl, rfl, rfl⟩
  dsimp only
  split
  · exact hticked.trans ((foldl_frame failMessage_frame _ _).trans
      (foldl_frame (queueRetransmit_frame _) _ _))
  · exact hticked

/-! ## The action of a poll -/

/-- The fields the action of a poll leaves alone. -/
structure OutputFrame (st st' : EngineState) : Prop where
  clock : st'.clock = st.clock
  numbers : st'.numbers = st.numbers
  ingress : st'.ingress = st.ingress
  receive : st'.receive = st.receive
  reassembly : st'.reassembly = st.reassembly

theorem OutputFrame.refl (st : EngineState) : OutputFrame st st := ⟨rfl, rfl, rfl, rfl, rfl⟩

theorem pollEvent_frame (st : EngineState) (event : EngineOutput) (nowMs txLen : Nat) :
    OutputFrame st (st.pollEvent event nowMs txLen).1 := by
  unfold pollEvent
  cases event with
  | write write =>
    dsimp only [pollWrite]
    split <;> exact ⟨rfl, rfl, rfl, rfl, rfl⟩
  | sendFailed failed => exact .refl st

theorem pollOutput_frame (st : EngineState) (nowMs txLen : Nat) :
    OutputFrame st (st.pollOutput config nowMs txLen).1 := by
  have hevent : ∀ (st' : EngineState) (event : EngineOutput), OutputFrame st st' →
      OutputFrame st (st'.pollEvent event nowMs txLen).1 := by
    intro st' event h
    have h' := st'.pollEvent_frame event nowMs txLen
    exact ⟨h'.clock.trans h.clock, h'.numbers.trans h.numbers, h'.ingress.trans h.ingress,
      h'.receive.trans h.receive, h'.reassembly.trans h.reassembly⟩
  unfold pollOutput
  split
  · unfold pollPendingAck
    dsimp only
    split
    · exact ⟨rfl, rfl, rfl, rfl, rfl⟩
    · split <;> exact ⟨rfl, rfl, rfl, rfl, rfl⟩
  · dsimp only
    split
    · exact hevent _ _ ⟨rfl, rfl, rfl, rfl, rfl⟩
    · split
      · exact ⟨rfl, rfl, rfl, rfl, rfl⟩
      · unfold pollNewData
        dsimp only
        split
        · exact ⟨rfl, rfl, rfl, rfl, rfl⟩
        · exact hevent _ _ ⟨rfl, rfl, rfl, rfl, rfl⟩

/-- A poll leaves message ids, ingress and duplicate table alone, and only expires slots. -/
theorem poll_frame (st : EngineState) (nowMs txLen : Nat) :
    OutputFrame (st.advanceClock config nowMs) (st.poll config nowMs txLen).1 := by
  have ht : TickFrame (st.advanceClock config nowMs) (st.tickRetransmit config nowMs) :=
    st.tickRetransmit_frame nowMs
  have ho : OutputFrame (st.tickRetransmit config nowMs) (st.poll config nowMs txLen).1 :=
    pollOutput_frame _ nowMs txLen
  exact ⟨ho.clock.trans ht.clock, ho.numbers.trans ht.numbers, ho.ingress.trans ht.ingress,
    ho.receive.trans ht.receive, ho.reassembly.trans ht.reassembly⟩

end Msrt.EngineState
