import Msrt.DynamicRecovery
import Msrt.ReassemblyAge

/-! # The engine with dynamic recovery

With the `dynamic-recovery` feature the recovery state owns a round-trip estimator.  An acknowledgement
of a packet that was sent is a sample of it (`applyAckAt`), and the tick asks it for the timeout of each
packet (`DynamicState.tickRetransmit`); everything else is the engine without the feature.

The estimator is computed with plain operations, so an operation of this engine may stop.  With clocks
that stay below `2 ^ 61` none does, and the estimates never exceed the clock (`Below.step`).  What a
receive does to everything but the estimator is what the plain engine does (`receiveLoop_eq`), and so is
what a poll does while the estimator would give every packet the verdict of one fixed timeout; over whole
runs, `run_agrees`.
-/

namespace Msrt
open EngineState

/-! ## State and operations -/

/-- Protocol engine configuration with the feature; `retransmitTimeoutMs` is not read. -/
structure DynamicConfig where
  engine : EngineConfig
  dynamicRecovery : DynamicRecoveryConfig

/-- The default configuration of engine and estimator. -/
def DynamicConfig.default : DynamicConfig := ⟨.default, .default⟩

/-- A machine with 64-bit addresses. -/
def target64 : Target := ⟨64, by decide⟩

/-- Protocol state of one session with the feature. -/
structure DynamicState where
  engine : EngineState
  dynamic : DynamicRecoveryState

/-- The in-flight packet with a key. -/
def InFlightPackets.packet (packets : InFlightPackets) (key : PacketKey) : Option InFlightPacket :=
  packets.toList.find? fun packet => packet.key == key

namespace DynamicState
variable {t : Target}

/-- A session before its first operation, with no sample. -/
def new (config : DynamicConfig) : DynamicState :=
  ⟨.new config.engine.initialMessageId, .new config.dynamicRecovery⟩

/-- The estimator once a packet has been acknowledged: if it was sent, its age is a sample. -/
def sampled (st : DynamicState) (key : PacketKey) (nowMs : Nat) : Checked t DynamicRecoveryState :=
  match st.engine.recovery.inFlight.packet key with
  | some packet =>
    if packet.sent then st.dynamic.observeAck (UInt64.ofNat (nowMs - packet.lastSentMs))
    else pure st.dynamic
  | none => pure st.dynamic

/-- Takes an acknowledged packet out of the table. -/
def applyAckAt (st : DynamicState) (key : PacketKey) (nowMs : Nat) : Checked t DynamicState := do
  let dynamic ← st.sampled key nowMs
  pure ⟨{ st.engine with recovery := st.engine.recovery.applyAck key }, dynamic⟩

/-- Only an ACK packet is handled in another way: it may give a sample. -/
def receiveCompletePacket (st : DynamicState) (config : DynamicConfig) (packet : Bytes) :
    Checked t (DynamicState × ReceiveReport) :=
  match decodePacketBytes packet with
  | .ack key => do
    let st ← st.applyAckAt key st.engine.clock.nowMs
    pure (st, .ack key.packetIndex)
  | _ =>
    let handled := st.engine.receiveCompletePacket config.engine packet
    pure (⟨handled.1, st.dynamic⟩, handled.2)

/-- The receive loop, with the last report so far. -/
def receiveLoop (config : DynamicConfig) :
    Nat → DynamicState → Bytes → ReceiveReport → Checked t (DynamicState × ReceiveReport)
  | 0, st, _, report => pure (st, report)
  | fuel + 1, st, input, report =>
    let fed := st.engine.ingress.feed input config.engine.integrity
    let st : DynamicState := ⟨{ st.engine with ingress := fed.1 }, st.dynamic⟩
    match fed.2 with
    | .error e => pure (st, .error e)
    | .ok (.packet packetBytes _) =>
      match packetBytesTryFromSlice packetBytes with
      | .error e => pure (st, .error e)
      | .ok packet => do
        let handled ← st.receiveCompletePacket config packet
        if handled.2.isError then pure handled
        else receiveLoop config fuel handled.1 [] handled.2
    | .ok (.needMore additional) => pure (st, finalReport report additional)
    | .ok (.noise skipped) => receiveLoop config fuel st [] (.noise skipped)
    | .ok (.corrupted _) => receiveLoop config fuel st [] .corrupted
    | .ok (.resync skipped) => receiveLoop config fuel st [] (.noise skipped)

/-- Feeds a chunk and handles every packet it completes. -/
def receiveBytes (st : DynamicState) (config : DynamicConfig) (bytes : Bytes) :
    Checked t (DynamicState × ReceiveReport) :=
  receiveLoop config (st.engine.ingress.rest.length + bytes.length + 1) st bytes (.incomplete none)

/-- The timeout of a packet that was retransmitted `attempts` times. -/
def retransmitTimeoutMs (st : DynamicState) (config : DynamicConfig) (attempts : UInt8) : Nat :=
  (st.dynamic.timeoutMs config.dynamicRecovery attempts).toNat

end DynamicState

/-- The configuration with another timeout. -/
def EngineConfig.withTimeout (config : EngineConfig) (timeoutMs : Nat) : EngineConfig :=
  { config with retransmitTimeoutMs := timeoutMs }

namespace DynamicState

/-- One round of the scan: the timeout is the one of the packet. -/
def visit (st : DynamicState) (config : DynamicConfig) (nowMs : Nat) (scan : TickScan)
    (packet : InFlightPacket) : TickScan :=
  scan.visit (config.engine.withTimeout (st.retransmitTimeoutMs config packet.attempts)) nowMs packet

/-- The retransmission tick, with the timeout of each packet from the estimator. -/
def tickRetransmit (st : DynamicState) (config : DynamicConfig) (nowMs : Nat) : DynamicState :=
  let engine := st.engine.advanceClock config.engine nowMs
  let ticked := engine.recovery.shouldTick nowMs
  let engine := { engine with recovery := ticked.1 }
  if ticked.2 then
    let scan := engine.recovery.packets.foldl (st.visit config nowMs) .new
    let engine := scan.failures.foldl failMessage engine
    ⟨scan.retransmits.foldl (queueRetransmit scan.failedMessages) engine, st.dynamic⟩
  else ⟨engine, st.dynamic⟩

/-- Produces one action. -/
def poll (st : DynamicState) (config : DynamicConfig) (nowMs txLen : Nat) :
    DynamicState × Except Error EnginePoll :=
  let ticked := st.tickRetransmit config nowMs
  let polled := ticked.engine.pollOutput config.engine nowMs txLen
  (⟨polled.1, ticked.dynamic⟩, polled.2)

end DynamicState

/-! ## Without the estimator -/

/-- The estimates do not exceed `bound`. -/
def Estimates (bound : Nat) (s : DynamicRecoveryState) : Prop :=
  s.smoothedRttMs = none ∨ DynamicRecoveryState.Within 0 (UInt64.ofNat bound) s

namespace DynamicState
variable {t : Target} {config : DynamicConfig} {st : DynamicState} {bound : Nat}

/-- What no operation breaks: the clock and the estimates stay below the bound. -/
structure Below (bound : Nat) (st : DynamicState) : Prop where
  clock : st.engine.clock.nowMs ≤ bound
  estimates : Estimates bound st.dynamic

/-- **An acknowledgement does not stop the run**, and it does to the table what it does without the
feature. -/
theorem applyAckAt_eq (hbound : bound < 2 ^ 61) (h : Below bound st) (key : PacketKey) :
    ∃ dynamic, (st.applyAckAt key st.engine.clock.nowMs : Checked t _) =
        pure ⟨{ st.engine with recovery := st.engine.recovery.applyAck key }, dynamic⟩ ∧
      Estimates bound dynamic := by
  have hhigh : (UInt64.ofNat bound).toNat = bound := by
    rw [UInt64.toNat_ofNat']
    exact Nat.mod_eq_of_lt (by omega)
  have hobserved : ∀ age, age ≤ bound → ∃ dynamic,
      (st.dynamic.observeAck (UInt64.ofNat age) : Checked t _) = pure dynamic ∧
        Estimates bound dynamic := by
    intro age hage
    have hsample : UInt64.ofNat age ≤ UInt64.ofNat bound := by
      rw [UInt64.le_iff_toNat_le, hhigh, UInt64.toNat_ofNat', Nat.mod_eq_of_lt (by omega)]
      exact hage
    obtain ⟨dynamic, hstep, hwithin⟩ := DynamicRecoveryState.within_observeAck (t := t)
      (by rw [hhigh]; exact hbound) h.estimates UInt64.zero_le hsample
    exact ⟨dynamic, hstep, .inr hwithin⟩
  have hclock := h.clock
  have hsampled : ∃ dynamic, (st.sampled key st.engine.clock.nowMs : Checked t _) = pure dynamic ∧
      Estimates bound dynamic := by
    unfold sampled
    cases hpacket : st.engine.recovery.inFlight.packet key with
    | none => exact ⟨st.dynamic, rfl, h.estimates⟩
    | some packet =>
      dsimp only
      by_cases hsent : packet.sent = true
      · rw [if_pos hsent]
        exact hobserved _ (by omega)
      · rw [if_neg hsent]
        exact ⟨st.dynamic, rfl, h.estimates⟩
  obtain ⟨dynamic, hstep, hestimates⟩ := hsampled
  refine ⟨dynamic, ?_, hestimates⟩
  rw [applyAckAt, hstep, pure_bind]

theorem receiveCompletePacket_eq (hbound : bound < 2 ^ 61) (h : Below bound st)
    (config : DynamicConfig) (packet : Bytes) :
    ∃ dynamic, (st.receiveCompletePacket config packet : Checked t _) =
        pure (⟨(st.engine.receiveCompletePacket config.engine packet).1, dynamic⟩,
          (st.engine.receiveCompletePacket config.engine packet).2) ∧
      Below bound ⟨(st.engine.receiveCompletePacket config.engine packet).1, dynamic⟩ := by
  have hclock : (st.engine.receiveCompletePacket config.engine packet).1.clock.nowMs ≤ bound :=
    Nat.le_trans (Nat.le_of_eq (Call.clock_after config.engine ⟨st.engine, .packet packet⟩)) h.clock
  unfold receiveCompletePacket
  cases hdec : decodePacketBytes packet with
  | ack key =>
    obtain ⟨dynamic, hstep, hestimates⟩ := applyAckAt_eq (t := t) hbound h key
    refine ⟨dynamic, ?_, hclock, hestimates⟩
    dsimp only
    rw [hstep, pure_bind, EngineState.receiveCompletePacket, hdec]
  | data | log | ping | pong | malformed => exact ⟨st.dynamic, rfl, hclock, h.estimates⟩

/-- **A receive does what it does without the feature**: the same reports, and the same state but for
the estimator. -/
theorem receiveLoop_eq (hbound : bound < 2 ^ 61) (h : Below bound st) (config : DynamicConfig)
    (fuel : Nat) (input : Bytes) (report : ReceiveReport) :
    ∃ dynamic, (receiveLoop config fuel st input report : Checked t _) =
        pure (⟨(EngineState.receiveLoop config.engine fuel st.engine input report).1, dynamic⟩,
          (EngineState.receiveLoop config.engine fuel st.engine input report).2) ∧
      Below bound ⟨(EngineState.receiveLoop config.engine fuel st.engine input report).1,
        dynamic⟩ := by
  -- on the fuel: the decoder is the same, and so is each packet
  induction fuel generalizing st input report with
  | zero => exact ⟨st.dynamic, rfl, h⟩
  | succ fuel ih =>
    unfold receiveLoop EngineState.receiveLoop
    generalize st.engine.ingress.feed input config.engine.integrity = fed
    obtain ⟨ingress, result⟩ := fed
    have hfed : Below bound ⟨{ st.engine with ingress }, st.dynamic⟩ := ⟨h.clock, h.estimates⟩
    dsimp only
    cases result with
    | error e => exact ⟨st.dynamic, rfl, hfed⟩
    | ok outcome =>
      cases outcome with
      | needMore needed => exact ⟨st.dynamic, rfl, hfed⟩
      | noise skipped => exact ih hfed [] _
      | corrupted consumed => exact ih hfed [] _
      | resync skipped => exact ih hfed [] _
      | packet packetBytes consumed =>
        dsimp only
        cases packetBytesTryFromSlice packetBytes with
        | error e => exact ⟨st.dynamic, rfl, hfed⟩
        | ok packet =>
          obtain ⟨dynamic, hstep, hafter⟩ := receiveCompletePacket_eq (t := t) hbound hfed config packet
          dsimp only at hstep ⊢
          rw [hstep, pure_bind]
          dsimp only
          split
          · exact ⟨dynamic, rfl, hafter⟩
          · exact ih hafter [] _

/-! ## The tick -/

/-- What the scan of a poll at `nowMs` collects. -/
def tickScan (config : DynamicConfig) (st : DynamicState) (nowMs : Nat) : TickScan :=
  st.engine.recovery.packets.foldl (st.visit config nowMs) .new

theorem tickRetransmit_of_eq {nowMs : Nat} (htick : st.engine.recovery.lastTickMs = some nowMs) :
    st.tickRetransmit config nowMs = ⟨st.engine.advanceClock config.engine nowMs, st.dynamic⟩ := by
  have hshould : (st.engine.advanceClock config.engine nowMs).recovery.shouldTick nowMs =
      (st.engine.recovery, false) := if_pos htick
  unfold tickRetransmit
  dsimp only
  rw [hshould]
  rfl

theorem tickRetransmit_of_ne {nowMs : Nat} (htick : st.engine.recovery.lastTickMs ≠ some nowMs) :
    st.tickRetransmit config nowMs = ⟨(st.tickScan config nowMs).retransmits.foldl
        (queueRetransmit (st.tickScan config nowMs).failedMessages)
        ((st.tickScan config nowMs).failures.foldl failMessage
          { st.engine.advanceClock config.engine nowMs with
            recovery := { st.engine.recovery with lastTickMs := some nowMs } }), st.dynamic⟩ := by
  have hshould : (st.engine.advanceClock config.engine nowMs).recovery.shouldTick nowMs =
      ({ st.engine.recovery with lastTickMs := some nowMs }, true) := if_neg htick
  unfold tickRetransmit
  dsimp only
  rw [hshould, if_pos rfl]
  rfl

theorem dynamic_tickRetransmit (config : DynamicConfig) (st : DynamicState) (nowMs : Nat) :
    (st.tickRetransmit config nowMs).dynamic = st.dynamic := by
  by_cases htick : st.engine.recovery.lastTickMs = some nowMs
  · rw [tickRetransmit_of_eq htick]
  · rw [tickRetransmit_of_ne htick]

theorem tickRetransmit_frame (config : DynamicConfig) (st : DynamicState) (nowMs : Nat) :
    TickFrame (st.engine.advanceClock config.engine nowMs)
      (st.tickRetransmit config nowMs).engine := by
  by_cases htick : st.engine.recovery.lastTickMs = some nowMs
  · rw [tickRetransmit_of_eq htick]
    exact .refl _
  · rw [tickRetransmit_of_ne htick]
    have hmarked : TickFrame (st.engine.advanceClock config.engine nowMs)
        { st.engine.advanceClock config.engine nowMs with
          recovery := { st.engine.recovery with lastTickMs := some nowMs } } :=
      ⟨rfl, rfl, rfl, rfl, rfl, rfl, rfl⟩
    exact hmarked.trans ((foldl_frame failMessage_frame _ _).trans
      (foldl_frame (queueRetransmit_frame _) _ _))

theorem clock_poll (config : DynamicConfig) (st : DynamicState) (nowMs txLen : Nat) :
    (st.poll config nowMs txLen).1.engine.clock.nowMs = nowMs := by
  have houtput : OutputFrame (st.tickRetransmit config nowMs).engine
      (st.poll config nowMs txLen).1.engine := pollOutput_frame _ nowMs txLen
  rw [houtput.clock, (st.tickRetransmit_frame config nowMs).clock]
  rfl

/-- The tick finds the same packets due as the tick without the feature and with timeout `timeoutMs`. -/
def Agrees (config : DynamicConfig) (timeoutMs nowMs : Nat) (st : DynamicState) : Prop :=
  ∀ p ∈ st.engine.recovery.packets, p.sent = true →
    (nowMs - p.lastSentMs < st.retransmitTimeoutMs config p.attempts ↔
      nowMs - p.lastSentMs < timeoutMs)

instance (config : DynamicConfig) (timeoutMs nowMs : Nat) (st : DynamicState) :
    Decidable (Agrees config timeoutMs nowMs st) :=
  inferInstanceAs (Decidable (∀ p ∈ st.engine.recovery.packets, _))

/-- **A poll that finds the same packets due is the poll without the feature.** -/
theorem poll_of_agrees {timeoutMs nowMs : Nat} (h : Agrees config timeoutMs nowMs st) (txLen : Nat) :
    st.poll config nowMs txLen =
      (⟨(st.engine.poll (config.engine.withTimeout timeoutMs) nowMs txLen).1, st.dynamic⟩,
        (st.engine.poll (config.engine.withTimeout timeoutMs) nowMs txLen).2) := by
  have hvisit : ∀ scan : TickScan, ∀ p ∈ st.engine.recovery.packets,
      st.visit config nowMs scan p = scan.visit (config.engine.withTimeout timeoutMs) nowMs p := by
    intro scan p hp
    have hdue : retransmitDue
        (config.engine.withTimeout (st.retransmitTimeoutMs config p.attempts)) nowMs p =
          retransmitDue (config.engine.withTimeout timeoutMs) nowMs p := by
      cases hsent : p.sent with
      | false => simp [retransmitDue, hsent]
      | true =>
        have hsame : decide (nowMs - p.lastSentMs < st.retransmitTimeoutMs config p.attempts) =
            decide (nowMs - p.lastSentMs < timeoutMs) := decide_eq_decide.mpr (h p hp hsent)
        simp only [retransmitDue, hsent]
        exact congrArg (fun early => true && !early) hsame
    rw [visit, TickScan.visit, TickScan.visit, hdue]
    rfl
  have hscan : st.tickScan config nowMs =
      st.engine.tickScan (config.engine.withTimeout timeoutMs) nowMs :=
    List.foldl_ext _ _ _ hvisit
  have htick : st.tickRetransmit config nowMs =
      ⟨st.engine.tickRetransmit (config.engine.withTimeout timeoutMs) nowMs, st.dynamic⟩ := by
    by_cases htick : st.engine.recovery.lastTickMs = some nowMs
    · rw [tickRetransmit_of_eq htick, Msrt.tickRetransmit_of_eq htick]
      rfl
    · rw [tickRetransmit_of_ne htick, Msrt.tickRetransmit_of_ne htick, hscan]
      rfl
  rw [poll, htick]
  rfl

/-! ## Runs -/

/-- The state an operation leaves. -/
def step (config : DynamicConfig) (st : DynamicState) (op : EngineOp) : Checked t DynamicState :=
  match op with
  | .send message => pure ⟨(st.engine.sendData config.engine message).1, st.dynamic⟩
  | .sendLog message => pure ⟨(st.engine.sendLog config.engine message).1, st.dynamic⟩
  | .sendPing => pure ⟨(st.engine.sendPing config.engine).1, st.dynamic⟩
  | .poll nowMs txLen => pure (st.poll config nowMs txLen).1
  | .receive bytes => do
    let received ← st.receiveBytes config bytes
    pure received.1

/-- The state operations leave behind a fresh one. -/
def run (config : DynamicConfig) (ops : List EngineOp) : Checked t DynamicState :=
  ops.foldlM (step config) (new config)

/-- The time of a poll. -/
def pollTime? : EngineOp → Option Nat
  | .poll nowMs _ => some nowMs
  | _ => none

/-- The operation is no poll behind `bound`. -/
def PollsBy (bound : Nat) (op : EngineOp) : Prop := ∀ nowMs ∈ pollTime? op, nowMs ≤ bound

/-- **No operation stops**, and all but a poll do what they do without the feature. -/
theorem Below.step (hbound : bound < 2 ^ 61) (h : Below bound st) (config : DynamicConfig)
    {op : EngineOp} (htime : PollsBy bound op) :
    ∃ st', (st.step config op : Checked t _) = pure st' ∧ Below bound st' ∧
      ((∀ nowMs txLen, op ≠ .poll nowMs txLen) → st'.engine = op.after config.engine st.engine) := by
  cases op with
  | send message =>
    have hframe : SendFrame st.engine (st.engine.sendData config.engine message).1 :=
      st.engine.sendFragmentedMessage_frame .data message
    exact ⟨_, rfl, ⟨by rw [hframe.clock]; exact h.clock, h.estimates⟩, fun _ => rfl⟩
  | sendLog message =>
    have hframe : SendFrame st.engine (st.engine.sendLog config.engine message).1 :=
      st.engine.sendFragmentedMessage_frame .log message
    exact ⟨_, rfl, ⟨by rw [hframe.clock]; exact h.clock, h.estimates⟩, fun _ => rfl⟩
  | sendPing =>
    have hframe : SendFrame st.engine (st.engine.sendPing config.engine).1 :=
      st.engine.queueLiveness_frame .ping .newData
    exact ⟨_, rfl, ⟨by rw [hframe.clock]; exact h.clock, h.estimates⟩, fun _ => rfl⟩
  | poll nowMs txLen =>
    refine ⟨_, rfl, ⟨?_, ?_⟩, fun hnot => absurd rfl (hnot nowMs txLen)⟩
    · rw [clock_poll]
      exact htime nowMs rfl
    · show Estimates bound (st.tickRetransmit config nowMs).dynamic
      rw [dynamic_tickRetransmit]
      exact h.estimates
  | receive bytes =>
    obtain ⟨dynamic, hloop, hbelow⟩ := receiveLoop_eq (t := t) hbound h config
      (st.engine.ingress.rest.length + bytes.length + 1) bytes (.incomplete none)
    refine ⟨_, ?_, hbelow, fun _ => rfl⟩
    show (do let received ← receiveBytes st config bytes; pure received.1) = _
    rw [receiveBytes, hloop, pure_bind]

theorem below_new (config : DynamicConfig) (bound : Nat) : Below bound (new config) :=
  ⟨Nat.zero_le _, .inl rfl⟩

theorem sendFragmentedMessage_withTimeout (config : EngineConfig) (timeoutMs : Nat) (st : EngineState)
    (packetType : PacketType) (message : Bytes) :
    st.sendFragmentedMessage (config.withTimeout timeoutMs) packetType message =
      st.sendFragmentedMessage config packetType message := by
  have hloop : ∀ (messageId : MessageId) (fragmentBytes : Nat) (mode : ReliabilityMode)
      (fuel offset : Nat) (packetIndex : PacketIndex) (st : EngineState),
      sendFragmentsLoop (config.withTimeout timeoutMs) packetType messageId message fragmentBytes mode
          fuel offset packetIndex st =
        sendFragmentsLoop config packetType messageId message fragmentBytes mode fuel offset
          packetIndex st := by
    intro messageId fragmentBytes mode fuel
    induction fuel with
    | zero => exact fun _ _ _ => rfl
    | succ fuel ih =>
      intro offset packetIndex st
      have hfragment : st.sendFragment (config.withTimeout timeoutMs) packetType messageId message
          fragmentBytes mode offset packetIndex = st.sendFragment config packetType messageId message
            fragmentBytes mode offset packetIndex := rfl
      simp only [sendFragmentsLoop, hfragment, ih]
  have hsend : ∀ (st : EngineState) (messageId : MessageId) (fragmentBytes : Nat)
      (mode : ReliabilityMode),
      st.sendMessageFragments (config.withTimeout timeoutMs) packetType messageId message fragmentBytes
        mode = st.sendMessageFragments config packetType messageId message fragmentBytes mode := by
    intro st messageId fragmentBytes mode
    rw [sendMessageFragments, sendMessageFragments, hloop]
  simp only [sendFragmentedMessage, hsend]
  rfl

theorem receiveLoop_withTimeout (config : EngineConfig) (timeoutMs fuel : Nat) (st : EngineState)
    (input : Bytes) (report : ReceiveReport) :
    EngineState.receiveLoop (config.withTimeout timeoutMs) fuel st input report =
      EngineState.receiveLoop config fuel st input report := by
  induction fuel generalizing st input report with
  | zero => rfl
  | succ fuel ih =>
    have hpacket (st : EngineState) (packet : Bytes) :
        st.receiveCompletePacket (config.withTimeout timeoutMs) packet =
          st.receiveCompletePacket config packet := rfl
    simp only [EngineState.receiveLoop, hpacket, ih]
    rfl

/-- No operation but a poll reads the timeout. -/
theorem after_withTimeout (config : EngineConfig) (timeoutMs : Nat) {op : EngineOp}
    (h : ∀ nowMs txLen, op ≠ .poll nowMs txLen) (st : EngineState) :
    op.after (config.withTimeout timeoutMs) st = op.after config st := by
  cases op with
  | send message =>
    exact congrArg Prod.fst (sendFragmentedMessage_withTimeout config timeoutMs st .data message)
  | sendLog message =>
    exact congrArg Prod.fst (sendFragmentedMessage_withTimeout config timeoutMs st .log message)
  | sendPing => rfl
  | poll nowMs txLen => exact absurd rfl (h nowMs txLen)
  | receive bytes => exact congrArg Prod.fst (receiveLoop_withTimeout config timeoutMs _ st bytes _)

/-- **Where all polls find the same packets due, the run is the run without the feature.**  With clocks
below `2 ^ 61` no operation stops, the estimates do not exceed the largest poll time, and if no
tick disagrees with the timeout `timeoutMs` the state but for the estimator is the one the engine
without the feature reaches with that timeout. -/
theorem run_agrees (config : DynamicConfig) (timeoutMs : Nat) (hbound : bound < 2 ^ 61)
    {ops : List EngineOp} (htimes : ∀ op ∈ ops, PollsBy bound op) :
    ∃ st, (run config ops : Checked t _) = pure st ∧ Below bound st ∧
      ((∀ before after nowMs txLen, ops = before ++ .poll nowMs txLen :: after →
          ∀ st', (run config before : Checked t _) = pure st' → Agrees config timeoutMs nowMs st') →
        st.engine = (runOps (config.engine.withTimeout timeoutMs) ops
          (.new config.engine.initialMessageId)).2) := by
  induction ops using List.reverseRecOn with
  | nil => exact ⟨new config, rfl, below_new config bound, fun _ => rfl⟩
  | append_singleton ops op ih =>
    obtain ⟨st, hrun, hbelow, hplain⟩ := ih fun other hmem => htimes other (List.mem_append_left _ hmem)
    obtain ⟨st', hstep, hbelow', hsame⟩ := hbelow.step (t := t) hbound config (htimes op (by simp))
    refine ⟨st', ?_, hbelow', ?_⟩
    · unfold run at hrun ⊢
      rw [List.foldlM_append, hrun, pure_bind, List.foldlM_cons, hstep, pure_bind]
      rfl
    · intro hagrees
      have hbefore := hplain fun before after nowMs txLen hsplit st' hst' =>
        hagrees before (after ++ [op]) nowMs txLen (by rw [hsplit]; simp) st' hst'
      rw [runOps_append]
      show st'.engine = op.after (config.engine.withTimeout timeoutMs) _
      rw [← hbefore]
      by_cases hpoll : ∃ nowMs txLen, op = .poll nowMs txLen
      · obtain ⟨nowMs, txLen, rfl⟩ := hpoll
        have hst' : st' = (st.poll config nowMs txLen).1 := (Except.ok.inj hstep).symm
        rw [hst', poll_of_agrees (hagrees ops [] nowMs txLen rfl st hrun)]
        rfl
      · have hnot : ∀ nowMs txLen, op ≠ .poll nowMs txLen :=
          fun nowMs txLen heq => hpoll ⟨nowMs, txLen, heq⟩
        rw [hsame hnot, after_withTimeout config.engine timeoutMs hnot]

/-- A message of one byte, transmitted and then polled for again. -/
def agreeingScript : List EngineOp := [.send [7], .poll 0 128, .poll 50 128]

/-- The state behind a script. -/
def scriptState (ops : List EngineOp) : DynamicState :=
  match (run .default ops : Checked target64 DynamicState) with
  | .ok st => st
  | .error _ => new .default

theorem agreeingScript_agrees : Agrees .default 1022 0 (scriptState [.send [7]]) ∧
    Agrees .default 1022 50 (scriptState [.send [7], .poll 0 128]) ∧
    (scriptState [.send [7], .poll 0 128]).engine.recovery.packets.length = 1 := by
  decide +kernel

/-- Up to its first timeout the packet is treated as without the feature. -/
theorem run_agrees_script : ∃ st,
    (run .default agreeingScript : Checked target64 _) = pure st ∧ Below 50 st ∧
      st.engine = (runOps (EngineConfig.default.withTimeout 1022) agreeingScript
        (.new EngineConfig.default.initialMessageId)).2 := by
  have htimes : ∀ op ∈ agreeingScript, PollsBy 50 op := by
    intro op hop nowMs hnow
    simp only [agreeingScript, List.mem_cons, List.not_mem_nil, or_false] at hop
    rcases hop with rfl | rfl | rfl
    · cases hnow
    · rw [← Option.some.inj hnow]
      decide
    · rw [← Option.some.inj hnow]
  obtain ⟨st, hrun, hbelow, hplain⟩ :=
    run_agrees (t := target64) .default 1022 (by decide) htimes
  refine ⟨st, hrun, hbelow, hplain ?_⟩
  intro before after nowMs txLen hsplit st' hst'
  have hstate : st' = scriptState before := by
    rw [scriptState, hst']
    rfl
  obtain ⟨hfirst, hsecond, -⟩ := agreeingScript_agrees
  rw [hstate]
  rcases before with _ | ⟨first, _ | ⟨second, _ | ⟨third, rest⟩⟩⟩
  · simp [agreeingScript] at hsplit
  · simp only [agreeingScript, List.cons_append, List.nil_append, List.cons.injEq,
      EngineOp.poll.injEq] at hsplit
    obtain ⟨rfl, ⟨rfl, -⟩, -⟩ := hsplit
    exact hfirst
  · simp only [agreeingScript, List.cons_append, List.nil_append, List.cons.injEq,
      EngineOp.poll.injEq] at hsplit
    obtain ⟨rfl, rfl, ⟨rfl, -⟩, -⟩ := hsplit
    exact hsecond
  · simp [agreeingScript] at hsplit

end DynamicState

end Msrt
