import Msrt.DynamicEngine

/-! # Back-off with dynamic recovery

Whatever the estimator has seen, the timeout of a packet is at least the delay the configuration allows
for an acknowledgement, doubled with every retransmission up to the configured exponent
(`leastTimeoutMs`).  So the transmissions of one packet keep at least that distance, on every run and
for every sequence of acknowledgements (`transmissions_backed_off`).

The calls of the engine are moves of the send side, as without the feature, for a timeout of zero
(`plainConfig`); the invariants of the queue and of one packet are the ones proved there.  What is added
is the distance: a retransmission that is queued was due (`BackoffLog`).
-/

namespace Msrt
open EngineState SaturatingWords

/-! ## The least timeout -/

namespace DynamicRecoveryConfig

/-- The least timeout of a packet that was retransmitted `attempts` times. -/
def leastTimeoutMs (config : DynamicRecoveryConfig) (attempts : UInt8) : Nat :=
  clip ((max 1 config.timerGranularityMs.toNat + config.maxAckDelayMs.toNat) *
    2 ^ min attempts.toNat config.maxBackoffExponent.toNat)

theorem leastTimeoutMs_le (config : DynamicRecoveryConfig) (s : DynamicRecoveryState)
    (attempts : UInt8) : config.leastTimeoutMs attempts ≤ (s.timeoutMs config attempts).toNat := by
  rw [s.toNat_timeoutMs, leastTimeoutMs]
  apply clip_mono
  unfold DynamicRecoveryState.exactTimeout
  apply Nat.mul_le_mul_right
  omega

end DynamicRecoveryConfig

/-! ## Calls -/

/-- A call and the state it met. -/
structure DynamicCall where
  before : DynamicState
  op : CallOp

namespace DynamicCall
variable {t : Target} (config : DynamicConfig)

/-- The call without the estimator. -/
def plain (call : DynamicCall) : Call := ⟨call.before.engine, call.op⟩

/-- The state the call left. -/
def after (call : DynamicCall) : Checked t DynamicState :=
  match call.op with
  | .send packetType message =>
    pure ⟨(call.before.engine.sendFragmentedMessage config.engine packetType message).1,
      call.before.dynamic⟩
  | .sendPing => pure ⟨(call.before.engine.sendPing config.engine).1, call.before.dynamic⟩
  | .poll nowMs txLen => pure (call.before.poll config nowMs txLen).1
  | .packet bytes => do
    let handled ← call.before.receiveCompletePacket config bytes
    pure handled.1

/-- The transmission of the DATA packet with `key` a poll returned. -/
def transmission (key : PacketKey) (call : DynamicCall) : Option Transmission :=
  match call.op with
  | .poll nowMs txLen =>
    match (call.before.poll config nowMs txLen).2 with
    | .ok (.transmit bytes attempts) =>
      if dataKey bytes = some key then some ⟨nowMs, attempts, bytes⟩ else none
    | _ => none
  | _ => none

end DynamicCall

/-- The runs of the engine one call at a time, with the ingress buffer changing in between. -/
inductive DynamicRun (t : Target) (config : DynamicConfig) : List DynamicCall → DynamicState → Prop
  | new : DynamicRun t config [] (.new config)
  | call {calls st st'} (op : CallOp) : DynamicRun t config calls st →
      (DynamicCall.after config ⟨st, op⟩ : Checked t DynamicState) = pure st' →
      DynamicRun t config (calls ++ [⟨st, op⟩]) st'
  | ingress {calls st} (ingress : StreamingDecoder maxIngressBytes) : DynamicRun t config calls st →
      DynamicRun t config calls ⟨{ st.engine with ingress }, st.dynamic⟩

/-- The transmissions of the DATA packet with `key`, in order. -/
def dynamicTransmissions (config : DynamicConfig) (key : PacketKey) (calls : List DynamicCall) :
    List Transmission :=
  calls.filterMap (DynamicCall.transmission config key)

/-! ## The configuration without the feature -/

/-- The configuration whose moves the engine makes. -/
def DynamicConfig.plainConfig (config : DynamicConfig) : EngineConfig := config.engine.withTimeout 0

section Plain
variable {t : Target} {config : DynamicConfig} {call : DynamicCall} {st st' : DynamicState}
  {nowMs : Nat}

theorem accepted_plainConfig (call : Call) :
    call.accepted config.plainConfig = call.accepted config.engine := by
  unfold Call.accepted DynamicConfig.plainConfig
  simp only [DynamicState.sendFragmentedMessage_withTimeout]

/-- What a successful computation returned before its last step. -/
theorem Checked.exists_of_bind {α β : Type} {x : Checked t α} {f : α → Checked t β} {y : β}
    (h : x >>= f = pure y) : ∃ a, x = pure a ∧ f a = pure y := by
  rcases x with e | a
  · cases h
  · exact ⟨a, rfl, h⟩

theorem engine_applyAckAt {key : PacketKey}
    (h : (st.applyAckAt key nowMs : Checked t _) = pure st') :
    st'.engine = { st.engine with recovery := st.engine.recovery.applyAck key } := by
  unfold DynamicState.applyAckAt at h
  obtain ⟨dynamic, -, h⟩ := Checked.exists_of_bind h
  exact congrArg DynamicState.engine (Except.ok.inj h).symm

/-- A call that is no poll does what it does without the feature. -/
theorem engine_after (hquiet : ∀ nowMs txLen, call.op ≠ .poll nowMs txLen)
    (h : (call.after config : Checked t _) = pure st') :
    st'.engine = call.plain.after config.plainConfig := by
  obtain ⟨st, op⟩ := call
  cases op with
  | send packetType message =>
    rw [show st' = _ from (Except.ok.inj h).symm]
    exact congrArg Prod.fst
      (DynamicState.sendFragmentedMessage_withTimeout config.engine 0 st.engine packetType message).symm
  | sendPing =>
    rw [show st' = _ from (Except.ok.inj h).symm]
    rfl
  | poll nowMs txLen => exact absurd rfl (hquiet nowMs txLen)
  | packet bytes =>
    obtain ⟨handled, hhandled, h⟩ := Checked.exists_of_bind h
    rw [show st' = handled.1 from (Except.ok.inj h).symm]
    show _ = (st.engine.receiveCompletePacket config.engine bytes).1
    unfold DynamicState.receiveCompletePacket at hhandled
    cases hdec : decodePacketBytes bytes with
    | ack key =>
      rw [hdec] at hhandled
      obtain ⟨acked, hacked, hhandled⟩ := Checked.exists_of_bind hhandled
      rw [show handled = _ from (Except.ok.inj hhandled).symm]
      rw [EngineState.receiveCompletePacket, hdec]
      exact engine_applyAckAt hacked
    | data | log | ping | pong | malformed =>
      rw [hdec] at hhandled
      rw [show handled = _ from (Except.ok.inj hhandled).symm]

/-! ## The tick -/

/-- What a scan of `packets` collects: each packet is judged by its own timeout. -/
structure TickCollects (config : DynamicConfig) (st : DynamicState) (nowMs : Nat)
    (packets : List InFlightPacket) (scan : TickScan) : Prop where
  failures : ∀ p ∈ scan.failures, p ∈ packets ∧ retryLimitReached config.plainConfig nowMs p = true
  retransmits : ∀ p ∈ scan.retransmits, p ∈ packets ∧ retryLeft
    (config.engine.withTimeout (st.retransmitTimeoutMs config p.attempts)) nowMs p = true
  failedMessages : scan.failedMessages = scan.failures.map InFlightPacket.message

theorem tickCollects_visit {packets : List InFlightPacket} {scan : TickScan}
    (h : TickCollects config st nowMs packets scan) (p : InFlightPacket) :
    TickCollects config st nowMs (packets ++ [p]) (st.visit config nowMs scan p) := by
  have hold : TickCollects config st nowMs (packets ++ [p]) scan :=
    ⟨fun q hq => ⟨List.mem_append_left _ (h.failures q hq).1, (h.failures q hq).2⟩,
      fun q hq => ⟨List.mem_append_left _ (h.retransmits q hq).1, (h.retransmits q hq).2⟩,
      h.failedMessages⟩
  have hself : p ∈ packets ++ [p] := List.mem_append_right _ (List.mem_singleton_self p)
  unfold DynamicState.visit TickScan.visit
  split
  · exact hold
  · rename_i hdue
    rw [Bool.not_eq_true', Bool.not_eq_false] at hdue
    split
    · rename_i hattempts
      split
      · refine ⟨?_, hold.retransmits, ?_⟩
        · intro q hq
          rcases List.mem_append.mp hq with hq | hq
          · exact hold.failures q hq
          · obtain rfl := List.mem_singleton.mp hq
            refine ⟨hself, ?_⟩
            rw [retransmitDue, Bool.and_eq_true] at hdue
            simp only [retryLimitReached, retransmitDue, hdue.1, Bool.and_eq_true, decide_eq_true_eq]
            exact ⟨⟨trivial, by simp [DynamicConfig.plainConfig, EngineConfig.withTimeout]⟩, hattempts⟩
        · rw [List.map_append, ← h.failedMessages]
          rfl
      · exact hold
    · rename_i hattempts
      split
      · refine ⟨hold.failures, ?_, hold.failedMessages⟩
        intro q hq
        rcases List.mem_append.mp hq with hq | hq
        · exact hold.retransmits q hq
        · obtain rfl := List.mem_singleton.mp hq
          refine ⟨hself, ?_⟩
          rw [retryLeft, hdue, Bool.true_and, decide_eq_true_eq]
          exact UInt8.not_le.mp hattempts
      · exact hold

theorem tickCollects_tickScan (config : DynamicConfig) (st : DynamicState) (nowMs : Nat) :
    TickCollects config st nowMs st.engine.recovery.packets (st.tickScan config nowMs) := by
  have key : ∀ packets : List InFlightPacket,
      TickCollects config st nowMs packets (packets.foldl (st.visit config nowMs) .new) := by
    intro packets
    induction packets using List.reverseRecOn with
    | nil => exact ⟨by simp [TickScan.new], by simp [TickScan.new], rfl⟩
    | append_singleton packets p ih =>
      rw [List.foldl_append]
      exact tickCollects_visit ih p
  exact key _

/-- **The tick is a sequence of moves**, and a write it queues was due. -/
theorem tickRetransmit_moves_dynamic (config : DynamicConfig) (st : DynamicState) (nowMs txLen : Nat) :
    SendMoves config.plainConfig ⟨st.engine, .poll nowMs txLen⟩ st.engine.sendSide
        (st.tickRetransmit config nowMs).engine.sendSide ∧
      ∀ w, .write w ∈ (st.tickRetransmit config nowMs).engine.scheduler.queued →
        .write w ∈ st.engine.scheduler.queued ∨ ∃ p ∈ st.engine.recovery.packets,
          retryLeft (config.engine.withTimeout (st.retransmitTimeoutMs config p.attempts)) nowMs p =
            true ∧ w = retransmitWrite p := by
  by_cases htick : st.engine.recovery.lastTickMs = some nowMs
  · rw [DynamicState.tickRetransmit_of_eq htick]
    exact ⟨.refl, fun w hw => .inl hw⟩
  · rw [DynamicState.tickRetransmit_of_ne htick]
    have hscan := tickCollects_tickScan config st nowMs
    generalize st.tickScan config nowMs = scan at hscan ⊢
    constructor
    · have hmarked : SendMove config.plainConfig ⟨st.engine, .poll nowMs txLen⟩ st.engine.sendSide
          ⟨st.engine.scheduler, { st.engine.recovery with lastTickMs := some nowMs }⟩ :=
        .marked nowMs txLen rfl htick rfl
      refine .head hmarked ?_
      refine (moves_foldl_failMessage { st.engine.advanceClock config.engine nowMs with
        recovery := { st.engine.recovery with lastTickMs := some nowMs } } rfl htick
          hscan.failures).trans ?_
      apply moves_foldl_queueRetransmit _ rfl
      intro p hp
      obtain ⟨hmem, hleft⟩ := hscan.retransmits p hp
      refine ⟨?_, ?_⟩
      · simp only [retryLeft, retransmitDue, Bool.and_eq_true, decide_eq_true_eq] at hleft ⊢
        exact ⟨⟨hleft.1.1, by simp [DynamicConfig.plainConfig, EngineConfig.withTimeout]⟩, hleft.2⟩
      · intro hkept
        rw [packets_foldl_failMessage, ← hscan.failedMessages]
        exact ⟨hmem, hkept⟩
    · intro w hw
      rcases mem_queued_foldl_queueRetransmit hw with hw | ⟨p, hp, -, hwrite⟩
      · rcases mem_queued_foldl_failMessage hw with hw | ⟨p, -, hfailed⟩
        · exact .inl hw
        · cases hfailed
      · obtain ⟨hmem, hleft⟩ := hscan.retransmits p hp
        exact .inr ⟨p, hmem, hleft, EngineOutput.write.inj hwrite⟩

end Plain

/-! ## One packet over a run -/

section Run
variable {t : Target} {config : DynamicConfig} {calls : List DynamicCall} {st st' : DynamicState}
  {m : SentMessage} {i : Nat}

/-- What a call does to the send side. -/
inductive DynamicMoves (config : DynamicConfig) (call : DynamicCall) (st' : DynamicState) : Prop
  | quiet : (∀ nowMs txLen, call.op ≠ .poll nowMs txLen) →
      SendMoves config.plainConfig call.plain call.before.engine.sendSide st'.engine.sendSide →
      DynamicMoves config call st'
  | polled (nowMs txLen : Nat) : call.op = .poll nowMs txLen →
      SendMoves config.plainConfig call.plain call.before.engine.sendSide
        (call.before.tickRetransmit config nowMs).engine.sendSide →
      PollStep config.plainConfig nowMs txLen (call.before.tickRetransmit config nowMs).engine
        st'.engine (call.before.poll config nowMs txLen).2 →
      DynamicMoves config call st'

theorem DynamicCall.moves {call : DynamicCall}
    (h : (call.after config : Checked t _) = pure st') : DynamicMoves config call st' := by
  by_cases hpoll : ∃ nowMs txLen, call.op = .poll nowMs txLen
  · obtain ⟨nowMs, txLen, hop⟩ := hpoll
    obtain ⟨st, op⟩ := call
    obtain rfl : op = .poll nowMs txLen := hop
    rw [show st' = _ from (Except.ok.inj h).symm]
    exact .polled nowMs txLen rfl (tickRetransmit_moves_dynamic config st nowMs txLen).1
      (pollOutput_spec config.plainConfig _ nowMs txLen)
  · have hquiet : ∀ nowMs txLen, call.op ≠ .poll nowMs txLen :=
      fun nowMs txLen hop => hpoll ⟨nowMs, txLen, hop⟩
    refine .quiet hquiet ?_
    rw [engine_after hquiet h]
    cases call.plain.sendMoves config.plainConfig with
    | quiet _ hmoves => exact hmoves
    | polled nowMs txLen _ hop => exact absurd hop (hquiet nowMs txLen)

/-- The history without the estimator. -/
def plainCalls (calls : List DynamicCall) : List Call := calls.map DynamicCall.plain

theorem plainCalls_snoc (calls : List DynamicCall) (call : DynamicCall) :
    plainCalls (calls ++ [call]) = plainCalls calls ++ [call.plain] := by
  simp [plainCalls]

theorem DynamicRun.queueInv (h : DynamicRun t config calls st) :
    QueueInv config.plainConfig (plainCalls calls) st.engine.sendSide := by
  induction h with
  | new => exact PacketRun.new.queueInv
  | ingress ingress _ ih => exact ih
  | @call calls st st' op hrun hstep ih =>
    rw [plainCalls_snoc]
    have hcall : DynamicCall.plain ⟨st, op⟩ ∈ plainCalls calls ++ [DynamicCall.plain ⟨st, op⟩] := by
      simp
    cases DynamicCall.moves hstep with
    | quiet _ hmoves => exact (ih.append _).moves hcall hmoves
    | polled nowMs txLen _ hmoves hpolled => exact ((ih.append _).moves hcall hmoves).pollStep hpolled

/-- What a run keeps about one packet of a DATA message. -/
structure BackoffLog (config : DynamicConfig) (m : SentMessage) (i : Nat) (calls : List DynamicCall)
    (st : DynamicState) : Prop where
  key : KeyInv config.plainConfig m i (dynamicTransmissions config (m.packetKey i) calls)
    (pollTimes (plainCalls calls)) st.engine.sendSide
  due : ∀ w, .write w ∈ st.engine.scheduler.queued → w.key = m.packetKey i →
    w.priority = .retransmit → ∀ last,
      (dynamicTransmissions config (m.packetKey i) calls).getLast? = some last →
      ∃ time ∈ pollTimes (plainCalls calls),
        last.nowMs + config.dynamicRecovery.leastTimeoutMs last.attempts ≤ time
  paced : Paced 0 config.engine.maxRetransmitAttempts.toNat (m.wire config.engine i).bytes
    (dynamicTransmissions config (m.packetKey i) calls)
  apart : (dynamicTransmissions config (m.packetKey i) calls).IsChain fun first second =>
    first.nowMs + config.dynamicRecovery.leastTimeoutMs first.attempts ≤ second.nowMs
  used : dynamicTransmissions config (m.packetKey i) calls ≠ [] →
    0 < idUses config.plainConfig m.messageId (plainCalls calls)

/-- The last transmission of a numbered log is numbered by its length. -/
theorem Paced.attempts_getLast {timeoutMs limit : Nat} {bytes : Bytes} {log : List Transmission}
    (h : Paced timeoutMs limit bytes log) {last : Transmission} (hlast : log.getLast? = some last) :
    last.attempts.toNat + 1 = log.length := by
  have hmap := congrArg List.getLast? h.numbered
  rw [List.getLast?_map, hlast, List.getLast?_range] at hmap
  have hne : log.length ≠ 0 := by
    intro hzero
    rw [List.length_eq_zero_iff.mp hzero] at hlast
    cases hlast
  rw [if_neg hne] at hmap
  have hnumber : last.attempts.toNat = log.length - 1 := Option.some.inj hmap
  omega

/-- Without a poll no retransmission is queued. -/
theorem retransmit_of_quiet {call : Call} {plain : EngineConfig} {a b : SendSide}
    (hquiet : ∀ nowMs txLen, call.op ≠ .poll nowMs txLen) (hmoves : SendMoves plain call a b)
    {w : WriteEvent} (hid : w.key.messageId ≠ 0) (hpriority : w.priority = .retransmit)
    (hw : .write w ∈ b.scheduler.queued) : .write w ∈ a.scheduler.queued := by
  induction hmoves with
  | refl => exact hw
  | tail _ hmove ih =>
    apply ih
    cases hmove with
    | liveness packetType priority hkind hpushed =>
      rcases hpushed.mem hw with hw | hw
      · rw [EngineOutput.write.inj hw] at hid
        exact absurd rfl hid
      · exact hw
    | fragment m i _ _ hpushed =>
      rcases hpushed.mem hw with hw | hw
      · rw [EngineOutput.write.inj hw] at hpriority
        cases hpriority
      · exact hw
    | acked => exact hw
    | marked nowMs txLen hop => exact absurd hop (hquiet nowMs txLen)
    | failed nowMs txLen p hop => exact absurd hop (hquiet nowMs txLen)
    | requeued nowMs txLen p hop => exact absurd hop (hquiet nowMs txLen)

theorem dynamicTransmissions_snoc (config : DynamicConfig) (key : PacketKey)
    (calls : List DynamicCall) (call : DynamicCall) :
    dynamicTransmissions config key (calls ++ [call]) =
      dynamicTransmissions config key calls ++ (call.transmission config key).toList :=
  filterMap_snoc _ _ _

/-- A packet that the tick queues again has waited for the least timeout. -/
theorem BackoffLog.due_of_retryLeft {call : DynamicCall} (h : BackoffLog config m i calls call.before)
    {nowMs : Nat} (hlast : ∀ time ∈ pollTimes (plainCalls calls), time ≤ nowMs) {p : InFlightPacket}
    (hp : p ∈ call.before.engine.recovery.packets) (hkey : p.key = m.packetKey i)
    (hleft : retryLeft (config.engine.withTimeout
      (call.before.retransmitTimeoutMs config p.attempts)) nowMs p = true) {last : Transmission}
    (hgetLast : (dynamicTransmissions config (m.packetKey i) calls).getLast? = some last) :
    last.nowMs + config.dynamicRecovery.leastTimeoutMs last.attempts ≤ nowMs := by
  simp only [retryLeft, retransmitDue, Bool.and_eq_true, Bool.not_eq_true', decide_eq_true_eq,
    decide_eq_false_iff_not, Nat.not_lt] at hleft
  obtain ⟨⟨hsent, helapsed⟩, -⟩ := hleft
  have helapsed : call.before.retransmitTimeoutMs config p.attempts ≤ nowMs - p.lastSentMs := helapsed
  rcases (h.key.inFlight p hp hkey).2 with ⟨hunsent, -⟩ | ⟨-, hcount, last', hgetLast', hlastSent⟩
  · rw [hunsent] at hsent
    cases hsent
  · rw [hgetLast] at hgetLast'
    obtain rfl := Option.some.inj hgetLast'
    -- the entry counts the attempts of the last transmission
    have hnumber := h.paced.attempts_getLast hgetLast
    have hsame : p.attempts = last.attempts := UInt8.toNat_inj.mp (by omega)
    have hleast := config.dynamicRecovery.leastTimeoutMs_le call.before.dynamic p.attempts
    have hpast := hlast _ (h.key.past last (List.mem_of_getLast? hgetLast))
    rw [hsame] at hleast helapsed
    unfold DynamicState.retransmitTimeoutMs at helapsed
    omega

/-- **A call keeps the log of a packet.** -/
theorem BackoffLog.step {call : DynamicCall} (hm : m.Valid) (hdata : m.packetType = .data)
    (hid : m.messageId ≠ 0) (hi : i < m.count config.plainConfig)
    (hinv : QueueInv config.plainConfig (plainCalls calls) call.before.engine.sendSide)
    (hstep : (call.after config : Checked t _) = pure st')
    (hok : ∀ nowMs txLen, call.op = .poll nowMs txLen →
      (call.before.poll config nowMs txLen).2.isOk = true)
    (hmono : (pollTimes (plainCalls (calls ++ [call]))).Pairwise (· ≤ ·))
    (hsame : ∀ m', call.plain.accepted config.plainConfig = some m' →
      m'.messageId = m.messageId → m' = m)
    (honce : idUses config.plainConfig m.messageId (plainCalls (calls ++ [call])) ≤ 1)
    (h : BackoffLog config m i calls call.before) :
    BackoffLog config m i (calls ++ [call]) st' := by
  rw [plainCalls_snoc] at hmono honce
  have hinv := hinv.append [call.plain]
  have hcall : call.plain ∈ plainCalls calls ++ [call.plain] := by simp
  have huses := idUses_snoc config.plainConfig m.messageId (plainCalls calls) call.plain
  have hown : ∀ m', call.plain.accepted config.plainConfig = some m' →
      m'.messageId = m.messageId →
      m' = m ∧ dynamicTransmissions config (m.packetKey i) calls = [] := by
    intro m' haccepted heq
    obtain rfl := hsame m' haccepted heq
    refine ⟨rfl, by_contra ?_⟩
    intro hne
    have hpos := h.used hne
    rw [if_pos (usesId_of_accepted haccepted)] at huses
    omega
  have hkey : KeyInv config.plainConfig m i (dynamicTransmissions config (m.packetKey i) calls)
      (pollTimes (plainCalls calls ++ [call.plain])) call.before.engine.sendSide :=
    h.key.mono fun time ht => by rw [pollTimes_snoc]; exact List.mem_append_left _ ht
  have hused (hne : dynamicTransmissions config (m.packetKey i) calls ≠ []) :
      0 < idUses config.plainConfig m.messageId (plainCalls calls ++ [call.plain]) := by
    have := h.used hne
    omega
  have hnow (nowMs txLen : Nat) (hop : call.plain.op = .poll nowMs txLen) :=
    pollTimes_le_last hmono hop
  have hmoves {b : SendSide}
      (hb : SendMoves config.plainConfig call.plain call.before.engine.sendSide b) :
      KeyInv config.plainConfig m i (dynamicTransmissions config (m.packetKey i) calls)
        (pollTimes (plainCalls calls ++ [call.plain])) b :=
    hb.preserves hkey fun _ _ hkeep hmove => hkeep.move hi hid hown hnow hmove
  have hearlier : ∀ time ∈ pollTimes (plainCalls calls),
      time ∈ pollTimes (plainCalls calls ++ [call.plain]) := by
    intro time ht
    rw [pollTimes_snoc]
    exact List.mem_append_left _ ht
  cases DynamicCall.moves hstep with
  | quiet hquiet hquietly =>
    have hlog : dynamicTransmissions config (m.packetKey i) (calls ++ [call]) =
        dynamicTransmissions config (m.packetKey i) calls := by
      have hnone : call.transmission config (m.packetKey i) = none := by
        unfold DynamicCall.transmission
        split
        · exact absurd ‹_› (hquiet _ _)
        · rfl
      rw [dynamicTransmissions_snoc, hnone]
      simp
    refine ⟨?_, ?_, hlog ▸ h.paced, hlog ▸ h.apart, ?_⟩
    · rw [hlog, plainCalls_snoc]
      exact hmoves hquietly
    · intro w hw hwkey hpriority last hgetLast
      rw [hlog] at hgetLast
      have hold := retransmit_of_quiet hquiet hquietly (by rw [hwkey]; exact hid) hpriority hw
      obtain ⟨time, ht, hpassed⟩ := h.due w hold hwkey hpriority last hgetLast
      rw [plainCalls_snoc]
      exact ⟨time, hearlier time ht, hpassed⟩
    · rw [hlog, plainCalls_snoc]
      exact hused
  | polled nowMs txLen hop hticked hpolled =>
    obtain ⟨hmem, hlast⟩ := hnow nowMs txLen hop
    have htickedInv := hinv.moves hcall hticked
    have htickedKey := hmoves hticked
    -- behind the tick a retransmission was due before, or is due now
    have hdue : ∀ w, .write w ∈ (call.before.tickRetransmit config nowMs).engine.scheduler.queued →
        w.key = m.packetKey i → w.priority = .retransmit → ∀ last,
        (dynamicTransmissions config (m.packetKey i) calls).getLast? = some last →
        ∃ time ∈ pollTimes (plainCalls calls ++ [call.plain]),
          last.nowMs + config.dynamicRecovery.leastTimeoutMs last.attempts ≤ time := by
      intro w hw hwkey hpriority last hgetLast
      rcases (tickRetransmit_moves_dynamic config call.before nowMs txLen).2 w hw with
        hold | ⟨p, hp, hleft, rfl⟩
      · obtain ⟨time, ht, hpassed⟩ := h.due w hold hwkey hpriority last hgetLast
        exact ⟨time, hearlier time ht, hpassed⟩
      · exact ⟨nowMs, hmem, h.due_of_retryLeft (fun time ht => hlast time (hearlier time ht)) hp hwkey
          hleft hgetLast⟩
    cases hpolled.keyStep (m.packetKey i) with
    | taken w hwkey hq hrecovery hres =>
      obtain ⟨hnext, hpaced⟩ :=
        htickedKey.taken htickedInv.nodup h.paced hmem hlast hwkey hq hrecovery
      have hw : .write w ∈ (call.before.tickRetransmit config nowMs).engine.scheduler.queued := by
        rw [hq]
        exact Multiset.mem_cons_self _ _
      obtain ⟨hwire, -, hcase⟩ := htickedKey.queued w hw hwkey
      have hlog : dynamicTransmissions config (m.packetKey i) (calls ++ [call]) =
          dynamicTransmissions config (m.packetKey i) calls ++
            [⟨nowMs, w.attempts, w.wire.bytes⟩] := by
        have hone : call.transmission config (m.packetKey i) =
            some ⟨nowMs, w.attempts, w.wire.bytes⟩ := by
          simp only [DynamicCall.transmission, hop, hres]
          rw [if_pos]
          rw [hwire]
          exact SentMessage.dataKey_wire hm hi hdata
        rw [dynamicTransmissions_snoc, hone]
        rfl
      refine ⟨?_, ?_, hlog ▸ hpaced, ?_, ?_⟩
      · rw [hlog, plainCalls_snoc]
        exact hnext
      · -- no second write has the key
        intro w' hw' hwkey'
        have hnodup :
            (call.before.tickRetransmit config nowMs).engine.scheduler.keys.Nodup := htickedInv.nodup
        rw [SchedulerState.keys_of_queued_write hq, Multiset.nodup_cons] at hnodup
        exact absurd (SchedulerState.mem_keys.mpr ⟨w', hw', hwkey'.trans hwkey.symm⟩) hnodup.1
      · rw [hlog]
        refine List.isChain_append.mpr ⟨h.apart, by simp, ?_⟩
        intro last hgetLast next hnext
        obtain rfl := Option.some.inj hnext
        rcases hcase with ⟨hnil, -⟩ | ⟨hpriority, -⟩
        · rw [hnil] at hgetLast
          cases hgetLast
        · obtain ⟨time, ht, hpassed⟩ := hdue w hw hwkey hpriority last hgetLast
          exact Nat.le_trans hpassed (hlast time ht)
      · intro _
        rw [plainCalls_snoc]
        exact htickedInv.idUses_pos hid hw hwkey
    | dropped w _ _ _ hfails =>
      -- a write is dropped only by a poll that fails
      rw [hok nowMs txLen hop] at hfails
      cases hfails
    | other hqueued hpackets hbytes =>
      have hlog : dynamicTransmissions config (m.packetKey i) (calls ++ [call]) =
          dynamicTransmissions config (m.packetKey i) calls := by
        have hnone : call.transmission config (m.packetKey i) = none := by
          simp only [DynamicCall.transmission, hop]
          split
          · rename_i bytes attempts hres
            exact if_neg (htickedInv.dataKey_ne (hbytes bytes attempts hres))
          · rfl
        rw [dynamicTransmissions_snoc, hnone]
        simp
      refine ⟨?_, ?_, hlog ▸ h.paced, hlog ▸ h.apart, ?_⟩
      · rw [hlog, plainCalls_snoc]
        exact htickedKey.other hqueued hpackets
      · intro w hw hwkey hpriority last hgetLast
        rw [hlog] at hgetLast
        rw [plainCalls_snoc]
        exact hdue w ((hqueued w hwkey).mp hw) hwkey hpriority last hgetLast
      · rw [hlog, plainCalls_snoc]
        exact hused

theorem DynamicRun.backoffLog (hrun : DynamicRun t config calls st) (hm : m.Valid)
    (hdata : m.packetType = .data) (hid : m.messageId ≠ 0) (hi : i < m.count config.plainConfig)
    (hok : ∀ call ∈ calls, ∀ nowMs txLen, call.op = .poll nowMs txLen →
      (call.before.poll config nowMs txLen).2.isOk = true)
    (hmono : (pollTimes (plainCalls calls)).Pairwise (· ≤ ·))
    (hsame : ∀ call ∈ calls, ∀ m', call.plain.accepted config.plainConfig = some m' →
      m'.messageId = m.messageId → m' = m)
    (honce : idUses config.plainConfig m.messageId (plainCalls calls) ≤ 1) :
    BackoffLog config m i calls st := by
  induction hrun with
  | new =>
    refine ⟨⟨?_, ?_, by simp [dynamicTransmissions]⟩, ?_, .nil, .nil, by simp [dynamicTransmissions]⟩
    · intro w hw
      rw [show (DynamicState.new config).engine.sendSide.scheduler.queued = 0 from
        SchedulerState.queued_new] at hw
      cases hw
    · intro p hp
      rw [show (DynamicState.new config).engine.sendSide.recovery.packets = [] from
        InFlightPackets.toList_new] at hp
      cases hp
    · intro w hw
      rw [show (DynamicState.new config).engine.scheduler.queued = 0 from
        SchedulerState.queued_new] at hw
      cases hw
  | ingress ingress _ ih =>
    have h := ih hok hmono hsame honce
    exact ⟨h.key, h.due, h.paced, h.apart, h.used⟩
  | @call calls st st' op hrun hstep ih =>
    have hprefix : (pollTimes (plainCalls calls)).Pairwise (· ≤ ·) := by
      rw [plainCalls_snoc, pollTimes, List.filterMap_append] at hmono
      exact (List.pairwise_append.mp hmono).1
    have hfewer : idUses config.plainConfig m.messageId (plainCalls calls) ≤ 1 := by
      rw [plainCalls_snoc, idUses_snoc] at honce
      omega
    have h := ih (fun c hc => hok c (List.mem_append_left _ hc)) hprefix
      (fun c hc => hsame c (List.mem_append_left _ hc)) hfewer
    have hcall : (⟨st, op⟩ : DynamicCall) ∈ calls ++ [⟨st, op⟩] := by simp
    exact BackoffLog.step hm hdata hid hi hrun.queueInv hstep (hok _ hcall) hmono (hsame _ hcall)
      honce h

/-- The calls of a receive. -/
theorem DynamicRun.receiveLoop {fuel : Nat} {input : Bytes} {report report' : ReceiveReport}
    (h : DynamicRun t config calls st)
    (hloop : (DynamicState.receiveLoop config fuel st input report : Checked t _) =
      pure (st', report')) :
    ∃ made, DynamicRun t config (calls ++ made) st' ∧ pollTimes (plainCalls made) = [] := by
  have hstop {calls : List DynamicCall} {last : DynamicState} (h : DynamicRun t config calls last)
      (heq : last = st') :
      ∃ made, DynamicRun t config (calls ++ made) st' ∧ pollTimes (plainCalls made) = [] :=
    ⟨[], by rw [List.append_nil, ← heq]; exact h, rfl⟩
  induction fuel generalizing calls st input report with
  | zero => exact hstop h (Prod.mk.inj (Except.ok.inj hloop)).1
  | succ fuel ih =>
    unfold DynamicState.receiveLoop at hloop
    generalize st.engine.ingress.feed input config.engine.integrity = fed at hloop
    obtain ⟨ingress, result⟩ := fed
    have hfed := h.ingress ingress
    dsimp only at hloop
    cases result with
    | error e => exact hstop hfed (Prod.mk.inj (Except.ok.inj hloop)).1
    | ok outcome =>
      cases outcome with
      | needMore needed => exact hstop hfed (Prod.mk.inj (Except.ok.inj hloop)).1
      | noise skipped => exact ih hfed hloop
      | corrupted consumed => exact ih hfed hloop
      | resync skipped => exact ih hfed hloop
      | packet packetBytes consumed =>
        dsimp only at hloop
        cases hbytes : packetBytesTryFromSlice packetBytes with
        | error e =>
          rw [hbytes] at hloop
          exact hstop hfed (Prod.mk.inj (Except.ok.inj hloop)).1
        | ok packet =>
          rw [hbytes] at hloop
          obtain ⟨handled, hhandled, hloop⟩ := Checked.exists_of_bind hloop
          have hafter : (DynamicCall.after config ⟨⟨{ st.engine with ingress }, st.dynamic⟩,
              .packet packet⟩ : Checked t _) = pure handled.1 := by
            rw [DynamicCall.after]
            dsimp only
            rw [hhandled, pure_bind]
          have hcall := hfed.call (.packet packet) hafter
          split at hloop
          · have hlast := (Prod.mk.inj (Except.ok.inj hloop)).1
            exact ⟨_, hlast ▸ hcall, rfl⟩
          · obtain ⟨made, hrun, htimes⟩ := ih hcall hloop
            rw [List.append_assoc] at hrun
            exact ⟨_, hrun, htimes⟩

/-- **Every run of operations is a run of calls**, with the same poll times. -/
theorem DynamicRun.of_run {ops : List EngineOp}
    (h : (DynamicState.run config ops : Checked t _) = pure st) :
    ∃ calls, DynamicRun t config calls st ∧
      pollTimes (plainCalls calls) = ops.filterMap DynamicState.pollTime? := by
  unfold DynamicState.run at h
  induction ops using List.reverseRecOn generalizing st with
  | nil =>
    rw [show st = _ from (Except.ok.inj h).symm]
    exact ⟨[], .new, rfl⟩
  | append_singleton ops op ih =>
    rw [List.foldlM_append] at h
    obtain ⟨before, hbefore, h⟩ := Checked.exists_of_bind h
    obtain ⟨last, hstep, h⟩ := Checked.exists_of_bind h
    rw [show st = last from (Except.ok.inj h).symm]
    obtain ⟨calls, hrun, htimes⟩ := ih hbefore
    have hmade {made : List DynamicCall} (hrun : DynamicRun t config (calls ++ made) last)
        (hpolls : pollTimes (plainCalls made) = (DynamicState.pollTime? op).toList) :
        ∃ calls, DynamicRun t config calls last ∧
          pollTimes (plainCalls calls) = (ops ++ [op]).filterMap DynamicState.pollTime? := by
      refine ⟨_, hrun, ?_⟩
      rw [filterMap_snoc, ← htimes, ← hpolls, plainCalls, List.map_append, pollTimes,
        List.filterMap_append]
      rfl
    cases op with
    | send message => exact hmade (hrun.call (.send .data message) hstep) rfl
    | sendLog message => exact hmade (hrun.call (.send .log message) hstep) rfl
    | sendPing => exact hmade (hrun.call .sendPing hstep) rfl
    | poll nowMs txLen => exact hmade (hrun.call (.poll nowMs txLen) hstep) rfl
    | receive bytes =>
      obtain ⟨received, hreceived, hstep⟩ := Checked.exists_of_bind hstep
      obtain ⟨made, hrun, hnone⟩ := hrun.receiveLoop hreceived
      rw [show last = received.1 from (Except.ok.inj hstep).symm] at hmade ⊢
      exact hmade hrun hnone

/-- **Retransmissions back off.**  In every run whose polls do not fail and whose poll times do not
decrease, whatever was acknowledged and sampled, a packet of a DATA message with a nonzero id that is
used once is transmitted at most once more than the configured attempts, with the same bytes each time,
numbered from zero, and between two transmissions there is at least the least timeout of the first. -/
theorem transmissions_backed_off (hrun : DynamicRun t config calls st)
    (hok : ∀ call ∈ calls, ∀ nowMs txLen, call.op = .poll nowMs txLen →
      (call.before.poll config nowMs txLen).2.isOk = true)
    (hmono : (pollTimes (plainCalls calls)).Pairwise (· ≤ ·)) {send : DynamicCall}
    (hsend : send ∈ calls) (hm : send.plain.accepted config.engine = some m)
    (hdata : m.packetType = .data) (hid : m.messageId ≠ 0)
    (honce : idUses config.engine m.messageId (plainCalls calls) ≤ 1)
    (hi : i < m.count config.engine) :
    Paced 0 config.engine.maxRetransmitAttempts.toNat
        (envelope config.engine.integrity (m.packet config.engine i))
        (dynamicTransmissions config (m.packetKey i) calls) ∧
      (dynamicTransmissions config (m.packetKey i) calls).IsChain fun first second =>
        first.nowMs + config.dynamicRecovery.leastTimeoutMs first.attempts ≤ second.nowMs := by
  have huses : ∀ call, Call.usesId config.plainConfig m.messageId call =
      Call.usesId config.engine m.messageId call := by
    intro call
    rw [Call.usesId, Call.usesId, accepted_plainConfig]
  have honce' : idUses config.plainConfig m.messageId (plainCalls calls) ≤ 1 := by
    unfold idUses at honce ⊢
    rw [funext huses]
    exact honce
  have hsame : ∀ call ∈ calls, ∀ m', call.plain.accepted config.plainConfig = some m' →
      m'.messageId = m.messageId → m' = m := by
    intro call hc m' hm' hid'
    rw [accepted_plainConfig] at hm'
    exact accepted_eq_of_idUses (List.mem_map_of_mem hsend) hm (List.mem_map_of_mem hc) hm' hid' honce
  have hlog := hrun.backoffLog (accepted_valid hm).1 hdata hid hi hok hmono hsame honce'
  refine ⟨?_, hlog.apart⟩
  rw [← m.wire_bytes]
  exact hlog.paced

/-! ### Scripts -/

/-- The calls of a script and the state it leaves. -/
def runCalls (config : DynamicConfig) :
    List CallOp → DynamicState → Checked t (List DynamicCall × DynamicState)
  | [], st => pure ([], st)
  | op :: ops, st => do
    let next ← DynamicCall.after config ⟨st, op⟩
    let rest ← runCalls config ops next
    pure (⟨st, op⟩ :: rest.1, rest.2)

theorem DynamicRun.runCalls {ops : List CallOp} {made : List DynamicCall}
    (h : DynamicRun t config calls st)
    (hrun : (Msrt.runCalls config ops st : Checked t _) = pure (made, st')) :
    DynamicRun t config (calls ++ made) st' := by
  induction ops generalizing calls st made with
  | nil =>
    obtain ⟨rfl, rfl⟩ := Prod.mk.inj (Except.ok.inj hrun)
    rw [List.append_nil]
    exact h
  | cons op ops ih =>
    obtain ⟨next, hstep, hrun⟩ := Checked.exists_of_bind hrun
    obtain ⟨rest, hrest, hrun⟩ := Checked.exists_of_bind hrun
    obtain ⟨rfl, rfl⟩ := Prod.mk.inj (Except.ok.inj hrun)
    have hnext := ih (h.call op hstep) hrest
    rw [List.append_assoc] at hnext
    exact hnext

/-- A message is transmitted, times out twice and is transmitted again each time. -/
def backoffScript : List CallOp :=
  [.send .data [7], .poll 0 128, .poll 1022 128, .poll 3065 128, .poll 3066 128]

/-- The calls of the script, on a machine with 64-bit addresses. -/
def backoffCalls : List DynamicCall × DynamicState :=
  (Except.toOption (Msrt.runCalls .default backoffScript (.new .default) :
    Checked target64 (List DynamicCall × DynamicState))).getD ([], .new .default)

theorem backoffCalls_retries :
    (backoffCalls.1.all fun call =>
      match call.op with
      | .poll nowMs txLen => (call.before.poll .default nowMs txLen).2.isOk
      | _ => true) = true ∧
    (pollTimes (plainCalls backoffCalls.1)).Pairwise (· ≤ ·) ∧
    (backoffCalls.1.any fun send =>
      match send.plain.accepted .default with
      | some m => m.packetType == .data && m.messageId != 0 &&
          idUses .default m.messageId (plainCalls backoffCalls.1) == 1 &&
          (dynamicTransmissions .default (m.packetKey 0) backoffCalls.1).length == 3
      | none => false) = true := by
  decide +kernel

/-- The packet of the script is transmitted three times, and waits longer each time. -/
theorem transmissions_backed_off_thrice : ∃ (calls : List DynamicCall) (st : DynamicState)
    (m : SentMessage), DynamicRun target64 .default calls st ∧
      (dynamicTransmissions .default (m.packetKey 0) calls).length = 3 ∧
      (dynamicTransmissions .default (m.packetKey 0) calls).IsChain fun first second =>
        first.nowMs + DynamicRecoveryConfig.default.leastTimeoutMs first.attempts ≤ second.nowMs := by
  obtain ⟨hok, hmono, hany⟩ := backoffCalls_retries
  have hruns : (Msrt.runCalls .default backoffScript (.new .default) :
      Checked target64 _) = pure backoffCalls := by
    have hfine : Except.isOk (Msrt.runCalls .default backoffScript (.new .default) :
        Checked target64 _) = true := by decide +kernel
    unfold backoffCalls
    generalize (Msrt.runCalls .default backoffScript (.new .default) :
      Checked target64 _) = made at hfine ⊢
    rcases made with e | made
    · cases hfine
    · rfl
  have hrun := (DynamicRun.new : DynamicRun target64 .default [] _).runCalls hruns
  obtain ⟨send, hsend, hm⟩ := List.any_eq_true.mp hany
  split at hm
  · rename_i m haccepted
    simp only [Bool.and_eq_true, beq_iff_eq, bne_iff_ne] at hm
    obtain ⟨⟨⟨hdata, hid⟩, honce⟩, hlen⟩ := hm
    have hpolls : ∀ call ∈ backoffCalls.1, ∀ nowMs txLen, call.op = .poll nowMs txLen →
        (call.before.poll .default nowMs txLen).2.isOk = true := by
      intro call hc nowMs txLen hop
      have hcall := List.all_eq_true.mp hok call hc
      rw [hop] at hcall
      exact hcall
    exact ⟨_, _, m, hrun, hlen, (transmissions_backed_off hrun hpolls hmono hsend haccepted hdata hid
      (Nat.le_of_eq honce) (m.count_pos _)).2⟩
  · cases hm

end Run

end Msrt
