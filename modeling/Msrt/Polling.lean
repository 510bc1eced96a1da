import Msrt.Frames
import Msrt.SchedulerSpec

/-! # What a poll does

The tick scans the in-flight table once.  A message with a packet that has used up its attempts
leaves the table and, if the scheduler has room, is queued as failed; a packet whose timeout has
passed is queued again unless its message has just failed.  After the tick a poll takes exactly one
thing out of the engine (`PollStep`).
-/

namespace Msrt
open EngineState

/-! ## The scan -/

/-- The message a packet belongs to, as the tick compares messages. -/
def InFlightPacket.message (p : InFlightPacket) : PacketType × MessageId :=
  (p.packetType, p.messageId)

section Scan
variable (config : EngineConfig) (nowMs : Nat)

/-- Whether the packet has timed out with all its attempts used. -/
def retryLimitReached (p : InFlightPacket) : Bool :=
  retransmitDue config nowMs p && decide (p.attempts ≥ config.maxRetransmitAttempts)

/-- The failure of the packet's message. -/
def failureOf (p : InFlightPacket) : SendFailedEvent :=
  ⟨p.packetType, p.messageId, .retryLimitReached⟩

/-- What a scan of `packets` collects. -/
structure Scanned (packets : List InFlightPacket) (scan : TickScan) : Prop where
  failures : ∀ p ∈ scan.failures, p ∈ packets ∧ retryLimitReached config nowMs p = true
  retransmits : ∀ p ∈ scan.retransmits, p ∈ packets
  failedMessages : scan.failedMessages = scan.failures.map InFlightPacket.message
  nodup : scan.failedMessages.Nodup

variable {config nowMs}

theorem scanned_visit {packets : List InFlightPacket} {scan : TickScan}
    (h : Scanned config nowMs packets scan) (p : InFlightPacket) :
    Scanned config nowMs (packets ++ [p]) (scan.visit config nowMs p) := by
  have hold : Scanned config nowMs (packets ++ [p]) scan := by
    refine ⟨?_, ?_, h.failedMessages, h.nodup⟩
    · intro q hq
      exact ⟨List.mem_append_left _ (h.failures q hq).1, (h.failures q hq).2⟩
    · intro q hq
      exact List.mem_append_left _ (h.retransmits q hq)
  unfold TickScan.visit
  split
  · exact hold
  · rename_i hdue
    split
    · rename_i hattempts
      split
      · rename_i hfresh
        have hnew : p.message ∉ scan.failedMessages := by
          simp only [Bool.and_eq_true, Bool.not_eq_true', List.contains_eq_mem,
            decide_eq_false_iff_not] at hfresh
          exact hfresh.1
        refine ⟨?_, hold.retransmits, ?_, ?_⟩
        · intro q hq
          rcases List.mem_append.mp hq with hq | hq
          · exact hold.failures q hq
          · obtain rfl := List.mem_singleton.mp hq
            refine ⟨List.mem_append_right _ (List.mem_singleton.mpr rfl), ?_⟩
            simp only [retryLimitReached, Bool.and_eq_true, decide_eq_true_eq]
            exact ⟨by simpa using hdue, hattempts⟩
        · simp only [h.failedMessages, List.map_append, List.map_cons, List.map_nil]
          rfl
        · exact List.nodup_append.mpr ⟨h.nodup, by simp, by
            rintro a ha b hb rfl
            have he : a = p.message := List.mem_singleton.mp hb
            exact hnew (he ▸ ha)⟩
      · exact hold
    · split
      · refine ⟨hold.failures, ?_, hold.failedMessages, hold.nodup⟩
        intro q hq
        rcases List.mem_append.mp hq with hq | hq
        · exact hold.retransmits q hq
        · exact List.mem_append_right _ hq
      · exact hold

variable (config nowMs) in
theorem scanned_foldl (packets : List InFlightPacket) :
    Scanned config nowMs packets (packets.foldl (TickScan.visit config nowMs) .new) := by
  have key : ∀ (rest done : List InFlightPacket) (scan : TickScan),
      Scanned config nowMs done scan →
      Scanned config nowMs (done ++ rest) (rest.foldl (TickScan.visit config nowMs) scan) := by
    intro rest
    induction rest with
    | nil => intro done scan h; simpa using h
    | cons p rest ih =>
      intro done scan h
      have := ih (done ++ [p]) _ (scanned_visit h p)
      simpa using this
  exact key packets [] .new ⟨by simp [TickScan.new], by simp [TickScan.new], rfl, by
    simp [TickScan.new]⟩

end Scan

/-! ## The two loops behind the scan -/

section Loops
variable {st : EngineState}

theorem packets_failMessage {packet p : InFlightPacket} :
    p ∈ (st.failMessage packet).recovery.packets ↔
      p ∈ st.recovery.packets ∧ p.message ≠ packet.message := by
  show p ∈ (st.recovery.inFlight.removeMessage packet.packetType packet.messageId).toList ↔ _
  rw [InFlightPackets.mem_removeMessage]
  simp only [InFlightPacket.message, ne_eq, Prod.mk.injEq]
  rfl

theorem packets_foldl_failMessage {failures : List InFlightPacket} {p : InFlightPacket} :
    p ∈ (failures.foldl failMessage st).recovery.packets ↔
      p ∈ st.recovery.packets ∧ p.message ∉ failures.map InFlightPacket.message := by
  induction failures generalizing st with
  | nil => simp
  | cons failure failures ih =>
    rw [List.foldl_cons, ih, packets_failMessage, List.map_cons, List.mem_cons, not_or, and_assoc]

theorem mem_queued_foldl_failMessage {failures : List InFlightPacket} {e : EngineOutput}
    (he : e ∈ (failures.foldl failMessage st).scheduler.queued) :
    e ∈ st.scheduler.queued ∨ ∃ p ∈ failures, e = .sendFailed (failureOf p) := by
  induction failures generalizing st with
  | nil => exact .inl he
  | cons failure failures ih =>
    rcases ih he with he | ⟨p, hp, rfl⟩
    · rcases SchedulerState.mem_pushIgnored he with rfl | he
      · exact .inr ⟨failure, List.mem_cons_self, rfl⟩
      · exact .inl he
    · exact .inr ⟨p, List.mem_cons_of_mem _ hp, rfl⟩

theorem lastTick_foldl_failMessage {failures : List InFlightPacket} :
    (failures.foldl failMessage st).recovery.lastTickMs = st.recovery.lastTickMs := by
  induction failures generalizing st with
  | nil => rfl
  | cons failure failures ih => rw [List.foldl_cons, ih]; rfl

/-- With room for all of them, every failure is queued once. -/
theorem failures_foldl_failMessage {failures : List InFlightPacket}
    (hroom : st.scheduler.len + failures.length ≤ maxEvents) :
    (failures.foldl failMessage st).scheduler.failures =
      (failures.map failureOf : Multiset SendFailedEvent) + st.scheduler.failures := by
  induction failures generalizing st with
  | nil => simp
  | cons failure failures ih =>
    rw [List.length_cons] at hroom
    have hqueued : (st.failMessage failure).scheduler.queued =
        .sendFailed (failureOf failure) ::ₘ st.scheduler.queued := by
      show (st.scheduler.pushIgnored (.sendFailed (failureOf failure))).queued = _
      unfold SchedulerState.pushIgnored
      split
      · rename_i hpush
        cases SchedulerState.push_eq_ok hpush with
        | replaced write _ _ hw => cases hw
        | added _ _ hq => exact hq
      · rename_i hpush
        have hfull := (SchedulerState.push_eq_error hpush).1
        omega
    have hlen : (st.failMessage failure).scheduler.len = st.scheduler.len + 1 := by
      rw [← SchedulerState.card_queued, hqueued, Multiset.card_cons, SchedulerState.card_queued]
    rw [List.foldl_cons, ih (by omega), SchedulerState.failures_sendFailed hqueued, List.map_cons,
      ← Multiset.cons_coe, Multiset.add_cons, Multiset.cons_add]

variable {failed : List (PacketType × MessageId)}

theorem recovery_foldl_queueRetransmit {packets : List InFlightPacket} :
    (packets.foldl (queueRetransmit failed) st).recovery = st.recovery := by
  induction packets generalizing st with
  | nil => rfl
  | cons packet packets ih =>
    rw [List.foldl_cons, ih]
    unfold queueRetransmit
    split <;> rfl

/-- The write a retransmission queues. -/
def retransmitWrite (p : InFlightPacket) : WriteEvent :=
  ⟨p.key, p.wire, saturatingSucc p.attempts, .retransmit⟩

theorem mem_queued_foldl_queueRetransmit {packets : List InFlightPacket} {e : EngineOutput}
    (he : e ∈ (packets.foldl (queueRetransmit failed) st).scheduler.queued) :
    e ∈ st.scheduler.queued ∨
      ∃ p ∈ packets, p.message ∉ failed ∧ e = .write (retransmitWrite p) := by
  induction packets generalizing st with
  | nil => exact .inl he
  | cons packet packets ih =>
    rcases ih he with he | ⟨p, hp, hkept, rfl⟩
    · unfold queueRetransmit at he
      split at he
      · exact .inl he
      · rename_i hkept
        rcases SchedulerState.mem_pushIgnored he with rfl | he
        · exact .inr ⟨packet, List.mem_cons_self,
            by simpa [InFlightPacket.message] using hkept, rfl⟩
        · exact .inl he
    · exact .inr ⟨p, List.mem_cons_of_mem _ hp, hkept, rfl⟩

theorem failures_foldl_queueRetransmit {packets : List InFlightPacket} :
    (packets.foldl (queueRetransmit failed) st).scheduler.failures = st.scheduler.failures := by
  induction packets generalizing st with
  | nil => rfl
  | cons packet packets ih =>
    rw [List.foldl_cons, ih]
    unfold queueRetransmit
    split
    · rfl
    · dsimp only
      unfold SchedulerState.pushIgnored
      split
      · rename_i hpush
        exact (SchedulerState.push_eq_ok hpush).failures_eq
      · rfl

end Loops

/-! ## The tick -/

/-- What the scan of a poll at `nowMs` collects. -/
def EngineState.tickScan (config : EngineConfig) (st : EngineState) (nowMs : Nat) : TickScan :=
  st.recovery.packets.foldl (TickScan.visit config nowMs) .new

theorem scanned_tickScan (config : EngineConfig) (nowMs : Nat) (st : EngineState) :
    Scanned config nowMs st.recovery.packets (st.tickScan config nowMs) :=
  scanned_foldl config nowMs st.recovery.packets

section Tick
variable {config : EngineConfig} {nowMs : Nat} {st : EngineState}

/-- A second tick at the same time only sets the clock. -/
theorem tickRetransmit_of_eq (htick : st.recovery.lastTickMs = some nowMs) :
    st.tickRetransmit config nowMs = st.advanceClock config nowMs := by
  have hshould : (st.advanceClock config nowMs).recovery.shouldTick nowMs = (st.recovery, false) :=
    if_pos htick
  unfold tickRetransmit
  dsimp only
  rw [hshould]
  rfl

/-- The first tick at a time gives messages up and then queues packets again. -/
theorem tickRetransmit_of_ne (htick : st.recovery.lastTickMs ≠ some nowMs) :
    st.tickRetransmit config nowMs =
      (st.tickScan config nowMs).retransmits.foldl
        (queueRetransmit (st.tickScan config nowMs).failedMessages)
        ((st.tickScan config nowMs).failures.foldl failMessage { st.advanceClock config nowMs with
          recovery := { st.recovery with lastTickMs := some nowMs } }) := by
  have hshould : (st.advanceClock config nowMs).recovery.shouldTick nowMs =
      ({ st.recovery with lastTickMs := some nowMs }, true) := if_neg htick
  unfold tickRetransmit
  dsimp only
  rw [hshould, if_pos rfl]
  rfl

end Tick

/-- What the tick does to the in-flight table and the scheduler. -/
inductive Ticked (config : EngineConfig) (nowMs : Nat) (st st' : EngineState) : Prop
  | skipped : st.recovery.lastTickMs = some nowMs → st'.recovery = st.recovery →
      st'.scheduler = st.scheduler → Ticked config nowMs st st'
  | scanned (scan : TickScan) : st.recovery.lastTickMs ≠ some nowMs →
      st'.recovery.lastTickMs = some nowMs →
      Scanned config nowMs st.recovery.packets scan →
      (∀ p, p ∈ st'.recovery.packets ↔
        p ∈ st.recovery.packets ∧ p.message ∉ scan.failedMessages) →
      (∀ e ∈ st'.scheduler.queued, e ∈ st.scheduler.queued ∨
        (∃ p ∈ scan.failures, e = .sendFailed (failureOf p)) ∨
        ∃ p ∈ scan.retransmits, e = .write (retransmitWrite p)) →
      (st.scheduler.len + scan.failures.length ≤ maxEvents →
        st'.scheduler.failures =
          (scan.failures.map failureOf : Multiset SendFailedEvent) + st.scheduler.failures) →
      Ticked config nowMs st st'

theorem tickRetransmit_spec (config : EngineConfig) (st : EngineState) (nowMs : Nat) :
    Ticked config nowMs st (st.tickRetransmit config nowMs) := by
  by_cases htick : st.recovery.lastTickMs = some nowMs
  · rw [tickRetransmit_of_eq htick]
    exact .skipped htick rfl rfl
  · rw [tickRetransmit_of_ne htick]
    have hscan := scanned_tickScan config nowMs st
    refine .scanned (st.tickScan config nowMs) htick ?_ hscan ?_ ?_ ?_
    · rw [recovery_foldl_queueRetransmit, lastTick_foldl_failMessage]
    · intro p
      rw [recovery_foldl_queueRetransmit, packets_foldl_failMessage, hscan.failedMessages]
      rfl
    · intro e he
      rcases mem_queued_foldl_queueRetransmit he with he | ⟨p, hp, -, hre⟩
      · rcases mem_queued_foldl_failMessage he with he | hfail
        · exact .inl he
        · exact .inr (.inl hfail)
      · exact .inr (.inr ⟨p, hp, hre⟩)
    · intro hroom
      rw [failures_foldl_queueRetransmit, failures_foldl_failMessage]
      · rfl
      · exact hroom

/-! ## The action of a poll -/

/-- The recovery state once a write has been transmitted. -/
def RecoveryState.noteWrite (r : RecoveryState) (write : WriteEvent) (nowMs : Nat) :
    RecoveryState :=
  match write.priority with
  | .retransmit => r.noteRetransmitSent write.key nowMs
  | .control | .newData => r.noteSent write.key nowMs

/-- How a transmission marks the packet it carries. -/
def WriteEvent.mark (write : WriteEvent) (nowMs : Nat) (p : InFlightPacket) : InFlightPacket :=
  match write.priority with
  | .retransmit =>
    { p with sent := true, attempts := saturatingSucc p.attempts, lastSentMs := nowMs }
  | .control | .newData => { p with sent := true, lastSentMs := nowMs }

/-- A mark keeps what identifies a packet. -/
theorem WriteEvent.mark_same (write : WriteEvent) (nowMs : Nat) (p : InFlightPacket) :
    (write.mark nowMs p).key = p.key ∧ (write.mark nowMs p).packetType = p.packetType ∧
      (write.mark nowMs p).messageId = p.messageId ∧ (write.mark nowMs p).wire = p.wire := by
  unfold mark
  split <;> exact ⟨rfl, rfl, rfl, rfl⟩

theorem mem_packets_noteWrite {r : RecoveryState} {write : WriteEvent} {nowMs : Nat}
    {p : InFlightPacket} : p ∈ (r.noteWrite write nowMs).packets ↔
      ∃ q ∈ r.packets, p = if q.key = write.key then write.mark nowMs q else q := by
  unfold RecoveryState.noteWrite WriteEvent.mark
  split
  · exact InFlightPackets.mem_noteRetransmitSent
  · exact InFlightPackets.mem_noteSent
  · exact InFlightPackets.mem_noteSent

/-- Transmission keeps what identifies the tracked packets. -/
theorem same_of_mem_noteWrite {r : RecoveryState} {write : WriteEvent} {nowMs : Nat}
    {p : InFlightPacket} (hp : p ∈ (r.noteWrite write nowMs).packets) :
    ∃ q ∈ r.packets, p.key = q.key ∧ p.packetType = q.packetType ∧ p.messageId = q.messageId ∧
      p.wire = q.wire := by
  obtain ⟨q, hq, rfl⟩ := mem_packets_noteWrite.mp hp
  refine ⟨q, hq, ?_⟩
  split
  · exact write.mark_same nowMs q
  · exact ⟨rfl, rfl, rfl, rfl⟩

/-- Every tracked packet survives a transmission. -/
theorem mem_noteWrite_of_mem {r : RecoveryState} (write : WriteEvent) (nowMs : Nat)
    {q : InFlightPacket} (hq : q ∈ r.packets) :
    ∃ p ∈ (r.noteWrite write nowMs).packets, p.key = q.key ∧ p.packetType = q.packetType ∧
      p.messageId = q.messageId ∧ p.wire = q.wire := by
  refine ⟨_, mem_packets_noteWrite.mpr ⟨q, hq, rfl⟩, ?_⟩
  split
  · exact write.mark_same nowMs q
  · exact ⟨rfl, rfl, rfl, rfl⟩

/-- The one thing a poll takes out of the engine. -/
inductive PollStep (config : EngineConfig) (nowMs txLen : Nat) (st st' : EngineState)
    (result : Except Error EnginePoll) : Prop
  | ack (key : PacketKey) (keys : List PacketKey) : RingQueue.toList st.ack = key :: keys →
      RingQueue.toList st'.ack = keys → st'.scheduler = st.scheduler →
      st'.recovery = st.recovery → st'.message = st.message →
      result = (encodeAckPacket key txLen config.integrity).map (fun bytes => .transmit bytes 0) →
      PollStep config nowMs txLen st st' result
  | transmit (write : WriteEvent) : st.scheduler.queued = .write write ::ₘ st'.scheduler.queued →
      write.wire.bytes.length ≤ txLen → st'.recovery = st.recovery.noteWrite write nowMs →
      st'.ack = st.ack → RingQueue.toList st'.message = RingQueue.toList st.message →
      result = .ok (.transmit write.wire.bytes write.attempts) →
      PollStep config nowMs txLen st st' result
  | tooSmall (write : WriteEvent) : st.scheduler.queued = .write write ::ₘ st'.scheduler.queued →
      txLen < write.wire.bytes.length → st'.recovery = st.recovery → st'.ack = st.ack →
      RingQueue.toList st'.message = RingQueue.toList st.message →
      result = .error .bufferTooSmall → PollStep config nowMs txLen st st' result
  | sendFailed (event : SendFailedEvent) :
      st.scheduler.queued = .sendFailed event ::ₘ st'.scheduler.queued →
      st'.recovery = st.recovery → st'.ack = st.ack →
      RingQueue.toList st'.message = RingQueue.toList st.message →
      result = .ok (.sendFailed event) → PollStep config nowMs txLen st st' result
  | message (message : MessageEvent) (messages : List MessageEvent) :
      RingQueue.toList st.message = message :: messages →
      RingQueue.toList st'.message = messages → st'.scheduler.queued = st.scheduler.queued →
      st'.recovery = st.recovery → st'.ack = st.ack → result = .ok (.message message) →
      PollStep config nowMs txLen st st' result
  | idle : st'.scheduler.queued = st.scheduler.queued → st'.recovery = st.recovery →
      st'.ack = st.ack → RingQueue.toList st'.message = RingQueue.toList st.message →
      result = .ok .idle → PollStep config nowMs txLen st st' result

section PollStep
variable {config : EngineConfig} {nowMs txLen : Nat} {st st' : EngineState}
  {result : Except Error EnginePoll}

theorem PollStep.ack_suffix (h : PollStep config nowMs txLen st st' result) :
    RingQueue.toList st'.ack <:+ RingQueue.toList st.ack := by
  have hsame (h : st'.ack = st.ack) : RingQueue.toList st'.ack <:+ RingQueue.toList st.ack :=
    h ▸ List.suffix_refl _
  cases h with
  | ack key keys hcons htail =>
    rw [hcons, htail]
    exact List.suffix_cons _ _
  | transmit write _ _ _ hack => exact hsame hack
  | tooSmall write _ _ _ hack => exact hsame hack
  | sendFailed event _ _ hack => exact hsame hack
  | message message messages _ _ _ _ hack => exact hsame hack
  | idle _ _ hack => exact hsame hack

theorem PollStep.message_suffix (h : PollStep config nowMs txLen st st' result) :
    RingQueue.toList st'.message <:+ RingQueue.toList st.message := by
  have hsame (h : RingQueue.toList st'.message = RingQueue.toList st.message) :
      RingQueue.toList st'.message <:+ RingQueue.toList st.message := h ▸ List.suffix_refl _
  cases h with
  | ack key keys _ _ _ _ hmessage => exact hsame (congrArg RingQueue.toList hmessage)
  | transmit write _ _ _ _ hmessage => exact hsame hmessage
  | tooSmall write _ _ _ _ hmessage => exact hsame hmessage
  | sendFailed event _ _ _ hmessage => exact hsame hmessage
  | message message messages hcons htail =>
    rw [hcons, htail]
    exact List.suffix_cons _ _
  | idle _ _ _ hmessage => exact hsame hmessage

end PollStep

theorem ack_pop_cons {a : AckState} {key : PacketKey} {keys : List PacketKey}
    (h : RingQueue.toList a = key :: keys) :
    (AckState.pop a).1 = some key ∧ RingQueue.toList (AckState.pop a).2 = keys := by
  rw [AckState.fst_pop, AckState.toList_pop, h]
  exact ⟨rfl, rfl⟩

theorem pollPendingAck_spec {config : EngineConfig} {st : EngineState} (nowMs txLen : Nat)
    (h : AckState.isPending st.ack = true) :
    PollStep config nowMs txLen st (st.pollPendingAck config txLen).1
      (st.pollPendingAck config txLen).2 := by
  obtain ⟨key, keys, hkeys⟩ : ∃ key keys, RingQueue.toList st.ack = key :: keys := by
    cases hl : RingQueue.toList st.ack with
    | nil =>
      have h0 := (RingQueue.toList_eq_nil_iff st.ack).mp hl
      simp [AckState.isPending, h0] at h
    | cons key keys => exact ⟨key, keys, rfl⟩
  obtain ⟨hfst, hsnd⟩ := ack_pop_cons hkeys
  unfold pollPendingAck
  dsimp only
  rw [hfst]
  dsimp only
  cases henc : encodeAckPacket key txLen config.integrity with
  | error e => exact .ack key keys hkeys hsnd rfl rfl rfl (by rw [henc]; rfl)
  | ok bytes => exact .ack key keys hkeys hsnd rfl rfl rfl (by rw [henc]; rfl)

/-- An event that has been taken out is transmitted, refused or reported. -/
theorem pollEvent_spec {config : EngineConfig} {st st₁ : EngineState} (nowMs txLen : Nat)
    {event : EngineOutput} (hqueued : st.scheduler.queued = event ::ₘ st₁.scheduler.queued)
    (hrecovery : st₁.recovery = st.recovery) (hack : st₁.ack = st.ack)
    (hmessage : RingQueue.toList st₁.message = RingQueue.toList st.message) :
    PollStep config nowMs txLen st (st₁.pollEvent event nowMs txLen).1
      (st₁.pollEvent event nowMs txLen).2 := by
  cases event with
  | sendFailed e => exact .sendFailed e hqueued hrecovery hack hmessage rfl
  | write write =>
    simp only [pollEvent, pollWrite]
    by_cases hfit : txLen < write.wire.bytes.length
    · rw [if_pos hfit]
      exact .tooSmall write hqueued hfit hrecovery hack hmessage rfl
    · rw [if_neg hfit]
      refine .transmit write hqueued (Nat.le_of_not_lt hfit) ?_ hack hmessage rfl
      rw [← hrecovery]
      rfl

theorem pollOutput_spec (config : EngineConfig) (st : EngineState) (nowMs txLen : Nat) :
    PollStep config nowMs txLen st (st.pollOutput config nowMs txLen).1
      (st.pollOutput config nowMs txLen).2 := by
  unfold pollOutput
  split
  · exact pollPendingAck_spec nowMs txLen ‹_›
  · dsimp only
    cases hurgent : st.scheduler.popUrgent.1 with
    | some event =>
      exact pollEvent_spec nowMs txLen (SchedulerState.popUrgent_some hurgent) rfl rfl rfl
    | none =>
      have hqueued := SchedulerState.popUrgent_none hurgent
      have hfst : (MessageState.pop st.message).1 = (RingQueue.toList st.message).head? :=
        RingQueue.fst_pop st.message
      have hsnd : RingQueue.toList (MessageState.pop st.message).2 =
          (RingQueue.toList st.message).tail := RingQueue.toList_pop st.message
      dsimp only
      cases hl : RingQueue.toList st.message with
      | cons message messages =>
        rw [hl] at hfst hsnd
        rw [hfst]
        exact .message message messages hl hsnd hqueued rfl rfl rfl
      | nil =>
        rw [hl] at hfst hsnd
        rw [hfst]
        dsimp only [List.head?_nil]
        have hempty : RingQueue.toList (MessageState.pop st.message).2 =
            RingQueue.toList st.message := hsnd.trans hl.symm
        unfold pollNewData
        dsimp only
        cases hnew : st.scheduler.popUrgent.2.newData.pop.1 with
        | none =>
          exact .idle ((SchedulerState.queued_popNewData_none hnew).trans hqueued) rfl rfl hempty rfl
        | some event =>
          exact pollEvent_spec nowMs txLen
            (hqueued.symm.trans (SchedulerState.queued_popNewData_some hnew)) rfl rfl hempty

/-- **A poll is a tick and one step.** -/
theorem poll_spec (config : EngineConfig) (st : EngineState) (nowMs txLen : Nat) :
    ∃ ticked, Ticked config nowMs st ticked ∧
      TickFrame (st.advanceClock config nowMs) ticked ∧
      PollStep config nowMs txLen ticked (st.poll config nowMs txLen).1
        (st.poll config nowMs txLen).2 :=
  ⟨st.tickRetransmit config nowMs, tickRetransmit_spec config st nowMs,
    st.tickRetransmit_frame nowMs, pollOutput_spec config _ nowMs txLen⟩

/-- A message that a poll returns was waiting for delivery. -/
theorem mem_message_of_poll {config : EngineConfig} {st : EngineState} {nowMs txLen : Nat}
    {e : MessageEvent} (h : (st.poll config nowMs txLen).2 = .ok (.message e)) :
    e ∈ RingQueue.toList st.message := by
  obtain ⟨ticked, -, hframe, hstep⟩ := poll_spec config st nowMs txLen
  have hmessage : ticked.message = st.message := hframe.message
  rw [h] at hstep
  rw [← hmessage]
  cases hstep with
  | message message messages hcons _ _ _ _ hres =>
    obtain rfl := EnginePoll.message.inj (Except.ok.inj hres)
    rw [hcons]
    exact List.mem_cons_self
  | ack key keys _ _ _ _ _ hres =>
    cases henc : encodeAckPacket key txLen config.integrity <;> (rw [henc] at hres; cases hres)
  | transmit _ _ _ _ _ _ hres => cases hres
  | tooSmall _ _ _ _ _ _ hres => cases hres
  | sendFailed _ _ _ _ _ hres => cases hres
  | idle _ _ _ _ hres => cases hres

end Msrt
