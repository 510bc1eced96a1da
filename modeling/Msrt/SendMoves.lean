import Mathlib.Logic.Relation
import Msrt.Outgoing

/-! # The send side, move by move

A call changes the scheduler and the in-flight table through a few small moves (`SendMove`): a
PING or PONG is queued, a fragment of a new message is queued and tracked, a packet is acknowledged,
a message is given up, a packet is queued again.  A poll takes at most one event out behind its moves
(`Call.sendMoves`).  An invariant that links the table to the queue is proved once for each move and
once for what a poll takes out; it never opens the operations.
-/

namespace Msrt
open EngineState

/-! ## Queued writes and their keys -/

/-- The key of a queued write. -/
def EngineOutput.writeKey? : EngineOutput → Option PacketKey
  | .write w => some w.key
  | .sendFailed _ => none

namespace SchedulerState
variable {s s' : SchedulerState} {event : EngineOutput} {w : WriteEvent}

/-- The keys of the queued writes, without their order. -/
def keys (s : SchedulerState) : Multiset PacketKey := s.queued.filterMap EngineOutput.writeKey?

theorem keys_of_queued_write {rest : Multiset EngineOutput} (h : s.queued = .write w ::ₘ rest) :
    s.keys = w.key ::ₘ rest.filterMap EngineOutput.writeKey? := by
  rw [keys, h, Multiset.filterMap_cons_some EngineOutput.writeKey? (.write w) _ rfl]

theorem mem_keys {key : PacketKey} : key ∈ s.keys ↔ ∃ w, .write w ∈ s.queued ∧ w.key = key := by
  rw [keys, Multiset.mem_filterMap]
  constructor
  · rintro ⟨e, he, hkey⟩
    cases e with
    | write w => exact ⟨w, he, Option.some.inj hkey⟩
    | sendFailed event => cases hkey
  · rintro ⟨w, hw, rfl⟩
    exact ⟨.write w, hw, rfl⟩

/-- A write added without a redundant one has a key that was not queued. -/
theorem key_notMem (h : ∀ e ∈ s.queued, e.redundantFor w = false) : w.key ∉ s.keys := by
  intro hmem
  obtain ⟨w', hw', hkey⟩ := mem_keys.mp hmem
  have := h _ hw'
  simp [EngineOutput.redundantFor, isRedundantWrite, hkey] at this

theorem Pushed.mem_self (h : Pushed s event s') : event ∈ s'.queued := by
  cases h with
  | replaced write old rest hw _ _ hn =>
    rw [hn, hw]
    exact Multiset.mem_cons_self _ _
  | added _ _ hq =>
    rw [hq]
    exact Multiset.mem_cons_self _ _

/-- A push keeps every write of another key. -/
theorem Pushed.keeps (h : Pushed s event s') (hw : .write w ∈ s.queued)
    (hne : event.writeKey? ≠ some w.key) : .write w ∈ s'.queued := by
  cases h with
  | replaced write old rest he hkey ho hn =>
    rw [hn]
    rw [ho, Multiset.mem_cons] at hw
    rcases hw with hw | hw
    · obtain rfl := EngineOutput.write.inj hw
      rw [he] at hne
      exact absurd (congrArg some hkey.symm) hne
    · exact Multiset.mem_cons_of_mem hw
  | added _ _ hq =>
    rw [hq]
    exact Multiset.mem_cons_of_mem hw

/-- With distinct keys, a write of the pushed key is the pushed write. -/
theorem Pushed.mem_write (hd : s.keys.Nodup) (h : Pushed s event s')
    (hw : .write w ∈ s'.queued) :
    event = .write w ∨ (.write w ∈ s.queued ∧ event.writeKey? ≠ some w.key) := by
  cases h with
  | replaced write old rest he hkey ho hn =>
    rw [keys_of_queued_write ho, Multiset.nodup_cons, hkey] at hd
    rw [hn, Multiset.mem_cons] at hw
    rcases hw with hw | hw
    · exact .inl (he.trans hw.symm)
    · refine .inr ⟨by rw [ho]; exact Multiset.mem_cons_of_mem hw, fun heq => hd.1 ?_⟩
      rw [he] at heq
      rw [Multiset.mem_filterMap]
      exact ⟨.write w, hw, heq.symm⟩
  | added hfresh _ hq =>
    rw [hq, Multiset.mem_cons] at hw
    rcases hw with hw | hw
    · exact .inl hw.symm
    · refine .inr ⟨hw, ?_⟩
      intro heq
      cases event with
      | sendFailed e => cases heq
      | write write =>
        refine key_notMem (hfresh write rfl) (mem_keys.mpr ⟨w, hw, ?_⟩)
        exact (Option.some.inj heq).symm

/-- A push keeps the keys distinct. -/
theorem Pushed.keys_nodup (hd : s.keys.Nodup) (h : Pushed s event s') : s'.keys.Nodup := by
  cases h with
  | replaced write old rest he hkey ho hn =>
    rw [keys_of_queued_write hn, ← hkey, ← keys_of_queued_write ho]
    exact hd
  | added hfresh _ hq =>
    cases event with
    | sendFailed e =>
      rw [keys, hq, Multiset.filterMap_cons_none _ _ rfl]
      exact hd
    | write write =>
      rw [keys_of_queued_write hq]
      exact Multiset.nodup_cons.mpr ⟨key_notMem (hfresh write rfl), hd⟩

/-- A push that may be refused by a full scheduler. -/
def PushTried (s : SchedulerState) (event : EngineOutput) (s' : SchedulerState) : Prop :=
  Pushed s event s' ∨ s' = s ∧ s.len = maxEvents

theorem pushIgnored_tried (s : SchedulerState) (event : EngineOutput) :
    PushTried s event (s.pushIgnored event) := by
  unfold pushIgnored
  split
  · rename_i hpush
    exact .inl (push_eq_ok hpush)
  · rename_i hpush
    exact .inr ⟨rfl, (push_eq_error hpush).1⟩

theorem PushTried.keeps (h : PushTried s event s') (hw : .write w ∈ s.queued)
    (hne : event.writeKey? ≠ some w.key) : .write w ∈ s'.queued := by
  rcases h with h | ⟨rfl, -⟩
  · exact h.keeps hw hne
  · exact hw

theorem PushTried.mem_write (hd : s.keys.Nodup) (h : PushTried s event s')
    (hw : .write w ∈ s'.queued) :
    event = .write w ∨ (.write w ∈ s.queued ∧ (event.writeKey? ≠ some w.key ∨ s' = s)) := by
  rcases h with h | ⟨rfl, -⟩
  · exact (h.mem_write hd hw).imp_right (And.imp_right .inl)
  · exact .inr ⟨hw, .inr rfl⟩

theorem PushTried.keys_nodup (hd : s.keys.Nodup) (h : PushTried s event s') : s'.keys.Nodup := by
  rcases h with h | ⟨rfl, -⟩
  · exact h.keys_nodup hd
  · exact hd

end SchedulerState

/-! ## What the scan collects -/

section Scan
variable (config : EngineConfig) (nowMs : Nat)

/-- Whether the packet has timed out with attempts left. -/
def retryLeft (p : InFlightPacket) : Bool :=
  retransmitDue config nowMs p && decide (p.attempts < config.maxRetransmitAttempts)

/-- A scan that has visited `packets` and had room for all of them. -/
structure ScanComplete (packets : List InFlightPacket) (scan : TickScan) : Prop where
  retransmits : scan.retransmits = packets.filter (retryLeft config nowMs)
  failed : ∀ p ∈ packets, retryLimitReached config nowMs p = true →
    p.message ∈ scan.failedMessages
  failures_le : scan.failures.length ≤ packets.length

variable {config nowMs}

theorem scanComplete_visit {packets : List InFlightPacket} {scan : TickScan}
    (h : ScanComplete config nowMs packets scan) (p : InFlightPacket)
    (hroom : packets.length < maxInFlightPackets) :
    ScanComplete config nowMs (packets ++ [p]) (scan.visit config nowMs p) := by
  have hfailures := h.failures_le
  have hretransmits : scan.retransmits.length < maxInFlightPackets := by
    rw [h.retransmits]
    exact Nat.lt_of_le_of_lt (List.length_filter_le _ _) hroom
  have hlen : (packets ++ [p]).length = packets.length + 1 := by simp
  unfold TickScan.visit
  split
  · rename_i hdue
    have hdue : retransmitDue config nowMs p = false := by simpa using hdue
    refine ⟨?_, ?_, by omega⟩
    · rw [List.filter_append, h.retransmits]
      simp [retryLeft, hdue]
    · intro q hq hlimit
      rcases List.mem_append.mp hq with hq | hq
      · exact h.failed q hq hlimit
      · rw [List.mem_singleton.mp hq, retryLimitReached, hdue] at hlimit
        cases hlimit
  · rename_i hdue
    have hdue : retransmitDue config nowMs p = true := by simpa using hdue
    split
    · rename_i hattempts
      have hleft : retryLeft config nowMs p = false := by
        simp only [retryLeft, hdue, Bool.true_and, decide_eq_false_iff_not]
        exact UInt8.not_lt.mpr hattempts
      have hsame : scan.retransmits = (packets ++ [p]).filter (retryLeft config nowMs) := by
        rw [List.filter_append, h.retransmits]
        simp [hleft]
      split
      · refine ⟨hsame, ?_, ?_⟩
        · intro q hq hlimit
          rcases List.mem_append.mp hq with hq | hq
          · exact List.mem_append_left _ (h.failed q hq hlimit)
          · rw [List.mem_singleton.mp hq]
            exact List.mem_append_right _ (List.mem_singleton.mpr rfl)
        · dsimp only
          rw [List.length_append, List.length_singleton]
          omega
      · rename_i hfresh
        -- there is room for the failure, so its message has failed already
        have hknown : p.message ∈ scan.failedMessages := by
          simp only [Bool.and_eq_true, Bool.not_eq_true', decide_eq_true_eq, not_and,
            List.contains_eq_mem, decide_eq_false_iff_not] at hfresh
          by_contra hnew
          exact hfresh hnew (by omega)
        refine ⟨hsame, ?_, by omega⟩
        intro q hq hlimit
        rcases List.mem_append.mp hq with hq | hq
        · exact h.failed q hq hlimit
        · rw [List.mem_singleton.mp hq]
          exact hknown
    · rename_i hattempts
      have hlimit' : retryLimitReached config nowMs p = false := by
        simp only [retryLimitReached, hdue, Bool.true_and, decide_eq_false_iff_not]
        exact hattempts
      have hleft : retryLeft config nowMs p = true := by
        simp only [retryLeft, hdue, Bool.true_and, decide_eq_true_eq]
        exact UInt8.not_le.mp hattempts
      refine ⟨?_, ?_, by dsimp only; omega⟩
      · rw [List.filter_append, ← h.retransmits]
        simp [hleft]
      · intro q hq hlimit
        rcases List.mem_append.mp hq with hq | hq
        · exact h.failed q hq hlimit
        · rw [List.mem_singleton.mp hq, hlimit'] at hlimit
          cases hlimit

variable (config nowMs) in
/-- The scan of a table loses nothing: it has room for every packet. -/
theorem scanComplete_foldl (packets : List InFlightPacket)
    (hlen : packets.length ≤ maxInFlightPackets) :
    ScanComplete config nowMs packets (packets.foldl (TickScan.visit config nowMs) .new) := by
  induction packets using List.reverseRecOn with
  | nil => exact ⟨rfl, by simp, Nat.le_refl _⟩
  | append_singleton packets p ih =>
    rw [List.length_append, List.length_singleton] at hlen
    rw [List.foldl_append, List.foldl_cons, List.foldl_nil]
    exact scanComplete_visit (ih (by omega)) p (by omega)

theorem length_packets_le (r : RecoveryState) : r.packets.length ≤ maxInFlightPackets := by
  have h := r.inFlight.len_le
  rw [r.inFlight.len_eq] at h
  exact h

variable (config nowMs) in
theorem scanComplete_tickScan (st : EngineState) :
    ScanComplete config nowMs st.recovery.packets (st.tickScan config nowMs) :=
  scanComplete_foldl config nowMs _ (length_packets_le st.recovery)

/-- A tracked packet is the only one with its key. -/
theorem packets_key_unique {r : RecoveryState} {p q : InFlightPacket} (hp : p ∈ r.packets)
    (hq : q ∈ r.packets) (h : p.key = q.key) : p = q :=
  List.inj_on_of_nodup_map r.inFlight.keys_nodup hp hq h

end Scan

/-! ## Moves -/

/-- The send side of an engine. -/
structure SendSide where
  scheduler : SchedulerState
  recovery : RecoveryState

/-- The scheduler and the in-flight table of a session. -/
def EngineState.sendSide (st : EngineState) : SendSide := ⟨st.scheduler, st.recovery⟩

/-- The write of a PING or a PONG. -/
def livenessWrite (integrity : IntegrityConfig) (packetType : PacketType)
    (priority : WritePriority) : WriteEvent :=
  ⟨.zero, .store (envelope integrity [packetType.code]), 0, priority⟩

section Moves
variable (config : EngineConfig)

/-- One change of the send side during a call. -/
inductive SendMove (call : Call) : SendSide → SendSide → Prop
  | liveness {s s' : SchedulerState} {r : RecoveryState} (packetType : PacketType)
      (priority : WritePriority) : packetType = .ping ∨ packetType = .pong →
      SchedulerState.Pushed s (.write (livenessWrite config.integrity packetType priority)) s' →
      SendMove call ⟨s, r⟩ ⟨s', r⟩
  | fragment {s s' : SchedulerState} {r r' : RecoveryState} (m : SentMessage) (i : Nat) :
      call.accepted config = some m → i < m.count config →
      SchedulerState.Pushed s (.write (m.writeEvent config i)) s' →
      (m.packetType = .data → ∀ p, p ∈ r'.packets ↔
        (∃ nowMs, p = m.inFlightPacket config nowMs i ∧ nowMs = call.before.clock.nowMs) ∨
          (p ∈ r.packets ∧ p.key ≠ m.packetKey i)) →
      (m.packetType ≠ .data → r' = r) → SendMove call ⟨s, r⟩ ⟨s', r'⟩
  | acked {s : SchedulerState} {r : RecoveryState} (bytes : Bytes) (key : PacketKey) :
      call.op = .packet bytes → decodePacketBytes bytes = .ack key →
      SendMove call ⟨s, r⟩ ⟨s, r.applyAck key⟩
  | marked {s : SchedulerState} {r r' : RecoveryState} (nowMs txLen : Nat) :
      call.op = .poll nowMs txLen → call.before.recovery.lastTickMs ≠ some nowMs →
      r'.packets = r.packets → SendMove call ⟨s, r⟩ ⟨s, r'⟩
  | failed {s s' : SchedulerState} {r r' : RecoveryState} (nowMs txLen : Nat)
      (p : InFlightPacket) : call.op = .poll nowMs txLen →
      call.before.recovery.lastTickMs ≠ some nowMs → p ∈ call.before.recovery.packets →
      retryLimitReached config nowMs p = true →
      SchedulerState.PushTried s (.sendFailed (failureOf p)) s' →
      (∀ q, q ∈ r'.packets ↔ q ∈ r.packets ∧ q.message ≠ p.message) →
      SendMove call ⟨s, r⟩ ⟨s', r'⟩
  | requeued {s s' : SchedulerState} {r : RecoveryState} (nowMs txLen : Nat)
      (p : InFlightPacket) : call.op = .poll nowMs txLen → p ∈ r.packets →
      retryLeft config nowMs p = true →
      SchedulerState.PushTried s (.write (retransmitWrite p)) s' →
      SendMove call ⟨s, r⟩ ⟨s', r⟩

/-- Several changes during one call. -/
abbrev SendMoves (call : Call) : SendSide → SendSide → Prop :=
  Relation.ReflTransGen (SendMove config call)

/-- What holds before a call and is kept by its moves holds after them. -/
theorem SendMoves.preserves {config : EngineConfig} {call : Call} {I : SendSide → Prop}
    {a b : SendSide} (h : SendMoves config call a b) (ha : I a)
    (hstep : ∀ a b, I a → SendMove config call a b → I b) : I b := by
  induction h with
  | refl => exact ha
  | tail _ hmove ih => exact hstep _ _ ih hmove

/-- The moves of a call, and what a poll takes out behind them. -/
inductive CallMoves (call : Call) : Prop
  | quiet : (∀ nowMs txLen, call.op ≠ .poll nowMs txLen) →
      SendMoves config call call.before.sendSide (call.after config).sendSide → CallMoves call
  | polled (nowMs txLen : Nat) (ticked : EngineState) : call.op = .poll nowMs txLen →
      ticked.ack = call.before.ack →
      SendMoves config call call.before.sendSide ticked.sendSide →
      PollStep config nowMs txLen ticked (call.after config)
        (call.before.poll config nowMs txLen).2 → CallMoves call

end Moves

section Tick
variable {config : EngineConfig} {nowMs txLen : Nat}

theorem moves_foldl_failMessage (st : EngineState) {call : Call} (hop : call.op = .poll nowMs txLen)
    (hrun : call.before.recovery.lastTickMs ≠ some nowMs) {failures : List InFlightPacket}
    (h : ∀ p ∈ failures, p ∈ call.before.recovery.packets ∧ retryLimitReached config nowMs p = true) :
    SendMoves config call st.sendSide (failures.foldl failMessage st).sendSide := by
  induction failures generalizing st with
  | nil => exact .refl
  | cons p failures ih =>
    obtain ⟨hmem, hlimit⟩ := h p List.mem_cons_self
    have hnext : SendMoves config call (st.failMessage p).sendSide
        (failures.foldl failMessage (st.failMessage p)).sendSide :=
      ih _ fun q hq => h q (List.mem_cons_of_mem _ hq)
    exact .head (.failed nowMs txLen p hop hrun hmem hlimit
      (SchedulerState.pushIgnored_tried _ _) (fun q => packets_failMessage)) hnext

theorem moves_foldl_queueRetransmit (st : EngineState) {call : Call} (hop : call.op = .poll nowMs txLen)
    {failed : List (PacketType × MessageId)} {packets : List InFlightPacket}
    (h : ∀ p ∈ packets, retryLeft config nowMs p = true ∧
      (p.message ∉ failed → p ∈ st.recovery.packets)) :
    SendMoves config call st.sendSide (packets.foldl (queueRetransmit failed) st).sendSide := by
  induction packets generalizing st with
  | nil => exact .refl
  | cons p packets ih =>
    obtain ⟨hleft, hmem⟩ := h p List.mem_cons_self
    have hrest := fun q hq => h q (List.mem_cons_of_mem _ hq)
    rw [List.foldl_cons]
    by_cases hfailed : p.message ∈ failed
    · have hskip : queueRetransmit failed st p = st := if_pos (by simpa [InFlightPacket.message] using hfailed)
      rw [hskip]
      exact ih st hrest
    · have hpush : queueRetransmit failed st p = { st with
          scheduler := st.scheduler.pushIgnored (.write (retransmitWrite p)) } :=
        if_neg (by simpa [InFlightPacket.message] using hfailed)
      have hnext := ih { st with
        scheduler := st.scheduler.pushIgnored (.write (retransmitWrite p)) } hrest
      rw [hpush]
      exact .head (.requeued nowMs txLen p hop (hmem hfailed) hleft
        (SchedulerState.pushIgnored_tried _ _)) hnext

/-- The tick is a sequence of moves. -/
theorem tickRetransmit_moves (config : EngineConfig) (st : EngineState) (nowMs txLen : Nat) :
    SendMoves config ⟨st, .poll nowMs txLen⟩ st.sendSide
      (st.tickRetransmit config nowMs).sendSide := by
  by_cases htick : st.recovery.lastTickMs = some nowMs
  · rw [tickRetransmit_of_eq htick]
    exact .refl
  · rw [tickRetransmit_of_ne htick]
    have hscan := scanned_tickScan config nowMs st
    have hcomplete := scanComplete_tickScan config nowMs st
    have hmarked : SendMove config ⟨st, .poll nowMs txLen⟩ st.sendSide
        ⟨st.scheduler, { st.recovery with lastTickMs := some nowMs }⟩ :=
      .marked nowMs txLen rfl htick rfl
    refine .head hmarked ?_
    refine (moves_foldl_failMessage { st.advanceClock config nowMs with
      recovery := { st.recovery with lastTickMs := some nowMs } } rfl htick hscan.failures).trans ?_
    apply moves_foldl_queueRetransmit _ rfl
    intro p hp
    have hp : p ∈ st.recovery.packets.filter (retryLeft config nowMs) := hcomplete.retransmits ▸ hp
    obtain ⟨hmem, hleft⟩ := List.mem_filter.mp hp
    refine ⟨hleft, ?_⟩
    intro hkept
    rw [packets_foldl_failMessage, ← hscan.failedMessages]
    exact ⟨hmem, hkept⟩

end Tick

theorem SentMessage.mode_eq_reliable_iff (m : SentMessage) :
    m.mode = .reliable ↔ m.packetType = .data := by
  unfold mode
  split <;> simp_all

/-- A fragment that finds room is one move. -/
theorem EngineState.FragmentQueued.move {config : EngineConfig} {call : Call} {m : SentMessage} {i : Nat}
    {st st' : EngineState} (h : FragmentQueued config m i st st')
    (haccepted : call.accepted config = some m) (hi : i < m.count config)
    (hclock : st.clock = call.before.clock) :
    SendMove config call st.sendSide st'.sendSide := by
  refine .fragment m i haccepted hi h.pushed ?_ ?_
  · intro hdata p
    rw [h.tracked (m.mode_eq_reliable_iff.mpr hdata) p, hclock]
    simp
  · intro hlog
    exact h.untracked fun hmode => hlog (m.mode_eq_reliable_iff.mp hmode)

/-- **Every call is a sequence of moves, and a poll takes one thing out behind them.** -/
theorem Call.sendMoves (config : EngineConfig) (call : Call) : CallMoves config call := by
  by_cases hpoll : ∃ nowMs txLen, call.op = .poll nowMs txLen
  · obtain ⟨nowMs, txLen, hop⟩ := hpoll
    obtain ⟨st, op⟩ := call
    obtain rfl : op = .poll nowMs txLen := hop
    have hframe : TickFrame (st.advanceClock config nowMs) (st.tickRetransmit config nowMs) :=
      st.tickRetransmit_frame nowMs
    exact .polled nowMs txLen (st.tickRetransmit config nowMs) rfl hframe.ack
      (tickRetransmit_moves config st nowMs txLen) (pollOutput_spec config _ nowMs txLen)
  · refine .quiet (fun nowMs txLen hop => hpoll ⟨nowMs, txLen, hop⟩) ?_
    cases call.sendStep config with
    | untouched _ hscheduler hrecovery =>
      rw [show (call.after config).sendSide = call.before.sendSide by
        rw [sendSide, hscheduler, hrecovery]; rfl]
    | liveness packetType priority hkind _ hpushed hrecovery =>
      rw [show (call.after config).sendSide =
        ⟨(call.after config).scheduler, call.before.recovery⟩ by rw [sendSide, hrecovery]]
      exact .single (.liveness packetType priority hkind hpushed)
    | acked bytes key hop hdec _ _ hscheduler hrecovery =>
      rw [show (call.after config).sendSide =
        ⟨call.before.scheduler, call.before.recovery.applyAck key⟩ by
          rw [sendSide, hscheduler, hrecovery]]
      exact .single (.acked bytes key hop hdec)
    | polled nowMs txLen _ hop => exact absurd ⟨nowMs, txLen, hop⟩ hpoll
    | sent m haccepted _ _ _ _ hroom hafter =>
      rw [hafter]
      refine (queueMessage_induction (motive := fun _ st => st.clock = call.before.clock ∧
        SendMoves config call call.before.sendSide st.sendSide) hroom ⟨?_, ?_⟩ ?_).2
      · exact clock_withNextId _
      · rw [show call.before.withNextId.sendSide = call.before.sendSide by
          rw [sendSide, scheduler_withNextId, recovery_withNextId]; rfl]
      · rintro i st st' hi ⟨hclock, hmoves⟩ hqueued
        exact ⟨hqueued.frame.clock.trans hclock,
          hmoves.tail (hqueued.move haccepted hi hclock)⟩

end Msrt
