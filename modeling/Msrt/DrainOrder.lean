import Msrt.Draining
import Msrt.KeepAlive

/-! # The order in which polls return what waits

A poll returns one thing: acknowledgements first, then control writes, retransmissions and failures, then
complete messages, and first transmissions last.  `EngineState.waitingList` is what waits, in that order.
A poll takes its head (`pollOutput_takes`), so polls at one time return the list from front to back and
are idle from its end on (`drain_in_order`): nothing is returned twice, nothing is left out, and no event
overtakes one that is more urgent.
-/

namespace Msrt
open EngineState

/-! ## What waits -/

/-- One thing that a poll may return. -/
inductive Waiting where
  | ack (key : PacketKey)
  | event (event : EngineOutput)
  | message (message : MessageEvent)

namespace Waiting

/-- What a poll with a large enough buffer makes of it. -/
def action (integrity : IntegrityConfig) : Waiting → EnginePoll
  | .ack key => .transmit (envelope integrity (ackPacketBytes key)) 0
  | .event (.write write) => .transmit write.wire.bytes write.attempts
  | .event (.sendFailed failed) => .sendFailed failed
  | .message complete => .message complete

/-- The recovery state behind it: a transmission is noted. -/
def note (nowMs : Nat) (r : RecoveryState) : Waiting → RecoveryState
  | .event (.write write) => r.noteWrite write nowMs
  | _ => r

end Waiting

/-- The events that go before deliveries, in their order. -/
def SchedulerState.urgent (s : SchedulerState) : List EngineOutput :=
  s.events .control ++ s.events .retransmit ++ s.events .local

/-- What waits for a poll, in the order of the polls. -/
def EngineState.waitingList (st : EngineState) : List Waiting :=
  (RingQueue.toList st.ack).map .ack ++ st.scheduler.urgent.map .event ++
    (RingQueue.toList st.message).map .message ++ (st.scheduler.events .newData).map .event

theorem EngineState.length_waitingList (st : EngineState) : st.waitingList.length = st.waiting := by
  have hack : (RingQueue.toList st.ack).length = st.ack.len := RingQueue.length_toList _
  have hmessage : (RingQueue.toList st.message).length = st.message.len := RingQueue.length_toList _
  simp only [waitingList, SchedulerState.urgent, SchedulerState.events, List.length_append,
    List.length_map, RingQueue.length_toList, waiting, SchedulerState.len, hack, hmessage]
  omega

/-! ## One poll -/

/-- An urgent event is the first of the urgent events, and new data keeps its place. -/
theorem SchedulerState.popUrgent_eq (s : SchedulerState) :
    s.popUrgent.1 = s.urgent.head? ∧ s.popUrgent.2.urgent = s.urgent.tail ∧
      s.popUrgent.2.events .newData = s.events .newData := by
  have hpop (q : EventQueue) : q.pop.1 = (RingQueue.toList q).head? ∧
      RingQueue.toList q.pop.2 = (RingQueue.toList q).tail :=
    ⟨RingQueue.fst_pop q, RingQueue.toList_pop q⟩
  obtain ⟨hcontrolFst, hcontrolSnd⟩ := hpop s.control
  obtain ⟨hretransmitFst, hretransmitSnd⟩ := hpop s.retransmit
  obtain ⟨hlocalFst, hlocalSnd⟩ := hpop s.localQueue
  cases hcontrol : RingQueue.toList s.control with
  | cons event events =>
    rw [hcontrol] at hcontrolFst hcontrolSnd
    have hurgent : s.popUrgent = (some event, s.popControl) := by
      rw [popUrgent, hcontrolFst]
      rfl
    rw [hurgent]
    refine ⟨?_, ?_, rfl⟩
    · simp [urgent, SchedulerState.events, hcontrol]
    · simp [urgent, SchedulerState.events, popControl, hcontrol, hcontrolSnd]
  | nil =>
    rw [hcontrol] at hcontrolFst hcontrolSnd
    have hsame : s.popControl.retransmit.pop.1 = (RingQueue.toList s.retransmit).head? :=
      hretransmitFst
    cases hretransmit : RingQueue.toList s.retransmit with
    | cons event events =>
      rw [hretransmit] at hretransmitSnd hsame
      have hurgent : s.popUrgent = (some event, s.popControl.popRetransmit) := by
        rw [popUrgent, hcontrolFst]
        dsimp only [List.head?_nil]
        rw [hsame]
        rfl
      rw [hurgent]
      refine ⟨?_, ?_, rfl⟩
      · simp [urgent, SchedulerState.events, hcontrol, hretransmit]
      · simp [urgent, SchedulerState.events, popControl, popRetransmit, hcontrol, hcontrolSnd,
          hretransmit, hretransmitSnd]
    | nil =>
      rw [hretransmit] at hretransmitSnd hsame
      have hurgent : s.popUrgent = (s.localQueue.pop.1, s.popControl.popRetransmit.popLocal) := by
        rw [popUrgent, hcontrolFst]
        dsimp only [List.head?_nil]
        rw [hsame]
        rfl
      rw [hurgent]
      refine ⟨?_, ?_, rfl⟩
      · simp [urgent, SchedulerState.events, hcontrol, hretransmit, hlocalFst]
      · simp [urgent, SchedulerState.events, popControl, popRetransmit, popLocal, hcontrol,
          hcontrolSnd, hretransmit, hretransmitSnd, hlocalSnd]

/-- A poll takes the head of what waits. -/
inductive Takes (config : EngineConfig) (nowMs : Nat) (st st' : EngineState)
    (result : Except Error EnginePoll) : Prop
  | nothing : st.waitingList = [] → st'.waitingList = [] → st'.recovery = st.recovery →
      result = .ok .idle → Takes config nowMs st st' result
  | one (item : Waiting) : st.waitingList = item :: st'.waitingList →
      st'.recovery = item.note nowMs st.recovery →
      result = .ok (item.action config.integrity) → Takes config nowMs st st' result

namespace EngineState
variable {config : EngineConfig} {st : EngineState} {nowMs txLen : Nat}

/-- An event that was taken out is transmitted or reported. -/
theorem pollEvent_takes {taken : EngineState} (htx : maxWireBytes ≤ txLen) (event : EngineOutput)
    (hlist : st.waitingList = .event event :: taken.waitingList)
    (hrecovery : taken.recovery = st.recovery) :
    Takes config nowMs st (taken.pollEvent event nowMs txLen).1
      (taken.pollEvent event nowMs txLen).2 := by
  cases event with
  | sendFailed event => exact .one _ hlist hrecovery rfl
  | write write =>
    have hfits := write.wire.length_le
    have hpolled : taken.pollEvent (.write write) nowMs txLen =
        ({ taken with recovery := taken.recovery.noteWrite write nowMs },
          .ok (.transmit write.wire.bytes write.attempts)) := by
      rw [pollEvent, pollWrite, if_neg (by omega)]
      rfl
    rw [hpolled]
    refine .one _ hlist ?_ rfl
    show taken.recovery.noteWrite write nowMs = _
    rw [hrecovery]
    rfl

theorem not_isPending {acks : AckState} (h : RingQueue.toList acks = []) :
    ¬ AckState.isPending acks = true := by
  rw [AckState.isPending, (RingQueue.toList_eq_nil_iff acks).mp h]
  decide

/-- An acknowledgement goes first. -/
theorem pollOutput_of_acks (htx : maxWireBytes ≤ txLen) {key : PacketKey} {keys : List PacketKey}
    (hacks : RingQueue.toList st.ack = key :: keys) :
    st.pollOutput config nowMs txLen = ({ st with ack := (AckState.pop st.ack).2 },
      .ok (.transmit (envelope config.integrity (ackPacketBytes key)) 0)) := by
  have hpending : AckState.isPending st.ack = true := by
    have hlen : (RingQueue.toList st.ack).length = st.ack.len := RingQueue.length_toList _
    rw [hacks, List.length_cons] at hlen
    simp only [AckState.isPending, ← hlen]
    rfl
  rw [pollOutput, if_pos hpending, pollPendingAck, (ack_pop_cons hacks).1]
  dsimp only
  rw [encodeAckPacket_ok key config.integrity htx]

/-- Without acknowledgements and urgent events, deliveries and then new data go. -/
theorem pollOutput_of_calm (htx : maxWireBytes ≤ txLen) (hacks : RingQueue.toList st.ack = [])
    (hcalm : st.scheduler.urgent = []) :
    Takes config nowMs st (st.pollOutput config nowMs txLen).1
      (st.pollOutput config nowMs txLen).2 := by
  obtain ⟨hurgent, hrest, hnewData⟩ := st.scheduler.popUrgent_eq
  rw [hcalm] at hurgent hrest
  rw [List.tail_nil] at hrest
  have hnone : ¬ AckState.isPending st.ack = true := not_isPending hacks
  have hfst : (MessageState.pop st.message).1 = (RingQueue.toList st.message).head? :=
    RingQueue.fst_pop st.message
  have hsnd : RingQueue.toList (MessageState.pop st.message).2 =
      (RingQueue.toList st.message).tail := RingQueue.toList_pop st.message
  cases hmessages : RingQueue.toList st.message with
  | cons message messages =>
    rw [hmessages] at hfst hsnd
    have hpolled : st.pollOutput config nowMs txLen = ({ st with
        scheduler := st.scheduler.popUrgent.2, message := (MessageState.pop st.message).2 },
        .ok (.message message)) := by
      rw [pollOutput, if_neg hnone]
      dsimp only
      rw [hurgent]
      dsimp only [List.head?_nil]
      rw [hfst]
      rfl
    rw [hpolled]
    refine .one (.message message) ?_ rfl rfl
    simp only [waitingList, hacks, hrest, hnewData, hcalm, hmessages, hsnd, List.map_nil,
      List.map_cons, List.nil_append, List.cons_append, List.tail_cons]
  | nil =>
    rw [hmessages] at hfst hsnd
    have hnewFst : st.scheduler.popUrgent.2.newData.pop.1 = (st.scheduler.events .newData).head? := by
      rw [← hnewData]
      exact RingQueue.fst_pop st.scheduler.popUrgent.2.newData
    have hnewSnd : st.scheduler.popUrgent.2.popNewData.events .newData =
        (st.scheduler.events .newData).tail := by
      rw [← hnewData]
      exact RingQueue.toList_pop st.scheduler.popUrgent.2.newData
    have hstill : st.scheduler.popUrgent.2.popNewData.urgent = [] := hrest
    have hpolled : st.pollOutput config nowMs txLen = pollNewData { st with
        scheduler := st.scheduler.popUrgent.2, message := (MessageState.pop st.message).2 }
        nowMs txLen := by
      rw [pollOutput, if_neg hnone]
      dsimp only
      rw [hurgent]
      dsimp only [List.head?_nil]
      rw [hfst]
      rfl
    rw [hpolled, pollNewData, hnewFst]
    cases hnew : st.scheduler.events .newData with
    | nil =>
      rw [hnew] at hnewSnd
      refine .nothing ?_ ?_ rfl rfl
      · simp only [waitingList, hacks, hcalm, hmessages, hnew, List.map_nil, List.nil_append]
      · simp only [waitingList, hacks, hstill, hsnd, hnewSnd, List.head?_nil, List.map_nil,
          List.nil_append, List.tail_nil]
    | cons event events =>
      rw [hnew] at hnewSnd
      apply pollEvent_takes htx
      · simp only [waitingList, hacks, hcalm, hmessages, hnew, hstill, hsnd, hnewSnd,
          List.map_nil, List.map_cons, List.nil_append, List.tail_nil, List.tail_cons]
      · rfl

/-- **Behind the tick a poll takes the head of what waits.** -/
theorem pollOutput_takes (config : EngineConfig) (st : EngineState) (nowMs : Nat) {txLen : Nat}
    (htx : maxWireBytes ≤ txLen) :
    Takes config nowMs st (st.pollOutput config nowMs txLen).1
      (st.pollOutput config nowMs txLen).2 := by
  cases hacks : RingQueue.toList st.ack with
  | cons key keys =>
    rw [pollOutput_of_acks htx hacks]
    refine .one (.ack key) ?_ rfl rfl
    simp only [waitingList, hacks, (ack_pop_cons hacks).2, List.map_cons, List.cons_append]
  | nil =>
    have hnone : ¬ AckState.isPending st.ack = true := not_isPending hacks
    obtain ⟨hurgent, hrest, hnewData⟩ := st.scheduler.popUrgent_eq
    cases hevents : st.scheduler.urgent with
    | cons event events =>
      have hpolled : st.pollOutput config nowMs txLen =
          pollEvent { st with scheduler := st.scheduler.popUrgent.2 } event nowMs txLen := by
        rw [pollOutput, if_neg hnone]
        dsimp only
        rw [hurgent, hevents]
        rfl
      rw [hpolled]
      apply pollEvent_takes htx
      · simp only [waitingList, hacks, hrest, hnewData, hevents, List.map_nil, List.map_cons,
          List.nil_append, List.cons_append, List.tail_cons]
      · rfl
    | nil => exact pollOutput_of_calm htx hacks hevents

/-! ## Polls at one time -/

/-- Polls at one time, given the lengths of their buffers: the state behind them and their results. -/
def drain (config : EngineConfig) (nowMs : Nat) :
    EngineState → List Nat → EngineState × List (Except Error EnginePoll)
  | st, [] => (st, [])
  | st, txLen :: txLens =>
    let polled := st.poll config nowMs txLen
    let rest := drain config nowMs polled.1 txLens
    (rest.1, polled.2 :: rest.2)

/-- The first `count` results when `list` waits. -/
def drainResults (integrity : IntegrityConfig) (list : List Waiting) (count : Nat) :
    List (Except Error EnginePoll) :=
  (list.map (fun item : Waiting => Except.ok (item.action integrity)) ++
    List.replicate count (Except.ok EnginePoll.idle)).take count

theorem drainResults_nil (integrity : IntegrityConfig) (count : Nat) :
    drainResults integrity [] (count + 1) = .ok .idle :: drainResults integrity [] count := by
  simp [drainResults, List.replicate_succ]

theorem drainResults_cons (integrity : IntegrityConfig) (item : Waiting) (items : List Waiting)
    (count : Nat) : drainResults integrity (item :: items) (count + 1) =
      .ok (item.action integrity) :: drainResults integrity items count := by
  simp only [drainResults, List.map_cons, List.cons_append, List.take_succ_cons, List.cons.injEq,
    true_and]
  rw [List.replicate_succ', ← List.append_assoc, List.take_append_of_le_length]
  rw [List.length_append, List.length_replicate]
  exact Nat.le_add_left _ _

/-- What polls at one time do to the list of what waits, to the recovery state and to their results. -/
structure DrainedBy (config : EngineConfig) (nowMs : Nat) (st : EngineState) (count : Nat)
    (drained : EngineState × List (Except Error EnginePoll)) : Prop where
  results : drained.2 = drainResults config.integrity st.waitingList count
  waitingList : drained.1.waitingList = st.waitingList.drop count
  recovery : drained.1.recovery = (st.waitingList.take count).foldl (Waiting.note nowMs) st.recovery
  lastTickMs : drained.1.recovery.lastTickMs = some nowMs

theorem drainedBy_of_ticked (hticked : st.recovery.lastTickMs = some nowMs) {txLens : List Nat}
    (htx : ∀ txLen ∈ txLens, maxWireBytes ≤ txLen) :
    DrainedBy config nowMs st txLens.length (st.drain config nowMs txLens) := by
  -- on the polls: the tick of the time has run, so each one only takes the head of the list
  induction txLens generalizing st with
  | nil => exact ⟨rfl, rfl, rfl, hticked⟩
  | cons txLen txLens ih =>
    have hwait : (st.advanceClock config nowMs).waitingList = st.waitingList := rfl
    have htakes := pollOutput_takes config (st.advanceClock config nowMs) nowMs
      (htx txLen List.mem_cons_self)
    have hpoll : st.poll config nowMs txLen =
        (st.advanceClock config nowMs).pollOutput config nowMs txLen := by
      rw [poll, tickRetransmit_of_eq hticked]
    have hlast := lastTickMs_poll config st nowMs txLen
    have hrest := ih hlast fun other hmem => htx other (List.mem_cons_of_mem _ hmem)
    rw [← hpoll] at htakes
    rw [drain, List.length_cons]
    cases htakes with
    | nothing hempty hafter hrecovery hresult =>
      rw [hwait] at hempty
      have hresults := hrest.results
      have hlist := hrest.waitingList
      have hnoted := hrest.recovery
      rw [hafter] at hresults hlist hnoted
      refine ⟨?_, ?_, ?_, hrest.lastTickMs⟩
      · rw [hempty, drainResults_nil, hresult, hresults]
      · rw [hempty]
        simpa using hlist
      · rw [hempty]
        rw [List.take_nil, List.foldl_nil] at hnoted ⊢
        exact hnoted.trans hrecovery
    | one item hlist hrecovery hresult =>
      rw [hwait] at hlist
      refine ⟨?_, ?_, ?_, hrest.lastTickMs⟩
      · rw [hlist, drainResults_cons, hresult, hrest.results]
      · rw [hlist, List.drop_succ_cons]
        exact hrest.waitingList
      · rw [hlist, List.take_succ_cons, List.foldl_cons]
        refine hrest.recovery.trans ?_
        rw [hrecovery]
        rfl

theorem drain_cons_eq (st : EngineState) (txLen : Nat) (txLens : List Nat) :
    st.drain config nowMs (txLen :: txLens) =
      (st.tickRetransmit config nowMs).drain config nowMs (txLen :: txLens) := by
  have hagain : (st.tickRetransmit config nowMs).tickRetransmit config nowMs =
      st.tickRetransmit config nowMs := by
    by_cases htick : st.recovery.lastTickMs = some nowMs
    · have hclock : (st.advanceClock config nowMs).recovery.lastTickMs = some nowMs := htick
      rw [tickRetransmit_of_eq htick, tickRetransmit_of_eq hclock]
      exact advanceClock_eq_self rfl (expire_expire _ _ _)
    · exact tickRetransmit_again htick
  have hpoll : st.poll config nowMs txLen =
      (st.tickRetransmit config nowMs).poll config nowMs txLen := by rw [poll, poll, hagain]
  rw [drain, drain, hpoll]

/-- **Polls at one time return what waits behind the tick, from front to back, and then are idle.** -/
theorem drain_in_order (config : EngineConfig) (st : EngineState) (nowMs : Nat) {txLens : List Nat}
    (hne : txLens ≠ []) (htx : ∀ txLen ∈ txLens, maxWireBytes ≤ txLen) :
    DrainedBy config nowMs (st.tickRetransmit config nowMs) txLens.length
      (st.drain config nowMs txLens) := by
  obtain ⟨txLen, rest, rfl⟩ := List.exists_cons_of_ne_nil hne
  rw [drain_cons_eq]
  exact drainedBy_of_ticked (lastTickMs_tickRetransmit config st nowMs) htx

end EngineState

/-- The state once a message of one byte was transmitted. -/
def unansweredState : EngineState :=
  (runOps .default unansweredScript (.new EngineConfig.default.initialMessageId)).2

/-- Behind the timeout two polls return the retransmission and then nothing. -/
theorem drain_in_order_unanswered :
    (unansweredState.tickRetransmit .default 5000).waitingList.length = 1 ∧
      DrainedBy .default 5000 (unansweredState.tickRetransmit .default 5000) 2
        (unansweredState.drain .default 5000 [128, 128]) := by
  refine ⟨by decide +kernel, ?_⟩
  have hlong : ∀ txLen ∈ [128, 128], maxWireBytes ≤ txLen := by decide
  exact drain_in_order .default unansweredState 5000 (List.cons_ne_nil _ _) hlong

end Msrt
