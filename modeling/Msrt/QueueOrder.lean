import Msrt.QueuedWrites

/-! # Which queue a write stands in

A push looks for a queued write of the same key in all four queues and exchanges it in place, whatever
packet it carries.  PING and PONG share the zero key, so a PONG can overwrite a queued PING and wait in
its place among new data.  While no push meets a write of another packet under its own key
(`Call.apart`), a push destroys no other packet's output, every event stands in the queue of its
priority, and a poll takes no new data while a PONG waits (`writes_kept_apart`).
-/

namespace Msrt
open EngineState

/-! ## Queues by name -/

namespace SchedulerState

/-- Every event stands in the queue of its priority. -/
def Sorted (s : SchedulerState) : Prop :=
  ∀ kind, ∀ event ∈ s.events kind, queueForEvent event = kind

variable {s s' : SchedulerState} {event : EngineOutput}

/-- What a push does to the queues. -/
inductive Placed (s : SchedulerState) (event : EngineOutput) (s' : SchedulerState) : Prop
  | replaced (kind : QueueKind) (before after : List EngineOutput) (write old : WriteEvent) :
      event = .write write → old.key = write.key →
      s.events kind = before ++ .write old :: after →
      s'.events kind = before ++ .write write :: after →
      (∀ other, other ≠ kind → s'.events other = s.events other) → Placed s event s'
  | added : s'.events (queueForEvent event) = s.events (queueForEvent event) ++ [event] →
      (∀ other, other ≠ queueForEvent event → s'.events other = s.events other) →
      Placed s event s'

theorem push_placed (h : s.push event = .ok s') : Placed s event s' := by
  cases hreplaced : s.replaceRedundantWrite event with
  | some s₁ =>
    obtain rfl := eq_of_push_of_replaced hreplaced h
    obtain ⟨kind, write, old, before, after, he, hkey, hold, hnew, hothers⟩ :=
      replaceRedundantWrite_split hreplaced
    exact .replaced kind before after write old he hkey hold hnew hothers
  | none =>
    obtain ⟨-, hqueue, hothers⟩ := appended_of_push hreplaced h
    exact .added hqueue hothers

end SchedulerState

/-! ## Pushes that destroy nothing -/

/-- The packet type in the envelope of a write. -/
def WriteEvent.packetCode (w : WriteEvent) : Option UInt8 := (envelopePacket w.wire.bytes).head?

/-- The event is a retransmission of the packet that `w` carries. -/
def EngineOutput.Retransmits (event : EngineOutput) (w : WriteEvent) : Prop :=
  ∃ write, event = .write write ∧ write.priority = .retransmit ∧ write.key = w.key ∧
    write.packetCode = w.packetCode

namespace SchedulerState
variable {s s' : SchedulerState} {event : EngineOutput}

/-- A queued write of the key of `event` is the same write, or an earlier retransmission of the
packet that `event` retransmits. -/
def Harmless (s : SchedulerState) (event : EngineOutput) : Prop :=
  ∀ write w, event = .write write → .write w ∈ s.queued → w.key = write.key →
    w.priority = write.priority ∧ (w = write ∨ write.priority = .retransmit ∧ w.wire = write.wire)

/-- The queue a harmless push changes is that of its event. -/
theorem Placed.queue_eq (hs : s.Sorted) (hh : s.Harmless event) (h : Placed s event s') :
    (∀ other, other ≠ queueForEvent event → s'.events other = s.events other) ∧
      ∀ e ∈ s'.events (queueForEvent event),
        e = event ∨ e ∈ s.events (queueForEvent event) := by
  cases h with
  | added hlist hothers =>
    refine ⟨hothers, ?_⟩
    intro e he
    rw [hlist] at he
    rcases List.mem_append.mp he with he | he
    · exact .inr he
    · exact .inl (List.mem_singleton.mp he)
  | replaced kind before after write old he hkey hlist hlist' hothers =>
    have hold : .write old ∈ s.events kind := by simp [hlist]
    obtain ⟨hpriority, -⟩ := hh write old he (mem_queued_iff.mpr ⟨kind, hold⟩) hkey
    have hkind : queueForEvent event = kind := by
      rw [he, ← hs kind _ hold]
      simp only [queueForEvent, hpriority]
    rw [hkind]
    refine ⟨hothers, ?_⟩
    intro e hmem
    rw [hlist'] at hmem
    rw [hlist, he]
    simp only [List.mem_append, List.mem_cons] at hmem ⊢
    rcases hmem with hmem | rfl | hmem
    · exact .inr (.inl hmem)
    · exact .inl rfl
    · exact .inr (.inr (.inr hmem))

theorem Placed.sorted (hs : s.Sorted) (hh : s.Harmless event) (h : Placed s event s') : s'.Sorted := by
  obtain ⟨hothers, hown⟩ := h.queue_eq hs hh
  intro kind e he
  by_cases hkind : kind = queueForEvent event
  · subst hkind
    rcases hown e he with rfl | he
    · rfl
    · exact hs _ e he
  · rw [hothers kind hkind] at he
    exact hs kind e he

/-- A harmless push keeps every write but an earlier retransmission of its own packet. -/
theorem Placed.kept (hh : s.Harmless event) (h : Placed s event s') {w : WriteEvent}
    (hw : .write w ∈ s.queued) : .write w ∈ s'.queued ∨ event.Retransmits w := by
  obtain ⟨kind', hw'⟩ := mem_queued_iff.mp hw
  cases h with
  | added hlist hothers =>
    refine .inl (mem_queued_iff.mpr ⟨kind', ?_⟩)
    by_cases hkind : kind' = queueForEvent event
    · rw [hkind] at hw' ⊢
      rw [hlist]
      exact List.mem_append_left _ hw'
    · rw [hothers kind' hkind]
      exact hw'
  | replaced kind before after write old he hkey hlist hlist' hothers =>
    by_cases hkind : kind' = kind
    · subst hkind
      rw [hlist] at hw'
      simp only [List.mem_append, List.mem_cons] at hw'
      rcases hw' with hw' | hw' | hw'
      · exact .inl (mem_queued_iff.mpr ⟨kind', by simp [hlist', hw']⟩)
      · obtain rfl := EngineOutput.write.inj hw'
        rcases (hh write w he hw hkey).2 with rfl | ⟨hpriority, hwire⟩
        · exact .inl (mem_queued_iff.mpr ⟨kind', by simp [hlist']⟩)
        · refine .inr ⟨write, he, hpriority, hkey.symm, ?_⟩
          rw [WriteEvent.packetCode, WriteEvent.packetCode, hwire]
      · exact .inl (mem_queued_iff.mpr ⟨kind', by simp [hlist', hw']⟩)
    · refine .inl (mem_queued_iff.mpr ⟨kind', ?_⟩)
      rw [hothers kind' hkind]
      exact hw'

/-- A push that may be refused. -/
theorem pushIgnored_placed (s : SchedulerState) (event : EngineOutput) :
    Placed s event (s.pushIgnored event) ∨ s.pushIgnored event = s := by
  unfold pushIgnored
  split
  · rename_i hpush
    exact .inl (push_placed hpush)
  · exact .inr rfl

theorem Sorted.push (hs : s.Sorted) (hh : s.Harmless event) : (s.pushIgnored event).Sorted := by
  rcases s.pushIgnored_placed event with h | h
  · exact h.sorted hs hh
  · rw [h]
    exact hs

theorem kept_of_harmless (hh : s.Harmless event) {w : WriteEvent} (hw : .write w ∈ s.queued) :
    .write w ∈ (s.pushIgnored event).queued ∨ event.Retransmits w := by
  rcases s.pushIgnored_placed event with h | h
  · exact h.kept hh hw
  · rw [h]
    exact .inl hw

/-! ## Several pushes -/

theorem mem_queued_foldl {events : List EngineOutput} {e : EngineOutput}
    (he : e ∈ (events.foldl pushIgnored s).queued) : e ∈ s.queued ∨ e ∈ events := by
  induction events generalizing s with
  | nil => exact .inl he
  | cons event events ih =>
    rcases ih he with he | he
    · rcases mem_pushIgnored he with rfl | he
      · exact .inr List.mem_cons_self
      · exact .inl he
    · exact .inr (List.mem_cons_of_mem _ he)

/-- Of events with distinct keys, each is as harmless behind the others as it was at first. -/
theorem harmless_foldl {before after : List EngineOutput}
    (hkeys : ((before ++ event :: after).filterMap EngineOutput.writeKey?).Nodup)
    (hh : s.Harmless event) : (before.foldl pushIgnored s).Harmless event := by
  intro write w he hw hkey
  rcases mem_queued_foldl hw with hw | hw
  · exact hh write w he hw hkey
  · rw [List.filterMap_append, he] at hkeys
    have hdisjoint := (List.nodup_append.mp hkeys).2.2
    refine absurd hkey (hdisjoint w.key ?_ write.key ?_)
    · exact List.mem_filterMap.mpr ⟨.write w, hw, rfl⟩
    · exact List.mem_filterMap.mpr ⟨.write write, List.mem_cons_self, rfl⟩

theorem Sorted.pushAll {events : List EngineOutput} (hs : s.Sorted)
    (hkeys : (events.filterMap EngineOutput.writeKey?).Nodup)
    (hh : ∀ event ∈ events, s.Harmless event) : (events.foldl pushIgnored s).Sorted := by
  induction events using List.reverseRecOn with
  | nil => exact hs
  | append_singleton events event ih =>
    rw [List.foldl_append]
    refine Sorted.push (ih ?_ fun e he => hh e (List.mem_append_left _ he)) ?_
    · rw [List.filterMap_append] at hkeys
      exact (List.nodup_append.mp hkeys).1
    · exact harmless_foldl hkeys (hh event (by simp))

/-- Harmless pushes into other queues leave a queue alone. -/
theorem events_foldl {events : List EngineOutput} (hs : s.Sorted)
    (hkeys : (events.filterMap EngineOutput.writeKey?).Nodup)
    (hh : ∀ event ∈ events, s.Harmless event) {kind : QueueKind}
    (hkind : ∀ event ∈ events, queueForEvent event ≠ kind) :
    (events.foldl pushIgnored s).events kind = s.events kind := by
  induction events using List.reverseRecOn with
  | nil => rfl
  | append_singleton events event ih =>
    have hevent : event ∈ events ++ [event] := by simp
    have hkeys' : (events.filterMap EngineOutput.writeKey?).Nodup := by
      rw [List.filterMap_append] at hkeys
      exact (List.nodup_append.mp hkeys).1
    have hsame := ih hkeys' (fun e he => hh e (List.mem_append_left _ he))
      (fun e he => hkind e (List.mem_append_left _ he))
    rw [List.foldl_append]
    show ((events.foldl pushIgnored s).pushIgnored event).events kind = _
    rw [← hsame]
    rcases (events.foldl pushIgnored s).pushIgnored_placed event with h | h
    · refine (h.queue_eq ?_ (harmless_foldl hkeys (hh event hevent))).1 kind (hkind event hevent).symm
      exact Sorted.pushAll hs hkeys' fun e he => hh e (List.mem_append_left _ he)
    · rw [h]

end SchedulerState

/-! ## Taking events out -/

theorem EventQueue.toList_pop_suffix (q : EventQueue) :
    RingQueue.toList q.pop.2 <:+ RingQueue.toList q := by
  rw [show RingQueue.toList q.pop.2 = (RingQueue.toList q).tail from RingQueue.toList_pop q]
  exact List.tail_suffix _

namespace SchedulerState

theorem events_popControl (s : SchedulerState) (kind : QueueKind) :
    s.popControl.events kind <:+ s.events kind := by
  rcases kind with _ | _ | _ | _
  · exact EventQueue.toList_pop_suffix s.control
  all_goals exact List.suffix_refl _

theorem events_popRetransmit (s : SchedulerState) (kind : QueueKind) :
    s.popRetransmit.events kind <:+ s.events kind := by
  rcases kind with _ | _ | _ | _
  · exact List.suffix_refl _
  · exact EventQueue.toList_pop_suffix s.retransmit
  all_goals exact List.suffix_refl _

theorem events_popNewData (s : SchedulerState) (kind : QueueKind) :
    s.popNewData.events kind <:+ s.events kind := by
  rcases kind with _ | _ | _ | _
  · exact List.suffix_refl _
  · exact List.suffix_refl _
  · exact EventQueue.toList_pop_suffix s.newData
  · exact List.suffix_refl _

theorem events_popLocal (s : SchedulerState) (kind : QueueKind) :
    s.popLocal.events kind <:+ s.events kind := by
  rcases kind with _ | _ | _ | _
  · exact List.suffix_refl _
  · exact List.suffix_refl _
  · exact List.suffix_refl _
  · exact EventQueue.toList_pop_suffix s.localQueue

theorem events_popUrgent (s : SchedulerState) (kind : QueueKind) :
    s.popUrgent.2.events kind <:+ s.events kind := by
  have hcontrol := s.events_popControl kind
  have hretransmit := s.popControl.events_popRetransmit kind
  unfold popUrgent
  split
  · exact hcontrol
  · split
    · exact hretransmit.trans hcontrol
    · exact ((s.popControl.popRetransmit.events_popLocal kind).trans hretransmit).trans hcontrol

/-- With a control event queued, the urgent event is that one. -/
theorem popUrgent_of_control {s : SchedulerState} (h : s.events .control ≠ []) :
    ∃ event, s.popUrgent = (some event, s.popControl) := by
  obtain ⟨event, hevent⟩ : ∃ event, s.control.pop.1 = some event := by
    have hhead : s.control.pop.1 = (s.events .control).head? := RingQueue.fst_pop s.control
    rw [hhead, List.head?_eq_some_head h]
    exact ⟨_, rfl⟩
  refine ⟨event, ?_⟩
  unfold popUrgent
  rw [hevent]

end SchedulerState

section Output
variable (config : EngineConfig) (st : EngineState) (nowMs txLen : Nat)

theorem scheduler_pollEvent (event : EngineOutput) :
    (st.pollEvent event nowMs txLen).1.scheduler = st.scheduler := by
  unfold pollEvent pollWrite
  split
  · split <;> rfl
  · rfl

theorem scheduler_pollPendingAck :
    (st.pollPendingAck config txLen).1.scheduler = st.scheduler := by
  unfold pollPendingAck
  dsimp only
  split
  · rfl
  · split <;> rfl

/-- A poll takes events out at the front of the queues. -/
theorem events_pollOutput (kind : QueueKind) :
    (st.pollOutput config nowMs txLen).1.scheduler.events kind <:+ st.scheduler.events kind := by
  unfold pollOutput
  split
  · rw [scheduler_pollPendingAck]
  · dsimp only
    have hurgent := st.scheduler.events_popUrgent kind
    split
    · rw [scheduler_pollEvent]
      exact hurgent
    · split
      · exact hurgent
      · refine List.IsSuffix.trans ?_ hurgent
        unfold pollNewData
        dsimp only
        split
        · exact SchedulerState.events_popNewData _ kind
        · rw [scheduler_pollEvent]
          exact SchedulerState.events_popNewData _ kind

/-- With a control event queued, a poll leaves new data alone. -/
theorem newData_pollOutput {st : EngineState} (h : st.scheduler.events .control ≠ []) :
    (st.pollOutput config nowMs txLen).1.scheduler.events .newData =
      st.scheduler.events .newData := by
  unfold pollOutput
  split
  · rw [scheduler_pollPendingAck]
  · obtain ⟨event, hurgent⟩ := SchedulerState.popUrgent_of_control h
    dsimp only
    rw [hurgent]
    dsimp only
    rw [scheduler_pollEvent]
    rfl

end Output

/-! ## The pushes of a call -/

/-- The write an event asks for. -/
def EngineOutput.write? : EngineOutput → Option WriteEvent
  | .write w => some w
  | .sendFailed _ => none

theorem EngineOutput.write?_eq_some {event : EngineOutput} {w : WriteEvent} :
    event.write? = some w ↔ event = .write w := by
  cases event <;> simp [write?]

/-- The queued writes. -/
def SchedulerState.writes (s : SchedulerState) : List WriteEvent :=
  (s.events .control ++ s.events .retransmit ++ s.events .newData ++ s.events .local).filterMap
    EngineOutput.write?

theorem SchedulerState.mem_writes {s : SchedulerState} {w : WriteEvent} :
    w ∈ s.writes ↔ .write w ∈ s.queued := by
  simp only [writes, List.mem_filterMap, EngineOutput.write?_eq_some, exists_eq_right,
    List.mem_append, queued, Multiset.mem_add, Multiset.mem_coe, events]

section Pushes
variable (config : EngineConfig)

namespace Call

/-- The events a call pushes into the scheduler, in order. -/
def pushEvents (call : Call) : List EngineOutput :=
  match call.op with
  | .send _ _ =>
    match call.accepted config with
    | some m => (List.range (m.count config)).map fun i => .write (m.writeEvent config i)
    | none => []
  | .sendPing => [.write (livenessWrite config.integrity .ping .newData)]
  | .packet bytes =>
    match decodePacketBytes bytes with
    | .ping => [.write (livenessWrite config.integrity .pong .control)]
    | _ => []
  | .poll nowMs _ =>
    if call.before.recovery.lastTickMs = some nowMs then []
    else
      let scan := call.before.tickScan config nowMs
      scan.failures.map (fun p => .sendFailed (failureOf p)) ++
        (scan.retransmits.filter fun p => !scan.failedMessages.contains p.message).map
          fun p => .write (retransmitWrite p)

/-- The state whose scheduler the pushes of a call leave: a poll takes something out behind them. -/
def pushedState (call : Call) : EngineState :=
  match call.op with
  | .poll nowMs _ => call.before.tickRetransmit config nowMs
  | _ => call.after config

/-- No push of the call meets a queued write of another packet under its own key. -/
def apart (call : Call) : Bool :=
  let writes := call.before.scheduler.writes
  match call.op with
  | .send packetType message =>
    let m := call.before.nextMessage packetType message
    (List.range (m.count config)).all fun i => writes.all fun w => w.key != m.packetKey i
  | .sendPing => writes.all fun w =>
      w.key != .zero || w == livenessWrite config.integrity .ping .newData
  | .packet bytes =>
    match decodePacketBytes bytes with
    | .ping => writes.all fun w =>
        w.key != .zero || w == livenessWrite config.integrity .pong .control
    | _ => true
  | .poll nowMs _ =>
    call.before.recovery.lastTickMs == some nowMs || call.before.recovery.packets.all fun p =>
      !retryLeft config nowMs p || (call.before.recovery.packets.any fun q =>
        retryLimitReached config nowMs q && q.message == p.message) ||
      writes.all fun w => w.key != p.key || (w.priority == .retransmit && w.wire == p.wire)

end Call

end Pushes

section Pushes
variable {config : EngineConfig}

/-- The scheduler behind the fragments of a message. -/
theorem scheduler_foldl_queueOne (m : SentMessage) (indices : List Nat) (st : EngineState) :
    (indices.foldl (queueOne config m) st).scheduler =
      (indices.map fun i => EngineOutput.write (m.writeEvent config i)).foldl
        SchedulerState.pushIgnored st.scheduler := by
  induction indices generalizing st with
  | nil => rfl
  | cons i indices ih =>
    rw [List.foldl_cons, ih, List.map_cons, List.foldl_cons]
    congr 1
    show (st.queueFragment m.packetType m.mode (m.packetKey i) (m.wire config i)).1.scheduler = _
    unfold queueFragment SchedulerState.pushIgnored SentMessage.writeEvent
    split
    · rename_i hpush
      rw [hpush]
    · rename_i hpush
      rw [hpush]
      dsimp only
      split
      · split <;> rfl
      · rfl

theorem scheduler_queueLiveness (st : EngineState) (packetType : PacketType)
    (priority : WritePriority) :
    (st.queueLiveness config packetType priority).1.scheduler =
      st.scheduler.pushIgnored (.write (livenessWrite config.integrity packetType priority)) := by
  unfold queueLiveness SchedulerState.pushIgnored livenessWrite
  rw [encodeLivenessPacket_ok]
  dsimp only
  split
  · rename_i hpush
    rw [hpush]
  · rename_i hpush
    rw [hpush]

theorem scheduler_foldl_failMessage (failures : List InFlightPacket) (st : EngineState) :
    (failures.foldl failMessage st).scheduler =
      (failures.map fun p => EngineOutput.sendFailed (failureOf p)).foldl
        SchedulerState.pushIgnored st.scheduler := by
  induction failures generalizing st with
  | nil => rfl
  | cons p failures ih =>
    rw [List.foldl_cons, ih]
    rfl

theorem scheduler_foldl_queueRetransmit (failed : List (PacketType × MessageId))
    (packets : List InFlightPacket) (st : EngineState) :
    (packets.foldl (queueRetransmit failed) st).scheduler =
      ((packets.filter fun p => !failed.contains p.message).map fun p =>
        EngineOutput.write (retransmitWrite p)).foldl SchedulerState.pushIgnored st.scheduler := by
  induction packets generalizing st with
  | nil => rfl
  | cons p packets ih =>
    rw [List.foldl_cons, ih]
    by_cases hfailed : failed.contains p.message = true
    · have hskip : queueRetransmit failed st p = st := if_pos hfailed
      rw [hskip, List.filter_cons_of_neg (by simpa using hfailed)]
    · have hpush : queueRetransmit failed st p = { st with
          scheduler := st.scheduler.pushIgnored (.write (retransmitWrite p)) } := if_neg hfailed
      rw [hpush, List.filter_cons_of_pos (by simpa using hfailed)]
      rfl

/-- **The pushes of a call are all that happens to the scheduler**, up to what a poll takes out. -/
theorem Call.scheduler_pushed (config : EngineConfig) (call : Call) :
    (call.pushedState config).scheduler =
      (call.pushEvents config).foldl SchedulerState.pushIgnored call.before.scheduler := by
  obtain ⟨st, op⟩ := call
  cases op with
  | send packetType message =>
    have hresult := sendFragmentedMessage_result config st packetType message
    simp only [pushedState, pushEvents, after, accepted]
    generalize st.sendFragmentedMessage config packetType message = result at hresult ⊢
    cases hresult with
    | unsupported e => rfl
    | refused e => rw [scheduler_withNextId]; rfl
    | accepted hvalid hroom =>
      rw [← scheduler_withNextId st]
      exact scheduler_foldl_queueOne (st.nextMessage packetType message) _ st.withNextId
  | sendPing => exact scheduler_queueLiveness st .ping .newData
  | packet bytes =>
    cases hdec : decodePacketBytes bytes with
    | ping =>
      simp only [pushedState, pushEvents, hdec, after_ping config st hdec]
      exact scheduler_queueLiveness st .pong .control
    | data header fragment =>
      simp only [pushedState, pushEvents, after, receiveCompletePacket, hdec]
      exact (receiveData_frame st fragment).scheduler
    | log header fragment =>
      simp only [pushedState, pushEvents, after, receiveCompletePacket, hdec]
      exact (receiveLog_spec st fragment).1.frame.scheduler
    | ack | pong | malformed =>
      simp only [pushedState, pushEvents, after, receiveCompletePacket, hdec]
      rfl
  | poll nowMs txLen =>
    simp only [pushedState, pushEvents]
    by_cases htick : st.recovery.lastTickMs = some nowMs
    · rw [if_pos htick, tickRetransmit_of_eq htick]
      rfl
    · rw [if_neg htick, tickRetransmit_of_ne htick, scheduler_foldl_queueRetransmit,
        scheduler_foldl_failMessage, ← List.foldl_append]
      rfl

/-- The message a send accepts is the one its state was ready for. -/
theorem nextMessage_of_accepted {st : EngineState} {packetType : PacketType} {message : Bytes}
    {m : SentMessage} (h : Call.accepted config ⟨st, .send packetType message⟩ = some m) :
    m = st.nextMessage packetType message := by
  have hresult := sendFragmentedMessage_result config st packetType message
  simp only [Call.accepted] at h
  generalize st.sendFragmentedMessage config packetType message = result at hresult h
  cases hresult with
  | unsupported e => cases h
  | refused e => cases h
  | accepted => exact (Option.some.inj h).symm

/-! ### A call whose pushes are apart -/

section Apart
variable {call : Call} {calls : List Call}

/-- The events of a poll: failures, and retransmissions of packets in flight. -/
theorem Call.mem_pushEvents_poll {nowMs txLen : Nat} (hop : call.op = .poll nowMs txLen)
    {event : EngineOutput} (he : event ∈ call.pushEvents config) :
    call.before.recovery.lastTickMs ≠ some nowMs ∧ ((∃ p, event = .sendFailed (failureOf p)) ∨
      ∃ p ∈ call.before.recovery.packets, event = .write (retransmitWrite p) ∧
        retryLeft config nowMs p = true ∧ ∀ q ∈ call.before.recovery.packets,
          retryLimitReached config nowMs q = true → q.message ≠ p.message) := by
  simp only [pushEvents, hop] at he
  split at he
  · cases he
  · rename_i htick
    refine ⟨htick, ?_⟩
    have hcomplete := scanComplete_tickScan config nowMs call.before
    rcases List.mem_append.mp he with he | he
    · obtain ⟨p, -, rfl⟩ := List.mem_map.mp he
      exact .inl ⟨p, rfl⟩
    · obtain ⟨p, hp, rfl⟩ := List.mem_map.mp he
      obtain ⟨hp, hkept⟩ := List.mem_filter.mp hp
      have hp : p ∈ call.before.recovery.packets.filter (retryLeft config nowMs) :=
        hcomplete.retransmits ▸ hp
      obtain ⟨hmem, hleft⟩ := List.mem_filter.mp hp
      refine .inr ⟨p, hmem, rfl, hleft, ?_⟩
      intro q hq hlimit heq
      have hfailed := hcomplete.failed q hq hlimit
      rw [heq] at hfailed
      have hkept : p.message ∉ (call.before.tickScan config nowMs).failedMessages := by
        simpa using hkept
      exact hkept hfailed

/-- The keys a call pushes are distinct. -/
theorem Call.pushEvents_keys_nodup (config : EngineConfig) (call : Call) :
    ((call.pushEvents config).filterMap EngineOutput.writeKey?).Nodup := by
  obtain ⟨st, op⟩ := call
  cases op with
  | send packetType message =>
    cases haccepted : accepted config ⟨st, .send packetType message⟩ with
    | none => simp [pushEvents, haccepted]
    | some m =>
      have hcount := (accepted_valid haccepted).2
      simp only [pushEvents, haccepted, List.filterMap_map]
      rw [show (EngineOutput.writeKey? ∘ fun i => EngineOutput.write (m.writeEvent config i)) =
        fun i => some (m.packetKey i) from rfl, List.filterMap_eq_map']
      refine List.Nodup.map_on ?_ List.nodup_range
      intro i hi j hj h
      have hi := List.mem_range.mp hi
      have hj := List.mem_range.mp hj
      unfold maxEvents at hcount
      exact packetKey_inj (by omega) (by omega) h
  | sendPing => simp [pushEvents, EngineOutput.writeKey?]
  | packet bytes =>
    simp only [pushEvents]
    split <;> simp [EngineOutput.writeKey?]
  | poll nowMs txLen =>
    simp only [pushEvents]
    split
    · simp
    · have hcomplete := scanComplete_tickScan config nowMs st
      have hfailures : (st.tickScan config nowMs).failures.filterMap
          (EngineOutput.writeKey? ∘ fun p => EngineOutput.sendFailed (failureOf p)) = [] :=
        List.filterMap_eq_nil_iff.mpr fun _ _ => rfl
      rw [List.filterMap_append, List.filterMap_map, List.filterMap_map, hfailures, List.nil_append,
        show (EngineOutput.writeKey? ∘ fun p => EngineOutput.write (retransmitWrite p)) =
          fun p => some p.key from rfl, List.filterMap_eq_map',
        show (st.tickScan config nowMs).retransmits = _ from hcomplete.retransmits]
      exact st.recovery.inFlight.keys_nodup.sublist
        ((List.filter_sublist.trans List.filter_sublist).map _)

/-- A PING or a PONG that finds nothing but itself under the zero key. -/
theorem harmless_liveness {s : SchedulerState} {integrity : IntegrityConfig} {packetType : PacketType}
    {priority : WritePriority} (h : (s.writes.all fun w => w.key != .zero ||
      w == livenessWrite integrity packetType priority) = true) :
    s.Harmless (.write (livenessWrite integrity packetType priority)) := by
  intro write w he hw hkey
  obtain rfl := EngineOutput.write.inj he
  have hw := List.all_eq_true.mp h w (SchedulerState.mem_writes.mpr hw)
  simp only [Bool.or_eq_true, bne_iff_ne, beq_iff_eq] at hw
  obtain rfl := hw.resolve_left fun hne => hne hkey
  exact ⟨rfl, .inl rfl⟩

/-- **Pushes that are apart are harmless.** -/
theorem Call.harmless_of_apart (h : call.apart config = true) :
    ∀ event ∈ call.pushEvents config, call.before.scheduler.Harmless event := by
  intro event he
  obtain ⟨st, op⟩ := call
  cases op with
  | sendPing =>
    obtain rfl := List.mem_singleton.mp he
    exact harmless_liveness h
  | packet bytes =>
    simp only [apart, pushEvents] at h he
    cases hdec : decodePacketBytes bytes with
    | ping =>
      rw [hdec] at h he
      obtain rfl := List.mem_singleton.mp he
      exact harmless_liveness h
    | data | log | ack | pong | malformed =>
      rw [hdec] at he
      cases he
  | send packetType message =>
    cases haccepted : accepted config ⟨st, .send packetType message⟩ with
    | none =>
      simp only [pushEvents, haccepted] at he
      cases he
    | some m =>
      have hnext := nextMessage_of_accepted haccepted
      simp only [pushEvents, haccepted] at he
      obtain ⟨i, hi, rfl⟩ := List.mem_map.mp he
      intro write w hwrite hw hkey
      obtain rfl := EngineOutput.write.inj hwrite
      have hfree := List.all_eq_true.mp h i (hnext ▸ hi)
      have hne := List.all_eq_true.mp hfree w (SchedulerState.mem_writes.mpr hw)
      rw [← hnext] at hne
      exact absurd hkey (bne_iff_ne.mp hne)
  | poll nowMs txLen =>
    obtain ⟨htick, ⟨p, rfl⟩ | ⟨p, hp, rfl, hleft, hmessage⟩⟩ := Call.mem_pushEvents_poll rfl he
    · intro write w hwrite
      cases hwrite
    · intro write w hwrite hw hkey
      obtain rfl := EngineOutput.write.inj hwrite
      simp only [apart, Bool.or_eq_true, beq_iff_eq] at h
      have hp := List.all_eq_true.mp (h.resolve_left htick) p hp
      simp only [hleft, Bool.not_true, Bool.false_or, Bool.or_eq_true] at hp
      -- a packet of a message at its limit is given up and not queued again
      rcases hp with hlimit | hp
      · obtain ⟨q, hq, hlimit⟩ := List.any_eq_true.mp hlimit
        simp only [Bool.and_eq_true, beq_iff_eq] at hlimit
        exact absurd hlimit.2 (hmessage q hq hlimit.1)
      · have hw := List.all_eq_true.mp hp w (SchedulerState.mem_writes.mpr hw)
        simp only [Bool.or_eq_true, bne_iff_ne, Bool.and_eq_true, beq_iff_eq] at hw
        obtain ⟨hpriority, hwire⟩ := hw.resolve_left fun hne => hne hkey
        exact ⟨hpriority, .inr ⟨rfl, hwire⟩⟩

end Apart

end Pushes

/-! ## Whole runs -/

section Run
variable {config : EngineConfig} {calls : List Call} {call : Call} {st : EngineState}

/-- What a queued write is, and the priority it has for that. -/
inductive WriteClass (config : EngineConfig) (calls : List Call) (w : WriteEvent) : Prop
  | ping : w = livenessWrite config.integrity .ping .newData → WriteClass config calls w
  | pong : w = livenessWrite config.integrity .pong .control → WriteClass config calls w
  | first (call : Call) (m : SentMessage) (i : Nat) : call ∈ calls →
      call.accepted config = some m → i < m.count config → w = m.writeEvent config i →
      WriteClass config calls w
  | again (call : Call) (m : SentMessage) (i : Nat) : call ∈ calls →
      call.accepted config = some m → i < m.count config → w.key = m.packetKey i →
      w.wire = m.wire config i → w.priority = .retransmit → WriteClass config calls w

theorem WriteClass.append {w : WriteEvent} (h : WriteClass config calls w) (more : List Call) :
    WriteClass config (calls ++ more) w := by
  cases h with
  | ping h => exact .ping h
  | pong h => exact .pong h
  | first c m i hc hm hi hw => exact .first c m i (List.mem_append_left _ hc) hm hi hw
  | again c m i hc hm hi hkey hwire hpriority =>
    exact .again c m i (List.mem_append_left _ hc) hm hi hkey hwire hpriority

theorem writeClass_of_pushed (hinv : QueueInv config calls call.before.sendSide) {w : WriteEvent}
    (hw : .write w ∈ call.pushEvents config) : WriteClass config (calls ++ [call]) w := by
  have hcall : call ∈ calls ++ [call] := by simp
  obtain ⟨before, op⟩ := call
  cases op with
  | sendPing => exact .ping (EngineOutput.write.inj (List.mem_singleton.mp hw))
  | packet bytes =>
    simp only [Call.pushEvents] at hw
    split at hw
    · exact .pong (EngineOutput.write.inj (List.mem_singleton.mp hw))
    · cases hw
  | send packetType message =>
    simp only [Call.pushEvents] at hw
    split at hw
    · rename_i m haccepted
      obtain ⟨i, hi, hw⟩ := List.mem_map.mp hw
      exact .first _ m i hcall haccepted (List.mem_range.mp hi) (EngineOutput.write.inj hw).symm
    · cases hw
  | poll nowMs txLen =>
    obtain ⟨-, ⟨p, hp⟩ | ⟨p, hp, hwrite, -⟩⟩ := Call.mem_pushEvents_poll rfl hw
    · cases hp
    · obtain ⟨c, hc, m, hm, -, i, hi, hkey, -, -, hwire⟩ := hinv.tracks p hp
      obtain rfl := EngineOutput.write.inj hwrite
      exact .again c m i (List.mem_append_left _ hc) hm hi hkey hwire rfl

/-- The scheduler is sorted, and every write has the priority of its class. -/
structure InOrder (config : EngineConfig) (calls : List Call) (s : SchedulerState) : Prop where
  sorted : s.Sorted
  classes : ∀ w, .write w ∈ s.queued → WriteClass config calls w

/-- While a PONG is queued, a poll takes nothing out of the queue of new data. -/
def Call.PongFirst (config : EngineConfig) (call : Call) : Prop :=
  ∀ nowMs txLen, call.op = .poll nowMs txLen →
    .write (livenessWrite config.integrity .pong .control) ∈ call.before.scheduler.queued →
    (call.after config).scheduler.events .newData = call.before.scheduler.events .newData

/-- No push of the call destroys a queued write of another packet. -/
def Call.KeepsWrites (config : EngineConfig) (call : Call) : Prop :=
  ∀ before event after, call.pushEvents config = before ++ event :: after →
    ∀ w, .write w ∈ (before.foldl SchedulerState.pushIgnored call.before.scheduler).queued →
      .write w ∈ ((before.foldl SchedulerState.pushIgnored
        call.before.scheduler).pushIgnored event).queued ∨ event.Retransmits w

theorem Call.keepsWrites_of_apart (h : call.apart config = true) : call.KeepsWrites config := by
  intro before event after hsplit w hw
  have hkeys := call.pushEvents_keys_nodup config
  rw [hsplit] at hkeys
  have hharmless := Call.harmless_of_apart h event (by simp [hsplit])
  exact SchedulerState.kept_of_harmless (SchedulerState.harmless_foldl hkeys hharmless) hw

theorem Call.pongFirst_of_apart (h : call.apart config = true)
    (hs : call.before.scheduler.Sorted) : call.PongFirst config := by
  intro nowMs txLen hop hpong
  have hpushed := call.scheduler_pushed config
  have hsame (kind : QueueKind) (hkind : ∀ event ∈ call.pushEvents config,
      queueForEvent event ≠ kind) : (call.before.tickRetransmit config nowMs).scheduler.events kind =
        call.before.scheduler.events kind := by
    have hfold := SchedulerState.events_foldl hs (call.pushEvents_keys_nodup config)
      (Call.harmless_of_apart h) hkind
    rw [← hpushed, Call.pushedState, hop] at hfold
    exact hfold
  -- the tick pushes failures and retransmissions only
  have hkinds (event : EngineOutput) (he : event ∈ call.pushEvents config) :
      queueForEvent event = .local ∨ queueForEvent event = .retransmit := by
    obtain ⟨-, ⟨p, rfl⟩ | ⟨p, -, rfl, -⟩⟩ := Call.mem_pushEvents_poll hop he
    · exact .inl rfl
    · exact .inr rfl
  have hcontrol := hsame .control fun event he heq => by
    rcases hkinds event he with h | h
    · rw [h] at heq
      cases heq
    · rw [h] at heq
      cases heq
  have hnewData := hsame .newData fun event he heq => by
    rcases hkinds event he with h | h
    · rw [h] at heq
      cases heq
    · rw [h] at heq
      cases heq
  have hwaiting : (call.before.tickRetransmit config nowMs).scheduler.events .control ≠ [] := by
    obtain ⟨kind, hmem⟩ := SchedulerState.mem_queued_iff.mp hpong
    obtain rfl : QueueKind.control = kind := hs kind _ hmem
    rw [hcontrol]
    exact List.ne_nil_of_mem hmem
  rw [← hnewData, Call.after, hop]
  exact newData_pollOutput config nowMs txLen hwaiting

/-- A call whose pushes are apart keeps the scheduler in order. -/
theorem InOrder.step (hinv : QueueInv config calls call.before.sendSide)
    (h : InOrder config calls call.before.scheduler) (happart : call.apart config = true) :
    InOrder config (calls ++ [call]) (call.after config).scheduler := by
  have hpushed := call.scheduler_pushed config
  have hafter (kind : QueueKind) : (call.after config).scheduler.events kind <:+
      (call.pushedState config).scheduler.events kind := by
    obtain ⟨st, op⟩ := call
    cases op with
    | poll nowMs txLen => exact events_pollOutput config _ nowMs txLen kind
    | send | sendPing | packet => exact List.suffix_refl _
  have hsorted : (call.pushedState config).scheduler.Sorted := by
    rw [hpushed]
    exact SchedulerState.Sorted.pushAll h.sorted (call.pushEvents_keys_nodup config)
      (Call.harmless_of_apart happart)
  refine ⟨fun kind e he => hsorted kind e ((hafter kind).mem he), ?_⟩
  intro w hw
  obtain ⟨kind, hw⟩ := SchedulerState.mem_queued_iff.mp hw
  have hw := SchedulerState.mem_queued_iff.mpr ⟨kind, (hafter kind).mem hw⟩
  rw [hpushed] at hw
  rcases SchedulerState.mem_queued_foldl hw with hw | hw
  · exact (h.classes w hw).append [call]
  · exact writeClass_of_pushed hinv hw

theorem PacketRun.inOrder (hrun : PacketRun config calls st)
    (hapart : ∀ call ∈ calls, call.apart config = true) :
    InOrder config calls st.scheduler ∧ ∀ call ∈ calls, call.before.scheduler.Sorted ∧
      call.KeepsWrites config ∧ call.PongFirst config := by
  induction hrun with
  | new =>
    refine ⟨⟨?_, ?_⟩, by simp⟩
    · intro kind e he
      rcases kind with _ | _ | _ | _ <;> cases he
    · intro w hw
      rw [show (EngineState.new config.initialMessageId).scheduler.queued = 0 from
        SchedulerState.queued_new] at hw
      cases hw
  | ingress ingress _ ih => exact ih hapart
  | @call calls st op hrun ih =>
    obtain ⟨horder, hcalls⟩ := ih fun call hc => hapart call (List.mem_append_left _ hc)
    have hlast := hapart ⟨st, op⟩ (by simp)
    refine ⟨horder.step hrun.queueInv hlast, ?_⟩
    intro call hc
    rcases List.mem_append.mp hc with hc | hc
    · exact hcalls call hc
    · rw [List.mem_singleton.mp hc]
      exact ⟨horder.sorted, Call.keepsWrites_of_apart hlast,
        Call.pongFirst_of_apart hlast horder.sorted⟩

/-- **In a run whose pushes are apart, no push destroys another packet's output**: every call keeps
the queued writes, every state has each write in the queue of its priority, and no poll takes new
data while a PONG waits. -/
theorem writes_kept_apart (hrun : EngineRun config (fun _ _ => True) calls st)
    (hapart : ∀ call ∈ calls, call.apart config = true) :
    InOrder config calls st.scheduler ∧ ∀ call ∈ calls, call.before.scheduler.Sorted ∧
      call.KeepsWrites config ∧ call.PongFirst config :=
  hrun.packetRun.inOrder hapart

/-! ### Scripts -/

/-- The envelope of a PING. -/
def pingEnvelope : Bytes := envelope .default [PacketType.ping.code]

/-- A PING is answered while a message waits, and both are transmitted. -/
def answeredScript : List EngineOp :=
  [.send [7], .receive pingEnvelope, .poll 0 128, .poll 0 128, .poll 50 128]

theorem answeredScript_apart :
    let run := runOps .default answeredScript (.new EngineConfig.default.initialMessageId)
    scriptSucceeds .default answeredScript (.new EngineConfig.default.initialMessageId) = true ∧
      run.1.length = 5 ∧ ∀ call ∈ run.1, call.apart .default = true := by
  decide +kernel

/-- The PONG of the script goes out before the message. -/
theorem writes_kept_answered : ∃ (calls : List Call) (st : EngineState),
    EngineRun .default (fun _ _ => True) calls st ∧ calls.length = 5 ∧
      ∀ call ∈ calls, call.KeepsWrites .default ∧ call.PongFirst .default := by
  obtain ⟨hsucceeds, hlength, hapart⟩ := answeredScript_apart
  have hrun : EngineRun .default (fun _ _ => True) _ _ :=
    (EngineRun.new.script hsucceeds).mono fun _ _ _ => trivial
  rw [List.nil_append] at hrun
  exact ⟨_, _, hrun, hlength, fun call hc => ((writes_kept_apart hrun hapart).2 call hc).2⟩

/-- A PING arrives while the own PING is still queued. -/
def crossedScript : List EngineOp := [.sendPing, .receive pingEnvelope]

theorem crossedScript_destroys :
    let ping := livenessWrite .default .ping .newData
    let pong := livenessWrite .default .pong .control
    let run := runOps .default crossedScript (.new EngineConfig.default.initialMessageId)
    scriptSucceeds .default crossedScript (.new EngineConfig.default.initialMessageId) = true ∧
      ∃ call ∈ run.1, call.pushEvents .default = [.write pong] ∧
        ping ∈ call.before.scheduler.writes ∧
        ping ∉ (call.before.scheduler.pushIgnored (.write pong)).writes := by
  decide +kernel

/-- The answer to a PING can destroy the own PING. -/
theorem not_writes_kept : ¬ ∀ (config : EngineConfig) (calls : List Call) (st : EngineState),
    EngineRun config (fun _ _ => True) calls st →
    st.scheduler.Sorted ∧ ∀ call ∈ calls, call.KeepsWrites config ∧ call.PongFirst config := by
  intro h
  obtain ⟨hsucceeds, call, hc, hevents, hqueued, hgone⟩ := crossedScript_destroys
  have hrun : EngineRun .default (fun _ _ => True) _ _ :=
    (EngineRun.new.script hsucceeds).mono fun _ _ _ => trivial
  rw [List.nil_append] at hrun
  have hkeeps := ((h .default _ _ hrun).2 call hc).1 [] _ [] hevents _
    (SchedulerState.mem_writes.mp hqueued)
  rcases hkeeps with hkept | ⟨write, hwrite, hpriority, -⟩
  · exact hgone (SchedulerState.mem_writes.mpr hkept)
  · obtain rfl := EngineOutput.write.inj hwrite
    cases hpriority

end Run

end Msrt
