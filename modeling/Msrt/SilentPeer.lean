import Msrt.DrainOrder
import Msrt.NoStranding

/-! # A peer that falls silent

No acknowledgement arrives any more.  Polls at a time at which every packet in flight is due give up the
messages that have used all their attempts and transmit every other packet once more
(`Quiet.round`).  So after one such round for every attempt and one more nothing is in flight, and each
message that was in flight has been reported as failed exactly once (`silent_peer_verdicts`).

`Quiet` carries the argument from round to round: nothing waits and everything in flight was sent, so the
tick finds room for all it queues and reaches every packet.
-/

namespace Msrt
open EngineState

/-! ## What a drain marks -/

namespace Waiting

/-- The packet key of a write. -/
def key? : Waiting → Option PacketKey
  | .event pending => pending.writeKey?
  | _ => none

/-- The failure that is reported. -/
def failure? : Waiting → Option SendFailedEvent
  | .event pending => SchedulerState.failure? pending
  | _ => none

/-- What becomes of a packet in flight when the thing is returned. -/
def mark (nowMs : Nat) (p : InFlightPacket) : Waiting → InFlightPacket
  | .event (.write write) => if p.key = write.key then write.mark nowMs p else p
  | _ => p

section Mark
variable {nowMs : Nat} {p : InFlightPacket} {items : List Waiting}

theorem mark_of_key_ne {item : Waiting} (h : item.key? ≠ some p.key) : item.mark nowMs p = p := by
  unfold mark
  split
  · rename_i write
    have hne : p.key ≠ write.key := fun hsame => h (congrArg some hsame.symm)
    rw [if_neg hne]
  · rfl

/-- Only a write of its key marks a packet. -/
theorem foldl_mark_of_key_ne (h : ∀ item ∈ items, item.key? ≠ some p.key) :
    items.foldl (mark nowMs) p = p := by
  induction items with
  | nil => rfl
  | cons item items ih =>
    rw [List.foldl_cons, mark_of_key_ne (h item List.mem_cons_self)]
    exact ih fun other hmem => h other (List.mem_cons_of_mem _ hmem)

/-- The one write of its key marks a packet. -/
theorem foldl_mark {write : WriteEvent} (hkeys : (items.filterMap key?).Nodup)
    (hmem : .event (.write write) ∈ items) (hkey : write.key = p.key) :
    items.foldl (mark nowMs) p = write.mark nowMs p := by
  induction items with
  | nil => cases hmem
  | cons item items ih =>
    rw [List.foldl_cons]
    rcases List.mem_cons.mp hmem with rfl | hmem
    · -- behind the write no other has its key
      have hmarked : mark nowMs p (.event (.write write)) = write.mark nowMs p := if_pos hkey.symm
      have hrest : ∀ other ∈ items, other.key? ≠ some (write.mark nowMs p).key := by
        intro other hother hsame
        rw [(write.mark_same nowMs p).1, ← hkey] at hsame
        have hfirst : key? (.event (.write write)) = some write.key := rfl
        rw [List.filterMap_cons_some hfirst, List.nodup_cons] at hkeys
        exact hkeys.1 (List.mem_filterMap.mpr ⟨other, hother, hsame⟩)
      rw [hmarked, foldl_mark_of_key_ne hrest]
    · have hne : item.key? ≠ some p.key := by
        intro hsame
        rw [List.filterMap_cons_some hsame, List.nodup_cons] at hkeys
        exact hkeys.1 (List.mem_filterMap.mpr ⟨_, hmem, congrArg some hkey⟩)
      rw [mark_of_key_ne hne]
      exact ih (hkeys.sublist ((List.sublist_cons_self item items).filterMap _)) hmem

/-- The table behind a drain holds every packet as it was marked. -/
theorem mem_packets_foldl_note {r : RecoveryState} :
    p ∈ (items.foldl (note nowMs) r).packets ↔
      ∃ q ∈ r.packets, p = items.foldl (mark nowMs) q := by
  induction items generalizing r with
  | nil => simp
  | cons item items ih =>
    have hone : ∀ p, p ∈ (item.note nowMs r).packets ↔
        ∃ q ∈ r.packets, p = item.mark nowMs q := by
      intro p
      unfold note mark
      split
      · exact mem_packets_noteWrite
      · simp
    rw [List.foldl_cons, ih]
    constructor
    · rintro ⟨q, hq, rfl⟩
      obtain ⟨q', hq', rfl⟩ := (hone q).mp hq
      exact ⟨q', hq', rfl⟩
    · rintro ⟨q, hq, rfl⟩
      exact ⟨_, (hone _).mpr ⟨q, hq, rfl⟩, rfl⟩

end Mark

end Waiting

/-! ## Pushes into an empty scheduler -/

namespace SchedulerState
variable {s : SchedulerState}

/-- A push with a fresh key that finds room appends the event to its queue. -/
theorem pushIgnored_appends {event : EngineOutput}
    (hfresh : ∀ key, event.writeKey? = some key → key ∉ s.keys) (hroom : s.len < maxEvents) :
    (∀ kind, (s.pushIgnored event).events kind =
      s.events kind ++ if queueForEvent event = kind then [event] else []) ∧
      (s.pushIgnored event).queued = event ::ₘ s.queued := by
  unfold pushIgnored
  cases hpush : s.push event with
  | error e => exact absurd (push_eq_error hpush).1 (Nat.ne_of_lt hroom)
  | ok s' =>
    refine ⟨?_, ?_⟩
    · intro kind
      cases push_placed hpush with
      | replaced other before after write old he hkey hold =>
        have hmem : .write old ∈ s.queued := mem_queued_iff.mpr ⟨other, by rw [hold]; simp⟩
        rw [he] at hfresh
        exact absurd (mem_keys.mpr ⟨old, hmem, hkey⟩) (hfresh write.key rfl)
      | added hqueue hothers =>
        by_cases hkind : queueForEvent event = kind
        · rw [if_pos hkind, ← hkind]
          exact hqueue
        · rw [if_neg hkind, List.append_nil]
          exact hothers kind (Ne.symm hkind)
    · cases push_eq_ok hpush with
      | replaced write old rest he hkey hold =>
        have hmem : .write old ∈ s.queued := by
          rw [hold]
          exact Multiset.mem_cons_self _ _
        rw [he] at hfresh
        exact absurd (mem_keys.mpr ⟨old, hmem, hkey⟩) (hfresh write.key rfl)
      | added _ _ hqueued => exact hqueued

/-- **Pushes of distinct fresh keys for which there is room append to their queues in order.** -/
theorem events_pushAll {events : List EngineOutput}
    (hkeys : (events.filterMap EngineOutput.writeKey?).Nodup)
    (hfresh : ∀ key ∈ events.filterMap EngineOutput.writeKey?, key ∉ s.keys)
    (hroom : s.len + events.length ≤ maxEvents) (kind : QueueKind) :
    (events.foldl pushIgnored s).events kind =
      s.events kind ++ events.filter (fun event => queueForEvent event = kind) := by
  induction events generalizing s with
  | nil => simp
  | cons event events ih =>
    rw [List.length_cons] at hroom
    have hown : ∀ key, event.writeKey? = some key → key ∉ s.keys := by
      intro key hkey
      exact hfresh key (List.mem_filterMap.mpr ⟨event, List.mem_cons_self, hkey⟩)
    obtain ⟨hevents, hqueued⟩ := pushIgnored_appends hown (by omega)
    have hlen : (s.pushIgnored event).len = s.len + 1 := by
      rw [← card_queued, hqueued, Multiset.card_cons, card_queued]
    have hrest : (events.filterMap EngineOutput.writeKey?).Nodup :=
      hkeys.sublist ((List.sublist_cons_self event events).filterMap _)
    have hstill : ∀ key ∈ events.filterMap EngineOutput.writeKey?,
        key ∉ (s.pushIgnored event).keys := by
      intro key hkey hmem
      obtain ⟨w, hw, rfl⟩ := mem_keys.mp hmem
      rw [hqueued, Multiset.mem_cons] at hw
      rcases hw with rfl | hw
      · have hfirst : EngineOutput.writeKey? (.write w) = some w.key := rfl
        rw [List.filterMap_cons_some hfirst, List.nodup_cons] at hkeys
        exact hkeys.1 hkey
      · obtain ⟨other, hother, hsame⟩ := List.mem_filterMap.mp hkey
        exact hfresh w.key (List.mem_filterMap.mpr ⟨other, List.mem_cons_of_mem _ hother, hsame⟩)
          (mem_keys.mpr ⟨w, hw, rfl⟩)
    rw [List.foldl_cons, ih hrest hstill (by omega), hevents, List.append_assoc]
    congr 1
    by_cases hkind : queueForEvent event = kind
    · rw [if_pos hkind, List.filter_cons_of_pos (by simpa using hkind)]
      rfl
    · rw [if_neg hkind, List.filter_cons_of_neg (by simpa using hkind)]
      rfl

end SchedulerState

/-! ## One round -/

/-- The failures among the results of polls. -/
def reportedFailures (results : List (Except Error EnginePoll)) : List SendFailedEvent :=
  results.filterMap fun result =>
    match result with
    | .ok (.sendFailed event) => some event
    | _ => none

theorem reportedFailures_drainResults (integrity : IntegrityConfig) {list : List Waiting}
    {count : Nat} (h : list.length ≤ count) :
    reportedFailures (drainResults integrity list count) = list.filterMap Waiting.failure? := by
  have hidle : ∀ k, reportedFailures (List.replicate k (.ok .idle)) = [] := by
    intro k
    apply List.filterMap_eq_nil_iff.mpr
    intro result hresult
    rw [List.eq_of_mem_replicate hresult]
  have hitems : reportedFailures (list.map fun item => .ok (item.action integrity)) =
      list.filterMap Waiting.failure? := by
    rw [reportedFailures, List.filterMap_map]
    apply List.filterMap_congr
    intro item _
    rcases item with key | (write | failed) | message <;> rfl
  rw [drainResults, List.take_append, List.take_of_length_le (by rwa [List.length_map]),
    List.take_replicate]
  unfold reportedFailures at hidle hitems ⊢
  rw [List.filterMap_append, hidle, hitems, List.append_nil]

/-- The messages of which a packet is in flight. -/
def inFlightMessages (st : EngineState) : List (PacketType × MessageId) :=
  (st.recovery.packets.map InFlightPacket.message).dedup

/-- The failure of a message. -/
def messageFailure (message : PacketType × MessageId) : SendFailedEvent :=
  ⟨message.1, message.2, .retryLimitReached⟩

/-- Nothing waits, and everything in flight was sent. -/
structure Quiet (st : EngineState) : Prop where
  nothing : st.waitingList = []
  sent : ∀ p ∈ st.recovery.packets, p.sent = true

/-- Every packet in flight has waited for the timeout at `nowMs`, and no tick has run at that time. -/
structure AllDue (config : EngineConfig) (nowMs : Nat) (st : EngineState) : Prop where
  fresh : st.recovery.lastTickMs ≠ some nowMs
  due : ∀ p ∈ st.recovery.packets, p.lastSentMs + config.retransmitTimeoutMs ≤ nowMs

/-- A packet as it is once it has been transmitted again. -/
def InFlightPacket.resent (nowMs : Nat) (p : InFlightPacket) : InFlightPacket :=
  { p with sent := true, attempts := saturatingSucc p.attempts, lastSentMs := nowMs }

section Round
variable {config : EngineConfig} {st : EngineState} {nowMs : Nat} {txLens : List Nat}

/-- The events a tick at `nowMs` pushes: failures first. -/
def tickEvents (config : EngineConfig) (nowMs : Nat) (st : EngineState) : List EngineOutput :=
  ((st.tickScan config nowMs).failures.map fun p => .sendFailed (failureOf p)) ++
    (retransmittedPackets config nowMs st).map fun p => .write (retransmitWrite p)

theorem scheduler_tickRetransmit (htick : st.recovery.lastTickMs ≠ some nowMs) :
    (st.tickRetransmit config nowMs).scheduler =
      (tickEvents config nowMs st).foldl SchedulerState.pushIgnored st.scheduler := by
  rw [tickRetransmit_of_ne htick, scheduler_foldl_queueRetransmit, scheduler_foldl_failMessage,
    filter_retransmits, tickEvents, List.foldl_append]
  rfl

theorem keys_tickEvents (config : EngineConfig) (nowMs : Nat) (st : EngineState) :
    ((tickEvents config nowMs st).filterMap EngineOutput.writeKey?).Nodup := by
  have hnone : (st.tickScan config nowMs).failures.filterMap
      (EngineOutput.writeKey? ∘ fun p => .sendFailed (failureOf p)) = [] :=
    List.filterMap_eq_nil_iff.mpr fun p _ => rfl
  have hsome : (retransmittedPackets config nowMs st).filterMap
      (EngineOutput.writeKey? ∘ fun p => .write (retransmitWrite p)) =
        ((retransmittedPackets config nowMs st).map retransmitWrite).map WriteEvent.key := by
    rw [List.map_map, ← List.filterMap_eq_map]
    rfl
  rw [tickEvents, List.filterMap_append, List.filterMap_map, List.filterMap_map, hnone, hsome,
    List.nil_append]
  exact retransmittedPackets_keys_nodup

/-- Failures and retransmissions go to queues of their own. -/
theorem filter_tickEvents (kind : QueueKind) :
    (tickEvents config nowMs st).filter (fun event => queueForEvent event = kind) =
      (if kind = .local then
        (st.tickScan config nowMs).failures.map fun p => .sendFailed (failureOf p) else []) ++
      if kind = .retransmit then
        (retransmittedPackets config nowMs st).map fun p => .write (retransmitWrite p) else [] := by
  have hpart {events : List EngineOutput} (own : QueueKind)
      (h : ∀ event ∈ events, queueForEvent event = own) :
      events.filter (fun event => queueForEvent event = kind) = if kind = own then events else [] := by
    by_cases hkind : kind = own
    · rw [if_pos hkind]
      apply List.filter_eq_self.mpr
      intro event hmem
      simp [h event hmem, hkind]
    · rw [if_neg hkind]
      apply List.filter_eq_nil_iff.mpr
      intro event hmem
      simpa [h event hmem] using Ne.symm hkind
  rw [tickEvents, List.filter_append, hpart .local, hpart .retransmit]
  · intro event hmem
    obtain ⟨p, -, rfl⟩ := List.mem_map.mp hmem
    rfl
  · intro event hmem
    obtain ⟨p, -, rfl⟩ := List.mem_map.mp hmem
    rfl

theorem Quiet.lists (h : Quiet st) : RingQueue.toList st.ack = [] ∧
    RingQueue.toList st.message = [] ∧ ∀ kind, st.scheduler.events kind = [] := by
  have hnil := h.nothing
  simp only [waitingList, SchedulerState.urgent, List.append_eq_nil_iff, List.map_eq_nil_iff] at hnil
  obtain ⟨⟨⟨hack, ⟨hcontrol, hretransmit⟩, hlocal⟩, hmessage⟩, hnewData⟩ := hnil
  refine ⟨hack, hmessage, ?_⟩
  intro kind
  rcases kind with _ | _ | _ | _
  · exact hcontrol
  · exact hretransmit
  · exact hnewData
  · exact hlocal

theorem Quiet.queued (h : Quiet st) : st.scheduler.queued = 0 := by
  apply Multiset.eq_zero_of_forall_notMem
  intro event hmem
  obtain ⟨kind, hevent⟩ := SchedulerState.mem_queued_iff.mp hmem
  rw [h.lists.2.2 kind] at hevent
  cases hevent

theorem Quiet.len (h : Quiet st) : st.scheduler.len = 0 := by
  rw [← SchedulerState.card_queued, h.queued, Multiset.card_zero]

theorem Quiet.retransmitDue (h : Quiet st) (hdue : AllDue config nowMs st) {p : InFlightPacket}
    (hp : p ∈ st.recovery.packets) : retransmitDue config nowMs p = true := by
  have hage := hdue.due p hp
  simp only [EngineState.retransmitDue, h.sent p hp, Bool.true_and, Bool.not_eq_true',
    decide_eq_false_iff_not]
  omega

/-- A tick over a table of which nothing is queued has room: every packet in flight adds at most one
event, its own write or the failure it stands for. -/
theorem Quiet.room (h : Quiet st) : tickAdditions config nowMs st ≤ st.scheduler.available := by
  have hfailing : (failingMessages config nowMs st).length ≤
      (st.recovery.packets.filter fun p =>
        (failingMessages config nowMs st).contains p.message).length := by
    have hsub : failingMessages config nowMs st ⊆
        (st.recovery.packets.filter fun p =>
          (failingMessages config nowMs st).contains p.message).map InFlightPacket.message := by
      intro message hmessage
      obtain ⟨p, hp, rfl⟩ := List.mem_map.mp (List.mem_dedup.mp hmessage)
      refine List.mem_map.mpr ⟨p, List.mem_filter.mpr ⟨(List.mem_filter.mp hp).1, ?_⟩, rfl⟩
      simpa using hmessage
    have hle := (List.subperm_of_subset (List.nodup_dedup _) hsub).length_le
    rwa [List.length_map] at hle
  have hrequeued : ((retransmittedPackets config nowMs st).filter fun p =>
      p.key ∉ st.scheduler.keys).length ≤ (st.recovery.packets.filter fun p =>
        !(failingMessages config nowMs st).contains p.message).length := by
    refine Nat.le_trans (List.length_filter_le _ _) (List.Sublist.length_le ?_)
    apply List.monotone_filter_right
    intro p hp
    exact (Bool.and_eq_true _ _ ▸ hp).2
  have hsplit := List.length_eq_length_filter_add (l := st.recovery.packets)
    fun p => (failingMessages config nowMs st).contains p.message
  have hpackets : st.recovery.packets.length ≤ maxInFlightPackets := by
    have hle := st.recovery.inFlight.len_le
    rw [st.recovery.inFlight.len_eq] at hle
    exact hle
  have hmax : maxInFlightPackets = maxEvents := rfl
  unfold tickAdditions SchedulerState.available
  rw [h.len]
  omega

theorem Quiet.keys (h : Quiet st) : st.scheduler.keys = 0 := by
  rw [SchedulerState.keys, h.queued]
  rfl

theorem Quiet.length_tickEvents (h : Quiet st) :
    (tickEvents config nowMs st).length ≤ maxEvents := by
  have hadditions : tickAdditions config nowMs st ≤ st.scheduler.available := h.room
  have hperm := (@tickFailures_perm config nowMs st).length_eq
  have hall : ((retransmittedPackets config nowMs st).filter fun p => p.key ∉ st.scheduler.keys) =
      retransmittedPackets config nowMs st := by
    apply List.filter_eq_self.mpr
    intro p _
    rw [h.keys]
    simp
  rw [tickFailures, List.length_map, List.length_map] at hperm
  unfold tickAdditions SchedulerState.available at hadditions
  rw [hall, h.len] at hadditions
  rw [tickEvents, List.length_append, List.length_map, List.length_map]
  omega

/-- **What waits behind the tick of a round**: the packets that are queued again, and then the
failures. -/
theorem Quiet.waitingList_tick (h : Quiet st) (hdue : AllDue config nowMs st) :
    (st.tickRetransmit config nowMs).waitingList =
      (retransmittedPackets config nowMs st).map
        (fun p => Waiting.event (.write (retransmitWrite p))) ++
      (st.tickScan config nowMs).failures.map
        (fun p => Waiting.event (.sendFailed (failureOf p))) := by
  obtain ⟨hack, hmessage, hevents⟩ := h.lists
  have hframe : TickFrame (st.advanceClock config nowMs) (st.tickRetransmit config nowMs) :=
    st.tickRetransmit_frame nowMs
  have hacks : (st.tickRetransmit config nowMs).ack = st.ack := hframe.ack
  have hmessages : (st.tickRetransmit config nowMs).message = st.message := hframe.message
  have hqueues (kind : QueueKind) : (st.tickRetransmit config nowMs).scheduler.events kind =
      (tickEvents config nowMs st).filter fun event => queueForEvent event = kind := by
    have hlen : (tickEvents config nowMs st).length ≤ maxEvents := h.length_tickEvents
    rw [scheduler_tickRetransmit hdue.fresh, SchedulerState.events_pushAll
      (keys_tickEvents config nowMs st) (fun key _ => by rw [h.keys]; simp) (by rw [h.len]; omega),
      hevents kind, List.nil_append]
  simp only [waitingList, SchedulerState.urgent, hacks, hmessages, hack, hmessage, hqueues,
    filter_tickEvents]
  simp [List.map_map, Function.comp_def]

theorem Quiet.keys_tick (h : Quiet st) (hdue : AllDue config nowMs st) :
    ((st.tickRetransmit config nowMs).waitingList.filterMap Waiting.key?).Nodup := by
  have hnodup := keys_tickEvents config nowMs st
  rw [tickEvents, List.filterMap_append, (List.perm_append_comm).nodup_iff, List.filterMap_map,
    List.filterMap_map] at hnodup
  rw [h.waitingList_tick hdue, List.filterMap_append, List.filterMap_map, List.filterMap_map]
  exact hnodup

/-- **One round.**  The messages that have used all their attempts are reported and leave the table;
every other packet is transmitted once more. -/
theorem Quiet.round (h : Quiet st) (hdue : AllDue config nowMs st)
    (htx : ∀ txLen ∈ txLens, maxWireBytes ≤ txLen) (hlen : maxEvents ≤ txLens.length) :
    Quiet (st.drain config nowMs txLens).1 ∧
      (st.drain config nowMs txLens).1.recovery.lastTickMs = some nowMs ∧
      (∀ p, p ∈ (st.drain config nowMs txLens).1.recovery.packets ↔
        ∃ q ∈ st.recovery.packets, q.message ∉ failingMessages config nowMs st ∧
          p = q.resent nowMs) ∧
      (reportedFailures (st.drain config nowMs txLens).2).Perm (tickFailures config nowMs st) := by
  have hne : txLens ≠ [] := by
    rintro rfl
    cases hlen
  have hdrained : DrainedBy config nowMs (st.tickRetransmit config nowMs) txLens.length
      (st.drain config nowMs txLens) := by
    obtain ⟨txLen, rest, rfl⟩ := List.exists_cons_of_ne_nil hne
    rw [drain_cons_eq]
    exact drainedBy_of_ticked (lastTickMs_tickRetransmit config st nowMs) htx
  have hwaiting := h.waitingList_tick hdue
  -- the drain is long enough for all that waits
  have hcount : (st.tickRetransmit config nowMs).waitingList.length ≤ txLens.length := by
    have hle : (tickEvents config nowMs st).length ≤ maxEvents := h.length_tickEvents
    rw [tickEvents, List.length_append, List.length_map, List.length_map] at hle
    rw [hwaiting, List.length_append, List.length_map, List.length_map]
    omega
  have hpackets : ∀ p, p ∈ (st.drain config nowMs txLens).1.recovery.packets ↔
      ∃ q ∈ st.recovery.packets, q.message ∉ failingMessages config nowMs st ∧
        p = q.resent nowMs := by
    intro p
    have hmarked : ∀ q ∈ retransmittedPackets config nowMs st,
        (st.tickRetransmit config nowMs).waitingList.foldl (Waiting.mark nowMs) q =
          q.resent nowMs := by
      intro q hq
      have hmem : .event (.write (retransmitWrite q)) ∈
          (st.tickRetransmit config nowMs).waitingList := by
        rw [hwaiting]
        exact List.mem_append_left _ (List.mem_map_of_mem hq)
      exact Waiting.foldl_mark (h.keys_tick hdue) hmem rfl
    have hkept : ∀ q, q ∈ (st.tickRetransmit config nowMs).recovery.packets ↔
        q ∈ retransmittedPackets config nowMs st := by
      intro q
      rw [packets_tickRetransmit hdue.fresh, mem_retransmittedPackets, List.mem_filter]
      simp only [List.contains_eq_mem, Bool.not_eq_true', decide_eq_false_iff_not]
      constructor
      · rintro ⟨hq, hmessage⟩
        exact ⟨hq, h.retransmitDue hdue hq, hmessage⟩
      · rintro ⟨hq, -, hmessage⟩
        exact ⟨hq, hmessage⟩
    rw [hdrained.recovery, List.take_of_length_le hcount, Waiting.mem_packets_foldl_note]
    constructor
    · rintro ⟨q, hq, rfl⟩
      have hq := (hkept q).mp hq
      obtain ⟨hmem, -, hmessage⟩ := mem_retransmittedPackets.mp hq
      exact ⟨q, hmem, hmessage, hmarked q hq⟩
    · rintro ⟨q, hq, hmessage, rfl⟩
      have hq := mem_retransmittedPackets.mpr ⟨hq, h.retransmitDue hdue hq, hmessage⟩
      exact ⟨q, (hkept q).mpr hq, (hmarked q hq).symm⟩
  refine ⟨⟨?_, ?_⟩, hdrained.lastTickMs, hpackets, ?_⟩
  · rw [hdrained.waitingList, List.drop_of_length_le hcount]
  · intro p hp
    obtain ⟨q, -, -, rfl⟩ := (hpackets p).mp hp
    rfl
  · have hnone : (retransmittedPackets config nowMs st).filterMap
        (Waiting.failure? ∘ fun p => .event (.write (retransmitWrite p))) = [] :=
      List.filterMap_eq_nil_iff.mpr fun p _ => rfl
    have hsome : (st.tickScan config nowMs).failures.filterMap
        (Waiting.failure? ∘ fun p => .event (.sendFailed (failureOf p))) =
          (st.tickScan config nowMs).failures.map failureOf := by
      rw [← List.filterMap_eq_map]
      rfl
    rw [hdrained.results, reportedFailures_drainResults _ hcount, hwaiting, List.filterMap_append,
      List.filterMap_map, List.filterMap_map, hnone, hsome, List.nil_append]
    exact tickFailures_perm

end Round

/-! ## Rounds -/

/-- Rounds of polls at the given times, with the same buffers in each. -/
def EngineState.rounds (config : EngineConfig) (txLens : List Nat) :
    EngineState → List Nat → EngineState × List (Except Error EnginePoll)
  | st, [] => (st, [])
  | st, nowMs :: times =>
    let drained := st.drain config nowMs txLens
    let rest := rounds config txLens drained.1 times
    (rest.1, drained.2 ++ rest.2)

section Rounds
variable {config : EngineConfig} {st : EngineState} {nowMs : Nat} {txLens : List Nat}

theorem inFlightMessages_perm {st' : EngineState}
    (h : ∀ p, p ∈ st'.recovery.packets ↔ ∃ q ∈ st.recovery.packets,
      q.message ∉ failingMessages config nowMs st ∧ p = q.resent nowMs) :
    (inFlightMessages st).Perm (failingMessages config nowMs st ++ inFlightMessages st') := by
  have hleft : ∀ message, message ∈ inFlightMessages st' ↔
      message ∈ inFlightMessages st ∧ message ∉ failingMessages config nowMs st := by
    intro message
    simp only [inFlightMessages, List.mem_dedup, List.mem_map]
    constructor
    · rintro ⟨p, hp, rfl⟩
      obtain ⟨q, hq, hmessage, rfl⟩ := (h p).mp hp
      exact ⟨⟨q, hq, rfl⟩, hmessage⟩
    · rintro ⟨⟨q, hq, rfl⟩, hmessage⟩
      exact ⟨q.resent nowMs, (h _).mpr ⟨q, hq, hmessage, rfl⟩, rfl⟩
  have hnodup : ∀ st, (inFlightMessages st).Nodup := fun st => List.nodup_dedup _
  have hfailing : (failingMessages config nowMs st).Nodup := List.nodup_dedup _
  refine (List.perm_ext_iff_of_nodup (hnodup st) (List.nodup_append.mpr
    ⟨hfailing, hnodup st', ?_⟩)).mpr ?_
  · rintro message hfailing _ hmessage rfl
    exact ((hleft message).mp hmessage).2 hfailing
  · intro message
    rw [List.mem_append, hleft]
    constructor
    · intro hmessage
      by_cases hfailing : message ∈ failingMessages config nowMs st
      · exact .inl hfailing
      · exact .inr ⟨hmessage, hfailing⟩
    · rintro (hfailing | hmessage)
      · obtain ⟨p, hp, rfl⟩ := List.mem_map.mp (List.mem_dedup.mp hfailing)
        exact List.mem_dedup.mpr (List.mem_map_of_mem (List.mem_filter.mp hp).1)
      · exact hmessage.1

/-- A packet with all its attempts used fails its message. -/
theorem Quiet.failing (h : Quiet st) (hdue : AllDue config nowMs st) {p : InFlightPacket}
    (hp : p ∈ st.recovery.packets) (hused : config.maxRetransmitAttempts ≤ p.attempts) :
    p.message ∈ failingMessages config nowMs st := by
  refine List.mem_dedup.mpr (List.mem_map.mpr ⟨p, List.mem_filter.mpr ⟨hp, ?_⟩, rfl⟩)
  rw [retryLimitReached, h.retransmitDue hdue hp, Bool.true_and, decide_eq_true_eq]
  exact hused

/-- A packet that is kept has used one attempt more. -/
theorem Quiet.attempts_resent (h : Quiet st) (hdue : AllDue config nowMs st) {q : InFlightPacket}
    (hq : q ∈ st.recovery.packets) (hkept : q.message ∉ failingMessages config nowMs st) :
    (q.resent nowMs).attempts.toNat = q.attempts.toNat + 1 := by
  have hlt : q.attempts < config.maxRetransmitAttempts := by
    by_contra hused
    exact hkept (h.failing hdue hq (UInt8.not_lt.mp hused))
  have hnat := UInt8.lt_iff_toNat_lt.mp hlt
  have hmax := config.maxRetransmitAttempts.toNat_lt
  have hne : q.attempts ≠ 255 := by
    intro hsaturated
    rw [hsaturated] at hnat
    have h255 : (255 : UInt8).toNat = 255 := rfl
    omega
  show (saturatingSucc q.attempts).toNat = _
  rw [saturatingSucc, if_neg hne, UInt8.toNat_add, UInt8.toNat_one]
  omega

/-- **Rounds up to the retry limit.** -/
theorem Quiet.rounds {times : List Nat} (h : Quiet st) (hdue : AllDue config nowMs st)
    (hspaced : List.IsChain (fun a b => a < b ∧ a + config.retransmitTimeoutMs ≤ b) (nowMs :: times))
    (htx : ∀ txLen ∈ txLens, maxWireBytes ≤ txLen) (hlen : maxEvents ≤ txLens.length)
    (hattempts : ∀ p ∈ st.recovery.packets,
      config.maxRetransmitAttempts.toNat ≤ p.attempts.toNat + times.length) :
    (st.rounds config txLens (nowMs :: times)).1.recovery.packets = [] ∧
      (reportedFailures (st.rounds config txLens (nowMs :: times)).2).Perm
        ((inFlightMessages st).map messageFailure) := by
  -- on the rounds: each one gives a message up or uses one attempt of every packet
  induction times generalizing st nowMs with
  | nil =>
    obtain ⟨-, -, hpackets, hreported⟩ := h.round hdue htx hlen
    have hall : ∀ p ∈ st.recovery.packets, p.message ∈ failingMessages config nowMs st := by
      intro p hp
      exact h.failing hdue hp (UInt8.le_iff_toNat_le.mpr (hattempts p hp))
    have hempty : (st.drain config nowMs txLens).1.recovery.packets = [] := by
      apply List.eq_nil_iff_forall_not_mem.mpr
      intro p hp
      obtain ⟨q, hq, hkept, -⟩ := (hpackets p).mp hp
      exact hkept (hall q hq)
    have hperm := inFlightMessages_perm hpackets
    have hnone : inFlightMessages (st.drain config nowMs txLens).1 = [] := by
      rw [inFlightMessages, hempty]
      rfl
    rw [hnone, List.append_nil] at hperm
    refine ⟨hempty, ?_⟩
    rw [EngineState.rounds, EngineState.rounds, List.append_nil]
    exact hreported.trans (hperm.symm.map messageFailure)
  | cons next times ih =>
    obtain ⟨hquiet, hticked, hpackets, hreported⟩ := h.round hdue htx hlen
    obtain ⟨⟨hlater, hgap⟩, hrest⟩ := List.isChain_cons_cons.mp hspaced
    have hdue' : AllDue config next (st.drain config nowMs txLens).1 := by
      refine ⟨?_, ?_⟩
      · rw [hticked]
        exact fun hsame => Nat.ne_of_lt hlater (Option.some.inj hsame)
      · intro p hp
        obtain ⟨q, -, -, rfl⟩ := (hpackets p).mp hp
        exact hgap
    have hattempts' : ∀ p ∈ (st.drain config nowMs txLens).1.recovery.packets,
        config.maxRetransmitAttempts.toNat ≤ p.attempts.toNat + times.length := by
      intro p hp
      obtain ⟨q, hq, hkept, rfl⟩ := (hpackets p).mp hp
      have hone := h.attempts_resent hdue hq hkept
      have hle := hattempts q hq
      rw [List.length_cons] at hle
      omega
    obtain ⟨hempty, hfailures⟩ := ih hquiet hdue' hrest hattempts'
    refine ⟨hempty, ?_⟩
    have hperm := (inFlightMessages_perm hpackets).map messageFailure
    rw [List.map_append] at hperm
    rw [EngineState.rounds]
    unfold reportedFailures at hreported hfailures ⊢
    rw [List.filterMap_append]
    exact (hreported.append hfailures).trans hperm.symm

/-- A script that keeps the session. -/
theorem EngineRun.session {calls : List Call} {ops : List EngineOp}
    (hrun : EngineRun config (fun st op => op.keeps config st = true) calls st)
    (h : keepsAll config ops st = true) :
    EngineRun config (fun st op => op.keeps config st = true) (calls ++ (runOps config ops st).1)
      (runOps config ops st).2 := by
  induction ops generalizing calls st with
  | nil =>
    rw [runOps, List.append_nil]
    exact hrun
  | cons op ops ih =>
    rw [keepsAll, Bool.and_eq_true] at h
    have hnext := ih (hrun.step op h.1) h.2
    rw [List.append_assoc] at hnext
    exact hnext

/-- In a session, what is in flight while nothing waits was sent. -/
theorem EngineRun.quiet {calls : List Call}
    (hrun : EngineRun config (fun st op => op.keeps config st = true) calls st)
    (hwaiting : st.waiting = 0) (hids : ∀ p ∈ st.recovery.packets, p.messageId ≠ 0) : Quiet st := by
  have hnothing : st.waitingList = [] := by
    rw [← List.length_eq_zero_iff, length_waitingList, hwaiting]
  refine ⟨hnothing, ?_⟩
  intro p hp
  by_contra hunsent
  -- an unsent packet has its write in the queue
  obtain ⟨-, w, hw, -⟩ := hrun.backed p hp (hids p hp) (by simpa using hunsent)
  have hlen : st.scheduler.queued.card = 0 := by
    rw [SchedulerState.card_queued]
    unfold waiting at hwaiting
    omega
  have hw : .write w ∈ st.scheduler.queued := hw
  rw [Multiset.card_eq_zero.mp hlen] at hw
  exact Multiset.notMem_zero _ hw

/-- **A peer that falls silent.**  In every state of a session in which nothing waits, polls in rounds,
each round a timeout behind the one before and one round more than there are attempts, empty the
in-flight table and report every message that was in flight as failed, exactly once. -/
theorem silent_peer_verdicts {calls : List Call} {times : List Nat}
    (hrun : EngineRun config (fun st op => op.keeps config st = true) calls st)
    (hwaiting : st.waiting = 0) (hids : ∀ p ∈ st.recovery.packets, p.messageId ≠ 0)
    (hdue : AllDue config nowMs st)
    (hspaced : List.IsChain (fun a b => a < b ∧ a + config.retransmitTimeoutMs ≤ b) (nowMs :: times))
    (hrounds : config.maxRetransmitAttempts.toNat ≤ times.length)
    (htx : ∀ txLen ∈ txLens, maxWireBytes ≤ txLen) (hlen : maxEvents ≤ txLens.length) :
    (st.rounds config txLens (nowMs :: times)).1.recovery.packets = [] ∧
      (reportedFailures (st.rounds config txLens (nowMs :: times)).2).Perm
        ((inFlightMessages st).map messageFailure) := by
  refine (hrun.quiet hwaiting hids).rounds hdue hspaced htx hlen ?_
  intro p _
  omega

end Rounds

/-! ### Scripts -/

theorem unansweredState_quiet :
    keepsAll .default unansweredScript (.new EngineConfig.default.initialMessageId) = true ∧
      unansweredState.waiting = 0 ∧ unansweredState.recovery.lastTickMs ≠ some 50 ∧
      (∀ p ∈ unansweredState.recovery.packets, p.messageId ≠ 0 ∧ p.lastSentMs + 50 ≤ 50) ∧
      inFlightMessages unansweredState = [(.data, 1013904223)] := by
  decide +kernel

/-- Six rounds fail the message. -/
theorem silent_peer_verdicts_unanswered :
    (unansweredState.rounds .default (List.replicate 16 128)
      [50, 100, 150, 200, 250, 300]).1.recovery.packets = [] ∧
    (reportedFailures (unansweredState.rounds .default (List.replicate 16 128)
      [50, 100, 150, 200, 250, 300]).2).Perm [⟨.data, 1013904223, .retryLimitReached⟩] := by
  obtain ⟨hkeeps, hwaiting, hfresh, hpackets, hmessages⟩ := unansweredState_quiet
  have hrun : EngineRun .default (fun st op => op.keeps .default st = true) _ unansweredState :=
    EngineRun.new.session hkeeps
  have hspaced : List.IsChain (fun a b => a < b ∧ a + EngineConfig.default.retransmitTimeoutMs ≤ b)
      [50, 100, 150, 200, 250, 300] := by decide
  have hlong : ∀ txLen ∈ List.replicate 16 128, maxWireBytes ≤ txLen := by decide
  have hverdicts := silent_peer_verdicts hrun hwaiting (fun p hp => (hpackets p hp).1)
    ⟨hfresh, fun p hp => (hpackets p hp).2⟩ hspaced (by decide) hlong (by decide)
  rw [hmessages] at hverdicts
  exact hverdicts

end Msrt
