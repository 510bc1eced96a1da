import Msrt.QueueOrder
import Msrt.Verdicts

/-! # The retransmission tick, packet by packet

A tick gives up the messages of which a packet has used all its attempts and queues every other packet
whose timeout has passed, once.  With room for what it adds, the scheduler behind the tick is known
exactly (`queued_tickRetransmit`): the failures, the retransmissions, and what was queued before except
the writes that a retransmission stands in for.
-/

namespace Msrt
open EngineState

/-! ## Pushes that find room -/

namespace SchedulerState
variable {s s' : SchedulerState} {w : WriteEvent}

/-- A write is pushed if its key is queued already or there is room. -/
theorem pushed_of_room (hroom : w.key ∈ s.keys ∨ s.len < maxEvents) :
    Pushed s (.write w) (s.pushIgnored (.write w)) := by
  unfold pushIgnored
  cases hpush : s.push (.write w) with
  | ok s' => exact push_eq_ok hpush
  | error e =>
    obtain ⟨hfull, hfresh⟩ := push_eq_error hpush
    rcases hroom with hkey | hlt
    · exact absurd hkey (key_notMem (hfresh w rfl))
    · omega

/-- With distinct keys, a pushed write takes the place of the queued write of its key. -/
theorem Pushed.queued_eq (hd : s.keys.Nodup) (h : Pushed s (.write w) s') :
    s'.queued = .write w ::ₘ s.queued.filter (fun e => e.writeKey? ≠ some w.key) := by
  cases h with
  | replaced write old rest he hkey hold hnew =>
    obtain rfl := EngineOutput.write.inj he
    rw [keys_of_queued_write hold, Multiset.nodup_cons, hkey] at hd
    have hrest : ∀ e ∈ rest, e.writeKey? ≠ some w.key := fun e he hsame =>
      hd.1 ((Multiset.mem_filterMap _ _).mpr ⟨e, he, hsame⟩)
    rw [hnew, hold, Multiset.filter_cons_of_neg, Multiset.filter_eq_self.mpr hrest]
    rw [not_not, ← hkey]
    rfl
  | added hfresh _ hnew =>
    rw [hnew, Multiset.filter_eq_self.mpr]
    intro e he hsame
    exact key_notMem (hfresh w rfl) ((Multiset.mem_filterMap _ _).mpr ⟨e, he, hsame⟩)

theorem Pushed.len_eq (h : Pushed s (.write w) s') :
    s'.len = if w.key ∈ s.keys then s.len else s.len + 1 := by
  rw [← s.card_queued, ← s'.card_queued]
  cases h with
  | replaced write old rest he hkey hold hnew =>
    obtain rfl := EngineOutput.write.inj he
    have hmem : w.key ∈ s.keys := by
      rw [keys_of_queued_write hold, hkey]
      exact Multiset.mem_cons_self _ _
    rw [if_pos hmem, hold, hnew, Multiset.card_cons, Multiset.card_cons]
  | added hfresh _ hnew => rw [if_neg (key_notMem (hfresh w rfl)), hnew, Multiset.card_cons]

/-- A pushed write changes the membership of its own key alone. -/
theorem Pushed.mem_keys_iff (hd : s.keys.Nodup) (h : Pushed s (.write w) s') {key : PacketKey}
    (hne : key ≠ w.key) : key ∈ s'.keys ↔ key ∈ s.keys := by
  rw [keys, h.queued_eq hd, Multiset.filterMap_cons_some EngineOutput.writeKey? (.write w) _ rfl,
    Multiset.mem_cons, or_iff_right hne, keys, Multiset.mem_filterMap, Multiset.mem_filterMap]
  constructor
  · rintro ⟨e, he, hkey⟩
    exact ⟨e, (Multiset.mem_filter.mp he).1, hkey⟩
  · rintro ⟨e, he, hkey⟩
    refine ⟨e, Multiset.mem_filter.mpr ⟨he, ?_⟩, hkey⟩
    rw [hkey]
    exact fun hsame => hne (Option.some.inj hsame)

/-- Writes of distinct keys, with room for those whose key is not queued. -/
theorem queued_foldl_writes {writes : List WriteEvent} (hd : s.keys.Nodup)
    (hkeys : (writes.map WriteEvent.key).Nodup)
    (hroom : s.len + (writes.filter fun w => w.key ∉ s.keys).length ≤ maxEvents) :
    ((writes.map EngineOutput.write).foldl pushIgnored s).queued =
      (writes.map EngineOutput.write : Multiset EngineOutput) +
        s.queued.filter (fun e => ∀ w ∈ writes, e.writeKey? ≠ some w.key) := by
  induction writes generalizing s with
  | nil => simp
  | cons w writes ih =>
    rw [List.map_cons, List.nodup_cons] at hkeys
    have hpushed : Pushed s (.write w) (s.pushIgnored (.write w)) := by
      apply pushed_of_room
      by_cases hkey : w.key ∈ s.keys
      · exact .inl hkey
      · rw [List.filter_cons_of_pos (by simpa using hkey), List.length_cons] at hroom
        exact .inr (by omega)
    have hothers : ∀ w' ∈ writes, w'.key ≠ w.key := fun w' hw' hsame =>
      hkeys.1 (List.mem_map.mpr ⟨w', hw', hsame⟩)
    -- the keys are distinct, so a push changes nothing for the writes behind it
    have hfilter : (writes.filter fun w' => w'.key ∉ (s.pushIgnored (.write w)).keys) =
        writes.filter fun w' => w'.key ∉ s.keys :=
      List.filter_congr fun w' hw' => decide_eq_decide.mpr
        (not_congr (hpushed.mem_keys_iff hd (hothers w' hw')))
    have hlen := hpushed.len_eq
    have hroom' : (s.pushIgnored (.write w)).len +
        (writes.filter fun w' => w'.key ∉ (s.pushIgnored (.write w)).keys).length ≤ maxEvents := by
      rw [hfilter, hlen]
      by_cases hkey : w.key ∈ s.keys
      · rw [List.filter_cons_of_neg (by simpa using hkey)] at hroom
        rwa [if_pos hkey]
      · rw [List.filter_cons_of_pos (by simpa using hkey), List.length_cons] at hroom
        rw [if_neg hkey]
        omega
    rw [List.map_cons, List.foldl_cons, ih (hpushed.keys_nodup hd) hkeys.2 hroom',
      hpushed.queued_eq hd, Multiset.filter_cons_of_pos, Multiset.filter_filter,
      ← Multiset.cons_coe, Multiset.add_cons, Multiset.cons_add]
    · congr 2
      apply Multiset.filter_congr
      intro e _
      rw [List.forall_mem_cons, and_comm]
    · intro w' hw' hsame
      exact hothers w' hw' (Option.some.inj hsame).symm

/-- A pushed failure is added if there is room. -/
theorem pushIgnored_sendFailed (event : SendFailedEvent) (hroom : s.len < maxEvents) :
    (s.pushIgnored (.sendFailed event)).queued = .sendFailed event ::ₘ s.queued := by
  unfold pushIgnored
  cases hpush : s.push (.sendFailed event) with
  | ok s' =>
    cases push_eq_ok hpush with
    | replaced write _ _ hwrite => cases hwrite
    | added _ _ hqueued => exact hqueued
  | error e => exact absurd (push_eq_error hpush).1 (Nat.ne_of_lt hroom)

theorem queued_foldl_sendFailed {events : List SendFailedEvent}
    (hroom : s.len + events.length ≤ maxEvents) :
    ((events.map EngineOutput.sendFailed).foldl pushIgnored s).queued =
      (events.map EngineOutput.sendFailed : Multiset EngineOutput) + s.queued := by
  induction events generalizing s with
  | nil => simp
  | cons event events ih =>
    rw [List.length_cons] at hroom
    have hpush := s.pushIgnored_sendFailed event (by omega)
    have hlen := congrArg Multiset.card hpush
    rw [Multiset.card_cons, card_queued, card_queued] at hlen
    rw [List.map_cons, List.foldl_cons, ih (by omega), hpush, ← Multiset.cons_coe, Multiset.add_cons,
      Multiset.cons_add]

/-- Failures have no key. -/
theorem keys_of_queued_sendFailed {events : List SendFailedEvent}
    (h : s'.queued = (events.map EngineOutput.sendFailed : Multiset EngineOutput) + s.queued) :
    s'.keys = s.keys := by
  have hnone : events.filterMap (EngineOutput.writeKey? ∘ EngineOutput.sendFailed) = [] :=
    List.filterMap_eq_nil_iff.mpr fun event _ => rfl
  rw [keys, h, Multiset.filterMap_add, Multiset.filterMap_coe, List.filterMap_map, hnone]
  exact zero_add _

end SchedulerState

/-! ## What a tick is about to do -/

section Tick
variable (config : EngineConfig) (nowMs : Nat) (st : EngineState)

/-- The packets a tick at `nowMs` queues again: due, and of a message it does not give up. -/
def retransmittedPackets : List InFlightPacket :=
  st.recovery.packets.filter fun p =>
    retransmitDue config nowMs p && !(failingMessages config nowMs st).contains p.message

/-- How many events a tick at `nowMs` adds: a failure for each message it gives up, and a write for each
packet it queues again unless a write with its key is queued. -/
def tickAdditions : Nat := (failingMessages config nowMs st).length +
  ((retransmittedPackets config nowMs st).filter fun p => p.key ∉ st.scheduler.keys).length

/-- The failure of each message a tick gives up. -/
def tickFailures : List SendFailedEvent :=
  (failingMessages config nowMs st).map fun message => ⟨message.1, message.2, .retryLimitReached⟩

variable {config nowMs st}

theorem failingMessages_perm :
    (st.tickScan config nowMs).failedMessages.Perm (failingMessages config nowMs st) := by
  have hscan := scanned_tickScan config nowMs st
  have hcomplete := scanComplete_tickScan config nowMs st
  refine (List.perm_ext_iff_of_nodup hscan.nodup (List.nodup_dedup _)).mpr ?_
  intro message
  rw [List.mem_dedup, List.mem_map]
  constructor
  · intro hmessage
    rw [hscan.failedMessages] at hmessage
    obtain ⟨p, hp, rfl⟩ := List.mem_map.mp hmessage
    exact ⟨p, List.mem_filter.mpr (hscan.failures p hp), rfl⟩
  · rintro ⟨p, hp, rfl⟩
    obtain ⟨hmem, hlimit⟩ := List.mem_filter.mp hp
    exact hcomplete.failed p hmem hlimit

theorem mem_failedMessages {message : PacketType × MessageId} :
    message ∈ (st.tickScan config nowMs).failedMessages ↔ message ∈ failingMessages config nowMs st :=
  failingMessages_perm.mem_iff

/-- A due packet of a message that is not given up has attempts left. -/
theorem retryLeft_of_kept {p : InFlightPacket} (hp : p ∈ st.recovery.packets)
    (hdue : retransmitDue config nowMs p = true) (hkept : p.message ∉ failingMessages config nowMs st) :
    p.attempts < config.maxRetransmitAttempts := by
  by_contra hattempts
  refine hkept (List.mem_dedup.mpr (List.mem_map.mpr ⟨p, List.mem_filter.mpr ⟨hp, ?_⟩, rfl⟩))
  rw [retryLimitReached, hdue, Bool.true_and, decide_eq_true_eq]
  exact UInt8.not_lt.mp hattempts

/-- The second loop queues the due packets of the other messages. -/
theorem filter_retransmits :
    ((st.tickScan config nowMs).retransmits.filter fun p =>
      !(st.tickScan config nowMs).failedMessages.contains p.message) =
        retransmittedPackets config nowMs st := by
  have hcomplete := scanComplete_tickScan config nowMs st
  have hretransmits : (st.tickScan config nowMs).retransmits =
      st.recovery.packets.filter (retryLeft config nowMs) := hcomplete.retransmits
  rw [hretransmits, List.filter_filter, retransmittedPackets]
  apply List.filter_congr
  intro p hp
  have hsame : (st.tickScan config nowMs).failedMessages.contains p.message =
      (failingMessages config nowMs st).contains p.message := by
    rw [List.contains_eq_mem, List.contains_eq_mem, decide_eq_decide]
    exact mem_failedMessages
  rw [hsame, Bool.and_comm]
  by_cases hkept : p.message ∈ failingMessages config nowMs st
  · rw [List.contains_eq_mem, decide_eq_true hkept, Bool.not_true, Bool.and_false, Bool.and_false]
  · rw [List.contains_eq_mem, decide_eq_false hkept, Bool.not_false, Bool.and_true, Bool.and_true,
      retryLeft]
    cases hdue : retransmitDue config nowMs p with
    | false => rfl
    | true =>
      rw [Bool.true_and, decide_eq_true_eq]
      exact retryLeft_of_kept hp hdue hkept

theorem packets_eq_foldl_failMessage (failures : List InFlightPacket) (st : EngineState) :
    (failures.foldl failMessage st).recovery.packets = st.recovery.packets.filter fun p =>
      !(failures.map InFlightPacket.message).contains p.message := by
  induction failures generalizing st with
  | nil => simp
  | cons failure failures ih =>
    have hone : (st.failMessage failure).recovery.packets = st.recovery.packets.filter fun p =>
        !(p.packetType == failure.packetType && p.messageId == failure.messageId) := by
      show (st.recovery.inFlight.removeMessage failure.packetType failure.messageId).toList = _
      unfold InFlightPackets.removeMessage InFlightPackets.toList
      dsimp only
      rw [SlotTable.entries_clearAll]
      rfl
    rw [List.foldl_cons, ih, hone, List.filter_filter]
    apply List.filter_congr
    intro p _
    rw [List.map_cons, List.contains_cons, Bool.not_or, Bool.and_comm]
    rfl

/-- **The in-flight table after a tick**: without the packets of the messages given up. -/
theorem packets_tickRetransmit (htick : st.recovery.lastTickMs ≠ some nowMs) :
    (st.tickRetransmit config nowMs).recovery.packets = st.recovery.packets.filter fun p =>
      !(failingMessages config nowMs st).contains p.message := by
  have hscan := scanned_tickScan config nowMs st
  have hmessages : (st.tickScan config nowMs).failures.map InFlightPacket.message =
      (st.tickScan config nowMs).failedMessages := hscan.failedMessages.symm
  rw [tickRetransmit_of_ne htick, recovery_foldl_queueRetransmit, packets_eq_foldl_failMessage,
    hmessages]
  apply List.filter_congr
  intro p _
  rw [List.contains_eq_mem, List.contains_eq_mem, decide_eq_decide.mpr mem_failedMessages]

/-- A tick tracks no other packet. -/
theorem mem_packets_of_tickRetransmit {p : InFlightPacket}
    (hp : p ∈ (st.tickRetransmit config nowMs).recovery.packets) : p ∈ st.recovery.packets := by
  by_cases htick : st.recovery.lastTickMs = some nowMs
  · rw [tickRetransmit_of_eq htick] at hp
    exact hp
  · rw [packets_tickRetransmit htick] at hp
    exact (List.mem_filter.mp hp).1

theorem tickFailures_perm :
    ((st.tickScan config nowMs).failures.map failureOf).Perm (tickFailures config nowMs st) := by
  have hscan := scanned_tickScan config nowMs st
  have hmessages : (st.tickScan config nowMs).failures.map failureOf =
      (st.tickScan config nowMs).failedMessages.map fun message =>
        ⟨message.1, message.2, .retryLimitReached⟩ := by
    have hfailed : (st.tickScan config nowMs).failedMessages =
        (st.tickScan config nowMs).failures.map InFlightPacket.message := hscan.failedMessages
    rw [hfailed, List.map_map]
    rfl
  rw [hmessages]
  exact failingMessages_perm.map _

theorem retransmittedPackets_keys_nodup :
    (((retransmittedPackets config nowMs st).map retransmitWrite).map WriteEvent.key).Nodup := by
  rw [List.map_map]
  exact st.recovery.inFlight.keys_nodup.sublist (List.filter_sublist.map _)

/-- **The scheduler after a tick that finds room for what it adds.** -/
theorem queued_tickRetransmit (hd : st.scheduler.keys.Nodup)
    (htick : st.recovery.lastTickMs ≠ some nowMs)
    (hroom : tickAdditions config nowMs st ≤ st.scheduler.available) :
    (st.tickRetransmit config nowMs).scheduler.queued =
      (((retransmittedPackets config nowMs st).map retransmitWrite).map EngineOutput.write :
        Multiset EngineOutput) +
      ((tickFailures config nowMs st).map EngineOutput.sendFailed + st.scheduler.queued).filter
        (fun e => ∀ p ∈ retransmittedPackets config nowMs st, e.writeKey? ≠ some p.key) := by
  have havailable : st.scheduler.len + tickAdditions config nowMs st ≤ maxEvents := by
    have hle := st.scheduler.len_le
    unfold SchedulerState.available at hroom
    unfold SchedulerState.len at hroom ⊢
    omega
  unfold tickAdditions at havailable
  have hperm := @tickFailures_perm config nowMs st
  have hlen : ((st.tickScan config nowMs).failures.map failureOf).length =
      (failingMessages config nowMs st).length := by rw [hperm.length_eq, tickFailures, List.length_map]
  -- first the failures
  obtain ⟨failed, hfold⟩ : ∃ failed, failed =
    (((st.tickScan config nowMs).failures.map failureOf).map EngineOutput.sendFailed).foldl
      SchedulerState.pushIgnored st.scheduler := ⟨_, rfl⟩
  have hfailed : failed.queued = (((st.tickScan config nowMs).failures.map failureOf).map
      EngineOutput.sendFailed : Multiset EngineOutput) + st.scheduler.queued := by
    rw [hfold]
    exact SchedulerState.queued_foldl_sendFailed (by omega)
  have hkeys := SchedulerState.keys_of_queued_sendFailed hfailed
  have hcard := congrArg Multiset.card hfailed
  rw [Multiset.card_add, Multiset.coe_card, List.length_map, SchedulerState.card_queued,
    SchedulerState.card_queued] at hcard
  -- then the writes
  have hadded : ((((retransmittedPackets config nowMs st).map retransmitWrite).filter fun w =>
      w.key ∉ failed.keys).length) =
        ((retransmittedPackets config nowMs st).filter fun p => p.key ∉ st.scheduler.keys).length := by
    rw [hkeys, List.filter_map, List.length_map]
    rfl
  have hwrites := SchedulerState.queued_foldl_writes (hkeys ▸ hd)
    (@retransmittedPackets_keys_nodup config nowMs st) (by omega)
  have hscheduler : (st.tickRetransmit config nowMs).scheduler =
      (((retransmittedPackets config nowMs st).map retransmitWrite).map EngineOutput.write).foldl
        SchedulerState.pushIgnored failed := by
    rw [tickRetransmit_of_ne htick, scheduler_foldl_queueRetransmit, filter_retransmits,
      scheduler_foldl_failMessage, hfold, List.map_map, List.map_map]
    rfl
  rw [hscheduler, hwrites, hfailed, Multiset.coe_eq_coe.mpr (hperm.map EngineOutput.sendFailed)]
  congr 1
  apply Multiset.filter_congr
  intro e _
  rw [List.forall_mem_map]
  rfl

theorem mem_retransmittedPackets {p : InFlightPacket} :
    p ∈ retransmittedPackets config nowMs st ↔ p ∈ st.recovery.packets ∧
      retransmitDue config nowMs p = true ∧ p.message ∉ failingMessages config nowMs st := by
  simp [retransmittedPackets]

/-! ## The tick as a whole -/

variable (config nowMs st) in
/-- What a tick at `nowMs` makes of the state. -/
structure TickedExactly (st' : EngineState) : Prop where
  inFlight : st'.recovery.packets = st.recovery.packets.filter fun p =>
    !(failingMessages config nowMs st).contains p.message
  failures : st'.scheduler.failures =
    (tickFailures config nowMs st : Multiset SendFailedEvent) + st.scheduler.failures
  requeued : ∀ p ∈ st.recovery.packets, retransmitDue config nowMs p = true →
    p.message ∉ failingMessages config nowMs st →
    st'.scheduler.queued.filter (fun e => e.writeKey? = some p.key) =
      {.write ⟨p.key, p.wire, p.attempts + 1, .retransmit⟩} ∧
      (p.attempts + 1).toNat = p.attempts.toNat + 1
  others : ∀ key, (∀ p ∈ st.recovery.packets, p.key = key → retransmitDue config nowMs p = true →
      p.message ∈ failingMessages config nowMs st) →
    st'.scheduler.queued.filter (fun e => e.writeKey? = some key) =
      st.scheduler.queued.filter (fun e => e.writeKey? = some key)
  receive : st'.receive = st.receive
  ack : st'.ack = st.ack
  message : st'.message = st.message
  again : st'.tickRetransmit config nowMs = st'

/-- A tick that has room for its failures queues each of them once. -/
theorem failures_tickRetransmit (htick : st.recovery.lastTickMs ≠ some nowMs)
    (hroom : tickAdditions config nowMs st ≤ st.scheduler.available) :
    (st.tickRetransmit config nowMs).scheduler.failures =
      (tickFailures config nowMs st : Multiset SendFailedEvent) + st.scheduler.failures := by
  have hperm := @tickFailures_perm config nowMs st
  have hlen := hperm.length_eq
  rw [List.length_map, tickFailures, List.length_map] at hlen
  have hle : st.scheduler.len + (st.tickScan config nowMs).failures.length ≤ maxEvents := by
    have hbound := st.scheduler.len_le
    unfold tickAdditions SchedulerState.available at hroom
    unfold SchedulerState.len at hroom ⊢
    omega
  rw [tickRetransmit_of_ne htick, failures_foldl_queueRetransmit, failures_foldl_failMessage,
    Multiset.coe_eq_coe.mpr hperm]
  · rfl
  · exact hle

/-- Failures are writes of no key. -/
theorem filter_sendFailed (events : List SendFailedEvent) (key : PacketKey) :
    (events.map EngineOutput.sendFailed : Multiset EngineOutput).filter
      (fun e => e.writeKey? = some key) = 0 := by
  apply Multiset.filter_eq_nil.mpr
  intro e he hkey
  obtain ⟨event, -, rfl⟩ := List.mem_map.mp (Multiset.mem_coe.mp he)
  cases hkey

/-- A packet that is queued again has one write. -/
theorem filter_tickRetransmit_requeued (hd : st.scheduler.keys.Nodup)
    (htick : st.recovery.lastTickMs ≠ some nowMs)
    (hroom : tickAdditions config nowMs st ≤ st.scheduler.available) {p : InFlightPacket}
    (hp : p ∈ retransmittedPackets config nowMs st) :
    (st.tickRetransmit config nowMs).scheduler.queued.filter (fun e => e.writeKey? = some p.key) =
      {.write (retransmitWrite p)} := by
  have hnodup := @retransmittedPackets_keys_nodup config nowMs st
  rw [List.map_map, ← Multiset.coe_nodup, ← Multiset.map_coe] at hnodup
  obtain ⟨rest, hrest⟩ := Multiset.exists_cons_of_mem (Multiset.mem_coe.mpr hp)
  rw [hrest, Multiset.map_cons, Multiset.nodup_cons] at hnodup
  have hnone : (rest.map fun q => EngineOutput.write (retransmitWrite q)).filter
      (fun e => e.writeKey? = some p.key) = 0 := by
    apply Multiset.filter_eq_nil.mpr
    intro e he hkey
    obtain ⟨q, hq, rfl⟩ := Multiset.mem_map.mp he
    exact hnodup.1 (Multiset.mem_map.mpr ⟨q, hq, Option.some.inj hkey⟩)
  rw [queued_tickRetransmit hd htick hroom, Multiset.filter_add, List.map_map, ← Multiset.map_coe,
    hrest, Multiset.map_cons, Multiset.filter_cons_of_pos, Multiset.filter_filter]
  · have hold : ((tickFailures config nowMs st).map EngineOutput.sendFailed +
        st.scheduler.queued).filter (fun e => e.writeKey? = some p.key ∧
          ∀ q ∈ retransmittedPackets config nowMs st, e.writeKey? ≠ some q.key) = 0 :=
      Multiset.filter_eq_nil.mpr fun e _ hkey => hkey.2 p hp hkey.1
    rw [hold, add_zero]
    exact congrArg (.write (retransmitWrite p) ::ₘ ·) hnone
  · rfl

/-- The writes of every other key are as before. -/
theorem filter_tickRetransmit_others (hd : st.scheduler.keys.Nodup)
    (htick : st.recovery.lastTickMs ≠ some nowMs)
    (hroom : tickAdditions config nowMs st ≤ st.scheduler.available) {key : PacketKey}
    (hkey : ∀ p ∈ retransmittedPackets config nowMs st, p.key ≠ key) :
    (st.tickRetransmit config nowMs).scheduler.queued.filter (fun e => e.writeKey? = some key) =
      st.scheduler.queued.filter (fun e => e.writeKey? = some key) := by
  have hnone : (((retransmittedPackets config nowMs st).map retransmitWrite).map EngineOutput.write :
      Multiset EngineOutput).filter (fun e => e.writeKey? = some key) = 0 := by
    apply Multiset.filter_eq_nil.mpr
    intro e he hsame
    rw [List.map_map] at he
    obtain ⟨p, hp, rfl⟩ := List.mem_map.mp (Multiset.mem_coe.mp he)
    exact hkey p hp (Option.some.inj hsame)
  have hold : ((tickFailures config nowMs st).map EngineOutput.sendFailed +
      st.scheduler.queued).filter (fun e => e.writeKey? = some key ∧
        ∀ q ∈ retransmittedPackets config nowMs st, e.writeKey? ≠ some q.key) =
      ((tickFailures config nowMs st).map EngineOutput.sendFailed +
        st.scheduler.queued).filter (fun e => e.writeKey? = some key) := by
    refine Multiset.filter_congr fun e _ => and_iff_left_of_imp ?_
    intro hsame q hq hother
    exact hkey q hq (Option.some.inj (hother.symm.trans hsame))
  rw [queued_tickRetransmit hd htick hroom, Multiset.filter_add, hnone, Multiset.filter_filter, hold,
    Multiset.filter_add, filter_sendFailed, zero_add, zero_add]

theorem expire_expire (r : ReassemblyState) (nowMs timeoutMs : Nat) :
    (r.expire nowMs timeoutMs).expire nowMs timeoutMs = r.expire nowMs timeoutMs := by
  unfold ReassemblyState.expire
  congr 1
  rw [List.map_map]
  apply List.map_congr_left
  intro slot _
  dsimp only [Function.comp]
  split <;> rfl

theorem advanceClock_eq_self (hclock : st.clock = ⟨nowMs⟩)
    (hexpired : st.reassembly.expire nowMs config.reassemblyTimeoutMs = st.reassembly) :
    st.advanceClock config nowMs = st := by
  rw [advanceClock, hexpired, ← hclock]

/-- **A second tick at the same time does nothing.** -/
theorem tickRetransmit_again (htick : st.recovery.lastTickMs ≠ some nowMs) :
    (st.tickRetransmit config nowMs).tickRetransmit config nowMs =
      st.tickRetransmit config nowMs := by
  have hframe := @tickRetransmit_frame config st nowMs
  have hlast : (st.tickRetransmit config nowMs).recovery.lastTickMs = some nowMs := by
    rw [tickRetransmit_of_ne htick, recovery_foldl_queueRetransmit, lastTick_foldl_failMessage]
  rw [tickRetransmit_of_eq hlast]
  apply advanceClock_eq_self hframe.clock
  rw [hframe.reassembly]
  exact expire_expire _ _ _

/-- **A tick treats every packet as specified**: in every state of a run, at a time that is not that of
the last tick, with room for the events it adds. -/
theorem tick_exact {calls : List Call} (hrun : EngineRun config (fun _ _ => True) calls st)
    (htick : st.recovery.lastTickMs ≠ some nowMs)
    (hroom : tickAdditions config nowMs st ≤ st.scheduler.available) :
    TickedExactly config nowMs st (st.tickRetransmit config nowMs) := by
  have hd : st.scheduler.keys.Nodup := hrun.packetRun.queueInv.nodup
  have hframe := @tickRetransmit_frame config st nowMs
  refine ⟨packets_tickRetransmit htick, failures_tickRetransmit htick hroom, ?_, ?_, hframe.receive,
    hframe.ack, hframe.message, tickRetransmit_again htick⟩
  · intro p hp hdue hkept
    have hleft := retryLeft_of_kept hp hdue hkept
    have hsucc : (p.attempts + 1).toNat = p.attempts.toNat + 1 := by
      have hlt := UInt8.lt_iff_toNat_lt.mp hleft
      have hmax := config.maxRetransmitAttempts.toNat_lt
      rw [UInt8.toNat_add, UInt8.toNat_one]
      omega
    have hattempts : saturatingSucc p.attempts = p.attempts + 1 := by
      apply if_neg
      intro hsaturated
      rw [hsaturated] at hsucc
      cases hsucc
    have hone := filter_tickRetransmit_requeued hd htick hroom
      (mem_retransmittedPackets.mpr ⟨hp, hdue, hkept⟩)
    rw [retransmitWrite, hattempts] at hone
    exact ⟨hone, hsucc⟩
  · intro key hkey
    apply filter_tickRetransmit_others hd htick hroom
    intro p hp hsame
    obtain ⟨hmem, hdue, hkept⟩ := mem_retransmittedPackets.mp hp
    exact hkept (hkey p hmem hsame hdue)

end Tick

/-! ### Scripts -/

/-- A message is transmitted, and no acknowledgement comes. -/
def unansweredScript : List EngineOp := [.send [7], .poll 0 128]

theorem unansweredScript_due :
    let st := (runOps .default unansweredScript (.new EngineConfig.default.initialMessageId)).2
    scriptSucceeds .default unansweredScript (.new EngineConfig.default.initialMessageId) = true ∧
      st.recovery.lastTickMs ≠ some 5000 ∧
      tickAdditions .default 5000 st ≤ st.scheduler.available ∧
      (retransmittedPackets .default 5000 st).length = 1 := by
  decide +kernel

/-- The tick behind the timeout queues the packet again. -/
theorem tick_exact_unanswered : ∃ (calls : List Call) (st : EngineState),
    EngineRun .default (fun _ _ => True) calls st ∧ (retransmittedPackets .default 5000 st).length = 1 ∧
      TickedExactly .default 5000 st (st.tickRetransmit .default 5000) := by
  obtain ⟨hsucceeds, htick, hroom, hone⟩ := unansweredScript_due
  have hrun : EngineRun .default (fun _ _ => True) _ _ :=
    (EngineRun.new.script hsucceeds).mono fun _ _ _ => trivial
  exact ⟨_, _, hrun, hone, tick_exact hrun htick hroom⟩

end Msrt
