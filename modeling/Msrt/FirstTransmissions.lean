import Msrt.AllOrNothing
import Msrt.QueueOrder
import Msrt.Retransmission
import Msrt.RetransmitTick

/-! # New data is a queue

The fragments of a message are queued when it is accepted, and each one leaves the queue of new data by
the poll that transmits it for the first time.  Retransmissions, PINGs and PONGs are pushed into the same
scheduler and may take the place of a write of their own key, wherever that stands, but they never touch
a fragment that waits for its first transmission (`FirstWrites`).  So, over whole runs, the packets that
were transmitted for the first time and the packets that still wait are the packets of the accepted
messages, in the order in which these were accepted, and a LOG packet is never transmitted again
(`new_data_in_order`).
-/

namespace Msrt
open EngineState

/-! ## Fragments that wait for their first transmission -/

/-- The fragments in a list of events; PINGs and PONGs have message id zero. -/
def fragmentWrites (events : List EngineOutput) : List WriteEvent :=
  (events.filterMap EngineOutput.write?).filter fun w => w.key.messageId != 0

theorem fragmentWrites_append (events more : List EngineOutput) :
    fragmentWrites (events ++ more) = fragmentWrites events ++ fragmentWrites more := by
  rw [fragmentWrites, List.filterMap_append, List.filter_append]
  rfl

theorem fragmentWrites_of_zero {w : WriteEvent} (h : w.key.messageId = 0) :
    fragmentWrites [.write w] = [] := by
  simp [fragmentWrites, EngineOutput.write?, h]

/-- The fragments among new data. -/
def SchedulerState.fresh (s : SchedulerState) : List WriteEvent :=
  fragmentWrites (s.events .newData)

/-- Fragments stand in the queue of their priority, and those that wait among new data were not
transmitted yet. -/
structure FirstWrites (packets : List InFlightPacket) (s : SchedulerState) : Prop where
  placed : ∀ kind w, .write w ∈ s.events kind → w.key.messageId ≠ 0 →
    queueForEvent (.write w) = kind
  classes : ∀ w, .write w ∈ s.queued → w.key.messageId ≠ 0 →
    (w.priority = .newData ∧ w.attempts = 0) ∨
      (w.priority = .retransmit ∧ w.attempts ≠ 0 ∧ dataKey w.wire.bytes = some w.key)
  unsent : ∀ w, .write w ∈ s.queued → w.key.messageId ≠ 0 → w.priority = .newData →
    ∀ p ∈ packets, p.key = w.key → p.sent = false

namespace FirstWrites
variable {packets : List InFlightPacket} {s s' : SchedulerState}

theorem mono (h : FirstWrites packets s) {packets' : List InFlightPacket}
    (hsub : ∀ p ∈ packets', p ∈ packets) : FirstWrites packets' s :=
  ⟨h.placed, h.classes, fun w hw hid hnew p hp => h.unsent w hw hid hnew p (hsub p hp)⟩

/-- What is taken out does not move what stays. -/
theorem suffix (h : FirstWrites packets s) (hsuffix : ∀ kind, s'.events kind <:+ s.events kind) :
    FirstWrites packets s' := by
  have hqueued : ∀ e, e ∈ s'.queued → e ∈ s.queued := by
    intro e he
    obtain ⟨kind, he⟩ := SchedulerState.mem_queued_iff.mp he
    exact SchedulerState.mem_queued_iff.mpr ⟨kind, (hsuffix kind).mem he⟩
  exact ⟨fun kind w hw => h.placed kind w ((hsuffix kind).mem hw),
    fun w hw => h.classes w (hqueued _ hw), fun w hw => h.unsent w (hqueued _ hw)⟩

end FirstWrites

/-! ## Pushes -/

/-- A push adds nothing but its event. -/
theorem SchedulerState.Placed.mem {s s' : SchedulerState} {event e : EngineOutput} {kind : QueueKind}
    (h : s.Placed event s') (he : e ∈ s'.events kind) : e = event ∨ e ∈ s.events kind := by
  cases h with
  | added hown hothers =>
    by_cases hkind : kind = queueForEvent event
    · rw [hkind, hown] at he
      rw [hkind]
      exact (List.mem_append.mp he).symm.imp_left List.mem_singleton.mp
    · rw [hothers kind hkind] at he
      exact .inr he
  | replaced own before after write old hevent _ hold hnew hothers =>
    by_cases hkind : kind = own
    · rw [hkind, hnew] at he
      rw [hkind, hold, hevent]
      simp only [List.mem_append, List.mem_cons] at he ⊢
      tauto
    · rw [hothers kind hkind] at he
      exact .inr he

/-- The push of such an event does not concern a fragment that waits for its first transmission. -/
inductive Spares (packets : List InFlightPacket) : EngineOutput → Prop
  | failed (event : SendFailedEvent) : Spares packets (.sendFailed event)
  | liveness (w : WriteEvent) : w.key.messageId = 0 → Spares packets (.write w)
  | again (w : WriteEvent) (p : InFlightPacket) : p ∈ packets → p.key = w.key → p.sent = true →
      w.priority = .retransmit → w.attempts ≠ 0 → dataKey w.wire.bytes = some w.key →
      Spares packets (.write w)

section Pushes
variable {packets : List InFlightPacket} {s s' : SchedulerState} {event : EngineOutput}

/-- Where a push takes the place of a fragment, that fragment was transmitted before. -/
theorem FirstWrites.replaces (h : FirstWrites packets s) (hspares : Spares packets event)
    {write old : WriteEvent} (hevent : event = .write write) (hkey : old.key = write.key)
    (hid : write.key.messageId ≠ 0) {kind : QueueKind} (hold : .write old ∈ s.events kind) :
    kind = .retransmit ∧ queueForEvent event = .retransmit := by
  subst hevent
  cases hspares with
  | liveness _ hzero => exact absurd hzero hid
  | again _ p hp hpkey hsent hpriority =>
    have hqueued := SchedulerState.mem_queued_iff.mpr ⟨kind, hold⟩
    have hid' : old.key.messageId ≠ 0 := by rwa [hkey]
    have hplace := h.placed kind old hold hid'
    rcases h.classes old hqueued hid' with ⟨hnew, -⟩ | ⟨hagain, -⟩
    · rw [h.unsent old hqueued hid' hnew p hp (hpkey.trans hkey.symm)] at hsent
      cases hsent
    · exact ⟨by rw [← hplace, queueForEvent, hagain], by rw [queueForEvent, hpriority]⟩

/-- The fragments among new data stay as they are. -/
theorem FirstWrites.fresh_placed (h : FirstWrites packets s) (hspares : Spares packets event)
    (hplaced : s.Placed event s') : s'.fresh = s.fresh := by
  have hsame (hsame : s'.events .newData = s.events .newData) : s'.fresh = s.fresh :=
    congrArg fragmentWrites hsame
  cases hplaced with
  | replaced kind before after write old hevent hkey hold hnew hothers =>
    by_cases hkind : kind = .newData
    · subst hkind
      have hid : write.key.messageId = 0 := by
        by_contra hid
        have hmem : .write old ∈ s.events .newData := by rw [hold]; simp
        cases (h.replaces hspares hevent hkey hid hmem).1
      have hzero : old.key.messageId = 0 := by rw [hkey, hid]
      rw [SchedulerState.fresh, SchedulerState.fresh, hold, hnew, ← List.singleton_append (l := after),
        ← List.singleton_append (l := after)]
      simp only [fragmentWrites_append, fragmentWrites_of_zero hid, fragmentWrites_of_zero hzero]
    · exact hsame (hothers _ fun heq => hkind heq.symm)
  | added hown hothers =>
    by_cases hkind : queueForEvent event = .newData
    · cases hspares with
      | failed => cases hkind
      | liveness w hzero =>
        rw [hkind] at hown
        rw [SchedulerState.fresh, hown, fragmentWrites_append, fragmentWrites_of_zero hzero,
          List.append_nil]
        rfl
      | again w p _ _ _ hpriority =>
        rw [queueForEvent, hpriority] at hkind
        cases hkind
    · exact hsame (hothers _ fun heq => hkind heq.symm)

/-- Every fragment stands in the queue of its priority behind the push. -/
theorem FirstWrites.placed_placed (h : FirstWrites packets s) (hspares : Spares packets event)
    (hplaced : s.Placed event s') {kind : QueueKind} {w : WriteEvent} (hw : .write w ∈ s'.events kind)
    (hid : w.key.messageId ≠ 0) : queueForEvent (.write w) = kind := by
  rcases hplaced.mem hw with rfl | hold
  · cases hplaced with
    | replaced own before after write old hevent hkey hold hnew hothers =>
      obtain rfl := EngineOutput.write.inj hevent
      by_cases hkind : kind = own
      · have hmem : .write old ∈ s.events own := by rw [hold]; simp
        obtain ⟨hown, hqueue⟩ := h.replaces hspares rfl hkey hid hmem
        rw [hqueue, hkind, hown]
      · rw [hothers kind hkind] at hw
        exact h.placed kind w hw hid
    | added hown hothers =>
      by_cases hkind : kind = queueForEvent (.write w)
      · exact hkind.symm
      · rw [hothers kind hkind] at hw
        exact h.placed kind w hw hid
  · exact h.placed kind w hold hid

/-- **A push that spares them keeps the fragments in their places.** -/
theorem FirstWrites.push (h : FirstWrites packets s) (hspares : Spares packets event) :
    FirstWrites packets (s.pushIgnored event) ∧ (s.pushIgnored event).fresh = s.fresh := by
  rcases s.pushIgnored_placed event with hplaced | hrefused
  · have hclass : ∀ w, event = .write w → w.key.messageId ≠ 0 → w.priority = .retransmit ∧
        w.attempts ≠ 0 ∧ dataKey w.wire.bytes = some w.key := by
      rintro w rfl hid
      cases hspares with
      | liveness _ hzero => exact absurd hzero hid
      | again _ p _ _ _ hpriority hattempts hdata => exact ⟨hpriority, hattempts, hdata⟩
    have hqueued : ∀ w, .write w ∈ (s.pushIgnored event).queued →
        event = .write w ∨ .write w ∈ s.queued := by
      intro w hw
      obtain ⟨kind, hw⟩ := SchedulerState.mem_queued_iff.mp hw
      rcases hplaced.mem hw with heq | hw
      · exact .inl heq.symm
      · exact .inr (SchedulerState.mem_queued_iff.mpr ⟨kind, hw⟩)
    refine ⟨⟨?_, ?_, ?_⟩, h.fresh_placed hspares hplaced⟩
    · exact fun kind w hw hid => h.placed_placed hspares hplaced hw hid
    · intro w hw hid
      rcases hqueued w hw with heq | hw
      · exact .inr (hclass w heq hid)
      · exact h.classes w hw hid
    · intro w hw hid hnew
      rcases hqueued w hw with heq | hw
      · rw [(hclass w heq hid).1] at hnew
        cases hnew
      · exact h.unsent w hw hid hnew
  · rw [hrefused]
    exact ⟨h, rfl⟩

theorem FirstWrites.pushAll {events : List EngineOutput} (h : FirstWrites packets s)
    (hspares : ∀ event ∈ events, Spares packets event) :
    FirstWrites packets (events.foldl SchedulerState.pushIgnored s) ∧
      (events.foldl SchedulerState.pushIgnored s).fresh = s.fresh := by
  induction events generalizing s with
  | nil => exact ⟨h, rfl⟩
  | cons event events ih =>
    obtain ⟨hnext, hfresh⟩ := h.push (hspares event List.mem_cons_self)
    obtain ⟨hlast, hsame⟩ := ih hnext fun e he => hspares e (List.mem_cons_of_mem _ he)
    exact ⟨hlast, hsame.trans hfresh⟩

/-- The fragments of a message go behind the others. -/
theorem FirstWrites.appended {writes : List WriteEvent} (h : FirstWrites packets s)
    (happended : s.Appended writes s')
    (hnew : ∀ w ∈ writes, w.priority = .newData ∧ w.attempts = 0 ∧ w.key.messageId ≠ 0)
    {packets' : List InFlightPacket}
    (hpackets : ∀ p ∈ packets', p.sent = false ∨ (p ∈ packets ∧ ∀ w ∈ writes, p.key ≠ w.key)) :
    FirstWrites packets' s' ∧ s'.fresh = s.fresh ++ writes := by
  have hqueued : ∀ w, .write w ∈ s'.queued → w ∈ writes ∨ .write w ∈ s.queued := by
    intro w hw
    rcases happended.mem_queued hw with hw | ⟨w', hw', heq⟩
    · exact .inr hw
    · rw [EngineOutput.write.inj heq]
      exact .inl hw'
  have hevents : s'.events .newData = s.events .newData ++ writes.map .write := happended.newData
  have hothers : ∀ kind, kind ≠ .newData → s'.events kind = s.events kind := by
    intro kind hkind
    cases kind with
    | control => exact congrArg RingQueue.toList happended.control
    | retransmit => exact congrArg RingQueue.toList happended.retransmit
    | newData => exact absurd rfl hkind
    | «local» => exact congrArg RingQueue.toList happended.localQueue
  refine ⟨⟨?_, ?_, ?_⟩, ?_⟩
  · intro kind w hw hid
    by_cases hkind : kind = .newData
    · subst hkind
      rw [hevents, List.mem_append, List.mem_map] at hw
      rcases hw with hw | ⟨w', hw', heq⟩
      · exact h.placed _ w hw hid
      · rw [← EngineOutput.write.inj heq, queueForEvent, (hnew w' hw').1]
    · rw [hothers kind hkind] at hw
      exact h.placed kind w hw hid
  · intro w hw hid
    rcases hqueued w hw with hw | hw
    · exact .inl ⟨(hnew w hw).1, (hnew w hw).2.1⟩
    · exact h.classes w hw hid
  · intro w hw hid hpriority p hp hkey
    rcases hpackets p hp with hunsent | ⟨hp, hother⟩
    · exact hunsent
    · rcases hqueued w hw with hw | hw
      · exact absurd hkey (hother w hw)
      · exact h.unsent w hw hid hpriority p hp hkey
  · rw [SchedulerState.fresh, hevents, fragmentWrites_append]
    congr 1
    rw [fragmentWrites, List.filterMap_map, show (EngineOutput.write? ∘ EngineOutput.write) = some from
      rfl, List.filterMap_some, List.filter_eq_self]
    intro w hw
    exact bne_iff_ne.mpr (hnew w hw).2.2

end Pushes

/-! ## Taking something out -/

/-- What was taken out of the scheduler was the head of one of its queues. -/
theorem SchedulerState.taken_from_one {s s' : SchedulerState} {event : EngineOutput}
    (hsuffix : ∀ kind, s'.events kind <:+ s.events kind) (hqueued : s.queued = event ::ₘ s'.queued) :
    ∃ kind, s.events kind = event :: s'.events kind ∧
      ∀ other, other ≠ kind → s'.events other = s.events other := by
  choose taken htaken using hsuffix
  have hsum : ((taken .control : Multiset EngineOutput) + taken .retransmit + taken .newData +
      taken .local) + s'.queued = {event} + s'.queued := by
    rw [Multiset.singleton_add, ← hqueued]
    show _ + ((s'.events .control : Multiset EngineOutput) + s'.events .retransmit +
        s'.events .newData + s'.events .local) =
      (s.events .control : Multiset EngineOutput) + s.events .retransmit + s.events .newData +
        s.events .local
    simp only [← htaken, ← Multiset.coe_add]
    ac_rfl
  have hone := add_right_cancel hsum
  have hlength : (taken .control).length + (taken .retransmit).length + (taken .newData).length +
      (taken .local).length = 1 := by
    have hcard := congrArg Multiset.card hone
    simp only [Multiset.card_add, Multiset.coe_card, Multiset.card_singleton] at hcard
    exact hcard
  have hmem : ∃ kind, event ∈ taken kind := by
    have hevent : event ∈ ({event} : Multiset EngineOutput) := Multiset.mem_singleton_self _
    rw [← hone] at hevent
    simp only [Multiset.mem_add, Multiset.mem_coe] at hevent
    rcases hevent with ((hevent | hevent) | hevent) | hevent <;> exact ⟨_, hevent⟩
  obtain ⟨kind, hkind⟩ := hmem
  have hpos := List.length_pos_of_mem hkind
  have hothers : (taken kind).length = 1 ∧ ∀ other, other ≠ kind → (taken other).length = 0 := by
    refine ⟨by cases kind <;> omega, ?_⟩
    intro other hne
    cases kind <;> cases other <;> first | exact absurd rfl hne | omega
  refine ⟨kind, ?_, ?_⟩
  · obtain ⟨first, hfirst⟩ := List.length_eq_one_iff.mp hothers.1
    rw [hfirst] at hkind
    rw [← htaken kind, hfirst, List.mem_singleton.mp hkind]
    rfl
  · intro other hne
    rw [← htaken other, List.length_eq_zero_iff.mp (hothers.2 other hne)]
    rfl

/-- Where nothing was taken out the queues are the same. -/
theorem SchedulerState.taken_from_none {s s' : SchedulerState}
    (hsuffix : ∀ kind, s'.events kind <:+ s.events kind) (hqueued : s'.queued = s.queued)
    (kind : QueueKind) : s'.events kind = s.events kind := by
  have hcard := congrArg Multiset.card hqueued
  have hle (kind : QueueKind) := (hsuffix kind).length_le
  have hsum (s : SchedulerState) : s.queued.card = (s.events .control).length +
      (s.events .retransmit).length + (s.events .newData).length + (s.events .local).length := by
    simp [queued, events, Nat.add_assoc]
  rw [hsum, hsum] at hcard
  have hcontrol := hle .control
  have hretransmit := hle .retransmit
  have hnewData := hle .newData
  have hlocal := hle .local
  apply (hsuffix kind).eq_of_length
  cases kind <;> omega

/-! ## What goes out -/

/-- The key of the LOG packet inside an envelope. -/
def logKey (bytes : Bytes) : Option PacketKey :=
  match decodePacketBytes (envelopePacket bytes) with
  | .log _ fragment => some fragment.key
  | _ => none

theorem logKey_of_dataKey {bytes : Bytes} {key : PacketKey} (h : dataKey bytes = some key) :
    logKey bytes = none := by
  unfold dataKey at h
  unfold logKey
  split at h
  · rename_i hdec
    rw [hdec]
  · cases h

/-- The envelope carries a fragment of a message. -/
def carriesFragment (bytes : Bytes) : Bool := (dataKey bytes).isSome || (logKey bytes).isSome

theorem carriesFragment_of_decode {packet : Bytes} (integrity : IntegrityConfig)
    (hlen : packet.length ≤ maxPacketLen)
    (hdata : ∀ header fragment, decodePacketBytes packet ≠ .data header fragment)
    (hlog : ∀ header fragment, decodePacketBytes packet ≠ .log header fragment) :
    carriesFragment (envelope integrity packet) = false := by
  have hnone : logKey (envelope integrity packet) = none := by
    rw [logKey, envelopePacket_envelope integrity hlen]
    split
    · rename_i header fragment hdec
      exact absurd hdec (hlog header fragment)
    · rfl
  rw [carriesFragment, dataKey_eq_none integrity hlen hdata, hnone]
  rfl

theorem SentMessage.logKey_wire {m : SentMessage} {config : EngineConfig} {i : Nat} (hm : m.Valid)
    (hi : i < m.count config) (hlog : m.packetType ≠ .data) :
    logKey (m.wire config i).bytes = some (m.packetKey i) := by
  rcases decode_packet hm hi with ⟨hdata, -⟩ | ⟨-, header, hdec⟩
  · exact absurd hdata hlog
  · rw [m.wire_bytes, logKey, envelopePacket_envelope config.integrity (m.length_packet_le config i),
      hdec]
    rfl

theorem SentMessage.carriesFragment_wire {m : SentMessage} {config : EngineConfig} {i : Nat}
    (hm : m.Valid) (hi : i < m.count config) : carriesFragment (m.wire config i).bytes = true := by
  by_cases hdata : m.packetType = .data
  · rw [carriesFragment, m.dataKey_wire hm hi hdata]
    rfl
  · rw [carriesFragment, m.logKey_wire hm hi hdata, Option.isSome_some, Bool.or_true]

/-- What a queued write carries, by its message id. -/
theorem WriteOrigin.carriesFragment_iff {config : EngineConfig} {calls : List Call} {w : WriteEvent}
    (h : WriteOrigin config calls w)
    (hids : ∀ call ∈ calls, ∀ m, call.accepted config = some m → m.messageId ≠ 0) :
    carriesFragment w.wire.bytes = true ↔ w.key.messageId ≠ 0 := by
  cases h with
  | fragment call m i hc hm hi hkey hwire =>
    rw [hwire, hkey]
    exact iff_of_true (m.carriesFragment_wire (accepted_valid hm).1 hi) (hids call hc m hm)
  | liveness packetType hkind hkey hwire =>
    have hnone : carriesFragment w.wire.bytes = false := by
      rw [hwire, store_liveness]
      rcases hkind with rfl | rfl
      · exact carriesFragment_of_decode _ (by decide) nofun nofun
      · exact carriesFragment_of_decode _ (by decide) nofun nofun
    rw [hnone, hkey]
    exact iff_of_false Bool.false_ne_true (not_not.mpr rfl)

/-- The packet that a poll transmitted for the first time. -/
def firstOf (result : Except Error EnginePoll) : Option Bytes :=
  match result with
  | .ok (.transmit bytes attempts) =>
    if attempts = 0 ∧ carriesFragment bytes = true then some bytes else none
  | _ => none

/-- The packets that wait for their first transmission. -/
def SchedulerState.freshPackets (s : SchedulerState) : List Bytes :=
  s.fresh.map fun w => w.wire.bytes

/-- An acknowledgement is no fragment. -/
theorem firstOf_ack (key : PacketKey) (txLen : Nat) (integrity : IntegrityConfig) :
    firstOf ((encodeAckPacket key txLen integrity).map fun bytes => .transmit bytes 0) = none := by
  cases hencoded : encodeAckPacket key txLen integrity with
  | error e => rfl
  | ok wire =>
    obtain rfl := @eq_envelope_of_transmit_ack key txLen integrity wire 0 (by rw [hencoded]; rfl)
    simp only [Except.map, firstOf]
    refine if_neg fun hfirst => ?_
    rw [carriesFragment_of_decode integrity (by rw [length_ackPacketBytes]; decide)
      (by simp [decodePacketBytes_ackPacketBytes]) (by simp [decodePacketBytes_ackPacketBytes])]
      at hfirst
    cases hfirst.2

section Polled
variable {config : EngineConfig} {nowMs txLen : Nat} {st st' : EngineState}
  {result : Except Error EnginePoll} {bytes : Bytes} {attempts : UInt8}

/-- Behind a transmission there is no other write of its key. -/
theorem key_ne_of_taken {s s' : SchedulerState} {w w' : WriteEvent}
    (hqueued : s.queued = .write w ::ₘ s'.queued) (hnodup : s.keys.Nodup)
    (hw' : .write w' ∈ s'.queued) : w'.key ≠ w.key := by
  rw [SchedulerState.keys_of_queued_write hqueued, Multiset.nodup_cons] at hnodup
  intro hkey
  exact hnodup.1 (SchedulerState.mem_keys.mpr ⟨w', hw', hkey⟩)

/-- A transmission leaves the fragments that still wait in their places. -/
theorem FirstWrites.transmitted {w : WriteEvent} (h : FirstWrites st.recovery.packets st.scheduler)
    (hnodup : st.scheduler.keys.Nodup)
    (hsuffix : ∀ kind, st'.scheduler.events kind <:+ st.scheduler.events kind)
    (hqueued : st.scheduler.queued = .write w ::ₘ st'.scheduler.queued)
    (hrecovery : st'.recovery = st.recovery.noteWrite w nowMs) :
    FirstWrites st'.recovery.packets st'.scheduler := by
  have hsub : ∀ w', .write w' ∈ st'.scheduler.queued → .write w' ∈ st.scheduler.queued := by
    intro w' hw'
    rw [hqueued]
    exact Multiset.mem_cons_of_mem hw'
  refine ⟨?_, ?_, ?_⟩
  · exact fun kind w' hw' hid => h.placed kind w' ((hsuffix kind).mem hw') hid
  · exact fun w' hw' hid => h.classes w' (hsub w' hw') hid
  · intro w' hw' hid hnew p hp hkey
    rw [hrecovery] at hp
    obtain ⟨q, hq, rfl⟩ := mem_packets_noteWrite.mp hp
    have hother := key_ne_of_taken hqueued hnodup hw'
    by_cases hsame : q.key = w.key
    · rw [if_pos hsame, (w.mark_same nowMs q).1, hsame] at hkey
      exact absurd hkey.symm hother
    · rw [if_neg hsame] at hkey ⊢
      exact h.unsent w' (hsub w' hw') hid hnew q hq hkey

/-- What leaves the queue of new data with a transmission is what is transmitted for the first time. -/
theorem FirstWrites.freshPackets_transmitted {w : WriteEvent}
    (h : FirstWrites st.recovery.packets st.scheduler)
    (hsuffix : ∀ kind, st'.scheduler.events kind <:+ st.scheduler.events kind)
    (hqueued : st.scheduler.queued = .write w ::ₘ st'.scheduler.queued)
    (hcarries : carriesFragment w.wire.bytes = true ↔ w.key.messageId ≠ 0) :
    (firstOf (.ok (.transmit w.wire.bytes w.attempts))).toList ++ st'.scheduler.freshPackets =
      st.scheduler.freshPackets := by
  obtain ⟨kind, hown, hothers⟩ := SchedulerState.taken_from_one hsuffix hqueued
  have hmem : .write w ∈ st.scheduler.events kind := by
    rw [hown]
    exact List.mem_cons_self
  have hsame (hkind : kind ≠ .newData) : st'.scheduler.freshPackets = st.scheduler.freshPackets := by
    rw [SchedulerState.freshPackets, SchedulerState.fresh, hothers _ hkind.symm]
    rfl
  have hhead (hkind : kind = .newData) : st.scheduler.freshPackets =
      (fragmentWrites [.write w]).map (fun w => w.wire.bytes) ++ st'.scheduler.freshPackets := by
    subst hkind
    rw [SchedulerState.freshPackets, SchedulerState.fresh, hown, ← List.singleton_append,
      fragmentWrites_append, List.map_append]
    rfl
  by_cases hid : w.key.messageId = 0
  · -- a PING or a PONG is no fragment, wherever it stood
    have hnone : firstOf (.ok (.transmit w.wire.bytes w.attempts)) = none :=
      if_neg fun hfirst => hcarries.mp hfirst.2 hid
    rw [hnone]
    by_cases hkind : kind = .newData
    · rw [hhead hkind, fragmentWrites_of_zero hid]
      rfl
    · exact hsame hkind
  · have hplace := h.placed kind w hmem hid
    rcases h.classes w (SchedulerState.mem_queued_iff.mpr ⟨kind, hmem⟩) hid with
      ⟨hnew, hattempts⟩ | ⟨hagain, hattempts, -⟩
    · have hsome : firstOf (.ok (.transmit w.wire.bytes w.attempts)) = some w.wire.bytes :=
        if_pos ⟨hattempts, hcarries.mpr hid⟩
      have hone : fragmentWrites [.write w] = [w] := by
        simp [fragmentWrites, EngineOutput.write?, hid]
      rw [hsome, hhead (by rw [← hplace, queueForEvent, hnew]), hone]
      rfl
    · have hnone : firstOf (.ok (.transmit w.wire.bytes w.attempts)) = none :=
        if_neg fun hfirst => hattempts hfirst.1
      rw [hnone]
      refine hsame fun hkind => ?_
      rw [hkind, queueForEvent, hagain] at hplace
      cases hplace

/-- The packets that wait, where nothing was transmitted. -/
theorem freshPackets_sublist (hsuffix : ∀ kind, st'.scheduler.events kind <:+ st.scheduler.events kind) :
    st'.scheduler.freshPackets.Sublist st.scheduler.freshPackets :=
  (((hsuffix .newData).sublist.filterMap _).filter _).map _

/-- **A poll accounts for what it takes out**: it transmits the first packet that waits, and where it
fails it may drop one. -/
theorem FirstWrites.polled (h : FirstWrites st.recovery.packets st.scheduler)
    (hnodup : st.scheduler.keys.Nodup)
    (hsuffix : ∀ kind, st'.scheduler.events kind <:+ st.scheduler.events kind)
    (hcarries : ∀ w, .write w ∈ st.scheduler.queued →
      (carriesFragment w.wire.bytes = true ↔ w.key.messageId ≠ 0))
    (hstep : PollStep config nowMs txLen st st' result) :
    FirstWrites st'.recovery.packets st'.scheduler ∧
      ((firstOf result).toList ++ st'.scheduler.freshPackets).Sublist st.scheduler.freshPackets ∧
      (result.isOk = true →
        (firstOf result).toList ++ st'.scheduler.freshPackets = st.scheduler.freshPackets) := by
  -- no fragment was taken out of the scheduler
  have hsame (hfresh : st'.scheduler.events .newData = st.scheduler.events .newData)
      (hrecovery : st'.recovery = st.recovery) (hfirst : firstOf result = none) :
      FirstWrites st'.recovery.packets st'.scheduler ∧
        ((firstOf result).toList ++ st'.scheduler.freshPackets).Sublist st.scheduler.freshPackets ∧
        (result.isOk = true →
          (firstOf result).toList ++ st'.scheduler.freshPackets = st.scheduler.freshPackets) := by
    rw [hrecovery, hfirst, SchedulerState.freshPackets, SchedulerState.fresh, hfresh]
    exact ⟨h.suffix hsuffix, .refl _, fun _ => rfl⟩
  cases hstep with
  | ack key keys _ _ hscheduler hrecovery _ hres =>
    exact hsame (by rw [hscheduler]) hrecovery (hres ▸ firstOf_ack key txLen config.integrity)
  | transmit w hqueued _ hrecovery _ _ hres =>
    have hmem : .write w ∈ st.scheduler.queued := by
      rw [hqueued]
      exact Multiset.mem_cons_self _ _
    have htaken := h.freshPackets_transmitted hsuffix hqueued (hcarries w hmem)
    rw [hres]
    exact ⟨h.transmitted hnodup hsuffix hqueued hrecovery, htaken ▸ .refl _, fun _ => htaken⟩
  | tooSmall w _ _ hrecovery _ _ hres =>
    rw [hrecovery, hres]
    exact ⟨h.suffix hsuffix, freshPackets_sublist hsuffix, fun hok => by cases hok⟩
  | sendFailed event hqueued hrecovery _ _ hres =>
    obtain ⟨kind, hown, hothers⟩ := SchedulerState.taken_from_one hsuffix hqueued
    by_cases hkind : kind = .newData
    · subst hkind
      have hfresh : st'.scheduler.freshPackets = st.scheduler.freshPackets := by
        rw [SchedulerState.freshPackets, SchedulerState.freshPackets, SchedulerState.fresh,
          SchedulerState.fresh, hown]
        rfl
      rw [hrecovery, hres]
      exact ⟨h.suffix hsuffix, hfresh ▸ .refl _, fun _ => hfresh⟩
    · exact hsame (hothers _ (Ne.symm hkind)) hrecovery (by rw [hres]; rfl)
  | message message messages _ _ hqueued hrecovery _ hres =>
    exact hsame (SchedulerState.taken_from_none hsuffix hqueued _) hrecovery (by rw [hres]; rfl)
  | idle hqueued hrecovery _ _ hres =>
    exact hsame (SchedulerState.taken_from_none hsuffix hqueued _) hrecovery (by rw [hres]; rfl)

/-- A packet that is transmitted again is no LOG packet. -/
theorem FirstWrites.attempts_of_log (h : FirstWrites st.recovery.packets st.scheduler)
    (hcarries : ∀ w, .write w ∈ st.scheduler.queued →
      (carriesFragment w.wire.bytes = true ↔ w.key.messageId ≠ 0))
    (hstep : PollStep config nowMs txLen st st' (.ok (.transmit bytes attempts)))
    (hlog : logKey bytes ≠ none) : attempts = 0 := by
  cases hstep with
  | ack key keys _ _ _ _ _ hres =>
    -- an acknowledgement counts no attempts
    cases hencoded : encodeAckPacket key txLen config.integrity with
    | error e =>
      rw [hencoded] at hres
      cases hres
    | ok wire =>
      rw [hencoded] at hres
      cases hres
      rfl
  | transmit w hqueued _ _ _ _ hres =>
    cases hres
    have hmem : .write w ∈ st.scheduler.queued := by
      rw [hqueued]
      exact Multiset.mem_cons_self _ _
    have hfragment : carriesFragment w.wire.bytes = true := by
      rw [carriesFragment, Option.isSome_iff_ne_none.mpr hlog, Bool.or_true]
    rcases h.classes w hmem ((hcarries w hmem).mp hfragment) with ⟨-, hfirst⟩ | ⟨-, -, hdata⟩
    · exact hfirst
    · exact absurd (logKey_of_dataKey hdata) hlog
  | tooSmall w _ _ _ _ _ hres => cases hres
  | sendFailed event _ _ _ _ hres => cases hres
  | message message messages _ _ _ _ _ hres => cases hres
  | idle _ _ _ _ hres => cases hres

end Polled

/-! ## Whole runs -/

/-- The packet that a call transmitted for the first time. -/
def Call.firstTransmission (config : EngineConfig) (call : Call) : Option Bytes :=
  match call.op with
  | .poll nowMs txLen => firstOf (call.before.poll config nowMs txLen).2
  | _ => none

/-- The packets that a run transmitted for the first time, in order. -/
def firstTransmissions (config : EngineConfig) (calls : List Call) : List Bytes :=
  calls.filterMap (Call.firstTransmission config)

/-- The packets of a message, in their envelopes. -/
def SentMessage.packets (config : EngineConfig) (m : SentMessage) : List Bytes :=
  (List.range (m.count config)).map fun i => envelope config.integrity (m.packet config i)

/-- The packets of the messages that a run accepted, in order. -/
def acceptedPackets (config : EngineConfig) (calls : List Call) : List Bytes :=
  (calls.filterMap (Call.accepted config)).flatMap (SentMessage.packets config)

section Run
variable {config : EngineConfig} {calls : List Call} {st : EngineState} {call : Call}

theorem firstTransmissions_snoc (config : EngineConfig) (calls : List Call) (call : Call) :
    firstTransmissions config (calls ++ [call]) =
      firstTransmissions config calls ++ (call.firstTransmission config).toList := filterMap_snoc _ _ _

theorem acceptedPackets_snoc (config : EngineConfig) (calls : List Call) (call : Call) :
    acceptedPackets config (calls ++ [call]) =
      acceptedPackets config calls ++
        (call.accepted config).toList.flatMap (SentMessage.packets config) := by
  rw [acceptedPackets, filterMap_snoc, List.flatMap_append]
  rfl

theorem firstTransmission_of_not_poll (h : ∀ nowMs txLen, call.op ≠ .poll nowMs txLen) :
    call.firstTransmission config = none := by
  unfold Call.firstTransmission
  split
  · rename_i nowMs txLen hop
    exact absurd hop (h nowMs txLen)
  · rfl

/-- No poll of the run failed. -/
def PollsSucceed (config : EngineConfig) (calls : List Call) : Prop :=
  ∀ call ∈ calls, ∀ nowMs txLen, call.op = .poll nowMs txLen →
    (call.before.poll config nowMs txLen).2.isOk = true

theorem PollsSucceed.left {more : List Call} (h : PollsSucceed config (calls ++ more)) :
    PollsSucceed config calls := fun call hc => h call (List.mem_append_left _ hc)

/-- What a run keeps about new data. -/
structure FirstLog (config : EngineConfig) (calls : List Call) (st : EngineState) : Prop where
  writes : FirstWrites st.recovery.packets st.scheduler
  account : (firstTransmissions config calls ++ st.scheduler.freshPackets).Sublist
    (acceptedPackets config calls)
  exact : PollsSucceed config calls →
    firstTransmissions config calls ++ st.scheduler.freshPackets = acceptedPackets config calls
  logs : ∀ call ∈ calls, ∀ nowMs txLen bytes attempts, call.op = .poll nowMs txLen →
    (call.before.poll config nowMs txLen).2 = .ok (.transmit bytes attempts) →
    logKey bytes ≠ none → attempts = 0

theorem FirstLog.new : FirstLog config [] (.new config.initialMessageId) := by
  have hnone : ∀ e, e ∉ (EngineState.new config.initialMessageId).scheduler.queued := by
    rw [show (EngineState.new config.initialMessageId).scheduler.queued = 0 from
      SchedulerState.queued_new]
    exact fun e => Multiset.notMem_zero e
  refine ⟨⟨?_, ?_, ?_⟩, .refl _, fun _ => rfl, nofun⟩
  · exact fun kind w hw => absurd (SchedulerState.mem_queued_iff.mpr ⟨kind, hw⟩) (hnone _)
  · exact fun w hw => absurd hw (hnone _)
  · exact fun w hw => absurd hw (hnone _)

/-- No call but a poll transmits. -/
theorem FirstLog.logs_snoc (h : FirstLog config calls call.before)
    (hpoll : ∀ nowMs txLen bytes attempts, call.op = .poll nowMs txLen →
      (call.before.poll config nowMs txLen).2 = .ok (.transmit bytes attempts) →
      logKey bytes ≠ none → attempts = 0) :
    ∀ c ∈ calls ++ [call], ∀ nowMs txLen bytes attempts, c.op = .poll nowMs txLen →
      (c.before.poll config nowMs txLen).2 = .ok (.transmit bytes attempts) →
      logKey bytes ≠ none → attempts = 0 := by
  intro c hc
  rcases List.mem_append.mp hc with hc | hc
  · exact h.logs c hc
  · rw [List.mem_singleton.mp hc]
    exact hpoll

/-- What other calls than polls and accepted sends push is no fragment. -/
theorem Call.spares_of_quiet (hpoll : ∀ nowMs txLen, call.op ≠ .poll nowMs txLen)
    (hnone : call.accepted config = none) {packets : List InFlightPacket} {event : EngineOutput}
    (he : event ∈ call.pushEvents config) : Spares packets event := by
  unfold Call.pushEvents at he
  split at he
  · rw [hnone] at he
    cases he
  · rw [List.mem_singleton.mp he]
    exact .liveness _ rfl
  · split at he
    · rw [List.mem_singleton.mp he]
      exact .liveness _ rfl
    · cases he
  · rename_i nowMs txLen hop
    exact absurd hop (hpoll nowMs txLen)

/-- A call that neither polls nor accepts a message leaves new data alone. -/
theorem FirstLog.quiet (h : FirstLog config calls call.before)
    (hpoll : ∀ nowMs txLen, call.op ≠ .poll nowMs txLen) (hnone : call.accepted config = none)
    (hpackets : ∀ p ∈ (call.after config).recovery.packets, p ∈ call.before.recovery.packets) :
    FirstLog config (calls ++ [call]) (call.after config) := by
  have hpushed := call.scheduler_pushed config
  have hstate : call.pushedState config = call.after config := by
    unfold Call.pushedState
    split
    · rename_i nowMs txLen hop
      exact absurd hop (hpoll nowMs txLen)
    · rfl
  obtain ⟨hwrites, hfresh⟩ := h.writes.pushAll fun event he => call.spares_of_quiet hpoll hnone he
  rw [← hpushed, hstate] at hwrites hfresh
  have hfirst : firstTransmissions config (calls ++ [call]) = firstTransmissions config calls := by
    rw [firstTransmissions_snoc, firstTransmission_of_not_poll hpoll]
    exact List.append_nil _
  have haccepted : acceptedPackets config (calls ++ [call]) = acceptedPackets config calls := by
    rw [acceptedPackets_snoc, hnone]
    exact List.append_nil _
  have hwait : (call.after config).scheduler.freshPackets = call.before.scheduler.freshPackets :=
    congrArg (List.map fun w : WriteEvent => w.wire.bytes) hfresh
  refine ⟨hwrites.mono hpackets, ?_, ?_, ?_⟩
  · rw [hfirst, haccepted, hwait]
    exact h.account
  · rw [hfirst, haccepted, hwait]
    exact fun hok => h.exact hok.left
  · exact h.logs_snoc fun nowMs txLen _ _ hop => absurd hop (hpoll nowMs txLen)

/-- An accepted message puts its packets behind those that wait. -/
theorem FirstLog.sent (h : FirstLog config calls call.before)
    (hpoll : ∀ nowMs txLen, call.op ≠ .poll nowMs txLen) {m : SentMessage}
    (haccepted : call.accepted config = some m) (hid : m.messageId ≠ 0)
    (hunused : call.before.IdUnused m.messageId)
    (hwhole : SentWhole config call.before m (call.after config)) :
    FirstLog config (calls ++ [call]) (call.after config) := by
  have hkind := (accepted_valid haccepted).1.kind
  suffices happended : FirstWrites (call.after config).recovery.packets (call.after config).scheduler ∧
      (call.after config).scheduler.fresh = call.before.scheduler.fresh ++
        (List.range (m.count config)).map (m.writeEvent config) by
    obtain ⟨hwrites, hfresh⟩ := happended
    have hpackets : ((List.range (m.count config)).map (m.writeEvent config)).map
        (fun w => w.wire.bytes) = m.packets config := by
      rw [List.map_map, SentMessage.packets]
      exact List.map_congr_left fun i _ => m.wire_bytes config i
    have hwait : firstTransmissions config (calls ++ [call]) ++
        (call.after config).scheduler.freshPackets = (firstTransmissions config calls ++
          call.before.scheduler.freshPackets) ++ m.packets config := by
      rw [firstTransmissions_snoc, firstTransmission_of_not_poll hpoll, Option.toList_none,
        List.append_nil, SchedulerState.freshPackets, hfresh, List.map_append, hpackets,
        ← List.append_assoc]
      rfl
    have hmore : acceptedPackets config (calls ++ [call]) =
        acceptedPackets config calls ++ m.packets config := by
      rw [acceptedPackets_snoc, haccepted, Option.toList_some, List.flatMap_singleton]
    refine ⟨hwrites, ?_, ?_, ?_⟩
    · rw [hwait, hmore]
      exact h.account.append (.refl _)
    · rw [hwait, hmore]
      exact fun hok => congrArg (· ++ m.packets config) (h.exact hok.left)
    · exact h.logs_snoc fun nowMs txLen _ _ hop => absurd hop (hpoll nowMs txLen)
  refine h.writes.appended hwhole.queued ?_ ?_
  · intro w hw
    obtain ⟨i, -, rfl⟩ := List.mem_map.mp hw
    exact ⟨rfl, rfl, hid⟩
  · -- the new packets are not marked as sent, and the id keeps the others apart from them
    intro p hp
    have hother (hp : p ∈ call.before.recovery.packets) :
        p.sent = false ∨ (p ∈ call.before.recovery.packets ∧
          ∀ w ∈ (List.range (m.count config)).map (m.writeEvent config), p.key ≠ w.key) := by
      refine .inr ⟨hp, ?_⟩
      intro w hw hkey
      obtain ⟨i, -, rfl⟩ := List.mem_map.mp hw
      exact hunused.inFlight p hp (congrArg PacketKey.messageId hkey)
    rcases hkind with hdata | hlog
    · rcases List.mem_append.mp ((hwhole.tracked hdata).mem_iff.mp hp) with hp | hp
      · exact hother hp
      · obtain ⟨i, -, rfl⟩ := List.mem_map.mp hp
        exact .inl rfl
    · exact hother (hwhole.untracked hlog ▸ hp)

/-- What the tick of a poll pushes spares the fragments that wait. -/
theorem Call.spares_of_poll (hinv : QueueInv config calls call.before.sendSide) {nowMs txLen : Nat}
    (hop : call.op = .poll nowMs txLen) {event : EngineOutput} (he : event ∈ call.pushEvents config) :
    Spares call.before.recovery.packets event := by
  rcases (Call.mem_pushEvents_poll hop he).2 with ⟨p, rfl⟩ | ⟨p, hp, rfl, hleft, -⟩
  · exact .failed _
  · obtain ⟨c, -, m, hm, hdata, i, hi, hkey, -, -, hwire⟩ := hinv.tracks p hp
    have hsent : p.sent = true := by
      simp only [retryLeft, retransmitDue, Bool.and_eq_true] at hleft
      exact hleft.1.1
    have hattempts : saturatingSucc p.attempts ≠ 0 := by
      simp only [retryLeft, Bool.and_eq_true, decide_eq_true_eq] at hleft
      intro hzero
      have hsucc := toNat_saturatingSucc hleft.2
      rw [hzero] at hsucc
      cases hsucc
    refine .again _ p hp rfl hsent rfl hattempts ?_
    show dataKey p.wire.bytes = some p.key
    rw [hwire, hkey]
    exact SentMessage.dataKey_wire (accepted_valid hm).1 hi hdata

/-- A poll takes its packet out of those that wait. -/
theorem FirstLog.polled (h : FirstLog config calls call.before)
    (hinv : QueueInv config calls call.before.sendSide) {nowMs txLen : Nat}
    (hop : call.op = .poll nowMs txLen)
    (hids : ∀ c ∈ calls ++ [call], ∀ m, c.accepted config = some m → m.messageId ≠ 0) :
    FirstLog config (calls ++ [call]) (call.after config) := by
  obtain ⟨before, op⟩ := call
  obtain rfl : op = .poll nowMs txLen := hop
  have hpushed := Call.scheduler_pushed config ⟨before, .poll nowMs txLen⟩
  obtain ⟨hwrites, hfresh⟩ := h.writes.pushAll fun event he => Call.spares_of_poll hinv rfl he
  rw [← hpushed] at hwrites hfresh
  replace hwrites : FirstWrites (before.tickRetransmit config nowMs).recovery.packets
      (before.tickRetransmit config nowMs).scheduler :=
    hwrites.mono fun p hp => mem_packets_of_tickRetransmit hp
  have hticked : QueueInv config (calls ++ [⟨before, .poll nowMs txLen⟩])
      (before.tickRetransmit config nowMs).sendSide :=
    (hinv.append _).moves (by simp) (tickRetransmit_moves config before nowMs txLen)
  have hcarries : ∀ w, .write w ∈ (before.tickRetransmit config nowMs).scheduler.queued →
      (carriesFragment w.wire.bytes = true ↔ w.key.messageId ≠ 0) :=
    fun w hw => (hticked.origin w hw).carriesFragment_iff hids
  have hstep : PollStep config nowMs txLen (before.tickRetransmit config nowMs)
      (before.poll config nowMs txLen).1 (before.poll config nowMs txLen).2 :=
    pollOutput_spec config (before.tickRetransmit config nowMs) nowMs txLen
  have hsuffix : ∀ kind, (before.poll config nowMs txLen).1.scheduler.events kind <:+
      (before.tickRetransmit config nowMs).scheduler.events kind :=
    fun kind => events_pollOutput config (before.tickRetransmit config nowMs) nowMs txLen kind
  obtain ⟨hafter, htaken, hexact⟩ :=
    FirstWrites.polled hwrites hticked.nodup hsuffix hcarries hstep
  have hsame : (before.tickRetransmit config nowMs).scheduler.freshPackets =
      before.scheduler.freshPackets :=
    congrArg (List.map fun w : WriteEvent => w.wire.bytes) hfresh
  rw [hsame] at htaken hexact
  have haccepted : acceptedPackets config (calls ++ [⟨before, .poll nowMs txLen⟩]) =
      acceptedPackets config calls := by
    rw [acceptedPackets_snoc]
    exact List.append_nil _
  refine ⟨hafter, ?_, ?_, ?_⟩
  · rw [firstTransmissions_snoc, haccepted, List.append_assoc]
    exact (List.Sublist.append_left htaken _).trans h.account
  · intro hok
    have hpolled : (before.poll config nowMs txLen).2.isOk = true :=
      hok ⟨before, .poll nowMs txLen⟩ (by simp) nowMs txLen rfl
    rw [firstTransmissions_snoc, haccepted, List.append_assoc]
    exact (congrArg (firstTransmissions config calls ++ ·) (hexact hpolled)).trans (h.exact hok.left)
  · refine h.logs_snoc ?_
    intro nowMs' txLen' bytes attempts hop hres hlog
    cases hop
    exact FirstWrites.attempts_of_log hwrites hcarries (hres ▸ hstep) hlog

/-- The id a send is about to take is not in use. -/
theorem idUnused_of_fresh (hinv : QueueInv config calls st.sendSide) {id : MessageId} (hid : id ≠ 0)
    (hfresh : ∀ c ∈ calls, ∀ m, c.accepted config = some m → m.messageId ≠ id) : st.IdUnused id := by
  constructor
  · intro w hw hkey
    cases hinv.origin w hw with
    | fragment c m i hc hm _ hwkey =>
      rw [hwkey] at hkey
      exact hfresh c hc m hm hkey
    | liveness _ _ hzero =>
      rw [hzero] at hkey
      exact hid hkey.symm
  · intro p hp hkey
    obtain ⟨c, hc, m, hm, -, i, -, hpkey, -⟩ := hinv.tracks p hp
    rw [hpkey] at hkey
    exact hfresh c hc m hm hkey

/-- **A call keeps the account of new data.** -/
theorem FirstLog.step (h : FirstLog config calls call.before)
    (hinv : QueueInv config calls call.before.sendSide)
    (hids : ∀ c ∈ calls ++ [call], ∀ m, c.accepted config = some m → m.messageId ≠ 0)
    (hfresh : ∀ m, call.accepted config = some m → ∀ c ∈ calls, ∀ m',
      c.accepted config = some m' → m'.messageId ≠ m.messageId) :
    FirstLog config (calls ++ [call]) (call.after config) := by
  by_cases hpoll : ∃ nowMs txLen, call.op = .poll nowMs txLen
  · obtain ⟨nowMs, txLen, hop⟩ := hpoll
    exact h.polled hinv hop hids
  · have hpoll : ∀ nowMs txLen, call.op ≠ .poll nowMs txLen :=
      fun nowMs txLen hop => hpoll ⟨nowMs, txLen, hop⟩
    cases call.sendStep config with
    | untouched hunsent _ hrecovery => exact h.quiet hpoll hunsent.accepted (by simp [hrecovery])
    | liveness _ _ _ hunsent _ hrecovery => exact h.quiet hpoll hunsent.accepted (by simp [hrecovery])
    | acked bytes key _ _ hnone _ _ hrecovery =>
      refine h.quiet hpoll hnone ?_
      intro p hp
      rw [hrecovery] at hp
      exact (InFlightPackets.mem_applyAck.mp hp).1
    | polled nowMs txLen _ hop => exact absurd hop (hpoll nowMs txLen)
    | sent m haccepted hvalid _ _ _ hroom hafter =>
      have hid := hids call (by simp) m haccepted
      have hunused := idUnused_of_fresh hinv hid (hfresh m haccepted)
      refine h.sent hpoll haccepted hid hunused ?_
      obtain ⟨before, op⟩ := call
      cases op with
      | send packetType message =>
        obtain rfl := nextMessage_of_accepted haccepted
        rw [hafter]
        exact sentWhole_queueMessage hvalid hroom hunused
      | sendPing | poll | packet => cases haccepted

theorem PacketRun.firstLog (hrun : PacketRun config calls st) (hcount : sendCount calls < 2 ^ 32)
    (hids : ∀ call ∈ calls, ∀ m, call.accepted config = some m → m.messageId ≠ 0) :
    FirstLog config calls st := by
  induction hrun with
  | new => exact .new
  | ingress ingress _ ih =>
    have h := ih hcount hids
    exact ⟨h.writes, h.account, h.exact, h.logs⟩
  | @call calls st op hrun ih =>
    rw [sendCount, List.countP_append, List.countP_singleton] at hcount
    have h := ih (Nat.lt_of_le_of_lt (Nat.le_add_right _ _) hcount)
      (fun c hc => hids c (List.mem_append_left _ hc))
    refine FirstLog.step h hrun.queueInv hids ?_
    intro m hm c hc m' hm'
    obtain ⟨hsend, hnext⟩ := isSend_of_accepted hm
    rw [if_pos hsend] at hcount
    rw [hnext]
    exact hrun.idInv.fresh hcount hc hm'

/-- **New data is a queue.**  In every run of fewer than `2 ^ 32` sends whose polls do not fail and which
gives no message the id of PING and PONG, the packets transmitted for the first time and those that still
wait are the packets of the accepted messages, in the order of acceptance and of the fragments; and no
LOG packet is transmitted again. -/
theorem new_data_in_order
    (hrun : EngineRun config (fun st op => op.pollFails config st = false) calls st)
    (hcount : sendCount calls < 2 ^ 32)
    (hids : ∀ call ∈ calls, ∀ m, call.accepted config = some m → m.messageId ≠ 0) :
    firstTransmissions config calls ++ st.scheduler.freshPackets = acceptedPackets config calls ∧
      ∀ call ∈ calls, ∀ nowMs txLen bytes attempts, call.op = .poll nowMs txLen →
        (call.before.poll config nowMs txLen).2 = .ok (.transmit bytes attempts) →
        logKey bytes ≠ none → attempts = 0 := by
  have hlog := hrun.packetRun.firstLog hcount hids
  have hok : PollsSucceed config calls := fun call hc nowMs txLen hop =>
    hrun.poll_isOk_of_mem (fun _ _ h => h) hc hop
  exact ⟨hlog.exact hok, hlog.logs⟩

/-- A message is transmitted and transmitted again before the LOG message behind it; a third one waits. -/
def orderScript : List EngineOp :=
  [.send [7], .sendLog [8], .sendPing, .send [9], .poll 0 128, .poll 50 128, .poll 50 128]

theorem orderScript_waits :
    let run := runOps .default orderScript (.new EngineConfig.default.initialMessageId)
    scriptSucceeds .default orderScript (.new EngineConfig.default.initialMessageId) = true ∧
      sendCount run.1 < 2 ^ 32 ∧
      (run.1.all fun call => (call.accepted .default).all fun m => m.messageId != 0) = true ∧
      (firstTransmissions .default run.1).length = 2 ∧
      run.2.scheduler.freshPackets.length = 1 := by
  decide +kernel

/-- The packets of the script go out in order, around the retransmission. -/
theorem new_data_in_order_around : ∃ (calls : List Call) (st : EngineState),
    EngineRun .default (fun st op => op.pollFails .default st = false) calls st ∧
      (firstTransmissions .default calls).length = 2 ∧ st.scheduler.freshPackets.length = 1 ∧
      firstTransmissions .default calls ++ st.scheduler.freshPackets =
        acceptedPackets .default calls := by
  obtain ⟨hsucceeds, hcount, hall, hfirst, hwaits⟩ := orderScript_waits
  have hrun := EngineRun.new.script hsucceeds
  rw [List.nil_append] at hrun
  have hpolls := hrun.mono fun st op (h : NoError .default st op) => h.1
  refine ⟨_, _, hpolls, hfirst, hwaits, (new_data_in_order hpolls hcount ?_).1⟩
  intro call hc m hm
  have hid := List.all_eq_true.mp hall call hc
  rw [hm] at hid
  exact bne_iff_ne.mp hid

end Run

end Msrt
