import Msrt.IngressBounds
import Msrt.MachineReceiving
import Msrt.QueuedWrites

/-! # What every reachable memory keeps

The bounds the operations rest on, as facts about the memory of an engine (`Machine.EngineState.Sound`).
They are read off the run that led to the state: the queues and the in-flight table carry their bounds
as fields, the distinct keys of queued writes come from the send side, the marks of a reassembly slot
from the fragments it took, and the deferred consumption of the ingress buffer from the decoder, which
sets it last.
-/

namespace Msrt
open SlotTable

/-! ## The invariant -/

/-- An active slot expects at most 256 bytes and marks none beyond them. -/
def Machine.ReassemblySlot.InBounds (slot : Machine.ReassemblySlot) : Prop :=
  slot.active = true → slot.expectedLen ≤ maxMessageBytes ∧
    ∀ j, slot.expectedLen ≤ j → slot.received[j]? ≠ some true

/-- What the memory of an engine keeps. -/
structure Machine.EngineState.Sound (st : Machine.EngineState) : Prop where
  queued_len : st.scheduler.control.len + st.scheduler.retransmit.len + st.scheduler.newData.len +
    st.scheduler.localQueue.len = st.scheduler.queued.length
  queued_le : st.scheduler.queued.length ≤ maxEvents
  queuedKeys_nodup : (st.scheduler.queued.filterMap Machine.EngineOutput.writeKey?).Nodup
  inFlight_len : st.recovery.inFlight.len = (entries st.recovery.inFlight.packets).length
  inFlight_le : st.recovery.inFlight.len ≤ maxInFlightPackets
  inFlightKeys_nodup :
    ((entries st.recovery.inFlight.packets).map Machine.InFlightPacket.key).Nodup
  pendingConsume_le : st.ingress.pendingConsume ≤ st.ingress.len
  ingress_le : st.ingress.len ≤ maxIngressBytes
  reassembly : ∀ slot ∈ st.reassembly.slots, slot.InBounds

/-! ## The reassembly table -/

namespace ReassemblySlot

/-- The slot expects at most 256 bytes and marks none beyond them. -/
structure Bounded (slot : ReassemblySlot) : Prop where
  expectedLen_le : slot.expectedLen ≤ maxMessageBytes
  lt_of_got : ∀ j, slot.Got j → j < slot.expectedLen

theorem not_got_replicate {n j : Nat} : (List.replicate n false)[j]? ≠ some true := by
  rw [List.getElem?_replicate]
  split <;> simp

theorem bounded_new : Bounded .new := ⟨Nat.zero_le _, fun _ h => absurd h not_got_replicate⟩

theorem bounded_start (key : MessageKey) {expectedLen : Nat} (nowMs : Nat)
    (h : expectedLen ≤ maxMessageBytes) : Bounded (.start key expectedLen nowMs) :=
  ⟨h, fun _ h => absurd h not_got_replicate⟩

theorem Bounded.observe {slot : ReassemblySlot} (h : slot.Bounded) (fragment : MessageFragment)
    (nowMs : Nat) : (slot.observe fragment nowMs).1.Bounded := by
  unfold ReassemblySlot.observe
  split
  · exact h
  · split
    · exact h
    · rename_i hfits
      have hw := slot.written_write fragment nowMs (by omega)
      dsimp only
      split
      · exact bounded_new
      · refine ⟨hw.expectedLen ▸ h.expectedLen_le, ?_⟩
        intro j hj
        rw [hw.expectedLen]
        rcases (hw.got j).mp hj with hin | hgot
        · omega
        · exact h.lt_of_got j hgot

end ReassemblySlot

namespace ReassemblyState

/-- Every slot is bounded. -/
def Bounded (r : ReassemblyState) : Prop := ∀ slot ∈ r.slots, slot.Bounded

theorem bounded_new : Bounded .new := by
  intro slot hslot
  obtain rfl := List.eq_of_mem_replicate hslot
  exact ReassemblySlot.bounded_new

theorem Bounded.replaced {r r' : ReassemblyState} (h : r.Bounded) {i : Nat}
    {old slot : ReassemblySlot} (hreplaced : Replaced r i old slot r') (hslot : slot.Bounded) :
    r'.Bounded := by
  intro a ha
  rw [hreplaced.slots_eq] at ha
  rcases List.mem_or_eq_of_mem_set ha with ha | rfl
  · exact h a ha
  · exact hslot

theorem Bounded.observe {r : ReassemblyState} (h : r.Bounded) (fragment : MessageFragment)
    (nowMs : Nat) : (r.observe fragment nowMs).1.Bounded := by
  by_cases hlen : fragment.messageLen ≤ maxMessageBytes
  · obtain ⟨i, old, slot, hto, hreplaced, -⟩ := observe_target (r := r) hlen nowMs
    have hslot : slot.Bounded := by
      cases hto with
      | own _ hat => exact h old (List.mem_of_getElem? hat)
      | started => exact ReassemblySlot.bounded_start _ nowMs hlen
    exact h.replaced hreplaced (hslot.observe fragment nowMs)
  · rw [observe_oversized (Nat.not_le.mp hlen)]
    exact h

theorem Bounded.expire {r : ReassemblyState} (h : r.Bounded) (nowMs timeoutMs : Nat) :
    (r.expire nowMs timeoutMs).Bounded := by
  intro slot hslot
  obtain ⟨old, hold, rfl⟩ := List.mem_map.mp hslot
  split
  · exact ReassemblySlot.bounded_new
  · exact h old hold

end ReassemblyState

/-! ## Every run -/

section
variable {config : EngineConfig} {calls : List Call} {st : EngineState}

theorem PacketRun.bounded (h : PacketRun config calls st) : st.reassembly.Bounded := by
  induction h with
  | new => exact ReassemblyState.bounded_new
  | call op _ ih =>
    apply Call.reassembly_after config ih
    · exact fun r nowMs h => h.expire nowMs _
    · exact fun r fragment nowMs h => h.observe fragment nowMs
  | ingress ingress _ ih => exact ih

theorem PacketRun.inRange (h : PacketRun config calls st) : st.receive.InRange := by
  induction h with
  | new => exact PacketDedup.inRange_new (by decide)
  | call op _ ih => exact EngineState.inRange_after config ⟨_, op⟩ ih
  | ingress ingress _ ih => exact ih

end

/-! ## Reachable memory -/

/-- The events of the four queues, one queue after the other. -/
def SchedulerState.allEvents (s : SchedulerState) : List EngineOutput :=
  RingQueue.toList s.control ++ RingQueue.toList s.retransmit ++ RingQueue.toList s.newData ++
    RingQueue.toList s.localQueue

theorem SchedulerState.queued_layout (s : SchedulerState) :
    s.layout.queued = s.allEvents.map EngineOutput.layout := by
  simp only [Machine.SchedulerState.queued, layout, EventQueue.layout, RingQueue.contents_layout,
    allEvents, List.map_append]

theorem SchedulerState.coe_allEvents (s : SchedulerState) :
    (s.allEvents : Multiset EngineOutput) = s.queued := rfl

theorem SchedulerState.length_allEvents (s : SchedulerState) : s.allEvents.length = s.len := by
  rw [← s.card_queued, ← s.coe_allEvents, Multiset.coe_card]

theorem SchedulerState.nodup_writeKeys {s : SchedulerState} (h : s.keys.Nodup) :
    (s.layout.queued.filterMap Machine.EngineOutput.writeKey?).Nodup := by
  have hkeys : s.layout.queued.filterMap Machine.EngineOutput.writeKey? =
      s.allEvents.filterMap EngineOutput.writeKey? := by
    rw [s.queued_layout, List.filterMap_map]
    apply List.filterMap_congr
    intro event _
    cases event with
    | write w => rfl
    | sendFailed failed => rfl
  rw [hkeys, ← Multiset.coe_nodup, ← Multiset.filterMap_coe]
  exact h

theorem ReassemblySlot.Bounded.inBounds {slot : ReassemblySlot} (h : slot.Bounded) :
    slot.layout.InBounds := by
  intro _
  refine ⟨h.expectedLen_le, ?_⟩
  intro j hj hgot
  exact absurd (h.lt_of_got j hgot) (Nat.not_lt.mpr hj)

/-- **The memory of every run keeps its bounds.** -/
theorem EngineRun.sound {config : EngineConfig} {allowed : EngineState → EngineOp → Prop}
    {calls : List Call} {st : EngineState} (h : EngineRun config allowed calls st)
    {m : Machine.StreamingDecoder maxIngressBytes} (hm : m.Stores st.ingress) :
    (st.layout m).Sound := by
  have hrun := h.packetRun
  have hinFlight : entries (st.layout m).recovery.inFlight.packets =
      st.recovery.packets.map InFlightPacket.layout := st.recovery.packets_layout
  have hqueued : (st.layout m).scheduler.queued = st.scheduler.allEvents.map EngineOutput.layout :=
    st.scheduler.queued_layout
  obtain ⟨stale, hcapacity, rfl⟩ := hm
  refine ⟨?_, ?_, SchedulerState.nodup_writeKeys hrun.queueInv.nodup, ?_, ?_, ?_, h.pendingFits, ?_,
    ?_⟩
  · rw [hqueued, List.length_map, st.scheduler.length_allEvents]
    rfl
  · rw [hqueued, List.length_map, st.scheduler.length_allEvents]
    exact st.scheduler.len_le
  · rw [hinFlight, List.length_map]
    exact st.recovery.inFlight.len_eq
  · exact st.recovery.inFlight.len_le
  · rw [hinFlight, List.map_map]
    exact st.recovery.inFlight.keys_nodup
  · exact st.ingress.length_le
  · intro cell hcell
    obtain ⟨slot, hslot, rfl⟩ := List.mem_map.mp hcell
    exact (hrun.bounded slot hslot).inBounds

end Msrt
