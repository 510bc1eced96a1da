import Msrt.InFlight
import Msrt.MachineQueues
import Msrt.ReassemblySpec

/-! # Engine tables on the machine

The in-flight table, the duplicate table and the reassembly table, as arrays with their counters.
Most of their loops go over the slots without positions; what can fail is the count of the in-flight
table, the position of the next duplicate key, and every range of a reassembly slot.
-/

namespace Msrt

namespace Machine
open Checked SlotTable
variable {t : Target}

/-! ## In-flight packets -/

/-- Encoded packet waiting for acknowledgement, with its wire storage. -/
structure InFlightPacket where
  key : PacketKey
  packetType : PacketType
  messageId : MessageId
  bytes : Bytes
  len : Nat
  attempts : UInt8
  lastSentMs : Nat
  sent : Bool

/-- The in-flight table: an array of slots and a count beside it. -/
structure InFlightPackets where
  packets : List (Option InFlightPacket)
  len : Nat

namespace InFlightPackets

/-- The empty table. -/
def new : InFlightPackets := ⟨List.replicate maxInFlightPackets none, 0⟩

/-- Tracks a packet: in the slot of its key if there is one, else in the first free slot. -/
def track (table : InFlightPackets) (packet : InFlightPacket) :
    Checked t (Except Error InFlightPackets) := do
  match replaceFirst? (fun p => p.key == packet.key) (fun _ => some packet) table.packets with
  | some packets => return .ok { table with packets }
  | none =>
    match putFirstFree? packet table.packets with
    | some packets => return .ok ⟨packets, ← add table.len 1⟩
    | none => return .error .engine

/-- Removes the packet with `key`; the count is lowered with saturation. -/
def applyAck (table : InFlightPackets) (key : PacketKey) : InFlightPackets :=
  match replaceFirst? (fun p => p.key == key) (fun _ => none) table.packets with
  | some packets => ⟨packets, table.len - 1⟩
  | none => table

/-- How many packets still fit: a difference that needs the count to be right. -/
def available (table : InFlightPackets) : Checked t Nat := sub maxInFlightPackets table.len

/-- Removes every packet of a message, each with a saturating decrement. -/
def removeMessage (table : InFlightPackets) (packetType : PacketType) (messageId : MessageId) :
    InFlightPackets :=
  let belongs := fun p : InFlightPacket => p.packetType == packetType && p.messageId == messageId
  ⟨clearAll belongs table.packets, table.len - (entries table.packets).countP belongs⟩

/-- Passes the packet with `key`, if it is tracked, through `f`. -/
def modify (table : InFlightPackets) (key : PacketKey) (f : InFlightPacket → InFlightPacket) :
    InFlightPackets :=
  match replaceFirst? (fun p => p.key == key) (fun p => some (f p)) table.packets with
  | some packets => { table with packets }
  | none => table

/-- Records a transmission that is no retransmission. -/
def noteSent (table : InFlightPackets) (key : PacketKey) (nowMs : Nat) : InFlightPackets :=
  table.modify key fun p => { p with sent := true, lastSentMs := nowMs }

/-- Records a retransmission, which counts as an attempt. -/
def noteRetransmitSent (table : InFlightPackets) (key : PacketKey) (nowMs : Nat) :
    InFlightPackets :=
  table.modify key
    fun p => { p with sent := true, attempts := saturatingSucc p.attempts, lastSentMs := nowMs }

end InFlightPackets

/-- Reliable-send recovery state machine, with fixed timeouts. -/
structure RecoveryState where
  inFlight : InFlightPackets
  lastTickMs : Option Nat

namespace RecoveryState

/-- Nothing is in flight and no tick has run. -/
def new : RecoveryState := ⟨.new, none⟩

/-- Tracks a packet until it is acknowledged or given up. -/
def track (r : RecoveryState) (packet : InFlightPacket) :
    Checked t (Except Error RecoveryState) := do
  return (← r.inFlight.track packet).map fun inFlight => { r with inFlight }

/-- An acknowledged packet is no longer in flight. -/
def applyAck (r : RecoveryState) (key : PacketKey) : RecoveryState :=
  { r with inFlight := r.inFlight.applyAck key }

/-- The packets in flight, in slot order. -/
def packets (r : RecoveryState) : List InFlightPacket := entries r.inFlight.packets

/-- How many packets can still be tracked. -/
def availableInFlight (r : RecoveryState) : Checked t Nat := r.inFlight.available

/-- A tick runs at most once per time. -/
def shouldTick (r : RecoveryState) (nowMs : Nat) : RecoveryState × Bool :=
  if r.lastTickMs = some nowMs then (r, false) else ({ r with lastTickMs := some nowMs }, true)

/-- Gives up every packet of a message. -/
def removeMessage (r : RecoveryState) (packetType : PacketType) (messageId : MessageId) :
    RecoveryState :=
  { r with inFlight := r.inFlight.removeMessage packetType messageId }

/-- Records a transmission that is no retransmission. -/
def noteSent (r : RecoveryState) (key : PacketKey) (nowMs : Nat) : RecoveryState :=
  { r with inFlight := r.inFlight.noteSent key nowMs }

/-- Records a retransmission of a packet. -/
def noteRetransmitSent (r : RecoveryState) (key : PacketKey) (nowMs : Nat) : RecoveryState :=
  { r with inFlight := r.inFlight.noteRetransmitSent key nowMs }

end RecoveryState

/-! ## Duplicate table -/

/-- The duplicate table: an array of keys, the next position and a count. -/
structure PacketDedup (capacity : Nat) where
  packets : List (Option PacketKey)
  next : Nat
  len : Nat

namespace PacketDedup
variable {capacity : Nat}

/-- The empty table. -/
def new : PacketDedup capacity := ⟨List.replicate capacity none, 0, 0⟩

/-- Whether the key is among the remembered ones. -/
def isDuplicate (d : PacketDedup capacity) (key : PacketKey) : Bool :=
  d.packets.any (fun known => known == some key)

/-- Records a packet key or reports that it has already been observed. -/
def observePacket (d : PacketDedup capacity) (key : PacketKey) :
    Checked t (PacketDedup capacity × Except Error DedupDecision) := do
  if capacity = 0 then
    return (d, .error ⟨.reliability⟩)
  else if d.isDuplicate key then
    return (d, .ok .duplicate)
  else
    let packets ← set d.packets d.next (some key)
    let next ← rem (← add d.next 1) capacity
    let len := min (← add d.len 1) capacity
    return (⟨packets, next, len⟩, .ok .accept)

end PacketDedup

/-! ## Reassembly table -/

/-- One incomplete message with its two arrays. -/
structure ReassemblySlot where
  active : Bool
  key : MessageKey
  expectedLen : Nat
  updatedAtMs : Nat
  lastSeen : Bool
  received : List Bool
  bytes : Bytes

namespace ReassemblySlot

/-- The blank slot. -/
def new : ReassemblySlot where
  active := false
  key := .zero
  expectedLen := 0
  updatedAtMs := 0
  lastSeen := false
  received := List.replicate maxMessageBytes false
  bytes := List.replicate maxMessageBytes 0

/-- The slot of a message nothing has been received of. -/
def start (key : MessageKey) (expectedLen nowMs : Nat) : ReassemblySlot where
  active := true
  key := key
  expectedLen := expectedLen
  updatedAtMs := nowMs
  lastSeen := false
  received := List.replicate maxMessageBytes false
  bytes := List.replicate maxMessageBytes 0

/-- Whether the last byte and everything before it were received, over a range of the marks. -/
def isComplete (slot : ReassemblySlot) : Checked t Bool := do
  if slot.lastSeen then
    return (← slice slot.received 0 slot.expectedLen).all id
  else
    return false

/-- Takes a fragment in: a sum, and a write to a range of both arrays. -/
def observe (slot : ReassemblySlot) (fragment : MessageFragment) (nowMs : Nat) :
    Checked t (ReassemblySlot × Except Error (Option MessageEvent)) := do
  if slot.expectedLen ≠ fragment.messageLen then
    return (slot, .error .engine)
  else
    let stop ← add fragment.fragmentOffset fragment.bytes.length
    if stop > slot.expectedLen ∨ stop > maxMessageBytes then
      return (slot, .error .engine)
    else
      let bytes ← write slot.bytes fragment.fragmentOffset stop fragment.bytes
      -- every mark of the range is set
      let received ← write slot.received fragment.fragmentOffset stop
        (List.replicate (stop - fragment.fragmentOffset) true)
      let slot := { slot with
        bytes
        updatedAtMs := nowMs
        received
        lastSeen := slot.lastSeen || stop == slot.expectedLen }
      if ← slot.isComplete then
        return (new, .ok (some
          { packetType := slot.key.packetType
            messageId := slot.key.messageId
            bytes := slot.bytes
            len := slot.expectedLen }))
      else
        return (slot, .ok none)

end ReassemblySlot

/-- The array of reassembly slots. -/
structure ReassemblyState where
  slots : List ReassemblySlot

namespace ReassemblyState

/-- The table with blank slots only. -/
def new : ReassemblyState := ⟨List.replicate maxReassemblyMessages .new⟩

/-- The active slot of a key. -/
def findSlot (r : ReassemblyState) (key : MessageKey) : Option Nat :=
  r.slots.findIdx? (fun slot => slot.active && slot.key == key)

/-- One round of the search for the oldest slot: the best index and time so far. -/
def olderSlot (best : Nat × Nat) (entry : ReassemblySlot × Nat) : Nat × Nat :=
  if entry.1.updatedAtMs < best.2 then (entry.2, entry.1.updatedAtMs) else best

/-- The slot that was updated longest ago, the first of them if there are several. -/
def oldestSlot (r : ReassemblyState) : Nat := (r.slots.zipIdx.foldl olderSlot (0, u64Max)).1

/-- Starts a slot for `key` and returns its index. -/
def allocateSlot (r : ReassemblyState) (key : MessageKey) (fragment : MessageFragment)
    (nowMs : Nat) : Checked t (ReassemblyState × Nat) := do
  let i := (r.slots.findIdx? (fun slot => !slot.active)).getD r.oldestSlot
  let slots ← set r.slots i (.start key fragment.messageLen nowMs)
  return (⟨slots⟩, i)

/-- Takes a fragment into the slot of its message, which is allocated first if there is none. -/
def observe (r : ReassemblyState) (fragment : MessageFragment) (nowMs : Nat) :
    Checked t (ReassemblyState × Except Error (Option MessageEvent)) := do
  if fragment.messageLen > maxMessageBytes then
    return (r, .error .engine)
  else
    let located ←
      match r.findSlot fragment.messageKey with
      | some i => pure (r, i)
      | none => r.allocateSlot fragment.messageKey fragment nowMs
    let slot ← index located.1.slots located.2
    let result ← slot.observe fragment nowMs
    let slots ← set located.1.slots located.2 result.1
    return (⟨slots⟩, result.2)

/-- Blanks every slot whose last update is at least `timeoutMs` ago. -/
def expire (r : ReassemblyState) (nowMs timeoutMs : Nat) : ReassemblyState :=
  ⟨r.slots.map fun slot =>
    if slot.active && decide (nowMs - slot.updatedAtMs ≥ timeoutMs) then .new else slot⟩

end ReassemblyState

end Machine

/-! ## Layouts -/

open Checked SlotTable
variable {t : Target}

/-- The memory of a tracked packet. -/
def InFlightPacket.layout (p : InFlightPacket) : Machine.InFlightPacket :=
  ⟨p.key, p.packetType, p.messageId, p.wire.layout, p.wire.bytes.length, p.attempts, p.lastSentMs,
    p.sent⟩

namespace InFlightPackets

/-- The memory of the in-flight table. -/
def layout (table : InFlightPackets) : Machine.InFlightPackets :=
  ⟨table.packets.map (Option.map InFlightPacket.layout), table.len⟩

theorem layout_new : InFlightPackets.new.layout = .new := by
  simp [layout, new, Machine.InFlightPackets.new]

theorem track_layout (table : InFlightPackets) (packet : InFlightPacket) :
    (table.layout.track packet.layout : Checked t _) = pure ((table.track packet).map layout) := by
  have hlen : table.len ≤ 16 := table.len_le
  unfold Machine.InFlightPackets.track
  rw [layout]
  dsimp only
  rw [replaceFirst?_map InFlightPacket.layout (p := fun p => p.key == packet.key)
    (f := fun _ => some packet) (fun _ => rfl) (fun _ => rfl), putFirstFree?_map]
  generalize hr : table.track packet = tracked
  unfold track at hr
  split at hr
  · rename_i hfound
    rw [hfound, ← hr]
    rfl
  rename_i hfound
  rw [hfound]
  dsimp only [Option.map_none]
  split at hr
  · rename_i hfree
    rw [hfree, ← hr]
    dsimp only [Option.map_some]
    rw [add_small (by omega), pure_bind]
    rfl
  · rename_i hfree
    rw [hfree, ← hr]
    rfl

theorem applyAck_layout (table : InFlightPackets) (key : PacketKey) :
    table.layout.applyAck key = (table.applyAck key).layout := by
  unfold Machine.InFlightPackets.applyAck
  rw [layout]
  dsimp only
  rw [replaceFirst?_map InFlightPacket.layout (p := fun p => p.key == key) (f := fun _ => none)
    (fun _ => rfl) (fun _ => rfl)]
  generalize hr : table.applyAck key = acked
  unfold applyAck at hr
  split at hr <;> rename_i hfound <;> rw [hfound, ← hr] <;> rfl

theorem available_layout (table : InFlightPackets) :
    (table.layout.available : Checked t Nat) = pure table.available := sub_eq table.len_le

theorem removeMessage_layout (table : InFlightPackets) (packetType : PacketType)
    (messageId : MessageId) :
    table.layout.removeMessage packetType messageId =
      (table.removeMessage packetType messageId).layout := by
  simp only [Machine.InFlightPackets.removeMessage, layout, removeMessage, entries_map,
    List.countP_map]
  rw [clearAll_map InFlightPacket.layout fun _ => rfl]
  rfl

theorem modify_layout (table : InFlightPackets) (key : PacketKey)
    {f : InFlightPacket → InFlightPacket} {f' : Machine.InFlightPacket → Machine.InFlightPacket}
    (hf : ∀ p, p.key = key → (f p).key = key) (hlayout : ∀ p, f' p.layout = (f p).layout) :
    table.layout.modify key f' = (table.modify key f hf).layout := by
  unfold Machine.InFlightPackets.modify
  rw [layout]
  dsimp only
  rw [replaceFirst?_map InFlightPacket.layout (p := fun p => p.key == key)
    (f := fun p => some (f p)) (fun _ => rfl) (fun p => by rw [hlayout]; rfl)]
  generalize hr : table.modify key f hf = modified
  unfold modify at hr
  split at hr <;> rename_i hfound <;> rw [hfound, ← hr] <;> rfl

theorem noteSent_layout (table : InFlightPackets) (key : PacketKey) (nowMs : Nat) :
    table.layout.noteSent key nowMs = (table.noteSent key nowMs).layout :=
  table.modify_layout key _ fun _ => rfl

theorem noteRetransmitSent_layout (table : InFlightPackets) (key : PacketKey) (nowMs : Nat) :
    table.layout.noteRetransmitSent key nowMs = (table.noteRetransmitSent key nowMs).layout :=
  table.modify_layout key _ fun _ => rfl

end InFlightPackets

namespace RecoveryState

/-- The memory of the recovery state. -/
def layout (r : RecoveryState) : Machine.RecoveryState := ⟨r.inFlight.layout, r.lastTickMs⟩

theorem track_layout (r : RecoveryState) (packet : InFlightPacket) :
    (r.layout.track packet.layout : Checked t _) = pure ((r.track packet).map layout) := by
  unfold Machine.RecoveryState.track track
  rw [layout]
  dsimp only
  rw [InFlightPackets.track_layout, pure_bind]
  cases r.inFlight.track packet with
  | ok table => rfl
  | error e => rfl

theorem applyAck_layout (r : RecoveryState) (key : PacketKey) :
    r.layout.applyAck key = (r.applyAck key).layout := by
  simp only [Machine.RecoveryState.applyAck, layout, applyAck, InFlightPackets.applyAck_layout]

theorem packets_layout (r : RecoveryState) :
    r.layout.packets = r.packets.map InFlightPacket.layout :=
  entries_map InFlightPacket.layout _

theorem availableInFlight_layout (r : RecoveryState) :
    (r.layout.availableInFlight : Checked t Nat) = pure r.availableInFlight :=
  r.inFlight.available_layout

theorem shouldTick_layout (r : RecoveryState) (nowMs : Nat) :
    r.layout.shouldTick nowMs = ((r.shouldTick nowMs).1.layout, (r.shouldTick nowMs).2) := by
  unfold Machine.RecoveryState.shouldTick shouldTick
  rw [layout]
  dsimp only
  split <;> rfl

theorem removeMessage_layout (r : RecoveryState) (packetType : PacketType) (messageId : MessageId) :
    r.layout.removeMessage packetType messageId = (r.removeMessage packetType messageId).layout := by
  simp only [Machine.RecoveryState.removeMessage, layout, removeMessage,
    InFlightPackets.removeMessage_layout]

theorem noteSent_layout (r : RecoveryState) (key : PacketKey) (nowMs : Nat) :
    r.layout.noteSent key nowMs = (r.noteSent key nowMs).layout := by
  simp only [Machine.RecoveryState.noteSent, layout, noteSent, InFlightPackets.noteSent_layout]

theorem noteRetransmitSent_layout (r : RecoveryState) (key : PacketKey) (nowMs : Nat) :
    r.layout.noteRetransmitSent key nowMs = (r.noteRetransmitSent key nowMs).layout := by
  simp only [Machine.RecoveryState.noteRetransmitSent, layout, noteRetransmitSent,
    InFlightPackets.noteRetransmitSent_layout]

end RecoveryState

namespace PacketDedup
variable {capacity : Nat}

/-- The memory of the duplicate table. -/
def layout (d : PacketDedup capacity) : Machine.PacketDedup capacity := ⟨d.packets, d.next, d.len⟩

/-- The next position lies in the table, and the count does not exceed it. -/
structure InRange (d : PacketDedup capacity) : Prop where
  next_lt : d.next < capacity
  len_le : d.len ≤ capacity

theorem inRange_new (h : 0 < capacity) : (new : PacketDedup capacity).InRange :=
  ⟨h, Nat.zero_le _⟩

theorem InRange.observePacket {d : PacketDedup capacity} (h : d.InRange) (key : PacketKey) :
    (d.observePacket key).1.InRange := by
  have hpos : 0 < capacity := Nat.lt_of_le_of_lt (Nat.zero_le _) h.next_lt
  unfold PacketDedup.observePacket
  rw [if_neg (Nat.ne_of_gt hpos)]
  split
  · exact h
  · exact ⟨Nat.mod_lt _ hpos, Nat.min_le_right _ _⟩

theorem observePacket_layout {d : PacketDedup capacity} (h : d.InRange) (hcap : capacity ≤ 32767)
    (key : PacketKey) :
    (d.layout.observePacket key : Checked t _) =
      pure ((d.observePacket key).1.layout, (d.observePacket key).2) := by
  have hnext := h.next_lt
  have hlen := h.len_le
  have hpos : capacity ≠ 0 := by omega
  unfold Machine.PacketDedup.observePacket PacketDedup.observePacket
  rw [if_neg hpos, if_neg hpos]
  have hdup : d.layout.isDuplicate key = d.isDuplicate key := rfl
  rw [hdup]
  cases d.isDuplicate key with
  | true => rfl
  | false =>
    rw [if_neg (by simp), if_neg (by simp), layout]
    dsimp only
    rw [set_eq (by rw [d.packets_length]; exact hnext), pure_bind, add_small (by omega), pure_bind,
      rem_eq (by omega), pure_bind, add_small (by omega), pure_bind]
    rfl

end PacketDedup

namespace ReassemblySlot

/-- The memory of a reassembly slot. -/
def layout (slot : ReassemblySlot) : Machine.ReassemblySlot :=
  ⟨slot.active, slot.key, slot.expectedLen, slot.updatedAtMs, slot.lastSeen, slot.received,
    slot.bytes⟩

theorem isComplete_layout (slot : ReassemblySlot) (h : slot.expectedLen ≤ maxMessageBytes) :
    (slot.layout.isComplete : Checked t Bool) = pure slot.isComplete := by
  unfold Machine.ReassemblySlot.isComplete isComplete
  rw [layout]
  dsimp only
  cases slot.lastSeen with
  | false => rfl
  | true =>
    rw [if_pos rfl, slice_eq ⟨Nat.zero_le _, by rw [slot.received_length]; exact h⟩, pure_bind,
      List.drop_zero, Bool.true_and]

/-- A fragment that lies in its message, and whose message fits a slot, meets no range outside of the
slot's arrays. -/
theorem observe_layout (slot : ReassemblySlot) {fragment : MessageFragment} (nowMs : Nat)
    (hfits : fragment.fragmentOffset + fragment.bytes.length ≤ fragment.messageLen)
    (hlen : fragment.messageLen ≤ maxMessageBytes) :
    (slot.layout.observe fragment nowMs : Checked t _) =
      pure ((slot.observe fragment nowMs).1.layout, (slot.observe fragment nowMs).2) := by
  have hmax : maxMessageBytes = 256 := rfl
  have hadd : (add fragment.fragmentOffset fragment.bytes.length : Checked t Nat) =
      pure (fragment.fragmentOffset + fragment.bytes.length) := add_small (by omega)
  unfold Machine.ReassemblySlot.observe observe
  rw [layout]
  dsimp only
  by_cases hexpected : slot.expectedLen ≠ fragment.messageLen
  · rw [if_pos hexpected, if_pos hexpected]
    rfl
  rw [if_neg hexpected, if_neg hexpected, hadd, pure_bind]
  by_cases hout : fragment.fragmentOffset + fragment.bytes.length > slot.expectedLen ∨
      fragment.fragmentOffset + fragment.bytes.length > maxMessageBytes
  · rw [if_pos hout, dif_pos hout]
    rfl
  rw [if_neg hout, dif_neg hout, Nat.add_sub_cancel_left,
    write_eq (by rw [slot.bytes_length]; omega) rfl, pure_bind,
    write_eq (by rw [slot.received_length]; omega) (by rw [List.length_replicate]), pure_bind]
  have hroom : fragment.fragmentOffset + fragment.bytes.length ≤ maxMessageBytes := by omega
  have hwritten := isComplete_layout (t := t) (slot.write fragment nowMs hroom)
    (show slot.expectedLen ≤ maxMessageBytes by omega)
  show (Machine.ReassemblySlot.isComplete (slot.write fragment nowMs hroom).layout >>= _) = _
  rw [hwritten, pure_bind]
  cases (slot.write fragment nowMs hroom).isComplete with
  | true => rfl
  | false => rfl

end ReassemblySlot

namespace ReassemblyState

/-- The memory of the reassembly table. -/
def layout (r : ReassemblyState) : Machine.ReassemblyState := ⟨r.slots.map ReassemblySlot.layout⟩

theorem findSlot_layout (r : ReassemblyState) (key : MessageKey) :
    r.layout.findSlot key = r.findSlot key := by
  simp [Machine.ReassemblyState.findSlot, layout, findSlot, List.findIdx?_map, Function.comp_def,
    ReassemblySlot.layout]

theorem oldestSlot_layout (r : ReassemblyState) : r.layout.oldestSlot = r.oldestSlot := by
  unfold Machine.ReassemblyState.oldestSlot oldestSlot
  rw [layout]
  dsimp only
  rw [List.zipIdx_map, List.foldl_map]
  rfl

theorem victim_lt (r : ReassemblyState) : r.victim < r.slots.length := by
  obtain ⟨slot, hslot, -⟩ := r.victim_spec
  exact (List.getElem?_eq_some_iff.mp hslot).1

theorem allocateSlot_layout (r : ReassemblyState) (key : MessageKey) (fragment : MessageFragment)
    (nowMs : Nat) :
    (r.layout.allocateSlot key fragment nowMs : Checked t _) =
      pure ((r.allocateSlot key fragment nowMs).1.layout,
        (r.allocateSlot key fragment nowMs).2) := by
  have hfree : r.layout.slots.findIdx? (fun slot => !slot.active) =
      r.slots.findIdx? (fun slot => !slot.active) := by
    simp [layout, List.findIdx?_map, Function.comp_def, ReassemblySlot.layout]
  have hvictim : (r.slots.findIdx? (fun slot => !slot.active)).getD r.oldestSlot = r.victim := rfl
  unfold Machine.ReassemblyState.allocateSlot
  dsimp only
  rw [hfree, oldestSlot_layout, hvictim,
    set_eq (by rw [layout, List.length_map]; exact r.victim_lt), pure_bind, layout]
  dsimp only
  rw [show Machine.ReassemblySlot.start key fragment.messageLen nowMs =
    (ReassemblySlot.start key fragment.messageLen nowMs).layout from rfl, ← List.map_set]
  rfl

theorem observe_layout (r : ReassemblyState) {fragment : MessageFragment} (nowMs : Nat)
    (hfits : fragment.fragmentOffset + fragment.bytes.length ≤ fragment.messageLen) :
    (r.layout.observe fragment nowMs : Checked t _) =
      pure ((r.observe fragment nowMs).1.layout, (r.observe fragment nowMs).2) := by
  unfold Machine.ReassemblyState.observe observe
  by_cases hlen : fragment.messageLen > maxMessageBytes
  · rw [if_pos hlen, if_pos hlen]
  rw [if_neg hlen, if_neg hlen, findSlot_layout]
  -- whichever slot it is, it lies in the table
  have hslot : ∀ (r : ReassemblyState) (i : Nat), i < r.slots.length →
      (do
        let slot ← index r.layout.slots i
        let result ← slot.observe fragment nowMs
        let slots ← set r.layout.slots i result.1
        return (⟨slots⟩, result.2) : Checked t (Machine.ReassemblyState × _)) =
      pure ((r.setSlot i ((r.slots[i]?.getD .new).observe fragment nowMs).1).layout,
        ((r.slots[i]?.getD .new).observe fragment nowMs).2) := by
    intro r i hi
    have hget : r.layout.slots[i]? = some (r.slots[i]?.getD .new).layout := by
      rw [layout, List.getElem?_map, List.getElem?_eq_getElem hi]
      rfl
    rw [index_eq hget, pure_bind, ReassemblySlot.observe_layout _ nowMs hfits (by omega), pure_bind,
      set_eq (by rw [layout, List.length_map]; exact hi), pure_bind, layout]
    dsimp only
    rw [← List.map_set]
    rfl
  cases hfind : r.findSlot fragment.messageKey with
  | some i =>
    dsimp only
    rw [pure_bind]
    exact hslot r i (List.findIdx?_eq_some_iff_getElem.mp hfind).1
  | none =>
    dsimp only
    rw [allocateSlot_layout, pure_bind]
    apply hslot _ _
    show r.victim < (r.slots.set _ _).length
    rw [List.length_set]
    exact r.victim_lt

theorem expire_layout (r : ReassemblyState) (nowMs timeoutMs : Nat) :
    r.layout.expire nowMs timeoutMs = (r.expire nowMs timeoutMs).layout := by
  simp only [Machine.ReassemblyState.expire, layout, expire, List.map_map]
  congr 1
  apply List.map_congr_left
  intro slot _
  dsimp only [Function.comp_apply]
  rw [apply_ite ReassemblySlot.layout]
  rfl

end ReassemblyState

end Msrt
