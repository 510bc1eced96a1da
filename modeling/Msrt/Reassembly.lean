import Msrt.PacketCodec

/-! # Receive-side tables

`ReassemblyState` collects the fragments of up to four incomplete messages, keyed by packet type and
message id.  A fragment of a message without a slot takes an inactive slot, or evicts the slot that
was updated longest ago; a slot whose bytes are all received turns into a `MessageEvent` and is
blanked.  `PacketDedup` remembers the last `N` packet keys that were accepted, in a circular table.
-/

namespace Msrt

/-! ## Duplicate table -/

/-- Whether a packet key is new. -/
inductive DedupDecision where
  | accept
  | duplicate
  deriving DecidableEq, Repr

/-- Fixed-capacity duplicate packet detector. -/
structure PacketDedup (capacity : Nat) where
  packets : List (Option PacketKey)
  next : Nat
  len : Nat
  packets_length : packets.length = capacity

namespace PacketDedup
variable {capacity : Nat}

/-- The empty table. -/
def new : PacketDedup capacity := ⟨List.replicate capacity none, 0, 0, List.length_replicate⟩

/-- Whether the key is among the remembered ones. -/
def isDuplicate (d : PacketDedup capacity) (key : PacketKey) : Bool :=
  d.packets.any (fun known => known == some key)

/-- Records a packet key or reports that it has already been observed. -/
def observePacket (d : PacketDedup capacity) (key : PacketKey) :
    PacketDedup capacity × Except Error DedupDecision :=
  if capacity = 0 then (d, .error ⟨.reliability⟩)
  else if d.isDuplicate key then (d, .ok .duplicate)
  else
    ({ packets := d.packets.set d.next (some key)
       next := (d.next + 1) % capacity
       len := min (d.len + 1) capacity
       packets_length := by rw [List.length_set, d.packets_length] }, .ok .accept)

end PacketDedup

/-! ## Reassembly slots -/

/-- `u64::MAX`. -/
def u64Max : Nat := 2 ^ 64 - 1

/-- What fragments are gathered under: DATA and LOG messages of one id are apart. -/
structure MessageKey where
  packetType : PacketType
  messageId : MessageId
  deriving DecidableEq, Repr

/-- The key of a blank slot. -/
def MessageKey.zero : MessageKey := ⟨.data, 0⟩

/-- The key of the message a fragment belongs to. -/
def MessageFragment.messageKey (f : MessageFragment) : MessageKey := ⟨f.packetType, f.messageId⟩

/-- Overwrites `values.length` cells from `offset` on. -/
def writeSlice {α : Type} (cells : List α) (offset : Nat) (values : List α) : List α :=
  cells.take offset ++ values ++ cells.drop (offset + values.length)

theorem length_writeSlice {α : Type} {cells : List α} {offset : Nat} {values : List α}
    (h : offset + values.length ≤ cells.length) :
    (writeSlice cells offset values).length = cells.length := by
  simp only [writeSlice, List.length_append, List.length_take, List.length_drop]
  omega

theorem getElem?_writeSlice {α : Type} {cells : List α} {offset : Nat} {values : List α}
    (h : offset + values.length ≤ cells.length) (i : Nat) :
    (writeSlice cells offset values)[i]? =
      if offset ≤ i ∧ i < offset + values.length then values[i - offset]? else cells[i]? := by
  have htake : (cells.take offset).length = offset := by rw [List.length_take]; omega
  unfold writeSlice
  rcases Nat.lt_or_ge i offset with hlt | hge
  · rw [if_neg (by omega), List.append_assoc, List.getElem?_append_left (by omega),
      List.getElem?_take_of_lt hlt]
  · rcases Nat.lt_or_ge i (offset + values.length) with hin | hout
    · rw [if_pos ⟨hge, hin⟩, List.append_assoc, List.getElem?_append_right (by omega), htake,
        List.getElem?_append_left (by omega)]
    · have hl : (cells.take offset ++ values).length = offset + values.length := by
        rw [List.length_append, htake]
      rw [if_neg (by omega), List.getElem?_append_right (by omega), hl, List.getElem?_drop]
      congr 1
      omega

/-- One incomplete message: its expected length and the bytes received so far. -/
structure ReassemblySlot where
  active : Bool
  key : MessageKey
  expectedLen : Nat
  updatedAtMs : Nat
  lastSeen : Bool
  received : List Bool
  bytes : Bytes
  received_length : received.length = maxMessageBytes
  bytes_length : bytes.length = maxMessageBytes

namespace ReassemblySlot

/-- The blank slot. -/
def new : ReassemblySlot where
  active := false
  key := .zero
  expectedLen := 0
  updatedAtMs := 0
  lastSeen := false
  received := List.replicate maxMessageBytes false
  bytes := List.replicate maxMessageBytes 0
  received_length := List.length_replicate
  bytes_length := List.length_replicate

/-- The slot of a message nothing has been received of. -/
def start (key : MessageKey) (expectedLen nowMs : Nat) : ReassemblySlot where
  active := true
  key := key
  expectedLen := expectedLen
  updatedAtMs := nowMs
  lastSeen := false
  received := List.replicate maxMessageBytes false
  bytes := List.replicate maxMessageBytes 0
  received_length := List.length_replicate
  bytes_length := List.length_replicate

/-- Whether the last byte and everything before it were received. -/
def isComplete (slot : ReassemblySlot) : Bool :=
  slot.lastSeen && (slot.received.take slot.expectedLen).all id

/-- The slot with a fragment's bytes written and marked received. -/
def write (slot : ReassemblySlot) (fragment : MessageFragment) (nowMs : Nat)
    (h : fragment.fragmentOffset + fragment.bytes.length ≤ maxMessageBytes) : ReassemblySlot :=
  { slot with
    bytes := writeSlice slot.bytes fragment.fragmentOffset fragment.bytes
    updatedAtMs := nowMs
    received := writeSlice slot.received fragment.fragmentOffset
      (List.replicate fragment.bytes.length true)
    lastSeen := slot.lastSeen ||
      fragment.fragmentOffset + fragment.bytes.length == slot.expectedLen
    received_length := by
      rw [length_writeSlice (by rw [List.length_replicate, slot.received_length]; exact h),
        slot.received_length]
    bytes_length := by
      rw [length_writeSlice (by rw [slot.bytes_length]; exact h), slot.bytes_length] }

/-- Takes a fragment in, if it agrees with the slot's length and lies within it.  A message that
becomes complete is handed over and its slot is blank again. -/
def observe (slot : ReassemblySlot) (fragment : MessageFragment) (nowMs : Nat) :
    ReassemblySlot × Except Error (Option MessageEvent) :=
  if slot.expectedLen ≠ fragment.messageLen then (slot, .error .engine)
  else if h : fragment.fragmentOffset + fragment.bytes.length > slot.expectedLen ∨
      fragment.fragmentOffset + fragment.bytes.length > maxMessageBytes then (slot, .error .engine)
  else
    let written := slot.write fragment nowMs (by omega)
    if written.isComplete then
      (new, .ok (some
        { packetType := written.key.packetType
          messageId := written.key.messageId
          bytes := written.bytes
          len := written.expectedLen }))
    else (written, .ok none)

end ReassemblySlot

/-! ## Reassembly table -/

/-- Message reassembly state machine. -/
structure ReassemblyState where
  slots : List ReassemblySlot
  slots_length : slots.length = maxReassemblyMessages

namespace ReassemblyState

/-- The table with blank slots only. -/
def new : ReassemblyState :=
  ⟨List.replicate maxReassemblyMessages .new, List.length_replicate⟩

/-- The active slot of a key. -/
def findSlot (r : ReassemblyState) (key : MessageKey) : Option Nat :=
  r.slots.findIdx? (fun slot => slot.active && slot.key == key)

/-- One round of the search for the oldest slot: the best index and time so far. -/
def olderSlot (best : Nat × Nat) (entry : ReassemblySlot × Nat) : Nat × Nat :=
  if entry.1.updatedAtMs < best.2 then (entry.2, entry.1.updatedAtMs) else best

/-- The slot that was updated longest ago, the first of them if there are several. -/
def oldestSlot (r : ReassemblyState) : Nat := (r.slots.zipIdx.foldl olderSlot (0, u64Max)).1

/-- The slot a new message takes: the first inactive one, else the oldest. -/
def victim (r : ReassemblyState) : Nat :=
  (r.slots.findIdx? (fun slot => !slot.active)).getD r.oldestSlot

/-- Replaces one slot. -/
def setSlot (r : ReassemblyState) (index : Nat) (slot : ReassemblySlot) : ReassemblyState :=
  ⟨r.slots.set index slot, by rw [List.length_set, r.slots_length]⟩

/-- Starts a slot for `key` and returns its index. -/
def allocateSlot (r : ReassemblyState) (key : MessageKey) (fragment : MessageFragment)
    (nowMs : Nat) : ReassemblyState × Nat :=
  (r.setSlot r.victim (.start key fragment.messageLen nowMs), r.victim)

/-- Takes a fragment into the slot of its message, which is allocated first if there is none.  A
fragment its slot refuses leaves the slot allocated. -/
def observe (r : ReassemblyState) (fragment : MessageFragment) (nowMs : Nat) :
    ReassemblyState × Except Error (Option MessageEvent) :=
  if fragment.messageLen > maxMessageBytes then (r, .error .engine)
  else
    let located :=
      match r.findSlot fragment.messageKey with
      | some index => (r, index)
      | none => r.allocateSlot fragment.messageKey fragment nowMs
    let result := (located.1.slots[located.2]?.getD .new).observe fragment nowMs
    (located.1.setSlot located.2 result.1, result.2)

/-- Blanks every slot whose last update is at least `timeoutMs` ago. -/
def expire (r : ReassemblyState) (nowMs timeoutMs : Nat) : ReassemblyState :=
  ⟨r.slots.map (fun slot =>
      if slot.active && decide (nowMs - slot.updatedAtMs ≥ timeoutMs) then .new else slot),
    by rw [List.length_map, r.slots_length]⟩

end ReassemblyState

end Msrt
