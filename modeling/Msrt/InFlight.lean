import Msrt.Queues
import Msrt.SlotTable

/-! # In-flight packets

Encoded packets that wait for an acknowledgement, at most sixteen, in a table of optional slots.
The table's count is the number of occupied slots and its keys are distinct: both are fields.
-/

namespace Msrt

/-- Encoded packet waiting for acknowledgement. -/
structure InFlightPacket where
  key : PacketKey
  packetType : PacketType
  messageId : MessageId
  wire : WireBuffer
  attempts : UInt8
  lastSentMs : Nat
  sent : Bool
  deriving DecidableEq

/-- `saturating_add(1)` on `u8`. -/
def saturatingSucc (n : UInt8) : UInt8 := if n = 255 then 255 else n + 1

/-- Fixed-capacity in-flight packet set. -/
structure InFlightPackets where
  packets : List (Option InFlightPacket)
  len : Nat
  packets_length : packets.length = maxInFlightPackets
  len_eq : len = (SlotTable.entries packets).length
  keys_nodup : ((SlotTable.entries packets).map InFlightPacket.key).Nodup

namespace InFlightPackets
open SlotTable

/-- The empty table. -/
def new : InFlightPackets where
  packets := List.replicate maxInFlightPackets none
  len := 0
  packets_length := List.length_replicate
  len_eq := by rw [entries_replicate_none]; rfl
  keys_nodup := by rw [entries_replicate_none]; exact List.nodup_nil

/-- The tracked packets, in slot order. -/
def toList (t : InFlightPackets) : List InFlightPacket := entries t.packets

/-- How many packets still fit. -/
def available (t : InFlightPackets) : Nat := maxInFlightPackets - t.len

theorem len_le (t : InFlightPackets) : t.len ≤ maxInFlightPackets := by
  rw [t.len_eq, ← t.packets_length]
  exact length_entries_le _

/-- Updating one entry in place keeps the count, and the keys if the entry keeps its own. -/
theorem update_fields (t : InFlightPackets) {key : PacketKey}
    {f : InFlightPacket → InFlightPacket} (hf : ∀ p, p.key = key → (f p).key = key)
    {slots : List (Option InFlightPacket)}
    (h : replaceFirst? (fun p => p.key == key) (fun p => some (f p)) t.packets = some slots) :
    t.len = (entries slots).length ∧ ((entries slots).map InFlightPacket.key).Nodup := by
  obtain ⟨before, x, after, he, -, hx, he'⟩ := replaceFirst?_eq_some h
  have hlen := t.len_eq
  have hnodup := t.keys_nodup
  have hkey : (f x).key = x.key := by
    have hxk : x.key = key := eq_of_beq hx
    rw [hf x hxk, hxk]
  rw [he] at hlen hnodup
  rw [he']
  refine ⟨by simpa using hlen, ?_⟩
  simpa [hkey] using hnodup

/-- Tracks a packet: in the slot of its key if there is one, else in the first free slot. -/
def track (t : InFlightPackets) (packet : InFlightPacket) : Except Error InFlightPackets :=
  match h : replaceFirst? (fun p => p.key == packet.key) (fun _ => some packet) t.packets with
  | some slots => .ok
      { packets := slots
        len := t.len
        packets_length := by rw [length_replaceFirst? h, t.packets_length]
        len_eq := (t.update_fields (f := fun _ => packet) (fun _ _ => rfl) h).1
        keys_nodup := (t.update_fields (f := fun _ => packet) (fun _ _ => rfl) h).2 }
  | none =>
    match h' : putFirstFree? packet t.packets with
    | some slots => .ok
        { packets := slots
          len := t.len + 1
          packets_length := by rw [length_putFirstFree? h', t.packets_length]
          len_eq := by
            obtain ⟨before, after, he, he'⟩ := putFirstFree?_eq_some h'
            rw [t.len_eq, he, he']
            simp; omega
          keys_nodup := by
            obtain ⟨before, after, he, he'⟩ := putFirstFree?_eq_some h'
            have hfresh := replaceFirst?_eq_none.mp h
            have hnodup := t.keys_nodup
            rw [he] at hfresh hnodup
            rw [he', List.map_append, List.map_cons,
              (List.perm_middle).nodup_iff, List.nodup_cons]
            refine ⟨?_, by simpa using hnodup⟩
            rw [← List.map_append]
            intro hm
            obtain ⟨p, hp, hk⟩ := List.mem_map.mp hm
            have := hfresh p hp
            simp [hk] at this }
    | none => .error .engine

/-- Removes the packet with `key`, if it is tracked. -/
def applyAck (t : InFlightPackets) (key : PacketKey) : InFlightPackets :=
  match h : replaceFirst? (fun p => p.key == key) (fun _ => none) t.packets with
  | some slots =>
    { packets := slots
      len := t.len - 1
      packets_length := by rw [length_replaceFirst? h, t.packets_length]
      len_eq := by
        obtain ⟨before, x, after, he, -, -, he'⟩ := replaceFirst?_eq_some h
        rw [t.len_eq, he, he']
        simp
      keys_nodup := by
        obtain ⟨before, x, after, he, -, -, he'⟩ := replaceFirst?_eq_some h
        have hnodup := t.keys_nodup
        rw [he] at hnodup
        rw [he']
        refine List.Nodup.sublist ?_ hnodup
        simp [List.map_append] }
  | none => t

/-- Removes every packet of a message. -/
def removeMessage (t : InFlightPackets) (packetType : PacketType) (messageId : MessageId) :
    InFlightPackets :=
  let belongs := fun p : InFlightPacket => p.packetType == packetType && p.messageId == messageId
  { packets := clearAll belongs t.packets
    len := t.len - (entries t.packets).countP belongs
    packets_length := by rw [length_clearAll, t.packets_length]
    len_eq := by
      rw [entries_clearAll, t.len_eq, ← List.countP_eq_length_filter]
      have := List.length_eq_countP_add_countP (l := entries t.packets) belongs
      simp only [Bool.not_eq_true, Bool.decide_eq_false] at this
      omega
    keys_nodup := by
      rw [entries_clearAll]
      exact List.Nodup.sublist (List.Sublist.map _ List.filter_sublist) t.keys_nodup }

/-- Passes the packet with `key`, if it is tracked, through `f`. -/
def modify (t : InFlightPackets) (key : PacketKey) (f : InFlightPacket → InFlightPacket)
    (hf : ∀ p, p.key = key → (f p).key = key) : InFlightPackets :=
  match h : replaceFirst? (fun p => p.key == key) (fun p => some (f p)) t.packets with
  | some slots =>
    { packets := slots
      len := t.len
      packets_length := by rw [length_replaceFirst? h, t.packets_length]
      len_eq := (t.update_fields hf h).1
      keys_nodup := (t.update_fields hf h).2 }
  | none => t

/-- Records a transmission that is no retransmission. -/
def noteSent (t : InFlightPackets) (key : PacketKey) (nowMs : Nat) : InFlightPackets :=
  t.modify key (fun p => { p with sent := true, lastSentMs := nowMs }) (fun _ h => h)

/-- Records a retransmission, which counts as an attempt. -/
def noteRetransmitSent (t : InFlightPackets) (key : PacketKey) (nowMs : Nat) : InFlightPackets :=
  t.modify key
    (fun p => { p with sent := true, attempts := saturatingSucc p.attempts, lastSentMs := nowMs })
    (fun _ h => h)

/-! ## Membership -/

@[simp] theorem toList_new : InFlightPackets.new.toList = [] := by
  rw [toList, new, entries_replicate_none]

theorem mem_applyAck {t : InFlightPackets} {key : PacketKey} {p : InFlightPacket} :
    p ∈ (t.applyAck key).toList ↔ p ∈ t.toList ∧ p.key ≠ key := by
  unfold applyAck toList
  split
  · rename_i slots h
    rw [mem_replaceFirst?_key t.keys_nodup h]
    simp
  · rename_i h
    constructor
    · intro hp
      exact ⟨hp, replaceFirst?_key_eq_none h p hp⟩
    · exact And.left

theorem mem_removeMessage {t : InFlightPackets} {packetType : PacketType} {messageId : MessageId}
    {p : InFlightPacket} :
    p ∈ (t.removeMessage packetType messageId).toList ↔
      p ∈ t.toList ∧ ¬ (p.packetType = packetType ∧ p.messageId = messageId) := by
  unfold removeMessage toList
  dsimp only
  rw [entries_clearAll, List.mem_filter]
  simp [imp_iff_not_or]

theorem mem_modify {t : InFlightPackets} {key : PacketKey} {f : InFlightPacket → InFlightPacket}
    {hf : ∀ p, p.key = key → (f p).key = key} {p : InFlightPacket} :
    p ∈ (t.modify key f hf).toList ↔
      ∃ q ∈ t.toList, p = if q.key = key then f q else q := by
  unfold modify toList
  split
  · rename_i slots h
    rw [mem_replaceFirst?_key t.keys_nodup h]
    constructor
    · rintro (⟨hp, hkey⟩ | ⟨q, hq, hkey, hfq⟩)
      · exact ⟨p, hp, (if_neg hkey).symm⟩
      · exact ⟨q, hq, by rw [if_pos hkey, Option.some.inj hfq]⟩
    · rintro ⟨q, hq, rfl⟩
      by_cases hkey : q.key = key
      · rw [if_pos hkey]
        exact .inr ⟨q, hq, hkey, rfl⟩
      · rw [if_neg hkey]
        exact .inl ⟨hq, hkey⟩
  · rename_i h
    have hnone := replaceFirst?_key_eq_none h
    constructor
    · intro hp
      exact ⟨p, hp, (if_neg (hnone p hp)).symm⟩
    · rintro ⟨q, hq, rfl⟩
      rw [if_neg (hnone q hq)]
      exact hq

theorem mem_noteSent {t : InFlightPackets} {key : PacketKey} {nowMs : Nat} {p : InFlightPacket} :
    p ∈ (t.noteSent key nowMs).toList ↔ ∃ q ∈ t.toList,
      p = if q.key = key then { q with sent := true, lastSentMs := nowMs } else q := by
  unfold noteSent
  exact mem_modify

theorem mem_noteRetransmitSent {t : InFlightPackets} {key : PacketKey} {nowMs : Nat}
    {p : InFlightPacket} :
    p ∈ (t.noteRetransmitSent key nowMs).toList ↔ ∃ q ∈ t.toList,
      p = if q.key = key then
        { q with sent := true, attempts := saturatingSucc q.attempts, lastSentMs := nowMs }
        else q := by
  unfold noteRetransmitSent
  exact mem_modify

theorem mem_of_track {t t' : InFlightPackets} {packet : InFlightPacket}
    (h : t.track packet = .ok t') {p : InFlightPacket} :
    p ∈ t'.toList ↔ p = packet ∨ (p ∈ t.toList ∧ p.key ≠ packet.key) := by
  unfold track at h
  split at h
  · rename_i slots hrep
    obtain rfl := Except.ok.inj h
    obtain ⟨x, hx, hkey⟩ := exists_of_replaceFirst?_key hrep
    show p ∈ entries slots ↔ _
    rw [mem_replaceFirst?_key t.keys_nodup hrep]
    constructor
    · rintro (hp | ⟨_, _, _, hp⟩)
      · exact .inr hp
      · exact .inl (Option.some.inj hp).symm
    · rintro (rfl | hp)
      · exact .inr ⟨x, hx, hkey, rfl⟩
      · exact .inl hp
  · rename_i hrep
    have hnone := replaceFirst?_key_eq_none hrep
    split at h
    · rename_i slots hput
      obtain rfl := Except.ok.inj h
      -- no entry has the key, so the packet takes the first free place
      show p ∈ entries slots ↔ _
      rw [mem_putFirstFree? hput]
      constructor
      · rintro (hp | hp)
        · exact .inl hp
        · exact .inr ⟨hp, hnone p hp⟩
      · rintro (hp | ⟨hp, -⟩)
        · exact .inl hp
        · exact .inr hp
    · cases h

theorem len_of_track {t t' : InFlightPackets} {packet : InFlightPacket}
    (h : t.track packet = .ok t') : t'.len ≤ t.len + 1 := by
  unfold track at h
  split at h
  · obtain rfl := Except.ok.inj h
    exact Nat.le_succ _
  · split at h
    · obtain rfl := Except.ok.inj h
      exact Nat.le_refl _
    · cases h

theorem track_of_lt {t : InFlightPackets} (packet : InFlightPacket)
    (h : t.len < maxInFlightPackets) : ∃ t', t.track packet = .ok t' := by
  unfold track
  split
  · exact ⟨_, rfl⟩
  · split
    · exact ⟨_, rfl⟩
    · rename_i hput
      have hfull := putFirstFree?_eq_none hput
      rw [← t.len_eq, t.packets_length] at hfull
      omega

end InFlightPackets

/-! ## Recovery state -/

/-- Reliable-send recovery state machine, with fixed timeouts. -/
structure RecoveryState where
  inFlight : InFlightPackets
  lastTickMs : Option Nat

namespace RecoveryState

/-- Nothing is in flight and no tick has run. -/
def new : RecoveryState := ⟨.new, none⟩

/-- Tracks a packet until it is acknowledged or given up. -/
def track (r : RecoveryState) (packet : InFlightPacket) : Except Error RecoveryState :=
  match r.inFlight.track packet with
  | .ok inFlight => .ok { r with inFlight }
  | .error e => .error e

/-- An acknowledged packet is no longer in flight. -/
def applyAck (r : RecoveryState) (key : PacketKey) : RecoveryState :=
  { r with inFlight := r.inFlight.applyAck key }

/-- The packets in flight, in slot order. -/
def packets (r : RecoveryState) : List InFlightPacket := r.inFlight.toList

/-- How many packets can still be tracked. -/
def availableInFlight (r : RecoveryState) : Nat := r.inFlight.available

/-- A tick runs at most once per time. -/
def shouldTick (r : RecoveryState) (nowMs : Nat) : RecoveryState × Bool :=
  if r.lastTickMs = some nowMs then (r, false) else ({ r with lastTickMs := some nowMs }, true)

/-- Gives up every packet of a message. -/
def removeMessage (r : RecoveryState) (packetType : PacketType) (messageId : MessageId) :
    RecoveryState :=
  { r with inFlight := r.inFlight.removeMessage packetType messageId }

/-- Records a transmission that is no retransmission. -/
def noteSent (r : RecoveryState) (key : PacketKey) (nowMs : Nat) : RecoveryState :=
  { r with inFlight := r.inFlight.noteSent key nowMs }

/-- Records a retransmission of a packet. -/
def noteRetransmitSent (r : RecoveryState) (key : PacketKey) (nowMs : Nat) : RecoveryState :=
  { r with inFlight := r.inFlight.noteRetransmitSent key nowMs }

end RecoveryState

end Msrt
