import Msrt.AllOrNothing
import Msrt.RecoveryRound

/-! # Fragments that arrive in order

A receiver that is handed the fragments of a message from the first to the last keeps one slot for it,
which has the bytes up to where the last fragment ended (`Gathered`).  Every fragment but the last one
makes the slot longer, and the last one completes the message and gives the slot back
(`Gathered.observe`).  Seen from outside (`Heard`): a DATA packet is answered with its acknowledgement,
a LOG packet is not answered, and the packet of the last fragment puts the message into the delivery
queue.
-/

namespace Msrt
open EngineState

/-! ## The slot of a message -/

section Gathering
variable {sender : EngineConfig} {m : SentMessage} {r : ReassemblyState} {i nowMs : Nat}

/-- The table has the first `i` fragments of the message and no other of its fragments. -/
inductive Gathered (sender : EngineConfig) (m : SentMessage) (r : ReassemblyState) : Nat → Prop
  | nothing : (∀ slot, ¬ r.Holds m.messageKey slot) → Gathered sender m r 0
  | upTo {i : Nat} (slot : ReassemblySlot) : 0 < i → r.Holds m.messageKey slot → Genuine m slot →
      (∀ j, slot.Got j ↔ j < i * m.size sender) → Gathered sender m r i

/-- The slot the next fragment goes to. -/
theorem Gathered.target (h : Gathered sender m r i) (hd : r.KeysDistinct) {old : ReassemblySlot}
    (hold : r.Holds m.messageKey old ∨ ((∀ s, ¬ r.Holds m.messageKey s) ∧
      old = .start m.messageKey m.bytes.length nowMs)) :
    Genuine m old ∧ old.key = m.messageKey ∧ old.active = true ∧
      ∀ j, old.Got j ↔ j < i * m.size sender := by
  cases h with
  | nothing hnone =>
    rcases hold with hold | ⟨-, rfl⟩
    · exact absurd hold (hnone old)
    · refine ⟨genuine_start m nowMs, rfl, rfl, ?_⟩
      intro j
      rw [Nat.zero_mul]
      exact iff_of_false (not_got_start _ _ _ j) (Nat.not_lt_zero j)
  | upTo slot _ hslot hgenuine hgot =>
    rcases hold with hold | ⟨hnone, -⟩
    · obtain rfl := hold.unique hd hslot
      exact ⟨hgenuine, hold.key_eq, hold.active, hgot⟩
    · exact absurd hslot (hnone slot)

theorem next_offset_lt (hi : i + 1 < m.count sender) :
    (i + 1) * m.size sender < m.bytes.length := by
  refine (SentMessage.offset_lt_iff sender ?_ _).mpr hi
  intro hempty
  rw [SentMessage.count, hempty] at hi
  change i + 1 < Chunks.count 0 _ at hi
  rw [Chunks.count_zero] at hi
  omega

/-- What the next fragment does. -/
inductive TakesNext (sender : EngineConfig) (m : SentMessage) (i nowMs : Nat) :
    ReassemblyState × Except Error (Option MessageEvent) → Prop
  | more {r' : ReassemblyState} : i + 1 < m.count sender → Gathered sender m r' (i + 1) →
      (∀ slot, r'.Holds m.messageKey slot → slot.updatedAtMs = nowMs) →
      TakesNext sender m i nowMs (r', .ok none)
  | last {r' : ReassemblyState} (storage : Bytes) : i + 1 = m.count sender →
      (∀ slot, ¬ r'.Holds m.messageKey slot) → (m.event storage).asBytes = m.bytes →
      TakesNext sender m i nowMs (r', .ok (some (m.event storage)))

/-- **The next fragment makes the slot longer, or completes the message.** -/
theorem Gathered.observe (h : Gathered sender m r i) (hm : m.Valid) (hd : r.KeysDistinct)
    (hi : i < m.count sender) (nowMs : Nat) :
    TakesNext sender m i nowMs (r.observe (m.messageFragment sender i) nowMs) := by
  have hfits := SentMessage.fragment_fits hi
  have hbytes : m.bytes.length ≤ maxMessageBytes := hm.length_le
  obtain ⟨old, hat⟩ := ReassemblyState.observe_spec hd
    (show (m.messageFragment sender i).messageLen ≤ maxMessageBytes from hbytes) nowMs
  obtain ⟨hgenuine, hkey, hactive, hgot⟩ := h.target hd hat.slot_eq
  have hobs := old.observed (m.messageFragment sender i) nowMs
  have hresult := hat.result_eq
  have hself := hat.self
  -- what is written ends where the fragment ends
  have hwritten {slot : ReassemblySlot}
      (hw : old.Written (m.messageFragment sender i) nowMs slot) (j : Nat) :
      slot.Got j ↔ j < i * m.size sender + (m.fragment sender i).length := by
    rw [hw.got, hgot]
    show (i * m.size sender ≤ j ∧ j < i * m.size sender + (m.fragment sender i).length) ∨ _ ↔ _
    omega
  have hbound {slot : ReassemblySlot} (hslot : Genuine m slot) :
      slot.expectedLen ≤ maxMessageBytes := by rw [hslot.expectedLen]; exact hbytes
  have hend : i * m.size sender + (m.fragment sender i).length = m.bytes.length ↔
      i + 1 = m.count sender := Chunks.chunk_last (m.size_pos sender) hi
  generalize r.observe (m.messageFragment sender i) nowMs = observed at hresult hself ⊢
  obtain ⟨r', result⟩ := observed
  dsimp only at hresult hself
  subst hresult
  generalize old.observe (m.messageFragment sender i) nowMs = handled at hobs hself ⊢
  cases hobs with
  | refused e hcases =>
    have hexpected : old.expectedLen = m.bytes.length := hgenuine.expectedLen
    rcases hcases with h | h | h
    · exact absurd hexpected h
    · change old.expectedLen < i * m.size sender + (m.fragment sender i).length at h
      omega
    · change maxMessageBytes < i * m.size sender + (m.fragment sender i).length at h
      omega
  | partly slot _ hw hincomplete =>
    have hslot := hgenuine.written hw
    have hmore : i + 1 < m.count sender := by
      by_contra hlast
      have hall := hend.mpr (by omega)
      have hcomplete := (slot.isComplete_iff (hbound hslot)).mpr ⟨?_, ?_⟩
      · rw [hcomplete] at hincomplete
        cases hincomplete
      · exact hw.lastSeen.mpr (.inr (hall.trans hgenuine.expectedLen.symm))
      · intro j hj
        rw [hslot.expectedLen] at hj
        exact (hwritten hw j).mpr (by omega)
    have hheld : r'.Holds m.messageKey slot :=
      (hself slot).mpr ⟨rfl, hw.active.trans hactive⟩
    refine .more hmore (.upTo slot (Nat.succ_pos i) hheld hslot ?_) ?_
    · intro j
      rw [hwritten hw, m.length_fragment_eq sender hmore, Nat.add_mul, Nat.one_mul]
    · intro slot' hslot'
      rw [((hself slot').mp hslot').1]
      exact hw.updatedAtMs
  | completed slot _ hw hcomplete =>
    have hslot := hgenuine.written hw
    have hlast : i + 1 = m.count sender := by
      by_contra hne
      have hmore : i + 1 < m.count sender := by omega
      have hnext := next_offset_lt hmore
      obtain ⟨-, hall⟩ := (slot.isComplete_iff (hbound hslot)).mp hcomplete
      rw [hslot.expectedLen] at hall
      have hread := (hwritten hw _).mp (hall _ hnext)
      rw [m.length_fragment_eq sender hmore, Nat.add_mul, Nat.one_mul] at hread
      omega
    have hevent : (⟨slot.key.packetType, slot.key.messageId, slot.bytes, slot.expectedLen⟩ :
        MessageEvent) = m.event slot.bytes := by
      rw [hw.key, hkey, hslot.expectedLen]
      rfl
    rw [hevent]
    refine .last slot.bytes hlast ?_ (hslot.asBytes hm hcomplete)
    intro slot' hslot'
    obtain ⟨rfl, hblank⟩ := (hself slot').mp hslot'
    cases hblank

end Gathering

/-! ## The packet of a fragment -/

theorem PacketDedup.isDuplicate_observePacket {capacity : Nat} {d : PacketDedup capacity}
    {key key' : PacketKey} (h : (d.observePacket key).1.isDuplicate key' = true) :
    d.isDuplicate key' = true ∨ key' = key := by
  unfold observePacket at h
  split at h
  · exact .inl h
  · split at h
    · exact .inl h
    · obtain ⟨known, hmem, heq⟩ := List.any_eq_true.mp h
      rcases List.mem_or_eq_of_mem_set hmem with hmem | rfl
      · exact .inl (List.any_eq_true.mpr ⟨known, hmem, heq⟩)
      · exact .inr (Option.some.inj (eq_of_beq heq)).symm

section Hearing
variable {sender receiver : EngineConfig} {m : SentMessage} {st : EngineState} {i : Nat}

/-- What a receiver does with the packet of fragment `i`, which it has not seen before. -/
structure Heard (sender : EngineConfig) (m : SentMessage) (i : Nat) (st st' : EngineState) :
    Prop where
  frame : MessageFrame st st'
  acks : RingQueue.toList st'.ack = if m.packetType = .data then [m.packetKey i] else []
  seen : ∀ key, st'.receive.isDuplicate key = true →
    st.receive.isDuplicate key = true ∨ key = m.packetKey i
  reassembly : st'.reassembly =
    (st.reassembly.observe (m.messageFragment sender i) st.clock.nowMs).1
  message : st'.message = deliver st.message m.packetType
    (st.reassembly.observe (m.messageFragment sender i) st.clock.nowMs).2

/-- **A packet that was not seen before is heard**, and a DATA packet is to be acknowledged. -/
theorem receiveCompletePacket_heard (hm : m.Valid) (hi : i < m.count sender)
    (hacks : RingQueue.toList st.ack = [])
    (hunseen : m.packetType = .data → st.receive.isDuplicate (m.packetKey i) = false)
    (hkept : (st.reassembly.observe (m.messageFragment sender i) st.clock.nowMs).2.isOk = true) :
    (st.receiveCompletePacket receiver (m.packet sender i)).2.isError = false ∧
      Heard sender m i st (st.receiveCompletePacket receiver (m.packet sender i)).1 := by
  rcases SentMessage.decode_packet hm hi with ⟨hdata, header, hdec⟩ | ⟨hlog, header, hdec⟩
  · have hroom : RingQueue.len st.ack < maxPendingAcks := by
      rw [(RingQueue.toList_eq_nil_iff st.ack).mp hacks]
      decide
    have hhandled : st.receiveCompletePacket receiver (m.packet sender i) =
        st.receiveData (m.messageFragment sender i) := by rw [receiveCompletePacket, hdec]
    have herror := isError_receiveData hroom (m.messageFragment sender i)
    have hexact := receiveData_acks st (m.messageFragment sender i)
    have hstep := receiveData_spec st (m.messageFragment sender i)
    rw [hhandled]
    refine ⟨herror, ?_⟩
    have hasks : (m.messageFragment sender i).ackEliciting = true := by
      simp [SentMessage.messageFragment, hdata]
    have hanswer : RingQueue.toList (st.receiveData (m.messageFragment sender i)).1.ack =
        [m.packetKey i] := by
      generalize st.receiveData (m.messageFragment sender i) = handled at hexact herror ⊢
      cases hexact with
      | duplicate ack hack => rw [hack, hacks, hasks, if_pos rfl]; rfl
      | accepted st' hack => rw [hack, hacks, hasks, if_pos rfl]; rfl
      | refused st' _ hrefused =>
        rw [hkept] at hrefused
        cases hrefused
      | failed st' e => cases herror
    cases hstep with
    | duplicate hdup =>
      rw [SentMessage.messageFragment_key, hunseen hdata] at hdup
      cases hdup
    | refused _ hrefused =>
      rw [hkept] at hrefused
      cases hrefused
    | accepted _ _ hspec hreceive =>
      refine ⟨hspec.frame, ?_, ?_, hspec.reassembly, ?_⟩
      · rw [hanswer, if_pos hdata]
      · intro key hkey
        rw [hreceive] at hkey
        exact PacketDedup.isDuplicate_observePacket hkey
      · rw [hspec.message, hdata]
  · have hhandled : st.receiveCompletePacket receiver (m.packet sender i) =
        st.receiveLog (m.messageFragment sender i) := by rw [receiveCompletePacket, hdec]
    obtain ⟨hspec, hreceive, hack⟩ := receiveLog_spec st (m.messageFragment sender i)
    rw [hhandled]
    refine ⟨isError_receiveLog st _, hspec.frame, ?_, ?_, hspec.reassembly, ?_⟩
    · rw [hack, hacks, if_neg (by rw [hlog]; decide)]
    · intro key hkey
      rw [hreceive] at hkey
      exact .inl hkey
    · rw [hspec.message, hlog]

end Hearing
end Msrt
