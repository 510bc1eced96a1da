import Mathlib.Data.Finset.Card
import Msrt.Outgoing

/-! # Message ids do not repeat

The allocator runs through all `2 ^ 32` ids in one cycle: ids fewer than `2 ^ 32` allocations apart
differ (`allocated_inj`), so a window of `2 ^ 32` allocations has room for no id twice, hence holds
each id once (`exists_allocated`), and the next window starts over (`allocated_add_period`).

In a run of the engine every send takes one id, whether it is accepted or refused.  Accepted messages
share an id only if `2 ^ 32` sends lie between them.
-/

namespace Msrt

namespace NumberState

/-- The id returned by allocation `k` of an allocator that was created with `initial`. -/
def allocated (initial : MessageId) (k : Nat) : MessageId :=
  ((fun n : NumberState => n.allocMessageId.1)^[k] (.new initial)).allocMessageId.2

theorem allocated_eq (initial : MessageId) (k : Nat) :
    allocated initial k = nextId^[k + 1] initial := by
  have hsemi : Function.Semiconj NumberState.messageIdState (fun n => n.allocMessageId.1) nextId :=
    fun _ => rfl
  have hstate := hsemi.iterate_right k (.new initial)
  show nextId (NumberState.messageIdState _) = _
  rw [hstate, Function.iterate_succ_apply']
  rfl

/-- **Ids fewer than `2 ^ 32` allocations apart differ.** -/
theorem allocated_ne (initial : MessageId) (k : Nat) {distance : Nat} (hpos : 0 < distance)
    (hlt : distance < 2 ^ 32) : allocated initial (k + distance) ≠ allocated initial k := by
  rw [allocated_eq, allocated_eq, show k + distance + 1 = distance + (k + 1) by omega,
    Function.iterate_add_apply]
  exact iterate_nextId_ne hpos hlt _

theorem allocated_inj {initial : MessageId} {start i j : Nat} (hi : i < 2 ^ 32) (hj : j < 2 ^ 32)
    (h : allocated initial (start + i) = allocated initial (start + j)) : i = j := by
  by_contra hne
  rcases Nat.lt_or_gt_of_ne hne with hlt | hlt
  · apply allocated_ne initial (start + i) (show 0 < j - i by omega) (by omega)
    rw [h, show start + i + (j - i) = start + j by omega]
  · apply allocated_ne initial (start + j) (show 0 < i - j by omega) (by omega)
    rw [← h, show start + j + (i - j) = start + i by omega]

/-- **A window of `2 ^ 32` allocations holds every id.** -/
theorem exists_allocated (initial : MessageId) (start : Nat) (id : MessageId) :
    ∃ i < 2 ^ 32, allocated initial (start + i) = id := by
  have hmaps : Set.MapsTo (fun i => (allocated initial (start + i)).toNat)
      (Finset.range (2 ^ 32)) (Finset.range (2 ^ 32)) := by
    intro i _
    exact Finset.mem_coe.mpr (Finset.mem_range.mpr (UInt32.toNat_lt _))
  have hinj : Set.InjOn (fun i => (allocated initial (start + i)).toNat)
      (Finset.range (2 ^ 32)) := by
    intro i hi j hj h
    exact allocated_inj (Finset.mem_range.mp (Finset.mem_coe.mp hi))
      (Finset.mem_range.mp (Finset.mem_coe.mp hj)) (UInt32.toNat_inj.mp h)
  obtain ⟨i, hi, hid⟩ := Finset.surjOn_of_injOn_of_card_le _ hmaps hinj (Nat.le_refl _)
    (Finset.mem_coe.mpr (Finset.mem_range.mpr (UInt32.toNat_lt id)))
  exact ⟨i, Finset.mem_range.mp (Finset.mem_coe.mp hi), UInt32.toNat_inj.mp hid⟩

/-- After `2 ^ 32` allocations the ids start over. -/
theorem allocated_add_period (initial : MessageId) (k : Nat) :
    allocated initial (k + 2 ^ 32) = allocated initial k := by
  -- the window behind `k` holds the id as well, and can hold it only at its end
  obtain ⟨i, hi, hid⟩ := exists_allocated initial (k + 1) (allocated initial k)
  have hend : i + 1 = 2 ^ 32 := by
    by_contra hne
    apply allocated_ne initial k (show 0 < i + 1 by omega) (by omega)
    rw [show k + (i + 1) = k + 1 + i by omega, hid]
  rw [← hend, show k + (i + 1) = k + 1 + i by omega, hid]

end NumberState

section Sends
variable {config : EngineConfig} {calls : List Call} {st : EngineState}

/-- An accepted message has the id of the allocation that its send made. -/
theorem PacketRun.messageId_eq (h : PacketRun config calls st) {before after : List Call}
    {call : Call} (hsplit : calls = before ++ call :: after) {m : SentMessage}
    (hm : call.accepted config = some m) :
    m.messageId = NumberState.allocated config.initialMessageId (sendCount before) := by
  rw [(isSend_of_accepted hm).2, (h.of_split hsplit).idInv.counter, NumberState.allocated_eq,
    Function.iterate_succ_apply']

/-- **Message ids do not repeat.**  Any `2 ^ 32` consecutive allocations return `2 ^ 32` different
ids, so every id once, in the same order again and again; and of two accepted messages of a session
that are fewer than `2 ^ 32` allocations apart, the ids differ. -/
theorem message_ids_unique :
    (∀ initial : MessageId,
      (∀ start i j, i < 2 ^ 32 → j < 2 ^ 32 →
        NumberState.allocated initial (start + i) = NumberState.allocated initial (start + j) →
        i = j) ∧
      (∀ start id, ∃ i < 2 ^ 32, NumberState.allocated initial (start + i) = id) ∧
      ∀ k, NumberState.allocated initial (k + 2 ^ 32) = NumberState.allocated initial k) ∧
    ∀ config allowed calls st, EngineRun config allowed calls st →
      ∀ before send between send' after m m',
        calls = before ++ send :: (between ++ send' :: after) →
        send.accepted config = some m → send'.accepted config = some m' →
        sendCount (send :: between) < 2 ^ 32 → m.messageId ≠ m'.messageId := by
  refine ⟨fun initial => ⟨fun start i j hi hj => NumberState.allocated_inj hi hj,
    NumberState.exists_allocated initial, NumberState.allocated_add_period initial⟩, ?_⟩
  intro config allowed calls st hrun before send between send' after m m' hsplit hm hm' hnear
  have hfirst := hrun.packetRun.messageId_eq hsplit hm
  have hsplit' : calls = (before ++ send :: between) ++ send' :: after := by
    rw [hsplit, List.append_assoc, List.cons_append]
  have hsecond := hrun.packetRun.messageId_eq hsplit' hm'
  have hcount : sendCount (before ++ send :: between) =
      sendCount before + sendCount (send :: between) := List.countP_append
  have hpos : 0 < sendCount (send :: between) :=
    List.countP_pos_iff.mpr ⟨send, List.mem_cons_self, (isSend_of_accepted hm).1⟩
  rw [hfirst, hsecond, hcount]
  exact (NumberState.allocated_ne _ _ hpos hnear).symm

end Sends

end Msrt
