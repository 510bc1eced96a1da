import Mathlib.Data.Finset.Card
import Msrt.Core
import Msrt.Simulation
import Msrt.SlotMap

/-! # The acknowledgement tracker

`PacketAckTracker<N>` is the reliability layer's own account of what was sent and what was
acknowledged: a table of `N` slots, searched from the front.  What it is for is said without slots:
two sets of keys, those still waiting for their acknowledgement and those confirmed (`AckLedger`),
with room for `N` keys in all.  The table answers as the ledger does, operation by operation
(`automaton_refines`), and so over every run.

A slot is never given back.  The keys of a ledger only grow, and once there are `N` of them the
tracker takes no other key, ever.
-/

namespace Msrt
open SlotTable SlotMap

/-- Known reliability state for a packet key. -/
inductive PacketState where
  | unknown
  | inFlight
  | acked
  | lost
  | dropped
  deriving DecidableEq, Repr

/-- Result of applying an ACK to local packet state. -/
inductive AckOutcome where
  | newlyAcked (key : PacketKey)
  | alreadyAcked (key : PacketKey)
  | ignored (key : PacketKey)
  deriving DecidableEq, Repr

/-- One slot of the tracker. -/
structure TrackedPacket where
  key : PacketKey
  state : PacketState
  deriving DecidableEq, Repr

/-- The states the tracker writes. -/
def PacketState.Tracked (state : PacketState) : Prop := state = .inFlight ∨ state = .acked

theorem PacketState.tracked_inFlight : PacketState.inFlight.Tracked := .inl rfl
theorem PacketState.tracked_acked : PacketState.acked.Tracked := .inr rfl

/-- Fixed-capacity ACK tracker.  No key has two slots, and every slot is waiting or confirmed. -/
structure PacketAckTracker (capacity : Nat) where
  packets : List (Option TrackedPacket)
  packets_length : packets.length = capacity
  distinct : Distinct TrackedPacket.key packets
  tracked : ∀ packet ∈ entries packets, packet.state.Tracked

namespace PacketAckTracker
variable {capacity : Nat}

/-- `PacketAckTracker::new`. -/
def new : PacketAckTracker capacity where
  packets := List.replicate capacity none
  packets_length := List.length_replicate
  distinct := by simp [Distinct]
  tracked := by simp

/-- A slot a key may be written to: its own, or an empty one while it has none. -/
def Writable (t : PacketAckTracker capacity) (key : PacketKey) (i : Nat) : Prop :=
  ∃ old, t.packets[i]? = some old ∧ (∀ packet ∈ old, packet.key = key) ∧
    (old = none → lookup TrackedPacket.key t.packets key = none)

theorem writable_of_indexOf {t : PacketAckTracker capacity} {key : PacketKey} {i : Nat}
    (h : indexOf TrackedPacket.key t.packets key = some i) : t.Writable key i := by
  obtain ⟨packet, hslot, hkey⟩ := indexOf_eq_some h
  refine ⟨some packet, hslot, ?_, fun hnone => by cases hnone⟩
  intro packet' hpacket'
  obtain rfl := Option.some.inj hpacket'
  exact hkey

theorem writable_of_vacant {t : PacketAckTracker capacity} {key : PacketKey} {i : Nat}
    (hother : indexOf TrackedPacket.key t.packets key = none)
    (h : vacant t.packets = some i) : t.Writable key i :=
  ⟨none, vacant_eq_some h, fun _ hpacket => (by cases hpacket), fun _ => indexOf_eq_none.mp hother⟩

theorem lookup_write {t : PacketAckTracker capacity} {key : PacketKey} {i : Nat}
    (h : t.Writable key i) (state : PacketState) :
    Distinct TrackedPacket.key (t.packets.set i (some ⟨key, state⟩)) ∧
      ∀ key', lookup TrackedPacket.key (t.packets.set i (some ⟨key, state⟩)) key' =
        if key' = key then some ⟨key, state⟩ else lookup TrackedPacket.key t.packets key' := by
  obtain ⟨old, hslot, hold, hfresh⟩ := h
  refine lookup_set t.distinct hslot hold ?_ hfresh
  intro packet hpacket
  obtain rfl := Option.some.inj hpacket
  rfl

/-- `*slot = Some(TrackedPacket::new(key, state))`. -/
def write (t : PacketAckTracker capacity) {key : PacketKey} {i : Nat} (h : t.Writable key i)
    (state : PacketState) (hstate : state.Tracked) : PacketAckTracker capacity where
  packets := t.packets.set i (some ⟨key, state⟩)
  packets_length := by rw [List.length_set, t.packets_length]
  distinct := (lookup_write h state).1
  tracked := by
    intro packet hpacket
    have hfound := (lookup_eq_some (lookup_write h state).1).mpr ⟨hpacket, rfl⟩
    rw [(lookup_write h state).2] at hfound
    by_cases hkey : packet.key = key
    · rw [if_pos hkey] at hfound
      obtain rfl := Option.some.inj hfound
      exact hstate
    · rw [if_neg hkey] at hfound
      exact t.tracked packet ((lookup_eq_some t.distinct).mp hfound).1

/-- `PacketAckTracker::try_on_packet_sent`.  The first slot of the key is overwritten; failing that
the first empty one is taken. -/
def tryOnPacketSent (t : PacketAckTracker capacity) (key : PacketKey) :
    PacketAckTracker capacity × Except Error Unit :=
  if capacity = 0 then (t, .error ⟨.reliability⟩)
  else
    match hown : indexOf TrackedPacket.key t.packets key with
    | some _ => (t.write (writable_of_indexOf hown) .inFlight PacketState.tracked_inFlight, .ok ())
    | none =>
      match hfree : vacant t.packets with
      | some _ =>
        (t.write (writable_of_vacant hown hfree) .inFlight PacketState.tracked_inFlight, .ok ())
      | none => (t, .error ⟨.reliability⟩)

/-- `PacketAckTracker::apply_ack`. -/
def applyAck (t : PacketAckTracker capacity) (key : PacketKey) :
    PacketAckTracker capacity × AckOutcome :=
  match hown : indexOf TrackedPacket.key t.packets key with
  | none => (t, .ignored key)
  | some i =>
    match (t.packets[i]?).join.map TrackedPacket.state with
    | some .inFlight =>
      (t.write (writable_of_indexOf hown) .acked PacketState.tracked_acked, .newlyAcked key)
    | some .acked => (t, .alreadyAcked key)
    | _ => (t, .ignored key)

/-- `AckTracker::on_packet_sent`: the refusal is dropped. -/
def onPacketSent (t : PacketAckTracker capacity) (key : PacketKey) : PacketAckTracker capacity :=
  (t.tryOnPacketSent key).1

/-- `AckTracker::on_ack`. -/
def onAck (t : PacketAckTracker capacity) (key : PacketKey) :
    PacketAckTracker capacity × AckOutcome :=
  t.applyAck key

/-- `AckTracker::state_of`. -/
def stateOf (t : PacketAckTracker capacity) (key : PacketKey) : PacketState :=
  ((lookup TrackedPacket.key t.packets key).map TrackedPacket.state).getD .unknown

/-! ## What one write changes -/

theorem stateOf_new (key : PacketKey) :
    (new : PacketAckTracker capacity).stateOf key = .unknown := by
  have hnone : lookup TrackedPacket.key (new : PacketAckTracker capacity).packets key = none :=
    lookup_eq_none.mpr (by simp [new])
  rw [stateOf, hnone]
  rfl

theorem stateOf_write {t : PacketAckTracker capacity} {key : PacketKey} {i : Nat}
    (h : t.Writable key i) {state : PacketState} (hstate : state.Tracked) (key' : PacketKey) :
    (t.write h state hstate).stateOf key' = if key' = key then state else t.stateOf key' := by
  have hfound : lookup TrackedPacket.key (t.write h state hstate).packets key' = _ :=
    (lookup_write h state).2 key'
  rw [stateOf, hfound]
  by_cases hkey : key' = key
  · rw [if_pos hkey, if_pos hkey]
    rfl
  · rw [if_neg hkey, if_neg hkey, stateOf]

theorem stateOf_eq {t : PacketAckTracker capacity} {packet : TrackedPacket}
    (h : packet ∈ entries t.packets) : t.stateOf packet.key = packet.state := by
  rw [stateOf, (lookup_eq_some t.distinct).mpr ⟨h, rfl⟩]
  rfl

/-- A key has a slot exactly when its state is known. -/
theorem stateOf_eq_unknown {t : PacketAckTracker capacity} {key : PacketKey} :
    t.stateOf key = .unknown ↔ indexOf TrackedPacket.key t.packets key = none := by
  rw [indexOf_eq_none]
  constructor
  · intro h
    by_contra hfound
    obtain ⟨packet, hpacket⟩ := Option.ne_none_iff_exists'.mp hfound
    obtain ⟨hmem, rfl⟩ := (lookup_eq_some t.distinct).mp hpacket
    rw [stateOf_eq hmem] at h
    rcases t.tracked packet hmem with hstate | hstate <;> rw [hstate] at h <;> cases h
  · intro h
    rw [stateOf, h]
    rfl

theorem state_of_slot {t : PacketAckTracker capacity} {key : PacketKey} {i : Nat}
    (h : indexOf TrackedPacket.key t.packets key = some i) :
    (t.packets[i]?).join.map TrackedPacket.state = some (t.stateOf key) ∧
      (t.stateOf key).Tracked := by
  obtain ⟨packet, hslot, rfl⟩ := indexOf_eq_some h
  have hmem : packet ∈ entries t.packets := mem_entries.mpr (List.mem_of_getElem? hslot)
  rw [hslot, stateOf_eq hmem]
  exact ⟨rfl, t.tracked packet hmem⟩

/-- **What an acknowledgement does**, by the state of its key. -/
theorem applyAck_cases (t : PacketAckTracker capacity) (key : PacketKey) :
    (t.stateOf key = .unknown ∧ t.applyAck key = (t, .ignored key)) ∨
    (t.stateOf key = .acked ∧ t.applyAck key = (t, .alreadyAcked key)) ∨
    (t.stateOf key = .inFlight ∧ ∃ i, ∃ h : t.Writable key i,
      t.applyAck key = (t.write h .acked PacketState.tracked_acked, .newlyAcked key)) := by
  unfold applyAck
  split
  · rename_i hown
    exact .inl ⟨stateOf_eq_unknown.mpr hown, rfl⟩
  · rename_i i hown
    obtain ⟨hslot, hstate⟩ := state_of_slot hown
    rw [hslot]
    rcases hstate with hstate | hstate
    · rw [hstate]
      exact .inr (.inr ⟨rfl, i, writable_of_indexOf hown, rfl⟩)
    · rw [hstate]
      exact .inr (.inl ⟨rfl, rfl⟩)

/-! ## The sets the table stands for -/

/-- The keys of the slots in one state. -/
def keysIn (t : PacketAckTracker capacity) (state : PacketState) : Finset PacketKey :=
  (((entries t.packets).filter fun packet => packet.state == state).map TrackedPacket.key).toFinset

theorem mem_keysIn {t : PacketAckTracker capacity} {state : PacketState} (hstate : state.Tracked)
    {key : PacketKey} : key ∈ t.keysIn state ↔ t.stateOf key = state := by
  simp only [keysIn, List.mem_toFinset, List.mem_map, List.mem_filter, beq_iff_eq]
  constructor
  · rintro ⟨packet, ⟨hmem, rfl⟩, rfl⟩
    exact stateOf_eq hmem
  · intro h
    have hfound : lookup TrackedPacket.key t.packets key ≠ none := by
      intro hnone
      rw [stateOf, hnone] at h
      rcases hstate with rfl | rfl <;> cases h
    obtain ⟨packet, hpacket⟩ := Option.ne_none_iff_exists'.mp hfound
    obtain ⟨hmem, rfl⟩ := (lookup_eq_some t.distinct).mp hpacket
    exact ⟨packet, ⟨hmem, (stateOf_eq hmem).symm.trans h⟩, rfl⟩

/-- The keys of all slots, counted. -/
theorem card_keysIn (t : PacketAckTracker capacity) :
    (t.keysIn .inFlight ∪ t.keysIn .acked).card = (entries t.packets).length := by
  have hkeys : t.keysIn .inFlight ∪ t.keysIn .acked =
      ((entries t.packets).map TrackedPacket.key).toFinset := by
    ext key
    rw [Finset.mem_union, mem_keysIn PacketState.tracked_inFlight,
      mem_keysIn PacketState.tracked_acked, List.mem_toFinset, List.mem_map]
    constructor
    · intro h
      have hown : indexOf TrackedPacket.key t.packets key ≠ none := by
        rw [ne_eq, ← stateOf_eq_unknown]
        rcases h with h | h <;> rw [h] <;> exact fun hne => by cases hne
      obtain ⟨i, hi⟩ := Option.ne_none_iff_exists'.mp hown
      obtain ⟨packet, hslot, hkey⟩ := indexOf_eq_some hi
      exact ⟨packet, mem_entries.mpr (List.mem_of_getElem? hslot), hkey⟩
    · rintro ⟨packet, hmem, rfl⟩
      rw [stateOf_eq hmem]
      exact t.tracked packet hmem
  rw [hkeys, List.toFinset_card_of_nodup t.distinct, List.length_map]

theorem vacant_eq_none_iff (t : PacketAckTracker capacity) :
    vacant t.packets = none ↔ (entries t.packets).length = capacity := by
  have hle := length_entries_le t.packets
  rw [t.packets_length] at hle
  rw [vacant_eq_none]
  constructor
  · intro hfull
    by_contra hne
    have hlt : (entries t.packets).length < t.packets.length := by
      rw [t.packets_length]
      omega
    obtain ⟨slot, hslot, hnone⟩ := List.length_filterMap_lt_length_iff_exists.mp hlt
    have hsome := hfull slot hslot
    rw [show slot = none from hnone] at hsome
    cases hsome
  · intro hlen slot hslot
    by_contra hnone
    have hlt : (entries t.packets).length < t.packets.length :=
      List.length_filterMap_lt_length_iff_exists.mpr ⟨slot, hslot, by simpa using hnone⟩
    rw [t.packets_length] at hlt
    omega

end PacketAckTracker

/-! ## The ledger -/

/-- The operations on a tracker. -/
inductive AckTrackerOp where
  | tryOnPacketSent (key : PacketKey)
  | onPacketSent (key : PacketKey)
  | onAck (key : PacketKey)
  | stateOf (key : PacketKey)

/-- What they return. -/
inductive AckTrackerResult where
  | tried (result : Except Error Unit)
  | sent
  | acked (outcome : AckOutcome)
  | state (state : PacketState)

/-- What a tracker is for: the keys waiting for an acknowledgement and the keys that have it. -/
structure AckLedger where
  waiting : Finset PacketKey
  confirmed : Finset PacketKey

namespace AckLedger
variable (capacity : Nat)

/-- No key is in the ledger. -/
def empty : AckLedger := ⟨∅, ∅⟩

/-- The keys of the ledger. -/
def keys (L : AckLedger) : Finset PacketKey := L.waiting ∪ L.confirmed

/-- A key may be entered: it is known already, or there is room. -/
def Admits (L : AckLedger) (key : PacketKey) : Prop := key ∈ L.keys ∨ L.keys.card < capacity

instance (L : AckLedger) (key : PacketKey) : Decidable (L.Admits capacity key) :=
  inferInstanceAs (Decidable (_ ∨ _))

/-- A packet was sent, for the first time or again: its key waits. -/
def enter (L : AckLedger) (key : PacketKey) : AckLedger :=
  ⟨insert key L.waiting, L.confirmed.erase key⟩

/-- The key is acknowledged, and no longer waits. -/
def confirm (L : AckLedger) (key : PacketKey) : AckLedger :=
  ⟨L.waiting.erase key, insert key L.confirmed⟩

/-- The ledger of at most `capacity` keys. -/
def automaton : Automaton AckLedger AckTrackerOp AckTrackerResult where
  step L
    | .tryOnPacketSent key =>
      if L.Admits capacity key then (L.enter key, .tried (.ok ()))
      else (L, .tried (.error ⟨.reliability⟩))
    | .onPacketSent key => (if L.Admits capacity key then L.enter key else L, .sent)
    | .onAck key =>
      if key ∈ L.waiting then (L.confirm key, .acked (.newlyAcked key))
      else if key ∈ L.confirmed then (L, .acked (.alreadyAcked key))
      else (L, .acked (.ignored key))
    | .stateOf key =>
      (L, .state (if key ∈ L.waiting then .inFlight
        else if key ∈ L.confirmed then .acked else .unknown))

/-- No key is both waiting and confirmed, and there are at most `capacity` of them. -/
structure Sound (L : AckLedger) : Prop where
  disjoint : Disjoint L.waiting L.confirmed
  card_le : L.keys.card ≤ capacity

variable {capacity} {L : AckLedger} {key : PacketKey}

theorem keys_enter : (L.enter key).keys = insert key L.keys := by
  ext key'
  simp only [keys, enter, Finset.mem_union, Finset.mem_insert, Finset.mem_erase]
  tauto

theorem keys_confirm (h : key ∈ L.waiting) : (L.confirm key).keys = L.keys := by
  ext key'
  simp only [keys, confirm, Finset.mem_union, Finset.mem_insert, Finset.mem_erase]
  by_cases hkey : key' = key
  · subst hkey
    simp [h]
  · simp [hkey]

theorem Sound.enter (h : L.Sound capacity) (hadmits : L.Admits capacity key) :
    (L.enter key).Sound capacity := by
  refine ⟨?_, ?_⟩
  · rw [AckLedger.enter, Finset.disjoint_insert_left]
    refine ⟨by simp, ?_⟩
    exact h.disjoint.mono_right (Finset.erase_subset _ _)
  · rw [keys_enter]
    rcases hadmits with hmem | hroom
    · rw [Finset.insert_eq_of_mem hmem]
      exact h.card_le
    · exact (Finset.card_insert_le _ _).trans hroom

theorem Sound.confirm (h : L.Sound capacity) (hwaiting : key ∈ L.waiting) :
    (L.confirm key).Sound capacity := by
  refine ⟨?_, ?_⟩
  · rw [AckLedger.confirm, Finset.disjoint_insert_right]
    refine ⟨by simp, ?_⟩
    exact h.disjoint.mono_left (Finset.erase_subset _ _)
  · rw [keys_confirm hwaiting]
    exact h.card_le

/-- **What one operation does to the ledger**: nothing, or it enters a key that it admits, or it
confirms a waiting one. -/
theorem step_cases (L : AckLedger) (op : AckTrackerOp) :
    ((automaton capacity).step L op).1 = L ∨
    (∃ key, L.Admits capacity key ∧ ((automaton capacity).step L op).1 = L.enter key) ∨
    ∃ key ∈ L.waiting, ((automaton capacity).step L op).1 = L.confirm key := by
  cases op with
  | tryOnPacketSent key =>
    by_cases h : L.Admits capacity key
    · exact .inr (.inl ⟨key, h, by simp only [automaton, if_pos h]⟩)
    · exact .inl (by simp only [automaton, if_neg h])
  | onPacketSent key =>
    by_cases h : L.Admits capacity key
    · exact .inr (.inl ⟨key, h, by simp only [automaton, if_pos h]⟩)
    · exact .inl (by simp only [automaton, if_neg h])
  | onAck key =>
    by_cases h : key ∈ L.waiting
    · exact .inr (.inr ⟨key, h, by simp only [automaton, if_pos h]⟩)
    · refine .inl ?_
      simp only [automaton, if_neg h]
      split <;> rfl
  | stateOf key => exact .inl rfl

theorem sound_step (h : L.Sound capacity) (op : AckTrackerOp) :
    ((automaton capacity).step L op).1.Sound capacity := by
  obtain hsame | ⟨key, hadmits, henter⟩ | ⟨key, hwaiting, hconfirm⟩ := step_cases L op
  · rw [hsame]
    exact h
  · rw [henter]
    exact h.enter hadmits
  · rw [hconfirm]
    exact h.confirm hwaiting

theorem sound_empty : empty.Sound capacity :=
  ⟨Finset.disjoint_empty_left _, by simp [empty, keys]⟩

theorem sound_run (ops : List AckTrackerOp) :
    ((automaton capacity).run empty ops).Sound capacity := by
  have hstep : ∀ (M : AckLedger) (op : AckTrackerOp), M.Sound capacity →
      ((automaton capacity).step M op).1.Sound capacity := fun _ op h => sound_step h op
  exact Automaton.invariant_run hstep sound_empty ops

theorem keys_step (L : AckLedger) (op : AckTrackerOp) :
    L.keys ⊆ ((automaton capacity).step L op).1.keys := by
  obtain hsame | ⟨key, -, henter⟩ | ⟨key, hwaiting, hconfirm⟩ :=
    @step_cases capacity L op
  · rw [hsame]
  · rw [henter, keys_enter]
    exact Finset.subset_insert _ _
  · rw [hconfirm, keys_confirm hwaiting]

/-- A key of the ledger stays one. -/
theorem keys_run (L : AckLedger) (ops : List AckTrackerOp) :
    L.keys ⊆ ((automaton capacity).run L ops).keys := by
  have hstep : ∀ (M : AckLedger) (op : AckTrackerOp), L.keys ⊆ M.keys →
      L.keys ⊆ ((automaton capacity).step M op).1.keys := fun M op h => h.trans (keys_step M op)
  exact Automaton.invariant_run hstep (Finset.Subset.refl L.keys) ops

end AckLedger

/-! ## The table answers as the ledger -/

namespace PacketAckTracker
variable {capacity : Nat}

/-- The tracker as its callers drive it. -/
def automaton (capacity : Nat) :
    Automaton (PacketAckTracker capacity) AckTrackerOp AckTrackerResult where
  step t
    | .tryOnPacketSent key => ((t.tryOnPacketSent key).1, .tried (t.tryOnPacketSent key).2)
    | .onPacketSent key => (t.onPacketSent key, .sent)
    | .onAck key => ((t.onAck key).1, .acked (t.onAck key).2)
    | .stateOf key => (t, .state (t.stateOf key))

/-- The ledger a table stands for. -/
def ledger (t : PacketAckTracker capacity) : AckLedger := ⟨t.keysIn .inFlight, t.keysIn .acked⟩

theorem mem_waiting {t : PacketAckTracker capacity} {key : PacketKey} :
    key ∈ t.ledger.waiting ↔ t.stateOf key = .inFlight := mem_keysIn PacketState.tracked_inFlight

theorem mem_confirmed {t : PacketAckTracker capacity} {key : PacketKey} :
    key ∈ t.ledger.confirmed ↔ t.stateOf key = .acked := mem_keysIn PacketState.tracked_acked

theorem ledger_ext {t : PacketAckTracker capacity} {L : AckLedger}
    (hwaiting : ∀ key, t.stateOf key = .inFlight ↔ key ∈ L.waiting)
    (hconfirmed : ∀ key, t.stateOf key = .acked ↔ key ∈ L.confirmed) : t.ledger = L := by
  cases L with
  | mk waiting confirmed =>
    have h₁ : t.ledger.waiting = waiting := Finset.ext fun key => mem_waiting.trans (hwaiting key)
    have h₂ : t.ledger.confirmed = confirmed :=
      Finset.ext fun key => mem_confirmed.trans (hconfirmed key)
    rw [← h₁, ← h₂]

theorem ledger_new : (new : PacketAckTracker capacity).ledger = .empty := by
  apply ledger_ext <;> intro key <;> rw [stateOf_new] <;> simp [AckLedger.empty]

theorem ledger_write_inFlight {t : PacketAckTracker capacity} {key : PacketKey} {i : Nat}
    (h : t.Writable key i) :
    (t.write h .inFlight PacketState.tracked_inFlight).ledger = t.ledger.enter key := by
  apply ledger_ext <;> intro key' <;> rw [stateOf_write] <;> by_cases hkey : key' = key <;>
    simp [AckLedger.enter, mem_waiting, mem_confirmed, hkey]

theorem ledger_write_acked {t : PacketAckTracker capacity} {key : PacketKey} {i : Nat}
    (h : t.Writable key i) :
    (t.write h .acked PacketState.tracked_acked).ledger = t.ledger.confirm key := by
  apply ledger_ext <;> intro key' <;> rw [stateOf_write] <;> by_cases hkey : key' = key <;>
    simp [AckLedger.confirm, mem_waiting, mem_confirmed, hkey]

theorem mem_keys {t : PacketAckTracker capacity} {key : PacketKey} :
    key ∈ t.ledger.keys ↔ ∃ i, indexOf TrackedPacket.key t.packets key = some i := by
  rw [AckLedger.keys, Finset.mem_union, mem_waiting, mem_confirmed]
  cases hown : indexOf TrackedPacket.key t.packets key with
  | none =>
    rw [stateOf_eq_unknown.mpr hown]
    simp
  | some i =>
    have hstate : t.stateOf key = .inFlight ∨ t.stateOf key = .acked := (state_of_slot hown).2
    simp [hstate]

/-- **What recording a packet does**: it enters the key where the ledger admits it, and is refused
where it does not. -/
theorem tryOnPacketSent_spec (t : PacketAckTracker capacity) (key : PacketKey) :
    (t.ledger.Admits capacity key ∧ (t.tryOnPacketSent key).1.ledger = t.ledger.enter key ∧
      (t.tryOnPacketSent key).2 = .ok ()) ∨
    (¬ t.ledger.Admits capacity key ∧ t.tryOnPacketSent key = (t, .error ⟨.reliability⟩)) := by
  have hcard : t.ledger.keys.card = (entries t.packets).length := card_keysIn t
  have hle := length_entries_le t.packets
  rw [t.packets_length] at hle
  unfold tryOnPacketSent
  split
  · -- a table without slots has no keys
    rename_i hzero
    refine .inr ⟨?_, rfl⟩
    rintro (hmem | hroom)
    · have := Finset.card_pos.mpr ⟨key, hmem⟩
      omega
    · omega
  · split
    · rename_i i hown
      refine .inl ⟨.inl ?_, ledger_write_inFlight (writable_of_indexOf hown), rfl⟩
      exact mem_keys.mpr ⟨i, hown⟩
    · rename_i hown
      split
      · rename_i i hfree
        refine .inl ⟨.inr ?_, ledger_write_inFlight (writable_of_vacant hown hfree), rfl⟩
        have hroom : (entries t.packets).length ≠ capacity := by
          rw [ne_eq, ← vacant_eq_none_iff, hfree]
          exact fun h => by cases h
        omega
      · rename_i hfull
        refine .inr ⟨?_, rfl⟩
        rintro (hmem | hroom)
        · obtain ⟨i, hi⟩ := mem_keys.mp hmem
          rw [hown] at hi
          cases hi
        · rw [hcard, (vacant_eq_none_iff t).mp hfull] at hroom
          omega

/-- **One operation on the table is one operation on the ledger.** -/
theorem automaton_refines :
    (automaton capacity).Refines (AckLedger.automaton capacity) ledger := by
  intro t op
  cases op with
  | tryOnPacketSent key =>
    simp only [automaton, AckLedger.automaton]
    obtain ⟨hadmits, hledger, hok⟩ | ⟨hrefuses, heq⟩ := tryOnPacketSent_spec t key
    · rw [if_pos hadmits, hledger, hok]
    · rw [if_neg hrefuses, heq]
  | onPacketSent key =>
    simp only [automaton, AckLedger.automaton, onPacketSent]
    obtain ⟨hadmits, hledger, -⟩ | ⟨hrefuses, heq⟩ := tryOnPacketSent_spec t key
    · rw [if_pos hadmits, hledger]
    · rw [if_neg hrefuses, heq]
  | onAck key =>
    simp only [automaton, AckLedger.automaton, onAck, mem_waiting, mem_confirmed]
    obtain ⟨hstate, heq⟩ | ⟨hstate, heq⟩ | ⟨hstate, i, hwritable, heq⟩ := applyAck_cases t key
    · rw [heq, hstate]
      rfl
    · rw [heq, hstate]
      rfl
    · rw [heq, hstate, if_pos rfl, ledger_write_acked]
  | stateOf key =>
    simp only [automaton, AckLedger.automaton, mem_waiting, mem_confirmed]
    cases hown : indexOf TrackedPacket.key t.packets key with
    | none =>
      rw [stateOf_eq_unknown.mpr hown]
      rfl
    | some i =>
      rcases (state_of_slot hown).2 with hstate | hstate <;> rw [hstate] <;> rfl

end PacketAckTracker

/-- **The tracker keeps a ledger of its first keys.**  Over every run, and for every number of slots,
a tracker answers each operation as the two sets would, with no key both waiting and confirmed and at
most `capacity` keys in all.  No key is ever dropped from the ledger, so once it is full the tracker
has the same keys for good, whatever is sent and acknowledged afterwards. -/
theorem tracker_keeps_ledger (capacity : Nat) (ops more : List AckTrackerOp) :
    (PacketAckTracker.automaton capacity).trace .new ops =
        (AckLedger.automaton capacity).trace .empty ops ∧
      ((PacketAckTracker.automaton capacity).run .new ops).ledger.Sound capacity ∧
      ((PacketAckTracker.automaton capacity).run .new ops).ledger.keys ⊆
        ((PacketAckTracker.automaton capacity).run .new (ops ++ more)).ledger.keys ∧
      (((PacketAckTracker.automaton capacity).run .new ops).ledger.keys.card = capacity →
        ((PacketAckTracker.automaton capacity).run .new (ops ++ more)).ledger.keys =
          ((PacketAckTracker.automaton capacity).run .new ops).ledger.keys) := by
  have hrefines := @PacketAckTracker.automaton_refines capacity
  have hnew := @PacketAckTracker.ledger_new capacity
  have hrun (ops : List AckTrackerOp) := hrefines.run .new ops
  rw [hnew] at hrun
  have hmore : ((AckLedger.automaton capacity).run .empty ops).keys ⊆
      ((AckLedger.automaton capacity).run .empty (ops ++ more)).keys := by
    rw [Automaton.run_append]
    exact AckLedger.keys_run _ _
  have htrace := hrefines.trace .new ops
  rw [hnew] at htrace
  rw [hrun, hrun]
  refine ⟨htrace, AckLedger.sound_run ops, hmore, ?_⟩
  intro hfull
  refine (Finset.eq_of_subset_of_card_le hmore ?_).symm
  rw [hfull]
  exact (AckLedger.sound_run (ops ++ more)).card_le

/-- A single slot, taken by the first key: the second is sent and never tracked. -/
theorem tracker_keeps_ledger_full :
    ((PacketAckTracker.automaton 1).run .new
      ([.onPacketSent ⟨7, 0⟩, .onAck ⟨7, 0⟩] ++ [.onPacketSent ⟨8, 0⟩])).ledger.keys =
      {⟨7, 0⟩} := by
  rw [(tracker_keeps_ledger 1 [.onPacketSent ⟨7, 0⟩, .onAck ⟨7, 0⟩]
    [.onPacketSent ⟨8, 0⟩]).2.2.2 (by decide)]
  decide

end Msrt
