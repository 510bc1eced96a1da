import Mathlib.Data.Set.Lattice
import Mathlib.Logic.Function.Basic
import Mathlib.Order.CompletePartialOrder

/-! # A ledger of reliable sends

What a sender that waits for acknowledgements promises, whatever it runs on: messages are sets of
packets, a packet is in flight until it is acknowledged, and a message may fail as a whole while one
of its packets is in flight.  Under these three moves every message that was sent has exactly one
verdict (`Sound.verdict`): some packet is in flight, or all were acknowledged, or it failed once.
-/

universe u v

/-- Packets of type `κ` that belong to messages of type `ι`. -/
@[ext]
structure SendLedger (κ : Type u) (ι : Type v) where
  sent : ι → Set κ
  inFlight : Set κ
  acked : Set κ
  failed : ι → ℕ

namespace SendLedger
variable {κ : Type u} {ι : Type v}

/-- The ledger before the first send. -/
def empty : SendLedger κ ι := ⟨fun _ => ∅, ∅, ∅, fun _ => 0⟩

/-! ## Moves -/

section Moves
open Classical

/-- A message goes out with all its packets. -/
noncomputable def send (l : SendLedger κ ι) (id : ι) (keys : Set κ) : SendLedger κ ι :=
  { l with
    sent := Function.update l.sent id keys
    inFlight := l.inFlight ∪ keys }

/-- A packet is acknowledged. -/
def ack (l : SendLedger κ ι) (key : κ) : SendLedger κ ι :=
  { l with
    inFlight := l.inFlight \ {key}
    acked := insert key l.acked }

/-- Some messages fail. -/
noncomputable def fail (l : SendLedger κ ι) (ids : Set ι) : SendLedger κ ι :=
  { l with
    inFlight := {key ∈ l.inFlight | ∀ id ∈ ids, key ∉ l.sent id}
    failed := fun id => l.failed id + if id ∈ ids then 1 else 0 }

/-- The moves of a sender. -/
inductive Step (l : SendLedger κ ι) : SendLedger κ ι → Prop
  | send (id : ι) (keys : Set κ) : l.sent id = ∅ → keys.Nonempty →
      (∀ other, Disjoint keys (l.sent other)) → Step l (l.send id keys)
  | ack (key : κ) : key ∈ l.inFlight → Step l (l.ack key)
  | fail (ids : Set ι) : (∀ id ∈ ids, ∃ key ∈ l.sent id, key ∈ l.inFlight) → Step l (l.fail ids)

variable {l : SendLedger κ ι} {id other : ι} {keys : Set κ} {ids : Set ι}

@[simp] theorem sent_send_self : (l.send id keys).sent id = keys := by
  simp [send]

theorem sent_send_of_ne (h : other ≠ id) : (l.send id keys).sent other = l.sent other := by
  simp [send, h]

@[simp] theorem failed_fail_of_mem (h : id ∈ ids) : (l.fail ids).failed id = l.failed id + 1 := by
  simp [fail, h]

@[simp] theorem failed_fail_of_notMem (h : id ∉ ids) : (l.fail ids).failed id = l.failed id := by
  simp [fail, h]

end Moves

variable {l l' : SendLedger κ ι}

/-! ## Soundness -/

/-- Where one sent message stands. -/
inductive Account (l : SendLedger κ ι) (id : ι) : Prop
  | pending : l.failed id = 0 → (∀ key ∈ l.sent id, key ∈ l.inFlight ∨ key ∈ l.acked) → Account l id
  | failed : l.failed id = 1 → (∀ key ∈ l.sent id, key ∉ l.inFlight) →
      (∃ key ∈ l.sent id, key ∉ l.acked) → Account l id

/-- What the moves keep. -/
structure Sound (l : SendLedger κ ι) : Prop where
  disjoint : ∀ id other key, key ∈ l.sent id → key ∈ l.sent other → id = other
  waiting : ∀ key ∈ l.inFlight, key ∉ l.acked
  known : ∀ key, key ∈ l.inFlight ∨ key ∈ l.acked → ∃ id, key ∈ l.sent id
  account : ∀ id, (l.sent id).Nonempty → Account l id
  unsent : ∀ id, l.sent id = ∅ → l.failed id = 0

theorem sound_empty : Sound (empty : SendLedger κ ι) where
  disjoint id other key h := by cases h
  waiting key h := by cases h
  known key h := by rcases h with h | h <;> cases h
  account id h := by
    obtain ⟨key, hkey⟩ := h
    cases hkey
  unsent id _ := rfl

section Steps
variable {id : ι} {keys : Set κ} {ids : Set ι}

theorem Account.send (h : Account l id) {other : ι} (hne : id ≠ other)
    (hfresh : ∀ key ∈ keys, key ∉ l.sent id) : Account (l.send other keys) id := by
  have hsent := (sent_send_of_ne hne : (l.send other keys).sent id = l.sent id)
  cases h with
  | pending hzero hall =>
    refine .pending hzero ?_
    intro key hkey
    rw [hsent] at hkey
    exact (hall key hkey).imp_left .inl
  | failed hone hnone hsome =>
    refine .failed hone ?_ (by rwa [hsent])
    intro key hkey
    rw [hsent] at hkey
    rintro (hk | hk)
    · exact hnone key hkey hk
    · exact hfresh key hk hkey

theorem Sound.send (h : Sound l) (hunsent : l.sent id = ∅)
    (hfresh : ∀ other, Disjoint keys (l.sent other)) : Sound (l.send id keys) := by
  have hnew : ∀ key ∈ keys, ∀ other, key ∉ l.sent other := fun key hk other ho =>
    Set.disjoint_left.mp (hfresh other) hk ho
  -- the packets of other messages keep their owners
  have hknown {key : κ} (hk : key ∈ l.inFlight ∨ key ∈ l.acked) :
      ∃ other, key ∈ (l.send id keys).sent other := by
    obtain ⟨other, ho⟩ := h.known key hk
    have hne : other ≠ id := by
      rintro rfl
      rw [hunsent] at ho
      exact ho
    exact ⟨other, by rwa [sent_send_of_ne hne]⟩
  refine ⟨?_, ?_, ?_, ?_,
    ?_⟩
  · intro a b key ha hb
    by_cases hai : a = id <;> by_cases hbi : b = id
    · rw [hai, hbi]
    · rw [hai, sent_send_self] at ha
      rw [sent_send_of_ne hbi] at hb
      exact absurd hb (hnew key ha b)
    · rw [hbi, sent_send_self] at hb
      rw [sent_send_of_ne hai] at ha
      exact absurd ha (hnew key hb a)
    · rw [sent_send_of_ne hai] at ha
      rw [sent_send_of_ne hbi] at hb
      exact h.disjoint a b key ha hb
  · intro key hkey
    rcases hkey with hkey | hkey
    · exact h.waiting key hkey
    · intro hacked
      obtain ⟨other, ho⟩ := h.known key (.inr hacked)
      exact hnew key hkey other ho
  · intro key hkey
    rcases hkey with (hkey | hkey) | hkey
    · exact hknown (.inl hkey)
    · exact ⟨id, by rwa [sent_send_self]⟩
    · exact hknown (.inr hkey)
  · intro a ha
    by_cases hai : a = id
    · subst hai
      refine .pending (h.unsent a hunsent) ?_
      intro key hkey
      rw [sent_send_self] at hkey
      exact .inl (.inr hkey)
    · rw [sent_send_of_ne hai] at ha
      exact (h.account a ha).send hai fun key hk => hnew key hk a
  · intro a ha
    by_cases hai : a = id
    · exact h.unsent a (hai ▸ hunsent)
    · rw [sent_send_of_ne hai] at ha
      exact h.unsent a ha

theorem Sound.ack (h : Sound l) {key : κ} (hkey : key ∈ l.inFlight) : Sound (l.ack key) := by
  refine ⟨h.disjoint, ?_, ?_, ?_, h.unsent⟩
  · intro k hk
    rintro (rfl | ha)
    · exact hk.2 rfl
    · exact h.waiting k hk.1 ha
  · intro k hk
    rcases hk with hk | rfl | hk
    · exact h.known k (.inl hk.1)
    · exact h.known k (.inl hkey)
    · exact h.known k (.inr hk)
  · intro id hid
    cases h.account id hid with
    | pending hzero hall =>
      refine .pending hzero ?_
      intro k hk
      by_cases hkk : k = key
      · exact .inr (.inl hkk)
      · exact (hall k hk).imp (fun hf => ⟨hf, hkk⟩) .inr
    | failed hone hnone hsome =>
      refine .failed hone (fun k hk hf => hnone k hk hf.1) ?_
      obtain ⟨k, hk, hnot⟩ := hsome
      refine ⟨k, hk, ?_⟩
      rintro (rfl | ha)
      · exact hnone k hk hkey
      · exact hnot ha

theorem Sound.fail (h : Sound l)
    (hids : ∀ id ∈ ids, ∃ key ∈ l.sent id, key ∈ l.inFlight) : Sound (l.fail ids) := by
  refine ⟨h.disjoint, fun k hk => h.waiting k hk.1, fun k hk => h.known k (hk.imp_left And.left),
    ?_, ?_⟩
  · intro id hid
    by_cases hmem : id ∈ ids
    · -- the failing message had a packet in flight, so it was pending
      obtain ⟨key, hkey, hflight⟩ := hids id hmem
      cases h.account id hid with
      | pending hzero hall =>
        refine .failed (by simp [hmem, hzero]) (fun k hk hf => hf.2 id hmem hk) ?_
        exact ⟨key, hkey, h.waiting key hflight⟩
      | failed hone hnone => exact absurd hflight (hnone key hkey)
    · cases h.account id hid with
      | pending hzero hall =>
        refine .pending (by simp [hzero, hmem]) ?_
        intro k hk
        refine (hall k hk).imp_left fun hf => ⟨hf, ?_⟩
        intro other ho hk'
        exact hmem (h.disjoint id other k hk hk' ▸ ho)
      | failed hone hnone hsome =>
        exact .failed (by simp [hone, hmem]) (fun k hk hf => hnone k hk hf.1) hsome
  · intro id hid
    have hmem : id ∉ ids := fun hmem => by
      obtain ⟨key, hkey, -⟩ := hids id hmem
      exact Set.notMem_empty key (hid ▸ hkey)
    rw [failed_fail_of_notMem hmem]
    exact h.unsent id hid

end Steps

/-- **Every move keeps the ledger sound.** -/
theorem Sound.step (h : Sound l) (hstep : Step l l') : Sound l' := by
  cases hstep with
  | send id keys hunsent _ hfresh => exact h.send hunsent hfresh
  | ack key hkey => exact h.ack hkey
  | fail ids hids => exact h.fail hids

/-- **Every sent message has exactly one verdict.** -/
theorem Sound.verdict (h : Sound l) {id : ι} (hsent : (l.sent id).Nonempty) :
    ((∃ key ∈ l.sent id, key ∈ l.inFlight) ∧ ¬ (∀ key ∈ l.sent id, key ∈ l.acked) ∧
      l.failed id = 0) ∨
    ((∀ key ∈ l.sent id, key ∉ l.inFlight) ∧ (∀ key ∈ l.sent id, key ∈ l.acked) ∧
      l.failed id = 0) ∨
    ((∀ key ∈ l.sent id, key ∉ l.inFlight) ∧ ¬ (∀ key ∈ l.sent id, key ∈ l.acked) ∧
      l.failed id = 1) := by
  cases h.account id hsent with
  | pending hzero hall =>
    by_cases hflight : ∃ key ∈ l.sent id, key ∈ l.inFlight
    · refine .inl ⟨hflight, ?_, hzero⟩
      intro hacked
      obtain ⟨key, hkey, hf⟩ := hflight
      exact h.waiting key hf (hacked key hkey)
    · have hnone : ∀ key ∈ l.sent id, key ∉ l.inFlight := fun key hk hf => hflight ⟨key, hk, hf⟩
      exact .inr (.inl ⟨hnone, fun key hk => (hall key hk).resolve_left (hnone key hk), hzero⟩)
  | failed hone hnone hsome =>
    obtain ⟨key, hkey, hnot⟩ := hsome
    exact .inr (.inr ⟨hnone, fun hacked => hnot (hacked key hkey), hone⟩)

end SendLedger
