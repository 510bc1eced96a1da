import Msrt.Reassembly

/-! # The reassembly table as a map

The active slots of the table have distinct keys (`KeysDistinct`), so the table is a partial map from
messages to slots; `Holds` is its graph.  `observe` changes the map at the fragment's own message and
nowhere else, except that it may evict one other message when all four slots are in use
(`observe_spec`).  What happens at the fragment's own message is `ReassemblySlot.observe`, and
`Observed` says what that does.
-/

namespace Msrt

/-! ## One slot -/

namespace ReassemblySlot

/-- Byte `j` of the message has been received. -/
def Got (slot : ReassemblySlot) (j : Nat) : Prop := slot.received[j]? = some true

/-- What a fragment that fits does to a slot. -/
structure Written (slot : ReassemblySlot) (fragment : MessageFragment) (nowMs : Nat)
    (slot' : ReassemblySlot) : Prop where
  active : slot'.active = slot.active
  key : slot'.key = slot.key
  expectedLen : slot'.expectedLen = slot.expectedLen
  updatedAtMs : slot'.updatedAtMs = nowMs
  got : ∀ j, slot'.Got j ↔ (fragment.fragmentOffset ≤ j ∧
    j < fragment.fragmentOffset + fragment.bytes.length) ∨ slot.Got j
  bytes : ∀ j, slot'.bytes[j]? = if fragment.fragmentOffset ≤ j ∧
    j < fragment.fragmentOffset + fragment.bytes.length then
      fragment.bytes[j - fragment.fragmentOffset]? else slot.bytes[j]?
  lastSeen : slot'.lastSeen = true ↔ slot.lastSeen = true ∨
    fragment.fragmentOffset + fragment.bytes.length = slot.expectedLen

theorem written_write (slot : ReassemblySlot) (fragment : MessageFragment) (nowMs : Nat)
    (h : fragment.fragmentOffset + fragment.bytes.length ≤ maxMessageBytes) :
    Written slot fragment nowMs (slot.write fragment nowMs h) where
  active := rfl
  key := rfl
  expectedLen := rfl
  updatedAtMs := rfl
  got j := by
    have hlen : fragment.fragmentOffset + (List.replicate fragment.bytes.length true).length ≤
        slot.received.length := by
      rw [List.length_replicate, slot.received_length]
      exact h
    show (writeSlice slot.received fragment.fragmentOffset _)[j]? = some true ↔ _
    rw [getElem?_writeSlice hlen, List.length_replicate]
    by_cases hin : fragment.fragmentOffset ≤ j ∧ j < fragment.fragmentOffset + fragment.bytes.length
    · rw [if_pos hin, List.getElem?_replicate, if_pos (by omega)]
      simp [hin]
    · rw [if_neg hin]
      constructor
      · exact .inr
      · rintro (hin | hgot)
        · contradiction
        · exact hgot
  bytes j := getElem?_writeSlice (by rw [slot.bytes_length]; exact h) j
  lastSeen := by
    show (slot.lastSeen || _) = true ↔ _
    rw [Bool.or_eq_true, beq_iff_eq]

/-- What a slot does with a fragment. -/
inductive Observed (slot : ReassemblySlot) (fragment : MessageFragment) (nowMs : Nat) :
    ReassemblySlot × Except Error (Option MessageEvent) → Prop
  | refused (e : Error) : (slot.expectedLen ≠ fragment.messageLen ∨
      slot.expectedLen < fragment.fragmentOffset + fragment.bytes.length ∨
      maxMessageBytes < fragment.fragmentOffset + fragment.bytes.length) →
      Observed slot fragment nowMs (slot, .error e)
  | completed (slot' : ReassemblySlot) : slot.expectedLen = fragment.messageLen →
      Written slot fragment nowMs slot' → slot'.isComplete = true →
      Observed slot fragment nowMs (new, .ok (some
        ⟨slot'.key.packetType, slot'.key.messageId, slot'.bytes, slot'.expectedLen⟩))
  | partly (slot' : ReassemblySlot) : slot.expectedLen = fragment.messageLen →
      Written slot fragment nowMs slot' → slot'.isComplete = false →
      Observed slot fragment nowMs (slot', .ok none)

theorem observed (slot : ReassemblySlot) (fragment : MessageFragment) (nowMs : Nat) :
    Observed slot fragment nowMs (slot.observe fragment nowMs) := by
  by_cases hlen : slot.expectedLen ≠ fragment.messageLen
  · rw [observe, if_pos hlen]
    exact .refused _ (.inl hlen)
  · rw [observe, if_neg hlen]
    have hlen' : slot.expectedLen = fragment.messageLen := by simpa using hlen
    by_cases hover : fragment.fragmentOffset + fragment.bytes.length > slot.expectedLen ∨
        fragment.fragmentOffset + fragment.bytes.length > maxMessageBytes
    · rw [dif_pos hover]
      exact .refused _ (.inr hover)
    · rw [dif_neg hover]
      have hw := slot.written_write fragment nowMs (by omega)
      by_cases hcomplete : (slot.write fragment nowMs (by omega)).isComplete = true
      · rw [if_pos hcomplete]
        exact .completed _ hlen' hw hcomplete
      · rw [if_neg hcomplete]
        exact .partly _ hlen' hw (by simpa using hcomplete)

/-- A slot refuses a fragment that lies in its message for the message's length alone. -/
theorem observe_refused {slot : ReassemblySlot} {fragment : MessageFragment} {nowMs : Nat}
    {e : Error} (h : (slot.observe fragment nowMs).2 = .error e)
    (hfits : fragment.fragmentOffset + fragment.bytes.length ≤ fragment.messageLen)
    (hlen : fragment.messageLen ≤ maxMessageBytes) :
    (slot.observe fragment nowMs).1 = slot ∧ slot.expectedLen ≠ fragment.messageLen := by
  have hobs := slot.observed fragment nowMs
  generalize slot.observe fragment nowMs = result at h hobs ⊢
  cases hobs with
  | refused e hwhy =>
    refine ⟨rfl, ?_⟩
    intro hsame
    rw [hsame] at hwhy
    omega
  | completed slot' => cases h
  | partly slot' => cases h

theorem isComplete_iff (slot : ReassemblySlot) (h : slot.expectedLen ≤ maxMessageBytes) :
    slot.isComplete = true ↔ slot.lastSeen = true ∧ ∀ j < slot.expectedLen, slot.Got j := by
  have hlen := slot.received_length
  unfold isComplete Got
  rw [Bool.and_eq_true, List.all_eq_true]
  refine and_congr_right fun _ => ⟨?_, ?_⟩
  · intro hall j hj
    have hlt : j < slot.received.length := by omega
    have hmem : slot.received[j] ∈ slot.received.take slot.expectedLen :=
      List.mem_take_iff_getElem.mpr ⟨j, by omega, rfl⟩
    rw [List.getElem?_eq_getElem hlt]
    exact congrArg some (hall _ hmem)
  · intro hall b hb
    obtain ⟨j, hj, rfl⟩ := List.mem_take_iff_getElem.mp hb
    have := hall j (by omega)
    rw [List.getElem?_eq_getElem (by omega)] at this
    exact Option.some.inj this

/-- A complete slot whose received bytes are those of a message holds the message. -/
theorem take_bytes {slot : ReassemblySlot} {message : Bytes}
    (hbound : message.length ≤ maxMessageBytes) (hlen : slot.expectedLen = message.length)
    (hbytes : ∀ j, slot.Got j → slot.bytes[j]? = message[j]?) (hcomplete : slot.isComplete = true) :
    slot.bytes.take message.length = message := by
  obtain ⟨-, hall⟩ := (slot.isComplete_iff (by rw [hlen]; exact hbound)).mp hcomplete
  rw [hlen] at hall
  apply List.ext_getElem?
  intro j
  rw [List.getElem?_take]
  by_cases hj : j < message.length
  · rw [if_pos hj]
    exact hbytes j (hall j hj)
  · rw [if_neg hj, List.getElem?_eq_none (by omega)]

end ReassemblySlot

/-! ## The table -/

namespace ReassemblyState

/-- The active slot of a message. -/
structure Holds (r : ReassemblyState) (key : MessageKey) (slot : ReassemblySlot) : Prop where
  mem : slot ∈ r.slots
  active : slot.active = true
  key_eq : slot.key = key

/-- No two active slots collect the same message. -/
def KeysDistinct (r : ReassemblyState) : Prop :=
  ∀ (i j : Nat) (a b : ReassemblySlot), r.slots[i]? = some a → r.slots[j]? = some b →
    a.active = true → b.active = true → a.key = b.key → i = j

/-- Whether a fragment drops an incomplete message to make room. -/
def evicts (r : ReassemblyState) (fragment : MessageFragment) : Bool :=
  (r.findSlot fragment.messageKey).isNone && r.slots.all (·.active)

variable {r : ReassemblyState}

theorem keysDistinct_new : KeysDistinct .new := by
  intro i j a b ha _ hactive
  have hmem : a ∈ List.replicate maxReassemblyMessages ReassemblySlot.new :=
    List.mem_of_getElem? ha
  rw [List.eq_of_mem_replicate hmem] at hactive
  cases hactive

theorem Holds.unique (hd : KeysDistinct r) {key : MessageKey} {a b : ReassemblySlot}
    (ha : Holds r key a) (hb : Holds r key b) : a = b := by
  obtain ⟨i, hi⟩ := List.mem_iff_getElem?.mp ha.mem
  obtain ⟨j, hj⟩ := List.mem_iff_getElem?.mp hb.mem
  obtain rfl := hd i j a b hi hj ha.active hb.active (ha.key_eq.trans hb.key_eq.symm)
  exact Option.some.inj (hi.symm.trans hj)

theorem not_holds_new (key : MessageKey) (slot : ReassemblySlot) : ¬ Holds .new key slot := by
  intro h
  have hactive := h.active
  rw [List.eq_of_mem_replicate (show slot ∈ List.replicate _ _ from h.mem)] at hactive
  cases hactive

theorem findSlot_eq_some {key : MessageKey} {i : Nat} (h : r.findSlot key = some i) :
    ∃ slot, r.slots[i]? = some slot ∧ Holds r key slot := by
  obtain ⟨hlt, hslot, -⟩ := List.findIdx?_eq_some_iff_getElem.mp h
  simp only [Bool.and_eq_true, beq_iff_eq] at hslot
  exact ⟨r.slots[i], List.getElem?_eq_getElem hlt, List.getElem_mem hlt, hslot.1, hslot.2⟩

theorem findSlot_eq_none {key : MessageKey} (h : r.findSlot key = none) (slot : ReassemblySlot) :
    ¬ Holds r key slot := by
  intro hh
  have hnone := List.findIdx?_eq_none_iff.mp h slot hh.mem
  simp [hh.active, hh.key_eq] at hnone

/-- The search for the oldest slot ends with where it began or with an entry, and no entry is
older. -/
theorem foldl_olderSlot (entries : List (ReassemblySlot × Nat)) (best : Nat × Nat) :
    (entries.foldl olderSlot best = best ∨
      ∃ e ∈ entries, entries.foldl olderSlot best = (e.2, e.1.updatedAtMs)) ∧
    (entries.foldl olderSlot best).2 ≤ best.2 ∧
    ∀ e ∈ entries, (entries.foldl olderSlot best).2 ≤ e.1.updatedAtMs := by
  induction entries generalizing best with
  | nil => exact ⟨.inl rfl, Nat.le_refl _, fun e he => absurd he List.not_mem_nil⟩
  | cons entry entries ih =>
    obtain ⟨hfrom, hbest, hall⟩ := ih (olderSlot best entry)
    have hstep : (olderSlot best entry = best ∨
        olderSlot best entry = (entry.2, entry.1.updatedAtMs)) ∧
        (olderSlot best entry).2 ≤ best.2 ∧ (olderSlot best entry).2 ≤ entry.1.updatedAtMs := by
      by_cases hlt : entry.1.updatedAtMs < best.2
      · rw [olderSlot, if_pos hlt]
        exact ⟨.inr rfl, Nat.le_of_lt hlt, Nat.le_refl _⟩
      · rw [olderSlot, if_neg hlt]
        exact ⟨.inl rfl, Nat.le_refl _, Nat.not_lt.mp hlt⟩
    obtain ⟨hwhich, hold, hentry⟩ := hstep
    rw [List.foldl_cons]
    refine ⟨?_, Nat.le_trans hbest hold, ?_⟩
    · rcases hfrom with hsame | ⟨e, he, heq⟩
      · rcases hwhich with hkept | htaken
        · exact .inl (hsame.trans hkept)
        · exact .inr ⟨entry, List.mem_cons_self, hsame.trans htaken⟩
      · exact .inr ⟨e, List.mem_cons_of_mem _ he, heq⟩
    · intro e he
      rcases List.mem_cons.mp he with rfl | he
      · exact Nat.le_trans hbest hentry
      · exact hall e he

theorem oldestSlot_lt : r.oldestSlot < maxReassemblyMessages := by
  obtain ⟨hfrom, -, -⟩ := foldl_olderSlot r.slots.zipIdx (0, u64Max)
  unfold oldestSlot
  rcases hfrom with hnone | ⟨e, he, heq⟩
  · rw [hnone]
    decide
  · rw [heq]
    have := List.snd_lt_of_mem_zipIdx he
    rwa [r.slots_length] at this

/-- The slot a new message takes exists, and is inactive unless every slot is in use. -/
theorem victim_spec : ∃ slot, r.slots[r.victim]? = some slot ∧
    (slot.active = true → r.slots.all (·.active) = true) := by
  unfold victim
  cases hfind : r.slots.findIdx? (fun slot => !slot.active) with
  | some i =>
    obtain ⟨hlt, hslot, -⟩ := List.findIdx?_eq_some_iff_getElem.mp hfind
    refine ⟨r.slots[i], List.getElem?_eq_getElem hlt, fun h => ?_⟩
    rw [h] at hslot
    cases hslot
  | none =>
    have hlt : r.oldestSlot < r.slots.length := by
      rw [r.slots_length]
      exact oldestSlot_lt
    refine ⟨r.slots[r.oldestSlot], List.getElem?_eq_getElem hlt, fun _ => ?_⟩
    rw [List.all_eq_true]
    intro slot hslot
    simpa using List.findIdx?_eq_none_iff.mp hfind slot hslot

/-! ### One slot is replaced -/

/-- The table with the slot at `i`, which was `old`, replaced by `slot`. -/
structure Replaced (r : ReassemblyState) (i : Nat) (old slot : ReassemblySlot)
    (r' : ReassemblyState) : Prop where
  old_eq : r.slots[i]? = some old
  slots_eq : r'.slots = r.slots.set i slot

theorem Replaced.getElem? {r' : ReassemblyState} {i : Nat} {old slot : ReassemblySlot}
    (h : Replaced r i old slot r') (j : Nat) :
    r'.slots[j]? = if i = j then some slot else r.slots[j]? := by
  have hlt : i < r.slots.length := (List.getElem?_eq_some_iff.mp h.old_eq).1
  rw [h.slots_eq, List.getElem?_set]
  by_cases hij : i = j
  · rw [if_pos hij, if_pos hij, if_pos hlt]
  · rw [if_neg hij, if_neg hij]

/-- A slot replaced by itself. -/
theorem Replaced.eq_of_same {r' : ReassemblyState} {i : Nat} {slot : ReassemblySlot}
    (h : Replaced r i slot slot r') : r' = r := by
  obtain ⟨hi, rfl⟩ := List.getElem?_eq_some_iff.mp h.old_eq
  have hslots := h.slots_eq
  rw [List.set_getElem_self] at hslots
  cases r
  cases r'
  obtain rfl := hslots
  rfl

section Replaced
variable {r' : ReassemblyState} {i : Nat} {old slot : ReassemblySlot} {key : MessageKey}

theorem Replaced.keysDistinct (h : Replaced r i old slot r') (hd : KeysDistinct r)
    (hslot : slot.active = true → slot.key = key)
    (hothers : ∀ j a, j ≠ i → r.slots[j]? = some a → a.active = true → a.key ≠ key) :
    KeysDistinct r' := by
  intro j l a b ha hb hactive hactive' hkey
  rw [h.getElem?] at ha hb
  by_cases hij : i = j
  · rw [if_pos hij] at ha
    by_cases hil : i = l
    · exact hij.symm.trans hil
    · rw [if_neg hil] at hb
      obtain rfl := Option.some.inj ha
      exact absurd (hkey.symm.trans (hslot hactive)) (hothers l b (Ne.symm hil) hb hactive')
  · rw [if_neg hij] at ha
    by_cases hil : i = l
    · rw [if_pos hil] at hb
      obtain rfl := Option.some.inj hb
      exact absurd (hkey.trans (hslot hactive')) (hothers j a (Ne.symm hij) ha hactive)
    · rw [if_neg hil] at hb
      exact hd j l a b ha hb hactive hactive' hkey

theorem Replaced.holds_self (h : Replaced r i old slot r')
    (hslot : slot.active = true → slot.key = key)
    (hothers : ∀ j a, j ≠ i → r.slots[j]? = some a → a.active = true → a.key ≠ key)
    (s : ReassemblySlot) : Holds r' key s ↔ s = slot ∧ slot.active = true := by
  constructor
  · intro hs
    obtain ⟨j, hj⟩ := List.mem_iff_getElem?.mp hs.mem
    rw [h.getElem?] at hj
    by_cases hij : i = j
    · rw [if_pos hij] at hj
      obtain rfl := Option.some.inj hj
      exact ⟨rfl, hs.active⟩
    · rw [if_neg hij] at hj
      exact absurd hs.key_eq (hothers j s (Ne.symm hij) hj hs.active)
  · rintro ⟨rfl, hactive⟩
    refine ⟨List.mem_iff_getElem?.mpr ⟨i, ?_⟩, hactive, hslot hactive⟩
    rw [h.getElem?, if_pos rfl]

theorem Replaced.holds_of_holds (h : Replaced r i old slot r')
    (hslot : slot.active = true → slot.key = key) {other : MessageKey} (hne : other ≠ key)
    {s : ReassemblySlot} (hs : Holds r' other s) : Holds r other s := by
  obtain ⟨j, hj⟩ := List.mem_iff_getElem?.mp hs.mem
  rw [h.getElem?] at hj
  by_cases hij : i = j
  · rw [if_pos hij] at hj
    obtain rfl := Option.some.inj hj
    exact absurd (hs.key_eq.symm.trans (hslot hs.active)) hne
  · rw [if_neg hij] at hj
    exact ⟨List.mem_iff_getElem?.mpr ⟨j, hj⟩, hs.active, hs.key_eq⟩

theorem Replaced.holds_kept (h : Replaced r i old slot r')
    {other : MessageKey} (hold : old.active = true → old.key ≠ other)
    {s : ReassemblySlot} (hs : Holds r other s) : Holds r' other s := by
  obtain ⟨j, hj⟩ := List.mem_iff_getElem?.mp hs.mem
  refine ⟨List.mem_iff_getElem?.mpr ⟨j, ?_⟩, hs.active, hs.key_eq⟩
  rw [h.getElem?, if_neg]
  · exact hj
  · rintro rfl
    rw [h.old_eq] at hj
    obtain rfl := Option.some.inj hj
    exact hold hs.active hs.key_eq

end Replaced

/-! ### Observing a fragment -/

/-- What `observe` does to the table, given the slot of the fragment's message. -/
structure ObservedAt (r : ReassemblyState) (fragment : MessageFragment) (nowMs : Nat)
    (slot : ReassemblySlot) : Prop where
  slot_eq : Holds r fragment.messageKey slot ∨ ((∀ s, ¬ Holds r fragment.messageKey s) ∧
    slot = .start fragment.messageKey fragment.messageLen nowMs)
  result_eq : (r.observe fragment nowMs).2 = (slot.observe fragment nowMs).2
  distinct : KeysDistinct (r.observe fragment nowMs).1
  self : ∀ s, Holds (r.observe fragment nowMs).1 fragment.messageKey s ↔
    s = (slot.observe fragment nowMs).1 ∧ s.active = true
  others : ∀ {key}, key ≠ fragment.messageKey → ∀ s,
    Holds (r.observe fragment nowMs).1 key s → Holds r key s
  kept : r.evicts fragment = false → ∀ {key}, key ≠ fragment.messageKey → ∀ s,
    Holds r key s → Holds (r.observe fragment nowMs).1 key s

/-- A slot keeps its key as long as it stays active. -/
theorem key_of_observe {slot : ReassemblySlot} {fragment : MessageFragment} {nowMs : Nat}
    (h : (slot.observe fragment nowMs).1.active = true) :
    (slot.observe fragment nowMs).1.key = slot.key := by
  have hobs := slot.observed fragment nowMs
  generalize slot.observe fragment nowMs = result at h hobs ⊢
  cases hobs with
  | refused e => rfl
  | completed slot' => cases h
  | partly slot' _ hw => exact hw.key

theorem observedAt_of_replaced {fragment : MessageFragment} {nowMs : Nat} {slot : ReassemblySlot}
    (i : Nat) (old : ReassemblySlot) (hd : KeysDistinct r)
    (hslot : Holds r fragment.messageKey slot ∨ ((∀ s, ¬ Holds r fragment.messageKey s) ∧
      slot = .start fragment.messageKey fragment.messageLen nowMs))
    (hresult : (r.observe fragment nowMs).2 = (slot.observe fragment nowMs).2)
    (hreplaced : Replaced r i old (slot.observe fragment nowMs).1 (r.observe fragment nowMs).1)
    (hothers : ∀ j a, j ≠ i → r.slots[j]? = some a → a.active = true →
      a.key ≠ fragment.messageKey)
    (hold : r.evicts fragment = false → old.active = true → old.key = fragment.messageKey) :
    ObservedAt r fragment nowMs slot := by
  have hkey : slot.key = fragment.messageKey := by
    rcases hslot with h | ⟨-, rfl⟩
    · exact h.key_eq
    · rfl
  have hactive : (slot.observe fragment nowMs).1.active = true →
      (slot.observe fragment nowMs).1.key = fragment.messageKey := fun h =>
    (key_of_observe h).trans hkey
  refine ⟨hslot, hresult, hreplaced.keysDistinct hd hactive hothers, ?_, ?_, ?_⟩
  · intro s
    rw [hreplaced.holds_self hactive hothers s]
    constructor
    · rintro ⟨rfl, h⟩
      exact ⟨rfl, h⟩
    · rintro ⟨rfl, h⟩
      exact ⟨rfl, h⟩
  · exact fun hne s hs => hreplaced.holds_of_holds hactive hne hs
  · exact fun hev key hne s hs => hreplaced.holds_kept
      (fun ha he => hne (he.symm.trans (hold hev ha))) hs

/-- The slot a fragment is handed to, at index `i`, and what was there before: the slot of its
message, or one started for it. -/
inductive HandedTo (r : ReassemblyState) (fragment : MessageFragment) (nowMs : Nat) :
    Nat → ReassemblySlot → ReassemblySlot → Prop
  | own {i : Nat} {slot : ReassemblySlot} : r.findSlot fragment.messageKey = some i →
      r.slots[i]? = some slot → Holds r fragment.messageKey slot → HandedTo r fragment nowMs i slot slot
  | started {old : ReassemblySlot} : r.findSlot fragment.messageKey = none →
      r.slots[r.victim]? = some old →
      HandedTo r fragment nowMs r.victim old (.start fragment.messageKey fragment.messageLen nowMs)

/-- **Observing a fragment is observing it in one slot.** -/
theorem observe_target {fragment : MessageFragment} (hlen : fragment.messageLen ≤ maxMessageBytes)
    (nowMs : Nat) : ∃ i old slot, HandedTo r fragment nowMs i old slot ∧
      Replaced r i old (slot.observe fragment nowMs).1 (r.observe fragment nowMs).1 ∧
      (r.observe fragment nowMs).2 = (slot.observe fragment nowMs).2 := by
  cases hfind : r.findSlot fragment.messageKey with
  | some i =>
    obtain ⟨slot, hat, hholds⟩ := findSlot_eq_some hfind
    have hobs : r.observe fragment nowMs = (r.setSlot i (slot.observe fragment nowMs).1,
        (slot.observe fragment nowMs).2) := by
      unfold observe
      rw [if_neg (by omega), hfind]
      dsimp only
      rw [hat]
      rfl
    exact ⟨i, slot, slot, .own hfind hat hholds, ⟨hat, by rw [hobs]; rfl⟩, by rw [hobs]⟩
  | none =>
    obtain ⟨old, hat, -⟩ := r.victim_spec
    have hlt : r.victim < r.slots.length := (List.getElem?_eq_some_iff.mp hat).1
    -- a new slot is started at the victim and written at once
    have hobs : r.observe fragment nowMs =
        ((r.setSlot r.victim (.start fragment.messageKey fragment.messageLen nowMs)).setSlot
          r.victim ((ReassemblySlot.start fragment.messageKey fragment.messageLen
            nowMs).observe fragment nowMs).1,
        ((ReassemblySlot.start fragment.messageKey fragment.messageLen
            nowMs).observe fragment nowMs).2) := by
      unfold observe
      rw [if_neg (by omega), hfind]
      dsimp only [allocateSlot]
      have hget : (r.setSlot r.victim (.start fragment.messageKey fragment.messageLen
          nowMs)).slots[r.victim]? = some (.start fragment.messageKey fragment.messageLen nowMs) := by
        show (r.slots.set r.victim _)[r.victim]? = _
        rw [List.getElem?_set, if_pos rfl, if_pos hlt]
      rw [hget]
      rfl
    refine ⟨r.victim, old, _, .started hfind hat, ⟨hat, ?_⟩, by rw [hobs]⟩
    rw [hobs]
    show (r.slots.set r.victim _).set r.victim _ = _
    rw [List.set_set]

/-- **Observing a fragment changes the table at the fragment's own message.** -/
theorem observe_spec (hd : KeysDistinct r) {fragment : MessageFragment}
    (hlen : fragment.messageLen ≤ maxMessageBytes) (nowMs : Nat) :
    ∃ slot, ObservedAt r fragment nowMs slot := by
  obtain ⟨i, old, slot, htarget, hreplaced, hresult⟩ := observe_target (r := r) hlen nowMs
  cases htarget with
  | own hfind hat hholds =>
    refine ⟨old, observedAt_of_replaced i old hd (.inl hholds) hresult hreplaced ?_
      (fun _ _ => hholds.key_eq)⟩
    -- no other slot has the key: keys are distinct
    intro j a hne ha hactive hkey
    exact hne (hd j i a old ha hat hactive hholds.active (hkey.trans hholds.key_eq.symm))
  | started hfind hat =>
    have hnone := findSlot_eq_none hfind
    obtain ⟨old', hat', hold⟩ := r.victim_spec
    obtain rfl := Option.some.inj (hat'.symm.trans hat)
    refine ⟨_, observedAt_of_replaced r.victim old' hd (.inr ⟨hnone, rfl⟩) hresult hreplaced ?_ ?_⟩
    · intro j a _ ha hactive hkey
      exact hnone a ⟨List.mem_iff_getElem?.mpr ⟨j, ha⟩, hactive, hkey⟩
    · intro hev hactive
      simp [evicts, hfind, hold hactive] at hev

/-- A fragment of an oversized message is refused without a trace. -/
theorem observe_oversized {fragment : MessageFragment}
    (hlen : maxMessageBytes < fragment.messageLen) (nowMs : Nat) :
    r.observe fragment nowMs = (r, .error .engine) := if_pos hlen

/-! What every fragment does, oversized or not. -/

theorem keysDistinct_observe (hd : KeysDistinct r) (fragment : MessageFragment) (nowMs : Nat) :
    KeysDistinct (r.observe fragment nowMs).1 := by
  by_cases hlen : fragment.messageLen ≤ maxMessageBytes
  · obtain ⟨old, hat⟩ := observe_spec hd hlen nowMs
    exact hat.distinct
  · rwa [observe_oversized (Nat.not_le.mp hlen)]

/-- No fragment puts anything into the slot of another message. -/
theorem holds_of_observe (hd : KeysDistinct r) {fragment : MessageFragment} {nowMs : Nat}
    {key : MessageKey} (hne : key ≠ fragment.messageKey) {s : ReassemblySlot}
    (hs : Holds (r.observe fragment nowMs).1 key s) : Holds r key s := by
  by_cases hlen : fragment.messageLen ≤ maxMessageBytes
  · obtain ⟨old, hat⟩ := observe_spec hd hlen nowMs
    exact hat.others hne s hs
  · rwa [observe_oversized (Nat.not_le.mp hlen)] at hs

theorem holds_observe (hd : KeysDistinct r) {fragment : MessageFragment} {nowMs : Nat}
    (hevicts : r.evicts fragment = false) {key : MessageKey} (hne : key ≠ fragment.messageKey)
    {s : ReassemblySlot} (hs : Holds r key s) : Holds (r.observe fragment nowMs).1 key s := by
  by_cases hlen : fragment.messageLen ≤ maxMessageBytes
  · obtain ⟨old, hat⟩ := observe_spec hd hlen nowMs
    exact hat.kept hevicts hne s hs
  · rwa [observe_oversized (Nat.not_le.mp hlen)]

/-- A fragment that lies in its message is refused without a trace: either it declares too long a
message, or the message is being reassembled with another length. -/
theorem observe_refused {fragment : MessageFragment} {nowMs : Nat} {e : Error}
    (h : (r.observe fragment nowMs).2 = .error e)
    (hfits : fragment.fragmentOffset + fragment.bytes.length ≤ fragment.messageLen) :
    (r.observe fragment nowMs).1 = r ∧ (maxMessageBytes < fragment.messageLen ∨
      ∃ slot, Holds r fragment.messageKey slot ∧ slot.expectedLen ≠ fragment.messageLen) := by
  rcases Nat.lt_or_ge maxMessageBytes fragment.messageLen with hover | hlen
  · rw [observe_oversized hover]
    exact ⟨rfl, .inl hover⟩
  · obtain ⟨i, old, slot, htarget, hreplaced, hresult⟩ := observe_target (r := r) hlen nowMs
    rw [hresult] at h
    obtain ⟨hsame, hdiffers⟩ := ReassemblySlot.observe_refused h hfits hlen
    rw [hsame] at hreplaced
    cases htarget with
    | own hfind hat hholds => exact ⟨hreplaced.eq_of_same, .inr ⟨old, hholds, hdiffers⟩⟩
    -- a slot started for the fragment takes it
    | started => exact absurd rfl hdiffers

/-! ### Expiry -/

/-- Whether some incomplete message is dropped by age. -/
def expires (r : ReassemblyState) (nowMs timeoutMs : Nat) : Bool :=
  r.slots.any (fun slot => slot.active && decide (nowMs - slot.updatedAtMs ≥ timeoutMs))

theorem holds_of_expire {nowMs timeoutMs : Nat} {key : MessageKey} {s : ReassemblySlot}
    (hs : Holds (r.expire nowMs timeoutMs) key s) : Holds r key s := by
  obtain ⟨slot, hslot, heq⟩ := List.mem_map.mp hs.mem
  split at heq
  · have := hs.active
    rw [← heq] at this
    cases this
  · subst heq
    exact ⟨hslot, hs.active, hs.key_eq⟩

theorem holds_expire {nowMs timeoutMs : Nat} (h : r.expires nowMs timeoutMs = false)
    {key : MessageKey} {s : ReassemblySlot} (hs : Holds r key s) :
    Holds (r.expire nowMs timeoutMs) key s := by
  have hyoung := List.any_eq_false.mp h s hs.mem
  refine ⟨List.mem_map.mpr ⟨s, hs.mem, ?_⟩, hs.active, hs.key_eq⟩
  rw [if_neg (by simpa using hyoung)]

theorem keysDistinct_expire (hd : KeysDistinct r) (nowMs timeoutMs : Nat) :
    KeysDistinct (r.expire nowMs timeoutMs) := by
  intro i j a b ha hb hactive hactive' hkey
  have back : ∀ {i : Nat} {a : ReassemblySlot}, (r.expire nowMs timeoutMs).slots[i]? = some a → a.active = true →
      r.slots[i]? = some a := by
    intro i a ha hactive
    unfold expire at ha
    rw [List.getElem?_map] at ha
    obtain ⟨slot, hslot, heq⟩ := Option.map_eq_some_iff.mp ha
    split at heq
    · rw [← heq] at hactive
      cases hactive
    · rw [hslot, heq]
  exact hd i j a b (back ha hactive) (back hb hactive') hactive hactive' hkey

end ReassemblyState

end Msrt
