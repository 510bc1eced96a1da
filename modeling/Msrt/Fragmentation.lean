import Mathlib.Data.List.Dedup
import Mathlib.Data.List.Induction
import Msrt.Delivery

/-! # Cutting and reassembling

Fragmentation followed by reassembly, with nothing in between: messages are cut the way
`send_message_fragments` cuts them, and their fragments reach `ReassemblyState.observe` in any order,
mixed and repeated.  As long as no message that is still in pieces has to leave the table, each one
comes out whole, with the fragment that was missing last.

The table holds exactly the messages that are started and incomplete, and each slot exactly the
fragments that were observed (`Mirrors`).
-/

namespace Msrt

/-! ## The fragments of a message -/

/-- A message and the fragment size it is cut with. -/
structure CutMessage where
  packetType : PacketType
  messageId : MessageId
  bytes : Bytes
  size : Nat
  length_le : bytes.length ≤ maxMessageBytes
  size_pos : 0 < size
  deriving DecidableEq

namespace CutMessage

/-- The key reassembly files the message under. -/
def messageKey (m : CutMessage) : MessageKey := ⟨m.packetType, m.messageId⟩

/-- The fragment that starts at `offset`. -/
def fragmentAt (m : CutMessage) (offset : Nat) (packetIndex : PacketIndex) : MessageFragment where
  packetType := m.packetType
  packetIndex := packetIndex
  ackEliciting := m.packetType == .data
  messageId := m.messageId
  messageLen := m.bytes.length
  fragmentOffset := offset
  bytes := (m.bytes.take (min (offset + m.size) m.bytes.length)).drop offset

/-- What the fragment loop of `send_message_fragments` cuts, from `offset` on. -/
def fragmentsLoop (m : CutMessage) : Nat → Nat → PacketIndex → List MessageFragment
  | 0, _, _ => []
  | fuel + 1, offset, packetIndex =>
    if offset < m.bytes.length ∨ (m.bytes.isEmpty ∧ offset = 0) then
      m.fragmentAt offset packetIndex ::
        (if m.bytes.isEmpty then []
        else m.fragmentsLoop fuel (min (offset + m.size) m.bytes.length) (packetIndex + 1))
    else []

/-- The fragments of a message, in the order they are cut. -/
def fragments (m : CutMessage) : List MessageFragment :=
  m.fragmentsLoop (m.bytes.length + 1) 0 0

/-- The number of fragments. -/
def count (m : CutMessage) : Nat := Chunks.count m.bytes.length m.size

/-- The bytes of fragment `i`. -/
def chunk (m : CutMessage) (i : Nat) : Bytes := Chunks.chunk m.bytes m.size i

/-- Fragment `i`. -/
def fragment (m : CutMessage) (i : Nat) : MessageFragment :=
  ⟨m.packetType, UInt16.ofNat i, m.packetType == .data, m.messageId, m.bytes.length, i * m.size,
    m.chunk i⟩

/-- Byte `j` of the message lies in fragment `i`. -/
def Covers (m : CutMessage) (i j : Nat) : Prop :=
  i * m.size ≤ j ∧ j < i * m.size + (m.chunk i).length

variable {m : CutMessage}

theorem count_pos (m : CutMessage) : 0 < m.count := Chunks.count_pos m.size_pos _

theorem fragmentAt_mul (m : CutMessage) (i : Nat) :
    m.fragmentAt (i * m.size) (UInt16.ofNat i) = m.fragment i := by
  unfold fragmentAt fragment chunk
  rw [Chunks.drop_take_eq_chunk]

theorem fragmentsLoop_from (hne : m.bytes ≠ []) (fuel i : Nat) (hi : i ≤ m.count)
    (hfuel : m.count ≤ i + fuel) :
    m.fragmentsLoop fuel (min (i * m.size) m.bytes.length) (UInt16.ofNat i) =
      (List.range' i (m.count - i)).map m.fragment := by
  have hlen : m.bytes.length ≠ 0 := by simpa using hne
  have hempty : ¬ m.bytes.isEmpty = true := by simpa using hne
  have hinside := Chunks.start_lt_iff m.size_pos hlen i
  induction fuel generalizing i with
  | zero =>
    have hdone : m.count - i = 0 := by omega
    rw [hdone]
    rfl
  | succ fuel ih =>
    by_cases hlt : i < m.count
    · have hstart : i * m.size < m.bytes.length := hinside.mpr hlt
      have hnext : m.fragmentsLoop fuel (min ((i + 1) * m.size) m.bytes.length)
          (UInt16.ofNat (i + 1)) = (List.range' (i + 1) (m.count - (i + 1))).map m.fragment :=
        ih (i + 1) hlt (by omega) (Chunks.start_lt_iff m.size_pos hlen (i + 1))
      have hmany : m.count - i = m.count - (i + 1) + 1 := by omega
      rw [Nat.add_mul, Nat.one_mul, UInt16.ofNat_add] at hnext
      rw [Nat.min_eq_left (Nat.le_of_lt hstart), fragmentsLoop, if_pos (.inl hstart), if_neg hempty,
        fragmentAt_mul, hmany, List.range'_succ, List.map_cons]
      exact congrArg _ hnext
    · -- the offset has reached the end of the message
      have hdone : m.count - i = 0 := by omega
      have hend : m.bytes.length ≤ i * m.size := Nat.not_lt.mp fun h => hlt (hinside.mp h)
      rw [Nat.min_eq_right hend, fragmentsLoop, if_neg (by simp [hne]), hdone]
      rfl

/-- **The loop cuts the chunks of the message.** -/
theorem fragments_eq (m : CutMessage) : m.fragments = (List.range m.count).map m.fragment := by
  unfold fragments
  by_cases hne : m.bytes = []
  · -- the empty message is one empty fragment, and the loop breaks behind it
    have hone : m.count = 1 := by
      rw [count, hne]
      exact Chunks.count_zero m.size
    have hzero := m.fragmentAt_mul 0
    rw [Nat.zero_mul] at hzero
    rw [fragmentsLoop, if_pos (.inr ⟨by simp [hne], rfl⟩), if_pos (by simp [hne]), hone]
    exact congrArg (· :: []) hzero
  · have hlen : m.bytes.length ≠ 0 := by simpa using hne
    have hfuel : m.count ≤ m.bytes.length + 1 := by
      by_contra hlarge
      have hlt := (Chunks.start_lt_iff m.size_pos hlen m.bytes.length).mpr
        (show m.bytes.length < m.count by omega)
      have := Nat.le_mul_of_pos_right m.bytes.length m.size_pos
      omega
    have hloop := fragmentsLoop_from hne (m.bytes.length + 1) 0 (Nat.zero_le _) (by omega)
    rw [Nat.zero_mul, Nat.zero_min] at hloop
    rw [List.range_eq_range']
    exact hloop

@[simp] theorem length_fragments (m : CutMessage) : m.fragments.length = m.count := by
  rw [fragments_eq, List.length_map, List.length_range]

end CutMessage

/-- A sent message and the fragment size its configuration comes to. -/
def SentMessage.cut (m : SentMessage) (hm : m.Valid) (config : EngineConfig) : CutMessage :=
  ⟨m.packetType, m.messageId, m.bytes, m.size config, hm.length_le, m.size_pos config⟩

/-- What the receiver reads from the packets of a message are its fragments. -/
theorem SentMessage.fragments_cut (m : SentMessage) (hm : m.Valid) (config : EngineConfig) :
    (m.cut hm config).fragments = (List.range (m.count config)).map (m.messageFragment config) :=
  (m.cut hm config).fragments_eq

/-! ## Sequences of fragments -/

/-- One fragment handed to reassembly, and when. -/
structure Observation where
  message : CutMessage
  index : Nat
  nowMs : Nat
  index_lt : index < message.fragments.length

namespace Observation

/-- The fragment that is observed. -/
def fragment (o : Observation) : MessageFragment := o.message.fragments.get ⟨o.index, o.index_lt⟩

/-- The table after a sequence of fragments. -/
def feed (obs : List Observation) : ReassemblyState :=
  obs.foldl (fun r o => (r.observe o.fragment o.nowMs).1) .new

/-- What `observe` answers to a fragment that comes behind the others. -/
def answer (seen : List Observation) (o : Observation) : Except Error (Option MessageEvent) :=
  ((feed seen).observe o.fragment o.nowMs).2

/-- Fragment `i` of the message was observed. -/
def Seen (seen : List Observation) (m : CutMessage) (i : Nat) : Prop :=
  ∃ o ∈ seen, o.message = m ∧ o.index = i

/-- Every fragment of the message was observed. -/
def Complete (seen : List Observation) (m : CutMessage) : Prop :=
  ∀ i < m.fragments.length, Seen seen m i

instance (seen : List Observation) (m : CutMessage) (i : Nat) : Decidable (Seen seen m i) :=
  inferInstanceAs (Decidable (∃ o ∈ seen, o.message = m ∧ o.index = i))

instance (seen : List Observation) (m : CutMessage) : Decidable (Complete seen m) :=
  inferInstanceAs (Decidable (∀ i < m.fragments.length, Seen seen m i))

/-- The messages of `obs` that `seen` does not complete. -/
def unfinished (seen obs : List Observation) : List CutMessage :=
  (obs.map Observation.message).dedup.filter fun m => !decide (Complete seen m)

/-- Different messages have different keys, and a fragment comes again only while its message is
incomplete. -/
structure Orderly (obs : List Observation) : Prop where
  keys : ∀ o ∈ obs, ∀ o' ∈ obs, o.message.messageKey = o'.message.messageKey →
    o.message = o'.message
  repeats : ∀ i, ∀ h : i < obs.length, Seen (obs.take i) obs[i].message obs[i].index →
    ¬ Complete (obs.take i) obs[i].message

/-- Between two fragments, no more messages are started and incomplete than there are slots. -/
def BoundedBetween (obs : List Observation) : Prop :=
  ∀ i ≤ obs.length, (unfinished (obs.take i) (obs.take i)).length ≤ maxReassemblyMessages

/-- Whenever a fragment is observed, its message and the others that are started and incomplete are
no more than there are slots. -/
def BoundedAt (obs : List Observation) : Prop :=
  ∀ i < obs.length, (unfinished (obs.take i) (obs.take (i + 1))).length ≤ maxReassemblyMessages

/-- The event is the message. -/
structure Delivers (m : CutMessage) (e : MessageEvent) : Prop where
  packetType : e.packetType = m.packetType
  messageId : e.messageId = m.messageId
  len : e.len = m.bytes.length
  bytes : e.asBytes = m.bytes

/-- Each message comes out with the fragment that was missing last, and nothing comes out before. -/
structure ComesOutWhole (obs : List Observation) : Prop where
  waits : ∀ i, ∀ h : i < obs.length, ¬ Complete (obs.take (i + 1)) obs[i].message →
    answer (obs.take i) obs[i] = .ok none
  delivers : ∀ i, ∀ h : i < obs.length, Complete (obs.take (i + 1)) obs[i].message →
    ∃ e, answer (obs.take i) obs[i] = .ok (some e) ∧ Delivers obs[i].message e

variable {obs seen : List Observation} {o : Observation} {m : CutMessage}

theorem fragment_eq (o : Observation) : o.fragment = o.message.fragment o.index := by
  unfold fragment
  rw [List.get_eq_getElem]
  simp only [CutMessage.fragments_eq, List.getElem_map, List.getElem_range]

theorem index_lt_count (o : Observation) : o.index < o.message.count := by
  have h := o.index_lt
  rwa [CutMessage.length_fragments] at h

theorem feed_snoc (obs : List Observation) (o : Observation) :
    feed (obs ++ [o]) = ((feed obs).observe o.fragment o.nowMs).1 := by
  rw [feed, List.foldl_append]
  rfl

/-! ### What one more fragment changes -/

theorem seen_snoc {i : Nat} :
    Seen (seen ++ [o]) m i ↔ Seen seen m i ∨ o.message = m ∧ o.index = i := by
  simp [Seen, or_and_right, exists_or]

theorem seen_snoc_of_ne (hne : o.message ≠ m) {i : Nat} : Seen (seen ++ [o]) m i ↔ Seen seen m i := by
  rw [seen_snoc, or_iff_left fun h => hne h.1]

theorem complete_snoc_of_ne (hne : o.message ≠ m) :
    Complete (seen ++ [o]) m ↔ Complete seen m :=
  forall₂_congr fun _ _ => seen_snoc_of_ne hne

theorem mem_messages_of_seen {i : Nat} (h : Seen seen m i) : m ∈ seen.map Observation.message := by
  obtain ⟨o, ho, rfl, -⟩ := h
  exact List.mem_map_of_mem ho

theorem mem_unfinished : m ∈ unfinished seen obs ↔ m ∈ obs.map Observation.message ∧
    ¬ Complete seen m := by
  simp [unfinished]

/-! ### Initial parts -/

theorem Orderly.take (h : Orderly obs) (n : Nat) : Orderly (obs.take n) where
  keys o ho o' ho' := h.keys o (List.mem_of_mem_take ho) o' (List.mem_of_mem_take ho')
  repeats i hi := by
    have hn : i < n := by
      rw [List.length_take] at hi
      omega
    have hrepeats := h.repeats i (by rw [List.length_take] at hi; omega)
    rwa [List.take_take, Nat.min_eq_left (Nat.le_of_lt hn), List.getElem_take]

theorem BoundedAt.take (h : BoundedAt obs) (n : Nat) : BoundedAt (obs.take n) := by
  intro i hi
  have hn : i < n := by
    rw [List.length_take] at hi
    omega
  have hbounded := h i (by rw [List.length_take] at hi; omega)
  rwa [List.take_take, Nat.min_eq_left (Nat.le_of_lt hn), List.take_take, Nat.min_eq_left hn]

/-- A message is incomplete whenever one of its fragments arrives. -/
theorem Orderly.incomplete (h : Orderly (seen ++ [o])) : ¬ Complete seen o.message := by
  intro hcomplete
  have hrepeats := h.repeats seen.length (by simp)
  rw [List.take_left, List.getElem_concat_length] at hrepeats
  · exact hrepeats (hcomplete o.index o.index_lt) hcomplete
  · rfl

theorem BoundedAt.last (h : BoundedAt (seen ++ [o])) :
    (unfinished seen (seen ++ [o])).length ≤ maxReassemblyMessages := by
  have hlast := h seen.length (by simp)
  rwa [List.take_left, List.take_of_length_le (by simp)] at hlast

/-! ### One slot -/

/-- The slot holds the fragments of the message that were observed, and nothing else. -/
structure Collected (seen : List Observation) (m : CutMessage) (slot : ReassemblySlot) : Prop where
  expectedLen : slot.expectedLen = m.bytes.length
  got : ∀ j, slot.Got j ↔ ∃ i, Seen seen m i ∧ m.Covers i j
  bytes : ∀ j, slot.Got j → slot.bytes[j]? = m.bytes[j]?
  lastSeen : slot.lastSeen = true ↔ ∃ i, Seen seen m i ∧ i + 1 = m.count

theorem collected_start (h : ∀ i, ¬ Seen seen m i) (key : MessageKey) (nowMs : Nat) :
    Collected seen m (.start key m.bytes.length nowMs) where
  expectedLen := rfl
  got j := iff_of_false (not_got_start _ _ _ j) fun hcovered => by
    obtain ⟨i, hseen, -⟩ := hcovered
    exact h i hseen
  bytes j hgot := absurd hgot (not_got_start _ _ _ j)
  lastSeen := iff_of_false Bool.false_ne_true fun hlast => by
    obtain ⟨i, hseen, -⟩ := hlast
    exact h i hseen

theorem Collected.written {old slot : ReassemblySlot} (h : Collected seen o.message old)
    (hw : old.Written (o.message.fragment o.index) o.nowMs slot) :
    Collected (seen ++ [o]) o.message slot where
  expectedLen := hw.expectedLen.trans h.expectedLen
  got j := by
    rw [hw.got, h.got]
    constructor
    · rintro (hin | ⟨i, hseen, hcovers⟩)
      · exact ⟨o.index, seen_snoc.mpr (.inr ⟨rfl, rfl⟩), hin⟩
      · exact ⟨i, seen_snoc.mpr (.inl hseen), hcovers⟩
    · rintro ⟨i, hseen, hcovers⟩
      rcases seen_snoc.mp hseen with hseen | ⟨-, rfl⟩
      · exact .inr ⟨i, hseen, hcovers⟩
      · exact .inl hcovers
  bytes j hgot := by
    rw [hw.bytes]
    split
    · rename_i hin
      exact Chunks.getElem?_chunk hin.1 hin.2
    · rename_i hout
      rcases (hw.got j).mp hgot with hin | hgot
      · exact absurd hin hout
      · exact h.bytes j hgot
  lastSeen := by
    have hends := Chunks.chunk_last o.message.size_pos o.index_lt_count
    rw [hw.lastSeen, h.lastSeen, h.expectedLen]
    constructor
    · rintro (⟨i, hseen, hlast⟩ | hend)
      · exact ⟨i, seen_snoc.mpr (.inl hseen), hlast⟩
      · exact ⟨o.index, seen_snoc.mpr (.inr ⟨rfl, rfl⟩), hends.mp hend⟩
    · rintro ⟨i, hseen, hlast⟩
      rcases seen_snoc.mp hseen with hseen | ⟨-, rfl⟩
      · exact .inl ⟨i, hseen, hlast⟩
      · exact .inr (hends.mpr hlast)

/-- **A slot is complete when every fragment of its message was observed.** -/
theorem Collected.isComplete_iff {slot : ReassemblySlot} (h : Collected seen m slot) :
    slot.isComplete = true ↔ Complete seen m := by
  have hbound : slot.expectedLen ≤ maxMessageBytes := by
    rw [h.expectedLen]
    exact m.length_le
  rw [slot.isComplete_iff hbound, h.expectedLen, h.lastSeen, Complete, CutMessage.length_fragments]
  constructor
  · rintro ⟨⟨last, hlast, hcount⟩, hall⟩ i hi
    by_cases hlen : m.bytes.length = 0
    · -- the empty message has one fragment, which is its last
      have hone : m.count = 1 := by
        rw [CutMessage.count, hlen]
        exact Chunks.count_zero m.size
      obtain rfl : i = last := by omega
      exact hlast
    · -- otherwise the fragment's first byte came with some fragment, which can be no other
      have hstart := (Chunks.start_lt_iff m.size_pos hlen i).mpr hi
      obtain ⟨k, hseen, hcovers⟩ := (h.got _).mp (hall _ hstart)
      obtain rfl := Chunks.eq_of_start_mem m.size_pos hcovers.1 hcovers.2
      exact hseen
  · intro hcomplete
    have hcount := m.count_pos
    refine ⟨⟨m.count - 1, hcomplete _ (by omega), by omega⟩, fun j hj => (h.got j).mpr ?_⟩
    obtain ⟨hi, hcovers⟩ := Chunks.mem_chunk m.size_pos hj
    exact ⟨_, hcomplete _ hi, hcovers⟩

/-- What a complete slot turns into is its message. -/
theorem Collected.delivers {slot : ReassemblySlot} (h : Collected seen m slot)
    (hkey : slot.key = m.messageKey) (hcomplete : slot.isComplete = true) :
    Delivers m ⟨slot.key.packetType, slot.key.messageId, slot.bytes, slot.expectedLen⟩ := by
  refine ⟨by rw [hkey]; rfl, by rw [hkey]; rfl, h.expectedLen, ?_⟩
  show slot.bytes.take slot.expectedLen = m.bytes
  rw [h.expectedLen]
  exact ReassemblySlot.take_bytes m.length_le h.expectedLen h.bytes hcomplete

/-! ### The table -/

/-- The table holds the messages that are started and incomplete, each with what was observed of
it. -/
structure Mirrors (seen : List Observation) (r : ReassemblyState) : Prop where
  distinct : r.KeysDistinct
  started : ∀ key slot, r.Holds key slot →
    ∃ m ∈ seen.map Observation.message, m.messageKey = key ∧ ¬ Complete seen m
  collects : ∀ m ∈ seen.map Observation.message, ¬ Complete seen m →
    ∃ slot, r.Holds m.messageKey slot ∧ Collected seen m slot

theorem mirrors_nil : Mirrors [] .new where
  distinct := ReassemblyState.keysDistinct_new
  started key slot hholds := absurd hholds (ReassemblyState.not_holds_new key slot)
  collects _ hm := absurd hm List.not_mem_nil

/-- With room for one more message, nothing is evicted. -/
theorem Mirrors.not_evicts {r : ReassemblyState} (h : Mirrors seen r)
    (hincomplete : ¬ Complete seen o.message)
    (hroom : (unfinished seen (seen ++ [o])).length ≤ maxReassemblyMessages) :
    r.evicts o.fragment = false := by
  by_contra hevicts
  have hboth : r.findSlot o.fragment.messageKey = none ∧ ∀ slot ∈ r.slots, slot.active = true := by
    simpa [ReassemblyState.evicts] using hevicts
  obtain ⟨hfind, hactive⟩ := hboth
  have hholds (slot : ReassemblySlot) (hslot : slot ∈ r.slots) : r.Holds slot.key slot :=
    ⟨hslot, hactive slot hslot, rfl⟩
  have hnew : o.message.messageKey ∉ r.slots.map ReassemblySlot.key := by
    intro hmem
    obtain ⟨slot, hslot, hkey⟩ := List.mem_map.mp hmem
    have hself := hholds slot hslot
    rw [hkey] at hself
    apply ReassemblyState.findSlot_eq_none hfind slot
    rw [fragment_eq]
    exact hself
  have hnodup : (o.message.messageKey :: r.slots.map ReassemblySlot.key).Nodup := by
    refine List.nodup_cons.mpr ⟨hnew, List.nodup_iff_injective_get.mpr ?_⟩
    intro i j hij
    have hi : i.1 < r.slots.length := by simpa using i.2
    have hj : j.1 < r.slots.length := by simpa using j.2
    refine Fin.ext (h.distinct i j _ _ (List.getElem?_eq_getElem hi) (List.getElem?_eq_getElem hj)
      (hactive _ (List.getElem_mem hi)) (hactive _ (List.getElem_mem hj)) ?_)
    simpa using hij
  -- the four keys of the table and the new one all belong to unfinished messages
  have hsubset : o.message.messageKey :: r.slots.map ReassemblySlot.key ⊆
      (unfinished seen (seen ++ [o])).map CutMessage.messageKey := by
    intro key hkey
    rcases List.mem_cons.mp hkey with rfl | hkey
    · exact List.mem_map_of_mem (mem_unfinished.mpr ⟨by simp, hincomplete⟩)
    · obtain ⟨slot, hslot, rfl⟩ := List.mem_map.mp hkey
      obtain ⟨m, hm, hmkey, hopen⟩ := h.started _ slot (hholds slot hslot)
      rw [← hmkey]
      refine List.mem_map_of_mem (mem_unfinished.mpr ⟨?_, hopen⟩)
      rw [List.map_append]
      exact List.mem_append_left _ hm
  have hlen := (hnodup.subperm hsubset).length_le
  rw [List.length_cons, List.length_map, List.length_map, r.slots_length] at hlen
  omega

/-- What one more fragment does to the slot of its message. -/
inductive Taken (seen : List Observation) (o : Observation) (old : ReassemblySlot) : Prop
  | waits (slot : ReassemblySlot) : ¬ Complete (seen ++ [o]) o.message → slot.active = true →
      Collected (seen ++ [o]) o.message slot →
      old.observe o.fragment o.nowMs = (slot, .ok none) → Taken seen o old
  | delivers (e : MessageEvent) : Complete (seen ++ [o]) o.message → Delivers o.message e →
      old.observe o.fragment o.nowMs = (.new, .ok (some e)) → Taken seen o old

theorem Collected.taken {old : ReassemblySlot} (h : Collected seen o.message old)
    (hkey : old.key = o.message.messageKey) (hactive : old.active = true) : Taken seen o old := by
  have hfits := Chunks.chunk_fits o.message.size_pos o.index_lt_count
  have hlen := o.message.length_le
  have hexpected := h.expectedLen
  have hobs := old.observed (o.message.fragment o.index) o.nowMs
  rw [← fragment_eq] at hobs
  generalize hresult : old.observe o.fragment o.nowMs = result at hobs
  rw [fragment_eq] at hobs
  cases hobs with
  | refused e hwhy =>
    -- a fragment of the message lies inside it
    rcases hwhy with hwhy | hwhy | hwhy
    · exact absurd hexpected hwhy
    · change old.expectedLen < o.index * o.message.size + (o.message.chunk o.index).length at hwhy
      unfold CutMessage.chunk at hwhy
      omega
    · change maxMessageBytes < o.index * o.message.size + (o.message.chunk o.index).length at hwhy
      unfold CutMessage.chunk at hwhy
      omega
  | completed slot _ hw hcomplete =>
    have hslot := h.written hw
    exact .delivers _ (hslot.isComplete_iff.mp hcomplete)
      (hslot.delivers (hw.key.trans hkey) hcomplete) hresult
  | partly slot _ hw hopen =>
    have hslot := h.written hw
    refine .waits slot ?_ (hw.active.trans hactive) hslot hresult
    intro hcomplete
    rw [hslot.isComplete_iff.mpr hcomplete] at hopen
    cases hopen

theorem Collected.snoc_of_ne {slot : ReassemblySlot} (h : Collected seen m slot)
    (hne : o.message ≠ m) : Collected (seen ++ [o]) m slot where
  expectedLen := h.expectedLen
  got j := by
    rw [h.got]
    exact exists_congr fun i => and_congr_left fun _ => (seen_snoc_of_ne hne).symm
  bytes := h.bytes
  lastSeen := by
    rw [h.lastSeen]
    exact exists_congr fun i => and_congr_left fun _ => (seen_snoc_of_ne hne).symm

theorem fragment_messageKey (o : Observation) : o.fragment.messageKey = o.message.messageKey := by
  rw [fragment_eq]
  rfl

section Snoc
variable {r : ReassemblyState}

/-- Two messages of an orderly sequence are told apart by their keys. -/
theorem Orderly.message_eq (ho : Orderly (seen ++ [o])) (hm : m ∈ seen.map Observation.message)
    (hkey : m.messageKey = o.message.messageKey) : m = o.message := by
  obtain ⟨o', ho', rfl⟩ := List.mem_map.mp hm
  exact ho.keys o' (List.mem_append_left _ ho') o (by simp) hkey

/-- A fragment finds what was observed of its message before, or an empty slot. -/
theorem Mirrors.taken (h : Mirrors seen r) (ho : Orderly (seen ++ [o])) {old : ReassemblySlot}
    (hat : r.ObservedAt o.fragment o.nowMs old) : Taken seen o old := by
  have hslot := hat.slot_eq
  rw [fragment_messageKey] at hslot
  rcases hslot with hold | ⟨hnone, hstart⟩
  · obtain ⟨m, hm, hkey, hopen⟩ := h.started _ old hold
    obtain rfl := ho.message_eq hm hkey
    obtain ⟨slot, hslot, hcollected⟩ := h.collects _ hm hopen
    obtain rfl := hold.unique h.distinct hslot
    exact hcollected.taken hold.key_eq hold.active
  · have hunseen (i : Nat) : ¬ Seen seen o.message i := by
      intro hseen
      obtain ⟨slot, hslot, -⟩ := h.collects _ (mem_messages_of_seen hseen) ho.incomplete
      exact hnone slot hslot
    rw [fragment_eq] at hstart
    rw [hstart]
    exact (collected_start hunseen _ _).taken rfl rfl

theorem Mirrors.observe_spec (h : Mirrors seen r) (ho : Orderly (seen ++ [o])) :
    ∃ old, r.ObservedAt o.fragment o.nowMs old ∧ Taken seen o old := by
  have hlen : o.fragment.messageLen ≤ maxMessageBytes := by
    rw [fragment_eq]
    exact o.message.length_le
  obtain ⟨old, hat⟩ := ReassemblyState.observe_spec h.distinct hlen o.nowMs
  exact ⟨old, hat, h.taken ho hat⟩

/-- **One more fragment keeps the table in step.** -/
theorem Mirrors.snoc (h : Mirrors seen r) (ho : Orderly (seen ++ [o]))
    (hroom : (unfinished seen (seen ++ [o])).length ≤ maxReassemblyMessages) :
    Mirrors (seen ++ [o]) (r.observe o.fragment o.nowMs).1 := by
  obtain ⟨old, hat, htaken⟩ := h.observe_spec ho
  have hself := hat.self
  rw [fragment_messageKey] at hself
  refine ⟨hat.distinct, ?_, ?_⟩
  · intro key slot hslot
    -- the slot of the message that was fed, or one that was open before
    by_cases hkey : key = o.message.messageKey
    · subst hkey
      cases htaken with
      | waits new hopen => exact ⟨o.message, by simp, rfl, hopen⟩
      | delivers e _ _ hobs =>
        rw [hobs] at hself
        obtain ⟨rfl, hactive⟩ := (hself slot).mp hslot
        cases hactive
    · have hbefore : r.Holds key slot := by
        apply hat.others _ slot hslot
        rw [fragment_messageKey]
        exact hkey
      obtain ⟨m, hm, rfl, hopen⟩ := h.started key slot hbefore
      have hne : o.message ≠ m := fun he => hkey (by rw [he])
      refine ⟨m, ?_, rfl, fun hcomplete => hopen ((complete_snoc_of_ne hne).mp hcomplete)⟩
      rw [List.map_append]
      exact List.mem_append_left _ hm
  · intro m hm hopen
    -- the message that was fed, or one that keeps its slot because there is room
    by_cases heq : o.message = m
    · subst heq
      cases htaken with
      | waits new _ hactive hcollected hobs =>
        refine ⟨new, (hself new).mpr ⟨?_, hactive⟩, hcollected⟩
        rw [hobs]
      | delivers e hcomplete => exact absurd hcomplete hopen
    · have hmem : m ∈ seen.map Observation.message := by
        rw [List.map_append] at hm
        rcases List.mem_append.mp hm with hm | hm
        · exact hm
        · exact absurd (List.mem_singleton.mp hm).symm heq
      obtain ⟨slot, hslot, hcollected⟩ := h.collects m hmem
        fun hcomplete => hopen ((complete_snoc_of_ne heq).mpr hcomplete)
      refine ⟨slot, hat.kept (h.not_evicts ho.incomplete hroom) ?_ slot hslot,
        hcollected.snoc_of_ne heq⟩
      rw [fragment_messageKey]
      exact fun hkey => heq (ho.message_eq hmem hkey).symm

end Snoc

/-- **The table is in step with every sequence that leaves it room.** -/
theorem mirrors_feed (ho : Orderly obs) (hb : BoundedAt obs) : Mirrors obs (feed obs) := by
  induction obs using List.reverseRecOn with
  | nil => exact mirrors_nil
  | append_singleton seen o ih =>
    have ho' := ho.take seen.length
    have hb' := hb.take seen.length
    rw [List.take_left] at ho' hb'
    rw [feed_snoc]
    exact (ih ho' hb').snoc ho hb.last

/-- What `observe` answers to the last fragment of a sequence. -/
theorem answer_snoc (ho : Orderly (seen ++ [o])) (hb : BoundedAt (seen ++ [o])) :
    (¬ Complete (seen ++ [o]) o.message → answer seen o = .ok none) ∧
      (Complete (seen ++ [o]) o.message →
        ∃ e, answer seen o = .ok (some e) ∧ Delivers o.message e) := by
  have ho' := ho.take seen.length
  have hb' := hb.take seen.length
  rw [List.take_left] at ho' hb'
  obtain ⟨old, hat, htaken⟩ := (mirrors_feed ho' hb').observe_spec ho
  unfold answer
  rw [hat.result_eq]
  cases htaken with
  | waits slot hopen _ _ hobs =>
    rw [hobs]
    exact ⟨fun _ => rfl, fun hcomplete => absurd hcomplete hopen⟩
  | delivers e hcomplete he hobs =>
    rw [hobs]
    exact ⟨fun hopen => absurd hcomplete hopen, fun _ => ⟨e, rfl, he⟩⟩

theorem answer_take (ho : Orderly obs) (hb : BoundedAt obs) {i : Nat} (h : i < obs.length) :
    (¬ Complete (obs.take (i + 1)) obs[i].message → answer (obs.take i) obs[i] = .ok none) ∧
      (Complete (obs.take (i + 1)) obs[i].message →
        ∃ e, answer (obs.take i) obs[i] = .ok (some e) ∧ Delivers obs[i].message e) := by
  have ho' := ho.take (i + 1)
  have hb' := hb.take (i + 1)
  rw [List.take_succ_eq_append_getElem h] at ho' hb' ⊢
  exact answer_snoc ho' hb'

/-- **Fragmentation followed by reassembly is the identity.**  Whatever the order, the mixture and
the repetitions of the fragments, a message comes out whole with the fragment that was missing last,
as long as it and the other incomplete messages fit into the table. -/
theorem comesOutWhole (ho : Orderly obs) (hb : BoundedAt obs) : ComesOutWhole obs :=
  ⟨fun _ h => (answer_take ho hb h).1, fun _ h => (answer_take ho hb h).2⟩

/-- A message of two one-byte fragments. -/
def twoBytes (id : MessageId) : CutMessage := ⟨.data, id, [1, 2], 1, by decide, by decide⟩

/-- A message of one fragment. -/
def oneByte (id : MessageId) : CutMessage := ⟨.data, id, [7], 1, by decide, by decide⟩

/-- An empty message. -/
def noBytes (id : MessageId) : CutMessage := ⟨.log, id, [], 3, by decide, by decide⟩

/-- Three messages mixed, one of them back to front and with a repetition. -/
def mixed : List Observation :=
  [⟨twoBytes 1, 1, 9, by decide⟩, ⟨twoBytes 2, 0, 3, by decide⟩, ⟨noBytes 1, 0, 5, by decide⟩,
    ⟨twoBytes 1, 1, 4, by decide⟩, ⟨twoBytes 1, 0, 0, by decide⟩, ⟨twoBytes 2, 1, 7, by decide⟩]

theorem comesOutWhole_mixed : ComesOutWhole mixed :=
  comesOutWhole ⟨by decide +kernel, by decide +kernel⟩ (by unfold BoundedAt; decide +kernel)

/-- Four messages in pieces, a fifth one of a single fragment, and the missing half of the first. -/
def crowded : List Observation :=
  [⟨twoBytes 1, 0, 0, by decide⟩, ⟨twoBytes 2, 0, 1, by decide⟩, ⟨twoBytes 3, 0, 2, by decide⟩,
    ⟨twoBytes 4, 0, 3, by decide⟩, ⟨oneByte 5, 0, 4, by decide⟩, ⟨twoBytes 1, 1, 5, by decide⟩]

/-- Room between the fragments is not enough: a message of a single fragment takes a slot while it
is observed, and with four messages in pieces it takes that of the oldest one. -/
theorem not_comesOutWhole_crowded :
    Orderly crowded ∧ BoundedBetween crowded ∧ ¬ ComesOutWhole crowded := by
  refine ⟨⟨by decide +kernel, by decide +kernel⟩, by unfold BoundedBetween; decide +kernel, ?_⟩
  intro h
  have hlost : (answer (crowded.take 5) crowded[5]).toOption.join.isSome = false := by
    decide +kernel
  obtain ⟨e, he, -⟩ := h.delivers 5 (by decide) (by decide +kernel)
  rw [he] at hlost
  cases hlost

end Observation

end Msrt
