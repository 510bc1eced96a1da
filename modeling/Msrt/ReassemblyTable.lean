import Msrt.ReassemblySpec
import Msrt.Simulation

/-! # The discipline of the reassembly table

The table on its own, under any sequence of fragments and expiries at any times.  A fragment lies in
its message, as the packet decoder guarantees (`FittingFragment`); nothing else is asked of it, so
fragments may overlap, contradict each other or never complete a message.

What a slot holds is explained by the fragments it took since it was started.  `Recorded` keeps them
beside the table, in one log for each slot index, and `ExplainedBy` says how a slot follows from its
log: a byte is that of the last fragment that covers it.  The log is a record only: the table in a
recorded run is the table of the plain one (`Recorded.refines`).

Every reachable table has distinct keys, blank inactive slots and no slot that could have been
delivered (`Disciplined`).
-/

namespace Msrt

/-! ## Operations -/

/-- A fragment that lies in its message. -/
abbrev FittingFragment :=
  { f : MessageFragment // f.fragmentOffset + f.bytes.length ≤ f.messageLen }

/-- The operations of the table, with the times of the program. -/
inductive ReassemblyOp where
  | observe (fragment : FittingFragment) (nowMs : UInt64)
  | expire (nowMs timeoutMs : UInt64)

/-- The table as an automaton; `observe` alone returns something. -/
def ReassemblyState.automaton :
    Automaton ReassemblyState ReassemblyOp (Option (Except Error (Option MessageEvent))) where
  step r
    | .observe fragment nowMs =>
      ((r.observe fragment.1 nowMs.toNat).1, some (r.observe fragment.1 nowMs.toNat).2)
    | .expire nowMs timeoutMs => (r.expire nowMs.toNat timeoutMs.toNat, none)

/-! ## The fragments a slot took -/

/-- Whether byte `j` of the message lies in the fragment. -/
def MessageFragment.covers (f : MessageFragment) (j : Nat) : Bool :=
  decide (f.fragmentOffset ≤ j ∧ j < f.fragmentOffset + f.bytes.length)

theorem MessageFragment.covers_iff {f : MessageFragment} {j : Nat} :
    f.covers j = true ↔ f.fragmentOffset ≤ j ∧ j < f.fragmentOffset + f.bytes.length :=
  decide_eq_true_iff

/-- Byte `j` of the message, as the fragment has it. -/
def MessageFragment.byteAt (f : MessageFragment) (j : Nat) : Option UInt8 :=
  f.bytes[j - f.fragmentOffset]?

/-- The last fragment that covers byte `j`. -/
def lastCovering (log : List MessageFragment) (j : Nat) : Option MessageFragment :=
  log.reverse.find? (·.covers j)

theorem lastCovering_snoc (log : List MessageFragment) (f : MessageFragment) (j : Nat) :
    lastCovering (log ++ [f]) j = if f.covers j then some f else lastCovering log j := by
  rw [lastCovering, List.reverse_append, List.reverse_singleton, List.singleton_append,
    List.find?_cons]
  cases f.covers j with
  | true => rfl
  | false => rfl

theorem lastCovering_isSome {log : List MessageFragment} {j : Nat} :
    (lastCovering log j).isSome ↔ ∃ f ∈ log, f.covers j = true := by
  rw [lastCovering, List.find?_isSome]
  simp only [List.mem_reverse]

theorem lastCovering_eq_none {log : List MessageFragment} {j : Nat} :
    lastCovering log j = none ↔ ∀ f ∈ log, f.covers j = false := by
  rw [lastCovering, List.find?_eq_none]
  simp only [List.mem_reverse, Bool.not_eq_true]

/-- A table and, for each slot index, the fragments the slot took since it was last started. -/
structure Recorded where
  table : ReassemblyState
  log : Nat → List MessageFragment

/-- The index of the slot a fragment is handed to. -/
def ReassemblyState.slotIndex (r : ReassemblyState) (fragment : MessageFragment) : Nat :=
  (r.findSlot fragment.messageKey).getD r.victim

namespace Recorded

/-- The empty table, and nothing recorded. -/
def new : Recorded := ⟨.new, fun _ => []⟩

/-- The log of the slot a fragment is handed to, up to the fragment: empty if it is started. -/
def logBefore (s : Recorded) (fragment : MessageFragment) : List MessageFragment :=
  if (s.table.findSlot fragment.messageKey).isSome then s.log (s.table.slotIndex fragment) else []

/-- The logs once a fragment has been observed: only a fragment that is taken is recorded. -/
def logAfter (s : Recorded) (fragment : MessageFragment) (nowMs : Nat) :
    Nat → List MessageFragment :=
  match (s.table.observe fragment nowMs).2 with
  | .error _ => s.log
  | .ok _ => Function.update s.log (s.table.slotIndex fragment) (s.logBefore fragment ++ [fragment])

/-- The table with its logs as an automaton. -/
def automaton : Automaton Recorded ReassemblyOp (Option (Except Error (Option MessageEvent))) where
  step s
    | .observe fragment nowMs =>
      (⟨(s.table.observe fragment.1 nowMs.toNat).1, s.logAfter fragment.1 nowMs.toNat⟩,
        some (s.table.observe fragment.1 nowMs.toNat).2)
    | .expire nowMs timeoutMs => (⟨s.table.expire nowMs.toNat timeoutMs.toNat, s.log⟩, none)

/-- The logs change nothing. -/
theorem refines : automaton.Refines ReassemblyState.automaton Recorded.table := by
  intro s op
  cases op with
  | observe fragment nowMs => rfl
  | expire nowMs timeoutMs => rfl

end Recorded

/-! ## What a slot holds -/

/-- A slot that is what its log makes of it. -/
structure ExplainedBy (slot : ReassemblySlot) (log : List MessageFragment) : Prop where
  expectedLen_le : slot.expectedLen ≤ maxMessageBytes
  inside : ∀ f ∈ log, f.fragmentOffset + f.bytes.length ≤ slot.expectedLen
  got : ∀ j, slot.Got j ↔ ∃ f ∈ log, f.covers j = true
  bytes : ∀ j < maxMessageBytes,
    slot.bytes[j]? = (lastCovering log j).elim (some 0) (·.byteAt j)
  lastSeen : slot.lastSeen = true ↔
    ∃ f ∈ log, f.fragmentOffset + f.bytes.length = slot.expectedLen

/-- A message put together from the fragments of a log: every byte of it is that of the last
fragment that covers it, and the storage behind it is zero. -/
structure Assembled (message : MessageEvent) (log : List MessageFragment) : Prop where
  storage : message.bytes.length = maxMessageBytes
  written : ∀ j < message.len, ∃ f, lastCovering log j = some f ∧ message.bytes[j]? = f.byteAt j
  blank : ∀ j, message.len ≤ j → j < maxMessageBytes → message.bytes[j]? = some 0

namespace ExplainedBy
variable {slot slot' : ReassemblySlot} {log : List MessageFragment} {f : MessageFragment}
  {nowMs : Nat}

theorem start (key : MessageKey) {expectedLen : Nat} (hlen : expectedLen ≤ maxMessageBytes)
    (nowMs : Nat) : ExplainedBy (.start key expectedLen nowMs) [] where
  expectedLen_le := hlen
  inside f hf := absurd hf List.not_mem_nil
  got j := by
    show (List.replicate maxMessageBytes false)[j]? = some true ↔ _
    rw [List.getElem?_replicate]
    split <;> simp
  bytes j hj := by
    show (List.replicate maxMessageBytes (0 : UInt8))[j]? = _
    rw [List.getElem?_replicate, if_pos hj]
    rfl
  lastSeen := by
    show false = true ↔ _
    simp

/-- A fragment that is written joins the log. -/
theorem snoc (h : ExplainedBy slot log) (hw : slot.Written f nowMs slot')
    (hfits : f.fragmentOffset + f.bytes.length ≤ slot.expectedLen) :
    ExplainedBy slot' (log ++ [f]) where
  expectedLen_le := hw.expectedLen ▸ h.expectedLen_le
  inside g hg := by
    rw [hw.expectedLen]
    rcases List.mem_append.mp hg with hg | hg
    · exact h.inside g hg
    · rwa [List.mem_singleton.mp hg]
  got j := by
    rw [hw.got, h.got, ← MessageFragment.covers_iff]
    simp only [List.mem_append, List.mem_singleton, or_and_right, exists_or, exists_eq_left]
    exact or_comm
  bytes j hj := by
    rw [hw.bytes, lastCovering_snoc]
    by_cases hin : f.fragmentOffset ≤ j ∧ j < f.fragmentOffset + f.bytes.length
    · rw [if_pos hin, if_pos (MessageFragment.covers_iff.mpr hin)]
      rfl
    · rw [if_neg hin, if_neg (fun hcovers => hin (MessageFragment.covers_iff.mp hcovers))]
      exact h.bytes j hj
  lastSeen := by
    rw [hw.lastSeen, hw.expectedLen, h.lastSeen]
    simp only [List.mem_append, List.mem_singleton, or_and_right, exists_or, exists_eq_left]

/-- Once the last byte has been received the end has been seen, so a slot that took anything is
complete when all of its bytes are there. -/
theorem isComplete_iff (h : ExplainedBy slot log) (hlog : log ≠ []) :
    slot.isComplete = true ↔ ∀ j < slot.expectedLen, slot.Got j := by
  rw [slot.isComplete_iff h.expectedLen_le]
  refine ⟨And.right, fun hall => ⟨h.lastSeen.mpr ?_, hall⟩⟩
  by_cases hzero : slot.expectedLen = 0
  · -- an empty message ends with any fragment of it
    obtain ⟨f, hf⟩ := List.exists_mem_of_ne_nil log hlog
    have := h.inside f hf
    exact ⟨f, hf, by omega⟩
  · obtain ⟨f, hf, hcovers⟩ := (h.got _).mp (hall (slot.expectedLen - 1) (by omega))
    have hend := h.inside f hf
    have hin := MessageFragment.covers_iff.mp hcovers
    exact ⟨f, hf, by omega⟩

/-- **A complete slot delivers what its log makes of the message.** -/
theorem assembled (h : ExplainedBy slot log) (hcomplete : slot.isComplete = true) :
    Assembled ⟨slot.key.packetType, slot.key.messageId, slot.bytes, slot.expectedLen⟩ log where
  storage := slot.bytes_length
  written j hj := by
    obtain ⟨-, hall⟩ := (slot.isComplete_iff h.expectedLen_le).mp hcomplete
    obtain ⟨f, hf⟩ := Option.isSome_iff_exists.mp
      (lastCovering_isSome.mpr ((h.got j).mp (hall j hj)))
    have hbytes := h.bytes j (Nat.lt_of_lt_of_le hj h.expectedLen_le)
    rw [hf] at hbytes
    exact ⟨f, hf, hbytes⟩
  blank j hlo hhi := by
    have hnone : lastCovering log j = none := by
      rw [lastCovering_eq_none]
      intro f hf
      have hend := h.inside f hf
      have hlo' : slot.expectedLen ≤ j := hlo
      rw [Bool.eq_false_iff, Ne, MessageFragment.covers_iff]
      omega
    have hbytes := h.bytes j hhi
    rw [hnone] at hbytes
    exact hbytes

end ExplainedBy

/-! ## One slot of the table -/

/-- What holds of a slot between two calls. -/
structure SlotDiscipline (slot : ReassemblySlot) (log : List MessageFragment) : Prop where
  blank : slot.active = false → slot = .new
  collected : slot.active = true → ExplainedBy slot log
  waiting : slot.active = true → ∃ j < slot.expectedLen, ¬ slot.Got j
  stamped : slot.updatedAtMs ≤ u64Max

theorem slotDiscipline_new (log : List MessageFragment) : SlotDiscipline .new log where
  blank _ := rfl
  collected h := by cases h
  waiting h := by cases h
  stamped := Nat.zero_le _

/-- What a slot makes of a fragment that lies in its message. -/
inductive SlotOutcome (slot : ReassemblySlot) (log : List MessageFragment) (f : MessageFragment)
    (nowMs : Nat) : Prop
  | refused (e : Error) : slot.expectedLen ≠ f.messageLen →
      slot.observe f nowMs = (slot, .error e) → SlotOutcome slot log f nowMs
  | delivered (message : MessageEvent) : Assembled message (log ++ [f]) →
      slot.observe f nowMs = (.new, .ok (some message)) → SlotOutcome slot log f nowMs
  | taken (slot' : ReassemblySlot) : SlotDiscipline slot' (log ++ [f]) →
      slot'.active = true ∧ slot'.key = slot.key →
      slot.observe f nowMs = (slot', .ok none) → SlotOutcome slot log f nowMs

theorem slotOutcome {slot : ReassemblySlot} {log : List MessageFragment} {f : MessageFragment}
    {nowMs : Nat} (h : ExplainedBy slot log) (hactive : slot.active = true)
    (hfits : f.fragmentOffset + f.bytes.length ≤ f.messageLen)
    (hlen : f.messageLen ≤ maxMessageBytes) (hnow : nowMs ≤ u64Max) :
    SlotOutcome slot log f nowMs := by
  have hobs := slot.observed f nowMs
  generalize hresult : slot.observe f nowMs = result at hobs
  cases hobs with
  | refused e hwhy =>
    refine .refused e ?_ hresult
    intro hsame
    rw [hsame] at hwhy
    omega
  | completed slot' hsame hw hcomplete =>
    exact .delivered _ ((h.snoc hw (by omega)).assembled hcomplete) hresult
  | partly slot' hsame hw hcomplete =>
    have hcollected := h.snoc hw (by omega)
    have hactive' : slot'.active = true := hw.active.trans hactive
    refine .taken slot' ⟨?_, fun _ => hcollected, ?_, ?_⟩
      ⟨hactive', hw.key⟩ hresult
    · intro hidle
      rw [hactive'] at hidle
      cases hidle
    · intro _
      -- not complete, although it took a fragment: a byte is missing
      have hmissing := mt (hcollected.isComplete_iff (by simp)).mpr (by simp [hcomplete])
      obtain ⟨j, hj⟩ := not_forall.mp hmissing
      exact ⟨j, Classical.not_imp.mp hj⟩
    · rw [hw.updatedAtMs]
      exact hnow

/-! ## The whole table -/

/-- What holds of the table between two calls. -/
structure ReassemblyState.Disciplined (r : ReassemblyState) : Prop where
  distinct : r.KeysDistinct
  blank : ∀ slot ∈ r.slots, slot.active = false → slot = .new
  waiting : ∀ slot ∈ r.slots, slot.active = true → ∃ j < slot.expectedLen, ¬ slot.Got j

namespace Recorded
variable {s : Recorded} {fragment : MessageFragment} {nowMs : Nat}

/-- The same, with every slot explained by its log. -/
structure Disciplined (s : Recorded) : Prop where
  distinct : s.table.KeysDistinct
  slot : ∀ i slot, s.table.slots[i]? = some slot → SlotDiscipline slot (s.log i)

theorem Disciplined.table (h : s.Disciplined) : s.table.Disciplined where
  distinct := h.distinct
  blank slot hmem := by
    obtain ⟨i, hi⟩ := List.mem_iff_getElem?.mp hmem
    exact (h.slot i slot hi).blank
  waiting slot hmem := by
    obtain ⟨i, hi⟩ := List.mem_iff_getElem?.mp hmem
    exact (h.slot i slot hi).waiting

theorem Disciplined.stamped (h : s.Disciplined) :
    ∀ slot ∈ s.table.slots, slot.updatedAtMs ≤ u64Max := by
  intro slot hmem
  obtain ⟨i, hi⟩ := List.mem_iff_getElem?.mp hmem
  exact (h.slot i slot hi).stamped

theorem disciplined_new : new.Disciplined where
  distinct := ReassemblyState.keysDistinct_new
  slot i slot hi := by
    have hmem : slot ∈ List.replicate maxReassemblyMessages ReassemblySlot.new :=
      List.mem_of_getElem? hi
    rw [List.eq_of_mem_replicate hmem]
    exact slotDiscipline_new _

theorem index_of_handedTo {r : ReassemblyState} {i : Nat} {old slot : ReassemblySlot}
    (h : r.HandedTo fragment nowMs i old slot) : i = r.slotIndex fragment := by
  cases h with
  | own hfind => rw [ReassemblyState.slotIndex, hfind, Option.getD_some]
  | started hfind => rw [ReassemblyState.slotIndex, hfind, Option.getD_none]

/-- The slot a fragment is handed to is explained by the log up to the fragment. -/
theorem Disciplined.collected (h : s.Disciplined) (hlen : fragment.messageLen ≤ maxMessageBytes)
    {i : Nat} {old slot : ReassemblySlot} (hto : s.table.HandedTo fragment nowMs i old slot) :
    slot.active = true ∧ ExplainedBy slot (s.logBefore fragment) := by
  have hindex := index_of_handedTo hto
  rw [logBefore, ← hindex]
  cases hto with
  | own hfind hat hholds =>
    rw [hfind, if_pos (Option.isSome_some)]
    exact ⟨hholds.active, (h.slot i old hat).collected hholds.active⟩
  | started hfind =>
    rw [hfind, if_neg (by simp)]
    exact ⟨rfl, .start _ hlen _⟩

/-- **What observing a fragment does to a disciplined table**, at the one slot it is handed to. -/
theorem Disciplined.observe_cases (h : s.Disciplined)
    (hfits : fragment.fragmentOffset + fragment.bytes.length ≤ fragment.messageLen)
    (hlen : fragment.messageLen ≤ maxMessageBytes) (hnow : nowMs ≤ u64Max) :
    ∃ i old slot, s.table.HandedTo fragment nowMs i old slot ∧
      s.table.Replaced i old (slot.observe fragment nowMs).1 (s.table.observe fragment nowMs).1 ∧
      (s.table.observe fragment nowMs).2 = (slot.observe fragment nowMs).2 ∧
      SlotOutcome slot (s.logBefore fragment) fragment nowMs := by
  obtain ⟨i, old, slot, hto, hreplaced, hresult⟩ :=
    ReassemblyState.observe_target (r := s.table) hlen nowMs
  obtain ⟨hactive, hcollected⟩ := h.collected hlen hto
  exact ⟨i, old, slot, hto, hreplaced, hresult, slotOutcome hcollected hactive hfits hlen hnow⟩

theorem logAfter_of_error {e : Error} (h : (s.table.observe fragment nowMs).2 = .error e) :
    s.logAfter fragment nowMs = s.log := by
  rw [logAfter, h]

theorem logAfter_of_ok {m : Option MessageEvent} (h : (s.table.observe fragment nowMs).2 = .ok m) :
    s.logAfter fragment nowMs = Function.update s.log (s.table.slotIndex fragment)
      (s.logBefore fragment ++ [fragment]) := by
  rw [logAfter, h]

/-- One slot is replaced and its log extended. -/
theorem Disciplined.replaced (h : s.Disciplined) {r' : ReassemblyState} {i : Nat}
    {old slot' : ReassemblySlot} {log' : List MessageFragment}
    (hreplaced : s.table.Replaced i old slot' r') (hdistinct : r'.KeysDistinct)
    (hslot : SlotDiscipline slot' log') : Disciplined ⟨r', Function.update s.log i log'⟩ where
  distinct := hdistinct
  slot j slot hj := by
    have hj' : r'.slots[j]? = some slot := hj
    rw [hreplaced.getElem?] at hj'
    by_cases hij : i = j
    · rw [if_pos hij] at hj'
      obtain rfl := Option.some.inj hj'
      subst hij
      show SlotDiscipline slot' (Function.update s.log i log' i)
      rw [Function.update_self]
      exact hslot
    · rw [if_neg hij] at hj'
      show SlotDiscipline slot (Function.update s.log i log' j)
      rw [Function.update_of_ne (Ne.symm hij)]
      exact h.slot j slot hj'

theorem Disciplined.observe (h : s.Disciplined)
    (hfits : fragment.fragmentOffset + fragment.bytes.length ≤ fragment.messageLen)
    (hnow : nowMs ≤ u64Max) :
    Disciplined ⟨(s.table.observe fragment nowMs).1, s.logAfter fragment nowMs⟩ := by
  have hdistinct := ReassemblyState.keysDistinct_observe h.distinct fragment nowMs
  by_cases hlen : fragment.messageLen ≤ maxMessageBytes
  · obtain ⟨i, old, slot, hto, hreplaced, hresult, hstep⟩ := h.observe_cases hfits hlen hnow
    have hindex := index_of_handedTo hto
    cases hstep with
    | refused e hdiffers hobs =>
      rw [hobs] at hresult
      -- a slot of another length: table and logs stay as they were
      obtain ⟨hsame, -⟩ := ReassemblyState.observe_refused hresult hfits
      rw [logAfter_of_error hresult, hsame]
      exact h
    | delivered message _ hobs =>
      rw [hobs] at hreplaced hresult
      rw [logAfter_of_ok hresult, ← hindex]
      exact h.replaced hreplaced hdistinct (slotDiscipline_new _)
    | taken slot' hslot _ hobs =>
      rw [hobs] at hreplaced hresult
      rw [logAfter_of_ok hresult, ← hindex]
      exact h.replaced hreplaced hdistinct hslot
  · have hsame := ReassemblyState.observe_oversized (r := s.table) (Nat.not_le.mp hlen) nowMs
    rw [logAfter_of_error (congrArg Prod.snd hsame), hsame]
    exact h

theorem Disciplined.expire (h : s.Disciplined) (nowMs timeoutMs : Nat) :
    Disciplined ⟨s.table.expire nowMs timeoutMs, s.log⟩ where
  distinct := ReassemblyState.keysDistinct_expire h.distinct nowMs timeoutMs
  slot i slot hi := by
    have hi' : (s.table.slots.map _)[i]? = some slot := hi
    rw [List.getElem?_map] at hi'
    obtain ⟨before, hbefore, heq⟩ := Option.map_eq_some_iff.mp hi'
    split at heq
    · rw [← heq]
      exact slotDiscipline_new _
    · rw [← heq]
      exact h.slot i before hbefore

theorem toNat_le_u64Max (t : UInt64) : t.toNat ≤ u64Max := by
  have := t.toNat_lt
  unfold u64Max
  omega

/-- **Every reachable table is disciplined.** -/
theorem disciplined_run (ops : List ReassemblyOp) : (automaton.run new ops).Disciplined := by
  apply Automaton.invariant_run _ disciplined_new
  intro s op h
  cases op with
  | observe fragment nowMs => exact h.observe fragment.2 (toNat_le_u64Max nowMs)
  | expire nowMs timeoutMs => exact h.expire nowMs.toNat timeoutMs.toNat

end Recorded

/-! ## The slot that is touched -/

namespace ReassemblyState
variable {r : ReassemblyState} {fragment : MessageFragment} {nowMs : Nat}

/-- The slot given up when every slot is in use was updated longest ago. -/
theorem oldestSlot_min (hstamped : ∀ slot ∈ r.slots, slot.updatedAtMs ≤ u64Max)
    {old : ReassemblySlot} (hold : r.slots[r.oldestSlot]? = some old) :
    ∀ slot ∈ r.slots, old.updatedAtMs ≤ slot.updatedAtMs := by
  obtain ⟨hfrom, -, hall⟩ := foldl_olderSlot r.slots.zipIdx (0, u64Max)
  have hbest : old.updatedAtMs ≤ (r.slots.zipIdx.foldl olderSlot (0, u64Max)).2 := by
    rcases hfrom with hnone | ⟨e, he, heq⟩
    · rw [hnone]
      exact hstamped old (List.mem_of_getElem? hold)
    · rw [oldestSlot, heq, List.mem_zipIdx_iff_getElem?.mp he] at hold
      rw [heq]
      exact Nat.le_of_eq (congrArg ReassemblySlot.updatedAtMs (Option.some.inj hold).symm)
  intro slot hslot
  obtain ⟨i, hi⟩ := List.mem_iff_getElem?.mp hslot
  exact Nat.le_trans hbest (hall (slot, i) (List.mem_zipIdx_iff_getElem?.mpr hi))

/-- Every slot is in use, none for the fragment's message, and `old` was updated longest ago. -/
structure Evictable (r : ReassemblyState) (fragment : MessageFragment) (old : ReassemblySlot) :
    Prop where
  full : ∀ slot ∈ r.slots, slot.active = true
  fresh : ∀ slot ∈ r.slots, slot.key ≠ fragment.messageKey
  oldest : ∀ slot ∈ r.slots, old.updatedAtMs ≤ slot.updatedAtMs

/-- Observing a fragment changes at most one slot: that of the fragment's message, one that was free
and is now the fragment's, or one that is evicted for it. -/
structure TouchesOne (r : ReassemblyState) (fragment : MessageFragment) (nowMs : Nat) : Prop where
  one : ∀ i j : Nat, (r.observe fragment nowMs).1.slots[i]? ≠ r.slots[i]? →
    (r.observe fragment nowMs).1.slots[j]? ≠ r.slots[j]? → i = j
  which : ∀ (i : Nat) old, r.slots[i]? = some old → (r.observe fragment nowMs).1.slots[i]? ≠ some old →
    Holds r fragment.messageKey old ∨
    (old.active = false ∧ ∃ slot, (r.observe fragment nowMs).1.slots[i]? = some slot ∧
      Holds (r.observe fragment nowMs).1 fragment.messageKey slot) ∨
    Evictable r fragment old

/-- A new message takes a slot that is free, or the oldest one. -/
theorem victim_cases (hstamped : ∀ slot ∈ r.slots, slot.updatedAtMs ≤ u64Max)
    {old : ReassemblySlot} (hold : r.slots[r.victim]? = some old)
    (hfresh : ∀ slot, ¬ Holds r fragment.messageKey slot) :
    old.active = false ∨ Evictable r fragment old := by
  by_cases hactive : old.active = true
  · obtain ⟨old', hold', hfull⟩ := r.victim_spec
    obtain rfl := Option.some.inj (hold'.symm.trans hold)
    have hall : ∀ slot ∈ r.slots, slot.active = true := List.all_eq_true.mp (hfull hactive)
    have hnone : r.slots.findIdx? (fun slot => !slot.active) = none := by
      rw [List.findIdx?_eq_none_iff]
      intro slot hslot
      rw [hall slot hslot]
      rfl
    rw [victim, hnone, Option.getD_none] at hold
    exact .inr ⟨hall, fun slot hslot hkey => hfresh slot ⟨hslot, hall slot hslot, hkey⟩,
      oldestSlot_min hstamped hold⟩
  · exact .inl (Bool.eq_false_iff.mpr hactive)

end ReassemblyState

namespace Recorded
variable {s : Recorded} {fragment : MessageFragment} {nowMs : Nat}

theorem Disciplined.touchesOne (h : s.Disciplined)
    (hfits : fragment.fragmentOffset + fragment.bytes.length ≤ fragment.messageLen)
    (hnow : nowMs ≤ u64Max) : s.table.TouchesOne fragment nowMs := by
  by_cases hlen : fragment.messageLen ≤ maxMessageBytes
  · obtain ⟨i, old, slot, hto, hreplaced, hresult, hstep⟩ := h.observe_cases hfits hlen hnow
    have hat : ∀ j, (s.table.observe fragment nowMs).1.slots[j]? ≠ s.table.slots[j]? → i = j := by
      intro j hj
      rw [hreplaced.getElem?] at hj
      by_contra hne
      exact hj (if_neg hne)
    refine ⟨fun j k hj hk => (hat j hj).symm.trans (hat k hk), ?_⟩
    intro j old' hold' hchanged
    obtain rfl := hat j (by rwa [hold'])
    obtain rfl := Option.some.inj (hold'.symm.trans hreplaced.old_eq)
    have hnow' := hreplaced.getElem? i
    rw [if_pos rfl] at hnow'
    cases hto with
    | own _ _ hholds => exact .inl hholds
    | started hfind hold =>
      rcases ReassemblyState.victim_cases h.stamped hold
        (ReassemblyState.findSlot_eq_none hfind) with hfree | hevicted
      · refine .inr (.inl ⟨hfree, ?_⟩)
        cases hstep with
        | refused e hdiffers => exact absurd rfl hdiffers
        | delivered message _ hobs =>
          -- a message that is complete at once leaves the slot as blank as it was
          rw [hobs, ← (h.slot _ old' hold).blank hfree] at hnow'
          exact absurd hnow' hchanged
        | taken slot' _ hslot hobs =>
          rw [hobs] at hnow'
          exact ⟨slot', hnow', List.mem_of_getElem? hnow', hslot.1, hslot.2⟩
      · exact .inr (.inr hevicted)
  · have hsame := ReassemblyState.observe_oversized (r := s.table) (Nat.not_le.mp hlen) nowMs
    refine ⟨?_, ?_⟩
    · intro i j hi
      rw [hsame] at hi
      exact absurd rfl hi
    · intro i old hold hchanged
      rw [hsame] at hchanged
      exact absurd hold hchanged

theorem Disciplined.assembled (h : s.Disciplined)
    (hfits : fragment.fragmentOffset + fragment.bytes.length ≤ fragment.messageLen)
    (hnow : nowMs ≤ u64Max) {message : MessageEvent}
    (hsome : (s.table.observe fragment nowMs).2 = .ok (some message)) :
    Assembled message (s.logAfter fragment nowMs (s.table.slotIndex fragment)) := by
  rw [logAfter_of_ok hsome, Function.update_self]
  by_cases hlen : fragment.messageLen ≤ maxMessageBytes
  · obtain ⟨i, old, slot, hto, hreplaced, hresult, hstep⟩ := h.observe_cases hfits hlen hnow
    rw [hresult] at hsome
    cases hstep with
    | refused e _ hobs =>
      rw [hobs] at hsome
      cases hsome
    | delivered message' hassembled hobs =>
      rw [hobs] at hsome
      obtain rfl := Option.some.inj (Except.ok.inj hsome)
      exact hassembled
    | taken slot' _ _ hobs =>
      rw [hobs] at hsome
      cases hsome
  · rw [ReassemblyState.observe_oversized (Nat.not_le.mp hlen)] at hsome
    cases hsome

end Recorded

/-- **The reassembly table keeps its discipline.**  After every sequence of fragments and expiries,
at whatever times: active slots have distinct keys, inactive ones are blank and every active one
waits for a byte; the next fragment changes one slot at most, its own or, when all four are in use
and its message is new, one of those updated longest ago; and a message it completes is what the
fragments taken since the slot was started make of it, the last one that covers a byte deciding it,
with zeros behind. -/
theorem reassembly_table_discipline (ops : List ReassemblyOp) :
    (Recorded.automaton.run .new ops).table = ReassemblyState.automaton.run .new ops ∧
    (ReassemblyState.automaton.run .new ops).Disciplined ∧
    ∀ (fragment : FittingFragment) (nowMs : UInt64),
      (ReassemblyState.automaton.run .new ops).TouchesOne fragment.1 nowMs.toNat ∧
      ∀ message, ((ReassemblyState.automaton.run .new ops).observe fragment.1 nowMs.toNat).2 =
          .ok (some message) →
        Assembled message ((Recorded.automaton.run .new ops).logAfter fragment.1 nowMs.toNat
          ((ReassemblyState.automaton.run .new ops).slotIndex fragment.1)) := by
  have htable : (Recorded.automaton.run .new ops).table = ReassemblyState.automaton.run .new ops :=
    Recorded.refines.run .new ops
  have h := Recorded.disciplined_run ops
  rw [← htable]
  refine ⟨rfl, h.table, fun fragment nowMs => ⟨?_, ?_⟩⟩
  · exact h.touchesOne fragment.2 (Recorded.toNat_le_u64Max nowMs)
  · intro message hsome
    exact h.assembled fragment.2 (Recorded.toNat_le_u64Max nowMs) hsome

end Msrt
