import Mathlib.Data.List.Basic

/-! # Bounded ring queues

A fixed array of optional cells read from a moving `head`: the usual allocation-free queue.
The entry at `offset` sits at the physical position `(head + offset) % capacity`, and the first
`len` offsets are the occupied ones.  That relation is a field of the structure, so a queue
whose count and cells disagree cannot be built.

`toList` is the queue's meaning.  Every operation has one lemma that says what it does to that
list (`toList_pushBack`, `toList_pop`, `toList_overwriteOldest`, `toList_setAt`), and a client
reasons with these alone.
-/

universe u

/-- A ring of `capacity` optional cells, of which the `len` cells from `head` on are occupied. -/
structure RingQueue (α : Type u) (capacity : Nat) where
  slots : List (Option α)
  head : Nat
  len : Nat
  slots_length : slots.length = capacity
  head_lt : head < capacity
  len_le : len ≤ capacity
  occupied : ∀ offset, offset < capacity →
    (slots[(head + offset) % capacity]?.join.isSome ↔ offset < len)

namespace RingQueue
variable {α : Type u} {capacity : Nat}

/-! ## Circular positions -/

/-- A position one lap ahead wraps around once. -/
theorem position_eq {head i n : Nat} (hh : head < n) (hi : i ≤ n) :
    (head + i) % n = if head + i < n then head + i else head + i - n := by
  split
  · exact Nat.mod_eq_of_lt ‹_›
  · rw [Nat.mod_eq_sub_mod (by omega), Nat.mod_eq_of_lt (by omega)]

/-- Distinct offsets below the capacity have distinct physical positions. -/
theorem position_inj {head i j n : Nat} (hh : head < n) (hi : i < n) (hj : j < n)
    (h : (head + i) % n = (head + j) % n) : i = j := by
  rw [position_eq hh (Nat.le_of_lt hi), position_eq hh (Nat.le_of_lt hj)] at h
  split at h <;> split at h <;> omega

/-- Offset `i` from the next head is offset `i + 1` from the head. -/
theorem position_succ (head i n : Nat) : ((head + 1) % n + i) % n = (head + (i + 1)) % n := by
  rw [Nat.mod_add_mod, Nat.add_assoc, Nat.add_comm 1 i]

theorem join_set {l : List (Option α)} {i : Nat} (hi : i < l.length) (j : Nat) (v : Option α) :
    (l.set i v)[j]?.join = if i = j then v else l[j]?.join := by
  rw [List.getElem?_set]
  by_cases h : i = j
  · rw [if_pos h, if_pos h, if_pos hi]
    rfl
  · rw [if_neg h, if_neg h]

/-! ## The queue as a list -/

/-- The cell at a physical position. -/
def cell (q : RingQueue α capacity) (index : Nat) : Option α := q.slots[index]?.join

/-- The physical position of the entry at `offset`. -/
def physicalIndex (q : RingQueue α capacity) (offset : Nat) : Nat :=
  (q.head + offset) % capacity

/-- The cell at `offset` from the head. -/
def entry (q : RingQueue α capacity) (offset : Nat) : Option α := q.cell (q.physicalIndex offset)

/-- The queued entries, oldest first. -/
def toList (q : RingQueue α capacity) : List α := (List.range q.len).filterMap q.entry

theorem capacity_pos (q : RingQueue α capacity) : 0 < capacity :=
  Nat.lt_of_le_of_lt (Nat.zero_le _) q.head_lt

theorem physicalIndex_lt (q : RingQueue α capacity) (offset : Nat) :
    q.physicalIndex offset < q.slots.length := by
  rw [q.slots_length]
  exact Nat.mod_lt _ q.capacity_pos

theorem entry_isSome (q : RingQueue α capacity) {offset : Nat} (h : offset < q.len) :
    (q.entry offset).isSome :=
  (q.occupied offset (Nat.lt_of_lt_of_le h q.len_le)).mpr h

/-- Every offset below `len` is occupied, so the list view drops nothing. -/
theorem map_some_toList (q : RingQueue α capacity) :
    q.toList.map some = (List.range q.len).map q.entry := by
  have key : ∀ l : List Nat, (∀ o ∈ l, o < q.len) →
      (l.filterMap q.entry).map some = l.map q.entry := by
    intro l
    induction l with
    | nil => intro _; rfl
    | cons o l ih =>
      intro h
      obtain ⟨x, hx⟩ := Option.isSome_iff_exists.mp (q.entry_isSome (h o List.mem_cons_self))
      rw [List.filterMap_cons_some hx, List.map_cons, List.map_cons, hx,
        ih (fun o' ho' => h o' (List.mem_cons_of_mem o ho'))]
  exact key _ (fun o ho => List.mem_range.mp ho)

/-- Two list views agree when their cells do. -/
theorem toList_eq_of_entries {q : RingQueue α capacity} {l : List α}
    (h : (List.range q.len).map q.entry = l.map some) : q.toList = l := by
  have hm : q.toList.map some = l.map some := q.map_some_toList.trans h
  exact List.map_injective_iff.mpr (fun _ _ he => Option.some.inj he) hm

@[simp] theorem length_toList (q : RingQueue α capacity) : q.toList.length = q.len := by
  have h := congrArg List.length q.map_some_toList
  simpa using h

theorem getElem?_toList (q : RingQueue α capacity) {offset : Nat} (h : offset < q.len) :
    q.toList[offset]? = q.entry offset := by
  have hm := congrArg (fun l => l[offset]?) q.map_some_toList
  simp only [List.getElem?_map, List.getElem?_range h, Option.map_some] at hm
  obtain ⟨x, hx⟩ := Option.isSome_iff_exists.mp (q.entry_isSome h)
  rw [hx] at hm ⊢
  cases hl : q.toList[offset]? with
  | none => rw [hl] at hm; cases hm
  | some y => rw [hl] at hm; simpa using hm

theorem toList_eq_nil_iff (q : RingQueue α capacity) : q.toList = [] ↔ q.len = 0 := by
  rw [← List.length_eq_zero_iff, length_toList]

/-! ## Operations -/

/-- The empty ring. -/
def empty (h : 0 < capacity) : RingQueue α capacity where
  slots := List.replicate capacity none
  head := 0
  len := 0
  slots_length := List.length_replicate
  head_lt := h
  len_le := Nat.zero_le _
  occupied offset ho := by
    rw [List.getElem?_replicate]
    split <;> simp

/-- Writes the first free cell. -/
def pushBack (q : RingQueue α capacity) (x : α) (h : q.len < capacity) : RingQueue α capacity where
  slots := q.slots.set (q.physicalIndex q.len) (some x)
  head := q.head
  len := q.len + 1
  slots_length := by rw [List.length_set, q.slots_length]
  head_lt := q.head_lt
  len_le := h
  occupied offset ho := by
    rw [join_set (q.physicalIndex_lt _)]
    split
    · rename_i he
      have := position_inj q.head_lt h ho he
      simp only [Option.isSome_some, true_iff]
      omega
    · rename_i hne
      rw [q.occupied offset ho]
      have : q.len ≠ offset := fun he => hne (by rw [physicalIndex, he])
      omega

/-- Takes the entry at the head, if any. -/
def pop (q : RingQueue α capacity) : Option α × RingQueue α capacity :=
  if h : q.len = 0 then (none, q)
  else (q.cell q.head,
    { slots := q.slots.set q.head none
      head := (q.head + 1) % capacity
      len := q.len - 1
      slots_length := by rw [List.length_set, q.slots_length]
      head_lt := Nat.mod_lt _ q.capacity_pos
      len_le := Nat.le_trans (Nat.sub_le _ _) q.len_le
      occupied := by
        intro offset ho
        have hhead : q.head = (q.head + 0) % capacity := (Nat.mod_eq_of_lt q.head_lt).symm
        rw [join_set (by rw [q.slots_length]; exact q.head_lt), position_succ]
        split
        · rename_i he
          -- the freed cell is the last offset of the new head
          have hz : offset + 1 = capacity := by
            rcases Nat.lt_or_ge (offset + 1) capacity with hlt | hge
            · have := position_inj q.head_lt q.capacity_pos hlt (hhead.symm.trans he)
              omega
            · omega
          have := q.len_le
          simp only [Option.isSome_none, Bool.false_eq_true, false_iff]
          omega
        · rename_i hne
          have hlt : offset + 1 < capacity := by
            rcases Nat.lt_or_ge (offset + 1) capacity with hlt | hge
            · exact hlt
            · refine absurd ?_ hne
              have : offset + 1 = capacity := by omega
              rw [this, Nat.add_mod_right]
              exact (Nat.mod_eq_of_lt q.head_lt).symm
          rw [q.occupied (offset + 1) hlt]
          omega })

/-- On a full ring, replaces the oldest entry and makes the next one the oldest. -/
def overwriteOldest (q : RingQueue α capacity) (x : α) (h : q.len = capacity) :
    RingQueue α capacity where
  slots := q.slots.set q.head (some x)
  head := (q.head + 1) % capacity
  len := q.len
  slots_length := by rw [List.length_set, q.slots_length]
  head_lt := Nat.mod_lt _ q.capacity_pos
  len_le := q.len_le
  occupied offset ho := by
    rw [join_set (by rw [q.slots_length]; exact q.head_lt), h]
    simp only [ho, iff_true]
    split
    · rfl
    · rw [Nat.mod_add_mod, Nat.add_assoc]
      have hpos := Nat.mod_lt (1 + offset) q.capacity_pos
      have := (q.occupied ((1 + offset) % capacity) hpos).mpr (by rw [h]; exact hpos)
      rwa [Nat.add_mod_mod] at this

/-- Replaces the entry at `offset`, if it is occupied. -/
def setAt (q : RingQueue α capacity) (offset : Nat) (x : α) : RingQueue α capacity :=
  if h : offset < q.len then
    { q with
      slots := q.slots.set (q.physicalIndex offset) (some x)
      slots_length := by rw [List.length_set, q.slots_length]
      occupied := by
        intro offset' ho'
        rw [join_set (q.physicalIndex_lt _)]
        split
        · rename_i he
          have := position_inj q.head_lt (Nat.lt_of_lt_of_le h q.len_le) ho' he
          simp only [Option.isSome_some, true_iff]
          omega
        · exact q.occupied offset' ho' }
  else q

/-- Restarts an empty ring at position zero. -/
def rewind (q : RingQueue α capacity) (h : q.len = 0) : RingQueue α capacity where
  slots := q.slots
  head := 0
  len := 0
  slots_length := q.slots_length
  head_lt := q.capacity_pos
  len_le := Nat.zero_le _
  occupied offset ho := by
    have hcell : ∀ i, i < capacity → q.slots[i]?.join.isSome = false := by
      intro i hi
      -- position `i` is the offset that walks from `head` to it
      have hoff := q.occupied ((capacity - q.head + i) % capacity) (Nat.mod_lt _ q.capacity_pos)
      have hpos : (q.head + (capacity - q.head + i) % capacity) % capacity = i := by
        rw [Nat.add_mod_mod, show q.head + (capacity - q.head + i) = i + capacity from by
          have := q.head_lt; omega, Nat.add_mod_right, Nat.mod_eq_of_lt hi]
      rw [hpos, h] at hoff
      exact Bool.eq_false_iff.mpr (fun hs => Nat.not_lt_zero _ (hoff.mp hs))
    rw [Nat.zero_add, Nat.mod_eq_of_lt ho, hcell offset ho]
    simp

/-! ## What the operations do to the list -/

@[simp] theorem toList_empty (h : 0 < capacity) : (empty h : RingQueue α capacity).toList = [] :=
  rfl

@[simp] theorem len_pushBack (q : RingQueue α capacity) (x : α) (h : q.len < capacity) :
    (q.pushBack x h).len = q.len + 1 := rfl

@[simp] theorem toList_pushBack (q : RingQueue α capacity) (x : α) (h : q.len < capacity) :
    (q.pushBack x h).toList = q.toList ++ [x] := by
  have hentry : ∀ o, o < capacity → (q.pushBack x h).entry o = if o = q.len then some x
      else q.entry o := by
    intro o ho
    show (q.slots.set (q.physicalIndex q.len) (some x))[q.physicalIndex o]?.join = _
    rw [join_set (q.physicalIndex_lt _)]
    by_cases he : o = q.len
    · rw [if_pos (by rw [he]), if_pos he]
    · have hne : q.physicalIndex q.len ≠ q.physicalIndex o :=
        fun hp => he (position_inj q.head_lt h ho hp).symm
      rw [if_neg hne, if_neg he]
      rfl
  apply toList_eq_of_entries
  rw [len_pushBack, List.range_succ, List.map_append, List.map_append, map_some_toList,
    List.map_singleton, hentry q.len h, if_pos rfl]
  congr 1
  apply List.map_congr_left
  intro o ho
  have ho' := List.mem_range.mp ho
  rw [hentry o (Nat.lt_trans ho' h), if_neg (Nat.ne_of_lt ho')]

theorem pop_of_len_zero (q : RingQueue α capacity) (h : q.len = 0) : q.pop = (none, q) := by
  unfold pop
  rw [dif_pos h]

@[simp] theorem len_pop (q : RingQueue α capacity) : q.pop.2.len = q.len - 1 := by
  unfold pop
  split
  · rename_i h
    rw [h]
  · rfl

/-- **Popping returns the oldest entry.** -/
theorem fst_pop (q : RingQueue α capacity) : q.pop.1 = q.toList.head? := by
  by_cases h : q.len = 0
  · rw [q.pop_of_len_zero h, q.toList_eq_nil_iff.mpr h]
    rfl
  · rw [List.head?_eq_getElem?, q.getElem?_toList (Nat.pos_of_ne_zero h)]
    unfold pop
    rw [dif_neg h]
    show q.cell q.head = q.cell ((q.head + 0) % capacity)
    rw [Nat.add_zero, Nat.mod_eq_of_lt q.head_lt]

/-- **Popping keeps the other entries in order.** -/
theorem toList_pop (q : RingQueue α capacity) : q.pop.2.toList = q.toList.tail := by
  by_cases h : q.len = 0
  · rw [q.pop_of_len_zero h, q.toList_eq_nil_iff.mpr h]
    rfl
  · apply toList_eq_of_entries
    rw [List.map_tail, map_some_toList, len_pop]
    obtain ⟨n, hn⟩ := Nat.exists_eq_succ_of_ne_zero h
    rw [hn, List.range_succ_eq_map, List.map_cons, List.tail_cons, List.map_map]
    apply List.map_congr_left
    intro o ho
    have ho' : o + 1 < q.len := by
      have := List.mem_range.mp ho
      omega
    have hcap : o + 1 < capacity := Nat.lt_of_lt_of_le ho' q.len_le
    unfold pop
    rw [dif_neg h]
    show (q.slots.set q.head none)[((q.head + 1) % capacity + o) % capacity]?.join = _
    rw [join_set (by rw [q.slots_length]; exact q.head_lt), position_succ, if_neg]
    · rfl
    · intro he
      have hhead : (q.head + 0) % capacity = q.head := Nat.mod_eq_of_lt q.head_lt
      have := position_inj q.head_lt q.capacity_pos hcap (hhead.trans he)
      omega

@[simp] theorem toList_overwriteOldest (q : RingQueue α capacity) (x : α) (h : q.len = capacity) :
    (q.overwriteOldest x h).toList = q.toList.tail ++ [x] := by
  apply toList_eq_of_entries
  show (List.range q.len).map _ = _
  obtain ⟨n, hn⟩ := Nat.exists_eq_succ_of_ne_zero (Nat.ne_of_gt (h ▸ q.capacity_pos))
  have hentry : ∀ o, o < capacity → (q.overwriteOldest x h).entry o =
      if o = n then some x else q.entry (o + 1) := by
    intro o ho
    show (q.slots.set q.head (some x))[((q.head + 1) % capacity + o) % capacity]?.join = _
    rw [join_set (by rw [q.slots_length]; exact q.head_lt), position_succ]
    have hhead : (q.head + 0) % capacity = q.head := Nat.mod_eq_of_lt q.head_lt
    by_cases he : o = n
    · rw [if_pos he, if_pos]
      rw [show o + 1 = capacity from by omega, Nat.add_mod_right]
      exact (Nat.mod_eq_of_lt q.head_lt).symm
    · rw [if_neg he, if_neg]
      · rfl
      · intro hp
        have := position_inj q.head_lt q.capacity_pos (by omega) (hhead.trans hp)
        omega
  rw [List.map_append, List.map_tail, map_some_toList, hn, List.range_succ, List.map_append,
    List.map_singleton, hentry n (by omega), if_pos rfl]
  congr 1
  rw [← List.range_succ, List.range_succ_eq_map, List.map_cons, List.tail_cons, List.map_map]
  apply List.map_congr_left
  intro o ho
  have ho' := List.mem_range.mp ho
  rw [hentry o (by omega), if_neg (Nat.ne_of_lt ho')]
  rfl

@[simp] theorem len_setAt (q : RingQueue α capacity) (offset : Nat) (x : α) :
    (q.setAt offset x).len = q.len := by
  unfold setAt
  split <;> rfl

@[simp] theorem toList_setAt (q : RingQueue α capacity) (offset : Nat) (x : α) :
    (q.setAt offset x).toList = q.toList.set offset x := by
  by_cases h : offset < q.len
  · apply List.ext_getElem?
    intro o
    rw [List.getElem?_set, length_toList, if_pos h]
    by_cases ho : o < q.len
    · rw [getElem?_toList _ (show o < (q.setAt offset x).len by rw [len_setAt]; exact ho)]
      unfold setAt
      rw [dif_pos h]
      show (q.slots.set (q.physicalIndex offset) (some x))[q.physicalIndex o]?.join = _
      rw [join_set (q.physicalIndex_lt _)]
      by_cases he : offset = o
      · rw [if_pos he, if_pos (by rw [he])]
      · have hne : q.physicalIndex offset ≠ q.physicalIndex o := fun hp =>
          he (position_inj q.head_lt (Nat.lt_of_lt_of_le h q.len_le)
            (Nat.lt_of_lt_of_le ho q.len_le) hp)
        rw [if_neg he, getElem?_toList _ ho, if_neg hne]
        rfl
    · have hlen : q.toList.length ≤ o := by rw [length_toList]; omega
      have hlen' : (q.setAt offset x).toList.length ≤ o := by
        rw [length_toList, len_setAt]; omega
      rw [List.getElem?_eq_none hlen', List.getElem?_eq_none hlen, if_neg (by omega)]
  · unfold setAt
    rw [dif_neg h, List.set_eq_of_length_le (by rw [length_toList]; omega)]

/-- Searching the offsets for an entry that satisfies `p` is searching the list. -/
theorem find?_entry (q : RingQueue α capacity) (p : α → Bool) :
    (List.range q.len).find? (fun offset => (q.entry offset).any p) = q.toList.findIdx? p := by
  have hany : ∀ offset, offset < q.len → ∀ h : offset < q.toList.length,
      (q.entry offset).any p = p q.toList[offset] := by
    intro offset ho h
    rw [← q.getElem?_toList ho, List.getElem?_eq_getElem h, Option.any_some]
  apply Option.ext
  intro offset
  rw [List.find?_range_eq_some, List.findIdx?_eq_some_iff_getElem, List.mem_range]
  constructor
  · rintro ⟨hp, ho, hbefore⟩
    have h : offset < q.toList.length := by simpa using ho
    refine ⟨h, by rwa [← hany offset ho h], ?_⟩
    intro j hj
    have hfalse := hbefore j hj
    rw [hany j (by omega) (by omega)] at hfalse
    simpa using hfalse
  · rintro ⟨h, hp, hbefore⟩
    have ho : offset < q.len := by simpa using h
    refine ⟨by rwa [hany offset ho h], ho, ?_⟩
    intro j hj
    rw [hany j (by omega) (by omega)]
    simpa using hbefore j hj

@[simp] theorem toList_rewind (q : RingQueue α capacity) (h : q.len = 0) :
    (q.rewind h).toList = [] := rfl

end RingQueue
