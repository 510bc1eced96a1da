import Msrt.Checked
import Msrt.RingQueue

/-! # Ring queues in memory

A ring queue as a program stores it: an array of optional cells, a head and a length, with nothing
that ties them together.  Its operations compute their positions with checked arithmetic and check
every access.  `RingQueue.layout` is the array a `RingQueue` is stored in, with its entries written
down by `f`; on such an array every operation succeeds and leaves the layout of what the queue
operation leaves (`pushBack_layout`, `pop_layout`, `overwriteOldest_layout`, `layout_setAt`).
-/

/-- The memory of a ring queue. -/
structure RingArray (α : Type) where
  cells : List (Option α)
  head : Nat
  len : Nat

namespace RingArray
open Checked
variable {t : Target} {α : Type}

/-- An array of `capacity` empty cells. -/
def empty (capacity : Nat) : RingArray α := ⟨List.replicate capacity none, 0, 0⟩

/-- The position of the cell `offset` cells behind the head. -/
def physicalIndex (capacity : Nat) (r : RingArray α) (offset : Nat) : Checked t Nat := do
  rem (← add r.head offset) capacity

/-- The entries in the cells that are in use, from the head on. -/
def contents (capacity : Nat) (r : RingArray α) : List α :=
  (List.range r.len).filterMap fun offset => r.cells[(r.head + offset) % capacity]?.join

/-- Writes the first free cell. -/
def pushBack (capacity : Nat) (r : RingArray α) (x : α) : Checked t (RingArray α) := do
  let i ← r.physicalIndex capacity r.len
  let cells ← set r.cells i (some x)
  let len ← add r.len 1
  return { r with cells, len }

/-- Takes the cell at the head, if there is one. -/
def pop (capacity : Nat) (r : RingArray α) : Checked t (Option α × RingArray α) := do
  if r.len = 0 then
    return (none, r)
  else
    let x ← index r.cells r.head
    let cells ← set r.cells r.head none
    let head ← rem (← add r.head 1) capacity
    let len ← sub r.len 1
    return (x, ⟨cells, head, len⟩)

/-- Replaces the oldest entry of a full ring. -/
def overwriteOldest (capacity : Nat) (r : RingArray α) (x : α) : Checked t (RingArray α) := do
  let cells ← set r.cells r.head (some x)
  let head ← rem (← add r.head 1) capacity
  return { r with cells, head }

end RingArray

namespace RingQueue
open Checked
variable {t : Target} {α β : Type} {capacity : Nat}

/-- The memory of a queue whose entries are stored as `f` writes them down. -/
def layout (f : α → β) (q : RingQueue α capacity) : RingArray β :=
  ⟨q.slots.map (Option.map f), q.head, q.len⟩

@[simp] theorem layout_head (f : α → β) (q : RingQueue α capacity) : (q.layout f).head = q.head :=
  rfl

@[simp] theorem layout_len (f : α → β) (q : RingQueue α capacity) : (q.layout f).len = q.len := rfl

@[simp] theorem length_layout_cells (f : α → β) (q : RingQueue α capacity) :
    (q.layout f).cells.length = capacity := by
  rw [layout, List.length_map, q.slots_length]

theorem empty_layout (f : α → β) (h : 0 < capacity) :
    (empty h : RingQueue α capacity).layout f = RingArray.empty capacity := by
  simp [layout, empty, RingArray.empty]

/-- The cell of a position inside of the array. -/
theorem layout_cell (f : α → β) (q : RingQueue α capacity) {i : Nat} (h : i < capacity) :
    (q.layout f).cells[i]? = some ((q.cell i).map f) := by
  have hi : i < q.slots.length := by rw [q.slots_length]; exact h
  rw [layout, List.getElem?_map, cell, List.getElem?_eq_getElem hi]
  rfl

theorem contents_layout (f : α → β) (q : RingQueue α capacity) :
    (q.layout f).contents capacity = q.toList.map f := by
  rw [RingArray.contents, toList, List.map_filterMap]
  apply List.filterMap_congr
  intro offset _
  rw [layout_head, q.layout_cell f (Nat.mod_lt _ q.capacity_pos)]
  rfl

/-- The entry at an offset. -/
theorem index_layout (f : α → β) (q : RingQueue α capacity) (offset : Nat) :
    (index (q.layout f).cells (q.physicalIndex offset) : Checked t (Option β)) =
      pure ((q.entry offset).map f) :=
  index_eq (q.layout_cell f (Nat.mod_lt _ q.capacity_pos))

section
variable (f : α → β) (q : RingQueue α capacity) (hcap : capacity ≤ 32767)
include hcap

theorem physicalIndex_layout {offset : Nat} (h : offset ≤ capacity) :
    ((q.layout f).physicalIndex capacity offset : Checked t Nat) = pure (q.physicalIndex offset) := by
  have hhead := q.head_lt
  unfold RingArray.physicalIndex
  rw [layout_head, add_small (by omega), pure_bind, rem_eq q.capacity_pos]
  rfl

theorem pushBack_layout (x : α) (h : q.len < capacity) :
    ((q.layout f).pushBack capacity (f x) : Checked t (RingArray β)) =
      pure ((q.pushBack x h).layout f) := by
  have hi : q.physicalIndex q.len < (q.layout f).cells.length := by
    rw [length_layout_cells]
    exact Nat.mod_lt _ q.capacity_pos
  unfold RingArray.pushBack
  rw [layout_len, q.physicalIndex_layout f hcap (Nat.le_of_lt h), pure_bind, set_eq hi, pure_bind,
    add_small (by omega), pure_bind]
  simp only [layout, pushBack, List.map_set, Option.map_some]

theorem pop_layout :
    ((q.layout f).pop capacity : Checked t (Option β × RingArray β)) =
      pure (q.pop.1.map f, q.pop.2.layout f) := by
  have hhead := q.head_lt
  unfold RingArray.pop
  by_cases h : q.len = 0
  · rw [layout_len, if_pos h, q.pop_of_len_zero h]
    rfl
  · rw [layout_len, if_neg h, layout_head, index_eq (q.layout_cell f q.head_lt), pure_bind,
      set_eq (by rw [length_layout_cells]; exact q.head_lt), pure_bind, add_small (by omega),
      pure_bind, rem_eq q.capacity_pos, pure_bind, sub_eq (by omega), pure_bind]
    unfold RingQueue.pop
    rw [dif_neg h]
    simp only [layout, List.map_set, Option.map_none]

theorem overwriteOldest_layout (x : α) (h : q.len = capacity) :
    ((q.layout f).overwriteOldest capacity (f x) : Checked t (RingArray β)) =
      pure ((q.overwriteOldest x h).layout f) := by
  have hhead := q.head_lt
  unfold RingArray.overwriteOldest
  rw [layout_head, set_eq (by rw [length_layout_cells]; exact q.head_lt), pure_bind,
    add_small (by omega), pure_bind, rem_eq q.capacity_pos, pure_bind]
  simp only [layout, overwriteOldest, List.map_set, Option.map_some]

end

/-- The memory after an entry has been replaced. -/
theorem layout_setAt (f : α → β) (q : RingQueue α capacity) {offset : Nat} (h : offset < q.len)
    (x : α) :
    (q.setAt offset x).layout f =
      ⟨(q.layout f).cells.set (q.physicalIndex offset) (some (f x)), q.head, q.len⟩ := by
  unfold setAt
  rw [dif_pos h]
  simp only [layout, List.map_set, Option.map_some]

/-- Writing the cell of an entry. -/
theorem set_layout (f : α → β) (q : RingQueue α capacity) (offset : Nat) (y : β) :
    (set (q.layout f).cells (q.physicalIndex offset) (some y) : Checked t _) =
      pure ((q.layout f).cells.set (q.physicalIndex offset) (some y)) :=
  set_eq (by rw [length_layout_cells]; exact Nat.mod_lt _ q.capacity_pos)

end RingQueue
