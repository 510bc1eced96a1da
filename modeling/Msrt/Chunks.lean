import Mathlib.Data.List.Basic

/-! # Cutting a list into chunks

A list is cut into chunks of `size` entries, the last of which may be shorter; the empty list is
one empty chunk.  Every entry lies in the chunk its position is in (`mem_chunk`), a chunk that holds
the first position of another one is that chunk (`eq_of_start_mem`), and the last chunk ends where
the list ends (`chunk_last`).
-/

universe u

namespace Chunks
variable {α : Type u} {xs : List α} {size i j : Nat}

/-- The number of chunks of a list of `len` entries. -/
def count (len size : Nat) : Nat := if len = 0 then 1 else (len + size - 1) / size

/-- Chunk `i`. -/
def chunk (xs : List α) (size i : Nat) : List α := (xs.drop (i * size)).take size

theorem count_zero (size : Nat) : count 0 size = 1 := if_pos rfl

theorem count_pos (hsize : 0 < size) (len : Nat) : 0 < count len size := by
  unfold count
  split
  · exact Nat.one_pos
  · exact Nat.div_pos (by omega) hsize

theorem length_chunk_le (xs : List α) (size i : Nat) : (chunk xs size i).length ≤ size :=
  List.length_take_le _ _

/-- The chunks of a nonempty list are those that start inside it. -/
theorem start_lt_iff (hsize : 0 < size) {len : Nat} (hlen : len ≠ 0) (i : Nat) :
    i * size < len ↔ i < count len size := by
  unfold count
  rw [if_neg hlen, Nat.lt_iff_add_one_le (m := i), Nat.le_div_iff_mul_le hsize, Nat.add_mul]
  omega

theorem start_le (hsize : 0 < size) {len : Nat} (hi : i < count len size) : i * size ≤ len := by
  by_cases hlen : len = 0
  · rw [hlen, count_zero] at hi
    obtain rfl : i = 0 := by omega
    rw [Nat.zero_mul]
    exact Nat.zero_le len
  · exact Nat.le_of_lt ((start_lt_iff hsize hlen i).mpr hi)

theorem chunk_fits (hsize : 0 < size) (hi : i < count xs.length size) :
    i * size + (chunk xs size i).length ≤ xs.length := by
  have hstart := start_le hsize hi
  rw [chunk, List.length_take, List.length_drop]
  omega

/-- A chunk as a loop over positions cuts it out. -/
theorem drop_take_eq_chunk (xs : List α) (size i : Nat) :
    (xs.take (min (i * size + size) xs.length)).drop (i * size) = chunk xs size i := by
  rw [chunk, List.drop_take]
  rcases Nat.le_total (i * size + size) xs.length with h | h
  · rw [Nat.min_eq_left h, Nat.add_sub_cancel_left]
  · rw [Nat.min_eq_right h, List.take_of_length_le (by simp),
      List.take_of_length_le (by simp; omega)]

/-- An entry of a chunk is the entry of the list at that position. -/
theorem getElem?_chunk (hlo : i * size ≤ j) (hhi : j < i * size + (chunk xs size i).length) :
    (chunk xs size i)[j - i * size]? = xs[j]? := by
  have hlen := length_chunk_le xs size i
  rw [chunk, List.getElem?_take_of_lt (by omega), List.getElem?_drop]
  congr 1
  omega

/-- Every position lies in a chunk. -/
theorem mem_chunk (hsize : 0 < size) (hj : j < xs.length) :
    j / size < count xs.length size ∧ j / size * size ≤ j ∧
      j < j / size * size + (chunk xs size (j / size)).length := by
  have hlo := Nat.div_mul_le_self j size
  have hhi := Nat.lt_div_mul_add hsize (a := j)
  refine ⟨(start_lt_iff hsize (by omega) _).mp (by omega), hlo, ?_⟩
  rw [chunk, List.length_take, List.length_drop]
  omega

/-- The last chunk ends where the list ends, and no other one does. -/
theorem chunk_last (hsize : 0 < size) (hi : i < count xs.length size) :
    i * size + (chunk xs size i).length = xs.length ↔ i + 1 = count xs.length size := by
  by_cases hlen : xs.length = 0
  · rw [hlen, count_zero] at hi ⊢
    obtain rfl : i = 0 := by omega
    rw [chunk, List.length_take, List.length_drop, hlen]
    omega
  · have hstart := (start_lt_iff hsize hlen i).mpr hi
    have hnext := start_lt_iff hsize hlen (i + 1)
    rw [Nat.add_mul, Nat.one_mul] at hnext
    rw [chunk, List.length_take, List.length_drop]
    omega

/-- Chunks do not overlap. -/
theorem eq_of_start_mem (hsize : 0 < size) {k : Nat} (hlo : k * size ≤ i * size)
    (hhi : i * size < k * size + (chunk xs size k).length) : i = k := by
  have hlen := length_chunk_le xs size k
  have hk := Nat.le_of_mul_le_mul_right hlo hsize
  have hi : i * size < (k + 1) * size := by
    rw [Nat.add_mul, Nat.one_mul]
    omega
  have := Nat.lt_of_mul_lt_mul_right hi
  omega

end Chunks
