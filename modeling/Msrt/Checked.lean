import Mathlib.Data.List.Basic
import Mathlib.Algebra.Order.Group.Nat

/-! # Checked machine operations

What a compiled program computes when every arithmetic operation and every array access is checked:
a sum that does not fit a machine word, a difference below zero, an index or a range outside of its
array, a copy between slices of different lengths all stop the run.  `Checked t` is the type of such
computations on a target `t`, whose words have at least sixteen bits.

An array is the list of its cells.  Each operation has one equation that says when it succeeds and
with which value (`add_eq`, `index_eq`, `write_eq`, ..), and a client evaluates a checked program by
rewriting with these, left to right.  A bounded loop that has not ended in the rounds it was given
stops with `outOfFuel`, so that a run that succeeds is one whose loops all end.
-/

/-- Why a run stops. -/
inductive Panic where
  | overflow
  | outOfBounds
  | lengthMismatch
  | divisionByZero
  | emptyRange
  | outOfFuel
  deriving DecidableEq, Repr

/-- A target machine, given by the width of its addresses. -/
structure Target where
  bits : Nat
  sixteen_le : 16 ≤ bits

namespace Target

/-- The largest value of an address-sized word. -/
def usizeMax (t : Target) : Nat := 2 ^ t.bits - 1

/-- The largest number of bytes an object can have. -/
def isizeMax (t : Target) : Nat := 2 ^ (t.bits - 1) - 1

theorem le_usizeMax (t : Target) : 65535 ≤ t.usizeMax := by
  have h : 2 ^ 16 ≤ 2 ^ t.bits := Nat.pow_le_pow_right (by decide) t.sixteen_le
  unfold usizeMax
  omega

theorem le_isizeMax (t : Target) : 32767 ≤ t.isizeMax := by
  have h : 2 ^ 15 ≤ 2 ^ (t.bits - 1) :=
    Nat.pow_le_pow_right (by decide) (by have := t.sixteen_le; omega)
  unfold isizeMax
  omega

/-- An object and as many bytes again as half of the smallest address space fit a word. -/
theorem isizeMax_add_le (t : Target) : t.isizeMax + 32768 ≤ t.usizeMax := by
  have hbits : t.bits = t.bits - 1 + 1 := by have := t.sixteen_le; omega
  have hhalf : 2 ^ 15 ≤ 2 ^ (t.bits - 1) :=
    Nat.pow_le_pow_right (by decide) (by have := t.sixteen_le; omega)
  have hdouble : 2 ^ t.bits = 2 * 2 ^ (t.bits - 1) := by
    conv_lhs => rw [hbits]
    rw [Nat.pow_succ, Nat.mul_comm]
  unfold isizeMax usizeMax
  omega

end Target

/-- A computation on the target that may panic. -/
def Checked (_t : Target) (α : Type) : Type := Except Panic α

namespace Checked
variable {t : Target} {α β : Type}

instance : Monad (Checked t) := inferInstanceAs (Monad (Except Panic))

instance : LawfulMonad (Checked t) := inferInstanceAs (LawfulMonad (Except Panic))

/-- The operation panics. -/
def fail (reason : Panic) : Checked t α := Except.error reason

/-! ## Arithmetic -/

/-- A sum that panics beyond `usize::MAX`. -/
def add (a b : Nat) : Checked t Nat :=
  if a + b ≤ t.usizeMax then pure (a + b) else fail .overflow

/-- A difference that panics below zero. -/
def sub (a b : Nat) : Checked t Nat := if b ≤ a then pure (a - b) else fail .overflow

/-- A product that panics beyond `usize::MAX`. -/
def mul (a b : Nat) : Checked t Nat :=
  if a * b ≤ t.usizeMax then pure (a * b) else fail .overflow

/-- A quotient that panics on a zero divisor. -/
def div (a b : Nat) : Checked t Nat := if b = 0 then fail .divisionByZero else pure (a / b)

/-- A remainder that panics on a zero divisor. -/
def rem (a b : Nat) : Checked t Nat := if b = 0 then fail .divisionByZero else pure (a % b)

/-- The value nearest to `a` between two bounds, which must be in order. -/
def clamp (a low high : Nat) : Checked t Nat :=
  if low ≤ high then pure (min (max a low) high) else fail .emptyRange

/-- A word shifted to the left by less than its width. -/
def shl {w : Nat} (a : BitVec w) (count : Nat) : Checked t (BitVec w) :=
  if count < w then pure (a <<< count) else fail .overflow

/-- A difference of words. -/
def subWord {w : Nat} (a b : BitVec w) : Checked t (BitVec w) :=
  if b ≤ a then pure (a - b) else fail .overflow

/-- A sum of 64-bit words. -/
def addWord (a b : UInt64) : Checked t UInt64 :=
  if a.toNat + b.toNat < 2 ^ 64 then pure (a + b) else fail .overflow

/-- A product of 64-bit words. -/
def mulWord (a b : UInt64) : Checked t UInt64 :=
  if a.toNat * b.toNat < 2 ^ 64 then pure (a * b) else fail .overflow

theorem add_eq {a b : Nat} (h : a + b ≤ t.usizeMax) : (add a b : Checked t Nat) = pure (a + b) :=
  if_pos h

/-- A sum that fits the smallest word fits every word. -/
theorem add_small {a b : Nat} (h : a + b ≤ 65535) : (add a b : Checked t Nat) = pure (a + b) :=
  add_eq (Nat.le_trans h t.le_usizeMax)

theorem sub_eq {a b : Nat} (h : b ≤ a) : (sub a b : Checked t Nat) = pure (a - b) := if_pos h

theorem mul_small {a b : Nat} (h : a * b ≤ 65535) : (mul a b : Checked t Nat) = pure (a * b) :=
  if_pos (Nat.le_trans h t.le_usizeMax)

theorem div_eq {a b : Nat} (h : 0 < b) : (div a b : Checked t Nat) = pure (a / b) :=
  if_neg (Nat.ne_of_gt h)

theorem rem_eq {a b : Nat} (h : 0 < b) : (rem a b : Checked t Nat) = pure (a % b) :=
  if_neg (Nat.ne_of_gt h)

theorem clamp_eq {a low high : Nat} (h : low ≤ high) :
    (clamp a low high : Checked t Nat) = pure (min (max a low) high) := if_pos h

theorem addWord_eq {a b : UInt64} (h : a.toNat + b.toNat < 2 ^ 64) :
    (addWord a b : Checked t UInt64) = pure (a + b) ∧ (a + b).toNat = a.toNat + b.toNat := by
  refine ⟨if_pos h, ?_⟩
  rw [UInt64.toNat_add, Nat.mod_eq_of_lt h]

theorem mulWord_eq {a b : UInt64} (h : a.toNat * b.toNat < 2 ^ 64) :
    (mulWord a b : Checked t UInt64) = pure (a * b) ∧ (a * b).toNat = a.toNat * b.toNat := by
  refine ⟨if_pos h, ?_⟩
  rw [UInt64.toNat_mul, Nat.mod_eq_of_lt h]

theorem shl_eq {w : Nat} {a : BitVec w} {count : Nat} (h : count < w) :
    (shl a count : Checked t (BitVec w)) = pure (a <<< count) := if_pos h

/-! ## Arrays -/

/-- The cell at a position. -/
def index (cells : List α) (i : Nat) : Checked t α :=
  match cells[i]? with
  | some x => pure x
  | none => fail .outOfBounds

/-- Writes the cell at a position. -/
def set (cells : List α) (i : Nat) (x : α) : Checked t (List α) :=
  if i < cells.length then pure (cells.set i x) else fail .outOfBounds

/-- The cells from `low` up to `high`. -/
def slice (cells : List α) (low high : Nat) : Checked t (List α) :=
  if low ≤ high ∧ high ≤ cells.length then pure ((cells.take high).drop low)
  else fail .outOfBounds

/-- The cells before and from a position. -/
def splitAt (cells : List α) (mid : Nat) : Checked t (List α × List α) :=
  if mid ≤ cells.length then pure (cells.take mid, cells.drop mid) else fail .outOfBounds

/-- Copies `values` over the cells from `low` up to `high`. -/
def write (cells : List α) (low high : Nat) (values : List α) : Checked t (List α) :=
  if low ≤ high ∧ high ≤ cells.length then
    if values.length = high - low then pure (cells.take low ++ values ++ cells.drop high)
    else fail .lengthMismatch
  else fail .outOfBounds

/-- Moves the cells from `low` up to `high` to the front. -/
def moveToFront (cells : List α) (low high : Nat) : Checked t (List α) :=
  if low ≤ high ∧ high ≤ cells.length then
    pure ((cells.take high).drop low ++ cells.drop (high - low))
  else fail .outOfBounds

theorem index_eq {cells : List α} {i : Nat} {x : α} (h : cells[i]? = some x) :
    (index cells i : Checked t α) = pure x := by
  unfold index
  rw [h]

theorem set_eq {cells : List α} {i : Nat} {x : α} (h : i < cells.length) :
    (set cells i x : Checked t (List α)) = pure (cells.set i x) := if_pos h

theorem slice_eq {cells : List α} {low high : Nat} (h : low ≤ high ∧ high ≤ cells.length) :
    (slice cells low high : Checked t (List α)) = pure ((cells.take high).drop low) := if_pos h

theorem splitAt_eq {cells : List α} {mid : Nat} (h : mid ≤ cells.length) :
    (splitAt cells mid : Checked t _) = pure (cells.take mid, cells.drop mid) := if_pos h

theorem write_eq {cells values : List α} {low high : Nat}
    (h : high ≤ cells.length) (hlen : low + values.length = high) :
    (write cells low high values : Checked t (List α)) =
      pure (cells.take low ++ values ++ cells.drop (low + values.length)) := by
  unfold write
  rw [if_pos ⟨by omega, h⟩, if_pos (by omega), hlen]

theorem moveToFront_eq {cells : List α} {low high : Nat} (h : low ≤ high ∧ high ≤ cells.length) :
    (moveToFront cells low high : Checked t (List α)) =
      pure ((cells.take high).drop low ++ cells.drop (high - low)) := if_pos h

/-! ### Filling a buffer from its start -/

/-- A buffer once `done` has been written at its start. -/
def fill (out done : List α) : List α := done ++ out.drop done.length

@[simp] theorem length_fill {out done : List α} (h : done.length ≤ out.length) :
    (fill out done).length = out.length := by
  rw [fill, List.length_append, List.length_drop]
  omega

theorem take_fill (out done : List α) : (fill out done).take done.length = done :=
  List.take_left

theorem drop_fill (out done : List α) : (fill out done).drop done.length = out.drop done.length :=
  List.drop_left

/-- Filling the part behind what has been written. -/
theorem append_fill (out done values : List α) :
    done ++ fill (out.drop done.length) values = fill out (done ++ values) := by
  rw [fill, fill, List.drop_drop, List.length_append, List.append_assoc]

/-- Writing right behind what has been written. -/
theorem write_fill {out done values : List α} {low high : Nat} (hlow : done.length = low)
    (hhigh : low + values.length = high) (h : high ≤ out.length) :
    (write (fill out done) low high values : Checked t (List α)) =
      pure (fill out (done ++ values)) := by
  rw [write_eq (by rw [length_fill (by omega)]; exact h) hhigh, ← hlow, take_fill,
    ← List.drop_drop, drop_fill, List.drop_drop, fill, List.length_append]

/-- Writing at the start. -/
theorem write_start {out values : List α} {high : Nat} (hhigh : values.length = high)
    (h : high ≤ out.length) :
    (write out 0 high values : Checked t (List α)) = pure (fill out values) := by
  rw [write_eq h (by omega), List.take_zero, List.nil_append, Nat.zero_add, fill]

/-- Writing one cell right behind what has been written. -/
theorem set_fill {out done : List α} {i : Nat} {x : α} (hi : done.length = i)
    (h : i < out.length) :
    (set (fill out done) i x : Checked t (List α)) = pure (fill out (done ++ [x])) := by
  rw [set_eq (by rw [length_fill (by omega)]; exact h), ← hi, fill,
    List.set_append_right _ _ (Nat.le_refl _), Nat.sub_self, fill, List.length_append,
    List.length_singleton, List.drop_eq_getElem_cons (by omega), List.set_cons_zero,
    List.append_assoc, List.singleton_append]

/-- Writing the first cell. -/
theorem set_start {out : List α} {x : α} (h : 0 < out.length) :
    (set out 0 x : Checked t (List α)) = pure (fill out [x]) := by
  exact set_fill (List.length_nil (α := α)) h

/-- What has not been written yet. -/
theorem slice_fill {out done : List α} {low high : Nat} (hlow : done.length = low)
    (hhigh : out.length = high) (h : low ≤ high) :
    (slice (fill out done) low high : Checked t (List α)) = pure (out.drop low) := by
  have hlen : (fill out done).length = high := by rw [length_fill (by omega), hhigh]
  rw [slice_eq ⟨h, Nat.le_of_eq hlen.symm⟩, List.take_of_length_le (Nat.le_of_eq hlen), ← hlow,
    drop_fill]

/-- What has been written. -/
theorem slice_fill_start {out done : List α} (h : done.length ≤ out.length) :
    (slice (fill out done) 0 done.length : Checked t (List α)) = pure done := by
  rw [slice_eq ⟨Nat.zero_le _, by rw [length_fill h]; exact h⟩, take_fill, List.drop_zero]

/-! ### Walking over an array -/

/-- Reads `count` cells one by one, from position `i` on. -/
def readCells (cells : List α) : Nat → Nat → Checked t (List α)
  | 0, _ => pure []
  | count + 1, i => do
    let x ← index cells i
    let xs ← readCells cells count (i + 1)
    return x :: xs

theorem readCells_eq {cells : List α} {count i : Nat} (h : i + count ≤ cells.length) :
    (readCells cells count i : Checked t (List α)) = pure ((cells.drop i).take count) := by
  induction count generalizing i with
  | zero => rw [readCells, List.take_zero]
  | succ count ih =>
    have hi : i < cells.length := by omega
    rw [readCells, index_eq (List.getElem?_eq_getElem hi), pure_bind, ih (by omega), pure_bind,
      List.drop_eq_getElem_cons hi, List.take_succ_cons]

/-- `while i < cells.len() { acc = body(i, acc, cells[i]); i += 1 }`, for the last `remaining`
positions. -/
def foldCells (body : Nat → β → α → Checked t β) (cells : List α) : Nat → Nat → β → Checked t β
  | 0, _, acc => pure acc
  | remaining + 1, i, acc => do
    let x ← index cells i
    let acc ← body i acc x
    let i ← add i 1
    foldCells body cells remaining i acc

/-- A walk whose rounds all succeed is a fold. -/
theorem foldCells_eq {body : Nat → β → α → Checked t β} {f : β → α × Nat → β} {cells : List α}
    (hbody : ∀ i acc x, i < cells.length → body i acc x = pure (f acc (x, i)))
    (hlen : cells.length ≤ 65535) {remaining i : Nat} (acc : β)
    (h : i + remaining = cells.length) :
    foldCells body cells remaining i acc = pure (((cells.drop i).zipIdx i).foldl f acc) := by
  induction remaining generalizing i acc with
  | zero => rw [foldCells, List.drop_of_length_le (by omega)]; rfl
  | succ remaining ih =>
    have hi : i < cells.length := by omega
    rw [foldCells, index_eq (List.getElem?_eq_getElem hi), pure_bind, hbody i acc _ hi, pure_bind,
      add_small (by omega), pure_bind, ih _ (by omega), List.drop_eq_getElem_cons hi,
      List.zipIdx_cons, List.foldl_cons]

/-- A walk that does not look at its positions. -/
theorem foldCells_eq_foldl {body : Nat → β → α → Checked t β} {f : β → α → β} {cells : List α}
    (hbody : ∀ i acc x, body i acc x = pure (f acc x)) (hlen : cells.length ≤ 65535) (acc : β) :
    foldCells body cells cells.length 0 acc = pure (cells.foldl f acc) := by
  have hfst : ∀ (l : List α) (i : Nat) (acc : β),
      (l.zipIdx i).foldl (fun acc cell => f acc cell.1) acc = l.foldl f acc := by
    intro l
    induction l with
    | nil => intro _ _; rfl
    | cons x l ih => intro i acc; rw [List.zipIdx_cons, List.foldl_cons, List.foldl_cons, ih]
  rw [foldCells_eq (f := fun acc cell => f acc cell.1) (fun i acc x _ => hbody i acc x) hlen acc
    (Nat.zero_add _), List.drop_zero, hfst]

/-- A loop over written-down entries, each round of which succeeds and keeps an invariant. -/
theorem foldlM_eq {γ δ : Type} {body : β → α → Checked t β} {g : γ → δ → γ} {f : γ → β} {e : δ → α}
    {I : γ → Prop} (hbody : ∀ c x, I c → body (f c) (e x) = pure (f (g c x)))
    (hinv : ∀ c x, I c → I (g c x)) (xs : List δ) {c : γ} (hc : I c) :
    (xs.map e).foldlM body (f c) = pure (f (xs.foldl g c)) := by
  induction xs generalizing c with
  | nil => rfl
  | cons x xs ih =>
    rw [List.map_cons, List.foldlM_cons, hbody c x hc, pure_bind, ih (hinv c x hc), List.foldl_cons]

end Checked
