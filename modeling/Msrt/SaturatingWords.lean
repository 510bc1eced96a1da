import Mathlib.Algebra.Order.Ring.Nat
import Mathlib.Data.UInt

/-! # Saturating words

Sums and products of 64-bit words that stop at the largest word.  Over the natural numbers such an
operation is the exact one followed by `clip`, and `clip` commutes with sums, products and maxima
(`clip_add_left`, `clip_mul`, `clip_max`), so that an expression of saturating operations is the exact
expression clipped once, however deep it is.

A power of two that does not fit a word is one more clipped number (`toNat_shiftOrMax`).
-/

namespace SaturatingWords

/-- The word nearest to a number. -/
def clip (n : Nat) : Nat := min (2 ^ 64 - 1) n

theorem clip_of_lt {n : Nat} (h : n < 2 ^ 64) : clip n = n := by
  unfold clip
  omega

theorem clip_of_le {n : Nat} (h : 2 ^ 64 ≤ n) : clip n = 2 ^ 64 - 1 := by
  unfold clip
  omega

theorem clip_mono {n m : Nat} (h : n ≤ m) : clip n ≤ clip m := min_le_min_left _ h

/-! ## Clipping once is enough -/

theorem clip_add_left (n m : Nat) : clip (clip n + m) = clip (n + m) := by
  unfold clip
  omega

theorem clip_add_right (n m : Nat) : clip (n + clip m) = clip (n + m) := by
  unfold clip
  omega

theorem clip_max (n m : Nat) : max (clip n) (clip m) = clip (max n m) := by
  unfold clip
  omega

theorem clip_mul_left (n m : Nat) : clip (clip n * m) = clip (n * m) := by
  rcases Nat.lt_or_ge n (2 ^ 64) with hn | hn
  · rw [clip_of_lt hn]
  · rcases Nat.eq_zero_or_pos m with rfl | hm
    · rw [Nat.mul_zero, Nat.mul_zero]
    · -- both products are too large for a word
      have hclipped : 2 ^ 64 - 1 ≤ clip n * m := by
        rw [clip_of_le hn]
        exact Nat.le_mul_of_pos_right _ hm
      have hexact : n ≤ n * m := Nat.le_mul_of_pos_right _ hm
      unfold clip at hclipped ⊢
      omega

theorem clip_mul (n m : Nat) : clip (clip n * clip m) = clip (n * m) := by
  rw [clip_mul_left, Nat.mul_comm, clip_mul_left, Nat.mul_comm]

/-! ## The operations -/

/-- `u64::saturating_add`. -/
def saturatingAdd (a b : UInt64) : UInt64 :=
  if a.toNat + b.toNat < 2 ^ 64 then a + b else -1

/-- `u64::saturating_mul`. -/
def saturatingMul (a b : UInt64) : UInt64 :=
  if a.toNat * b.toNat < 2 ^ 64 then a * b else -1

/-- A word shifted to the left by less than its width. -/
def checkedShl (a : UInt64) (count : Nat) : Option UInt64 :=
  if count < 64 then some (a <<< UInt64.ofNat count) else none

/-- The distance of two words. -/
def absDiff (a b : UInt64) : UInt64 := if a < b then b - a else a - b

theorem toNat_saturatingAdd (a b : UInt64) :
    (saturatingAdd a b).toNat = clip (a.toNat + b.toNat) := by
  by_cases h : a.toNat + b.toNat < 2 ^ 64
  · rw [saturatingAdd, if_pos h, UInt64.toNat_add, Nat.mod_eq_of_lt h, clip_of_lt h]
  · rw [saturatingAdd, if_neg h, clip_of_le (Nat.not_lt.mp h)]
    rfl

theorem toNat_saturatingMul (a b : UInt64) :
    (saturatingMul a b).toNat = clip (a.toNat * b.toNat) := by
  by_cases h : a.toNat * b.toNat < 2 ^ 64
  · rw [saturatingMul, if_pos h, UInt64.toNat_mul, Nat.mod_eq_of_lt h, clip_of_lt h]
  · rw [saturatingMul, if_neg h, clip_of_le (Nat.not_lt.mp h)]
    rfl

/-- **A shift that is replaced by the largest word is a clipped power of two.** -/
theorem toNat_shiftOrMax (count : Nat) :
    ((checkedShl 1 count).getD (-1)).toNat = clip (2 ^ count) := by
  by_cases h : count < 64
  · have hpow : 2 ^ count < 2 ^ 64 := Nat.pow_lt_pow_right (by decide) h
    have hcount : (UInt64.ofNat count).toNat % 64 = count := by
      rw [UInt64.toNat_ofNat']
      omega
    rw [checkedShl, if_pos h, Option.getD_some, UInt64.toNat_shiftLeft, hcount, Nat.shiftLeft_eq, clip_of_lt hpow]
    show 1 * 2 ^ count % 2 ^ 64 = 2 ^ count
    rw [Nat.one_mul, Nat.mod_eq_of_lt hpow]
  · rw [checkedShl, if_neg h, clip_of_le (Nat.pow_le_pow_right (by decide) (Nat.not_lt.mp h))]
    rfl

theorem toNat_absDiff (a b : UInt64) :
    (absDiff a b).toNat = max a.toNat b.toNat - min a.toNat b.toNat := by
  by_cases h : a < b
  · have hle : a ≤ b := UInt64.le_of_lt h
    rw [absDiff, if_pos h, UInt64.toNat_sub_of_le _ _ hle]
    have := UInt64.le_iff_toNat_le.mp hle
    omega
  · have hle : b ≤ a := UInt64.not_lt.mp h
    rw [absDiff, if_neg h, UInt64.toNat_sub_of_le _ _ hle]
    have := UInt64.le_iff_toNat_le.mp hle
    omega

end SaturatingWords
