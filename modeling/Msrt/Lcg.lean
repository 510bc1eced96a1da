import Mathlib.Algebra.Ring.GeomSum
import Mathlib.Algebra.Ring.Int.Parity
import Mathlib.RingTheory.Coprime.Lemmas
import Mathlib.Tactic.Ring

/-! # Linear congruential generators of full period

The map `x ↦ a * x + c` modulo `2 ^ k`, with `a` congruent to `1` modulo `4` and `c` odd, returns to
a value only after a multiple of `2 ^ k` steps (`two_pow_dvd_of_iterate_sub`).  Between `x` and its
`n`-th iterate lies an odd multiple of the geometric sum of `a` (`iterate_sub`), and that sum has no
more powers of two than `n`: doubling `n` multiplies it by `1 + a ^ n`, which is twice an odd number.
-/

namespace Lcg
open Finset

/-- One step, before it is reduced. -/
def next (a c x : ℤ) : ℤ := a * x + c

/-- The geometric sum of `n` terms. -/
def geom (a : ℤ) (n : ℕ) : ℤ := ∑ i ∈ range n, a ^ i

theorem geom_succ (a : ℤ) (n : ℕ) : geom a (n + 1) = a * geom a n + 1 := geom_sum_succ

theorem geom_add_self (a : ℤ) (n : ℕ) : geom a (n + n) = geom a n * (1 + a ^ n) := by
  unfold geom
  rw [sum_range_add, mul_add, mul_one, sum_mul]
  refine congrArg _ (sum_congr rfl ?_)
  intro i _
  rw [pow_add, mul_comm]

/-- The distance an iterate has gone. -/
theorem iterate_sub (a c x : ℤ) (n : ℕ) :
    (next a c)^[n] x - x = geom a n * ((a - 1) * x + c) := by
  induction n with
  | zero => simp [geom]
  | succ n ih =>
    have hstep : (next a c)^[n + 1] x = a * (next a c)^[n] x + c :=
      Function.iterate_succ_apply' _ _ _
    rw [hstep, geom_succ, eq_add_of_sub_eq ih]
    ring

section Odd
variable {a c : ℤ} (ha : 4 ∣ a - 1) (hc : Odd c)
include ha

theorem odd_multiplier : Odd a := by
  obtain ⟨b, hb⟩ := ha
  exact ⟨2 * b, by omega⟩

/-- A sum of `n` odd terms is even for even `n` only. -/
theorem even_of_even_geom {n : ℕ} (h : Even (geom a n)) : Even n := by
  have hparity : ∀ n : ℕ, Even (geom a n) ↔ Even n := by
    intro n
    induction n with
    | zero => simp [geom]
    | succ n ih =>
      have hodd : ¬ Even a := Int.not_even_iff_odd.mpr (odd_multiplier ha)
      rw [geom_succ, Int.even_add, Int.even_mul, Nat.even_add, ih]
      simp [hodd]
  exact (hparity n).mp h

/-- `1 + a ^ n` is twice an odd number. -/
theorem one_add_pow_eq (n : ℕ) : ∃ q : ℤ, 1 + a ^ n = 2 * (2 * q + 1) := by
  obtain ⟨q, hq⟩ : (4 : ℤ) ∣ a ^ n - 1 := by
    have := ha.trans (sub_dvd_pow_sub_pow a 1 n)
    rwa [one_pow] at this
  exact ⟨q, by omega⟩

/-- The geometric sum has no more powers of two than its length. -/
theorem two_pow_dvd_of_geom {k n : ℕ} (h : (2 : ℤ) ^ k ∣ geom a n) : 2 ^ k ∣ n := by
  induction k generalizing n with
  | zero => simp
  | succ k ih =>
    have heven : Even (geom a n) := even_iff_two_dvd.mpr ((dvd_pow_self 2 k.succ_ne_zero).trans h)
    obtain ⟨m, rfl⟩ := even_of_even_geom ha heven
    obtain ⟨q, hq⟩ := one_add_pow_eq ha m
    rw [geom_add_self, hq, pow_succ', mul_left_comm] at h
    have hodd : IsCoprime ((2 : ℤ) ^ k) (2 * q + 1) :=
      IsCoprime.pow_left ⟨-q, 1, by ring⟩
    obtain ⟨d, hd⟩ := ih (hodd.dvd_of_dvd_mul_right ((mul_dvd_mul_iff_left two_ne_zero).mp h))
    exact ⟨d, by rw [hd, pow_succ]; ring⟩

include hc

/-- **A value returns only after a multiple of `2 ^ k` steps.** -/
theorem two_pow_dvd_of_iterate_sub {k n : ℕ} {x : ℤ} (h : (2 : ℤ) ^ k ∣ (next a c)^[n] x - x) :
    2 ^ k ∣ n := by
  obtain ⟨b, hb⟩ := ha
  obtain ⟨d, hd⟩ := hc
  have hodd : IsCoprime ((2 : ℤ) ^ k) ((a - 1) * x + c) := by
    refine IsCoprime.pow_left ⟨-(2 * b * x + d), 1, ?_⟩
    rw [hb, hd]
    ring
  rw [iterate_sub] at h
  exact two_pow_dvd_of_geom ⟨b, hb⟩ (hodd.dvd_of_dvd_mul_right h)

end Odd

end Lcg
