import Mathlib
import Msrt.ShiftRegister

/-! # Registers divide polynomials

A word is a polynomial over the field of two elements, its bit `i` the coefficient of `X ^ i`; a
list of bits is one too, its first bit the leading coefficient.  Moving a register towards the most
significant bit multiplies by `X` and, whenever a bit is fed back, adds the generator
`X ^ w + poly`.  What is left in the register is therefore a remainder: that of the input times
`X ^ w` on division by the generator (`toPoly_run`).

The register that moves the other way is the same register read from the other end: its contents and
its taps are reversed, the bits fed in are the same (`run_reverse`).
-/

namespace ShiftRegister
open Polynomial

variable {w : Nat}

/-! ## Bits as coefficients -/

/-- A bit as a coefficient. -/
def bit (b : Bool) : ZMod 2 := if b then 1 else 0

theorem bit_xor (a b : Bool) : bit (a ^^ b) = bit a + bit b := by
  revert a b
  decide

/-- The polynomial of a word. -/
noncomputable def toPoly (c : BitVec w) : (ZMod 2)[X] :=
  ∑ i ∈ Finset.range w, C (bit (c.getLsbD i)) * X ^ i

/-- The polynomial of a list of bits, the leading coefficient first. -/
noncomputable def bitsPoly : List Bool → (ZMod 2)[X]
  | [] => 0
  | b :: bits => C (bit b) * X ^ bits.length + bitsPoly bits

/-- The polynomial a register divides by. -/
noncomputable def generator (poly : BitVec w) : (ZMod 2)[X] := X ^ w + toPoly poly

theorem coeff_toPoly (c : BitVec w) (i : Nat) : (toPoly c).coeff i = bit (c.getLsbD i) := by
  rw [toPoly, finsetSum_coeff]
  simp only [coeff_C_mul_X_pow]
  by_cases hi : i < w
  · rw [Finset.sum_eq_single_of_mem i (Finset.mem_range.mpr hi), if_pos rfl]
    intro j _ hj
    rw [if_neg (Ne.symm hj)]
  · rw [Finset.sum_eq_zero, BitVec.getLsbD_of_ge c i (by omega)]
    · rfl
    · intro j hj
      have := Finset.mem_range.mp hj
      rw [if_neg (by omega)]

theorem toPoly_xor (c d : BitVec w) : toPoly (c ^^^ d) = toPoly c + toPoly d := by
  ext i
  rw [coeff_add, coeff_toPoly, coeff_toPoly, coeff_toPoly, BitVec.getLsbD_xor, bit_xor]

theorem toPoly_zero : toPoly (0#w) = 0 := by
  ext i
  rw [coeff_toPoly, BitVec.getLsbD_zero, coeff_zero]
  rfl

theorem toPoly_taps (poly : BitVec w) (f : Bool) :
    toPoly (taps poly f) = C (bit f) * toPoly poly := by
  cases f with
  | false => simp [taps, bit, toPoly_zero]
  | true => simp [taps, bit]

/-- Moving along multiplies by `X`; the bit that leaves is the coefficient of `X ^ w`. -/
theorem toPoly_shiftLeft_one (hw : 0 < w) (c : BitVec w) :
    toPoly (c <<< 1) + C (bit (c.getLsbD (w - 1))) * X ^ w = toPoly c * X := by
  ext i
  rw [coeff_add, coeff_toPoly, coeff_C_mul_X_pow, BitVec.getLsbD_shiftLeft]
  cases i with
  | zero =>
    rw [if_neg (by omega), coeff_mul_X_zero]
    simp [bit]
  | succ i =>
    rw [coeff_mul_X, coeff_toPoly]
    by_cases hi : i + 1 < w
    · simp [hi, show ¬ i + 1 = w by omega]
    · by_cases htop : i + 1 = w
      · obtain rfl : i = w - 1 := by omega
        simp [bit, htop]
      · rw [BitVec.getLsbD_of_ge c i (by omega)]
        simp [bit, hi, htop]

theorem degree_toPoly_lt (c : BitVec w) : (toPoly c).degree < w := by
  rw [degree_lt_iff_coeff_zero]
  intro i hi
  rw [coeff_toPoly, BitVec.getLsbD_of_ge c i hi]
  rfl

theorem monic_generator (poly : BitVec w) : (generator poly).Monic :=
  monic_X_pow_add (degree_toPoly_lt poly)

theorem degree_generator (poly : BitVec w) : (generator poly).degree = w := by
  rw [generator, degree_add_eq_left_of_degree_lt]
  · exact degree_X_pow w
  · rw [degree_X_pow]
    exact degree_toPoly_lt poly

/-! ## The register towards the most significant bit -/

section Msb
variable {poly : BitVec w} {hw : 0 < w} {hpoly : poly.getLsbD 0 = true}

/-- One bit of input: what is fed back is the quotient, what stays is congruent. -/
theorem toPoly_step (c : BitVec w) (b : Bool) :
    toPoly ((msbFirst poly hw hpoly).step c b) +
        generator poly * C (bit (c.getLsbD (w - 1) ^^ b)) =
      toPoly c * X + C (bit b) * X ^ w := by
  have hshift := toPoly_shiftLeft_one hw c
  have hdouble := CharTwo.add_self_eq_zero (C (bit (c.getLsbD (w - 1) ^^ b)) * toPoly poly)
  show toPoly (c <<< 1 ^^^ taps poly (c.getLsbD (w - 1) ^^ b)) + _ = _
  rw [toPoly_xor, toPoly_taps, generator]
  have hsum : C (bit (c.getLsbD (w - 1) ^^ b)) = C (bit (c.getLsbD (w - 1))) + C (bit b) := by
    rw [bit_xor, C_add]
  rw [hsum] at hdouble ⊢
  -- the taps come in twice, with the push and with the generator, and cancel
  linear_combination hshift + hdouble

/-- A whole run: the contents, moved past the input, and the input times `X ^ w`, less a multiple
of the generator. -/
theorem exists_quotient (c : BitVec w) (bits : List Bool) :
    ∃ q, toPoly ((msbFirst poly hw hpoly).run c bits) + generator poly * q =
      toPoly c * X ^ bits.length + bitsPoly bits * X ^ w := by
  induction bits generalizing c with
  | nil =>
    refine ⟨0, ?_⟩
    show toPoly c + _ = toPoly c * X ^ 0 + 0 * X ^ w
    ring
  | cons b bits ih =>
    obtain ⟨q, hq⟩ := ih ((msbFirst poly hw hpoly).step c b)
    have hstep := @toPoly_step w poly hw hpoly c b
    -- the bit that is fed back is the next digit of the quotient
    refine ⟨q + C (bit (c.getLsbD (w - 1) ^^ b)) * X ^ bits.length, ?_⟩
    show toPoly ((msbFirst poly hw hpoly).run ((msbFirst poly hw hpoly).step c b) bits) + _ =
      toPoly c * X ^ (bits.length + 1) + (C (bit b) * X ^ bits.length + bitsPoly bits) * X ^ w
    linear_combination hq + X ^ bits.length * hstep

/-- **The register holds the remainder.** -/
theorem toPoly_run (c : BitVec w) (bits : List Bool) :
    toPoly ((msbFirst poly hw hpoly).run c bits) =
      (toPoly c * X ^ bits.length + bitsPoly bits * X ^ w) %ₘ generator poly := by
  obtain ⟨q, hq⟩ := @exists_quotient w poly hw hpoly c bits
  have hdegree : (toPoly ((msbFirst poly hw hpoly).run c bits)).degree < (generator poly).degree := by
    rw [degree_generator]
    exact degree_toPoly_lt _
  exact (div_modByMonic_unique q _ (monic_generator poly) ⟨hq, hdegree⟩).2.symm

/-- **A register that starts empty computes the remainder of its input**, times `X ^ w`. -/
theorem toPoly_run_zero (bits : List Bool) :
    toPoly ((msbFirst poly hw hpoly).run 0#w bits) = (bitsPoly bits * X ^ w) %ₘ generator poly := by
  rw [toPoly_run, toPoly_zero, zero_mul, zero_add]

end Msb

/-! ## The mirror image -/

section Mirror
variable {poly : BitVec w} {hw : 0 < w}

theorem reverse_taps (poly : BitVec w) (f : Bool) :
    (taps poly f).reverse = taps poly.reverse f := by
  cases f with
  | false =>
    show (0#w).reverse = 0#w
    exact BitVec.reverse_eq_zero_iff.mpr rfl
  | true => rfl

theorem reverse_xor (c d : BitVec w) : (c ^^^ d).reverse = c.reverse ^^^ d.reverse := by
  apply BitVec.eq_of_getLsbD_eq
  intro i hi
  rw [BitVec.getLsbD_xor, BitVec.getLsbD_reverse, BitVec.getLsbD_reverse, BitVec.getLsbD_reverse,
    BitVec.getMsbD_xor]

theorem reverse_shiftLeft_one (c : BitVec w) : (c <<< 1).reverse = c.reverse >>> 1 := by
  apply BitVec.eq_of_getLsbD_eq
  intro i hi
  rw [BitVec.getLsbD_reverse, BitVec.getLsbD_ushiftRight, BitVec.getLsbD_reverse,
    BitVec.getMsbD_shiftLeft, Nat.add_comm]

theorem getLsbD_reverse_zero (hw : 0 < w) (c : BitVec w) :
    c.reverse.getLsbD 0 = c.getLsbD (w - 1) := by
  rw [BitVec.getLsbD_reverse, BitVec.getMsbD]
  simp [hw]

/-- The taps of the mirror image feed its other end. -/
theorem getLsbD_reverse_last (hw : 0 < w) (c : BitVec w) :
    c.reverse.getLsbD (w - 1) = c.getLsbD 0 := by
  have h := getLsbD_reverse_zero hw c.reverse
  rw [BitVec.reverse_reverse_eq] at h
  exact h.symm

variable {hpoly : poly.getLsbD 0 = true} {hmirror : poly.reverse.getLsbD (w - 1) = true}

theorem step_reverse (c : BitVec w) (b : Bool) :
    (lsbFirst poly.reverse hw hmirror).step c.reverse b =
      ((msbFirst poly hw hpoly).step c b).reverse := by
  show c.reverse >>> 1 ^^^ taps poly.reverse (c.reverse.getLsbD 0 ^^ b) =
    (c <<< 1 ^^^ taps poly (c.getLsbD (w - 1) ^^ b)).reverse
  rw [reverse_xor, reverse_shiftLeft_one, reverse_taps, getLsbD_reverse_zero hw]

/-- **The two registers are mirror images.** -/
theorem run_reverse (c : BitVec w) (bits : List Bool) :
    (lsbFirst poly.reverse hw hmirror).run c.reverse bits =
      ((msbFirst poly hw hpoly).run c bits).reverse := by
  induction bits generalizing c with
  | nil => rfl
  | cons b bits ih =>
    show (lsbFirst poly.reverse hw hmirror).run
      ((lsbFirst poly.reverse hw hmirror).step c.reverse b) bits = _
    rw [@step_reverse w poly hw hpoly hmirror c b]
    exact ih _

end Mirror

end ShiftRegister
